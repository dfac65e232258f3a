/-
The position limit of a client whose orders all go through `moveOrders`.

The check before a new order looks at the position, not at the orders that
are working. It is enough because a slot has at most one order open
(`Tracks`): a new one is sent from a free slot only, and a slot is free
only when its last order has been filled or cancelled. So a position can
still move by the rest of one order on either side, and each of the two
was within the limit when it was sent; a fill of one moves the position
away from the limit the other one counts towards (`Inv.room`).

`SentOrder` is an order as its answers have left it, and `Answered` what
answers an order can get. Nothing is asked of when they come, and a cancel
may be answered whether it was sent or not.
-/
import ElectronicTrading.Lib.Runs
import ElectronicTrading.Trading.RiskManager

namespace ElectronicTrading

open Runs

-- ================================================================ answers

/-- An order that was sent, as its answers have left it. -/
structure SentOrder where
  request : MatchingEngineClientRequest
  accepted : Bool := false
  executed : Nat := 0
  cancelled : Bool := false

namespace SentOrder

def quantity (o : SentOrder) : Nat := o.request.quantity.toNat

def remaining (o : SentOrder) : Int := o.quantity - o.executed

/-- The order can still be filled. -/
def IsWorking (o : SentOrder) : Prop :=
  o.cancelled = false ∧ o.executed < o.quantity

/-- The order can still be answered. One of no quantity never works, but
can be accepted and cancelled. -/
def IsOpen (o : SentOrder) : Prop :=
  o.cancelled = false ∧ (o.executed < o.quantity ∨ o.quantity = 0)

def IsFor (o : SentOrder) (tickerId : TickerID) (side : Side) : Prop :=
  o.request.tickerId = tickerId ∧ o.request.side = side

instance (o : SentOrder) : Decidable o.IsWorking :=
  inferInstanceAs (Decidable (_ ∧ _))

instance (o : SentOrder) : Decidable o.IsOpen :=
  inferInstanceAs (Decidable (_ ∧ _))

instance (o : SentOrder) (tickerId : TickerID) (side : Side) :
    Decidable (o.IsFor tickerId side) :=
  inferInstanceAs (Decidable (_ ∧ _))

theorem IsWorking.isOpen {o : SentOrder} (h : o.IsWorking) : o.IsOpen :=
  ⟨h.1, .inl h.2⟩

/-- The answers an order can get, and what they leave it as: one ACCEPTED,
then FILLEDs of no more than its quantity, with exact leaves; a CANCELLED
ends it, if it has not been filled. A CANCEL_REJECTED comes without a
side. -/
inductive Answered (o : SentOrder) :
    MatchingEngineClientResponse → SentOrder → Prop
  | accepted {r : MatchingEngineClientResponse} :
      r.type = .accepted → o.IsFor r.tickerId r.side → o.IsOpen →
      o.accepted = false → o.executed = 0 →
      Answered o r { o with accepted := true }
  | filled {r : MatchingEngineClientResponse} :
      r.type = .filled → o.IsFor r.tickerId r.side → o.IsWorking →
      o.executed + r.execQuantity.toNat + r.leavesQuantity.toNat
        = o.quantity →
      Answered o r { o with executed := o.executed + r.execQuantity.toNat }
  | cancelled {r : MatchingEngineClientResponse} :
      r.type = .cancelled → o.IsFor r.tickerId r.side → o.IsOpen →
      Answered o r { o with cancelled := true }
  | cancelRejected {r : MatchingEngineClientResponse} :
      r.type = .cancelRejected → r.side = .invalid → Answered o r o

/-- The orders of a list of requests. -/
def ofRequests (requests : List MatchingEngineClientRequest) :
    List SentOrder :=
  (requests.filter (·.type = .new)).map fun request => { request := request }

end SentOrder

-- ============================================================= the client

/-- A client's desk, and every order it has sent. -/
structure Market where
  desk : Desk
  orders : List SentOrder

namespace Market

/-- A flat client that has sent nothing. -/
def new (clientId : ClientID) (riskConfig : TickerID → RiskConfig) :
    Market where
  desk := .new clientId riskConfig
  orders := []

inductive Act where
  | moveOrders (tickerId : TickerID) (bidPrice askPrice : Price)
      (clip : Quantity)
  | answer (clientResponse : MatchingEngineClientResponse)
  | updateBBO (tickerId : TickerID) (bbo : BBO)

/-- A call of `moveOrders`, the answer to one of the orders, or a new
BBO. -/
def Step (s : Market) : Act → Market → Prop
  | .moveOrders tickerId bidPrice askPrice clip, s' =>
      (Desk.moveOrders tickerId bidPrice askPrice clip).run s.desk
          = .ok () s'.desk
        ∧ ∃ requests, s'.desk.orderManager.requests
            = s.desk.orderManager.requests ++ requests
          ∧ s'.orders = s.orders ++ SentOrder.ofRequests requests
  | .answer clientResponse, s' =>
      (Desk.onOrderUpdate clientResponse).run s.desk = .ok () s'.desk
        ∧ ∃ before o after o', s.orders = before ++ o :: after
          ∧ o.Answered clientResponse o'
          ∧ s'.orders = before ++ o' :: after
  | .updateBBO tickerId bbo, s' =>
      (Desk.updateBBO tickerId bbo).run s.desk = .ok () s'.desk
        ∧ s'.orders = s.orders

/-- The orders of a ticker and side that are working at the exchange. -/
def working (s : Market) (tickerId : TickerID) (side : Side) :
    List SentOrder :=
  s.orders.filter fun o => o.IsWorking ∧ o.IsFor tickerId side

def position (s : Market) (tickerId : TickerID) : Int :=
  (s.desk.positionKeeper.tickerPosition tickerId).position

end Market

/-- What the executions of an order move the position of a ticker by. -/
def SentOrder.moves (o : SentOrder) (tickerId : TickerID) : Int :=
  if o.request.tickerId = tickerId then
    sideToValue o.request.side * o.executed
  else 0

/-- What was bought of a ticker, less what was sold. -/
def netExecuted (orders : List SentOrder) (tickerId : TickerID) : Int :=
  (orders.map (·.moves tickerId)).sum

-- =============================================================== the slots

def IsTradeSide (side : Side) : Prop := side = .buy ∨ side = .sell

/-- The orders of a ticker and side that can still be answered. -/
def openFor (orders : List SentOrder) (tickerId : TickerID) (side : Side) :
    List SentOrder :=
  orders.filter fun o => o.IsOpen ∧ o.IsFor tickerId side

/-- What the state of a slot says of the open orders. -/
def Tracks (x : OMOrder) (orders : List SentOrder) : Prop :=
  match x.orderState with
  | .invalid | .dead => orders = []
  | .pendingNew | .live | .pendingCancel => ∃ o, orders = [o]

/-- One order of a list replaced by another. -/
theorem netExecuted_around (before after : List SentOrder) (o o' : SentOrder)
    (tickerId : TickerID) :
    netExecuted (before ++ o' :: after) tickerId
      = netExecuted (before ++ o :: after) tickerId
        + (o'.moves tickerId - o.moves tickerId) := by
  unfold netExecuted
  simp only [List.map_append, List.map_cons, List.sum_append, List.sum_cons]
  ring

section Slots

variable {orders before after : List SentOrder} {o o' : SentOrder}
  {tickerId : TickerID} {side : Side} {x : OMOrder}

theorem mem_openFor :
    o ∈ openFor orders tickerId side
      ↔ o ∈ orders ∧ o.IsOpen ∧ o.IsFor tickerId side := by
  unfold openFor
  rw [List.mem_filter, decide_eq_true_iff]

theorem openFor_append (l l' : List SentOrder) :
    openFor (l ++ l') tickerId side
      = openFor l tickerId side ++ openFor l' tickerId side :=
  List.filter_append ..

theorem openFor_singleton :
    openFor [o] tickerId side
      = if o.IsOpen ∧ o.IsFor tickerId side then [o] else [] := by
  unfold openFor
  by_cases h : o.IsOpen ∧ o.IsFor tickerId side
  · simp [h]
  · rw [if_neg h]
    simpa using h

/-- A slot has at most one order open. -/
theorem Tracks.length_le (h : Tracks x orders) : orders.length ≤ 1 := by
  unfold Tracks at h
  cases hstate : x.orderState with
  | invalid | dead =>
      rw [hstate] at h
      rw [show orders = [] from h]
      exact Nat.zero_le 1
  | pendingNew | live | pendingCancel =>
      rw [hstate] at h
      obtain ⟨o, rfl⟩ := h
      exact Nat.le_refl 1

/-- The open order of a slot is the only one. -/
theorem Tracks.eq_singleton (h : Tracks x orders) (ho : o ∈ orders) :
    orders = [o] := by
  have hlength := h.length_le
  cases orders with
  | nil => cases ho
  | cons o' rest =>
      rw [List.length_cons] at hlength
      have hrest : rest = [] := List.eq_nil_of_length_eq_zero (by omega)
      rw [hrest] at ho ⊢
      rw [List.mem_singleton.1 ho]

theorem openFor_cons (before after : List SentOrder) (o : SentOrder) :
    openFor (before ++ o :: after) tickerId side
      = openFor before tickerId side ++ openFor [o] tickerId side
        ++ openFor after tickerId side := by
  rw [← openFor_append, ← openFor_append, List.append_assoc]
  rfl

/-- The orders around the only open one. -/
theorem openFor_around
    (h : openFor (before ++ o :: after) tickerId side = [o])
    (ho : o.IsOpen ∧ o.IsFor tickerId side) :
    openFor before tickerId side = [] ∧ openFor after tickerId side = [] := by
  rw [openFor_cons, openFor_singleton, if_pos ho] at h
  have hlength := congrArg List.length h
  rw [List.length_append, List.length_append, List.length_singleton] at hlength
  constructor
  · exact List.eq_nil_of_length_eq_zero (by omega)
  · exact List.eq_nil_of_length_eq_zero (by omega)

/-- An order takes the place of the one that is open. -/
theorem openFor_replace
    (h : openFor (before ++ o :: after) tickerId side = [o])
    (ho : o.IsOpen ∧ o.IsFor tickerId side) :
    openFor (before ++ o' :: after) tickerId side
      = if o'.IsOpen ∧ o'.IsFor tickerId side then [o'] else [] := by
  obtain ⟨hbefore, hafter⟩ := openFor_around h ho
  rw [openFor_cons, openFor_singleton, hbefore, hafter, List.nil_append,
    List.append_nil]

/-- An order that is not of a ticker and side is replaced by another such
one. -/
theorem openFor_other (ho : ¬ o.IsFor tickerId side)
    (ho' : ¬ o'.IsFor tickerId side) :
    openFor (before ++ o' :: after) tickerId side
      = openFor (before ++ o :: after) tickerId side := by
  rw [openFor_cons, openFor_cons, openFor_singleton, openFor_singleton,
    if_neg fun h => ho' h.2, if_neg fun h => ho h.2]

/-- A trade side has a slot of its own. -/
theorem sideToIndex_injective {side side' : Side} (h : IsTradeSide side)
    (h' : IsTradeSide side') (heq : sideToIndex side = sideToIndex side') :
    side = side' := by
  rcases h with rfl | rfl
  · rcases h' with rfl | rfl
    · rfl
    · cases heq
  · rcases h' with rfl | rfl
    · cases heq
    · rfl

end Slots

-- =========================================================== the invariant

/-- Slots, position and what the open orders can still do to it. -/
structure Inv (riskConfig : TickerID → RiskConfig) (s : Market) : Prop where
  config : s.desk.riskManager.riskConfig = riskConfig
  sides : ∀ o ∈ s.orders, IsTradeSide o.request.side
  slots : ∀ tickerId side, IsTradeSide side →
    Tracks (s.desk.orderManager.tickerSideOrders (tickerId, sideToIndex side))
      (openFor s.orders tickerId side)
  executed : ∀ o ∈ s.orders, o.executed ≤ o.quantity
  settled : ∀ tickerId, s.position tickerId = netExecuted s.orders tickerId
  within : ∀ tickerId, |s.position tickerId|
    ≤ (riskConfig tickerId).maxPosition.toNat
  room : ∀ o ∈ s.orders, o.IsOpen →
    |s.position o.request.tickerId
        + sideToValue o.request.side * o.remaining|
      ≤ (riskConfig o.request.tickerId).maxPosition.toNat

/-- "max_order_size and max_position below 2^30". -/
def Moderate (riskConfig : TickerID → RiskConfig) : Prop :=
  ∀ tickerId, (riskConfig tickerId).maxOrderSize.toNat < 2 ^ 30
    ∧ (riskConfig tickerId).maxPosition.toNat < 2 ^ 30

section Steps

variable {riskConfig : TickerID → RiskConfig} {s s' : Market}
  {tickerId : TickerID} {side : Side} {price : Price} {clip : Quantity}

theorem new_inv (clientId : ClientID) :
    Inv riskConfig (Market.new clientId riskConfig) where
  config := rfl
  sides := fun _ ho => absurd ho List.not_mem_nil
  slots := fun _ _ _ => rfl
  executed := fun _ ho => absurd ho List.not_mem_nil
  settled := fun _ => rfl
  within := fun tickerId => by
    show |(0 : Int)| ≤ _
    rw [abs_zero]
    exact Int.natCast_nonneg _
  room := fun _ ho => absurd ho List.not_mem_nil

/-- What the check has allowed leaves the position within the limit, if it
is filled. -/
theorem allowed_within (hmoderate : Moderate riskConfig)
    (hs : Inv riskConfig s) (hside : IsTradeSide side)
    (h : s.desk.riskManager.checkPreTradeRisk s.desk.positionKeeper tickerId
      side clip = .allowed) :
    |s.position tickerId + sideToValue side * clip.toNat|
      ≤ (riskConfig tickerId).maxPosition.toNat := by
  obtain ⟨hsize, hposition⟩ := hmoderate tickerId
  have hwithin := hs.within tickerId
  obtain ⟨r, hr⟩ : ∃ r, r = s.desk.riskManager.tickerRisk
    s.desk.positionKeeper tickerId := ⟨_, rfl⟩
  have hconfig : r.riskConfig = riskConfig tickerId := by
    rw [hr, ← hs.config]
    rfl
  have hnow : r.positionInfo.position = s.position tickerId := by
    rw [hr]
    rfl
  unfold RiskManager.checkPreTradeRisk at h
  rw [← hr] at h
  unfold RiskInfo.checkPreTradeRisk at h
  split at h
  · cases h
  · next horder =>
    split at h
    · cases h
    · next hlimit =>
      unfold RiskInfo.ExceedsOrderLimit at horder
      rw [hconfig] at horder
      have hclip : clip.toNat ≤ (riskConfig tickerId).maxOrderSize.toNat :=
        UInt32.le_iff_toNat_le.1 (UInt32.not_lt.1 horder)
      have hvalue : |sideToValue side * (clip.toNat : Int)| = clip.toNat := by
        rcases hside with rfl | rfl
        · simp [sideToValue]
        · simp [sideToValue]
      have hsum := abs_add_le (s.position tickerId)
        (sideToValue side * (clip.toNat : Int))
      rw [hvalue] at hsum
      have hiff : ¬ r.ExceedsPositionLimit side clip ↔ _ :=
        r.not_exceedsPositionLimit_iff (by omega) (by rw [hconfig]; omega)
          (by rw [hnow]; omega)
      rw [hnow, hconfig] at hiff
      exact hiff.1 hlimit

/-- Another order in a slot, and the open orders of that slot. -/
theorem Inv.slots_putOrder (hs : Inv riskConfig s) (hside : IsTradeSide side)
    {x : OMOrder} {orders : List SentOrder}
    (hslot : Tracks x (openFor orders tickerId side))
    (hother : ∀ t d, ¬ (t = tickerId ∧ d = side) →
      openFor orders t d = openFor s.orders t d) :
    ∀ t d, IsTradeSide d →
      Tracks ((s.desk.orderManager.putOrder (tickerId, sideToIndex side)
          x).tickerSideOrders (t, sideToIndex d)) (openFor orders t d) := by
  intro t d hd
  by_cases hsame : t = tickerId ∧ d = side
  · obtain ⟨rfl, rfl⟩ := hsame
    rw [OrderManager.putOrder_same]
    exact hslot
  · have hne : (t, sideToIndex d) ≠ (tickerId, sideToIndex side) :=
      fun heq => hsame ⟨congrArg Prod.fst heq,
        sideToIndex_injective hd hside (congrArg Prod.snd heq)⟩
    rw [OrderManager.putOrder_other hne, hother t d hsame]
    exact hs.slots t d hd

/-- A free slot has no order open. -/
theorem Inv.openFor_nil (hs : Inv riskConfig s) (hside : IsTradeSide side)
    (hfree : s.desk.orderManager.IsFree (tickerId, sideToIndex side)) :
    openFor s.orders tickerId side = [] := by
  have htracks := hs.slots tickerId side hside
  unfold Tracks at htracks
  rcases hfree with hstate | hstate
  · rw [hstate] at htracks
    exact htracks
  · rw [hstate] at htracks
    exact htracks

/-- The market after one order has been moved. -/
def Market.withManager (s : Market) (orderManager : OrderManager)
    (requests : List MatchingEngineClientRequest) : Market where
  desk := { s.desk with orderManager := orderManager }
  orders := s.orders ++ SentOrder.ofRequests requests

@[simp] theorem withManager_orderManager (s : Market)
    (orderManager : OrderManager)
    (requests : List MatchingEngineClientRequest) :
    (s.withManager orderManager requests).desk.orderManager = orderManager :=
  rfl

/-- A cancel leaves the order open. -/
theorem withCancelled_inv (hs : Inv riskConfig s) (hside : IsTradeSide side)
    (hlive : (s.desk.orderManager.tickerSideOrders
      (tickerId, sideToIndex side)).orderState = .live) :
    Inv riskConfig (s.withManager
      (s.desk.orderManager.withCancelled (tickerId, sideToIndex side))
      [s.desk.orderManager.cancelRequest (tickerId, sideToIndex side)]) := by
  have horders : s.orders ++ SentOrder.ofRequests
      [s.desk.orderManager.cancelRequest (tickerId, sideToIndex side)]
      = s.orders := List.append_nil _
  unfold Market.withManager
  rw [horders]
  refine ⟨hs.config, hs.sides, ?_, hs.executed, hs.settled, hs.within,
    hs.room⟩
  refine hs.slots_putOrder hside ?_ fun _ _ _ => rfl
  have htracks := hs.slots tickerId side hside
  unfold Tracks at htracks ⊢
  rw [hlive] at htracks
  exact htracks

/-- A new order is the only open one of its slot, and the position has
room for it. -/
theorem withNewOrder_inv (hmoderate : Moderate riskConfig)
    (hs : Inv riskConfig s) (hside : IsTradeSide side)
    (hfree : s.desk.orderManager.IsFree (tickerId, sideToIndex side))
    (hrisk : s.desk.riskManager.checkPreTradeRisk s.desk.positionKeeper
      tickerId side clip = .allowed) :
    Inv riskConfig (s.withManager
      (s.desk.orderManager.withNewOrder (tickerId, sideToIndex side) tickerId
        price side clip)
      [s.desk.orderManager.newRequest tickerId price side clip]) := by
  have hnone := hs.openFor_nil hside hfree
  have hroom := allowed_within hmoderate hs hside hrisk
  let o : SentOrder :=
    { request := s.desk.orderManager.newRequest tickerId price side clip }
  have horders : s.orders ++ SentOrder.ofRequests
      [s.desk.orderManager.newRequest tickerId price side clip]
      = s.orders ++ [o] := rfl
  have hopen : o.IsOpen := by
    refine ⟨rfl, ?_⟩
    show 0 < o.quantity ∨ o.quantity = 0
    omega
  have hmem : ∀ {o' : SentOrder}, o' ∈ s.orders ++ [o] →
      o' ∈ s.orders ∨ o' = o := by
    intro o' ho'
    rcases List.mem_append.1 ho' with hin | hin
    · exact .inl hin
    · exact .inr (List.mem_singleton.1 hin)
  unfold Market.withManager
  rw [horders]
  refine ⟨hs.config, ?_, ?_, ?_, fun t => ?_, hs.within, ?_⟩
  · intro o' ho'
    rcases hmem ho' with hin | rfl
    · exact hs.sides o' hin
    · exact hside
  · refine hs.slots_putOrder hside ?_ fun t d hne => ?_
    · rw [openFor_append, hnone, openFor_singleton, if_pos ⟨hopen, rfl, rfl⟩]
      exact ⟨o, rfl⟩
    · rw [openFor_append, openFor_singleton,
        if_neg fun h => hne ⟨h.2.1.symm, h.2.2.symm⟩, List.append_nil]
  · intro o' ho'
    rcases hmem ho' with hin | rfl
    · exact hs.executed o' hin
    · exact Nat.zero_le _
  · have hfresh : o.moves t = 0 := by
      unfold SentOrder.moves
      rw [show o.executed = 0 from rfl, Int.natCast_zero, mul_zero, ite_self]
    have hsum : netExecuted (s.orders ++ [o]) t
        = netExecuted s.orders t + (o.moves t + 0) := by
      unfold netExecuted
      rw [List.map_append, List.sum_append, List.map_singleton,
        List.sum_cons, List.sum_nil]
    rw [hsum, hfresh, add_zero, add_zero]
    exact hs.settled t
  · intro o' ho' hopen'
    rcases hmem ho' with hin | rfl
    · exact hs.room o' hin hopen'
    · have hremaining : o.remaining = clip.toNat := Int.sub_zero _
      rw [hremaining]
      exact hroom

/-- One order of a ticker moved. -/
theorem moved_inv (hmoderate : Moderate riskConfig) (hs : Inv riskConfig s)
    (hside : IsTradeSide side) (tickerId : TickerID) (price : Price)
    (clip : Quantity) :
    ∃ requests,
      (s.desk.orderManager.moved
          (s.desk.riskManager.checkPreTradeRisk s.desk.positionKeeper)
          (tickerId, sideToIndex side) tickerId price side clip).requests
        = s.desk.orderManager.requests ++ requests
      ∧ Inv riskConfig (s.withManager (s.desk.orderManager.moved
          (s.desk.riskManager.checkPreTradeRisk s.desk.positionKeeper)
          (tickerId, sideToIndex side) tickerId price side clip) requests) := by
  unfold OrderManager.moved
  by_cases helsewhere : s.desk.orderManager.Elsewhere
      (tickerId, sideToIndex side) price clip
  · rw [if_pos helsewhere]
    exact ⟨_, rfl, withCancelled_inv hs hside helsewhere.1⟩
  · rw [if_neg helsewhere]
    by_cases hnew : s.desk.orderManager.IsFree (tickerId, sideToIndex side)
        ∧ price ≠ priceInvalid
        ∧ s.desk.riskManager.checkPreTradeRisk s.desk.positionKeeper tickerId
          side clip = .allowed
    · rw [if_pos hnew]
      exact ⟨_, rfl, withNewOrder_inv hmoderate hs hside hnew.1 hnew.2.2⟩
    · rw [if_neg hnew]
      refine ⟨[], (List.append_nil _).symm, ?_⟩
      have hsame : s.withManager s.desk.orderManager [] = s := by
        unfold Market.withManager
        rw [show SentOrder.ofRequests [] = [] from rfl, List.append_nil]
      rw [hsame]
      exact hs

theorem ofRequests_append (l l' : List MatchingEngineClientRequest) :
    SentOrder.ofRequests (l ++ l')
      = SentOrder.ofRequests l ++ SentOrder.ofRequests l' := by
  unfold SentOrder.ofRequests
  rw [List.filter_append, List.map_append]

/-- A call of `moveOrders`. -/
theorem moveOrders_inv (hmoderate : Moderate riskConfig)
    (hs : Inv riskConfig s) {bidPrice askPrice : Price}
    (h : s.Step (.moveOrders tickerId bidPrice askPrice clip) s') :
    Inv riskConfig s' := by
  obtain ⟨hrun, requests, hrequests, horders⟩ := h
  obtain ⟨-, hdesk⟩ := Desk.moveOrders_cases hrun
  obtain ⟨bids, hbids, hbid⟩ := moved_inv hmoderate hs (.inl rfl)
    tickerId bidPrice clip
  obtain ⟨asks, hasks, hask⟩ := moved_inv hmoderate hbid (.inr rfl)
    tickerId askPrice clip
  have hboth : requests = bids ++ asks := by
    rw [hdesk] at hrequests
    have hsum := hrequests.symm.trans hasks
    rw [withManager_orderManager, hbids, List.append_assoc] at hsum
    exact List.append_cancel_left hsum
  cases s' with
  | mk desk orders =>
      dsimp only at hdesk horders
      rw [hdesk, horders, hboth, ofRequests_append, ← List.append_assoc]
      exact hask

/-- A new BBO values the position anew, and does not change it. -/
theorem position_updateBBO (p : PositionInfo) (bbo : BBO) :
    (p.updateBBO bbo).position = p.position := by
  unfold PositionInfo.updateBBO
  dsimp only
  split
  · split
    · rfl
    · rfl
  · rfl

theorem updateBBO_inv (hs : Inv riskConfig s) {bbo : BBO}
    (h : s.Step (.updateBBO tickerId bbo) s') : Inv riskConfig s' := by
  obtain ⟨hrun, horders⟩ := h
  obtain ⟨-, hdesk⟩ := Desk.updateBBO_cases hrun
  have hposition : ∀ t, s'.position t = s.position t := by
    intro t
    unfold Market.position
    rw [hdesk]
    unfold PositionKeeper.updated
    dsimp only
    split
    · exact position_updateBBO _ _
    · rfl
  refine ⟨?_, ?_, ?_, ?_, ?_, ?_, ?_⟩
  · rw [hdesk]
    exact hs.config
  · rw [horders]
    exact hs.sides
  · rw [hdesk, horders]
    exact hs.slots
  · rw [horders]
    exact hs.executed
  · intro t
    rw [hposition, horders]
    exact hs.settled t
  · intro t
    rw [hposition]
    exact hs.within t
  · intro o ho hopen
    rw [horders] at ho
    rw [hposition]
    exact hs.room o ho hopen

/-- An answer is of the order's ticker and side, but for a
CANCEL_REJECTED. -/
theorem answered_cases {o o' : SentOrder}
    {clientResponse : MatchingEngineClientResponse}
    (h : o.Answered clientResponse o') :
    (clientResponse.type = .cancelRejected
        ∧ clientResponse.side = .invalid ∧ o' = o)
      ∨ (o.IsFor clientResponse.tickerId clientResponse.side ∧ o.IsOpen
        ∧ o'.request = o.request
        ∧ clientResponse.type ≠ .cancelRejected) := by
  cases h with
  | accepted htype hfor hopen =>
      exact .inr ⟨hfor, hopen, rfl, by rw [htype]; exact nofun⟩
  | filled htype hfor hworking =>
      exact .inr ⟨hfor, hworking.isOpen, rfl, by rw [htype]; exact nofun⟩
  | cancelled htype hfor hopen =>
      exact .inr ⟨hfor, hopen, rfl, by rw [htype]; exact nofun⟩
  | cancelRejected htype hside => exact .inl ⟨htype, hside, rfl⟩

/-- The order of a slot after its answer. -/
theorem answered_tracks {x : OMOrder} {o o' : SentOrder}
    {clientResponse : MatchingEngineClientResponse}
    (htracks : Tracks x [o]) (h : o.Answered clientResponse o')
    (htype : clientResponse.type ≠ .cancelRejected) :
    Tracks (x.updated clientResponse) (if o'.IsOpen then [o'] else []) := by
  unfold OMOrder.updated
  cases h with
  | accepted htype _ hopen =>
      have hopen' : ({ o with accepted := true } : SentOrder).IsOpen := hopen
      rw [htype, if_pos hopen']
      exact ⟨_, rfl⟩
  | filled htype _ hworking hexact =>
      rw [htype]
      dsimp only
      have hlt := hworking.2
      by_cases hlast : clientResponse.leavesQuantity = 0
      · have hclosed : ¬ ({ o with executed := o.executed
            + clientResponse.execQuantity.toNat } : SentOrder).IsOpen := by
          intro hopen'
          rcases hopen'.2 with hleft | hzero
          · rw [hlast] at hexact
            change o.executed + clientResponse.execQuantity.toNat < o.quantity
              at hleft
            change _ + 0 = _ at hexact
            omega
          · change o.quantity = 0 at hzero
            omega
        rw [if_pos hlast, if_neg hclosed]
        rfl
      · have hleaves : 0 < clientResponse.leavesQuantity.toNat := by
          refine Nat.pos_of_ne_zero fun hzero => hlast ?_
          exact UInt32.toNat_inj.1 hzero
        have hopen' : ({ o with executed := o.executed
            + clientResponse.execQuantity.toNat } : SentOrder).IsOpen := by
          refine ⟨hworking.1, .inl ?_⟩
          show o.executed + clientResponse.execQuantity.toNat < o.quantity
          omega
        rw [if_neg hlast, if_pos hopen']
        unfold Tracks at htracks ⊢
        dsimp only
        cases hstate : x.orderState with
        | invalid | dead =>
            rw [hstate] at htracks
            exact absurd htracks (List.cons_ne_nil _ _)
        | pendingNew | live | pendingCancel => exact ⟨_, rfl⟩
  | cancelled htype _ hopen =>
      have hclosed : ¬ ({ o with cancelled := true } : SentOrder).IsOpen :=
        fun h => Bool.noConfusion h.1
      rw [htype, if_neg hclosed]
      rfl
  | cancelRejected htype' _ => exact absurd htype' htype

/-- The slots after an answer. -/
theorem answer_slots (hs : Inv riskConfig s)
    {before after : List SentOrder} {o o' : SentOrder}
    {clientResponse : MatchingEngineClientResponse}
    (horders : s.orders = before ++ o :: after)
    (h : o.Answered clientResponse o') :
    ∀ t d, IsTradeSide d →
      Tracks ((s.desk.orderManager.responded clientResponse).tickerSideOrders
          (t, sideToIndex d))
        (openFor (before ++ o' :: after) t d) := by
  have hin : o ∈ s.orders := by
    rw [horders]
    exact List.mem_append_right _ (List.mem_cons_self ..)
  unfold OrderManager.responded
  rcases answered_cases h with ⟨-, hinvalid, rfl⟩ | ⟨hfor, hopen, hsame, htype⟩
  · intro t d hd
    have hne : (t, sideToIndex d)
        ≠ (clientResponse.tickerId, sideToIndex clientResponse.side) := by
      intro heq
      have hindex : sideToIndex d = sideToIndex clientResponse.side :=
        congrArg Prod.snd heq
      rw [hinvalid] at hindex
      rcases hd with rfl | rfl
      · cases hindex
      · cases hindex
    rw [OrderManager.putOrder_other hne, ← horders]
    exact hs.slots t d hd
  · have hside : IsTradeSide clientResponse.side := by
      rw [← hfor.2]
      exact hs.sides o hin
    have htracks := hs.slots clientResponse.tickerId clientResponse.side hside
    have hone := htracks.eq_singleton (mem_openFor.2 ⟨hin, hopen, hfor⟩)
    have hfor' : ∀ {t d}, o'.IsFor t d ↔ o.IsFor t d := by
      intro t d
      unfold SentOrder.IsFor
      rw [hsame]
    refine hs.slots_putOrder hside ?_ fun t d hne => ?_
    · rw [horders] at hone
      rw [openFor_replace hone ⟨hopen, hfor⟩]
      rw [← horders] at hone
      rw [hone] at htracks
      have hresult := answered_tracks htracks h htype
      by_cases hopen' : o'.IsOpen
      · rw [if_pos hopen'] at hresult
        rw [if_pos ⟨hopen', hfor'.2 hfor⟩]
        exact hresult
      · rw [if_neg hopen'] at hresult
        rw [if_neg fun h => hopen' h.1]
        exact hresult
    · have hnot : ¬ o.IsFor t d := fun h =>
        hne ⟨h.1.symm.trans hfor.1, h.2.symm.trans hfor.2⟩
      rw [openFor_other hnot fun h => hnot (hfor'.1 h), ← horders]

theorem position_filled (s : Market)
    (clientResponse : MatchingEngineClientResponse) (t : TickerID) :
    ((s.desk.filled clientResponse).tickerPosition t).position
      = if clientResponse.type = .filled ∧ t = clientResponse.tickerId then
          int32 (s.position t + clientResponse.execQuantity.toNat
            * sideToValue clientResponse.side)
        else s.position t := by
  unfold Desk.filled
  by_cases hfilled : clientResponse.type = .filled
  · rw [if_pos hfilled]
    unfold PositionKeeper.updated
    dsimp only
    by_cases hticker : t = clientResponse.tickerId
    · rw [if_pos hticker, if_pos ⟨hfilled, hticker⟩]
      unfold PositionInfo.addFill
      rw [PositionInfo.position_marked, PositionInfo.position_booked]
      rfl
    · rw [if_neg hticker, if_neg fun h => hticker h.2]
      rfl
  · rw [if_neg hfilled, if_neg fun h => hfilled h.1]
    rfl

/-- A market whose order `o` has been answered. -/
structure AnsweredStep (s s' : Market)
    (clientResponse : MatchingEngineClientResponse)
    (before after : List SentOrder) (o o' : SentOrder) : Prop where
  orders : s.orders = before ++ o :: after
  answered : o.Answered clientResponse o'
  desk : s'.desk = { s.desk with
    positionKeeper := s.desk.filled clientResponse
    orderManager := s.desk.orderManager.responded clientResponse }
  orders' : s'.orders = before ++ o' :: after

section Answers

variable {before after : List SentOrder} {o o' x : SentOrder}
  {clientResponse : MatchingEngineClientResponse}

theorem AnsweredStep.mem (h : AnsweredStep s s' clientResponse before after o o') :
    o ∈ s.orders := by
  rw [h.orders]
  exact List.mem_append_right _ (List.mem_cons_self ..)

/-- The other orders are as they were. -/
theorem AnsweredStep.mem_cases
    (h : AnsweredStep s s' clientResponse before after o o')
    (hx : x ∈ s'.orders) : x = o' ∨ x ∈ before ∨ x ∈ after := by
  rw [h.orders', List.mem_append, List.mem_cons] at hx
  tauto

theorem AnsweredStep.mem_of_around
    (h : AnsweredStep s s' clientResponse before after o o')
    (hx : x ∈ before ∨ x ∈ after) : x ∈ s.orders := by
  rw [h.orders, List.mem_append, List.mem_cons]
  tauto

theorem AnsweredStep.position
    (h : AnsweredStep s s' clientResponse before after o o') (t : TickerID) :
    s'.position t
      = if clientResponse.type = .filled ∧ t = clientResponse.tickerId then
          int32 (s.position t + clientResponse.execQuantity.toNat
            * sideToValue clientResponse.side)
        else s.position t := by
  rw [← position_filled]
  unfold Market.position
  rw [h.desk]

/-- An answer keeps the invariant if the positions allow it. -/
theorem AnsweredStep.inv (hs : Inv riskConfig s)
    (h : AnsweredStep s s' clientResponse before after o o')
    (hsame : o'.request = o.request) (hexecuted : o'.executed ≤ o'.quantity)
    (hmoves : ∀ t, s'.position t
      = s.position t + (o'.moves t - o.moves t))
    (hwithin : ∀ t, |s'.position t| ≤ (riskConfig t).maxPosition.toNat)
    (hroom : ∀ x ∈ s'.orders, x.IsOpen →
      |s'.position x.request.tickerId
          + sideToValue x.request.side * x.remaining|
        ≤ (riskConfig x.request.tickerId).maxPosition.toNat) :
    Inv riskConfig s' := by
  refine ⟨?_, ?_, ?_, ?_, fun t => ?_, hwithin, hroom⟩
  · rw [h.desk]
    exact hs.config
  · intro x hx
    rcases h.mem_cases hx with rfl | hx
    · rw [hsame]
      exact hs.sides o h.mem
    · exact hs.sides x (h.mem_of_around hx)
  · rw [h.desk, h.orders']
    exact answer_slots hs h.orders h.answered
  · intro x hx
    rcases h.mem_cases hx with rfl | hx
    · exact hexecuted
    · exact hs.executed x (h.mem_of_around hx)
  · rw [hmoves, hs.settled, h.orders, h.orders',
      netExecuted_around before after o o']

/-- An answer that is not a fill leaves all positions. -/
theorem AnsweredStep.inv_of_not_filled (hs : Inv riskConfig s)
    (h : AnsweredStep s s' clientResponse before after o o')
    (htype : clientResponse.type ≠ .filled) : Inv riskConfig s' := by
  have hposition : ∀ t, s'.position t = s.position t := by
    intro t
    rw [h.position, if_neg fun hfilled => htype hfilled.1]
  have hanswer : o'.request = o.request ∧ o'.executed = o.executed
      ∧ (o'.IsOpen → o.IsOpen) := by
    cases h.answered with
    | accepted _ _ hopen => exact ⟨rfl, rfl, fun _ => hopen⟩
    | filled htype' => exact absurd htype' htype
    | cancelled _ _ hopen => exact ⟨rfl, rfl, fun _ => hopen⟩
    | cancelRejected => exact ⟨rfl, rfl, id⟩
  obtain ⟨hsame, hexecuted, hopen⟩ := hanswer
  have hquantity : o'.quantity = o.quantity := by
    unfold SentOrder.quantity
    rw [hsame]
  refine h.inv hs hsame ?_ ?_ ?_ ?_
  · rw [hexecuted, hquantity]
    exact hs.executed o h.mem
  · intro t
    unfold SentOrder.moves
    rw [hposition, hsame, hexecuted, sub_self, add_zero]
  · intro t
    rw [hposition]
    exact hs.within t
  · intro x hx hopen'
    rw [hposition]
    rcases h.mem_cases hx with rfl | hx
    · have hroom := hs.room o h.mem (hopen hopen')
      unfold SentOrder.remaining at hroom ⊢
      rw [hsame, hexecuted, hquantity]
      exact hroom
    · exact hs.room x (h.mem_of_around hx) hopen'

/-- Part of an order that the position has room for. -/
theorem part_within {position limit part rest : Int} {side : Side}
    (hside : IsTradeSide side) (hpart : 0 ≤ part) (hrest : 0 ≤ rest)
    (hposition : |position| ≤ limit)
    (hroom : |position + sideToValue side * (part + rest)| ≤ limit) :
    |position + part * sideToValue side| ≤ limit := by
  rw [abs_le] at hposition hroom ⊢
  rcases hside with rfl | rfl
  · simp only [sideToValue] at hroom ⊢
    omega
  · simp only [sideToValue] at hroom ⊢
    omega

/-- A fill of the other side makes room. -/
theorem other_within {position limit part rest : Int} {side side' : Side}
    (hside : IsTradeSide side) (hside' : IsTradeSide side')
    (hne : side' ≠ side) (hpart : 0 ≤ part) (hrest : 0 ≤ rest)
    (hroom : |position + sideToValue side' * rest| ≤ limit)
    (hafter : |position + part * sideToValue side| ≤ limit) :
    |position + part * sideToValue side + sideToValue side' * rest|
      ≤ limit := by
  rw [abs_le] at hroom hafter ⊢
  rcases hside with rfl | rfl
  · rcases hside' with rfl | rfl
    · exact absurd rfl hne
    · simp only [sideToValue] at hroom hafter ⊢
      omega
  · rcases hside' with rfl | rfl
    · simp only [sideToValue] at hroom hafter ⊢
      omega
    · exact absurd rfl hne

/-- A fill moves the position by a part of what its order could move it
by. -/
theorem AnsweredStep.inv_of_filled (hmoderate : Moderate riskConfig)
    (hs : Inv riskConfig s)
    (h : AnsweredStep s s' clientResponse before after o o')
    (htype : clientResponse.type = .filled) : Inv riskConfig s' := by
  obtain ⟨hfor, hopen, hexact, ho'⟩ :
      o.IsFor clientResponse.tickerId clientResponse.side ∧ o.IsOpen
        ∧ o.executed + clientResponse.execQuantity.toNat
            + clientResponse.leavesQuantity.toNat = o.quantity
        ∧ o' = { o with
          executed := o.executed + clientResponse.execQuantity.toNat } := by
    cases h.answered with
    | filled _ hfor hworking hexact =>
        exact ⟨hfor, hworking.isOpen, hexact, rfl⟩
    | accepted htype' => rw [htype] at htype'; cases htype'
    | cancelled htype' => rw [htype] at htype'; cases htype'
    | cancelRejected htype' => rw [htype] at htype'; cases htype'
  have hside : IsTradeSide clientResponse.side := by
    rw [← hfor.2]
    exact hs.sides o h.mem
  have hroom := hs.room o h.mem hopen
  rw [hfor.1, hfor.2] at hroom
  have hpart : |s.position clientResponse.tickerId
      + clientResponse.execQuantity.toNat * sideToValue clientResponse.side|
        ≤ (riskConfig clientResponse.tickerId).maxPosition.toNat := by
    have hremaining : o.remaining = clientResponse.execQuantity.toNat
        + clientResponse.leavesQuantity.toNat := by
      unfold SentOrder.remaining
      omega
    rw [hremaining] at hroom
    exact part_within hside (Int.natCast_nonneg _) (Int.natCast_nonneg _)
      (hs.within _) hroom
  have hexactPosition : int32 (s.position clientResponse.tickerId
      + clientResponse.execQuantity.toNat * sideToValue clientResponse.side)
      = s.position clientResponse.tickerId
        + clientResponse.execQuantity.toNat
          * sideToValue clientResponse.side := by
    have hlimit := (hmoderate clientResponse.tickerId).2
    exact int32_eq (by omega)
  have hhere : s'.position clientResponse.tickerId
      = s.position clientResponse.tickerId
        + clientResponse.execQuantity.toNat
          * sideToValue clientResponse.side := by
    rw [h.position, if_pos ⟨htype, rfl⟩, hexactPosition]
  have helse : ∀ t, t ≠ clientResponse.tickerId →
      s'.position t = s.position t := by
    intro t ht
    rw [h.position, if_neg fun hboth => ht hboth.2]
  refine h.inv hs (by rw [ho']) ?_ ?_ ?_ ?_
  · rw [ho']
    show o.executed + clientResponse.execQuantity.toNat ≤ o.quantity
    omega
  · intro t
    rw [ho']
    unfold SentOrder.moves
    dsimp only
    by_cases ht : t = clientResponse.tickerId
    · rw [ht, hhere, if_pos hfor.1, if_pos hfor.1, hfor.2]
      push_cast
      ring
    · rw [helse t ht, if_neg fun h' => ht (h'.symm.trans hfor.1),
        if_neg fun h' => ht (h'.symm.trans hfor.1), sub_self, add_zero]
  · intro t
    by_cases ht : t = clientResponse.tickerId
    · rw [ht, hhere]
      exact hpart
    · rw [helse t ht]
      exact hs.within t
  · intro x hx hopenx
    rcases h.mem_cases hx with rfl | hx
    · -- what is left of the order
      rw [ho']
      have hleft : ({ o with executed := o.executed
          + clientResponse.execQuantity.toNat } : SentOrder).remaining
          = o.remaining - clientResponse.execQuantity.toNat := by
        unfold SentOrder.remaining SentOrder.quantity
        dsimp only
        omega
      rw [hleft]
      dsimp only
      rw [hfor.1, hfor.2, hhere, mul_sub]
      have hsum : s.position clientResponse.tickerId
          + clientResponse.execQuantity.toNat
            * sideToValue clientResponse.side
          + (sideToValue clientResponse.side * o.remaining
            - sideToValue clientResponse.side
              * clientResponse.execQuantity.toNat)
          = s.position clientResponse.tickerId
            + sideToValue clientResponse.side * o.remaining := by
        ring
      rw [hsum]
      exact hroom
    · have hxmem := h.mem_of_around hx
      have hroomx := hs.room x hxmem hopenx
      by_cases ht : x.request.tickerId = clientResponse.tickerId
      · -- it is of the other side: this one has no second open order
        have hne : x.request.side ≠ clientResponse.side := by
          intro hsame
          have hone := (hs.slots clientResponse.tickerId clientResponse.side
            hside).eq_singleton (mem_openFor.2 ⟨h.mem, hopen, hfor⟩)
          rw [h.orders] at hone
          obtain ⟨hbefore, hafter⟩ := openFor_around hone ⟨hopen, hfor⟩
          rcases hx with hx | hx
          · have hinx := mem_openFor.2 ⟨hx, hopenx, ht, hsame⟩
            rw [hbefore] at hinx
            cases hinx
          · have hinx := mem_openFor.2 ⟨hx, hopenx, ht, hsame⟩
            rw [hafter] at hinx
            cases hinx
        rw [ht] at hroomx ⊢
        rw [hhere]
        refine other_within hside (hs.sides x hxmem) hne
          (Int.natCast_nonneg _) ?_ hroomx hpart
        have hexecuted := hs.executed x hxmem
        unfold SentOrder.remaining
        omega
      · rw [helse _ ht]
        exact hroomx

end Answers

/-- Every step keeps the invariant. -/
theorem step_inv (hmoderate : Moderate riskConfig) (hs : Inv riskConfig s)
    {act : Market.Act} (h : s.Step act s') : Inv riskConfig s' := by
  cases act with
  | moveOrders tickerId bidPrice askPrice clip =>
      exact moveOrders_inv hmoderate hs h
  | updateBBO tickerId bbo => exact updateBBO_inv hs h
  | answer clientResponse =>
      obtain ⟨hrun, before, o, after, o', horders, hanswered, horders'⟩ := h
      have hstep : AnsweredStep s s' clientResponse before after o o' :=
        ⟨horders, hanswered, (Desk.onOrderUpdate_cases hrun).2, horders'⟩
      by_cases htype : clientResponse.type = .filled
      · exact hstep.inv_of_filled hmoderate hs htype
      · exact hstep.inv_of_not_filled hs htype

end Steps

-- ============================================================= the result

/-- In every state a flat client comes to, the position is what the orders
have executed, at most one order of a ticker and side is working, and the
position is within the limit, now and with all that is left of either
working order filled. -/
theorem position_limited {clientId : ClientID}
    {riskConfig : TickerID → RiskConfig} {acts : List Market.Act} {s : Market}
    (hmoderate : Moderate riskConfig)
    (h : Run Market.Step (.new clientId riskConfig) acts s)
    (tickerId : TickerID) :
    s.position tickerId = netExecuted s.orders tickerId
      ∧ |s.position tickerId| ≤ (riskConfig tickerId).maxPosition.toNat
      ∧ ∀ side, IsTradeSide side →
        (s.working tickerId side).length ≤ 1
        ∧ ∀ o ∈ s.working tickerId side,
          |s.position tickerId + sideToValue side * o.remaining|
            ≤ (riskConfig tickerId).maxPosition.toNat := by
  have hs : Inv riskConfig s := h.induct (I := fun _ s => Inv riskConfig s)
    (new_inv clientId) fun _ _ _ _ _ hs hstep => step_inv hmoderate hs hstep
  refine ⟨hs.settled tickerId, hs.within tickerId,
    fun side hside => ⟨?_, fun o ho => ?_⟩⟩
  · have hone := (hs.slots tickerId side hside).length_le
    refine le_trans ?_ hone
    refine List.Sublist.length_le (List.monotone_filter_right _ ?_)
    intro o hworking
    rw [decide_eq_true_iff] at hworking ⊢
    exact ⟨⟨hworking.1.1, .inl hworking.1.2⟩, hworking.2⟩
  · obtain ⟨hmem, hworking⟩ := List.mem_filter.1 ho
    rw [decide_eq_true_iff] at hworking
    obtain ⟨hworking, hticker, hside'⟩ := hworking
    have hroom := hs.room o hmem ⟨hworking.1, .inl hworking.2⟩
    rw [hticker, hside'] at hroom
    exact hroom

/-- The limits of the run below. -/
def hundred : TickerID → RiskConfig := fun _ => ⟨100, 100, -1000⟩

/-- Two orders are sent, and 4 of the bid's 10 are bought: the position is
4, and neither order can take it beyond 100. -/
theorem position_limited_hundred :
    ∃ s, Run Market.Step (.new 4 hundred)
        [.moveOrders 1 100 102 10,
          .answer { type := .filled, tickerId := 1, side := .buy, price := 100,
                    execQuantity := 4, leavesQuantity := 6 }] s
      ∧ s.position 1 = 4 ∧ |s.position 1| ≤ 100
      ∧ (∃ o, s.working 1 .buy = [o] ∧ o.remaining = 6
        ∧ |s.position 1 + o.remaining| ≤ 100)
      ∧ ∃ o, s.working 1 .sell = [o] ∧ o.remaining = 10
        ∧ |s.position 1 - o.remaining| ≤ 100 := by
  let desk := (Desk.new 4 hundred).movedOrders 1 100 102 10
  let bid : SentOrder :=
    { request := (OrderManager.new 4).newRequest 1 100 .buy 10 }
  let ask : SentOrder :=
    { request := { (OrderManager.new 4).newRequest 1 102 .sell 10 with
        orderId := 2 } }
  let fill : MatchingEngineClientResponse :=
    { type := .filled, tickerId := 1, side := .buy, price := 100,
      execQuantity := 4, leavesQuantity := 6 }
  let filled : Desk := { desk with
    positionKeeper := desk.filled fill
    orderManager := desk.orderManager.responded fill }
  have hsent : (Market.new 4 hundred).Step (.moveOrders 1 100 102 10)
      ⟨desk, [bid, ask]⟩ :=
    ⟨rfl, [bid.request, ask.request], rfl, rfl⟩
  have hrun : (Desk.onOrderUpdate fill).run desk = .ok () filled := by
    unfold Desk.onOrderUpdate Desk.onPositionKeeper PositionKeeper.addFill
      Desk.onOrderManager
    rw [if_pos rfl, EStateM.run_bind, Exec.run_zoom,
      PositionKeeper.run_modifyAt, if_pos (by decide)]
    dsimp only
    rw [Exec.run_zoom, OrderManager.run_onOrderUpdate, if_pos (by decide)]
    rfl
  have hfilled : (⟨desk, [bid, ask]⟩ : Market).Step (.answer fill)
      ⟨filled, [{ bid with executed := 4 }, ask]⟩ :=
    ⟨hrun, [], bid, [ask], _, rfl, .filled rfl ⟨rfl, rfl⟩ (by decide) rfl, rfl⟩
  have hacts := Run.snoc (Run.snoc Run.nil hsent) hfilled
  have hmoderate : Moderate hundred := by
    intro tickerId
    show (100 : Quantity).toNat < 2 ^ 30 ∧ (100 : Quantity).toNat < 2 ^ 30
    decide
  obtain ⟨hsettled, hwithin, hsides⟩ := position_limited hmoderate hacts 1
  refine ⟨_, hacts, hsettled.trans (by decide), hwithin,
    ⟨_, rfl, by decide, ?_⟩, ⟨_, rfl, by decide, ?_⟩⟩
  · have hbid := (hsides .buy (.inl rfl)).2 _ (List.mem_singleton_self _)
    rw [show sideToValue .buy = 1 from rfl, one_mul] at hbid
    exact hbid
  · have hask := (hsides .sell (.inr rfl)).2 _ (List.mem_singleton_self _)
    rw [show sideToValue .sell = -1 from rfl, neg_one_mul,
      ← sub_eq_add_neg] at hask
    exact hask

end ElectronicTrading
