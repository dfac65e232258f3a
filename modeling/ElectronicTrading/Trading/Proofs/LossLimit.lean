/-
When the loss limit stops a client.

`max_loss` is documented as the largest loss that is allowed and is
configured with a positive number, and `checkPreTradeRisk` refuses an
order when `total_pnl < max_loss`: it waits for the client to have earned
`max_loss`. The test against the loss would be `total_pnl < -max_loss`.
The two agree on a profit of `max_loss` and on a loss beyond it; between
them the client is stopped and should not be (`sends_iff`,
`obeys_iff_decided`). A client that starts with a positive limit starts
between them.

Fills and BBO updates both keep `total_pnl` the sum of its two parts
(`total_of_run`), so it is up to date whenever `moveOrders` asks.
-/
import ElectronicTrading.Trading.RiskManager
import ElectronicTrading.Lib.Runs

namespace ElectronicTrading

open Exec Runs

-- ============================================================= the limits

/-- The order passes the size and the position limit. -/
def RiskInfo.WithinLimits (r : RiskInfo) (side : Side) (quantity : Quantity) :
    Prop :=
  ¬ r.ExceedsOrderLimit quantity ∧ ¬ r.ExceedsPositionLimit side quantity

theorem RiskInfo.allowed_iff {r : RiskInfo} {side : Side}
    {quantity : Quantity} (hwithin : r.WithinLimits side quantity) :
    r.checkPreTradeRisk side quantity = .allowed
      ↔ r.riskConfig.maxLoss ≤ r.positionInfo.totalPnl := by
  unfold checkPreTradeRisk
  rw [if_neg hwithin.1, if_neg hwithin.2]
  by_cases hloss : r.positionInfo.totalPnl < r.riskConfig.maxLoss
  · rw [if_pos hloss]
    simp only [reduceCtorEq, false_iff, not_le]
    exact hloss
  · rw [if_neg hloss]
    simp only [true_iff]
    exact not_lt.1 hloss

-- ============================================================== a request

namespace OrderManager

variable {s : OrderManager}

/-- What `moveOrder` sends. -/
def moveRequests (s : OrderManager) (risk : PreTradeRisk) (order : Slot)
    (tickerId : TickerID) (price : Price) (side : Side)
    (quantity : Quantity) : List MatchingEngineClientRequest :=
  if s.Elsewhere order price quantity then [s.cancelRequest order]
  else if s.IsFree order ∧ price ≠ priceInvalid
      ∧ risk tickerId side quantity = .allowed then
    [s.newRequest tickerId price side quantity]
  else []

theorem moved_requests (risk : PreTradeRisk) (order : Slot)
    (tickerId : TickerID) (price : Price) (side : Side)
    (quantity : Quantity) :
    (s.moved risk order tickerId price side quantity).requests
      = s.requests
        ++ s.moveRequests risk order tickerId price side quantity := by
  unfold moved moveRequests
  split
  · rfl
  · split
    · rfl
    · exact (List.append_nil _).symm

/-- A slot that is free has no order to be cancelled. -/
theorem IsFree.not_elsewhere {order : Slot} (h : s.IsFree order)
    (price : Price) (quantity : Quantity) :
    ¬ s.Elsewhere order price quantity := by
  intro h
  obtain ⟨hlive, -⟩ := h
  unfold IsFree at h
  rw [hlive] at h
  simp at h

/-- The new order a call sends is of its own side. -/
theorem side_of_mem_moveRequests {risk : PreTradeRisk} {order : Slot}
    {tickerId : TickerID} {price : Price} {side : Side}
    {quantity : Quantity} {request : MatchingEngineClientRequest}
    (h : request ∈ s.moveRequests risk order tickerId price side quantity)
    (hnew : request.type = .new) : request.side = side := by
  unfold moveRequests at h
  split at h
  · rw [List.mem_singleton.1 h] at hnew
    cases hnew
  · split at h
    · rw [List.mem_singleton.1 h]
      rfl
    · cases h

end OrderManager

-- ============================================================= the totals

/-- Every `total_pnl` is the sum of its two parts. -/
def PositionKeeper.Summed (k : PositionKeeper) : Prop :=
  ∀ tickerId, (k.tickerPosition tickerId).totalPnl
    = (k.tickerPosition tickerId).unrealPnl
      + (k.tickerPosition tickerId).realPnl

theorem PositionKeeper.Summed.updated {k : PositionKeeper} (h : k.Summed)
    {tickerId : TickerID} {f : PositionInfo → PositionInfo}
    (hf : ∀ p, (f p).totalPnl = (f p).unrealPnl + (f p).realPnl) :
    (k.updated tickerId f).Summed := by
  intro t
  unfold PositionKeeper.updated
  dsimp only
  split
  · exact hf _
  · exact h t

-- =============================================================== the desk

namespace Desk

/-- A new order that a slot is asked for. -/
structure Ask where
  tickerId : TickerID
  side : Side
  price : Price
  quantity : Quantity

/-- What `moveOrders` asks the two slots of its ticker for. -/
def Activity.asks : Activity → List Ask
  | .moveOrders tickerId bidPrice askPrice clip =>
      [⟨tickerId, .buy, bidPrice, clip⟩, ⟨tickerId, .sell, askPrice, clip⟩]
  | .onOrderUpdate _ | .updateBBO _ _ => []

/-- The slot, INVALID or DEAD, is asked to move to a valid price by an
order within the size and position limits. -/
def Asked (s : Desk) (a : Activity) (ask : Ask) : Prop :=
  ask ∈ a.asks ∧ ask.price ≠ priceInvalid
    ∧ s.orderManager.IsFree (ask.tickerId, sideToIndex ask.side)
    ∧ (s.riskManager.tickerRisk s.positionKeeper ask.tickerId).WithinLimits
      ask.side ask.quantity

/-- Between `s` and `s'` the order was sent. -/
def Sends (s s' : Desk) (ask : Ask) : Prop :=
  ∃ request ∈
      s'.orderManager.requests.drop s.orderManager.requests.length,
    request.type = .new ∧ request.tickerId = ask.tickerId
      ∧ request.side = ask.side ∧ request.price = ask.price
      ∧ request.quantity = ask.quantity

/-- The ticker's `total_pnl`. -/
def totalPnl (s : Desk) (tickerId : TickerID) : ℚ :=
  (s.positionKeeper.tickerPosition tickerId).totalPnl

/-- The ticker's `max_loss`. -/
def maxLoss (s : Desk) (tickerId : TickerID) : ℚ :=
  (s.riskManager.riskConfig tickerId).maxLoss

/-- The order is sent if and only if no more than `max_loss` is lost. -/
def Obeys (s : Desk) (a : Activity) (s' : Desk) : Prop :=
  ∀ ask, s.Asked a ask →
    (Sends s s' ask ↔ -s.maxLoss ask.tickerId ≤ s.totalPnl ask.tickerId)

/-- Where an order is asked for, more than `max_loss` is lost, or
`max_loss` is earned. -/
def Decided (s : Desk) (a : Activity) : Prop :=
  ∀ ask, s.Asked a ask →
    s.totalPnl ask.tickerId < -s.maxLoss ask.tickerId
      ∨ s.maxLoss ask.tickerId ≤ s.totalPnl ask.tickerId

def Acted (s : Desk) (a : Activity) (s' : Desk) : Prop :=
  (act a).run s = .ok () s'

/-- An activity that finds the ticker decided. -/
def ActedDecided (s : Desk) (a : Activity) (s' : Desk) : Prop :=
  Acted s a s' ∧ s.Decided a

variable {s s' : Desk} {a : Activity}

theorem Acted.unique (s : Desk) (a : Activity) (t t' : Desk)
    (h : Acted s a t) (h' : Acted s a t') : t = t' := by
  unfold Acted at h h'
  rw [h] at h'
  exact (EStateM.Result.ok.inj h').2

/-- The requests a slot's own part of a call adds decide whether its
order was sent. -/
theorem exists_new_iff {o : OrderManager} {ask : Ask} {risk : PreTradeRisk}
    (hprice : ask.price ≠ priceInvalid)
    (hfree : o.IsFree (ask.tickerId, sideToIndex ask.side)) :
    (∃ request ∈ o.moveRequests risk (ask.tickerId, sideToIndex ask.side)
        ask.tickerId ask.price ask.side ask.quantity,
      request.type = .new ∧ request.tickerId = ask.tickerId
        ∧ request.side = ask.side ∧ request.price = ask.price
        ∧ request.quantity = ask.quantity)
      ↔ risk ask.tickerId ask.side ask.quantity = .allowed := by
  unfold OrderManager.moveRequests
  rw [if_neg (hfree.not_elsewhere _ _)]
  by_cases hrisk : risk ask.tickerId ask.side ask.quantity = .allowed
  · rw [if_pos ⟨hfree, hprice, hrisk⟩]
    simp only [hrisk, iff_true]
    exact ⟨_, List.mem_singleton_self _, rfl, rfl, rfl, rfl, rfl⟩
  · rw [if_neg fun h => hrisk h.2.2]
    simp [hrisk]

/-- The order is sent if and only if `max_loss` is earned. -/
theorem sends_iff (h : Acted s a s') {ask : Ask} (hask : s.Asked a ask) :
    Sends s s' ask ↔ s.maxLoss ask.tickerId ≤ s.totalPnl ask.tickerId := by
  obtain ⟨hmem, hprice, hfree, hwithin⟩ := hask
  cases a with
  | onOrderUpdate _ => cases hmem
  | updateBBO _ _ => cases hmem
  | moveOrders tickerId bidPrice askPrice clip =>
    obtain ⟨-, hs'⟩ := moveOrders_cases h
    unfold movedOrders at hs'
    dsimp only at hs'
    set risk := s.riskManager.checkPreTradeRisk s.positionKeeper with hrisk
    set mid := s.orderManager.moved risk (tickerId, sideToIndex .buy) tickerId
      bidPrice .buy clip with hmid
    have hne : (tickerId, sideToIndex .sell)
        ≠ (tickerId, sideToIndex .buy) := by
      intro heq
      exact absurd (Prod.mk.inj heq).2 (by decide)
    -- What the two halves of the call add to the requests.
    have hrequests : s'.orderManager.requests.drop
        s.orderManager.requests.length
        = s.orderManager.moveRequests risk (tickerId, sideToIndex .buy)
            tickerId bidPrice .buy clip
          ++ mid.moveRequests risk (tickerId, sideToIndex .sell) tickerId
            askPrice .sell clip := by
      rw [hs']
      dsimp only
      rw [OrderManager.moved_requests, hmid, OrderManager.moved_requests,
        List.append_assoc, List.drop_left]
    have hallowed := RiskInfo.allowed_iff hwithin
    unfold Sends
    rw [hrequests]
    refine Iff.trans ?_ hallowed
    simp only [Activity.asks, List.mem_cons, List.not_mem_nil, or_false]
      at hmem
    rcases hmem with rfl | rfl
    · rw [show (RiskInfo.checkPreTradeRisk _ _ _)
        = risk tickerId .buy clip from rfl, ← exists_new_iff hprice hfree]
      constructor
      · intro h
        obtain ⟨request, hin, hnew, hrest⟩ := h
        rcases List.mem_append.1 hin with hin | hin
        · exact ⟨request, hin, hnew, hrest⟩
        · have hsell := OrderManager.side_of_mem_moveRequests hin hnew
          rw [hrest.2.1] at hsell
          cases hsell
      · intro h
        obtain ⟨request, hin, hrest⟩ := h
        exact ⟨request, List.mem_append_left _ hin, hrest⟩
    · have hfree' : mid.IsFree (tickerId, sideToIndex .sell) := by
        unfold OrderManager.IsFree
        rw [hmid, OrderManager.moved_other _ hne]
        exact hfree
      rw [show (RiskInfo.checkPreTradeRisk _ _ _)
        = risk tickerId .sell clip from rfl, ← exists_new_iff hprice hfree']
      constructor
      · intro h
        obtain ⟨request, hin, hnew, hrest⟩ := h
        rcases List.mem_append.1 hin with hin | hin
        · have hbuy := OrderManager.side_of_mem_moveRequests hin hnew
          rw [hrest.2.1] at hbuy
          cases hbuy
        · exact ⟨request, hin, hnew, hrest⟩
      · intro h
        obtain ⟨request, hin, hrest⟩ := h
        exact ⟨request, List.mem_append_right _ hin, hrest⟩

-- ============================================================== every run

/-- An activity leaves the limits, and the totals up to date. -/
theorem Acted.kept (h : Acted s a s') (hsummed : s.positionKeeper.Summed) :
    s'.riskManager = s.riskManager ∧ s'.positionKeeper.Summed := by
  cases a with
  | onOrderUpdate clientResponse =>
      obtain ⟨-, rfl⟩ := onOrderUpdate_cases h
      refine ⟨rfl, ?_⟩
      unfold filled
      dsimp only
      split
      · exact hsummed.updated fun p => rfl
      · exact hsummed
  | updateBBO tickerId bbo =>
      obtain ⟨-, rfl⟩ := updateBBO_cases h
      refine ⟨rfl, ?_⟩
      dsimp only
      exact hsummed.updated fun p => rfl
  | moveOrders tickerId bidPrice askPrice clip =>
      obtain ⟨-, rfl⟩ := moveOrders_cases h
      exact ⟨rfl, hsummed⟩

section Runs

variable {clientId : ClientID} {riskConfig : TickerID → RiskConfig}
variable {as : List Activity}

/-- In every state a run reaches the limits are the configured ones and
`total_pnl` is up to date. -/
theorem total_of_run (h : Run Acted (new clientId riskConfig) as s) :
    s.riskManager = ⟨riskConfig⟩ ∧ s.positionKeeper.Summed := by
  refine h.induct (I := fun _ s => s.riskManager = ⟨riskConfig⟩
    ∧ s.positionKeeper.Summed) ⟨rfl, fun tickerId => ?_⟩ ?_
  · simp [new, PositionKeeper.new]
  · rintro rs t r t' - ⟨hconfig, hsummed⟩ hstep
    obtain ⟨hsame, hsummed'⟩ := Acted.kept hstep hsummed
    exact ⟨hsame.trans hconfig, hsummed'⟩

/-- With a limit on the loss that is not negative, all calls of a run
obey it if and only if none comes while less than `max_loss` is earned
and no more than that is lost. -/
theorem obeys_iff_decided (hlimit : ∀ tickerId,
      0 ≤ (riskConfig tickerId).maxLoss)
    (hrun : Run Acted (new clientId riskConfig) as s) :
    (∀ as' a t t', as' ++ [a] <+: as →
        Run Acted (new clientId riskConfig) as' t → Acted t a t' →
        t.Obeys a t')
      ↔ Run ActedDecided (new clientId riskConfig) as s := by
  refine Run.each_iff (C := Decided) Acted.unique ?_ hrun
  intro as' t a t' hrun' hstep
  have hloss : ∀ tickerId, 0 ≤ t.maxLoss tickerId := by
    intro tickerId
    unfold maxLoss
    rw [(total_of_run hrun').1]
    exact hlimit tickerId
  refine forall_congr' fun ask => forall_congr' fun hask => ?_
  rw [sends_iff hstep hask]
  have hnonneg := hloss ask.tickerId
  constructor
  · intro hiff
    by_cases hlost : t.totalPnl ask.tickerId < -t.maxLoss ask.tickerId
    · exact .inl hlost
    · exact .inr (hiff.2 (not_lt.1 hlost))
  · intro h
    rcases h with hlost | hearned
    · refine ⟨fun hearned => ?_, fun h => absurd hlost (not_lt.2 h)⟩
      linarith
    · refine ⟨fun _ => ?_, fun _ => hearned⟩
      linarith

end Runs

/-- The limits of the README's example: orders of 100, a position of 500,
and a loss of 5. -/
def readmeConfig (_ : TickerID) : RiskConfig where
  maxOrderSize := 100
  maxPosition := 500
  maxLoss := 5

/-- A clip of 10 on the bid. -/
def firstBid : Activity := .moveOrders 0 100 priceInvalid 10

theorem firstBid_asked (maxLoss : ℚ) :
    (new 1 fun t => { readmeConfig t with maxLoss := maxLoss }).Asked firstBid
      ⟨0, .buy, 100, 10⟩ := by
  refine ⟨List.mem_cons_self, by decide, .inl rfl, ?_, ?_⟩
  · change ¬ (10 : Quantity) > 100
    decide
  · change ¬ int32 |int32 (0 + sideToValue .buy * int32 10)| > int32 500
    decide

theorem firstBid_acted (riskConfig : TickerID → RiskConfig) :
    ∃ s', Acted (new 1 riskConfig) firstBid s' := by
  refine ⟨(new 1 riskConfig).movedOrders 0 100 priceInvalid 10, ?_⟩
  exact (run_moveOrders 0 100 priceInvalid 10).trans (if_pos (by decide))

/-- The first order of a client that has lost nothing and may lose 5 is
not sent. -/
theorem firstBid_blocked :
    ¬ ∀ (clientId : ClientID) (riskConfig : TickerID → RiskConfig),
      (∀ tickerId, 0 ≤ (riskConfig tickerId).maxLoss) →
      ∀ as s, Run Acted (new clientId riskConfig) as s →
      ∀ a s', Acted s a s' → s.Obeys a s' := by
  intro hclaim
  obtain ⟨s', hacted⟩ := firstBid_acted readmeConfig
  have hask := firstBid_asked 5
  have hobeys := hclaim 1 readmeConfig (fun _ => by norm_num [readmeConfig])
    [] _ .nil firstBid s' hacted _ hask
  rw [sends_iff hacted hask] at hobeys
  have hmax : maxLoss (new 1 readmeConfig) 0 = 5 := rfl
  have htotal : totalPnl (new 1 readmeConfig) 0 = 0 := rfl
  have hearned := hobeys.2 (by rw [hmax, htotal]; norm_num)
  rw [hmax, htotal] at hearned
  norm_num at hearned

/-- With no loss allowed, the client's first order obeys the limit. -/
theorem obeys_firstBid :
    ∃ s', Run Acted (new 1 fun t => { readmeConfig t with maxLoss := 0 })
        [firstBid] s' ∧
      ∀ as' a t t', as' ++ [a] <+: [firstBid] →
        Run Acted (new 1 fun t => { readmeConfig t with maxLoss := 0 }) as'
          t → Acted t a t' → t.Obeys a t' := by
  obtain ⟨s', hacted⟩ :=
    firstBid_acted fun t => { readmeConfig t with maxLoss := 0 }
  refine ⟨s', Run.nil.snoc hacted, ?_⟩
  refine (obeys_iff_decided (fun _ => le_refl _) (Run.nil.snoc hacted)).2 ?_
  refine Run.nil.snoc ⟨hacted, fun ask _ => .inr ?_⟩
  exact le_refl _

end Desk

end ElectronicTrading
