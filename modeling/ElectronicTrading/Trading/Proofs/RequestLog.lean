/-
The log of requests of a trading client, whatever it is answered.

Nothing is assumed of the responses here: they may be late, repeated, made
up or for orders that were never sent. What the order manager sends still has
a shape. A slot gives out a new order only when it is free, and it becomes
free again only by a CANCELLED or a last FILLED (`Closes`) for its ticker and
side, so that its orders come one at a time (`one_at_a_time`). The ids it
gives out are 1, 2, 3 and so on, and a CANCEL names an order that was sent
before, unless its slot was never used (`logged_of_run`).
-/
import ElectronicTrading.Trading.Proofs.Strategies
import ElectronicTrading.Lib.Sequenced

namespace ElectronicTrading

open Exec Runs Sequenced

-- ========================================================== one order at a time

/-- The slot of a request's order. -/
def MatchingEngineClientRequest.slot (r : MatchingEngineClientRequest) : Slot :=
  (r.tickerId, sideToIndex r.side)

/-- A response that frees the slot of its order. -/
def Closes (slot : Slot) (m : MatchingEngineClientResponse) : Prop :=
  (m.tickerId, sideToIndex m.side) = slot
    ∧ (m.type = .cancelled ∨ (m.type = .filled ∧ m.leavesQuantity = 0))

namespace OrderManager

variable {s : OrderManager} {slot order : Slot}

theorem isFree_of_eq {s t : OrderManager}
    (h : s.tickerSideOrders slot = t.tickerSideOrders slot) :
    s.IsFree slot ↔ t.IsFree slot := by
  unfold IsFree
  rw [h]

/-- A slot in use is still so when orders are moved. -/
theorem busy_moved (h : ¬ s.IsFree slot) (risk : PreTradeRisk)
    (tickerId : TickerID) (price : Price) (side : Side)
    (quantity : Quantity) :
    ¬ (s.moved risk order tickerId price side quantity).IsFree slot := by
  by_cases hslot : slot = order
  · rw [hslot] at h ⊢
    unfold moved
    split
    · intro hfree
      unfold IsFree withCancelled at hfree
      dsimp only at hfree
      rw [putOrder_same] at hfree
      simp at hfree
    · split
      · next hnew => exact (h hnew.1).elim
      · exact h
  · rw [isFree_of_eq (moved_other risk hslot tickerId price side quantity)]
    exact h

/-- A slot gives out a new order when it is free, and is then in use. -/
theorem free_of_moveRequests {risk : PreTradeRisk} {tickerId : TickerID}
    {price : Price} {side : Side} {quantity : Quantity}
    {r : MatchingEngineClientRequest}
    (h : r ∈ s.moveRequests risk order tickerId price side quantity)
    (hnew : r.type = .new) :
    s.IsFree order
      ∧ ¬ (s.moved risk order tickerId price side quantity).IsFree order := by
  unfold moveRequests at h
  split at h
  · rw [List.mem_singleton.1 h] at hnew
    cases hnew
  · next helsewhere =>
      split at h
      · next hfree =>
          refine ⟨hfree.1, ?_⟩
          unfold moved
          rw [if_neg helsewhere, if_pos hfree]
          intro hafter
          unfold IsFree withNewOrder at hafter
          dsimp only at hafter
          rw [putOrder_same] at hafter
          simp at hafter
      · cases h

/-- One move sends at most one request. -/
theorem pairwise_moveRequests {P : MatchingEngineClientRequest →
    MatchingEngineClientRequest → Prop} (risk : PreTradeRisk)
    (tickerId : TickerID) (price : Price) (side : Side)
    (quantity : Quantity) :
    (s.moveRequests risk order tickerId price side quantity).Pairwise P := by
  unfold moveRequests
  split
  · exact List.pairwise_singleton ..
  · split
    · exact List.pairwise_singleton ..
    · exact .nil

/-- Only a response that closes an order frees its slot. -/
theorem busy_responded (h : ¬ s.IsFree slot)
    {m : MatchingEngineClientResponse} (hopen : ¬ Closes slot m) :
    ¬ (s.responded m).IsFree slot := by
  unfold responded
  dsimp only
  by_cases hslot : slot = (m.tickerId, sideToIndex m.side)
  · rw [← hslot]
    unfold IsFree at h ⊢
    rw [putOrder_same]
    unfold OMOrder.updated
    cases htype : m.type with
    | accepted => simp
    | cancelled => exact (hopen ⟨hslot.symm, .inl htype⟩).elim
    | filled =>
        have hleaves : m.leavesQuantity ≠ 0 := fun hzero =>
          hopen ⟨hslot.symm, .inr ⟨htype, hzero⟩⟩
        dsimp only
        rw [if_neg hleaves]
        exact h
    | cancelRejected | invalid | unnamed => exact h
  · unfold IsFree at h ⊢
    rw [putOrder_other hslot]
    exact h

end OrderManager

/-- What a call of `moveOrders` makes of a slot it sends a new order from, and
of one in use. -/
theorem Desk.slots_of_moveOrders {d d' : Desk} {tickerId : TickerID}
    {bidPrice askPrice : Price} {clip : Quantity}
    (h : (Desk.moveOrders tickerId bidPrice askPrice clip).run d
      = .ok () d') :
    (∀ slot, ¬ d.orderManager.IsFree slot → ¬ d'.orderManager.IsFree slot)
      ∧ ∃ l, d'.orderManager.requests = d.orderManager.requests ++ l
        ∧ (∀ r ∈ l, r.type = .new →
          d.orderManager.IsFree r.slot ∧ ¬ d'.orderManager.IsFree r.slot)
        ∧ l.Pairwise fun r r' => r.type = .new → r'.type = .new →
          r.slot ≠ r'.slot := by
  obtain ⟨-, rfl⟩ := moveOrders_cases h
  obtain ⟨risk, hrisk⟩ : ∃ risk, risk
    = d.riskManager.checkPreTradeRisk d.positionKeeper := ⟨_, rfl⟩
  obtain ⟨om, hom⟩ : ∃ om, om = d.orderManager.moved risk
    (tickerId, sideToIndex .buy) tickerId bidPrice .buy clip := ⟨_, rfl⟩
  have hmanager : (d.movedOrders tickerId bidPrice askPrice clip).orderManager
      = om.moved risk (tickerId, sideToIndex .sell) tickerId askPrice .sell
        clip := by
    rw [hom, hrisk]
    rfl
  have hbusy : ∀ slot, ¬ d.orderManager.IsFree slot → ¬ om.IsFree slot := by
    intro slot hslot
    rw [hom]
    exact OrderManager.busy_moved hslot _ _ _ _ _
  rw [hmanager]
  have hbidSlot : ∀ r ∈ d.orderManager.moveRequests risk
      (tickerId, sideToIndex .buy) tickerId bidPrice .buy clip,
      r.type = .new → r.slot = (tickerId, sideToIndex .buy) := by
    intro r hr hnew
    rw [(OrderManager.new_of_moveRequests hr hnew).1]
    rfl
  have haskSlot : ∀ r ∈ om.moveRequests risk
      (tickerId, sideToIndex .sell) tickerId askPrice .sell clip,
      r.type = .new → r.slot = (tickerId, sideToIndex .sell) := by
    intro r hr hnew
    rw [(OrderManager.new_of_moveRequests hr hnew).1]
    rfl
  refine ⟨fun slot hslot => OrderManager.busy_moved (hbusy slot hslot)
      _ _ _ _ _,
    d.orderManager.moveRequests risk (tickerId, sideToIndex .buy)
      tickerId bidPrice .buy clip
    ++ om.moveRequests risk (tickerId, sideToIndex .sell) tickerId askPrice
      .sell clip, ?_, fun r hr hnew => ?_,
    List.pairwise_append.2 ⟨OrderManager.pairwise_moveRequests ..,
      OrderManager.pairwise_moveRequests .., fun r hr r' hr' hnew hnew' => ?_⟩⟩
  · rw [OrderManager.moved_requests, hom, OrderManager.moved_requests,
      List.append_assoc]
  · rcases List.mem_append.1 hr with hbid | hask
    · obtain ⟨hfree, hafter⟩ :=
        OrderManager.free_of_moveRequests hbid hnew
      rw [hbidSlot r hbid hnew]
      rw [← hom] at hafter
      exact ⟨hfree, OrderManager.busy_moved hafter _ _ _ _ _⟩
    · obtain ⟨hfree, hafter⟩ :=
        OrderManager.free_of_moveRequests hask hnew
      rw [haskSlot r hask hnew]
      refine ⟨?_, hafter⟩
      by_contra hbefore
      exact hbusy _ hbefore hfree
  · rw [hbidSlot r hr hnew, haskSlot r' hr' hnew']
    intro hsame
    cases congrArg Prod.snd hsame

namespace TradeEngine

variable {D : Type} [Double D]
  {tickerConfig : TickerID → TradeEngineConfig D} {s s' : TradeEngine D}

/-- What an event makes of the slots. -/
theorem slots_of_handles {event : Event} (h : Handles s event s') :
    (∀ slot, ¬ s.desk.orderManager.IsFree slot →
      (∀ m, event = .clientResponse m → ¬ Closes slot m) →
      ¬ s'.desk.orderManager.IsFree slot)
    ∧ ∃ l, s'.desk.orderManager.requests = s.desk.orderManager.requests ++ l
      ∧ (∀ r ∈ l, r.type = .new → s.desk.orderManager.IsFree r.slot
        ∧ ¬ s'.desk.orderManager.IsFree r.slot)
      ∧ l.Pairwise fun r r' => r.type = .new → r'.type = .new →
        r.slot ≠ r'.slot := by
  cases event with
  | clientResponse m =>
      obtain ⟨hrun, -⟩ := onDesk_eq_ok h
      obtain ⟨-, hdesk⟩ := Desk.onOrderUpdate_cases hrun
      have hmanager : s'.desk.orderManager
          = s.desk.orderManager.responded m := by rw [hdesk]
      rw [hmanager]
      exact ⟨fun slot hslot hopen =>
        OrderManager.busy_responded hslot (hopen m rfl),
        [], (List.append_nil _).symm, List.forall_mem_nil _, .nil⟩
  | marketUpdate m =>
      obtain ⟨-, d, hbbo, hmoved⟩ := calls_of_marketUpdate h
      have hbefore : d.orderManager = s.desk.orderManager := by
        rcases hbbo with hsame | ⟨bbo, hbbo⟩
        · rw [hsame]
        · rw [(Desk.updateBBO_cases hbbo).2]
      rw [← hbefore]
      rcases hmoved with hsame | ⟨bidPrice, askPrice, -, hmove⟩
      · rw [hsame]
        exact ⟨fun slot hslot _ => hslot, [], (List.append_nil _).symm,
          List.forall_mem_nil _, .nil⟩
      · obtain ⟨hbusy, hsent⟩ := Desk.slots_of_moveOrders hmove
        exact ⟨fun slot hslot _ => hbusy slot hslot, hsent⟩

/-- Among the events that came with more than `i` and at most `j` requests in
the log was a response that closes an order of the slot. -/
def ClosedBetween (s : TradeEngine D) (events : List Event) (i j : Nat)
    (slot : Slot) : Prop :=
  ∃ before m after t, events = before ++ .clientResponse m :: after
    ∧ Run Handles s before t ∧ Closes slot m
    ∧ i < t.desk.orderManager.requests.length
    ∧ t.desk.orderManager.requests.length ≤ j

theorem ClosedBetween.snoc {events : List Event} {i j k : Nat} {slot : Slot}
    (h : ClosedBetween s events i j slot) (event : Event) (hjk : j ≤ k) :
    ClosedBetween s (events ++ [event]) i k slot := by
  obtain ⟨before, m, after, t, hevents, hrun, hcloses, hi, hj⟩ := h
  refine ⟨before, m, after ++ [event], t, ?_, hrun, hcloses, hi, by omega⟩
  rw [hevents, List.append_assoc, List.cons_append]

/-- What a run keeps of the orders it has sent: a slot is in use from each on
until it is closed, and two of one slot have been closed in between. -/
structure Spaced (s : TradeEngine D) (events : List Event)
    (s' : TradeEngine D) : Prop where
  longer : s.desk.orderManager.requests.length
    ≤ s'.desk.orderManager.requests.length
  busy : ∀ i r, s.desk.orderManager.requests.length ≤ i →
    s'.desk.orderManager.requests[i]? = some r → r.type = .new →
    s'.desk.orderManager.IsFree r.slot →
    ClosedBetween s events i s'.desk.orderManager.requests.length r.slot
  between : ∀ i j r r', s.desk.orderManager.requests.length ≤ i → i < j →
    s'.desk.orderManager.requests[i]? = some r →
    s'.desk.orderManager.requests[j]? = some r' →
    r.type = .new → r'.type = .new → r.slot = r'.slot →
    ClosedBetween s events i j r.slot

theorem spaced_nil (s : TradeEngine D) : Spaced s [] s where
  longer := Nat.le_refl _
  busy i r hi hr := by
    rw [List.getElem?_eq_none hi] at hr
    cases hr
  between i j r r' hi _ hr := by
    rw [List.getElem?_eq_none hi] at hr
    cases hr

/-- One more event. -/
theorem Spaced.snoc {events : List Event} {t : TradeEngine D}
    (h : Spaced s events t) (hrun : Run Handles s events t) {event : Event}
    (hstep : Handles t event s') : Spaced s (events ++ [event]) s' := by
  obtain ⟨hbusy, l, hl, hnews, hpairs⟩ := slots_of_handles hstep
  have hlength : s'.desk.orderManager.requests.length
      = t.desk.orderManager.requests.length + l.length := by
    rw [hl, List.length_append]
  have hsplit : ∀ {i r}, s'.desk.orderManager.requests[i]? = some r →
      (i < t.desk.orderManager.requests.length
        ∧ t.desk.orderManager.requests[i]? = some r)
      ∨ (t.desk.orderManager.requests.length ≤ i
        ∧ l[i - t.desk.orderManager.requests.length]? = some r) := by
    intro i r hr
    rw [hl] at hr
    rcases Nat.lt_or_ge i t.desk.orderManager.requests.length with hlt | hge
    · rw [List.getElem?_append_left hlt] at hr
      exact .inl ⟨hlt, hr⟩
    · rw [List.getElem?_append_right hge] at hr
      exact .inr ⟨hge, hr⟩
  refine ⟨by rw [hlength]; exact Nat.le_add_right_of_le h.longer, ?_, ?_⟩
  · intro i r hi hr hnew hfree
    rcases hsplit hr with ⟨hlt, hold⟩ | ⟨hge, hlast⟩
    · by_cases hbefore : t.desk.orderManager.IsFree r.slot
      · exact (h.busy i r hi hold hnew hbefore).snoc event (by omega)
      · -- this event has freed the slot
        by_contra hnone
        refine hbusy r.slot hbefore (fun m hevent hcloses => hnone ?_) hfree
        exact ⟨events, m, [], t, by rw [hevent], hrun, hcloses, hlt, by omega⟩
    · exact ((hnews r (List.mem_of_getElem? hlast) hnew).2 hfree).elim
  · intro i j r r' hi hij hr hr' hnew hnew' hslot
    rcases hsplit hr' with ⟨hlt', hold'⟩ | ⟨hge', hlast'⟩
    · rcases hsplit hr with ⟨-, hold⟩ | ⟨hge, -⟩
      · exact (h.between i j r r' hi hij hold hold' hnew hnew' hslot).snoc event
          (Nat.le_refl _)
      · omega
    · rcases hsplit hr with ⟨hlt, hold⟩ | ⟨hge, hlast⟩
      · -- the slot was free before the second was sent
        have hfree := (hnews r' (List.mem_of_getElem? hlast') hnew').1
        rw [← hslot] at hfree
        exact (h.busy i r hi hold hnew hfree).snoc event hge'
      · obtain ⟨hlt, hat⟩ := List.getElem?_eq_some_iff.1 hlast
        obtain ⟨hlt', hat'⟩ := List.getElem?_eq_some_iff.1 hlast'
        have hne := List.pairwise_iff_getElem.1 hpairs _ _ hlt hlt' (by omega)
        rw [hat, hat'] at hne
        exact (hne hnew hnew' hslot).elim

/-- Between two orders of one ticker and side in the log the client has been
told that the first is closed: by a CANCELLED, or a FILLED that leaves nothing.
Nothing else frees a slot. -/
theorem one_at_a_time {events : List Event} (h : Run Handles s events s') :
    (∀ i j r r', s.desk.orderManager.requests.length ≤ i → i < j →
      s'.desk.orderManager.requests[i]? = some r →
      s'.desk.orderManager.requests[j]? = some r' →
      r.type = .new → r'.type = .new → r.slot = r'.slot →
      ClosedBetween s events i j r.slot)
      ∧ ∀ event (t t' : TradeEngine D) slot, Handles t event t' →
        ¬ t.desk.orderManager.IsFree slot → t'.desk.orderManager.IsFree slot →
        ∃ m, event = .clientResponse m ∧ Closes slot m := by
  have hspaced : Spaced s events s' :=
    h.induct (I := fun events s' => Spaced s events s') (spaced_nil s)
      fun _ _ _ _ hrun hs hstep => hs.snoc hrun hstep
  refine ⟨hspaced.between, fun event t t' slot hstep hbusy hfree => ?_⟩
  by_contra hnone
  exact (slots_of_handles hstep).1 slot hbusy
    (fun m hevent hcloses => hnone ⟨m, hevent, hcloses⟩) hfree

/-- A CANCELLED that is made up: the first bid was never accepted. -/
def madeUp : MatchingEngineClientResponse :=
  ⟨.cancelled, 0, 0, 1, 1, .buy, 100, 0, 0⟩

/-- A bid and an ask, the bid closed, and the next one. -/
def bids : List Event :=
  quotes.map .marketUpdate
    ++ [.clientResponse madeUp, .marketUpdate ⟨.add, 5, 0, .buy, 100, 5, 3⟩]

/-- The client has sent a bid, an ask and another bid. -/
theorem one_at_a_time_bids : ∃ s : TradeEngine (Option ℚ),
    Run Handles (new 0 .maker quoter) bids s
      ∧ s.desk.orderManager.requests.map (fun r => (r.type, r.side, r.orderId))
        = [(.new, .buy, 1), (.new, .sell, 2), (.new, .buy, 3)]
      ∧ ClosedBetween (new 0 .maker quoter) bids 0 2
        (0, sideToIndex .buy) := by
  obtain ⟨s, hrun, hlog⟩ := exists_run_of_any (new 0 .maker quoter) bids
    (fun s => s.desk.orderManager.requests = [⟨.new, 0, 0, 1, .buy, 100, 10⟩,
      ⟨.new, 0, 0, 2, .sell, 102, 10⟩, ⟨.new, 0, 0, 3, .buy, 100, 10⟩])
    (by decide +kernel)
  refine ⟨s, hrun, by rw [hlog]; rfl, ?_⟩
  exact (one_at_a_time hrun).1 0 2 ⟨.new, 0, 0, 1, .buy, 100, 10⟩
    ⟨.new, 0, 0, 3, .buy, 100, 10⟩ (Nat.le_refl _) (by decide)
    (by rw [hlog]; rfl) (by rw [hlog]; rfl) rfl rfl rfl

end TradeEngine

-- ==================================================================== the log

/-- What a request says of its order. -/
def MatchingEngineClientRequest.name (r : MatchingEngineClientRequest) :
    TickerID × OrderID × Side × Price :=
  (r.tickerId, r.orderId, r.side, r.price)

def OMOrder.name (o : OMOrder) : TickerID × OrderID × Side × Price :=
  (o.tickerId, o.orderId, o.side, o.price)

/-- The name of an order of the log, or of a slot that was never used. -/
def Named (rs : List MatchingEngineClientRequest)
    (name : TickerID × OrderID × Side × Price) : Prop :=
  name = ({} : OMOrder).name ∨ ∃ r ∈ newOrders rs, r.name = name

/-- The log up to each CANCEL names the order that is cancelled. -/
def CancelsNamed (rs : List MatchingEngineClientRequest) : Prop :=
  ∀ before r after, rs = before ++ r :: after → r.type = .cancel →
    Named before r.name

section Log

variable {rs : List MatchingEngineClientRequest}
  {r : MatchingEngineClientRequest}
  {name : TickerID × OrderID × Side × Price}

theorem Named.snoc (h : Named rs name) : Named (rs ++ [r]) name := by
  rcases h with hblank | ⟨o, ho, hname⟩
  · exact Or.inl hblank
  · refine Or.inr ⟨o, ?_, hname⟩
    rw [newOrders_snoc]
    exact List.mem_append_left _ ho

theorem CancelsNamed.snoc (h : CancelsNamed rs)
    (hr : r.type = .cancel → Named rs r.name) : CancelsNamed (rs ++ [r]) := by
  intro before q after hsplit hcancel
  rcases List.eq_nil_or_concat after with rfl | ⟨after, x, rfl⟩
  · obtain ⟨hbefore, hq⟩ := List.append_inj' hsplit rfl
    cases hq
    rw [← hbefore]
    exact hr hcancel
  · rw [List.concat_eq_append, ← List.cons_append, ← List.append_assoc]
      at hsplit
    exact h before q after (List.append_inj' hsplit rfl).1 hcancel

end Log

namespace OrderManager

/-- The log so far, and the slots it has filled. -/
structure Logged (c : ClientID) (s : OrderManager) : Prop where
  client : s.clientId = c
  own : ∀ r ∈ s.requests,
    r.clientId = c ∧ (r.type = .new ∨ r.type = .cancel)
  numbered : Numbered (·.orderId) 1 (newOrders s.requests)
  next : s.nextOrderId = 1 + UInt64.ofNat (newOrders s.requests).length
  slots : ∀ slot, Named s.requests (s.tickerSideOrders slot).name
  cancels : CancelsNamed s.requests

variable {c : ClientID} {s : OrderManager}

theorem logged_new (c : ClientID) : Logged c (new c) where
  client := rfl
  own := List.forall_mem_nil _
  numbered := trivial
  next := rfl
  slots := fun _ => Or.inl rfl
  cancels := by
    intro before r after hsplit
    cases before
    · cases hsplit
    · cases hsplit

/-- An order that keeps its name is put back. -/
theorem Logged.putOrder (h : Logged c s) {slot : Slot} {o : OMOrder}
    (ho : o.name = (s.tickerSideOrders slot).name) :
    Logged c (s.putOrder slot o) := by
  refine ⟨h.client, h.own, h.numbered, h.next, fun slot' => ?_, h.cancels⟩
  by_cases hslot : slot' = slot
  · rw [hslot, putOrder_same, ho]
    exact h.slots slot
  · rw [putOrder_other hslot]
    exact h.slots slot'

theorem Logged.withNewOrder (h : Logged c s) (order : Slot)
    (tickerId : TickerID) (price : Price) (side : Side)
    (quantity : Quantity) :
    Logged c (s.withNewOrder order tickerId price side quantity) := by
  obtain ⟨r, hr⟩ : ∃ r, r = s.newRequest tickerId price side quantity :=
    ⟨_, rfl⟩
  have hnew : r.type = .new := by
    rw [hr]
    rfl
  have hid : r.orderId = s.nextOrderId := by
    rw [hr]
    rfl
  have hrequests : (s.withNewOrder order tickerId price side
      quantity).requests = s.requests ++ [r] := by
    rw [hr]
    rfl
  have hnews : newOrders (s.requests ++ [r])
      = newOrders s.requests ++ [r] := by
    rw [newOrders_snoc, if_pos hnew]
  refine ⟨h.client, fun q hq => ?_, ?_, ?_, fun slot => ?_, ?_⟩
  · rw [hrequests] at hq
    rcases List.mem_append.1 hq with hold | hlast
    · exact h.own q hold
    · rw [List.mem_singleton.1 hlast, hr]
      exact ⟨h.client, Or.inl rfl⟩
  · rw [hrequests, hnews]
    exact h.numbered.snoc (hid.trans h.next)
  · rw [hrequests, hnews, List.length_append, List.length_singleton,
      ← add_ofNat_succ]
    show s.nextOrderId + 1 = _
    rw [h.next, UInt64.add_assoc, UInt64.add_comm (UInt64.ofNat _),
      ← UInt64.add_assoc]
  · rw [hrequests]
    by_cases hslot : slot = order
    · refine Or.inr ⟨r, ?_, ?_⟩
      · rw [hnews]
        exact List.mem_append_right _ (List.mem_singleton_self r)
      · rw [hslot, hr]
        unfold OrderManager.withNewOrder
        dsimp only
        rw [putOrder_same]
        rfl
    · have hother : (s.withNewOrder order tickerId price side
          quantity).tickerSideOrders slot = s.tickerSideOrders slot :=
        putOrder_other hslot _
      rw [hother]
      exact (h.slots slot).snoc
  · rw [hrequests]
    refine h.cancels.snoc fun hcancel => ?_
    rw [hnew] at hcancel
    cases hcancel

theorem Logged.withCancelled (h : Logged c s) (order : Slot) :
    Logged c (s.withCancelled order) := by
  obtain ⟨r, hr⟩ : ∃ r, r = s.cancelRequest order := ⟨_, rfl⟩
  have hcancel : r.type = .cancel := by
    rw [hr]
    rfl
  have hrequests : (s.withCancelled order).requests = s.requests ++ [r] := by
    rw [hr]
    rfl
  have hnews : newOrders (s.requests ++ [r]) = newOrders s.requests := by
    have hnot : r.type ≠ .new := by
      rw [hcancel]
      exact nofun
    rw [newOrders_snoc, if_neg hnot, List.append_nil]
  have hput : Logged c (s.putOrder order
      { s.tickerSideOrders order with orderState := .pendingCancel }) :=
    h.putOrder rfl
  refine ⟨h.client, fun q hq => ?_, ?_, ?_, fun slot => ?_, ?_⟩
  · rw [hrequests] at hq
    rcases List.mem_append.1 hq with hold | hlast
    · exact h.own q hold
    · rw [List.mem_singleton.1 hlast, hr]
      exact ⟨h.client, Or.inr rfl⟩
  · rw [hrequests, hnews]
    exact h.numbered
  · rw [hrequests, hnews]
    exact h.next
  · rw [hrequests]
    exact (hput.slots slot).snoc
  · rw [hrequests]
    refine h.cancels.snoc fun _ => ?_
    rw [hr]
    exact h.slots order

theorem Logged.moved (h : Logged c s) (risk : PreTradeRisk) (order : Slot)
    (tickerId : TickerID) (price : Price) (side : Side)
    (quantity : Quantity) :
    Logged c (s.moved risk order tickerId price side quantity) := by
  unfold OrderManager.moved
  split
  · exact h.withCancelled order
  · split
    · exact h.withNewOrder order tickerId price side quantity
    · exact h

theorem Logged.responded (h : Logged c s) (m : MatchingEngineClientResponse) :
    Logged c (s.responded m) := by
  unfold OrderManager.responded
  refine h.putOrder ?_
  unfold OMOrder.updated
  cases m.type with
  | filled =>
      dsimp only
      split
      · rfl
      · rfl
  | accepted | cancelled | cancelRejected | invalid | unnamed => rfl

end OrderManager

namespace TradeEngine

variable {D : Type} [Double D]
  {tickerConfig : TickerID → TradeEngineConfig D} {s s' : TradeEngine D}
  {c : ClientID}

/-- An event keeps the log in order. -/
theorem logged_of_handles {event : Event} (h : Handles s event s')
    (hs : s.desk.orderManager.Logged c) : s'.desk.orderManager.Logged c := by
  cases event with
  | clientResponse m =>
      obtain ⟨hrun, -⟩ := onDesk_eq_ok h
      obtain ⟨-, hdesk⟩ := Desk.onOrderUpdate_cases hrun
      rw [hdesk]
      exact hs.responded m
  | marketUpdate m =>
      obtain ⟨-, d, hbbo, hmoved⟩ := calls_of_marketUpdate h
      have hbefore : d.orderManager = s.desk.orderManager := by
        rcases hbbo with hsame | ⟨bbo, hbbo⟩
        · rw [hsame]
        · rw [(Desk.updateBBO_cases hbbo).2]
      rw [← hbefore] at hs
      rcases hmoved with hsame | ⟨bidPrice, askPrice, -, hmove⟩
      · rw [hsame]
        exact hs
      · rw [(Desk.moveOrders_cases hmove).2]
        exact (hs.moved _ _ _ _ _ _).moved _ _ _ _ _ _

/-- Whatever the client is told: its requests are all its own, NEW or CANCEL;
its orders have the ids 1, 2, 3 and so on, no two of them the same before
they wrap around; and a CANCEL repeats ticker, id, side and price of an order
sent before it, or of a slot that was never used. -/
theorem logged_of_run {algoType : AlgoType} {events : List Event}
    (h : Run Handles (new c algoType tickerConfig) events s) :
    (∀ r ∈ s.desk.orderManager.requests,
        r.clientId = c ∧ (r.type = .new ∨ r.type = .cancel))
      ∧ (newOrders s.desk.orderManager.requests).map (·.orderId)
        = (List.range (newOrders s.desk.orderManager.requests).length).map
          (fun i => 1 + UInt64.ofNat i)
      ∧ ((newOrders s.desk.orderManager.requests).length ≤ 2 ^ 64 →
        ∀ r ∈ newOrders s.desk.orderManager.requests,
          ∀ r' ∈ newOrders s.desk.orderManager.requests,
            r.orderId = r'.orderId → r = r')
      ∧ CancelsNamed s.desk.orderManager.requests := by
  have hlogged : s.desk.orderManager.Logged c :=
    h.induct (I := fun _ s => s.desk.orderManager.Logged c)
      (OrderManager.logged_new c) fun _ _ _ _ _ hs hstep =>
        logged_of_handles hstep hs
  exact ⟨hlogged.own, hlogged.numbered.numbers, fun hlength _ hr _ hr' hids =>
    hlogged.numbered.unique hlength hr hr' hids, hlogged.cancels⟩

/-- The bid is accepted and filled in part, and then the book changes. -/
def filling : List Event :=
  quotes.map .marketUpdate
    ++ [.clientResponse ⟨.accepted, 0, 0, 1, 1, .buy, 100, 0, 10⟩,
      .clientResponse ⟨.filled, 0, 0, 1, 1, .buy, 100, 3, 7⟩,
      .marketUpdate ⟨.modify, 1, 0, .buy, 100, 4, 1⟩]

/-- What is left of the bid is cancelled: it is less than the clip. -/
theorem logged_of_run_filling : ∃ s : TradeEngine (Option ℚ),
    Run Handles (new 0 .maker quoter) filling s
      ∧ s.desk.orderManager.requests.map (·.type) = [.new, .new, .cancel]
      ∧ CancelsNamed s.desk.orderManager.requests := by
  obtain ⟨s, hrun, htypes⟩ := exists_run_of_any (new 0 .maker quoter) filling
    (fun s => s.desk.orderManager.requests.map (·.type) = [.new, .new, .cancel])
    (by decide +kernel)
  exact ⟨s, hrun, htypes, (logged_of_run hrun).2.2.2⟩

end TradeEngine

end ElectronicTrading
