/-
What a client knows of its orders while messages are on their way.

`agrees_of_run` speaks of a session with nothing on its way. `Outstanding`
holds in every state: a slot's order is on its way to the exchange or rests
there, never both and never twice, and its id, price and quantity are the
slot's, less the fills the client has yet to hear of. The slot is free only
if there is no order of it, on its way or at rest, and no answer to come.
-/
import ElectronicTrading.Exchange.Proofs.Leaves
import ElectronicTrading.Trading.Proofs.Agreement

namespace ElectronicTrading

open Runs Reference
open SnapshotSynthesizer (tickerOf)

-- ==================================================================== one slot

/-- What an answer leaves of the slot's order. -/
theorem OMOrder.quantity_updated (x : OMOrder)
    (m : MatchingEngineClientResponse) :
    (x.updated m).quantity = leftBy x.quantity m := by
  unfold OMOrder.updated leftBy
  cases hm : m.type with
  | filled =>
      rw [if_pos rfl]
      dsimp only
      split
      · rfl
      · rfl
  | accepted | cancelled | cancelRejected | invalid | unnamed => rfl

theorem Flow.quantity {x x' : OMOrder} {ms : List MatchingEngineClientResponse}
    (h : Flow x ms x') : x'.quantity = leftAfter x.quantity ms := by
  induction h with
  | nil x => rfl
  | accepted _ _ _ ih | filled _ _ _ ih | cancelled _ _ _ ih =>
      rw [ih, OMOrder.quantity_updated]
      rfl

namespace Session

/-- A slot, and what there is of its order elsewhere: the answers to it, the
NEW requests for it and the orders at rest. -/
structure Outstanding (o : OMOrder)
    (answers : List MatchingEngineClientResponse)
    (orders : List MatchingEngineClientRequest)
    (resting : List (Resting OrderIds)) : Prop where
  one : orders.length + resting.length ≤ 1
  sent : ∀ r ∈ orders, r.orderId = o.orderId ∧ r.price = o.price
    ∧ r.quantity = leftAfter o.quantity answers
  rests : ∀ x ∈ resting, x.key.clientOrderId = o.orderId ∧ x.price = o.price
    ∧ x.quantity = leftAfter o.quantity answers
  free : o.orderState = .invalid ∨ o.orderState = .dead →
    answers = [] ∧ orders = [] ∧ resting = []

/-- What the answers on their way lead to is settled, so all is there. -/
theorem outstanding_of_settled {tickerId : TickerID} {side : Side}
    {x o : OMOrder} {answers : List MatchingEngineClientResponse}
    {rs : List MatchingEngineClientRequest} {l : List (Resting OrderIds)}
    (hflow : Flow x answers o) (h : Settled tickerId side rs l o) :
    Outstanding x answers (newsFor tickerId side rs) l := by
  have hid := hflow.sameOrder.id
  have hprice := hflow.sameOrder.price
  have hquantity := hflow.quantity
  have hfree : x.orderState = .invalid ∨ x.orderState = .dead →
      answers = [] ∧ newsFor tickerId side rs = [] ∧ l = [] := by
    intro hstate
    obtain ⟨hnone, ho⟩ := hflow.free hstate
    rw [← ho] at hstate
    cases h with
    | free _ hl hnews => exact ⟨hnone, hnews, hl⟩
    | sent _ hsent _ _ _ _ _ _ _ => simp [hsent] at hstate
    | live _ hlive _ _ _ _ => simp [hlive] at hstate
    | cancelling _ hcancelling _ _ _ _ => simp [hcancelling] at hstate
  have hat : ∀ {y : Resting OrderIds}, IsAt y o → ∀ z ∈ [y],
      z.key.clientOrderId = x.orderId ∧ z.price = x.price
        ∧ z.quantity = leftAfter x.quantity answers := by
    intro y hy z hz
    rw [List.mem_singleton.1 hz, ← hid, ← hprice, ← hquantity]
    exact ⟨hy.id, hy.price, hy.quantity⟩
  cases h with
  | free _ hl hnews =>
      rw [hl, hnews] at hfree ⊢
      exact ⟨Nat.zero_le 1, List.forall_mem_nil _, List.forall_mem_nil _,
        hfree⟩
  | sent r _ hl hnews hrid hrprice hrquantity _ _ =>
      rw [hl, hnews] at hfree ⊢
      refine ⟨Nat.le_refl 1, fun r' hr' => ?_, List.forall_mem_nil _, hfree⟩
      rw [List.mem_singleton.1 hr', ← hid, ← hprice, ← hquantity]
      exact ⟨hrid, hrprice, hrquantity⟩
  | live y _ hl hy hnews _ | cancelling y _ hl hy hnews _ =>
      rw [hl, hnews] at hfree ⊢
      exact ⟨Nat.le_refl 1, List.forall_mem_nil _, hat hy, hfree⟩

-- ======================================================================= runs

variable {c : ClientID} {s : Session}

/-- In every state of a run that sends no order of quantity zero and whose
requests are safe, whatever is on its way. -/
theorem outstanding_of_run {as : List Act}
    (h : Run (fun s a s' => Step s a s' ∧ Clean s a) (new c) as s)
    (i : Fin matchingEngineMaxTickers) (b : Bool) :
    Outstanding (s.slotAt i b)
      (answersFor (tickerOf i) (sideOf b) s.responses)
      (newsFor (tickerOf i) (sideOf b) s.requests)
      ((s.engine.tickerOrderBook i).mine c b) := by
  have hlinked : Linked c s := h.induct (I := fun _ s => Linked c s)
    (linked_new c) fun _ _ _ _ _ hs hstep => hs.step hstep.1 hstep.2
  obtain ⟨o, hflow, hsettled⟩ := hlinked.slots i b
  exact outstanding_of_settled hflow hsettled

/-- The client has not heard of the fill, and the order rests with what is
left. -/
theorem outstanding_firstFill : ∃ s,
    Run (fun s a s' => Step s a s' ∧ Clean s a) (new 0) firstFill s
      ∧ (s.slotAt firstTicker true).orderState = .live
      ∧ s.responses.map (fun m => (m.type, m.leavesQuantity)) = [(.filled, 6)]
      ∧ ((s.engine.tickerOrderBook firstTicker).mine 0 true).map
        (·.quantity) = [6]
      ∧ Outstanding (s.slotAt firstTicker true)
        (answersFor (tickerOf firstTicker) (sideOf true) s.responses)
        (newsFor (tickerOf firstTicker) (sideOf true) s.requests)
        ((s.engine.tickerOrderBook firstTicker).mine 0 true) := by
  obtain ⟨s, hrun, hlive, hfill, hrests⟩ :=
    Run.exists_of_guarded (P := fun s a _ => Clean s a)
      (fun s a s' hact => (step_of_act hact : Step s a s')) (new 0) firstFill
      (fun s => (s.slotAt firstTicker true).orderState = .live
        ∧ s.responses.map (fun m => (m.type, m.leavesQuantity))
          = [(.filled, 6)]
        ∧ ((s.engine.tickerOrderBook firstTicker).mine 0 true).map
          (·.quantity) = [6])
      (by decide +kernel)
  exact ⟨s, hrun, hlive, hfill, hrests,
    outstanding_of_run hrun firstTicker true⟩

end Session

end ElectronicTrading
