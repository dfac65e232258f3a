/-
The slots of a client's order manager and its orders at the exchange.

# One slot

`Flow` are the answers that can be on their way to a slot: those that it
will take in the order in which they come. What they make of the slot is
what the exchange knows of it (`Settled`): a free slot has no order in the
book or on its way there, a LIVE one has its order in the book, one that
waits has its request on its way. Every request the exchange handles keeps
this (`Settled.told`), whoever sent it, and so does every call of
`moveOrder`, for which the slot may be behind.

# Runs

`Linked` is that for all slots, with what the ids of the orders need. When
nothing is on its way a slot is what its answers have made of it, so that
`agrees_of_run` follows. An order of no quantity is the exception: it is
ACCEPTED and never rests.
-/
import ElectronicTrading.Exchange.Proofs.Answers
import ElectronicTrading.Exchange.Proofs.Slots
import ElectronicTrading.Exchange.Proofs.Untrusted
import ElectronicTrading.Trading.Proofs.LossLimit
import ElectronicTrading.Trading.Proofs.Snapshot

namespace ElectronicTrading

open Exec (returned returned_eq_some)
open Runs Reference
open MatchingEngineOrderBook (OneEach Fresh Informs informs_of_cleanStep)

-- ================================================================= one slot

/-- The answers on their way to a slot, and what they make of it. -/
inductive Flow : OMOrder → List MatchingEngineClientResponse → OMOrder → Prop
  | nil (o : OMOrder) : Flow o [] o
  | accepted {o o' : OMOrder} {m : MatchingEngineClientResponse}
      {ms : List MatchingEngineClientResponse}
      (hstate : o.orderState = .pendingNew) (htype : m.type = .accepted)
      (h : Flow (o.updated m) ms o') : Flow o (m :: ms) o'
  | filled {o o' : OMOrder} {m : MatchingEngineClientResponse}
      {ms : List MatchingEngineClientResponse}
      (hstate : o.orderState = .live ∨ o.orderState = .pendingCancel)
      (htype : m.type = .filled)
      (h : Flow (o.updated m) ms o') : Flow o (m :: ms) o'
  | cancelled {o o' : OMOrder} {m : MatchingEngineClientResponse}
      {ms : List MatchingEngineClientResponse}
      (hstate : o.orderState = .pendingCancel) (htype : m.type = .cancelled)
      (h : Flow (o.updated m) ms o') : Flow o (m :: ms) o'

namespace OMOrder

/-- What an answer leaves as it is. -/
structure SameOrder (o o' : OMOrder) : Prop where
  ticker : o'.tickerId = o.tickerId
  id : o'.orderId = o.orderId
  side : o'.side = o.side
  price : o'.price = o.price

theorem SameOrder.refl (o : OMOrder) : SameOrder o o := ⟨rfl, rfl, rfl, rfl⟩

theorem SameOrder.trans {o o' o'' : OMOrder} (h : SameOrder o o')
    (h' : SameOrder o' o'') : SameOrder o o'' :=
  ⟨h'.ticker.trans h.ticker, h'.id.trans h.id, h'.side.trans h.side,
    h'.price.trans h.price⟩

theorem sameOrder_updated (o : OMOrder) (m : MatchingEngineClientResponse) :
    SameOrder o (o.updated m) := by
  unfold updated
  split
  · exact ⟨rfl, rfl, rfl, rfl⟩
  · exact ⟨rfl, rfl, rfl, rfl⟩
  · dsimp only
    split
    · exact ⟨rfl, rfl, rfl, rfl⟩
    · exact ⟨rfl, rfl, rfl, rfl⟩
  · exact SameOrder.refl o
  · exact SameOrder.refl o
  · exact SameOrder.refl o

variable {o : OMOrder} {m : MatchingEngineClientResponse}

theorem updated_accepted (h : m.type = .accepted) :
    o.updated m = { o with orderState := .live } := by
  unfold updated
  rw [h]

theorem updated_cancelled (h : m.type = .cancelled) :
    o.updated m = { o with orderState := .dead } := by
  unfold updated
  rw [h]

theorem updated_filled (h : m.type = .filled) :
    o.updated m = if m.leavesQuantity = 0 then
        { o with quantity := m.leavesQuantity, orderState := .dead }
      else { o with quantity := m.leavesQuantity } := by
  unfold updated
  rw [h]

end OMOrder

namespace Flow

variable {o o' o'' : OMOrder} {m : MatchingEngineClientResponse}
  {ms ms' : List MatchingEngineClientResponse}

theorem append (h : Flow o ms o') (h' : Flow o' ms' o'') :
    Flow o (ms ++ ms') o'' := by
  induction h with
  | nil => exact h'
  | accepted hstate htype _ ih => exact .accepted hstate htype (ih h')
  | filled hstate htype _ ih => exact .filled hstate htype (ih h')
  | cancelled hstate htype _ ih => exact .cancelled hstate htype (ih h')

theorem sameOrder (h : Flow o ms o') : o.SameOrder o' := by
  induction h with
  | nil o => exact .refl o
  | accepted _ _ _ ih => exact (OMOrder.sameOrder_updated _ _).trans ih
  | filled _ _ _ ih => exact (OMOrder.sameOrder_updated _ _).trans ih
  | cancelled _ _ _ ih => exact (OMOrder.sameOrder_updated _ _).trans ih

/-- A free slot waits for nothing. -/
theorem free (h : Flow o ms o')
    (hfree : o.orderState = .invalid ∨ o.orderState = .dead) :
    ms = [] ∧ o' = o := by
  cases h with
  | nil => exact ⟨rfl, rfl⟩
  | accepted hstate _ _ => simp [hstate] at hfree
  | filled hstate _ _ =>
      rcases hstate with h | h
      · simp [h] at hfree
      · simp [h] at hfree
  | cancelled hstate _ _ => simp [hstate] at hfree

/-- An answer's slot is not free and does not wait for its ACCEPTED. -/
theorem updated_state (hstate : m.type = .accepted ∨ m.type = .cancelled
      ∨ (m.type = .filled
        ∧ (o.orderState = .live ∨ o.orderState = .pendingCancel))) :
    (o.updated m).orderState ≠ .pendingNew
      ∧ (o.updated m).orderState ≠ .invalid := by
  rcases hstate with h | h | ⟨h, hold⟩
  · rw [OMOrder.updated_accepted h]
    exact ⟨by simp, by simp⟩
  · rw [OMOrder.updated_cancelled h]
    exact ⟨by simp, by simp⟩
  · rw [OMOrder.updated_filled h]
    split
    · exact ⟨by simp, by simp⟩
    · dsimp only
      rcases hold with h | h
      · rw [h]
        exact ⟨by simp, by simp⟩
      · rw [h]
        exact ⟨by simp, by simp⟩

/-- A LIVE slot can be cancelled: what is on its way to it stays right. -/
theorem cancelling (h : Flow o ms o') (hlive : o.orderState = .live) :
    (o'.orderState = .live
        ∧ Flow { o with orderState := .pendingCancel } ms
          { o' with orderState := .pendingCancel })
      ∨ (o'.orderState = .dead
        ∧ Flow { o with orderState := .pendingCancel } ms o') := by
  induction h with
  | nil o => exact Or.inl ⟨hlive, .nil _⟩
  | accepted hstate _ _ _ =>
      rw [hlive] at hstate
      cases hstate
  | cancelled hstate _ _ _ =>
      rw [hlive] at hstate
      cases hstate
  | @filled o o' m ms hstate htype h ih =>
      have hupdated := OMOrder.updated_filled (o := o) htype
      have hupdated' := OMOrder.updated_filled
        (o := { o with orderState := .pendingCancel }) htype
      by_cases hzero : m.leavesQuantity = 0
      · rw [if_pos hzero] at hupdated hupdated'
        have hdead : (o.updated m).orderState = .dead := by rw [hupdated]
        obtain ⟨rfl, rfl⟩ := h.free (Or.inr hdead)
        refine Or.inr ⟨hdead, .filled (Or.inr rfl) htype ?_⟩
        rw [hupdated', hupdated]
        exact .nil _
      · rw [if_neg hzero] at hupdated hupdated'
        have hlive' : (o.updated m).orderState = .live := by
          rw [hupdated]
          exact hlive
        have hsame : ({ o with orderState := .pendingCancel } : OMOrder).updated m
            = { o.updated m with orderState := .pendingCancel } := by
          rw [hupdated', hupdated]
        rcases ih hlive' with ⟨hend, hflow⟩ | ⟨hend, hflow⟩
        · refine Or.inl ⟨hend, .filled (Or.inr rfl) htype ?_⟩
          rw [hsame]
          exact hflow
        · refine Or.inr ⟨hend, .filled (Or.inr rfl) htype ?_⟩
          rw [hsame]
          exact hflow

/-- A LIVE slot takes the fills of its order. -/
theorem of_fillsTo {q left : Quantity} (h : FillsTo q ms left)
    (hq : o.quantity = q) (hlive : o.orderState = .live) (hne : q ≠ 0) :
    Flow o ms (if left = 0 then
      { o with quantity := left, orderState := .dead }
      else { o with quantity := left }) := by
  induction h generalizing o with
  | nil q =>
      rw [if_neg hne, ← hq]
      exact .nil o
  | @cons q left m ms _ htype hms ih =>
      refine .filled (Or.inl hlive) htype ?_
      rw [OMOrder.updated_filled htype]
      by_cases hzero : m.leavesQuantity = 0
      · -- it was the last one
        rw [if_pos hzero]
        rw [hzero] at hms
        cases hms with
        | nil =>
            rw [if_pos rfl, hzero]
            exact .nil _
        | cons hq _ _ => exact (hq rfl).elim
      · rw [if_neg hzero]
        exact ih rfl hlive hzero

end Flow

-- ========================================================== slot and exchange

/-- A resting order is the slot's. -/
structure IsAt (x : Resting OrderIds) (o : OMOrder) : Prop where
  id : x.key.clientOrderId = o.orderId
  price : x.price = o.price
  quantity : x.quantity = o.quantity

/-- The NEW orders of a ticker and side among the requests. -/
def newsFor (tickerId : TickerID) (side : Side)
    (rs : List MatchingEngineClientRequest) :
    List MatchingEngineClientRequest :=
  rs.filter fun r => r.type = .new ∧ r.tickerId = tickerId ∧ r.side = side

/-- A CANCEL of the slot's order. -/
def Cancels (tickerId : TickerID) (o : OMOrder)
    (r : MatchingEngineClientRequest) : Prop :=
  r.type = .cancel ∧ r.tickerId = tickerId ∧ r.orderId = o.orderId

/-- The slot of a ticker and side, once it has got what is on its way, the
requests `rs` on their way to the exchange, and the client's orders `l`
there. -/
inductive Settled (tickerId : TickerID) (side : Side)
    (rs : List MatchingEngineClientRequest) (l : List (Resting OrderIds))
    (o : OMOrder) : Prop
  | free (hstate : o.orderState = .invalid ∨ o.orderState = .dead)
      (hnone : l = []) (hnews : newsFor tickerId side rs = [])
  | sent (r : MatchingEngineClientRequest)
      (hstate : o.orderState = .pendingNew) (hnone : l = [])
      (hnews : newsFor tickerId side rs = [r]) (hid : r.orderId = o.orderId)
      (hprice : r.price = o.price) (hquantity : r.quantity = o.quantity)
      (hne : o.quantity ≠ 0) (hkept : ∀ r ∈ rs, ¬ Cancels tickerId o r)
  | live (x : Resting OrderIds) (hstate : o.orderState = .live)
      (hone : l = [x]) (hat : IsAt x o) (hnews : newsFor tickerId side rs = [])
      (hkept : ∀ r ∈ rs, ¬ Cancels tickerId o r)
  | cancelling (x : Resting OrderIds) (hstate : o.orderState = .pendingCancel)
      (hone : l = [x]) (hat : IsAt x o) (hnews : newsFor tickerId side rs = [])
      (hcancel : ∃ r ∈ rs, Cancels tickerId o r)

section Settled

variable {tickerId : TickerID} {side : Side}
  {rs rs' : List MatchingEngineClientRequest} {r : MatchingEngineClientRequest}
  {l l' : List (Resting OrderIds)} {o : OMOrder} {c : ClientID} {b : Bool}
  {ms : List MatchingEngineClientResponse}

theorem newsFor_cons_other
    (h : ¬ (r.type = .new ∧ r.tickerId = tickerId ∧ r.side = side)) :
    newsFor tickerId side (r :: rs) = newsFor tickerId side rs :=
  List.filter_cons_of_neg fun heq => h (of_decide_eq_true heq)

theorem newsFor_cons_own
    (h : r.type = .new ∧ r.tickerId = tickerId ∧ r.side = side) :
    newsFor tickerId side (r :: rs) = r :: newsFor tickerId side rs :=
  List.filter_cons_of_pos (decide_eq_true h)

/-- A request that is not about the slot leaves the line. -/
theorem Settled.tail (h : Settled tickerId side (r :: rs) l o)
    (hnew : ¬ (r.type = .new ∧ r.tickerId = tickerId ∧ r.side = side))
    (hcancel : l ≠ [] → ¬ Cancels tickerId o r) :
    Settled tickerId side rs l o := by
  have hkept : ∀ {P : MatchingEngineClientRequest → Prop},
      (∀ r' ∈ r :: rs, P r') → ∀ r' ∈ rs, P r' :=
    fun hall r' hr' => hall r' (List.mem_cons_of_mem r hr')
  cases h with
  | free hstate hnone hnews =>
      rw [newsFor_cons_other hnew] at hnews
      exact .free hstate hnone hnews
  | sent r' hstate hnone hnews hid hprice hquantity hne hall =>
      rw [newsFor_cons_other hnew] at hnews
      exact .sent r' hstate hnone hnews hid hprice hquantity hne (hkept hall)
  | live x hstate hone hat hnews hall =>
      rw [newsFor_cons_other hnew] at hnews
      exact .live x hstate hone hat hnews (hkept hall)
  | cancelling x hstate hone hat hnews hsome =>
      rw [newsFor_cons_other hnew] at hnews
      obtain ⟨r', hr', hr'c⟩ := hsome
      refine .cancelling x hstate hone hat hnews ⟨r', ?_, hr'c⟩
      rcases List.mem_cons.1 hr' with heq | hr'
      · rw [heq] at hr'c
        refine (hcancel ?_ hr'c).elim
        rw [hone]
        exact List.cons_ne_nil _ _
      · exact hr'

/-- A request that is not about the slot joins the line. -/
theorem Settled.snoc (h : Settled tickerId side rs l o)
    (hnew : ¬ (r.type = .new ∧ r.tickerId = tickerId ∧ r.side = side))
    (hcancel : o.orderState ≠ .invalid → o.orderState ≠ .dead →
      ¬ Cancels tickerId o r) :
    Settled tickerId side (rs ++ [r]) l o := by
  have hsame : newsFor tickerId side (rs ++ [r]) = newsFor tickerId side rs := by
    unfold newsFor
    rw [List.filter_append, List.filter_cons_of_neg, List.filter_nil,
      List.append_nil]
    exact fun heq => hnew (of_decide_eq_true heq)
  have hkept : o.orderState ≠ .invalid → o.orderState ≠ .dead →
      (∀ r' ∈ rs, ¬ Cancels tickerId o r') →
      ∀ r' ∈ rs ++ [r], ¬ Cancels tickerId o r' := by
    intro hinvalid hdead hall r' hr'
    rcases List.mem_append.1 hr' with hr' | hr'
    · exact hall r' hr'
    · rw [List.mem_singleton.1 hr']
      exact hcancel hinvalid hdead
  cases h with
  | free hstate hnone hnews =>
      exact .free hstate hnone (hsame.trans hnews)
  | sent r' hstate hnone hnews hid hprice hquantity hne hall =>
      exact .sent r' hstate hnone (hsame.trans hnews) hid hprice hquantity hne
        (hkept (by rw [hstate]; simp) (by rw [hstate]; simp) hall)
  | live x hstate hone hat hnews hall =>
      exact .live x hstate hone hat (hsame.trans hnews)
        (hkept (by rw [hstate]; simp) (by rw [hstate]; simp) hall)
  | cancelling x hstate hone hat hnews hsome =>
      obtain ⟨r', hr', hr'c⟩ := hsome
      exact .cancelling x hstate hone hat (hsame.trans hnews)
        ⟨r', List.mem_append_left _ hr', hr'c⟩

/-- Either the client's next request is handled, or another client's. -/
def Handled (c : ClientID) (r : MatchingEngineClientRequest)
    (rs rs' : List MatchingEngineClientRequest) : Prop :=
  (r.clientId = c ∧ rs = r :: rs') ∨ (r.clientId ≠ c ∧ rs' = rs)

/-- A request that is not about the slot's order is handled. -/
theorem Settled.handled (h : Settled tickerId side rs l o)
    (hhandled : Handled c r rs rs')
    (hnew : r.clientId = c →
      ¬ (r.type = .new ∧ r.tickerId = tickerId ∧ r.side = side))
    (hcancel : r.clientId = c → l ≠ [] → ¬ Cancels tickerId o r) :
    Settled tickerId side rs' l o := by
  rcases hhandled with ⟨hclient, hrs⟩ | ⟨-, hrs⟩
  · rw [hrs] at h
    exact h.tail (hnew hclient) (hcancel hclient)
  · rw [hrs]
    exact h

/-- What a client is told brings its slot to where the exchange is. -/
theorem Settled.told (h : Settled tickerId (sideOf b) rs l o)
    (hhandled : Handled c r rs rs') (hticker : r.tickerId = tickerId)
    (htold : Told c b r l ms l') :
    ∃ o', Flow o ms o' ∧ Settled tickerId (sideOf b) rs' l' o' := by
  cases htold with
  | unchanged _ hnew hcancel =>
      refine ⟨o, .nil o, h.handled hhandled
        (fun hclient hn => hnew hclient hn.1 hn.2.2) fun hclient hne hc => ?_⟩
      cases h with
      | free _ hnone _ => exact hne hnone
      | sent _ _ hnone _ _ _ _ _ _ => exact hne hnone
      | live x _ hone hat _ _ =>
          refine hcancel hclient hc.1 x ?_ (hat.id.trans hc.2.2.symm)
          rw [hone]
          exact List.mem_cons_self
      | cancelling x _ hone hat _ _ =>
          refine hcancel hclient hc.1 x ?_ (hat.id.trans hc.2.2.symm)
          rw [hone]
          exact List.mem_cons_self
  | filled x m htype hnew hother =>
      have hafter := h.handled hhandled
        (fun hclient hn => hother hclient hn.2.2) fun _ _ hc => by
          have hcancel := hc.1
          rw [hnew] at hcancel
          cases hcancel
      have hupdated := OMOrder.updated_filled (o := o) htype
      have hfill : o.orderState = .live ∨ o.orderState = .pendingCancel →
          Flow o [m] (o.updated m) := fun hstate =>
        .filled hstate htype (.nil _)
      -- the last fill takes the order out of the book, another leaves it there
      by_cases hzero : m.leavesQuantity = 0
      · rw [if_pos hzero] at hupdated ⊢
        have hdead : (o.updated m).orderState = .dead := by rw [hupdated]
        cases hafter with
        | free _ hnone _ => cases hnone
        | sent _ _ hnone _ _ _ _ _ _ => cases hnone
        | live _ hstate _ _ hnews _ =>
            exact ⟨_, hfill (Or.inl hstate),
              .free (Or.inr hdead) rfl hnews⟩
        | cancelling _ hstate _ _ hnews _ =>
            exact ⟨_, hfill (Or.inr hstate),
              .free (Or.inr hdead) rfl hnews⟩
      · rw [if_neg hzero] at hupdated ⊢
        have hsame : ∀ {y : Resting OrderIds}, [x] = [y] → IsAt y o →
            IsAt { x with quantity := m.leavesQuantity } (o.updated m) := by
          intro y hy hat
          cases hy
          rw [hupdated]
          exact ⟨hat.id, hat.price, rfl⟩
        have hid : (o.updated m).orderId = o.orderId := by rw [hupdated]
        have hstate' : (o.updated m).orderState = o.orderState := by
          rw [hupdated]
        cases hafter with
        | free _ hnone _ => cases hnone
        | sent _ _ hnone _ _ _ _ _ _ => cases hnone
        | live y hstate hone hat hnews hkept =>
            refine ⟨_, hfill (Or.inl hstate), .live _ (hstate'.trans hstate)
              rfl (hsame hone hat) hnews fun r' hr' hc => hkept r' hr' ?_⟩
            exact ⟨hc.1, hc.2.1, hc.2.2.trans hid⟩
        | cancelling y hstate hone hat hnews hcancel =>
            obtain ⟨r', hr', hc⟩ := hcancel
            exact ⟨_, hfill (Or.inr hstate), .cancelling _
              (hstate'.trans hstate) rfl (hsame hone hat) hnews
              ⟨r', hr', hc.1, hc.2.1, hc.2.2.trans hid.symm⟩⟩
  | placed x m ms htype hnew hclient hside hid hprice hfills =>
      obtain ⟨-, hrs⟩ := hhandled.resolve_right fun hother =>
        hother.1 hclient
      rw [hrs] at h
      have hnews : newsFor tickerId (sideOf b) (r :: rs')
          = r :: newsFor tickerId (sideOf b) rs' :=
        newsFor_cons_own ⟨hnew, hticker, hside⟩
      -- the request was on its way, so that its slot is `sent`
      have hnonempty : newsFor tickerId (sideOf b) (r :: rs') ≠ [] := by
        rw [hnews]
        exact List.cons_ne_nil _ _
      cases h with
      | free _ _ hnone => exact (hnonempty hnone).elim
      | live _ _ hone _ _ _ => cases hone
      | cancelling _ _ hone _ _ _ => cases hone
      | sent r' hstate _ hone hid' hprice' hquantity' hne hkept =>
          rw [hnews] at hone
          obtain ⟨hr, hrest⟩ := List.cons.inj hone
          rw [← hr] at hid' hprice' hquantity'
          have hupdated := OMOrder.updated_accepted (o := o) htype
          have hlive : (o.updated m).orderState = .live := by rw [hupdated]
          have hquantity : (o.updated m).quantity = r.quantity := by
            rw [hupdated]
            exact hquantity'.symm
          have hfilled := Flow.of_fillsTo hfills hquantity hlive
            (hquantity' ▸ hne)
          refine ⟨_, .accepted hstate htype hfilled, ?_⟩
          have hid₁ : (o.updated m).orderId = o.orderId := by rw [hupdated]
          have hprice₁ : (o.updated m).price = o.price := by rw [hupdated]
          by_cases hzero : x.quantity = 0
          · rw [if_pos hzero, if_pos hzero]
            exact .free (Or.inr rfl) rfl hrest
          · rw [if_neg hzero, if_neg hzero]
            refine .live x hlive rfl ⟨?_, ?_, rfl⟩ hrest
              fun r' hr' hc => hkept r' (List.mem_cons_of_mem r hr') ?_
            · exact hid.trans (hid'.trans hid₁.symm)
            · exact hprice.trans (hprice'.trans hprice₁.symm)
            · exact ⟨hc.1, hc.2.1, hc.2.2.trans hid₁⟩
  | cancelled x m htype hcancel hclient hid =>
      obtain ⟨-, hrs⟩ := hhandled.resolve_right fun hother =>
        hother.1 hclient
      rw [hrs] at h
      have hnotNew : ¬ (r.type = .new ∧ r.tickerId = tickerId
          ∧ r.side = sideOf b) := fun hn => by
        rw [hcancel] at hn
        cases hn.1
      have hdead : (o.updated m).orderState = .dead := by
        rw [OMOrder.updated_cancelled htype]
      cases h with
      | free _ hnone _ => cases hnone
      | sent _ _ hnone _ _ _ _ _ _ => cases hnone
      | live y _ hone hat _ hkept =>
          cases hone
          -- a LIVE slot has no CANCEL on its way
          exact (hkept r List.mem_cons_self
            ⟨hcancel, hticker, hid.symm.trans hat.id⟩).elim
      | cancelling y hstate _ _ hnews _ =>
          rw [newsFor_cons_other hnotNew] at hnews
          exact ⟨_, .cancelled hstate htype (.nil _),
            .free (Or.inr hdead) rfl hnews⟩

end Settled

-- ================================================================= the exchange

namespace MatchingEngine

open SnapshotSynthesizer (tickerOf)
open MatchingEngineOrderBook (Good slotSafe_iff)

/-- A request that is well formed, and safe for the slots of its ticker's
book. -/
structure Safe (s : MatchingEngine) (r : MatchingEngineClientRequest) :
    Prop where
  valid : Valid r
  slots : ∀ i, r.tickerId = tickerOf i → r.type = .new →
    SlotSafe (s.tickerOrderBook i).book r

instance (s : MatchingEngine) (r : MatchingEngineClientRequest) :
    Decidable (s.Safe r) :=
  decidable_of_iff (Valid r ∧ ∀ i, r.tickerId = tickerOf i → r.type = .new →
      SlotSafe (s.tickerOrderBook i).book r)
    ⟨fun ⟨hvalid, hslots⟩ => ⟨hvalid, hslots⟩, fun h => ⟨h.valid, h.slots⟩⟩

/-- A safe request leaves no two prices of a ticker in one slot. -/
theorem Safe.cleanStep {s s' : MatchingEngine}
    {r : MatchingEngineClientRequest} (h : s.Safe r)
    (hgood : ∀ i, ∃ lay, Good (s.tickerOrderBook i) lay)
    (hp : Processed s r s') : CleanStep s r s' := by
  obtain ⟨i, hticker, hbook, hset⟩ := hp.book
  refine ⟨h.valid, hp, fun j => ?_⟩
  by_cases hj : j = i
  · obtain ⟨lay, hg⟩ := hgood i
    obtain ⟨lay', hg'⟩ := hg.step h.valid hbook fun hnew =>
      (slotSafe_iff hg r).1 (h.slots i hticker hnew)
    rw [hj]
    exact hg'.ok.slots
  · obtain ⟨lay, hg⟩ := hgood j
    rw [hset, setBook_other hj]
    exact hg.ok.slots

end MatchingEngine

-- ================================================================== the session

/-- A client's order manager, the exchange, and what is on its way from one
to the other, in order. -/
structure Session where
  orderManager : OrderManager
  requests : List MatchingEngineClientRequest
  engine : MatchingEngine
  responses : List MatchingEngineClientResponse

namespace Session

open SnapshotSynthesizer (tickerOf tickerOf_injective)

def new (clientId : ClientID) : Session where
  orderManager := .new clientId
  requests := []
  engine := .new
  responses := []

inductive Act where
  | moveOrders (risk : PreTradeRisk) (tickerId : TickerID)
      (bidPrice askPrice : Price) (clip : Quantity)
  | process
  | other (request : MatchingEngineClientRequest)
  | receive

/-- The exchange has handled a request. -/
def answered (s : Session) (engine : MatchingEngine) : Session :=
  { s with
    engine := engine
    responses := s.responses ++ answersTo s.orderManager.clientId
      (engine.sent.drop s.engine.sent.length) }

/-- A call of `moveOrders`, the client's next request at the exchange,
another client's, or the client's next response. -/
def Step (s : Session) (a : Act) (s' : Session) : Prop :=
  match a with
  | .moveOrders risk tickerId bidPrice askPrice clip =>
      ∃ orderManager, (OrderManager.moveOrders risk tickerId bidPrice askPrice
          clip).run s.orderManager = .ok () orderManager
        ∧ s' = { s with
          orderManager := orderManager
          requests := s.requests ++ orderManager.requests.drop
            s.orderManager.requests.length }
  | .process => ∃ request rest engine, s.requests = request :: rest
      ∧ MatchingEngine.Processed s.engine request engine
      ∧ s' = { s.answered engine with requests := rest }
  | .other request => request.clientId ≠ s.orderManager.clientId
      ∧ ∃ engine, MatchingEngine.Processed s.engine request engine
        ∧ s' = s.answered engine
  | .receive => ∃ response rest orderManager, s.responses = response :: rest
      ∧ (OrderManager.onOrderUpdate response).run s.orderManager
        = .ok () orderManager
      ∧ s' = { s with orderManager := orderManager, responses := rest }

/-- The slot of a ticker and side. -/
def slot (i : Fin matchingEngineMaxTickers) (b : Bool) : Slot :=
  (tickerOf i, sideToIndex (sideOf b))

def slotAt (s : Session) (i : Fin matchingEngineMaxTickers) (b : Bool) :
    OMOrder := s.orderManager.tickerSideOrders (slot i b)

/-- An order of the slot's id, side, price and quantity rests. -/
def Rests (s : Session) (i : Fin matchingEngineMaxTickers) (b : Bool) : Prop :=
  ∃ x ∈ (s.engine.tickerOrderBook i).book b,
    x.key.clientId = s.orderManager.clientId ∧ x.side = sideOf b
      ∧ IsAt x (s.slotAt i b)

/-- With nothing on its way, a slot is LIVE if its order rests, and free
otherwise. -/
def Agrees (s : Session) : Prop :=
  s.requests = [] → s.responses = [] → ∀ i b,
    ((s.slotAt i b).orderState = .live ↔ s.Rests i b)
      ∧ ((s.slotAt i b).orderState = .live
        ∨ (s.slotAt i b).orderState = .invalid
        ∨ (s.slotAt i b).orderState = .dead)

/-- No order of quantity zero is sent; what the exchange handles is well
formed, and safe for the slots of its book. -/
def Clean (s : Session) (a : Act) : Prop :=
  match a with
  | .moveOrders risk tickerId bidPrice askPrice clip =>
      s.orderManager.PlacesAny risk tickerId bidPrice askPrice clip → clip ≠ 0
  | .process => ∀ r ∈ s.requests.head?, s.engine.Safe r
  | .other request => s.engine.Safe request
  | .receive => True

-- =============================================================== the invariant

theorem slot_injective {i j : Fin matchingEngineMaxTickers} {b d : Bool}
    (h : slot i b = slot j d) : i = j ∧ b = d := by
  obtain ⟨hticker, hside⟩ := Prod.ext_iff.1 h
  refine ⟨tickerOf_injective hticker, ?_⟩
  cases b
  · cases d
    · rfl
    · cases hside
  · cases d
    · cases hside
    · rfl

/-- The two slots of a ticker. -/
theorem slot_apart {i : Fin matchingEngineMaxTickers} :
    slot i false ≠ slot i true := by
  intro h
  cases (slot_injective h).2

/-- The NEW orders on their way have the last ids given out, in order; the
one before them was in the exchange's range. -/
structure Numbered (nextOrderId : OrderID)
    (rs : List MatchingEngineClientRequest) : Prop where
  le : (newOrders rs).length < nextOrderId.toNat
  bound : nextOrderId.toNat ≤ matchingEngineMaxOrderIds + (newOrders rs).length
  numbers : (newOrders rs).map (·.orderId.toNat)
    = List.range' (nextOrderId.toNat - (newOrders rs).length) (newOrders rs).length

/-- The slots are where their answers will find them. -/
structure Linked (c : ClientID) (s : Session) : Prop where
  client : s.orderManager.clientId = c
  requests : ∀ r ∈ s.requests, r.clientId = c ∧ (r.type = .new →
    ∃ i b, r.tickerId = tickerOf i ∧ r.side = sideOf b)
  engine : ∃ rs, Run MatchingEngine.CleanStep .new rs s.engine
  each : ∀ i, OneEach c (s.engine.tickerOrderBook i)
  answers : ∀ m ∈ s.responses, Sided m
  slots : ∀ i b, ∃ o,
    Flow (s.slotAt i b) (answersFor (tickerOf i) (sideOf b) s.responses) o
      ∧ Settled (tickerOf i) (sideOf b) s.requests
        ((s.engine.tickerOrderBook i).mine c b) o
  tickers : ∀ i b, (s.slotAt i b).orderState ≠ .invalid →
    (s.slotAt i b).tickerId = tickerOf i
  older : ∀ i b, (s.slotAt i b).orderState ≠ .invalid →
    (s.slotAt i b).orderId.toNat < s.orderManager.nextOrderId.toNat
  olderRequests : ∀ r ∈ s.requests,
    r.orderId.toNat < s.orderManager.nextOrderId.toNat
  distinct : ∀ i b j d, slot i b ≠ slot j d →
    (s.slotAt i b).orderState ≠ .invalid →
    (s.slotAt j d).orderState ≠ .invalid →
    (s.slotAt i b).orderId ≠ (s.slotAt j d).orderId
  numbered : Numbered s.orderManager.nextOrderId s.requests

variable {c : ClientID} {s s' : Session}

theorem linked_new (c : ClientID) : Linked c (new c) where
  client := rfl
  requests := fun r hr => by cases hr
  engine := ⟨[], .nil⟩
  each := fun i => by
    have hbook : ∀ b, (MatchingEngineOrderBook.new).mine c b = [] := by
      intro b
      unfold MatchingEngineOrderBook.mine
      rw [MatchingEngineOrderBook.book_new]
      rfl
    refine ⟨fun b => ?_, fun b x hx => ?_, fun b x hx => ?_⟩
    · show ((MatchingEngineOrderBook.new).mine c b).length ≤ 1
      rw [hbook]
      exact Nat.zero_le 1
    · change x ∈ (MatchingEngineOrderBook.new).mine c b at hx
      rw [hbook] at hx
      cases hx
    · change x ∈ (MatchingEngineOrderBook.new).mine c b at hx
      rw [hbook] at hx
      cases hx
  answers := fun m hm => by cases hm
  slots := fun i b => by
    refine ⟨_, .nil _, .free (Or.inl rfl) ?_ rfl⟩
    show (MatchingEngineOrderBook.new).mine c b = []
    unfold MatchingEngineOrderBook.mine
    rw [MatchingEngineOrderBook.book_new]
    rfl
  tickers := fun i b h => (h rfl).elim
  older := fun i b h => (h rfl).elim
  olderRequests := fun r hr => by cases hr
  distinct := fun i b j d _ h => (h rfl).elim
  numbered :=
    { le := show 0 < (1 : OrderID).toNat by decide
      bound := show (1 : OrderID).toNat ≤ matchingEngineMaxOrderIds + 0 by
        decide
      numbers := rfl }

-- ------------------------------------------------------------------ receiving

/-- An answer goes to its slot. -/
theorem slot_of_sided {m : MatchingEngineClientResponse} (hm : Sided m)
    {i : Fin matchingEngineMaxTickers} {b : Bool}
    (h : slot i b = (m.tickerId, sideToIndex m.side)) :
    m.tickerId = tickerOf i ∧ m.side = sideOf b := by
  obtain ⟨hticker, hside⟩ := Prod.ext_iff.1 h
  refine ⟨hticker.symm, ?_⟩
  change sideToIndex (sideOf b) = sideToIndex m.side at hside
  rcases hm with hm | hm | ⟨hm, -⟩
  · rw [hm] at hside ⊢
    cases b
    · cases hside
    · rfl
  · rw [hm] at hside ⊢
    cases b
    · rfl
    · cases hside
  · rw [hm] at hside
    cases b
    · cases hside
    · cases hside

/-- The next response is received. -/
theorem Linked.receive (h : Linked c s) {m : MatchingEngineClientResponse}
    {rest : List MatchingEngineClientResponse}
    (hresponses : s.responses = m :: rest) :
    Linked c { s with
      orderManager := s.orderManager.responded m
      responses := rest } := by
  obtain ⟨t, ht⟩ : ∃ t : Session, t = { s with
    orderManager := s.orderManager.responded m
    responses := rest } := ⟨_, rfl⟩
  rw [← ht]
  have hsided := h.answers m (by rw [hresponses]; exact List.mem_cons_self)
  have hat : ∀ i b, t.slotAt i b
      = if m.tickerId = tickerOf i ∧ m.side = sideOf b
        then (s.slotAt i b).updated m else s.slotAt i b := by
    intro i b
    rw [ht]
    show (s.orderManager.responded m).tickerSideOrders (slot i b) = _
    unfold OrderManager.responded
    dsimp only
    by_cases hself : m.tickerId = tickerOf i ∧ m.side = sideOf b
    · have hslot : (m.tickerId, sideToIndex m.side) = slot i b := by
        rw [hself.1, hself.2]
        rfl
      rw [if_pos hself, hslot]
      exact OrderManager.putOrder_same _ _
    · rw [if_neg hself]
      exact OrderManager.putOrder_other
        (fun heq => hself (slot_of_sided hsided heq)) _
  have hsame : ∀ i b, OMOrder.SameOrder (s.slotAt i b) (t.slotAt i b) := by
    intro i b
    rw [hat]
    split
    · exact OMOrder.sameOrder_updated _ _
    · exact OMOrder.SameOrder.refl _
  have hflow : ∀ i b, ∃ o, Flow (t.slotAt i b)
      (answersFor (tickerOf i) (sideOf b) rest) o
        ∧ Settled (tickerOf i) (sideOf b) s.requests
          ((s.engine.tickerOrderBook i).mine c b) o := by
    intro i b
    obtain ⟨o, hflow, hsettled⟩ := h.slots i b
    refine ⟨o, ?_, hsettled⟩
    rw [hresponses] at hflow
    rw [hat]
    by_cases hself : m.tickerId = tickerOf i ∧ m.side = sideOf b
    · rw [if_pos hself]
      rw [answersFor_cons_own hself] at hflow
      cases hflow with
      | accepted _ _ hrest => exact hrest
      | filled _ _ hrest => exact hrest
      | cancelled _ _ hrest => exact hrest
    · rw [if_neg hself]
      rwa [answersFor_cons_other hself] at hflow
  -- an answer does not come to a slot that was never used
  have hused : ∀ i b, (t.slotAt i b).orderState ≠ .invalid →
      (s.slotAt i b).orderState ≠ .invalid := by
    intro i b hne heq
    obtain ⟨o, hflow, -⟩ := h.slots i b
    obtain ⟨hnone, -⟩ := hflow.free (Or.inl heq)
    rw [hat] at hne
    split at hne
    · next hself =>
      rw [hresponses, answersFor_cons_own hself] at hnone
      cases hnone
    · exact hne heq
  have hnext : t.orderManager.nextOrderId = s.orderManager.nextOrderId := by
    rw [ht]
    rfl
  have hrequests : t.requests = s.requests := by rw [ht]
  refine
    { client := by rw [ht]; exact h.client
      requests := by rw [ht]; exact h.requests
      engine := by rw [ht]; exact h.engine
      each := by rw [ht]; exact h.each
      answers := fun m' hm' => h.answers m' ?_
      slots := fun i b => ?_
      tickers := fun i b hne => ?_
      older := fun i b hne => ?_
      olderRequests := fun r hr => ?_
      distinct := fun i b j d hij hne hne' => ?_
      numbered := by rw [hnext, hrequests]; exact h.numbered }
  · rw [hresponses]
    rw [ht] at hm'
    exact List.mem_cons_of_mem m hm'
  · obtain ⟨o, ho, hsettled⟩ := hflow i b
    refine ⟨o, ?_, ?_⟩
    · rw [show t.responses = rest by rw [ht]]
      exact ho
    · rw [hrequests, show t.engine = s.engine by rw [ht]]
      exact hsettled
  · rw [(hsame i b).ticker]
    exact h.tickers i b (hused i b hne)
  · rw [(hsame i b).id, hnext]
    exact h.older i b (hused i b hne)
  · rw [hnext]
    rw [hrequests] at hr
    exact h.olderRequests r hr
  · rw [(hsame i b).id, (hsame j d).id]
    exact h.distinct i b j d hij (hused i b hne) (hused j d hne')

-- ----------------------------------------------------------- at the exchange

theorem Numbered.tail {nextOrderId : OrderID} {r : MatchingEngineClientRequest}
    {rs : List MatchingEngineClientRequest}
    (h : Numbered nextOrderId (r :: rs))
    (hrange : r.type = .new → r.orderId.toNat < matchingEngineMaxOrderIds) :
    Numbered nextOrderId rs := by
  by_cases hnew : r.type = .new
  · have hnews : newOrders (r :: rs) = r :: newOrders rs :=
      List.filter_cons_of_pos (decide_eq_true hnew)
    have hle := h.le
    have hnumbers := h.numbers
    rw [hnews, List.length_cons] at hle
    rw [hnews, List.map_cons, List.length_cons, List.range'_succ] at hnumbers
    obtain ⟨hfirst, hrest⟩ := List.cons.inj hnumbers
    have hin := hrange hnew
    refine ⟨by omega, by omega, ?_⟩
    rw [hrest]
    congr 1
    omega
  · have hnews : newOrders (r :: rs) = newOrders rs :=
      List.filter_cons_of_neg fun heq => hnew (of_decide_eq_true heq)
    obtain ⟨hle, hbound, hnumbers⟩ := h
    rw [hnews] at hle hbound hnumbers
    exact ⟨hle, hbound, hnumbers⟩

/-- A slot that will have an order has been used. -/
theorem Linked.used {i : Fin matchingEngineMaxTickers} {b : Bool}
    {ms : List MatchingEngineClientResponse} {o : OMOrder}
    (hflow : Flow (s.slotAt i b) ms o) (h : o.orderState ≠ .invalid) :
    (s.slotAt i b).orderState ≠ .invalid := by
  intro heq
  obtain ⟨-, ho⟩ := hflow.free (Or.inl heq)
  rw [ho] at h
  exact h heq

/-- The order of a slot that rests has the slot's id. -/
theorem Linked.id_of_mine (h : Linked c s) {i : Fin matchingEngineMaxTickers}
    {b : Bool} {x : Resting OrderIds}
    (hx : x ∈ (s.engine.tickerOrderBook i).mine c b) :
    (s.slotAt i b).orderState ≠ .invalid
      ∧ x.key.clientOrderId = (s.slotAt i b).orderId := by
  obtain ⟨o, hflow, hsettled⟩ := h.slots i b
  have hid := hflow.sameOrder.id
  cases hsettled with
  | free _ hnone _ =>
      rw [hnone] at hx
      cases hx
  | sent _ _ hnone _ _ _ _ _ _ =>
      rw [hnone] at hx
      cases hx
  | live y hstate hone hat _ _ =>
      rw [hone] at hx
      rw [List.mem_singleton.1 hx]
      exact ⟨used hflow (by rw [hstate]; simp), hat.id.trans hid⟩
  | cancelling y hstate hone hat _ _ =>
      rw [hone] at hx
      rw [List.mem_singleton.1 hx]
      exact ⟨used hflow (by rw [hstate]; simp), hat.id.trans hid⟩

/-- The slot of a NEW order on its way. -/
theorem Linked.slot_of_new (h : Linked c s) {r : MatchingEngineClientRequest}
    (hr : r ∈ s.requests) (hnew : r.type = .new)
    {i : Fin matchingEngineMaxTickers} {b : Bool}
    (hticker : r.tickerId = tickerOf i) (hside : r.side = sideOf b) :
    (s.engine.tickerOrderBook i).mine c b = []
      ∧ (s.slotAt i b).orderState ≠ .invalid
      ∧ r.orderId = (s.slotAt i b).orderId := by
  obtain ⟨o, hflow, hsettled⟩ := h.slots i b
  have hin : r ∈ newsFor (tickerOf i) (sideOf b) s.requests :=
    List.mem_filter.2 ⟨hr, decide_eq_true ⟨hnew, hticker, hside⟩⟩
  cases hsettled with
  | free _ _ hnews =>
      rw [hnews] at hin
      cases hin
  | live _ _ _ _ hnews _ =>
      rw [hnews] at hin
      cases hin
  | cancelling _ _ _ _ hnews _ =>
      rw [hnews] at hin
      cases hin
  | sent r' hstate hnone hnews hid _ _ _ _ =>
      rw [hnews] at hin
      rw [List.mem_singleton.1 hin]
      exact ⟨hnone, used hflow (by rw [hstate]; simp),
        hid.trans hflow.sameOrder.id⟩

/-- The client's next order has an id of its own, and no order in its
place. -/
theorem Linked.fresh (h : Linked c s) {r : MatchingEngineClientRequest}
    {rs' : List MatchingEngineClientRequest}
    (hhandled : Handled c r s.requests rs')
    {i : Fin matchingEngineMaxTickers} (hticker : r.tickerId = tickerOf i) :
    Fresh c (s.engine.tickerOrderBook i) r := by
  intro hnew hclient
  obtain ⟨-, hrs⟩ := hhandled.resolve_right fun hother => hother.1 hclient
  have hr : r ∈ s.requests := by
    rw [hrs]
    exact List.mem_cons_self
  refine ⟨fun b hside => (h.slot_of_new hr hnew hticker hside).1,
    fun b x hx heq => ?_⟩
  obtain ⟨i', b', hticker', hside⟩ := (h.requests r hr).2 hnew
  have hi : i' = i := tickerOf_injective (hticker'.symm.trans hticker)
  rw [hi] at hticker'
  obtain ⟨hnone, hused, hid⟩ := h.slot_of_new hr hnew hticker hside
  obtain ⟨hused', hid'⟩ := h.id_of_mine hx
  refine h.distinct i b i b' (fun hslot => ?_) hused' hused
    (hid'.symm.trans (heq.trans hid))
  rw [(slot_injective hslot).2, hnone] at hx
  cases hx

/-- The exchange's books are as they should be. -/
theorem Linked.good (h : Linked c s) (i : Fin matchingEngineMaxTickers) :
    ∃ lay, MatchingEngineOrderBook.Good (s.engine.tickerOrderBook i) lay := by
  obtain ⟨rs, hrun⟩ := h.engine
  exact MatchingEngineOrderBook.good_of_cleanRun
    (MatchingEngine.cleanRun_book hrun i)

/-- The exchange handles a request. -/
theorem Linked.answered (h : Linked c s) {r : MatchingEngineClientRequest}
    {rs' : List MatchingEngineClientRequest} {engine : MatchingEngine}
    (hhandled : Handled c r s.requests rs') (hsafe : s.engine.Safe r)
    (hprocessed : MatchingEngine.Processed s.engine r engine) :
    Linked c { s.answered engine with requests := rs' } := by
  have hstep := hsafe.cleanStep h.good hprocessed
  obtain ⟨rs, hrun⟩ := h.engine
  obtain ⟨i, hticker, hbook, hset⟩ := hprocessed.book
  obtain ⟨lay, hgood⟩ := h.good i
  obtain ⟨out, hinforms, heach⟩ := informs_of_cleanStep hgood
    ⟨hstep.valid, hbook, hstep.slots i⟩ (h.each i) (h.fresh hhandled hticker)
  have hsent := MatchingEngine.sent_of_book hset hinforms.sent
  have hresponses : (s.answered engine).responses
      = s.responses ++ answersTo c out := by
    show s.responses ++ answersTo s.orderManager.clientId (engine.sent.drop _)
      = _
    rw [h.client, hsent, List.drop_left]
  have hother : ∀ j, j ≠ i →
      engine.tickerOrderBook j = s.engine.tickerOrderBook j := by
    intro j hj
    rw [hset]
    exact MatchingEngine.setBook_other hj _ _
  have hkept : ∀ r' ∈ rs', r' ∈ s.requests := by
    intro r' hr'
    rcases hhandled with ⟨-, hrs⟩ | ⟨-, hrs⟩
    · rw [hrs]
      exact List.mem_cons_of_mem r hr'
    · rwa [hrs] at hr'
  refine
    { client := h.client
      requests := fun r' hr' => h.requests r' (hkept r' hr')
      engine := ⟨_, hrun.snoc hstep⟩
      each := fun j => ?_
      answers := fun m hm => ?_
      slots := fun j b => ?_
      tickers := h.tickers
      older := h.older
      olderRequests := fun r' hr' => h.olderRequests r' (hkept r' hr')
      distinct := h.distinct
      numbered := ?_ }
  · show OneEach c (engine.tickerOrderBook j)
    by_cases hj : j = i
    · rw [hj]
      exact heach
    · rw [hother j hj]
      exact h.each j
  · change m ∈ (s.answered engine).responses at hm
    rw [hresponses] at hm
    rcases List.mem_append.1 hm with hm | hm
    · exact h.answers m hm
    · exact (hinforms.answers m hm).2
  · obtain ⟨o, hflow, hsettled⟩ := h.slots j b
    show ∃ o', Flow (s.slotAt j b)
      (answersFor (tickerOf j) (sideOf b) (s.answered engine).responses) o'
        ∧ Settled (tickerOf j) (sideOf b) rs'
          ((engine.tickerOrderBook j).mine c b) o'
    rw [hresponses, answersFor_append]
    by_cases hj : j = i
    · rw [hj] at hflow hsettled ⊢
      have htold := hinforms.told b
      rw [hticker] at htold
      obtain ⟨o', hflow', hsettled'⟩ := hsettled.told hhandled hticker htold
      exact ⟨o', hflow.append hflow', hsettled'⟩
    · have hne : r.tickerId ≠ tickerOf j := by
        rw [hticker]
        exact fun heq => hj (tickerOf_injective heq).symm
      have hnone : answersFor (tickerOf j) (sideOf b) (answersTo c out)
          = [] := by
        refine List.filter_eq_nil_iff.2 fun m hm heq => hne ?_
        rw [← (hinforms.answers m hm).1]
        exact (of_decide_eq_true heq).1
      rw [hnone, List.append_nil, hother j hj]
      exact ⟨o, hflow, hsettled.handled hhandled (fun _ hn => hne hn.2.1)
        fun _ _ hc => hne hc.2.1⟩
  · show Numbered s.orderManager.nextOrderId rs'
    rcases hhandled with ⟨-, hrs⟩ | ⟨-, hrs⟩
    · have hnumbered := h.numbered
      rw [hrs] at hnumbered
      refine hnumbered.tail fun _ => ?_
      have hrange := hstep.valid.range
      unfold MatchingEngineOrderBook.inRange at hrange
      simp only [Bool.and_eq_true, decide_eq_true_eq] at hrange
      exact hrange.2
    · rw [hrs]
      exact h.numbered

-- ------------------------------------------------------------- moving an order

/-- A slot has at most one NEW order on its way. -/
theorem Linked.newsFor_length_le (h : Linked c s)
    (i : Fin matchingEngineMaxTickers) (b : Bool) :
    (newsFor (tickerOf i) (sideOf b) s.requests).length ≤ 1 := by
  obtain ⟨o, -, hsettled⟩ := h.slots i b
  cases hsettled with
  | free _ _ hnews =>
      rw [hnews]
      exact Nat.zero_le 1
  | sent _ _ _ hnews _ _ _ _ _ =>
      rw [hnews]
      exact Nat.le_refl 1
  | live _ _ _ _ hnews _ =>
      rw [hnews]
      exact Nat.zero_le 1
  | cancelling _ _ _ _ hnews _ =>
      rw [hnews]
      exact Nat.zero_le 1

/-- The ticker and the side of each slot. -/
def places : List (TickerID × Side) :=
  (List.finRange matchingEngineMaxTickers).flatMap fun i =>
    [(tickerOf i, sideOf true), (tickerOf i, sideOf false)]

/-- There are at most as many NEW orders on their way as slots. -/
theorem Linked.news_length_le (h : Linked c s) :
    (newOrders s.requests).length ≤ 16 := by
  obtain ⟨l, hl⟩ : ∃ l, l = (newOrders s.requests).map
    fun r => (r.tickerId, r.side) := ⟨_, rfl⟩
  have hplace : ∀ a ∈ l, ∃ i b, a = (tickerOf i, sideOf b) := by
    intro a ha
    rw [hl] at ha
    obtain ⟨r, hr, rfl⟩ := List.mem_map.1 ha
    obtain ⟨hin, hnew⟩ := List.mem_filter.1 hr
    obtain ⟨i, b, hticker, hside⟩ :=
      (h.requests r hin).2 (of_decide_eq_true hnew)
    exact ⟨i, b, Prod.ext hticker hside⟩
  have hnodup : l.Nodup := by
    refine List.nodup_iff_count_le_one.2 fun a => ?_
    by_cases ha : a ∈ l
    · obtain ⟨i, b, rfl⟩ := hplace a ha
      have hcount : l.count (tickerOf i, sideOf b)
          = (newsFor (tickerOf i) (sideOf b) s.requests).length := by
        rw [hl, List.count, List.countP_map, newOrders, List.countP_filter,
          List.countP_eq_length_filter, newsFor]
        congr 1
        refine List.filter_congr fun r _ => ?_
        rw [Bool.eq_iff_iff]
        simp only [Function.comp, Bool.and_eq_true, beq_iff_eq, Prod.mk.injEq,
          decide_eq_true_eq]
        exact and_comm
      rw [hcount]
      exact h.newsFor_length_le i b
    · rw [List.count_eq_zero_of_not_mem ha]
      exact Nat.zero_le 1
  have hsub : l ⊆ places := by
    intro a ha
    obtain ⟨i, b, rfl⟩ := hplace a ha
    refine List.mem_flatMap.2 ⟨i, List.mem_finRange i, ?_⟩
    cases b
    · exact List.mem_cons_of_mem _ List.mem_cons_self
    · exact List.mem_cons_self
  have hle := (List.subperm_of_subset hnodup hsub).length_le
  rw [hl, List.length_map] at hle
  exact hle.trans (by decide)

/-- The ids do not run out. -/
theorem Linked.next_lt (h : Linked c s) :
    (s.orderManager.nextOrderId + 1).toNat
      = s.orderManager.nextOrderId.toNat + 1 := by
  have hbound := h.numbered.bound
  have hnews := h.news_length_le
  have hmax : matchingEngineMaxOrderIds + 17 < 2 ^ 64 := by decide
  rw [UInt64.toNat_add]
  exact Nat.mod_eq_of_lt (by
    show s.orderManager.nextOrderId.toNat + 1 < 2 ^ 64
    omega)

/-- The LIVE order of a slot is cancelled. -/
theorem Linked.cancelled (h : Linked c s) {i : Fin matchingEngineMaxTickers}
    {b : Bool} (hlive : (s.slotAt i b).orderState = .live) :
    Linked c { s with
      orderManager := s.orderManager.withCancelled (slot i b)
      requests := s.requests ++ [s.orderManager.cancelRequest (slot i b)] } := by
  obtain ⟨r, hr⟩ : ∃ r, r = s.orderManager.cancelRequest (slot i b) := ⟨_, rfl⟩
  obtain ⟨t, ht⟩ : ∃ t : Session, t = { s with
    orderManager := s.orderManager.withCancelled (slot i b)
    requests := s.requests ++ [s.orderManager.cancelRequest (slot i b)] } :=
      ⟨_, rfl⟩
  rw [← ht]
  have hself : t.slotAt i b
      = { s.slotAt i b with orderState := .pendingCancel } := by
    rw [ht]
    exact OrderManager.putOrder_same _ _
  have hother : ∀ j d, slot j d ≠ slot i b → t.slotAt j d = s.slotAt j d := by
    intro j d hne
    rw [ht]
    exact OrderManager.putOrder_other hne _
  have hinvalid : (s.slotAt i b).orderState ≠ .invalid := by
    rw [hlive]
    simp
  have hsame : ∀ j d, OMOrder.SameOrder (s.slotAt j d) (t.slotAt j d)
      ∧ ((t.slotAt j d).orderState ≠ .invalid →
        (s.slotAt j d).orderState ≠ .invalid) := by
    intro j d
    by_cases hslot : slot j d = slot i b
    · obtain ⟨rfl, rfl⟩ := slot_injective hslot
      rw [hself]
      exact ⟨⟨rfl, rfl, rfl, rfl⟩, fun _ => hinvalid⟩
    · rw [hother j d hslot]
      exact ⟨.refl _, id⟩
  have hcancels : Cancels (tickerOf i) (s.slotAt i b) r := by
    rw [hr]
    exact ⟨rfl, h.tickers i b hinvalid, rfl⟩
  have hnotNew : ∀ tickerId side, ¬ (r.type = .new ∧ r.tickerId = tickerId
      ∧ r.side = side) := by
    intro tickerId side hn
    have htype := hn.1
    rw [hcancels.1] at htype
    cases htype
  have hnext : t.orderManager.nextOrderId = s.orderManager.nextOrderId := by
    rw [ht]
    rfl
  have hrequests : t.requests = s.requests ++ [r] := by rw [ht, hr]
  have hnews : newOrders t.requests = newOrders s.requests := by
    have hother : r.type ≠ .new := by
      rw [hcancels.1]
      decide
    rw [hrequests, newOrders_snoc, if_neg hother, List.append_nil]
  refine
    { client := by rw [ht]; exact h.client
      requests := fun r' hr' => ?_
      engine := by rw [ht]; exact h.engine
      each := by rw [ht]; exact h.each
      answers := by rw [ht]; exact h.answers
      slots := fun j d => ?_
      tickers := fun j d hne => ?_
      older := fun j d hne => ?_
      olderRequests := fun r' hr' => ?_
      distinct := fun j d j' d' hslot hne hne' => ?_
      numbered := ?_ }
  · rw [hrequests] at hr'
    rcases List.mem_append.1 hr' with hr' | hr'
    · exact h.requests r' hr'
    · rw [List.mem_singleton.1 hr']
      refine ⟨?_, fun hn => (hnotNew _ _ ⟨hn, rfl, rfl⟩).elim⟩
      rw [hr]
      exact h.client
  · obtain ⟨o, hflow, hsettled⟩ := h.slots j d
    rw [hrequests, show t.responses = s.responses by rw [ht],
      show t.engine = s.engine by rw [ht]]
    by_cases hslot : slot j d = slot i b
    · obtain ⟨rfl, rfl⟩ := slot_injective hslot
      rw [hself]
      have hsameNews : newsFor (tickerOf j) (sideOf d) (s.requests ++ [r])
          = newsFor (tickerOf j) (sideOf d) s.requests := by
        unfold newsFor
        rw [List.filter_append, List.filter_cons_of_neg, List.filter_nil,
          List.append_nil]
        exact fun heq => hnotNew _ _ (of_decide_eq_true heq)
      have hid := hflow.sameOrder.id
      -- the slot may be behind: its last fill may be on its way already
      rcases hflow.cancelling hlive with ⟨hend, hflow'⟩ | ⟨hend, hflow'⟩
      · refine ⟨_, hflow', ?_⟩
        cases hsettled with
        | free hstate _ _ => simp [hend] at hstate
        | sent _ hstate _ _ _ _ _ _ _ => simp [hend] at hstate
        | cancelling _ hstate _ _ _ _ => simp [hend] at hstate
        | live x hstate hone hat hnews _ =>
            refine .cancelling x rfl hone ⟨hat.id, hat.price, hat.quantity⟩
              (hsameNews.trans hnews) ⟨r, List.mem_append_right _
                (List.mem_singleton_self r), hcancels.1, hcancels.2.1, ?_⟩
            exact hcancels.2.2.trans hid.symm
      · exact ⟨_, hflow', hsettled.snoc (hnotNew _ _) fun _ hdead =>
          (hdead hend).elim⟩
    · rw [hother j d hslot]
      refine ⟨o, hflow, hsettled.snoc (hnotNew _ _) fun hne _ hc => ?_⟩
      refine h.distinct j d i b hslot (used hflow hne) hinvalid ?_
      rw [← hflow.sameOrder.id, ← hc.2.2]
      exact hcancels.2.2
  · rw [(hsame j d).1.ticker]
    exact h.tickers j d ((hsame j d).2 hne)
  · rw [(hsame j d).1.id, hnext]
    exact h.older j d ((hsame j d).2 hne)
  · rw [hnext]
    rw [hrequests] at hr'
    rcases List.mem_append.1 hr' with hr' | hr'
    · exact h.olderRequests r' hr'
    · rw [List.mem_singleton.1 hr', hcancels.2.2]
      exact h.older i b hinvalid
  · rw [(hsame j d).1.id, (hsame j' d').1.id]
    exact h.distinct j d j' d' hslot ((hsame j d).2 hne) ((hsame j' d').2 hne')
  · obtain ⟨hle, hbound, hnumbers⟩ := h.numbered
    refine ⟨?_, ?_, ?_⟩
    · rwa [hnext, hnews]
    · rwa [hnext, hnews]
    · rwa [hnext, hnews]

theorem Numbered.snoc {nextOrderId : OrderID}
    {r : MatchingEngineClientRequest} {rs : List MatchingEngineClientRequest}
    (h : Numbered nextOrderId rs) (hnew : r.type = .new)
    (hid : r.orderId = nextOrderId)
    (hnext : (nextOrderId + 1).toNat = nextOrderId.toNat + 1) :
    Numbered (nextOrderId + 1) (rs ++ [r]) := by
  have hnews : newOrders (rs ++ [r]) = newOrders rs ++ [r] := by
    rw [newOrders_snoc, if_pos hnew]
  obtain ⟨hle, hbound, hnumbers⟩ := h
  refine ⟨?_, ?_, ?_⟩
  · rw [hnews, List.length_append, List.length_singleton, hnext]
    omega
  · rw [hnews, List.length_append, List.length_singleton, hnext]
    omega
  · rw [hnews, List.map_append, hnumbers, List.length_append,
      List.length_singleton, hnext, Nat.add_sub_add_right, List.range'_concat,
      List.map_singleton, hid]
    congr 2
    omega

/-- A new order for a free slot. -/
theorem Linked.ordered (h : Linked c s) {i : Fin matchingEngineMaxTickers}
    {b : Bool} (hfree : s.orderManager.IsFree (slot i b)) (price : Price)
    {quantity : Quantity} (hne : quantity ≠ 0) :
    Linked c { s with
      orderManager := s.orderManager.withNewOrder (slot i b) (tickerOf i) price
        (sideOf b) quantity
      requests := s.requests ++ [s.orderManager.newRequest (tickerOf i) price
        (sideOf b) quantity] } := by
  obtain ⟨r, hr⟩ : ∃ r, r = s.orderManager.newRequest (tickerOf i) price
    (sideOf b) quantity := ⟨_, rfl⟩
  obtain ⟨t, ht⟩ : ∃ t : Session, t = { s with
    orderManager := s.orderManager.withNewOrder (slot i b) (tickerOf i) price
      (sideOf b) quantity
    requests := s.requests ++ [s.orderManager.newRequest (tickerOf i) price
      (sideOf b) quantity] } := ⟨_, rfl⟩
  rw [← ht]
  have hself : t.slotAt i b
      = { tickerId := tickerOf i, orderId := s.orderManager.nextOrderId,
          side := sideOf b, price := price, quantity := quantity,
          orderState := .pendingNew } := by
    rw [ht]
    exact OrderManager.putOrder_same _ _
  have hother : ∀ j d, slot j d ≠ slot i b → t.slotAt j d = s.slotAt j d := by
    intro j d hslot
    rw [ht]
    exact OrderManager.putOrder_other hslot _
  have hnext : t.orderManager.nextOrderId
      = s.orderManager.nextOrderId + 1 := by
    rw [ht]
    rfl
  have hlt : t.orderManager.nextOrderId.toNat
      = s.orderManager.nextOrderId.toNat + 1 := by
    rw [hnext]
    exact h.next_lt
  have hrequests : t.requests = s.requests ++ [r] := by rw [ht, hr]
  have hid : r.orderId = s.orderManager.nextOrderId := by
    rw [hr]
    rfl
  have hnew : r.type = .new := by
    rw [hr]
    rfl
  -- the id is larger than all others
  have hlater : ∀ j d, slot j d ≠ slot i b →
      (t.slotAt j d).orderState ≠ .invalid →
      (t.slotAt j d).orderId.toNat < s.orderManager.nextOrderId.toNat := by
    intro j d hslot hstate
    rw [hother j d hslot] at hstate ⊢
    exact h.older j d hstate
  refine
    { client := by rw [ht]; exact h.client
      requests := fun r' hr' => ?_
      engine := by rw [ht]; exact h.engine
      each := by rw [ht]; exact h.each
      answers := by rw [ht]; exact h.answers
      slots := fun j d => ?_
      tickers := fun j d hstate => ?_
      older := fun j d hstate => ?_
      olderRequests := fun r' hr' => ?_
      distinct := fun j d j' d' hslot hstate hstate' heq => ?_
      numbered := ?_ }
  · rw [hrequests] at hr'
    rcases List.mem_append.1 hr' with hr' | hr'
    · exact h.requests r' hr'
    · rw [List.mem_singleton.1 hr', hr]
      exact ⟨h.client, fun _ => ⟨i, b, rfl, rfl⟩⟩
  · obtain ⟨o, hflow, hsettled⟩ := h.slots j d
    rw [hrequests, show t.responses = s.responses by rw [ht],
      show t.engine = s.engine by rw [ht]]
    by_cases hslot : slot j d = slot i b
    · obtain ⟨rfl, rfl⟩ := slot_injective hslot
      obtain ⟨hnone, ho⟩ := hflow.free hfree
      have hstate : o.orderState = .invalid ∨ o.orderState = .dead := by
        rw [ho]
        exact hfree
      rw [hself, hnone]
      refine ⟨_, .nil _, ?_⟩
      have hkept : ∀ r' ∈ s.requests ++ [r], ¬ Cancels (tickerOf j)
          { tickerId := tickerOf j, orderId := s.orderManager.nextOrderId,
            side := sideOf d, price := price, quantity := quantity,
            orderState := .pendingNew } r' := by
        intro r' hr' hc
        rcases List.mem_append.1 hr' with hr' | hr'
        · have holder := h.olderRequests r' hr'
          rw [hc.2.2] at holder
          exact Nat.lt_irrefl _ holder
        · have htype := hc.1
          rw [List.mem_singleton.1 hr', hnew] at htype
          cases htype
      have hone : newsFor (tickerOf j) (sideOf d) (s.requests ++ [r])
          = newsFor (tickerOf j) (sideOf d) s.requests ++ [r] := by
        unfold newsFor
        rw [List.filter_append, List.filter_cons_of_pos]
        · rfl
        · rw [hr]
          exact decide_eq_true ⟨rfl, rfl, rfl⟩
      cases hsettled with
      | free _ hmine hnews =>
          rw [hnews] at hone
          refine .sent r rfl hmine hone hid ?_ ?_ hne hkept
          · rw [hr]
            rfl
          · rw [hr]
            rfl
      | sent _ hsent _ _ _ _ _ _ _ => simp [hsent] at hstate
      | live _ hlive _ _ _ _ => simp [hlive] at hstate
      | cancelling _ hcancelling _ _ _ _ => simp [hcancelling] at hstate
    · rw [hother j d hslot]
      refine ⟨o, hflow, hsettled.snoc (fun hn => hslot ?_) fun _ _ hc => ?_⟩
      · obtain ⟨-, hticker, hside⟩ := hn
        rw [hr] at hticker hside
        rw [← tickerOf_injective hticker, ← sideOf_injective hside]
      · have htype := hc.1
        rw [hnew] at htype
        cases htype
  · by_cases hslot : slot j d = slot i b
    · obtain ⟨rfl, rfl⟩ := slot_injective hslot
      rw [hself]
    · rw [hother j d hslot] at hstate ⊢
      exact h.tickers j d hstate
  · rw [hlt]
    by_cases hslot : slot j d = slot i b
    · obtain ⟨rfl, rfl⟩ := slot_injective hslot
      rw [hself]
      exact Nat.lt_succ_self _
    · exact Nat.lt_succ_of_lt (hlater j d hslot hstate)
  · rw [hlt]
    rw [hrequests] at hr'
    rcases List.mem_append.1 hr' with hr' | hr'
    · exact Nat.lt_succ_of_lt (h.olderRequests r' hr')
    · rw [List.mem_singleton.1 hr', hid]
      exact Nat.lt_succ_self _
  · by_cases hslot₁ : slot j d = slot i b
    · have hslot₂ : slot j' d' ≠ slot i b := fun heq' =>
        hslot (hslot₁.trans heq'.symm)
      have hlt' := hlater j' d' hslot₂ hstate'
      obtain ⟨rfl, rfl⟩ := slot_injective hslot₁
      rw [← heq, hself] at hlt'
      exact Nat.lt_irrefl _ hlt'
    · by_cases hslot₂ : slot j' d' = slot i b
      · have hlt' := hlater j d hslot₁ hstate
        obtain ⟨rfl, rfl⟩ := slot_injective hslot₂
        rw [heq, hself] at hlt'
        exact Nat.lt_irrefl _ hlt'
      · rw [hother j d hslot₁] at hstate heq
        rw [hother j' d' hslot₂] at hstate' heq
        exact h.distinct j d j' d' hslot hstate hstate' heq
  · rw [hnext, hrequests]
    exact h.numbered.snoc hnew hid h.next_lt

/-- A slot's order is moved. -/
theorem Linked.moved (h : Linked c s) (i : Fin matchingEngineMaxTickers)
    (b : Bool) (risk : PreTradeRisk) (price : Price) {quantity : Quantity}
    (hne : s.orderManager.Places risk (slot i b) (tickerOf i) price (sideOf b)
      quantity → quantity ≠ 0) :
    Linked c { s with
      orderManager := s.orderManager.moved risk (slot i b) (tickerOf i) price
        (sideOf b) quantity
      requests := s.requests ++ s.orderManager.moveRequests risk (slot i b)
        (tickerOf i) price (sideOf b) quantity } := by
  unfold OrderManager.moved OrderManager.moveRequests
  by_cases helsewhere : s.orderManager.Elsewhere (slot i b) price quantity
  · rw [if_pos helsewhere, if_pos helsewhere]
    exact h.cancelled helsewhere.1
  · rw [if_neg helsewhere, if_neg helsewhere]
    split
    · next hnew => exact h.ordered hnew.1 price (hne hnew)
    · rw [List.append_nil]
      exact h

-- ======================================================================= runs

/-- Every clean step keeps the slots linked. -/
theorem Linked.step (h : Linked c s) {a : Act} (hstep : Step s a s')
    (hclean : Clean s a) : Linked c s' := by
  cases a with
  | moveOrders risk tickerId bidPrice askPrice clip =>
      obtain ⟨orderManager, hrun, rfl⟩ := hstep
      rw [OrderManager.run_moveOrders] at hrun
      split at hrun
      · next hticker =>
        cases hrun
        obtain ⟨i, hi⟩ : ∃ i : Fin matchingEngineMaxTickers,
            tickerId = tickerOf i := by
          refine ⟨⟨tickerId.toNat, hticker⟩, UInt32.toNat_inj.1 ?_⟩
          rw [SnapshotSynthesizer.toNat_tickerOf]
        rw [hi]
        rw [hi] at hclean
        have hbid := h.moved i true risk bidPrice fun hp => hclean (.inl hp)
        have hask := hbid.moved i false risk askPrice fun hp =>
          hclean (.inr (OrderManager.places_of_moved slot_apart hp))
        rw [OrderManager.moved_requests, OrderManager.moved_requests,
          List.append_assoc, List.drop_left]
        rw [List.append_assoc] at hask
        exact hask
      · cases hrun
  | process =>
      obtain ⟨r, rest, engine, hrequests, hprocessed, rfl⟩ := hstep
      have hr : r ∈ s.requests := by
        rw [hrequests]
        exact List.mem_cons_self
      apply h.answered (Or.inl ⟨(h.requests r hr).1, hrequests⟩)
      · apply hclean
        rw [hrequests]
        rfl
      · exact hprocessed
  | other r =>
      obtain ⟨hother, engine, hprocessed, rfl⟩ := hstep
      rw [h.client] at hother
      exact h.answered (Or.inr ⟨hother, rfl⟩) hclean hprocessed
  | receive =>
      obtain ⟨m, rest, orderManager, hresponses, hrun, rfl⟩ := hstep
      rw [OrderManager.run_onOrderUpdate] at hrun
      split at hrun
      · cases hrun
        exact h.receive hresponses
      · cases hrun

/-- Linked slots agree with the exchange once nothing is on its way. -/
theorem Linked.agrees (h : Linked c s) : s.Agrees := by
  intro hrequests hresponses i b
  obtain ⟨o, hflow, hsettled⟩ := h.slots i b
  rw [hresponses] at hflow
  rw [hrequests] at hsettled
  have ho : s.slotAt i b = o := by
    cases hflow
    rfl
  have hrests : s.Rests i b ↔ ∃ x ∈ (s.engine.tickerOrderBook i).mine c b,
      IsAt x o := by
    obtain ⟨lay, hgood⟩ := h.good i
    unfold Rests
    rw [h.client, ho]
    constructor
    · intro h
      obtain ⟨x, hx, hclient, -, hat⟩ := h
      exact ⟨x, List.mem_filter.2 ⟨hx, decide_eq_true hclient⟩, hat⟩
    · intro h
      obtain ⟨x, hx, hat⟩ := h
      obtain ⟨hin, hclient⟩ := List.mem_filter.1 hx
      exact ⟨x, hin, of_decide_eq_true hclient, hgood.ok.side b x hin, hat⟩
  rw [hrests, ho]
  cases hsettled with
  | free hstate hnone _ =>
      rw [hnone]
      refine ⟨iff_of_false ?_ ?_, Or.inr hstate⟩
      · intro hlive
        simp [hlive] at hstate
      · intro h
        obtain ⟨x, hx, -⟩ := h
        cases hx
  | sent _ _ _ hnews _ _ _ _ _ => cases hnews
  | live x hstate hone hat _ _ =>
      rw [hone]
      exact ⟨iff_of_true hstate ⟨x, List.mem_cons_self, hat⟩, Or.inl hstate⟩
  | cancelling _ _ _ _ _ hcancel =>
      obtain ⟨r, hr, -⟩ := hcancel
      cases hr

/-- In every state of a run that sends no order of quantity zero and whose
requests are safe, the slots agree with the exchange. -/
theorem agrees_of_run {as : List Act}
    (h : Run (fun s a s' => Step s a s' ∧ Clean s a) (new c) as s) :
    s.Agrees := by
  have hlinked : Linked c s := h.induct (I := fun _ s => Linked c s)
    (linked_new c) fun _ _ _ _ _ hs hstep => hs.step hstep.1 hstep.2
  exact hlinked.agrees

-- ============================================================ a first order

/-- `Step`, computed. -/
def act (s : Session) : Act → Option Session
  | .moveOrders risk tickerId bidPrice askPrice clip =>
      (returned ((OrderManager.moveOrders risk tickerId bidPrice askPrice
        clip).run s.orderManager)).map fun orderManager => { s with
          orderManager := orderManager
          requests := s.requests ++ orderManager.requests.drop
            s.orderManager.requests.length }
  | .process => s.requests.head?.bind fun request =>
      (returned ((MatchingEngine.processClientRequest request).run
        s.engine)).map fun engine =>
          { s.answered engine with requests := s.requests.tail }
  | .other request =>
      if request.clientId ≠ s.orderManager.clientId then
        (returned ((MatchingEngine.processClientRequest request).run
          s.engine)).map s.answered
      else none
  | .receive => s.responses.head?.bind fun response =>
      (returned ((OrderManager.onOrderUpdate response).run
        s.orderManager)).map fun orderManager =>
          { s with orderManager := orderManager, responses := s.responses.tail }

theorem step_of_act {a : Act} (h : s.act a = some s') : Step s a s' := by
  cases a with
  | moveOrders risk tickerId bidPrice askPrice clip =>
      obtain ⟨orderManager, hmoved, rfl⟩ := Option.map_eq_some_iff.1 h
      exact ⟨orderManager, returned_eq_some hmoved, rfl⟩
  | process =>
      obtain ⟨request, hhead, hsome⟩ := Option.bind_eq_some_iff.1 h
      obtain ⟨engine, hengine, rfl⟩ := Option.map_eq_some_iff.1 hsome
      obtain ⟨rest, hrequests⟩ := List.head?_eq_some_iff.1 hhead
      refine ⟨request, rest, engine, hrequests, returned_eq_some hengine, ?_⟩
      rw [hrequests]
      rfl
  | other request =>
      obtain ⟨hother, hsome⟩ := Option.ite_none_right_eq_some.1 h
      obtain ⟨engine, hengine, rfl⟩ := Option.map_eq_some_iff.1 hsome
      exact ⟨hother, engine, returned_eq_some hengine, rfl⟩
  | receive =>
      obtain ⟨response, hhead, hsome⟩ := Option.bind_eq_some_iff.1 h
      obtain ⟨orderManager, htaken, rfl⟩ := Option.map_eq_some_iff.1 hsome
      obtain ⟨rest, hresponses⟩ := List.head?_eq_some_iff.1 hhead
      refine ⟨response, rest, orderManager, hresponses,
        returned_eq_some htaken, ?_⟩
      rw [hresponses]
      rfl

instance (s : Session) (a : Act) : Decidable (s.Clean a) :=
  match a with
  | .moveOrders _ _ _ _ _ => inferInstanceAs (Decidable (_ → _))
  | .process =>
      inferInstanceAs (Decidable (∀ r ∈ s.requests.head?, s.engine.Safe r))
  | .other request => inferInstanceAs (Decidable (s.engine.Safe request))
  | .receive => .isTrue trivial

def firstTicker : Fin matchingEngineMaxTickers := ⟨0, by decide⟩

/-- A first bid. -/
def firstMove (clip : Quantity) : Act :=
  .moveOrders (fun _ _ _ => .allowed) 0 100 priceInvalid clip

/-- An order of no quantity is LIVE, and does not rest. -/
theorem not_agrees_firstMove : ¬ ∀ (clientId : ClientID) (as : List Act)
    (s : Session), Run Step (new clientId) as s → s.Agrees := by
  intro hall
  obtain ⟨s, hrun, hrequests, hresponses, hlive, hbook⟩ := Run.exists_of_any
    act (new 0) [firstMove 0, .process, .receive]
    (fun s => s.requests = [] ∧ s.responses = []
      ∧ (s.slotAt firstTicker true).orderState = .live
      ∧ (s.engine.tickerOrderBook firstTicker).book true = [])
    (by decide +kernel)
  have hstep : Run Step (new 0) _ s := hrun.mono (I := fun _ => True)
    (fun _ _ _ _ h => step_of_act h) fun _ _ _ => trivial
  have hagrees := hall 0 _ s hstep
  obtain ⟨x, hx, -⟩ :=
    (hagrees hrequests hresponses firstTicker true).1.1 hlive
  rw [hbook] at hx
  cases hx

/-- A bid of 10 buys the 4 that another client offers, and rests with what is
left. -/
def firstFill : List Act :=
  [.other ⟨.new, 1, 0, 5, .sell, 100, 4⟩, firstMove 10, .process, .receive]

/-- The client knows of all of it. -/
theorem agrees_firstFill : ∃ s,
    Run (fun s a s' => Step s a s' ∧ Clean s a) (new 0)
      (firstFill ++ [.receive]) s
      ∧ s.requests = [] ∧ s.responses = []
      ∧ ((s.engine.tickerOrderBook firstTicker).mine 0 true).map
        (·.quantity) = [6]
      ∧ (s.slotAt firstTicker true).orderState = .live ∧ s.Agrees := by
  obtain ⟨s, hrun, hrequests, hresponses, hrests, hlive⟩ :=
    Run.exists_of_guarded (P := fun s a _ => Clean s a)
      (fun s a s' hact => (step_of_act hact : Step s a s')) (new 0)
      (firstFill ++ [.receive])
      (fun s => s.requests = [] ∧ s.responses = []
        ∧ ((s.engine.tickerOrderBook firstTicker).mine 0 true).map
          (·.quantity) = [6]
        ∧ (s.slotAt firstTicker true).orderState = .live)
      (by decide +kernel)
  exact ⟨s, hrun, hrequests, hresponses, hrests, hlive, agrees_of_run hrun⟩

end Session

end ElectronicTrading
