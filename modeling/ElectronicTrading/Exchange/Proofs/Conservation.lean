/-
Quantity is conserved: every order's quantity is accounted for by its
fills, by what of it rests and by its cancel, along every clean run.

The account of an order is kept by its market order id, over the list of
everything sent. `Conserved` is the law. It needs more to be carried
along (`Ledger`): a resting order's id belongs to a submitted order and
to no other resting one, nothing was sent under an id that is still to
come, and a resting order was not cancelled.

# The wrap

Market order ids are given out by a machine integer that starts at 1.
The ids of the first 2^64 orders differ, and the next order has the id
of the first (`not_conserved_of_idle`): two orders, one account.
-/
import ElectronicTrading.Exchange.Proofs.Matching

namespace ElectronicTrading

open PriceTime Runs

namespace Reference

-- ================================================================ accounts

/-- What the message says was executed of the order `m`. -/
def execOf (m : OrderID) : Sent → Nat
  | .response r =>
      if r.type = .filled ∧ r.marketOrderId = m then r.execQuantity.toNat
      else 0
  | .update _ => 0

/-- What the message says was left of the order `m` when cancelled. -/
def cancelOf (m : OrderID) : Sent → Nat
  | .response r =>
      if r.type = .cancelled ∧ r.marketOrderId = m then
        r.leavesQuantity.toNat
      else 0
  | .update _ => 0

/-- What the message says was executed on a side. -/
def execOn (side : Side) : Sent → Nat
  | .response r =>
      if r.type = .filled ∧ r.side = side then r.execQuantity.toNat else 0
  | .update _ => 0

/-- The message is the CANCELLED response of the order `m`. -/
def isCancelOf (m : OrderID) : Sent → Bool
  | .response r => decide (r.type = .cancelled ∧ r.marketOrderId = m)
  | .update _ => false

/-- The market order id that the message accepts. -/
def acceptedId : Sent → Option OrderID
  | .response r => if r.type = .accepted then some r.marketOrderId else none
  | .update _ => none

/-- Everything executed of the order `m`. -/
def executed (m : OrderID) (sent : List Sent) : Nat :=
  (sent.map (execOf m)).sum

def cancelledQuantity (m : OrderID) (sent : List Sent) : Nat :=
  (sent.map (cancelOf m)).sum

def executedOn (side : Side) (sent : List Sent) : Nat :=
  (sent.map (execOn side)).sum

/-- The quantity that rests under the id `m`. -/
def quantityIn (m : OrderID) (l : List (Resting OrderIds)) : Nat :=
  (l.map fun r => if r.key.marketOrderId = m then r.quantity.toNat else 0).sum

/-- All resting orders. -/
def onBook (book : Book) : List (Resting OrderIds) := book true ++ book false

/-- The quantities of the orders submitted, in order. -/
def submitted (rs : List MatchingEngineClientRequest) : List Quantity :=
  (rs.filter fun r => r.type = .new).map (·.quantity)

/-- The market order id of the `k`-th order, counted from 0. -/
def orderIdOf (k : Nat) : OrderID := UInt64.ofNat (k + 1)

@[simp] theorem executed_nil (m : OrderID) : executed m [] = 0 := rfl

@[simp] theorem executed_cons (m : OrderID) (x : Sent) (sent : List Sent) :
    executed m (x :: sent) = execOf m x + executed m sent := by
  simp [executed]

@[simp] theorem executed_append (m : OrderID) (sent sent' : List Sent) :
    executed m (sent ++ sent') = executed m sent + executed m sent' := by
  simp [executed]

@[simp] theorem cancelledQuantity_append (m : OrderID)
    (sent sent' : List Sent) : cancelledQuantity m (sent ++ sent')
      = cancelledQuantity m sent + cancelledQuantity m sent' := by
  simp [cancelledQuantity]

@[simp] theorem executedOn_nil (side : Side) : executedOn side [] = 0 := rfl

@[simp] theorem executedOn_cons (side : Side) (x : Sent) (sent : List Sent) :
    executedOn side (x :: sent) = execOn side x + executedOn side sent := by
  simp [executedOn]

@[simp] theorem executedOn_append (side : Side) (sent sent' : List Sent) :
    executedOn side (sent ++ sent')
      = executedOn side sent + executedOn side sent' := by
  simp [executedOn]

@[simp] theorem quantityIn_nil (m : OrderID) : quantityIn m [] = 0 := rfl

@[simp] theorem quantityIn_cons (m : OrderID) (r : Resting OrderIds)
    (l : List (Resting OrderIds)) : quantityIn m (r :: l)
      = (if r.key.marketOrderId = m then r.quantity.toNat else 0)
        + quantityIn m l := by
  simp [quantityIn]

@[simp] theorem quantityIn_append (m : OrderID)
    (l l' : List (Resting OrderIds)) :
    quantityIn m (l ++ l') = quantityIn m l + quantityIn m l' := by
  simp [quantityIn]

theorem quantityIn_perm {l l' : List (Resting OrderIds)} (h : l.Perm l')
    (m : OrderID) : quantityIn m l = quantityIn m l' :=
  (h.map _).sum_eq

/-- No order of another id counts. -/
theorem quantityIn_eq_zero {m : OrderID} {l : List (Resting OrderIds)}
    (h : ∀ r ∈ l, r.key.marketOrderId ≠ m) : quantityIn m l = 0 := by
  induction l with
  | nil => rfl
  | cons r l ih =>
      rw [quantityIn_cons, if_neg (h r (List.mem_cons_self ..)), Nat.zero_add]
      exact ih fun q hq => h q (List.mem_cons_of_mem r hq)

/-- The quantity under an id that one resting order has. -/
theorem quantityIn_eq {r : Resting OrderIds} {l : List (Resting OrderIds)}
    (hnd : (l.map fun q => q.key.marketOrderId).Nodup) (hr : r ∈ l) :
    quantityIn r.key.marketOrderId l = r.quantity.toNat := by
  induction l with
  | nil => cases hr
  | cons q l ih =>
      rw [List.map_cons, List.nodup_cons] at hnd
      rw [quantityIn_cons]
      rcases List.mem_cons.1 hr with rfl | hr
      · rw [if_pos rfl, quantityIn_eq_zero, Nat.add_zero]
        intro x hx heq
        exact hnd.1 (heq ▸ List.mem_map_of_mem hx)
      · rw [if_neg, Nat.zero_add]
        · exact ih hnd.2 hr
        · intro heq
          exact hnd.1 (heq ▸ List.mem_map_of_mem hr)

theorem submitted_snoc (rs : List MatchingEngineClientRequest)
    (r : MatchingEngineClientRequest) : submitted (rs ++ [r])
      = submitted rs ++ if r.type = .new then [r.quantity] else [] := by
  unfold submitted
  rw [List.filter_append, List.map_append]
  congr 1
  by_cases h : r.type = .new
  · simp [h]
  · simp [h]

/-- The first 2^64 ids differ. -/
theorem orderIdOf_injective {j k : Nat} (hj : j < 2 ^ 64) (hk : k < 2 ^ 64)
    (h : orderIdOf j = orderIdOf k) : j = k := by
  unfold orderIdOf at h
  have h' := congrArg UInt64.toNat h
  rw [UInt64.toNat_ofNat', UInt64.toNat_ofNat'] at h'
  omega

-- ============================================================= one sweep

/-- What the trades amount to. -/
def traded (ts : List (Trade OrderIds)) : Nat :=
  (ts.map fun t => t.quantity.toNat).sum

/-- What they amount to for the resting order `m`. -/
def tradedWith (m : OrderID) (ts : List (Trade OrderIds)) : Nat :=
  (ts.map fun t =>
    if t.resting.key.marketOrderId = m then t.quantity.toNat else 0).sum

@[simp] theorem traded_cons (t : Trade OrderIds) (ts : List (Trade OrderIds)) :
    traded (t :: ts) = t.quantity.toNat + traded ts := by
  simp [traded]

@[simp] theorem tradedWith_cons (m : OrderID) (t : Trade OrderIds)
    (ts : List (Trade OrderIds)) : tradedWith m (t :: ts)
      = (if t.resting.key.marketOrderId = m then t.quantity.toNat else 0)
        + tradedWith m ts := by
  simp [tradedWith]

/-- A sweep takes from the incoming order and from each resting one what
it trades. -/
theorem sweep_conserves (b : Bool) (limit : Price)
    (l : List (Resting OrderIds)) : ∀ leaves : Quantity,
    leaves.toNat = traded (sweep b limit leaves l).trades
        + (sweep b limit leaves l).left.toNat
      ∧ ∀ m, quantityIn m l = tradedWith m (sweep b limit leaves l).trades
        + quantityIn m (sweep b limit leaves l).rest := by
  induction l with
  | nil =>
      intro leaves
      exact ⟨(Nat.zero_add _).symm, fun _ => rfl⟩
  | cons r rest ih =>
      intro leaves
      rw [sweep]
      by_cases hdone : leaves = 0 ∨ crosses b limit r = false
      · rw [if_pos hdone]
        exact ⟨(Nat.zero_add _).symm, fun m => (Nat.zero_add _).symm⟩
      · rw [if_neg hdone]
        have hfill := fill_le r.quantity leaves
        have hresting := toNat_sub_fill_left r.quantity leaves
        have hleaves := toNat_sub_fill_right r.quantity leaves
        by_cases hzero : r.quantity - min r.quantity leaves = 0
        · simp only [hzero, if_true]
          obtain ⟨htotal, heach⟩ := ih (leaves - min r.quantity leaves)
          rw [hzero] at hresting
          change 0 = _ at hresting
          refine ⟨?_, fun m => ?_⟩
          · rw [traded_cons]
            show _ = (min r.quantity leaves).toNat + _ + _
            omega
          · rw [quantityIn_cons, tradedWith_cons, heach m]
            show (if r.key.marketOrderId = m then _ else 0) + _
              = (if r.key.marketOrderId = m then
                  (min r.quantity leaves).toNat else 0) + _ + _
            split <;> omega
        · simp only [hzero, if_false]
          refine ⟨?_, fun m => ?_⟩
          · show _ = (min r.quantity leaves).toNat + 0 + _
            omega
          · rw [quantityIn_cons, quantityIn_cons, tradedWith_cons]
            show (if r.key.marketOrderId = m then _ else 0) + _
              = (if r.key.marketOrderId = m then
                  (min r.quantity leaves).toNat else 0) + 0
                + ((if r.key.marketOrderId = m then
                  (r.quantity - min r.quantity leaves).toNat else 0) + _)
            split <;> omega

/-- What the messages of a sweep execute of an order. -/
theorem executed_sweepMessages (i : Incoming) (m : OrderID)
    (ts : List (Trade OrderIds)) : ∀ leaves,
    executed m (i.sweepMessages leaves ts)
      = (if i.ids.marketOrderId = m then traded ts else 0)
        + tradedWith m ts := by
  induction ts with
  | nil =>
      intro leaves
      simp [Incoming.sweepMessages, traded, tradedWith]
  | cons t ts ih =>
      intro leaves
      rw [Incoming.sweepMessages, executed_append, ih, traded_cons,
        tradedWith_cons]
      simp only [Incoming.fillMessages, Incoming.filled,
        Incoming.restingFilled, executed_cons, executed_nil, execOf, true_and]
      split <;> omega

/-- They execute as much on either side. -/
theorem executedOn_sweepMessages {i : Incoming} {side : Side}
    (hside : side = .buy ∨ side = .sell) {ts : List (Trade OrderIds)}
    (h : ∀ t ∈ ts, t.resting.side = sideOf (!i.isBuy)) : ∀ leaves,
    executedOn side (i.sweepMessages leaves ts) = traded ts := by
  induction ts with
  | nil =>
      intro leaves
      rfl
  | cons t ts ih =>
      intro leaves
      have ht := h t (List.mem_cons_self ..)
      rw [Incoming.sweepMessages, executedOn_append, traded_cons,
        ih fun x hx => h x (List.mem_cons_of_mem t hx)]
      simp only [Incoming.fillMessages, Incoming.filled,
        Incoming.restingFilled, executedOn_cons, executedOn_nil, execOn,
        true_and, ht]
      -- one of the two sides is `side`
      cases i.isBuy <;> rcases hside with rfl | rfl <;>
        simp [sideOf]

/-- A message of a sweep is an update or a FILLED of the incoming order or
of one that it trades with. -/
theorem mem_sweepMessages {i : Incoming} {x : Sent}
    {ts : List (Trade OrderIds)} : ∀ {leaves},
    x ∈ i.sweepMessages leaves ts →
    (∃ update, x = .update update)
      ∨ ∃ response, x = .response response ∧ response.type = .filled
        ∧ (response.marketOrderId = i.ids.marketOrderId
          ∨ ∃ t ∈ ts, response.marketOrderId
            = t.resting.key.marketOrderId) := by
  induction ts with
  | nil =>
      intro leaves hx
      cases hx
  | cons t ts ih =>
      intro leaves hx
      rw [Incoming.sweepMessages, List.mem_append] at hx
      rcases hx with hx | hx
      · unfold Incoming.fillMessages at hx
        rw [List.mem_cons, List.mem_cons, List.mem_singleton] at hx
        rcases hx with rfl | rfl | rfl
        · exact Or.inr ⟨_, rfl, rfl, Or.inl rfl⟩
        · exact Or.inr ⟨_, rfl, rfl, Or.inr ⟨t, List.mem_cons_self .., rfl⟩⟩
        · exact Or.inl ⟨_, rfl⟩
      · rcases ih hx with hx | ⟨response, hx, htype, hid⟩
        · exact Or.inl hx
        · refine Or.inr ⟨response, hx, htype, hid.imp_right ?_⟩
          intro h
          obtain ⟨t', ht', heq⟩ := h
          exact ⟨t', List.mem_cons_of_mem t ht', heq⟩

/-- The messages of a NEW order, by what the accounts see of them. -/
theorem messages_eq (i : Incoming) (book : Book) : ∃ added,
    i.messages book = [.response i.accepted]
        ++ i.sweepMessages i.quantity (i.swept book).trades ++ added
      ∧ ∀ x ∈ added, ∃ update, x = .update update := by
  unfold Incoming.messages
  split
  · exact ⟨[], rfl, nofun⟩
  · refine ⟨_, rfl, fun x hx => ?_⟩
    rw [List.mem_singleton] at hx
    exact ⟨_, hx⟩

/-- Updates execute nothing. -/
theorem executed_updates {added : List Sent}
    (h : ∀ x ∈ added, ∃ update, x = .update update) (m : OrderID) :
    executed m added = 0 := by
  induction added with
  | nil => rfl
  | cons x added ih =>
      obtain ⟨update, rfl⟩ := h x (List.mem_cons_self ..)
      rw [executed_cons, ih fun y hy => h y (List.mem_cons_of_mem _ hy)]
      rfl

theorem executedOn_updates {added : List Sent}
    (h : ∀ x ∈ added, ∃ update, x = .update update) (side : Side) :
    executedOn side added = 0 := by
  induction added with
  | nil => rfl
  | cons x added ih =>
      obtain ⟨update, rfl⟩ := h x (List.mem_cons_self ..)
      rw [executedOn_cons, ih fun y hy => h y (List.mem_cons_of_mem _ hy)]
      rfl

theorem executed_messages (i : Incoming) (book : Book) (m : OrderID) :
    executed m (i.messages book)
      = (if i.ids.marketOrderId = m then traded (i.swept book).trades else 0)
        + tradedWith m (i.swept book).trades := by
  obtain ⟨added, heq, hadded⟩ := messages_eq i book
  rw [heq, executed_append, executed_append, executed_updates hadded,
    executed_sweepMessages]
  simp [execOf, Incoming.accepted, acceptance]

theorem executedOn_messages {i : Incoming} {book : Book} {side : Side}
    (hside : side = .buy ∨ side = .sell)
    (h : ∀ r ∈ book (!i.isBuy), r.side = sideOf (!i.isBuy)) :
    executedOn side (i.messages book) = traded (i.swept book).trades := by
  obtain ⟨added, heq, hadded⟩ := messages_eq i book
  obtain ⟨untouched, hsplit, -⟩ :=
    sweep_split i.isBuy i.price (book !i.isBuy) i.quantity
  rw [heq, executedOn_append, executedOn_append, executedOn_updates hadded,
    executedOn_sweepMessages hside fun t ht => h _ ?_]
  · simp [execOn, Incoming.accepted, acceptance]
  · rw [hsplit]
    exact List.mem_append_left _ (List.mem_map_of_mem ht)

/-- A response among them: the acceptance or a fill. -/
theorem mem_messages {i : Incoming} {book : Book}
    {response : MatchingEngineClientResponse}
    (h : Sent.response response ∈ i.messages book) :
    response = i.accepted ∨ response.type = .filled
      ∧ (response.marketOrderId = i.ids.marketOrderId
        ∨ ∃ r ∈ book (!i.isBuy),
          response.marketOrderId = r.key.marketOrderId) := by
  obtain ⟨added, heq, hadded⟩ := messages_eq i book
  obtain ⟨untouched, hsplit, -⟩ :=
    sweep_split i.isBuy i.price (book !i.isBuy) i.quantity
  rw [heq, List.mem_append, List.mem_append, List.mem_singleton] at h
  rcases h with (h | h) | h
  · cases h
    exact Or.inl rfl
  · rcases mem_sweepMessages h with ⟨_, h⟩ | ⟨_, h, htype, hid⟩
    · cases h
    · cases h
      refine Or.inr ⟨htype, hid.imp_right ?_⟩
      intro h
      obtain ⟨t, ht, hid⟩ := h
      refine ⟨t.resting, ?_, hid⟩
      rw [hsplit]
      exact List.mem_append_left _ (List.mem_map_of_mem ht)
  · obtain ⟨_, h⟩ := hadded _ h
    cases h

/-- No CANCELLED is among them. -/
theorem messages_not_cancel (i : Incoming) (book : Book) (m : OrderID) :
    (i.messages book).countP (isCancelOf m) = 0 := by
  rw [List.countP_eq_zero]
  intro x hx hcancel
  cases x with
  | update u => cases hcancel
  | response response =>
      have htype := (of_decide_eq_true hcancel).1
      rcases mem_messages hx with rfl | ⟨hfilled, -⟩
      · cases htype
      · rw [hfilled] at htype
        cases htype

/-- They accept one order. -/
theorem messages_acceptedId (i : Incoming) (book : Book) :
    (i.messages book).filterMap acceptedId = [i.ids.marketOrderId] := by
  obtain ⟨added, heq, hadded⟩ := messages_eq i book
  have hadd : added.filterMap acceptedId = [] := by
    rw [List.filterMap_eq_nil_iff]
    intro x hx
    obtain ⟨_, rfl⟩ := hadded x hx
    rfl
  have hsweep : (i.sweepMessages i.quantity (i.swept book).trades).filterMap
      acceptedId = [] := by
    rw [List.filterMap_eq_nil_iff]
    intro x hx
    rcases mem_sweepMessages hx with ⟨_, rfl⟩ | ⟨response, rfl, htype, -⟩
    · rfl
    · simp [acceptedId, htype]
  rw [heq, List.filterMap_append, List.filterMap_append, hadd, hsweep]
  simp [acceptedId, Incoming.accepted, acceptance]

/-- Without a CANCELLED nothing was cancelled. -/
theorem cancelledQuantity_eq_zero {m : OrderID} {sent : List Sent}
    (h : sent.countP (isCancelOf m) = 0) : cancelledQuantity m sent = 0 := by
  rw [List.countP_eq_zero] at h
  unfold cancelledQuantity
  rw [List.sum_eq_zero]
  intro n hn
  obtain ⟨x, hx, rfl⟩ := List.mem_map.1 hn
  cases x with
  | update u => rfl
  | response r =>
      refine if_neg fun hr => ?_
      exact h _ hx (decide_eq_true hr)

-- ========================================================= exact leaves

/-- Each FILLED of `sent`, when `before` was sent already, says what is
left of its order's quantity after all executions so far. -/
def LeavesExact (quantity : OrderID → Nat → Prop)
    (before sent : List Sent) : Prop :=
  ∀ pre response post, sent = pre ++ .response response :: post →
    response.type = .filled → ∀ q, quantity response.marketOrderId q →
      executed response.marketOrderId (before ++ pre)
        + response.execQuantity.toNat + response.leavesQuantity.toNat = q

section LeavesExact

variable {quantity : OrderID → Nat → Prop} {before sent sent' : List Sent}

theorem leavesExact_nil : LeavesExact quantity before [] :=
  fun pre _ _ h => by simp at h

theorem LeavesExact.append (h : LeavesExact quantity before sent)
    (h' : LeavesExact quantity (before ++ sent) sent') :
    LeavesExact quantity before (sent ++ sent') := by
  intro pre response post heq htype q hq
  rcases List.append_eq_append_iff.1 heq with
    ⟨pre', rfl, hsent'⟩ | ⟨rest, hsent, hrest⟩
  · rw [← List.append_assoc]
    exact h' pre' response post hsent' htype q hq
  · cases rest with
    | nil =>
        rw [List.append_nil] at hsent
        have := h' [] response post hrest.symm htype q hq
        rwa [List.append_nil, hsent] at this
    | cons x rest =>
        obtain ⟨rfl, -⟩ := List.cons_eq_cons.1 hrest
        exact h pre response rest hsent htype q hq

/-- A message that is no FILLED. -/
theorem leavesExact_other {x : Sent}
    (hx : ∀ response, x = .response response → response.type ≠ .filled) :
    LeavesExact quantity before [x] := by
  intro pre response post heq htype
  cases pre with
  | nil =>
      obtain ⟨hx', -⟩ := List.cons_eq_cons.1 heq
      exact absurd htype (hx response hx')
  | cons y pre => simp at heq

theorem leavesExact_filled {response : MatchingEngineClientResponse}
    (h : ∀ q, quantity response.marketOrderId q →
      executed response.marketOrderId before
        + response.execQuantity.toNat + response.leavesQuantity.toNat = q) :
    LeavesExact quantity before [.response response] := by
  intro pre response' post heq htype q hq
  cases pre with
  | nil =>
      obtain ⟨hx, -⟩ := List.cons_eq_cons.1 heq
      cases hx
      rw [List.append_nil]
      exact h q hq
  | cons y pre => simp at heq

end LeavesExact

/-- The messages of a sweep have exact leaves, if before it the incoming
order had `leaves` left and each resting one its quantity. -/
theorem leavesExact_sweepMessages {quantity : OrderID → Nat → Prop}
    (i : Incoming) (l : List (Resting OrderIds)) :
    ∀ (leaves : Quantity) (before : List Sent),
    (∀ q, quantity i.ids.marketOrderId q →
      executed i.ids.marketOrderId before + leaves.toNat = q) →
    (∀ r ∈ l, ∀ q, quantity r.key.marketOrderId q →
      executed r.key.marketOrderId before + r.quantity.toNat = q) →
    (∀ r ∈ l, r.key.marketOrderId ≠ i.ids.marketOrderId) →
    (l.map fun r => r.key.marketOrderId).Nodup →
    LeavesExact quantity before
      (i.sweepMessages leaves (sweep i.isBuy i.price leaves l).trades) := by
  induction l with
  | nil =>
      intro leaves before _ _ _ _
      exact leavesExact_nil
  | cons r rest ih =>
      intro leaves before hi hl hne hnd
      rw [List.map_cons, List.nodup_cons] at hnd
      have hr := hne r (List.mem_cons_self ..)
      rw [sweep]
      by_cases hdone : leaves = 0 ∨ crosses i.isBuy i.price r = false
      · rw [if_pos hdone]
        exact leavesExact_nil
      · rw [if_neg hdone]
        have hfill := fill_le r.quantity leaves
        have hresting := toNat_sub_fill_left r.quantity leaves
        have hleaves := toNat_sub_fill_right r.quantity leaves
        obtain ⟨fill, hf⟩ : ∃ fill, min r.quantity leaves = fill := ⟨_, rfl⟩
        rw [hf] at hfill hresting hleaves
        -- the fill's own messages
        have hexec : ∀ m, executed m
            (i.fillMessages (leaves - fill) ⟨r, fill⟩)
            = (if i.ids.marketOrderId = m then fill.toNat else 0)
              + if r.key.marketOrderId = m then fill.toNat else 0 := by
          intro m
          simp [Incoming.fillMessages, Incoming.filled,
            Incoming.restingFilled, execOf]
        have hone : LeavesExact quantity before
            (i.fillMessages (leaves - fill) ⟨r, fill⟩) := by
          refine LeavesExact.append (leavesExact_filled ?_)
            (LeavesExact.append (leavesExact_filled ?_)
              (leavesExact_other fun response heq => by cases heq))
          · intro q hq
            have := hi q hq
            show executed i.ids.marketOrderId before + fill.toNat
              + (leaves - fill).toNat = q
            omega
          · intro q hq
            have := hl r (List.mem_cons_self ..) q hq
            show executed r.key.marketOrderId
                (before ++ [.response (i.filled ⟨r, fill⟩ (leaves - fill))])
              + fill.toNat + (r.quantity - fill).toNat = q
            rw [executed_append]
            simp only [executed_cons, executed_nil, execOf, Incoming.filled,
              if_neg fun h : _ ∧ i.ids.marketOrderId = _ => hr h.2.symm]
            omega
        by_cases hzero : r.quantity - min r.quantity leaves = 0
        · simp only [hzero, if_true]
          rw [hf, Incoming.sweepMessages]
          refine hone.append (ih (leaves - fill) _ ?_ ?_ ?_ hnd.2)
          · intro q hq
            have := hi q hq
            rw [executed_append, hexec, if_pos rfl, if_neg hr]
            omega
          · intro x hx q hq
            have := hl x (List.mem_cons_of_mem r hx) q hq
            have hxi := hne x (List.mem_cons_of_mem r hx)
            have hxr : r.key.marketOrderId ≠ x.key.marketOrderId :=
              fun heq => hnd.1 (heq ▸ List.mem_map_of_mem hx)
            rw [executed_append, hexec, if_neg hxi.symm, if_neg hxr]
            exact this
          · exact fun x hx => hne x (List.mem_cons_of_mem r hx)
        · simp only [hzero, if_false]
          rw [hf, Incoming.sweepMessages]
          exact hone.append leavesExact_nil

-- ======================================================= the whole account

/-- How often the id `m` rests or was cancelled. -/
def closings (m : OrderID) (sent : List Sent) (book : Book) : Nat :=
  sent.countP (isCancelOf m)
    + (onBook book).countP fun r => r.key.marketOrderId = m

/-- The `k`-th order of the run has the id `m` and the quantity `q`. -/
def QuantityOf (rs : List MatchingEngineClientRequest) (m : OrderID)
    (q : Nat) : Prop :=
  ∃ k quantity, (submitted rs)[k]? = some quantity ∧ m = orderIdOf k
    ∧ q = quantity.toNat

/-- Quantity is conserved. -/
structure Conserved (rs : List MatchingEngineClientRequest)
    (sent : List Sent) (book : Book) : Prop where
  /-- The orders were accepted under their ids, in order. -/
  ids : sent.filterMap acceptedId
    = (List.range (submitted rs).length).map orderIdOf
  /-- Every order's quantity is what was executed of it, what rests of it
  and what was cancelled of it. -/
  balance : ∀ k q, (submitted rs)[k]? = some q →
    q.toNat = executed (orderIdOf k) sent
      + quantityIn (orderIdOf k) (onBook book)
      + cancelledQuantity (orderIdOf k) sent
  /-- An order rests once or was cancelled once, or neither. -/
  once : ∀ m, closings m sent book ≤ 1
  leaves : LeavesExact (QuantityOf rs) [] sent
  sides : executedOn .buy sent = executedOn .sell sent

/-- The law, with what carries it along a run. -/
structure Ledger (rs : List MatchingEngineClientRequest)
    (sent : List Sent) (book : Book) : Prop where
  conserved : Conserved rs sent book
  /-- Resting orders were submitted. -/
  resting : ∀ r ∈ onBook book, ∃ k < (submitted rs).length,
    r.key.marketOrderId = orderIdOf k
  /-- So were those that fills and cancels speak of. -/
  spoken : ∀ response, Sent.response response ∈ sent →
    response.type = .filled ∨ response.type = .cancelled →
    ∃ k < (submitted rs).length, response.marketOrderId = orderIdOf k

theorem ledger_empty : Ledger [] [] fun _ => [] where
  conserved :=
    { ids := rfl
      balance := fun k q h => by cases h
      once := fun m => Nat.zero_le 1
      leaves := leavesExact_nil
      sides := rfl }
  resting := fun r hr => by cases hr
  spoken := fun response hr => by cases hr

section Ledger

variable {rs : List MatchingEngineClientRequest} {sent : List Sent}
  {book : Book}

/-- Nothing happened yet under an id to come. -/
theorem Ledger.fresh (h : Ledger rs sent book) {k : Nat} (hk : k < 2 ^ 64)
    (hlen : (submitted rs).length ≤ k) :
    executed (orderIdOf k) sent = 0
      ∧ sent.countP (isCancelOf (orderIdOf k)) = 0
      ∧ ∀ r ∈ onBook book, r.key.marketOrderId ≠ orderIdOf k := by
  have hold : ∀ j < (submitted rs).length, orderIdOf j ≠ orderIdOf k :=
    fun j hj heq => by
      have := orderIdOf_injective (by omega) hk heq
      omega
  refine ⟨?_, ?_, ?_⟩
  · unfold executed
    rw [List.sum_eq_zero]
    intro n hn
    obtain ⟨x, hx, rfl⟩ := List.mem_map.1 hn
    cases x with
    | update u => rfl
    | response r =>
        refine if_neg ?_
        intro h
        obtain ⟨htype, hid⟩ := h
        obtain ⟨j, hj, heq⟩ := h.spoken r hx (Or.inl htype)
        exact hold j hj (heq.symm.trans hid)
  · rw [List.countP_eq_zero]
    intro x hx hcancel
    cases x with
    | update u => cases hcancel
    | response r =>
        obtain ⟨htype, hid⟩ := of_decide_eq_true hcancel
        obtain ⟨j, hj, heq⟩ := h.spoken r hx (Or.inr htype)
        exact hold j hj (heq.symm.trans hid)
  · intro r hr hid
    obtain ⟨j, hj, heq⟩ := h.resting r hr
    exact hold j hj (heq.symm.trans hid)

/-- No two resting orders have one id. -/
theorem Ledger.nodup (h : Ledger rs sent book) :
    ((onBook book).map fun r => r.key.marketOrderId).Nodup := by
  rw [List.nodup_iff_count_le_one]
  intro m
  have honce := h.conserved.once m
  unfold closings at honce
  rw [List.count, List.countP_map]
  refine Nat.le_trans (Nat.le_of_eq ?_) ((Nat.le_add_left _ _).trans honce)
  refine List.countP_congr fun r _ => ?_
  simp

/-- Nothing of a resting order was cancelled. -/
theorem Ledger.live (h : Ledger rs sent book) {r : Resting OrderIds}
    (hr : r ∈ onBook book) :
    sent.countP (isCancelOf r.key.marketOrderId) = 0 := by
  have honce := h.conserved.once r.key.marketOrderId
  unfold closings at honce
  have hpos : 0 < (onBook book).countP
      fun q => q.key.marketOrderId = r.key.marketOrderId :=
    List.countP_pos_iff.2 ⟨r, hr, decide_eq_true rfl⟩
  omega

/-- A resting order has what its executions left of it. -/
theorem Ledger.quantity (h : Ledger rs sent book) {r : Resting OrderIds}
    (hr : r ∈ onBook book) {q : Nat}
    (hq : QuantityOf rs r.key.marketOrderId q) :
    executed r.key.marketOrderId sent + r.quantity.toNat = q := by
  obtain ⟨k, quantity, hk, hid, rfl⟩ := hq
  have hbalance := h.conserved.balance k quantity hk
  rw [← hid, quantityIn_eq h.nodup hr,
    cancelledQuantity_eq_zero (h.live hr)] at hbalance
  omega

/-- A step that is no NEW submits no order. -/
theorem submitted_of_ne {r : MatchingEngineClientRequest}
    (h : r.type ≠ .new) : submitted (rs ++ [r]) = submitted rs := by
  rw [submitted_snoc, if_neg h, List.append_nil]

theorem quantityOf_of_ne {r : MatchingEngineClientRequest}
    (h : r.type ≠ .new) : QuantityOf (rs ++ [r]) = QuantityOf rs := by
  unfold QuantityOf
  rw [submitted_of_ne h]

/-- A CANCEL that finds no order. -/
theorem Ledger.rejected (h : Ledger rs sent book)
    {r : MatchingEngineClientRequest} (hr : r.type ≠ .new)
    (response : MatchingEngineClientResponse)
    (htype : response.type = .cancelRejected) :
    Ledger (rs ++ [r]) (sent ++ [.response response]) book := by
  have hexec : ∀ m, executed m [.response response] = 0 := by
    intro m
    simp [execOf, htype]
  have hcount : ∀ m, [Sent.response response].countP (isCancelOf m) = 0 := by
    intro m
    simp [isCancelOf, htype]
  refine
    { conserved :=
        { ids := ?_
          balance := ?_
          once := ?_
          leaves := ?_
          sides := ?_ }
      resting := ?_
      spoken := ?_ }
  · rw [submitted_of_ne hr, List.filterMap_append, h.conserved.ids]
    simp [acceptedId, htype]
  · intro k q hk
    rw [submitted_of_ne hr] at hk
    rw [executed_append, hexec, cancelledQuantity_append,
      cancelledQuantity_eq_zero (hcount _)]
    exact h.conserved.balance k q hk
  · intro m
    have := h.conserved.once m
    unfold closings at this ⊢
    rw [List.countP_append, hcount]
    exact this
  · rw [quantityOf_of_ne hr]
    refine h.conserved.leaves.append (leavesExact_other fun x hx => ?_)
    cases hx
    rw [htype]
    decide
  · rw [executedOn_append, executedOn_append, h.conserved.sides]
    simp [execOn, htype]
  · rw [submitted_of_ne hr]
    exact h.resting
  · rw [submitted_of_ne hr]
    intro x hx hclose
    rcases List.mem_append.1 hx with hx | hx
    · exact h.spoken x hx hclose
    · rw [List.mem_singleton] at hx
      cases hx
      rw [htype] at hclose
      rcases hclose with hclose | hclose <;> cases hclose

/-- A CANCEL that takes the order `x` out of the book. -/
theorem Ledger.cancel (h : Ledger rs sent book) {book' : Book}
    {r : MatchingEngineClientRequest} (hr : r.type ≠ .new)
    {x : Resting OrderIds} (clientId : ClientID) (orderId : OrderID)
    (tickerId : TickerID) (hperm : (onBook book).Perm (x :: onBook book')) :
    Ledger (rs ++ [r]) (sent ++ [.update (cancelUpdate tickerId x),
      .response (cancelled clientId orderId tickerId x)]) book' := by
  obtain ⟨closing, hclosing⟩ : ∃ closing : List Sent,
      [Sent.update (cancelUpdate tickerId x),
        .response (cancelled clientId orderId tickerId x)] = closing :=
    ⟨_, rfl⟩
  have hexec : ∀ m, executed m closing = 0 := by
    intro m
    simp [← hclosing, execOf, cancelled]
  have hcancelled : ∀ m, cancelledQuantity m closing
      = if x.key.marketOrderId = m then x.quantity.toNat else 0 := by
    intro m
    simp [← hclosing, cancelledQuantity, cancelOf, cancelled]
  have hcount : ∀ m, closing.countP (isCancelOf m)
      = if x.key.marketOrderId = m then 1 else 0 := by
    intro m
    simp [← hclosing, List.countP_cons, isCancelOf, cancelled]
  have hx : x ∈ onBook book := hperm.symm.subset (List.mem_cons_self ..)
  rw [hclosing]
  refine
    { conserved :=
        { ids := ?_
          balance := ?_
          once := ?_
          leaves := ?_
          sides := ?_ }
      resting := ?_
      spoken := ?_ }
  · rw [submitted_of_ne hr, List.filterMap_append, h.conserved.ids]
    simp [← hclosing, acceptedId, cancelled]
  · intro k q hk
    rw [submitted_of_ne hr] at hk
    have hbalance := h.conserved.balance k q hk
    rw [quantityIn_perm hperm, quantityIn_cons] at hbalance
    rw [executed_append, hexec, cancelledQuantity_append, hcancelled]
    omega
  · intro m
    have honce := h.conserved.once m
    unfold closings at honce ⊢
    rw [hperm.countP_eq, List.countP_cons] at honce
    rw [List.countP_append, hcount]
    simp only [decide_eq_true_eq] at honce
    omega
  · rw [quantityOf_of_ne hr, ← hclosing]
    refine h.conserved.leaves.append (LeavesExact.append
      (leavesExact_other fun y hy => ?_) (leavesExact_other fun y hy => ?_))
    · cases hy
    · cases hy
      show ClientResponseType.cancelled ≠ .filled
      decide
  · rw [executedOn_append, executedOn_append, h.conserved.sides]
    simp [← hclosing, execOn, cancelled]
  · rw [submitted_of_ne hr]
    intro y hy
    exact h.resting y (hperm.symm.subset (List.mem_cons_of_mem x hy))
  · rw [submitted_of_ne hr, ← hclosing]
    intro y hy hclose
    rcases List.mem_append.1 hy with hy | hy
    · exact h.spoken y hy hclose
    · rw [List.mem_cons, List.mem_singleton] at hy
      rcases hy with hy | hy
      · cases hy
      · cases hy
        exact h.resting x hx

-- -------------------------------------------------------------- a NEW order

theorem onBook_perm (book : Book) (b : Bool) :
    (onBook book).Perm (book (!b) ++ book b) := by
  cases b
  · exact List.Perm.refl _
  · exact List.perm_append_comm

/-- The orders that rest after a NEW. -/
theorem onBook_apply (i : Incoming) (book : Book) :
    (onBook (i.apply book)).Perm
      ((if (i.swept book).left = 0 then [] else [i.remainder book])
        ++ ((i.swept book).rest ++ book i.isBuy)) := by
  refine (onBook_perm _ i.isBuy).trans ?_
  rw [Incoming.apply_opposite]
  by_cases hleft : (i.swept book).left = 0
  · rw [Incoming.apply_spent hleft, Incoming.sweptBook_own, if_pos hleft,
      List.nil_append]
  · rw [Incoming.apply_own hleft, if_neg hleft]
    exact ((List.perm_orderedInsert _ _ _).append_left _).trans
      List.perm_middle

/-- What a NEW adds to what an id stands for. -/
theorem quantityOf_snoc {r : MatchingEngineClientRequest}
    (hr : r.type = .new) {m : OrderID} {q : Nat}
    (h : QuantityOf (rs ++ [r]) m q) : QuantityOf rs m q
      ∨ m = orderIdOf (submitted rs).length ∧ q = r.quantity.toNat := by
  obtain ⟨k, quantity, hk, hm, hq⟩ := h
  rw [submitted_snoc, if_pos hr, List.getElem?_append] at hk
  split at hk
  · exact Or.inl ⟨k, quantity, hk, hm, hq⟩
  · right
    have hk' : k - (submitted rs).length = 0 := by
      by_contra hne
      rw [List.getElem?_eq_none (by simp; omega)] at hk
      cases hk
    rw [hk'] at hk
    cases hk
    exact ⟨by rw [hm]; congr 1; omega, hq⟩

section New

variable {i : Incoming} {r : MatchingEngineClientRequest}

/-- What rests under an id before a NEW, on the two sides. -/
theorem quantityIn_before (i : Incoming) (book : Book) (m : OrderID) :
    quantityIn m (onBook book)
      = quantityIn m (book !i.isBuy) + quantityIn m (book i.isBuy) := by
  rw [quantityIn_perm (onBook_perm book i.isBuy), quantityIn_append]

/-- And after it: its own remainder, the rest of the side it swept, and the
other side as it was. -/
theorem quantityIn_after (i : Incoming) (book : Book) (m : OrderID) :
    quantityIn m (onBook (i.apply book))
      = (if i.ids.marketOrderId = m then (i.swept book).left.toNat else 0)
        + (quantityIn m (i.swept book).rest
          + quantityIn m (book i.isBuy)) := by
  rw [quantityIn_perm (onBook_apply i book), quantityIn_append,
    quantityIn_append]
  congr 1
  by_cases hleft : (i.swept book).left = 0
  · rw [if_pos hleft, hleft]
    simp
  · rw [if_neg hleft]
    simp [Incoming.remainder]

theorem mem_onBook {x : Resting OrderIds} {b : Bool} (hx : x ∈ book b) :
    x ∈ onBook book := by
  cases b
  · exact List.mem_append_right _ hx
  · exact List.mem_append_left _ hx

/-- The accounts balance: what an older order traded left the list it was in,
and the new one has traded or keeps what it came with. -/
theorem Ledger.balance_new (h : Ledger rs sent book) (hr : r.type = .new)
    (hlen : (submitted rs).length < 2 ^ 64) (hquantity : i.quantity = r.quantity)
    (hid : i.ids.marketOrderId = orderIdOf (submitted rs).length) {k : Nat}
    {q : Quantity} (hk : (submitted (rs ++ [r]))[k]? = some q) :
    q.toNat = executed (orderIdOf k) (sent ++ i.messages book)
      + quantityIn (orderIdOf k) (onBook (i.apply book))
      + cancelledQuantity (orderIdOf k) (sent ++ i.messages book) := by
  obtain ⟨hexec₀, hcount₀, hbook₀⟩ := h.fresh hlen le_rfl
  obtain ⟨htotal, heach⟩ :=
    sweep_conserves i.isBuy i.price (book !i.isBuy) i.quantity
  change i.quantity.toNat = traded (i.swept book).trades
    + (i.swept book).left.toNat at htotal
  change ∀ m, quantityIn m (book !i.isBuy)
    = tradedWith m (i.swept book).trades
      + quantityIn m (i.swept book).rest at heach
  rw [executed_append, executed_messages, quantityIn_after,
    cancelledQuantity_append,
    cancelledQuantity_eq_zero (messages_not_cancel i book _), Nat.add_zero,
    hid]
  rw [submitted_snoc, if_pos hr, List.getElem?_append] at hk
  split at hk
  · next hlt =>
    -- an order of before
    have hne : orderIdOf (submitted rs).length ≠ orderIdOf k := fun heq => by
      have := orderIdOf_injective hlen (by omega) heq
      omega
    have hbalance := h.conserved.balance k q hk
    rw [quantityIn_before i, heach] at hbalance
    rw [if_neg hne, if_neg hne]
    omega
  · next hge =>
    -- the new order
    have hk' : k = (submitted rs).length := by
      by_contra hne
      rw [List.getElem?_eq_none (by simp; omega)] at hk
      cases hk
    subst hk'
    rw [Nat.sub_self] at hk
    cases hk
    have hnone : ∀ b, quantityIn (orderIdOf (submitted rs).length)
        (book b) = 0 := fun b =>
      quantityIn_eq_zero fun x hx => hbook₀ x (mem_onBook hx)
    have hopp₀ := heach (orderIdOf (submitted rs).length)
    rw [hnone] at hopp₀
    rw [if_pos rfl, if_pos rfl, hexec₀, hnone,
      cancelledQuantity_eq_zero hcount₀, ← hquantity, htotal]
    omega

/-- The orders that rest are the ones that did, and the new one under its new
id. -/
theorem Ledger.once_new (h : Ledger rs sent book)
    (hlen : (submitted rs).length < 2 ^ 64)
    (hid : i.ids.marketOrderId = orderIdOf (submitted rs).length)
    (m : OrderID) : closings m (sent ++ i.messages book) (i.apply book) ≤ 1 := by
  obtain ⟨-, hcount₀, hbook₀⟩ := h.fresh hlen le_rfl
  have honce := h.conserved.once m
  unfold closings at honce ⊢
  rw [List.countP_append, messages_not_cancel, (onBook_apply i book).countP_eq,
    List.countP_append, List.countP_append]
  rw [(onBook_perm book i.isBuy).countP_eq, List.countP_append] at honce
  have hrest : (i.swept book).rest.countP (fun x => x.key.marketOrderId = m)
      ≤ (book !i.isBuy).countP fun x => x.key.marketOrderId = m := by
    have hcore : ∀ l : List (Resting OrderIds),
        l.countP (fun x => x.key.marketOrderId = m)
          = (l.map core).countP fun x => x.key.marketOrderId = m := fun l => by
      rw [List.countP_map]
      rfl
    rw [hcore (i.swept book).rest, hcore (book !i.isBuy)]
    exact sweep_rest_suffix.sublist.countP_le
  by_cases hm : m = orderIdOf (submitted rs).length
  · -- the new id: nothing rested or was cancelled under it
    have hnone : ∀ b, (book b).countP
        (fun x => x.key.marketOrderId = m) = 0 := fun b => by
      rw [List.countP_eq_zero, hm]
      intro x hx hxm
      exact hbook₀ x (mem_onBook hx) (of_decide_eq_true hxm)
    have hnew : (if (i.swept book).left = 0 then []
        else [i.remainder book]).countP
          (fun x => x.key.marketOrderId = m) ≤ 1 := by
      refine List.countP_le_length.trans ?_
      split <;> simp
    have hcount : sent.countP (isCancelOf m) = 0 := by rw [hm, hcount₀]
    rw [hnone] at hrest
    rw [hnone, hcount]
    omega
  · have hzero : (if (i.swept book).left = 0 then []
        else [i.remainder book]).countP
          (fun x => x.key.marketOrderId = m) = 0 := by
      split
      · rfl
      · rw [List.countP_singleton, if_neg]
        simp only [decide_eq_true_eq]
        intro heq
        exact hm (heq.symm.trans hid)
    omega

/-- An id that was given out stands for what it stood for. -/
theorem quantityOf_old (hr : r.type = .new)
    (hlen : (submitted rs).length < 2 ^ 64) {m : OrderID}
    (hm : ∃ k < (submitted rs).length, m = orderIdOf k) {q : Nat}
    (hq : QuantityOf (rs ++ [r]) m q) : QuantityOf rs m q := by
  obtain ⟨k, hk, rfl⟩ := hm
  refine (quantityOf_snoc hr hq).resolve_right fun hnew => ?_
  have := orderIdOf_injective (by omega) hlen hnew.1
  omega

/-- The leaves are exact: those of older orders were, and each fill of the
sweep takes its quantity off both. -/
theorem Ledger.leaves_new (h : Ledger rs sent book) (hr : r.type = .new)
    (hlen : (submitted rs).length < 2 ^ 64) (hquantity : i.quantity = r.quantity)
    (hid : i.ids.marketOrderId = orderIdOf (submitted rs).length) :
    LeavesExact (QuantityOf (rs ++ [r])) [] (sent ++ i.messages book) := by
  obtain ⟨hexec₀, -, hbook₀⟩ := h.fresh hlen le_rfl
  have hopp : ∀ x ∈ book (!i.isBuy), x ∈ onBook book := fun x hx =>
    mem_onBook hx
  obtain ⟨added, heq, hadded⟩ := messages_eq i book
  rw [heq]
  refine LeavesExact.append ?_ (LeavesExact.append (LeavesExact.append
    (leavesExact_other ?_) (leavesExact_sweepMessages i _ _ _ ?_ ?_ ?_ ?_)) ?_)
  · intro pre response post hsplit htype q hq
    refine h.conserved.leaves pre response post hsplit htype q
      (quantityOf_old hr hlen (h.spoken response ?_ (Or.inl htype)) hq)
    rw [hsplit]
    simp
  · intro response heq
    cases heq
    show ClientResponseType.accepted ≠ .filled
    decide
  · intro q hq
    rcases quantityOf_snoc hr hq with hold | ⟨-, rfl⟩
    · obtain ⟨k, quantity, hk, heq, -⟩ := hold
      have hlt := (List.getElem?_eq_some_iff.1 hk).1
      have := orderIdOf_injective hlen (by omega) (hid.symm.trans heq)
      omega
    · rw [List.nil_append, executed_append, hid, hexec₀, hquantity]
      simp [execOf, Incoming.accepted, acceptance]
  · intro x hx q hq
    have hquant := h.quantity (hopp x hx)
      (quantityOf_old hr hlen (h.resting x (hopp x hx)) hq)
    rw [List.nil_append, executed_append]
    simpa [execOf, Incoming.accepted, acceptance] using hquant
  · intro x hx heq
    exact hbook₀ x (hopp x hx) (heq.trans hid)
  · have hnd := h.nodup
    rw [((onBook_perm book i.isBuy).map _).nodup_iff, List.map_append] at hnd
    exact (List.nodup_append.1 hnd).1
  · intro pre response post hsplit htype
    obtain ⟨_, hx⟩ := hadded (.response response) (by rw [hsplit]; simp)
    cases hx

/-- What rests was submitted. -/
theorem Ledger.resting_new (h : Ledger rs sent book) (hr : r.type = .new)
    (hid : i.ids.marketOrderId = orderIdOf (submitted rs).length) :
    ∀ x ∈ onBook (i.apply book), ∃ k < (submitted (rs ++ [r])).length,
      x.key.marketOrderId = orderIdOf k := by
  intro x hx
  rw [submitted_snoc, if_pos hr, List.length_append, List.length_singleton]
  have hold : ∀ {b} {y : Resting OrderIds}, y ∈ book b →
      ∃ k < (submitted rs).length + 1, y.key.marketOrderId = orderIdOf k := by
    intro b y hy
    obtain ⟨k, hk, heq⟩ := h.resting y (mem_onBook hy)
    exact ⟨k, by omega, heq⟩
  rw [(onBook_apply i book).mem_iff, List.mem_append, List.mem_append] at hx
  rcases hx with hx | hx | hx
  · split at hx
    · cases hx
    · rw [List.mem_singleton] at hx
      rw [hx]
      exact ⟨_, by omega, hid⟩
  · obtain ⟨y, hy, hcore⟩ := mem_of_mem_rest hx
    rw [← (core_eq hcore).1]
    exact hold hy
  · exact hold hx

/-- So was what the messages speak of. -/
theorem Ledger.spoken_new (h : Ledger rs sent book) (hr : r.type = .new)
    (hid : i.ids.marketOrderId = orderIdOf (submitted rs).length)
    {response : MatchingEngineClientResponse}
    (hresponse : Sent.response response ∈ sent ++ i.messages book)
    (hclose : response.type = .filled ∨ response.type = .cancelled) :
    ∃ k < (submitted (rs ++ [r])).length,
      response.marketOrderId = orderIdOf k := by
  rw [submitted_snoc, if_pos hr, List.length_append, List.length_singleton]
  rcases List.mem_append.1 hresponse with hold | hnew
  · obtain ⟨k, hk, heq⟩ := h.spoken response hold hclose
    exact ⟨k, by omega, heq⟩
  · rcases mem_messages hnew with rfl | ⟨-, heq | ⟨x, hx, heq⟩⟩
    · rcases hclose with hclose | hclose <;> cases hclose
    · exact ⟨_, by omega, heq.trans hid⟩
    · obtain ⟨k, hk, heq'⟩ := h.resting x (mem_onBook hx)
      exact ⟨k, by omega, heq.trans heq'⟩

/-- The NEW order takes the next id, and its account starts. -/
theorem Ledger.new (h : Ledger rs sent book) (hr : r.type = .new)
    (hside : ∀ x ∈ book (!i.isBuy), x.side = sideOf (!i.isBuy))
    (hlen : (submitted rs).length < 2 ^ 64) (hquantity : i.quantity = r.quantity)
    (hid : i.ids.marketOrderId = orderIdOf (submitted rs).length) :
    Ledger (rs ++ [r]) (sent ++ i.messages book) (i.apply book) where
  conserved :=
    { ids := by
        rw [List.filterMap_append, h.conserved.ids, messages_acceptedId,
          submitted_snoc, if_pos hr, List.length_append, List.length_singleton,
          List.range_succ, List.map_append, List.map_singleton, hid]
      balance := fun _ _ hk => h.balance_new hr hlen hquantity hid hk
      once := h.once_new hlen hid
      leaves := h.leaves_new hr hlen hquantity hid
      sides := by
        rw [executedOn_append, executedOn_append, h.conserved.sides,
          executedOn_messages (Or.inl rfl) hside,
          executedOn_messages (Or.inr rfl) hside] }
  resting := h.resting_new hr hid
  spoken := fun _ hresponse hclose => h.spoken_new hr hid hresponse hclose

end New

end Ledger

end Reference

namespace MatchingEngineOrderBook

open Reference

-- ==================================================================== runs

/-- A run with at most 2^64 NEW requests keeps the ledger. -/
theorem ledger_of_cleanRun {rs : List MatchingEngineClientRequest}
    {s : MatchingEngineOrderBook} (h : Run CleanStep new rs s) :
    s.nextMarketOrderId = orderIdOf (submitted rs).length
      ∧ ((submitted rs).length ≤ 2 ^ 64 → Ledger rs s.sent s.book) := by
  refine h.induct (I := fun rs s =>
    s.nextMarketOrderId = orderIdOf (submitted rs).length
      ∧ ((submitted rs).length ≤ 2 ^ 64 → Ledger rs s.sent s.book)) ?_ ?_
  · rw [book_new]
    exact ⟨rfl, fun _ => ledger_empty⟩
  · rintro rs s r s' hrun ⟨hnext, hledger⟩ hstep
    obtain ⟨lay, hgood⟩ := good_of_cleanRun hrun
    have hlen : (submitted rs).length ≤ (submitted (rs ++ [r])).length := by
      rw [submitted_snoc, List.length_append]
      omega
    rcases step_cases hgood.stored hstep.valid hstep.processed
        (hstep.free hgood.stored) with
      ⟨hnew, lay', hafter⟩ | ⟨hcancel, -, rfl⟩ |
      ⟨hcancel, -, lay', b, x, hafter⟩
    · have hlen' : (submitted (rs ++ [r])).length
          = (submitted rs).length + 1 := by
        rw [submitted_snoc, if_pos hnew, List.length_append,
          List.length_singleton]
      refine ⟨?_, fun hcount => ?_⟩
      · rw [hafter.nextId, hnext, hlen']
        exact (UInt64.ofNat_add ((submitted rs).length + 1) 1).symm
      · rw [hafter.book, hafter.sent]
        exact (hledger (by omega)).new hnew (hgood.ok.side _) (by omega) rfl
          hnext
    · have hne : r.type ≠ .new := by rw [hcancel]; decide
      refine ⟨by rw [submitted_of_ne hne]; exact hnext, fun hcount => ?_⟩
      exact (hledger (by omega)).rejected hne _ rfl
    · have hne : r.type ≠ .new := by rw [hcancel]; decide
      refine ⟨by rw [submitted_of_ne hne, hafter.nextId]; exact hnext,
        fun hcount => ?_⟩
      rw [hafter.sent]
      refine (hledger (by omega)).cancel hne _ _ _ ?_
      obtain ⟨l, m, hbefore, hbook⟩ := hafter.book
      have hother : s'.book (!b) = s.book (!b) :=
        hafter.other _ (by cases b <;> decide)
      refine (onBook_perm s.book b).trans ?_
      refine .trans ?_ ((onBook_perm s'.book b).symm.cons x)
      rw [hother, hbook, hbefore, ← List.append_assoc, ← List.append_assoc]
      exact List.perm_middle

/-- Quantity is conserved in every state that a clean run with at most
2^64 NEW requests reaches. -/
theorem conserved_of_cleanRun {rs : List MatchingEngineClientRequest}
    {s : MatchingEngineOrderBook} (h : Run CleanStep new rs s)
    (hcount : (submitted rs).length ≤ 2 ^ 64) :
    Conserved rs s.sent s.book :=
  ((ledger_of_cleanRun h).2 hcount).conserved

/-- Quantity is conserved over two NEW requests and a CANCEL. -/
theorem conserved_churn_one : ∃ s, Run CleanStep new (churn 1) s
    ∧ (submitted (churn 1)).length ≤ 2 ^ 64
    ∧ Conserved (churn 1) s.sent s.book := by
  obtain ⟨s, -, hrun, -⟩ := churned 1
  have hclean := cleanRun_of_run hrun
  exact ⟨s, hclean, by decide, conserved_of_cleanRun hclean (by decide)⟩

-- =============================================================== the wrap

/-- A NEW of no quantity: it takes an id and changes nothing else. -/
def idleNew : MatchingEngineClientRequest where
  type := .new
  clientId := 0
  tickerId := 0
  orderId := 0
  side := .buy
  price := 0
  quantity := 0

theorem idleNew_valid : Valid idleNew where
  type := Or.inl rfl
  side := fun _ => Or.inl rfl
  range := by decide

/-- One lot at price 0, then `n` times nothing. -/
def idle (n : Nat) : List MatchingEngineClientRequest :=
  churnNew 0 :: List.replicate n idleNew

theorem idle_succ (n : Nat) : idle (n + 1) = idle n ++ [idleNew] := by
  unfold idle
  rw [List.replicate_succ', List.cons_append]

theorem submitted_idle (n : Nat) : (submitted (idle n)).length = n + 1 := by
  induction n with
  | zero => rfl
  | succ n ih =>
      rw [idle_succ, submitted_snoc, List.length_append, ih]
      rfl

theorem idle_step {s : MatchingEngineOrderBook} {lay : Layout}
    (h : Good s lay) (hfree : SlotFree s.book 0) :
    ∃ s', FreeStep s idleNew s' ∧ (∃ lay', Good s' lay')
      ∧ s'.book = s.book := by
  have hswept : (s.incoming idleNew).swept s.book
      = ⟨[], s.book false, 0⟩ := by
    show sweep true 0 0 (s.book false) = _
    cases s.book false with
    | nil => rfl
    | cons r l => rw [sweep, if_pos (Or.inl rfl)]
  have hleft : ((s.incoming idleNew).swept s.book).left = 0 := by
    rw [hswept]
  rcases add_spec (s.incoming idleNew) h.stored rfl idleNew_valid.range
      (fun hne => absurd hleft hne) with
    ⟨s', lay', hrun, hafter⟩ | ⟨-, hne, -⟩
  · have hbook : s'.book = s.book := by
      rw [hafter.book, Incoming.apply_spent hleft]
      funext b
      unfold Incoming.sweptBook
      rw [hswept]
      cases b <;> rfl
    refine ⟨s', ⟨idleNew_valid, fun _ => hfree, ?_⟩, ⟨lay', hafter.stored, ?_⟩,
      hbook⟩
    · unfold Processed
      rw [run_new idleNew_valid rfl]
      exact hrun
    · rw [hbook]
      exact h.ok
  · exact absurd hleft hne

/-- The first order rests on while ids are used up. -/
theorem idled (n : Nat) : ∃ s r, Run FreeStep new (idle n) s
    ∧ (∃ lay, Good s lay) ∧ s.book true = [r] ∧ s.book false = []
    ∧ r.price = 0 ∧ r.key.marketOrderId = 1 := by
  induction n with
  | zero =>
      obtain ⟨s, r, hstep, hgood, hbids, hasks, hprice, -, -, hid, -⟩ :=
        churn_new (n := 0) good_new (by rw [book_new]) (by rw [book_new]; simp)
          (by rw [book_new]; simp) (by rw [book_new]; intro _; rfl)
      rw [book_new] at hbids
      exact ⟨s, r, Run.nil.snoc hstep, hgood, hbids, hasks, hprice, hid⟩
  | succ n ih =>
      obtain ⟨s, r, hrun, ⟨lay, hgood⟩, hbids, hasks, hprice, hid⟩ := ih
      have hfree : SlotFree s.book 0 := by
        intro b x hx _
        cases b with
        | false =>
            rw [hasks] at hx
            cases hx
        | true =>
            rw [hbids, List.mem_singleton] at hx
            rw [hx]
            exact hprice
      obtain ⟨s', hstep, hgood', hbook⟩ := idle_step hgood hfree
      refine ⟨s', r, ?_, hgood', by rw [hbook, hbids], by rw [hbook, hasks],
        hprice, hid⟩
      rw [idle_succ]
      exact hrun.snoc hstep

/-- The order after `idle n` rests with the first one. -/
theorem idled_new (n : Nat) : ∃ s r r',
    Run CleanStep new (idle n ++ [churnNew 1]) s ∧ s.book true = [r, r']
    ∧ r.quantity ≠ 0 ∧ r'.quantity ≠ 0 ∧ r.key.marketOrderId = 1
    ∧ r'.key.marketOrderId = orderIdOf (n + 1) := by
  obtain ⟨s, r, hrun, ⟨lay, hgood⟩, hbids, hasks, hprice, hid⟩ := idled n
  obtain ⟨s', r', hstep, ⟨lay', hgood'⟩, hbids', -, -, -, -, hid', -⟩ :=
    churn_new (n := 1) hgood hasks (by rw [hbids]; simpa using hprice)
      (by rw [hbids]; simp) (by rw [hbids]; simp)
  rw [hbids] at hbids'
  have hnext := (ledger_of_cleanRun (cleanRun_of_run hrun)).1
  rw [submitted_idle] at hnext
  refine ⟨s', r, r', cleanRun_of_run (hrun.snoc hstep), hbids', ?_, ?_, hid,
    hid'.trans hnext⟩
  · exact hgood'.ok.positive true r (by rw [hbids']; simp)
  · exact hgood'.ok.positive true r' (by rw [hbids']; simp)

/-- With 2^64 + 1 NEW requests two resting orders have one id. -/
theorem not_conserved_of_idle : ¬ ∀ rs s, Run CleanStep new rs s →
    Conserved rs s.sent s.book := by
  intro hall
  obtain ⟨s, r, r', hrun, hbids, hpos, hpos', hid, hid'⟩ :=
    idled_new (2 ^ 64 - 1)
  have hbalance := (hall _ _ hrun).balance 0 1 rfl
  have hsame : orderIdOf (2 ^ 64 - 1 + 1) = 1 := by decide
  have hfirst : orderIdOf 0 = 1 := by decide
  have hq : 0 < r.quantity.toNat := UInt32.pos_iff_ne_zero.2 hpos
  have hq' : 0 < r'.quantity.toNat := UInt32.pos_iff_ne_zero.2 hpos'
  have hone : (1 : Quantity).toNat = 1 := rfl
  unfold onBook at hbalance
  rw [hbids, quantityIn_append, quantityIn_cons, quantityIn_cons, hfirst, hid,
    hid', hsame, if_pos rfl, if_pos rfl, hone] at hbalance
  omega

end MatchingEngineOrderBook

end ElectronicTrading
