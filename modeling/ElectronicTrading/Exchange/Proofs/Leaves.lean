/-
The fills a client is told of add up.

`Exact q ms` follows the answers to an order that has `q` left: a fill
executes a part of it and says what is left then. A sweep's fills are so
on either side, the aggressor's one after the other (`exact_ownFills`) and
the resting order's only one. So what a request makes the book tell a
client about a side is exact (`exact_of_cleanStep`), from what the client's
order of that side has left or comes with.
-/
import ElectronicTrading.Exchange.Proofs.Answers

namespace ElectronicTrading

open PriceTime

namespace Reference

-- ========================================================= one order's answers

/-- What is left of an order after an answer. -/
def leftBy (q : Quantity) (m : MatchingEngineClientResponse) : Quantity :=
  if m.type = .filled then m.leavesQuantity else q

/-- What is left of an order after its answers. -/
def leftAfter (q : Quantity) (ms : List MatchingEngineClientResponse) :
    Quantity := ms.foldl leftBy q

/-- Every fill executes what is left before it and not after it. -/
def Exact : Quantity → List MatchingEngineClientResponse → Prop
  | _, [] => True
  | q, m :: ms =>
      (m.type = .filled →
        m.execQuantity.toNat + m.leavesQuantity.toNat = q.toNat)
        ∧ Exact (leftBy q m) ms

variable {c : ClientID} {q : Quantity} {m : MatchingEngineClientResponse}
  {ms ms' : List MatchingEngineClientResponse}

theorem leftBy_filled (h : m.type = .filled) : leftBy q m = m.leavesQuantity :=
  if_pos h

theorem leftBy_other (h : m.type ≠ .filled) : leftBy q m = q := if_neg h

theorem Exact.append (h : Exact q ms) (h' : Exact (leftAfter q ms) ms') :
    Exact q (ms ++ ms') := by
  induction ms generalizing q with
  | nil => exact h'
  | cons m ms ih => exact ⟨h.1, ih h.2 h'⟩

theorem exact_of_not_filled (h : ∀ m ∈ ms, m.type ≠ .filled) :
    Exact q ms := by
  induction ms generalizing q with
  | nil => trivial
  | cons m ms ih =>
      have hm := h m List.mem_cons_self
      refine ⟨fun hfilled => (hm hfilled).elim, ?_⟩
      exact ih fun m' hm' => h m' (List.mem_cons_of_mem m hm')

-- ================================================================== one sweep

/-- A trade takes a part of the resting order. -/
theorem sweep_trade_le {b : Bool} {limit : Price}
    (l : List (Resting OrderIds)) : ∀ leaves : Quantity,
    ∀ t ∈ (sweep b limit leaves l).trades,
      t.quantity.toNat + (t.resting.quantity - t.quantity).toNat
        = t.resting.quantity.toNat := by
  induction l with
  | nil =>
      intro leaves t ht
      cases ht
  | cons r rest ih =>
      intro leaves t ht
      have hfill := fill_le r.quantity leaves
      have hleft := toNat_sub_fill_left r.quantity leaves
      have hfirst : (min r.quantity leaves).toNat
          + (r.quantity - min r.quantity leaves).toNat
          = r.quantity.toNat := by omega
      rw [sweep] at ht
      by_cases hdone : leaves = 0 ∨ crosses b limit r = false
      · rw [if_pos hdone] at ht
        cases ht
      · rw [if_neg hdone] at ht
        by_cases hzero : r.quantity - min r.quantity leaves = 0
        · simp only [hzero, if_true] at ht
          rcases List.mem_cons.1 ht with rfl | ht
          · exact hfirst
          · exact ih _ t ht
        · simp only [hzero, if_false] at ht
          rw [List.mem_singleton.1 ht]
          exact hfirst

/-- The aggressor's fills go on from what it has. -/
theorem exact_ownFills (i : Incoming) (l : List (Resting OrderIds)) :
    ∀ leaves, Exact leaves
      (i.ownFills leaves (sweep i.isBuy i.price leaves l).trades) := by
  induction l with
  | nil => exact fun _ => trivial
  | cons r rest ih =>
      intro leaves
      have hfill := fill_le r.quantity leaves
      have hleft := toNat_sub_fill_right r.quantity leaves
      have hfirst : (min r.quantity leaves).toNat
          + (leaves - min r.quantity leaves).toNat = leaves.toNat := by omega
      rw [sweep]
      by_cases hdone : leaves = 0 ∨ crosses i.isBuy i.price r = false
      · rw [if_pos hdone]
        trivial
      · rw [if_neg hdone]
        by_cases hzero : r.quantity - min r.quantity leaves = 0
        · simp only [hzero, if_true]
          refine ⟨fun _ => hfirst, ?_⟩
          rw [leftBy_filled rfl]
          exact ih (leaves - min r.quantity leaves)
        · simp only [hzero, if_false]
          exact ⟨fun _ => hfirst, trivial⟩

end Reference

-- ================================================================= one request

namespace MatchingEngineOrderBook

open Reference

variable {c : ClientID} {s s' : MatchingEngineOrderBook} {lay : Layout}
  {r : MatchingEngineClientRequest} {out : List Sent} {b : Bool} {q : Quantity}

/-- What a NEW order makes a client hear of a side. -/
theorem exact_of_add {i : Incoming} (hgood : Good s lay)
    (heach : OneEach c s) (hrests : ∀ x ∈ s.mine c b, x.quantity = q)
    (hnew : i.ids.clientId = c → b = i.isBuy → i.quantity = q) :
    Exact q (answersFor i.ids.tickerId (sideOf b)
      (answersTo c (i.messages s.book))) := by
  rcases i.isBuy_or b with hb | hb
  · rw [hb, answersFor_messages_own i hgood.ok]
    by_cases hown : i.ids.clientId = c
    · rw [if_pos hown, ← hnew hown hb]
      have haccepted : (readdressed i.accepted).type ≠ .filled := nofun
      refine ⟨fun hfilled => (haccepted hfilled).elim, ?_⟩
      rw [leftBy_other haccepted]
      exact exact_ownFills i (s.book !i.isBuy) i.quantity
    · rw [if_neg hown]
      trivial
  · rw [hb, answersFor_messages_opposite i hgood.ok]
    rcases i.swept_ordersOf (heach.one !i.isBuy) with
      ⟨htrades, -⟩ | ⟨t, hbefore, htrades, -⟩
    · rw [htrades]
      trivial
    · have ht : t ∈ (i.swept s.book).trades := by
        have hmem : t ∈ tradesOf c (i.swept s.book).trades := by
          rw [htrades]
          exact List.mem_singleton_self t
        exact List.mem_of_mem_filter hmem
      have hquantity : t.resting.quantity = q := by
        apply hrests
        rw [hb]
        unfold mine
        rw [hbefore]
        exact List.mem_singleton_self t.resting
      rw [htrades, ← hquantity]
      exact ⟨fun _ => sweep_trade_le _ _ t ht, trivial⟩

/-- What a request makes a client hear of a side goes on from what its
order of that side has left, or comes with. -/
theorem exact_of_cleanStep (hgood : Good s lay) (hstep : CleanStep s r s')
    (heach : OneEach c s) (hsent : s'.sent = s.sent ++ out)
    (hrests : ∀ x ∈ s.mine c b, x.quantity = q)
    (hnew : r.type = .new → r.clientId = c → r.side = sideOf b →
      r.quantity = q) :
    Exact q (answersFor r.tickerId (sideOf b) (answersTo c out)) := by
  have hout : ∀ {out'}, s'.sent = s.sent ++ out' → out = out' := fun h =>
    List.append_cancel_left (hsent.symm.trans h)
  -- the answer to a CANCEL is no fill
  have hcancel : ∀ {a : MatchingEngineClientResponse} {us : List Sent},
      (∀ u, .response u ∈ us → u = a) → a.type ≠ .filled →
      a.type ≠ .accepted →
      Exact q (answersFor r.tickerId (sideOf b) (answersTo c us)) := by
    intro a us hus hfilled haccepted
    refine exact_of_not_filled fun m hm => ?_
    obtain ⟨u, hu, rfl, -⟩ := mem_answersTo.1 (List.mem_of_mem_filter hm)
    rw [hus u hu]
    unfold readdressed
    rw [if_neg haccepted]
    exact hfilled
  rcases step_cases hgood.stored hstep.valid hstep.processed
      (hstep.free hgood.stored) with
    ⟨htype, lay', hafter⟩ | ⟨-, -, rfl⟩ | ⟨-, -, lay', b', x, hafter⟩
  · rw [hout hafter.sent]
    refine exact_of_add (i := s.incoming r) hgood heach hrests ?_
    intro hclient hb
    refine hnew htype hclient ?_
    rw [hb]
    show r.side = sideOf (r.side == .buy)
    rcases hstep.valid.side htype with h | h
    · rw [h]
      rfl
    · rw [h]
      rfl
  · rw [hout rfl]
    refine hcancel (a := cancelRejected r.clientId r.orderId r.tickerId)
      (fun u hu => ?_) nofun nofun
    cases List.mem_singleton.1 hu
    rfl
  · rw [hout hafter.sent]
    refine hcancel (a := cancelled r.clientId r.orderId r.tickerId x)
      (fun u hu => ?_) nofun nofun
    rcases List.mem_cons.1 hu with hu | hu
    · cases hu
    · cases List.mem_singleton.1 hu
      rfl

end MatchingEngineOrderBook

end ElectronicTrading
