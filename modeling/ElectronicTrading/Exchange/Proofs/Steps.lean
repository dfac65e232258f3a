/-
Runs of requests on one book, and the invariant of the lists of resting
orders along them.

A step processes one valid request to its end (`Processed`); a request
that meets a fault takes no step. `Reference.Ok` is what the order lists
satisfy between requests: sorted, uncrossed, without an empty order, no
two prices in one slot. `step_cases` says what a step can do, given that
the slot the remainder needs is free of other prices; each invariant of
a run is a case analysis on it.

Whether that slot is free can be told before the step, from the prices
that rest then (`SlotFree`), or after it, from those that rest then
(`slotFree_of_onePerSlot`): linking into another price's level leaves
both prices in the slot.
-/
import ElectronicTrading.Lib.Runs
import ElectronicTrading.Exchange.Proofs.Requests

namespace ElectronicTrading

open PriceTime

-- =============================================================== requests

/-- A NEW of side BUY or SELL or a CANCEL, with ids the index has. -/
structure Valid (r : MatchingEngineClientRequest) : Prop where
  type : r.type = .new ∨ r.type = .cancel
  side : r.type = .new → r.side = .buy ∨ r.side = .sell
  range : MatchingEngineOrderBook.inRange r.clientId r.orderId = true

instance (r : MatchingEngineClientRequest) : Decidable (Valid r) :=
  decidable_of_iff ((r.type = .new ∨ r.type = .cancel)
      ∧ (r.type = .new → r.side = .buy ∨ r.side = .sell)
      ∧ MatchingEngineOrderBook.inRange r.clientId r.orderId = true)
    ⟨fun ⟨htype, hside, hrange⟩ => ⟨htype, hside, hrange⟩,
      fun h => ⟨h.type, h.side, h.range⟩⟩

namespace Reference

/-- No two prices share a slot. -/
def OnePerSlot (book : Book) : Prop :=
  ∀ b c, ∀ r ∈ book b, ∀ r' ∈ book c,
    priceToIndex r.price = priceToIndex r'.price → r.price = r'.price

instance (book : Book) : Decidable (OnePerSlot book) :=
  inferInstanceAs (Decidable (∀ b c, ∀ r ∈ book b, ∀ r' ∈ book c, _ → _))

/-- What the order lists satisfy between requests. -/
structure Ok (book : Book) : Prop where
  sorted : ∀ b, Sorted b (book b)
  side : ∀ b, ∀ r ∈ book b, r.side = sideOf b
  positive : ∀ b, ∀ r ∈ book b, r.quantity ≠ 0
  uncrossed : ∀ r ∈ book true, ∀ r' ∈ book false, r.price < r'.price
  slots : OnePerSlot book

theorem ok_empty : Ok fun _ => [] where
  sorted := fun _ => List.Pairwise.nil
  side := fun _ _ hr => by cases hr
  positive := fun _ _ hr => by cases hr
  uncrossed := fun _ hr => by cases hr
  slots := fun _ _ _ hr => by cases hr

/-- The invariant passes to parts of the lists. -/
theorem Ok.sublist {book book' : Book} (h : Ok book)
    (hsub : ∀ b, (book' b).Sublist (book b)) : Ok book' where
  sorted := fun b => (h.sorted b).sublist (hsub b)
  side := fun b r hr => h.side b r ((hsub b).subset hr)
  positive := fun b r hr => h.positive b r ((hsub b).subset hr)
  uncrossed := fun r hr r' hr' =>
    h.uncrossed r ((hsub true).subset hr) r' ((hsub false).subset hr')
  slots := fun b c r hr r' hr' =>
    h.slots b c r ((hsub b).subset hr) r' ((hsub c).subset hr')

namespace Incoming

variable {i : Incoming} {book : Book}

theorem isBuy_or (i : Incoming) (b : Bool) : b = i.isBuy ∨ b = !i.isBuy := by
  cases i.isBuy <;> cases b <;> simp

/-- An order that the sweep leaves was there, but for its quantity. -/
theorem exists_core {b : Bool} {r : Resting OrderIds}
    (hr : r ∈ i.sweptBook book b) : ∃ r' ∈ book b, core r' = core r := by
  unfold sweptBook at hr
  split at hr
  · exact ⟨r, hr, rfl⟩
  · next hb =>
      rw [(i.isBuy_or b).resolve_left hb]
      exact mem_of_mem_rest hr

/-- Trading keeps the invariant. -/
theorem ok_sweptBook (h : Ok book) : Ok (i.sweptBook book) where
  sorted := fun b => by
    unfold sweptBook
    split
    · exact h.sorted b
    · next hb =>
        rw [(i.isBuy_or b).resolve_left hb]
        exact Pairwise.sweep_rest (fun _ _ => Iff.rfl) (h.sorted _)
  side := fun b r hr => by
    obtain ⟨r', hr', hcore⟩ := exists_core hr
    rw [← (core_eq hcore).2.1]
    exact h.side b r' hr'
  positive := fun b r hr => by
    unfold sweptBook at hr
    split at hr
    · exact h.positive b r hr
    · exact sweep_rest_positive (h.positive _) r hr
  uncrossed := fun r hr r' hr' => by
    obtain ⟨x, hx, hcore⟩ := exists_core hr
    obtain ⟨x', hx', hcore'⟩ := exists_core hr'
    rw [← (core_eq hcore).2.2.1, ← (core_eq hcore').2.2.1]
    exact h.uncrossed x hx x' hx'
  slots := fun b c r hr r' hr' => by
    obtain ⟨x, hx, hcore⟩ := exists_core hr
    obtain ⟨x', hx', hcore'⟩ := exists_core hr'
    rw [← (core_eq hcore).2.2.1, ← (core_eq hcore').2.2.1]
    exact h.slots b c x hx x' hx'

/-- An order of the book after the NEW: the remainder, or one the sweep
left. -/
theorem mem_apply {b : Bool} {r : Resting OrderIds} (hr : r ∈ i.apply book b) :
    (b = i.isBuy ∧ (i.swept book).left ≠ 0 ∧ r = i.remainder book)
      ∨ r ∈ i.sweptBook book b := by
  unfold apply at hr
  split at hr
  · next hb =>
      rcases mem_place.1 hr with hr | hr
      · exact Or.inl ⟨hb.1, hb.2, hr⟩
      · refine Or.inr ?_
        unfold sweptBook
        rw [if_pos hb.1]
        exact hr
  · exact Or.inr hr

/-- With quantity left, the opposite orders that are left are beyond the
limit price. -/
theorem beyond_limit (h : Ok book) (hleft : (i.swept book).left ≠ 0)
    {r : Resting OrderIds} (hr : r ∈ i.sweptBook book (!i.isBuy)) :
    if i.isBuy then i.price < r.price else r.price < i.price := by
  have hrest : r ∈ (i.swept book).rest := by
    rwa [sweptBook_opposite] at hr
  have hcross := sweep_rest_not_crosses (h.sorted _) hleft r hrest
  unfold crosses at hcross
  cases hb : i.isBuy
  · rw [hb] at hcross
    simp only [Bool.false_eq_true, if_false, decide_eq_false_iff_not] at hcross
    exact Int.not_le.1 hcross
  · rw [hb] at hcross
    simp only [if_true, decide_eq_false_iff_not] at hcross
    exact Int.not_le.1 hcross

/-- A NEW keeps the invariant, if the slot its remainder needs is free. -/
theorem ok_apply (h : Ok book)
    (hfree : (i.swept book).left ≠ 0 → SlotFree (i.sweptBook book) i.price) :
    Ok (i.apply book) := by
  have hswept := ok_sweptBook (i := i) h
  refine
    { sorted := ?_
      side := ?_
      positive := ?_
      uncrossed := ?_
      slots := ?_ }
  · intro b
    unfold apply
    split
    · exact (h.sorted b).place _
    · exact hswept.sorted b
  · intro b r hr
    rcases mem_apply hr with ⟨hb, -, rfl⟩ | hr
    · rw [hb]
      rfl
    · exact hswept.side b r hr
  · intro b r hr
    rcases mem_apply hr with ⟨-, hleft, rfl⟩ | hr
    · exact hleft
    · exact hswept.positive b r hr
  · intro r hr r' hr'
    rcases mem_apply hr with ⟨hb, hleft, rfl⟩ | hr
    · rcases mem_apply hr' with ⟨hb', -, -⟩ | hr'
      · rw [← hb] at hb'
        cases hb'
      · have hlimit := beyond_limit h hleft (r := r') (by rw [← hb]; exact hr')
        rw [← hb] at hlimit
        exact hlimit
    · rcases mem_apply hr' with ⟨hb', hleft, rfl⟩ | hr'
      · have hlimit := beyond_limit h hleft (r := r) (by rw [← hb']; exact hr)
        rw [← hb'] at hlimit
        exact hlimit
      · exact hswept.uncrossed r hr r' hr'
  · intro b c r hr r' hr' hidx
    rcases mem_apply hr with ⟨-, hleft, rfl⟩ | hr
    · rcases mem_apply hr' with ⟨-, -, rfl⟩ | hr'
      · rfl
      · exact (hfree hleft c r' hr' hidx.symm).symm
    · rcases mem_apply hr' with ⟨-, hleft, rfl⟩ | hr'
      · exact hfree hleft b r hr hidx
      · exact hswept.slots b c r hr r' hr' hidx

/-- Prices that are free before the sweep are free after it. -/
theorem slotFree_swept (h : SlotFree book i.price) :
    SlotFree (i.sweptBook book) i.price := by
  intro b r hr hidx
  obtain ⟨r', hr', hcore⟩ := exists_core hr
  rw [← (core_eq hcore).2.2.1] at hidx ⊢
  exact h b r' hr' hidx

end Incoming

end Reference

-- ================================================================== steps

namespace MatchingEngineOrderBook

open Reference

/-- The book processes `r` to its end. -/
def Processed (s : MatchingEngineOrderBook) (r : MatchingEngineClientRequest)
    (s' : MatchingEngineOrderBook) : Prop :=
  (processClientRequest r).run s = .ok () s'

theorem Processed.unique {s t t' : MatchingEngineOrderBook}
    {r : MatchingEngineClientRequest} (h : Processed s r t)
    (h' : Processed s r t') : t = t' := by
  unfold Processed at h h'
  rw [h] at h'
  cases h'
  rfl

/-- The incoming order a NEW request is to the book. -/
def incoming (s : MatchingEngineOrderBook) (r : MatchingEngineClientRequest) :
    Incoming where
  ids := ⟨r.tickerId, r.clientId, r.orderId, s.nextMarketOrderId⟩
  isBuy := r.side == .buy
  price := r.price
  quantity := r.quantity

/-- A valid NEW request is `add` of its incoming order. -/
theorem run_new {s : MatchingEngineOrderBook} {r : MatchingEngineClientRequest}
    (hv : Valid r) (hnew : r.type = .new) :
    (processClientRequest r).run s
      = (add (s.incoming r).ids.clientId (s.incoming r).ids.clientOrderId
          (s.incoming r).ids.tickerId (sideOf (s.incoming r).isBuy)
          (s.incoming r).price (s.incoming r).quantity).run s := by
  have hside : sideOf (r.side == .buy) = r.side := by
    rcases hv.side hnew with h | h <;> rw [h] <;> rfl
  unfold processClientRequest incoming
  rw [hnew]
  simp only [hside]

theorem run_cancel {s : MatchingEngineOrderBook}
    {r : MatchingEngineClientRequest} (hcancel : r.type = .cancel) :
    (processClientRequest r).run s
      = (cancel r.clientId r.orderId r.tickerId).run s := by
  unfold processClientRequest
  rw [hcancel]

/-- What a step can do. -/
theorem step_cases {s s' : MatchingEngineOrderBook} {lay : Layout}
    {r : MatchingEngineClientRequest} (h : Stored s lay) (hv : Valid r)
    (hp : Processed s r s')
    (hfree : r.type = .new → ((s.incoming r).swept s.book).left ≠ 0 →
      SlotFree ((s.incoming r).sweptBook s.book) r.price) :
    (r.type = .new ∧ ∃ lay', AfterAdd (s.incoming r) s s' lay')
      ∨ (r.type = .cancel ∧ s.cidOidToOrder r.clientId r.orderId = none
        ∧ s' = { s with sent := s.sent ++ [.response
            (cancelRejected r.clientId r.orderId r.tickerId)] })
      ∨ (r.type = .cancel ∧ s.cidOidToOrder r.clientId r.orderId ≠ none
        ∧ ∃ lay' b x, AfterCancel r.clientId r.orderId r.tickerId b x s s'
          lay') := by
  unfold Processed at hp
  rcases hv.type with hnew | hcancel
  · rw [run_new hv hnew] at hp
    rcases add_spec (s.incoming r) h rfl hv.range (hfree hnew) with
      ⟨t, lay', hrun, hafter⟩ | ⟨⟨t, hrun⟩, -⟩
    · rw [hrun] at hp
      cases hp
      exact Or.inl ⟨hnew, lay', hafter⟩
    · rw [hrun] at hp
      cases hp
  · rw [run_cancel hcancel] at hp
    rcases cancel_spec h r.tickerId hv.range with
      ⟨hnone, hrun⟩ | ⟨hsome, t, lay', b, x, hrun, hafter⟩
    · rw [hrun] at hp
      cases hp
      exact Or.inr (Or.inl ⟨hcancel, hnone, rfl⟩)
    · rw [hrun] at hp
      cases hp
      exact Or.inr (Or.inr ⟨hcancel, hsome, lay', b, x, hafter⟩)

/-- A misplaced order shows: two prices rest in one slot. -/
theorem Misplaced.not_onePerSlot {s : MatchingEngineOrderBook} {lay : Layout}
    {c : Bool} {p q o : Ptr} (h : Misplaced s lay c p q o) :
    ¬ OnePerSlot s.book := by
  intro hone
  have hmem : ∀ y ∈ lay.queue p, s.ladder.resting y ∈ s.book c := by
    intro y hy
    unfold book
    rw [h.laid.restingOrders_eq]
    exact List.mem_map_of_mem (List.mem_flatMap.2 ⟨p, h.level, hy⟩)
  exact h.differ (hone c c _ (hmem q h.first) _ (hmem o h.second) h.index)

/-- If no two prices share a slot after a NEW, the slot was free for its
remainder. -/
theorem slotFree_of_onePerSlot {s s' : MatchingEngineOrderBook} {lay : Layout}
    {r : MatchingEngineClientRequest} (h : Stored s lay) (hv : Valid r)
    (hp : Processed s r s') (hone : OnePerSlot s'.book)
    (hnew : r.type = .new)
    (hleft : ((s.incoming r).swept s.book).left ≠ 0) :
    SlotFree ((s.incoming r).sweptBook s.book) r.price := by
  by_contra hbad
  unfold Processed at hp
  rw [run_new hv hnew] at hp
  obtain ⟨lay', c, p, q, o, hmis⟩ :=
    add_misplaces h rfl hv.range hleft hbad hp
  exact hmis.not_onePerSlot hone

-- ============================================================== invariant

/-- The invariant between requests. -/
structure Good (s : MatchingEngineOrderBook) (lay : Layout) : Prop where
  stored : Stored s lay
  ok : Ok s.book

theorem book_new : new.book = fun _ => [] := by
  funext b
  rw [stored_new.book_eq]
  rfl

theorem good_new : Good new .empty where
  stored := stored_new
  ok := by
    rw [book_new]
    exact ok_empty

/-- A step keeps the invariant. -/
theorem Good.step {s s' : MatchingEngineOrderBook} {lay : Layout}
    {r : MatchingEngineClientRequest} (h : Good s lay) (hv : Valid r)
    (hp : Processed s r s')
    (hfree : r.type = .new → ((s.incoming r).swept s.book).left ≠ 0 →
      SlotFree ((s.incoming r).sweptBook s.book) r.price) :
    ∃ lay', Good s' lay' := by
  rcases step_cases h.stored hv hp hfree with
    ⟨hnew, lay', hafter⟩ | ⟨-, -, rfl⟩ | ⟨-, -, lay', b, x, hafter⟩
  · refine ⟨lay', hafter.stored, ?_⟩
    rw [hafter.book]
    exact Incoming.ok_apply h.ok (hfree hnew)
  · exact ⟨lay, h.stored.congr rfl rfl, h.ok⟩
  · refine ⟨lay', hafter.stored, h.ok.sublist fun c => ?_⟩
    by_cases hc : c = b
    · obtain ⟨l, m, hbefore, hbook⟩ := hafter.book
      rw [hc, hbefore, hbook]
      exact (List.Sublist.refl l).append (List.sublist_cons_self x m)
    · rw [hafter.other c hc]

-- ==================================================================== runs

/-- A step after which no two resting prices share a slot. -/
structure CleanStep (s : MatchingEngineOrderBook)
    (r : MatchingEngineClientRequest) (s' : MatchingEngineOrderBook) :
    Prop where
  valid : Valid r
  processed : Processed s r s'
  slots : OnePerSlot s'.book

/-- A clean run and what holds at its end, computed. -/
theorem exists_cleanRun (rs : List MatchingEngineClientRequest)
    (I : MatchingEngineOrderBook → Prop) [DecidablePred I]
    (h : (rs.foldlM (Runs.guarded
      (fun s r => Exec.returned ((processClientRequest r).run s))
      fun _ r s' => Valid r ∧ OnePerSlot s'.book) new).any
        (fun s => decide (I s)) = true) :
    ∃ s, Runs.Run CleanStep new rs s ∧ I s := by
  obtain ⟨s, hrun, hend⟩ := Runs.Run.exists_of_guarded (fun s r s' hstep =>
    (Exec.returned_eq_some hstep : Processed s r s')) new rs I h
  refine ⟨s, hrun.mono (I := fun _ => True) ?_ fun _ _ _ => trivial, hend⟩
  exact fun _ _ _ _ hstep => ⟨hstep.2.1, hstep.1, hstep.2.2⟩

/-- The slot a clean step's remainder needs was free. -/
theorem CleanStep.free {s s' : MatchingEngineOrderBook} {lay : Layout}
    {r : MatchingEngineClientRequest} (h : CleanStep s r s')
    (hs : Stored s lay) (hnew : r.type = .new)
    (hleft : ((s.incoming r).swept s.book).left ≠ 0) :
    SlotFree ((s.incoming r).sweptBook s.book) r.price :=
  slotFree_of_onePerSlot hs h.valid h.processed h.slots hnew hleft

/-- Every run of clean steps keeps the invariant. -/
theorem good_of_cleanRun {rs : List MatchingEngineClientRequest}
    {s : MatchingEngineOrderBook} (h : Runs.Run CleanStep new rs s) :
    ∃ lay, Good s lay := by
  refine h.induct (I := fun _ s => ∃ lay, Good s lay) ⟨_, good_new⟩ ?_
  rintro rs s r s' - ⟨lay, hgood⟩ hstep
  exact hgood.step hstep.valid hstep.processed (hstep.free hgood.stored)

end MatchingEngineOrderBook

end ElectronicTrading
