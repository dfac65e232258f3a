/-
Which runs keep every order in a level of its own side and price, when
nothing at all is assumed of the prices.

A level is found by its slot, and `addOrder` takes the level it finds
there without comparing prices. So one price in another's slot is
enough to misplace an order, and nothing else is: a NEW misplaces its
remainder exactly when some of it comes to rest while an order of
another price, that rests by then, uses its slot (`Good.step_iff`).

`SlotSafe` says this before the step. Something comes to rest when what
crosses amounts to less than the order; what rests by then are the
orders of its own side and those opposite that do not cross.
-/
import ElectronicTrading.Exchange.Proofs.Matching

namespace ElectronicTrading

open PriceTime Runs

namespace PriceTime

variable {K : Type}

/-- The quantity of the orders that cross. -/
def crossingQuantity (isBuy : Bool) (limit : Price) (l : List (Resting K)) :
    Nat :=
  ((l.filter (crosses isBuy limit)).map fun r => r.quantity.toNat).sum

theorem crossingQuantity_cons (b : Bool) (limit : Price) (r : Resting K)
    (l : List (Resting K)) : crossingQuantity b limit (r :: l)
      = (if crosses b limit r = true then r.quantity.toNat else 0)
        + crossingQuantity b limit l := by
  unfold crossingQuantity
  rw [List.filter_cons]
  split <;> simp

/-- Behind an order that does not cross, nothing crosses. -/
theorem filter_crosses_of_behind {b : Bool} {limit : Price} {r : Resting K}
    {l : List (Resting K)} (h : Sorted (!b) (r :: l))
    (hr : crosses b limit r = false) :
    ∀ x ∈ r :: l, crosses b limit x = false := by
  intro x hx
  rcases List.mem_cons.1 hx with rfl | hx
  · exact hr
  · exact crosses_false_of_behind hr ((List.pairwise_cons.1 h).1 x hx)

/-- A sweep leaves of the incoming order what exceeds the quantity that
crosses. -/
theorem sweep_left (b : Bool) (limit : Price) (l : List (Resting K)) :
    ∀ leaves : Quantity, Sorted (!b) l →
    (sweep b limit leaves l).left.toNat
      = leaves.toNat - crossingQuantity b limit l := by
  induction l with
  | nil =>
      intro leaves _
      rfl
  | cons r rest ih =>
      intro leaves hsorted
      rw [sweep]
      by_cases hdone : leaves = 0 ∨ crosses b limit r = false
      · rw [if_pos hdone]
        rcases hdone with hzero | hcross
        · rw [hzero]
          exact (Nat.zero_sub _).symm
        · have hnone : crossingQuantity b limit (r :: rest) = 0 := by
            unfold crossingQuantity
            rw [List.filter_eq_nil_iff.2 fun x hx => by
              rw [filter_crosses_of_behind hsorted hcross x hx]
              decide]
            rfl
          rw [hnone]
          rfl
      · rw [if_neg hdone]
        have hcross : crosses b limit r = true := by
          rw [← Bool.not_eq_false]
          exact fun h => hdone (Or.inr h)
        have hresting := toNat_sub_fill_left r.quantity leaves
        have hleaves := toNat_sub_fill_right r.quantity leaves
        rw [crossingQuantity_cons, if_pos hcross]
        by_cases hzero : r.quantity - min r.quantity leaves = 0
        · simp only [hzero, if_true]
          rw [hzero] at hresting
          change 0 = _ at hresting
          rw [ih _ (List.pairwise_cons.1 hsorted).2, hleaves]
          omega
        · simp only [hzero, if_false]
          have hne : (r.quantity - min r.quantity leaves).toNat ≠ 0 :=
            fun h0 => hzero (UInt32.toNat_inj.1 h0)
          rw [hleaves]
          omega

/-- With quantity left, a sweep leaves exactly what does not cross. -/
theorem sweep_rest (b : Bool) (limit : Price) (l : List (Resting K)) :
    ∀ leaves : Quantity, Sorted (!b) l →
    (sweep b limit leaves l).left ≠ 0 →
    (sweep b limit leaves l).rest
      = l.filter fun r => !crosses b limit r := by
  induction l with
  | nil =>
      intro leaves _ _
      rfl
  | cons r rest ih =>
      intro leaves hsorted
      rw [sweep]
      by_cases hdone : leaves = 0 ∨ crosses b limit r = false
      · rw [if_pos hdone]
        intro hleft
        have hcross := hdone.resolve_left hleft
        symm
        refine List.filter_eq_self.2 fun x hx => ?_
        rw [filter_crosses_of_behind hsorted hcross x hx]
        rfl
      · rw [if_neg hdone]
        have hcross : crosses b limit r = true := by
          rw [← Bool.not_eq_false]
          exact fun h => hdone (Or.inr h)
        by_cases hzero : r.quantity - min r.quantity leaves = 0
        · simp only [hzero, if_true]
          intro hleft
          rw [List.filter_cons_of_neg (by rw [hcross]; decide)]
          exact ih _ (List.pairwise_cons.1 hsorted).2 hleft
        · simp only [hzero, if_false]
          exact fun hleft => absurd (leaves_eq_zero hzero) hleft

end PriceTime

namespace Reference

/-- Should some of the NEW order `r` come to rest, then no other price
uses its slot by then. -/
def SlotSafe (book : Book) (r : MatchingEngineClientRequest) : Prop :=
  crossingQuantity (r.side == .buy) r.price (book !(r.side == .buy))
      < r.quantity.toNat →
    ∀ b, ∀ x ∈ book b,
      b = (r.side == .buy) ∨ crosses (r.side == .buy) r.price x = false →
      priceToIndex x.price = priceToIndex r.price → x.price = r.price

instance (book : Book) (r : MatchingEngineClientRequest) :
    Decidable (SlotSafe book r) :=
  inferInstanceAs (Decidable (_ → ∀ b, ∀ x ∈ book b, _ → _ → _))

end Reference

namespace MatchingEngineOrderBook

open Reference

/-- The condition before the step is the one on which the step depends. -/
theorem slotSafe_iff {s : MatchingEngineOrderBook} {lay : Layout}
    (h : Good s lay) (r : MatchingEngineClientRequest) :
    SlotSafe s.book r ↔ (((s.incoming r).swept s.book).left ≠ 0 →
      SlotFree ((s.incoming r).sweptBook s.book) r.price) := by
  have hsorted := h.ok.sorted !(r.side == .buy)
  have hleft : ((s.incoming r).swept s.book).left ≠ 0
      ↔ crossingQuantity (r.side == .buy) r.price (s.book !(r.side == .buy))
        < r.quantity.toNat := by
    have htoNat := sweep_left _ r.price _ r.quantity hsorted
    rw [← Nat.sub_pos_iff_lt, ← htoNat, Nat.pos_iff_ne_zero, ne_eq, ne_eq,
      ← UInt32.toNat_inj]
    rfl
  unfold SlotSafe
  rw [hleft]
  refine imp_congr_right fun hlt => ?_
  have hrest : ((s.incoming r).swept s.book).rest = _ :=
    sweep_rest _ r.price _ r.quantity hsorted (hleft.2 hlt)
  unfold SlotFree
  refine forall_congr' fun b => ?_
  have hmem : ∀ x, x ∈ (s.incoming r).sweptBook s.book b ↔ x ∈ s.book b
      ∧ (b = (r.side == .buy)
        ∨ crosses (r.side == .buy) r.price x = false) := by
    intro x
    unfold Incoming.sweptBook
    split
    · next hb => exact ⟨fun hx => ⟨hx, Or.inl hb⟩, And.left⟩
    · next hb =>
        have hb' := ((s.incoming r).isBuy_or b).resolve_left hb
        rw [hrest, ← hb', List.mem_filter, Bool.not_eq_true']
        exact and_congr_right fun _ => ⟨Or.inr, fun h => h.resolve_left hb⟩
  constructor
  · intro hsafe x hx
    rw [hmem] at hx
    exact hsafe x hx.1 hx.2
  · intro hfree x hx hwhich
    exact hfree x ((hmem x).2 ⟨hx, hwhich⟩)

-- ============================================================ well placed

/-- Every order is linked in a level of its side and price, and the heads
are the best prices. -/
structure WellPlaced (s : MatchingEngineOrderBook) : Prop where
  linked : ∀ o, s.ladder.orderUsed o = true →
    ∃ b, ∃ p ∈ s.ladder.levelPtrs b, o ∈ s.ladder.orderPtrs p
      ∧ (s.ladder.resting o).side = s.ladder.levelSide p
      ∧ (s.ladder.resting o).price = s.ladder.levelPrice p
  /-- No order is better than its side's head. -/
  best : ∀ b o, s.ladder.orderUsed o = true →
    (s.ladder.resting o).side = sideOf b →
    ∃ p, s.ladder.best b = some p
      ∧ ¬ Better b (s.ladder.resting o).price (s.ladder.levelPrice p)
  /-- The head's price is an order's. -/
  attained : ∀ b p, s.ladder.best b = some p →
    ∃ o, s.ladder.orderUsed o = true
      ∧ (s.ladder.resting o).side = sideOf b
      ∧ (s.ladder.resting o).price = s.ladder.levelPrice p

theorem Good.wellPlaced {s : MatchingEngineOrderBook} {lay : Layout}
    (h : Good s lay) : WellPlaced s := by
  obtain ⟨hlevels, hqueues⟩ := h.stored.walks
  have hlaid := h.stored.booked.laid
  have hmatched := h.stored.booked.matched
  have horder : ∀ o, s.ladder.orderUsed o = true → lay.HasOrder o :=
    fun o ho => by simpa using (hlaid.queues.used o).1 ho
  refine
    { linked := ?_
      best := ?_
      attained := ?_ }
  · intro o ho
    obtain ⟨b, hb⟩ := (hlaid.hasOrder_iff o).1 (horder o ho)
    obtain ⟨p, hp, hop⟩ := Ladder.mem_orders hb
    refine ⟨b, p, by rw [hlevels]; exact hp, by rw [hqueues b p hp]; exact hop,
      hmatched p o hop⟩
  · intro b o ho hside
    obtain ⟨c, hc⟩ := (hlaid.hasOrder_iff o).1 (horder o ho)
    have hcb : c = b :=
      sideOf_injective ((h.stored.booked.side hc).symm.trans hside)
    rw [hcb] at hc
    rcases hlaid.head_cases b with
      ⟨-, hnil⟩ | ⟨p, o', rest, hbest, -, horders, -, ho'⟩
    · rw [hnil] at hc
      cases hc
    · refine ⟨p, hbest, ?_⟩
      have hsorted := h.stored.booked.sorted b
      rw [← (hmatched p o' ho').2]
      rw [horders] at hc hsorted
      rcases List.mem_cons.1 hc with rfl | hc
      · exact fun hb => hb.ne rfl
      · exact (List.pairwise_cons.1 hsorted).1 o hc
  · intro b p hbest
    rcases hlaid.head_cases b with
      ⟨hnone, -⟩ | ⟨p', o, rest, hbest', -, horders, -, ho⟩
    · rw [hbest] at hnone
      cases hnone
    · rw [hbest] at hbest'
      cases hbest'
      have hob : o ∈ lay.orders b := by
        rw [horders]
        exact List.mem_cons_self ..
      refine ⟨o, (hlaid.queues.used o).2 (Or.inl ⟨p, ho⟩),
        h.stored.booked.side hob, (hmatched p o ho).2⟩

/-- A misplaced order is not linked in a level of its price. -/
theorem Misplaced.not_wellPlaced {s : MatchingEngineOrderBook} {lay : Layout}
    {c : Bool} {p q o : Ptr} (h : Misplaced s lay c p q o) :
    ¬ WellPlaced s := by
  intro hwell
  have hused : s.ladder.orderUsed o = true :=
    (h.laid.queues.used o).2 (Or.inl ⟨p, h.second⟩)
  obtain ⟨b, p', hp', hop', -, hprice⟩ := hwell.linked o hused
  rw [h.laid.levelPtrs_eq] at hp'
  rw [h.laid.orderPtrs_eq ⟨b, hp'⟩] at hop'
  have hpp : p' = p := h.laid.queues.unique p' p o hop' h.second
  rw [hpp] at hprice
  exact h.price hprice

-- ==================================================================== runs

/-- A valid request that is processed, whatever its price. -/
structure AnyStep (s : MatchingEngineOrderBook)
    (r : MatchingEngineClientRequest) (s' : MatchingEngineOrderBook) :
    Prop where
  valid : Valid r
  processed : Processed s r s'

/-- One step from a book in order: it misplaces an order exactly when it
is a NEW whose slot is not safe. -/
theorem Good.step_iff {s s' : MatchingEngineOrderBook} {lay : Layout}
    {r : MatchingEngineClientRequest} (h : Good s lay) (hstep : AnyStep s r s') :
    (WellPlaced s' ↔ (r.type = .new → SlotSafe s.book r))
      ∧ (WellPlaced s' → ∃ lay', Good s' lay') := by
  have hgood : (r.type = .new → SlotSafe s.book r) → ∃ lay', Good s' lay' :=
    fun hsafe => h.step hstep.valid hstep.processed fun hnew =>
      (slotSafe_iff h r).1 (hsafe hnew)
  have hsafe : WellPlaced s' → r.type = .new → SlotSafe s.book r := by
    intro hwell hnew
    rw [slotSafe_iff h]
    intro hleft
    by_contra hbad
    have hproc := hstep.processed
    unfold Processed at hproc
    rw [run_new hstep.valid hnew] at hproc
    obtain ⟨lay', c, p, q, o, hmis⟩ :=
      add_misplaces h.stored rfl hstep.valid.range hleft hbad hproc
    exact hmis.not_wellPlaced hwell
  refine ⟨⟨hsafe, fun hall => ?_⟩, fun hwell => hgood (hsafe hwell)⟩
  obtain ⟨lay', hgood'⟩ := hgood hall
  exact hgood'.wellPlaced

/-- The states a run passes through are all in order, exactly when every
NEW of the run was safe where it was processed. -/
theorem wellPlaced_iff_slotSafe {rs : List MatchingEngineClientRequest}
    {s : MatchingEngineOrderBook} (h : Run AnyStep new rs s) :
    (∀ rs' t, rs' <+: rs → Run AnyStep new rs' t → WellPlaced t)
      ↔ ∀ rs' r t, rs' ++ [r] <+: rs → Run AnyStep new rs' t →
        r.type = .new → SlotSafe t.book r := by
  have hshorter : ∀ {rs' : List MatchingEngineClientRequest} {r},
      rs' ++ [r] <+: rs → rs' <+: rs := fun hpre =>
    (List.prefix_append _ _).trans hpre
  constructor
  · intro hwell
    have hgood : ∀ rs' t, rs' <+: rs → Run AnyStep new rs' t →
        ∃ lay, Good t lay := by
      intro rs' t hpre hrun
      revert hpre
      refine hrun.induct (I := fun rs' t => rs' <+: rs → ∃ lay, Good t lay)
        (fun _ => ⟨_, good_new⟩) ?_
      intro rs' t r t' hrun' ih hstep hpre
      obtain ⟨lay, hgood⟩ := ih (hshorter hpre)
      exact (hgood.step_iff hstep).2 (hwell _ _ hpre (hrun'.snoc hstep))
    intro rs' r t hpre hrun
    obtain ⟨lay, ht⟩ := hgood rs' t (hshorter hpre) hrun
    -- the run goes on from `t`
    obtain ⟨rest, hrest⟩ := hpre
    rw [← hrest] at h
    obtain ⟨t', hrun', -⟩ := h.split
    obtain ⟨u, hu, hstep⟩ := hrun'.last
    have hut : u = t := hu.unique
      (fun _ _ _ _ h₁ h₂ => h₁.processed.unique h₂.processed) hrun
    rw [hut] at hstep
    exact (ht.step_iff hstep).1.1
      (hwell _ _ ⟨rest, hrest⟩ (hrun.snoc hstep))
  · intro hsafe rs' t hpre hrun
    have hgood : ∃ lay, Good t lay := by
      revert hpre
      refine hrun.induct (I := fun rs' t => rs' <+: rs → ∃ lay, Good t lay)
        (fun _ => ⟨_, good_new⟩) ?_
      intro rs' t r t' hrun' ih hstep hpre
      obtain ⟨lay, hgood⟩ := ih (hshorter hpre)
      have hiff := hgood.step_iff hstep
      exact hiff.2 (hiff.1.2 (hsafe _ _ _ hpre hrun'))
    obtain ⟨lay, ht⟩ := hgood
    exact ht.wellPlaced

-- ---------------------------------------------- two prices in one slot

/-- One lot bought at price 256, which has the slot of price 0. -/
def buyAt256 : MatchingEngineClientRequest where
  type := .new
  clientId := 0
  tickerId := 0
  orderId := 1
  side := .buy
  price := 256
  quantity := 1

theorem buyAt256_valid : Valid buyAt256 where
  type := Or.inl rfl
  side := fun _ => Or.inl rfl
  range := by decide

/-- Behind a lot at price 0 the code takes it, with no fault. -/
theorem processed_buyAt256 {s : MatchingEngineOrderBook}
    (h : Processed new (churnNew 0) s) : ∃ s', Processed s buyAt256 s' := by
  have hok : (match (do
      processClientRequest (churnNew 0)
      processClientRequest buyAt256 : Member Unit).run new with
    | .ok _ _ => true
    | .error _ _ => false) = true := by decide +kernel
  unfold Processed at h ⊢
  rw [Exec.run_bind_ok h] at hok
  cases hrun : (processClientRequest buyAt256).run s with
  | ok u s' => exact ⟨s', rfl⟩
  | error e s' =>
      rw [hrun] at hok
      cases hok

/-- The second lot is not safe. -/
theorem exists_unsafe : ∃ s s' lay, Run AnyStep new [churnNew 0] s
    ∧ Good s lay ∧ AnyStep s buyAt256 s' ∧ ¬ SlotSafe s.book buyAt256 := by
  obtain ⟨s, r, hrun, hchurned, -⟩ := churned 0
  obtain ⟨lay, hgood⟩ := hchurned.good
  have hlast : Run FreeStep new ([] ++ [churnNew 0]) s := hrun
  have hnil : Run FreeStep new [] new := Run.nil
  obtain ⟨u, hu, hstep⟩ := hlast.last
  cases hu.unique (fun _ _ _ _ h₁ h₂ => h₁.processed.unique h₂.processed)
    hnil
  obtain ⟨s', hproc⟩ := processed_buyAt256 hstep.processed
  refine ⟨s, s', lay, Run.nil.snoc ⟨hstep.valid, hstep.processed⟩, hgood,
    ⟨buyAt256_valid, hproc⟩, fun hsafe => ?_⟩
  have hcross : crossingQuantity true 256 (s.book false)
      < (1 : Quantity).toNat := by
    rw [hchurned.asks]
    decide
  have heq := hsafe hcross true r
    (by rw [hchurned.bids]; exact List.mem_singleton_self r) (Or.inl rfl)
    (by rw [hchurned.price]; decide)
  rw [hchurned.price] at heq
  cases heq

/-- Two lots bought at prices 0 and 256 rest in one level. -/
theorem not_wellPlaced_of_two :
    ¬ ∀ rs s, Run AnyStep new rs s → WellPlaced s := by
  intro hall
  obtain ⟨s, s', lay, hrun, hgood, hstep, hunsafe⟩ := exists_unsafe
  have hwell := hall _ _ (hrun.snoc hstep)
  exact hunsafe ((hgood.step_iff hstep).1.1 hwell rfl)

/-- The run of these two lots passes through a state that is not in
order. -/
theorem wellPlaced_iff_slotSafe_two : ∃ s',
    Run AnyStep new [churnNew 0, buyAt256] s'
      ∧ ¬ ∀ rs' t, rs' <+: [churnNew 0, buyAt256] →
        Run AnyStep new rs' t → WellPlaced t := by
  obtain ⟨s, s', lay, hrun, -, hstep, hunsafe⟩ := exists_unsafe
  refine ⟨s', hrun.snoc hstep, ?_⟩
  intro hwell
  have hsafe := (wellPlaced_iff_slotSafe (hrun.snoc hstep)).1 hwell
  exact hunsafe (hsafe _ _ _ (List.prefix_refl _) hrun rfl)

end MatchingEngineOrderBook

end ElectronicTrading
