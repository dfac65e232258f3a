/-
`unlinkOrder` keeps the layout: an order among others leaves its queue
(`unlinkOrder_middle`), and one that is alone takes its level with it
(`unlinkOrder_last`). Either way it ends up loose, which is what
`deallocateOrder` (below, with `allocateOrder`) asks for.

The removal of a level finds it through the slot of the order's own
price and picks the head by the order's own side, so it needs both to be
the level's: the two hypotheses `hslot` and `hside`.
-/
import ElectronicTrading.Common.Proofs.Blocks
import ElectronicTrading.Common.Proofs.Layout

namespace ElectronicTrading

open LinkedRing

namespace Ladder

variable {K : Type}

-- ================================================= one order among others

/-- The statements of `unlinkOrder`'s second branch. -/
theorem run_unlinkOrder_middle {s : Ladder K} {o p u w : Ptr}
    (hslot : s.getOrdersAtPrice (s.resting o).price = some p)
    (hprev : s.prevOrder o = some u) (hnext : s.nextOrder o = some w)
    (huo : u ≠ o) :
    (unlinkOrder (some o)).run s
      = .ok () ((((if s.firstOrder p = some o then
          ((s.putOrder u (.setNext (some w))).putOrder w
            (.setPrev (some u))).putLevel p (.setFirst (some w))
        else (s.putOrder u (.setNext (some w))).putOrder w
            (.setPrev (some u))).putOrder o (.setNext none)).putOrder o
          (.setPrev none))) := by
  by_cases hfirst : s.firstOrder p = some o
  · simp [unlinkOrder, hslot, hprev, hnext, huo, hfirst]
  · simp [unlinkOrder, hslot, hprev, hnext, huo, hfirst]

/-- Unlinking an order that is not alone at its level. -/
theorem unlinkOrder_middle {s : Ladder K} {lay : Layout} {o p : Ptr}
    {l r : List Ptr} (h : Laid s lay none) (hq : lay.queue p = l ++ o :: r)
    (hne : l ++ r ≠ [])
    (hslot : s.getOrdersAtPrice (s.resting o).price = some p) :
    ∃ s', (unlinkOrder (some o)).run s = .ok () s'
      ∧ Laid s' (lay.setQueue p (l ++ r)) (some o)
      ∧ s'.resting = s.resting ∧ s'.levelSide = s.levelSide
      ∧ s'.levelPrice = s.levelPrice := by
  have hring := h.queues.ring p
  rw [hq] at hring
  obtain ⟨w, m, hm, -, hnext, hprev⟩ := hring.exists_reading hne
  obtain ⟨u, hu⟩ : ∃ u, (w :: m).getLast (List.cons_ne_nil w m) = u :=
    ⟨_, rfl⟩
  rw [hu] at hprev
  obtain ⟨humem, hwmem, huo, hwo⟩ := hring.neighbours_mem hne hprev hnext
  have hmemq : ∀ y ∈ l ++ r, y ∈ lay.queue p := fun y hy => by
    rw [hq]
    simp only [List.mem_append, List.mem_cons] at hy ⊢
    tauto
  have ho : o ∉ l ++ r := by
    have hnd := hring.nodup
    rw [List.nodup_middle, List.nodup_cons] at hnd
    exact hnd.1
  have hlev : lay.HasLevel p :=
    h.queues.hasLevel_of_mem (o := o) (by rw [hq]; simp)
  have hfirst : s.firstOrder p = (l ++ o :: r).head? := by
    rw [h.queues.first p hlev, hq]
  refine ⟨_, run_unlinkOrder_middle hslot hprev hnext huo, ⟨?_, ?_⟩, ?_, ?_, ?_⟩
  · refine (LevelsLaid.putOrder (LevelsLaid.putOrder ?_ _ _) _ _).setQueue _ _
    split
    · exact ((h.levels.putOrder _ _).putOrder _ _).setFirst _ _
    · exact (h.levels.putOrder _ _).putOrder _ _
  · refine h.queues.replace hlev ?_ ?_ ?_ ?_ ?_ hne ?_ ?_ ?_ ?_
    · split
      · exact (((h.queues.pool.modify _ _).modify _ _).modify _ _).modify _ _
      · exact (((h.queues.pool.modify _ _).modify _ _).modify _ _).modify _ _
    · split <;> rfl
    · split <;> simp
    · intro q hqp
      split <;> simp [hqp]
    -- the level has another first order only if `o` was the first
    · cases l with
      | nil =>
          have hof : s.firstOrder p = some o := hfirst
          have hwr : (r.head?) = some w := by
            rw [List.append_nil] at hm
            rw [hm]
            rfl
          rw [if_pos hof]
          simp [hwr]
      | cons c l =>
          have hco : c ≠ o := fun heq => ho (by rw [heq]; simp)
          have hof : s.firstOrder p ≠ some o := by
            rw [hfirst]
            intro heq
            exact hco (Option.some.inj heq)
          rw [if_neg hof]
          simpa using hfirst
    · refine hring.remove hne hprev hnext ?_ ?_ ?_ ?_
      · intro y hy hyu
        have hyo : y ≠ o := fun heq => ho (heq ▸ hy)
        split <;> simp [hyo, hyu]
      · intro y hy hyw
        have hyo : y ≠ o := fun heq => ho (heq ▸ hy)
        split <;> simp [hyo, hyw]
      · split <;> simp [huo]
      · split <;> simp [hwo]
    · intro y hy _
      have hyu : y ≠ u := fun heq => hy (hmemq y (heq ▸ humem))
      have hyw : y ≠ w := fun heq => hy (hmemq y (heq ▸ hwmem))
      have hyo : y ≠ o := fun heq => hy (by rw [heq, hq]; simp)
      split <;> simp [hyu, hyw, hyo]
    · intro y
      rw [hq]
      simp only [List.mem_append, List.mem_cons, Option.some.injEq,
        reduceCtorEq, or_false]
      constructor
      · rintro ((hy | hy) | hy)
        · exact Or.inl hy
        · exact Or.inr (Or.inr hy)
        · exact Or.inr (Or.inl hy.symm)
      · intro h
        rcases h with hy | hy | hy
        · exact Or.inl (Or.inl hy)
        · exact Or.inr hy.symm
        · exact Or.inl (Or.inr hy)
    · intro y hy
      cases hy
      exact ho
  · funext q
    split <;> simp
  · split <;> simp
  · split <;> simp

-- ====================================================== the last order

section removeOrderAtPrice

variable {s : Ladder K} {b : Bool} {p : Ptr} {side : Side} {price : Price}

/-- The only level of its side. -/
theorem removeOrderAtPrice_alone {s₁ : Ladder K} (hside : side = sideOf b)
    (hslot : s.getOrdersAtPrice price = some p)
    (hnext : s.nextEntry p = some p)
    (hs₁ : s₁ = (s.putBest none b).putSlot (priceToIndex price) none) :
    (removeOrderAtPrice side price).run s
      = (deallocateLevel (some p)).run s₁ := by
  rw [hs₁]
  simp [removeOrderAtPrice, hside, hslot, hnext]

/-- A level between `u` and `v`. -/
theorem removeOrderAtPrice_middle {u v : Ptr} {s₁ : Ladder K}
    (hside : side = sideOf b) (hslot : s.getOrdersAtPrice price = some p)
    (hprev : s.prevEntry p = some u) (hnext : s.nextEntry p = some v)
    (hup : u ≠ p) (hvp : v ≠ p)
    (hs₁ : s₁ = ((((if s.best b = some p then
          ((s.putLevel u (.setNext (some v))).putLevel v
            (.setPrev (some u))).putBest (some v) b
        else (s.putLevel u (.setNext (some v))).putLevel v
            (.setPrev (some u))).putLevel p (.setNext none)).putLevel p
          (.setPrev none)).putSlot (priceToIndex price) none)) :
    (removeOrderAtPrice side price).run s
      = (deallocateLevel (some p)).run s₁ := by
  rw [hs₁]
  by_cases hbest : s.best b = some p
  · simp [removeOrderAtPrice, hside, hslot, hprev, hnext, hup.symm, hvp, hbest]
  · have hbest' : some p ≠ s.best b := fun heq => hbest heq.symm
    simp [removeOrderAtPrice, hside, hslot, hprev, hnext, hup.symm, hvp, hbest,
      hbest']

end removeOrderAtPrice

/-- The level ring after level `p` was taken out from between `l` and
`r` on side `b`; the level itself is still allocated. -/
structure LevelTakenOut (s s' : Ladder K) (b : Bool) (p : Ptr)
    (l r : List Ptr) : Prop where
  same : SameButLevelLinks s s'
  ring : IsRing s'.nextEntry s'.prevEntry (l ++ r)
  head : ∀ c, s'.best c = if c = b then (l ++ r).head? else s.best c
  slots : ∀ i, s'.priceOrdersAtPrice i
    = if i = priceToIndex (s.levelPrice p) then none
      else s.priceOrdersAtPrice i
  frame : ∀ y, y ∉ l ++ p :: r →
    s'.nextEntry y = s.nextEntry y ∧ s'.prevEntry y = s.prevEntry y

/-- `removeOrderAtPrice` takes the level out of its ring and gives its
block back. -/
theorem removeOrderAtPrice_spec {s : Ladder K} {b : Bool} {p : Ptr}
    {l r : List Ptr} (hring : IsRing s.nextEntry s.prevEntry (l ++ p :: r))
    (hhead : s.best b = (l ++ p :: r).head?)
    (hslot : s.getOrdersAtPrice (s.levelPrice p) = some p) :
    ∃ s₁, (removeOrderAtPrice (sideOf b) (s.levelPrice p)).run s
        = (deallocateLevel (some p)).run s₁
      ∧ LevelTakenOut s s₁ b p l r := by
  have hp : p ∉ l ++ r := by
    have hnd := hring.nodup
    rw [List.nodup_middle, List.nodup_cons] at hnd
    exact hnd.1
  -- the only level of its side has no neighbours to be joined
  by_cases hne : l ++ r = []
  · obtain ⟨rfl, rfl⟩ := List.append_eq_nil_iff.1 hne
    refine ⟨_, removeOrderAtPrice_alone rfl hslot hring.next_getLast rfl, ?_⟩
    exact
      { same := ((SameButLevelLinks.refl s).putBest _ _).putSlot _ _
        ring := isRing_nil
        head := fun c => by simp
        slots := fun i => by simp
        frame := fun y hy => by simp }
  · obtain ⟨v, m, hm, -, hnext, hprev⟩ := hring.exists_reading hne
    obtain ⟨u, hu⟩ : ∃ u, (v :: m).getLast (List.cons_ne_nil v m) = u :=
      ⟨_, rfl⟩
    rw [hu] at hprev
    obtain ⟨humem, hvmem, hup, hvp⟩ := hring.neighbours_mem hne hprev hnext
    refine ⟨_, removeOrderAtPrice_middle rfl hslot hprev hnext hup hvp rfl, ?_⟩
    have hmem : ∀ y ∈ l ++ r, y ∈ l ++ p :: r := fun y hy => by
      simp only [List.mem_append, List.mem_cons] at hy ⊢
      tauto
    refine
      { same := ?_
        ring := ?_
        head := ?_
        slots := ?_
        frame := ?_ }
    · refine ((SameButLevelLinks.setNext ?_ _ _).setPrev _ _).putSlot _ _
      split
      · exact (((SameButLevelLinks.refl s).setNext _ _).setPrev _ _).putBest _ _
      · exact ((SameButLevelLinks.refl s).setNext _ _).setPrev _ _
    · refine hring.remove hne hprev hnext ?_ ?_ ?_ ?_
      · intro y hy hyu
        have hyp : y ≠ p := fun heq => hp (heq ▸ hy)
        split <;> simp [hyp, hyu]
      · intro y hy hyv
        have hyp : y ≠ p := fun heq => hp (heq ▸ hy)
        split <;> simp [hyp, hyv]
      · split <;> simp [hup]
      · split <;> simp [hvp]
    · intro c
      cases l with
      | nil =>
          have hbest : s.best b = some p := hhead
          have hvr : r.head? = some v := by
            rw [List.append_nil] at hm
            rw [hm]
            rfl
          rw [if_pos hbest]
          simp [hvr]
      | cons a l =>
          have hap : a ≠ p := fun heq => hp (by rw [heq]; simp)
          have hbest : s.best b ≠ some p := by
            rw [hhead]
            intro heq
            exact hap (Option.some.inj heq)
          rw [if_neg hbest]
          by_cases hcb : c = b
          · simpa [hcb] using hhead
          · simp [hcb]
    · intro i
      split <;> simp
    · intro y hy
      have hyu : y ≠ u := fun heq => hy (hmem y (heq ▸ humem))
      have hyv : y ≠ v := fun heq => hy (hmem y (heq ▸ hvmem))
      have hyp : y ≠ p := fun heq => hy (by rw [heq]; simp)
      split <;> simp [hyu, hyv, hyp]

/-- The levels once one was taken out. -/
theorem LevelsLaid.takeOut {s s₁ s' : Ladder K} {lay : Layout} {b : Bool}
    {p : Ptr} {l r : List Ptr} (h : LevelsLaid s lay)
    (hsplit : lay.levels b = l ++ p :: r) (hout : LevelTakenOut s s₁ b p l r)
    (hrel : LevelReleased s₁ s' p) :
    LevelsLaid s' (lay.setLevels b (l ++ r))
      ∧ (∀ q, (lay.setLevels b (l ++ r)).HasLevel q
          ↔ q ≠ p ∧ lay.HasLevel q) := by
  have hpb : p ∈ lay.levels b := by
    rw [hsplit]
    simp
  have hp : p ∉ l ++ r := by
    have hnd := (h.ring b).nodup
    rw [hsplit, List.nodup_middle, List.nodup_cons] at hnd
    exact hnd.1
  have hmem : ∀ q, q ∈ l ++ r ↔ q ≠ p ∧ q ∈ lay.levels b := fun q => by
    rw [hsplit]
    constructor
    · intro hq
      refine ⟨fun heq => hp (heq ▸ hq), ?_⟩
      simp only [List.mem_append, List.mem_cons] at hq ⊢
      tauto
    · intro h
      obtain ⟨hqp, hq⟩ := h
      simp only [List.mem_append, List.mem_cons] at hq ⊢
      tauto
  have hhas : ∀ q, (lay.setLevels b (l ++ r)).HasLevel q
      ↔ q ≠ p ∧ lay.HasLevel q := fun q => by
    constructor
    · intro h
      obtain ⟨c, hc⟩ := h
      rw [Layout.setLevels_levels] at hc
      split at hc
      · exact ⟨((hmem q).1 hc).1, b, ((hmem q).1 hc).2⟩
      · next hcb =>
          exact ⟨fun heq => hcb (h.side_unique (heq ▸ hc) hpb), c, hc⟩
    · intro h
      obtain ⟨hqp, c, hc⟩ := h
      refine ⟨c, ?_⟩
      rw [Layout.setLevels_levels]
      split
      · next hcb => exact (hmem q).2 ⟨hqp, hcb ▸ hc⟩
      · exact hc
  have hnext : s'.nextEntry = s₁.nextEntry := by
    funext q
    exact congrArg OrdersAtPrice.nextEntry (congrFun hrel.levelPool.deref q)
  have hprev : s'.prevEntry = s₁.prevEntry := by
    funext q
    exact congrArg OrdersAtPrice.prevEntry (congrFun hrel.levelPool.deref q)
  have hsides : s'.levelSide = s.levelSide := by
    rw [← hout.same.levelSide]
    funext q
    exact congrArg OrdersAtPrice.side (congrFun hrel.levelPool.deref q)
  have hprices : s'.levelPrice = s.levelPrice := by
    rw [← hout.same.levelPrice]
    funext q
    exact congrArg OrdersAtPrice.price (congrFun hrel.levelPool.deref q)
  have hsub : ∀ c, ((lay.setLevels b (l ++ r)).levels c).Sublist
      (lay.levels c) := fun c => by
    rw [Layout.setLevels_levels]
    split
    · next hcb =>
        rw [hcb, hsplit]
        exact (List.Sublist.refl l).append (List.sublist_cons_self p r)
    · exact List.Sublist.refl _
  refine ⟨?_, hhas⟩
  refine
    { pool := hrel.levelPool.ok
      size := by rw [hrel.levelPool.size, hout.same.size, h.size]
      head := ?_
      ring := ?_
      sorted := fun c => by
        rw [hprices]
        exact (h.sorted c).sublist (hsub c)
      side := fun c q hq => by
        rw [hsides]
        exact h.side c q ((hsub c).subset hq)
      slot := ?_
      slots := ?_
      used := ?_ }
  · intro c
    rw [hrel.best, hout.head, Layout.setLevels_levels]
    split
    · rfl
    · exact h.head c
  · intro c
    rw [hnext, hprev, Layout.setLevels_levels]
    split
    · exact hout.ring
    · next hcb =>
        refine (h.ring c).congr (fun y hy => ?_) (fun y hy => ?_)
        · refine (hout.frame y fun hyl => ?_).1
          exact hcb (h.side_unique hy (hsplit ▸ hyl))
        · refine (hout.frame y fun hyl => ?_).2
          exact hcb (h.side_unique hy (hsplit ▸ hyl))
  -- the slot that was emptied was no other level's
  · intro c q hq
    obtain ⟨hqp, hlev⟩ := (hhas q).1 ⟨c, hq⟩
    rw [hprices, hrel.slots, hout.slots, if_neg]
    · exact h.slot_price hlev
    · intro heq
      exact hqp (h.eq_of_index hlev ⟨b, hpb⟩ heq)
  · intro i q hq
    rw [hrel.slots, hout.slots] at hq
    split at hq
    · cases hq
    · next hi =>
        obtain ⟨hlev, hidx⟩ := h.slots i q hq
        rw [hhas, hprices]
        exact ⟨⟨fun heq => hi (by rw [← hidx, heq]), hlev⟩, hidx⟩
  · intro q
    rw [hhas]
    refine (hrel.levelPool.used q).trans (and_congr_right fun _ => ?_)
    rw [← h.used]
    exact iff_of_eq (congrArg (· = true) (congrFun hout.same.levelUsed q))

/-- The queues once the level of a single order went. -/
theorem QueuesLaid.dropLevel {s s' : Ladder K} {lay lay' : Layout} {o p : Ptr}
    (h : QueuesLaid s lay none) (hq : lay.queue p = [o])
    (hpool : s'.orderPool = s.orderPool)
    (hfirst : s'.firstOrder = s.firstOrder)
    (hlevels : ∀ q, lay'.HasLevel q ↔ q ≠ p ∧ lay.HasLevel q)
    (hqueue : ∀ q, lay'.queue q = if q = p then [] else lay.queue q) :
    QueuesLaid s' lay' (some o) := by
  have hnext : s'.nextOrder = s.nextOrder := by
    funext q; simp only [nextOrder, order, hpool]
  have hprev : s'.prevOrder = s.prevOrder := by
    funext q; simp only [prevOrder, order, hpool]
  have hused : s'.orderUsed = s.orderUsed := by
    funext q; simp only [orderUsed, hpool]
  have hmem : ∀ q y, y ∈ lay'.queue q → q ≠ p ∧ y ∈ lay.queue q := by
    intro q y hy
    rw [hqueue] at hy
    split at hy
    · cases hy
    · next hqp => exact ⟨hqp, hy⟩
  have horder : ∀ y, lay'.HasOrder y ↔ y ≠ o ∧ lay.HasOrder y := fun y => by
    constructor
    · intro h
      obtain ⟨q, hy⟩ := h
      obtain ⟨hqp, hyq⟩ := hmem q y hy
      refine ⟨fun heq => hqp ?_, q, hyq⟩
      refine h.unique q p y hyq ?_
      rw [hq, heq]
      exact List.mem_singleton_self o
    · intro h
      obtain ⟨hyo, q, hy⟩ := h
      refine ⟨q, ?_⟩
      rw [hqueue]
      split
      · next hqp =>
          rw [hqp, hq] at hy
          exact absurd (List.mem_singleton.1 hy) hyo
      · exact hy
  have ho : lay.HasOrder o := ⟨p, by rw [hq]; exact List.mem_singleton_self o⟩
  refine
    { pool := by rw [hpool]; exact h.pool
      size := by rw [hpool]; exact h.size
      first := ?_
      nonempty := ?_
      ring := ?_
      unique := ?_
      level := ?_
      used := ?_
      loose := ?_ }
  · intro q hlev
    obtain ⟨hqp, hlev⟩ := (hlevels q).1 hlev
    rw [hfirst, hqueue, if_neg hqp]
    exact h.first q hlev
  · intro q hlev
    obtain ⟨hqp, hlev⟩ := (hlevels q).1 hlev
    rw [hqueue, if_neg hqp]
    exact h.nonempty q hlev
  · intro q
    rw [hnext, hprev, hqueue]
    split
    · exact isRing_nil
    · exact h.ring q
  · intro q r y hyq hyr
    exact h.unique q r y (hmem q y hyq).2 (hmem r y hyr).2
  · intro q hne
    rw [hqueue] at hne
    split at hne
    · exact absurd rfl hne
    · next hqp => exact (hlevels q).2 ⟨hqp, h.level q hne⟩
  · intro y
    rw [hused, h.used, horder]
    constructor
    · intro h
      rcases h with hy | hy
      -- `o` is still allocated, but in no queue
      · by_cases hyo : y = o
        · exact Or.inr (by rw [hyo])
        · exact Or.inl ⟨hyo, hy⟩
      · cases hy
    · intro h
      rcases h with ⟨-, hy⟩ | hy
      · exact Or.inl hy
      · exact Or.inl (Option.some.inj hy ▸ ho)
  · intro y hy
    rw [horder]
    exact fun hyo => hyo.1 (Option.some.inj hy).symm

/-- Unlinking an order that is alone at its level. -/
theorem unlinkOrder_last {s : Ladder K} {lay : Layout} {o p : Ptr} {b : Bool}
    {l r : List Ptr} (h : Laid s lay none) (hsplit : lay.levels b = l ++ p :: r)
    (hq : lay.queue p = [o]) (hside : (s.resting o).side = sideOf b)
    (hprice : (s.resting o).price = s.levelPrice p) :
    ∃ s', (unlinkOrder (some o)).run s = .ok () s'
      ∧ Laid s' ((lay.setLevels b (l ++ r)).setQueue p []) (some o)
      ∧ s'.resting = s.resting ∧ s'.levelSide = s.levelSide
      ∧ s'.levelPrice = s.levelPrice := by
  have hpb : p ∈ lay.levels b := by
    rw [hsplit]
    simp
  have hprev : s.prevOrder o = some o := by
    have hring := h.queues.ring p
    rw [hq] at hring
    exact hring.prev_head
  have hrun : (unlinkOrder (some o)).run s
      = (removeOrderAtPrice (sideOf b) (s.levelPrice p)).run s := by
    simp [unlinkOrder, hprev, hside, hprice]
  have hring := h.levels.ring b
  have hhead := h.levels.head b
  rw [hsplit] at hring hhead
  obtain ⟨s₁, hrun₁, hout⟩ := removeOrderAtPrice_spec hring hhead
    (h.levels.slot_price ⟨b, hpb⟩)
  have hused : s₁.levelUsed p = true := by
    rw [hout.same.levelUsed]
    exact (h.levels.used p).2 ⟨b, hpb⟩
  obtain ⟨s', hrun', hrel⟩ := deallocateLevel_ok (hout.same.pool h.levels.pool)
    hused
  obtain ⟨hlaid, hhas⟩ := h.levels.takeOut hsplit hout hrel
  have hpool : s'.orderPool = s.orderPool :=
    hrel.orderPool.trans hout.same.orderPool
  refine ⟨s', by rw [hrun, hrun₁, hrun'], ⟨hlaid.setQueue _ _, ?_⟩, ?_, ?_, ?_⟩
  · refine h.queues.dropLevel hq hpool ?_ hhas (fun q => rfl)
    rw [← hout.same.firstOrder]
    funext q
    exact congrArg OrdersAtPrice.firstOrder (congrFun hrel.levelPool.deref q)
  · funext q
    simp only [resting, order, hpool]
  · rw [← hout.same.levelSide]
    funext q
    exact congrArg OrdersAtPrice.side (congrFun hrel.levelPool.deref q)
  · rw [← hout.same.levelPrice]
    funext q
    exact congrArg OrdersAtPrice.price (congrFun hrel.levelPool.deref q)

end Ladder

end ElectronicTrading
