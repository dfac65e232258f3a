/-
A ladder as the lists of its orders: for each side the orders of its
levels, best level first and oldest order first inside a level
(`Layout.orders`).

This is the reading the books' functions are verified against. `Booked`
packs the layout with the fact that every order is at a level of its
own side and price, and each operation is stated by what it does to the
order lists and to the orders' data (`resting`):

- `allocateOrder_spec`, `deallocateOrder_spec`: nothing, but for the one
  loose order;
- `linkOrder_spec`: the loose order goes in behind every order that is
  not worse and before every order that is;
- `unlinkOrder_spec`: the order goes out;
- `setQuantity_spec`: one quantity changes.

`linkOrder_spec` alone needs an assumption about prices: the orders
whose prices share the new order's slot have its side and price.
-/
import ElectronicTrading.Common.Proofs.Link
import ElectronicTrading.Common.Proofs.Unlink

namespace ElectronicTrading

open LinkedRing

/-- The orders of one side in their priority. -/
def Layout.orders (lay : Layout) (b : Bool) : List Ptr :=
  (lay.levels b).flatMap lay.queue

/-- Levels other than the one that is set keep their orders. -/
theorem Layout.flatMap_setQueue (lay : Layout) {p : Ptr} {ps : List Ptr}
    (hp : p ∉ ps) (l : List Ptr) :
    ps.flatMap (lay.setQueue p l).queue = ps.flatMap lay.queue := by
  refine List.flatMap_congr fun q hq => ?_
  rw [Layout.setQueue_queue, if_neg (fun heq : q = p => hp (heq ▸ hq))]

namespace Ladder

variable {K : Type}

/-- A laid-out ladder whose orders are all at levels of their own side
and price. -/
structure Booked (s : Ladder K) (lay : Layout) (loose : Option Ptr) :
    Prop where
  laid : Laid s lay loose
  matched : Matched s lay

section Booked

variable {s : Ladder K} {lay : Layout} {loose : Option Ptr}

-- ======================================================= the order lists

/-- The order lists hold exactly the queued orders. -/
theorem Laid.hasOrder_iff (h : Laid s lay loose) (o : Ptr) :
    lay.HasOrder o ↔ ∃ b, o ∈ lay.orders b := by
  constructor
  · intro h
    obtain ⟨p, hp⟩ := h
    obtain ⟨b, hb⟩ := h.queues.hasLevel_of_mem hp
    exact ⟨b, List.mem_flatMap.2 ⟨p, hb, hp⟩⟩
  · intro h
    obtain ⟨b, hb⟩ := h
    obtain ⟨p, -, hp⟩ := List.mem_flatMap.1 hb
    exact ⟨p, hp⟩

/-- An order's level, from its list. -/
theorem mem_orders {b : Bool} {o : Ptr} (ho : o ∈ lay.orders b) :
    ∃ p ∈ lay.levels b, o ∈ lay.queue p := List.mem_flatMap.1 ho

/-- No order stands twice in its side's list. -/
theorem Laid.orders_nodup (h : Laid s lay loose) (b : Bool) :
    (lay.orders b).Nodup := by
  unfold Layout.orders
  rw [List.nodup_flatMap]
  refine ⟨fun p _ => (h.queues.ring p).nodup, ?_⟩
  refine (h.levels.ring b).nodup.imp fun {p q} hpq o hp hq => ?_
  exact hpq (h.queues.unique p q o hp hq)

/-- An order of a side's list has that side. -/
theorem Booked.side (h : Booked s lay loose) {b : Bool} {o : Ptr}
    (ho : o ∈ lay.orders b) : (s.resting o).side = sideOf b := by
  obtain ⟨p, hp, hop⟩ := mem_orders ho
  rw [(h.matched p o hop).1]
  exact h.laid.levels.side b p hp

/-- No order is in both lists. -/
theorem Booked.orders_disjoint (h : Booked s lay loose) {b c : Bool} {o : Ptr}
    (hb : o ∈ lay.orders b) (hc : o ∈ lay.orders c) : b = c :=
  sideOf_injective ((h.side hb).symm.trans (h.side hc))

/-- The slot of a queued order's price is its level. -/
theorem Booked.slot (h : Booked s lay loose) {p o : Ptr}
    (ho : o ∈ lay.queue p) :
    s.getOrdersAtPrice (s.resting o).price = some p := by
  rw [(h.matched p o ho).2]
  exact h.laid.levels.slot_price (h.laid.queues.hasLevel_of_mem ho)

/-- The lists are sorted, best price first. -/
theorem Booked.sorted (h : Booked s lay loose) (b : Bool) :
    (lay.orders b).Pairwise fun o o' =>
      ¬ Better b (s.resting o').price (s.resting o).price := by
  unfold Layout.orders
  rw [List.pairwise_flatMap]
  constructor
  · intro p _
    refine List.pairwise_of_forall_mem_list fun o ho o' ho' => ?_
    rw [(h.matched p o ho).2, (h.matched p o' ho').2]
    intro hb
    exact hb.ne rfl
  · refine (h.laid.levels.sorted b).imp fun {p q} hpq o ho o' ho' => ?_
    rw [(h.matched p o ho).2, (h.matched q o' ho').2]
    exact hpq.asymm

/-- The first order of a side is the one the code reads through the
best level. -/
theorem Laid.head_cases (h : Laid s lay loose) (b : Bool) :
    (s.best b = none ∧ lay.orders b = [])
      ∨ ∃ p o rest, s.best b = some p ∧ s.firstOrder p = some o
        ∧ lay.orders b = o :: rest ∧ p ∈ lay.levels b ∧ o ∈ lay.queue p := by
  have hhead := h.levels.head b
  unfold Layout.orders
  cases hl : lay.levels b with
  | nil =>
      rw [hl] at hhead
      exact Or.inl ⟨hhead, rfl⟩
  | cons p l =>
      rw [hl] at hhead
      have hpb : p ∈ lay.levels b := by
        rw [hl]
        exact List.mem_cons_self ..
      have hlev : lay.HasLevel p := ⟨b, hpb⟩
      obtain ⟨o, q, hq⟩ := List.exists_cons_of_ne_nil
        (h.queues.nonempty p hlev)
      have hfirst := h.queues.first p hlev
      rw [hq] at hfirst
      refine Or.inr ⟨p, o, q ++ l.flatMap lay.queue, hhead, hfirst, ?_,
        List.mem_cons_self .., ?_⟩
      · rw [List.flatMap_cons, hq]
        rfl
      · rw [hq]
        exact List.mem_cons_self ..

-- ============================================================ congruence

/-- What a booked ladder's orders and levels are does not depend on the
loose order. -/
theorem Matched.congr {s' : Ladder K} {lay' : Layout} (h : Matched s lay)
    (hqueue : ∀ p o, o ∈ lay'.queue p → o ∈ lay.queue p)
    (hrest : ∀ p o, o ∈ lay'.queue p →
      (s'.resting o).side = (s.resting o).side
        ∧ (s'.resting o).price = (s.resting o).price)
    (hside : s'.levelSide = s.levelSide)
    (hprice : s'.levelPrice = s.levelPrice) : Matched s' lay' := by
  intro p o ho
  obtain ⟨h1, h2⟩ := hrest p o ho
  rw [h1, h2, hside, hprice]
  exact h p o (hqueue p o ho)

-- ============================================================ quantities

/-- Changing a queued order's quantity. -/
theorem setQuantity_spec (h : Booked s lay loose) (o : Ptr) (n : Quantity) :
    Booked (s.putOrder o (.setQuantity n)) lay loose := by
  have hnext : ∀ p, IsRing (s.putOrder o (.setQuantity n)).nextOrder
      (s.putOrder o (.setQuantity n)).prevOrder (lay.queue p) := fun p =>
    (h.laid.queues.ring p).congr (fun q _ => setQuantity_nextOrder s o q n)
      (fun q _ => setQuantity_prevOrder s o q n)
  refine ⟨⟨h.laid.levels.putOrder _ _, ?_⟩, ?_⟩
  · exact
      { pool := h.laid.queues.pool.modify _ _
        size := h.laid.queues.size
        first := h.laid.queues.first
        nonempty := h.laid.queues.nonempty
        ring := hnext
        unique := h.laid.queues.unique
        level := h.laid.queues.level
        used := fun q => by
          rw [putOrder_orderUsed]
          exact h.laid.queues.used q
        loose := h.laid.queues.loose }
  · refine h.matched.congr (fun _ _ ho => ho) (fun p q _ => ?_) rfl rfl
    rw [setQuantity_resting]
    split
    · next heq => rw [heq]; exact ⟨rfl, rfl⟩
    · exact ⟨rfl, rfl⟩

-- ============================================================== the pool

/-- Allocating an order leaves it loose, unless all blocks but one are
queued. -/
theorem allocateOrder_spec (h : Booked s lay none) (v : Order K) :
    (∃ s' o, (allocateOrder v).run s = .ok (some o) s'
        ∧ Booked s' lay (some o) ∧ ¬ lay.HasOrder o
        ∧ (∀ q, s'.order q = if q = o then v else s.order q)
        ∧ s'.levelPrice = s.levelPrice ∧ s'.levelSide = s.levelSide
        ∧ s'.priceOrdersAtPrice = s.priceOrdersAtPrice)
      ∨ ((∃ s', (allocateOrder v).run s = .error .poolOutOfSpace s')
        ∧ matchingEngineMaxOrderIds
            ≤ (lay.orders true ++ lay.orders false).length + 1) := by
  rcases allocateOrder_cases h.laid.queues.pool v with
    ⟨s', hrun, hs'⟩ | ⟨herr, hfull⟩
  · left
    generalize s.orderPool.nextFreeIndex = o at hrun hs'
    have ho : ¬ lay.HasOrder o := fun hlev => by
      have hused := (h.laid.queues.used o).2 (Or.inl hlev)
      unfold orderUsed at hused
      rw [hs'.orderPool.free] at hused
      cases hused
    have hlevel : s'.level = s.level := by
      unfold level
      rw [hs'.levelPool]
    have horder : ∀ q, s'.order q = if q = o then v else s.order q :=
      hs'.orderPool.deref
    have hkeep : ∀ p, ∀ q ∈ lay.queue p, s'.order q = s.order q :=
      fun p q hq => by
        rw [horder, if_neg (fun heq : q = o => ho ⟨p, heq ▸ hq⟩)]
    have hside : s'.levelSide = s.levelSide := by
      unfold levelSide
      rw [hlevel]
    have hprice : s'.levelPrice = s.levelPrice := by
      unfold levelPrice
      rw [hlevel]
    refine ⟨s', o, hrun, ⟨⟨?_, ?_⟩, ?_⟩, ho, horder, hprice, hside, hs'.slots⟩
    · exact h.laid.levels.of_pool hs'.levelPool hs'.best hs'.slots
    · exact
        { pool := hs'.orderPool.ok
          size := hs'.orderPool.size.trans h.laid.queues.size
          first := fun p hp => by
            unfold firstOrder
            rw [hlevel]
            exact h.laid.queues.first p hp
          nonempty := h.laid.queues.nonempty
          ring := fun p => (h.laid.queues.ring p).congr
            (fun q hq => by unfold nextOrder; rw [hkeep p q hq])
            (fun q hq => by unfold prevOrder; rw [hkeep p q hq])
          unique := h.laid.queues.unique
          level := h.laid.queues.level
          used := fun q => by
            refine (hs'.orderPool.used q).trans ?_
            have hused := h.laid.queues.used q
            unfold orderUsed at hused
            rw [hused]
            simp only [reduceCtorEq, or_false, Option.some.injEq]
            rw [or_comm, eq_comm]
          loose := fun q hq => by
            cases hq
            exact ho }
    · refine h.matched.congr (fun _ _ hq => hq) (fun p q hq => ?_) hside hprice
      unfold resting
      rw [hkeep p q hq]
      exact ⟨rfl, rfl⟩
  · right
    refine ⟨herr, ?_⟩
    by_contra hlen
    obtain ⟨p, hp, hcur, hfree⟩ := MemPool.exists_free (m := s.orderPool)
      (l := lay.orders true ++ lay.orders false)
      (fun p hp => by
        have horder := (h.laid.queues.used p).1 hp
        simp only [reduceCtorEq, or_false] at horder
        obtain ⟨c, hc⟩ := (h.laid.hasOrder_iff p).1 horder
        cases c
        · exact List.mem_append_right _ hc
        · exact List.mem_append_left _ hc)
      (by rw [h.laid.queues.size]; omega)
    have hused := hfull p hp hcur
    unfold orderUsed at hused
    rw [hfree] at hused
    cases hused

/-- Releasing the loose order. -/
theorem deallocateOrder_spec {o : Ptr} (h : Booked s lay (some o)) :
    ∃ s', (deallocateOrder (some o)).run s = .ok () s' ∧ Booked s' lay none
      ∧ s'.resting = s.resting ∧ s'.levelPrice = s.levelPrice
      ∧ s'.priceOrdersAtPrice = s.priceOrdersAtPrice := by
  have hused := (h.laid.queues.used o).2 (Or.inr rfl)
  obtain ⟨s', hrun, hs'⟩ := deallocateOrder_ok h.laid.queues.pool hused
  have hlevel : s'.level = s.level := by
    unfold level
    rw [hs'.levelPool]
  have horder : s'.order = s.order := hs'.orderPool.deref
  have hrest : s'.resting = s.resting := by
    funext q
    unfold resting
    rw [horder]
  have hside : s'.levelSide = s.levelSide := by
    unfold levelSide
    rw [hlevel]
  have hprice : s'.levelPrice = s.levelPrice := by
    unfold levelPrice
    rw [hlevel]
  refine ⟨s', hrun, ⟨⟨?_, ?_⟩, ?_⟩, hrest, hprice, hs'.slots⟩
  · exact h.laid.levels.of_pool hs'.levelPool hs'.best hs'.slots
  · exact
      { pool := hs'.orderPool.ok
        size := hs'.orderPool.size.trans h.laid.queues.size
        first := fun p hp => by
          unfold firstOrder
          rw [hlevel]
          exact h.laid.queues.first p hp
        nonempty := h.laid.queues.nonempty
        ring := fun p => (h.laid.queues.ring p).congr
          (fun q _ => by unfold nextOrder; rw [horder])
          (fun q _ => by unfold prevOrder; rw [horder])
        unique := h.laid.queues.unique
        level := h.laid.queues.level
        used := fun q => by
          refine (hs'.orderPool.used q).trans ?_
          have husedq := h.laid.queues.used q
          unfold orderUsed at husedq
          rw [husedq]
          constructor
          · intro h
            obtain ⟨hqo, hq | hq⟩ := h
            · exact Or.inl hq
            · exact absurd (Option.some.inj hq).symm hqo
          · intro h
            rcases h with hq | hq
            · exact ⟨fun heq => h.laid.queues.loose o rfl (heq ▸ hq),
                Or.inl hq⟩
            · cases hq
        loose := fun q hq => by cases hq }
  · refine h.matched.congr (fun _ _ hq => hq) (fun p q _ => ?_) hside hprice
    rw [hrest]
    exact ⟨rfl, rfl⟩

-- ===================================================== linking an order

/-- Where a new order goes: behind the orders that are not worse, before
the worse ones. -/
structure OrderPutIn (s : Ladder K) (lay lay' : Layout) (b : Bool) (o : Ptr)
    (l r : List Ptr) : Prop where
  before : lay.orders b = l ++ r
  after : lay'.orders b = l ++ o :: r
  notWorse : ∀ q ∈ l,
    ¬ Better b (s.resting o).price (s.resting q).price
  worse : ∀ q ∈ r, Better b (s.resting o).price (s.resting q).price
  other : ∀ c, c ≠ b → lay'.orders c = lay.orders c

/-- The lists when level `p` got `o` at its tail. -/
theorem Booked.orderPutIn_append {o p : Ptr} {b : Bool}
    (h : Booked s lay (some o)) (hp : p ∈ lay.levels b)
    (hprice : (s.resting o).price = s.levelPrice p) :
    ∃ l r, OrderPutIn s lay (lay.setQueue p (lay.queue p ++ [o])) b o l r := by
  obtain ⟨l, r, hsplit⟩ := List.append_of_mem hp
  have hnd := (h.laid.levels.ring b).nodup
  have hsorted := h.laid.levels.sorted b
  rw [hsplit] at hnd hsorted
  rw [List.nodup_middle, List.nodup_cons, List.mem_append, not_or] at hnd
  rw [List.pairwise_append, List.pairwise_cons] at hsorted
  obtain ⟨-, ⟨hr, -⟩, hl⟩ := hsorted
  have hkeep : ∀ ps : List Ptr, p ∉ ps →
      ps.flatMap (lay.setQueue p (lay.queue p ++ [o])).queue
        = ps.flatMap lay.queue := fun ps hps => Layout.flatMap_setQueue _ hps _
  refine ⟨l.flatMap lay.queue ++ lay.queue p, r.flatMap lay.queue, ?_⟩
  refine
    { before := ?_
      after := ?_
      notWorse := ?_
      worse := ?_
      other := ?_ }
  · unfold Layout.orders
    rw [hsplit, List.flatMap_append, List.flatMap_cons, List.append_assoc]
  · unfold Layout.orders
    rw [Layout.setQueue_levels, hsplit, List.flatMap_append, List.flatMap_cons,
      hkeep l hnd.1.1, hkeep r hnd.1.2, Layout.setQueue_queue, if_pos rfl]
    simp
  · intro q hq
    rw [hprice]
    rcases List.mem_append.1 hq with hq | hq
    · obtain ⟨p', hp', hqp⟩ := List.mem_flatMap.1 hq
      rw [(h.matched p' q hqp).2]
      exact (hl p' hp' p (List.mem_cons_self ..)).asymm
    · rw [(h.matched p q hq).2]
      intro hb
      exact hb.ne rfl
  · intro q hq
    obtain ⟨p', hp', hqp⟩ := List.mem_flatMap.1 hq
    rw [hprice, (h.matched p' q hqp).2]
    exact hr p' hp'
  · intro c hcb
    refine hkeep (lay.levels c) fun hc => hcb ?_
    exact h.laid.levels.side_unique hc hp

/-- The lists when a new level `x` was made for `o`. -/
theorem Booked.orderPutIn_newLevel {o x : Ptr} {b : Bool} {l r : List Ptr}
    {s' : Ladder K} (h : Booked s lay (some o)) (hx : ¬ lay.HasLevel x)
    (hsplit : lay.levels b = l ++ r)
    (hlaid : Laid s' ((lay.setLevels b (l ++ x :: r)).setQueue x [o]) none)
    (hprice : ∀ p, s'.levelPrice p
      = if p = x then (s.resting o).price else s.levelPrice p) :
    OrderPutIn s lay ((lay.setLevels b (l ++ x :: r)).setQueue x [o]) b o
      (l.flatMap lay.queue) (r.flatMap lay.queue) := by
  have hxl : x ∉ l := fun hp =>
    hx ⟨b, by rw [hsplit]; exact List.mem_append_left _ hp⟩
  have hxr : x ∉ r := fun hp =>
    hx ⟨b, by rw [hsplit]; exact List.mem_append_right _ hp⟩
  have hsorted := hlaid.levels.sorted b
  rw [Layout.setQueue_levels, Layout.setLevels_levels, if_pos rfl,
    List.pairwise_append, List.pairwise_cons] at hsorted
  obtain ⟨-, ⟨hr, -⟩, hl⟩ := hsorted
  have hkeep : ∀ ps : List Ptr, x ∉ ps →
      ps.flatMap ((lay.setLevels b (l ++ x :: r)).setQueue x [o]).queue
        = ps.flatMap lay.queue := fun ps hps =>
    Layout.flatMap_setQueue (lay.setLevels b (l ++ x :: r)) hps _
  refine
    { before := ?_
      after := ?_
      notWorse := ?_
      worse := ?_
      other := ?_ }
  · unfold Layout.orders
    rw [hsplit, List.flatMap_append]
  · unfold Layout.orders
    rw [Layout.setQueue_levels, Layout.setLevels_levels, if_pos rfl,
      List.flatMap_append, List.flatMap_cons, hkeep l hxl, hkeep r hxr,
      Layout.setQueue_queue, if_pos rfl]
    rfl
  · intro q hq
    obtain ⟨p, hp, hqp⟩ := List.mem_flatMap.1 hq
    have hbetter := hl p hp x (List.mem_cons_self ..)
    rw [hprice, hprice, if_neg (fun heq : p = x => hxl (heq ▸ hp)),
      if_pos rfl] at hbetter
    rw [(h.matched p q hqp).2]
    exact hbetter.asymm
  · intro q hq
    obtain ⟨p, hp, hqp⟩ := List.mem_flatMap.1 hq
    have hbetter := hr p hp
    rw [hprice, hprice, if_neg (fun heq : p = x => hxr (heq ▸ hp)),
      if_pos rfl] at hbetter
    rw [(h.matched p q hqp).2]
    exact hbetter
  · intro c hcb
    unfold Layout.orders
    rw [Layout.setQueue_levels, Layout.setLevels_levels, if_neg hcb]
    exact hkeep _ fun hp => hx ⟨c, hp⟩

/-- Linking the loose order, when the orders whose prices share its slot
have its side and price. It fails only when a new level is needed and
all blocks but one are levels. -/
theorem linkOrder_spec {o : Ptr} {b : Bool} (h : Booked s lay (some o))
    (hside : (s.resting o).side = sideOf b)
    (hfree : ∀ c, ∀ q ∈ lay.orders c,
      priceToIndex (s.resting q).price = priceToIndex (s.resting o).price →
        c = b ∧ (s.resting q).price = (s.resting o).price) :
    (∃ s' lay' l r, (linkOrder (some o)).run s = .ok () s'
        ∧ Booked s' lay' none ∧ s'.resting = s.resting
        ∧ OrderPutIn s lay lay' b o l r)
      ∨ ((∃ s', (linkOrder (some o)).run s = .error .poolOutOfSpace s')
        ∧ (∀ c, ∀ q ∈ lay.orders c,
            (s.resting q).price ≠ (s.resting o).price)
        ∧ matchingEngineMaxPriceLevels
            ≤ (lay.levels true ++ lay.levels false).length + 1) := by
  cases hslot : s.getOrdersAtPrice (s.resting o).price with
  | some p =>
      left
      obtain ⟨⟨c, hpc⟩, hidx⟩ := h.laid.levels.slots _ p hslot
      -- the level's own orders tell that it is the order's level
      obtain ⟨a, l, hq⟩ := List.exists_cons_of_ne_nil
        (h.laid.queues.nonempty p ⟨c, hpc⟩)
      have ha : a ∈ lay.queue p := by
        rw [hq]
        exact List.mem_cons_self ..
      have hamatch := h.matched p a ha
      obtain ⟨rfl, haprice⟩ := hfree c a (List.mem_flatMap.2 ⟨p, hpc, ha⟩)
        (by rw [hamatch.2, hidx])
      have hprice : (s.resting o).price = s.levelPrice p :=
        haprice.symm.trans hamatch.2
      obtain ⟨s', hrun, hlaid, hrest, hsides, hprices⟩ :=
        linkOrder_append h.laid hslot
      obtain ⟨l', r', hput⟩ := h.orderPutIn_append hpc hprice
      refine ⟨s', _, l', r', hrun, ⟨hlaid, ?_⟩, hrest, hput⟩
      intro q o' ho'
      rw [hrest, hsides, hprices]
      rw [Layout.setQueue_queue] at ho'
      split at ho'
      · next hqp =>
          rcases List.mem_append.1 ho' with ho' | ho'
          · rw [hqp]
            exact h.matched p o' ho'
          · rw [List.mem_singleton.1 ho', hqp, hside, hprice]
            exact ⟨(h.laid.levels.side c p hpc).symm, rfl⟩
      · exact h.matched q o' ho'
  | none =>
      rcases linkOrder_newLevel h.laid hside hslot with
        ⟨s', x, l, r, hrun, hx, hsplit, hlaid, hrest, hsides, hprices⟩ |
        ⟨herr, hfull⟩
      · left
        refine ⟨s', _, _, _, hrun, ⟨hlaid, ?_⟩, hrest,
          h.orderPutIn_newLevel hx hsplit hlaid hprices⟩
        intro q o' ho'
        rw [hrest, hsides, hprices]
        rw [Layout.setQueue_queue] at ho'
        by_cases hqx : q = x
        · rw [if_pos hqx] at ho'
          rw [if_pos hqx, if_pos hqx, List.mem_singleton.1 ho']
          exact ⟨hside, rfl⟩
        · rw [if_neg hqx] at ho'
          rw [if_neg hqx, if_neg hqx]
          exact h.matched q o' ho'
      · refine Or.inr ⟨herr, ?_, hfull⟩
        intro c q hq heq
        obtain ⟨p, -, hqp⟩ := mem_orders hq
        have hown := h.slot hqp
        rw [heq, hslot] at hown
        cases hown

-- =================================================== unlinking an order

/-- Unlinking a queued order. -/
theorem unlinkOrder_spec {o : Ptr} {b : Bool} (h : Booked s lay none)
    (ho : o ∈ lay.orders b) :
    ∃ s' lay', (unlinkOrder (some o)).run s = .ok () s'
      ∧ Booked s' lay' (some o) ∧ s'.resting = s.resting
      ∧ lay'.orders b = (lay.orders b).erase o
      ∧ ∀ c, c ≠ b → lay'.orders c = lay.orders c := by
  obtain ⟨p, hpb, hop⟩ := mem_orders ho
  obtain ⟨l, r, hsplit⟩ := List.append_of_mem hpb
  obtain ⟨q₁, q₂, hq⟩ := List.append_of_mem hop
  have hnd := (h.laid.levels.ring b).nodup
  rw [hsplit, List.nodup_middle, List.nodup_cons, List.mem_append, not_or]
    at hnd
  have hndq := (h.laid.queues.ring p).nodup
  rw [hq, List.nodup_middle, List.nodup_cons, List.mem_append, not_or] at hndq
  have hout : o ∉ l.flatMap lay.queue := fun hol => by
    obtain ⟨p', hp', hop'⟩ := List.mem_flatMap.1 hol
    exact hnd.1.1 (h.laid.queues.unique p' p o hop' hop ▸ hp')
  have herase : (lay.orders b).erase o
      = l.flatMap lay.queue ++ (q₁ ++ q₂) ++ r.flatMap lay.queue := by
    unfold Layout.orders
    rw [hsplit, List.flatMap_append, List.flatMap_cons, hq,
      List.erase_append_right _ hout, List.append_assoc,
      List.erase_append_right _ hndq.1.1, List.cons_append,
      List.erase_cons_head]
    simp
  have hpother : ∀ c, c ≠ b → p ∉ lay.levels c := fun c hcb hpc =>
    hcb (h.laid.levels.side_unique hpc hpb)
  by_cases hne : q₁ ++ q₂ = []
  · -- the order is alone: its level goes
    obtain ⟨rfl, rfl⟩ := List.append_eq_nil_iff.1 hne
    obtain ⟨s', hrun, hlaid, hrest, hsides, hprices⟩ :=
      unlinkOrder_last h.laid hsplit hq (h.side ho) (h.matched p o hop).2
    have hkeep : ∀ ps : List Ptr, p ∉ ps →
        ps.flatMap ((lay.setLevels b (l ++ r)).setQueue p []).queue
          = ps.flatMap lay.queue := fun ps hps =>
      Layout.flatMap_setQueue (lay.setLevels b (l ++ r)) hps _
    refine ⟨s', _, hrun, ⟨hlaid, ?_⟩, hrest, ?_, ?_⟩
    · refine h.matched.congr (fun q o' ho' => ?_) (fun q o' _ => ?_) hsides
        hprices
      · rw [Layout.setQueue_queue] at ho'
        split at ho'
        · cases ho'
        · exact ho'
      · rw [hrest]
        exact ⟨rfl, rfl⟩
    · rw [herase]
      unfold Layout.orders
      rw [Layout.setQueue_levels, Layout.setLevels_levels, if_pos rfl,
        List.flatMap_append, hkeep l hnd.1.1, hkeep r hnd.1.2]
      simp
    · intro c hcb
      unfold Layout.orders
      rw [Layout.setQueue_levels, Layout.setLevels_levels, if_neg hcb]
      exact hkeep _ (hpother c hcb)
  · obtain ⟨s', hrun, hlaid, hrest, hsides, hprices⟩ :=
      unlinkOrder_middle h.laid hq hne (h.slot hop)
    have hkeep : ∀ ps : List Ptr, p ∉ ps →
        ps.flatMap (lay.setQueue p (q₁ ++ q₂)).queue
          = ps.flatMap lay.queue := fun ps hps => Layout.flatMap_setQueue _ hps _
    refine ⟨s', _, hrun, ⟨hlaid, ?_⟩, hrest, ?_, ?_⟩
    · refine h.matched.congr (fun q o' ho' => ?_) (fun q o' _ => ?_) hsides
        hprices
      · rw [Layout.setQueue_queue] at ho'
        split at ho'
        · next hqp =>
            rw [hqp, hq]
            simp only [List.mem_append, List.mem_cons] at ho' ⊢
            tauto
        · exact ho'
      · rw [hrest]
        exact ⟨rfl, rfl⟩
    · rw [herase]
      unfold Layout.orders
      rw [Layout.setQueue_levels, hsplit, List.flatMap_append,
        List.flatMap_cons, hkeep l hnd.1.1, hkeep r hnd.1.2,
        Layout.setQueue_queue, if_pos rfl, List.append_assoc, List.append_assoc,
        List.append_assoc]
    · intro c hcb
      exact hkeep _ (hpother c hcb)

end Booked

end Ladder

end ElectronicTrading
