/-
`linkOrder` keeps the layout: an allocated order that is on no ring goes
to the tail of the level its slot names (`linkOrder_append`), or, when
the slot is empty, onto a new level put at its place in the side's ring
(`linkOrder_newLevel`).

# The search for the place

`findTarget` walks the ring from the best level. `seekTarget_spec`
describes it on the unread part of the level list: the walk stops at
the first level that is not better than the new one, or is back at the
best level when all of them are. Either way it splits the level list
into the better part and the rest, and the new level goes in between,
which keeps the list sorted (`pairwise_insert`).
-/
import ElectronicTrading.Common.Proofs.Blocks
import ElectronicTrading.Common.Proofs.Layout

namespace ElectronicTrading

open LinkedRing

namespace Ladder

variable {K : Type}

-- ================================================== at an existing level

/-- The four statements of `linkOrder`'s second branch, on a queue that
starts with `a` and ends with `z`. -/
theorem run_linkOrder_append {s : Ladder K} {o p a z : Ptr}
    (hslot : s.getOrdersAtPrice (s.resting o).price = some p)
    (hfirst : s.firstOrder p = some a) (hprev : s.prevOrder a = some z) :
    (linkOrder (some o)).run s
      = .ok () ((((s.putOrder z (.setNext (some o))).putOrder o
          (.setPrev (some z))).putOrder o (.setNext (some a))).putOrder a
          (.setPrev (some o))) := by
  simp [linkOrder, hslot, hfirst, hprev]

/-- Linking an order at the tail of the level its slot names. -/
theorem linkOrder_append {s : Ladder K} {lay : Layout} {o p : Ptr}
    (h : Laid s lay (some o))
    (hslot : s.getOrdersAtPrice (s.resting o).price = some p) :
    ∃ s', (linkOrder (some o)).run s = .ok () s'
      ∧ Laid s' (lay.setQueue p (lay.queue p ++ [o])) none
      ∧ s'.resting = s.resting ∧ s'.levelSide = s.levelSide
      ∧ s'.levelPrice = s.levelPrice := by
  obtain ⟨hlev, -⟩ := h.levels.slots _ p hslot
  obtain ⟨a, l, hq⟩ := List.exists_cons_of_ne_nil
    (h.queues.nonempty p hlev)
  obtain ⟨z, hz⟩ : ∃ z, (a :: l).getLast (List.cons_ne_nil a l) = z :=
    ⟨_, rfl⟩
  have hring := h.queues.ring p
  rw [hq] at hring
  have hprev := hring.prev_head
  rw [hz] at hprev
  have hfirst : s.firstOrder p = some a := by
    rw [h.queues.first p hlev, hq]
    rfl
  have hop : o ∉ a :: l := fun hmem =>
    h.queues.loose o rfl ⟨p, hq ▸ hmem⟩
  have hzmem : z ∈ a :: l := hz ▸ List.getLast_mem _
  have hao : a ≠ o := fun heq => hop (heq ▸ List.mem_cons_self ..)
  have hzo : z ≠ o := fun heq => hop (heq ▸ hzmem)
  refine ⟨_, run_linkOrder_append hslot hfirst hprev,
    ⟨((((h.levels.putOrder _ _).putOrder _ _).putOrder _ _).putOrder
      _ _).setQueue _ _, ?_⟩, funext fun q => by simp, rfl, rfl⟩
  refine h.queues.replace hlev
    ((((h.queues.pool.modify _ _).modify _ _).modify _ _).modify _ _) rfl
    (by simp) (fun q _ => rfl) ?_ (by simp) ?_ ?_ ?_ (by simp)
  · rw [hq]
    exact hfirst
  · rw [hq]
    refine hring.snoc hop ?_ ?_ ?_ ?_ ?_ ?_
    · intro y hy hyz
      rw [hz] at hyz
      have hyo : y ≠ o := fun heq => hop (heq ▸ hy)
      simp [hyo, hyz]
    · intro y hy hya
      have hyo : y ≠ o := fun heq => hop (heq ▸ hy)
      simp [hyo, hya]
    · simp [hz, hzo]
    · simp [hz, hao.symm]
    · simp
    · simp
  · intro y hy hyo
    have hya : y ≠ a := fun heq => hy (hq ▸ heq ▸ List.mem_cons_self ..)
    have hyz : y ≠ z := fun heq => hy (hq ▸ heq ▸ hzmem)
    have hyo' : y ≠ o := fun heq => hyo (by rw [heq])
    simp [hya, hyz, hyo']
  · intro y
    simp only [List.mem_append, List.mem_singleton, reduceCtorEq, or_false,
      Option.some.injEq]
    exact or_congr_right eq_comm

-- ================================================ the place of a level

/-- The loop of `addOrderAtPrice`, entered with `add_after` set, on a
ring whose levels are `read`, all better than the new one, and then
`unread`: it stops at the first level of `unread` that is not better,
or is back at the best level `a`. -/
theorem seekTarget_spec {s : Ladder K} {b : Bool} {e : OrdersAtPrice}
    (he : e.side = sideOf b) {a : Ptr} {rest : List Ptr}
    (unread : List Ptr) : ∀ (read : List Ptr) (fuel : Nat),
    IsRing s.nextEntry s.prevEntry (a :: (read ++ unread)) →
    rest = read ++ unread →
    (∀ p ∈ a :: read, Better b (s.levelPrice p) e.price) →
    unread.length < fuel →
    ∃ l r, a :: rest = l ++ r
      ∧ (∀ p ∈ l, Better b (s.levelPrice p) e.price)
      ∧ (∀ t, r.head? = some t → ¬ Better b (s.levelPrice t) e.price)
      ∧ (seekTarget e (some a) fuel (unread ++ [a]).head? true).run s
          = .ok ((r ++ [a]).head?, r.isEmpty) s := by
  induction unread with
  | nil =>
      intro read fuel hring hrest hbetter hfuel
      obtain ⟨n, rfl⟩ : ∃ n, fuel = n + 1 := ⟨fuel - 1, by omega⟩
      refine ⟨a :: rest, [], by simp, ?_, by simp, by simp [seekTarget]⟩
      rw [hrest, List.append_nil]
      exact hbetter
  | cons t unread ih =>
      intro read fuel hring hrest hbetter hfuel
      rw [List.length_cons] at hfuel
      obtain ⟨n, rfl⟩ : ∃ n, fuel = n + 2 := ⟨fuel - 2, by omega⟩
      have hta : t ≠ a := by
        rintro rfl
        have := (List.nodup_cons.1 hring.nodup).1
        simp at this
      have hnext : s.nextEntry t = (unread ++ [a]).head? := by
        rw [← List.cons_append] at hring
        rw [hring.next_eq]
        cases unread <;> simp
      by_cases hbt : Better b (s.levelPrice t) e.price
      · -- `t` is better: go on behind it
        have hring' : IsRing s.nextEntry s.prevEntry
            (a :: ((read ++ [t]) ++ unread)) := by simpa using hring
        have hbetter' : ∀ p ∈ a :: (read ++ [t]),
            Better b (s.levelPrice p) e.price := by
          intro p hp
          rw [← List.cons_append] at hp
          rcases List.mem_append.1 hp with hp | hp
          · exact hbetter p hp
          · have hpt : p = t := by simpa using hp
            rw [hpt]
            exact hbt
        obtain ⟨l, r, hsplit, hl, hr, hrun⟩ :=
          ih (read ++ [t]) (n + 1) hring' (by simp [hrest]) hbetter'
            (by omega)
        refine ⟨l, r, hsplit, hl, hr, ?_⟩
        rw [← hrun, ← hnext]
        rw [seekTarget]
        simp [hta, addAfter_eq he, hbt]
      · refine ⟨a :: read, t :: unread, by simp [hrest], hbetter, ?_, ?_⟩
        · intro t' ht'
          cases ht'
          exact hbt
        · rw [seekTarget]
          simp [hta, addAfter_eq he, hbt, seekTarget]

/-- `findTarget` splits the levels into the ones that are better than
the new one and the rest; its target starts the rest, or is the best
level when there is no rest. -/
theorem findTarget_spec {s : Ladder K} {b : Bool} {e : OrdersAtPrice}
    (he : e.side = sideOf b) {a : Ptr} {rest : List Ptr}
    (hring : IsRing s.nextEntry s.prevEntry (a :: rest))
    (hlen : rest.length ≤ s.ordersAtPricePool.size) :
    ∃ l r, a :: rest = l ++ r
      ∧ (∀ p ∈ l, Better b (s.levelPrice p) e.price)
      ∧ (∀ t, r.head? = some t → ¬ Better b (s.levelPrice t) e.price)
      ∧ (findTarget e (some a)).run s
          = .ok ((r ++ [a]).head?, r.isEmpty) s := by
  by_cases hba : Better b (s.levelPrice a) e.price
  · have hnext : s.nextEntry a = (rest ++ [a]).head? := by
      have h := hring
      rw [← List.nil_append (a :: rest)] at h
      rw [h.next_eq]
      rfl
    have hbetter : ∀ p ∈ [a], Better b (s.levelPrice p) e.price := by
      intro p hp
      have hpa : p = a := by simpa using hp
      rw [hpa]
      exact hba
    obtain ⟨t, ht⟩ : ∃ t, (rest ++ [a]).head? = some t := by
      cases rest with
      | nil => exact ⟨a, rfl⟩
      | cons c rest => exact ⟨c, rfl⟩
    have hfind : (findTarget e (some a)).run s
        = (seekTarget e (some a) (s.ordersAtPricePool.size + 1) (some t)
            (addAfter e (s.level t))).run s := by
      rw [ht] at hnext
      simp [findTarget, addAfter_eq he, hba, hnext]
    rw [hfind, addAfter_eq he, level_price]
    by_cases hbt : Better b (s.levelPrice t) e.price
    · have hseek := seekTarget_spec he rest []
        (s.ordersAtPricePool.size + 1) hring (List.nil_append rest).symm hbetter
        (by omega)
      rw [ht] at hseek
      simpa [hbt] using hseek
    · cases rest with
      | nil =>
          cases ht
          exact absurd hba hbt
      | cons c rest =>
          cases ht
          refine ⟨[a], t :: rest, rfl, hbetter, ?_, ?_⟩
          · intro t' ht'
            cases ht'
            exact hbt
          · simp [hbt, seekTarget]
  · refine ⟨[], a :: rest, rfl, by simp, ?_, ?_⟩
    · intro t ht
      cases ht
      exact hba
    · simp [findTarget, addAfter_eq he, hba, seekTarget]

-- ======================================================= at a new level

/-- The level ring after level `x` was put in between `l` and `r` on
side `b`. -/
structure LevelPutIn (s s' : Ladder K) (b : Bool) (x : Ptr)
    (l r : List Ptr) : Prop where
  same : SameButLevelLinks s s'
  ring : IsRing s'.nextEntry s'.prevEntry (l ++ x :: r)
  head : ∀ c, s'.best c = if c = b then (l ++ x :: r).head? else s.best c
  slots : ∀ i, s'.priceOrdersAtPrice i
    = if i = priceToIndex (s.levelPrice x) then some x
      else s.priceOrdersAtPrice i
  frame : ∀ y, y ∉ l ++ x :: r →
    s'.nextEntry y = s.nextEntry y ∧ s'.prevEntry y = s.prevEntry y

section addOrderAtPrice

variable {s : Ladder K} {b : Bool} {x : Ptr}

/-- The first level of a side. -/
theorem addOrderAtPrice_alone (hside : s.levelSide x = sideOf b)
    (hbest : s.best b = none) :
    ∃ s', (addOrderAtPrice (some x)).run s = .ok () s'
      ∧ LevelPutIn s s' b x [] [] := by
  have hrun : (addOrderAtPrice (some x)).run s
      = .ok () ((((s.putSlot (priceToIndex (s.levelPrice x)) (some x)).putBest
          (some x) b).putLevel x (.setNext (some x))).putLevel x
          (.setPrev (some x))) := by
    simp [addOrderAtPrice, hside, hbest]
  refine ⟨_, hrun, ?_⟩
  exact
    { same := ((((SameButLevelLinks.refl s).putSlot _ _).putBest _ _).setNext
        _ _).setPrev _ _
      ring := isRing_singleton (by simp) (by simp)
      head := fun c => by simp
      slots := fun i => by simp
      frame := fun y hy => by
        have hyx : y ≠ x := by simpa using hy
        simp [hyx] }

/-- A level worse than all others of its side goes behind the last. -/
theorem addOrderAtPrice_last {a z : Ptr} {rest : List Ptr}
    (hside : s.levelSide x = sideOf b)
    (hring : IsRing s.nextEntry s.prevEntry (a :: rest))
    (hbest : s.best b = some a) (hx : x ∉ a :: rest)
    (hz : (a :: rest).getLast (List.cons_ne_nil a rest) = z)
    (hfind : (findTarget (s.level x) (some a)).run
        (s.putSlot (priceToIndex (s.levelPrice x)) (some x))
      = .ok (some a, true) (s.putSlot (priceToIndex (s.levelPrice x)) (some x))) :
    ∃ s', (addOrderAtPrice (some x)).run s = .ok () s'
      ∧ LevelPutIn s s' b x (a :: rest) [] := by
  have hprev := hring.prev_head
  have hnext := hring.next_getLast
  rw [hz] at hprev hnext
  have hzmem : z ∈ a :: rest := hz ▸ List.getLast_mem _
  have hxa : x ≠ a := fun heq => hx (heq ▸ List.mem_cons_self ..)
  have hxz : x ≠ z := fun heq => hx (heq ▸ hzmem)
  have hrun : (addOrderAtPrice (some x)).run s
      = .ok () (((((s.putSlot (priceToIndex (s.levelPrice x))
          (some x)).putLevel x (.setPrev (some z))).putLevel a
          (.setPrev (some x))).putLevel x (.setNext (some a))).putLevel z
          (.setNext (some x))) := by
    simp [addOrderAtPrice, hside, hbest, hfind, hprev, hnext]
  refine ⟨_, hrun, ?_⟩
  exact
    { same := (((((SameButLevelLinks.refl s).putSlot _ _).setPrev _ _).setPrev
        _ _).setNext _ _).setNext _ _
      ring := by
        refine hring.snoc hx ?_ ?_ ?_ ?_ ?_ ?_
        · intro y hy hyz
          rw [hz] at hyz
          have hyx : y ≠ x := fun heq => hx (heq ▸ hy)
          simp [hyx, hyz]
        · intro y hy hya
          have hyx : y ≠ x := fun heq => hx (heq ▸ hy)
          simp [hyx, hya]
        · simp [hz]
        · simp [hz, hxa]
        · simp [hxz]
        · simp
      head := fun c => by
        by_cases hcb : c = b
        · rw [hcb]
          simp [hbest]
        · simp [hcb]
      slots := fun i => by simp
      frame := fun y hy => by
        simp only [List.mem_append, List.mem_singleton, not_or] at hy
        have hya : y ≠ a := fun heq => hy.1 (heq ▸ List.mem_cons_self ..)
        have hyz : y ≠ z := fun heq => hy.1 (heq ▸ hzmem)
        simp [hya, hyz, hy.2] }

/-- The test of `addOrderAtPrice` against the best level. -/
theorem beatsBest_iff {b : Bool} (p q : Int) :
    (sideOf b = .buy ∧ q < p ∨ sideOf b = .sell ∧ p < q) ↔ Better b p q := by
  unfold Better
  cases b <;> simp [sideOf]

/-- A level that beats all others of its side becomes the first. -/
theorem addOrderAtPrice_first {a : Ptr} {rest : List Ptr}
    (hside : s.levelSide x = sideOf b)
    (hring : IsRing s.nextEntry s.prevEntry (a :: rest))
    (hbest : s.best b = some a) (hx : x ∉ a :: rest)
    (hbetter : Better b (s.levelPrice x) (s.levelPrice a))
    (hfind : (findTarget (s.level x) (some a)).run
        (s.putSlot (priceToIndex (s.levelPrice x)) (some x))
      = .ok (some a, false) (s.putSlot (priceToIndex (s.levelPrice x)) (some x))) :
    ∃ s', (addOrderAtPrice (some x)).run s = .ok () s'
      ∧ LevelPutIn s s' b x [] (a :: rest) := by
  obtain ⟨z, hz⟩ : ∃ z, (a :: rest).getLast (List.cons_ne_nil a rest) = z :=
    ⟨_, rfl⟩
  have hprev := hring.prev_head
  rw [hz] at hprev
  have hzmem : z ∈ a :: rest := hz ▸ List.getLast_mem _
  have hxa : x ≠ a := fun heq => hx (heq ▸ List.mem_cons_self ..)
  have hxz : x ≠ z := fun heq => hx (heq ▸ hzmem)
  -- the level behind the old best is by now never the old best itself
  have hnexta : (if a = z then some x else s.nextEntry a) ≠ some a := by
    split
    · intro heq
      exact hxa (Option.some.inj heq)
    · next haz =>
        intro heq
        rw [hring.next_head_eq_self_iff] at heq
        subst heq
        exact haz hz
  have hbeats := (beatsBest_iff _ _).2 hbetter
  have hrun : (addOrderAtPrice (some x)).run s
      = .ok () (((((((s.putSlot (priceToIndex (s.levelPrice x))
          (some x)).putLevel x (.setPrev (some z))).putLevel x
          (.setNext (some a))).putLevel z (.setNext (some x))).putLevel a
          (.setPrev (some x))).putLevel a
          (.setNext (if a = z then some x else s.nextEntry a))).putBest
          (some x) b) := by
    simp [addOrderAtPrice, hside, hbest, hfind, hprev, hbeats, hxa.symm,
      hnexta]
  refine ⟨_, hrun, ?_⟩
  exact
    { same := (((((((SameButLevelLinks.refl s).putSlot _ _).setPrev _ _).setNext
        _ _).setNext _ _).setPrev _ _).setNext _ _).putBest _ _
      ring := by
        refine IsRing.insert hring hx (u := z) (v := a) (by simp)
          ?_ ?_ ?_ ?_ ?_ ?_ ?_
        · rw [List.append_nil,
            List.getLast?_eq_getLast_of_ne_nil (List.cons_ne_nil a rest), hz]
        · intro y hy hyz
          have hyx : y ≠ x := fun heq => hx (heq ▸ hy)
          by_cases hya : y = a
          · have haz : a ≠ z := hya ▸ hyz
            simp [hya, haz]
          · simp [hyx, hyz, hya]
        · intro y hy hya
          have hyx : y ≠ x := fun heq => hx (heq ▸ hy)
          simp [hyx, hya]
        · by_cases hza : z = a
          · simp [hza]
          · simp [hza]
        · simp [hxa]
        · simp [hxa, hxz]
        · simp
      head := fun c => by simp
      slots := fun i => by simp
      frame := fun y hy => by
        simp only [List.nil_append, List.mem_cons, not_or] at hy
        have hyz : y ≠ z := by
          intro heq
          rw [heq] at hy
          rcases List.mem_cons.1 hzmem with hza | hzr
          · exact hy.2.1 hza
          · exact hy.2.2 hzr
        simp [hy.1, hy.2.1, hyz] }

/-- A level that goes in between two others of its side. -/
theorem addOrderAtPrice_between {a t : Ptr} {l m : List Ptr}
    (hside : s.levelSide x = sideOf b)
    (hring : IsRing s.nextEntry s.prevEntry ((a :: l) ++ t :: m))
    (hbest : s.best b = some a) (hx : x ∉ (a :: l) ++ t :: m)
    (hbetter : Better b (s.levelPrice a) (s.levelPrice x))
    (hfind : (findTarget (s.level x) (some a)).run
        (s.putSlot (priceToIndex (s.levelPrice x)) (some x))
      = .ok (some t, false) (s.putSlot (priceToIndex (s.levelPrice x)) (some x))) :
    ∃ s', (addOrderAtPrice (some x)).run s = .ok () s'
      ∧ LevelPutIn s s' b x (a :: l) (t :: m) := by
  obtain ⟨u, hu⟩ : ∃ u, (a :: l).getLast (List.cons_ne_nil a l) = u :=
    ⟨_, rfl⟩
  have hlast : ((t :: m) ++ (a :: l)).getLast? = some u := by
    rw [List.getLast?_append_of_ne_nil _ (List.cons_ne_nil a l),
      List.getLast?_eq_getLast_of_ne_nil (List.cons_ne_nil a l), hu]
  have hprev : s.prevEntry t = some u := by
    rw [hring.prev_eq, hlast]
  have humem : u ∈ (a :: l) ++ t :: m :=
    List.mem_append_left _ (hu ▸ List.getLast_mem _)
  have htmem : t ∈ (a :: l) ++ t :: m :=
    List.mem_append_right _ (List.mem_cons_self ..)
  have hxt : x ≠ t := fun heq => hx (heq ▸ htmem)
  have hxu : x ≠ u := fun heq => hx (heq ▸ humem)
  have hbeats := mt (beatsBest_iff _ _).1 hbetter.asymm
  have hrun : (addOrderAtPrice (some x)).run s
      = .ok () (((((s.putSlot (priceToIndex (s.levelPrice x))
          (some x)).putLevel x (.setPrev (some u))).putLevel x
          (.setNext (some t))).putLevel u (.setNext (some x))).putLevel t
          (.setPrev (some x))) := by
    simp [addOrderAtPrice, hside, hbest, hfind, hprev, hxt.symm, hbeats]
  refine ⟨_, hrun, ?_⟩
  exact
    { same := (((((SameButLevelLinks.refl s).putSlot _ _).setPrev _ _).setNext
        _ _).setNext _ _).setPrev _ _
      ring := by
        refine hring.insert hx (v := t) rfl hlast ?_ ?_ ?_ ?_ ?_ ?_
        · intro y hy hyu
          have hyx : y ≠ x := fun heq => hx (heq ▸ hy)
          simp [hyx, hyu]
        · intro y hy hyt
          have hyx : y ≠ x := fun heq => hx (heq ▸ hy)
          simp [hyx, hyt]
        · simp
        · simp [hxt]
        · simp [hxu]
        · simp
      head := fun c => by
        by_cases hcb : c = b
        · simp [hcb, hbest]
        · simp [hcb]
      slots := fun i => by simp
      frame := fun y hy => by
        have hmem : ∀ w ∈ (a :: l) ++ t :: m, y ≠ w := by
          intro w hw heq
          refine hy ?_
          rw [heq]
          simp only [List.mem_append, List.mem_cons] at hw ⊢
          tauto
        have hyx : y ≠ x := fun heq => hy (by rw [heq]; simp)
        simp [hyx, hmem t htmem, hmem u humem] }

/-- A new level goes in between the levels that are better and those
that are worse, wherever that is. -/
theorem addOrderAtPrice_spec {levels : List Ptr}
    (hside : s.levelSide x = sideOf b)
    (hring : IsRing s.nextEntry s.prevEntry levels)
    (hhead : s.best b = levels.head?) (hx : x ∉ levels)
    (hsorted : levels.Pairwise
      fun p q => Better b (s.levelPrice p) (s.levelPrice q))
    (hnew : ∀ p ∈ levels, s.levelPrice p ≠ s.levelPrice x)
    (hlen : levels.length ≤ s.ordersAtPricePool.size) :
    ∃ s' l r, levels = l ++ r
      ∧ (∀ p ∈ l, Better b (s.levelPrice p) (s.levelPrice x))
      ∧ (∀ p ∈ r, Better b (s.levelPrice x) (s.levelPrice p))
      ∧ (addOrderAtPrice (some x)).run s = .ok () s'
      ∧ LevelPutIn s s' b x l r := by
  cases levels with
  | nil =>
      obtain ⟨s', hrun, hput⟩ := addOrderAtPrice_alone hside hhead
      exact ⟨s', [], [], rfl, by simp, by simp, hrun, hput⟩
  | cons a rest =>
      rw [List.head?_cons] at hhead
      rw [List.length_cons] at hlen
      obtain ⟨l, r, hsplit, hl, hr, hfind⟩ :=
        findTarget_spec (s := s.putSlot (priceToIndex (s.levelPrice x)) (some x))
          (e := s.level x) hside hring (by rw [putSlot_ordersAtPricePool]; omega)
      rw [putSlot_levelPrice, level_price] at hl hr
      -- what is not better than the new level is worse
      have hworse : ∀ p ∈ r, Better b (s.levelPrice x) (s.levelPrice p) := by
        cases r with
        | nil => simp
        | cons t m =>
            have hmem : ∀ p ∈ t :: m, p ∈ a :: rest := fun p hp => by
              rw [hsplit]
              exact List.mem_append_right _ hp
            have ht : Better b (s.levelPrice x) (s.levelPrice t) :=
              better_of_not (hr t rfl) (hnew t (hmem t (List.mem_cons_self ..)))
            rw [hsplit, List.pairwise_append] at hsorted
            intro p hp
            rcases List.mem_cons.1 hp with hpt | hpm
            · rw [hpt]
              exact ht
            · exact ht.trans ((List.pairwise_cons.1 hsorted.2.1).1 p hpm)
      cases r with
      | nil =>
          rw [List.append_nil] at hsplit
          subst hsplit
          obtain ⟨s', hrun, hput⟩ := addOrderAtPrice_last hside hring hhead hx
            rfl hfind
          exact ⟨s', _, [], by simp, hl, hworse, hrun, hput⟩
      | cons t m =>
          cases l with
          | nil =>
              cases hsplit
              obtain ⟨s', hrun, hput⟩ := addOrderAtPrice_first hside hring
                hhead hx (hworse a (List.mem_cons_self ..)) hfind
              exact ⟨s', [], _, rfl, hl, hworse, hrun, hput⟩
          | cons a' l =>
              cases hsplit
              obtain ⟨s', hrun, hput⟩ := addOrderAtPrice_between hside hring
                hhead hx (hl a (List.mem_cons_self ..)) hfind
              exact ⟨s', _, _, rfl, hl, hworse, hrun, hput⟩

end addOrderAtPrice

-- ------------------------------------------------- the layout afterwards

/-- The levels once `x` was put in on one side. -/
theorem Layout.hasLevel_putIn {lay : Layout} {b : Bool} {x : Ptr}
    {l r : List Ptr} (hsplit : lay.levels b = l ++ r) (p : Ptr) :
    (lay.setLevels b (l ++ x :: r)).HasLevel p ↔ p = x ∨ lay.HasLevel p := by
  have hmem : p ∈ l ++ x :: r ↔ p = x ∨ p ∈ lay.levels b := by
    rw [hsplit]
    simp only [List.mem_append, List.mem_cons]
    tauto
  constructor
  · intro h
    obtain ⟨c, hc⟩ := h
    rw [Layout.setLevels_levels] at hc
    split at hc
    · rcases hmem.1 hc with hpx | hpb
      · exact Or.inl hpx
      · exact Or.inr ⟨b, hpb⟩
    · exact Or.inr ⟨c, hc⟩
  · intro h
    rcases h with hpx | ⟨c, hc⟩
    · refine ⟨b, ?_⟩
      rw [Layout.setLevels_levels, if_pos rfl]
      exact hmem.2 (Or.inl hpx)
    · refine ⟨c, ?_⟩
      rw [Layout.setLevels_levels]
      split
      · next hcb => exact hmem.2 (Or.inr (hcb ▸ hc))
      · exact hc

/-- The level side after a level was allocated and put in its place. -/
theorem LevelsLaid.putIn {s s₂ s' : Ladder K} {lay : Layout} {b : Bool}
    {x : Ptr} {l r : List Ptr} {v : OrdersAtPrice} (h : LevelsLaid s lay)
    (hx : ¬ lay.HasLevel x) (halloc : LevelAllocated s s₂ x v)
    (hput : LevelPutIn s₂ s' b x l r) (hsplit : lay.levels b = l ++ r)
    (hside : v.side = sideOf b)
    (hl : ∀ p ∈ l, Better b (s.levelPrice p) v.price)
    (hr : ∀ p ∈ r, Better b v.price (s.levelPrice p))
    (hslot : s.priceOrdersAtPrice (priceToIndex v.price) = none) :
    LevelsLaid s' (lay.setLevels b (l ++ x :: r)) := by
  have hlevel : ∀ q, s₂.level q = if q = x then v else s.level q :=
    halloc.levelPool.deref
  have hne : ∀ c, ∀ p ∈ lay.levels c, p ≠ x := fun c p hp heq =>
    hx ⟨c, heq ▸ hp⟩
  have hprice : ∀ q, s'.levelPrice q
      = if q = x then v.price else s.levelPrice q := fun q => by
    rw [hput.same.levelPrice]
    unfold levelPrice
    rw [hlevel]
    split <;> rfl
  have hsides : ∀ q, s'.levelSide q
      = if q = x then v.side else s.levelSide q := fun q => by
    rw [hput.same.levelSide]
    unfold levelSide
    rw [hlevel]
    split <;> rfl
  have hslots : ∀ i, s'.priceOrdersAtPrice i
      = if i = priceToIndex v.price then some x
        else s.priceOrdersAtPrice i := fun i => by
    rw [hput.slots, halloc.slots]
    unfold levelPrice
    rw [hlevel, if_pos rfl]
  have hmem : ∀ p, p ∈ l ++ x :: r ↔ p = x ∨ p ∈ lay.levels b := fun p => by
    rw [hsplit]
    simp only [List.mem_append, List.mem_cons]
    tauto
  have hhas := Layout.hasLevel_putIn (x := x) hsplit
  refine
    { pool := hput.same.pool halloc.levelPool.ok
      size := by rw [hput.same.size, halloc.levelPool.size, h.size]
      head := ?_
      ring := ?_
      sorted := ?_
      side := ?_
      slot := ?_
      slots := ?_
      used := ?_ }
  · intro c
    rw [hput.head, Layout.setLevels_levels, halloc.best]
    split
    · rfl
    · exact h.head c
  · intro c
    rw [Layout.setLevels_levels]
    split
    · exact hput.ring
    · next hcb =>
        -- the other side's ring shares no level with this one
        have hout : ∀ y ∈ lay.levels c, y ∉ l ++ x :: r := by
          intro y hy hyl
          rcases (hmem y).1 hyl with hyx | hyb
          · exact hne c y hy hyx
          · exact hcb (h.side_unique hy hyb)
        refine (h.ring c).congr (fun y hy => ?_) (fun y hy => ?_)
        · rw [(hput.frame y (hout y hy)).1]
          unfold nextEntry
          rw [hlevel, if_neg (hne c y hy)]
        · rw [(hput.frame y (hout y hy)).2]
          unfold prevEntry
          rw [hlevel, if_neg (hne c y hy)]
  · intro c
    have hold : ∀ d, (lay.levels d).Pairwise
        fun p q => Better d (s'.levelPrice p) (s'.levelPrice q) := by
      intro d
      refine (h.sorted d).imp_of_mem fun {p q} hp hq hpq => ?_
      rw [hprice, hprice, if_neg (hne d p hp), if_neg (hne d q hq)]
      exact hpq
    rw [Layout.setLevels_levels]
    split
    · next hcb =>
        subst hcb
        have hold' := hold c
        rw [hsplit, List.pairwise_append] at hold'
        obtain ⟨hpl, hpr, hcross⟩ := hold'
        have hin : ∀ p ∈ l ++ r, p ≠ x := fun p hp => hne c p (hsplit ▸ hp)
        rw [List.pairwise_append, List.pairwise_cons]
        refine ⟨hpl, ⟨?_, hpr⟩, ?_⟩
        · intro q hq
          rw [hprice, hprice, if_pos rfl,
            if_neg (hin q (List.mem_append_right _ hq))]
          exact hr q hq
        · intro p hp q hq
          rcases List.mem_cons.1 hq with hqx | hqr
          · rw [hqx, hprice, hprice, if_pos rfl,
              if_neg (hin p (List.mem_append_left _ hp))]
            exact hl p hp
          · exact hcross p hp q hqr
    · exact hold c
  · intro c p hp
    rw [Layout.setLevels_levels] at hp
    rw [hsides]
    split at hp
    · next hcb =>
        subst hcb
        split
        · exact hside
        · next hpx =>
            exact h.side c p (((hmem p).1 hp).resolve_left hpx)
    · rw [if_neg (hne c p hp)]
      exact h.side c p hp
  · intro c p hp
    rw [hslots, hprice]
    by_cases hpx : p = x
    · rw [if_pos hpx, if_pos rfl, hpx]
    · have hpl : lay.HasLevel p :=
        ((hhas p).1 ⟨c, hp⟩).resolve_left hpx
      have hold := h.slot_price hpl
      rw [if_neg hpx, if_neg]
      · exact hold
      · -- a level already there would not have left the slot empty
        intro heq
        unfold getOrdersAtPrice at hold
        rw [heq, hslot] at hold
        cases hold
  · intro i p hp
    rw [hslots] at hp
    rw [hhas, hprice]
    split at hp
    · next hi =>
        cases hp
        rw [if_pos rfl]
        exact ⟨Or.inl rfl, hi.symm⟩
    · obtain ⟨hlev, hidx⟩ := h.slots i p hp
      have hpx : p ≠ x := fun heq => hx (heq ▸ hlev)
      rw [if_neg hpx]
      exact ⟨Or.inr hlev, hidx⟩
  · intro p
    rw [hput.same.levelUsed, hhas]
    exact (halloc.levelPool.used p).trans (or_congr_right (h.used p))

/-- The queues after a level was made for the loose order. -/
theorem QueuesLaid.newLevel {s s' : Ladder K} {lay lay' : Layout} {o x : Ptr}
    (h : QueuesLaid s lay (some o)) (hx : ¬ lay.HasLevel x)
    (hpool : s'.orderPool = ((s.putOrder o (.setPrev (some o))).putOrder o
      (.setNext (some o))).orderPool)
    (hfirst : ∀ p, s'.firstOrder p
      = if p = x then some o else s.firstOrder p)
    (hlevels : ∀ p, lay'.HasLevel p ↔ p = x ∨ lay.HasLevel p)
    (hqueue : ∀ p, lay'.queue p = if p = x then [o] else lay.queue p) :
    QueuesLaid s' lay' none := by
  have hnext : ∀ q, s'.nextOrder q
      = if q = o then some o else s.nextOrder q := fun q => by
    unfold nextOrder order
    rw [hpool]
    refine (setNext_nextOrder (s.putOrder o (.setPrev (some o))) o q _).trans ?_
    rw [setPrev_nextOrder]
    rfl
  have hprev : ∀ q, s'.prevOrder q
      = if q = o then some o else s.prevOrder q := fun q => by
    unfold prevOrder order
    rw [hpool]
    refine (setNext_prevOrder (s.putOrder o (.setPrev (some o))) o q _).trans ?_
    exact setPrev_prevOrder _ _ _ _
  have hused : ∀ q, s'.orderUsed q = s.orderUsed q := fun q => by
    unfold orderUsed
    rw [hpool]
    show ((s.putOrder o _).putOrder o _).orderUsed q = s.orderUsed q
    rw [putOrder_orderUsed, putOrder_orderUsed]
  have hox : ∀ p, o ∉ lay.queue p := fun p hp => h.loose o rfl ⟨p, hp⟩
  have horder : ∀ q, lay'.HasOrder q ↔ q = o ∨ lay.HasOrder q := fun q => by
    constructor
    · intro h
      obtain ⟨p, hp⟩ := h
      rw [hqueue] at hp
      split at hp
      · exact Or.inl (List.mem_singleton.1 hp)
      · exact Or.inr ⟨p, hp⟩
    · intro h
      rcases h with hqo | ⟨p, hp⟩
      · refine ⟨x, ?_⟩
        rw [hqueue, if_pos rfl, hqo]
        exact List.mem_singleton_self o
      · refine ⟨p, ?_⟩
        have hpx : p ≠ x := fun heq =>
          hx (heq ▸ h.level p (List.ne_nil_of_mem hp))
        rw [hqueue, if_neg hpx]
        exact hp
  refine
    { pool := by
        rw [hpool]
        exact (h.pool.modify _ _).modify _ _
      size := by
        rw [hpool]
        exact h.size
      first := ?_
      nonempty := ?_
      ring := ?_
      unique := ?_
      level := ?_
      used := ?_
      loose := fun q hq => by cases hq }
  · intro p hp
    rw [hfirst, hqueue]
    split
    · rfl
    · next hpx => exact h.first p (((hlevels p).1 hp).resolve_left hpx)
  · intro p hp
    rw [hqueue]
    split
    · exact List.cons_ne_nil o []
    · next hpx => exact h.nonempty p (((hlevels p).1 hp).resolve_left hpx)
  · intro p
    rw [hqueue]
    split
    · refine isRing_singleton ?_ ?_
      · rw [hnext, if_pos rfl]
      · rw [hprev, if_pos rfl]
    · refine (h.ring p).congr (fun y hy => ?_) (fun y hy => ?_)
      · rw [hnext, if_neg (fun heq : y = o => hox p (heq ▸ hy))]
      · rw [hprev, if_neg (fun heq : y = o => hox p (heq ▸ hy))]
  · intro p q y hp hq
    rw [hqueue] at hp hq
    by_cases hpx : p = x
    · by_cases hqx : q = x
      · rw [hpx, hqx]
      · rw [if_pos hpx] at hp
        rw [if_neg hqx, List.mem_singleton.1 hp] at hq
        exact absurd hq (hox q)
    · rw [if_neg hpx] at hp
      by_cases hqx : q = x
      · rw [if_pos hqx] at hq
        rw [List.mem_singleton.1 hq] at hp
        exact absurd hp (hox p)
      · rw [if_neg hqx] at hq
        exact h.unique p q y hp hq
  · intro p hp
    rw [hqueue] at hp
    rw [hlevels]
    split at hp
    · next hpx => exact Or.inl hpx
    · exact Or.inr (h.level p hp)
  · intro q
    rw [hused, h.used, horder]
    constructor
    · intro h
      rcases h with hq | hq
      · exact Or.inl (Or.inr hq)
      · exact Or.inl (Or.inl (Option.some.inj hq).symm)
    · rintro ((hq | hq) | hq)
      · exact Or.inr (by rw [hq])
      · exact Or.inl hq
      · cases hq

/-- Linking an order whose slot is empty: a new level for it alone, at
its place among the levels of its side, unless the pool of levels has
only one free block left. -/
theorem linkOrder_newLevel {s : Ladder K} {lay : Layout} {o : Ptr} {b : Bool}
    (h : Laid s lay (some o)) (hside : (s.resting o).side = sideOf b)
    (hslot : s.getOrdersAtPrice (s.resting o).price = none) :
    (∃ s' x l r, (linkOrder (some o)).run s = .ok () s'
        ∧ ¬ lay.HasLevel x ∧ lay.levels b = l ++ r
        ∧ Laid s' ((lay.setLevels b (l ++ x :: r)).setQueue x [o]) none
        ∧ s'.resting = s.resting
        ∧ (∀ p, s'.levelSide p = if p = x then sideOf b else s.levelSide p)
        ∧ ∀ p, s'.levelPrice p
            = if p = x then (s.resting o).price else s.levelPrice p)
      ∨ ((∃ s', (linkOrder (some o)).run s = .error .poolOutOfSpace s')
        ∧ matchingEngineMaxPriceLevels
            ≤ (lay.levels true ++ lay.levels false).length + 1) := by
  obtain ⟨s₁, hs₁⟩ : ∃ s₁, s₁ = (s.putOrder o (.setPrev (some o))).putOrder o
    (.setNext (some o)) := ⟨_, rfl⟩
  obtain ⟨v, hv⟩ : ∃ v : OrdersAtPrice, v =
    { side := sideOf b, price := (s.resting o).price, firstOrder := some o,
      prevEntry := none, nextEntry := none } := ⟨_, rfl⟩
  have hrun : (linkOrder (some o)).run s
      = (do addOrderAtPrice (← allocateLevel v)).run s₁ := by
    rw [hs₁, hv]
    simp [linkOrder, hslot, hside]
  have hlev₁ : LevelsLaid s₁ lay := by
    rw [hs₁]
    exact (h.levels.putOrder _ _).putOrder _ _
  have hrest₁ : s₁.resting = s.resting := by
    rw [hs₁]
    funext q
    simp
  have hprice₁ : s₁.levelPrice = s.levelPrice := by rw [hs₁]; rfl
  have hside₁ : s₁.levelSide = s.levelSide := by rw [hs₁]; rfl
  have hslots₁ : s₁.priceOrdersAtPrice = s.priceOrdersAtPrice := by
    rw [hs₁]
    rfl
  rcases allocateLevel_cases hlev₁.pool v with
    ⟨s₂, halloc, hs₂⟩ | ⟨⟨s₂, herr⟩, hfull⟩
  · left
    generalize s₁.ordersAtPricePool.nextFreeIndex = x at halloc hs₂
    have hx : ¬ lay.HasLevel x := fun hlev => by
      have hused := (hlev₁.used x).2 hlev
      unfold levelUsed at hused
      rw [hs₂.levelPool.free] at hused
      cases hused
    have hne : ∀ p ∈ lay.levels b, p ≠ x := fun p hp heq => hx ⟨b, heq ▸ hp⟩
    have hlevel : ∀ q, s₂.level q = if q = x then v else s₁.level q :=
      hs₂.levelPool.deref
    have hlevelx : s₂.level x = v := by rw [hlevel, if_pos rfl]
    have hkeep : ∀ p ∈ lay.levels b, s₂.level p = s₁.level p := fun p hp => by
      rw [hlevel, if_neg (hne p hp)]
    have hkeepPrice : ∀ p ∈ lay.levels b, s₂.levelPrice p = s.levelPrice p :=
      fun p hp => by
        rw [← hprice₁]
        unfold levelPrice
        rw [hkeep p hp]
    have hpricex : s₂.levelPrice x = v.price := by
      unfold levelPrice
      rw [hlevelx]
    obtain ⟨s', l, r, hsplit, hl, hr, hadd, hput⟩ :=
      addOrderAtPrice_spec (s := s₂) (b := b) (x := x)
        (by unfold levelSide; rw [hlevelx, hv])
        ((hlev₁.ring b).congr
          (fun p hp => by unfold nextEntry; rw [hkeep p hp])
          (fun p hp => by unfold prevEntry; rw [hkeep p hp]))
        (by rw [hs₂.best]; exact hlev₁.head b)
        (fun hmem => hx ⟨b, hmem⟩)
        ((h.levels.sorted b).imp_of_mem fun {p q} hp hq hpq => by
          rw [hkeepPrice p hp, hkeepPrice q hq]
          exact hpq)
        (fun p hp heq => by
          -- a level of that price would own the slot
          rw [hkeepPrice p hp, hpricex, hv] at heq
          have hown := h.levels.slot_price ⟨b, hp⟩
          rw [heq, hslot] at hown
          cases hown)
        (by
          rw [hs₂.levelPool.size]
          have hsub : (lay.levels b).length
              ≤ (List.range s₁.ordersAtPricePool.size).length := by
            refine ((h.levels.ring b).nodup.subperm fun p hp => ?_).length_le
            rw [List.mem_range]
            exact hlev₁.pool.used_lt p ((hlev₁.used p).2 ⟨b, hp⟩)
          rwa [List.length_range] at hsub)
    have hsplitmem : ∀ p, p ∈ l ∨ p ∈ r → p ∈ lay.levels b := fun p hp => by
      rw [hsplit, List.mem_append]
      exact hp
    have hlaid := hlev₁.putIn hx hs₂ hput hsplit (by rw [hv])
      (fun p hp => by
        rw [hprice₁, ← hkeepPrice p (hsplitmem p (Or.inl hp)), ← hpricex]
        exact hl p hp)
      (fun p hp => by
        rw [hprice₁, ← hkeepPrice p (hsplitmem p (Or.inr hp)), ← hpricex]
        exact hr p hp)
      (by rw [hslots₁, hv]; exact hslot)
    have hpool : s'.orderPool = s₁.orderPool :=
      hput.same.orderPool.trans hs₂.orderPool
    refine ⟨s', x, l, r, ?_, hx, hsplit, ⟨hlaid.setQueue _ _, ?_⟩, ?_, ?_, ?_⟩
    · rw [hrun, Exec.run_bind_ok halloc, hadd]
    · refine h.queues.newLevel hx (by rw [hpool, hs₁]) (fun p => ?_)
        (fun p => ?_) (fun p => rfl)
      · rw [hput.same.firstOrder]
        unfold firstOrder
        rw [hlevel, hs₁]
        split
        · rw [hv]
        · rfl
      · exact Layout.hasLevel_putIn hsplit p
    · rw [← hrest₁]
      funext q
      simp only [resting, order, hpool]
    · intro p
      rw [hput.same.levelSide, ← hside₁]
      unfold levelSide
      rw [hlevel]
      split
      · rw [hv]
      · rfl
    · intro p
      rw [hput.same.levelPrice, ← hprice₁]
      unfold levelPrice
      rw [hlevel]
      split
      · rw [hv]
      · rfl
  · right
    refine ⟨⟨s₂, by rw [hrun, Exec.run_bind_error herr]⟩, ?_⟩
    by_contra hlen
    obtain ⟨p, hp, hcur, hfree⟩ := MemPool.exists_free
      (m := s₁.ordersAtPricePool) (l := lay.levels true ++ lay.levels false)
      (fun p hp => by
        obtain ⟨c, hc⟩ := (hlev₁.used p).1 hp
        cases c
        · exact List.mem_append_right _ hc
        · exact List.mem_append_left _ hc)
      (by rw [hlev₁.size]; omega)
    have hused := hfull p hp hcur
    unfold levelUsed at hused
    rw [hfree] at hused
    cases hused

end Ladder

end ElectronicTrading
