/-
Circular doubly linked lists over two partial link functions.

A memory is seen only through `next prev : α → Option α` (what each
node's two link fields hold). `IsRing next prev l` says that the nodes
of `l`, read in order and from the last back to the first, are linked
in both directions. The list is a reading of the ring from one chosen
node: a ring read from another node is the same ring
(`isRing_of_isRotated`), which is what lets one insertion lemma and one
removal lemma, both stated at the ends of the list, serve every
position (`IsRing.insert`, `IsRing.remove`).

The link condition is Mathlib's `Cycle.Chain`, so rotation invariance
is the cycle's own.
-/
import Mathlib.Data.List.Cycle
import Mathlib.Data.Finset.Card

namespace LinkedRing

variable {α : Type*} {next prev next' prev' : α → Option α}

-- ============================================================== rings

/-- `y` follows `x`: both link fields agree on it. -/
def Link (next prev : α → Option α) (x y : α) : Prop :=
  next x = some y ∧ prev y = some x

/-- The nodes of `l` form a ring that reads `l` from its first node on:
no node twice, each linked to the one after it, the last to the
first. -/
structure IsRing (next prev : α → Option α) (l : List α) : Prop where
  nodup : l.Nodup
  linked : Cycle.Chain (Link next prev) (l : Cycle α)

theorem isRing_nil : IsRing next prev [] :=
  ⟨List.nodup_nil, Cycle.Chain.nil _⟩

/-- A single node is a ring when it is its own neighbour. -/
theorem isRing_singleton {x : α} (hn : next x = some x)
    (hp : prev x = some x) : IsRing next prev [x] :=
  ⟨List.nodup_singleton x, (Cycle.chain_singleton _ x).2 ⟨hn, hp⟩⟩

/-- A ring may be read from any of its nodes. -/
theorem isRing_of_isRotated {l l' : List α} (hrot : l ~r l')
    (h : IsRing next prev l) : IsRing next prev l' := by
  refine ⟨hrot.nodup_iff.1 h.nodup, ?_⟩
  have hcycle : (l : Cycle α) = (l' : Cycle α) := Cycle.coe_eq_coe.2 hrot
  rw [← hcycle]
  exact h.linked

/-- Reading a ring from the first node of its second half. -/
theorem IsRing.swap {l₁ l₂ : List α} (h : IsRing next prev (l₁ ++ l₂)) :
    IsRing next prev (l₂ ++ l₁) :=
  isRing_of_isRotated List.isRotated_append h

-- =================================================== links of a reading

/-- The ring condition, unrolled at the first node. -/
theorem isRing_cons_iff {a : α} {l : List α} :
    IsRing next prev (a :: l)
      ↔ (a :: l).Nodup ∧ List.IsChain (Link next prev) (a :: l)
        ∧ Link next prev ((a :: l).getLast (List.cons_ne_nil a l)) a := by
  constructor
  · intro h
    obtain ⟨hnd, hch⟩ := h
    rw [Cycle.chain_coe_cons, ← List.cons_append, List.isChain_append] at hch
    refine ⟨hnd, hch.1, ?_⟩
    exact hch.2.2 _ (List.getLast_mem_getLast? _) a rfl
  · intro h
    obtain ⟨hnd, hch, hback⟩ := h
    refine ⟨hnd, ?_⟩
    rw [Cycle.chain_coe_cons, ← List.cons_append, List.isChain_append]
    refine ⟨hch, List.isChain_singleton a, ?_⟩
    intro x hx y hy
    rw [List.getLast?_eq_getLast_of_ne_nil (List.cons_ne_nil a l)] at hx
    cases hx
    cases hy
    exact hback

/-- The first node's `prev` is the last node. -/
theorem IsRing.prev_head {a : α} {l : List α}
    (h : IsRing next prev (a :: l)) :
    prev a = some ((a :: l).getLast (List.cons_ne_nil a l)) :=
  (isRing_cons_iff.1 h).2.2.2

/-- The last node's `next` is the first node. -/
theorem IsRing.next_getLast {a : α} {l : List α}
    (h : IsRing next prev (a :: l)) :
    next ((a :: l).getLast (List.cons_ne_nil a l)) = some a :=
  (isRing_cons_iff.1 h).2.2.1

/-- The first node's `next` is the second node. -/
theorem IsRing.next_head {a b : α} {l : List α}
    (h : IsRing next prev (a :: b :: l)) : next a = some b :=
  ((List.isChain_cons_cons.1 (isRing_cons_iff.1 h).2.1).1).1

/-- A node is its own `next` exactly when it is alone. -/
theorem IsRing.next_head_eq_self_iff {a : α} {l : List α}
    (h : IsRing next prev (a :: l)) : next a = some a ↔ l = [] := by
  cases l with
  | nil => simpa using h.next_getLast
  | cons b l =>
      rw [h.next_head]
      have hne : b ≠ a := by
        have := h.nodup
        simp only [List.nodup_cons, List.mem_cons, not_or] at this
        exact fun hba => this.1.1 hba.symm
      simpa using hne

/-- A ring read from one of its nodes on, with the two neighbours of
that node spelled out. -/
theorem IsRing.exists_reading {l₁ l₂ : List α} {x : α}
    (h : IsRing next prev (l₁ ++ x :: l₂)) (hne : l₁ ++ l₂ ≠ []) :
    ∃ a m, l₂ ++ l₁ = a :: m ∧ IsRing next prev (x :: a :: m)
      ∧ next x = some a
      ∧ prev x = some ((a :: m).getLast (List.cons_ne_nil a m)) := by
  have hrot : IsRing next prev (x :: (l₂ ++ l₁)) := by simpa using h.swap
  cases hm : l₂ ++ l₁ with
  | nil =>
      simp only [List.append_eq_nil_iff] at hm
      exact absurd (by simp [hm.1, hm.2]) hne
  | cons a m =>
      rw [hm] at hrot
      refine ⟨a, m, rfl, hrot, hrot.next_head, ?_⟩
      rw [hrot.prev_head, List.getLast_cons (List.cons_ne_nil a m)]

/-- The `next` of any node: the node after it, or the first one. -/
theorem IsRing.next_eq {l₁ l₂ : List α} {x : α}
    (h : IsRing next prev (l₁ ++ x :: l₂)) :
    next x = (l₂ ++ (l₁ ++ [x])).head? := by
  have hrot : IsRing next prev (x :: (l₂ ++ l₁)) := by simpa using h.swap
  cases l₂ with
  | cons b l₂ => simpa using hrot.next_head
  | nil =>
      cases l₁ with
      | nil => simpa using hrot.next_getLast
      | cons b l₁ => simpa using hrot.next_head

/-- The `prev` of any node: the node before it, or the last one. -/
theorem IsRing.prev_eq {l₁ l₂ : List α} {x : α}
    (h : IsRing next prev (l₁ ++ x :: l₂)) :
    prev x = ((x :: l₂) ++ l₁).getLast? := by
  have hrot : IsRing next prev (x :: (l₂ ++ l₁)) := by simpa using h.swap
  rw [hrot.prev_head, List.cons_append,
    List.getLast?_eq_getLast_of_ne_nil (List.cons_ne_nil _ _)]

-- ====================================================== frame and moves

/-- Links that did not change keep the ring. -/
theorem IsRing.congr {l : List α} (h : IsRing next prev l)
    (hn : ∀ x ∈ l, next' x = next x) (hp : ∀ x ∈ l, prev' x = prev x) :
    IsRing next' prev' l := by
  cases l with
  | nil => exact isRing_nil
  | cons a l =>
      obtain ⟨hnd, hch, hback⟩ := isRing_cons_iff.1 h
      refine isRing_cons_iff.2 ⟨hnd, ?_, ?_⟩
      · rw [List.isChain_iff_getElem] at hch ⊢
        intro i hi
        obtain ⟨h1, h2⟩ := hch i hi
        exact ⟨(hn _ (List.getElem_mem _)).trans h1,
          (hp _ (List.getElem_mem _)).trans h2⟩
      · exact ⟨(hn _ (List.getLast_mem _)).trans hback.1,
          (hp _ (List.mem_cons_self ..)).trans hback.2⟩

/-- An open segment survives changes to the links that leave it: the
`next` of its last node and the `prev` of its first. -/
theorem isChain_congr_open {a : α} {l : List α} (hnd : (a :: l).Nodup)
    (hch : List.IsChain (Link next prev) (a :: l))
    (hn : ∀ x ∈ a :: l,
      x ≠ (a :: l).getLast (List.cons_ne_nil a l) → next' x = next x)
    (hp : ∀ x ∈ a :: l, x ≠ a → prev' x = prev x) :
    List.IsChain (Link next' prev') (a :: l) := by
  rw [List.isChain_iff_getElem] at hch ⊢
  intro i hi
  obtain ⟨h1, h2⟩ := hch i hi
  constructor
  · rw [hn _ (List.getElem_mem _), h1]
    rw [List.getLast_eq_getElem]
    intro heq
    have := (hnd.getElem_inj_iff).1 heq
    simp only [List.length_cons] at this hi
    omega
  · rw [hp _ (List.getElem_mem _), h2]
    intro heq
    have h0 : (a :: l)[i + 1] = (a :: l)[0] := heq
    have := (hnd.getElem_inj_iff).1 h0
    omega

/-- Linking a new node `x` in between the last and the first node. -/
theorem IsRing.snoc {a x : α} {l : List α}
    (h : IsRing next prev (a :: l)) (hx : x ∉ a :: l)
    (hn : ∀ y ∈ a :: l, y ≠ (a :: l).getLast (List.cons_ne_nil a l) →
      next' y = next y)
    (hp : ∀ y ∈ a :: l, y ≠ a → prev' y = prev y)
    (hlast : next' ((a :: l).getLast (List.cons_ne_nil a l)) = some x)
    (hxp : prev' x = some ((a :: l).getLast (List.cons_ne_nil a l)))
    (hxn : next' x = some a) (hhead : prev' a = some x) :
    IsRing next' prev' (a :: l ++ [x]) := by
  obtain ⟨hnd, hch, -⟩ := isRing_cons_iff.1 h
  rw [List.cons_append]
  refine isRing_cons_iff.2 ⟨?_, ?_, ?_⟩
  · rw [← List.cons_append]
    exact hnd.append (List.nodup_singleton x)
      (List.disjoint_singleton.2 hx)
  · rw [← List.cons_append, List.isChain_append]
    refine ⟨isChain_congr_open hnd hch hn hp, List.isChain_singleton x, ?_⟩
    intro y hy z hz
    rw [List.getLast?_eq_getLast_of_ne_nil (List.cons_ne_nil a l)] at hy
    cases hy
    cases hz
    exact ⟨hlast, hxp⟩
  · simpa using ⟨hxn, hhead⟩

/-- Unlinking the first node `x` of a ring that has others. -/
theorem IsRing.tail {x a : α} {l : List α}
    (h : IsRing next prev (x :: a :: l))
    (hn : ∀ y ∈ a :: l, y ≠ (a :: l).getLast (List.cons_ne_nil a l) →
      next' y = next y)
    (hp : ∀ y ∈ a :: l, y ≠ a → prev' y = prev y)
    (hlast : next' ((a :: l).getLast (List.cons_ne_nil a l)) = some a)
    (hhead : prev' a = some ((a :: l).getLast (List.cons_ne_nil a l))) :
    IsRing next' prev' (a :: l) := by
  obtain ⟨hnd, hch, -⟩ := isRing_cons_iff.1 h
  have hnd' : (a :: l).Nodup := (List.nodup_cons.1 hnd).2
  have hch' := (List.isChain_cons_cons.1 hch).2
  exact isRing_cons_iff.2
    ⟨hnd', isChain_congr_open hnd' hch' hn hp, hlast, hhead⟩

-- ============================================ moves at every position

/-- Insertion at any position: the new node `x` goes in between `u` and
`v`, where `v` starts the second part (or the ring, when that part is
empty) and `u` ends the first. -/
theorem IsRing.insert {l₁ l₂ : List α} {x u v : α}
    (h : IsRing next prev (l₁ ++ l₂)) (hx : x ∉ l₁ ++ l₂)
    (hv : (l₂ ++ l₁).head? = some v) (hu : (l₂ ++ l₁).getLast? = some u)
    (hn : ∀ y ∈ l₁ ++ l₂, y ≠ u → next' y = next y)
    (hp : ∀ y ∈ l₁ ++ l₂, y ≠ v → prev' y = prev y)
    (hun : next' u = some x) (hxp : prev' x = some u)
    (hxn : next' x = some v) (hvp : prev' v = some x) :
    IsRing next' prev' (l₁ ++ x :: l₂) := by
  have hrot := h.swap
  have hmem : ∀ y, y ∈ l₂ ++ l₁ ↔ y ∈ l₁ ++ l₂ := fun y => by
    simp only [List.mem_append]
    exact or_comm
  cases hm : l₂ ++ l₁ with
  | nil => simp [hm] at hv
  | cons a m =>
      rw [hm] at hrot hv hu hmem
      cases hv
      rw [List.getLast?_eq_getLast_of_ne_nil (List.cons_ne_nil v m)] at hu
      cases hu
      have hring : IsRing next' prev' (v :: m ++ [x]) :=
        hrot.snoc (fun hxm => hx ((hmem x).1 hxm))
          (fun y hy => hn y ((hmem y).1 hy)) (fun y hy => hp y ((hmem y).1 hy))
          hun hxp hxn hvp
      rw [← hm, List.append_assoc] at hring
      simpa using hring.swap

/-- Removal at any position: the neighbours `u` and `v` of `x` are
linked to each other. -/
theorem IsRing.remove {l₁ l₂ : List α} {x u v : α}
    (h : IsRing next prev (l₁ ++ x :: l₂)) (hne : l₁ ++ l₂ ≠ [])
    (hu : prev x = some u) (hv : next x = some v)
    (hn : ∀ y ∈ l₁ ++ l₂, y ≠ u → next' y = next y)
    (hp : ∀ y ∈ l₁ ++ l₂, y ≠ v → prev' y = prev y)
    (hun : next' u = some v) (hvp : prev' v = some u) :
    IsRing next' prev' (l₁ ++ l₂) := by
  obtain ⟨a, m, hm, hring, hxn, hxp⟩ := h.exists_reading hne
  rw [hxn] at hv
  rw [hxp] at hu
  cases hv
  cases hu
  have hmem : ∀ y ∈ v :: m, y ∈ l₁ ++ l₂ := fun y hy => by
    rw [← hm] at hy
    simp only [List.mem_append] at hy ⊢
    exact hy.symm
  have htail : IsRing next' prev' (v :: m) :=
    hring.tail (fun y hy => hn y (hmem y hy)) (fun y hy => hp y (hmem y hy))
      hun hvp
  rw [← hm] at htail
  exact htail.swap

/-- The neighbours of a node that is not alone are other nodes of the
ring. -/
theorem IsRing.neighbours_mem {l₁ l₂ : List α} {x u v : α}
    (h : IsRing next prev (l₁ ++ x :: l₂)) (hne : l₁ ++ l₂ ≠ [])
    (hu : prev x = some u) (hv : next x = some v) :
    u ∈ l₁ ++ l₂ ∧ v ∈ l₁ ++ l₂ ∧ u ≠ x ∧ v ≠ x := by
  obtain ⟨a, m, hm, hring, hxn, hxp⟩ := h.exists_reading hne
  rw [hxn] at hv
  rw [hxp] at hu
  cases hv
  cases hu
  have hmem : ∀ y ∈ v :: m, y ∈ l₁ ++ l₂ := fun y hy => by
    rw [← hm] at hy
    simp only [List.mem_append] at hy ⊢
    exact hy.symm
  have hx : x ∉ v :: m := (List.nodup_cons.1 hring.nodup).1
  have hlast := List.getLast_mem (List.cons_ne_nil v m)
  exact ⟨hmem _ hlast, hmem v (List.mem_cons_self ..),
    fun heq => hx (heq ▸ hlast),
    fun heq => hx (heq ▸ List.mem_cons_self ..)⟩

-- ======================================================= reading a ring

/-- Follow `next` from `x` until it leads back to `first`, for at most
`fuel` nodes. -/
def walk [DecidableEq α] (next : α → Option α) (first : α) :
    Nat → α → List α
  | 0, _ => []
  | fuel + 1, x =>
      match next x with
      | none => [x]
      | some y => if y = first then [x] else x :: walk next first fuel y

/-- A walk along the rest of a ring reads that rest. -/
theorem walk_segment [DecidableEq α] {a x : α} {l : List α} {fuel : Nat}
    (hch : List.IsChain (Link next prev) (x :: l))
    (hback : next ((x :: l).getLast (List.cons_ne_nil x l)) = some a)
    (ha : a ∉ l) (hfuel : l.length < fuel) :
    walk next a fuel x = x :: l := by
  induction l generalizing x fuel with
  | nil =>
      obtain ⟨n, rfl⟩ : ∃ n, fuel = n + 1 := ⟨fuel - 1, by omega⟩
      have hx : next x = some a := by simpa using hback
      simp [walk, hx]
  | cons y l ih =>
      obtain ⟨n, rfl⟩ : ∃ n, fuel = n + 1 :=
        ⟨fuel - 1, by simp only [List.length_cons] at hfuel; omega⟩
      rw [List.isChain_cons_cons] at hch
      rw [List.getLast_cons (List.cons_ne_nil y l)] at hback
      simp only [List.mem_cons, not_or] at ha
      have hrest : walk next a n y = y :: l := ih hch.2 hback ha.2
        (by simp only [List.length_cons] at hfuel; omega)
      simp only [walk, hch.1.1]
      rw [if_neg (fun heq => ha.1 heq.symm), hrest]

/-- Walking a ring from its first node reads the whole ring. -/
theorem IsRing.walk_eq [DecidableEq α] {a : α} {l : List α} {fuel : Nat}
    (h : IsRing next prev (a :: l)) (hfuel : l.length < fuel) :
    walk next a fuel a = a :: l := by
  obtain ⟨hnd, hch, hback⟩ := isRing_cons_iff.1 h
  exact walk_segment hch hback.1 (List.nodup_cons.1 hnd).1 hfuel

end LinkedRing
