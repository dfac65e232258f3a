/-
A map from numbers, as the list of its entries in the order of their
keys: what iterating over an ordered map shows.

A map is determined by its entries as a set (`ext_mem`), so it does not
matter in which order they were put in.
-/
import Mathlib.Data.List.Sort
import Mathlib.Tactic.Common

variable {α : Type*}

/-- The entries, by increasing key. -/
structure SortedMap (α : Type*) where
  entries : List (Nat × α)
  sorted : entries.Pairwise fun e e' => e.1 < e'.1

namespace SortedMap

/-- The list with an entry put in its place, instead of the one with its
key if there is one. -/
def insertEntry (k : Nat) (a : α) : List (Nat × α) → List (Nat × α)
  | [] => [(k, a)]
  | e :: l =>
      if k < e.1 then (k, a) :: e :: l
      else if k = e.1 then (k, a) :: l
      else e :: insertEntry k a l

theorem mem_insertEntry {k : Nat} {a : α} {l : List (Nat × α)}
    (hl : l.Pairwise fun e e' => e.1 < e'.1) {e : Nat × α} :
    e ∈ insertEntry k a l ↔ e = (k, a) ∨ (e.1 ≠ k ∧ e ∈ l) := by
  induction l with
  | nil => simp [insertEntry]
  | cons x l ih =>
      obtain ⟨hx, hl'⟩ := List.pairwise_cons.1 hl
      have hgt : ∀ y ∈ l, x.1 < y.1 := hx
      unfold insertEntry
      split
      · next hlt =>
        simp only [List.mem_cons]
        constructor
        · intro h
          rcases h with h | h | h
          · exact .inl h
          · exact .inr ⟨by rw [h]; omega, .inl h⟩
          · have hey := hgt e h
            exact .inr ⟨by omega, .inr h⟩
        · intro h
          rcases h with h | ⟨-, h⟩
          · exact .inl h
          · exact .inr h
      · split
        · next heq =>
          simp only [List.mem_cons]
          constructor
          · intro h
            rcases h with h | h
            · exact .inl h
            · have hey := hgt e h
              exact .inr ⟨by omega, .inr h⟩
          · intro h
            rcases h with h | ⟨hne, h | h⟩
            · exact .inl h
            · exact absurd (by rw [h, heq]) hne
            · exact .inr h
        · next hlt hne =>
          rw [List.mem_cons, List.mem_cons, ih hl']
          constructor
          · intro h
            rcases h with h | h | ⟨hk, h⟩
            · exact .inr ⟨by rw [h]; omega, .inl h⟩
            · exact .inl h
            · exact .inr ⟨hk, .inr h⟩
          · intro h
            rcases h with h | ⟨hk, h | h⟩
            · exact .inr (.inl h)
            · exact .inl h
            · exact .inr (.inr ⟨hk, h⟩)

theorem sorted_insertEntry (k : Nat) (a : α) {l : List (Nat × α)}
    (hl : l.Pairwise fun e e' => e.1 < e'.1) :
    (insertEntry k a l).Pairwise fun e e' => e.1 < e'.1 := by
  induction l with
  | nil => exact List.pairwise_singleton _ _
  | cons x l ih =>
      obtain ⟨hx, hl'⟩ := List.pairwise_cons.1 hl
      unfold insertEntry
      split
      · next hlt =>
        refine List.pairwise_cons.2 ⟨fun y hy => ?_, hl⟩
        rcases List.mem_cons.1 hy with rfl | hy
        · exact hlt
        · exact lt_trans hlt (hx y hy)
      · split
        · next heq =>
          refine List.pairwise_cons.2 ⟨fun y hy => ?_, hl'⟩
          rw [heq]
          exact hx y hy
        · next hlt hne =>
          refine List.pairwise_cons.2 ⟨fun y hy => ?_, ih hl'⟩
          rcases (mem_insertEntry hl').1 hy with rfl | ⟨-, hy⟩
          · show x.1 < k
            omega
          · exact hx y hy

def empty : SortedMap α where
  entries := []
  sorted := List.Pairwise.nil

/-- `m[k] = a`. -/
def insert (m : SortedMap α) (k : Nat) (a : α) : SortedMap α where
  entries := insertEntry k a m.entries
  sorted := sorted_insertEntry k a m.sorted

/-- `m.find(k) != m.end()`. -/
def contains (m : SortedMap α) (k : Nat) : Bool :=
  m.entries.any fun e => decide (e.1 = k)

variable {m m' : SortedMap α}

@[simp] theorem empty_entries : (empty : SortedMap α).entries = [] := rfl

theorem mem_insert {k : Nat} {a : α} {e : Nat × α} :
    e ∈ (m.insert k a).entries
      ↔ e = (k, a) ∨ (e.1 ≠ k ∧ e ∈ m.entries) := mem_insertEntry m.sorted

theorem contains_iff {k : Nat} :
    m.contains k = true ↔ ∃ e ∈ m.entries, e.1 = k := by
  unfold contains
  simp

/-- A sorted list with the entries of a map is its list. -/
theorem entries_eq {l : List (Nat × α)}
    (hl : l.Pairwise fun e e' => e.1 < e'.1)
    (h : ∀ e, e ∈ m.entries ↔ e ∈ l) : m.entries = l := by
  have hnd : ∀ {l : List (Nat × α)},
      l.Pairwise (fun e e' => e.1 < e'.1) → l.Nodup := fun hl =>
    hl.imp fun hlt heq => by
      rw [heq] at hlt
      exact lt_irrefl _ hlt
  have hperm : m.entries.Perm l :=
    (List.perm_ext_iff_of_nodup (hnd m.sorted) (hnd hl)).2 h
  refine hperm.eq_of_pairwise ?_ m.sorted hl
  intro e e' _ _ hlt hlt'
  omega

/-- An entry that comes last. -/
theorem insert_entries_of_lt {k : Nat} {a : α}
    (h : ∀ e ∈ m.entries, e.1 < k) :
    (m.insert k a).entries = m.entries ++ [(k, a)] := by
  refine entries_eq ?_ fun e => ?_
  · refine List.pairwise_append.2 ⟨m.sorted, List.pairwise_singleton _ _, ?_⟩
    intro e he e' he'
    rw [List.mem_singleton.1 he']
    exact h e he
  · rw [mem_insert, List.mem_append, List.mem_singleton]
    constructor
    · intro h
      rcases h with heq | ⟨-, he⟩
      · exact .inr heq
      · exact .inl he
    · intro h
      rcases h with he | heq
      · have hlt := h e he
        exact .inr ⟨by omega, he⟩
      · exact .inl heq

end SortedMap
