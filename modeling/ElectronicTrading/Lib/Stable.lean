/-
Sorting by a key, when elements may share one.

`Ordered key l` is all that a sort by `key` promises of its output,
besides being a permutation. `Stable key l l'` adds that elements of one
key keep their places among themselves, which determines `l'`
(`Stable.unique`).

A sort that need not be stable, whose output is read through `f`, looks
stable whatever it does exactly if elements of one key look alike
(`all_stable_iff`): if two of them differ, two neighbours of the sorted
list do (`ties_of_neighbours`), and these may be swapped.
-/
import Mathlib.Data.List.Chain
import Mathlib.Data.List.Pairwise
import Mathlib.Data.List.Sort

namespace Sorting

variable {α β κ : Type} [LinearOrder κ] {key : α → κ} {l m : List α}

/-- In the order of the key. -/
def Ordered (key : α → κ) (l : List α) : Prop :=
  l.Pairwise fun a b => key a ≤ key b

/-- `l'` is `l` in the order of the key, equal keys in the order of `l`. -/
structure Stable (key : α → κ) (l l' : List α) : Prop where
  perm : l'.Perm l
  ordered : Ordered key l'
  ties : ∀ k, l'.filter (key · = k) = l.filter (key · = k)

/-- A list in order is determined by its elements of each key. -/
theorem eq_of_ties (hl : Ordered key l) (hm : Ordered key m)
    (h : ∀ k, l.filter (key · = k) = m.filter (key · = k)) : l = m := by
  induction l generalizing m with
  | nil =>
    cases m with
    | nil => rfl
    | cons b m =>
      have hb := h (key b)
      simp at hb
  | cons a l ih =>
    cases m with
    | nil =>
      have ha := h (key a)
      simp at ha
    | cons b m =>
      have hmem : ∀ {c : α} {x y : List α},
          x.filter (key · = key c) = y.filter (key · = key c) → c ∈ x →
          c ∈ y := by
        intro c x y heq hc
        have hin : c ∈ x.filter (key · = key c) :=
          List.mem_filter.2 ⟨hc, decide_eq_true rfl⟩
        rw [heq] at hin
        exact (List.mem_filter.1 hin).1
      have hhead : ∀ {c d : α} {x : List α}, Ordered key (d :: x) →
          c ∈ d :: x → key d ≤ key c := by
        intro c d x hx hc
        rcases List.mem_cons.1 hc with rfl | hc
        · exact le_rfl
        · exact (List.pairwise_cons.1 hx).1 c hc
      have hab : key a = key b := by
        apply le_antisymm
        · exact hhead hl (hmem (h (key b)).symm List.mem_cons_self)
        · exact hhead hm (hmem (h (key a)) List.mem_cons_self)
      have hfirst := h (key a)
      rw [List.filter_cons_of_pos (by simp),
        List.filter_cons_of_pos (by simp [hab])] at hfirst
      obtain ⟨rfl, -⟩ := List.cons.inj hfirst
      have hrest : l = m := by
        refine ih (List.pairwise_cons.1 hl).2 (List.pairwise_cons.1 hm).2 ?_
        intro k
        have hk := h k
        by_cases hak : key a = k
        · rw [List.filter_cons_of_pos (by simp [hak]),
            List.filter_cons_of_pos (by simp [hak])] at hk
          exact (List.cons.inj hk).2
        · rw [List.filter_cons_of_neg (by simp [hak]),
            List.filter_cons_of_neg (by simp [hak])] at hk
          exact hk
      rw [hrest]

/-- There is one stable sort of a list. -/
theorem Stable.unique {l₁ l₂ : List α} (h₁ : Stable key l l₁)
    (h₂ : Stable key l l₂) : l₁ = l₂ :=
  eq_of_ties h₁.ordered h₂.ordered fun k => by rw [h₁.ties, h₂.ties]

/-- The merge sort is one. -/
theorem stable_mergeSort (key : α → κ) (l : List α) :
    Stable key l (l.mergeSort fun a b => decide (key a ≤ key b)) := by
  have htrans : ∀ a b c : α, decide (key a ≤ key b) = true →
      decide (key b ≤ key c) = true → decide (key a ≤ key c) = true :=
    fun a b c hab hbc =>
      decide_eq_true (le_trans (of_decide_eq_true hab) (of_decide_eq_true hbc))
  have htotal : ∀ a b : α,
      (decide (key a ≤ key b) || decide (key b ≤ key a)) = true := by
    intro a b
    rcases le_total (key a) (key b) with hab | hab <;> simp [hab]
  have hperm := List.mergeSort_perm l fun a b => decide (key a ≤ key b)
  refine ⟨hperm, ?_, fun k => ?_⟩
  · refine (List.pairwise_mergeSort htrans htotal l).imp ?_
    exact fun hab => of_decide_eq_true hab
  · have hsame : (l.filter (key · = k)).Pairwise
        fun a b => decide (key a ≤ key b) = true := by
      refine List.pairwise_of_forall_mem_list fun a ha b hb => ?_
      have hka := of_decide_eq_true (List.mem_filter.1 ha).2
      have hkb := of_decide_eq_true (List.mem_filter.1 hb).2
      rw [hka, hkb]
      exact decide_eq_true le_rfl
    have hsub := (List.sublist_mergeSort htrans htotal hsame
      List.filter_sublist).filter (key · = k)
    rw [List.filter_filter] at hsub
    simp only [Bool.and_self] at hsub
    exact (hsub.eq_of_length (hperm.filter _).length_eq.symm).symm

/-- In a list in order, elements of one key look alike if neighbours do. -/
theorem ties_of_neighbours {f : α → β} (hl : Ordered key l)
    (h : ∀ x a b y, l = x ++ a :: b :: y → key a = key b → f a = f b) :
    ∀ a ∈ l, ∀ b ∈ l, key a = key b → f a = f b := by
  have hchain : l.IsChain fun a b =>
      key a ≤ key b ∧ (key a = key b → f a = f b) := by
    apply List.isChain_iff_forall_rel_of_append_cons_cons.2
    intro a b x y heq
    refine ⟨?_, h x a b y heq⟩
    rw [heq] at hl
    exact (List.pairwise_cons.1 (List.pairwise_append.1 hl).2.1).1 b
      List.mem_cons_self
  have hpair : l.Pairwise fun a b =>
      key a ≤ key b ∧ (key a = key b → f a = f b) := by
    have htrans : IsTrans α fun a b =>
        key a ≤ key b ∧ (key a = key b → f a = f b) := by
      constructor
      rintro a b c ⟨hab, hf⟩ ⟨hbc, hf'⟩
      refine ⟨le_trans hab hbc, fun hac => ?_⟩
      have hab' : key a = key b := le_antisymm hab (hac ▸ hbc)
      rw [hf hab', hf' (hab'.symm.trans hac)]
    exact List.isChain_iff_pairwise.1 hchain
  have hsymm : Std.Symm fun a b : α => key a = key b → f a = f b :=
    ⟨fun _ _ hab hba => (hab hba.symm).symm⟩
  intro a ha b hb
  exact List.Pairwise.forall_of_forall (fun _ _ _ => rfl)
    (hpair.imp fun hab => hab.2) ha hb

omit [LinearOrder κ] in
/-- Lists of the same keys look alike if elements of one key do. -/
theorem map_eq_of_keys {f : α → β} (h : l.map key = m.map key)
    (hties : ∀ a ∈ l, ∀ b ∈ m, key a = key b → f a = f b) :
    l.map f = m.map f := by
  induction l generalizing m with
  | nil =>
    cases m with
    | nil => rfl
    | cons b m => cases h
  | cons a l ih =>
    cases m with
    | nil => cases h
    | cons b m =>
      obtain ⟨hkey, hrest⟩ := List.cons.inj h
      have htail := ih hrest fun a' ha' b' hb' =>
        hties a' (List.mem_cons_of_mem a ha') b' (List.mem_cons_of_mem b hb')
      rw [List.map_cons, List.map_cons, htail,
        hties a List.mem_cons_self b List.mem_cons_self hkey]

/-- Read through `f`, every sort is a stable one exactly if elements of
one key look alike. -/
theorem all_stable_iff (key : α → κ) (f : α → β) (l : List α) :
    (∀ m, m.Perm l → Ordered key m →
        ∃ l', Stable key l l' ∧ m.map f = l'.map f)
      ↔ ∀ a ∈ l, ∀ b ∈ l, key a = key b → f a = f b := by
  have hsort := stable_mergeSort key l
  constructor
  · intro hall a ha b hb
    refine ties_of_neighbours (f := f) hsort.ordered ?_ a
      (hsort.perm.mem_iff.2 ha) b (hsort.perm.mem_iff.2 hb)
    intro x c d y heq hcd
    have hordered := hsort.ordered
    have hperm := hsort.perm
    rw [heq] at hordered hperm
    have hswap : (x ++ d :: c :: y).Perm (x ++ c :: d :: y) :=
      (List.Perm.swap c d y).append_left x
    have hordered' : Ordered key (x ++ d :: c :: y) := by
      unfold Ordered at hordered ⊢
      simp only [List.pairwise_append, List.pairwise_cons, List.mem_cons]
        at hordered ⊢
      grind
    obtain ⟨l₁, h₁, heq₁⟩ := hall _ hperm hordered
    obtain ⟨l₂, h₂, heq₂⟩ := hall _ (hswap.trans hperm) hordered'
    rw [← h₂.unique h₁, ← heq₂, List.map_append, List.map_append] at heq₁
    exact (List.cons.inj (List.append_cancel_left heq₁)).1
  · intro hties m hperm hordered
    refine ⟨_, hsort, ?_⟩
    have hkeys : m.map key
        = (l.mergeSort fun a b => decide (key a ≤ key b)).map key := by
      refine List.Perm.eq_of_pairwise' (r := (· ≤ ·)) ?_ ?_ ?_
      · exact List.pairwise_map.2 hordered
      · exact List.pairwise_map.2 hsort.ordered
      · exact (hperm.trans hsort.perm.symm).map key
    refine map_eq_of_keys hkeys fun a ha b hb => ?_
    exact hties a (hperm.mem_iff.1 ha) b (hsort.perm.mem_iff.1 hb)

end Sorting
