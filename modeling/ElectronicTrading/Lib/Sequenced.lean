/-
Numbered items, and a receiver that takes them in order.

The receiver counts: it takes the first item with the number it expects,
and expects the next number from then on; it drops all others.
`inSequence` is what it takes of a list. What is taken is `Numbered`, and
of a numbered list everything is taken. Numbers are 64 bits wide and wrap
around.
-/
import Mathlib.Data.List.Induction
import Mathlib.Data.List.Nodup
import Mathlib.Data.UInt
import Mathlib.Tactic.Common

namespace Sequenced

variable {α : Type} {number : α → UInt64}

/-- The first item numbered `next`, the first after it with the number
after that, and so on. -/
def inSequence (number : α → UInt64) (next : UInt64) : List α → List α
  | [] => []
  | a :: l =>
      if number a = next then a :: inSequence number (next + 1) l
      else inSequence number next l

/-- The items are numbered from `next` on. -/
def Numbered (number : α → UInt64) (next : UInt64) : List α → Prop
  | [] => True
  | a :: l => number a = next ∧ Numbered number (next + 1) l

theorem add_ofNat_succ (next : UInt64) (n : Nat) :
    next + 1 + UInt64.ofNat n = next + UInt64.ofNat (n + 1) := by
  rw [UInt64.ofNat_add, UInt64.add_assoc, UInt64.add_comm 1]
  rfl

/-- One more item is taken if it has the number that comes next. -/
theorem inSequence_snoc (next : UInt64) (l : List α) (a : α) :
    inSequence number next (l ++ [a]) = inSequence number next l
      ++ if number a = next + UInt64.ofNat (inSequence number next l).length
        then [a] else [] := by
  induction l generalizing next with
  | nil =>
      have hzero : next + UInt64.ofNat 0 = next := UInt64.add_zero next
      simp only [List.nil_append, inSequence, List.length_nil, hzero]
  | cons b l ih =>
      rw [List.cons_append, inSequence, inSequence]
      split
      · rw [ih, add_ofNat_succ]
        rfl
      · exact ih next

theorem inSequence_sublist (next : UInt64) (l : List α) :
    (inSequence number next l).Sublist l := by
  induction l generalizing next with
  | nil => exact List.Sublist.refl []
  | cons a l ih =>
      rw [inSequence]
      split
      · exact (ih _).cons_cons a
      · exact (ih _).cons a

theorem numbered_inSequence (next : UInt64) (l : List α) :
    Numbered number next (inSequence number next l) := by
  induction l generalizing next with
  | nil => trivial
  | cons a l ih =>
      rw [inSequence]
      split
      · next ha => exact ⟨ha, ih _⟩
      · exact ih next

/-- Of a numbered list everything is taken. -/
theorem Numbered.inSequence_eq {next : UInt64} {l : List α}
    (h : Numbered number next l) : inSequence number next l = l := by
  induction l generalizing next with
  | nil => rfl
  | cons a l ih => rw [inSequence, if_pos h.1, ih h.2]

/-- The numbers of a numbered list. -/
theorem Numbered.numbers {next : UInt64} {l : List α}
    (h : Numbered number next l) : l.map number
      = (List.range l.length).map fun i => next + UInt64.ofNat i := by
  induction l generalizing next with
  | nil => rfl
  | cons a l ih =>
      have hzero : next + UInt64.ofNat 0 = next := UInt64.add_zero next
      rw [List.map_cons, ih h.2, List.length_cons, List.range_succ_eq_map,
        List.map_cons, List.map_map, h.1, hzero]
      refine congrArg _ (List.map_congr_left fun i _ => ?_)
      exact add_ofNat_succ next i

/-- The next number for one more item. -/
theorem Numbered.snoc {next : UInt64} {l : List α} {a : α}
    (h : Numbered number next l)
    (ha : number a = next + UInt64.ofNat l.length) :
    Numbered number next (l ++ [a]) := by
  induction l generalizing next with
  | nil =>
      have hzero : next + UInt64.ofNat 0 = next := UInt64.add_zero next
      exact ⟨ha.trans hzero, trivial⟩
  | cons b l ih =>
      refine ⟨h.1, ih h.2 ?_⟩
      rw [add_ofNat_succ]
      exact ha

/-- No number comes twice before they wrap around. -/
theorem Numbered.unique {next : UInt64} {l : List α}
    (h : Numbered number next l) (hlen : l.length ≤ 2 ^ 64) {a b : α}
    (ha : a ∈ l) (hb : b ∈ l) (hab : number a = number b) : a = b := by
  have hnodup : (l.map number).Nodup := by
    rw [h.numbers]
    apply List.Nodup.map_on ?_ List.nodup_range
    intro i hi j hj hij
    have hi := List.mem_range.1 hi
    have hj := List.mem_range.1 hj
    have hsize : UInt64.size = 2 ^ 64 := rfl
    have hofNat : (UInt64.ofNat i).toNat = (UInt64.ofNat j).toNat :=
      congrArg UInt64.toNat ((UInt64.add_right_inj next).1 hij)
    rwa [UInt64.toNat_ofNat_of_lt' (by omega),
      UInt64.toNat_ofNat_of_lt' (by omega)] at hofNat
  exact List.inj_on_of_nodup_map hnodup ha hb hab

theorem Numbered.part {next : UInt64} {l l' : List α}
    (h : Numbered number next l) (hpre : l' <+: l) :
    Numbered number next l' := by
  induction l generalizing next l' with
  | nil =>
      rw [List.prefix_nil.1 hpre]
      trivial
  | cons a l ih =>
      cases l' with
      | nil => trivial
      | cons b l' =>
          obtain ⟨rfl, hrest⟩ := List.cons_prefix_cons.1 hpre
          exact ⟨h.1, ih h.2 hrest⟩

end Sequenced
