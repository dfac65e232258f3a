/-
What an order book is for, said on lists: price-time priority.

One side of a book is the list of its resting orders, the first to trade
first. An incoming order trades down the opposite list (`sweep`), and
what is left of it is put in its own list behind every order that is not
worse (`place`). Levels are runs of one price in a list (`levelsOf`), so
a list says everything there is to say about a side.

None of this is translated from the source. The two books, which keep
the same orders in rings, tables and pools, are proved to do this.
-/
import ElectronicTrading.Common.Types
import Mathlib.Data.List.Infix
import Mathlib.Data.List.Sort
import Mathlib.Data.List.SplitBy

namespace ElectronicTrading

/-- An order without its links: what a resting order is to a reader of
the book. -/
structure Resting (K : Type) where
  key : K
  side : Side
  price : Price
  quantity : Quantity
  priority : Priority
deriving DecidableEq, Repr

/-- The order under another key. -/
def Resting.mapKey {K K' : Type} (f : K → K') (r : Resting K) : Resting K' where
  key := f r.key
  side := r.side
  price := r.price
  quantity := r.quantity
  priority := r.priority

-- ============================================================ better prices

/-- `p` is strictly better than `q` on a side: bids descend, asks
ascend. -/
def Better (isBuy : Bool) (p q : Int) : Prop :=
  if isBuy then q < p else p < q

instance (isBuy : Bool) (p q : Int) : Decidable (Better isBuy p q) := by
  unfold Better
  infer_instance

theorem Better.trans {b : Bool} {p q r : Int} (h : Better b p q)
    (h' : Better b q r) : Better b p r := by
  unfold Better at *
  cases b <;> simp only [if_true, Bool.false_eq_true, if_false] at * <;> omega

theorem Better.ne {b : Bool} {p q : Int} (h : Better b p q) : p ≠ q := by
  unfold Better at h
  cases b <;> simp only [if_true, Bool.false_eq_true, if_false] at h <;> omega

theorem Better.asymm {b : Bool} {p q : Int} (h : Better b p q) :
    ¬ Better b q p := by
  unfold Better at *
  cases b <;> simp only [if_true, Bool.false_eq_true, if_false] at * <;> omega

theorem better_of_not {b : Bool} {p q : Int} (h : ¬ Better b p q)
    (hne : p ≠ q) : Better b q p := by
  unfold Better at *
  cases b <;> simp only [if_true, Bool.false_eq_true, if_false] at * <;> omega

/-- The side whose orders `best isBuy` heads. -/
def sideOf : Bool → Side
  | true => .buy
  | false => .sell

@[simp] theorem sideOf_eq_buy (b : Bool) : (sideOf b == .buy) = b := by
  cases b <;> rfl

theorem sideOf_injective {b c : Bool} (h : sideOf b = sideOf c) : b = c := by
  cases b <;> cases c <;> first | rfl | cases h

namespace PriceTime

variable {K : Type}

-- ============================================================== resting

/-- In priority: no order behind a worse one. -/
def Sorted (isBuy : Bool) (l : List (Resting K)) : Prop :=
  l.Pairwise fun r r' => ¬ Better isBuy r'.price r.price

/-- Put an order behind every order that is not worse. -/
def place (isBuy : Bool) (r : Resting K) (l : List (Resting K)) :
    List (Resting K) :=
  l.orderedInsert (fun x y => Better isBuy x.price y.price) r

/-- Where `place` puts an order. -/
theorem place_append {b : Bool} {r : Resting K} {l m : List (Resting K)}
    (hl : ∀ q ∈ l, ¬ Better b r.price q.price)
    (hm : ∀ q ∈ m, Better b r.price q.price) :
    place b r (l ++ m) = l ++ r :: m := by
  unfold place
  induction l with
  | nil =>
      cases m with
      | nil => rfl
      | cons q m =>
          exact List.orderedInsert_cons_of_le _ m (hm q (List.mem_cons_self ..))
  | cons q l ih =>
      rw [List.cons_append, List.orderedInsert_cons,
        if_neg (hl q (List.mem_cons_self ..)),
        ih fun q' hq' => hl q' (List.mem_cons_of_mem q hq')]
      rfl

/-- The priority of an order that arrives at a price: one more than the
last one there, or 1. -/
def nextPriority (l : List (Resting K)) (price : Price) : Priority :=
  match (l.filter (·.price = price)).getLast? with
  | none => 1
  | some r => r.priority + 1

/-- The levels of a side: the maximal runs of one price. -/
def levelsOf (l : List (Resting K)) : List (List (Resting K)) :=
  l.splitBy fun r r' => r.price == r'.price

/-- Lists of orders that are the levels of a side: each of one price, no
two of the same. -/
structure IsRuns (ls : List (List (Resting K))) : Prop where
  nonempty : ∀ l ∈ ls, l ≠ []
  one : ∀ l ∈ ls, ∀ r ∈ l, ∀ r' ∈ l, r.price = r'.price
  distinct : ls.Pairwise fun l l' => ∀ r ∈ l, ∀ r' ∈ l', r.price ≠ r'.price

/-- Such lists are the levels of the list they make up. -/
theorem IsRuns.levelsOf_flatten {ls : List (List (Resting K))}
    (h : IsRuns ls) : levelsOf ls.flatten = ls := by
  unfold levelsOf
  refine List.splitBy_flatten (fun hnil => h.nonempty [] hnil rfl) ?_ ?_
  · intro l hl
    refine List.Pairwise.isChain ?_
    refine List.pairwise_of_forall_mem_list fun r hr r' hr' => ?_
    rw [beq_iff_eq]
    exact h.one l hl r hr r' hr'
  · refine List.Pairwise.isChain ?_
    refine h.distinct.imp_of_mem fun {l l'} hl hl' hne' => ?_
    refine ⟨h.nonempty l hl, h.nonempty l' hl', ?_⟩
    rw [beq_eq_false_iff_ne]
    exact hne' _ (List.getLast_mem _) _ (List.head_mem _)

/-- Some of the levels are levels. -/
theorem IsRuns.sublist {ls ls' : List (List (Resting K))} (h : IsRuns ls)
    (hsub : ls'.Sublist ls) : IsRuns ls' where
  nonempty := fun l hl => h.nonempty l (hsub.subset hl)
  one := fun l hl => h.one l (hsub.subset hl)
  distinct := h.distinct.sublist hsub

/-- Taking an order out of its level: the level goes with its only order,
and every other level stays. -/
theorem IsRuns.remove {before after : List (List (Resting K))}
    {x y : List (Resting K)} {r : Resting K}
    (h : IsRuns (before ++ (x ++ r :: y) :: after)) :
    levelsOf (before.flatten ++ (x ++ y) ++ after.flatten)
      = before ++ (if x ++ y = [] then [] else [x ++ y]) ++ after := by
  by_cases hlast : x ++ y = []
  · have hruns : IsRuns (before ++ after) := h.sublist
      ((List.Sublist.refl before).append (List.sublist_cons_self _ after))
    have hlevels := hruns.levelsOf_flatten
    rw [List.flatten_append] at hlevels
    rw [hlast, if_pos rfl, List.append_nil, List.append_nil, hlevels]
  · have hsub : ∀ q, q ∈ x ++ y → q ∈ x ++ r :: y := fun q hq =>
      ((List.Sublist.refl x).append (List.sublist_cons_self r y)).subset hq
    obtain ⟨hbefore, hrest, hcross⟩ := List.pairwise_append.1 h.distinct
    obtain ⟨hown, hafter⟩ := List.pairwise_cons.1 hrest
    have hruns : IsRuns (before ++ (x ++ y) :: after) :=
      { nonempty := fun l hl => by
          rcases List.mem_append.1 hl with hl | hl
          · exact h.nonempty l (List.mem_append_left _ hl)
          · rcases List.mem_cons.1 hl with rfl | hl
            · exact hlast
            · exact h.nonempty l (List.mem_append_right _
                (List.mem_cons_of_mem _ hl))
        one := fun l hl => by
          rcases List.mem_append.1 hl with hl | hl
          · exact h.one l (List.mem_append_left _ hl)
          · rcases List.mem_cons.1 hl with rfl | hl
            · intro q hq q' hq'
              exact h.one _ (List.mem_append_right _
                (List.mem_cons_self ..)) q (hsub q hq) q' (hsub q' hq')
            · exact h.one l (List.mem_append_right _
                (List.mem_cons_of_mem _ hl))
        distinct := by
          refine List.pairwise_append.2 ⟨hbefore,
            List.pairwise_cons.2 ⟨fun l hl q hq => hown l hl q (hsub q hq),
              hafter⟩, ?_⟩
          intro l hl l' hl' q hq q' hq'
          rcases List.mem_cons.1 hl' with rfl | hl'
          · exact hcross l hl _ (List.mem_cons_self ..) q hq q' (hsub q' hq')
          · exact hcross l hl l' (List.mem_cons_of_mem _ hl') q hq q' hq' }
    have hlevels := hruns.levelsOf_flatten
    rw [List.flatten_append, List.flatten_cons, ← List.append_assoc]
      at hlevels
    rw [if_neg hlast, hlevels, List.append_assoc, List.singleton_append]

-- ============================================================== trading

/-- A resting order is at or inside the limit of an incoming one. -/
def crosses (isBuy : Bool) (limit : Price) (r : Resting K) : Bool :=
  if isBuy then decide (r.price ≤ limit) else decide (limit ≤ r.price)

/-- One fill: the resting order as it stood, and the quantity. -/
structure Trade (K : Type) where
  resting : Resting K
  quantity : Quantity

/-- How an incoming order trades. -/
structure Sweep (K : Type) where
  trades : List (Trade K)
  /-- The opposite list afterwards. -/
  rest : List (Resting K)
  /-- The incoming quantity not traded. -/
  left : Quantity

/-- An incoming order of `leaves` trades with the orders of the opposite
list, in their priority, until it is used up or the next one does not
cross. -/
def sweep (isBuy : Bool) (limit : Price) :
    Quantity → List (Resting K) → Sweep K
  | leaves, [] => ⟨[], [], leaves⟩
  | leaves, r :: rest =>
      if leaves = 0 ∨ crosses isBuy limit r = false then
        ⟨[], r :: rest, leaves⟩
      else
        let fill := min r.quantity leaves
        if r.quantity - fill = 0 then
          let next := sweep isBuy limit (leaves - fill) rest
          ⟨⟨r, fill⟩ :: next.trades, next.rest, next.left⟩
        else
          ⟨[⟨r, fill⟩], { r with quantity := r.quantity - fill } :: rest,
            leaves - fill⟩

-- --------------------------------------------------- fills do not wrap

/-- A fill is at most either quantity. -/
theorem fill_le (q leaves : Quantity) :
    (min q leaves).toNat = min q.toNat leaves.toNat := by
  show (if q ≤ leaves then q else leaves).toNat = _
  by_cases h : q ≤ leaves
  · rw [if_pos h]
    rw [UInt32.le_iff_toNat_le] at h
    omega
  · rw [if_neg h]
    rw [UInt32.le_iff_toNat_le] at h
    omega

theorem toNat_sub_fill_left (q leaves : Quantity) :
    (q - min q leaves).toNat = q.toNat - min q.toNat leaves.toNat := by
  have h := fill_le q leaves
  rw [UInt32.toNat_sub_of_le, h]
  rw [UInt32.le_iff_toNat_le, h]
  omega

theorem toNat_sub_fill_right (q leaves : Quantity) :
    (leaves - min q leaves).toNat
      = leaves.toNat - min q.toNat leaves.toNat := by
  have h := fill_le q leaves
  rw [UInt32.toNat_sub_of_le, h]
  rw [UInt32.le_iff_toNat_le, h]
  omega

/-- A resting order that a fill does not use up uses up the incoming
one. -/
theorem leaves_eq_zero {q leaves : Quantity}
    (h : q - min q leaves ≠ 0) : leaves - min q leaves = 0 := by
  rw [← UInt32.toNat_inj]
  have hne : (q - min q leaves).toNat ≠ 0 := fun h0 =>
    h (UInt32.toNat_inj.1 h0)
  rw [toNat_sub_fill_left] at hne
  rw [toNat_sub_fill_right]
  show _ = 0
  omega

-- ------------------------------------------------- what a sweep leaves

/-- Behind an order that does not cross, none does. -/
theorem crosses_false_of_behind {b : Bool} {limit : Price} {r r' : Resting K}
    (hr : crosses b limit r = false)
    (hbehind : ¬ Better (!b) r'.price r.price) :
    crosses b limit r' = false := by
  unfold crosses Better at *
  have key : ∀ p q l : Int, (¬ p ≤ l → ¬ q < p → ¬ q ≤ l)
      ∧ (¬ l ≤ p → ¬ p < q → ¬ l ≤ q) := fun p q l => by omega
  cases b
  · simp only [Bool.not_false, if_true, Bool.false_eq_true, if_false,
      decide_eq_false_iff_not] at *
    exact (key _ _ _).2 hr hbehind
  · simp only [Bool.not_true, Bool.false_eq_true, if_false, if_true,
      decide_eq_false_iff_not] at *
    exact (key _ _ _).1 hr hbehind

/-- With quantity left, nothing that crosses is left. -/
theorem sweep_rest_not_crosses {b : Bool} {limit : Price}
    {l : List (Resting K)} : ∀ {leaves : Quantity}, Sorted (!b) l →
    (sweep b limit leaves l).left ≠ 0 →
    ∀ r ∈ (sweep b limit leaves l).rest, crosses b limit r = false := by
  induction l with
  | nil =>
      intro leaves _ _ r hr
      cases hr
  | cons r rest ih =>
      intro leaves hsorted hleft x hx
      obtain ⟨hbehind, hsorted'⟩ := List.pairwise_cons.1 hsorted
      rw [sweep] at hleft hx
      by_cases hdone : leaves = 0 ∨ crosses b limit r = false
      · rw [if_pos hdone] at hleft hx
        have hr := hdone.resolve_left hleft
        rcases List.mem_cons.1 hx with hx | hx
        · rw [hx]
          exact hr
        · exact crosses_false_of_behind hr (hbehind x hx)
      · rw [if_neg hdone] at hleft hx
        by_cases hzero : r.quantity - min r.quantity leaves = 0
        · simp only [hzero, if_true] at hleft hx
          exact ih hsorted' hleft x hx
        · simp only [hzero, if_false] at hleft
          exact absurd (leaves_eq_zero hzero) hleft

/-- An order at the limit price crosses. -/
theorem crosses_at_limit {b : Bool} {limit : Price} {r : Resting K}
    (h : r.price = limit) : crosses b limit r = true := by
  unfold crosses
  rw [h]
  cases b <;> simp

-- ---------------------------------------------- the orders a sweep keeps

/-- An order but for its quantity. -/
def core (r : Resting K) : Resting K := { r with quantity := 0 }

theorem core_eq {r r' : Resting K} (h : core r = core r') :
    r.key = r'.key ∧ r.side = r'.side ∧ r.price = r'.price
      ∧ r.priority = r'.priority := by
  unfold core at h
  simp only [Resting.mk.injEq, true_and] at h
  exact h

/-- But for a quantity, what a sweep leaves is an end of the list. -/
theorem sweep_rest_suffix {b : Bool} {limit : Price} {l : List (Resting K)} :
    ∀ {leaves : Quantity},
      (sweep b limit leaves l).rest.map core <:+ l.map core := by
  induction l with
  | nil =>
      intro leaves
      exact List.suffix_refl _
  | cons r rest ih =>
      intro leaves
      rw [sweep]
      by_cases hdone : leaves = 0 ∨ crosses b limit r = false
      · rw [if_pos hdone]
      · rw [if_neg hdone]
        by_cases hzero : r.quantity - min r.quantity leaves = 0
        · simp only [hzero, if_true]
          exact ih.trans (List.suffix_cons _ _)
        · simp only [hzero, if_false]
          exact List.suffix_refl _

/-- An order that a sweep leaves was there, with some quantity. -/
theorem mem_of_mem_rest {b : Bool} {limit : Price} {l : List (Resting K)}
    {leaves : Quantity} {r : Resting K}
    (h : r ∈ (sweep b limit leaves l).rest) : ∃ r' ∈ l, core r' = core r := by
  have hmem := sweep_rest_suffix.subset (List.mem_map_of_mem (f := core) h)
  obtain ⟨r', hr', heq⟩ := List.mem_map.1 hmem
  exact ⟨r', hr', heq⟩

/-- A relation that does not see quantities holds along what is left. -/
theorem Pairwise.sweep_rest {R : Resting K → Resting K → Prop}
    (hR : ∀ r r', R r r' ↔ R (core r) (core r')) {b : Bool} {limit : Price}
    {l : List (Resting K)} {leaves : Quantity} (h : l.Pairwise R) :
    (sweep b limit leaves l).rest.Pairwise R := by
  have hcore : ∀ m : List (Resting K),
      m.Pairwise R ↔ (m.map core).Pairwise R := fun m => by
    rw [List.pairwise_map]
    exact List.Pairwise.iff fun {r r'} => hR r r'
  rw [hcore] at h ⊢
  exact h.sublist sweep_rest_suffix.sublist

/-- A sweep leaves no empty order. -/
theorem sweep_rest_positive {b : Bool} {limit : Price}
    {l : List (Resting K)} : ∀ {leaves : Quantity},
    (∀ r ∈ l, r.quantity ≠ 0) →
    ∀ r ∈ (sweep b limit leaves l).rest, r.quantity ≠ 0 := by
  induction l with
  | nil =>
      intro leaves _ r hr
      cases hr
  | cons r rest ih =>
      intro leaves hpos x hx
      rw [sweep] at hx
      by_cases hdone : leaves = 0 ∨ crosses b limit r = false
      · rw [if_pos hdone] at hx
        exact hpos x hx
      · rw [if_neg hdone] at hx
        by_cases hzero : r.quantity - min r.quantity leaves = 0
        · simp only [hzero, if_true] at hx
          exact ih (fun y hy => hpos y (List.mem_cons_of_mem _ hy)) x hx
        · simp only [hzero, if_false] at hx
          rcases List.mem_cons.1 hx with hx | hx
          · rw [hx]
            exact hzero
          · exact hpos x (List.mem_cons_of_mem _ hx)

/-- A sweep trades a beginning of the list, in order and only with orders
that cross, and leaves the rest untouched but for what is left of the
last order it traded with. -/
theorem sweep_split (b : Bool) (limit : Price) (l : List (Resting K)) :
    ∀ leaves : Quantity, ∃ untouched,
      l = (sweep b limit leaves l).trades.map (·.resting) ++ untouched
        ∧ (∀ t ∈ (sweep b limit leaves l).trades,
            crosses b limit t.resting = true)
        ∧ ((sweep b limit leaves l).rest = untouched
          ∨ ∃ t, (sweep b limit leaves l).trades.getLast? = some t
            ∧ t.resting.quantity - t.quantity ≠ 0
            ∧ (sweep b limit leaves l).rest
              = { t.resting with
                  quantity := t.resting.quantity - t.quantity }
                :: untouched) := by
  induction l with
  | nil =>
      intro leaves
      exact ⟨[], rfl, nofun, Or.inl rfl⟩
  | cons r rest ih =>
      intro leaves
      rw [sweep]
      by_cases hdone : leaves = 0 ∨ crosses b limit r = false
      · rw [if_pos hdone]
        exact ⟨r :: rest, rfl, nofun, Or.inl rfl⟩
      · rw [if_neg hdone]
        have hcross : crosses b limit r = true := by
          rw [← Bool.not_eq_false]
          exact fun h => hdone (Or.inr h)
        by_cases hzero : r.quantity - min r.quantity leaves = 0
        · simp only [hzero, if_true]
          obtain ⟨untouched, hsplit, hall, hrest⟩ :=
            ih (leaves - min r.quantity leaves)
          refine ⟨untouched, ?_, ?_, ?_⟩
          · rw [List.map_cons, List.cons_append, ← hsplit]
          · intro t ht
            rcases List.mem_cons.1 ht with ht | ht
            · rw [ht]
              exact hcross
            · exact hall t ht
          · refine hrest.imp_right ?_
            intro h
            obtain ⟨t, hlast, hne, heq⟩ := h
            exact ⟨t, by rw [List.getLast?_cons, hlast]; rfl, hne, heq⟩
        · simp only [hzero, if_false]
          refine ⟨rest, rfl, fun t ht => ?_, Or.inr ⟨_, rfl, hzero, rfl⟩⟩
          rw [List.mem_singleton.1 ht]
          exact hcross

-- -------------------------------------------------- the place of an order

/-- The place of an order in a sorted list. -/
theorem exists_place {b : Bool} {l : List (Resting K)} (h : Sorted b l)
    (r : Resting K) : ∃ m n, l = m ++ n ∧ place b r l = m ++ r :: n
      ∧ (∀ q ∈ m, ¬ Better b r.price q.price)
      ∧ ∀ q ∈ n, Better b r.price q.price := by
  induction l with
  | nil => exact ⟨[], [], rfl, rfl, by simp, by simp⟩
  | cons q l ih =>
      obtain ⟨hbehind, hsorted⟩ := List.pairwise_cons.1 h
      by_cases hb : Better b r.price q.price
      · have hall : ∀ x ∈ q :: l, Better b r.price x.price := by
          intro x hx
          rcases List.mem_cons.1 hx with hx | hx
          · rw [hx]
            exact hb
          · by_cases heq : q.price = x.price
            · rw [← heq]
              exact hb
            · exact hb.trans (better_of_not (hbehind x hx) (Ne.symm heq))
        exact ⟨[], q :: l, rfl, place_append (l := []) (by simp) hall,
          by simp, hall⟩
      · obtain ⟨m, n, hsplit, hplace, hm, hn⟩ := ih hsorted
        have hm' : ∀ x ∈ q :: m, ¬ Better b r.price x.price := by
          intro x hx
          rcases List.mem_cons.1 hx with hx | hx
          · rw [hx]
            exact hb
          · exact hm x hx
        refine ⟨q :: m, n, by rw [hsplit]; rfl, ?_, hm', hn⟩
        rw [hsplit]
        exact place_append hm' hn

theorem mem_place {b : Bool} {r q : Resting K} {l : List (Resting K)} :
    q ∈ place b r l ↔ q = r ∨ q ∈ l := List.mem_orderedInsert _

/-- A sorted list stays sorted. -/
theorem Sorted.place {b : Bool} {l : List (Resting K)} (h : Sorted b l)
    (r : Resting K) : Sorted b (place b r l) := by
  obtain ⟨m, n, hsplit, hplace, hm, hn⟩ := exists_place h r
  rw [hsplit] at h
  obtain ⟨hpm, hpn, hcross⟩ := List.pairwise_append.1 h
  rw [hplace]
  refine List.pairwise_append.2 ⟨hpm, List.pairwise_cons.2 ⟨?_, hpn⟩, ?_⟩
  · intro q hq
    exact (hn q hq).asymm
  · intro q hq x hx
    rcases List.mem_cons.1 hx with hx | hx
    · rw [hx]
      exact hm q hq
    · exact hcross q hq x hx

-- ---------------------------------------------- levels, keys and places

/-- The levels do not depend on the keys. -/
theorem levelsOf_mapKey {K' : Type} (f : K → K') (l : List (Resting K)) :
    levelsOf (l.map (Resting.mapKey f))
      = (levelsOf l).map (·.map (Resting.mapKey f)) := by
  unfold levelsOf
  rw [List.splitBy_eq_iff]
  refine ⟨?_, ?_, ?_, ?_⟩
  · rw [← List.map_flatten, List.flatten_splitBy]
  · intro hnil
    obtain ⟨run, hrun, heq⟩ := List.mem_map.1 hnil
    exact List.ne_nil_of_mem_splitBy hrun (List.map_eq_nil_iff.1 heq)
  · intro run' hrun'
    obtain ⟨run, hrun, rfl⟩ := List.mem_map.1 hrun'
    exact List.isChain_map_of_isChain (Resting.mapKey f) (fun _ _ h => h)
      (List.isChain_of_mem_splitBy hrun)
  · refine List.isChain_map_of_isChain _ ?_
      (List.isChain_getLast_head_splitBy (fun r r' : Resting K =>
        r.price == r'.price) l)
    intro run run' h
    obtain ⟨hne, hne', h⟩ := h
    refine ⟨by simpa using hne, by simpa using hne', ?_⟩
    rw [List.getLast_map, List.head_map]
    exact h

/-- Neither does the place of an order. -/
theorem place_mapKey {K' : Type} (f : K → K') {b : Bool}
    {l : List (Resting K)} (h : Sorted b l) (r : Resting K) :
    place b (r.mapKey f) (l.map (Resting.mapKey f))
      = (place b r l).map (Resting.mapKey f) := by
  obtain ⟨m, n, hsplit, hplace, hm, hn⟩ := exists_place h r
  rw [hplace, hsplit, List.map_append, List.map_append, List.map_cons]
  refine place_append ?_ ?_
  · intro q hq
    obtain ⟨q', hq', rfl⟩ := List.mem_map.1 hq
    exact hm q' hq'
  · intro q hq
    obtain ⟨q', hq', rfl⟩ := List.mem_map.1 hq
    exact hn q' hq'

/-- An order at a new price makes a new level. -/
theorem levelsOf_place {b : Bool} {l : List (Resting K)} (h : Sorted b l)
    {r : Resting K} (hnew : ∀ q ∈ l, q.price ≠ r.price) :
    (levelsOf (place b r l)).length = (levelsOf l).length + 1 := by
  obtain ⟨m, n, rfl, hplace, hm, hn⟩ := exists_place h r
  have hmn : levelsOf (m ++ n) = levelsOf m ++ levelsOf n := by
    refine List.splitBy_append fun x hx y hy => ?_
    have hxm := List.mem_of_getLast? hx
    have hbetter : Better b x.price r.price := by
      refine better_of_not (hm x hxm) fun heq => ?_
      exact hnew x (List.mem_append_left _ hxm) heq.symm
    have hworse := hn y (List.mem_of_head? hy)
    rw [beq_eq_false_iff_ne]
    exact (hbetter.trans hworse).ne
  have hrn : levelsOf (r :: n) = [r] :: levelsOf n := by
    have happend : levelsOf ([r] ++ n) = levelsOf [r] ++ levelsOf n := by
      refine List.splitBy_append fun x hx y hy => ?_
      rw [List.getLast?_singleton, Option.mem_some_iff] at hx
      have hyn := List.mem_of_head? hy
      rw [beq_eq_false_iff_ne, ← hx]
      exact (hn y hyn).ne
    exact happend
  have hmr : levelsOf (m ++ r :: n) = levelsOf m ++ levelsOf (r :: n) := by
    refine List.splitBy_append_cons n fun x hx => ?_
    rw [beq_eq_false_iff_ne]
    exact hnew x (List.mem_append_left _ (List.mem_of_getLast? hx))
  rw [hplace, hmr, hrn, hmn, List.length_append, List.length_append,
    List.length_cons]
  omega

/-- A sorted list is made up of its levels. -/
theorem Sorted.exists_runs {b : Bool} {l : List (Resting K)}
    (h : Sorted b l) : ∃ ls, IsRuns ls ∧ ls.flatten = l := by
  induction l with
  | nil => exact ⟨[], ⟨nofun, nofun, .nil⟩, rfl⟩
  | cons r l ih =>
      obtain ⟨hr, hl⟩ := List.pairwise_cons.1 h
      obtain ⟨ls, hls, rfl⟩ := ih hl
      cases ls with
      | nil =>
          refine ⟨[[r]], ⟨?_, ?_, List.pairwise_singleton _ _⟩, rfl⟩
          · intro m hm
            rw [List.mem_singleton.1 hm]
            exact List.cons_ne_nil r []
          · intro m hm x hx y hy
            rw [List.mem_singleton.1 hm] at hx hy
            rw [List.mem_singleton.1 hx, List.mem_singleton.1 hy]
      | cons m ls =>
          obtain ⟨hfirst, hdistinct⟩ := List.pairwise_cons.1 hls.distinct
          have hnonempty := hls.nonempty m List.mem_cons_self
          have hone := hls.one m List.mem_cons_self
          have hrest : ∀ n ∈ ls, ∀ x ∈ n, ∀ q ∈ m, x.price ≠ q.price :=
            fun n hn x hx q hq heq => hfirst n hn q hq x hx heq.symm
          obtain ⟨q, hq⟩ := List.exists_mem_of_ne_nil m hnonempty
          have hmem : ∀ x ∈ m, x ∈ (m :: ls).flatten := fun x hx =>
            List.mem_flatten.2 ⟨m, List.mem_cons_self, hx⟩
          by_cases hprice : r.price = q.price
          · refine ⟨(r :: m) :: ls, ⟨?_, ?_, ?_⟩, rfl⟩
            · intro n hn
              rcases List.mem_cons.1 hn with rfl | hn
              · exact List.cons_ne_nil r m
              · exact hls.nonempty n (List.mem_cons_of_mem m hn)
            · intro n hn
              rcases List.mem_cons.1 hn with rfl | hn
              · have hsame : ∀ x ∈ r :: m, x.price = q.price := by
                  intro x hx
                  rcases List.mem_cons.1 hx with rfl | hx
                  · exact hprice
                  · exact hone x hx q hq
                intro x hx y hy
                exact (hsame x hx).trans (hsame y hy).symm
              · exact hls.one n (List.mem_cons_of_mem m hn)
            · refine List.pairwise_cons.2 ⟨fun n hn x hx y hy => ?_, hdistinct⟩
              rcases List.mem_cons.1 hx with rfl | hx
              · rw [hprice]
                exact hfirst n hn q hq y hy
              · exact hfirst n hn x hx y hy
          · refine ⟨[r] :: m :: ls, ⟨?_, ?_, ?_⟩, rfl⟩
            · intro n hn
              rcases List.mem_cons.1 hn with rfl | hn
              · exact List.cons_ne_nil r []
              · exact hls.nonempty n hn
            · intro n hn
              rcases List.mem_cons.1 hn with rfl | hn
              · intro x hx y hy
                rw [List.mem_singleton.1 hx, List.mem_singleton.1 hy]
              · exact hls.one n hn
            · refine List.pairwise_cons.2 ⟨fun n hn x hx y hy => ?_,
                hls.distinct⟩
              rw [List.mem_singleton.1 hx]
              rcases List.mem_cons.1 hn with rfl | hn
              · rw [hone y hy q hq]
                exact hprice
              · -- `r` is strictly better than `q`, and `q` than `y`
                intro heq
                have hrq := better_of_not (hr q (hmem q hq)) (Ne.symm hprice)
                have hqy : ¬ Better b y.price q.price := by
                  have hpair := (List.pairwise_append.1 hl).2.2
                  exact hpair q hq y (List.mem_flatten.2 ⟨n, hn, hy⟩)
                rw [heq] at hrq
                exact hqy hrq

/-- Fewer prices make no more levels. -/
theorem length_levelsOf_le {b : Bool} {l l' : List (Resting K)}
    (h : Sorted b l) (h' : Sorted b l')
    (hsub : ∀ x ∈ l', ∃ y ∈ l, y.price = x.price) :
    (levelsOf l').length ≤ (levelsOf l).length := by
  obtain ⟨ls, hls, rfl⟩ := h.exists_runs
  obtain ⟨ls', hls', rfl⟩ := h'.exists_runs
  rw [hls.levelsOf_flatten, hls'.levelsOf_flatten]
  -- a level is known by its price
  have hprices : ∀ m : List (Resting K), m ≠ [] →
      ∃ x ∈ m, m.head?.map (·.price) = some x.price := by
    intro m hm
    cases m with
    | nil => exact (hm rfl).elim
    | cons x m => exact ⟨x, List.mem_cons_self, rfl⟩
  have hnodup : (ls'.map fun m => m.head?.map (·.price)).Nodup := by
    refine List.pairwise_map.2 (List.Pairwise.imp_of_mem ?_ hls'.distinct)
    intro m n hm hn hne heq
    obtain ⟨x, hx, hmx⟩ := hprices m (hls'.nonempty m hm)
    obtain ⟨y, hy, hny⟩ := hprices n (hls'.nonempty n hn)
    rw [hmx, hny] at heq
    exact hne x hx y hy (Option.some.inj heq)
  have hsubset : (ls'.map fun m => m.head?.map (·.price))
      ⊆ ls.map fun m => m.head?.map (·.price) := by
    intro p hp
    obtain ⟨m, hm, rfl⟩ := List.mem_map.1 hp
    obtain ⟨x, hx, hmx⟩ := hprices m (hls'.nonempty m hm)
    obtain ⟨z, hz, hzx⟩ := hsub x (List.mem_flatten.2 ⟨m, hm, hx⟩)
    obtain ⟨n, hn, hzn⟩ := List.mem_flatten.1 hz
    obtain ⟨y, hy, hny⟩ := hprices n (hls.nonempty n hn)
    refine List.mem_map.2 ⟨n, hn, ?_⟩
    rw [hmx, hny, ← hzx, hls.one n hn z hzn y hy]
  have hle := (List.subperm_of_subset hnodup hsubset).length_le
  rwa [List.length_map, List.length_map] at hle

-- ------------------------------------------------------------ time priority

/-- At one price, priorities increase. -/
def Fifo (l : List (Resting K)) : Prop :=
  l.Pairwise fun r r' => r.price = r'.price → r.priority < r'.priority

/-- The priority of a new order exceeds those at its price, as long as
they are below the largest. -/
theorem lt_nextPriority {l : List (Resting K)} (price : Price) {n : Nat}
    (hfifo : Fifo l) (hbound : ∀ r ∈ l, r.priority.toNat ≤ n)
    (hn : n + 1 < 2 ^ 64) :
    (∀ r ∈ l, r.price = price → r.priority < nextPriority l price)
      ∧ (nextPriority l price).toNat ≤ n + 1 := by
  unfold nextPriority
  cases hlast : (l.filter (·.price = price)).getLast? with
  | none =>
      rw [List.getLast?_eq_none_iff, List.filter_eq_nil_iff] at hlast
      refine ⟨fun r hr hprice => ?_, ?_⟩
      · exact absurd (decide_eq_true hprice) (hlast r hr)
      · show (1 : UInt64).toNat ≤ n + 1
        rw [UInt64.toNat_one]
        omega
  | some z =>
      have hz := List.mem_of_getLast? hlast
      obtain ⟨hzl, hzp⟩ := List.mem_filter.1 hz
      have hzn := hbound z hzl
      have hsucc : (z.priority + 1).toNat = z.priority.toNat + 1 := by
        rw [UInt64.toNat_add, UInt64.toNat_one]
        omega
      refine ⟨fun r hr hprice => ?_, ?_⟩
      · show r.priority < z.priority + 1
        rw [UInt64.lt_iff_toNat_lt, hsucc]
        have hrf : r ∈ l.filter (·.price = price) :=
          List.mem_filter.2 ⟨hr, decide_eq_true hprice⟩
        obtain ⟨init, hinit⟩ := List.getLast?_eq_some_iff.1 hlast
        rw [hinit] at hrf
        rcases List.mem_append.1 hrf with hrf | hrf
        · have hpair := List.Pairwise.filter (·.price = price) hfifo
          rw [hinit, List.pairwise_append] at hpair
          have hlt := hpair.2.2 r hrf z (List.mem_singleton_self z)
            (hprice.trans (of_decide_eq_true hzp).symm)
          rw [UInt64.lt_iff_toNat_lt] at hlt
          omega
        · rw [List.mem_singleton.1 hrf]
          omega
      · show (z.priority + 1).toNat ≤ n + 1
        omega

/-- An order that comes behind all of its price. -/
theorem pairwise_place {b : Bool} {l : List (Resting K)} {r : Resting K}
    {R : Resting K → Resting K → Prop} (hsorted : Sorted b l)
    (h : l.Pairwise fun x y => x.price = y.price → R x y)
    (hlast : ∀ q ∈ l, q.price = r.price → R q r) :
    (place b r l).Pairwise fun x y => x.price = y.price → R x y := by
  obtain ⟨m, n, hsplit, hplace, hm, hn⟩ := exists_place hsorted r
  rw [hsplit] at h
  obtain ⟨hpm, hpn, hcross⟩ := List.pairwise_append.1 h
  rw [hplace]
  refine List.pairwise_append.2 ⟨hpm, List.pairwise_cons.2 ⟨?_, hpn⟩, ?_⟩
  · intro q hq heq
    exact absurd heq (hn q hq).ne
  · intro q hq x hx
    rcases List.mem_cons.1 hx with hx | hx
    · rw [hx]
      exact hlast q (by rw [hsplit]; exact List.mem_append_left _ hq)
    · exact hcross q hq x hx


/-- Placing an order with the next priority keeps time priority. -/
theorem Fifo.place {b : Bool} {l : List (Resting K)} {r : Resting K}
    (h : Fifo l) (hsorted : Sorted b l)
    (hlt : ∀ q ∈ l, q.price = r.price → q.priority < r.priority) :
    Fifo (place b r l) := pairwise_place hsorted h hlt

/-- Of a queue in the order of its numbers, the orders with smaller numbers
first and then the next one. -/
theorem place_filter {b : Bool} {l : List (Resting K)} {num : K → Nat}
    (h : Sorted b l)
    (hqueue : l.Pairwise fun x y => x.price = y.price → num x.key < num y.key)
    {x : Resting K} (hx : x ∈ l)
    (hone : ∀ y ∈ l, num y.key = num x.key → y = x) :
    place b x (l.filter fun y => num y.key < num x.key)
      = l.filter fun y => num y.key < num x.key + 1 := by
  obtain ⟨m, n, rfl⟩ := List.append_of_mem hx
  obtain ⟨-, hxn, hmx⟩ := List.pairwise_append.1 h
  obtain ⟨hn, -⟩ := List.pairwise_cons.1 hxn
  obtain ⟨-, hqxn, hqmx⟩ := List.pairwise_append.1 hqueue
  obtain ⟨hqn, -⟩ := List.pairwise_cons.1 hqxn
  have hne : ∀ y, y ∈ m ∨ y ∈ n → num y.key ≠ num x.key := by
    intro y hy heq
    have hmem : y ∈ m ++ x :: n := by
      rcases hy with hy | hy
      · exact List.mem_append_left _ hy
      · exact List.mem_append_right _ (List.mem_cons_of_mem x hy)
    have hyx := hone y hmem heq
    rcases hy with hy | hy
    · have hlt := hqmx y hy x List.mem_cons_self (by rw [hyx])
      omega
    · have hlt := hqn y hy (by rw [hyx])
      omega
  have hsame : ∀ o : List (Resting K), (∀ y ∈ o, num y.key ≠ num x.key) →
      o.filter (fun y => num y.key < num x.key + 1)
        = o.filter fun y => num y.key < num x.key := by
    intro o ho
    apply List.filter_congr
    intro y hy
    have := ho y hy
    simp only [decide_eq_decide]
    omega
  have hself : ¬ num x.key < num x.key := Nat.lt_irrefl _
  have hnext : num x.key < num x.key + 1 := Nat.lt_succ_self _
  rw [List.filter_append, List.filter_append, List.filter_cons,
    List.filter_cons, if_neg (by simp), if_pos (by simp),
    hsame m fun y hy => hne y (Or.inl hy),
    hsame n fun y hy => hne y (Or.inr hy)]
  apply place_append
  · intro q hq
    exact hmx q (List.mem_filter.1 hq).1 x List.mem_cons_self
  · intro q hq
    obtain ⟨hq, hlt⟩ := List.mem_filter.1 hq
    have hless := of_decide_eq_true hlt
    refine better_of_not (hn q hq) fun heq => ?_
    have hmore := hqn q hq heq.symm
    omega

end PriceTime

end ElectronicTrading
