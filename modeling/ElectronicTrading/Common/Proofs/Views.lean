/-
What a reader of the memory sees: the levels of a side, walked from the
head along `next_entry`, and the orders of a level, walked from
`first_order` along `next_order` (`levelViews`).

The walks are computable and take no layout. On a laid-out ladder they
read the layout back (`levelPtrs_eq`, `orderPtrs_eq`), and the levels
are the runs of one price in the list of the side's orders
(`levelViews_eq`): two ladders with the same orders in the same priority
show the same levels.
-/
import ElectronicTrading.Common.Proofs.Orders

namespace ElectronicTrading

open LinkedRing

/-- A level as a reader sees it. -/
structure LevelView (K : Type) where
  side : Side
  price : Price
  orders : List (Resting K)
deriving DecidableEq, Repr

namespace Ladder

variable {K : Type}

-- ============================================================= the walks

/-- The levels of a side, from its head on. -/
def levelPtrs (s : Ladder K) (b : Bool) : List Ptr :=
  match s.best b with
  | none => []
  | some a => walk s.nextEntry a s.ordersAtPricePool.size a

/-- The orders of a level, from its first on. -/
def orderPtrs (s : Ladder K) (p : Ptr) : List Ptr :=
  match s.firstOrder p with
  | none => []
  | some a => walk s.nextOrder a s.orderPool.size a

/-- The levels of a side with their orders. -/
def levelViews (s : Ladder K) (b : Bool) : List (LevelView K) :=
  (s.levelPtrs b).map fun p =>
    { side := s.levelSide p, price := s.levelPrice p,
      orders := (s.orderPtrs p).map s.resting }

/-- The orders of a side in their priority. -/
def restingOrders (s : Ladder K) (b : Bool) : List (Resting K) :=
  (s.levelViews b).flatMap (·.orders)

section

variable {s : Ladder K} {lay : Layout} {loose : Option Ptr}

-- ====================================================== reading a layout

/-- A list without repetition of numbers below a bound is no longer than
the bound. -/
theorem length_le_of_lt {l : List Nat} {n : Nat} (hnd : l.Nodup)
    (hlt : ∀ p ∈ l, p < n) : l.length ≤ n := by
  have hsub : l.length ≤ (List.range n).length :=
    (hnd.subperm fun p hp => List.mem_range.2 (hlt p hp)).length_le
  rwa [List.length_range] at hsub

/-- The walk along the levels reads the layout's levels. -/
theorem Laid.levelPtrs_eq (h : Laid s lay loose) (b : Bool) :
    s.levelPtrs b = lay.levels b := by
  have hhead := h.levels.head b
  have hring := h.levels.ring b
  have hlen : (lay.levels b).length ≤ s.ordersAtPricePool.size :=
    length_le_of_lt hring.nodup fun p hp =>
      h.levels.pool.used_lt p ((h.levels.used p).2 ⟨b, hp⟩)
  unfold levelPtrs
  cases hl : lay.levels b with
  | nil =>
      rw [hl] at hhead
      rw [hhead]
      rfl
  | cons a l =>
      rw [hl] at hhead hring hlen
      rw [hhead]
      exact hring.walk_eq hlen

/-- The walk along a level's orders reads its queue. -/
theorem Laid.orderPtrs_eq (h : Laid s lay loose) {p : Ptr}
    (hp : lay.HasLevel p) : s.orderPtrs p = lay.queue p := by
  have hfirst := h.queues.first p hp
  have hring := h.queues.ring p
  have hlen : (lay.queue p).length ≤ s.orderPool.size :=
    length_le_of_lt hring.nodup fun o ho =>
      h.queues.pool.used_lt o (h.queues.used_of_mem ho)
  unfold orderPtrs
  cases hq : lay.queue p with
  | nil => exact absurd hq (h.queues.nonempty p hp)
  | cons a l =>
      rw [hq] at hfirst hring hlen
      rw [hfirst]
      exact hring.walk_eq hlen

/-- The levels a reader sees, in terms of the layout. -/
theorem Laid.levelViews_eq (h : Laid s lay loose) (b : Bool) :
    s.levelViews b = (lay.levels b).map fun p =>
      { side := s.levelSide p, price := s.levelPrice p,
        orders := (lay.queue p).map s.resting } := by
  unfold levelViews
  rw [h.levelPtrs_eq]
  refine List.map_congr_left fun p hp => ?_
  rw [h.orderPtrs_eq ⟨b, hp⟩]

/-- The orders a reader sees. -/
theorem Laid.restingOrders_eq (h : Laid s lay loose) (b : Bool) :
    s.restingOrders b = (lay.orders b).map s.resting := by
  unfold restingOrders Layout.orders
  rw [h.levelViews_eq, List.flatMap_map, List.map_flatMap]

-- ===================================================== levels from orders

/-- The level that a run of orders of one price is. -/
def levelOfRun (b : Bool) (l : List (Resting K)) : LevelView K where
  side := sideOf b
  price := (l.head?.map (·.price)).getD priceInvalid
  orders := l

/-- The queues of a side's levels are levels. -/
theorem Booked.isRuns (h : Booked s lay loose) (b : Bool) :
    PriceTime.IsRuns
      ((lay.levels b).map fun p => (lay.queue p).map s.resting) := by
  have hprice : ∀ p, ∀ r ∈ (lay.queue p).map s.resting,
      r.price = s.levelPrice p := by
    intro p r hr
    obtain ⟨o, ho, rfl⟩ := List.mem_map.1 hr
    exact (h.matched p o ho).2
  constructor
  · intro l hl
    obtain ⟨p, hp, rfl⟩ := List.mem_map.1 hl
    rw [Ne, List.map_eq_nil_iff]
    exact h.laid.queues.nonempty p ⟨b, hp⟩
  · intro l hl r hr r' hr'
    obtain ⟨p, -, rfl⟩ := List.mem_map.1 hl
    rw [hprice p r hr, hprice p r' hr']
  · rw [List.pairwise_map]
    refine (h.laid.levels.sorted b).imp fun {p q} hpq r hr r' hr' => ?_
    rw [hprice p r hr, hprice q r' hr']
    exact hpq.ne

/-- A side's levels are the runs of one price in its orders. -/
theorem Booked.levelsOf_eq (h : Booked s lay loose) (b : Bool) :
    PriceTime.levelsOf (s.restingOrders b)
      = (lay.levels b).map fun p => (lay.queue p).map s.resting := by
  have hflat : s.restingOrders b
      = ((lay.levels b).map fun p => (lay.queue p).map s.resting).flatten := by
    rw [h.laid.restingOrders_eq]
    unfold Layout.orders
    rw [List.map_flatMap, List.flatMap_def]
  rw [hflat]
  exact (h.isRuns b).levelsOf_flatten

/-- The level that a run of orders of one price is. -/
theorem levelOfRun_eq (b : Bool) {l : List (Resting K)} {price : Price}
    (hne : l ≠ []) (hprice : ∀ r ∈ l, r.price = price) :
    levelOfRun b l = { side := sideOf b, price := price, orders := l } := by
  cases l with
  | nil => exact absurd rfl hne
  | cons r l =>
      rw [← hprice r (List.mem_cons_self ..)]
      rfl

/-- What a reader sees of a side is determined by its orders. -/
theorem Booked.levelViews_eq (h : Booked s lay loose) (b : Bool) :
    s.levelViews b
      = (PriceTime.levelsOf (s.restingOrders b)).map (levelOfRun b) := by
  rw [h.levelsOf_eq, h.laid.levelViews_eq, List.map_map]
  refine List.map_congr_left fun p hp => ?_
  obtain ⟨o, l, hq⟩ := List.exists_cons_of_ne_nil
    (h.laid.queues.nonempty p ⟨b, hp⟩)
  have hprice := (h.matched p o (by rw [hq]; exact List.mem_cons_self ..)).2
  simp only [Function.comp_apply, levelOfRun, hq, List.map_cons,
    List.head?_cons, Option.map_some, Option.getD_some, hprice,
    h.laid.levels.side b p hp]

/-- The number of a side's levels, from its orders. -/
theorem Booked.levels_length (h : Booked s lay loose) (b : Bool) :
    (lay.levels b).length
      = (PriceTime.levelsOf (s.restingOrders b)).length := by
  rw [h.levelsOf_eq, List.length_map]

/-- The orders of one price on a side are its level's queue. -/
theorem Booked.filter_price (h : Booked s lay loose) {b : Bool} {p : Ptr}
    (hp : p ∈ lay.levels b) :
    (s.restingOrders b).filter (·.price = s.levelPrice p)
      = (lay.queue p).map s.resting := by
  obtain ⟨l, r, hsplit⟩ := List.append_of_mem hp
  have hsorted := h.laid.levels.sorted b
  rw [hsplit, List.pairwise_append, List.pairwise_cons] at hsorted
  obtain ⟨-, ⟨hr, -⟩, hl⟩ := hsorted
  -- the orders of other levels have other prices
  have hdrop : ∀ ps : List Ptr,
      (∀ q ∈ ps, s.levelPrice q ≠ s.levelPrice p) →
      ((ps.flatMap lay.queue).map s.resting).filter
        (·.price = s.levelPrice p) = [] := by
    intro ps hps
    rw [List.filter_eq_nil_iff]
    intro x hx
    obtain ⟨o, ho, rfl⟩ := List.mem_map.1 hx
    obtain ⟨q, hq, hoq⟩ := List.mem_flatMap.1 ho
    rw [(h.matched q o hoq).2]
    simpa using hps q hq
  have hkeep : ((lay.queue p).map s.resting).filter
      (·.price = s.levelPrice p) = (lay.queue p).map s.resting := by
    rw [List.filter_eq_self]
    intro x hx
    obtain ⟨o, ho, rfl⟩ := List.mem_map.1 hx
    simpa using (h.matched p o ho).2
  rw [h.laid.restingOrders_eq]
  unfold Layout.orders
  rw [hsplit, List.flatMap_append, List.flatMap_cons, List.map_append,
    List.map_append, List.filter_append, List.filter_append,
    hdrop l fun q hq => (hl q hq p (List.mem_cons_self ..)).ne,
    hdrop r fun q hq => (hr q hq).ne.symm, hkeep]
  simp

end

end Ladder

end ElectronicTrading
