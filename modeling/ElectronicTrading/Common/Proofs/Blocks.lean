/-
The two pools of a ladder: what allocating and releasing an order or a
level does to the ladder's memory, in the terms of Fields.lean.

Allocation fails only when every block besides the one under the cursor
is in use (`allocateLevel_cases`, `allocateOrder_cases`), so a bound on
what is laid out rules the failure out (`exists_free`).
-/
import ElectronicTrading.Common.Proofs.Fields
import Mathlib.Data.Finset.Card
import Mathlib.Data.Finset.Range

namespace ElectronicTrading

namespace MemPool

variable {α : Type} {m : MemPool α}

-- ================================================================ blocks

/-- `m'` is `m` with block `p` handed out for the object `v`. -/
structure Allocated (m m' : MemPool α) (p : Ptr) (v : α) : Prop where
  free : m.used p = false
  ok : m'.Ok
  size : m'.size = m.size
  deref : ∀ q, m'.deref q = if q = p then v else m.deref q
  used : ∀ q, m'.used q = true ↔ q = p ∨ m.used q = true

/-- `m'` is `m` with block `p` given back. -/
structure Released (m m' : MemPool α) (p : Ptr) : Prop where
  ok : m'.Ok
  size : m'.size = m.size
  deref : m'.deref = m.deref
  used : ∀ q, m'.used q = true ↔ q ≠ p ∧ m.used q = true

/-- `allocate` takes the block under the cursor, or reports a pool with
no other free block. -/
theorem allocate_spec (h : m.Ok) (v : α) :
    (∃ m', (allocate v).run m = .ok m.nextFreeIndex m'
        ∧ m.Allocated m' m.nextFreeIndex v)
      ∨ ((∃ m', (allocate v).run m = .error .poolOutOfSpace m')
        ∧ ∀ p < m.size, p ≠ m.nextFreeIndex → m.used p = true) := by
  rcases allocate_cases h v with ⟨m', hrun, hok, hsize, hstore⟩ | hfull
  · refine Or.inl ⟨m', hrun, ⟨h.cursor_free, hok, hsize, fun q => ?_, fun q => ?_⟩⟩
    · exact deref_of_store hstore q
    · rw [used_of_store hstore]
      split
      · next heq => simp [heq]
      · next hne => simp [hne]
  · exact Or.inr hfull

/-- Releasing a block in use. -/
theorem deallocate_spec (h : m.Ok) {p : Ptr} (hp : m.used p = true) :
    ∃ m', (deallocate p).run m = .ok () m' ∧ m.Released m' p := by
  obtain ⟨hrun, hok⟩ := deallocate_ok h hp
  refine ⟨_, hrun, ⟨hok, rfl, funext fun q => ?_, fun q => ?_⟩⟩
  · rw [put_deref]
    split
    · next heq => rw [heq]; rfl
    · rfl
  · rw [put_used]
    split
    · next heq => simp [heq]
    · next hne => simp [hne]

/-- A pool whose blocks in use are all in a list shorter than the pool
less one has a free block besides the cursor's. -/
theorem exists_free {l : List Ptr} (hused : ∀ p, m.used p = true → p ∈ l)
    (hlen : l.length + 1 < m.size) :
    ∃ p < m.size, p ≠ m.nextFreeIndex ∧ m.used p = false := by
  by_contra hnone
  have hcover : Finset.range m.size ⊆ insert m.nextFreeIndex l.toFinset := by
    intro p hp
    rw [Finset.mem_range] at hp
    rw [Finset.mem_insert, List.mem_toFinset]
    by_cases hcur : p = m.nextFreeIndex
    · exact Or.inl hcur
    · refine Or.inr (hused p ?_)
      by_contra hfree
      exact hnone ⟨p, hp, hcur, by simpa using hfree⟩
  have h1 := Finset.card_le_card hcover
  have h2 := Finset.card_insert_le m.nextFreeIndex l.toFinset
  have h3 := List.toFinset_card_le l
  rw [Finset.card_range] at h1
  omega

end MemPool

namespace Ladder

variable {K : Type} {s : Ladder K}

-- ================================================================ levels

/-- `s'` is `s` with block `p` handed out for the level `v`. -/
structure LevelAllocated (s s' : Ladder K) (p : Ptr) (v : OrdersAtPrice) :
    Prop where
  levelPool : s.ordersAtPricePool.Allocated s'.ordersAtPricePool p v
  orderPool : s'.orderPool = s.orderPool
  best : s'.best = s.best
  slots : s'.priceOrdersAtPrice = s.priceOrdersAtPrice

/-- `s'` is `s` with block `p` of the levels given back. -/
structure LevelReleased (s s' : Ladder K) (p : Ptr) : Prop where
  levelPool : s.ordersAtPricePool.Released s'.ordersAtPricePool p
  orderPool : s'.orderPool = s.orderPool
  best : s'.best = s.best
  slots : s'.priceOrdersAtPrice = s.priceOrdersAtPrice

/-- `orders_at_price_pool.allocate`. -/
theorem allocateLevel_cases (h : s.ordersAtPricePool.Ok) (v : OrdersAtPrice) :
    (∃ s', (allocateLevel v).run s
        = .ok (some s.ordersAtPricePool.nextFreeIndex) s'
        ∧ LevelAllocated s s' s.ordersAtPricePool.nextFreeIndex v)
      ∨ ((∃ s', (allocateLevel v).run s = .error .poolOutOfSpace s')
        ∧ ∀ p < s.ordersAtPricePool.size,
            p ≠ s.ordersAtPricePool.nextFreeIndex → s.levelUsed p = true) := by
  unfold allocateLevel
  rcases MemPool.allocate_spec h v with ⟨m', hrun, hm⟩ | ⟨⟨m', hrun⟩, hall⟩
  · left
    have hzoom : (onLevelPool (MemPool.allocate v)).run s
        = .ok s.ordersAtPricePool.nextFreeIndex
            { s with ordersAtPricePool := m' } := Exec.run_zoom_ok hrun
    rw [Exec.run_bind_ok hzoom]
    exact ⟨_, rfl, hm, rfl, funext fun b => by cases b <;> rfl, rfl⟩
  · exact Or.inr ⟨⟨_, Exec.run_bind_error (Exec.run_zoom_error hrun)⟩, hall⟩

/-- `orders_at_price_pool.deallocate`. -/
theorem deallocateLevel_ok (h : s.ordersAtPricePool.Ok) {p : Ptr}
    (hp : s.levelUsed p = true) :
    ∃ s', (deallocateLevel (some p)).run s = .ok () s'
      ∧ LevelReleased s s' p := by
  obtain ⟨m', hrun, hm⟩ := MemPool.deallocate_spec h hp
  exact ⟨_, Exec.run_zoom_ok hrun, hm, rfl,
    funext fun b => by cases b <;> rfl, rfl⟩

-- ================================================================ orders

/-- `s'` is `s` with block `p` handed out for the order `v`. -/
structure OrderAllocated (s s' : Ladder K) (p : Ptr) (v : Order K) :
    Prop where
  orderPool : s.orderPool.Allocated s'.orderPool p v
  levelPool : s'.ordersAtPricePool = s.ordersAtPricePool
  best : s'.best = s.best
  slots : s'.priceOrdersAtPrice = s.priceOrdersAtPrice

/-- `s'` is `s` with block `p` of the orders given back. -/
structure OrderReleased (s s' : Ladder K) (p : Ptr) : Prop where
  orderPool : s.orderPool.Released s'.orderPool p
  levelPool : s'.ordersAtPricePool = s.ordersAtPricePool
  best : s'.best = s.best
  slots : s'.priceOrdersAtPrice = s.priceOrdersAtPrice

/-- `order_pool.allocate`. -/
theorem allocateOrder_cases (h : s.orderPool.Ok) (v : Order K) :
    (∃ s', (allocateOrder v).run s = .ok (some s.orderPool.nextFreeIndex) s'
        ∧ OrderAllocated s s' s.orderPool.nextFreeIndex v)
      ∨ ((∃ s', (allocateOrder v).run s = .error .poolOutOfSpace s')
        ∧ ∀ p < s.orderPool.size,
            p ≠ s.orderPool.nextFreeIndex → s.orderUsed p = true) := by
  unfold allocateOrder
  rcases MemPool.allocate_spec h v with ⟨m', hrun, hm⟩ | ⟨⟨m', hrun⟩, hall⟩
  · left
    have hzoom : (onOrderPool (MemPool.allocate v)).run s
        = .ok s.orderPool.nextFreeIndex { s with orderPool := m' } :=
      Exec.run_zoom_ok hrun
    rw [Exec.run_bind_ok hzoom]
    exact ⟨_, rfl, hm, rfl, funext fun b => by cases b <;> rfl, rfl⟩
  · exact Or.inr ⟨⟨_, Exec.run_bind_error (Exec.run_zoom_error hrun)⟩, hall⟩

/-- `order_pool.deallocate`. -/
theorem deallocateOrder_ok (h : s.orderPool.Ok) {p : Ptr}
    (hp : s.orderUsed p = true) :
    ∃ s', (deallocateOrder (some p)).run s = .ok () s'
      ∧ OrderReleased s s' p := by
  obtain ⟨m', hrun, hm⟩ := MemPool.deallocate_spec h hp
  exact ⟨_, Exec.run_zoom_ok hrun, hm, rfl,
    funext fun b => by cases b <;> rfl, rfl⟩

end Ladder

end ElectronicTrading
