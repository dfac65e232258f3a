/-
Two ladders that differ only in where their blocks lie behave alike.

A `Relocation` maps the blocks of one ladder's pools to those of the
other and says which blocks have been handed out so far. Those hold the
same data, with their links mapped; blocks never handed out may hold
anything, and nothing points at them. No ring, order or slot invariant
is involved: the functions below do the same thing to both ladders even
where dangling pointers have broken the rings of both.

`LadderCopy` is kept in lockstep by every function that does not
allocate. An allocation hands out the block under the cursor, so the
relocation grows (`Relocation.le`); the map must go around the pool as
the cursor does (`Rotation`).

The blocks that are handed out hold orders with a `stamped` identifier.
On one ladder, moved nowhere, this is an invariant of a single run:
every pointer leads to an order whose identifier was put there by an
allocation.
-/
import ElectronicTrading.Common.Proofs.Views
import ElectronicTrading.Lib.Exec

namespace ElectronicTrading

open Exec LinkedRing

-- =============================================================== pointers

/-- Null on both sides, or a block of `seen` and where it was moved. -/
def PtrCopy (ρ : Ptr → Ptr) (seen : Ptr → Prop) (x y : Option Ptr) : Prop :=
  y = x.map ρ ∧ ∀ p, x = some p → seen p

section PtrCopy

variable {ρ : Ptr → Ptr} {seen : Ptr → Prop} {x x' y y' : Option Ptr}

theorem ptrCopy_none : PtrCopy ρ seen none none := ⟨rfl, nofun⟩

/-- A block that was handed out, and where it was moved. -/
theorem ptrCopy_some {p : Ptr} (h : seen p) :
    PtrCopy ρ seen (some p) (some (ρ p)) :=
  ⟨rfl, fun q hq => by cases hq; exact h⟩

/-- A test for null has one outcome on both sides. -/
theorem PtrCopy.none_iff (h : PtrCopy ρ seen x y) : x = none ↔ y = none := by
  rw [h.1, Option.map_eq_none_iff]

/-- More blocks may have been handed out since. -/
theorem PtrCopy.mono {seen' : Ptr → Prop} (h : PtrCopy ρ seen x y)
    (hle : ∀ p, seen p → seen' p) : PtrCopy ρ seen' x y :=
  ⟨h.1, fun p hp => hle p (h.2 p hp)⟩

/-- Moved pointers are equal when the pointers are. -/
theorem PtrCopy.eq_iff (hinj : ∀ p q, seen p → seen q → ρ p = ρ q → p = q)
    (h : PtrCopy ρ seen x y) (h' : PtrCopy ρ seen x' y') :
    x = x' ↔ y = y' := by
  rw [h.1, h'.1]
  constructor
  · intro heq
    rw [heq]
  · intro heq
    cases hx : x with
    | none =>
        rw [hx] at heq
        exact (Option.map_eq_none_iff.1 heq.symm).symm
    | some p =>
        cases hx' : x' with
        | none => rw [hx, hx'] at heq; cases heq
        | some q =>
            rw [hx, hx', Option.map_some, Option.map_some,
              Option.some.injEq] at heq
            rw [hinj p q (h.2 p hx) (h'.2 q hx') heq]

end PtrCopy

-- ================================================================== pools

namespace MemPool

variable {α : Type}

/-- A map of the blocks of a pool that goes around it as the cursor
does. -/
structure Rotation (n : Nat) (ρ : Ptr → Ptr) : Prop where
  lt : ∀ p < n, ρ p < n
  inj : ∀ p < n, ∀ q < n, ρ p = ρ q → p = q
  succ : ∀ p < n, ρ (if p + 1 = n then 0 else p + 1)
    = if ρ p + 1 = n then 0 else ρ p + 1

/-- Nothing moved. -/
theorem rotation_id (n : Nat) : Rotation n id where
  lt := fun _ hp => hp
  inj := fun _ _ _ _ h => h
  succ := fun _ _ => rfl

/-- Moving every block by the same distance. -/
theorem rotation_add (n c : Nat) : Rotation n fun p => (p + c) % n where
  lt := fun p hp => Nat.mod_lt _ (by omega)
  inj := fun p hp q hq h => by
    have hmod : p ≡ q [MOD n] := Nat.ModEq.add_right_cancel' c h
    exact hmod.eq_of_lt_of_lt hp hq
  succ := fun p hp => by
    have hlt : (p + c) % n < n := Nat.mod_lt _ (by omega)
    rw [wrap_succ hp, wrap_succ hlt, Nat.mod_add_mod, Nat.mod_add_mod,
      Nat.add_right_comm]

/-- The pool `m'` is `m` with its blocks moved by `ρ`, as far as `m` has
handed them out. -/
structure PoolCopy (ρ : Ptr → Ptr) (seen : Ptr → Prop) (E : α → α → Prop)
    (m m' : MemPool α) : Prop where
  size : m'.size = m.size
  rotation : Rotation m.size ρ
  cursor_lt : m.nextFreeIndex < m.size
  cursor : m'.nextFreeIndex = ρ m.nextFreeIndex
  free : ∀ p < m.size, (m'.store (ρ p)).isFree = (m.store p).isFree
  seen_lt : ∀ p, seen p → p < m.size
  object : ∀ p, seen p → E (m.deref p) (m'.deref (ρ p))

section PoolCopy

variable {ρ : Ptr → Ptr} {seen : Ptr → Prop} {E : α → α → Prop}
  {m m' : MemPool α}

/-- Two blocks are not moved to one. -/
theorem PoolCopy.inj (h : PoolCopy ρ seen E m m') :
    ∀ p q, seen p → seen q → ρ p = ρ q → p = q := fun p q hp hq =>
  h.rotation.inj p (h.seen_lt p hp) q (h.seen_lt q hq)

/-- The search for a free block finds the moved one. -/
private theorem seekFree_copy (m m' : MemPool α) (hρ : Rotation m.size ρ)
    (hsize : m'.size = m.size)
    (hfree : ∀ p < m.size, (m'.store (ρ p)).isFree = (m.store p).isFree)
    {i : Nat} (hi : i < m.size) (fuel : Nat) {p : Nat} (hp : p < m.size) :
    m'.seekFree (ρ i) fuel (ρ p) = (m.seekFree i fuel p).map ρ := by
  induction fuel generalizing p with
  | zero => rfl
  | succ fuel ih =>
      unfold seekFree
      rw [hfree p hp]
      by_cases hf : (m.store p).isFree = true
      · rw [if_pos hf, if_pos hf]
        rfl
      · have hwrap : (if p + 1 = m.size then 0 else p + 1) < m.size := by
          split <;> omega
        rw [if_neg hf, if_neg hf]
        simp only [hsize, ← hρ.succ p hp]
        by_cases hstart : i = if p + 1 = m.size then 0 else p + 1
        · rw [if_pos hstart, if_pos (congrArg ρ hstart)]
          rfl
        · rw [if_neg hstart,
            if_neg fun heq => hstart (hρ.inj i hi _ hwrap heq)]
          exact ih hwrap

/-- Allocations in two copies of a pool hand out corresponding
blocks. -/
theorem allocate_copy {o o' : α} {E' : α → α → Prop}
    (hE : ∀ a b, E a b → E' a b) (ho : E' o o') :
    Sim (PoolCopy ρ seen E) (allocate o) (allocate o') fun p p' m m' =>
      p' = ρ p ∧ PoolCopy ρ (fun q => seen q ∨ q = p) E' m m' := by
  intro m m' h
  have hput : ∀ p < m.size,
      ((m'.put (ρ m.nextFreeIndex) ⟨o', false⟩).store (ρ p)).isFree
        = ((m.put m.nextFreeIndex ⟨o, false⟩).store p).isFree := by
    intro p hp
    by_cases hpc : p = m.nextFreeIndex
    · simp [put, hpc]
    · have hρp : ρ p ≠ ρ m.nextFreeIndex := fun heq =>
        hpc (h.rotation.inj p hp _ h.cursor_lt heq)
      simp only [put, hpc, hρp, if_false]
      exact h.free p hp
  have hseek : (m'.put (ρ m.nextFreeIndex) ⟨o', false⟩).seekFree
        (ρ m.nextFreeIndex) m.size (ρ m.nextFreeIndex)
      = ((m.put m.nextFreeIndex ⟨o, false⟩).seekFree m.nextFreeIndex m.size
          m.nextFreeIndex).map ρ :=
    seekFree_copy (m.put m.nextFreeIndex ⟨o, false⟩)
      (m'.put (ρ m.nextFreeIndex) ⟨o', false⟩) h.rotation h.size hput
      h.cursor_lt m.size h.cursor_lt
  -- the cursor stays within the pool
  have hok : ∀ next, (m.put m.nextFreeIndex ⟨o, false⟩).seekFree
      m.nextFreeIndex m.size m.nextFreeIndex = .ok next → next < m.size := by
    intro next hnext
    rcases seekFree_spec (m.put m.nextFreeIndex ⟨o, false⟩) h.cursor_lt with
      ⟨found, hlt, -, hrun⟩ | ⟨hrun, -⟩
    · have heq := hnext.symm.trans hrun
      cases heq
      exact hlt
    · have heq := hnext.symm.trans hrun
      cases heq
  rw [run_allocate, run_allocate, h.cursor, h.free _ h.cursor_lt, h.size,
    hseek]
  by_cases hfree : (m.store m.nextFreeIndex).isFree = true
  · -- both cursors move on, or both pools are out of space
    rw [if_pos hfree, if_pos hfree]
    cases hs : (m.put m.nextFreeIndex ⟨o, false⟩).seekFree
        m.nextFreeIndex m.size m.nextFreeIndex with
    | error e => trivial
    | ok next =>
        refine ⟨rfl, h.size, h.rotation, hok next hs, rfl, hput, ?_, ?_⟩
        · intro p h
          rcases h with hp | rfl
          · exact h.seen_lt p hp
          · exact h.cursor_lt
        · intro p hp
          show E' ((m.put _ _).deref p) ((m'.put _ _).deref (ρ p))
          rw [put_deref, put_deref]
          by_cases hpc : p = m.nextFreeIndex
          · rw [if_pos hpc, if_pos (congrArg ρ hpc)]
            exact ho
          · have hseen := hp.resolve_right hpc
            rw [if_neg hpc, if_neg fun heq => hpc
              (h.rotation.inj p (h.seen_lt p hseen) _ h.cursor_lt heq)]
            exact hE _ _ (h.object p hseen)
  · rw [if_neg hfree, if_neg hfree]
    trivial

/-- A block is given back in both copies of a pool or in neither. -/
theorem deallocate_copy {p : Ptr} (hp : seen p) :
    Lockstep (PoolCopy ρ seen E) (deallocate p) (deallocate (ρ p))
      fun _ _ => True := by
  intro m m' h
  have hlt := h.seen_lt p hp
  have hfree := h.free p hlt
  by_cases hused : (m.store p).isFree = false
  · have hrun : (deallocate p).run m
        = .ok () (m.put p { m.store p with isFree := true }) := by
      simp [deallocate, hlt, hused]
    have hrun' : (deallocate (ρ p)).run m'
        = .ok () (m'.put (ρ p) { m'.store (ρ p) with isFree := true }) := by
      have hlt' : ρ p < m'.size := h.size ▸ h.rotation.lt p hlt
      simp [deallocate, hlt', hfree, hused]
    rw [hrun, hrun']
    refine ⟨trivial, h.size, h.rotation, h.cursor_lt, h.cursor, ?_, h.seen_lt,
      ?_⟩
    · intro q hq
      by_cases hqp : q = p
      · simp [put, hqp]
      · have hne : ρ q ≠ ρ p := fun heq =>
          hqp (h.rotation.inj q hq p hlt heq)
        simp only [put, hqp, hne, if_false]
        exact h.free q hq
    · intro q hq
      rw [put_deref, put_deref]
      by_cases hqp : q = p
      · rw [if_pos hqp, if_pos (congrArg ρ hqp)]
        exact h.object p hp
      · rw [if_neg hqp, if_neg fun heq => hqp
          (h.rotation.inj q (h.seen_lt q hq) p hlt heq)]
        exact h.object q hq
  · -- a block that is not in use: both assertions fail
    have hfree₁ : m.used p = false := by
      unfold used
      simpa using hused
    have hfree₂ : m'.used (ρ p) = false := by
      unfold used at *
      rw [hfree]
      exact hfree₁
    obtain ⟨e, he⟩ := deallocate_error hfree₁
    obtain ⟨e', he'⟩ := deallocate_error hfree₂
    rw [he, he']
    trivial

/-- A write to corresponding blocks. -/
theorem PoolCopy.modify (h : PoolCopy ρ seen E m m') {p : Ptr}
    (hp : seen p) {f g : α → α} (hfg : ∀ a b, E a b → E (f a) (g b)) :
    PoolCopy ρ seen E (m.modify p f) (m'.modify (ρ p) g) where
  size := h.size
  rotation := h.rotation
  cursor_lt := h.cursor_lt
  cursor := h.cursor
  free := fun q hq => by
    have hmod : ∀ (m : MemPool α) (p q : Ptr) (f : α → α),
        ((m.modify p f).store q).isFree = (m.store q).isFree := by
      intro m p q f
      simp only [MemPool.modify, put]
      split
      · next heq => rw [heq]
      · rfl
    rw [hmod, hmod]
    exact h.free q hq
  seen_lt := h.seen_lt
  object := fun q hq => by
    rw [modify_deref, modify_deref]
    by_cases hqp : q = p
    · rw [if_pos hqp, if_pos (congrArg ρ hqp)]
      exact hfg _ _ (h.object p hp)
    · rw [if_neg hqp, if_neg fun heq => hqp (h.inj q p hq hp heq)]
      exact h.object q hq

end PoolCopy

end MemPool

-- ================================================================ ladders

/-- Where the blocks of one ladder lie in another's memory. -/
structure Relocation (K : Type) where
  order : Ptr → Ptr
  level : Ptr → Ptr
  orderSeen : Ptr → Prop
  levelSeen : Ptr → Prop
  stamped : K → Prop

namespace Relocation

variable {K : Type}

/-- `r'` has handed out what `r` has, and maybe more. -/
structure le (r r' : Relocation K) : Prop where
  order : r'.order = r.order
  level : r'.level = r.level
  orderSeen : ∀ p, r.orderSeen p → r'.orderSeen p
  levelSeen : ∀ p, r.levelSeen p → r'.levelSeen p
  stamped : r'.stamped = r.stamped

theorem le.refl (r : Relocation K) : r.le r where
  order := rfl
  level := rfl
  orderSeen := fun _ h => h
  levelSeen := fun _ h => h
  stamped := rfl

theorem le.trans {r₁ r₂ r₃ : Relocation K} (h : r₁.le r₂) (h' : r₂.le r₃) :
    r₁.le r₃ where
  order := h'.order.trans h.order
  level := h'.level.trans h.level
  orderSeen := fun p hp => h'.orderSeen p (h.orderSeen p hp)
  levelSeen := fun p hp => h'.levelSeen p (h.levelSeen p hp)
  stamped := h'.stamped.trans h.stamped

/-- The order block `p` has been handed out too. -/
def withOrder (r : Relocation K) (p : Ptr) : Relocation K :=
  { r with orderSeen := fun q => r.orderSeen q ∨ q = p }

/-- The level block `p` has been handed out too. -/
def withLevel (r : Relocation K) (p : Ptr) : Relocation K :=
  { r with levelSeen := fun q => r.levelSeen q ∨ q = p }

theorem le_withOrder (r : Relocation K) (p : Ptr) : r.le (r.withOrder p) :=
  { le.refl r with orderSeen := fun _ h => Or.inl h }

theorem le_withLevel (r : Relocation K) (p : Ptr) : r.le (r.withLevel p) :=
  { le.refl r with levelSeen := fun _ h => Or.inl h }

abbrev OrderPtr (r : Relocation K) := PtrCopy r.order r.orderSeen
abbrev LevelPtr (r : Relocation K) := PtrCopy r.level r.levelSeen

/-- The same order, with its links moved. -/
structure OrderCopy (r : Relocation K) (o o' : Order K) : Prop where
  stamped : r.stamped o.key
  key : o'.key = o.key
  side : o'.side = o.side
  price : o'.price = o.price
  quantity : o'.quantity = o.quantity
  priority : o'.priority = o.priority
  prevOrder : r.OrderPtr o.prevOrder o'.prevOrder
  nextOrder : r.OrderPtr o.nextOrder o'.nextOrder

/-- The same level, with its links moved. -/
structure LevelCopy (r : Relocation K) (l l' : OrdersAtPrice) : Prop where
  side : l'.side = l.side
  price : l'.price = l.price
  firstOrder : r.OrderPtr l.firstOrder l'.firstOrder
  prevEntry : r.LevelPtr l.prevEntry l'.prevEntry
  nextEntry : r.LevelPtr l.nextEntry l'.nextEntry

section le

variable {r r' : Relocation K} (hle : r.le r')

include hle

/-- Pointers and objects stay copies when more is handed out. -/
theorem le.orderPtr {x y : Option Ptr} (h : r.OrderPtr x y) :
    r'.OrderPtr x y := by
  unfold OrderPtr
  rw [hle.order]
  exact h.mono hle.orderSeen

theorem le.levelPtr {x y : Option Ptr} (h : r.LevelPtr x y) :
    r'.LevelPtr x y := by
  unfold LevelPtr
  rw [hle.level]
  exact h.mono hle.levelSeen

theorem le.orderCopy {o o' : Order K} (h : r.OrderCopy o o') :
    r'.OrderCopy o o' :=
  { h with
    stamped := by rw [hle.stamped]; exact h.stamped
    prevOrder := hle.orderPtr h.prevOrder
    nextOrder := hle.orderPtr h.nextOrder }

theorem le.levelCopy {l l' : OrdersAtPrice} (h : r.LevelCopy l l') :
    r'.LevelCopy l l' :=
  { h with
    firstOrder := hle.orderPtr h.firstOrder
    prevEntry := hle.levelPtr h.prevEntry
    nextEntry := hle.levelPtr h.nextEntry }

end le

end Relocation

open MemPool Relocation

namespace Ladder

variable {K : Type} {r : Relocation K}

/-- The ladder `t` is `s` with its blocks moved by `r`. -/
structure LadderCopy (r : Relocation K) (s t : Ladder K) :
    Prop where
  orders : PoolCopy r.order r.orderSeen r.OrderCopy s.orderPool t.orderPool
  levels : PoolCopy r.level r.levelSeen r.LevelCopy s.ordersAtPricePool
    t.ordersAtPricePool
  best : ∀ b, r.LevelPtr (s.best b) (t.best b)
  slots : ∀ i, r.LevelPtr (s.priceOrdersAtPrice i) (t.priceOrdersAtPrice i)

-- ============================================================= statements

/-- A unit of code that keeps the copy. -/
abbrev Moved (r : Relocation K) (x y : Prog (Ladder K) Unit) : Prop :=
  Lockstep (LadderCopy r) x y fun _ _ => True

section statements

variable {p q v w : Option Ptr}

/-- A read through null ends the process on both sides; elsewhere it reads
copies. -/
theorem readOrder_copy (h : r.OrderPtr p q) :
    Lockstep (LadderCopy r) (readOrder p) (readOrder q) r.OrderCopy := by
  obtain ⟨rfl, hseen⟩ := h
  cases p with
  | none => exact Sim.throw _ _
  | some p => exact fun s t hst => ⟨hst.orders.object p (hseen p rfl), hst⟩

theorem readLevel_copy (h : r.LevelPtr p q) :
    Lockstep (LadderCopy r) (readLevel p) (readLevel q) r.LevelCopy := by
  obtain ⟨rfl, hseen⟩ := h
  cases p with
  | none => exact Sim.throw _ _
  | some p => exact fun s t hst => ⟨hst.levels.object p (hseen p rfl), hst⟩

/-- A write that takes copies to copies. -/
theorem writeOrder_copy {f g : Order K → Order K} (h : r.OrderPtr p q)
    (hfg : ∀ o o', r.OrderCopy o o' → r.OrderCopy (f o) (g o')) :
    Moved r (writeOrder f p) (writeOrder g q) := by
  obtain ⟨rfl, hseen⟩ := h
  cases p with
  | none => exact Sim.throw _ _
  | some p =>
      refine Lockstep.modify fun s t hst => ?_
      exact ⟨hst.orders.modify (hseen p rfl) hfg, hst.levels, hst.best, hst.slots⟩

theorem writeLevel_copy {f g : OrdersAtPrice → OrdersAtPrice}
    (h : r.LevelPtr p q)
    (hfg : ∀ l l', r.LevelCopy l l' → r.LevelCopy (f l) (g l')) :
    Moved r (writeLevel f p) (writeLevel g q) := by
  obtain ⟨rfl, hseen⟩ := h
  cases p with
  | none => exact Sim.throw _ _
  | some p =>
      refine Lockstep.modify fun s t hst => ?_
      exact ⟨hst.orders, hst.levels.modify (hseen p rfl) hfg, hst.best, hst.slots⟩

/-- A link is set to corresponding blocks. -/
theorem setNextOrder_copy (h : r.OrderPtr p q) (hv : r.OrderPtr v w) :
    Moved r (setNextOrder p v) (setNextOrder q w) :=
  writeOrder_copy h fun _ _ ho => { ho with nextOrder := hv }

theorem setPrevOrder_copy (h : r.OrderPtr p q) (hv : r.OrderPtr v w) :
    Moved r (setPrevOrder p v) (setPrevOrder q w) :=
  writeOrder_copy h fun _ _ ho => { ho with prevOrder := hv }

theorem setNextEntry_copy (h : r.LevelPtr p q) (hv : r.LevelPtr v w) :
    Moved r (setNextEntry p v) (setNextEntry q w) :=
  writeLevel_copy h fun _ _ hl => { hl with nextEntry := hv }

theorem setPrevEntry_copy (h : r.LevelPtr p q) (hv : r.LevelPtr v w) :
    Moved r (setPrevEntry p v) (setPrevEntry q w) :=
  writeLevel_copy h fun _ _ hl => { hl with prevEntry := hv }

theorem setFirstOrder_copy (h : r.LevelPtr p q) (hv : r.OrderPtr v w) :
    Moved r (setFirstOrder p v) (setFirstOrder q w) :=
  writeLevel_copy h fun _ _ hl => { hl with firstOrder := hv }

/-- The two pointers to the best levels. -/
theorem setBest_copy (isBuy : Bool) (hv : r.LevelPtr v w) :
    Moved r (setBest isBuy v) (setBest isBuy w) := by
  refine Lockstep.modify fun s t hst => ?_
  have hbest := hst.best
  cases isBuy with
  | true =>
      refine ⟨hst.orders, hst.levels, fun b => ?_, hst.slots⟩
      cases b
      · exact hbest false
      · exact hv
  | false =>
      refine ⟨hst.orders, hst.levels, fun b => ?_, hst.slots⟩
      cases b
      · exact hv
      · exact hbest true

/-- A slot of the price table. The two prices are one: only their pointers
were moved. -/
theorem setOrdersAtPrice_copy (price : Price) (hv : r.LevelPtr v w) :
    Moved r (setOrdersAtPrice price v) (setOrdersAtPrice price w) := by
  refine Lockstep.modify fun s t hst => ?_
  refine ⟨hst.orders, hst.levels, hst.best, fun i => ?_⟩
  show r.LevelPtr (if i = priceToIndex price then v else s.priceOrdersAtPrice i)
    (if i = priceToIndex price then w else t.priceOrdersAtPrice i)
  split
  · exact hv
  · exact hst.slots i

/-- A double free stops both or neither. -/
theorem deallocateOrder_copy (h : r.OrderPtr p q) :
    Moved r (deallocateOrder p) (deallocateOrder q) := by
  obtain ⟨rfl, hseen⟩ := h
  cases p with
  | none => exact Sim.throw _ _
  | some p =>
      refine Sim.zoom (deallocate_copy (hseen p rfl)) (fun s t hst => hst.orders)
        ?_
      rintro - - s t m m' hst ⟨-, hm⟩
      exact ⟨trivial, hm, hst.levels, hst.best, hst.slots⟩

theorem deallocateLevel_copy (h : r.LevelPtr p q) :
    Moved r (deallocateLevel p) (deallocateLevel q) := by
  obtain ⟨rfl, hseen⟩ := h
  cases p with
  | none => exact Sim.throw _ _
  | some p =>
      refine Sim.zoom (deallocate_copy (hseen p rfl)) (fun s t hst => hst.levels)
        ?_
      rintro - - s t m m' hst ⟨-, hm⟩
      exact ⟨trivial, hst.orders, hm, hst.best, hst.slots⟩

/-- Two new orders lie at corresponding blocks. -/
theorem allocateOrder_copy {o o' : Order K} (ho : r.OrderCopy o o') :
    Sim (LadderCopy r) (allocateOrder o) (allocateOrder o')
      fun x y s t => ∃ r', r.le r' ∧ r'.OrderPtr x y ∧ LadderCopy r' s t := by
  refine Sim.bind (M := fun p p' s t =>
    p' = r.order p ∧ LadderCopy (r.withOrder p) s t) ?_ fun p p' => ?_
  · refine Sim.zoom (allocate_copy (fun _ _ h => h) ho)
      (fun s t hst => hst.orders) ?_
    intro p p' s t m m' hst h
    obtain ⟨hp, hm⟩ := h
    have hle := r.le_withOrder p
    exact ⟨hp,
      { hm with object := fun q hq => hle.orderCopy (hm.object q hq) },
      { hst.levels with
        object := fun q hq => hle.levelCopy (hst.levels.object q hq) },
      fun b => hle.levelPtr (hst.best b), fun i => hle.levelPtr (hst.slots i)⟩
  · refine Sim.pure ?_
    intro s t h
    obtain ⟨rfl, hst⟩ := h
    exact ⟨_, r.le_withOrder p, ptrCopy_some (Or.inr rfl), hst⟩

/-- Two new levels lie at corresponding blocks. -/
theorem allocateLevel_copy {l l' : OrdersAtPrice} (hl : r.LevelCopy l l') :
    Sim (LadderCopy r) (allocateLevel l) (allocateLevel l')
      fun x y s t => ∃ r', r.le r' ∧ r'.LevelPtr x y ∧ LadderCopy r' s t := by
  refine Sim.bind (M := fun p p' s t =>
    p' = r.level p ∧ LadderCopy (r.withLevel p) s t) ?_ fun p p' => ?_
  · refine Sim.zoom (allocate_copy (fun _ _ h => h) hl)
      (fun s t hst => hst.levels) ?_
    intro p p' s t m m' hst h
    obtain ⟨hp, hm⟩ := h
    have hle := r.le_withLevel p
    exact ⟨hp,
      { hst.orders with
        object := fun q hq => hle.orderCopy (hst.orders.object q hq) },
      { hm with object := fun q hq => hle.levelCopy (hm.object q hq) },
      fun b => hle.levelPtr (hst.best b), fun i => hle.levelPtr (hst.slots i)⟩
  · refine Sim.pure ?_
    intro s t h
    obtain ⟨rfl, hst⟩ := h
    exact ⟨_, r.le_withLevel p, ptrCopy_some (Or.inr rfl), hst⟩

end statements

/-- The price table holds corresponding levels. -/
theorem getOrdersAtPrice_copy {s t : Ladder K} (h : LadderCopy r s t)
    (price : Price) :
    r.LevelPtr (s.getOrdersAtPrice price) (t.getOrdersAtPrice price) :=
  h.slots (priceToIndex price)

section pointers

variable {s t : Ladder K} {x x' y y' : Option Ptr}

/-- Pointers are equal in one ladder when they are in the other. -/
theorem LadderCopy.levelPtr_eq_iff (h : LadderCopy r s t)
    (hx : r.LevelPtr x y) (hx' : r.LevelPtr x' y') : x = x' ↔ y = y' :=
  PtrCopy.eq_iff h.levels.inj hx hx'

theorem LadderCopy.orderPtr_eq_iff (h : LadderCopy r s t)
    (hx : r.OrderPtr x y) (hx' : r.OrderPtr x' y') : x = x' ↔ y = y' :=
  PtrCopy.eq_iff h.orders.inj hx hx'

end pointers

-- ============================================================== functions

/-- A lockstep may be looked at in one pair of its states. -/
theorem moved_of_copy {α β : Type} {x : Prog (Ladder K) α}
    {y : Prog (Ladder K) β} {Q : α → β → Ladder K → Ladder K → Prop}
    (h : ∀ s t, LadderCopy r s t → Sim (LadderCopy r) x y Q) :
    Sim (LadderCopy r) x y Q := fun s t hst => h s t hst s t hst

/-- A level goes. The source compares pointers twice, and compares alike. -/
theorem removeOrderAtPrice_copy (side : Side) (price : Price) :
    Moved r (removeOrderAtPrice side price)
      (removeOrderAtPrice side price) := by
  unfold removeOrderAtPrice
  refine Sim.get_bind fun s t hst => ?_
  refine Sim.get_bind fun s' t' hst' => ?_
  have hbest := hst.best (side == .buy)
  have hlevel := getOrdersAtPrice_copy hst' price
  have hend : Moved r
      (do setOrdersAtPrice price none
          deallocateLevel (s'.getOrdersAtPrice price))
      (do setOrdersAtPrice price none
          deallocateLevel (t'.getOrdersAtPrice price)) :=
    Lockstep.bind (setOrdersAtPrice_copy price ptrCopy_none)
      fun _ _ _ => deallocateLevel_copy hlevel
  have hclear : Moved r
      (do setNextEntry (s'.getOrdersAtPrice price) none
          setPrevEntry (s'.getOrdersAtPrice price) none
          setOrdersAtPrice price none
          deallocateLevel (s'.getOrdersAtPrice price))
      (do setNextEntry (t'.getOrdersAtPrice price) none
          setPrevEntry (t'.getOrdersAtPrice price) none
          setOrdersAtPrice price none
          deallocateLevel (t'.getOrdersAtPrice price)) :=
    Lockstep.bind (setNextEntry_copy hlevel ptrCopy_none) fun _ _ _ =>
      Lockstep.bind (setPrevEntry_copy hlevel ptrCopy_none) fun _ _ _ => hend
  refine Lockstep.bind (readLevel_copy hlevel) fun l l' hl => ?_
  refine Sim.ite (hst'.levelPtr_eq_iff hl.nextEntry hlevel) (fun _ => ?_)
    fun _ => ?_
  · -- the only level of its side
    exact Lockstep.bind (setBest_copy _ ptrCopy_none) fun _ _ _ => hend
  · -- it is taken out of the ring, and the best pointer moved on from it
    refine Lockstep.bind (readLevel_copy hlevel) fun l₁ l₁' hl₁ => ?_
    refine Lockstep.bind (readLevel_copy hlevel) fun l₂ l₂' hl₂ => ?_
    refine Lockstep.bind (setNextEntry_copy hl₁.prevEntry hl₂.nextEntry)
      fun _ _ _ => ?_
    refine Lockstep.bind (readLevel_copy hlevel) fun l₃ l₃' hl₃ => ?_
    refine Lockstep.bind (readLevel_copy hlevel) fun l₄ l₄' hl₄ => ?_
    refine Lockstep.bind (setPrevEntry_copy hl₃.nextEntry hl₄.prevEntry)
      fun _ _ _ => ?_
    refine Sim.ite (hst'.levelPtr_eq_iff hlevel hbest) (fun _ => ?_)
      fun _ => hclear
    refine Lockstep.bind (readLevel_copy hlevel) fun l₅ l₅' hl₅ => ?_
    exact Lockstep.bind (setBest_copy _ hl₅.nextEntry) fun _ _ _ => hclear

/-- An order goes, and its level with it if it was the last. -/
theorem unlinkOrder_copy {p q : Option Ptr} (h : r.OrderPtr p q) :
    Moved r (unlinkOrder p) (unlinkOrder q) := by
  unfold unlinkOrder
  refine Lockstep.bind (readOrder_copy h) fun o o' ho => ?_
  refine Sim.get_bind fun s t hst => ?_
  rw [ho.price, ho.side]
  have hlevel := getOrdersAtPrice_copy hst o.price
  have hend : Moved r (do setNextOrder p none; setPrevOrder p none)
      (do setNextOrder q none; setPrevOrder q none) :=
    Lockstep.bind (setNextOrder_copy h ptrCopy_none)
      fun _ _ _ => setPrevOrder_copy h ptrCopy_none
  refine Sim.ite (hst.orderPtr_eq_iff ho.prevOrder h) (fun _ => ?_) fun _ => ?_
  · exact removeOrderAtPrice_copy o.side o.price
  · -- the first order of a level hands that place to the next
    refine Lockstep.bind (setNextOrder_copy ho.prevOrder ho.nextOrder)
      fun _ _ _ => ?_
    refine Lockstep.bind (setPrevOrder_copy ho.nextOrder ho.prevOrder)
      fun _ _ _ => ?_
    refine Lockstep.bind (readLevel_copy hlevel) fun l l' hl => ?_
    refine Sim.ite (hst.orderPtr_eq_iff hl.firstOrder h) (fun _ => ?_)
      fun _ => hend
    exact Lockstep.bind (setFirstOrder_copy hlevel ho.nextOrder)
      fun _ _ _ => hend

/-- The comparison of prices in `addOrderAtPrice` reads no pointer. -/
theorem addAfter_copy {e e' l l' : OrdersAtPrice} (he : r.LevelCopy e e')
    (hl : r.LevelCopy l l') : addAfter e' l' = addAfter e l := by
  unfold addAfter
  rw [he.side, he.price, hl.price]

/-- The result of the search for the neighbour of a new level. -/
def TargetCopy (r : Relocation K) (x y : Option Ptr × Bool) : Prop :=
  r.LevelPtr x.1 y.1 ∧ x.2 = y.2

/-- The loop reads prices and compares its pointer with the best one. -/
theorem seekTarget_copy {e e' : OrdersAtPrice} {best best' : Option Ptr}
    (he : r.LevelCopy e e') (hbest : r.LevelPtr best best') (fuel : Nat) :
    ∀ (target target' : Option Ptr) (after : Bool),
    r.LevelPtr target target' →
    Lockstep (LadderCopy r) (seekTarget e best fuel target after)
      (seekTarget e' best' fuel target' after) (TargetCopy r) := by
  induction fuel with
  | zero => exact fun _ _ _ _ => Sim.throw _ _
  | succ fuel ih =>
      intro target target' after ht
      refine moved_of_copy fun s t hst => ?_
      have heq : (after && target != best) = true
          ↔ (after && target' != best') = true := by
        simp [hst.levelPtr_eq_iff ht hbest]
      unfold seekTarget
      refine Sim.ite heq (fun _ => ?_) fun _ => Lockstep.pure ⟨ht, rfl⟩
      refine Lockstep.bind (readLevel_copy ht) fun l l' hl => ?_
      rw [addAfter_copy he hl]
      refine Sim.ite Iff.rfl (fun _ => ?_) fun _ => ih _ _ _ ht
      refine Lockstep.bind (readLevel_copy ht) fun l₁ l₁' hl₁ => ?_
      exact ih _ _ _ hl₁.nextEntry

/-- The search starts at the best level, or at the one after it. -/
theorem findTarget_copy {e e' : OrdersAtPrice} {best best' : Option Ptr}
    (he : r.LevelCopy e e') (hbest : r.LevelPtr best best') :
    Lockstep (LadderCopy r) (findTarget e best) (findTarget e' best')
      (TargetCopy r) := by
  unfold findTarget
  refine Sim.get_bind fun s t hst => ?_
  rw [hst.levels.size]
  refine Lockstep.bind (readLevel_copy hbest) fun l l' hl => ?_
  rw [addAfter_copy he hl]
  refine Sim.ite Iff.rfl (fun _ => ?_)
    fun _ => seekTarget_copy he hbest _ _ _ _ hbest
  refine Lockstep.bind (readLevel_copy hbest) fun l₁ l₁' hl₁ => ?_
  refine Lockstep.bind (readLevel_copy hl₁.nextEntry) fun l₂ l₂' hl₂ => ?_
  rw [addAfter_copy he hl₂]
  exact seekTarget_copy he hbest _ _ _ _ hl₁.nextEntry

/-- A level comes, at the same place of both rings. -/
theorem addOrderAtPrice_copy {p q : Option Ptr} (h : r.LevelPtr p q) :
    Moved r (addOrderAtPrice p) (addOrderAtPrice q) := by
  unfold addOrderAtPrice
  refine Lockstep.bind (readLevel_copy h) fun e e' he => ?_
  rw [he.price, he.side]
  refine Lockstep.bind (setOrdersAtPrice_copy e.price h) fun _ _ _ => ?_
  refine Sim.get_bind fun s t hst => ?_
  have hbest := hst.best (e.side == .buy)
  refine Sim.ite hbest.none_iff (fun _ => ?_) fun _ => ?_
  · -- the first level of its side is a ring of its own
    refine Lockstep.bind (setBest_copy _ h) fun _ _ _ => ?_
    exact Lockstep.bind (setNextEntry_copy h h)
      fun _ _ _ => setPrevEntry_copy h h
  · refine Lockstep.bind (findTarget_copy he hbest) fun x y hxy => ?_
    obtain ⟨target, after⟩ := x
    obtain ⟨target', after'⟩ := y
    obtain ⟨ht, rfl⟩ : r.LevelPtr target target' ∧ after = after' := hxy
    refine Sim.ite Iff.rfl (fun _ => ?_) fun _ => ?_
    · -- behind the last level
      refine Lockstep.bind (readLevel_copy hbest) fun l l' hl => ?_
      have hlast := hl.prevEntry
      refine Lockstep.bind (setPrevEntry_copy h hlast) fun _ _ _ => ?_
      refine Lockstep.bind (readLevel_copy hlast) fun l₁ l₁' hl₁ => ?_
      refine Lockstep.bind (setPrevEntry_copy hl₁.nextEntry h) fun _ _ _ => ?_
      refine Lockstep.bind (readLevel_copy hlast) fun l₂ l₂' hl₂ => ?_
      exact Lockstep.bind (setNextEntry_copy h hl₂.nextEntry)
        fun _ _ _ => setNextEntry_copy hlast h
    · -- in front of the level that was found, which may have been the best
      refine Lockstep.bind (readLevel_copy ht) fun l l' hl => ?_
      refine Lockstep.bind (setPrevEntry_copy h hl.prevEntry) fun _ _ _ => ?_
      refine Lockstep.bind (setNextEntry_copy h ht) fun _ _ _ => ?_
      refine Lockstep.bind (readLevel_copy ht) fun l₁ l₁' hl₁ => ?_
      refine Lockstep.bind (setNextEntry_copy hl₁.prevEntry h) fun _ _ _ => ?_
      refine Lockstep.bind (setPrevEntry_copy ht h) fun _ _ _ => ?_
      refine Lockstep.bind (readLevel_copy hbest) fun l₂ l₂' hl₂ => ?_
      rw [hl₂.price]
      refine Sim.ite Iff.rfl (fun _ => ?_) fun _ => Lockstep.pure trivial
      refine Lockstep.bind (readLevel_copy ht) fun l₃ l₃' hl₃ => ?_
      have hnext : r.LevelPtr
          (if l₃.nextEntry = s.best (e.side == .buy) then p else l₃.nextEntry)
          (if l₃'.nextEntry = t.best (e.side == .buy) then q
            else l₃'.nextEntry) := by
        by_cases hn : l₃.nextEntry = s.best (e.side == .buy)
        · rw [if_pos hn, if_pos ((hst.levelPtr_eq_iff hl₃.nextEntry hbest).1 hn)]
          exact h
        · rw [if_neg hn, if_neg fun hn' =>
            hn ((hst.levelPtr_eq_iff hl₃.nextEntry hbest).2 hn')]
          exact hl₃.nextEntry
      exact Lockstep.bind (setNextEntry_copy ht hnext)
        fun _ _ _ => setBest_copy _ h

/-- `addOrder` hands out a level at most. -/
theorem linkOrder_copy {p q : Option Ptr} (h : r.OrderPtr p q) :
    Sim (LadderCopy r) (linkOrder p) (linkOrder q)
      fun _ _ s t => ∃ r', r.le r' ∧ LadderCopy r' s t := by
  unfold linkOrder
  refine Lockstep.bind (readOrder_copy h) fun o o' ho => ?_
  refine Sim.get_bind fun s t hst => ?_
  rw [ho.price, ho.side]
  have hlevel := getOrdersAtPrice_copy hst o.price
  refine Sim.ite hlevel.none_iff (fun _ => ?_) fun _ => ?_
  · -- a price without a level gets one
    refine Lockstep.bind (setPrevOrder_copy h h) fun _ _ _ => ?_
    refine Lockstep.bind (setNextOrder_copy h h) fun _ _ _ => ?_
    refine Sim.bind (allocateLevel_copy ⟨rfl, rfl, h, ptrCopy_none,
      ptrCopy_none⟩) fun x y => ?_
    intro s t h
    obtain ⟨r', hle, hxy, hst⟩ := h
    exact Sim.mono (addOrderAtPrice_copy hxy) (fun _ _ h => h)
      (fun _ _ _ _ h => ⟨r', hle, h.2⟩) s t hst
  · -- otherwise the order goes to the end of the level's queue
    have hlink : Moved r
        (do let l ← readLevel (s.getOrdersAtPrice o.price)
            let firstOrder := l.firstOrder
            setNextOrder (← readOrder firstOrder).prevOrder p
            setPrevOrder p (← readOrder firstOrder).prevOrder
            setNextOrder p firstOrder
            setPrevOrder firstOrder p)
        (do let l ← readLevel (t.getOrdersAtPrice o.price)
            let firstOrder := l.firstOrder
            setNextOrder (← readOrder firstOrder).prevOrder q
            setPrevOrder q (← readOrder firstOrder).prevOrder
            setNextOrder q firstOrder
            setPrevOrder firstOrder q) := by
      refine Lockstep.bind (readLevel_copy hlevel) fun l l' hl => ?_
      have hfirst := hl.firstOrder
      refine Lockstep.bind (readOrder_copy hfirst) fun a a' ha => ?_
      refine Lockstep.bind (setNextOrder_copy ha.prevOrder h) fun _ _ _ => ?_
      refine Lockstep.bind (readOrder_copy hfirst) fun b b' hb => ?_
      refine Lockstep.bind (setPrevOrder_copy h hb.prevOrder) fun _ _ _ => ?_
      exact Lockstep.bind (setNextOrder_copy h hfirst)
        fun _ _ _ => setPrevOrder_copy hfirst h
    exact Sim.mono hlink (fun _ _ h => h)
      fun _ _ _ _ h => ⟨r, le.refl r, h.2⟩

-- ================================================================== views

section views

variable {s t : Ladder K}

/-- A walk along moved links reads the moved blocks. -/
theorem walk_copy {ρ : Ptr → Ptr} {seen : Ptr → Prop}
    {next next' : Ptr → Option Ptr}
    (hinj : ∀ p q, seen p → seen q → ρ p = ρ q → p = q)
    (hnext : ∀ p, seen p → PtrCopy ρ seen (next p) (next' (ρ p))) {a : Ptr}
    (ha : seen a) (fuel : Nat) : ∀ x, seen x →
    walk next' (ρ a) fuel (ρ x) = (walk next a fuel x).map ρ
      ∧ ∀ y ∈ walk next a fuel x, seen y := by
  induction fuel with
  | zero => exact fun x _ => ⟨rfl, nofun⟩
  | succ fuel ih =>
      intro x hx
      obtain ⟨hn, hseen⟩ := hnext x hx
      unfold walk
      rw [hn]
      cases hy : next x with
      | none => exact ⟨rfl, by simpa using hx⟩
      | some y =>
          have hys := hseen y hy
          simp only [Option.map_some]
          by_cases heq : y = a
          · rw [if_pos heq, if_pos (congrArg ρ heq)]
            exact ⟨rfl, by simpa using hx⟩
          · rw [if_neg heq, if_neg fun h => heq (hinj y a hys ha h),
              (ih y hys).1]
            refine ⟨rfl, fun z hz => ?_⟩
            rcases List.mem_cons.1 hz with rfl | hz
            · exact hx
            · exact (ih y hys).2 z hz

/-- Corresponding blocks hold the same order. -/
theorem LadderCopy.resting_eq (h : LadderCopy r s t) {p : Ptr}
    (hp : r.orderSeen p) : t.resting (r.order p) = s.resting p := by
  have ho := h.orders.object p hp
  show Resting.mk (t.order (r.order p)).key _ _ _ _ = Resting.mk (s.order p).key
    _ _ _ _
  simp only [Resting.mk.injEq]
  exact ⟨ho.key, ho.side, ho.price, ho.quantity, ho.priority⟩

/-- A reader sees the same levels with the same orders. -/
theorem LadderCopy.levelViews_eq (h : LadderCopy r s t) (b : Bool) :
    t.levelViews b = s.levelViews b := by
  have hlevels : t.levelPtrs b = (s.levelPtrs b).map r.level
      ∧ ∀ p ∈ s.levelPtrs b, r.levelSeen p := by
    obtain ⟨hbest, hseen⟩ := h.best b
    unfold levelPtrs
    rw [hbest]
    cases hb : s.best b with
    | none => exact ⟨rfl, nofun⟩
    | some a =>
        rw [Option.map_some, h.levels.size]
        exact walk_copy h.levels.inj (fun p hp => (h.levels.object p hp).nextEntry)
          (hseen a hb) _ a (hseen a hb)
  unfold levelViews
  rw [hlevels.1, List.map_map]
  refine List.map_congr_left fun p hp => ?_
  have hl := h.levels.object p (hlevels.2 p hp)
  have horders : t.orderPtrs (r.level p) = (s.orderPtrs p).map r.order
      ∧ ∀ o ∈ s.orderPtrs p, r.orderSeen o := by
    obtain ⟨hfirst, hseen⟩ := hl.firstOrder
    unfold orderPtrs
    rw [show t.firstOrder (r.level p) = (s.firstOrder p).map r.order from hfirst]
    cases hf : s.firstOrder p with
    | none => exact ⟨rfl, nofun⟩
    | some a =>
        rw [Option.map_some, h.orders.size]
        exact walk_copy h.orders.inj (fun o ho => (h.orders.object o ho).nextOrder)
          (hseen a hf) _ a (hseen a hf)
  have hside : t.levelSide (r.level p) = s.levelSide p := hl.side
  have hprice : t.levelPrice (r.level p) = s.levelPrice p := hl.price
  rw [Function.comp_apply, hside, hprice, horders.1, List.map_map]
  congr 1
  exact List.map_congr_left fun o ho => h.resting_eq (horders.2 o ho)

end views

end Ladder

end ElectronicTrading
