/-
Mempool.hpp: a fixed array of object blocks handed out one at a time.

A pointer into a pool is the index of its block. A block that has been
given back keeps its object: a dangling pointer reads the old object,
or the one of the block's next owner, exactly as in the source.

# The cursor

`allocate` takes the block under the cursor and moves the cursor on to
the next free block, in the same call. So the pool needs a free block
besides the one it hands out, and with `size` blocks it is the `size`-th
allocation that fails (`allocate_cases`). `MemPool.Ok` is the invariant
between calls.
-/
import ElectronicTrading.Common.Types
import ElectronicTrading.Lib.Exec
import Mathlib.Data.Nat.ModEq

namespace ElectronicTrading

open Exec in
theorem assert_keeps {σ : Type} {I : σ → Prop} (c : Bool) (f : Fault) :
    Keeps I (assert c f) := by
  unfold assert
  exact Keeps.ite (fun _ => Keeps.pure _) fun _ => Keeps.throw _

/-- `T*` into a pool: the index of the block. -/
abbrev Ptr := Nat

/-- `MemPool::ObjectBlock`. -/
structure ObjectBlock (α : Type) where
  object : α
  isFree : Bool

/-- `MemPool<T>`: `store_`, `store_.size()` and `next_free_index_`. -/
structure MemPool (α : Type) where
  store : Nat → ObjectBlock α
  size : Nat
  nextFreeIndex : Nat

namespace MemPool

variable {α : Type}

-- ============================================================= the code

/-- `MemPool(num_elems)`: default objects, all free. -/
def new (numElems : Nat) (object : α) : MemPool α where
  store := fun _ => ⟨object, true⟩
  size := numElems
  nextFreeIndex := 0

/-- The object at `p`, in use or not. -/
def deref (m : MemPool α) (p : Ptr) : α := (m.store p).object

/-- Block `p` is handed out. -/
def used (m : MemPool α) (p : Ptr) : Bool := !(m.store p).isFree

/-- Overwrite block `p`. -/
def put (m : MemPool α) (p : Ptr) (b : ObjectBlock α) : MemPool α :=
  { m with store := fun q => if q = p then b else m.store q }

/-- Change the object at `p`. -/
def modify (m : MemPool α) (p : Ptr) (f : α → α) : MemPool α :=
  m.put p { m.store p with object := f (m.deref p) }

/-- The loop of `updateNextFreeIndex`. It visits each block at most
once, so `size` rounds are all the rounds it can take. -/
def seekFree (m : MemPool α) (initialFreeIndex : Nat) :
    Nat → Nat → Except Fault Nat
  | 0, _ => .error .endlessLoop
  | fuel + 1, next =>
      if (m.store next).isFree then .ok next
      else
        let next := next + 1
        let next := if next = m.size then 0 else next
        if initialFreeIndex = next then .error .poolOutOfSpace
        else m.seekFree initialFreeIndex fuel next

/-- `updateNextFreeIndex`. -/
def updateNextFreeIndex : Prog (MemPool α) Unit := do
  let m ← get
  match m.seekFree m.nextFreeIndex m.size m.nextFreeIndex with
  | .ok next => set { m with nextFreeIndex := next }
  | .error fault => throw fault

/-- `allocate(args...)`: `object` is the object the arguments build. -/
def allocate (object : α) : Prog (MemPool α) Ptr := do
  let m ← get
  let ret := m.nextFreeIndex
  assert (m.store ret).isFree .blockNotFree
  set (m.put ret ⟨object, false⟩)
  updateNextFreeIndex
  return ret

/-- `deallocate(elem)`. -/
def deallocate (elem : Ptr) : Prog (MemPool α) Unit := do
  let m ← get
  assert (elem < m.size) .foreignElement
  assert (!(m.store elem).isFree) .blockNotInUse
  set (m.put elem { m.store elem with isFree := true })

-- ======================================================= blocks, by field

@[simp] theorem put_size (m : MemPool α) (p : Ptr) (b : ObjectBlock α) :
    (m.put p b).size = m.size := rfl

@[simp] theorem put_nextFreeIndex (m : MemPool α) (p : Ptr)
    (b : ObjectBlock α) : (m.put p b).nextFreeIndex = m.nextFreeIndex := rfl

theorem put_deref (m : MemPool α) (p : Ptr) (b : ObjectBlock α) (q : Ptr) :
    (m.put p b).deref q = if q = p then b.object else m.deref q := by
  simp only [deref, put]
  split <;> rfl

theorem put_used (m : MemPool α) (p : Ptr) (b : ObjectBlock α) (q : Ptr) :
    (m.put p b).used q = if q = p then !b.isFree else m.used q := by
  simp only [used, put]
  split <;> rfl

/-- Only the store matters to both. -/
theorem deref_of_store {m m' : MemPool α} {p : Ptr} {b : ObjectBlock α}
    (h : m'.store = (m.put p b).store) (q : Ptr) :
    m'.deref q = if q = p then b.object else m.deref q := by
  rw [← put_deref]
  unfold deref
  rw [h]

theorem used_of_store {m m' : MemPool α} {p : Ptr} {b : ObjectBlock α}
    (h : m'.store = (m.put p b).store) (q : Ptr) :
    m'.used q = if q = p then !b.isFree else m.used q := by
  rw [← put_used]
  unfold used
  rw [h]

@[simp] theorem modify_size (m : MemPool α) (p : Ptr) (f : α → α) :
    (m.modify p f).size = m.size := rfl

@[simp] theorem modify_nextFreeIndex (m : MemPool α) (p : Ptr) (f : α → α) :
    (m.modify p f).nextFreeIndex = m.nextFreeIndex := rfl

theorem modify_deref (m : MemPool α) (p : Ptr) (f : α → α) (q : Ptr) :
    (m.modify p f).deref q = if q = p then f (m.deref p) else m.deref q := by
  unfold modify
  rw [put_deref]

@[simp] theorem modify_used (m : MemPool α) (p : Ptr) (f : α → α) (q : Ptr) :
    (m.modify p f).used q = m.used q := by
  unfold modify
  rw [put_used]
  split
  · next h => subst h; rfl
  · rfl

@[simp] theorem new_used (n : Nat) (a : α) (p : Ptr) :
    (new n a).used p = false := rfl

@[simp] theorem new_size (n : Nat) (a : α) : (new n a).size = n := rfl

-- ========================================================= the invariant

/-- Between calls: the cursor is on a free block of the pool, and every
block handed out is one of the pool's. -/
structure Ok (m : MemPool α) : Prop where
  cursor_lt : m.nextFreeIndex < m.size
  cursor_free : m.used m.nextFreeIndex = false
  used_lt : ∀ p, m.used p = true → p < m.size

theorem ok_new {n : Nat} (hn : 0 < n) (a : α) : (new n a).Ok where
  cursor_lt := hn
  cursor_free := rfl
  used_lt := fun p h => by simp at h

theorem Ok.modify {m : MemPool α} (h : m.Ok) (p : Ptr) (f : α → α) :
    (m.modify p f).Ok where
  cursor_lt := h.cursor_lt
  cursor_free := by
    rw [modify_used]
    exact h.cursor_free
  used_lt := fun q hq => by
    rw [modify_used] at hq
    exact h.used_lt q hq

-- ======================================================== the cursor's walk

/-- One move of the cursor is one step around the pool. -/
theorem wrap_succ {i n : Nat} (hi : i < n) :
    (if i + 1 = n then 0 else i + 1) = (i + 1) % n := by
  split
  · next h => rw [h, Nat.mod_self]
  · next h => rw [Nat.mod_eq_of_lt (by omega)]

/-- After `k < n` moves the cursor is back at its start only for the
`n`-th. -/
private theorem start_eq_iff {i k n : Nat} (hi : i < n) (hk : k < n) :
    i = (i + (k + 1)) % n ↔ k + 1 = n := by
  constructor
  · intro h
    by_contra hne
    rcases Nat.lt_or_ge (i + (k + 1)) n with hlt | hge
    · rw [Nat.mod_eq_of_lt hlt] at h
      omega
    · rw [Nat.mod_eq_sub_mod hge, Nat.mod_eq_of_lt (by omega)] at h
      omega
  · intro h
    have hsum : i + (k + 1) = i + n := by omega
    rw [hsum, Nat.add_mod_right, Nat.mod_eq_of_lt hi]

/-- What the cursor's walk finds, after `k` occupied blocks: a free
block when one is left on the rest of the round, and otherwise the
whole round is occupied. -/
private theorem seekFree_from (m : MemPool α) {i : Nat} (hi : i < m.size)
    (fuel k : Nat) (hk : k + fuel = m.size) (hfuel : 0 < fuel) :
    (∃ next < m.size, (m.store next).isFree = true
        ∧ m.seekFree i fuel ((i + k) % m.size) = .ok next)
      ∨ (m.seekFree i fuel ((i + k) % m.size) = .error .poolOutOfSpace
        ∧ ∀ j, k ≤ j → j < m.size →
            (m.store ((i + j) % m.size)).isFree = false) := by
  induction fuel generalizing k with
  | zero => omega
  | succ fuel ih =>
      have hpos : (i + k) % m.size < m.size := Nat.mod_lt _ (by omega)
      have hstep : ((i + k) % m.size + 1) % m.size
          = (i + (k + 1)) % m.size := by
        rw [Nat.mod_add_mod]
        rfl
      by_cases hfree : (m.store ((i + k) % m.size)).isFree = true
      · exact Or.inl ⟨_, hpos, hfree, by simp [seekFree, hfree]⟩
      · have hrun : m.seekFree i (fuel + 1) ((i + k) % m.size)
            = if i = (i + (k + 1)) % m.size then .error .poolOutOfSpace
              else m.seekFree i fuel ((i + (k + 1)) % m.size) := by
          simp only [seekFree, hfree, wrap_succ hpos, hstep]
          rfl
        rw [hrun]
        have hhere : (m.store ((i + k) % m.size)).isFree = false := by
          simpa using hfree
        by_cases hend : k + 1 = m.size
        · rw [if_pos ((start_eq_iff hi (by omega)).2 hend)]
          refine Or.inr ⟨rfl, fun j hj hjn => ?_⟩
          have hjk : j = k := by omega
          rw [hjk]
          exact hhere
        · rw [if_neg (fun h => hend ((start_eq_iff hi (by omega)).1 h))]
          rcases ih (k + 1) (by omega) (by omega) with hok | ⟨herr, hall⟩
          · exact Or.inl hok
          · refine Or.inr ⟨herr, fun j hj hjn => ?_⟩
            rcases Nat.eq_or_lt_of_le hj with heq | hlt
            · rw [← heq]
              exact hhere
            · exact hall j hlt hjn

/-- `updateNextFreeIndex` finds a free block if there is one, and
reports the pool as full otherwise. -/
theorem seekFree_spec (m : MemPool α) (hi : m.nextFreeIndex < m.size) :
    (∃ next < m.size, (m.store next).isFree = true
        ∧ m.seekFree m.nextFreeIndex m.size m.nextFreeIndex = .ok next)
      ∨ (m.seekFree m.nextFreeIndex m.size m.nextFreeIndex
            = .error .poolOutOfSpace
        ∧ ∀ p < m.size, (m.store p).isFree = false) := by
  have h := seekFree_from m hi m.size 0 (by omega) (by omega)
  rw [Nat.add_zero, Nat.mod_eq_of_lt hi] at h
  rcases h with hok | ⟨herr, hall⟩
  · exact Or.inl hok
  · refine Or.inr ⟨herr, fun p hp => ?_⟩
    -- every block is some number of steps ahead of the cursor
    have hj := hall ((p + m.size - m.nextFreeIndex) % m.size) (Nat.zero_le _)
      (Nat.mod_lt _ (by omega))
    rw [Nat.add_mod_mod,
      show m.nextFreeIndex + (p + m.size - m.nextFreeIndex) = p + m.size by
        omega, Nat.add_mod_right, Nat.mod_eq_of_lt hp] at hj
    exact hj

-- ========================================================= the two calls

theorem run_updateNextFreeIndex (m : MemPool α) :
    updateNextFreeIndex.run m
      = match m.seekFree m.nextFreeIndex m.size m.nextFreeIndex with
        | .ok next => .ok () { m with nextFreeIndex := next }
        | .error fault => .error fault m := by
  simp only [updateNextFreeIndex, EStateM.run_bind, EStateM.run_get]
  cases m.seekFree m.nextFreeIndex m.size m.nextFreeIndex <;> rfl

theorem run_allocate (m : MemPool α) (object : α) :
    (allocate object).run m
      = if (m.store m.nextFreeIndex).isFree then
          match (m.put m.nextFreeIndex ⟨object, false⟩).seekFree
              m.nextFreeIndex m.size m.nextFreeIndex with
          | .ok next => .ok m.nextFreeIndex
              { m.put m.nextFreeIndex ⟨object, false⟩ with
                nextFreeIndex := next }
          | .error fault => .error fault (m.put m.nextFreeIndex ⟨object, false⟩)
        else .error .blockNotFree m := by
  have hup := run_updateNextFreeIndex (m.put m.nextFreeIndex ⟨object, false⟩)
  simp only [put_size, put_nextFreeIndex] at hup
  simp only [allocate, EStateM.run_bind, EStateM.run_get, run_assert]
  by_cases hfree : (m.store m.nextFreeIndex).isFree = true
  · simp only [hfree, if_true, EStateM.run_set, hup]
    cases (m.put m.nextFreeIndex ⟨object, false⟩).seekFree m.nextFreeIndex
      m.size m.nextFreeIndex <;> rfl
  · simp only [hfree]
    rfl

/-- The pool `allocate` leaves, but for the cursor. -/
theorem allocate_cases {m : MemPool α} (h : m.Ok) (object : α) :
    (∃ m', (allocate object).run m = .ok m.nextFreeIndex m' ∧ m'.Ok
        ∧ m'.size = m.size
        ∧ m'.store = (m.put m.nextFreeIndex ⟨object, false⟩).store)
      ∨ ((∃ m', (allocate object).run m = .error .poolOutOfSpace m')
        ∧ ∀ p < m.size, p ≠ m.nextFreeIndex → m.used p = true) := by
  have hfree : (m.store m.nextFreeIndex).isFree = true := by
    have := h.cursor_free
    simpa [used] using this
  set m₁ := m.put m.nextFreeIndex ⟨object, false⟩ with hm₁
  have hrun := run_allocate m object
  rw [if_pos hfree, ← hm₁] at hrun
  rw [hrun]
  rcases seekFree_spec m₁ h.cursor_lt with ⟨next, hlt, hnf, hseek⟩ | ⟨herr, hall⟩
  · left
    have hseek' : m₁.seekFree m.nextFreeIndex m.size m.nextFreeIndex
        = .ok next := hseek
    rw [hseek']
    refine ⟨_, rfl, ⟨hlt, ?_, ?_⟩, rfl, rfl⟩
    · show (!(m₁.store next).isFree) = false
      rw [hnf]
      rfl
    · intro p hp
      have hp' : m₁.used p = true := hp
      rw [hm₁, put_used] at hp'
      split at hp'
      · next heq => rw [heq]; exact h.cursor_lt
      · exact h.used_lt p hp'
  · right
    have herr' : m₁.seekFree m.nextFreeIndex m.size m.nextFreeIndex
        = .error .poolOutOfSpace := herr
    rw [herr']
    refine ⟨⟨_, rfl⟩, fun p hp hne => ?_⟩
    have hp' : m₁.used p = true := by
      unfold used
      rw [hall p hp]
      rfl
    rw [hm₁, put_used, if_neg hne] at hp'
    exact hp'

/-- Giving back a block in use. -/
theorem deallocate_ok {m : MemPool α} (h : m.Ok) {p : Ptr}
    (hp : m.used p = true) :
    (deallocate p).run m
        = .ok () (m.put p { m.store p with isFree := true })
      ∧ (m.put p { m.store p with isFree := true }).Ok := by
  have hlt : p < m.size := h.used_lt p hp
  have hfree : (m.store p).isFree = false := by simpa [used] using hp
  constructor
  · simp [deallocate, hlt, hfree]
  · refine ⟨h.cursor_lt, ?_, fun q hq => ?_⟩
    · rw [put_used]
      split
      · rfl
      · exact h.cursor_free
    · rw [put_used] at hq
      split at hq
      · cases hq
      · exact h.used_lt q hq

/-- A block that is not in use cannot be given back. -/
theorem deallocate_error {m : MemPool α} {p : Ptr} (hp : m.used p = false) :
    ∃ fault, (deallocate p).run m = .error fault m := by
  have hfree : (m.store p).isFree = true := by simpa [used] using hp
  by_cases hlt : p < m.size
  · refine ⟨.blockNotInUse, ?_⟩
    simp [deallocate, hlt, hfree]
  · refine ⟨.foreignElement, ?_⟩
    simp [deallocate, hlt]

-- ======================================================== all objects

section Objects

open Exec

variable {P : α → Prop}

/-- Every object of the pool, in use or not, has `P`. -/
def All (P : α → Prop) (m : MemPool α) : Prop :=
  ∀ p, P (m.deref p)

theorem All.put {m : MemPool α} (h : m.All P) {b : ObjectBlock α} (p : Ptr)
    (hb : P b.object) : (m.put p b).All P := by
  intro q
  rw [put_deref]
  split
  · exact hb
  · exact h q

theorem All.modify {m : MemPool α} (h : m.All P) {f : α → α} (p : Ptr)
    (hf : P (f (m.deref p))) : (m.modify p f).All P :=
  h.put p hf

theorem updateNextFreeIndex_all :
    Keeps (All P) (updateNextFreeIndex : Prog (MemPool α) Unit) := by
  unfold updateNextFreeIndex
  refine Keeps.get_bind fun m hm => ?_
  split
  · exact fun _ _ => hm
  · exact Keeps.throw _

theorem allocate_all {object : α} (h : P object) :
    Keeps (All P) (allocate object) := by
  refine Keeps.get_bind fun m hm => ?_
  refine Keeps.bind (assert_keeps _ _) fun _ => ?_
  refine Keeps.bind (fun _ _ => hm.put _ h) fun _ => ?_
  exact Keeps.bind updateNextFreeIndex_all fun _ => Keeps.pure _

theorem deallocate_all (p : Ptr) : Keeps (All P) (deallocate p) := by
  refine Keeps.get_bind fun m hm => ?_
  refine Keeps.bind (assert_keeps _ _) fun _ => ?_
  exact Keeps.bind (assert_keeps _ _) fun _ => fun _ _ => hm.put _ (hm p)

end Objects

end MemPool

end ElectronicTrading
