/-
A pool and its callers, over any sequence of calls.

`Loans` is a pool with the list of the elements its callers hold; only
those are given back (`Called`). `Matches` says that the blocks in use are
exactly these, and with the invariant of Mempool.lean it holds of every
run. So a block that is handed out was nobody's, and the assertion on
`is_free` cannot fail: between calls the cursor is on a free block.

That is also what a pool is short of. `allocate` leaves the cursor on a
free block or ends the process, so it never hands out the last one
(`runsOut_iff`).
-/
import ElectronicTrading.Common.Mempool
import ElectronicTrading.Lib.Runs
import Mathlib.Data.List.Nodup
import Mathlib.Data.List.Perm.Subperm

namespace ElectronicTrading

open Exec Runs

/-- A pool, and the elements allocated and not yet given back. -/
structure Loans (α : Type) where
  pool : MemPool α
  held : List Ptr

/-- A call. -/
inductive PoolCall (α : Type) where
  | allocate (object : α)
  | deallocate (elem : Ptr)

namespace Loans

variable {α : Type}

def new (numElems : Nat) (object : α) : Loans α where
  pool := .new numElems object
  held := []

/-- A call that returns; only elements that are held are given back. -/
def Called (s : Loans α) (c : PoolCall α) (s' : Loans α) : Prop :=
  match c with
  | .allocate object => ∃ p,
      (MemPool.allocate object).run s.pool = .ok p s'.pool
        ∧ s'.held = p :: s.held
  | .deallocate elem => elem ∈ s.held
      ∧ (MemPool.deallocate elem).run s.pool = .ok () s'.pool
      ∧ s'.held = s.held.erase elem

/-- The blocks in use are the elements held, each once. -/
structure Matches (n : Nat) (s : Loans α) : Prop where
  ok : s.pool.Ok
  size : s.pool.size = n
  used : ∀ p, s.pool.used p = true ↔ p ∈ s.held
  nodup : s.held.Nodup

variable {n : Nat} {s s' : Loans α} {object : α}

theorem matches_new (hn : 0 < n) (object : α) :
    Matches n (new n object) where
  ok := MemPool.ok_new hn object
  size := rfl
  used := fun p => by
    constructor
    · intro hp
      cases hp
    · intro hp
      cases hp
  nodup := .nil

/-- The element that a call of `allocate` hands out was not held. -/
theorem Matches.cursor_not_held (h : Matches n s) :
    s.pool.nextFreeIndex ∉ s.held := by
  intro hin
  have hused := (h.used _).2 hin
  rw [h.ok.cursor_free] at hused
  cases hused

theorem Matches.called (h : Matches n s) {c : PoolCall α}
    (hcall : Called s c s') : Matches n s' := by
  cases c with
  | allocate object =>
      obtain ⟨p, hrun, hheld⟩ := hcall
      rcases MemPool.allocate_cases h.ok object with
        ⟨m, hm, hok, hsize, hstore⟩ | ⟨⟨m, hm⟩, -⟩
      · rw [hm] at hrun
        obtain ⟨hp, hpool⟩ := EStateM.Result.ok.inj hrun
        have hused : ∀ q, m.used q
            = if q = p then true else s.pool.used q := by
          intro q
          rw [← hp]
          exact MemPool.used_of_store hstore q
        refine ⟨hpool ▸ hok, ?_, fun q => ?_, ?_⟩
        · rw [← hpool]
          exact hsize.trans h.size
        · rw [← hpool, hused, hheld, List.mem_cons]
          split
          · next hq => exact iff_of_true rfl (Or.inl hq)
          · next hq =>
            rw [h.used q]
            exact ⟨Or.inr, fun hor => hor.resolve_left hq⟩
        · rw [hheld, ← hp]
          exact List.nodup_cons.2 ⟨h.cursor_not_held, h.nodup⟩
      · rw [hm] at hrun
        cases hrun
  | deallocate elem =>
      obtain ⟨hin, hrun, hheld⟩ := hcall
      obtain ⟨hdealloc, hok⟩ := MemPool.deallocate_ok h.ok ((h.used _).2 hin)
      rw [hdealloc] at hrun
      have hpool := (EStateM.Result.ok.inj hrun).2
      refine ⟨hpool ▸ hok, ?_, fun q => ?_, ?_⟩
      · rw [← hpool]
        exact h.size
      · rw [← hpool, MemPool.put_used, hheld, h.nodup.mem_erase_iff]
        split
        · next hq => exact iff_of_false nofun fun hboth => hboth.1 hq
        · next hq =>
          rw [h.used q]
          exact ⟨fun hmem => ⟨hq, hmem⟩, And.right⟩
      · rw [hheld]
        exact h.nodup.erase elem

/-- What the elements are does not matter. -/
theorem Matches.modify (h : Matches n s) (p : Ptr) (f : α → α) :
    Matches n { s with pool := s.pool.modify p f } where
  ok := h.ok.modify p f
  size := h.size
  used := fun q => by
    rw [MemPool.modify_used]
    exact h.used q
  nodup := h.nodup

theorem matches_of_run (hn : 0 < n) {cs : List (PoolCall α)}
    (h : Run Called (new n object) cs s) : Matches n s :=
  h.induct (I := fun _ s => Matches n s) (matches_new hn object)
    fun _ _ _ _ _ hs hcall => hs.called hcall

-- ================================================================= what is left

/-- Elements that are held are blocks of the pool other than the
cursor's. -/
theorem Matches.held_length (h : Matches n s) : s.held.length + 1 ≤ n := by
  have hsub : s.pool.nextFreeIndex :: s.held ⊆ List.range n := by
    intro p hp
    rw [List.mem_range, ← h.size]
    rcases List.mem_cons.1 hp with rfl | hp
    · exact h.ok.cursor_lt
    · exact h.ok.used_lt p ((h.used p).2 hp)
  have hnodup := List.nodup_cons.2 ⟨h.cursor_not_held, h.nodup⟩
  have hle := (List.subperm_of_subset hnodup hsub).length_le
  rwa [List.length_cons, List.length_range] at hle

/-- `allocate` ends the process exactly if all blocks but one are held. -/
theorem Matches.runsOut_iff (h : Matches n s) (object : α) :
    (∃ e m, (MemPool.allocate object).run s.pool = .error e m)
      ↔ s.held.length + 1 = n := by
  rcases MemPool.allocate_cases h.ok object with
    ⟨m, hm, hok, hsize, hstore⟩ | ⟨⟨m, hm⟩, hall⟩
  · have hfree : m.nextFreeIndex ≠ s.pool.nextFreeIndex
        ∧ m.nextFreeIndex ∉ s.held := by
      have hcursor := hok.cursor_free
      rw [MemPool.used_of_store hstore] at hcursor
      split at hcursor
      · cases hcursor
      · next hne =>
        refine ⟨hne, fun hin => ?_⟩
        rw [(h.used _).2 hin] at hcursor
        cases hcursor
    have hsub : m.nextFreeIndex :: s.pool.nextFreeIndex :: s.held
        ⊆ List.range n := by
      intro p hp
      rw [List.mem_range, ← h.size]
      rcases List.mem_cons.1 hp with rfl | hp
      · rw [← hsize]
        exact hok.cursor_lt
      · rcases List.mem_cons.1 hp with rfl | hp
        · exact h.ok.cursor_lt
        · exact h.ok.used_lt p ((h.used p).2 hp)
    have hnodup : (m.nextFreeIndex :: s.pool.nextFreeIndex :: s.held).Nodup := by
      refine List.nodup_cons.2 ⟨fun hin => ?_,
        List.nodup_cons.2 ⟨h.cursor_not_held, h.nodup⟩⟩
      rcases List.mem_cons.1 hin with heq | hin
      · exact hfree.1 heq
      · exact hfree.2 hin
    have hle := (List.subperm_of_subset hnodup hsub).length_le
    rw [List.length_cons, List.length_cons, List.length_range] at hle
    refine iff_of_false ?_ (by omega)
    intro h
    obtain ⟨e, m', herr⟩ := h
    rw [hm] at herr
    cases herr
  · refine iff_of_true ⟨_, _, hm⟩ ?_
    have hsub : (List.range n).erase s.pool.nextFreeIndex ⊆ s.held := by
      intro p hp
      obtain ⟨hne, hlt⟩ := List.nodup_range.mem_erase_iff.1 hp
      rw [List.mem_range, ← h.size] at hlt
      exact (h.used p).1 (hall p hlt hne)
    have hcursor : s.pool.nextFreeIndex ∈ List.range n := by
      rw [List.mem_range, ← h.size]
      exact h.ok.cursor_lt
    have hge := (List.subperm_of_subset (List.nodup_range.erase _)
      hsub).length_le
    rw [List.length_erase_of_mem hcursor, List.length_range] at hge
    have hle := h.held_length
    omega

/-- No call hands out what is held, and none finds the pool in disorder:
the blocks in use are the elements held, the cursor is on a free block,
and all that can go wrong is that the pool is out of space. -/
theorem held_of_run (hn : 0 < n) {cs : List (PoolCall α)}
    (h : Run Called (new n object) cs s) :
    (∀ p, s.pool.used p = true ↔ p ∈ s.held) ∧ s.held.Nodup
      ∧ s.pool.nextFreeIndex < n
      ∧ s.pool.used s.pool.nextFreeIndex = false
      ∧ (∀ object : α,
        (∃ p m, (MemPool.allocate object).run s.pool = .ok p m
          ∧ p < n ∧ p ∉ s.held ∧ m.deref p = object
          ∧ ∀ q ∈ s.held, m.deref q = s.pool.deref q)
        ∨ ∃ m, (MemPool.allocate object).run s.pool
          = .error .poolOutOfSpace m)
      ∧ ∀ elem ∈ s.held, ∃ m,
        (MemPool.deallocate elem).run s.pool = .ok () m := by
  have hmatches := matches_of_run hn h
  have hlt : s.pool.nextFreeIndex < n := by
    rw [← hmatches.size]
    exact hmatches.ok.cursor_lt
  refine ⟨hmatches.used, hmatches.nodup, hlt, hmatches.ok.cursor_free,
    fun object => ?_, fun elem hin => ⟨_, (MemPool.deallocate_ok hmatches.ok
      ((hmatches.used elem).2 hin)).1⟩⟩
  rcases MemPool.allocate_cases hmatches.ok object with
    ⟨m, hm, -, -, hstore⟩ | ⟨⟨m, hm⟩, -⟩
  · have hderef := MemPool.deref_of_store hstore
    refine Or.inl ⟨_, m, hm, hlt, hmatches.cursor_not_held, ?_, fun q hq => ?_⟩
    · rw [hderef, if_pos rfl]
    · rw [hderef, if_neg]
      intro heq
      rw [heq] at hq
      exact hmatches.cursor_not_held hq
  · exact Or.inr ⟨m, hm⟩

/-- A pool of `n` blocks ends the process when `n - 1` elements are
allocated: the error comes with `n` allocated only where it does not come
at all. -/
theorem runsOut_of_run (hn : 0 < n) {cs : List (PoolCall α)}
    (h : Run Called (new n object) cs s) (arg : α) :
    ((∃ e m, (MemPool.allocate arg).run s.pool = .error e m)
        ↔ s.held.length + 1 = n)
      ∧ (((∃ e m, (MemPool.allocate arg).run s.pool = .error e m)
          → s.held.length = n)
        ↔ s.held.length + 1 < n) := by
  have hmatches := matches_of_run hn h
  have hiff := hmatches.runsOut_iff arg
  have hroom := hmatches.held_length
  refine ⟨hiff, fun hclaim => ?_, fun hlt herr => ?_⟩
  · by_contra hlast
    have hheld := hclaim (hiff.2 (by omega))
    omega
  · have hlast := hiff.1 herr
    omega

-- ------------------------------------------------------- around the pool once

/-- `Called`, computed. -/
def call (s : Loans α) : PoolCall α → Option (Loans α)
  | .allocate object =>
      match (MemPool.allocate object).run s.pool with
      | .ok p pool => some ⟨pool, p :: s.held⟩
      | .error .. => none
  | .deallocate elem =>
      if elem ∈ s.held then
        (returned ((MemPool.deallocate elem).run s.pool)).map fun pool =>
          ⟨pool, s.held.erase elem⟩
      else none

theorem called_of_call {c : PoolCall α} (h : s.call c = some s') :
    Called s c s' := by
  cases c with
  | allocate object =>
      unfold call at h
      dsimp only at h
      split at h
      · next p pool hrun =>
          cases h
          exact ⟨p, hrun, rfl⟩
      · cases h
  | deallocate elem =>
      obtain ⟨hheld, hsome⟩ := Option.ite_none_right_eq_some.1 h
      obtain ⟨pool, hpool, rfl⟩ := Option.map_eq_some_iff.1 hsome
      exact ⟨hheld, returned_eq_some hpool, rfl⟩

/-- Three elements, one given back, and a fourth, after which the cursor has
come round to the block that was given back. -/
def around : List (PoolCall Nat) :=
  [.allocate 5, .allocate 6, .allocate 7, .deallocate 1, .allocate 8]

theorem run_around : ∃ s : Loans Nat, Run Called (new 4 0) around s
    ∧ s.held = [3, 2, 0] ∧ s.pool.nextFreeIndex = 1 := by
  obtain ⟨s, hrun, hend⟩ := Run.exists_of_any call (new 4 0) around
    (fun s => s.held = [3, 2, 0] ∧ s.pool.nextFreeIndex = 1)
    (by decide +kernel)
  exact ⟨s, hrun.mono (I := fun _ => True)
    (fun _ _ _ _ hcall => called_of_call hcall) fun _ _ _ => trivial, hend⟩

theorem held_of_run_around : ∃ s : Loans Nat, Run Called (new 4 0) around s
    ∧ s.held = [3, 2, 0] ∧ s.held.Nodup
    ∧ s.pool.nextFreeIndex = 1 ∧ s.pool.used 1 = false
    ∧ ∀ elem ∈ s.held, ∃ m,
      (MemPool.deallocate elem).run s.pool = .ok () m := by
  obtain ⟨s, hrun, hheld, hcursor⟩ := run_around
  obtain ⟨-, hnodup, -, hfree, -, hdeallocate⟩ :=
    held_of_run (by decide) hrun
  rw [hcursor] at hfree
  exact ⟨s, hrun, hheld, hnodup, hcursor, hfree, hdeallocate⟩

end Loans

end ElectronicTrading
