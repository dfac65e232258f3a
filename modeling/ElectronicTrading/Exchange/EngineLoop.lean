/-
The loop of MatchingEngine::run on its request queue, against the thread
that fills the queue.

The loop takes an element as soon as the two indices differ. It does not
ask `size()` first, and the producer counts an element only after it has
moved the write index. So the loop can process an element and release it
before the producer has counted it: the counter is then behind by one
(`Counted.count`), and the ASSERT of `updateReadIndex` meets a zero if
that element was the only one (`Torn`).
-/
import ElectronicTrading.Common.LockFreeQueue
import ElectronicTrading.Exchange.Messages
import ElectronicTrading.Lib.Runs

namespace ElectronicTrading

open Runs

def matchingEngineMaxClientUpdates : Nat := 256 * 1024

/-- Where the loop is: before `getNextToRead`, with an element in hand,
after `processClientRequest`, and in `updateReadIndex` after the store to
the index and after the ASSERT. `stopped` is after an ASSERT that
failed. -/
inductive EngineThread where
  | idle
  | holding (slot : Nat)
  | processed
  | advanced
  | checked
  | stopped
deriving DecidableEq, Repr

/-- The request queue between its two threads. `published` and `released`
count the moves of the two indices. -/
structure EngineLoop (α : Type) where
  queue : LockFreeQueue α
  producer : Producer
  engine : EngineThread
  processed : List α
  published : Nat
  released : Nat

/-- One access to the queue; `assert` is the read of `num_elements` in
the ASSERT. -/
inductive EngineAct (α : Type) where
  | write (element : α)
  | advanceWrite
  | countUp
  | getNextToRead
  | process
  | advanceRead
  | assert
  | countDown
deriving DecidableEq, Repr

namespace EngineLoop

variable {α : Type}

def new (capacity : Nat) (element : α) : EngineLoop α where
  queue := .new capacity element
  producer := .idle
  engine := .idle
  processed := []
  published := 0
  released := 0

/-- What an access does; none when its thread is elsewhere. -/
def act (s : EngineLoop α) : EngineAct α → Option (EngineLoop α)
  | .write element =>
      if s.producer = .idle then
        some { s with queue := s.queue.write element, producer := .wrote }
      else none
  | .advanceWrite =>
      if s.producer = .wrote then
        some { s with
          queue := s.queue.advanceWrite
          producer := .advanced
          published := s.published + 1 }
      else none
  | .countUp =>
      if s.producer = .advanced then
        some { s with queue := s.queue.countUp, producer := .idle }
      else none
  | .getNextToRead =>
      if s.engine = .idle then
        match s.queue.getNextToRead with
        | none => some s
        | some slot => some { s with engine := .holding slot }
      else none
  | .process =>
      match s.engine with
      | .holding slot => some { s with
          engine := .processed
          processed := s.processed ++ [s.queue.store slot] }
      | _ => none
  | .advanceRead =>
      if s.engine = .processed then
        some { s with
          queue := s.queue.advanceRead
          engine := .advanced
          released := s.released + 1 }
      else none
  | .assert =>
      if s.engine = .advanced then
        if s.queue.numElements ≠ 0 then some { s with engine := .checked }
        else some { s with engine := .stopped }
      else none
  | .countDown =>
      if s.engine = .checked then
        some { s with queue := s.queue.countDown, engine := .idle }
      else none

/-- One access, after which the queue is not full. -/
def Acted (s : EngineLoop α) (a : EngineAct α) (s' : EngineLoop α) : Prop :=
  s.act a = some s' ∧ s'.published - s'.released < s'.queue.size

/-- The producer has moved the index past an element and not counted it,
and that element is gone. -/
def Torn (s : EngineLoop α) : Prop :=
  s.producer = .advanced ∧ s.queue.nextReadIndex = s.queue.nextWriteIndex

/-- One access, and not the ASSERT on a torn queue. -/
def ActedWhole (s : EngineLoop α) (a : EngineAct α) (s' : EngineLoop α) :
    Prop :=
  Acted s a s' ∧ ¬ (a = .assert ∧ s.Torn)

/-- One access that does not stop the process. -/
def ActedAlive (s : EngineLoop α) (a : EngineAct α) (s' : EngineLoop α) :
    Prop :=
  Acted s a s' ∧ s'.engine ≠ .stopped

-- ============================================================== invariant

/-- Between the store to the read index and the decrement an element is
released and still counted. -/
def owed : EngineThread → Nat
  | .advanced | .checked | .stopped => 1
  | _ => 0

/-- The indices are the counts, and `num_elements` is their difference but
for what the two threads are about to count. -/
structure Counted (s : EngineLoop α) : Prop where
  writeIndex : s.queue.nextWriteIndex = s.published % s.queue.size
  readIndex : s.queue.nextReadIndex = s.released % s.queue.size
  count : s.queue.numElements + (if s.producer = .advanced then 1 else 0)
    + s.released = s.published + owed s.engine
  le : s.released ≤ s.published
  room : s.published - s.released < s.queue.size
  ahead : (∃ slot, s.engine = .holding slot) ∨ s.engine = .processed →
    s.released < s.published
  positive : s.engine = .checked → s.queue.numElements ≠ 0

theorem counted_new {capacity : Nat} (h : 0 < capacity) (element : α) :
    Counted (new capacity element) where
  writeIndex := (Nat.zero_mod _).symm
  readIndex := (Nat.zero_mod _).symm
  count := rfl
  le := Nat.le_refl _
  room := h
  ahead := by
    intro h
    rcases h with ⟨slot, h⟩ | h <;> cases h
  positive := nofun

/-- The indices are equal when nothing is unread. -/
theorem Counted.index_eq_iff {s : EngineLoop α} (h : Counted s) :
    s.queue.nextReadIndex = s.queue.nextWriteIndex
      ↔ s.released = s.published := by
  rw [h.writeIndex, h.readIndex]
  constructor
  · intro heq
    by_contra hne
    have hlt : s.released < s.published := by
      have hle := h.le
      omega
    exact Threads.mod_ne hlt h.room heq
  · intro heq
    rw [heq]

theorem Counted.acted {s s' : EngineLoop α} {a : EngineAct α}
    (h : Counted s) (ha : Acted s a s') : Counted s' := by
  obtain ⟨hstep, hroom⟩ := ha
  have hindex := h.index_eq_iff
  obtain ⟨hw, hr, hcount, hle, -, hahead, hpos⟩ := h
  cases a with
  | write element =>
    simp only [act] at hstep
    split at hstep
    · next hp =>
      cases hstep
      simp only [hp] at hcount
      exact ⟨hw, hr, hcount, hle, hroom, hahead, hpos⟩
    · cases hstep
  | advanceWrite =>
    simp only [act] at hstep
    split at hstep
    · next hp =>
      cases hstep
      simp only [hp] at hcount
      refine ⟨?_, hr, ?_, Nat.le_succ_of_le hle, hroom, ?_, hpos⟩
      · show (s.queue.nextWriteIndex + 1) % s.queue.size = _
        rw [hw, Nat.mod_add_mod]
        rfl
      · show s.queue.numElements + 1 + s.released
          = s.published + 1 + owed s.engine
        simp only [reduceCtorEq, if_false] at hcount
        omega
      · intro hin
        exact Nat.lt_succ_of_lt (hahead hin)
    · cases hstep
  | countUp =>
    simp only [act] at hstep
    split at hstep
    · next hp =>
      cases hstep
      simp only [hp, if_true] at hcount
      refine ⟨hw, hr, ?_, hle, hroom, hahead, fun _ => Nat.succ_ne_zero _⟩
      show s.queue.numElements + 1 + 0 + s.released
        = s.published + owed s.engine
      omega
    · cases hstep
  | getNextToRead =>
    simp only [act] at hstep
    split at hstep
    · next hidle =>
      cases hget : s.queue.getNextToRead with
      | none =>
        rw [hget] at hstep
        cases hstep
        exact ⟨hw, hr, hcount, hle, hroom, hahead, hpos⟩
      | some slot =>
        rw [hget] at hstep
        cases hstep
        unfold LockFreeQueue.getNextToRead at hget
        split at hget
        · cases hget
        · next hne =>
          simp only [hidle, owed] at hcount
          refine ⟨hw, hr, hcount, hle, hroom, fun _ => ?_, nofun⟩
          -- the indices differ only when something is published
          have hneq := mt hindex.2 hne
          show s.released < s.published
          omega
    · cases hstep
  | process =>
    simp only [act] at hstep
    split at hstep
    · next slot hheld =>
      cases hstep
      simp only [hheld, owed] at hcount
      exact ⟨hw, hr, hcount, hle, hroom,
        fun _ => hahead (.inl ⟨slot, hheld⟩), nofun⟩
    · cases hstep
  | advanceRead =>
    simp only [act] at hstep
    split at hstep
    · next hdone =>
      cases hstep
      have hlt := hahead (.inr hdone)
      simp only [hdone, owed] at hcount
      refine ⟨hw, ?_, ?_, hlt, hroom, ?_, nofun⟩
      · show (s.queue.nextReadIndex + 1) % s.queue.size = _
        rw [hr, Nat.mod_add_mod]
        rfl
      · show s.queue.numElements + (if s.producer = .advanced then 1 else 0)
          + (s.released + 1) = s.published + 1
        omega
      · intro hin
        rcases hin with ⟨slot, hin⟩ | hin <;> cases hin
    · cases hstep
  | assert =>
    simp only [act] at hstep
    split at hstep
    · next hadv =>
      simp only [hadv, owed] at hcount
      split at hstep
      · next hne =>
        cases hstep
        refine ⟨hw, hr, hcount, hle, hroom, ?_, fun _ => hne⟩
        intro hin
        rcases hin with ⟨slot, hin⟩ | hin <;> cases hin
      · cases hstep
        refine ⟨hw, hr, hcount, hle, hroom, ?_, nofun⟩
        intro hin
        rcases hin with ⟨slot, hin⟩ | hin <;> cases hin
    · cases hstep
  | countDown =>
    simp only [act] at hstep
    split at hstep
    · next hchecked =>
      cases hstep
      have hne := hpos hchecked
      simp only [hchecked, owed] at hcount
      refine ⟨hw, hr, ?_, hle, hroom, ?_, nofun⟩
      · show s.queue.numElements - 1
          + (if s.producer = .advanced then 1 else 0) + s.released
          = s.published + 0
        omega
      · intro hin
        rcases hin with ⟨slot, hin⟩ | hin <;> cases hin
    · cases hstep

theorem counted_of_run {capacity : Nat} (hcap : 0 < capacity) {element : α}
    {as : List (EngineAct α)} {s : EngineLoop α}
    (h : Run Acted (new capacity element) as s) : Counted s :=
  h.induct (I := fun _ s => Counted s) (counted_new hcap element)
    fun _ _ _ _ _ hs ha => hs.acted ha

-- ============================================================= the ASSERT

/-- The ASSERT meets a zero exactly on a torn queue. -/
theorem Counted.numElements_eq_zero_iff {s : EngineLoop α} (h : Counted s)
    (hadvanced : s.engine = .advanced) :
    s.queue.numElements = 0 ↔ s.Torn := by
  have hcount := h.count
  have hle := h.le
  unfold Torn
  rw [h.index_eq_iff]
  rw [hadvanced] at hcount
  simp only [owed] at hcount
  constructor
  · intro hzero
    by_cases hp : s.producer = .advanced
    · rw [if_pos hp] at hcount
      exact ⟨hp, by omega⟩
    · rw [if_neg hp] at hcount
      omega
  · intro h
    obtain ⟨hp, heq⟩ := h
    rw [if_pos hp] at hcount
    omega

/-- A step stops the process exactly if it is the ASSERT on a torn
queue. -/
theorem Counted.stopped_iff {s s' : EngineLoop α} {a : EngineAct α}
    (h : Counted s) (halive : s.engine ≠ .stopped) (ha : Acted s a s') :
    s'.engine = .stopped ↔ a = .assert ∧ s.Torn := by
  have hstep := ha.1
  constructor
  · intro hstopped
    cases a with
    | assert =>
      simp only [act] at hstep
      split at hstep
      · next hadv =>
        split at hstep
        · cases hstep
          cases hstopped
        · next hzero =>
          exact ⟨rfl, (h.numElements_eq_zero_iff hadv).1 (not_not.1 hzero)⟩
      · cases hstep
    | getNextToRead =>
      simp only [act] at hstep
      split at hstep
      · split at hstep
        · cases hstep
          exact absurd hstopped halive
        · cases hstep
          cases hstopped
      · cases hstep
    | process =>
      simp only [act] at hstep
      split at hstep
      · cases hstep
        cases hstopped
      · cases hstep
    | write _ | advanceWrite | countUp =>
      simp only [act] at hstep
      split at hstep
      · cases hstep
        exact absurd hstopped halive
      · cases hstep
    | advanceRead | countDown =>
      simp only [act] at hstep
      split at hstep
      · cases hstep
        cases hstopped
      · cases hstep
  · intro h
    obtain ⟨rfl, htorn⟩ := h
    simp only [act] at hstep
    split at hstep
    · next hadv =>
      have hzero := (h.numElements_eq_zero_iff hadv).2 htorn
      rw [if_neg (not_not.2 hzero)] at hstep
      cases hstep
      rfl
    · cases hstep

/-- A run whose queue is never full never stops the process if and only
if it never reads the counter of a torn queue. -/
theorem alive_iff_whole {capacity : Nat} (hcap : 0 < capacity) (element : α)
    (as : List (EngineAct α)) (s : EngineLoop α) :
    Run ActedAlive (new capacity element) as s
      ↔ Run ActedWhole (new capacity element) as s := by
  have hacted : ∀ {as : List (EngineAct α)} {s : EngineLoop α},
      Run ActedWhole (new capacity element) as s →
      Run Acted (new capacity element) as s ∧ s.engine ≠ .stopped := by
    intro as s hrun
    induction hrun with
    | nil => exact ⟨.nil, nofun⟩
    | snoc hrun hs ih =>
      refine ⟨ih.1.snoc hs.1, fun hstopped => hs.2 ?_⟩
      exact ((counted_of_run hcap ih.1).stopped_iff ih.2 hs.1).1 hstopped
  constructor
  · intro h
    induction h with
    | nil => exact .nil
    | snoc hrun hs ih =>
      obtain ⟨hbefore, halive⟩ := hacted ih
      refine ih.snoc ⟨hs.1, fun hbad => hs.2 ?_⟩
      exact ((counted_of_run hcap hbefore).stopped_iff halive hs.1).2 hbad
  · intro h
    induction h with
    | nil => exact .nil
    | snoc hrun hs ih =>
      exact ih.snoc ⟨hs.1, (hacted (hrun.snoc hs)).2⟩

-- ========================================================== a quick reader

/-- The engine takes the one request between the producer's two steps. -/
def quickRead (element : α) : List (EngineAct α) :=
  [.write element, .advanceWrite, .getNextToRead, .process, .advanceRead,
    .assert]

theorem run_quickRead : ∃ s : EngineLoop MatchingEngineClientRequest,
    Run Acted (new matchingEngineMaxClientUpdates {}) (quickRead {}) s
      ∧ s.engine = .stopped :=
  ⟨_, .snoc (.snoc (.snoc (.snoc (.snoc (.snoc .nil
    ⟨rfl, by decide⟩) ⟨rfl, by decide⟩) ⟨rfl, by decide⟩) ⟨rfl, by decide⟩)
    ⟨rfl, by decide⟩) ⟨rfl, by decide⟩, rfl⟩

theorem alive_iff_whole_quickRead :
    ∃ s : EngineLoop MatchingEngineClientRequest,
      Run Acted (new matchingEngineMaxClientUpdates {}) (quickRead {}) s
        ∧ s.engine = .stopped
        ∧ (Run ActedAlive (new matchingEngineMaxClientUpdates {})
            (quickRead {}) s
          ↔ Run ActedWhole (new matchingEngineMaxClientUpdates {})
            (quickRead {}) s) := by
  obtain ⟨s, hrun, hstopped⟩ := run_quickRead
  exact ⟨s, hrun, hstopped, alive_iff_whole (by decide) _ _ s⟩

/-- A queue that is never full does not keep the ASSERT from failing. -/
theorem stopped_quickRead :
    ¬ ∀ (capacity : Nat) (as : List (EngineAct MatchingEngineClientRequest))
        (s : EngineLoop MatchingEngineClientRequest), 0 < capacity →
        Run Acted (new capacity {}) as s → s.engine ≠ .stopped := by
  intro hall
  obtain ⟨s, hrun, hstopped⟩ := run_quickRead
  exact hall _ _ s (by decide) hrun hstopped

end EngineLoop

end ElectronicTrading
