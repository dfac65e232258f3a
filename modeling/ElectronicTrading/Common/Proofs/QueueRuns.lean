/-
The queue at its two ends: a producer and a consumer that interleave
call by call.

`QueueEnds` keeps the two histories beside the queue: what was written (up to
the last `updateWriteIndex`) and what was read (up to the last
`updateReadIndex`). `Window` ties the queue to them: each index is the
length of its history modulo the size, the counter is their difference,
and the slots from the read index to the write index hold, in order,
what is still unread. That a slot holds one element only comes from the
room: with at most `N - 1` unread, no two counts of the window agree
modulo `N` (`mod_ne`), and so the indices are equal only when there is
nothing to read.
-/
import ElectronicTrading.Common.LockFreeQueue
import ElectronicTrading.Lib.Runs

namespace ElectronicTrading

open Runs

-- ============================================================== the calls

namespace LockFreeQueue

variable {α : Type}

/-- `getNextToWrite`: the slot. -/
def getNextToWrite (q : LockFreeQueue α) : Nat := q.nextWriteIndex

/-- `*slot = element`. -/
def assign (q : LockFreeQueue α) (slot : Nat) (element : α) :
    LockFreeQueue α :=
  { q with store := fun i => if i = slot then element else q.store i }

/-- `updateWriteIndex`. -/
def updateWriteIndex (q : LockFreeQueue α) : LockFreeQueue α :=
  q.advanceWrite.countUp

/-- `updateReadIndex`; none when its ASSERT fails. -/
def updateReadIndex (q : LockFreeQueue α) : Option (LockFreeQueue α) :=
  if q.advanceRead.numElements ≠ 0 then some q.advanceRead.countDown
  else none

end LockFreeQueue

/-- Where the producer is: between two elements, with a slot in hand,
with the element in the slot. -/
inductive Writing (α : Type) where
  | idle
  | slot (slot : Nat)
  | assigned (element : α)

/-- A queue with its two users. `pointer` is the last result of
`getNextToRead`, until it is used. -/
structure QueueEnds (α : Type) where
  queue : LockFreeQueue α
  writing : Writing α
  pointer : Option Nat
  written : List α
  read : List α

inductive QueueCall (α : Type) where
  | getNextToWrite
  | assign (element : α)
  | updateWriteIndex
  | getNextToRead
  | updateReadIndex
deriving DecidableEq

namespace QueueEnds

variable {α : Type}

def new (numElements : Nat) (element : α) : QueueEnds α where
  queue := .new numElements element
  writing := .idle
  pointer := none
  written := []
  read := []

/-- What a call does; none when its user is elsewhere, or when the ASSERT
of `updateReadIndex` fails. -/
def call (s : QueueEnds α) : QueueCall α → Option (QueueEnds α)
  | .getNextToWrite =>
      match s.writing with
      | .idle => some { s with writing := .slot s.queue.getNextToWrite }
      | _ => none
  | .assign element =>
      match s.writing with
      | .slot slot => some { s with
          queue := s.queue.assign slot element
          writing := .assigned element }
      | _ => none
  | .updateWriteIndex =>
      match s.writing with
      | .assigned element => some { s with
          queue := s.queue.updateWriteIndex
          writing := .idle
          written := s.written ++ [element] }
      | _ => none
  | .getNextToRead => some { s with pointer := s.queue.getNextToRead }
  | .updateReadIndex =>
      match s.pointer, s.queue.updateReadIndex with
      | some slot, some queue => some { s with
          queue := queue
          pointer := none
          read := s.read ++ [s.queue.store slot] }
      | _, _ => none

/-- How many elements are written and not read. -/
def unread (s : QueueEnds α) : Nat := s.written.length - s.read.length

/-- A call; a write is started with at most `N - 2` elements unread. -/
structure Called (s : QueueEnds α) (c : QueueCall α) (s' : QueueEnds α) : Prop where
  called : s.call c = some s'
  room : c = .getNextToWrite → s.unread + 2 ≤ s.queue.size

-- ========================================================= the invariant

/-- The queue of `n` slots against the two histories. -/
structure Window (n : Nat) (s : QueueEnds α) : Prop where
  size : s.queue.size = n
  writeIndex : s.queue.nextWriteIndex = s.written.length % n
  readIndex : s.queue.nextReadIndex = s.read.length % n
  count : s.queue.numElements + s.read.length = s.written.length
  room : s.unread + 1 ≤ n
  order : s.read = s.written.take s.read.length
  kept : ∀ j, s.read.length ≤ j → ∀ h : j < s.written.length,
    s.queue.store (j % n) = s.written[j]
  slot : ∀ slot, s.writing = .slot slot →
    slot = s.written.length % n ∧ s.unread + 2 ≤ n
  assigned : ∀ element, s.writing = .assigned element →
    s.queue.store (s.written.length % n) = element ∧ s.unread + 2 ≤ n
  pointer : ∀ slot, s.pointer = some slot →
    slot = s.read.length % n ∧ s.read.length < s.written.length

variable {n : Nat} {s s' : QueueEnds α}

theorem window_new (hn : 0 < n) (element : α) :
    Window n (new n element) where
  size := rfl
  writeIndex := (Nat.zero_mod n).symm
  readIndex := (Nat.zero_mod n).symm
  count := rfl
  room := hn
  order := rfl
  kept := fun _ _ h => absurd h (Nat.not_lt_zero _)
  slot := nofun
  assigned := nofun
  pointer := nofun

/-- The indices agree when everything is read, and only then. -/
theorem Window.getNextToRead_eq (h : Window n s) :
    s.queue.getNextToRead
      = if s.read.length < s.written.length then some (s.read.length % n)
        else none := by
  have hcount := h.count
  have hroom := h.room
  unfold unread at hroom
  unfold LockFreeQueue.getNextToRead
  rw [h.readIndex, h.writeIndex]
  by_cases hlt : s.read.length < s.written.length
  · rw [if_pos hlt, if_neg (Threads.mod_ne hlt (by omega))]
  · have heq : s.read.length = s.written.length := by omega
    rw [if_neg hlt, if_pos (by rw [heq])]

-- ============================================================== the steps

theorem Window.call_getNextToWrite (h : Window n s)
    (hroom : s.unread + 2 ≤ n) (hc : s.call .getNextToWrite = some s') :
    Window n s' := by
  simp only [call] at hc
  split at hc
  · cases hc
    have hslot : ∀ slot, Writing.slot (α := α) s.queue.getNextToWrite
        = .slot slot → slot = s.written.length % n ∧ s.unread + 2 ≤ n := by
      intro slot heq
      cases heq
      exact ⟨h.writeIndex, hroom⟩
    exact { h with slot := hslot, assigned := nofun }
  · cases hc

/-- The slot that is assigned to holds nothing unread. -/
theorem Window.call_assign (h : Window n s) {element : α}
    (hc : s.call (.assign element) = some s') : Window n s' := by
  simp only [call] at hc
  split at hc
  · next slot hwriting =>
    cases hc
    obtain ⟨hslot, hroom⟩ := h.slot slot hwriting
    have hkept : ∀ j, s.read.length ≤ j → ∀ hj : j < s.written.length,
        (s.queue.assign slot element).store (j % n) = s.written[j] := by
      intro j hle hj
      have hne : j % n ≠ slot := by
        rw [hslot]
        apply Threads.mod_ne hj
        unfold unread at hroom
        omega
      show (if j % n = slot then element else s.queue.store (j % n)) = _
      rw [if_neg hne]
      exact h.kept j hle hj
    have hassigned : ∀ e, Writing.assigned element = .assigned e →
        (s.queue.assign slot element).store (s.written.length % n) = e
          ∧ s.unread + 2 ≤ n := by
      intro e heq
      cases heq
      refine ⟨?_, hroom⟩
      show (if s.written.length % n = slot then element else _) = element
      rw [if_pos hslot.symm]
    exact
      { h with
        kept := hkept
        slot := nofun
        assigned := hassigned }
  · cases hc

/-- The element in the slot becomes the last of the window. -/
theorem Window.call_updateWriteIndex (h : Window n s)
    (hc : s.call .updateWriteIndex = some s') : Window n s' := by
  simp only [call] at hc
  split at hc
  · next element hwriting =>
    cases hc
    obtain ⟨hslot, hroom⟩ := h.assigned element hwriting
    have hlen : (s.written ++ [element]).length = s.written.length + 1 := by
      rw [List.length_append, List.length_singleton]
    have hcount := h.count
    exact
      { size := h.size
        writeIndex := by
          show (s.queue.nextWriteIndex + 1) % s.queue.size
            = (s.written ++ [element]).length % n
          rw [h.size, h.writeIndex, hlen, Nat.mod_add_mod]
        readIndex := h.readIndex
        count := by
          show s.queue.numElements + 1 + s.read.length
            = (s.written ++ [element]).length
          omega
        room := by
          show (s.written ++ [element]).length - s.read.length + 1 ≤ n
          unfold unread at hroom
          omega
        order := by
          show s.read = (s.written ++ [element]).take s.read.length
          rw [List.take_append_of_le_length (by omega)]
          exact h.order
        kept := by
          intro j hle hj
          show s.queue.store (j % n) = (s.written ++ [element])[j]
          rcases Nat.lt_or_ge j s.written.length with hlt | hge
          · rw [List.getElem_append_left hlt]
            exact h.kept j hle hlt
          · have heq : j = s.written.length := by
              have hj' : j < (s.written ++ [element]).length := hj
              omega
            subst heq
            rw [List.getElem_concat_length rfl]
            exact hslot
        slot := nofun
        assigned := nofun
        pointer := fun slot hpointer => by
          obtain ⟨hslot, hlt⟩ := h.pointer slot hpointer
          refine ⟨hslot, ?_⟩
          show s.read.length < (s.written ++ [element]).length
          omega }
  · cases hc

theorem Window.call_getNextToRead (h : Window n s)
    (hc : s.call .getNextToRead = some s') : Window n s' := by
  cases hc
  have hpointer : ∀ slot, s.queue.getNextToRead = some slot →
      slot = s.read.length % n ∧ s.read.length < s.written.length := by
    intro slot hget
    rw [h.getNextToRead_eq] at hget
    split at hget
    · next hlt =>
      cases hget
      exact ⟨rfl, hlt⟩
    · cases hget
  exact { h with pointer := hpointer }

/-- What the pointer shows is the first unread element. -/
theorem Window.pointed (h : Window n s) {slot : Nat}
    (hpointer : s.pointer = some slot) :
    s.written[s.read.length]? = some (s.queue.store slot) := by
  obtain ⟨hslot, hlt⟩ := h.pointer slot hpointer
  rw [hslot, h.kept _ (Nat.le_refl _) hlt, List.getElem?_eq_getElem hlt]

/-- The ASSERT of `updateReadIndex` holds behind a pointer. -/
theorem Window.run_updateReadIndex (h : Window n s) {slot : Nat}
    (hpointer : s.pointer = some slot) :
    s.queue.updateReadIndex = some s.queue.advanceRead.countDown := by
  have hcount := h.count
  have hlt := (h.pointer slot hpointer).2
  have hne : s.queue.advanceRead.numElements ≠ 0 := by
    show s.queue.numElements ≠ 0
    omega
  unfold LockFreeQueue.updateReadIndex
  rw [if_pos hne]

/-- The first element leaves the window. -/
theorem Window.call_updateReadIndex (h : Window n s)
    (hc : s.call .updateReadIndex = some s') : Window n s' := by
  cases hpointer : s.pointer with
  | none =>
      simp only [call, hpointer] at hc
      cases hc
  | some slot =>
      simp only [call, hpointer, h.run_updateReadIndex hpointer] at hc
      cases hc
      have hlt := (h.pointer slot hpointer).2
      have hlen : (s.read ++ [s.queue.store slot]).length
          = s.read.length + 1 := by
        rw [List.length_append, List.length_singleton]
      have hcount := h.count
      have hroom := h.room
      unfold unread at hroom
      have hless : ∀ m, s.unread + 2 ≤ m →
          s.written.length - (s.read ++ [s.queue.store slot]).length + 2
            ≤ m := by
        intro m hm
        unfold unread at hm
        omega
      exact
        { size := h.size
          writeIndex := h.writeIndex
          readIndex := by
            show (s.queue.nextReadIndex + 1) % s.queue.size
              = (s.read ++ [s.queue.store slot]).length % n
            rw [h.size, h.readIndex, hlen, Nat.mod_add_mod]
          count := by
            show s.queue.numElements - 1
              + (s.read ++ [s.queue.store slot]).length = s.written.length
            omega
          room := by
            show s.written.length - (s.read ++ [s.queue.store slot]).length
              + 1 ≤ n
            omega
          order := by
            show s.read ++ [s.queue.store slot]
              = s.written.take (s.read ++ [s.queue.store slot]).length
            rw [hlen, List.take_add_one, h.pointed hpointer, ← h.order]
            rfl
          kept := fun j hle hj => by
            have hle' : (s.read ++ [s.queue.store slot]).length ≤ j := hle
            exact h.kept j (by omega) hj
          slot := fun p hp => ⟨(h.slot p hp).1, hless n (h.slot p hp).2⟩
          assigned := fun e he =>
            ⟨(h.assigned e he).1, hless n (h.assigned e he).2⟩
          pointer := nofun }

theorem Window.called (h : Window n s) {c : QueueCall α}
    (hc : Called s c s') : Window n s' := by
  cases c with
  | getNextToWrite =>
      have hroom := hc.room rfl
      rw [h.size] at hroom
      exact h.call_getNextToWrite hroom hc.called
  | assign element => exact h.call_assign hc.called
  | updateWriteIndex => exact h.call_updateWriteIndex hc.called
  | getNextToRead => exact h.call_getNextToRead hc.called
  | updateReadIndex => exact h.call_updateReadIndex hc.called

theorem window_of_run (hn : 0 < n) {element : α} {cs : List (QueueCall α)}
    (h : Run Called (new n element) cs s) : Window n s :=
  h.induct (I := fun _ s => Window n s) (window_new hn element)
    fun _ _ _ _ _ hs hc => hs.called hc

-- =============================================================== the queue

/-- Below capacity the queue is a FIFO: it reads as empty exactly when
everything written is read, what is read is the beginning of what was
written, the counter is the number of elements in between, and a pointer
shows the next of them until it is used, with the ASSERT of
`updateReadIndex` satisfied. -/
theorem fifo_of_run (hn : 2 ≤ n) {element : α} {cs : List (QueueCall α)}
    (h : Run Called (new n element) cs s) :
    (s.queue.getNextToRead = none ↔ s.read = s.written)
      ∧ s.read <+: s.written
      ∧ s.queue.numElements = s.written.length - s.read.length
      ∧ s.unread ≤ n - 1
      ∧ (∀ slot, s.queue.getNextToRead = some slot →
        s.written[s.read.length]? = some (s.queue.store slot))
      ∧ ∀ slot, s.pointer = some slot →
        s.written[s.read.length]? = some (s.queue.store slot)
          ∧ ∃ s', Called s .updateReadIndex s' := by
  have hwindow := window_of_run (by omega) h
  have hcount := hwindow.count
  have hroom := hwindow.room
  have hpre : s.read <+: s.written := by
    rw [hwindow.order]
    exact List.take_prefix _ _
  refine ⟨?_, hpre, by omega, by omega, ?_, ?_⟩
  · rw [hwindow.getNextToRead_eq]
    split
    · next hlt =>
      refine iff_of_false nofun fun heq => ?_
      rw [heq] at hlt
      exact Nat.lt_irrefl _ hlt
    · next hge => exact iff_of_true rfl (hpre.eq_of_length (by omega))
  · intro slot hget
    have hcalled : Called s .getNextToRead
        { s with pointer := s.queue.getNextToRead } := ⟨rfl, nofun⟩
    exact (hwindow.called hcalled).pointed hget
  · intro slot hpointer
    have hcalled : Called s .updateReadIndex
        { s with
          queue := s.queue.advanceRead.countDown
          pointer := none
          read := s.read ++ [s.queue.store slot] } := by
      refine ⟨?_, nofun⟩
      simp only [call, hpointer, hwindow.run_updateReadIndex hpointer]
    exact ⟨hwindow.pointed hpointer, _, hcalled⟩

/-- Three slots: two elements, one of them read, then a third, which goes
into the last slot, the second read, and a pointer to the third taken. -/
def around : List (QueueCall Nat) :=
  [.getNextToWrite, .assign 7, .updateWriteIndex,
    .getNextToWrite, .assign 8, .updateWriteIndex,
    .getNextToRead, .updateReadIndex,
    .getNextToWrite, .assign 9, .updateWriteIndex,
    .getNextToRead, .updateReadIndex, .getNextToRead]

theorem run_around : ∃ s : QueueEnds Nat, Run Called (new 3 0) around s
    ∧ s.written = [7, 8, 9] ∧ s.read = [7, 8] ∧ s.queue.nextWriteIndex = 0
    ∧ s.pointer = some 2 := by
  obtain ⟨s, hrun, hend⟩ := Run.exists_of_guarded
    (P := fun s c _ => c = .getNextToWrite → s.unread + 2 ≤ s.queue.size)
    (fun s c s' hcall => (hcall : s.call c = some s')) (new 3 0) around
    (fun s => s.written = [7, 8, 9] ∧ s.read = [7, 8]
      ∧ s.queue.nextWriteIndex = 0 ∧ s.pointer = some 2)
    (by decide +kernel)
  exact ⟨s, hrun.mono (I := fun _ => True)
    (fun _ _ _ _ h => ⟨h.1, h.2⟩) fun _ _ _ => trivial, hend⟩

theorem fifo_of_run_around : ∃ s : QueueEnds Nat,
    Run Called (new 3 0) around s
      ∧ s.written = [7, 8, 9] ∧ s.read = [7, 8]
      ∧ s.read <+: s.written ∧ s.queue.numElements = 1
      ∧ s.queue.getNextToRead ≠ none
      ∧ s.queue.store 2 = 9 ∧ ∃ s', Called s .updateReadIndex s' := by
  obtain ⟨s, hrun, hwritten, hread, -, hpointer⟩ := run_around
  obtain ⟨hempty, hpre, hcount, -, -, hpointed⟩ :=
    fifo_of_run (by decide) hrun
  obtain ⟨hstore, hnext⟩ := hpointed 2 hpointer
  rw [hwritten, hread] at hempty hcount hstore
  refine ⟨s, hrun, hwritten, hread, hpre, hcount, ?_, ?_, hnext⟩
  · exact fun hnone => absurd (hempty.1 hnone) (by decide)
  · exact (Option.some.inj hstore).symm

end QueueEnds

end ElectronicTrading
