/-
LockFreeQueue.hpp: the single-producer, single-consumer queue between
two threads, and what passes through it under every interleaving of the
two.

The producer writes into the slot of the write index, moves the index
and counts the element up; the consumer asks for the slot of the read
index, takes the element there, moves the index and counts it down
(`Act`: one atomic access each). Neither looks at how full the queue is:
"empty" is read off the equality of the two indices, modulo the size.

So a queue of `N` slots can hold `N - 1` elements. The `N`-th unread
element makes the indices equal and the full queue read as an empty one;
writing on from there would overwrite what is unread. What is passed in
comes out, in order and once each (`Lossless`), as long as the write
index is not moved with `N - 1` elements unread (`Roomy.acted`), and no
longer (`Lossless.hasRoom`).
-/
import ElectronicTrading.Common.Types

namespace ElectronicTrading

-- ============================================================== the code

/-- `LockFreeQueue<T>`; `size` is `store.size()`. -/
structure LockFreeQueue (α : Type) where
  store : Nat → α
  size : Nat
  nextWriteIndex : Nat
  nextReadIndex : Nat
  numElements : Nat

namespace LockFreeQueue

variable {α : Type}

/-- `LockFreeQueue(num_elements)`. -/
def new (numElements : Nat) (element : α) : LockFreeQueue α where
  store := fun _ => element
  size := numElements
  nextWriteIndex := 0
  nextReadIndex := 0
  numElements := 0

/-- `*getNextToWrite() = element`. -/
def write (q : LockFreeQueue α) (element : α) : LockFreeQueue α :=
  { q with store := fun i =>
      if i = q.nextWriteIndex then element else q.store i }

/-- The first statement of `updateWriteIndex`. -/
def advanceWrite (q : LockFreeQueue α) : LockFreeQueue α :=
  { q with nextWriteIndex := (q.nextWriteIndex + 1) % q.size }

/-- The second statement of `updateWriteIndex`. -/
def countUp (q : LockFreeQueue α) : LockFreeQueue α :=
  { q with numElements := q.numElements + 1 }

/-- `getNextToRead`: the slot, or null. -/
def getNextToRead (q : LockFreeQueue α) : Option Nat :=
  if q.nextReadIndex = q.nextWriteIndex then none else some q.nextReadIndex

/-- The first statement of `updateReadIndex`. -/
def advanceRead (q : LockFreeQueue α) : LockFreeQueue α :=
  { q with nextReadIndex := (q.nextReadIndex + 1) % q.size }

/-- The last statement of `updateReadIndex`. -/
def countDown (q : LockFreeQueue α) : LockFreeQueue α :=
  { q with numElements := q.numElements - 1 }

end LockFreeQueue

-- ============================================================ two threads

/-- Where the producer is: between two elements, after the write, after
the write index moved. -/
inductive Producer where
  | idle
  | wrote
  | advanced
deriving DecidableEq, Repr

/-- Where the consumer is: between two elements, with a pointer in hand,
after it took the element, after the read index moved. -/
inductive Consumer where
  | idle
  | holding (slot : Nat)
  | took
  | released
deriving DecidableEq, Repr

/-- A queue between two threads. `passed` is what the producer has been
given to write, `returned` what the consumer has taken. -/
structure Threads (α : Type) where
  queue : LockFreeQueue α
  producer : Producer
  consumer : Consumer
  passed : List α
  returned : List α

/-- One access to the queue by one of the threads. -/
inductive Act (α : Type) where
  | write (element : α)
  | advanceWrite
  | countUp
  | getNextToRead
  | take
  | advanceRead
  | countDown
deriving DecidableEq, Repr

namespace Threads

variable {α : Type}

def new (capacity : Nat) (element : α) : Threads α where
  queue := .new capacity element
  producer := .idle
  consumer := .idle
  passed := []
  returned := []

/-- What an access does; none when its thread is elsewhere, or when the
ASSERT of `updateReadIndex` fails. The consumer's loop goes on from
`getNextToRead` only with `size()` not zero. -/
def act (s : Threads α) : Act α → Option (Threads α)
  | .write element =>
      if s.producer = .idle then
        some { s with
          queue := s.queue.write element
          producer := .wrote
          passed := s.passed ++ [element] }
      else none
  | .advanceWrite =>
      if s.producer = .wrote then
        some { s with queue := s.queue.advanceWrite, producer := .advanced }
      else none
  | .countUp =>
      if s.producer = .advanced then
        some { s with queue := s.queue.countUp, producer := .idle }
      else none
  | .getNextToRead =>
      if s.consumer = .idle then
        match s.queue.getNextToRead with
        | none => some s
        | some slot => some { s with consumer := .holding slot }
      else none
  | .take =>
      match s.consumer with
      | .holding slot =>
          if s.queue.numElements = 0 then some { s with consumer := .idle }
          else some { s with
            consumer := .took
            returned := s.returned ++ [s.queue.store slot] }
      | _ => none
  | .advanceRead =>
      if s.consumer = .took then
        some { s with queue := s.queue.advanceRead, consumer := .released }
      else none
  | .countDown =>
      if s.consumer = .released ∧ s.queue.numElements ≠ 0 then
        some { s with queue := s.queue.countDown, consumer := .idle }
      else none

/-- One access. -/
def Acted (s : Threads α) (a : Act α) (s' : Threads α) : Prop :=
  s.act a = some s'

/-- The elements behind the write index. -/
def published (s : Threads α) : Nat :=
  s.passed.length - if s.producer = .wrote then 1 else 0

/-- The elements behind the read index. -/
def consumed (s : Threads α) : Nat :=
  s.returned.length - if s.consumer = .took then 1 else 0

/-- What is passed in comes out: the elements taken are the first ones
passed, every unread element is still in its slot, and a queue with an
unread element does not read as empty. -/
structure Lossless (s : Threads α) : Prop where
  order : s.returned <+: s.passed
  kept : ∀ j, s.consumed ≤ j → ∀ h : j < s.passed.length,
    s.queue.store (j % s.queue.size) = s.passed[j]
  seen : s.consumed < s.published → s.queue.getNextToRead ≠ none

/-- There is room for one more element and an empty slot behind it. -/
def HasRoom (s : Threads α) : Act α → Prop
  | .advanceWrite => s.published - s.consumed + 1 < s.queue.size
  | _ => True

-- ========================================================= the invariant

/-- What every run keeps: the indices are the two counts modulo the size,
and the consumer is not ahead of the producer. -/
structure Counted (s : Threads α) : Prop where
  writeIndex : s.queue.nextWriteIndex = s.published % s.queue.size
  readIndex : s.queue.nextReadIndex = s.consumed % s.queue.size
  wrote : s.producer = .wrote → 0 < s.passed.length
  took : s.consumer = .took → 0 < s.returned.length
  le : s.consumed ≤ s.published
  ahead : s.consumer = .took → s.consumed < s.published
  pointer : ∀ slot, s.consumer = .holding slot →
    slot = s.queue.nextReadIndex ∧ s.consumed < s.published

/-- What it keeps as long as there is room. -/
structure Roomy (s : Threads α) : Prop where
  counted : Counted s
  room : s.published - s.consumed < s.queue.size
  order : s.returned = s.passed.take s.returned.length
  kept : ∀ j, s.consumed ≤ j → ∀ h : j < s.passed.length,
    s.queue.store (j % s.queue.size) = s.passed[j]

theorem roomy_new {capacity : Nat} (h : 0 < capacity) (element : α) :
    Roomy (new capacity element) where
  counted :=
    { writeIndex := (Nat.zero_mod _).symm
      readIndex := (Nat.zero_mod _).symm
      wrote := nofun
      took := nofun
      le := Nat.le_refl _
      ahead := nofun
      pointer := nofun }
  room := h
  order := rfl
  kept := fun _ _ h => absurd h (Nat.not_lt_zero _)

/-- Two counts less than a round apart have different slots. -/
theorem mod_ne {i j n : Nat} (hij : i < j) (hjn : j - i < n) :
    i % n ≠ j % n := by
  intro heq
  have hdvd : n ∣ j - i :=
    Nat.dvd_of_mod_eq_zero (Nat.sub_mod_eq_zero_of_mod_eq heq.symm)
  have hle := Nat.le_of_dvd (by omega) hdvd
  omega

theorem Roomy.lossless {s : Threads α} (h : Roomy s) : Lossless s where
  order := by
    rw [h.order]
    exact List.take_prefix _ _
  kept := h.kept
  seen := by
    intro hlt
    unfold LockFreeQueue.getNextToRead
    rw [h.counted.readIndex, h.counted.writeIndex,
      if_neg (mod_ne hlt h.room)]
    nofun

-- ============================================================== the steps

/-- A step with room keeps everything in place. -/
theorem Roomy.acted {s s' : Threads α} {a : Act α} (h : Roomy s)
    (hroom : s.HasRoom a) (ha : Acted s a s') : Roomy s' := by
  obtain ⟨hw, hr, hwrote, htook, hle, hahead, hpointer⟩ := h.counted
  have hlt := h.room
  unfold Acted at ha
  cases a with
  | write element =>
      simp only [act] at ha
      split at ha
      · next hidle =>
          cases ha
          have hpub : s.published = s.passed.length := by simp [published, hidle]
          refine ⟨⟨?_, hr, fun _ => by simp, htook, ?_, ?_, ?_⟩, ?_, ?_, ?_⟩
          · simpa [published, hidle, LockFreeQueue.write] using hw
          · simpa [published, consumed, hidle] using hle
          · simpa [published, consumed, hidle] using hahead
          · simpa [published, consumed, hidle, LockFreeQueue.write]
              using hpointer
          · simpa [published, consumed, hidle, LockFreeQueue.write] using hlt
          · have hlen : s.returned.length ≤ s.passed.length := by
              have := congrArg List.length h.order
              simp only [List.length_take] at this
              omega
            show s.returned = (s.passed ++ [element]).take s.returned.length
            rw [List.take_append_of_le_length hlen]
            exact h.order
          · intro j hj hjlt
            have hjlt' : j < s.passed.length + 1 := by simpa using hjlt
            have hj' : s.consumed ≤ j := hj
            show (if j % s.queue.size = s.queue.nextWriteIndex then element
              else s.queue.store (j % s.queue.size)) = (s.passed ++ [element])[j]
            rw [hw, hpub]
            -- the slot written holds nothing that is still to be read
            by_cases hnew : j = s.passed.length
            · subst hnew
              simp
            · have hold : j < s.passed.length := by omega
              rw [if_neg (mod_ne hold (by omega)), List.getElem_append_left hold]
              exact h.kept j hj' hold
      · cases ha
  | advanceWrite =>
      simp only [act] at ha
      split at ha
      · next hpc =>
          cases ha
          have hpos := hwrote hpc
          have hpub : s.published = s.passed.length - 1 := by
            simp [published, hpc]
          have hroom' : s.published - s.consumed + 1 < s.queue.size := hroom
          refine ⟨⟨?_, hr, nofun, htook, ?_, ?_, ?_⟩, ?_, h.order, h.kept⟩
          · show (s.queue.nextWriteIndex + 1) % s.queue.size
              = (s.passed.length - 0) % s.queue.size
            rw [hw, Nat.mod_add_mod, hpub]
            congr 1
            omega
          · show s.consumed ≤ s.passed.length - 0
            omega
          · intro hc
            show s.consumed < s.passed.length - 0
            have := hahead hc
            omega
          · intro slot hslot
            obtain ⟨hslot, hbehind⟩ := hpointer slot hslot
            refine ⟨hslot, ?_⟩
            show s.consumed < s.passed.length - 0
            omega
          · show s.passed.length - 0 - s.consumed < s.queue.size
            omega
      · cases ha
  | countUp =>
      simp only [act] at ha
      split at ha
      · next hpc =>
          cases ha
          have hpub : s.published = s.passed.length := by simp [published, hpc]
          rw [hpub] at hw hle hlt hahead hpointer
          exact ⟨⟨hw, hr, nofun, htook, hle, hahead, hpointer⟩, hlt, h.order,
            h.kept⟩
      · cases ha
  | getNextToRead =>
      simp only [act] at ha
      split at ha
      · next hpc =>
          cases hget : s.queue.getNextToRead with
          | none =>
              rw [hget] at ha
              cases ha
              exact h
          | some slot =>
              rw [hget] at ha
              cases ha
              have hcons : s.consumed = s.returned.length := by
                simp [consumed, hpc]
              unfold LockFreeQueue.getNextToRead at hget
              split at hget
              · cases hget
              · next hne =>
                  cases hget
                  -- the two indices differ: something is published and not
                  -- consumed
                  have hbehind : s.consumed < s.published := by
                    rcases Nat.lt_or_ge s.consumed s.published with hlt' | hge
                    · exact hlt'
                    · have heq : s.consumed = s.published := Nat.le_antisymm hle hge
                      exact absurd (by rw [hr, hw, heq]) hne
                  rw [hcons] at hr hle hlt hbehind
                  refine ⟨⟨hw, hr, hwrote, nofun, hle, nofun, ?_⟩, hlt, h.order, ?_⟩
                  · rintro slot ⟨⟩
                    exact ⟨rfl, hbehind⟩
                  · intro j hj
                    exact h.kept j (by rw [hcons]; exact hj)
      · cases ha
  | take =>
      simp only [act] at ha
      split at ha
      · next slot hpc =>
          have hcons : s.consumed = s.returned.length := by simp [consumed, hpc]
          obtain ⟨hslot, hbehind⟩ := hpointer slot hpc
          split at ha
          · cases ha
            rw [hcons] at hr hle hlt
            refine ⟨⟨hw, hr, hwrote, nofun, hle, nofun, nofun⟩, hlt, h.order, ?_⟩
            intro j hj
            exact h.kept j (by rw [hcons]; exact hj)
          · cases ha
            have hcons' : (s.returned ++ [s.queue.store slot]).length - 1
                = s.consumed := by
              simp [hcons]
            have hpassed : s.consumed < s.passed.length := by
              unfold published at hbehind
              omega
            -- nothing has been written over it
            have helement : s.queue.store slot = s.passed[s.consumed] := by
              rw [hslot, hr]
              exact h.kept s.consumed (Nat.le_refl _) hpassed
            refine ⟨⟨hw, ?_, hwrote, fun _ => by simp, ?_, ?_, nofun⟩, ?_, ?_, ?_⟩
            · show s.queue.nextReadIndex = _ % s.queue.size
              rw [hr]
              exact congrArg (· % s.queue.size) hcons'.symm
            · exact Nat.le_trans (Nat.le_of_eq hcons') hle
            · intro _
              exact Nat.lt_of_le_of_lt (Nat.le_of_eq hcons') hbehind
            · show s.published - ((s.returned ++ [s.queue.store slot]).length - 1)
                < s.queue.size
              rw [hcons']
              exact hlt
            · show s.returned ++ [s.queue.store slot] = s.passed.take
                (s.returned ++ [s.queue.store slot]).length
              rw [List.length_append, List.length_singleton, ← hcons,
                List.take_add_one, List.getElem?_eq_getElem hpassed, helement]
              have horder := h.order
              rw [← hcons] at horder
              rw [← horder]
              rfl
            · intro j hj
              exact h.kept j (Nat.le_trans (Nat.le_of_eq hcons'.symm) hj)
      · cases ha
  | advanceRead =>
      simp only [act] at ha
      split at ha
      · next hpc =>
          cases ha
          have hpos := htook hpc
          have hbehind := hahead hpc
          have hcons : s.consumed = s.returned.length - 1 := by
            simp [consumed, hpc]
          refine ⟨⟨hw, ?_, hwrote, nofun, ?_, nofun, nofun⟩, ?_, h.order, ?_⟩
          · show (s.queue.nextReadIndex + 1) % s.queue.size
              = (s.returned.length - 0) % s.queue.size
            rw [hr, Nat.mod_add_mod, hcons]
            congr 1
            omega
          · show s.returned.length - 0 ≤ s.published
            omega
          · show s.published - (s.returned.length - 0) < s.queue.size
            omega
          · intro j hj
            have hj' : s.returned.length - 0 ≤ j := hj
            exact h.kept j (by omega)
      · cases ha
  | countDown =>
      simp only [act] at ha
      split at ha
      · next hpc =>
          cases ha
          have hcons : s.consumed = s.returned.length := by
            simp [consumed, hpc.1]
          rw [hcons] at hr hle hlt
          refine ⟨⟨hw, hr, hwrote, nofun, hle, nofun, nofun⟩, hlt, h.order, ?_⟩
          intro j hj
          exact h.kept j (by rw [hcons]; exact hj)
      · cases ha

/-- Moving the write index without room makes a full queue read as an
empty one. -/
theorem Lossless.hasRoom {s s' : Threads α} {a : Act α} (hs : Roomy s)
    (ha : Acted s a s') (h : Lossless s') : s.HasRoom a := by
  cases a with
  | advanceWrite =>
      show s.published - s.consumed + 1 < s.queue.size
      by_contra hno
      have hlt := hs.room
      have hle := hs.counted.le
      unfold Acted at ha
      simp only [act] at ha
      split at ha
      · next hpc =>
          cases ha
          have hpos := hs.counted.wrote hpc
          have hpub : s.published = s.passed.length - 1 := by
            simp [published, hpc]
          refine h.seen ?_ ?_
          · show s.consumed < s.passed.length - 0
            omega
          · show (if s.queue.nextReadIndex
                = (s.queue.nextWriteIndex + 1) % s.queue.size
              then none else some s.queue.nextReadIndex) = none
            rw [if_pos]
            rw [hs.counted.readIndex, hs.counted.writeIndex, Nat.mod_add_mod]
            have hround : s.published + 1 = s.consumed + s.queue.size := by omega
            rw [hround, Nat.add_mod_right]
      · cases ha
  | _ => trivial

end Threads

end ElectronicTrading
