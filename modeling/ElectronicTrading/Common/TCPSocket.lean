/-
TCPSocket.{hpp,cc}: the sending half of a TCP socket.

`send` copies its data behind what the send buffer holds. `sendAndRecv`
hands the buffer to the kernel with one `::send` call, which may take
all of it, a part or nothing, and then empties the buffer whatever the
call returned.

# The stream

The bytes given to `send`, in order, are the stream the receiver should
see. `Stream` keeps it beside the socket, with the offset in it of every
byte the kernel has accepted (`acceptedAt`), so that a byte is told from
another of the same value. `InOrder` says that nothing was dropped,
repeated or reordered so far.

A byte left behind by a short or refused `::send` is gone for good
(`Lost`). The stream stays in order exactly as long as the kernel takes
nothing after that (`inOrder_iff`).

The receiving half of `sendAndRecv` calls `recv_callback`; what that
callback sends is a `send` before the flush.
-/
import ElectronicTrading.Common.Types
import ElectronicTrading.Lib.Runs

namespace ElectronicTrading

open Runs

-- ============================================================== the code

def tcpBufferSize : Nat := 64 * 1024 * 1024

/-- `send_buffer` and `next_send_valid_index`. -/
structure TCPSocket where
  sendBuffer : Nat → UInt8
  nextSendValidIndex : Nat

namespace TCPSocket

/-- A socket as constructed: the buffer resized to zeros. -/
def new : TCPSocket where
  sendBuffer := fun _ => 0
  nextSendValidIndex := 0

/-- `send(data, len)`: the `memcpy` and the new index. -/
def send (s : TCPSocket) (data : List UInt8) : TCPSocket where
  sendBuffer := fun i =>
    if s.nextSendValidIndex ≤ i then
      (data[i - s.nextSendValidIndex]?).getD (s.sendBuffer i)
    else s.sendBuffer i
  nextSendValidIndex := s.nextSendValidIndex + data.length

/-- What a flush hands to the kernel. -/
def pending (s : TCPSocket) : List UInt8 :=
  (List.range s.nextSendValidIndex).map s.sendBuffer

/-- The flush of `sendAndRecv`, where `::send` returns `n`: the bytes the
kernel takes and the socket after it. `n` is only logged. -/
def sendAndRecv (s : TCPSocket) (n : Int) : List UInt8 × TCPSocket :=
  (if s.nextSendValidIndex > 0 then s.pending.take n.toNat else [],
    { s with nextSendValidIndex := 0 })

@[simp] theorem pending_length (s : TCPSocket) :
    s.pending.length = s.nextSendValidIndex := by
  simp [pending]

/-- `send` appends to what is pending. -/
theorem pending_send (s : TCPSocket) (data : List UInt8) :
    (s.send data).pending = s.pending ++ data := by
  refine List.ext_getElem (by simp [send]) fun i h₁ h₂ => ?_
  have hi : i < s.nextSendValidIndex + data.length := by simpa [send] using h₁
  rw [List.getElem_append]
  by_cases hlt : i < s.nextSendValidIndex
  · have hnot : ¬ s.nextSendValidIndex ≤ i := by omega
    simp [pending, send, hlt, hnot]
  · have hge : s.nextSendValidIndex ≤ i := by omega
    have hdata : i - s.nextSendValidIndex < data.length := by omega
    simp [pending, send, hlt, hge, hdata]

theorem sendAndRecv_accepted (s : TCPSocket) (n : Int) :
    (s.sendAndRecv n).1 = s.pending.take n.toNat := by
  unfold sendAndRecv
  split
  · rfl
  · next h =>
      have hlen := s.pending_length
      have hnil : s.pending = [] := List.eq_nil_of_length_eq_zero (by omega)
      rw [hnil, List.take_nil]

end TCPSocket

-- ============================================================ the stream

/-- One call on the socket, with what the kernel answers. -/
inductive SocketCall where
  | send (data : List UInt8)
  | sendAndRecv (n : Int)
deriving DecidableEq, Repr

/-- A socket, the data passed to `send` so far, and the bytes the kernel
has accepted, each with its offset in that data. -/
structure Stream where
  socket : TCPSocket
  passed : List UInt8
  accepted : List UInt8
  acceptedAt : List Nat

namespace Stream

def new : Stream := ⟨.new, [], [], []⟩

/-- The offset in the stream of the first pending byte. -/
def flushed (s : Stream) : Nat :=
  s.passed.length - s.socket.nextSendValidIndex

/-- What a call does. -/
def after (s : Stream) : SocketCall → Stream
  | .send data =>
      { s with socket := s.socket.send data, passed := s.passed ++ data }
  | .sendAndRecv n =>
      let taken := (s.socket.sendAndRecv n).1
      { s with
        socket := (s.socket.sendAndRecv n).2
        accepted := s.accepted ++ taken
        acceptedAt := s.acceptedAt ++ List.range' s.flushed taken.length }

/-- What the caller and the kernel keep to: pending data fits the buffer,
and `::send` returns -1 or at most the requested length. -/
def Allowed (s : Stream) : SocketCall → Prop
  | .send data => s.socket.nextSendValidIndex + data.length ≤ tcpBufferSize
  | .sendAndRecv n => -1 ≤ n ∧ n ≤ s.socket.nextSendValidIndex

/-- One call. -/
def Called (s : Stream) (c : SocketCall) (s' : Stream) : Prop :=
  s.Allowed c ∧ s' = s.after c

/-- No byte is dropped, repeated or reordered: the accepted bytes are the
first ones of the stream, and the kernel has read a prefix of it. -/
structure InOrder (s : Stream) : Prop where
  offsets : s.acceptedAt = List.range s.accepted.length
  bytes : s.accepted <+: s.passed

/-- Some byte is neither accepted nor pending. -/
def Lost (s : Stream) : Prop :=
  s.accepted.length + s.socket.nextSendValidIndex < s.passed.length

/-- Once a byte is lost the kernel takes no other. -/
def Quiet (s : Stream) : SocketCall → Prop
  | .send _ => True
  | .sendAndRecv n => s.Lost → n ≤ 0

/-- One call that meets the condition. -/
def QuietlyCalled (s : Stream) (c : SocketCall) (s' : Stream) : Prop :=
  s.Quiet c ∧ s.Called c s'

-- ========================================================= the invariant

/-- What every run keeps: the buffer holds the end of the stream, each
accepted byte has its offset, and not more was accepted than flushed. -/
structure Sound (s : Stream) : Prop where
  pending_le : s.socket.nextSendValidIndex ≤ s.passed.length
  pending : s.socket.pending = s.passed.drop s.flushed
  accepted_le : s.accepted.length ≤ s.flushed
  located : s.acceptedAt.length = s.accepted.length

theorem sound_new : Sound new where
  pending_le := Nat.le_refl _
  pending := rfl
  accepted_le := Nat.le_refl _
  located := rfl

theorem Sound.after {s s' : Stream} {c : SocketCall} (h : Sound s)
    (hc : s.Called c s') : Sound s' := by
  obtain ⟨hallowed, rfl⟩ := hc
  have hle := h.pending_le
  cases c with
  | send data =>
      have hflushed : (s.after (.send data)).flushed = s.flushed := by
        simp only [flushed, Stream.after, TCPSocket.send, List.length_append]
        omega
      refine ⟨?_, ?_, ?_, h.located⟩
      · simp only [Stream.after, TCPSocket.send, List.length_append]
        omega
      · rw [hflushed]
        show (s.socket.send data).pending = (s.passed ++ data).drop s.flushed
        have hdrop : s.flushed ≤ s.passed.length := Nat.sub_le _ _
        rw [TCPSocket.pending_send, h.pending, List.drop_append_of_le_length hdrop]
      · rw [hflushed]
        exact h.accepted_le
  | sendAndRecv n =>
      have hflushed : (s.after (.sendAndRecv n)).flushed = s.passed.length := rfl
      refine ⟨Nat.zero_le _, ?_, ?_, ?_⟩
      · rw [hflushed]
        exact (List.drop_length (l := s.passed)).symm
      · rw [hflushed]
        have hacc := h.accepted_le
        unfold flushed at hacc
        simp only [Stream.after, TCPSocket.sendAndRecv_accepted,
          List.length_append, List.length_take, TCPSocket.pending_length]
        omega
      · simp [Stream.after, h.located]

theorem sound_of_run {cs : List SocketCall} {s : Stream}
    (h : Run Called new cs s) : Sound s :=
  h.induct (I := fun _ s => Sound s) sound_new fun _ _ _ _ _ hs hc => hs.after hc

/-- What is accepted while nothing is lost is the flushed part. -/
theorem Sound.accepted_eq {s : Stream} (h : Sound s) (hlost : ¬ s.Lost) :
    s.accepted.length = s.flushed := by
  have hle := h.accepted_le
  have hpending := h.pending_le
  unfold Lost at hlost
  unfold flushed at *
  omega

-- ============================================================== the steps

/-- A call that meets the condition keeps the stream in order. -/
theorem InOrder.after {s : Stream} (h : InOrder s) (hs : Sound s)
    {c : SocketCall} (hquiet : s.Quiet c) : InOrder (s.after c) := by
  cases c with
  | send data =>
      exact ⟨h.offsets, h.bytes.trans (List.prefix_append _ _)⟩
  | sendAndRecv n =>
      have htaken := TCPSocket.sendAndRecv_accepted s.socket n
      by_cases hlost : s.Lost
      · have hn : n.toNat = 0 := Int.toNat_eq_zero.2 (hquiet hlost)
        rw [hn, List.take_zero] at htaken
        refine ⟨?_, ?_⟩
        · simp only [Stream.after, htaken, List.append_nil, List.length_nil,
            List.range'_zero]
          exact h.offsets
        · simp only [Stream.after, htaken, List.append_nil]
          exact h.bytes
      · have heq := hs.accepted_eq hlost
        obtain ⟨rest, hrest⟩ := h.bytes
        refine ⟨?_, ?_⟩
        · have hjoin := @List.range'_append_1 0 s.accepted.length
            (s.socket.sendAndRecv n).1.length
          rw [Nat.zero_add, ← List.range_eq_range',
            ← List.range_eq_range'] at hjoin
          simp only [Stream.after, h.offsets, List.length_append]
          rw [← heq]
          exact hjoin
        · -- the pending bytes are the rest of the stream
          have hpending : s.socket.pending = rest := by
            rw [hs.pending, ← hrest, ← heq, List.drop_left]
          refine ⟨rest.drop n.toNat, ?_⟩
          simp only [Stream.after, htaken, hpending, List.append_assoc,
            List.take_append_drop]
          exact hrest

/-- What is in order now was in order before. -/
theorem InOrder.before {s : Stream} {c : SocketCall} (hs : Sound s)
    (h : InOrder (s.after c)) : InOrder s := by
  cases c with
  | send data =>
      refine ⟨h.offsets, ?_⟩
      have hle : s.accepted.length ≤ s.passed.length :=
        Nat.le_trans hs.accepted_le (Nat.sub_le _ _)
      have hprefix : s.accepted <+: s.passed ++ data := h.bytes
      exact List.prefix_of_prefix_length_le hprefix (List.prefix_append _ _) hle
  | sendAndRecv n =>
      have hoffsets := h.offsets
      simp only [Stream.after, List.length_append] at hoffsets
      refine ⟨?_, (List.prefix_append _ _).trans h.bytes⟩
      have htake := congrArg (List.take s.accepted.length) hoffsets
      rw [List.take_append_of_le_length (by rw [hs.located]),
        List.take_of_length_le (by rw [hs.located]), List.take_range,
        Nat.min_eq_left (Nat.le_add_right _ _)] at htake
      exact htake

/-- A byte taken after one was lost is out of order. -/
theorem InOrder.quiet {s : Stream} {c : SocketCall} (hs : Sound s)
    (hallowed : s.Allowed c) (h : InOrder (s.after c)) : s.Quiet c := by
  cases c with
  | send data => trivial
  | sendAndRecv n =>
      intro hlost
      by_contra hn
      obtain ⟨-, hmax⟩ : -1 ≤ n ∧ n ≤ s.socket.nextSendValidIndex := hallowed
      have htaken : (s.socket.sendAndRecv n).1.length = n.toNat := by
        rw [TCPSocket.sendAndRecv_accepted, List.length_take,
          TCPSocket.pending_length]
        omega
      have hoffsets := h.offsets
      simp only [Stream.after, List.length_append, htaken] at hoffsets
      -- the first byte taken lies at `flushed`, past the accepted ones
      have hget := congrArg (fun l => l[s.accepted.length]?) hoffsets
      simp only [List.getElem?_append_right (Nat.le_of_eq hs.located), hs.located,
        Nat.sub_self] at hget
      have hpos : 0 < n.toNat := by omega
      rw [List.getElem?_range'  hpos, List.getElem?_range (by omega)] at hget
      unfold Lost at hlost
      have hle := hs.pending_le
      simp only [Option.some.injEq, flushed] at hget
      omega

-- ================================================================ the run

/-- The kernel's bytes are the stream's, in order and without a gap, as
long as no byte is taken after one was lost, and no longer. -/
theorem inOrder_iff {cs : List SocketCall} {s : Stream}
    (h : Run Called new cs s) :
    InOrder s ↔ Run QuietlyCalled new cs s := by
  constructor
  · intro hin
    induction h with
    | nil => exact .nil
    | snoc hrun hc ih =>
        have hs := sound_of_run hrun
        obtain ⟨hallowed, rfl⟩ := hc
        exact (ih (hin.before hs)).snoc
          ⟨hin.quiet hs hallowed, hallowed, rfl⟩
  · intro hquiet
    refine (hquiet.induct (I := fun _ s => Sound s ∧ InOrder s)
      ⟨sound_new, rfl, List.nil_prefix⟩ ?_).2
    rintro _ t c t' - ⟨hs, hin⟩ ⟨hq, hc⟩
    refine ⟨hs.after hc, ?_⟩
    rw [hc.2]
    exact hin.after hs hq

/-- Two bytes of which the kernel takes one, then a third. -/
def shortSend : List SocketCall :=
  [.send [1, 2], .sendAndRecv 1, .send [3], .sendAndRecv 1]

theorem run_shortSend : Run Called new shortSend
    (shortSend.foldl Stream.after new) := by
  have hfirst : new.Allowed (.send [1, 2]) := by
    show 0 + 2 ≤ tcpBufferSize
    decide
  have hthird : ((new.after (.send [1, 2])).after (.sendAndRecv 1)).Allowed
      (.send [3]) := by
    show 0 + 1 ≤ tcpBufferSize
    decide
  exact (((Run.nil.snoc ⟨hfirst, rfl⟩).snoc
    ⟨⟨by decide, by decide⟩, rfl⟩).snoc ⟨hthird, rfl⟩).snoc
    ⟨⟨by decide, by decide⟩, rfl⟩

/-- The receiver misses the second byte. -/
theorem not_inOrder_shortSend :
    ¬ ∀ cs s, Run Called new cs s → InOrder s := by
  intro hall
  have h := (hall _ _ run_shortSend).bytes
  revert h
  decide

/-- The condition and the property on a run, both false. -/
theorem inOrder_iff_shortSend :
    (InOrder (shortSend.foldl Stream.after new)
      ↔ Run QuietlyCalled new shortSend (shortSend.foldl Stream.after new)) :=
  inOrder_iff run_shortSend

end Stream

end ElectronicTrading
