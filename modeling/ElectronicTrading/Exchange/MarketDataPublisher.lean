/-
exchange/market_data/MarketDataPublisher.cc and McastSocket.cc: the loop
that takes the engine's market updates out of their queue, sends them on
the incremental socket and copies them into the snapshot queue.

One step of `run` is one of its accesses to something shared: the queue
(LockFreeQueue.lean), whose producer is the engine's thread and may take
a step between any two of them, or the element behind `market_update`,
which is read twice: once to send it, and once, after the slot has been
given back, to copy it.

`send` appends to a buffer that `sendAndRecv` passes to the kernel in one
datagram after the loop, and empties whatever the kernel says. A UDP
payload is at most 65507 bytes; a longer one is not sent.
-/
import ElectronicTrading.Common.LockFreeQueue
import ElectronicTrading.Exchange.Wire
import ElectronicTrading.Lib.Runs

namespace ElectronicTrading

open Runs

-- ============================================================= McastSocket

def multicastBufferSize : Nat := 64 * 1024 * 1024

/-- The largest payload of a UDP datagram. -/
def maxUdpPayload : Nat := 65507

/-- `sendBuffer` is `send_buffer` up to `next_send_valid_index`;
`datagrams` is what `::send` has sent, `discarded` what it has not. -/
structure McastSocket where
  sendBuffer : List UInt8
  datagrams : List (List UInt8)
  discarded : List (List UInt8)

namespace McastSocket

def new : McastSocket where
  sendBuffer := []
  datagrams := []
  discarded := []

/-- `send`, before its ASSERT. -/
def send (s : McastSocket) (data : List UInt8) : McastSocket :=
  { s with sendBuffer := s.sendBuffer ++ data }

/-- The ASSERT of `send`. -/
def Fits (s : McastSocket) : Prop :=
  s.sendBuffer.length < multicastBufferSize

instance (s : McastSocket) : Decidable s.Fits :=
  inferInstanceAs (Decidable (_ < _))

/-- The sending half of `sendAndRecv`. -/
def sendAndRecv (s : McastSocket) : McastSocket :=
  if s.sendBuffer.length = 0 then s
  else if s.sendBuffer.length ≤ maxUdpPayload then
    { s with sendBuffer := [], datagrams := s.datagrams ++ [s.sendBuffer] }
  else
    { s with sendBuffer := [], discarded := s.discarded ++ [s.sendBuffer] }

end McastSocket

-- ====================================================== MarketDataPublisher

/-- Where `run` is. The `for` loop evaluates `getNextToRead`, then its
condition; the body sends the number and the update, releases the slot
and counts it, and copies the update; after the loop is
`sendAndRecv`. -/
inductive PublisherStep where
  | getNextToRead
  | test (marketUpdate : Option Nat)
  | sendNumber (slot : Nat)
  | sendUpdate (slot : Nat)
  | advanceRead (slot : Nat)
  | countDown (slot : Nat)
  | copy (slot : Nat)
  | sendAndRecv
  | stopped
deriving DecidableEq, Repr

/-- `incremental` is what has been sent on the incremental socket, number
and update, and `snapshot` what has been written to
`snapshot_market_updates`. `batch` counts the updates sent since
`sendAndRecv`. `next_increment_sequence_number` is a `size_t`. -/
structure MarketDataPublisher where
  threads : Threads MatchingEngineMarketUpdate
  step : PublisherStep
  nextIncrementSequenceNumber : Nat
  incrementalSocket : McastSocket
  incremental : List MDPMarketUpdate
  snapshot : List MDPMarketUpdate
  batch : Nat

/-- A step of the engine's thread, or one of `run`. -/
inductive PublisherAct where
  | write (update : MatchingEngineMarketUpdate)
  | advanceWrite
  | countUp
  | run

namespace MarketDataPublisher

/-- The publisher, with the queue it is given. -/
def new (capacity : Nat) : MarketDataPublisher where
  threads := .new capacity {}
  step := .getNextToRead
  nextIncrementSequenceNumber := 1
  incrementalSocket := .new
  incremental := []
  snapshot := []
  batch := 0

/-- `incremental_socket.send(data, len)`, and where `run` goes on. -/
def send (s : MarketDataPublisher) (data : List UInt8)
    (next : PublisherStep) : MarketDataPublisher :=
  { s with
    incrementalSocket := s.incrementalSocket.send data
    step := if (s.incrementalSocket.send data).Fits then next else .stopped }

/-- One step of `run`. -/
def run (s : MarketDataPublisher) : MarketDataPublisher :=
  match s.step with
  | .getNextToRead =>
      let marketUpdate := s.threads.queue.getNextToRead
      { s with
        step := .test marketUpdate
        threads := { s.threads with
          consumer := match marketUpdate with
            | none => .idle
            | some slot => .holding slot } }
  | .test marketUpdate =>
      match marketUpdate with
      | none => { s with step := .sendAndRecv }
      | some slot =>
          if s.threads.queue.numElements = 0 then
            { s with
              step := .sendAndRecv
              threads := { s.threads with consumer := .idle } }
          else { s with step := .sendNumber slot }
  | .sendNumber slot =>
      s.send ((Packed.Codec.nat 8).encode s.nextIncrementSequenceNumber)
        (.sendUpdate slot)
  | .sendUpdate slot =>
      let update := s.threads.queue.store slot
      { s.send (Wire.marketUpdate.encode update) (.advanceRead slot) with
        threads := { s.threads with
          consumer := .took
          returned := s.threads.returned ++ [update] }
        incremental := s.incremental
          ++ [⟨s.nextIncrementSequenceNumber, update⟩]
        batch := s.batch + 1 }
  | .advanceRead slot =>
      { s with
        step := .countDown slot
        threads := { s.threads with
          consumer := .released
          queue := s.threads.queue.advanceRead } }
  | .countDown slot =>
      if s.threads.queue.numElements = 0 then { s with step := .stopped }
      else { s with
        step := .copy slot
        threads := { s.threads with
          consumer := .idle
          queue := s.threads.queue.countDown } }
  | .copy slot =>
      { s with
        step := .getNextToRead
        snapshot := s.snapshot
          ++ [⟨s.nextIncrementSequenceNumber, s.threads.queue.store slot⟩]
        nextIncrementSequenceNumber :=
          (s.nextIncrementSequenceNumber + 1) % 2 ^ 64 }
  | .sendAndRecv =>
      { s with
        step := .getNextToRead
        incrementalSocket := s.incrementalSocket.sendAndRecv
        batch := 0 }
  | .stopped => s

/-- What a step does; none when it is not the engine's turn for it. -/
def act (s : MarketDataPublisher) :
    PublisherAct → Option MarketDataPublisher
  | .write update =>
      (s.threads.act (.write update)).map fun t => { s with threads := t }
  | .advanceWrite =>
      (s.threads.act .advanceWrite).map fun t => { s with threads := t }
  | .countUp =>
      (s.threads.act .countUp).map fun t => { s with threads := t }
  | .run => some s.run

def Acted (s : MarketDataPublisher) (a : PublisherAct)
    (s' : MarketDataPublisher) : Prop :=
  s.act a = some s'

/-- The unread elements. -/
def unread (s : MarketDataPublisher) : Nat :=
  s.threads.published - s.threads.consumed

end MarketDataPublisher

end ElectronicTrading
