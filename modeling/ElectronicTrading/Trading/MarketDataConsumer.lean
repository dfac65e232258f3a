/-
trading/market_data/MarketDataConsumer.{hpp,cc}: the receiver of the two
multicast streams, and its recovery from a gap.

In recovery every message is put into the map of its stream
(`queueMessage`) and `checkSnapshotSync` tries to complete: it wants a
snapshot without a gap, from SNAPSHOT_START to SNAPSHOT_END, and the
queued incrementals that follow it without a gap. When the snapshot has a
gap it throws the queued snapshot away, and when the incrementals have
one, too; the incrementals are kept.

A callback is given what its socket has received; a datagram holds whole
messages. Joining and leaving the snapshot's group does nothing here: a
message that is not delivered is one that is not received.
-/
import ElectronicTrading.Exchange.Messages
import ElectronicTrading.Lib.SortedMap

namespace ElectronicTrading

/-- `std::map<size_t, MatchingEngineMarketUpdate>`. -/
abbrev QueuedMarketUpdates := SortedMap MatchingEngineMarketUpdate

/-- `incomingMdQueue` is everything written to the trade engine's queue;
`next_expected_sequence_number` is a `size_t`. -/
structure MarketDataConsumer where
  nextExpectedSequenceNumber : Nat
  incomingMdQueue : List MatchingEngineMarketUpdate
  inRecoveryMode : Bool
  snapshotQueuedMsgs : QueuedMarketUpdates
  incrementalQueuedMsgs : QueuedMarketUpdates

namespace MarketDataConsumer

def new : MarketDataConsumer where
  nextExpectedSequenceNumber := 1
  incomingMdQueue := []
  inRecoveryMode := false
  snapshotQueuedMsgs := .empty
  incrementalQueuedMsgs := .empty

/-- The update is SNAPSHOT_START or SNAPSHOT_END, which is not passed
on. -/
def IsDelimiter (update : MatchingEngineMarketUpdate) : Prop :=
  update.type = .snapshotStart ∨ update.type = .snapshotEnd

instance (update : MatchingEngineMarketUpdate) :
    Decidable (IsDelimiter update) :=
  inferInstanceAs (Decidable (_ ∨ _))

/-- `final_events.push_back(update)`, unless it is a delimiter. -/
def pushEvent (finalEvents : List MatchingEngineMarketUpdate)
    (update : MatchingEngineMarketUpdate) : List MatchingEngineMarketUpdate :=
  if IsDelimiter update then finalEvents else finalEvents ++ [update]

/-- The loop over the queued snapshot; none when it has a gap. -/
def collectSnapshot : List (Nat × MatchingEngineMarketUpdate) → Nat →
    List MatchingEngineMarketUpdate → Option (List MatchingEngineMarketUpdate)
  | [], _, finalEvents => some finalEvents
  | (number, update) :: rest, nextSnapshotSequenceNumber, finalEvents =>
      if number ≠ nextSnapshotSequenceNumber then none
      else collectSnapshot rest (nextSnapshotSequenceNumber + 1)
        (pushEvent finalEvents update)

/-- The loop over the queued incrementals: whether they are complete, the
number it has come to, and the events. -/
def collectIncrementals : List (Nat × MatchingEngineMarketUpdate) → Nat →
    List MatchingEngineMarketUpdate →
      Bool × Nat × List MatchingEngineMarketUpdate
  | [], next, finalEvents => (true, next, finalEvents)
  | (number, update) :: rest, next, finalEvents =>
      if number < next then collectIncrementals rest next finalEvents
      else if number ≠ next then (false, next, finalEvents)
      else collectIncrementals rest ((next + 1) % 2 ^ 64)
        (pushEvent finalEvents update)

/-- `checkSnapshotSync`, once the snapshot has no gap: `finalEvents` is
its payload and `last` its last message. -/
def checkIncrementals (s : MarketDataConsumer)
    (finalEvents : List MatchingEngineMarketUpdate)
    (last : MatchingEngineMarketUpdate) : MarketDataConsumer :=
  if last.type ≠ .snapshotEnd then s
  else
    let (haveCompleteIncrementals, next, finalEvents) :=
      collectIncrementals s.incrementalQueuedMsgs.entries
        ((last.orderId.toNat + 1) % 2 ^ 64) finalEvents
    let s : MarketDataConsumer := { s with nextExpectedSequenceNumber := next }
    if haveCompleteIncrementals then
      { s with
        incomingMdQueue := s.incomingMdQueue ++ finalEvents
        snapshotQueuedMsgs := .empty
        incrementalQueuedMsgs := .empty
        inRecoveryMode := false }
    else { s with snapshotQueuedMsgs := .empty }

/-- `checkSnapshotSync`. -/
def checkSnapshotSync (s : MarketDataConsumer) : MarketDataConsumer :=
  match s.snapshotQueuedMsgs.entries with
  | [] => s
  | first :: rest =>
      if first.2.type ≠ .snapshotStart then
        { s with snapshotQueuedMsgs := .empty }
      else
        match collectSnapshot (first :: rest) 0 [] with
        | none => { s with snapshotQueuedMsgs := .empty }
        | some finalEvents =>
            s.checkIncrementals finalEvents
              ((first :: rest).getLast (List.cons_ne_nil first rest)).2

/-- `queueMessage`. -/
def queueMessage (s : MarketDataConsumer) (isSnapshot : Bool)
    (request : MDPMarketUpdate) : MarketDataConsumer :=
  if isSnapshot then
    let queued :=
      if s.snapshotQueuedMsgs.contains request.sequenceNumber then .empty
      else s.snapshotQueuedMsgs
    checkSnapshotSync { s with
      snapshotQueuedMsgs :=
        queued.insert request.sequenceNumber request.meMarketUpdate }
  else
    checkSnapshotSync { s with
      incrementalQueuedMsgs := s.incrementalQueuedMsgs.insert
        request.sequenceNumber request.meMarketUpdate }

/-- `startSnapshotSync`. -/
def startSnapshotSync (s : MarketDataConsumer) : MarketDataConsumer :=
  { s with snapshotQueuedMsgs := .empty, incrementalQueuedMsgs := .empty }

/-- The body of the loop of `recvCallback`. -/
def onRequest (isSnapshot : Bool) (s : MarketDataConsumer)
    (request : MDPMarketUpdate) : MarketDataConsumer :=
  let alreadyInRecovery := s.inRecoveryMode
  let inRecovery := alreadyInRecovery
    || decide (request.sequenceNumber ≠ s.nextExpectedSequenceNumber)
  let s : MarketDataConsumer := { s with inRecoveryMode := inRecovery }
  if inRecovery then
    if alreadyInRecovery then s.queueMessage isSnapshot request
    else s.startSnapshotSync.queueMessage isSnapshot request
  else if isSnapshot then s
  else { s with
    nextExpectedSequenceNumber :=
      (s.nextExpectedSequenceNumber + 1) % 2 ^ 64
    incomingMdQueue := s.incomingMdQueue ++ [request.meMarketUpdate] }

/-- `recvCallback`, with the messages in the socket's buffer. -/
def recvCallback (s : MarketDataConsumer)
    (received : Bool × List MDPMarketUpdate) : MarketDataConsumer :=
  if received.1 = true ∧ s.inRecoveryMode = false then s
  else received.2.foldl (onRequest received.1) s

end MarketDataConsumer

end ElectronicTrading
