/-
exchange/order_server: FifoSequencer.hpp and OrderServer.{hpp,cc}.

A socket is named by a number, and the part of a `TCPSocket` that the
server touches is here: the valid part of its `recv_buffer` and what was
passed to its `send`. The two arrays of sequence numbers and the array
of sockets have 256 entries; `cid_next_outgoing_sequence_number` is read
with `.at()`, the others with `[]`, which does not check. An index out
of range is a fault either way.

`added` is everything handed to `addClientRequest` so far, `published`
everything `sequenceAndPublish` wrote to the queue of the engine.
-/
import ElectronicTrading.Exchange.Wire
import ElectronicTrading.Lib.Framing

namespace ElectronicTrading

/-- A `TCPSocket*`. -/
abbrev SocketID := Nat

/-- `Nanos`. -/
abbrev Nanos := Int

-- ============================================================== FIFOSequencer

def matchingEngineMaxPendingRequests : Nat := 1024

/-- `RecvTimeClientRequest`. -/
structure RecvTimeClientRequest where
  recvTime : Nanos
  request : MatchingEngineClientRequest
deriving DecidableEq

/-- `pending` is `pending_client_requests` up to `pending_size`. -/
structure FIFOSequencer where
  pending : List RecvTimeClientRequest
  added : List MatchingEngineClientRequest
  published : List MatchingEngineClientRequest

namespace FIFOSequencer

def new : FIFOSequencer where
  pending := []
  added := []
  published := []

/-- `addClientRequest`. -/
def addClientRequest (rxTime : Nanos) (request : MatchingEngineClientRequest) :
    Prog FIFOSequencer Unit := do
  assert (decide ((← get).pending.length < matchingEngineMaxPendingRequests))
    .tooManyRequests
  modify fun s => { s with
    pending := s.pending ++ [⟨rxTime, request⟩]
    added := s.added ++ [request] }

/-- `sequenceAndPublish`. `std::sort` leaves open the order of requests
with one receive time, so this is a relation. -/
def SequencedAndPublished (s s' : FIFOSequencer) : Prop :=
  ∃ sorted : List RecvTimeClientRequest, sorted.Perm s.pending
    ∧ (sorted.map (·.recvTime)).Pairwise (· ≤ ·)
    ∧ s' = { s with
        pending := []
        published := s.published ++ sorted.map (·.request) }

end FIFOSequencer

-- ================================================================ OrderServer

structure OrderServer where
  cidNextOutgoingSequenceNumber : ClientID → UInt64
  cidNextExpectedSequenceNumber : ClientID → UInt64
  cidTcpSockets : ClientID → Option SocketID
  recvBuffer : SocketID → List UInt8
  sendBuffer : SocketID → List UInt8
  fifoSequencer : FIFOSequencer

namespace OrderServer

/-- `OrderServer(...)`. -/
def new : OrderServer where
  cidNextOutgoingSequenceNumber := fun _ => 1
  cidNextExpectedSequenceNumber := fun _ => 1
  cidTcpSockets := fun _ => none
  recvBuffer := fun _ => []
  sendBuffer := fun _ => []
  fifoSequencer := .new

abbrev Member (α : Type) := Prog OrderServer α

def onSequencer {α : Type} (x : Prog FIFOSequencer α) : Member α :=
  Exec.zoom (·.fifoSequencer) (fun f s => { s with fifoSequencer := f }) x

/-- `socket->send(data)`. -/
def send (socket : SocketID) (data : List UInt8) : Member Unit :=
  modify fun s => { s with sendBuffer := fun t =>
    if t = socket then s.sendBuffer t ++ data else s.sendBuffer t }

/-- The server with another valid part of `socket->recv_buffer`. -/
def setRecvBuffer (socket : SocketID) (bytes : List UInt8) (s : OrderServer) :
    OrderServer :=
  { s with recvBuffer := fun t =>
      if t = socket then bytes else s.recvBuffer t }

-- ------------------------------------------------------------ receiving

/-- The body of the loop of `recvCallBack`. -/
def onRequest (socket : SocketID) (rxTime : Nanos)
    (request : OrderManagementClientRequest) : Member Unit := do
  let clientId := request.meClientRequest.clientId
  assert (decide (clientId.toNat < matchingEngineMaxNumClients)) .outOfRange
  if (← get).cidTcpSockets clientId = none then
    modify fun s => { s with cidTcpSockets := fun c =>
      if c = clientId then some socket else s.cidTcpSockets c }
  if (← get).cidTcpSockets clientId ≠ some socket then return
  if request.sequenceNumber
      ≠ (← get).cidNextExpectedSequenceNumber clientId then return
  modify fun s => { s with cidNextExpectedSequenceNumber := fun c =>
    if c = clientId then s.cidNextExpectedSequenceNumber c + 1
    else s.cidNextExpectedSequenceNumber c }
  onSequencer
    (FIFOSequencer.addClientRequest rxTime request.meClientRequest)

/-- `recvCallBack`. The remainder of the buffer is moved to its front by
`memcpy`, whose source and destination must not overlap. -/
def recvCallBack (socket : SocketID) (rxTime : Nanos) : Member Unit := do
  let buffer := (← get).recvBuffer socket
  if Wire.clientRequest.size ≤ buffer.length then
    let index ← Framing.forFrames Wire.clientRequest.size .endlessLoop
      (fun bytes => onRequest socket rxTime (Wire.clientRequest.decode bytes))
      buffer (buffer.length + 1) 0
    assert (decide (buffer.length - index ≤ index)) .overlappingCopy
    modify (setRecvBuffer socket (buffer.drop index))

/-- `TCPSocket::sendAndRecv` has read `chunk` from the socket: it is
appended to the buffer, and the callback called. -/
def receive (socket : SocketID) (rxTime : Nanos) (chunk : List UInt8) :
    Member Unit := do
  modify fun s => s.setRecvBuffer socket (s.recvBuffer socket ++ chunk)
  recvCallBack socket rxTime

-- -------------------------------------------------------------- sending

/-- The body of the loop of `run` over the responses. -/
def respond (clientResponse : MatchingEngineClientResponse) :
    Member Unit := do
  let clientId := clientResponse.clientId
  assert (decide (clientId.toNat < matchingEngineMaxNumClients)) .outOfRange
  let nextOutgoingSequenceNumber :=
    (← get).cidNextOutgoingSequenceNumber clientId
  match (← get).cidTcpSockets clientId with
  | none => throw .noClientSocket
  | some socket => do
      send socket (Packed.Codec.uint64.encode nextOutgoingSequenceNumber)
      send socket (Wire.response.encode clientResponse)
      modify fun s => { s with cidNextOutgoingSequenceNumber := fun c =>
        if c = clientId then s.cidNextOutgoingSequenceNumber c + 1
        else s.cidNextOutgoingSequenceNumber c }

-- --------------------------------------------------------------- events

/-- What happens to the server between its responses: bytes arrive on a
socket, or all sockets have been read. -/
inductive Event where
  | receive (socket : SocketID) (rxTime : Nanos) (chunk : List UInt8)
  | recvFinished
deriving DecidableEq

/-- An event, worked off to its end. -/
def Served (s : OrderServer) (e : Event) (s' : OrderServer) : Prop :=
  match e with
  | .receive socket rxTime chunk =>
      (receive socket rxTime chunk).run s = .ok () s'
  | .recvFinished => ∃ f, s.fifoSequencer.SequencedAndPublished f
      ∧ s' = { s with fifoSequencer := f }

end OrderServer

end ElectronicTrading
