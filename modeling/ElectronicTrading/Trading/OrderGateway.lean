/-
trading/order_gateway/Gateway.{hpp,cc}: the client's end of the
connection to the order server.

`sendBuffer` is what was passed to `tcp_socket.send`, `recvBuffer` the
valid part of its `recv_buffer`; `incomingResponse` is everything written
to the queue of the trade engine.
-/
import ElectronicTrading.Exchange.Wire
import ElectronicTrading.Lib.Framing

namespace ElectronicTrading

structure OrderGateway where
  clientId : ClientID
  nextOutgoingSequenceNumber : UInt64
  nextExpectedSequenceNumber : UInt64
  sendBuffer : List UInt8
  recvBuffer : List UInt8
  incomingResponse : List MatchingEngineClientResponse

namespace OrderGateway

/-- `OrderGateway(...)`. -/
def new (clientId : ClientID) : OrderGateway where
  clientId := clientId
  nextOutgoingSequenceNumber := 1
  nextExpectedSequenceNumber := 1
  sendBuffer := []
  recvBuffer := []
  incomingResponse := []

abbrev Member (α : Type) := Prog OrderGateway α

/-- `tcp_socket.send(data)`. -/
def send (data : List UInt8) : Member Unit :=
  modify fun s => { s with sendBuffer := s.sendBuffer ++ data }

/-- The body of the loop of `run` over the requests. -/
def sendRequest (clientRequest : MatchingEngineClientRequest) :
    Member Unit := do
  send (Packed.Codec.uint64.encode (← get).nextOutgoingSequenceNumber)
  send (Wire.request.encode clientRequest)
  modify fun s => { s with
    nextOutgoingSequenceNumber := s.nextOutgoingSequenceNumber + 1 }

/-- The body of the loop of `recvCallback`. -/
def onResponse (response : OrderManagementClientResponse) : Member Unit := do
  if response.meClientResponse.clientId ≠ (← get).clientId then return
  if response.sequenceNumber ≠ (← get).nextExpectedSequenceNumber then return
  modify fun s => { s with
    nextExpectedSequenceNumber := s.nextExpectedSequenceNumber + 1
    incomingResponse := s.incomingResponse ++ [response.meClientResponse] }

/-- `recvCallback`. -/
def recvCallback : Member Unit := do
  let buffer := (← get).recvBuffer
  if Wire.clientResponse.size ≤ buffer.length then
    let index ← Framing.forFrames Wire.clientResponse.size .endlessLoop
      (fun bytes => onResponse (Wire.clientResponse.decode bytes))
      buffer (buffer.length + 1) 0
    assert (decide (buffer.length - index ≤ index)) .overlappingCopy
    modify fun s => { s with recvBuffer := buffer.drop index }

/-- `TCPSocket::sendAndRecv` has read `chunk`. -/
def receive (chunk : List UInt8) : Member Unit := do
  modify fun s => { s with recvBuffer := s.recvBuffer ++ chunk }
  recvCallback

end OrderGateway

end ElectronicTrading
