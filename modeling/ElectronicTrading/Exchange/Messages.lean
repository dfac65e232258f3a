/-
The messages of the exchange: ClientRequest.hpp and ClientResponse.hpp
(exchange/order_server) and MarketUpdate.hpp (exchange/market_data).

Each enumeration is a byte on the wire and the receivers `switch` on it
without a check, so a byte that names no enumerator can reach them;
`unnamed` is such a byte. A field that a message leaves out has the
default the source's struct gives it.
-/
import ElectronicTrading.Common.Types

namespace ElectronicTrading

-- ======================================================== client requests

/-- `ClientRequestType`: what a client can ask for. -/
inductive ClientRequestType where
  | invalid
  | new
  | cancel
  | unnamed (raw : UInt8)
deriving DecidableEq, Repr

/-- `MatchingEngineClientRequest`: a request as the matching engine reads it.
Of a CANCEL only the ids matter. -/
structure MatchingEngineClientRequest where
  type : ClientRequestType := .invalid
  clientId : ClientID := clientIdInvalid
  tickerId : TickerID := tickerIdInvalid
  orderId : OrderID := orderIdInvalid
  side : Side := .invalid
  price : Price := priceInvalid
  quantity : Quantity := quantityInvalid
deriving DecidableEq, Repr

/-- The NEW orders among some requests, in order. -/
def newOrders (rs : List MatchingEngineClientRequest) :
    List MatchingEngineClientRequest := rs.filter (·.type = .new)

theorem newOrders_snoc (rs : List MatchingEngineClientRequest)
    (r : MatchingEngineClientRequest) :
    newOrders (rs ++ [r]) = newOrders rs ++ if r.type = .new then [r] else [] := by
  unfold newOrders
  rw [List.filter_append]
  by_cases hr : r.type = .new
  · simp [hr]
  · simp [hr]

/-- What a client sends: a request under its sequence number. -/
structure OrderManagementClientRequest where
  sequenceNumber : UInt64 := 0
  meClientRequest : MatchingEngineClientRequest
deriving DecidableEq, Repr

-- ======================================================= client responses

/-- `ClientResponseType`: the answers. -/
inductive ClientResponseType where
  | invalid
  | accepted
  | cancelled
  | filled
  | cancelRejected
  | unnamed (raw : UInt8)
deriving DecidableEq, Repr

/-- `MatchingEngineClientResponse`. `clientOrderId` is the id under which the
client sent the order, `marketOrderId` the exchange's own. -/
structure MatchingEngineClientResponse where
  type : ClientResponseType := .invalid
  clientId : ClientID := clientIdInvalid
  tickerId : TickerID := tickerIdInvalid
  clientOrderId : OrderID := orderIdInvalid
  marketOrderId : OrderID := orderIdInvalid
  side : Side := .invalid
  price : Price := priceInvalid
  execQuantity : Quantity := quantityInvalid
  leavesQuantity : Quantity := quantityInvalid
deriving DecidableEq, Repr

/-- What a client is sent: a response under its sequence number. -/
structure OrderManagementClientResponse where
  sequenceNumber : UInt64 := 0
  meClientResponse : MatchingEngineClientResponse
deriving DecidableEq, Repr

-- ========================================================= market updates

/-- `MarketUpdateType`. CLEAR and the two SNAPSHOT types occur in snapshots
only. -/
inductive MarketUpdateType where
  | invalid
  | clear
  | add
  | modify
  | cancel
  | trade
  | snapshotStart
  | snapshotEnd
deriving DecidableEq, Repr

/-- `MatchingEngineMarketUpdate`: what everybody is told of a change of a book.
In SNAPSHOT_START and SNAPSHOT_END `orderId` is the number of the last
incremental update in the snapshot. -/
structure MatchingEngineMarketUpdate where
  type : MarketUpdateType := .invalid
  orderId : OrderID := orderIdInvalid
  tickerId : TickerID := tickerIdInvalid
  side : Side := .invalid
  price : Price := priceInvalid
  quantity : Quantity := quantityInvalid
  priority : Priority := priorityInvalid
deriving DecidableEq, Repr

/-- A market update under its place in the public stream. -/
structure MDPMarketUpdate where
  sequenceNumber : Nat := 0
  meMarketUpdate : MatchingEngineMarketUpdate
deriving DecidableEq, Repr

end ElectronicTrading
