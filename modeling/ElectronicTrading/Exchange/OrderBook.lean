/-
exchange/matching/OrderBook.{hpp,cc}: the matching engine's book of one
ticker.

`sendClientResponse` and `sendMarketUpdate` hand a message to the engine,
which queues it; `sent` is everything handed over so far, in order. It is
part of the state a fault leaves behind: what was sent has been sent.

`ticker_id_` is an argument of every call (the request's), as in the
source; the book's own `ticker_id` is only printed.
-/
import ElectronicTrading.Common.BookPrinter
import ElectronicTrading.Exchange.Messages

namespace ElectronicTrading

/-- The identifiers of a `MatchingEngineOrder`. -/
structure OrderIds where
  tickerId : TickerID
  clientId : ClientID
  clientOrderId : OrderID
  marketOrderId : OrderID
deriving DecidableEq, Repr

/-- A default-constructed `MatchingEngineOrder`. -/
def matchingEngineOrderDefault : Order OrderIds where
  key := ⟨tickerIdInvalid, clientIdInvalid, orderIdInvalid, orderIdInvalid⟩
  side := .invalid
  price := priceInvalid
  quantity := quantityInvalid
  priority := priorityInvalid
  prevOrder := none
  nextOrder := none

/-- A message handed to the engine. -/
inductive Sent where
  | response (response : MatchingEngineClientResponse)
  | update (update : MatchingEngineMarketUpdate)
deriving DecidableEq, Repr

structure MatchingEngineOrderBook where
  /-- Both arrays in one: indexed by client id, then client order id. -/
  cidOidToOrder : ClientID → OrderID → Option Ptr
  ladder : Ladder OrderIds
  nextMarketOrderId : OrderID
  sent : List Sent

namespace MatchingEngineOrderBook

/-- `MatchingEngineOrderBook(...)`, with the pointer arrays null. -/
def new : MatchingEngineOrderBook where
  cidOidToOrder := fun _ _ => none
  ladder := .new matchingEngineOrderDefault
  nextMarketOrderId := 1
  sent := []

/-- A member function of the book. -/
abbrev Member (α : Type) := Prog MatchingEngineOrderBook α

def onLadder {α : Type} (x : Prog (Ladder OrderIds) α) : Member α :=
  Exec.zoom (·.ladder) (fun l s => { s with ladder := l }) x

def sendClientResponse (response : MatchingEngineClientResponse) :
    Member Unit :=
  modify fun s => { s with sent := s.sent ++ [.response response] }

def sendMarketUpdate (update : MatchingEngineMarketUpdate) : Member Unit :=
  modify fun s => { s with sent := s.sent ++ [.update update] }

/-- `cid_oid_to_order.at(client_id).at(order_id)` is in both arrays. -/
def inRange (clientId : ClientID) (orderId : OrderID) : Bool :=
  decide (clientId.toNat < matchingEngineMaxNumClients)
    && decide (orderId.toNat < matchingEngineMaxOrderIds)

/-- `cid_oid_to_order.at(client_id).at(order_id) = order`. -/
def setClientOrder (clientId : ClientID) (orderId : OrderID)
    (order : Option Ptr) : Member Unit := do
  assert (inRange clientId orderId) .outOfRange
  modify fun s => { s with cidOidToOrder := fun c o =>
    if c = clientId ∧ o = orderId then order else s.cidOidToOrder c o }

/-- `generateNewMarketOrderId`. -/
def generateNewMarketOrderId : Member OrderID := do
  let s ← get
  set { s with nextMarketOrderId := s.nextMarketOrderId + 1 }
  return s.nextMarketOrderId

/-- `getNextPriority`. -/
def getNextPriority (price : Price) : Prog (Ladder OrderIds) Priority := do
  let ordersAtPrice := (← get).getOrdersAtPrice price
  if ordersAtPrice = none then return 1
  let firstOrder := (← Ladder.readLevel ordersAtPrice).firstOrder
  let lastOrder := (← Ladder.readOrder firstOrder).prevOrder
  return (← Ladder.readOrder lastOrder).priority + 1

/-- `removeOrder`. -/
def removeOrder (order : Option Ptr) : Member Unit := do
  onLadder (Ladder.unlinkOrder order)
  let o ← onLadder (Ladder.readOrder order)
  setClientOrder o.key.clientId o.key.clientOrderId none
  onLadder (Ladder.deallocateOrder order)

/-- `addOrder`. -/
def addOrder (order : Option Ptr) : Member Unit := do
  onLadder (Ladder.linkOrder order)
  let o ← onLadder (Ladder.readOrder order)
  setClientOrder o.key.clientId o.key.clientOrderId order

/-- `match`: one fill against the resting order `itr`. Returns
`*leaves_quantity`. -/
def matchOrder (tickerId : TickerID) (clientId : ClientID) (side : Side)
    (clientOrderId newMarketOrderId : OrderID) (itr : Option Ptr)
    (leavesQuantity : Quantity) : Member Quantity := do
  let order ← onLadder (Ladder.readOrder itr)
  let orderQuantity := order.quantity
  let fillQuantity := min orderQuantity leavesQuantity
  let leavesQuantity := leavesQuantity - fillQuantity
  onLadder (Ladder.writeOrder
    (.setQuantity (orderQuantity - fillQuantity)) itr)
  sendClientResponse
    { type := .filled, clientId := clientId, tickerId := tickerId,
      clientOrderId := clientOrderId, marketOrderId := newMarketOrderId,
      side := side, price := order.price, execQuantity := fillQuantity,
      leavesQuantity := leavesQuantity }
  let order ← onLadder (Ladder.readOrder itr)
  sendClientResponse
    { type := .filled, clientId := order.key.clientId, tickerId := tickerId,
      clientOrderId := order.key.clientOrderId,
      marketOrderId := order.key.marketOrderId, side := order.side,
      price := order.price, execQuantity := fillQuantity,
      leavesQuantity := order.quantity }
  if order.quantity = 0 then
    sendMarketUpdate
      { type := .cancel, orderId := order.key.marketOrderId,
        tickerId := tickerId, side := order.side, price := order.price,
        quantity := orderQuantity, priority := priorityInvalid }
    removeOrder itr
  else
    sendMarketUpdate
      { type := .modify, orderId := order.key.marketOrderId,
        tickerId := tickerId, side := order.side, price := order.price,
        quantity := order.quantity, priority := order.priority }
  return leavesQuantity

/-- Both loops of `checkForMatch`: against the asks when `isBuy`, against
the bids otherwise, breaking when `stop` holds of the limit price and
the price of the best order. Every round releases an order or ends with
no quantity left, so a book whose pool has `size` orders leaves no room
for more than `size + 1` rounds. -/
def matchWhile (isBuy : Bool) (stop : Price → Bool)
    (tickerId : TickerID) (clientId : ClientID) (side : Side)
    (clientOrderId newMarketOrderId : OrderID) :
    Nat → Quantity → Member Quantity
  | 0, _ => throw .endlessLoop
  | fuel + 1, leavesQuantity => do
      let best := (← get).ladder.best (!isBuy)
      if leavesQuantity = 0 ∨ best = none then
        return leavesQuantity
      let itr := (← onLadder (Ladder.readLevel best)).firstOrder
      if stop (← onLadder (Ladder.readOrder itr)).price then
        return leavesQuantity
      let leavesQuantity ← matchOrder tickerId clientId side clientOrderId
        newMarketOrderId itr leavesQuantity
      matchWhile isBuy stop tickerId clientId side clientOrderId
        newMarketOrderId fuel leavesQuantity

/-- `checkForMatch`. -/
def checkForMatch (clientId : ClientID) (clientOrderId : OrderID)
    (tickerId : TickerID) (side : Side) (price : Price) (quantity : Quantity)
    (newMarketOrderId : OrderID) : Member Quantity := do
  let fuel := (← get).ladder.orderPool.size + 1
  if side = .buy then
    matchWhile true (fun best => decide (price < best)) tickerId clientId side
      clientOrderId newMarketOrderId fuel quantity
  else if side = .sell then
    matchWhile false (fun best => decide (price > best)) tickerId clientId side
      clientOrderId newMarketOrderId fuel quantity
  else
    return quantity

/-- `add`. The first initialiser of the response lists the ticker id
before the client id, the reverse of the fields' order: kept as it is. -/
def add (clientId : ClientID) (clientOrderId : OrderID) (tickerId : TickerID)
    (side : Side) (price : Price) (quantity : Quantity) : Member Unit := do
  let newMarketOrderId ← generateNewMarketOrderId
  sendClientResponse
    { type := .accepted, clientId := tickerId, tickerId := clientId,
      clientOrderId := clientOrderId, marketOrderId := newMarketOrderId,
      side := side, price := price, execQuantity := 0,
      leavesQuantity := quantity }
  let leavesQuantity ← checkForMatch clientId clientOrderId tickerId side
    price quantity newMarketOrderId
  if leavesQuantity ≠ 0 then
    let priority ← onLadder (getNextPriority price)
    let order ← onLadder (Ladder.allocateOrder
      { key := ⟨tickerId, clientId, clientOrderId, newMarketOrderId⟩,
        side := side, price := price, quantity := leavesQuantity,
        priority := priority, prevOrder := none, nextOrder := none })
    addOrder order
    sendMarketUpdate
      { type := .add, orderId := newMarketOrderId, tickerId := tickerId,
        side := side, price := price, quantity := leavesQuantity,
        priority := priority }

/-- The look-up of `cancel`: null for a client id the array does not
have, but `co_itr.at(order_id)` for an order id it does not have. -/
def findOrder (clientId : ClientID) (orderId : OrderID) :
    Member (Option Ptr) := do
  if clientId.toNat < matchingEngineMaxNumClients then
    assert (inRange clientId orderId) .outOfRange
    return (← get).cidOidToOrder clientId orderId
  else
    return none

/-- `cancel`. -/
def cancel (clientId : ClientID) (orderId : OrderID) (tickerId : TickerID) :
    Member Unit := do
  let exchangeOrder ← findOrder clientId orderId
  if exchangeOrder = none then
    sendClientResponse
      { type := .cancelRejected, clientId := clientId, tickerId := tickerId,
        clientOrderId := orderId, marketOrderId := orderIdInvalid,
        side := .invalid, price := priceInvalid,
        execQuantity := quantityInvalid, leavesQuantity := quantityInvalid }
  else
    let o ← onLadder (Ladder.readOrder exchangeOrder)
    removeOrder exchangeOrder
    sendMarketUpdate
      { type := .cancel, orderId := o.key.marketOrderId, tickerId := tickerId,
        side := o.side, price := o.price, quantity := 0,
        priority := o.priority }
    sendClientResponse
      { type := .cancelled, clientId := clientId, tickerId := tickerId,
        clientOrderId := orderId, marketOrderId := o.key.marketOrderId,
        side := o.side, price := o.price, execQuantity := quantityInvalid,
        leavesQuantity := o.quantity }

/-- One request on its book: the `switch` of
`MatchingEngine::processClientRequest`. -/
def processClientRequest (request : MatchingEngineClientRequest) :
    Member Unit :=
  match request.type with
  | .new => add request.clientId request.orderId request.tickerId request.side
      request.price request.quantity
  | .cancel => cancel request.clientId request.orderId request.tickerId
  | _ => throw .invalidRequestType

/-- `toString`. -/
def toString (detailed validityCheck : Bool) :
    Member (List PrintedLevel × List PrintedLevel) :=
  onLadder (Ladder.toString OrderIds.marketOrderId detailed validityCheck)

end MatchingEngineOrderBook

end ElectronicTrading
