/-
trading/strategy/MarketOrderBook.{hpp,cc}: the trading side's copy of
the book of one ticker, kept by the public market updates.

`onMarketUpdate` ends by calling back into the trade engine. The call is
the last thing it does, so it is its return value here (`Notice`); the
engine reads the book and does not change it.
-/
import ElectronicTrading.Common.BookPrinter
import ElectronicTrading.Exchange.Messages

namespace ElectronicTrading

/-- A default-constructed `MarketOrder`. -/
def marketOrderDefault : Order OrderID where
  key := orderIdInvalid
  side := .invalid
  price := priceInvalid
  quantity := quantityInvalid
  priority := priorityInvalid
  prevOrder := none
  nextOrder := none

/-- `BBO`: the best prices and the quantities there. -/
structure BBO where
  bestBidPrice : Price := priceInvalid
  bestAskPrice : Price := priceInvalid
  bestBidQuantity : Quantity := quantityInvalid
  bestAskQuantity : Quantity := quantityInvalid
deriving DecidableEq, Repr

/-- Set one side of the BBO. -/
def BBO.put (bbo : BBO) (isBuy : Bool) (price : Price) (quantity : Quantity) :
    BBO :=
  if isBuy then
    { bbo with bestBidPrice := price, bestBidQuantity := quantity }
  else
    { bbo with bestAskPrice := price, bestAskQuantity := quantity }

/-- One side of the BBO. -/
def BBO.top (bbo : BBO) (isBuy : Bool) : Price × Quantity :=
  if isBuy then (bbo.bestBidPrice, bbo.bestBidQuantity)
  else (bbo.bestAskPrice, bbo.bestAskQuantity)

/-- The trade engine's callbacks, with their arguments but for the
book. -/
inductive Notice where
  | onTradeUpdate (marketUpdate : MatchingEngineMarketUpdate)
  | onOrderBookUpdate (tickerId : TickerID) (price : Price) (side : Side)
deriving DecidableEq, Repr

structure MarketOrderBook where
  oidToOrder : OrderID → Option Ptr
  ladder : Ladder OrderID
  bbo : BBO

namespace MarketOrderBook

/-- `MarketOrderBook(...)`, with the pointer arrays null. -/
def new : MarketOrderBook where
  oidToOrder := fun _ => none
  ladder := .new marketOrderDefault
  bbo := {}

abbrev Member (α : Type) := Prog MarketOrderBook α

def onLadder {α : Type} (x : Prog (Ladder OrderID) α) : Member α :=
  Exec.zoom (·.ladder) (fun l s => { s with ladder := l }) x

/-- `oid_to_order.at(order_id)`. -/
def getOrder (orderId : OrderID) : Member (Option Ptr) := do
  assert (decide (orderId.toNat < matchingEngineMaxOrderIds)) .outOfRange
  return (← get).oidToOrder orderId

/-- `oid_to_order.at(order_id) = order`. -/
def setOrder (orderId : OrderID) (order : Option Ptr) : Member Unit := do
  assert (decide (orderId.toNat < matchingEngineMaxOrderIds)) .outOfRange
  modify fun s => { s with oidToOrder := fun id =>
    if id = orderId then order else s.oidToOrder id }

/-- `addOrder`. -/
def addOrder (order : Option Ptr) : Member Unit := do
  onLadder (Ladder.linkOrder order)
  setOrder (← onLadder (Ladder.readOrder order)).key order

/-- `removeOrder`. -/
def removeOrder (order : Option Ptr) : Member Unit := do
  onLadder (Ladder.unlinkOrder order)
  setOrder (← onLadder (Ladder.readOrder order)).key none
  onLadder (Ladder.deallocateOrder order)

-- ================================================================= the BBO

/-- `bid_updated` (`isBuy`) and `ask_updated`: the update is at the best
price of its side or better. -/
def isUpdated (isBuy : Bool) (marketUpdate : MatchingEngineMarketUpdate) :
    Prog (Ladder OrderID) Bool := do
  let best := (← get).best isBuy
  if best = none then return false
  let price := (← Ladder.readLevel best).price
  if isBuy then
    return marketUpdate.side == .buy && decide (marketUpdate.price ≥ price)
  else
    return marketUpdate.side == .sell && decide (marketUpdate.price ≤ price)

/-- The loop of `updateBBO`: adds the quantities from `order` on until it
is back at `first`. A walk of more orders than the pool has never
ends. -/
def sumQuantity (first : Option Ptr) :
    Nat → Option Ptr → Quantity → Prog (Ladder OrderID) Quantity
  | 0, _, _ => throw .endlessLoop
  | fuel + 1, order, quantity => do
      if order = first then return quantity
      let o ← Ladder.readOrder order
      sumQuantity first fuel o.nextOrder (quantity + o.quantity)

/-- The price and quantity of a side's best level, if there is one. -/
def topOfBook (isBuy : Bool) : Prog (Ladder OrderID) (Price × Quantity) := do
  let best := (← get).best isBuy
  if best = none then return (priceInvalid, quantityInvalid)
  let level ← Ladder.readLevel best
  let fuel := (← get).orderPool.size + 1
  let o ← Ladder.readOrder level.firstOrder
  let quantity ← sumQuantity level.firstOrder fuel o.nextOrder o.quantity
  return (level.price, quantity)

/-- One half of `updateBBO`. -/
def updateBest (isBuy updated : Bool) : Member Unit := do
  if updated then
    let (price, quantity) ← onLadder (topOfBook isBuy)
    modify fun s => { s with bbo := s.bbo.put isBuy price quantity }

/-- `updateBBO`. -/
def updateBBO (bidUpdated askUpdated : Bool) : Member Unit := do
  updateBest true bidUpdated
  updateBest false askUpdated

-- ==================================================================== CLEAR

/-- The loop over `oid_to_order` of a CLEAR. -/
def deallocateOrders : List OrderID → Member Unit
  | [] => return
  | orderId :: ids => do
      let order := (← get).oidToOrder orderId
      if order ≠ none then onLadder (Ladder.deallocateOrder order)
      deallocateOrders ids

/-- The loop over a side's levels of a CLEAR, from `level` on until it is
back at the best one. It reads a level's link after releasing it. Each
round releases a level in use, so there are at most as many rounds as
levels. -/
def deallocateLevels (isBuy : Bool) :
    Nat → Option Ptr → Prog (Ladder OrderID) Unit
  | 0, _ => throw .endlessLoop
  | fuel + 1, level => do
      if level = (← get).best isBuy then return
      Ladder.deallocateLevel level
      deallocateLevels isBuy fuel (← Ladder.readLevel level).nextEntry

/-- One side's levels of a CLEAR. -/
def clearLevels (isBuy : Bool) : Prog (Ladder OrderID) Unit := do
  let best := (← get).best isBuy
  if best ≠ none then
    let fuel := (← get).ordersAtPricePool.size + 1
    deallocateLevels isBuy fuel (← Ladder.readLevel best).nextEntry
    Ladder.deallocateLevel ((← get).best isBuy)

/-- The CLEAR case of `onMarketUpdate`. -/
def clear : Member Unit := do
  deallocateOrders orderIds
  modify fun s => { s with oidToOrder := fun _ => none }
  onLadder (clearLevels true)
  onLadder (clearLevels false)
  onLadder (Ladder.setBest true none)
  onLadder (Ladder.setBest false none)

-- =========================================================== onMarketUpdate

/-- The ADD case. -/
def onAdd (marketUpdate : MatchingEngineMarketUpdate) : Member Unit := do
  let existing ← getOrder marketUpdate.orderId
  assert (decide (existing = none)) .addExistingOrder
  let order ← onLadder (Ladder.allocateOrder
    { key := marketUpdate.orderId, side := marketUpdate.side,
      price := marketUpdate.price, quantity := marketUpdate.quantity,
      priority := marketUpdate.priority, prevOrder := none,
      nextOrder := none })
  addOrder order

/-- The MODIFY case. -/
def onModify (marketUpdate : MatchingEngineMarketUpdate) : Member Unit := do
  let order ← getOrder marketUpdate.orderId
  assert (decide (order ≠ none)) .modifyMissingOrder
  onLadder (Ladder.writeOrder (.setQuantity marketUpdate.quantity) order)

/-- The CANCEL case. -/
def onCancel (marketUpdate : MatchingEngineMarketUpdate) : Member Unit := do
  let order ← getOrder marketUpdate.orderId
  assert (decide (order ≠ none)) .cancelMissingOrder
  removeOrder order

/-- The `switch` of `onMarketUpdate`, but for TRADE. -/
def dispatch (marketUpdate : MatchingEngineMarketUpdate) : Member Unit :=
  match marketUpdate.type with
  | .add => onAdd marketUpdate
  | .modify => onModify marketUpdate
  | .cancel => onCancel marketUpdate
  | .clear => clear
  | .trade | .invalid | .snapshotStart | .snapshotEnd => return

/-- `onMarketUpdate`. -/
def onMarketUpdate (marketUpdate : MatchingEngineMarketUpdate) :
    Member Notice := do
  let bidUpdated ← onLadder (isUpdated true marketUpdate)
  let askUpdated ← onLadder (isUpdated false marketUpdate)
  if marketUpdate.type = .trade then
    return .onTradeUpdate marketUpdate
  else
    dispatch marketUpdate
    updateBBO bidUpdated askUpdated
    return .onOrderBookUpdate marketUpdate.tickerId marketUpdate.price
      marketUpdate.side

/-- `toString`. -/
def toString (detailed validityCheck : Bool) :
    Member (List PrintedLevel × List PrintedLevel) :=
  onLadder (Ladder.toString id detailed validityCheck)

/-- The updates in order, as `TradeEngine::run` hands them on. -/
def onMarketUpdates : List MatchingEngineMarketUpdate → Member Unit
  | [] => return
  | marketUpdate :: rest => do
      let _ ← onMarketUpdate marketUpdate
      onMarketUpdates rest

end MarketOrderBook

end ElectronicTrading
