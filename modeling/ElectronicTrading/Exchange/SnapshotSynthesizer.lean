/-
exchange/market_data/SnapshotSynthesizer.{hpp,cc}: the live orders of all
tickers, kept by the numbered market updates, and published from time to
time as a snapshot.

A stored order is a copy of the update that added it, its quantity and
price kept up to date. `publishSnapshot` writes what the socket is given,
in order; a snapshot's own sequence numbers start at 0.
-/
import ElectronicTrading.Common.Mempool
import ElectronicTrading.Exchange.Messages

namespace ElectronicTrading

/-- `ticker_orders` is indexed by ticker, then market order id. -/
structure SnapshotSynthesizer where
  tickerOrders : TickerID → OrderID → Option Ptr
  lastIncrementSequenceNumber : Nat
  orderPool : MemPool MatchingEngineMarketUpdate

namespace SnapshotSynthesizer

def new : SnapshotSynthesizer where
  tickerOrders := fun _ _ => none
  lastIncrementSequenceNumber := 0
  orderPool := .new matchingEngineMaxOrderIds {}

abbrev Member (α : Type) := Prog SnapshotSynthesizer α

def onOrderPool {α : Type} (x : Prog (MemPool MatchingEngineMarketUpdate) α) :
    Member α :=
  Exec.zoom (·.orderPool) (fun m s => { s with orderPool := m }) x

/-- `orders->at(order_id)`, with `orders` a ticker's array. -/
def orderAt (tickerId : TickerID) (orderId : OrderID) :
    Member (Option Ptr) := do
  assert (decide (orderId.toNat < matchingEngineMaxOrderIds)) .outOfRange
  return (← get).tickerOrders tickerId orderId

/-- `orders->at(order_id) = order`. -/
def setOrderAt (tickerId : TickerID) (orderId : OrderID)
    (order : Option Ptr) : Member Unit :=
  modify fun s => { s with tickerOrders := fun t o =>
    if t = tickerId ∧ o = orderId then order else s.tickerOrders t o }

/-- The ADD case. -/
def onAdd (update : MatchingEngineMarketUpdate) : Member Unit := do
  let order ← orderAt update.tickerId update.orderId
  assert (decide (order = none)) .snapshotAddExisting
  let order ← onOrderPool (MemPool.allocate update)
  setOrderAt update.tickerId update.orderId (some order)

/-- The ASSERTs that MODIFY and CANCEL begin with. -/
def existingOrder (update : MatchingEngineMarketUpdate) : Member Ptr := do
  match ← orderAt update.tickerId update.orderId with
  | none => throw .snapshotMissing
  | some order =>
      let stored := (← get).orderPool.deref order
      assert (decide (stored.orderId = update.orderId)) .snapshotMismatch
      assert (decide (stored.side = update.side)) .snapshotMismatch
      return order

/-- The MODIFY case. -/
def onModify (update : MatchingEngineMarketUpdate) : Member Unit := do
  let order ← existingOrder update
  modify fun s =>
    { s with
      orderPool := s.orderPool.modify order fun stored =>
        { stored with quantity := update.quantity, price := update.price } }

/-- The CANCEL case. -/
def onCancel (update : MatchingEngineMarketUpdate) : Member Unit := do
  let order ← existingOrder update
  onOrderPool (MemPool.deallocate order)
  setOrderAt update.tickerId update.orderId none

/-- The `switch` of `addToSnapshot`. -/
def dispatch (update : MatchingEngineMarketUpdate) : Member Unit :=
  match update.type with
  | .add => onAdd update
  | .modify => onModify update
  | .cancel => onCancel update
  | .snapshotStart | .clear | .snapshotEnd | .trade | .invalid => return

/-- `addToSnapshot`. -/
def addToSnapshot (marketUpdate : MDPMarketUpdate) : Member Unit := do
  let update := marketUpdate.meMarketUpdate
  assert (decide (update.tickerId.toNat < matchingEngineMaxTickers))
    .outOfRange
  dispatch update
  assert (decide (marketUpdate.sequenceNumber
    = (← get).lastIncrementSequenceNumber + 1)) .snapshotSequence
  modify fun s => { s with
    lastIncrementSequenceNumber := marketUpdate.sequenceNumber }

-- ========================================================= publishSnapshot

def tickerIds : List TickerID :=
  (List.range matchingEngineMaxTickers).map UInt32.ofNat

/-- The inner loop: the orders of a ticker. -/
def ordersOf (s : SnapshotSynthesizer) (tickerId : TickerID) :
    List MatchingEngineMarketUpdate :=
  orderIds.filterMap fun orderId =>
    (s.tickerOrders tickerId orderId).map s.orderPool.deref

/-- The outer loop: a CLEAR for each ticker, then its orders. -/
def payload (s : SnapshotSynthesizer) : List MatchingEngineMarketUpdate :=
  tickerIds.flatMap fun tickerId =>
    { type := .clear, tickerId := tickerId } :: s.ordersOf tickerId

/-- The first and the last message; `order_id` is the number of the last
update in the snapshot. -/
def delimiter (s : SnapshotSynthesizer) (type : MarketUpdateType) :
    MatchingEngineMarketUpdate where
  type := type
  orderId := UInt64.ofNat s.lastIncrementSequenceNumber

/-- Updates under the numbers from `snapshot_size` on. -/
def numbered (snapshotSize : Nat) (updates : List MatchingEngineMarketUpdate) :
    List MDPMarketUpdate :=
  updates.mapIdx fun i update => ⟨snapshotSize + i, update⟩

/-- `publishSnapshot`: what is sent. -/
def publishSnapshot (s : SnapshotSynthesizer) : List MDPMarketUpdate :=
  numbered 0 (s.delimiter .snapshotStart
    :: (s.payload ++ [s.delimiter .snapshotEnd]))

end SnapshotSynthesizer

end ElectronicTrading
