/-
The price ladder: the memory and the pointer code that
exchange/matching/OrderBook.hpp and trading/strategy/MarketOrderBook.hpp
both contain, line for line.

Each side of a book is a ring of price levels, best first, and each
level heads a ring of orders, oldest first. A table of 256 slots maps a
price, modulo 256, to its level; both sides share it. Levels and orders
live in two memory pools, so a pointer here is a block index and a
dangling pointer reads whatever the block holds now.

The two classes differ in what identifies an order (the client's and
the exchange's ids there, the market order id here) and in the index
they keep over those ids. `Ladder K` is therefore generic in the
identifier `K`, and `addOrder`/`unlinkOrder` stop short of the index:
each class's own `addOrder` and `removeOrder` add that part.

A statement `p->field = v` is `setField p v` here; reading or writing
through null is a fault. The functions read every field again where the
source does, since two pointers may be one.
-/
import ElectronicTrading.Common.Mempool

namespace ElectronicTrading

-- =============================================================== memory

/-- `MatchingEngineOrder` and `MarketOrder`: the identifiers are
`key`. -/
structure Order (K : Type) where
  key : K
  side : Side
  price : Price
  quantity : Quantity
  priority : Priority
  prevOrder : Option Ptr
  nextOrder : Option Ptr

/-- `MatchingEngineOrderAtPrice` and `MarketOrdersAtPrice`. -/
structure OrdersAtPrice where
  side : Side
  price : Price
  firstOrder : Option Ptr
  prevEntry : Option Ptr
  nextEntry : Option Ptr

/-- A default-constructed level. -/
def OrdersAtPrice.default : OrdersAtPrice where
  side := .invalid
  price := priceInvalid
  firstOrder := none
  prevEntry := none
  nextEntry := none

/-- The members of a book that hold its levels and orders. -/
structure Ladder (K : Type) where
  ordersAtPricePool : MemPool OrdersAtPrice
  bidsByPrice : Option Ptr
  asksByPrice : Option Ptr
  priceOrdersAtPrice : Fin matchingEngineMaxPriceLevels → Option Ptr
  orderPool : MemPool (Order K)

/-- `priceToIndex`: the price as a `size_t`, modulo 256. -/
def priceToIndex (price : Price) : Fin matchingEngineMaxPriceLevels :=
  ⟨(price % 256).toNat, by
    have h0 := Int.emod_nonneg price (b := 256) (by decide)
    have h1 := Int.emod_lt_of_pos price (b := 256) (by decide)
    unfold matchingEngineMaxPriceLevels
    omega⟩

/-- `(new->side == SELL && new->price > target->price) ||
(new->side == BUY && new->price < target->price)`. -/
def addAfter (newOrdersAtPrice target : OrdersAtPrice) : Bool :=
  (newOrdersAtPrice.side == .sell
      && decide (newOrdersAtPrice.price > target.price))
    || (newOrdersAtPrice.side == .buy
      && decide (newOrdersAtPrice.price < target.price))

namespace Order

variable {K : Type}

def setNext (v : Option Ptr) (o : Order K) : Order K := { o with nextOrder := v }
def setPrev (v : Option Ptr) (o : Order K) : Order K := { o with prevOrder := v }
def setQuantity (q : Quantity) (o : Order K) : Order K := { o with quantity := q }

end Order

namespace OrdersAtPrice

def setNext (v : Option Ptr) (l : OrdersAtPrice) : OrdersAtPrice :=
  { l with nextEntry := v }
def setPrev (v : Option Ptr) (l : OrdersAtPrice) : OrdersAtPrice :=
  { l with prevEntry := v }
def setFirst (v : Option Ptr) (l : OrdersAtPrice) : OrdersAtPrice :=
  { l with firstOrder := v }

end OrdersAtPrice

namespace Ladder

variable {K : Type}

/-- The members as the constructors leave them: two empty pools, no
level, and (as both classes assume of their tables) null slots. -/
def new (order : Order K) : Ladder K where
  ordersAtPricePool := .new matchingEngineMaxPriceLevels .default
  bidsByPrice := none
  asksByPrice := none
  priceOrdersAtPrice := fun _ => none
  orderPool := .new matchingEngineMaxOrderIds order

-- ------------------------------------------------------------ reading it

/-- `*p` for an order pointer. -/
def order (s : Ladder K) (p : Ptr) : Order K := s.orderPool.deref p

/-- `*p` for a level pointer. -/
def level (s : Ladder K) (p : Ptr) : OrdersAtPrice :=
  s.ordersAtPricePool.deref p

/-- `bids_by_price` and `asks_by_price`, as the conditional
`side == Side::BUY ? bids_by_price : asks_by_price` picks them. -/
def best (s : Ladder K) : Bool → Option Ptr
  | true => s.bidsByPrice
  | false => s.asksByPrice

/-- `getOrdersAtPrice`. -/
def getOrdersAtPrice (s : Ladder K) (price : Price) : Option Ptr :=
  s.priceOrdersAtPrice (priceToIndex price)

-- ------------------------------------------------------------ writing it

def putOrder (s : Ladder K) (p : Ptr) (f : Order K → Order K) : Ladder K :=
  { s with orderPool := s.orderPool.modify p f }

def putLevel (s : Ladder K) (p : Ptr) (f : OrdersAtPrice → OrdersAtPrice) :
    Ladder K :=
  { s with ordersAtPricePool := s.ordersAtPricePool.modify p f }

def putBest (s : Ladder K) (v : Option Ptr) : Bool → Ladder K
  | true => { s with bidsByPrice := v }
  | false => { s with asksByPrice := v }

def putSlot (s : Ladder K) (i : Fin matchingEngineMaxPriceLevels)
    (v : Option Ptr) : Ladder K :=
  { s with priceOrdersAtPrice :=
      fun j => if j = i then v else s.priceOrdersAtPrice j }

-- ============================================================ statements

def readOrder : Option Ptr → Prog (Ladder K) (Order K)
  | none => throw .nullDereference
  | some p => do return (← get).order p

def readLevel : Option Ptr → Prog (Ladder K) OrdersAtPrice
  | none => throw .nullDereference
  | some p => do return (← get).level p

def writeOrder (f : Order K → Order K) : Option Ptr → Prog (Ladder K) Unit
  | none => throw .nullDereference
  | some p => modify fun s => s.putOrder p f

def writeLevel (f : OrdersAtPrice → OrdersAtPrice) :
    Option Ptr → Prog (Ladder K) Unit
  | none => throw .nullDereference
  | some p => modify fun s => s.putLevel p f

def setNextOrder (p v : Option Ptr) : Prog (Ladder K) Unit :=
  writeOrder (.setNext v) p
def setPrevOrder (p v : Option Ptr) : Prog (Ladder K) Unit :=
  writeOrder (.setPrev v) p
def setNextEntry (p v : Option Ptr) : Prog (Ladder K) Unit :=
  writeLevel (.setNext v) p
def setPrevEntry (p v : Option Ptr) : Prog (Ladder K) Unit :=
  writeLevel (.setPrev v) p
def setFirstOrder (p v : Option Ptr) : Prog (Ladder K) Unit :=
  writeLevel (.setFirst v) p

/-- `(side == Side::BUY ? bids_by_price : asks_by_price) = v`. -/
def setBest (isBuy : Bool) (v : Option Ptr) : Prog (Ladder K) Unit :=
  modify fun s => s.putBest v isBuy

/-- `price_orders_at_price.at(priceToIndex(price)) = v`. -/
def setOrdersAtPrice (price : Price) (v : Option Ptr) :
    Prog (Ladder K) Unit :=
  modify fun s => s.putSlot (priceToIndex price) v

def onOrderPool {α : Type} (x : Prog (MemPool (Order K)) α) :
    Prog (Ladder K) α :=
  Exec.zoom (·.orderPool) (fun m s => { s with orderPool := m }) x

def onLevelPool {α : Type} (x : Prog (MemPool OrdersAtPrice) α) :
    Prog (Ladder K) α :=
  Exec.zoom (·.ordersAtPricePool)
    (fun m s => { s with ordersAtPricePool := m }) x

/-- `order_pool.allocate(...)`. -/
def allocateOrder (order : Order K) : Prog (Ladder K) (Option Ptr) := do
  return some (← onOrderPool (MemPool.allocate order))

/-- `orders_at_price_pool.allocate(...)`. -/
def allocateLevel (level : OrdersAtPrice) : Prog (Ladder K) (Option Ptr) := do
  return some (← onLevelPool (MemPool.allocate level))

/-- `order_pool.deallocate(p)`; null is no element of the pool. -/
def deallocateOrder : Option Ptr → Prog (Ladder K) Unit
  | none => throw .foreignElement
  | some p => onOrderPool (MemPool.deallocate p)

/-- `orders_at_price_pool.deallocate(p)`. -/
def deallocateLevel : Option Ptr → Prog (Ladder K) Unit
  | none => throw .foreignElement
  | some p => onLevelPool (MemPool.deallocate p)

-- ========================================================= the functions

/-- `removeOrderAtPrice`. -/
def removeOrderAtPrice (side : Side) (price : Price) :
    Prog (Ladder K) Unit := do
  let bestOrdersByPrice := (← get).best (side == .buy)
  let ordersAtPrice := (← get).getOrdersAtPrice price
  if (← readLevel ordersAtPrice).nextEntry = ordersAtPrice then
    setBest (side == .buy) none
  else
    setNextEntry (← readLevel ordersAtPrice).prevEntry
      (← readLevel ordersAtPrice).nextEntry
    setPrevEntry (← readLevel ordersAtPrice).nextEntry
      (← readLevel ordersAtPrice).prevEntry
    if ordersAtPrice = bestOrdersByPrice then
      setBest (side == .buy) (← readLevel ordersAtPrice).nextEntry
    setNextEntry ordersAtPrice none
    setPrevEntry ordersAtPrice none
  setOrdersAtPrice price none
  deallocateLevel ordersAtPrice

/-- `removeOrder`, up to the reset of the class's index and the release
of the order. -/
def unlinkOrder (order : Option Ptr) : Prog (Ladder K) Unit := do
  let o ← readOrder order
  let orderAtPrice := (← get).getOrdersAtPrice o.price
  if o.prevOrder = order then
    removeOrderAtPrice o.side o.price
  else
    let orderBefore := o.prevOrder
    let orderAfter := o.nextOrder
    setNextOrder orderBefore orderAfter
    setPrevOrder orderAfter orderBefore
    if (← readLevel orderAtPrice).firstOrder = order then
      setFirstOrder orderAtPrice orderAfter
    setNextOrder order none
    setPrevOrder order none

/-- The `while (add_after && target != best_order_by_price)` loop of
`addOrderAtPrice`. Each round but the last moves `target` one level on,
so a walk of more rounds than there are levels never ends. -/
def seekTarget (newOrdersAtPrice : OrdersAtPrice)
    (bestOrderByPrice : Option Ptr) :
    Nat → Option Ptr → Bool → Prog (Ladder K) (Option Ptr × Bool)
  | 0, _, _ => throw .endlessLoop
  | fuel + 1, target, after =>
      if after && target != bestOrderByPrice then do
        if addAfter newOrdersAtPrice (← readLevel target) then
          seekTarget newOrdersAtPrice bestOrderByPrice fuel
            (← readLevel target).nextEntry true
        else
          seekTarget newOrdersAtPrice bestOrderByPrice fuel target false
      else
        return (target, after)

/-- The choice of `target` and `add_after` in `addOrderAtPrice`: the
best level first, then the one after it, then the loop. -/
def findTarget (newOrdersAtPrice : OrdersAtPrice)
    (bestOrderByPrice : Option Ptr) :
    Prog (Ladder K) (Option Ptr × Bool) := do
  let fuel := (← get).ordersAtPricePool.size + 1
  let target := bestOrderByPrice
  if addAfter newOrdersAtPrice (← readLevel target) then
    let target := (← readLevel target).nextEntry
    seekTarget newOrdersAtPrice bestOrderByPrice fuel target
      (addAfter newOrdersAtPrice (← readLevel target))
  else
    seekTarget newOrdersAtPrice bestOrderByPrice fuel target false

/-- `addOrderAtPrice`. -/
def addOrderAtPrice (newOrdersAtPrice : Option Ptr) :
    Prog (Ladder K) Unit := do
  let entry ← readLevel newOrdersAtPrice
  setOrdersAtPrice entry.price newOrdersAtPrice
  let bestOrderByPrice := (← get).best (entry.side == .buy)
  if bestOrderByPrice = none then
    setBest (entry.side == .buy) newOrdersAtPrice
    setNextEntry newOrdersAtPrice newOrdersAtPrice
    setPrevEntry newOrdersAtPrice newOrdersAtPrice
  else
    let (target, after) ← findTarget entry bestOrderByPrice
    if after then
      let target := (← readLevel bestOrderByPrice).prevEntry
      setPrevEntry newOrdersAtPrice target
      setPrevEntry (← readLevel target).nextEntry newOrdersAtPrice
      setNextEntry newOrdersAtPrice (← readLevel target).nextEntry
      setNextEntry target newOrdersAtPrice
    else
      setPrevEntry newOrdersAtPrice (← readLevel target).prevEntry
      setNextEntry newOrdersAtPrice target
      setNextEntry (← readLevel target).prevEntry newOrdersAtPrice
      setPrevEntry target newOrdersAtPrice
      let bestEntry ← readLevel bestOrderByPrice
      if (entry.side == .buy && decide (entry.price > bestEntry.price))
          || (entry.side == .sell && decide (entry.price < bestEntry.price))
      then
        let nextEntry := (← readLevel target).nextEntry
        setNextEntry target
          (if nextEntry = bestOrderByPrice then newOrdersAtPrice
            else nextEntry)
        setBest (entry.side == .buy) newOrdersAtPrice

/-- `addOrder`, up to the write of the class's index. -/
def linkOrder (order : Option Ptr) : Prog (Ladder K) Unit := do
  let o ← readOrder order
  let ordersAtPrice := (← get).getOrdersAtPrice o.price
  if ordersAtPrice = none then
    setPrevOrder order order
    setNextOrder order order
    let newOrdersAtPrice ← allocateLevel
      { side := o.side, price := o.price, firstOrder := order,
        prevEntry := none, nextEntry := none }
    addOrderAtPrice newOrdersAtPrice
  else
    let firstOrder := (← readLevel ordersAtPrice).firstOrder
    setNextOrder (← readOrder firstOrder).prevOrder order
    setPrevOrder order (← readOrder firstOrder).prevOrder
    setNextOrder order firstOrder
    setPrevOrder firstOrder order

end Ladder

end ElectronicTrading
