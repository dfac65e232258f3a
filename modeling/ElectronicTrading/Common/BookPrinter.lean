/-
`toString` of the two books (exchange/matching/OrderBook.cc and
trading/strategy/MarketOrderBook.cc): it prints the levels of both sides
and, when asked to, checks that they are sorted.

The loops, the reads and the check are the source's; what is printed is
kept as the values that fill the format strings. Both destructors call
it with the check switched on.
-/
import ElectronicTrading.Common.PriceLadder

namespace ElectronicTrading

/-- `[oid:% q:% p:% n:%]`. -/
structure PrintedOrder where
  orderId : OrderID
  quantity : Quantity
  prevOrderId : OrderID
  nextOrderId : OrderID
deriving DecidableEq, Repr

/-- `<px:% p:% n:%> % @ %(%)`, then the orders. -/
structure PrintedLevel where
  price : Price
  prevPrice : Price
  nextPrice : Price
  quantity : Quantity
  numOrders : Nat
  orders : List PrintedOrder
deriving DecidableEq, Repr

namespace Ladder

variable {K : Type} (orderId : K → OrderID)

/-- `for(auto o_itr = itr->first_order; ; o_itr = o_itr->next_order)`,
left when the next order is the first. A walk of more orders than the
pool has never ends. -/
def forOrders {α : Type} (body : Order K → α → Prog (Ladder K) α)
    (firstOrder : Option Ptr) : Nat → Option Ptr → α → Prog (Ladder K) α
  | 0, _, _ => throw .endlessLoop
  | fuel + 1, order, a => do
      let o ← readOrder order
      let a ← body o a
      if o.nextOrder = firstOrder then return a
      forOrders body firstOrder fuel o.nextOrder a

/-- `order ? order->order_id : ORDER_ID_INVALID`. -/
def printId : Option Ptr → Prog (Ladder K) OrderID
  | none => return orderIdInvalid
  | some p => do return orderId (← readOrder (some p)).key

/-- What the second loop of `printer` prints of an order. -/
def printOrder (o : Order K) : Prog (Ladder K) PrintedOrder := do
  let prevOrderId ← printId orderId o.prevOrder
  let nextOrderId ← printId orderId o.nextOrder
  return { orderId := orderId o.key, quantity := o.quantity,
           prevOrderId := prevOrderId, nextOrderId := nextOrderId }

/-- `sanity_check`: the FATAL, or else the new `last_price`. -/
def checkSorted (side : Side) (lastPrice price : Price) :
    Prog (Ladder K) Price :=
  if (side = .sell ∧ lastPrice ≥ price) ∨ (side = .buy ∧ lastPrice ≤ price)
  then throw .notSorted
  else return price

/-- The lambda `printer`; it returns `last_price` with what it prints. -/
def printer (detailed sanityCheck : Bool) (itr : Option Ptr) (side : Side)
    (lastPrice : Price) : Prog (Ladder K) (PrintedLevel × Price) := do
  let fuel := (← get).orderPool.size
  let firstOrder := (← readLevel itr).firstOrder
  let (quantity, numOrders) ← forOrders
    (fun o (counted : Quantity × Nat) =>
      return (counted.1 + o.quantity, counted.2 + 1))
    firstOrder fuel firstOrder (0, 0)
  let prevPrice := (← readLevel (← readLevel itr).prevEntry).price
  let nextPrice := (← readLevel (← readLevel itr).nextEntry).price
  let orders ← forOrders
    (fun o (printed : List PrintedOrder) =>
      if detailed then do return printed ++ [← printOrder orderId o]
      else return printed)
    firstOrder fuel firstOrder []
  let price := (← readLevel itr).price
  let printed : PrintedLevel :=
    { price := price, prevPrice := prevPrice, nextPrice := nextPrice,
      quantity := quantity, numOrders := numOrders, orders := orders }
  if sanityCheck then
    return (printed, ← checkSorted side lastPrice price)
  else return (printed, lastPrice)

/-- The loop over one side's levels, from `itr` on. -/
def printLevels (detailed sanityCheck isBuy : Bool) :
    Nat → Option Ptr → Price → List PrintedLevel →
      Prog (Ladder K) (List PrintedLevel)
  | 0, _, _, _ => throw .endlessLoop
  | fuel + 1, itr, lastPrice, printed => do
      if itr = none then return printed
      let next := (← readLevel itr).nextEntry
      let nextItr := if next = (← get).best isBuy then none else next
      let (level, lastPrice) ← printer orderId detailed sanityCheck itr
        (if isBuy then .buy else .sell) lastPrice
      printLevels detailed sanityCheck isBuy fuel nextItr lastPrice
        (printed ++ [level])

/-- `toString`: the asks, then the bids. Both checks start from the
smallest price. -/
def toString (detailed validityCheck : Bool) :
    Prog (Ladder K) (List PrintedLevel × List PrintedLevel) := do
  let fuel := (← get).ordersAtPricePool.size + 1
  let asks ← printLevels orderId detailed validityCheck false fuel
    (← get).asksByPrice priceMin []
  let bids ← printLevels orderId detailed validityCheck true fuel
    (← get).bidsByPrice priceMin []
  return (asks, bids)

end Ladder

end ElectronicTrading
