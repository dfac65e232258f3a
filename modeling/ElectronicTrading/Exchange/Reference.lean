/-
The matching engine's book as a price-time-priority book: what a NEW
order does to the lists of resting orders and which messages announce
it.

This is the statement of purpose that `add` is compared with, on the
lists of PriceTime.lean; only the fields of the messages are the
source's. The arithmetic is the source's too, on machine integers.
-/
import ElectronicTrading.Common.PriceTime
import ElectronicTrading.Exchange.OrderBook

namespace ElectronicTrading

namespace Reference

open PriceTime

/-- The resting orders of the bids (`true`) and of the asks. -/
abbrev Book := Bool → List (Resting OrderIds)

/-- A NEW order, with the market order id it is given. -/
structure Incoming where
  ids : OrderIds
  isBuy : Bool
  price : Price
  quantity : Quantity

/-- The response that accepts an order, as `add` fills it in: the client's
id and the ticker's in each other's place. -/
def acceptance (ids : OrderIds) (side : Side) (price : Price)
    (quantity : Quantity) : MatchingEngineClientResponse where
  type := .accepted
  clientId := ids.tickerId
  tickerId := ids.clientId
  clientOrderId := ids.clientOrderId
  marketOrderId := ids.marketOrderId
  side := side
  price := price
  execQuantity := 0
  leavesQuantity := quantity

namespace Incoming

/-- The response that accepts the order. -/
def accepted (i : Incoming) : MatchingEngineClientResponse :=
  acceptance i.ids (sideOf i.isBuy) i.price i.quantity

/-- The aggressor's fill response; `leaves` is what it has left. -/
def filled (i : Incoming) (t : Trade OrderIds) (leaves : Quantity) :
    MatchingEngineClientResponse where
  type := .filled
  clientId := i.ids.clientId
  tickerId := i.ids.tickerId
  clientOrderId := i.ids.clientOrderId
  marketOrderId := i.ids.marketOrderId
  side := sideOf i.isBuy
  price := t.resting.price
  execQuantity := t.quantity
  leavesQuantity := leaves

/-- The resting owner's fill response. -/
def restingFilled (i : Incoming) (t : Trade OrderIds) :
    MatchingEngineClientResponse where
  type := .filled
  clientId := t.resting.key.clientId
  tickerId := i.ids.tickerId
  clientOrderId := t.resting.key.clientOrderId
  marketOrderId := t.resting.key.marketOrderId
  side := t.resting.side
  price := t.resting.price
  execQuantity := t.quantity
  leavesQuantity := t.resting.quantity - t.quantity

/-- The public update of a fill: the resting order is gone, or has a new
quantity. -/
def fillUpdate (i : Incoming) (t : Trade OrderIds) :
    MatchingEngineMarketUpdate :=
  if t.resting.quantity - t.quantity = 0 then
    { type := .cancel, orderId := t.resting.key.marketOrderId,
      tickerId := i.ids.tickerId, side := t.resting.side,
      price := t.resting.price, quantity := t.resting.quantity,
      priority := priorityInvalid }
  else
    { type := .modify, orderId := t.resting.key.marketOrderId,
      tickerId := i.ids.tickerId, side := t.resting.side,
      price := t.resting.price,
      quantity := t.resting.quantity - t.quantity,
      priority := t.resting.priority }

/-- The messages of one fill. -/
def fillMessages (i : Incoming) (leaves : Quantity) (t : Trade OrderIds) :
    List Sent :=
  [.response (i.filled t leaves), .response (i.restingFilled t),
    .update (i.fillUpdate t)]

/-- The messages of all fills; `leaves` is what there is before them. -/
def sweepMessages (i : Incoming) :
    Quantity → List (Trade OrderIds) → List Sent
  | _, [] => []
  | leaves, t :: ts =>
      i.fillMessages (leaves - t.quantity) t
        ++ sweepMessages i (leaves - t.quantity) ts

/-- How the order trades. -/
def swept (i : Incoming) (book : Book) : Sweep OrderIds :=
  sweep i.isBuy i.price i.quantity (book !i.isBuy)

/-- The book once the order has traded. -/
def sweptBook (i : Incoming) (book : Book) : Book := fun b =>
  if b = i.isBuy then book b else (i.swept book).rest

/-- What of the order comes to rest. -/
def remainder (i : Incoming) (book : Book) : Resting OrderIds where
  key := i.ids
  side := sideOf i.isBuy
  price := i.price
  quantity := (i.swept book).left
  priority := nextPriority (book i.isBuy) i.price

/-- The public update of an order that comes to rest. -/
def addUpdate (i : Incoming) (r : Resting OrderIds) :
    MatchingEngineMarketUpdate where
  type := .add
  orderId := r.key.marketOrderId
  tickerId := i.ids.tickerId
  side := r.side
  price := r.price
  quantity := r.quantity
  priority := r.priority

/-- The book after the order. -/
def apply (i : Incoming) (book : Book) : Book := fun b =>
  if b = i.isBuy ∧ (i.swept book).left ≠ 0 then
    place b (i.remainder book) (book b)
  else i.sweptBook book b

section Sides

variable {i : Incoming} {book : Book}

theorem not_isBuy_ne (i : Incoming) : (!i.isBuy) ≠ i.isBuy := by
  cases i.isBuy <;> decide

theorem sweptBook_own : i.sweptBook book i.isBuy = book i.isBuy := if_pos rfl

theorem sweptBook_opposite :
    i.sweptBook book (!i.isBuy) = (i.swept book).rest := if_neg i.not_isBuy_ne

/-- An order that trades in full does not change its own side. -/
theorem apply_spent (hleft : (i.swept book).left = 0) :
    i.apply book = i.sweptBook book := by
  funext b
  exact if_neg fun h => h.2 hleft

/-- What is left of an order takes its place on its own side. -/
theorem apply_own (hleft : (i.swept book).left ≠ 0) :
    i.apply book i.isBuy = place i.isBuy (i.remainder book) (book i.isBuy) :=
  if_pos ⟨rfl, hleft⟩

theorem apply_opposite : i.apply book (!i.isBuy) = (i.swept book).rest :=
  (if_neg fun h => i.not_isBuy_ne h.1).trans sweptBook_opposite

end Sides

/-- The messages that announce the order. -/
def messages (i : Incoming) (book : Book) : List Sent :=
  .response i.accepted :: i.sweepMessages i.quantity (i.swept book).trades
    ++ if (i.swept book).left = 0 then []
      else [.update (i.addUpdate (i.remainder book))]

end Incoming

-- ================================================================ cancels

/-- The response to a CANCEL that finds no order. -/
def cancelRejected (clientId : ClientID) (orderId : OrderID)
    (tickerId : TickerID) : MatchingEngineClientResponse where
  type := .cancelRejected
  clientId := clientId
  tickerId := tickerId
  clientOrderId := orderId
  marketOrderId := orderIdInvalid
  side := .invalid
  price := priceInvalid
  execQuantity := quantityInvalid
  leavesQuantity := quantityInvalid

/-- The response to a CANCEL of the order `r`. -/
def cancelled (clientId : ClientID) (orderId : OrderID) (tickerId : TickerID)
    (r : Resting OrderIds) : MatchingEngineClientResponse where
  type := .cancelled
  clientId := clientId
  tickerId := tickerId
  clientOrderId := orderId
  marketOrderId := r.key.marketOrderId
  side := r.side
  price := r.price
  execQuantity := quantityInvalid
  leavesQuantity := r.quantity

/-- The public update of that CANCEL. -/
def cancelUpdate (tickerId : TickerID) (r : Resting OrderIds) :
    MatchingEngineMarketUpdate where
  type := .cancel
  orderId := r.key.marketOrderId
  tickerId := tickerId
  side := r.side
  price := r.price
  quantity := 0
  priority := r.priority

-- ============================================================== conditions

/-- The prices that share the slot of `price` are `price`. -/
def SlotFree (book : Book) (price : Price) : Prop :=
  ∀ b, ∀ r ∈ book b, priceToIndex r.price = priceToIndex price →
    r.price = price

end Reference

end ElectronicTrading
