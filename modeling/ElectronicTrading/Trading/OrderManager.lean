/-
trading/strategy/OMOrder.hpp and OrderManager.{hpp,cc}: one order a
ticker and side, moved to a price by cancelling and sending anew.

An `OMOrder*` points into `ticker_side_orders` and is the pair of its
indices. `requests` is the queue to the order gateway, to which
`TradeEngine::sendClientRequest` writes. The risk manager's verdict is an
argument, `risk`: RiskManager.lean says what it is.
-/
import ElectronicTrading.Exchange.Messages
import ElectronicTrading.Lib.Exec

namespace ElectronicTrading

inductive OMOrderState where
  | invalid
  | pendingNew
  | live
  | pendingCancel
  | dead
deriving DecidableEq, Repr

structure OMOrder where
  tickerId : TickerID := tickerIdInvalid
  orderId : OrderID := orderIdInvalid
  side : Side := .invalid
  price : Price := priceInvalid
  quantity : Quantity := quantityInvalid
  orderState : OMOrderState := .invalid
deriving DecidableEq, Repr

inductive RiskCheckResult where
  | invalid
  | orderLimitExceeded
  | positionLimitExceeded
  | lossLimitExceeded
  | allowed
deriving DecidableEq, Repr

/-- `checkPreTradeRisk`, as a function of its arguments. -/
abbrev PreTradeRisk := TickerID → Side → Quantity → RiskCheckResult

/-- An `OMOrder*`: the ticker's and the side's index. -/
abbrev Slot := TickerID × Nat

structure OrderManager where
  /-- `trade_engine->getClientID()`. -/
  clientId : ClientID
  tickerSideOrders : Slot → OMOrder
  nextOrderId : OrderID
  requests : List MatchingEngineClientRequest

namespace OrderManager

/-- `OrderManager(...)`. -/
def new (clientId : ClientID) : OrderManager where
  clientId := clientId
  tickerSideOrders := fun _ => {}
  nextOrderId := 1
  requests := []

abbrev Member (α : Type) := Prog OrderManager α

/-- `trade_engine->sendClientRequest(request)`. -/
def sendClientRequest (request : MatchingEngineClientRequest) : Member Unit :=
  modify fun s => { s with requests := s.requests ++ [request] }

/-- `&(ticker_side_orders.at(ticker_id).at(sideToIndex(side)))`. -/
def slotAt (tickerId : TickerID) (side : Side) : Member Slot := do
  assert (decide (tickerId.toNat < matchingEngineMaxTickers)
    && decide (sideToIndex side < sideToIndex .max)) .outOfRange
  return (tickerId, sideToIndex side)

/-- `(*order) = f(*order)`. -/
def modifyOrder (order : Slot) (f : OMOrder → OMOrder) : Member Unit :=
  modify fun s =>
    { s with
      tickerSideOrders := fun slot =>
        if slot = order then f (s.tickerSideOrders slot)
        else s.tickerSideOrders slot }

/-- `newOrder`. -/
def newOrder (order : Slot) (tickerId : TickerID) (price : Price)
    (side : Side) (quantity : Quantity) : Member Unit := do
  let s ← get
  sendClientRequest
    { type := .new, clientId := s.clientId, tickerId := tickerId,
      orderId := s.nextOrderId, side := side, price := price,
      quantity := quantity }
  modifyOrder order fun _ =>
    { tickerId := tickerId, orderId := s.nextOrderId, side := side,
      price := price, quantity := quantity, orderState := .pendingNew }
  modify fun s => { s with nextOrderId := s.nextOrderId + 1 }

/-- `cancelOrder`. -/
def cancelOrder (order : Slot) : Member Unit := do
  let s ← get
  let o := s.tickerSideOrders order
  sendClientRequest
    { type := .cancel, clientId := s.clientId, tickerId := o.tickerId,
      orderId := o.orderId, side := o.side, price := o.price,
      quantity := o.quantity }
  modifyOrder order fun o => { o with orderState := .pendingCancel }

/-- `moveOrder`. -/
def moveOrder (risk : PreTradeRisk) (order : Slot) (tickerId : TickerID)
    (price : Price) (side : Side) (quantity : Quantity) : Member Unit := do
  let o := (← get).tickerSideOrders order
  match o.orderState with
  | .live =>
      if o.price ≠ price ∨ o.quantity ≠ quantity then
        cancelOrder order
  | .invalid | .dead =>
      if price ≠ priceInvalid then
        if risk tickerId side quantity = .allowed then
          newOrder order tickerId price side quantity
  | .pendingNew | .pendingCancel => return

/-- `moveOrders`. -/
def moveOrders (risk : PreTradeRisk) (tickerId : TickerID)
    (bidPrice askPrice : Price) (clip : Quantity) : Member Unit := do
  let bidOrder ← slotAt tickerId .buy
  moveOrder risk bidOrder tickerId bidPrice .buy clip
  let askOrder ← slotAt tickerId .sell
  moveOrder risk askOrder tickerId askPrice .sell clip

end OrderManager

/-- The `switch` of `onOrderUpdate`: what a response does to its order. -/
def OMOrder.updated (o : OMOrder)
    (clientResponse : MatchingEngineClientResponse) : OMOrder :=
  match clientResponse.type with
  | .accepted => { o with orderState := .live }
  | .cancelled => { o with orderState := .dead }
  | .filled =>
      let o := { o with quantity := clientResponse.leavesQuantity }
      if o.quantity = 0 then { o with orderState := .dead } else o
  | .cancelRejected | .invalid | .unnamed _ => o

namespace OrderManager

/-- `onOrderUpdate`. -/
def onOrderUpdate (clientResponse : MatchingEngineClientResponse) :
    Member Unit := do
  let order ← slotAt clientResponse.tickerId clientResponse.side
  modifyOrder order (·.updated clientResponse)

-- ============================================================== statements

variable {s : OrderManager}

/-- The manager with another order in a slot. -/
def putOrder (s : OrderManager) (order : Slot) (o : OMOrder) : OrderManager :=
  { s with
    tickerSideOrders := fun slot =>
      if slot = order then o else s.tickerSideOrders slot }

theorem run_modifyOrder (order : Slot) (f : OMOrder → OMOrder) :
    (modifyOrder order f).run s
      = .ok () (s.putOrder order (f (s.tickerSideOrders order))) := by
  have hsame : (fun slot => if slot = order then f (s.tickerSideOrders slot)
      else s.tickerSideOrders slot)
      = fun slot => if slot = order then f (s.tickerSideOrders order)
        else s.tickerSideOrders slot := by
    funext slot
    split
    · next hslot => rw [hslot]
    · rfl
  unfold modifyOrder putOrder
  rw [EStateM.run_modify, hsame]

/-- The slots that are used. -/
theorem run_slotAt {tickerId : TickerID} {side : Side}
    (hside : side = .buy ∨ side = .sell) :
    (slotAt tickerId side).run s
      = if tickerId.toNat < matchingEngineMaxTickers then
          .ok (tickerId, sideToIndex side) s
        else .error .outOfRange s := by
  have hindex : sideToIndex side < sideToIndex .max := by
    rcases hside with rfl | rfl <;> decide
  unfold slotAt
  simp only [EStateM.run_bind, run_assert, hindex, decide_true, Bool.and_true]
  by_cases hticker : tickerId.toNat < matchingEngineMaxTickers
  · simp [hticker]
  · simp [hticker]

@[simp] theorem putOrder_requests (order : Slot) (o : OMOrder) :
    (s.putOrder order o).requests = s.requests := rfl

@[simp] theorem putOrder_clientId (order : Slot) (o : OMOrder) :
    (s.putOrder order o).clientId = s.clientId := rfl

theorem putOrder_same (order : Slot) (o : OMOrder) :
    (s.putOrder order o).tickerSideOrders order = o := by
  simp [putOrder]

theorem putOrder_other {order slot : Slot} (h : slot ≠ order) (o : OMOrder) :
    (s.putOrder order o).tickerSideOrders slot = s.tickerSideOrders slot := by
  simp [putOrder, h]

/-- The request a new order is sent by. -/
def newRequest (s : OrderManager) (tickerId : TickerID) (price : Price)
    (side : Side) (quantity : Quantity) : MatchingEngineClientRequest where
  type := .new
  clientId := s.clientId
  tickerId := tickerId
  orderId := s.nextOrderId
  side := side
  price := price
  quantity := quantity

/-- The request an order is cancelled by. -/
def cancelRequest (s : OrderManager) (order : Slot) :
    MatchingEngineClientRequest :=
  let o := s.tickerSideOrders order
  { type := .cancel, clientId := s.clientId, tickerId := o.tickerId,
    orderId := o.orderId, side := o.side, price := o.price,
    quantity := o.quantity }

/-- The manager after `newOrder`. -/
def withNewOrder (s : OrderManager) (order : Slot) (tickerId : TickerID)
    (price : Price) (side : Side) (quantity : Quantity) : OrderManager :=
  let t := s.putOrder order
    { tickerId := tickerId, orderId := s.nextOrderId, side := side,
      price := price, quantity := quantity, orderState := .pendingNew }
  { t with
    requests := s.requests ++ [s.newRequest tickerId price side quantity]
    nextOrderId := s.nextOrderId + 1 }

/-- The manager after `cancelOrder`. -/
def withCancelled (s : OrderManager) (order : Slot) : OrderManager :=
  let o := s.tickerSideOrders order
  let t := s.putOrder order { o with orderState := .pendingCancel }
  { t with requests := s.requests ++ [s.cancelRequest order] }

theorem run_newOrder (order : Slot) (tickerId : TickerID) (price : Price)
    (side : Side) (quantity : Quantity) :
    (newOrder order tickerId price side quantity).run s
      = .ok () (s.withNewOrder order tickerId price side quantity) := by
  unfold newOrder sendClientRequest
  rw [EStateM.run_bind, EStateM.run_get]
  dsimp only
  rw [EStateM.run_bind, EStateM.run_modify]
  dsimp only
  rw [EStateM.run_bind, run_modifyOrder]
  rfl

theorem run_cancelOrder (order : Slot) :
    (cancelOrder order).run s = .ok () (s.withCancelled order) := by
  unfold cancelOrder sendClientRequest
  rw [EStateM.run_bind, EStateM.run_get]
  dsimp only
  rw [EStateM.run_bind, EStateM.run_modify]
  dsimp only
  rw [run_modifyOrder]
  rfl

/-- An order that rests is not at the price and quantity it is asked to
be at. -/
def Elsewhere (s : OrderManager) (order : Slot) (price : Price)
    (quantity : Quantity) : Prop :=
  (s.tickerSideOrders order).orderState = .live
    ∧ ((s.tickerSideOrders order).price ≠ price
      ∨ (s.tickerSideOrders order).quantity ≠ quantity)

/-- A slot has no order in the exchange or on its way there. -/
def IsFree (s : OrderManager) (order : Slot) : Prop :=
  (s.tickerSideOrders order).orderState = .invalid
    ∨ (s.tickerSideOrders order).orderState = .dead

instance (order : Slot) (price : Price) (quantity : Quantity) :
    Decidable (s.Elsewhere order price quantity) :=
  inferInstanceAs (Decidable (_ ∧ _))

instance (order : Slot) : Decidable (s.IsFree order) :=
  inferInstanceAs (Decidable (_ ∨ _))

/-- The manager after `moveOrder`. -/
def moved (s : OrderManager) (risk : PreTradeRisk) (order : Slot)
    (tickerId : TickerID) (price : Price) (side : Side)
    (quantity : Quantity) : OrderManager :=
  if s.Elsewhere order price quantity then s.withCancelled order
  else if s.IsFree order ∧ price ≠ priceInvalid
      ∧ risk tickerId side quantity = .allowed then
    s.withNewOrder order tickerId price side quantity
  else s

theorem run_moveOrder (risk : PreTradeRisk) (order : Slot)
    (tickerId : TickerID) (price : Price) (side : Side)
    (quantity : Quantity) :
    (moveOrder risk order tickerId price side quantity).run s
      = .ok () (s.moved risk order tickerId price side quantity) := by
  unfold moveOrder
  rw [EStateM.run_bind, EStateM.run_get]
  dsimp only
  cases hstate : (s.tickerSideOrders order).orderState with
  | live =>
      by_cases hplace : (s.tickerSideOrders order).price ≠ price
          ∨ (s.tickerSideOrders order).quantity ≠ quantity
      · have helsewhere : s.Elsewhere order price quantity := ⟨hstate, hplace⟩
        simp only [hplace, if_true, run_cancelOrder, moved, helsewhere]
      · have helsewhere : ¬ s.Elsewhere order price quantity :=
          fun h => hplace h.2
        have hfree : ¬ s.IsFree order := by simp [IsFree, hstate]
        simp only [hplace, if_false, moved, helsewhere, hfree, false_and]
        rfl
  | invalid | dead =>
      have helsewhere : ∀ price, ¬ s.Elsewhere order price quantity := by
        intro price
        simp [Elsewhere, hstate]
      have hfree : s.IsFree order := by simp [IsFree, hstate]
      by_cases hprice : price = priceInvalid
      · simp [hprice, moved, helsewhere]
      · by_cases hrisk : risk tickerId side quantity = .allowed
        · simp [hprice, hrisk, run_newOrder, moved, helsewhere, hfree]
        · simp [hprice, hrisk, moved, helsewhere]
  | pendingNew | pendingCancel =>
      simp [moved, Elsewhere, IsFree, hstate]

/-- `moveOrders` moves the two orders of a ticker. -/
theorem run_moveOrders (risk : PreTradeRisk) (tickerId : TickerID)
    (bidPrice askPrice : Price) (clip : Quantity) :
    (moveOrders risk tickerId bidPrice askPrice clip).run s
      = if tickerId.toNat < matchingEngineMaxTickers then
          .ok () ((s.moved risk (tickerId, sideToIndex .buy) tickerId bidPrice
            .buy clip).moved risk (tickerId, sideToIndex .sell) tickerId
              askPrice .sell clip)
        else .error .outOfRange s := by
  unfold moveOrders
  rw [EStateM.run_bind, run_slotAt (.inl rfl)]
  by_cases hticker : tickerId.toNat < matchingEngineMaxTickers
  · rw [if_pos hticker, if_pos hticker]
    dsimp only
    rw [EStateM.run_bind, run_moveOrder]
    dsimp only
    rw [EStateM.run_bind, run_slotAt (.inr rfl), if_pos hticker]
    dsimp only
    rw [run_moveOrder]
  · rw [if_neg hticker, if_neg hticker]

/-- The manager after `onOrderUpdate`. -/
def responded (s : OrderManager)
    (clientResponse : MatchingEngineClientResponse) : OrderManager :=
  let order : Slot := (clientResponse.tickerId, sideToIndex clientResponse.side)
  s.putOrder order ((s.tickerSideOrders order).updated clientResponse)

theorem run_onOrderUpdate (clientResponse : MatchingEngineClientResponse) :
    (onOrderUpdate clientResponse).run s
      = if clientResponse.tickerId.toNat < matchingEngineMaxTickers
            ∧ sideToIndex clientResponse.side < sideToIndex .max then
          .ok () (s.responded clientResponse)
        else .error .outOfRange s := by
  unfold onOrderUpdate slotAt
  rw [EStateM.run_bind, EStateM.run_bind, run_assert]
  by_cases hrange : clientResponse.tickerId.toNat < matchingEngineMaxTickers
      ∧ sideToIndex clientResponse.side < sideToIndex .max
  · simp only [hrange, decide_true, Bool.and_true, and_true, if_true]
    exact run_modifyOrder _ _
  · rw [if_neg hrange]
    rw [← Bool.decide_and, decide_eq_false hrange]
    rfl

/-- The order of another slot stays. -/
theorem moved_other (risk : PreTradeRisk) {order slot : Slot}
    (h : slot ≠ order) (tickerId : TickerID) (price : Price) (side : Side)
    (quantity : Quantity) :
    (s.moved risk order tickerId price side quantity).tickerSideOrders slot
      = s.tickerSideOrders slot := by
  unfold moved
  split
  · exact putOrder_other h _
  · split
    · exact putOrder_other h _
    · rfl

/-- `moveOrder` sends a NEW order. -/
def Places (s : OrderManager) (risk : PreTradeRisk) (order : Slot)
    (tickerId : TickerID) (price : Price) (side : Side)
    (quantity : Quantity) : Prop :=
  s.IsFree order ∧ price ≠ priceInvalid
    ∧ risk tickerId side quantity = .allowed

/-- `moveOrders` sends a NEW order, or two. -/
def PlacesAny (s : OrderManager) (risk : PreTradeRisk) (tickerId : TickerID)
    (bidPrice askPrice : Price) (clip : Quantity) : Prop :=
  s.Places risk (tickerId, sideToIndex .buy) tickerId bidPrice .buy clip
    ∨ s.Places risk (tickerId, sideToIndex .sell) tickerId askPrice .sell clip

instance (risk : PreTradeRisk) (order : Slot) (tickerId : TickerID)
    (price : Price) (side : Side) (quantity : Quantity) :
    Decidable (s.Places risk order tickerId price side quantity) :=
  inferInstanceAs (Decidable (_ ∧ _))

instance (risk : PreTradeRisk) (tickerId : TickerID)
    (bidPrice askPrice : Price) (clip : Quantity) :
    Decidable (s.PlacesAny risk tickerId bidPrice askPrice clip) :=
  inferInstanceAs (Decidable (_ ∨ _))

/-- What another slot sends does not depend on the order moved. -/
theorem places_of_moved {risk : PreTradeRisk} {order slot : Slot}
    (h : slot ≠ order) {tickerId tickerId' : TickerID} {price price' : Price}
    {side side' : Side} {quantity quantity' : Quantity}
    (hplaces : (s.moved risk order tickerId price side quantity).Places risk
      slot tickerId' price' side' quantity') :
    s.Places risk slot tickerId' price' side' quantity' := by
  unfold Places IsFree at hplaces ⊢
  rw [moved_other risk h] at hplaces
  exact hplaces

end OrderManager

end ElectronicTrading
