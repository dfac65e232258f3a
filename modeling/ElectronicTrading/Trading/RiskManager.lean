/-
trading/strategy/RiskManager.{hpp,cc}: the check before a new order, on
the ticker's position as the position keeper has it at that moment.

`Desk` is the part of a trade engine that trades: its position keeper,
its risk manager and its order manager. Everything that changes one of
them is an `Activity`: a response from the exchange, a new BBO, and a
call of `moveOrders` by whatever strategy is running.
-/
import ElectronicTrading.Trading.OrderManager
import ElectronicTrading.Trading.PositionKeeper
import ElectronicTrading.Lib.Exec

namespace ElectronicTrading

/-- `RiskConfig` of Types.hpp. -/
structure RiskConfig where
  /-- "maximum order size that a strategy is allowed to send" -/
  maxOrderSize : Quantity := 0
  /-- "maximum position that a strategy is allowed to build" -/
  maxPosition : Quantity := 0
  /-- "maximum allowed loss before the trading strategy is shutoff from
  trading further" -/
  maxLoss : ℚ := 0

/-- A ticker's position and limits. The position is what the pointer
`position_info` shows when it is followed. -/
structure RiskInfo where
  positionInfo : PositionInfo
  riskConfig : RiskConfig

namespace RiskInfo

/-- The first test of `checkPreTradeRisk`. -/
def ExceedsOrderLimit (r : RiskInfo) (quantity : Quantity) : Prop :=
  quantity > r.riskConfig.maxOrderSize

/-- The second test of `checkPreTradeRisk`, in `int32_t`. -/
def ExceedsPositionLimit (r : RiskInfo) (side : Side) (quantity : Quantity) :
    Prop :=
  int32 |int32 (r.positionInfo.position
    + sideToValue side * int32 quantity.toNat)|
      > int32 r.riskConfig.maxPosition.toNat

instance (r : RiskInfo) (quantity : Quantity) :
    Decidable (r.ExceedsOrderLimit quantity) :=
  inferInstanceAs (Decidable (_ > _))

instance (r : RiskInfo) (side : Side) (quantity : Quantity) :
    Decidable (r.ExceedsPositionLimit side quantity) :=
  inferInstanceAs (Decidable (_ > _))

/-- In range, the position limit is on the position the order could lead
to. -/
theorem not_exceedsPositionLimit_iff {r : RiskInfo} {side : Side}
    {quantity : Quantity} (hquantity : quantity.toNat < 2 ^ 31)
    (hmax : r.riskConfig.maxPosition.toNat < 2 ^ 31)
    (hnew : |r.positionInfo.position
      + sideToValue side * quantity.toNat| < 2 ^ 31) :
    ¬ r.ExceedsPositionLimit side quantity
      ↔ |r.positionInfo.position + sideToValue side * quantity.toNat|
        ≤ r.riskConfig.maxPosition.toNat := by
  unfold ExceedsPositionLimit
  have hq : int32 quantity.toNat = quantity.toNat := by
    apply int32_eq
    rw [abs_of_nonneg (by omega)]
    omega
  have hm : int32 r.riskConfig.maxPosition.toNat
      = r.riskConfig.maxPosition.toNat := by
    apply int32_eq
    rw [abs_of_nonneg (by omega)]
    omega
  rw [hq, hm, int32_eq hnew, int32_eq (by rw [abs_abs]; exact hnew)]
  exact not_lt

/-- `checkPreTradeRisk`. -/
def checkPreTradeRisk (r : RiskInfo) (side : Side) (quantity : Quantity) :
    RiskCheckResult :=
  if r.ExceedsOrderLimit quantity then .orderLimitExceeded
  else if r.ExceedsPositionLimit side quantity then .positionLimitExceeded
  else if r.positionInfo.totalPnl < r.riskConfig.maxLoss then
    .lossLimitExceeded
  else .allowed

end RiskInfo

/-- `ticker_risk`, without the pointers. -/
structure RiskManager where
  riskConfig : TickerID → RiskConfig

namespace RiskManager

/-- `ticker_risk.at(ticker_id)`, its pointer into `positionKeeper`. -/
def tickerRisk (s : RiskManager) (positionKeeper : PositionKeeper)
    (tickerId : TickerID) : RiskInfo where
  positionInfo := positionKeeper.tickerPosition tickerId
  riskConfig := s.riskConfig tickerId

/-- `checkPreTradeRisk`. The order manager has tested the ticker. -/
def checkPreTradeRisk (s : RiskManager) (positionKeeper : PositionKeeper) :
    PreTradeRisk := fun tickerId side quantity =>
  (s.tickerRisk positionKeeper tickerId).checkPreTradeRisk side quantity

end RiskManager

structure Desk where
  positionKeeper : PositionKeeper
  riskManager : RiskManager
  orderManager : OrderManager

namespace Desk

def new (clientId : ClientID) (riskConfig : TickerID → RiskConfig) : Desk where
  positionKeeper := .new
  riskManager := ⟨riskConfig⟩
  orderManager := .new clientId

abbrev Member (α : Type) := Prog Desk α

def onPositionKeeper (x : Prog PositionKeeper Unit) : Member Unit :=
  Exec.zoom (·.positionKeeper) (fun k s => { s with positionKeeper := k }) x

def onOrderManager (x : OrderManager.Member Unit) : Member Unit :=
  Exec.zoom (·.orderManager) (fun m s => { s with orderManager := m }) x

/-- `order_manager->moveOrders`. -/
def moveOrders (tickerId : TickerID) (bidPrice askPrice : Price)
    (clip : Quantity) : Member Unit := do
  let s ← get
  onOrderManager (OrderManager.moveOrders
    (s.riskManager.checkPreTradeRisk s.positionKeeper) tickerId bidPrice
    askPrice clip)

/-- `TradeEngine::onOrderUpdate`. Each strategy's `onOrderUpdate` hands
the response to the order manager. -/
def onOrderUpdate (clientResponse : MatchingEngineClientResponse) :
    Member Unit := do
  if clientResponse.type = .filled then
    onPositionKeeper (PositionKeeper.addFill clientResponse)
  onOrderManager (OrderManager.onOrderUpdate clientResponse)

/-- `position_keeper.updateBBO`. -/
def updateBBO (tickerId : TickerID) (bbo : BBO) : Member Unit :=
  onPositionKeeper (PositionKeeper.updateBBO tickerId bbo)

/-- What happens to a desk. -/
inductive Activity where
  | onOrderUpdate (clientResponse : MatchingEngineClientResponse)
  | updateBBO (tickerId : TickerID) (bbo : BBO)
  | moveOrders (tickerId : TickerID) (bidPrice askPrice : Price)
      (clip : Quantity)

def act : Activity → Member Unit
  | .onOrderUpdate clientResponse => onOrderUpdate clientResponse
  | .updateBBO tickerId bbo => updateBBO tickerId bbo
  | .moveOrders tickerId bidPrice askPrice clip =>
      moveOrders tickerId bidPrice askPrice clip

-- ============================================================== statements

variable {s s' : Desk}

/-- The desk after `moveOrders`. -/
def movedOrders (s : Desk) (tickerId : TickerID) (bidPrice askPrice : Price)
    (clip : Quantity) : Desk :=
  let risk := s.riskManager.checkPreTradeRisk s.positionKeeper
  { s with
    orderManager := (s.orderManager.moved risk (tickerId, sideToIndex .buy)
      tickerId bidPrice .buy clip).moved risk (tickerId, sideToIndex .sell)
        tickerId askPrice .sell clip }

theorem run_moveOrders (tickerId : TickerID) (bidPrice askPrice : Price)
    (clip : Quantity) :
    (moveOrders tickerId bidPrice askPrice clip).run s
      = if tickerId.toNat < matchingEngineMaxTickers then
          .ok () (s.movedOrders tickerId bidPrice askPrice clip)
        else .error .outOfRange s := by
  unfold moveOrders onOrderManager
  rw [EStateM.run_bind, EStateM.run_get]
  dsimp only
  rw [Exec.run_zoom, OrderManager.run_moveOrders]
  by_cases hticker : tickerId.toNat < matchingEngineMaxTickers
  · rw [if_pos hticker, if_pos hticker]
    rfl
  · rw [if_neg hticker, if_neg hticker]

/-- A call of `moveOrders` sends a NEW order, or two. -/
def PlacesAny (s : Desk) (tickerId : TickerID) (bidPrice askPrice : Price)
    (clip : Quantity) : Prop :=
  s.orderManager.PlacesAny
    (s.riskManager.checkPreTradeRisk s.positionKeeper) tickerId bidPrice
    askPrice clip

instance (tickerId : TickerID) (bidPrice askPrice : Price)
    (clip : Quantity) :
    Decidable (s.PlacesAny tickerId bidPrice askPrice clip) :=
  inferInstanceAs (Decidable (OrderManager.PlacesAny ..))

/-- What a returning call of `moveOrders` does. -/
theorem moveOrders_cases {tickerId : TickerID} {bidPrice askPrice : Price}
    {clip : Quantity}
    (h : (moveOrders tickerId bidPrice askPrice clip).run s = .ok () s') :
    tickerId.toNat < matchingEngineMaxTickers
      ∧ s' = s.movedOrders tickerId bidPrice askPrice clip := by
  rw [run_moveOrders] at h
  by_cases hticker : tickerId.toNat < matchingEngineMaxTickers
  · rw [if_pos hticker] at h
    exact ⟨hticker, (EStateM.Result.ok.inj h).2.symm⟩
  · rw [if_neg hticker] at h
    cases h

/-- What a new BBO does. -/
theorem updateBBO_cases {tickerId : TickerID} {bbo : BBO}
    (h : (updateBBO tickerId bbo).run s = .ok () s') :
    tickerId.toNat < matchingEngineMaxTickers ∧
    s' = { s with positionKeeper :=
      s.positionKeeper.updated tickerId (·.updateBBO bbo) } := by
  unfold updateBBO onPositionKeeper PositionKeeper.updateBBO at h
  rw [Exec.run_zoom, PositionKeeper.run_modifyAt] at h
  by_cases hticker : tickerId.toNat < matchingEngineMaxTickers
  · rw [if_pos hticker] at h
    exact ⟨hticker, (EStateM.Result.ok.inj h).2.symm⟩
  · rw [if_neg hticker] at h
    cases h

/-- The position keeper after a response. -/
def filled (s : Desk) (clientResponse : MatchingEngineClientResponse) :
    PositionKeeper :=
  if clientResponse.type = .filled then
    s.positionKeeper.updated clientResponse.tickerId
      (·.addFill clientResponse)
  else s.positionKeeper

/-- What a response does. -/
theorem onOrderUpdate_cases {clientResponse : MatchingEngineClientResponse}
    (h : (onOrderUpdate clientResponse).run s = .ok () s') :
    (clientResponse.tickerId.toNat < matchingEngineMaxTickers
      ∧ sideToIndex clientResponse.side < sideToIndex .max) ∧
    s' = { s with
      positionKeeper := s.filled clientResponse
      orderManager := s.orderManager.responded clientResponse } := by
  have hrest : ∀ t : Desk, t.orderManager = s.orderManager →
      (onOrderManager (OrderManager.onOrderUpdate clientResponse)).run t
        = .ok () s' →
      (clientResponse.tickerId.toNat < matchingEngineMaxTickers
        ∧ sideToIndex clientResponse.side < sideToIndex .max) ∧
      s' = { t with
        orderManager := s.orderManager.responded clientResponse } := by
    intro t ht hrun
    unfold onOrderManager at hrun
    rw [Exec.run_zoom, ht, OrderManager.run_onOrderUpdate] at hrun
    by_cases hrange : clientResponse.tickerId.toNat < matchingEngineMaxTickers
        ∧ sideToIndex clientResponse.side < sideToIndex .max
    · rw [if_pos hrange] at hrun
      exact ⟨hrange, (EStateM.Result.ok.inj hrun).2.symm⟩
    · rw [if_neg hrange] at hrun
      cases hrun
  unfold onOrderUpdate at h
  unfold filled
  by_cases hfilled : clientResponse.type = .filled
  · simp only [hfilled, if_true] at h ⊢
    obtain ⟨_, t, hfill, hupdate⟩ := Exec.run_bind_eq_ok h
    unfold onPositionKeeper PositionKeeper.addFill at hfill
    rw [Exec.run_zoom, PositionKeeper.run_modifyAt] at hfill
    by_cases hticker :
        clientResponse.tickerId.toNat < matchingEngineMaxTickers
    · rw [if_pos hticker] at hfill
      have ht := (EStateM.Result.ok.inj hfill).2
      have hs' := hrest t (by rw [← ht]) hupdate
      rw [← ht] at hs'
      exact hs'
    · rw [if_neg hticker] at hfill
      cases hfill
  · simp only [hfilled, if_false] at h ⊢
    exact hrest s rfl h

end Desk

end ElectronicTrading
