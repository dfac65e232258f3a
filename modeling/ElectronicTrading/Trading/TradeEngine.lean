/-
trading/strategy/TradeEngine.{hpp,cc}, MarketMaker.{hpp,cc} and
LiquidityTaker.{hpp,cc}: the trading client, with one of the two
strategies.

The engine's thread takes responses and market updates one at a time, in
the order in which it finds them in its queues; an `Event` is one of
them. A book calls back into the engine, and the engine into the
strategy: here the book returns its `Notice`, and the strategy is a
function of what it reads, run on the `Desk`. The `book` of a callback is
the one the update was given to.
-/
import ElectronicTrading.Trading.FeatureEngine
import ElectronicTrading.Trading.RiskManager

namespace ElectronicTrading

/-- `TradeEngineConfig` of Types.hpp. -/
structure TradeEngineConfig (D : Type) where
  /-- "What the trading strategies will use as the quantity for the order
  that they send out" -/
  clip : Quantity := 0
  /-- "Used by trading strategies to determine whether to send an order or
  not" -/
  threshold : D
  riskConfig : RiskConfig := {}

/-- `AlgoType`. -/
inductive AlgoType where
  | invalid
  | random
  | maker
  | taker
  | max
deriving DecidableEq, Repr

variable {D : Type} [Double D]

/-- `ticker_config.at(ticker_id)`. -/
def configAt (tickerConfig : TickerID → TradeEngineConfig D)
    (tickerId : TickerID) : Desk.Member (TradeEngineConfig D) := do
  assert (decide (tickerId.toNat < matchingEngineMaxTickers)) .outOfRange
  return tickerConfig tickerId

namespace MarketMaker

/-- The bid, on the best one or a tick below it. -/
def bidPrice (bbo : BBO) (fairPrice threshold : D) : Price :=
  int64 (bbo.bestBidPrice
    - if Double.ge (Double.sub fairPrice (Double.ofInt bbo.bestBidPrice))
        threshold then 0 else 1)

/-- The ask, on the best one or a tick above it. -/
def askPrice (bbo : BBO) (fairPrice threshold : D) : Price :=
  int64 (bbo.bestAskPrice
    + if Double.ge (Double.sub (Double.ofInt bbo.bestAskPrice) fairPrice)
        threshold then 0 else 1)

/-- `onOrderBookUpdate`. -/
def onOrderBookUpdate (tickerConfig : TickerID → TradeEngineConfig D)
    (featureEngine : FeatureEngine D) (tickerId : TickerID) (bbo : BBO) :
    Desk.Member Unit := do
  let fairPrice := featureEngine.marketPrice
  if bbo.IsQuoted ∧ Double.ne fairPrice featureInvalid = true then
    let config ← configAt tickerConfig tickerId
    Desk.moveOrders tickerId (bidPrice bbo fairPrice config.threshold)
      (askPrice bbo fairPrice config.threshold) config.clip

end MarketMaker

namespace LiquidityTaker

/-- `onTradeUpdate`. -/
def onTradeUpdate (tickerConfig : TickerID → TradeEngineConfig D)
    (featureEngine : FeatureEngine D)
    (marketUpdate : MatchingEngineMarketUpdate) (bbo : BBO) :
    Desk.Member Unit := do
  let aggQtyRatio := featureEngine.aggTradeQtyRatio
  if bbo.IsQuoted ∧ Double.ne aggQtyRatio featureInvalid = true then
    let config ← configAt tickerConfig marketUpdate.tickerId
    if Double.ge aggQtyRatio config.threshold then
      if marketUpdate.side = .buy then
        Desk.moveOrders marketUpdate.tickerId bbo.bestAskPrice priceInvalid
          config.clip
      else
        Desk.moveOrders marketUpdate.tickerId priceInvalid bbo.bestBidPrice
          config.clip

end LiquidityTaker

/-- The desk holds the position keeper, the risk manager and the order
manager. -/
structure TradeEngine (D : Type) where
  tickerOrderBook : TickerID → MarketOrderBook
  featureEngine : FeatureEngine D
  desk : Desk
  algoType : AlgoType
  tickerConfig : TickerID → TradeEngineConfig D

namespace TradeEngine

/-- `TradeEngine(...)`. -/
def new (clientId : ClientID) (algoType : AlgoType)
    (tickerConfig : TickerID → TradeEngineConfig D) : TradeEngine D where
  tickerOrderBook := fun _ => .new
  featureEngine := .new
  desk := .new clientId fun tickerId => (tickerConfig tickerId).riskConfig
  algoType := algoType
  tickerConfig := tickerConfig

abbrev Member (D α : Type) := Prog (TradeEngine D) α

def onDesk (x : Desk.Member Unit) : Member D Unit :=
  Exec.zoom (·.desk) (fun d s => { s with desk := d }) x

/-- `ticker_order_book[ticker_id]`. -/
def onBook {α : Type} (tickerId : TickerID) (x : MarketOrderBook.Member α) :
    Member D α :=
  Exec.zoom (·.tickerOrderBook tickerId)
    (fun book s =>
      { s with
        tickerOrderBook := fun t =>
          if t = tickerId then book else s.tickerOrderBook t }) x

/-- `algoOnOrderBookUpdate`: a LiquidityTaker only logs it. -/
def algoOnOrderBookUpdate (tickerId : TickerID) (bbo : BBO) :
    Member D Unit := do
  let s ← get
  if s.algoType = .maker then
    onDesk (MarketMaker.onOrderBookUpdate s.tickerConfig s.featureEngine
      tickerId bbo)

/-- `algoOnTradeUpdate`: a MarketMaker only logs it. -/
def algoOnTradeUpdate (marketUpdate : MatchingEngineMarketUpdate)
    (bbo : BBO) : Member D Unit := do
  let s ← get
  if s.algoType ≠ .maker then
    onDesk (LiquidityTaker.onTradeUpdate s.tickerConfig s.featureEngine
      marketUpdate bbo)

/-- `onOrderBookUpdate`. -/
def onOrderBookUpdate (tickerId : TickerID) (book : MarketOrderBook) :
    Member D Unit := do
  onDesk (Desk.updateBBO tickerId book.bbo)
  modify fun s =>
    { s with featureEngine := s.featureEngine.onOrderBookUpdate book.bbo }
  algoOnOrderBookUpdate tickerId book.bbo

/-- `onTradeUpdate`. -/
def onTradeUpdate (marketUpdate : MatchingEngineMarketUpdate)
    (book : MarketOrderBook) : Member D Unit := do
  modify fun s =>
    { s with
      featureEngine := s.featureEngine.onTradeUpdate marketUpdate book.bbo }
  algoOnTradeUpdate marketUpdate book.bbo

/-- `onOrderUpdate`. -/
def onOrderUpdate (clientResponse : MatchingEngineClientResponse) :
    Member D Unit :=
  onDesk (Desk.onOrderUpdate clientResponse)

/-- The body of the second loop of `run`. -/
def onMarketUpdate (marketUpdate : MatchingEngineMarketUpdate) :
    Member D Unit := do
  assert (decide (marketUpdate.tickerId.toNat < matchingEngineMaxTickers))
    .outOfRange
  let notice ← onBook marketUpdate.tickerId
    (MarketOrderBook.onMarketUpdate marketUpdate)
  let book := (← get).tickerOrderBook marketUpdate.tickerId
  match notice with
  | .onTradeUpdate marketUpdate => onTradeUpdate marketUpdate book
  | .onOrderBookUpdate tickerId _ _ => onOrderBookUpdate tickerId book

/-- What the thread takes from its queues. -/
inductive Event where
  | clientResponse (clientResponse : MatchingEngineClientResponse)
  | marketUpdate (marketUpdate : MatchingEngineMarketUpdate)

/-- The body of the loops of `run`. -/
def onEvent : Event → Member D Unit
  | .clientResponse clientResponse => onOrderUpdate clientResponse
  | .marketUpdate marketUpdate => onMarketUpdate marketUpdate

/-- The ticker an event is for. -/
def Event.tickerId : Event → TickerID
  | .clientResponse response => response.tickerId
  | .marketUpdate update => update.tickerId

end TradeEngine

end ElectronicTrading
