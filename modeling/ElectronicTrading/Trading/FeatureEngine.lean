/-
trading/strategy/FeatureEngine.hpp: the market price and the aggressive
trade quantity ratio. There is one of each for all tickers, overwritten
by whichever ticker has an update.

Both are `double`s, and what the machine makes of them is not looked
into: `Double` names the operations the code uses, and nothing is
assumed of any of them.
-/
import ElectronicTrading.Trading.PositionKeeper

namespace ElectronicTrading

/-- The operations on `double`s of the features and the strategies. -/
class Double (D : Type) where
  /-- `std::numeric_limits<double>::quiet_NaN()`. -/
  quietNaN : D
  /-- `static_cast<double>` of an integer. -/
  ofInt : Int → D
  add : D → D → D
  sub : D → D → D
  div : D → D → D
  /-- `>=`. -/
  ge : D → D → Bool
  /-- `!=`. -/
  ne : D → D → Bool

variable {D : Type} [Double D]

/-- `FEATURE_INVALID`. -/
def featureInvalid : D := Double.quietNaN

/-- Both sides of the book have a price: the test that guards every
feature and every strategy. -/
def BBO.IsQuoted (bbo : BBO) : Prop :=
  bbo.bestBidPrice ≠ priceInvalid ∧ bbo.bestAskPrice ≠ priceInvalid

instance (bbo : BBO) : Decidable bbo.IsQuoted :=
  inferInstanceAs (Decidable (_ ∧ _))

structure FeatureEngine (D : Type) where
  marketPrice : D
  aggTradeQtyRatio : D

namespace FeatureEngine

def new : FeatureEngine D where
  marketPrice := featureInvalid
  aggTradeQtyRatio := featureInvalid

/-- The market price of a BBO. -/
def priceOf (bbo : BBO) : D :=
  Double.div
    (Double.add
      (Double.ofInt (int64 (bbo.bestBidPrice * bbo.bestAskQuantity.toNat)))
      (Double.ofInt (int64 (bbo.bestAskPrice * bbo.bestBidQuantity.toNat))))
    (Double.ofInt (bbo.bestAskQuantity + bbo.bestBidQuantity).toNat)

/-- The share a trade is of the quantity at the top of its side. -/
def ratioOf (marketUpdate : MatchingEngineMarketUpdate) (bbo : BBO) : D :=
  Double.div (Double.ofInt marketUpdate.quantity.toNat)
    (Double.ofInt (if marketUpdate.side = .buy then bbo.bestBidQuantity
      else bbo.bestAskQuantity).toNat)

/-- `onOrderBookUpdate`, with the book's BBO; the other arguments are only
logged. -/
def onOrderBookUpdate (s : FeatureEngine D) (bbo : BBO) : FeatureEngine D :=
  if bbo.IsQuoted then { s with marketPrice := priceOf bbo } else s

/-- `onTradeUpdate`, with the book's BBO. -/
def onTradeUpdate (s : FeatureEngine D)
    (marketUpdate : MatchingEngineMarketUpdate) (bbo : BBO) :
    FeatureEngine D :=
  if bbo.IsQuoted then
    { s with aggTradeQtyRatio := ratioOf marketUpdate bbo }
  else s

/-- After a book update the market price is that of the book, if the book
is quoted. -/
theorem onOrderBookUpdate_marketPrice (s : FeatureEngine D) {bbo : BBO}
    (h : bbo.IsQuoted) : (s.onOrderBookUpdate bbo).marketPrice = priceOf bbo := by
  unfold onOrderBookUpdate
  rw [if_pos h]

/-- After a trade the ratio is that of the trade, if the book is
quoted. -/
theorem onTradeUpdate_aggTradeQtyRatio (s : FeatureEngine D)
    (marketUpdate : MatchingEngineMarketUpdate) {bbo : BBO}
    (h : bbo.IsQuoted) :
    (s.onTradeUpdate marketUpdate bbo).aggTradeQtyRatio
      = ratioOf marketUpdate bbo := by
  unfold onTradeUpdate
  rw [if_pos h]

end FeatureEngine

end ElectronicTrading
