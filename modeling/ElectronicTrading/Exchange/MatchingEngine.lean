/-
exchange/matching/MatchingEngine.hpp: the eight books behind one request
queue.

Each book logs what it hands over (`MatchingEngineOrderBook.sent`); the
engine's own log is what all books handed over, in the order in which
the engine queued it.
-/
import ElectronicTrading.Exchange.OrderBook

namespace ElectronicTrading

structure MatchingEngine where
  tickerOrderBook : Fin matchingEngineMaxTickers → MatchingEngineOrderBook
  sent : List Sent

namespace MatchingEngine

def new : MatchingEngine where
  tickerOrderBook := fun _ => .new
  sent := []

/-- The engine with the book `i` replaced, and what that book has handed
over since logged. -/
def setBook (i : Fin matchingEngineMaxTickers) (book : MatchingEngineOrderBook)
    (s : MatchingEngine) : MatchingEngine where
  tickerOrderBook := fun j => if j = i then book else s.tickerOrderBook j
  sent := s.sent ++ book.sent.drop (s.tickerOrderBook i).sent.length

/-- A call on the book `i`. -/
def onBook {α : Type} (i : Fin matchingEngineMaxTickers)
    (x : MatchingEngineOrderBook.Member α) : Prog MatchingEngine α :=
  Exec.zoom (·.tickerOrderBook i) (setBook i) x

/-- `processClientRequest`: `ticker_order_book.at(ticker_id)` throws for a
ticker there is no book of. -/
def processClientRequest (request : MatchingEngineClientRequest) :
    Prog MatchingEngine Unit :=
  if h : request.tickerId.toNat < matchingEngineMaxTickers then
    onBook ⟨request.tickerId.toNat, h⟩
      (MatchingEngineOrderBook.processClientRequest request)
  else
    throw .outOfRange

end MatchingEngine

end ElectronicTrading
