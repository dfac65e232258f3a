/-
The market as the trading client sees it.

A trading client that gets updates its books can take, and responses in
range, meets no fault, whichever strategy it runs and however the two queues
are read (`exists_run`). So a client that starts when the market data
consumer last recovered, and is fed what the consumer has written since, is
never stopped, and its books show the exchange (`exists_run_of_received`):
from the engine's book over a stream that loses, repeats and reorders to the
book that the strategy reads.
-/
import ElectronicTrading.Trading.Proofs.Delivered
import ElectronicTrading.Trading.Proofs.Strategies

namespace ElectronicTrading

open Exec Runs
open SnapshotSynthesizer (about tickerOf toNat_tickerOf tickerOf_injective)

/-- Ticker and side of a response have their places in the arrays. -/
def MatchingEngineClientResponse.InRange (m : MatchingEngineClientResponse) :
    Prop :=
  m.tickerId.toNat < matchingEngineMaxTickers
    ∧ sideToIndex m.side < sideToIndex .max

-- ==================================================================== the desk

namespace Desk

variable {d : Desk} {tickerId : TickerID}

/-- A response in range is taken. -/
theorem exists_onOrderUpdate {m : MatchingEngineClientResponse}
    (hm : m.InRange) (d : Desk) :
    ∃ d', (onOrderUpdate m).run d = .ok () d' := by
  have hrest : ∀ t : Desk, ∃ d',
      (onOrderManager (OrderManager.onOrderUpdate m)).run t = .ok () d' := by
    intro t
    exact ⟨_, run_zoom_ok
      ((OrderManager.run_onOrderUpdate m).trans (if_pos hm))⟩
  unfold onOrderUpdate
  by_cases hfilled : m.type = .filled
  · simp only [hfilled, if_true]
    have hfill : ∃ t, (onPositionKeeper (PositionKeeper.addFill m)).run d
        = .ok () t :=
      ⟨_, run_zoom_ok
        ((PositionKeeper.run_modifyAt m.tickerId _).trans (if_pos hm.1))⟩
    obtain ⟨t, hfill⟩ := hfill
    rw [run_bind_ok hfill]
    exact hrest t
  · simp only [hfilled, if_false]
    exact hrest d

theorem exists_updateBBO (h : tickerId.toNat < matchingEngineMaxTickers)
    (bbo : BBO) (d : Desk) : ∃ d', (updateBBO tickerId bbo).run d = .ok () d' :=
  ⟨_, run_zoom_ok ((PositionKeeper.run_modifyAt tickerId _).trans (if_pos h))⟩

theorem exists_moveOrders (h : tickerId.toNat < matchingEngineMaxTickers)
    (bidPrice askPrice : Price) (clip : Quantity) (d : Desk) :
    ∃ d', (moveOrders tickerId bidPrice askPrice clip).run d = .ok () d' :=
  ⟨_, (run_moveOrders tickerId bidPrice askPrice clip).trans (if_pos h)⟩

end Desk

-- ============================================================== the strategies

section Strategy

variable {D : Type} [Double D] {tickerConfig : TickerID → TradeEngineConfig D}
  {featureEngine : FeatureEngine D} {tickerId : TickerID}

omit [Double D] in
theorem run_configAt_ok (h : tickerId.toNat < matchingEngineMaxTickers)
    (d : Desk) :
    (configAt tickerConfig tickerId).run d = .ok (tickerConfig tickerId) d := by
  unfold configAt
  rw [EStateM.run_bind, run_assert, if_pos (decide_eq_true h)]
  rfl

theorem exists_maker (h : tickerId.toNat < matchingEngineMaxTickers)
    (bbo : BBO) (d : Desk) : ∃ d', (MarketMaker.onOrderBookUpdate tickerConfig
      featureEngine tickerId bbo).run d = .ok () d' := by
  unfold MarketMaker.onOrderBookUpdate
  dsimp only
  split
  · rw [run_bind_ok (run_configAt_ok h d)]
    exact Desk.exists_moveOrders h _ _ _ d
  · exact ⟨d, rfl⟩

theorem exists_taker {marketUpdate : MatchingEngineMarketUpdate}
    (h : marketUpdate.tickerId.toNat < matchingEngineMaxTickers) (bbo : BBO)
    (d : Desk) : ∃ d', (LiquidityTaker.onTradeUpdate tickerConfig featureEngine
      marketUpdate bbo).run d = .ok () d' := by
  unfold LiquidityTaker.onTradeUpdate
  dsimp only
  split
  · rw [run_bind_ok (run_configAt_ok h d)]
    split
    · split
      · exact Desk.exists_moveOrders h _ _ _ d
      · exact Desk.exists_moveOrders h _ _ _ d
    · exact ⟨d, rfl⟩
  · exact ⟨d, rfl⟩

end Strategy

-- ========================================================== the trading client

namespace TradeEngine

variable {D : Type} [Double D] {s : TradeEngine D}

omit [Double D] in
/-- What happens at the desk leaves the books alone. -/
theorem exists_onDesk {x : Desk.Member Unit}
    (h : ∃ d', x.run s.desk = .ok () d') :
    ∃ s', (onDesk x).run s = .ok () s'
      ∧ s'.tickerOrderBook = s.tickerOrderBook := by
  obtain ⟨d', hd'⟩ := h
  exact ⟨_, run_zoom_ok hd', rfl⟩

theorem exists_onTradeUpdate {marketUpdate : MatchingEngineMarketUpdate}
    (h : marketUpdate.tickerId.toNat < matchingEngineMaxTickers)
    (book : MarketOrderBook) (s : TradeEngine D) :
    ∃ s', (onTradeUpdate marketUpdate book).run s = .ok () s'
      ∧ s'.tickerOrderBook = s.tickerOrderBook := by
  obtain ⟨t, ht⟩ : ∃ t : TradeEngine D, t = { s with
    featureEngine := s.featureEngine.onTradeUpdate marketUpdate book.bbo } :=
    ⟨_, rfl⟩
  have hbooks : t.tickerOrderBook = s.tickerOrderBook := by rw [ht]
  have hrun : (onTradeUpdate marketUpdate book).run s
      = (algoOnTradeUpdate marketUpdate book.bbo).run t := by
    rw [ht]
    rfl
  rw [hrun, ← hbooks]
  unfold algoOnTradeUpdate
  rw [EStateM.run_bind, EStateM.run_get]
  dsimp only
  split
  · exact exists_onDesk (exists_taker h _ _)
  · exact ⟨t, rfl, rfl⟩

theorem exists_onOrderBookUpdate {tickerId : TickerID}
    (h : tickerId.toNat < matchingEngineMaxTickers) (book : MarketOrderBook)
    (s : TradeEngine D) :
    ∃ s', (onOrderBookUpdate tickerId book).run s = .ok () s'
      ∧ s'.tickerOrderBook = s.tickerOrderBook := by
  obtain ⟨t, hbbo, hsame⟩ := exists_onDesk (s := s)
    (Desk.exists_updateBBO h book.bbo s.desk)
  obtain ⟨u, hu⟩ : ∃ u : TradeEngine D, u = { t with
    featureEngine := t.featureEngine.onOrderBookUpdate book.bbo } := ⟨_, rfl⟩
  have hbooks : u.tickerOrderBook = s.tickerOrderBook := by
    rw [hu]
    exact hsame
  have hrun : (onOrderBookUpdate tickerId book).run s
      = (algoOnOrderBookUpdate tickerId book.bbo).run u := by
    unfold onOrderBookUpdate
    rw [run_bind_ok hbbo, hu]
    rfl
  rw [hrun, ← hbooks]
  unfold algoOnOrderBookUpdate
  rw [EStateM.run_bind, EStateM.run_get]
  dsimp only
  split
  · exact exists_onDesk (exists_maker h _ _)
  · exact ⟨u, rfl, rfl⟩

/-- An update that its book can take is handled, and the book takes it. -/
theorem exists_marketUpdate {marketUpdate : MatchingEngineMarketUpdate}
    {notice : Notice} {book : MarketOrderBook}
    (h : marketUpdate.tickerId.toNat < matchingEngineMaxTickers)
    (hbook : (MarketOrderBook.onMarketUpdate marketUpdate).run
      (s.tickerOrderBook marketUpdate.tickerId) = .ok notice book) :
    ∃ s', Handles s (.marketUpdate marketUpdate) s'
      ∧ s'.tickerOrderBook = fun t =>
        if t = marketUpdate.tickerId then book else s.tickerOrderBook t := by
  obtain ⟨t, ht⟩ : ∃ t : TradeEngine D, t = { s with
    tickerOrderBook := fun t =>
      if t = marketUpdate.tickerId then book else s.tickerOrderBook t } :=
    ⟨_, rfl⟩
  have hassert : (assert (decide (marketUpdate.tickerId.toNat
      < matchingEngineMaxTickers)) .outOfRange).run s = .ok () s := by
    rw [run_assert, if_pos (decide_eq_true h)]
  have htake : (onBook marketUpdate.tickerId
      (MarketOrderBook.onMarketUpdate marketUpdate)).run s
      = .ok notice t := by
    rw [ht]
    exact run_zoom_ok hbook
  have hbooks : t.tickerOrderBook = fun t =>
      if t = marketUpdate.tickerId then book else s.tickerOrderBook t := by
    rw [ht]
  rw [← hbooks]
  show ∃ s', (onMarketUpdate marketUpdate).run s = .ok () s' ∧ _
  unfold onMarketUpdate
  rw [run_bind_ok hassert, run_bind_ok htake, EStateM.run_bind, EStateM.run_get]
  rcases MarketOrderBook.onMarketUpdate_notice hbook with rfl | rfl
  · exact exists_onTradeUpdate h _ t
  · exact exists_onOrderBookUpdate h _ t

/-- The market updates among the events. -/
def updatesIn (events : List Event) : List MatchingEngineMarketUpdate :=
  events.filterMap fun
    | .marketUpdate marketUpdate => some marketUpdate
    | .clientResponse _ => none

/-- One event. -/
theorem exists_event (s : TradeEngine D) {e : Event}
    (hresponse : ∀ m, .clientResponse m ∈ [e] → m.InRange)
    (hticker : ∀ u ∈ updatesIn [e], ∃ i, u.tickerId = tickerOf i)
    (hbooks : ∀ i, ∃ book, (MarketOrderBook.onMarketUpdates
      (about i (updatesIn [e]))).run (s.tickerOrderBook (tickerOf i))
        = .ok () book) :
    ∃ s', Handles s e s' ∧ ∀ i,
      (MarketOrderBook.onMarketUpdates (about i (updatesIn [e]))).run
        (s.tickerOrderBook (tickerOf i))
        = .ok () (s'.tickerOrderBook (tickerOf i)) := by
  cases e with
  | clientResponse m =>
      obtain ⟨s', hs', hsame⟩ := exists_onDesk (s := s)
        (Desk.exists_onOrderUpdate (hresponse m List.mem_cons_self) s.desk)
      refine ⟨s', hs', fun i => ?_⟩
      rw [hsame]
      rfl
  | marketUpdate u =>
      obtain ⟨i, hi⟩ := hticker u List.mem_cons_self
      have hmine : about i (updatesIn [.marketUpdate u]) = [u] :=
        List.filter_cons_of_pos (decide_eq_true hi)
      obtain ⟨book, hbook⟩ := hbooks i
      rw [hmine, ← hi] at hbook
      obtain ⟨notice, m, hupdate, hdone⟩ := run_bind_eq_ok hbook
      cases hdone
      have hin : u.tickerId.toNat < matchingEngineMaxTickers := by
        rw [hi, toNat_tickerOf]
        exact i.isLt
      obtain ⟨s', hs', hbooks'⟩ := exists_marketUpdate hin hupdate
      refine ⟨s', hs', fun j => ?_⟩
      rw [hbooks']
      dsimp only
      by_cases hj : j = i
      · rw [hj, hmine, hi, if_pos rfl, ← hi]
        exact hbook
      · have hne : tickerOf j ≠ u.tickerId := fun heq =>
          hj (tickerOf_injective (heq.trans hi))
        have hnone : about j (updatesIn [.marketUpdate u]) = [] :=
          List.filter_cons_of_neg (by simpa using fun heq => hne heq.symm)
        rw [hnone, if_neg hne]
        rfl

/-- Updates that the books can take, and responses in range, in any order. -/
theorem exists_run (s : TradeEngine D) {events : List Event}
    (hresponses : ∀ m, .clientResponse m ∈ events → m.InRange)
    (htickers : ∀ u ∈ updatesIn events, ∃ i, u.tickerId = tickerOf i)
    (hbooks : ∀ i, ∃ book, (MarketOrderBook.onMarketUpdates
      (about i (updatesIn events))).run (s.tickerOrderBook (tickerOf i))
        = .ok () book) :
    ∃ s', Run Handles s events s' ∧ ∀ i,
      (MarketOrderBook.onMarketUpdates (about i (updatesIn events))).run
        (s.tickerOrderBook (tickerOf i))
        = .ok () (s'.tickerOrderBook (tickerOf i)) := by
  induction events using List.reverseRecOn with
  | nil => exact ⟨s, .nil, fun _ => rfl⟩
  | append_singleton events e ih =>
      have hall : updatesIn (events ++ [e])
          = updatesIn events ++ updatesIn [e] := List.filterMap_append
      have hsplit : ∀ i, about i (updatesIn (events ++ [e]))
          = about i (updatesIn events) ++ about i (updatesIn [e]) := by
        intro i
        rw [hall]
        exact List.filter_append _ _
      have hfirst : ∀ i, ∃ book, (MarketOrderBook.onMarketUpdates
          (about i (updatesIn events))).run (s.tickerOrderBook (tickerOf i))
          = .ok () book := by
        intro i
        obtain ⟨book, hbook⟩ := hbooks i
        rw [hsplit, MarketOrderBook.run_onMarketUpdates_append] at hbook
        split at hbook
        · next m hm => exact ⟨m, hm⟩
        · cases hbook
      obtain ⟨t, hrun, ht⟩ := ih
        (fun m hm => hresponses m (List.mem_append_left _ hm))
        (fun u hu => htickers u (by rw [hall]; exact List.mem_append_left _ hu))
        hfirst
      have hlast : ∀ i, (MarketOrderBook.onMarketUpdates
          (about i (updatesIn (events ++ [e])))).run
            (s.tickerOrderBook (tickerOf i))
          = (MarketOrderBook.onMarketUpdates (about i (updatesIn [e]))).run
            (t.tickerOrderBook (tickerOf i)) := by
        intro i
        rw [hsplit, MarketOrderBook.run_onMarketUpdates_append, ht i]
      obtain ⟨s', hs', hbooks'⟩ := exists_event t
        (fun m hm => hresponses m (List.mem_append_right _ hm))
        (fun u hu => htickers u (by
          rw [hall]
          exact List.mem_append_right _ hu))
        fun i => by
          obtain ⟨book, hbook⟩ := hbooks i
          exact ⟨book, (hlast i).symm.trans hbook⟩
      exact ⟨s', hrun.snoc hs', fun i => (hlast i).trans (hbooks' i)⟩

-- ============================================================= from end to end

open MarketDataConsumer
open Reference (submitted)

/-- Whatever became of the packets: a client that starts at the last recovery
of its market data consumer, and takes what has been written since and any
responses in range, is never stopped; its books show what the exchange's own
updates show as of the number reached, and the exchange's levels when that is
the last one. -/
theorem exists_run_of_received {exchange : MatchingEngine}
    {rs : List MatchingEngineClientRequest}
    (h : Run MatchingEngine.CleanStep .new rs exchange)
    (hcount : (submitted rs).length < matchingEngineMaxOrderIds)
    (hshort : (updatesOf exchange.sent).length < 2 ^ 64)
    {received : List (Bool × List MDPMarketUpdate)} {ps : List Packet}
    (hpublished : List.Forall₂ (Published (updatesOf exchange.sent)) ps
      (deliveries received))
    (hunmixed : Unmixed ps) :
    ∃ before current m,
      (received.foldl recvCallback .new).incomingMdQueue = before ++ current
      ∧ (exchangeFeed (updatesOf exchange.sent) hshort).Writes before current m
      ∧ ((received.foldl recvCallback .new).inRecoveryMode = false →
        (received.foldl recvCallback .new).nextExpectedSequenceNumber
          = (m + 1) % 2 ^ 64)
      ∧ ∀ (clientId : ClientID) (algoType : AlgoType)
          (tickerConfig : TickerID → TradeEngineConfig D) (events : List Event),
        updatesIn events = current →
        (∀ r, .clientResponse r ∈ events → r.InRange) →
        ∃ s, Run Handles (new clientId algoType tickerConfig) events s
          ∧ ∀ i, ∃ book,
            (MarketOrderBook.onMarketUpdates
              (about i ((updatesOf exchange.sent).take m))).run
                MarketOrderBook.new = .ok () book
            ∧ (∀ b, (s.tickerOrderBook (tickerOf i)).ladder.levelViews b
              = book.ladder.levelViews b)
            ∧ (m = (updatesOf exchange.sent).length →
              ∀ b, (s.tickerOrderBook (tickerOf i)).ladder.levelViews b
                = ((exchange.tickerOrderBook i).ladder.levelViews b).map
                  LevelView.toMarket) := by
  obtain ⟨before, current, m, hqueue, hwrites, hnext⟩ :=
    MatchingEngine.written_of_received h hcount hshort hpublished hunmixed
  have hbooks := MatchingEngine.books_of_writes h hcount hwrites
  obtain ⟨hchanged, hadds⟩ := MatchingEngine.changed_of_run h hcount
  have htickers := hwrites.tickers (Nat.lt_of_le_of_lt hadds hcount) hchanged
  refine ⟨before, current, m, hqueue, hwrites, hnext,
    fun clientId algoType tickerConfig events hevents hresponses => ?_⟩
  rw [← hevents] at hbooks htickers
  obtain ⟨s, hrun, hs⟩ := exists_run (new clientId algoType tickerConfig)
    hresponses htickers fun i => by
      obtain ⟨book, -, hbook, -⟩ := hbooks i
      exact ⟨book, hbook⟩
  refine ⟨s, hrun, fun i => ?_⟩
  obtain ⟨book, book', hbook, hbook', hsame, hall⟩ := hbooks i
  have hown := hs i
  change (MarketOrderBook.onMarketUpdates _).run MarketOrderBook.new = _ at hown
  rw [hbook] at hown
  rw [← (EStateM.Result.ok.inj hown).2]
  exact ⟨book', hbook', hsame, hall⟩

omit [Double D] in
theorem updatesIn_map (us : List MatchingEngineMarketUpdate) :
    updatesIn (us.map .marketUpdate) = us := by
  unfold updatesIn
  rw [List.filterMap_map]
  exact List.filterMap_some

/-- A market maker that starts after a snapshot shows what the exchange has. -/
theorem exists_run_of_received_repeated : ∃ exchange before current,
    Run MatchingEngine.CleanStep .new [firstBid] exchange
      ∧ (repeated.foldl recvCallback .new).incomingMdQueue = before ++ current
      ∧ ∃ s : TradeEngine (Option ℚ),
        Run Handles (new 3 .maker maker.tickerConfig)
          (current.map .marketUpdate) s
        ∧ ∀ i b, (s.tickerOrderBook (tickerOf i)).ladder.levelViews b
          = ((exchange.tickerOrderBook i).ladder.levelViews b).map
            LevelView.toMarket := by
  obtain ⟨exchange, hrun, hupdates⟩ := exists_firstAdd
  obtain ⟨before, current, m, hqueue, hwrites, hnext, hall⟩ :=
    exists_run_of_received (D := Option ℚ) hrun (by decide)
      (by rw [hupdates]; decide) (by rw [hupdates]; exact published_repeated)
      (show Unmixed repeatedPackets by decide)
  have hlast : m = (updatesOf exchange.sent).length := by
    have hidle : (repeated.foldl recvCallback .new).inRecoveryMode = false := by
      decide
    have hm : m ≤ (updatesOf exchange.sent).length := hwrites.le
    rw [hupdates] at hm ⊢
    exact eq_one_of_next hm (hnext hidle)
  obtain ⟨s, hs, hbooks⟩ := hall 3 .maker maker.tickerConfig
    (current.map .marketUpdate) (updatesIn_map current) (by simp)
  refine ⟨exchange, before, current, hrun, hqueue, s, hs, fun i b => ?_⟩
  obtain ⟨book, -, -, hshown⟩ := hbooks i
  exact hshown hlast b

end TradeEngine

end ElectronicTrading
