/-
The position limit of a client that runs one of the two strategies.

What the trading client does on a market update is, for its desk, at most a
new BBO and a call of `moveOrders` (`calls_of_marketUpdate`), so that a run
of the client at the exchange is followed by a `TradingSession`. The market
updates may be any: nothing here hangs on what the feed says, nor on what the
machine makes of `double`s.
-/
import ElectronicTrading.Trading.Proofs.Strategies
import ElectronicTrading.Trading.Proofs.TradingSession

namespace ElectronicTrading

open Exec Runs Reference
open SnapshotSynthesizer (tickerOf)
open TradeEngine (quoter quotes)

variable {D : Type} [Double D]
  {tickerConfig : TickerID → TradeEngineConfig D}

-- ================================================================ the session

/-- A trading client, the exchange, and what is on its way between them. -/
structure StrategySession (D : Type) where
  tradeEngine : TradeEngine D
  requests : List MatchingEngineClientRequest
  engine : MatchingEngine
  responses : List MatchingEngineClientResponse

namespace StrategySession

def new (clientId : ClientID) (algoType : AlgoType)
    (tickerConfig : TickerID → TradeEngineConfig D) : StrategySession D where
  tradeEngine := .new clientId algoType tickerConfig
  requests := []
  engine := .new
  responses := []

inductive Act where
  | marketUpdate (marketUpdate : MatchingEngineMarketUpdate)
  | process
  | other (request : MatchingEngineClientRequest)
  | receive

/-- The session of its desk. -/
def toTradingSession (s : StrategySession D) : TradingSession where
  desk := s.tradeEngine.desk
  requests := s.requests
  engine := s.engine
  responses := s.responses

/-- The exchange has handled a request. -/
def answered (s : StrategySession D) (engine : MatchingEngine) :
    StrategySession D :=
  { s with
    engine := engine
    responses := (s.toTradingSession.answered engine).responses }

/-- A market update or a response that the client's thread takes, the
client's next request at the exchange, or another client's. -/
def Step (s : StrategySession D) (a : Act) (s' : StrategySession D) : Prop :=
  match a with
  | .marketUpdate marketUpdate =>
      ∃ tradeEngine, (TradeEngine.onEvent (.marketUpdate marketUpdate)).run
          s.tradeEngine = .ok () tradeEngine
        ∧ s' = { s with
          tradeEngine := tradeEngine
          requests := s.requests
            ++ tradeEngine.desk.orderManager.requests.drop
              s.tradeEngine.desk.orderManager.requests.length }
  | .process => ∃ request rest engine, s.requests = request :: rest
      ∧ MatchingEngine.Processed s.engine request engine
      ∧ s' = { s.answered engine with requests := rest }
  | .other request =>
      request.clientId ≠ s.tradeEngine.desk.orderManager.clientId
        ∧ ∃ engine, MatchingEngine.Processed s.engine request engine
          ∧ s' = s.answered engine
  | .receive => ∃ response rest tradeEngine, s.responses = response :: rest
      ∧ (TradeEngine.onEvent (.clientResponse response)).run s.tradeEngine
        = .ok () tradeEngine
      ∧ s' = { s with tradeEngine := tradeEngine, responses := rest }

/-- What the exchange handles is well formed, and safe for the slots of its
book. -/
def Clean (s : StrategySession D) (a : Act) : Prop :=
  match a with
  | .marketUpdate _ => True
  | .process => ∀ r ∈ s.requests.head?, s.engine.Safe r
  | .other request => s.engine.Safe request
  | .receive => True

variable {s s' : StrategySession D}

/-- A clean step of a trading session. -/
abbrev Follow (t : TradingSession) (a : TradingSession.Act)
    (t' : TradingSession) : Prop := t.Step a t' ∧ t.Clean a

/-- A market update's calls are steps of the desk's session. -/
theorem followed_marketUpdate
    (hclip : ∀ tickerId, (s.tradeEngine.tickerConfig tickerId).clip ≠ 0)
    {marketUpdate : MatchingEngineMarketUpdate}
    (h : Step s (.marketUpdate marketUpdate) s') :
    s'.tradeEngine.tickerConfig = s.tradeEngine.tickerConfig
      ∧ ∃ as, Run Follow s.toTradingSession as s'.toTradingSession := by
  obtain ⟨tradeEngine, hrun, rfl⟩ := h
  obtain ⟨⟨hconfig, -⟩, d, hbbo, hmoved⟩ :=
    TradeEngine.calls_of_marketUpdate hrun
  refine ⟨hconfig, ?_⟩
  -- up to the call of `moveOrders`
  obtain ⟨as, hbefore, hrequests⟩ : ∃ as, Run Follow s.toTradingSession as
      { s.toTradingSession with desk := d }
      ∧ d.orderManager.requests
        = s.tradeEngine.desk.orderManager.requests := by
    rcases hbbo with rfl | ⟨bbo, hbbo⟩
    · exact ⟨[], .nil, rfl⟩
    · have hstep : Follow s.toTradingSession
          (.updateBBO marketUpdate.tickerId bbo)
          { s.toTradingSession with desk := d } := ⟨⟨d, hbbo, rfl⟩, trivial⟩
      refine ⟨_, Run.nil.snoc hstep, ?_⟩
      rw [(Desk.updateBBO_cases hbbo).2]
  rcases hmoved with hsame | ⟨bidPrice, askPrice, -, hmove⟩
  · refine ⟨as, ?_⟩
    have hnone : s.requests ++ tradeEngine.desk.orderManager.requests.drop
        s.tradeEngine.desk.orderManager.requests.length = s.requests := by
      rw [hsame, hrequests, List.drop_length, List.append_nil]
    unfold toTradingSession at hbefore ⊢
    rw [hnone, hsame]
    exact hbefore
  · have hstep : Follow { s.toTradingSession with desk := d }
        (.moveOrders marketUpdate.tickerId bidPrice askPrice
          (s.tradeEngine.tickerConfig marketUpdate.tickerId).clip)
        { s.toTradingSession with
          desk := tradeEngine.desk
          requests := s.requests ++ tradeEngine.desk.orderManager.requests.drop
            s.tradeEngine.desk.orderManager.requests.length } := by
      refine ⟨⟨tradeEngine.desk, hmove, ?_⟩,
        fun _ => hclip marketUpdate.tickerId⟩
      rw [← hrequests]
      rfl
    exact ⟨_, hbefore.snoc hstep⟩

/-- A run of the client is followed by one of its desk's session. -/
theorem followed_of_run {c : ClientID} {algoType : AlgoType}
    (hclip : ∀ tickerId, (tickerConfig tickerId).clip ≠ 0) {as : List Act}
    (h : Run (fun s a s' => Step s a s' ∧ Clean s a)
      (new c algoType tickerConfig) as s) :
    ∃ as', Run Follow
      (.new c fun tickerId => (tickerConfig tickerId).riskConfig) as'
      s.toTradingSession := by
  have hsimulated : ∃ as' t, Run Follow
      (.new c fun tickerId => (tickerConfig tickerId).riskConfig) as' t
      ∧ t = s.toTradingSession
      ∧ s.tradeEngine.tickerConfig = tickerConfig := by
    refine h.simulated (R := fun s t => t = s.toTradingSession
      ∧ s.tradeEngine.tickerConfig = tickerConfig) ⟨rfl, rfl⟩ ?_
    rintro _ s a s' _ _ _ _ ⟨rfl, hconfig⟩ ⟨hstep, hclean⟩
    cases a with
    | marketUpdate marketUpdate =>
        rw [← hconfig] at hclip
        obtain ⟨hsame, as', hrun⟩ := followed_marketUpdate hclip hstep
        exact ⟨as', _, hrun, rfl, hsame.trans hconfig⟩
    | process =>
        obtain ⟨r, rest, engine, hrequests, hprocessed, rfl⟩ := hstep
        have hfollow : Follow s.toTradingSession .process
            { s.toTradingSession.answered engine with requests := rest } :=
          ⟨⟨r, rest, engine, hrequests, hprocessed, rfl⟩, hclean⟩
        exact ⟨_, _, Run.nil.snoc hfollow, rfl, hconfig⟩
    | other r =>
        obtain ⟨hother, engine, hprocessed, rfl⟩ := hstep
        have hfollow : Follow s.toTradingSession (.other r)
            (s.toTradingSession.answered engine) :=
          ⟨⟨hother, engine, hprocessed, rfl⟩, hclean⟩
        exact ⟨_, _, Run.nil.snoc hfollow, rfl, hconfig⟩
    | receive =>
        obtain ⟨m, rest, tradeEngine, hresponses, hrun, rfl⟩ := hstep
        obtain ⟨hdesk, hsame⟩ := TradeEngine.onDesk_eq_ok hrun
        have hfollow : Follow s.toTradingSession .receive
            { s.toTradingSession with
              desk := tradeEngine.desk
              responses := rest } :=
          ⟨⟨m, rest, tradeEngine.desk, hresponses, hdesk, rfl⟩, trivial⟩
        rw [hsame]
        exact ⟨_, _, Run.nil.snoc hfollow, rfl, hconfig⟩
  obtain ⟨as', t, hrun, rfl, -⟩ := hsimulated
  exact ⟨as', hrun⟩

/-- With either strategy, and whatever the market data says, the position is
within its limit. -/
theorem strategy_limited {c : ClientID} {algoType : AlgoType}
    (hclip : ∀ tickerId, (tickerConfig tickerId).clip ≠ 0)
    (hmoderate : Moderate fun tickerId => (tickerConfig tickerId).riskConfig)
    {as : List Act}
    (h : Run (fun s a s' => Step s a s' ∧ Clean s a)
      (new c algoType tickerConfig) as s) (i : Fin matchingEngineMaxTickers) :
    s.toTradingSession.WithinLimit c i
      (tickerConfig (tickerOf i)).riskConfig.maxPosition.toNat := by
  obtain ⟨as', hrun⟩ := followed_of_run hclip h
  obtain ⟨market, hmarket, hs⟩ :=
    TradingSession.exists_followed hmoderate hrun
  exact hs.withinLimit hmarket i

-- ================================================================= two quotes

/-- `Step`, computed. -/
def act (s : StrategySession (Option ℚ)) :
    Act → Option (StrategySession (Option ℚ))
  | .marketUpdate marketUpdate =>
      (s.tradeEngine.handle (.marketUpdate marketUpdate)).map
        fun tradeEngine => { s with
          tradeEngine := tradeEngine
          requests := s.requests
            ++ tradeEngine.desk.orderManager.requests.drop
              s.tradeEngine.desk.orderManager.requests.length }
  | .process => s.requests.head?.bind fun request =>
      (returned ((MatchingEngine.processClientRequest request).run
        s.engine)).map fun engine =>
          { s.answered engine with requests := s.requests.tail }
  | .other request =>
      if request.clientId ≠ s.tradeEngine.desk.orderManager.clientId then
        (returned ((MatchingEngine.processClientRequest request).run
          s.engine)).map s.answered
      else none
  | .receive => s.responses.head?.bind fun response =>
      (s.tradeEngine.handle (.clientResponse response)).map
        fun tradeEngine =>
          { s with tradeEngine := tradeEngine, responses := s.responses.tail }

theorem step_of_act {s s' : StrategySession (Option ℚ)} {a : Act}
    (h : s.act a = some s') : Step s a s' := by
  cases a with
  | marketUpdate marketUpdate =>
      obtain ⟨tradeEngine, hhandle, rfl⟩ := Option.map_eq_some_iff.1 h
      exact ⟨tradeEngine, TradeEngine.handles_of_handle hhandle, rfl⟩
  | process =>
      obtain ⟨request, hhead, hsome⟩ := Option.bind_eq_some_iff.1 h
      obtain ⟨engine, hengine, rfl⟩ := Option.map_eq_some_iff.1 hsome
      obtain ⟨rest, hrequests⟩ := List.head?_eq_some_iff.1 hhead
      refine ⟨request, rest, engine, hrequests, returned_eq_some hengine, ?_⟩
      rw [hrequests]
      rfl
  | other request =>
      obtain ⟨hother, hsome⟩ := Option.ite_none_right_eq_some.1 h
      obtain ⟨engine, hengine, rfl⟩ := Option.map_eq_some_iff.1 hsome
      exact ⟨hother, engine, returned_eq_some hengine, rfl⟩
  | receive =>
      obtain ⟨response, hhead, hsome⟩ := Option.bind_eq_some_iff.1 h
      obtain ⟨tradeEngine, hhandle, rfl⟩ := Option.map_eq_some_iff.1 hsome
      obtain ⟨rest, hresponses⟩ := List.head?_eq_some_iff.1 hhead
      refine ⟨response, rest, tradeEngine, hresponses,
        TradeEngine.handles_of_handle hhandle, ?_⟩
      rw [hresponses]
      rfl

instance (s : StrategySession D) (a : Act) : Decidable (s.Clean a) :=
  match a with
  | .marketUpdate _ | .receive => .isTrue trivial
  | .process =>
      inferInstanceAs (Decidable (∀ r ∈ s.requests.head?, s.engine.Safe r))
  | .other request => inferInstanceAs (Decidable (s.engine.Safe request))

/-- A market maker's two quotes come to the exchange, and another client
sells to the bid twice; the market maker takes three answers. -/
def soldTo : List Act :=
  quotes.map .marketUpdate
    ++ [.process, .process, .other ⟨.new, 1, 0, 5, .sell, 100, 4⟩,
      .other ⟨.new, 1, 0, 6, .sell, 100, 3⟩, .receive, .receive, .receive]

/-- It knows of the first fill only. -/
theorem strategy_limited_soldTo : ∃ s,
    Run (fun s a s' => Step s a s' ∧ Clean s a) (new 0 .maker quoter) soldTo s
      ∧ s.toTradingSession.position Session.firstTicker = 4
      ∧ s.toTradingSession.exchangePosition Session.firstTicker = 7
      ∧ s.toTradingSession.WithinLimit 0 Session.firstTicker 100 := by
  have hmoderate : Moderate fun tickerId => (quoter tickerId).riskConfig := by
    intro tickerId
    show (100 : Quantity).toNat < 2 ^ 30 ∧ (100 : Quantity).toNat < 2 ^ 30
    decide
  have hclip : ∀ tickerId, (quoter tickerId).clip ≠ 0 := by
    intro tickerId
    show (10 : Quantity) ≠ 0
    decide
  obtain ⟨s, hrun, hknown, hexecuted⟩ := Run.exists_of_guarded
    (P := fun s a _ => Clean s a)
    (fun s a s' hact => (step_of_act hact : Step s a s'))
    (new 0 .maker quoter) soldTo
    (fun s => s.toTradingSession.position Session.firstTicker = 4
      ∧ s.toTradingSession.exchangePosition Session.firstTicker = 7)
    (by decide +kernel)
  exact ⟨s, hrun, hknown, hexecuted,
    strategy_limited hclip hmoderate hrun Session.firstTicker⟩

end StrategySession

end ElectronicTrading
