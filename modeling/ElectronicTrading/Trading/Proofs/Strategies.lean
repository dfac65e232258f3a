/-
What the two strategies send, and why.

A strategy reads the book and the features and then calls `moveOrders` once
or not at all, for the ticker of the update, with its clip. `Quotes` says
for which prices: a market maker's are on its side of the market, at the
best price or a tick behind it, and a liquidity taker's is the best price of
the other side. So every order in the log of requests goes back to one
market update, the book it left and a risk check at that moment
(`sent_on_update`); the responses send nothing.
-/
import ElectronicTrading.Trading.Proofs.Isolation
import ElectronicTrading.Trading.Proofs.LossLimit

namespace ElectronicTrading

open Exec Runs

-- ================================================================= the prices

/-- A market maker's two prices. -/
def MakerPrices (bbo : BBO) (bidPrice askPrice : Price) : Prop :=
  ∃ t u : Int, (t = 0 ∨ t = 1) ∧ (u = 0 ∨ u = 1)
    ∧ bidPrice = int64 (bbo.bestBidPrice - t)
    ∧ askPrice = int64 (bbo.bestAskPrice + u)

/-- A liquidity taker's, after a trade. -/
def TakerPrices (marketUpdate : MatchingEngineMarketUpdate) (bbo : BBO)
    (bidPrice askPrice : Price) : Prop :=
  if marketUpdate.side = .buy then
    bidPrice = bbo.bestAskPrice ∧ askPrice = priceInvalid
  else bidPrice = priceInvalid ∧ askPrice = bbo.bestBidPrice

/-- What a strategy may ask for on an update that left the book with a
BBO. -/
structure Quotes (algoType : AlgoType)
    (marketUpdate : MatchingEngineMarketUpdate) (bbo : BBO)
    (bidPrice askPrice : Price) : Prop where
  quoted : bbo.IsQuoted
  maker : algoType = .maker →
    marketUpdate.type ≠ .trade ∧ MakerPrices bbo bidPrice askPrice
  taker : algoType ≠ .maker →
    marketUpdate.type = .trade ∧ TakerPrices marketUpdate bbo bidPrice askPrice

/-- The best prices of a market that is not crossed, neither of them at the
end of the range. -/
def BBO.Sound (bbo : BBO) : Prop :=
  priceMin < bbo.bestBidPrice ∧ bbo.bestBidPrice < bbo.bestAskPrice
    ∧ bbo.bestAskPrice < priceInvalid

/-- A tick behind the best prices is still between the ends of the range. -/
theorem ticks_passive {bid ask t u : Int} (hlow : -2 ^ 63 < bid)
    (hmarket : bid < ask) (hhigh : ask < 2 ^ 63 - 1) (ht : t = 0 ∨ t = 1)
    (hu : u = 0 ∨ u = 1) : int64 (bid - t) < ask ∧ bid < int64 (ask + u) := by
  have hbid : int64 (bid - t) = bid - t :=
    Int.bmod_eq_of_le (by omega) (by omega)
  have hask : int64 (ask + u) = ask + u :=
    Int.bmod_eq_of_le (by omega) (by omega)
  omega

/-- A market maker's orders stay on their side of the market. -/
theorem MakerPrices.passive {bbo : BBO} {bidPrice askPrice : Price}
    (h : MakerPrices bbo bidPrice askPrice) (hsound : bbo.Sound) :
    bidPrice < bbo.bestAskPrice ∧ bbo.bestBidPrice < askPrice := by
  obtain ⟨t, u, ht, hu, rfl, rfl⟩ := h
  obtain ⟨hlow, hmarket, hhigh⟩ := hsound
  exact ticks_passive hlow hmarket hhigh ht hu

variable {D : Type} [Double D]
  {tickerConfig : TickerID → TradeEngineConfig D}

theorem makerPrices (bbo : BBO) (fairPrice threshold : D) :
    MakerPrices bbo (MarketMaker.bidPrice bbo fairPrice threshold)
      (MarketMaker.askPrice bbo fairPrice threshold) := by
  have htick : ∀ p : Bool, (if p = true then (0 : Int) else 1) = 0
      ∨ (if p = true then (0 : Int) else 1) = 1 := by
    intro p
    cases p
    · exact Or.inr rfl
    · exact Or.inl rfl
  exact ⟨_, _, htick _, htick _, rfl, rfl⟩

-- =================================================================== the desk

/-- A desk after one call of `moveOrders`, at some prices, or none. -/
def Desk.Moved (P : Price → Price → Prop) (tickerId : TickerID)
    (clip : Quantity) (d d' : Desk) : Prop :=
  d' = d ∨ ∃ bidPrice askPrice, P bidPrice askPrice
    ∧ (Desk.moveOrders tickerId bidPrice askPrice clip).run d = .ok () d'

section Strategy

variable {d d' : Desk} {bbo : BBO} {featureEngine : FeatureEngine D}

theorem Desk.Moved.mono {P Q : Price → Price → Prop} {tickerId : TickerID}
    {clip : Quantity} (h : Desk.Moved P tickerId clip d d')
    (himp : ∀ bidPrice askPrice, P bidPrice askPrice →
      Q bidPrice askPrice) : Desk.Moved Q tickerId clip d d' := by
  rcases h with hsame | ⟨bidPrice, askPrice, hP, hmove⟩
  · exact Or.inl hsame
  · exact Or.inr ⟨bidPrice, askPrice, himp _ _ hP, hmove⟩

omit [Double D] in
theorem run_configAt {tickerId : TickerID} {config : TradeEngineConfig D}
    (h : (configAt tickerConfig tickerId).run d = .ok config d') :
    config = tickerConfig tickerId ∧ d' = d := by
  obtain ⟨_, t, hassert, h⟩ := run_bind_eq_ok h
  rw [run_assert] at hassert
  split at hassert
  · cases hassert
    cases h
    exact ⟨rfl, rfl⟩
  · cases hassert

theorem moved_of_maker {tickerId : TickerID}
    (h : (MarketMaker.onOrderBookUpdate tickerConfig featureEngine tickerId
      bbo).run d = .ok () d') :
    Desk.Moved (fun bidPrice askPrice => bbo.IsQuoted
        ∧ MakerPrices bbo bidPrice askPrice)
      tickerId (tickerConfig tickerId).clip d d' := by
  unfold MarketMaker.onOrderBookUpdate at h
  dsimp only at h
  split at h
  · next hguard =>
      obtain ⟨config, t, hconfig, hrun⟩ := run_bind_eq_ok h
      obtain ⟨hc, ht⟩ := run_configAt hconfig
      rw [hc, ht] at hrun
      exact Or.inr ⟨_, _, ⟨hguard.1, makerPrices _ _ _⟩, hrun⟩
  · cases h
    exact Or.inl rfl

theorem moved_of_taker {marketUpdate : MatchingEngineMarketUpdate}
    (h : (LiquidityTaker.onTradeUpdate tickerConfig featureEngine marketUpdate
      bbo).run d = .ok () d') :
    Desk.Moved (fun bidPrice askPrice => bbo.IsQuoted
        ∧ TakerPrices marketUpdate bbo bidPrice askPrice)
      marketUpdate.tickerId (tickerConfig marketUpdate.tickerId).clip d
      d' := by
  unfold LiquidityTaker.onTradeUpdate at h
  dsimp only at h
  split at h
  · next hguard =>
      obtain ⟨config, t, hconfig, hrun⟩ := run_bind_eq_ok h
      obtain ⟨hc, ht⟩ := run_configAt hconfig
      rw [hc, ht] at hrun
      split at hrun
      · split at hrun
        · next hside =>
            refine Or.inr ⟨_, _, ⟨hguard.1, ?_⟩, hrun⟩
            unfold TakerPrices
            rw [if_pos hside]
            exact ⟨rfl, rfl⟩
        · next hside =>
            refine Or.inr ⟨_, _, ⟨hguard.1, ?_⟩, hrun⟩
            unfold TakerPrices
            rw [if_neg hside]
            exact ⟨rfl, rfl⟩
      · cases hrun
        exact Or.inl rfl
  · cases h
    exact Or.inl rfl

end Strategy

/-- A new order, as a call of `moveOrders` sends it. -/
structure Desk.Placed (d : Desk) (tickerId : TickerID)
    (bidPrice askPrice : Price) (clip : Quantity)
    (r : MatchingEngineClientRequest) : Prop where
  client : r.clientId = d.orderManager.clientId
  ticker : r.tickerId = tickerId
  quantity : r.quantity = clip
  price : (r.side = .buy ∧ r.price = bidPrice)
    ∨ (r.side = .sell ∧ r.price = askPrice)
  valid : r.price ≠ priceInvalid
  allowed : d.riskManager.checkPreTradeRisk d.positionKeeper tickerId r.side
    clip = .allowed

/-- The new order that a slot sends. -/
theorem OrderManager.new_of_moveRequests {s : OrderManager}
    {risk : PreTradeRisk} {order : Slot} {tickerId : TickerID} {price : Price}
    {side : Side} {quantity : Quantity} {r : MatchingEngineClientRequest}
    (h : r ∈ s.moveRequests risk order tickerId price side quantity)
    (hnew : r.type = .new) :
    r = s.newRequest tickerId price side quantity ∧ price ≠ priceInvalid
      ∧ risk tickerId side quantity = .allowed := by
  unfold moveRequests at h
  split at h
  · rw [List.mem_singleton.1 h] at hnew
    cases hnew
  · split at h
    · next hfree => exact ⟨List.mem_singleton.1 h, hfree.2⟩
    · cases h

/-- Moving an order keeps the client's id. -/
theorem OrderManager.moved_clientId {s : OrderManager} (risk : PreTradeRisk)
    (order : Slot) (tickerId : TickerID) (price : Price) (side : Side)
    (quantity : Quantity) :
    (s.moved risk order tickerId price side quantity).clientId
      = s.clientId := by
  unfold moved
  split
  · rfl
  · split
    · rfl
    · rfl

/-- What a call of `moveOrders` adds to the log. -/
theorem Desk.placed_of_moveOrders {d d' : Desk} {tickerId : TickerID}
    {bidPrice askPrice : Price} {clip : Quantity}
    (h : (Desk.moveOrders tickerId bidPrice askPrice clip).run d
      = .ok () d') :
    ∃ l, d'.orderManager.requests = d.orderManager.requests ++ l
      ∧ (∀ r ∈ l, r.type = .new →
        d'.Placed tickerId bidPrice askPrice clip r) := by
  obtain ⟨-, rfl⟩ := moveOrders_cases h
  obtain ⟨risk, hrisk⟩ : ∃ risk, risk
    = d.riskManager.checkPreTradeRisk d.positionKeeper := ⟨_, rfl⟩
  obtain ⟨om, hom⟩ : ∃ om, om = d.orderManager.moved risk
    (tickerId, sideToIndex .buy) tickerId bidPrice .buy clip := ⟨_, rfl⟩
  have hclient : om.clientId = d.orderManager.clientId := by
    rw [hom]
    exact OrderManager.moved_clientId ..
  have hdesk : d.movedOrders tickerId bidPrice askPrice clip = { d with
      orderManager := om.moved risk (tickerId, sideToIndex .sell) tickerId
        askPrice .sell clip } := by
    rw [hom, hrisk]
    rfl
  have hclient' : (d.movedOrders tickerId bidPrice askPrice
      clip).orderManager.clientId = d.orderManager.clientId := by
    rw [hdesk, ← hclient]
    exact OrderManager.moved_clientId ..
  refine ⟨d.orderManager.moveRequests risk (tickerId, sideToIndex .buy)
      tickerId bidPrice .buy clip
    ++ om.moveRequests risk (tickerId, sideToIndex .sell) tickerId askPrice
      .sell clip, ?_, fun r hr hnew => ?_⟩
  · rw [hdesk]
    dsimp only
    rw [OrderManager.moved_requests, hom, OrderManager.moved_requests,
      List.append_assoc]
  · rcases List.mem_append.1 hr with hbid | hask
    · obtain ⟨rfl, hvalid, hallowed⟩ :=
        OrderManager.new_of_moveRequests hbid hnew
      rw [hrisk] at hallowed
      exact ⟨hclient'.symm, rfl, rfl, Or.inl ⟨rfl, rfl⟩, hvalid, hallowed⟩
    · obtain ⟨rfl, hvalid, hallowed⟩ :=
        OrderManager.new_of_moveRequests hask hnew
      rw [hrisk] at hallowed
      exact ⟨hclient.trans hclient'.symm, rfl, rfl, Or.inr ⟨rfl, rfl⟩, hvalid,
        hallowed⟩

-- ========================================================= the trading client

namespace TradeEngine

variable {s s' : TradeEngine D}

omit [Double D] in
/-- A program on the desk is no other part's concern. -/
theorem onDesk_eq_ok {x : Desk.Member Unit} (h : (onDesk x).run s = .ok () s') :
    x.run s.desk = .ok () s'.desk ∧ s' = { s with desk := s'.desk } := by
  obtain ⟨d, hx, rfl⟩ := run_zoom_eq_ok h
  exact ⟨hx, rfl⟩

theorem moved_of_orderBookUpdate {marketUpdate : MatchingEngineMarketUpdate}
    {bbo : BBO} (htype : marketUpdate.type ≠ .trade)
    (h : (algoOnOrderBookUpdate marketUpdate.tickerId bbo).run s
      = .ok () s') :
    Desk.Moved (Quotes s.algoType marketUpdate bbo) marketUpdate.tickerId
        (s.tickerConfig marketUpdate.tickerId).clip s.desk s'.desk
      ∧ s' = { s with desk := s'.desk } := by
  unfold algoOnOrderBookUpdate at h
  rw [EStateM.run_bind, EStateM.run_get] at h
  dsimp only at h
  split at h
  · next hmaker =>
      obtain ⟨hrun, hsame⟩ := onDesk_eq_ok h
      refine ⟨(moved_of_maker hrun).mono fun _ _ hprices => ?_, hsame⟩
      exact ⟨hprices.1, fun _ => ⟨htype, hprices.2⟩,
        fun hother => (hother hmaker).elim⟩
  · cases h
    exact ⟨Or.inl rfl, rfl⟩

theorem moved_of_tradeUpdate {marketUpdate : MatchingEngineMarketUpdate}
    {bbo : BBO} (htype : marketUpdate.type = .trade)
    (h : (algoOnTradeUpdate marketUpdate bbo).run s = .ok () s') :
    Desk.Moved (Quotes s.algoType marketUpdate bbo) marketUpdate.tickerId
        (s.tickerConfig marketUpdate.tickerId).clip s.desk s'.desk
      ∧ s' = { s with desk := s'.desk } := by
  unfold algoOnTradeUpdate at h
  rw [EStateM.run_bind, EStateM.run_get] at h
  dsimp only at h
  split at h
  · next htaker =>
      obtain ⟨hrun, hsame⟩ := onDesk_eq_ok h
      refine ⟨(moved_of_taker hrun).mono fun _ _ hprices => ?_, hsame⟩
      exact ⟨hprices.1, fun hmaker => (htaker hmaker).elim,
        fun _ => ⟨htype, hprices.2⟩⟩
  · cases h
    exact ⟨Or.inl rfl, rfl⟩

/-- A book hands a trade on as it came, and reports anything else as a
change of the book. -/
theorem notice_of_update {marketUpdate : MatchingEngineMarketUpdate}
    {book book' : MarketOrderBook} {notice : Notice}
    (h : (MarketOrderBook.onMarketUpdate marketUpdate).run book
      = .ok notice book') :
    (marketUpdate.type = .trade ∧ notice = .onTradeUpdate marketUpdate)
      ∨ (marketUpdate.type ≠ .trade ∧ notice = .onOrderBookUpdate
        marketUpdate.tickerId marketUpdate.price marketUpdate.side) := by
  unfold MarketOrderBook.onMarketUpdate at h
  obtain ⟨bidUpdated, t, -, h⟩ := run_bind_eq_ok h
  obtain ⟨askUpdated, u, -, h⟩ := run_bind_eq_ok h
  split at h
  · next htype =>
      cases h
      exact Or.inl ⟨htype, rfl⟩
  · next htype =>
      obtain ⟨_, v, -, h⟩ := run_bind_eq_ok h
      obtain ⟨_, w, -, h⟩ := run_bind_eq_ok h
      cases h
      exact Or.inr ⟨htype, rfl⟩

/-- What a market update comes to at the desk: a new BBO or none, and a call
of `moveOrders` or none. -/
theorem calls_of_marketUpdate {marketUpdate : MatchingEngineMarketUpdate}
    (h : (onMarketUpdate marketUpdate).run s = .ok () s') :
    (s'.tickerConfig = s.tickerConfig ∧ s'.algoType = s.algoType) ∧ ∃ d,
      (d = s.desk ∨ ∃ bbo,
        (Desk.updateBBO marketUpdate.tickerId bbo).run s.desk = .ok () d)
      ∧ Desk.Moved (Quotes s.algoType marketUpdate
          (s'.tickerOrderBook marketUpdate.tickerId).bbo)
        marketUpdate.tickerId (s.tickerConfig marketUpdate.tickerId).clip d
        s'.desk := by
  unfold onMarketUpdate at h
  obtain ⟨_, t, hassert, h⟩ := run_bind_eq_ok h
  rw [run_assert] at hassert
  split at hassert
  · cases hassert
    obtain ⟨notice, u, hbook, h⟩ := run_bind_eq_ok h
    obtain ⟨book, hupdate, rfl⟩ := run_zoom_eq_ok hbook
    rw [EStateM.run_bind, EStateM.run_get] at h
    rcases notice_of_update hupdate with ⟨htype, rfl⟩ | ⟨htype, rfl⟩
    · -- a trade: the features, then the strategy
      dsimp only at h
      unfold onTradeUpdate at h
      obtain ⟨_, v, hmodify, h⟩ := run_bind_eq_ok h
      cases hmodify
      obtain ⟨hmoved, hsame⟩ := moved_of_tradeUpdate htype h
      rw [hsame]
      exact ⟨⟨rfl, rfl⟩, _, Or.inl rfl, hmoved⟩
    · dsimp only at h
      unfold onOrderBookUpdate at h
      obtain ⟨_, v, hbbo, h⟩ := run_bind_eq_ok h
      obtain ⟨_, w, hmodify, h⟩ := run_bind_eq_ok h
      cases hmodify
      obtain ⟨hrun, hv⟩ := onDesk_eq_ok hbbo
      obtain ⟨hmoved, hsame⟩ := moved_of_orderBookUpdate htype h
      rw [hsame]
      rw [hv] at hmoved ⊢
      exact ⟨⟨rfl, rfl⟩, _, Or.inr ⟨_, hrun⟩, hmoved⟩
  · cases hassert

/-- The BBO of an update's book, once it has been worked off. -/
def bboAfter (s : TradeEngine D) (marketUpdate : MatchingEngineMarketUpdate) :
    BBO :=
  (s.tickerOrderBook marketUpdate.tickerId).bbo

/-- An order that was sent on the update that has led to `s`. -/
def SentOn (s : TradeEngine D) (marketUpdate : MatchingEngineMarketUpdate)
    (r : MatchingEngineClientRequest) : Prop :=
  ∃ bidPrice askPrice,
    Quotes s.algoType marketUpdate (s.bboAfter marketUpdate) bidPrice askPrice
      ∧ s.desk.Placed marketUpdate.tickerId bidPrice askPrice
        (s.tickerConfig marketUpdate.tickerId).clip r

/-- A response adds nothing to the log. -/
theorem requests_of_response {m : MatchingEngineClientResponse}
    (h : Handles s (.clientResponse m) s') :
    s'.desk.orderManager.requests = s.desk.orderManager.requests
      ∧ s'.tickerConfig = s.tickerConfig ∧ s'.algoType = s.algoType := by
  obtain ⟨hrun, hsame⟩ := onDesk_eq_ok h
  obtain ⟨-, hdesk⟩ := Desk.onOrderUpdate_cases hrun
  rw [hsame, hdesk]
  exact ⟨rfl, rfl, rfl⟩

/-- What an event adds to the log. -/
theorem requests_of_handles {event : Event} (h : Handles s event s') :
    (s'.tickerConfig = s.tickerConfig ∧ s'.algoType = s.algoType) ∧
    ∃ l, s'.desk.orderManager.requests = s.desk.orderManager.requests ++ l
      ∧ ∀ r ∈ l, r.type = .new → ∃ marketUpdate,
        event = .marketUpdate marketUpdate ∧ s'.SentOn marketUpdate r := by
  cases event with
  | clientResponse m =>
      obtain ⟨hrequests, hsame⟩ := requests_of_response h
      rw [hrequests]
      exact ⟨hsame, [], (List.append_nil _).symm, List.forall_mem_nil _⟩
  | marketUpdate m =>
      obtain ⟨⟨hconfig, halgo⟩, d, hbbo, hmoved⟩ := calls_of_marketUpdate h
      refine ⟨⟨hconfig, halgo⟩, ?_⟩
      have hbefore : d.orderManager.requests
          = s.desk.orderManager.requests := by
        rcases hbbo with hsame | ⟨bbo, hbbo⟩
        · rw [hsame]
        · rw [(Desk.updateBBO_cases hbbo).2]
      rw [← hbefore]
      rcases hmoved with hsame | ⟨bidPrice, askPrice, hquotes, hmove⟩
      · rw [hsame]
        exact ⟨[], (List.append_nil _).symm, List.forall_mem_nil _⟩
      · obtain ⟨l, hl, hplaced⟩ := Desk.placed_of_moveOrders hmove
        refine ⟨l, hl, fun r hr hnew => ⟨m, rfl, bidPrice, askPrice, ?_, ?_⟩⟩
        · rw [halgo]
          exact hquotes
        · rw [hconfig]
          exact hplaced r hr hnew

/-- The `k`-th request of the log was sent while one update of the run was
worked off: it was not in the log before, it is in it after, and so it was
sent on that update. -/
def SentDuring (init : TradeEngine D) (events : List Event)
    (s : TradeEngine D) (k : Nat) (r : MatchingEngineClientRequest)
    (marketUpdate : MatchingEngineMarketUpdate) (s₀ : TradeEngine D) : Prop :=
  ∃ before after s₁, events = before ++ .marketUpdate marketUpdate :: after
    ∧ Run Handles init before s₁
    ∧ Handles s₁ (.marketUpdate marketUpdate) s₀
    ∧ Run Handles s₀ after s
    ∧ s₁.desk.orderManager.requests.length ≤ k
    ∧ s₀.desk.orderManager.requests[k]? = some r
    ∧ s₀.algoType = init.algoType ∧ s₀.tickerConfig = init.tickerConfig
    ∧ s₀.SentOn marketUpdate r

/-- One more event. -/
theorem SentDuring.snoc {init s₀ : TradeEngine D} {events : List Event}
    {k : Nat} {r : MatchingEngineClientRequest}
    {marketUpdate : MatchingEngineMarketUpdate} {event : Event}
    (h : SentDuring init events s k r marketUpdate s₀)
    (hstep : Handles s event s') :
    SentDuring init (events ++ [event]) s' k r marketUpdate s₀ := by
  obtain ⟨before, after, s₁, hevents, hbefore, hone, hafter, hrest⟩ := h
  refine ⟨before, after ++ [event], s₁, ?_, hbefore, hone, hafter.snoc hstep,
    hrest⟩
  rw [hevents, List.append_assoc, List.cons_append]

/-- Every NEW of a run's log was sent during an update of the run. -/
theorem exists_sentDuring {init : TradeEngine D}
    (hnone : init.desk.orderManager.requests = []) {events : List Event}
    (h : Run Handles init events s) :
    (s.algoType = init.algoType ∧ s.tickerConfig = init.tickerConfig)
      ∧ ∀ k r, s.desk.orderManager.requests[k]? = some r → r.type = .new →
        ∃ marketUpdate s₀,
          SentDuring init events s k r marketUpdate s₀ := by
  refine h.induct (I := fun events s =>
    (s.algoType = init.algoType ∧ s.tickerConfig = init.tickerConfig)
      ∧ ∀ k r, s.desk.orderManager.requests[k]? = some r → r.type = .new →
        ∃ marketUpdate s₀,
          SentDuring init events s k r marketUpdate s₀) ?_ ?_
  · refine ⟨⟨rfl, rfl⟩, fun k r hr => ?_⟩
    rw [hnone] at hr
    cases hr
  intro events s event s' hrun ⟨⟨halgo, hconfig⟩, hs⟩ hstep
  obtain ⟨⟨hconfig', halgo'⟩, l, hl, hlast⟩ := requests_of_handles hstep
  refine ⟨⟨halgo'.trans halgo, hconfig'.trans hconfig⟩, fun k r hr hnew => ?_⟩
  by_cases hold : k < s.desk.orderManager.requests.length
  · have hbefore : s.desk.orderManager.requests[k]? = some r := by
      rw [← hr, hl, List.getElem?_append_left hold]
    obtain ⟨m, s₀, hsent⟩ := hs k r hbefore hnew
    exact ⟨m, s₀, hsent.snoc hstep⟩
  · have hmem : r ∈ l := by
      rw [hl, List.getElem?_append_right (Nat.not_lt.1 hold)] at hr
      exact List.mem_of_getElem? hr
    obtain ⟨m, rfl, hsent⟩ := hlast r hmem hnew
    exact ⟨m, s', events, [], s, rfl, hrun, hstep, .nil, Nat.not_lt.1 hold, hr,
      halgo'.trans halgo, hconfig'.trans hconfig, hsent⟩

/-- Every order goes back to one market update: it came into the log while
that update was worked off, for its ticker and with the ticker's clip, when
the book that the update left was quoted on both sides, at a price the strategy
takes from it, and after the risk check had passed with the position then held.
A market maker's does not cross that book. No response sends anything. -/
theorem sent_on_update {c : ClientID} {algoType : AlgoType}
    {events : List Event}
    (h : Run Handles (new c algoType tickerConfig) events s) :
    (∀ k r, s.desk.orderManager.requests[k]? = some r → r.type = .new →
      ∃ marketUpdate s₀,
        SentDuring (new c algoType tickerConfig) events s k r marketUpdate s₀
        ∧ (algoType = .maker → (s₀.bboAfter marketUpdate).Sound →
          (r.side = .buy → r.price < (s₀.bboAfter marketUpdate).bestAskPrice)
            ∧ (r.side = .sell →
              (s₀.bboAfter marketUpdate).bestBidPrice < r.price)))
      ∧ ∀ m (t t' : TradeEngine D), Handles t (.clientResponse m) t' →
        t'.desk.orderManager.requests = t.desk.orderManager.requests := by
  refine ⟨fun k r hr hnew => ?_, fun _ _ _ hstep =>
    (requests_of_response hstep).1⟩
  obtain ⟨m, s₀, hduring⟩ := (exists_sentDuring rfl h).2 k r hr hnew
  refine ⟨m, s₀, hduring, fun hmaker hsound => ?_⟩
  obtain ⟨-, -, -, -, -, -, -, -, -, halgo, -, hsent⟩ := hduring
  obtain ⟨bidPrice, askPrice, hquotes, hplaced⟩ := hsent
  obtain ⟨-, hprices⟩ := hquotes.maker (halgo.trans hmaker)
  obtain ⟨hbid, hask⟩ := hprices.passive hsound
  rcases hplaced.price with ⟨hside, hprice⟩ | ⟨hside, hprice⟩
  · rw [hside, hprice]
    exact ⟨fun _ => hbid, nofun⟩
  · rw [hside, hprice]
    exact ⟨nofun, fun _ => hask⟩

-- ------------------------------------------------------------ a first quote

/-- The limits of every ticker. -/
def quoter : TickerID → TradeEngineConfig (Option ℚ) := fun _ =>
  { clip := 10, threshold := some 1, riskConfig := ⟨100, 100, -1000⟩ }

/-- Two orders of a side: the first of them shows only with the second. -/
def quotes : List MatchingEngineMarketUpdate :=
  [⟨.add, 1, 0, .buy, 100, 5, 1⟩, ⟨.add, 2, 0, .buy, 100, 5, 2⟩,
    ⟨.add, 3, 0, .sell, 102, 5, 1⟩, ⟨.add, 4, 0, .sell, 102, 5, 2⟩]

/-- A market maker that hears of them sends a bid and an ask. -/
theorem handles_quotes : ∃ tradeEngine,
    Run Handles (new 0 .maker quoter) (quotes.map .marketUpdate) tradeEngine
      ∧ tradeEngine.desk.orderManager.clientId = 0
      ∧ ∃ ask, tradeEngine.desk.orderManager.requests
        = [⟨.new, 0, 0, 1, .buy, 100, 10⟩, ask] := by
  obtain ⟨tradeEngine, hrun, hclient, hrequests⟩ := exists_run_of_any
    (new 0 .maker quoter) (quotes.map .marketUpdate)
    (fun s => s.desk.orderManager.clientId = 0 ∧ s.desk.orderManager.requests
      = [⟨.new, 0, 0, 1, .buy, 100, 10⟩, ⟨.new, 0, 0, 2, .sell, 102, 10⟩])
    (by decide +kernel)
  exact ⟨tradeEngine, hrun, hclient, _, hrequests⟩

/-- The bid, and the update it was sent on. -/
theorem sent_on_update_quotes : ∃ s m s₀,
    Run Handles (new 0 .maker quoter) (quotes.map .marketUpdate) s
      ∧ s.desk.orderManager.requests[0]?
        = some ⟨.new, 0, 0, 1, .buy, 100, 10⟩
      ∧ SentDuring (new 0 .maker quoter) (quotes.map .marketUpdate) s 0
        ⟨.new, 0, 0, 1, .buy, 100, 10⟩ m s₀ := by
  obtain ⟨s, hrun, -, ask, hrequests⟩ := handles_quotes
  have hr : s.desk.orderManager.requests[0]?
      = some ⟨.new, 0, 0, 1, .buy, 100, 10⟩ := by
    rw [hrequests]
    rfl
  obtain ⟨m, s₀, hduring, -⟩ := (sent_on_update hrun).1 0 _ hr rfl
  exact ⟨s, m, s₀, hrun, hr, hduring⟩

end TradeEngine

end ElectronicTrading
