/-
Two runs of a trading client, compared at one ticker.

What a client does at a ticker hangs on that ticker's book, position,
limits and orders, and on the two features, which all tickers share. A
strategy reads a feature only while its ticker's book is quoted, and
right before, under the same test, the feature was computed for that
book: what the other tickers left in it is never read.

`Alike` relates two states that agree at a ticker. An event of the ticker
keeps it (`onEvent_alike`), whatever the features are, and an event of
another ticker does nothing at this one (`onEvent_beside`). A cancel
carries the ticker in its order, so that takes an invariant: the order in
a slot is of the slot's ticker, or of none (`Own`).
-/
import ElectronicTrading.Lib.Runs
import ElectronicTrading.Trading.TradeEngine

namespace ElectronicTrading

open Exec Runs

-- ==================================================== an order manager

/-- The order but for its number. -/
def OMOrder.unnumbered (o : OMOrder) : OMOrder :=
  { o with orderId := orderIdInvalid }

/-- The request but for its order's number. -/
def MatchingEngineClientRequest.unnumbered (r : MatchingEngineClientRequest) :
    MatchingEngineClientRequest :=
  { r with orderId := orderIdInvalid }

namespace OrderManager

/-- The requests sent for a ticker, but for the numbers of the orders. -/
def requestsFor (s : OrderManager) (tickerId : TickerID) :
    List MatchingEngineClientRequest :=
  (s.requests.filter (·.tickerId = tickerId)).map (·.unnumbered)

/-- Two managers that agree at a ticker. -/
structure Alike (tickerId : TickerID) (s t : OrderManager) : Prop where
  clientId : s.clientId = t.clientId
  orders : ∀ i, (s.tickerSideOrders (tickerId, i)).unnumbered
    = (t.tickerSideOrders (tickerId, i)).unnumbered
  requests : s.requestsFor tickerId = t.requestsFor tickerId

/-- An order is of the ticker it has its slot under, or has none. -/
def Own (s : OrderManager) : Prop :=
  ∀ slot, (s.tickerSideOrders slot).tickerId = slot.1
    ∨ (s.tickerSideOrders slot).tickerId = tickerIdInvalid

/-- What happens at ticker `u` is not noticed at another: `s₀` is the
manager before. -/
structure Beside (u : TickerID) (s₀ s : OrderManager) : Prop where
  own : s.Own
  alike : ∀ tickerId, tickerId ≠ u →
    tickerId.toNat < matchingEngineMaxTickers → Alike tickerId s s₀

variable {s t s₀ : OrderManager} {tickerId u : TickerID} {i : Nat}

theorem Alike.refl (tickerId : TickerID) (s : OrderManager) :
    Alike tickerId s s := ⟨rfl, fun _ => rfl, rfl⟩

theorem Alike.symm (h : Alike tickerId s t) : Alike tickerId t s :=
  ⟨h.clientId.symm, fun i => (h.orders i).symm, h.requests.symm⟩

theorem Alike.trans (h : Alike tickerId s t) {w : OrderManager}
    (h' : Alike tickerId t w) : Alike tickerId s w :=
  ⟨h.clientId.trans h'.clientId, fun i => (h.orders i).trans (h'.orders i),
    h.requests.trans h'.requests⟩

/-- A ticker is not the invalid one. -/
theorem ne_tickerIdInvalid (h : tickerId.toNat < matchingEngineMaxTickers) :
    tickerIdInvalid ≠ tickerId := by
  intro heq
  rw [← heq] at h
  exact absurd h (by decide)

/-- The requests for a ticker after one more. -/
theorem requestsFor_snoc (l : List MatchingEngineClientRequest)
    (r : MatchingEngineClientRequest) :
    ((l ++ [r]).filter (·.tickerId = tickerId)).map (·.unnumbered)
      = (l.filter (·.tickerId = tickerId)).map (·.unnumbered)
        ++ if r.tickerId = tickerId then [r.unnumbered] else [] := by
  rw [List.filter_append, List.map_append]
  by_cases hr : r.tickerId = tickerId
  · simp [hr]
  · simp [hr]

-- the order in a slot of the ticker

/-- An order is to be moved away in both or in neither. -/
theorem Alike.elsewhere (h : Alike tickerId s t) (price : Price)
    (quantity : Quantity) : s.Elsewhere (tickerId, i) price quantity
      ↔ t.Elsewhere (tickerId, i) price quantity := by
  have hstate := congrArg OMOrder.orderState (h.orders i)
  have hprice := congrArg OMOrder.price (h.orders i)
  have hquantity := congrArg OMOrder.quantity (h.orders i)
  simp only [OMOrder.unnumbered] at hstate hprice hquantity
  unfold Elsewhere
  rw [hstate, hprice, hquantity]

/-- A slot of the ticker is free in both or in neither. -/
theorem Alike.isFree (h : Alike tickerId s t) :
    s.IsFree (tickerId, i) ↔ t.IsFree (tickerId, i) := by
  have hstate := congrArg OMOrder.orderState (h.orders i)
  simp only [OMOrder.unnumbered] at hstate
  unfold IsFree
  rw [hstate]

/-- Orders that differ in their numbers only, put into one slot. -/
theorem putOrder_orders (h : Alike tickerId s t) {o o' : OMOrder}
    (ho : o.unnumbered = o'.unnumbered) (slot : Slot) (j : Nat) :
    ((s.putOrder slot o).tickerSideOrders (tickerId, j)).unnumbered
      = ((t.putOrder slot o').tickerSideOrders (tickerId, j)).unnumbered := by
  by_cases hslot : (tickerId, j) = slot
  · rw [hslot, putOrder_same, putOrder_same]
    exact ho
  · rw [putOrder_other hslot, putOrder_other hslot]
    exact h.orders j

/-- Both send a NEW, each under its own next number. -/
theorem withNewOrder_alike (h : Alike tickerId s t) (price : Price)
    (side : Side) (quantity : Quantity) :
    Alike tickerId (s.withNewOrder (tickerId, i) tickerId price side quantity)
      (t.withNewOrder (tickerId, i) tickerId price side quantity) := by
  refine ⟨h.clientId, putOrder_orders h (by rfl) _, ?_⟩
  have hrequest : (s.newRequest tickerId price side quantity).unnumbered
      = (t.newRequest tickerId price side quantity).unnumbered := by
    unfold newRequest
    rw [h.clientId]
    rfl
  have hrequests := h.requests
  unfold requestsFor withNewOrder at *
  dsimp only
  rw [requestsFor_snoc, requestsFor_snoc, hrequests, hrequest]
  rfl

/-- Both cancel the order of the slot, each under the number it has there. -/
theorem withCancelled_alike (h : Alike tickerId s t) :
    Alike tickerId (s.withCancelled (tickerId, i))
      (t.withCancelled (tickerId, i)) := by
  have horder := h.orders i
  refine ⟨h.clientId, putOrder_orders h ?_ _, ?_⟩
  · exact congrArg (fun o : OMOrder => { o with orderState := .pendingCancel })
      horder
  · have hrequest : (s.cancelRequest (tickerId, i)).unnumbered
        = (t.cancelRequest (tickerId, i)).unnumbered := by
      have hfields := congrArg (fun o : OMOrder =>
        (o.tickerId, o.side, o.price, o.quantity)) horder
      simp only [OMOrder.unnumbered, Prod.mk.injEq] at hfields
      obtain ⟨hticker, hside, hprice, hquantity⟩ := hfields
      unfold cancelRequest MatchingEngineClientRequest.unnumbered
      dsimp only
      rw [h.clientId, hticker, hside, hprice, hquantity]
    have hticker : (s.cancelRequest (tickerId, i)).tickerId
        = (t.cancelRequest (tickerId, i)).tickerId :=
      congrArg (·.tickerId) hrequest
    have hrequests := h.requests
    unfold requestsFor withCancelled at *
    dsimp only
    rw [requestsFor_snoc, requestsFor_snoc, hrequests, hrequest, hticker]

/-- The ticker's own orders are moved alike. -/
theorem moved_alike (h : Alike tickerId s t) {risk risk' : PreTradeRisk}
    (price : Price) (side : Side) (quantity : Quantity)
    (hrisk : risk tickerId side quantity = risk' tickerId side quantity) :
    Alike tickerId (s.moved risk (tickerId, i) tickerId price side quantity)
      (t.moved risk' (tickerId, i) tickerId price side quantity) := by
  unfold moved
  by_cases helsewhere : s.Elsewhere (tickerId, i) price quantity
  · rw [if_pos helsewhere, if_pos ((h.elsewhere _ _).1 helsewhere)]
    exact withCancelled_alike h
  · rw [if_neg helsewhere,
      if_neg fun helsewhere' => helsewhere ((h.elsewhere _ _).2 helsewhere')]
    have hnew : (s.IsFree (tickerId, i) ∧ price ≠ priceInvalid
          ∧ risk tickerId side quantity = .allowed)
        ↔ (t.IsFree (tickerId, i) ∧ price ≠ priceInvalid
          ∧ risk' tickerId side quantity = .allowed) := by
      rw [h.isFree, hrisk]
    by_cases hfree : s.IsFree (tickerId, i) ∧ price ≠ priceInvalid
        ∧ risk tickerId side quantity = .allowed
    · rw [if_pos hfree, if_pos (hnew.1 hfree)]
      exact withNewOrder_alike h _ _ _
    · rw [if_neg hfree, if_neg fun hfree' => hfree (hnew.2 hfree')]
      exact h

/-- A response to an order of the ticker. -/
theorem responded_alike (h : Alike tickerId s t)
    {clientResponse : MatchingEngineClientResponse}
    (hticker : clientResponse.tickerId = tickerId) :
    Alike tickerId (s.responded clientResponse)
      (t.responded clientResponse) := by
  refine ⟨h.clientId, ?_, h.requests⟩
  unfold responded
  refine putOrder_orders h ?_ _
  rw [hticker]
  have hupdated : ∀ o : OMOrder, (o.updated clientResponse).unnumbered
      = o.unnumbered.updated clientResponse := by
    intro o
    unfold OMOrder.updated OMOrder.unnumbered
    split
    all_goals first | rfl | skip
    dsimp only
    split
    · rfl
    · rfl
  rw [hupdated, hupdated, h.orders]

-- the orders of another ticker

/-- An order put into a slot of its own ticker. -/
theorem Own.putOrder (h : s.Own) {slot : Slot} {o : OMOrder}
    (ho : o.tickerId = slot.1 ∨ o.tickerId = tickerIdInvalid) :
    (s.putOrder slot o).Own := by
  intro slot'
  by_cases hslot : slot' = slot
  · rw [hslot, putOrder_same]
    exact ho
  · rw [putOrder_other hslot]
    exact h slot'

/-- A write to another ticker's slot is not seen here. -/
theorem putOrder_beside (h : Alike tickerId s s₀) (hne : tickerId ≠ u)
    (o : OMOrder) (j : Nat) :
    ((s.putOrder (u, i) o).tickerSideOrders (tickerId, j)).unnumbered
      = (s₀.tickerSideOrders (tickerId, j)).unnumbered := by
  rw [putOrder_other fun heq => hne (congrArg Prod.fst heq)]
  exact h.orders j

/-- A NEW of another ticker takes a number, and nothing else from this one. -/
theorem Beside.withNewOrder (h : Beside u s₀ s) (price : Price) (side : Side)
    (quantity : Quantity) :
    Beside u s₀ (s.withNewOrder (u, i) u price side quantity) := by
  refine ⟨h.own.putOrder (.inl rfl), fun tickerId hne hticker => ?_⟩
  have halike := h.alike tickerId hne hticker
  refine ⟨halike.clientId, putOrder_beside halike hne _, ?_⟩
  have hrequests := halike.requests
  unfold requestsFor OrderManager.withNewOrder at *
  dsimp only
  rw [requestsFor_snoc, if_neg fun heq => hne heq.symm, List.append_nil]
  exact hrequests

/-- So does a CANCEL of another ticker's order, which goes to the ticker of
the order. -/
theorem Beside.withCancelled (h : Beside u s₀ s) :
    Beside u s₀ (s.withCancelled (u, i)) := by
  refine ⟨h.own.putOrder (h.own (u, i)), fun tickerId hne hticker => ?_⟩
  have halike := h.alike tickerId hne hticker
  refine ⟨halike.clientId, putOrder_beside halike hne _, ?_⟩
  have hother : (s.cancelRequest (u, i)).tickerId ≠ tickerId := by
    rcases h.own (u, i) with hown | hnone
    · exact fun heq => hne (heq.symm.trans hown)
    · exact fun heq =>
        ne_tickerIdInvalid hticker (hnone.symm.trans heq)
  have hrequests := halike.requests
  unfold requestsFor OrderManager.withCancelled at *
  dsimp only
  rw [requestsFor_snoc, if_neg hother, List.append_nil]
  exact hrequests

theorem Beside.moved (h : Beside u s₀ s) (risk : PreTradeRisk) (price : Price)
    (side : Side) (quantity : Quantity) :
    Beside u s₀ (s.moved risk (u, i) u price side quantity) := by
  unfold OrderManager.moved
  split
  · exact h.withCancelled
  · split
    · exact h.withNewOrder _ _ _
    · exact h

/-- A response about another ticker. -/
theorem Beside.responded {clientResponse : MatchingEngineClientResponse}
    (h : Beside clientResponse.tickerId s₀ s) :
    Beside clientResponse.tickerId s₀ (s.responded clientResponse) := by
  refine ⟨h.own.putOrder ?_, fun tickerId hne hticker => ?_⟩
  · have hkept : ∀ o : OMOrder,
        (o.updated clientResponse).tickerId = o.tickerId := by
      intro o
      unfold OMOrder.updated
      split
      all_goals first | rfl | skip
      dsimp only
      split
      · rfl
      · rfl
    rw [hkept]
    exact h.own _
  · have halike := h.alike tickerId hne hticker
    exact ⟨halike.clientId, putOrder_beside halike hne _, halike.requests⟩

end OrderManager

-- ================================================================ a desk

namespace Desk

structure Alike (tickerId : TickerID) (s t : Desk) : Prop where
  position : s.positionKeeper.tickerPosition tickerId
    = t.positionKeeper.tickerPosition tickerId
  riskConfig : s.riskManager.riskConfig tickerId
    = t.riskManager.riskConfig tickerId
  orderManager : OrderManager.Alike tickerId s.orderManager t.orderManager

structure Beside (u : TickerID) (s₀ s : Desk) : Prop where
  orderManager : OrderManager.Beside u s₀.orderManager s.orderManager
  positions : ∀ tickerId, tickerId ≠ u →
    s.positionKeeper.tickerPosition tickerId
      = s₀.positionKeeper.tickerPosition tickerId
  riskManager : s.riskManager = s₀.riskManager

variable {s t s₀ : Desk} {tickerId u : TickerID}

/-- The check reads the position and the limits of the ticker only. -/
theorem Alike.checkPreTradeRisk (h : Alike tickerId s t) (side : Side)
    (quantity : Quantity) :
    s.riskManager.checkPreTradeRisk s.positionKeeper tickerId side quantity
      = t.riskManager.checkPreTradeRisk t.positionKeeper tickerId side
        quantity := by
  unfold RiskManager.checkPreTradeRisk RiskManager.tickerRisk
  rw [h.position, h.riskConfig]

/-- A position is updated from itself. -/
theorem updated_alike (h : Alike tickerId s t)
    (f : PositionInfo → PositionInfo) :
    Alike tickerId
      { s with positionKeeper := s.positionKeeper.updated tickerId f }
      { t with positionKeeper := t.positionKeeper.updated tickerId f } := by
  refine ⟨?_, h.riskConfig, h.orderManager⟩
  unfold PositionKeeper.updated
  dsimp only
  rw [if_pos rfl, if_pos rfl, h.position]

theorem modifyAt_alike (f : PositionInfo → PositionInfo) :
    Lockstep (Alike tickerId)
      (onPositionKeeper (PositionKeeper.modifyAt tickerId f))
      (onPositionKeeper (PositionKeeper.modifyAt tickerId f))
      fun _ _ => True := by
  intro s t hst
  unfold onPositionKeeper
  rw [run_zoom, run_zoom, PositionKeeper.run_modifyAt,
    PositionKeeper.run_modifyAt]
  by_cases hticker : tickerId.toNat < matchingEngineMaxTickers
  · rw [if_pos hticker, if_pos hticker]
    exact ⟨trivial, updated_alike hst f⟩
  · rw [if_neg hticker, if_neg hticker]
    trivial

/-- `moveOrders` of the ticker, with one answer of the check on both desks. -/
theorem moveOrders_alike (bidPrice askPrice : Price) (clip : Quantity) :
    Lockstep (Alike tickerId) (moveOrders tickerId bidPrice askPrice clip)
      (moveOrders tickerId bidPrice askPrice clip) fun _ _ => True := by
  intro s t hst
  rw [run_moveOrders, run_moveOrders]
  by_cases hticker : tickerId.toNat < matchingEngineMaxTickers
  · rw [if_pos hticker, if_pos hticker]
    refine ⟨trivial, hst.position, hst.riskConfig, ?_⟩
    have hbid := OrderManager.moved_alike (i := sideToIndex .buy)
      hst.orderManager bidPrice .buy clip (hst.checkPreTradeRisk .buy clip)
    exact OrderManager.moved_alike hbid askPrice .sell clip
      (hst.checkPreTradeRisk .sell clip)
  · rw [if_neg hticker, if_neg hticker]
    trivial

theorem respond_alike {clientResponse : MatchingEngineClientResponse}
    (hticker : clientResponse.tickerId = tickerId) :
    Lockstep (Alike tickerId)
      (onOrderManager (OrderManager.onOrderUpdate clientResponse))
      (onOrderManager (OrderManager.onOrderUpdate clientResponse))
      fun _ _ => True := by
  intro s t hst
  unfold onOrderManager
  rw [run_zoom, run_zoom, OrderManager.run_onOrderUpdate,
    OrderManager.run_onOrderUpdate]
  by_cases hrange : clientResponse.tickerId.toNat < matchingEngineMaxTickers
      ∧ sideToIndex clientResponse.side < sideToIndex .max
  · rw [if_pos hrange, if_pos hrange]
    exact ⟨trivial, hst.position, hst.riskConfig,
      OrderManager.responded_alike hst.orderManager hticker⟩
  · rw [if_neg hrange, if_neg hrange]
    trivial

/-- A response to the ticker: a fill moves its position and its slot. -/
theorem onOrderUpdate_alike (clientResponse : MatchingEngineClientResponse) :
    Lockstep (Alike clientResponse.tickerId) (onOrderUpdate clientResponse)
      (onOrderUpdate clientResponse) fun _ _ => True := by
  unfold onOrderUpdate
  by_cases hfilled : clientResponse.type = .filled
  · simp only [hfilled, if_true]
    exact Lockstep.bind (modifyAt_alike _) fun _ _ _ => respond_alike rfl
  · simp only [hfilled, if_false]
    exact respond_alike rfl

theorem modifyAt_beside (f : PositionInfo → PositionInfo) :
    Keeps (Beside u s₀)
      (onPositionKeeper (PositionKeeper.modifyAt u f)) := by
  refine Spec.zoom fun s hs => ?_
  rw [PositionKeeper.run_modifyAt]
  by_cases hticker : u.toNat < matchingEngineMaxTickers
  · rw [if_pos hticker]
    refine ⟨hs.orderManager, fun tickerId hne => ?_, hs.riskManager⟩
    unfold PositionKeeper.updated
    dsimp only
    rw [if_neg hne]
    exact hs.positions tickerId hne
  · rw [if_neg hticker]
    exact hs

/-- `moveOrders` of another ticker. -/
theorem moveOrders_beside (bidPrice askPrice : Price) (clip : Quantity) :
    Keeps (Beside u s₀) (moveOrders u bidPrice askPrice clip) := by
  intro s hs
  rw [run_moveOrders]
  by_cases hticker : u.toNat < matchingEngineMaxTickers
  · rw [if_pos hticker]
    exact ⟨(hs.orderManager.moved _ _ _ _).moved _ _ _ _, hs.positions,
      hs.riskManager⟩
  · rw [if_neg hticker]
    exact hs

/-- A response about another ticker moves that one's position and slot. -/
theorem onOrderUpdate_beside (clientResponse : MatchingEngineClientResponse) :
    Keeps (Beside clientResponse.tickerId s₀)
      (onOrderUpdate clientResponse) := by
  have hrespond : Keeps (Beside clientResponse.tickerId s₀)
      (onOrderManager (OrderManager.onOrderUpdate clientResponse)) := by
    refine Spec.zoom fun s hs => ?_
    rw [OrderManager.run_onOrderUpdate]
    by_cases hrange : clientResponse.tickerId.toNat < matchingEngineMaxTickers
        ∧ sideToIndex clientResponse.side < sideToIndex .max
    · rw [if_pos hrange]
      exact ⟨hs.orderManager.responded, hs.positions, hs.riskManager⟩
    · rw [if_neg hrange]
      exact hs
  unfold onOrderUpdate
  by_cases hfilled : clientResponse.type = .filled
  · simp only [hfilled, if_true]
    exact Keeps.bind (modifyAt_beside _) fun _ => hrespond
  · simp only [hfilled, if_false]
    exact hrespond

end Desk

-- ============================================================ the engine

/-- A book calls back about the ticker of its update. -/
theorem MarketOrderBook.onMarketUpdate_notice
    {marketUpdate : MatchingEngineMarketUpdate} {book book' : MarketOrderBook}
    {notice : Notice}
    (h : (onMarketUpdate marketUpdate).run book = .ok notice book') :
    notice = .onTradeUpdate marketUpdate
      ∨ notice = .onOrderBookUpdate marketUpdate.tickerId marketUpdate.price
        marketUpdate.side := by
  unfold onMarketUpdate at h
  obtain ⟨_, _, _, h⟩ := run_bind_eq_ok h
  obtain ⟨_, _, _, h⟩ := run_bind_eq_ok h
  by_cases htrade : marketUpdate.type = .trade
  · rw [if_pos htrade] at h
    exact .inl (EStateM.Result.ok.inj h).1.symm
  · rw [if_neg htrade] at h
    obtain ⟨_, _, _, h⟩ := run_bind_eq_ok h
    obtain ⟨_, _, _, h⟩ := run_bind_eq_ok h
    exact .inr (EStateM.Result.ok.inj h).1.symm

namespace TradeEngine

variable {D : Type}

/-- Two engines that agree at a ticker. Nothing is said of the
features. -/
structure Alike (tickerId : TickerID) (s t : TradeEngine D) : Prop where
  book : s.tickerOrderBook tickerId = t.tickerOrderBook tickerId
  desk : Desk.Alike tickerId s.desk t.desk
  algoType : s.algoType = t.algoType
  tickerConfig : s.tickerConfig = t.tickerConfig

structure Beside (u : TickerID) (s₀ s : TradeEngine D) : Prop where
  books : ∀ tickerId, tickerId ≠ u →
    s.tickerOrderBook tickerId = s₀.tickerOrderBook tickerId
  desk : Desk.Beside u s₀.desk s.desk
  algoType : s.algoType = s₀.algoType
  tickerConfig : s.tickerConfig = s₀.tickerConfig

variable {s t s₀ : TradeEngine D} {tickerId u : TickerID}

theorem Alike.refl (tickerId : TickerID) (s : TradeEngine D) :
    Alike tickerId s s :=
  ⟨rfl, ⟨rfl, rfl, OrderManager.Alike.refl tickerId _⟩, rfl, rfl⟩

theorem Alike.symm (h : Alike tickerId s t) : Alike tickerId t s :=
  ⟨h.book.symm, ⟨h.desk.position.symm, h.desk.riskConfig.symm,
    h.desk.orderManager.symm⟩, h.algoType.symm, h.tickerConfig.symm⟩

/-- A step of another ticker, next to a state like the one before it. -/
theorem Beside.alike (h : Beside u s₀ s) (hne : tickerId ≠ u)
    (hticker : tickerId.toNat < matchingEngineMaxTickers)
    (ht : Alike tickerId s₀ t) : Alike tickerId s t := by
  have horders := h.desk.orderManager.alike tickerId hne hticker
  refine ⟨(h.books tickerId hne).trans ht.book,
    ⟨(h.desk.positions tickerId hne).trans ht.desk.position, ?_,
      horders.trans ht.desk.orderManager⟩,
    h.algoType.trans ht.algoType, h.tickerConfig.trans ht.tickerConfig⟩
  rw [h.desk.riskManager]
  exact ht.desk.riskConfig

-- programs on a part

theorem assert_alike {R : TradeEngine D → TradeEngine D → Prop} (c : Bool)
    (f : Fault) : Lockstep R (assert c f) (assert c f) fun _ _ => True := by
  intro s t hst
  rw [run_assert, run_assert]
  cases c with
  | true => exact ⟨trivial, hst⟩
  | false => trivial

/-- A program of the desk, seen from the engine. -/
theorem onDesk_alike {x y : Desk.Member Unit}
    (h : Lockstep (Desk.Alike tickerId) x y fun _ _ => True) :
    Lockstep (Alike (D := D) tickerId) (onDesk x) (onDesk y)
      fun _ _ => True := by
  refine Sim.zoom h (fun s t hst => hst.desk) ?_
  rintro - - s t d d' hst ⟨-, hd⟩
  exact ⟨trivial, hst.book, hd, hst.algoType, hst.tickerConfig⟩

/-- The ticker's books take the same updates and so read alike. -/
theorem onBook_alike (marketUpdate : MatchingEngineMarketUpdate) :
    Lockstep (Alike (D := D) marketUpdate.tickerId)
      (onBook marketUpdate.tickerId
        (MarketOrderBook.onMarketUpdate marketUpdate))
      (onBook marketUpdate.tickerId
        (MarketOrderBook.onMarketUpdate marketUpdate))
      fun notice notice' => notice = notice'
        ∧ (notice = .onTradeUpdate marketUpdate
          ∨ notice = .onOrderBookUpdate marketUpdate.tickerId
            marketUpdate.price marketUpdate.side) := by
  intro s t hst
  unfold onBook
  rw [run_zoom, run_zoom, hst.book]
  cases hrun : (MarketOrderBook.onMarketUpdate marketUpdate).run
      (t.tickerOrderBook marketUpdate.tickerId) with
  | error e book => trivial
  | ok notice book =>
      refine ⟨⟨rfl, MarketOrderBook.onMarketUpdate_notice hrun⟩, ?_, hst.desk,
        hst.algoType, hst.tickerConfig⟩
      dsimp only
      rw [if_pos rfl, if_pos rfl]

/-- A strategy that does nothing but move the ticker's orders. -/
theorem configAt_alike (tickerConfig : TickerID → TradeEngineConfig D)
    {x : TradeEngineConfig D → Desk.Member Unit}
    (h : ∀ config, Lockstep (Desk.Alike tickerId) (x config) (x config)
      fun _ _ => True) :
    Lockstep (Desk.Alike tickerId) (configAt tickerConfig tickerId >>= x)
      (configAt tickerConfig tickerId >>= x) fun _ _ => True := by
  refine Lockstep.bind (W := Eq) ?_ fun config _ heq => ?_
  · intro s t hst
    unfold configAt
    simp only [EStateM.run_bind, run_assert]
    by_cases hticker : tickerId.toNat < matchingEngineMaxTickers
    · simp only [hticker, decide_true, if_true]
      exact ⟨rfl, hst⟩
    · simp only [hticker, decide_false]
      trivial
  · rw [← heq]
    exact h config

theorem onDesk_beside {x : Desk.Member Unit}
    (h : Keeps (Desk.Beside u s₀.desk) x) :
    Keeps (Beside u s₀) (onDesk x) := by
  refine Spec.zoom fun s hs => ?_
  have hx := h s.desk hs.desk
  split
  · next hrun =>
    rw [hrun] at hx
    exact ⟨hs.books, hx, hs.algoType, hs.tickerConfig⟩
  · next hrun =>
    rw [hrun] at hx
    exact ⟨hs.books, hx, hs.algoType, hs.tickerConfig⟩

theorem onBook_beside (marketUpdate : MatchingEngineMarketUpdate) :
    Spec (Beside marketUpdate.tickerId s₀)
      (onBook marketUpdate.tickerId
        (MarketOrderBook.onMarketUpdate marketUpdate))
      (fun notice s => Beside marketUpdate.tickerId s₀ s
        ∧ (notice = .onTradeUpdate marketUpdate
          ∨ notice = .onOrderBookUpdate marketUpdate.tickerId
            marketUpdate.price marketUpdate.side))
      fun _ s => Beside marketUpdate.tickerId s₀ s := by
  refine Spec.zoom fun s hs => ?_
  have hput : ∀ book, Beside marketUpdate.tickerId s₀ { s with
      tickerOrderBook := fun t =>
        if t = marketUpdate.tickerId then book else s.tickerOrderBook t } := by
    intro book
    refine ⟨fun tickerId hne => ?_, hs.desk, hs.algoType, hs.tickerConfig⟩
    dsimp only
    rw [if_neg hne]
    exact hs.books tickerId hne
  split
  · next hrun => exact ⟨hput _, MarketOrderBook.onMarketUpdate_notice hrun⟩
  · exact hput _

theorem configAt_beside {s₀ : Desk}
    (tickerConfig : TickerID → TradeEngineConfig D) :
    Keeps (Desk.Beside u s₀) (configAt tickerConfig u) :=
  Keeps.bind (assert_keeps _ _) fun _ => Keeps.pure _

variable [Double D]

-- an event of the ticker

/-- A market maker reads the ticker's BBO, its fair price and its config. -/
theorem maker_alike (tickerConfig : TickerID → TradeEngineConfig D)
    {features features' : FeatureEngine D} {bbo : BBO}
    (h : bbo.IsQuoted → features.marketPrice = features'.marketPrice) :
    Lockstep (Desk.Alike tickerId)
      (MarketMaker.onOrderBookUpdate tickerConfig features tickerId bbo)
      (MarketMaker.onOrderBookUpdate tickerConfig features' tickerId bbo)
      fun _ _ => True := by
  unfold MarketMaker.onOrderBookUpdate
  dsimp only
  by_cases hquoted : bbo.IsQuoted
  · rw [h hquoted]
    exact Sim.ite Iff.rfl
      (fun _ => configAt_alike _ fun _ => Desk.moveOrders_alike _ _ _)
      fun _ => Lockstep.pure trivial
  · rw [if_neg fun hboth => hquoted hboth.1,
      if_neg fun hboth => hquoted hboth.1]
    exact Lockstep.pure trivial

/-- A liquidity taker also reads the trade it is called with. -/
theorem taker_alike (tickerConfig : TickerID → TradeEngineConfig D)
    {features features' : FeatureEngine D}
    {marketUpdate : MatchingEngineMarketUpdate} {bbo : BBO}
    (h : bbo.IsQuoted →
      features.aggTradeQtyRatio = features'.aggTradeQtyRatio) :
    Lockstep (Desk.Alike marketUpdate.tickerId)
      (LiquidityTaker.onTradeUpdate tickerConfig features marketUpdate bbo)
      (LiquidityTaker.onTradeUpdate tickerConfig features' marketUpdate bbo)
      fun _ _ => True := by
  unfold LiquidityTaker.onTradeUpdate
  dsimp only
  by_cases hquoted : bbo.IsQuoted
  · rw [h hquoted]
    refine Sim.ite Iff.rfl (fun _ => ?_) fun _ => Lockstep.pure trivial
    refine configAt_alike _ fun config => ?_
    refine Sim.ite Iff.rfl (fun _ => ?_) fun _ => Lockstep.pure trivial
    exact Sim.ite Iff.rfl (fun _ => Desk.moveOrders_alike _ _ _)
      fun _ => Desk.moveOrders_alike _ _ _
  · rw [if_neg fun hboth => hquoted hboth.1,
      if_neg fun hboth => hquoted hboth.1]
    exact Lockstep.pure trivial

/-- The market price is computed anew before the strategy reads it. -/
theorem onOrderBookUpdate_alike (book : MarketOrderBook) :
    Lockstep (Alike (D := D) tickerId) (onOrderBookUpdate tickerId book)
      (onOrderBookUpdate tickerId book) fun _ _ => True := by
  refine Lockstep.bind (onDesk_alike (Desk.modifyAt_alike _)) fun _ _ _ => ?_
  refine Sim.bind (M := fun _ _ s t => Alike tickerId s t
    ∧ (book.bbo.IsQuoted →
      s.featureEngine.marketPrice = t.featureEngine.marketPrice)) ?_
    fun _ _ => ?_
  · intro s t hst
    refine ⟨⟨hst.book, hst.desk, hst.algoType, hst.tickerConfig⟩,
      fun hquoted => ?_⟩
    dsimp only
    rw [FeatureEngine.onOrderBookUpdate_marketPrice _ hquoted,
      FeatureEngine.onOrderBookUpdate_marketPrice _ hquoted]
  · refine Sim.get_bind fun c d hcd => ?_
    rw [hcd.1.algoType, hcd.1.tickerConfig]
    refine Sim.mono ?_ (fun _ _ h => h.1) fun _ _ _ _ h => h
    exact Sim.ite Iff.rfl (fun _ => onDesk_alike (maker_alike _ hcd.2))
      fun _ => Lockstep.pure trivial

/-- The ratio is computed anew before the strategy reads it. -/
theorem onTradeUpdate_alike (marketUpdate : MatchingEngineMarketUpdate)
    (book : MarketOrderBook) :
    Lockstep (Alike (D := D) marketUpdate.tickerId)
      (onTradeUpdate marketUpdate book) (onTradeUpdate marketUpdate book)
      fun _ _ => True := by
  refine Sim.bind (M := fun _ _ s t => Alike marketUpdate.tickerId s t
    ∧ (book.bbo.IsQuoted → s.featureEngine.aggTradeQtyRatio
      = t.featureEngine.aggTradeQtyRatio)) ?_ fun _ _ => ?_
  · intro s t hst
    refine ⟨⟨hst.book, hst.desk, hst.algoType, hst.tickerConfig⟩,
      fun hquoted => ?_⟩
    dsimp only
    rw [FeatureEngine.onTradeUpdate_aggTradeQtyRatio _ _ hquoted,
      FeatureEngine.onTradeUpdate_aggTradeQtyRatio _ _ hquoted]
  · refine Sim.get_bind fun c d hcd => ?_
    rw [hcd.1.algoType, hcd.1.tickerConfig]
    refine Sim.mono ?_ (fun _ _ h => h.1) fun _ _ _ _ h => h
    exact Sim.ite Iff.rfl (fun _ => onDesk_alike (taker_alike _ hcd.2))
      fun _ => Lockstep.pure trivial

/-- An update of the ticker: the book first, then what it calls. -/
theorem onMarketUpdate_alike (marketUpdate : MatchingEngineMarketUpdate) :
    Lockstep (Alike (D := D) marketUpdate.tickerId)
      (onMarketUpdate marketUpdate) (onMarketUpdate marketUpdate)
      fun _ _ => True := by
  refine Lockstep.bind (assert_alike _ _) fun _ _ _ => ?_
  refine Lockstep.bind (onBook_alike marketUpdate) fun notice notice' h => ?_
  obtain ⟨rfl, hnotice⟩ := h
  refine Sim.get_bind fun c d hcd => ?_
  rw [hcd.book]
  rcases hnotice with rfl | rfl
  · exact onTradeUpdate_alike marketUpdate _
  · exact onOrderBookUpdate_alike _

/-- The ticker's own events are answered alike. -/
theorem onEvent_alike (event : Event) :
    Lockstep (Alike (D := D) event.tickerId) (onEvent event) (onEvent event)
      fun _ _ => True := by
  cases event with
  | clientResponse clientResponse =>
      exact onDesk_alike (Desk.onOrderUpdate_alike clientResponse)
  | marketUpdate marketUpdate => exact onMarketUpdate_alike marketUpdate

-- an event of another ticker

theorem maker_beside {s₀ : Desk}
    (tickerConfig : TickerID → TradeEngineConfig D)
    (features : FeatureEngine D) (bbo : BBO) :
    Keeps (Desk.Beside u s₀)
      (MarketMaker.onOrderBookUpdate tickerConfig features u bbo) :=
  Keeps.ite (fun _ => Keeps.bind (configAt_beside _) fun _ =>
    Desk.moveOrders_beside _ _ _) fun _ => Keeps.pure _

theorem taker_beside {s₀ : Desk}
    (tickerConfig : TickerID → TradeEngineConfig D)
    (features : FeatureEngine D) (marketUpdate : MatchingEngineMarketUpdate)
    (bbo : BBO) :
    Keeps (Desk.Beside marketUpdate.tickerId s₀)
      (LiquidityTaker.onTradeUpdate tickerConfig features marketUpdate
        bbo) := by
  refine Keeps.ite (fun _ => ?_) fun _ => Keeps.pure _
  refine Keeps.bind (configAt_beside _) fun _ => ?_
  refine Keeps.ite (fun _ => ?_) fun _ => Keeps.pure _
  exact Keeps.ite (fun _ => Desk.moveOrders_beside _ _ _)
    fun _ => Desk.moveOrders_beside _ _ _

theorem onOrderBookUpdate_beside (book : MarketOrderBook) :
    Keeps (Beside u s₀) (onOrderBookUpdate u book) := by
  refine Keeps.bind (onDesk_beside (Desk.modifyAt_beside _)) fun _ => ?_
  refine Keeps.bind (Keeps.modify fun s hs =>
    ⟨hs.books, hs.desk, hs.algoType, hs.tickerConfig⟩) fun _ => ?_
  refine Keeps.get_bind fun _ _ => ?_
  exact Keeps.ite (fun _ => onDesk_beside (maker_beside _ _ _))
    fun _ => Keeps.pure _

theorem onTradeUpdate_beside (marketUpdate : MatchingEngineMarketUpdate)
    (book : MarketOrderBook) :
    Keeps (Beside marketUpdate.tickerId s₀)
      (onTradeUpdate marketUpdate book) := by
  refine Keeps.bind (Keeps.modify fun s hs =>
    ⟨hs.books, hs.desk, hs.algoType, hs.tickerConfig⟩) fun _ => ?_
  refine Keeps.get_bind fun _ _ => ?_
  exact Keeps.ite (fun _ => onDesk_beside (taker_beside _ _ _ _))
    fun _ => Keeps.pure _

/-- An update of another ticker leaves this one's book and desk alone. The
features it overwrites are computed anew before they are read. -/
theorem onMarketUpdate_beside (marketUpdate : MatchingEngineMarketUpdate) :
    Keeps (Beside marketUpdate.tickerId s₀) (onMarketUpdate marketUpdate) := by
  refine Keeps.bind (assert_keeps _ _) fun _ => ?_
  refine Spec.bind (onBook_beside marketUpdate) fun notice => ?_
  refine Spec.get_bind fun c hc => ?_
  obtain ⟨-, rfl | rfl⟩ := hc
  · exact Spec.mono (onTradeUpdate_beside marketUpdate _)
      (fun _ h => h.1) (fun _ _ h => h) fun _ _ h => h
  · exact Spec.mono (onOrderBookUpdate_beside _)
      (fun _ h => h.1) (fun _ _ h => h) fun _ _ h => h

/-- An event is not noticed at other tickers. -/
theorem onEvent_beside (event : Event) :
    Keeps (Beside event.tickerId s₀) (onEvent event) := by
  cases event with
  | clientResponse clientResponse =>
      exact onDesk_beside (Desk.onOrderUpdate_beside clientResponse)
  | marketUpdate marketUpdate => exact onMarketUpdate_beside marketUpdate

-- ================================================================== runs

/-- The requests sent for a ticker, but for the numbers of the orders. -/
def requestsFor (s : TradeEngine D) (tickerId : TickerID) :
    List MatchingEngineClientRequest :=
  s.desk.orderManager.requestsFor tickerId

/-- Each order is of its slot's ticker. -/
def Own (s : TradeEngine D) : Prop := s.desk.orderManager.Own

/-- The engine takes an event, and no ASSERT fires. -/
def Handles (s : TradeEngine D) (event : Event) (s' : TradeEngine D) : Prop :=
  (onEvent event).run s = .ok () s'

/-- A step, as the states other tickers see. -/
theorem Handles.beside {event : Event} {s' : TradeEngine D} (hs : s.Own)
    (h : Handles s event s') : Beside event.tickerId s s' := by
  refine (onEvent_beside event).of_run_ok ?_ h
  exact ⟨fun _ _ => rfl, ⟨⟨hs, fun _ _ _ => OrderManager.Alike.refl _ _⟩,
    fun _ _ => rfl, rfl⟩, rfl, rfl⟩

/-- The slots keep orders of their own tickers. -/
theorem Handles.own {event : Event} {s' : TradeEngine D} (hs : s.Own)
    (h : Handles s event s') : s'.Own :=
  (h.beside hs).desk.orderManager.own

/-- The engine with other positions: the source does not initialize
them. -/
def holding (s : TradeEngine D) (positions : PositionKeeper) : TradeEngine D :=
  { s with desk := { s.desk with positionKeeper := positions } }

/-- Before the first order every slot is empty. -/
theorem holding_own (clientId : ClientID) (algoType : AlgoType)
    (tickerConfig : TickerID → TradeEngineConfig D)
    (positions : PositionKeeper) :
    ((new clientId algoType tickerConfig).holding positions).Own :=
  fun _ => .inr rfl

/-- A step of the ticker, repeated from a state that agrees with the first. -/
theorem Handles.alike {event : Event} {s' t' : TradeEngine D}
    (hst : Alike event.tickerId s t) (hs : Handles s event s')
    (ht : Handles t event t') : Alike event.tickerId s' t' := by
  have h := onEvent_alike event s t hst
  unfold Handles at hs ht
  rw [hs, ht] at h
  exact h.2

/-- Two runs from one state, whatever the positions at first and whatever
their other tickers' events are: if a ticker's own events are the same, so
are the requests sent for it, but for the numbers of the orders. -/
theorem requests_isolated {clientId : ClientID} {algoType : AlgoType}
    {tickerConfig : TickerID → TradeEngineConfig D}
    {positions : PositionKeeper} {start : TradeEngine D}
    {before events events' : List Event} {s s' : TradeEngine D}
    {tickerId : TickerID}
    (hticker : tickerId.toNat < matchingEngineMaxTickers)
    (hstart : Run Handles
      ((new clientId algoType tickerConfig).holding positions) before start)
    (hs : Run Handles start events s) (hs' : Run Handles start events' s')
    (hsame : events.filter (·.tickerId = tickerId)
      = events'.filter (·.tickerId = tickerId)) :
    s.requestsFor tickerId = s'.requestsFor tickerId := by
  have hown : start.Own := hstart.induct (I := fun _ s => s.Own)
    (holding_own _ _ _ _) fun _ _ _ _ _ hs hstep => hstep.own hs
  have halike : Alike tickerId s s' := by
    refine Run.isolated (I := Own) (R := Alike tickerId)
      (V := fun event => event.tickerId = tickerId) ?_ ?_ ?_ ?_
      (Alike.refl tickerId start) hown hs hs' hsame
    · intro s event s' hs hstep
      exact hstep.own hs
    · intro s t hst
      exact hst.symm
    · intro s event s' t hs hst hother hstep
      exact (hstep.beside hs).alike (Ne.symm hother) hticker hst
    · intro s t event s' t' hst heq hs ht
      subst heq
      exact Handles.alike hst hs ht
  exact halike.desk.orderManager.requests

/-- `double`s without rounding; none is NaN. -/
instance exactDouble : Double (Option ℚ) where
  quietNaN := none
  ofInt n := some n
  add x y := do return (← x) + (← y)
  sub x y := do return (← x) - (← y)
  div x y := do
    let divisor ← y
    if divisor = 0 then none else return (← x) / divisor
  ge
    | some x, some y => decide (x ≥ y)
    | _, _ => false
  ne
    | some x, some y => decide (x ≠ y)
    | _, _ => true

/-- A market maker with the same limits for every ticker. -/
def maker : TradeEngine (Option ℚ) :=
  new 4 .maker fun _ =>
    { clip := 10, threshold := some 1, riskConfig := ⟨100, 100, -1000⟩ }

/-- `Handles`, computed. -/
def handle (s : TradeEngine (Option ℚ)) (event : Event) :
    Option (TradeEngine (Option ℚ)) :=
  returned ((onEvent event).run s)

theorem handles_of_handle {s s' : TradeEngine (Option ℚ)} {event : Event}
    (h : handle s event = some s') : Handles s event s' :=
  returned_eq_some h

/-- A run and what holds at its end, computed. -/
theorem exists_run_of_any (start : TradeEngine (Option ℚ))
    (events : List Event) (I : TradeEngine (Option ℚ) → Prop) [DecidablePred I]
    (h : (events.foldlM handle start).any (fun s => decide (I s)) = true) :
    ∃ s, Run Handles start events s ∧ I s := by
  obtain ⟨s, hrun, hend⟩ := Run.exists_of_any handle start events I h
  exact ⟨s, hrun.mono (I := fun _ => True)
    (fun _ _ _ _ hstep => handles_of_handle hstep) fun _ _ _ => trivial, hend⟩

def quoteAt (tickerId : TickerID) (orderId : OrderID) (side : Side)
    (price : Price) : Event :=
  .marketUpdate
    { type := .add, tickerId := tickerId, orderId := orderId, side := side,
      price := price, quantity := 5, priority := 1 }

/-- Four quotes of ticker 1. -/
def quoteOne : List Event :=
  [quoteAt 1 1 .buy 100, quoteAt 1 2 .buy 100, quoteAt 1 3 .sell 102,
    quoteAt 1 4 .sell 102]

/-- The same with ticker 2's in between. -/
def quoteBoth : List Event :=
  [quoteAt 2 1 .buy 10, quoteAt 1 1 .buy 100, quoteAt 2 2 .buy 10,
    quoteAt 1 2 .buy 100, quoteAt 2 3 .sell 12, quoteAt 2 4 .sell 12,
    quoteAt 1 3 .sell 102, quoteAt 1 4 .sell 102]

/-- The second run also sends for ticker 2, and has a position there. -/
theorem requests_isolated_maker :
    ∃ s s', Run Handles maker quoteOne s ∧ Run Handles maker quoteBoth s'
      ∧ s.requestsFor 1 = s'.requestsFor 1
      ∧ (s.requestsFor 1).length = 2
      ∧ (s'.requestsFor 2).length = 2 := by
  obtain ⟨s, hs, hsent⟩ := exists_run_of_any maker quoteOne
    (fun s => (s.requestsFor 1).length = 2) (by decide +kernel)
  obtain ⟨s', hs', hsent'⟩ := exists_run_of_any maker quoteBoth
    (fun s => (s.requestsFor 2).length = 2) (by decide +kernel)
  have hstart : Run Handles (maker.holding .new) [] maker := .nil
  exact ⟨s, s', hs, hs', requests_isolated (by decide) hstart hs hs' rfl,
    hsent, hsent'⟩

end TradeEngine

end ElectronicTrading
