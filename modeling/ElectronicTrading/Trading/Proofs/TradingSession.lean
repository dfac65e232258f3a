/-
The position limit of a client at the exchange itself.

`position_limited` is about a client whose orders get answers as an
exchange should give them (`Market`). Here the exchange is the matching
engine's model, its books shared with any other clients, and the requests
and answers are on their way for as long as they like. `followed_of_run`
is the refinement: every such run is followed by one of the `Market`, with
the same desk. An answer that comes in is one the open order of its slot
can get, since its slot waits for it (`Session.Linked`) and its fills add
up (`Exact`); a request that is handled is no step of the `Market`, nor is
a CANCEL_REJECTED.

The client learns of a fill late. What the exchange has executed is the
position and the fills on their way, `exchangePosition`; the limit holds of
it too, and with what rests in the book filled as well.
-/
import ElectronicTrading.Trading.Proofs.Outstanding
import ElectronicTrading.Trading.Proofs.PositionLimit

namespace ElectronicTrading

open Exec Runs Reference
open MatchingEngineOrderBook (OneEach Good informs_of_cleanStep
  exact_of_cleanStep)
open SnapshotSynthesizer (tickerOf tickerOf_injective)

-- =============================================================== the session

/-- A client's desk, the exchange, and what is on its way between them. -/
structure TradingSession where
  desk : Desk
  requests : List MatchingEngineClientRequest
  engine : MatchingEngine
  responses : List MatchingEngineClientResponse

namespace TradingSession

def new (clientId : ClientID) (riskConfig : TickerID → RiskConfig) :
    TradingSession where
  desk := .new clientId riskConfig
  requests := []
  engine := .new
  responses := []

inductive Act where
  | moveOrders (tickerId : TickerID) (bidPrice askPrice : Price)
      (clip : Quantity)
  | updateBBO (tickerId : TickerID) (bbo : BBO)
  | process
  | other (request : MatchingEngineClientRequest)
  | receive

/-- The exchange has handled a request. -/
def answered (s : TradingSession) (engine : MatchingEngine) :
    TradingSession :=
  { s with
    engine := engine
    responses := s.responses ++ answersTo s.desk.orderManager.clientId
      (engine.sent.drop s.engine.sent.length) }

/-- A call of `moveOrders`, a new BBO, the client's next request at the
exchange, another client's, or the client's next response. -/
def Step (s : TradingSession) (a : Act) (s' : TradingSession) : Prop :=
  match a with
  | .moveOrders tickerId bidPrice askPrice clip =>
      ∃ desk, (Desk.moveOrders tickerId bidPrice askPrice clip).run s.desk
          = .ok () desk
        ∧ s' = { s with
          desk := desk
          requests := s.requests ++ desk.orderManager.requests.drop
            s.desk.orderManager.requests.length }
  | .updateBBO tickerId bbo =>
      ∃ desk, (Desk.updateBBO tickerId bbo).run s.desk = .ok () desk
        ∧ s' = { s with desk := desk }
  | .process => ∃ request rest engine, s.requests = request :: rest
      ∧ MatchingEngine.Processed s.engine request engine
      ∧ s' = { s.answered engine with requests := rest }
  | .other request => request.clientId ≠ s.desk.orderManager.clientId
      ∧ ∃ engine, MatchingEngine.Processed s.engine request engine
        ∧ s' = s.answered engine
  | .receive => ∃ response rest desk, s.responses = response :: rest
      ∧ (Desk.onOrderUpdate response).run s.desk = .ok () desk
      ∧ s' = { s with desk := desk, responses := rest }

/-- No order of quantity zero is sent; what the exchange handles is well
formed, and safe for the slots of its book. -/
def Clean (s : TradingSession) (a : Act) : Prop :=
  match a with
  | .moveOrders tickerId bidPrice askPrice clip =>
      s.desk.PlacesAny tickerId bidPrice askPrice clip → clip ≠ 0
  | .updateBBO _ _ => True
  | .process => ∀ r ∈ s.requests.head?, s.engine.Safe r
  | .other request => s.engine.Safe request
  | .receive => True

/-- The session of its order manager. -/
def toSession (s : TradingSession) : Session where
  orderManager := s.desk.orderManager
  requests := s.requests
  engine := s.engine
  responses := s.responses

/-- The position the client knows of. -/
def position (s : TradingSession) (i : Fin matchingEngineMaxTickers) : Int :=
  (s.desk.positionKeeper.tickerPosition (tickerOf i)).position

/-- The fills of a side that are on their way. -/
def untold (s : TradingSession) (i : Fin matchingEngineMaxTickers)
    (b : Bool) : Nat :=
  (((answersFor (tickerOf i) (sideOf b) s.responses).filter
    (·.type = .filled)).map (·.execQuantity.toNat)).sum

/-- The position as the exchange has executed it. -/
def exchangePosition (s : TradingSession)
    (i : Fin matchingEngineMaxTickers) : Int :=
  s.position i + s.untold i true - s.untold i false

/-- The position is within the limit: the one the client knows of, the one
the exchange has executed, and that with any one of the client's orders in
the book filled as well. -/
structure WithinLimit (s : TradingSession) (c : ClientID)
    (i : Fin matchingEngineMaxTickers) (limit : Nat) : Prop where
  known : |s.position i| ≤ limit
  executed : |s.exchangePosition i| ≤ limit
  filled : ∀ b, ∀ x ∈ (s.engine.tickerOrderBook i).mine c b,
    |s.exchangePosition i + sideToValue (sideOf b) * x.quantity.toNat| ≤ limit

end TradingSession

-- ================================================================== one slot

/-- A slot, the answers on their way to it, and the open orders it was
sent as. -/
structure Tallied (x : OMOrder) (answers : List MatchingEngineClientResponse)
    (orders : List SentOrder) : Prop where
  free : x.orderState = .invalid ∨ x.orderState = .dead →
    answers = [] ∧ orders = []
  exact : Exact x.quantity answers
  tally : ∀ o ∈ orders, o.quantity ≠ 0
    ∧ x.quantity.toNat + o.executed = o.quantity
    ∧ (x.orderState = .pendingNew → o.accepted = false ∧ o.executed = 0)

section Slot

variable {x x' : OMOrder} {m : MatchingEngineClientResponse}
  {ms : List MatchingEngineClientResponse} {o : SentOrder}
  {orders : List SentOrder} {q : Quantity}

/-- The first answer of a flow is for an order that is open. -/
theorem Flow.busy (h : Flow x (m :: ms) x') :
    ¬ (x.orderState = .invalid ∨ x.orderState = .dead) := by
  intro hfree
  cases (h.free hfree).1

/-- The others follow it, and the slot is not one that was just sent. -/
theorem Flow.tail (h : Flow x (m :: ms) x') :
    Flow (x.updated m) ms x' ∧ (x.updated m).orderState ≠ .pendingNew := by
  cases h with
  | accepted _ htype hrest =>
      exact ⟨hrest, (Flow.updated_state (.inl htype)).1⟩
  | filled hstate htype hrest =>
      exact ⟨hrest, (Flow.updated_state (.inr (.inr ⟨htype, hstate⟩))).1⟩
  | cancelled _ htype hrest =>
      exact ⟨hrest, (Flow.updated_state (.inr (.inl htype))).1⟩

theorem Tracks.exists (h : Tracks x orders)
    (hbusy : ¬ (x.orderState = .invalid ∨ x.orderState = .dead)) :
    ∃ o, orders = [o] := by
  unfold Tracks at h
  cases hstate : x.orderState with
  | invalid => exact (hbusy (.inl hstate)).elim
  | dead => exact (hbusy (.inr hstate)).elim
  | pendingNew | live | pendingCancel =>
      rw [hstate] at h
      exact h

/-- What an answer on its way to a slot makes of the slot's open order. -/
theorem Tallied.answered (h : Tallied x (m :: ms) [o])
    (hflow : Flow x (m :: ms) x') (hopen : o.IsOpen)
    (hfor : o.IsFor m.tickerId m.side) :
    ∃ o', o.Answered m o' ∧ o'.quantity ≠ 0
      ∧ (x.updated m).quantity.toNat + o'.executed = o'.quantity := by
  obtain ⟨hne, htally, hwaits⟩ := h.tally o (List.mem_singleton_self o)
  have hexact := h.exact.1
  rw [OMOrder.quantity_updated]
  cases hflow with
  | accepted hstate htype _ =>
      obtain ⟨haccepted, hexecuted⟩ := hwaits hstate
      refine ⟨_, .accepted htype hfor hopen haccepted hexecuted, hne, ?_⟩
      rw [leftBy_other (by rw [htype]; exact nofun)]
      exact htally
  | filled hstate htype _ =>
      have hsum := hexact htype
      have hworking : o.IsWorking :=
        ⟨hopen.1, hopen.2.resolve_right hne⟩
      refine ⟨_, .filled htype hfor hworking ?_, hne, ?_⟩
      · omega
      · rw [leftBy_filled htype]
        show m.leavesQuantity.toNat
          + (o.executed + m.execQuantity.toNat) = o.quantity
        omega
  | cancelled hstate htype _ =>
      refine ⟨_, .cancelled htype hfor hopen, hne, ?_⟩
      rw [leftBy_other (by rw [htype]; exact nofun)]
      exact htally

/-- The fills of exact answers, and what they leave. -/
theorem exact_sum (h : Exact q ms) :
    ((ms.filter (·.type = .filled)).map (·.execQuantity.toNat)).sum
      + (leftAfter q ms).toNat = q.toNat := by
  induction ms generalizing q with
  | nil => exact Nat.zero_add _
  | cons m ms ih =>
      have hrest := ih h.2
      have hcons : leftAfter q (m :: ms) = leftAfter (leftBy q m) ms := rfl
      rw [hcons]
      by_cases hm : m.type = .filled
      · have hsum := h.1 hm
        rw [leftBy_filled hm] at hrest ⊢
        rw [List.filter_cons_of_pos (by simpa using hm), List.map_cons,
          List.sum_cons]
        omega
      · rw [leftBy_other hm] at hrest ⊢
        rw [List.filter_cons_of_neg (by simpa using hm)]
        exact hrest

end Slot

-- ================================================================= all slots

/-- Every slot with its answers and its open orders. -/
def AllTallied (s : OrderManager) (responses : List MatchingEngineClientResponse)
    (orders : List SentOrder) : Prop :=
  ∀ i b, Tallied (s.tickerSideOrders (Session.slot i b))
    (answersFor (tickerOf i) (sideOf b) responses)
    (openFor orders (tickerOf i) (sideOf b))

section Moving

variable {s : OrderManager} {responses : List MatchingEngineClientResponse}
  {orders : List SentOrder} {i : Fin matchingEngineMaxTickers} {b : Bool}

theorem isTradeSide_sideOf (b : Bool) : IsTradeSide (sideOf b) := by
  cases b
  · exact .inr rfl
  · exact .inl rfl

/-- Another order in one slot, and an order more. -/
theorem AllTallied.put (h : AllTallied s responses orders) {x : OMOrder}
    {new : List SentOrder}
    (hslot : Tallied x (answersFor (tickerOf i) (sideOf b) responses)
      (openFor (orders ++ new) (tickerOf i) (sideOf b)))
    (hnew : ∀ o ∈ new, o.IsFor (tickerOf i) (sideOf b)) :
    AllTallied (s.putOrder (Session.slot i b) x) responses (orders ++ new) := by
  intro j d
  by_cases hsame : Session.slot j d = Session.slot i b
  · obtain ⟨rfl, rfl⟩ := Session.slot_injective hsame
    rw [OrderManager.putOrder_same]
    exact hslot
  · have hnone : openFor new (tickerOf j) (sideOf d) = [] := by
      unfold openFor
      refine List.filter_eq_nil_iff.2 fun o ho hfor => hsame ?_
      obtain ⟨-, hticker, hside⟩ := of_decide_eq_true hfor
      obtain ⟨hticker', hside'⟩ := hnew o ho
      rw [tickerOf_injective (hticker.symm.trans hticker'),
        sideOf_injective (hside.symm.trans hside')]
    rw [OrderManager.putOrder_other hsame, openFor_append, hnone,
      List.append_nil]
    exact h j d

/-- The order of a slot is cancelled. -/
theorem AllTallied.cancelled (h : AllTallied s responses orders) :
    AllTallied (s.withCancelled (Session.slot i b)) responses orders := by
  obtain ⟨-, hexact, htally⟩ := h i b
  have hput : AllTallied (s.withCancelled (Session.slot i b)) responses
      (orders ++ []) := by
    refine h.put ?_ nofun
    rw [List.append_nil]
    refine ⟨fun hfree => ?_, hexact, fun o ho => ?_⟩
    · rcases hfree with hfree | hfree
      · cases hfree
      · cases hfree
    · obtain ⟨hne, hsum, -⟩ := htally o ho
      exact ⟨hne, hsum, nofun⟩
  rw [List.append_nil] at hput
  exact hput

/-- A new order is sent from a free slot. -/
theorem AllTallied.ordered (h : AllTallied s responses orders)
    (hfree : s.IsFree (Session.slot i b)) (price : Price)
    {quantity : Quantity} (hne : quantity ≠ 0) :
    AllTallied (s.withNewOrder (Session.slot i b) (tickerOf i) price (sideOf b)
        quantity) responses
      (orders ++ SentOrder.ofRequests
        [s.newRequest (tickerOf i) price (sideOf b) quantity]) := by
  obtain ⟨hanswers, horders⟩ := (h i b).free hfree
  obtain ⟨o, ho⟩ : ∃ o : SentOrder, o =
      { request := s.newRequest (tickerOf i) price (sideOf b) quantity } :=
    ⟨_, rfl⟩
  have hone : SentOrder.ofRequests
      [s.newRequest (tickerOf i) price (sideOf b) quantity] = [o] := by
    rw [ho]
    rfl
  have hfor : o.IsFor (tickerOf i) (sideOf b) := by
    rw [ho]
    exact ⟨rfl, rfl⟩
  have hquantity : o.quantity = quantity.toNat := by
    rw [ho]
    rfl
  have hpositive : o.quantity ≠ 0 := by
    rw [hquantity]
    exact fun hzero => hne (UInt32.toNat_inj.1 hzero)
  have hopen : o.IsOpen := by
    rw [ho]
    refine ⟨rfl, .inl ?_⟩
    rw [ho] at hpositive
    exact Nat.pos_of_ne_zero hpositive
  rw [hone]
  refine h.put ?_ fun o' ho' => ?_
  · rw [openFor_append, horders, openFor_singleton, if_pos ⟨hopen, hfor⟩,
      hanswers]
    refine ⟨fun hstate => ?_, trivial, fun o' ho' => ?_⟩
    · rcases hstate with hstate | hstate
      · cases hstate
      · cases hstate
    · rw [List.mem_singleton.1 ho']
      refine ⟨hpositive, ?_, fun _ => ?_⟩
      · rw [hquantity, ho]
        rfl
      · rw [ho]
        exact ⟨rfl, rfl⟩
  · rw [List.mem_singleton.1 ho']
    exact hfor

/-- One order moved. -/
theorem AllTallied.moved (h : AllTallied s responses orders)
    (i : Fin matchingEngineMaxTickers) (b : Bool) (risk : PreTradeRisk)
    (price : Price) {quantity : Quantity}
    (hne : s.Places risk (Session.slot i b) (tickerOf i) price (sideOf b)
      quantity → quantity ≠ 0) :
    AllTallied (s.moved risk (Session.slot i b) (tickerOf i) price (sideOf b)
        quantity) responses
      (orders ++ SentOrder.ofRequests (s.moveRequests risk (Session.slot i b)
        (tickerOf i) price (sideOf b) quantity)) := by
  unfold OrderManager.moved OrderManager.moveRequests
  by_cases helsewhere : s.Elsewhere (Session.slot i b) price quantity
  · rw [if_pos helsewhere, if_pos helsewhere]
    have hnone : SentOrder.ofRequests [s.cancelRequest (Session.slot i b)]
        = [] := rfl
    rw [hnone, List.append_nil]
    exact h.cancelled
  · rw [if_neg helsewhere, if_neg helsewhere]
    split
    · next hnew => exact h.ordered hnew.1 price (hne hnew)
    · have hnone : SentOrder.ofRequests [] = [] := rfl
      rw [hnone, List.append_nil]
      exact h

end Moving

-- ============================================================= the refinement

namespace TradingSession

/-- The market has the session's desk, and its open orders are what the
answers on their way make of the slots. -/
structure Followed (c : ClientID) (s : TradingSession) (market : Market) :
    Prop where
  linked : Session.Linked c s.toSession
  slots : AllTallied s.desk.orderManager s.responses market.orders
  desk : market.desk = s.desk

variable {c : ClientID} {riskConfig : TickerID → RiskConfig}
  {s s' : TradingSession} {market : Market}

theorem followed_new : Followed c (new c riskConfig)
    (Market.new c riskConfig) where
  linked := Session.linked_new c
  slots := fun _ _ => ⟨fun _ => ⟨rfl, rfl⟩, trivial, nofun⟩
  desk := rfl

/-- A ticker in range is one of the tickers. -/
theorem exists_tickerOf {tickerId : TickerID}
    (h : tickerId.toNat < matchingEngineMaxTickers) :
    ∃ i, tickerId = tickerOf i := by
  refine ⟨⟨tickerId.toNat, h⟩, UInt32.toNat_inj.1 ?_⟩
  rw [SnapshotSynthesizer.toNat_tickerOf]

/-- The client moves its orders. -/
theorem Followed.moveOrders (h : Followed c s market) {tickerId : TickerID}
    {bidPrice askPrice : Price} {clip : Quantity}
    (hclip : s.desk.PlacesAny tickerId bidPrice askPrice clip → clip ≠ 0)
    (hstep : Step s (.moveOrders tickerId bidPrice askPrice clip) s') :
    ∃ market', market.Step (.moveOrders tickerId bidPrice askPrice clip) market'
      ∧ Followed c s' market' := by
  obtain ⟨desk, hrun, rfl⟩ := hstep
  obtain ⟨hticker, hdesk⟩ := Desk.moveOrders_cases hrun
  obtain ⟨i, rfl⟩ := exists_tickerOf hticker
  obtain ⟨risk, hrisk⟩ : ∃ risk, risk
      = s.desk.riskManager.checkPreTradeRisk s.desk.positionKeeper := ⟨_, rfl⟩
  obtain ⟨om, hom⟩ : ∃ om, om = s.desk.orderManager.moved risk
    (Session.slot i true) (tickerOf i) bidPrice (sideOf true) clip := ⟨_, rfl⟩
  have hplaces : s.desk.orderManager.PlacesAny risk (tickerOf i) bidPrice
      askPrice clip → clip ≠ 0 := by
    rw [hrisk]
    exact hclip
  have hmanager : desk.orderManager = om.moved risk (Session.slot i false)
      (tickerOf i) askPrice (sideOf false) clip := by
    rw [hdesk, hom, hrisk]
    rfl
  have hsession : Session.Step s.toSession
      (.moveOrders risk (tickerOf i) bidPrice askPrice clip)
      { s.toSession with
        orderManager := desk.orderManager
        requests := s.requests ++ desk.orderManager.requests.drop
          s.desk.orderManager.requests.length } := by
    refine ⟨desk.orderManager, ?_, rfl⟩
    rw [OrderManager.run_moveOrders, if_pos hticker, hmanager, hom]
    rfl
  obtain ⟨bids, hbids⟩ : ∃ bids, bids = s.desk.orderManager.moveRequests risk
    (Session.slot i true) (tickerOf i) bidPrice (sideOf true) clip := ⟨_, rfl⟩
  obtain ⟨asks, hasks⟩ : ∃ asks, asks = om.moveRequests risk
    (Session.slot i false) (tickerOf i) askPrice (sideOf false) clip := ⟨_, rfl⟩
  have hrequests : desk.orderManager.requests
      = s.desk.orderManager.requests ++ (bids ++ asks) := by
    rw [hmanager, OrderManager.moved_requests, ← List.append_assoc, hasks, hom,
      OrderManager.moved_requests, hbids]
  refine ⟨⟨desk, market.orders ++ SentOrder.ofRequests (bids ++ asks)⟩,
    ⟨?_, bids ++ asks, ?_, rfl⟩, h.linked.step hsession hplaces, ?_, rfl⟩
  · rw [h.desk]
    exact hrun
  · rw [h.desk]
    exact hrequests
  · rw [hmanager, ofRequests_append, ← List.append_assoc, hasks, hom, hbids]
    have hbid := h.slots.moved i true risk bidPrice
      fun hp => hplaces (.inl hp)
    exact hbid.moved i false risk askPrice fun hp =>
      hplaces (.inr (OrderManager.places_of_moved Session.slot_apart hp))

/-- A new BBO. -/
theorem Followed.updateBBO (h : Followed c s market) {tickerId : TickerID}
    {bbo : BBO} (hstep : Step s (.updateBBO tickerId bbo) s') :
    ∃ market', market.Step (.updateBBO tickerId bbo) market'
      ∧ Followed c s' market' := by
  obtain ⟨desk, hrun, rfl⟩ := hstep
  obtain ⟨-, hdesk⟩ := Desk.updateBBO_cases hrun
  have hmanager : desk.orderManager = s.desk.orderManager := by rw [hdesk]
  refine ⟨⟨desk, market.orders⟩, ⟨?_, rfl⟩, ?_, ?_, rfl⟩
  · rw [h.desk]
    exact hrun
  · have hsame : TradingSession.toSession { s with desk := desk }
        = s.toSession := by
      unfold toSession
      rw [hmanager]
    rw [hsame]
    exact h.linked
  · rw [hmanager]
    exact h.slots

-- ------------------------------------------------------------ at the exchange

/-- What is on its way to a slot leaves what the slot's order has left at
the exchange, or comes there with. -/
theorem quantity_of_settled {tickerId : TickerID} {side : Side}
    {rs : List MatchingEngineClientRequest} {l : List (Resting OrderIds)}
    {o : OMOrder} (h : Settled tickerId side rs l o) :
    (∀ x ∈ l, x.quantity = o.quantity)
      ∧ ∀ r ∈ newsFor tickerId side rs, r.quantity = o.quantity := by
  have hempty : ∀ {α : Type} {l : List α} {P : α → Prop}, l = [] →
      ∀ x ∈ l, P x := by
    rintro α l P rfl x hx
    cases hx
  cases h with
  | free _ hnone hnews => exact ⟨hempty hnone, hempty hnews⟩
  | sent r _ hnone hnews _ _ hquantity _ _ =>
      refine ⟨hempty hnone, fun r' hr' => ?_⟩
      rw [hnews] at hr'
      rw [List.mem_singleton.1 hr']
      exact hquantity
  | live x _ hone hat hnews _ | cancelling x _ hone hat hnews _ =>
      refine ⟨fun y hy => ?_, hempty hnews⟩
      rw [hone] at hy
      rw [List.mem_singleton.1 hy]
      exact hat.quantity

/-- The exchange handles a request. -/
theorem Followed.answered (h : Followed c s market)
    {r : MatchingEngineClientRequest} {rs' : List MatchingEngineClientRequest}
    {engine : MatchingEngine} (hhandled : Handled c r s.requests rs')
    (hsafe : s.engine.Safe r)
    (hprocessed : MatchingEngine.Processed s.engine r engine) :
    Followed c { s.answered engine with requests := rs' } market := by
  have hlinked := h.linked.answered hhandled hsafe hprocessed
  refine ⟨hlinked, fun j b => ?_, h.desk⟩
  obtain ⟨hfree, hexact, htally⟩ := h.slots j b
  obtain ⟨x', hflow, -⟩ := hlinked.slots j b
  refine ⟨fun hstate => ⟨(hflow.free hstate).1, (hfree hstate).2⟩, ?_, htally⟩
  -- the answers are exact, also with the new ones
  have hstep := hsafe.cleanStep h.linked.good hprocessed
  obtain ⟨i, hticker, hbook, hset⟩ := hprocessed.book
  obtain ⟨lay, hgood⟩ := h.linked.good i
  have hclean : MatchingEngineOrderBook.CleanStep (s.engine.tickerOrderBook i)
      r (engine.tickerOrderBook i) := ⟨hstep.valid, hbook, hstep.slots i⟩
  obtain ⟨out, hinforms, -⟩ := informs_of_cleanStep hgood hclean
    (h.linked.each i) (h.linked.fresh hhandled hticker)
  have hsent := MatchingEngine.sent_of_book hset hinforms.sent
  have hresponses : (s.answered engine).responses
      = s.responses ++ answersTo c out := by
    show s.responses ++ answersTo s.desk.orderManager.clientId
      (engine.sent.drop s.engine.sent.length) = _
    have hclient : s.desk.orderManager.clientId = c := h.linked.client
    rw [hclient, hsent, List.drop_left]
  show Exact _ (answersFor (tickerOf j) (sideOf b)
    (s.answered engine).responses)
  rw [hresponses, answersFor_append]
  apply hexact.append
  by_cases hj : j = i
  · obtain ⟨o, hold, hsettled⟩ := h.linked.slots j b
    obtain ⟨hrests, hnews⟩ := quantity_of_settled hsettled
    rw [hj] at hold hrests hnews ⊢
    have hleft : o.quantity = leftAfter
        (s.desk.orderManager.tickerSideOrders (Session.slot i b)).quantity
        (answersFor (tickerOf i) (sideOf b) s.responses) := hold.quantity
    rw [← hleft, ← hticker]
    refine exact_of_cleanStep hgood hclean (h.linked.each i) hinforms.sent
      hrests fun hnew hclient hside => hnews r ?_
    rcases hhandled with ⟨-, hrs⟩ | ⟨hother, -⟩
    · have hmine : s.toSession.requests = r :: rs' := hrs
      rw [hmine, newsFor_cons_own ⟨hnew, hticker, hside⟩]
      exact List.mem_cons_self
    · exact (hother hclient).elim
  · have hnone : answersFor (tickerOf j) (sideOf b) (answersTo c out) = [] := by
      refine List.filter_eq_nil_iff.2 fun m hm heq => hj ?_
      apply tickerOf_injective
      rw [← hticker, ← (hinforms.answers m hm).1]
      exact (of_decide_eq_true heq).1.symm
    rw [hnone]
    trivial

-- ------------------------------------------------------------------ receiving

/-- An answer about a slot's order is one of the market's open order. -/
theorem Followed.receive (h : Followed c s market)
    (hmarket : Inv riskConfig market) {m : MatchingEngineClientResponse}
    {rest : List MatchingEngineClientResponse} {desk : Desk}
    (hresponses : s.responses = m :: rest)
    (hrun : (Desk.onOrderUpdate m).run s.desk = .ok () desk)
    {i : Fin matchingEngineMaxTickers} {b : Bool}
    (hticker : m.tickerId = tickerOf i) (hside : m.side = sideOf b) :
    ∃ market', market.Step (.answer m) market'
      ∧ Followed c { s with desk := desk, responses := rest } market' := by
  obtain ⟨-, hdesk⟩ := Desk.onOrderUpdate_cases hrun
  have hlinked := h.linked.receive hresponses
  obtain ⟨x, hx⟩ : ∃ x, x
    = s.desk.orderManager.tickerSideOrders (Session.slot i b) := ⟨_, rfl⟩
  have hmanager : desk.orderManager
      = s.desk.orderManager.putOrder (Session.slot i b) (x.updated m) := by
    rw [hdesk, hx]
    unfold OrderManager.responded
    rw [hticker, hside]
    rfl
  -- the slot, its answers and its order
  obtain ⟨x', hflow, -⟩ := h.linked.slots i b
  have hown : s.toSession.responses = m :: rest := hresponses
  rw [hown, answersFor_cons_own ⟨hticker, hside⟩] at hflow
  have hflow' : Flow x (m :: answersFor (tickerOf i) (sideOf b) rest) x' :=
    hx ▸ hflow
  have htallied := h.slots i b
  rw [hresponses, answersFor_cons_own ⟨hticker, hside⟩, ← hx] at htallied
  have htracks := hmarket.slots (tickerOf i) (sideOf b) (isTradeSide_sideOf b)
  rw [h.desk] at htracks
  change Tracks (s.desk.orderManager.tickerSideOrders (Session.slot i b)) _
    at htracks
  rw [← hx] at htracks
  obtain ⟨o, hone⟩ := htracks.exists hflow'.busy
  obtain ⟨hmem, hopen, hfor⟩ : o ∈ market.orders ∧ o.IsOpen
      ∧ o.IsFor (tickerOf i) (sideOf b) := by
    apply mem_openFor.1
    rw [hone]
    exact List.mem_singleton_self o
  rw [hone] at htallied htracks
  have hfor' : o.IsFor m.tickerId m.side := by
    rw [hticker, hside]
    exact hfor
  obtain ⟨o', hanswered, hne, hsum⟩ := htallied.answered hflow' hopen hfor'
  obtain ⟨hsame, htype⟩ : o'.request = o.request
      ∧ m.type ≠ .cancelRejected := by
    rcases answered_cases hanswered with ⟨-, hinvalid, -⟩ | ⟨-, -, hsame, htype⟩
    · rw [hside] at hinvalid
      cases b
      · cases hinvalid
      · cases hinvalid
    · exact ⟨hsame, htype⟩
  have hisFor : ∀ {t d}, o'.IsFor t d ↔ o.IsFor t d := by
    intro t d
    unfold SentOrder.IsFor
    rw [hsame]
  obtain ⟨before, after, horders⟩ := List.append_of_mem hmem
  refine ⟨⟨desk, before ++ o' :: after⟩,
    ⟨?_, before, o, after, o', horders, hanswered, rfl⟩, ?_, ?_, rfl⟩
  · rw [h.desk]
    exact hrun
  · have hsession : TradingSession.toSession
        { s with desk := desk, responses := rest }
        = { s.toSession with
          orderManager := s.desk.orderManager.responded m
          responses := rest } := by
      unfold toSession
      rw [hdesk]
    rw [hsession]
    exact hlinked
  · rw [hmanager]
    intro j d
    by_cases hslot : Session.slot j d = Session.slot i b
    · obtain ⟨rfl, rfl⟩ := Session.slot_injective hslot
      have hnew : openFor (before ++ o' :: after) (tickerOf j) (sideOf d)
          = if o'.IsOpen then [o'] else [] := by
        rw [horders] at hone
        rw [openFor_replace hone ⟨hopen, hfor⟩]
        simp only [hisFor.2 hfor, and_true]
      have hafter := answered_tracks htracks hanswered htype
      obtain ⟨hrest, hpending⟩ := hflow'.tail
      rw [OrderManager.putOrder_same, hnew]
      refine ⟨fun hfree => ⟨(hrest.free hfree).1, ?_⟩, ?_, fun o'' ho'' => ?_⟩
      · unfold Tracks at hafter
        rcases hfree with hstate | hstate
        · rw [hstate] at hafter
          exact hafter
        · rw [hstate] at hafter
          exact hafter
      · rw [OMOrder.quantity_updated]
        exact htallied.exact.2
      · have heq : o'' = o' := by
          split at ho''
          · exact List.mem_singleton.1 ho''
          · cases ho''
        rw [heq]
        exact ⟨hne, hsum, fun hstate => (hpending hstate).elim⟩
    · have hother : ¬ (m.tickerId = tickerOf j ∧ m.side = sideOf d) := by
        intro h
        obtain ⟨hticker', hside'⟩ := h
        apply hslot
        rw [tickerOf_injective (hticker'.symm.trans hticker),
          sideOf_injective (hside'.symm.trans hside)]
      have hnot : ¬ o.IsFor (tickerOf j) (sideOf d) := by
        intro h
        obtain ⟨hticker', hside'⟩ := h
        exact hother ⟨hfor'.1.symm.trans hticker', hfor'.2.symm.trans hside'⟩
      have hold := h.slots j d
      rw [hresponses, answersFor_cons_other hother, horders] at hold
      rw [OrderManager.putOrder_other hslot,
        openFor_other hnot fun hmine => hnot (hisFor.1 hmine)]
      exact hold

/-- A CANCEL_REJECTED is not noticed. -/
theorem Followed.receive_rejected (h : Followed c s market)
    {m : MatchingEngineClientResponse}
    {rest : List MatchingEngineClientResponse} {desk : Desk}
    (hresponses : s.responses = m :: rest)
    (hrun : (Desk.onOrderUpdate m).run s.desk = .ok () desk)
    (hside : m.side = .invalid) (htype : m.type = .cancelRejected) :
    Followed c { s with desk := desk, responses := rest } market := by
  obtain ⟨-, hdesk⟩ := Desk.onOrderUpdate_cases hrun
  have hresponded : s.desk.orderManager.responded m = s.desk.orderManager := by
    have hupdated : ∀ x : OMOrder, x.updated m = x := by
      intro x
      unfold OMOrder.updated
      rw [htype]
    have hput : ∀ slot, (s.desk.orderManager.responded m).tickerSideOrders slot
        = s.desk.orderManager.tickerSideOrders slot := by
      intro slot
      unfold OrderManager.responded OrderManager.putOrder
      dsimp only
      split
      · next heq => rw [hupdated, heq]
      · rfl
    have heta : s.desk.orderManager.responded m = { s.desk.orderManager with
        tickerSideOrders :=
          (s.desk.orderManager.responded m).tickerSideOrders } := rfl
    rw [heta, funext hput]
  have hsame : desk = s.desk := by
    rw [hdesk, hresponded]
    unfold Desk.filled
    rw [if_neg (by rw [htype]; exact nofun)]
  have hlinked := h.linked.receive hresponses
  rw [hsame]
  refine ⟨?_, fun j d => ?_, h.desk⟩
  · have hmanager : s.toSession.orderManager.responded m
        = s.toSession.orderManager := hresponded
    rw [hmanager] at hlinked
    exact hlinked
  · have hother : ¬ (m.tickerId = tickerOf j ∧ m.side = sideOf d) := by
      intro h
      obtain ⟨-, hside'⟩ := h
      rw [hside] at hside'
      cases d
      · cases hside'
      · cases hside'
    have hold := h.slots j d
    rw [hresponses, answersFor_cons_other hother] at hold
    exact hold

-- ====================================================================== runs

/-- A run of the session is followed by one of the market. -/
theorem followed_of_run (hmoderate : Moderate riskConfig) {as : List Act}
    (h : Run (fun s a s' => Step s a s' ∧ Clean s a) (new c riskConfig) as s) :
    ∃ acts market, Run Market.Step (.new c riskConfig) acts market
      ∧ Followed c s market := by
  refine h.simulated followed_new ?_
  intro _ s a s' acts market _ hacts hs ⟨hstep, hclean⟩
  have hone : ∀ {act}, (∃ market', market.Step act market'
      ∧ Followed c s' market') →
      ∃ acts market', Run Market.Step market acts market'
        ∧ Followed c s' market' := by
    intro act h
    obtain ⟨market', hmarket, hs'⟩ := h
    exact ⟨_, market', Run.nil.snoc hmarket, hs'⟩
  cases a with
  | moveOrders => exact hone (hs.moveOrders hclean hstep)
  | updateBBO => exact hone (hs.updateBBO hstep)
  | process =>
      obtain ⟨r, rest, engine, hrequests, hprocessed, rfl⟩ := hstep
      have hr : r ∈ s.toSession.requests := by
        show r ∈ s.requests
        rw [hrequests]
        exact List.mem_cons_self
      refine ⟨[], market, .nil, hs.answered
        (.inl ⟨(hs.linked.requests r hr).1, hrequests⟩) ?_ hprocessed⟩
      apply hclean
      rw [hrequests]
      rfl
  | other r =>
      obtain ⟨hother, engine, hprocessed, rfl⟩ := hstep
      have hclient : s.desk.orderManager.clientId = c := hs.linked.client
      rw [hclient] at hother
      exact ⟨[], market, .nil,
        hs.answered (.inr ⟨hother, rfl⟩) hclean hprocessed⟩
  | receive =>
      obtain ⟨m, rest, desk, hresponses, hrun, rfl⟩ := hstep
      have hmarket : Inv riskConfig market :=
        hacts.induct (I := fun _ market => Inv riskConfig market)
          (new_inv c) fun _ _ _ _ _ hinv hstep => step_inv hmoderate hinv hstep
      obtain ⟨⟨hrange, -⟩, -⟩ := Desk.onOrderUpdate_cases hrun
      obtain ⟨i, hticker⟩ := exists_tickerOf hrange
      have hm : m ∈ s.toSession.responses := by
        show m ∈ s.responses
        rw [hresponses]
        exact List.mem_cons_self
      rcases hs.linked.answers m hm with hside | hside | ⟨hside, htype⟩
      · exact hone (hs.receive hmarket hresponses hrun (b := true) hticker hside)
      · exact hone (hs.receive hmarket hresponses hrun (b := false) hticker
          hside)
      · exact ⟨[], market, .nil,
          hs.receive_rejected hresponses hrun hside htype⟩

/-- What a side of a ticker can still move the client's position by is
within the limit, and covers what is on its way and what rests. -/
theorem Followed.room (h : Followed c s market)
    (hmarket : Inv riskConfig market) (i : Fin matchingEngineMaxTickers)
    (b : Bool) :
    ∃ working : Nat,
      |s.position i + sideToValue (sideOf b) * working|
        ≤ (riskConfig (tickerOf i)).maxPosition.toNat
      ∧ s.untold i b ≤ working
      ∧ ∀ x ∈ (s.engine.tickerOrderBook i).mine c b,
        s.untold i b + x.quantity.toNat = working := by
  obtain ⟨x, hx⟩ : ∃ x, x
    = s.desk.orderManager.tickerSideOrders (Session.slot i b) := ⟨_, rfl⟩
  obtain ⟨x', hflow, hsettled⟩ := h.linked.slots i b
  have hflow' : Flow x (answersFor (tickerOf i) (sideOf b) s.responses) x' :=
    hx ▸ hflow
  obtain ⟨hrests, -⟩ := quantity_of_settled hsettled
  have hposition : s.position i = market.position (tickerOf i) := by
    unfold position Market.position
    rw [h.desk]
  have htallied := h.slots i b
  rw [← hx] at htallied
  have hsum : s.untold i b + x'.quantity.toNat = x.quantity.toNat := by
    rw [hflow'.quantity]
    exact exact_sum htallied.exact
  by_cases hfree : x.orderState = .invalid ∨ x.orderState = .dead
  · -- nothing is open
    obtain ⟨hnone, rfl⟩ := hflow'.free hfree
    have huntold : s.untold i b = 0 := by
      unfold untold
      rw [hnone]
      rfl
    have hempty : (s.engine.tickerOrderBook i).mine c b = [] := by
      cases hsettled with
      | free _ hnone _ => exact hnone
      | sent _ hstate _ _ _ _ _ _ _ | live _ hstate _ _ _ _
      | cancelling _ hstate _ _ _ _ =>
          rw [hstate] at hfree
          simp at hfree
    refine ⟨0, ?_, by rw [huntold], fun y hy => ?_⟩
    · have hwithin := hmarket.within (tickerOf i)
      rw [hposition, Nat.cast_zero, mul_zero, add_zero]
      exact hwithin
    · rw [hempty] at hy
      cases hy
  · have htracks := hmarket.slots (tickerOf i) (sideOf b)
      (isTradeSide_sideOf b)
    rw [h.desk] at htracks
    change Tracks (s.desk.orderManager.tickerSideOrders (Session.slot i b)) _
      at htracks
    rw [← hx] at htracks
    obtain ⟨o, hone⟩ := htracks.exists hfree
    have ho : o ∈ openFor market.orders (tickerOf i) (sideOf b) := by
      rw [hone]
      exact List.mem_singleton_self o
    obtain ⟨hmem, hopen, hticker, hside⟩ := mem_openFor.1 ho
    obtain ⟨-, htally, -⟩ := htallied.tally o ho
    have hroom := hmarket.room o hmem hopen
    have hremaining : o.remaining = x.quantity.toNat := by
      unfold SentOrder.remaining
      omega
    rw [hticker, hside, hremaining, ← hposition] at hroom
    refine ⟨x.quantity.toNat, hroom, by omega, fun y hy => ?_⟩
    rw [hrests y hy]
    exact hsum

/-- The position of the `Market` bounds all three. -/
theorem Followed.withinLimit (h : Followed c s market)
    (hmarket : Inv riskConfig market) (i : Fin matchingEngineMaxTickers) :
    s.WithinLimit c i (riskConfig (tickerOf i)).maxPosition.toNat := by
  have hposition : s.position i = market.position (tickerOf i) := by
    unfold position Market.position
    rw [h.desk]
  obtain ⟨bids, hbids, hbought, hbid⟩ := h.room hmarket i true
  obtain ⟨asks, hasks, hsold, hask⟩ := h.room hmarket i false
  have hbuy : sideToValue (sideOf true) = 1 := rfl
  have hsell : sideToValue (sideOf false) = -1 := rfl
  rw [hbuy, abs_le] at hbids
  rw [hsell, abs_le] at hasks
  refine ⟨?_, ?_, fun b x hx => ?_⟩
  · rw [hposition]
    exact hmarket.within (tickerOf i)
  · unfold exchangePosition
    rw [abs_le]
    omega
  · unfold exchangePosition
    rw [abs_le]
    cases b with
    | false =>
        have hrest := hask x hx
        rw [hsell]
        omega
    | true =>
        have hrest := hbid x hx
        rw [hbuy]
        omega

/-- The `Market` that follows a run keeps its limits. -/
theorem exists_followed (hmoderate : Moderate riskConfig) {as : List Act}
    (h : Run (fun s a s' => Step s a s' ∧ Clean s a) (new c riskConfig) as s) :
    ∃ market, Inv riskConfig market ∧ Followed c s market := by
  obtain ⟨acts, market, hacts, hs⟩ := followed_of_run hmoderate h
  have hmarket : Inv riskConfig market :=
    hacts.induct (I := fun _ market => Inv riskConfig market)
      (new_inv c) fun _ _ _ _ _ hinv hstep => step_inv hmoderate hinv hstep
  exact ⟨market, hmarket, hs⟩

/-- In every state of a run that sends no order of quantity zero and whose
requests are safe, the position is within its limit. -/
theorem exchangePosition_limited (hmoderate : Moderate riskConfig)
    {as : List Act}
    (h : Run (fun s a s' => Step s a s' ∧ Clean s a) (new c riskConfig) as s)
    (i : Fin matchingEngineMaxTickers) :
    s.WithinLimit c i (riskConfig (tickerOf i)).maxPosition.toNat := by
  obtain ⟨market, hmarket, hs⟩ := exists_followed hmoderate h
  exact hs.withinLimit hmarket i

-- ================================================================= two fills

/-- `Step`, computed. -/
def act (s : TradingSession) : Act → Option TradingSession
  | .moveOrders tickerId bidPrice askPrice clip =>
      (returned ((Desk.moveOrders tickerId bidPrice askPrice clip).run
        s.desk)).map fun desk => { s with
          desk := desk
          requests := s.requests ++ desk.orderManager.requests.drop
            s.desk.orderManager.requests.length }
  | .updateBBO tickerId bbo =>
      (returned ((Desk.updateBBO tickerId bbo).run s.desk)).map fun desk =>
        { s with desk := desk }
  | .process => s.requests.head?.bind fun request =>
      (returned ((MatchingEngine.processClientRequest request).run
        s.engine)).map fun engine =>
          { s.answered engine with requests := s.requests.tail }
  | .other request =>
      if request.clientId ≠ s.desk.orderManager.clientId then
        (returned ((MatchingEngine.processClientRequest request).run
          s.engine)).map s.answered
      else none
  | .receive => s.responses.head?.bind fun response =>
      (returned ((Desk.onOrderUpdate response).run s.desk)).map
        fun desk => { s with desk := desk, responses := s.responses.tail }

theorem step_of_act {a : Act} (h : s.act a = some s') : Step s a s' := by
  cases a with
  | moveOrders tickerId bidPrice askPrice clip =>
      obtain ⟨desk, hdesk, rfl⟩ := Option.map_eq_some_iff.1 h
      exact ⟨desk, returned_eq_some hdesk, rfl⟩
  | updateBBO tickerId bbo =>
      obtain ⟨desk, hdesk, rfl⟩ := Option.map_eq_some_iff.1 h
      exact ⟨desk, returned_eq_some hdesk, rfl⟩
  | process =>
      obtain ⟨request, hhead, hsome⟩ := Option.bind_eq_some_iff.1 h
      obtain ⟨engine, hengine, rfl⟩ := Option.map_eq_some_iff.1 hsome
      obtain ⟨rest, hrequests⟩ := List.head?_eq_some_iff.1 hhead
      refine ⟨request, rest, engine, hrequests, returned_eq_some hengine, ?_⟩
      rw [hrequests]
      rfl
  | other request =>
      obtain ⟨hother, hsome⟩ := Option.ite_none_right_eq_some.1 h
      obtain ⟨engine, hengine, rfl⟩ := Option.map_eq_some_iff.1 hsome
      exact ⟨hother, engine, returned_eq_some hengine, rfl⟩
  | receive =>
      obtain ⟨response, hhead, hsome⟩ := Option.bind_eq_some_iff.1 h
      obtain ⟨desk, hdesk, rfl⟩ := Option.map_eq_some_iff.1 hsome
      obtain ⟨rest, hresponses⟩ := List.head?_eq_some_iff.1 hhead
      refine ⟨response, rest, desk, hresponses, returned_eq_some hdesk, ?_⟩
      rw [hresponses]
      rfl

instance (s : TradingSession) (a : Act) : Decidable (s.Clean a) :=
  match a with
  | .moveOrders _ _ _ _ => inferInstanceAs (Decidable (_ → _))
  | .updateBBO _ _ | .receive => .isTrue trivial
  | .process =>
      inferInstanceAs (Decidable (∀ r ∈ s.requests.head?, s.engine.Safe r))
  | .other request => inferInstanceAs (Decidable (s.engine.Safe request))

/-- A bid of 10 buys 4 that another client offers and rests with what is
left, and then another 3, which the client has not heard of. -/
def partFill : List Act :=
  [.other ⟨.new, 1, 0, 5, .sell, 100, 4⟩, .moveOrders 0 100 priceInvalid 10,
    .process, .receive, .receive, .other ⟨.new, 1, 0, 6, .sell, 100, 3⟩]

theorem run_partFill : ∃ s,
    Run (fun s a s' => Step s a s' ∧ Clean s a) (new 0 hundred) partFill s
      ∧ s.position Session.firstTicker = 4
      ∧ s.exchangePosition Session.firstTicker = 7
      ∧ ((s.engine.tickerOrderBook Session.firstTicker).mine 0 true).map
        (·.quantity) = [3] :=
  Run.exists_of_guarded (P := fun s a _ => Clean s a)
    (fun s a s' hact => (step_of_act hact : Step s a s')) _ _ _
    (by decide +kernel)

theorem moderate_hundred : Moderate hundred := by
  intro tickerId
  show (100 : Quantity).toNat < 2 ^ 30 ∧ (100 : Quantity).toNat < 2 ^ 30
  decide

theorem exchangePosition_limited_partFill : ∃ s,
    Run (fun s a s' => Step s a s' ∧ Clean s a) (new 0 hundred) partFill s
      ∧ s.position Session.firstTicker = 4
      ∧ s.exchangePosition Session.firstTicker = 7
      ∧ s.WithinLimit 0 Session.firstTicker 100 := by
  obtain ⟨s, hrun, hknown, hexecuted, -⟩ := run_partFill
  exact ⟨s, hrun, hknown, hexecuted,
    exchangePosition_limited moderate_hundred hrun Session.firstTicker⟩

end TradingSession

end ElectronicTrading
