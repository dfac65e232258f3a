/-
A client at the exchange, byte by byte.

Between the desk and the matching engine there are the gateway, two byte
streams, the order server with its sequencer, and a queue at each place where
one thread hands over to another. A `WiredSession` has all of them, and
counts what each reader has read. The streams may be cut anywhere, other
sockets may send anything that does not name the client, and every part goes
on when it likes.

Seen from its two ends it is a `TradingSession` (`toTradingSession`): what was
sent and not yet handled, what was answered and not yet taken. Each of its
steps is one of that session or is not noticed (`ends_of_run`). For this
the client's requests must stay in order, so no two of a batch may have one
receive time, and the answers must reach the client they are for, which an
ACCEPTED does only if the client trades the ticker with its own number, and
alone.
-/
import ElectronicTrading.Trading.Proofs.RequestLog
import ElectronicTrading.Trading.Proofs.Settlement
import ElectronicTrading.Trading.Proofs.Wires

namespace ElectronicTrading

open Exec Runs Sequenced PriceTime Reference
open FIFOSequencer (Kept TimesApart)

-- ====================================================================== queues

section Queue

variable {α : Type} {l l' : List α} {k : Nat} {a : α}

/-- What a reader takes from the first part of a list it takes from the
list. -/
theorem drop_of_prefix (h : l' <+: l) (ha : l'[k]? = some a) :
    l.drop k = a :: l.drop (k + 1) := by
  obtain ⟨rest, rfl⟩ := h
  obtain ⟨hk, ha⟩ := List.getElem?_eq_some_iff.1 ha
  have hk' : k < (l' ++ rest).length := by
    rw [List.length_append]
    omega
  rw [List.drop_eq_getElem_cons hk', List.getElem_append_left hk, ha]

theorem take_succ_of_getElem? (ha : l[k]? = some a) :
    l.take (k + 1) = l.take k ++ [a] := by
  rw [List.take_add_one, ha]
  rfl

end Queue

-- ================================================================== the engine

/-- A response does not go to the client, or is as the client should get it:
the fields of an ACCEPTED are the wrong way round. -/
def WellAddressed (c : ClientID) (m : MatchingEngineClientResponse) : Prop :=
  m.clientId = c ∨ (readdressed m).clientId = c → readdressed m = m

/-- The responses of the client, as they are sent. -/
theorem answersTo_of_addressed {c : ClientID} {sent : List Sent}
    (h : ∀ m ∈ responsesOf sent, WellAddressed c m) :
    answersTo c sent = (responsesOf sent).filter (·.clientId = c) := by
  unfold answersTo
  rw [List.filter_map]
  have hsame : (responsesOf sent).filter
      ((fun m => decide (m.clientId = c)) ∘ readdressed)
      = (responsesOf sent).filter (·.clientId = c) := by
    refine List.filter_congr fun m hm => decide_eq_decide.2 ⟨fun hc => ?_,
      fun hc => ?_⟩
    · rw [h m hm (.inr hc)] at hc
      exact hc
    · rw [h m hm (.inl hc)]
      exact hc
  rw [hsame]
  conv_rhs => rw [← List.map_id ((responsesOf sent).filter _)]
  refine List.map_congr_left fun m hm => ?_
  obtain ⟨hm, hc⟩ := List.mem_filter.1 hm
  exact h m hm (.inl (of_decide_eq_true hc))

/-- What a book answers if the request's client and ticker have the client's
number together. -/
theorem MatchingEngineOrderBook.addressed_of_cleanStep {c : ClientID}
    {s s' : MatchingEngineOrderBook} {lay : Layout}
    {r : MatchingEngineClientRequest} (hgood : Good s lay)
    (hstep : CleanStep s r s')
    (hown : r.type = .new → (r.clientId = c ↔ r.tickerId = c)) :
    ∃ out, s'.sent = s.sent ++ out
      ∧ ∀ m ∈ responsesOf out, WellAddressed c m := by
  have hother : ∀ m : MatchingEngineClientResponse, m.type ≠ .accepted →
      WellAddressed c m := fun m hm _ => if_neg hm
  have hmem : ∀ {m : MatchingEngineClientResponse} {out : List Sent},
      m ∈ responsesOf out → .response m ∈ out := by
    intro m out hm
    obtain ⟨q, hq, heq⟩ := List.mem_filterMap.1 hm
    cases q with
    | response m' =>
        cases heq
        exact hq
    | update u => cases heq
  rcases step_cases hgood.stored hstep.valid hstep.processed
      (hstep.free hgood.stored) with
    ⟨hnew, lay', hafter⟩ | ⟨-, -, rfl⟩ | ⟨-, -, lay', b, x, hafter⟩
  · refine ⟨_, hafter.sent, fun m hm => ?_⟩
    obtain ⟨added, hmessages, hupdates⟩ :=
      messages_eq (s.incoming r) s.book
    have hm := hmem hm
    rw [hmessages] at hm
    rcases List.mem_append.1 hm with hm | hm
    · rcases List.mem_append.1 hm with hm | hm
      · cases List.mem_singleton.1 hm
        intro hc
        have hc' : r.tickerId = c ∨ r.clientId = c := hc
        have hsame : r.clientId = r.tickerId := by
          rcases hc' with hc' | hc'
          · exact ((hown hnew).2 hc').trans hc'.symm
          · exact hc'.trans ((hown hnew).1 hc').symm
        calc readdressed (s.incoming r).accepted
            = { (s.incoming r).accepted with
                clientId := r.clientId, tickerId := r.tickerId } := rfl
          _ = { (s.incoming r).accepted with
                clientId := r.tickerId, tickerId := r.clientId } := by
              rw [hsame]
          _ = (s.incoming r).accepted := rfl
      · rcases mem_sweepMessages hm with ⟨u, hu⟩ | ⟨m', hm', htype, -⟩
        · cases hu
        · cases hm'
          apply hother
          rw [htype]
          exact nofun
    · obtain ⟨u, hu⟩ := hupdates _ hm
      cases hu
  · refine ⟨_, rfl, fun m hm => ?_⟩
    cases List.mem_singleton.1 (hmem hm)
    exact hother _ nofun
  · refine ⟨_, hafter.sent, fun m hm => ?_⟩
    rcases List.mem_cons.1 (hmem hm) with hu | hm
    · cases hu
    · cases List.mem_singleton.1 hm
      exact hother _ nofun

-- ================================================================= the session

structure WiredSession where
  desk : Desk
  gateway : OrderGateway
  server : OrderServer
  engine : MatchingEngine
  /-- The requests of the desk that the gateway has written. -/
  sent : Nat
  /-- The gateway's bytes that have reached the server. -/
  arrived : Nat
  /-- The server's requests that the engine has handled. -/
  handled : Nat
  /-- The engine's responses that the server has written. -/
  responded : Nat
  /-- The server's bytes that have reached the gateway. -/
  returned : Nat
  /-- The gateway's responses that the desk has taken. -/
  taken : Nat

namespace WiredSession

def new (clientId : ClientID) (riskConfig : TickerID → RiskConfig) :
    WiredSession where
  desk := .new clientId riskConfig
  gateway := .new clientId
  server := .new
  engine := .new
  sent := 0
  arrived := 0
  handled := 0
  responded := 0
  returned := 0
  taken := 0

inductive Act where
  | moveOrders (tickerId : TickerID) (bidPrice askPrice : Price)
      (clip : Quantity)
  | updateBBO (tickerId : TickerID) (bbo : BBO)
  | sendRequest
  | receive (rxTime : Nanos) (n : Nat)
  | receiveOther (socket : SocketID) (rxTime : Nanos) (chunk : List UInt8)
  | recvFinished
  | process
  | respond
  | deliver (n : Nat)
  | take

/-- The requests of the desk. -/
def requests (s : WiredSession) : List MatchingEngineClientRequest :=
  s.desk.orderManager.requests

/-- The requests for the engine. -/
def published (s : WiredSession) : List MatchingEngineClientRequest :=
  s.server.fifoSequencer.published

/-- A step of one of the parts, for a client with the given socket. -/
def Step (socket : SocketID) (s : WiredSession) (a : Act) (s' : WiredSession) :
    Prop :=
  match a with
  | .moveOrders tickerId bidPrice askPrice clip =>
      ∃ desk, (Desk.moveOrders tickerId bidPrice askPrice clip).run s.desk
          = .ok () desk
        ∧ s' = { s with desk := desk }
  | .updateBBO tickerId bbo =>
      ∃ desk, (Desk.updateBBO tickerId bbo).run s.desk = .ok () desk
        ∧ s' = { s with desk := desk }
  | .sendRequest => ∃ request gateway, s.requests[s.sent]? = some request
      ∧ (OrderGateway.sendRequest request).run s.gateway = .ok () gateway
      ∧ s' = { s with gateway := gateway, sent := s.sent + 1 }
  | .receive rxTime n => s.arrived + n ≤ s.gateway.sendBuffer.length
      ∧ ∃ server, (OrderServer.receive socket rxTime
          ((s.gateway.sendBuffer.drop s.arrived).take n)).run s.server
          = .ok () server
        ∧ s' = { s with server := server, arrived := s.arrived + n }
  | .receiveOther other rxTime chunk => other ≠ socket
      ∧ ∃ server, (OrderServer.receive other rxTime chunk).run s.server
          = .ok () server
        ∧ s' = { s with server := server }
  | .recvFinished => ∃ f, s.server.fifoSequencer.SequencedAndPublished f
      ∧ s' = { s with server := { s.server with fifoSequencer := f } }
  | .process => ∃ request engine, s.published[s.handled]? = some request
      ∧ MatchingEngine.Processed s.engine request engine
      ∧ s' = { s with engine := engine, handled := s.handled + 1 }
  | .respond => ∃ response server,
      (responsesOf s.engine.sent)[s.responded]? = some response
      ∧ (OrderServer.respond response).run s.server = .ok () server
      ∧ s' = { s with server := server, responded := s.responded + 1 }
  | .deliver n => s.returned + n ≤ (s.server.sendBuffer socket).length
      ∧ ∃ gateway, (OrderGateway.receive
          (((s.server.sendBuffer socket).drop s.returned).take n)).run s.gateway
          = .ok () gateway
        ∧ s' = { s with gateway := gateway, returned := s.returned + n }
  | .take => ∃ response desk,
      s.gateway.incomingResponse[s.taken]? = some response
      ∧ (Desk.onOrderUpdate response).run s.desk = .ok () desk
      ∧ s' = { s with desk := desk, taken := s.taken + 1 }

/-- What is written is of the source's types, and other sockets do not speak
for the client; the receive times of its requests in a batch strictly
increase; no order of quantity zero is sent; what the engine handles is safe,
and an order of the client is for the ticker with the client's number, and
nobody else's is. -/
def Clean (s : WiredSession) (a : Act) : Prop :=
  match a with
  | .moveOrders tickerId bidPrice askPrice clip =>
      s.desk.PlacesAny tickerId bidPrice askPrice clip → clip ≠ 0
  | .sendRequest => ∀ r ∈ s.requests[s.sent]?, Wire.RequestTyped r
  | .receiveOther other _ chunk =>
      ∀ m ∈ OrderServer.messagesIn other (s.server.recvBuffer other ++ chunk),
        OrderServer.clientOf m.2 ≠ s.desk.orderManager.clientId
  | .recvFinished =>
      s.server.fifoSequencer.TimesApart s.desk.orderManager.clientId
  | .process => ∀ r ∈ s.published[s.handled]?, s.engine.Safe r
      ∧ (r.type = .new → (r.clientId = s.desk.orderManager.clientId
        ↔ r.tickerId = s.desk.orderManager.clientId))
  | .respond => ∀ m ∈ (responsesOf s.engine.sent)[s.responded]?,
      Wire.ResponseTyped m
  | .updateBBO _ _ | .receive _ _ | .deliver _ | .take => True

/-- The client's requests that were handled. -/
def handledOf (s : WiredSession) (c : ClientID) :
    List MatchingEngineClientRequest :=
  (s.published.take s.handled).filter (·.clientId = c)

/-- The session of the two ends. -/
def toTradingSession (s : WiredSession) (c : ClientID) : TradingSession where
  desk := s.desk
  requests := s.requests.drop (s.handledOf c).length
  engine := s.engine
  responses := (answersTo c s.engine.sent).drop s.taken

-- =============================================================== the invariant

/-- The requests that were written. -/
def written (s : WiredSession) : List MatchingEngineClientRequest :=
  s.requests.take s.sent

/-- The responses to the client that were written. -/
def answeredTo (s : WiredSession) (c : ClientID) :
    List MatchingEngineClientResponse :=
  ((responsesOf s.engine.sent).take s.responded).filter (·.clientId = c)

/-- The client's requests are on the wire. -/
structure Sending (c : ClientID) (s : WiredSession) : Prop where
  logged : s.desk.orderManager.Logged c
  le : s.sent ≤ s.requests.length
  typed : ∀ r ∈ s.written, Wire.RequestTyped r
  buffer : s.gateway.sendBuffer = ((OrderGateway.numbered 1 s.written).map
    Wire.clientRequest.encode).flatten
  next : s.gateway.nextOutgoingSequenceNumber = 1 + UInt64.ofNat s.sent

/-- The server has read the events `es`. -/
structure Serving (c : ClientID) (socket : SocketID)
    (es : List OrderServer.Event) (s : WiredSession) : Prop where
  inv : OrderServer.Served.Inv es s.server
  le : s.arrived ≤ s.gateway.sendBuffer.length
  bytes : OrderServer.bytesOn socket es = s.gateway.sendBuffer.take s.arrived
  only : ∀ m ∈ OrderServer.mine c (OrderServer.heard es), m.1 = socket
  kept : s.server.fifoSequencer.Kept c
  handled : s.handled ≤ s.published.length

/-- The responses are on the wire. -/
structure Answering (c : ClientID) (socket : SocketID) (s : WiredSession) :
    Prop where
  engine : ∃ rs, Run MatchingEngine.CleanStep .new rs s.engine
  addressed : ∀ m ∈ responsesOf s.engine.sent, WellAddressed c m
  le : s.responded ≤ (responsesOf s.engine.sent).length
  typed : ∀ m ∈ s.answeredTo c, Wire.ResponseTyped m
  buffer : s.server.sendBuffer socket = ((OrderServer.outgoing (fun _ => 1)
    (s.answeredTo c)).map Wire.clientResponse.encode).flatten
  next : s.server.cidNextOutgoingSequenceNumber c
    = 1 + UInt64.ofNat (s.answeredTo c).length

/-- The bytes that have reached the gateway. -/
def heardBytes (s : WiredSession) (socket : SocketID) : List UInt8 :=
  (s.server.sendBuffer socket).take s.returned

/-- The gateway has read them. -/
structure Hearing (c : ClientID) (socket : SocketID) (s : WiredSession) :
    Prop where
  le : s.returned ≤ (s.server.sendBuffer socket).length
  listening : OrderGateway.Listening c
    (OrderGateway.responsesIn (s.heardBytes socket)) s.gateway
  kept : s.gateway.recvBuffer
    = Framing.remainder Wire.clientResponse.size (s.heardBytes socket)
  taken : s.taken ≤ s.gateway.incomingResponse.length

structure Wired (c : ClientID) (socket : SocketID) (s : WiredSession) :
    Prop where
  sending : s.Sending c
  serving : ∃ es, s.Serving c socket es
  answering : s.Answering c socket
  hearing : s.Hearing c socket

variable {c : ClientID} {socket : SocketID} {riskConfig : TickerID → RiskConfig}
  {s s' : WiredSession} {es : List OrderServer.Event}

theorem wired_new : (new c riskConfig).Wired c socket where
  sending := ⟨OrderManager.logged_new c, Nat.le_refl _, List.forall_mem_nil _,
    rfl, rfl⟩
  serving := ⟨[], ⟨rfl, OrderServer.session_new⟩, Nat.le_refl _, rfl,
    List.forall_mem_nil _, rfl, Nat.le_refl _⟩
  answering := ⟨⟨[], .nil⟩, List.forall_mem_nil _, Nat.le_refl _,
    List.forall_mem_nil _, rfl, rfl⟩
  hearing := by
    have hnone : OrderGateway.responsesIn [] = [] :=
      congrArg (List.map _) (Framing.frames_of_lt (by decide))
    have hempty : Framing.remainder Wire.clientResponse.size
        ([] : List UInt8) = [] := Framing.remainder_of_lt (by decide)
    refine ⟨Nat.le_refl _, ?_, hempty.symm, Nat.le_refl _⟩
    show OrderGateway.Listening c (OrderGateway.responsesIn []) _
    rw [hnone]
    exact OrderGateway.listening_new c

-- ---------------------------------------------------- what the invariant says

theorem Sending.own (h : s.Sending c) :
    ∀ r ∈ s.written, Wire.RequestTyped r ∧ r.clientId = c := fun r hr =>
  ⟨h.typed r hr, (h.logged.own r (List.mem_of_mem_take hr)).1⟩

theorem Serving.stream (h : s.Serving c socket es) (hsending : s.Sending c) :
    OrderServer.bytesOn socket es
      <+: ((OrderGateway.numbered 1 s.written).map
        Wire.clientRequest.encode).flatten := by
  rw [h.bytes, ← hsending.buffer]
  exact List.take_prefix _ _

/-- The client's requests reach the engine in order. -/
theorem Wired.published (h : s.Wired c socket) :
    s.published.filter (·.clientId = c) <+: s.requests := by
  obtain ⟨es, hserving⟩ := h.serving
  have hadded := OrderServer.added_of_stream hserving.inv h.sending.own
    (hserving.stream h.sending) hserving.only
  have hkept : s.server.fifoSequencer.added.filter (·.clientId = c) = _ :=
    hserving.kept
  rw [hkept] at hadded
  exact ((List.prefix_append _ _).trans hadded).trans (List.take_prefix _ _)

theorem Wired.handled (h : s.Wired c socket) :
    s.handledOf c <+: s.requests :=
  ((List.take_prefix _ _).filter _).trans h.published

theorem Answering.own (h : s.Answering c socket) :
    ∀ m ∈ s.answeredTo c, m.clientId = c ∧ Wire.ResponseTyped m :=
  fun m hm => ⟨of_decide_eq_true (List.mem_filter.1 hm).2, h.typed m hm⟩

/-- The engine's answers reach the client in order. -/
theorem Wired.incoming (h : s.Wired c socket) :
    s.gateway.incomingResponse <+: answersTo c s.engine.sent := by
  have hstream : s.heardBytes socket <+: ((OrderServer.outgoing (fun _ => 1)
      (s.answeredTo c)).map Wire.clientResponse.encode).flatten := by
    rw [← h.answering.buffer]
    exact List.take_prefix _ _
  have htaken := OrderServer.taken_of_stream h.answering.own hstream
  rw [h.hearing.listening.incoming, htaken,
    answersTo_of_addressed h.answering.addressed]
  exact (List.take_prefix _ _).trans ((List.take_prefix _ _).filter _)

-- ---------------------------------------------------------------- at the desk

/-- What a step of the session is at its two ends: one of theirs, or
nothing. -/
def Noticed (c : ClientID) (s s' : WiredSession) : Prop :=
  s'.toTradingSession c = s.toTradingSession c
    ∨ ∃ a, (s.toTradingSession c).Step a (s'.toTradingSession c)
      ∧ (s.toTradingSession c).Clean a

/-- The desk goes on, and may have more to send. -/
theorem Wired.onDesk (h : s.Wired c socket) {desk : Desk}
    {new : List MatchingEngineClientRequest}
    (hlogged : desk.orderManager.Logged c)
    (hrequests : desk.orderManager.requests = s.requests ++ new) {k : Nat}
    (hk : k ≤ s.gateway.incomingResponse.length) :
    Wired c socket { s with desk := desk, taken := k } := by
  obtain ⟨hsending, ⟨es, hserving⟩, hanswering, hhearing⟩ := h
  have hwritten : desk.orderManager.requests.take s.sent = s.written := by
    rw [hrequests, List.take_append_of_le_length hsending.le]
    rfl
  have hle : s.sent ≤ desk.orderManager.requests.length := by
    have hold := hsending.le
    rw [hrequests, List.length_append]
    omega
  refine ⟨⟨hlogged, hle, ?_, ?_, hsending.next⟩,
    ⟨es, hserving.inv, hserving.le, hserving.bytes, hserving.only,
      hserving.kept, hserving.handled⟩,
    ⟨hanswering.engine, hanswering.addressed, hanswering.le, hanswering.typed,
      hanswering.buffer, hanswering.next⟩,
    ⟨hhearing.le, hhearing.listening, hhearing.kept, hk⟩⟩
  · show ∀ r ∈ desk.orderManager.requests.take s.sent, Wire.RequestTyped r
    rw [hwritten]
    exact hsending.typed
  · show _ = ((OrderGateway.numbered 1
      (desk.orderManager.requests.take s.sent)).map _).flatten
    rw [hwritten]
    exact hsending.buffer

/-- The client's orders move. -/
theorem Wired.moveOrders (h : s.Wired c socket) {tickerId : TickerID}
    {bidPrice askPrice : Price} {clip : Quantity}
    (hstep : s.Step socket (.moveOrders tickerId bidPrice askPrice clip) s')
    (hclip : s.desk.PlacesAny tickerId bidPrice askPrice clip → clip ≠ 0) :
    s'.Wired c socket ∧ Noticed c s s' := by
  obtain ⟨desk, hrun, rfl⟩ := hstep
  have hdesk := (Desk.moveOrders_cases hrun).2
  obtain ⟨new, hrequests⟩ : ∃ new,
      desk.orderManager.requests = s.requests ++ new := by
    rw [hdesk]
    unfold Desk.movedOrders
    dsimp only
    rw [OrderManager.moved_requests, OrderManager.moved_requests,
      List.append_assoc]
    exact ⟨_, rfl⟩
  have hlogged : desk.orderManager.Logged c := by
    rw [hdesk]
    exact (h.sending.logged.moved _ _ _ _ _ _).moved _ _ _ _ _ _
  refine ⟨h.onDesk hlogged hrequests h.hearing.taken,
    .inr ⟨.moveOrders tickerId bidPrice askPrice clip, ⟨desk, hrun, ?_⟩, hclip⟩⟩
  have hdrop : desk.orderManager.requests.drop (s.handledOf c).length
      = s.requests.drop (s.handledOf c).length
        ++ desk.orderManager.requests.drop s.requests.length := by
    rw [hrequests, List.drop_append_of_le_length h.handled.length_le,
      List.drop_left]
  show (⟨desk, desk.orderManager.requests.drop (s.handledOf c).length, s.engine,
    (answersTo c s.engine.sent).drop s.taken⟩ : TradingSession) = _
  rw [hdrop]
  rfl

/-- There is a new BBO. -/
theorem Wired.updateBBO (h : s.Wired c socket) {tickerId : TickerID} {bbo : BBO}
    (hstep : s.Step socket (.updateBBO tickerId bbo) s') :
    s'.Wired c socket ∧ Noticed c s s' := by
  obtain ⟨desk, hrun, rfl⟩ := hstep
  have hmanager : desk.orderManager = s.desk.orderManager := by
    rw [(Desk.updateBBO_cases hrun).2]
  have hrequests : desk.orderManager.requests = s.requests ++ [] := by
    rw [hmanager, List.append_nil]
    rfl
  refine ⟨h.onDesk ?_ hrequests h.hearing.taken,
    .inr ⟨.updateBBO tickerId bbo, ⟨desk, hrun, ?_⟩, trivial⟩⟩
  · rw [hmanager]
    exact h.sending.logged
  · show (⟨desk, desk.orderManager.requests.drop (s.handledOf c).length,
      s.engine, (answersTo c s.engine.sent).drop s.taken⟩ : TradingSession) = _
    rw [hmanager]
    rfl

/-- The desk takes a response. -/
theorem Wired.take (h : s.Wired c socket) (hstep : s.Step socket .take s') :
    s'.Wired c socket ∧ Noticed c s s' := by
  obtain ⟨m, desk, hm, hrun, rfl⟩ := hstep
  have hmanager : desk.orderManager = s.desk.orderManager.responded m := by
    rw [(Desk.onOrderUpdate_cases hrun).2]
  have hrequests : desk.orderManager.requests = s.requests := by
    rw [hmanager]
    rfl
  have hnew : desk.orderManager.requests = s.requests ++ [] := by
    rw [hrequests, List.append_nil]
  refine ⟨h.onDesk ?_ hnew (List.getElem?_eq_some_iff.1 hm).1,
    .inr ⟨.receive, ⟨m, (answersTo c s.engine.sent).drop (s.taken + 1), desk,
      drop_of_prefix h.incoming hm, hrun, ?_⟩, trivial⟩⟩
  · rw [hmanager]
    exact h.sending.logged.responded m
  · show (⟨desk, desk.orderManager.requests.drop (s.handledOf c).length,
      s.engine, (answersTo c s.engine.sent).drop (s.taken + 1)⟩ :
        TradingSession) = _
    rw [hrequests]
    rfl

-- ------------------------------------------------------------- at the gateway

theorem Wired.sendRequest (h : s.Wired c socket)
    (hstep : s.Step socket .sendRequest s') (hclean : s.Clean .sendRequest) :
    s'.Wired c socket ∧ Noticed c s s' := by
  obtain ⟨r, gateway, hr, hrun, rfl⟩ := hstep
  rw [OrderGateway.run_sendRequest] at hrun
  cases hrun
  have hlt := (List.getElem?_eq_some_iff.1 hr).1
  have hwritten : s.requests.take (s.sent + 1) = s.written ++ [r] :=
    take_succ_of_getElem? hr
  have hlength : s.written.length = s.sent := by
    unfold written
    rw [List.length_take, Nat.min_eq_left h.sending.le]
  obtain ⟨hsending, ⟨es, hserving⟩, hanswering, hhearing⟩ := h
  refine ⟨⟨⟨hsending.logged, hlt, ?_, ?_, ?_⟩,
    ⟨es, hserving.inv, ?_, ?_, hserving.only, hserving.kept,
      hserving.handled⟩,
    ⟨hanswering.engine, hanswering.addressed, hanswering.le, hanswering.typed,
      hanswering.buffer, hanswering.next⟩,
    ⟨hhearing.le, ⟨hhearing.listening.client, hhearing.listening.incoming,
      hhearing.listening.next⟩, hhearing.kept, hhearing.taken⟩⟩, .inl rfl⟩
  · show ∀ q ∈ s.requests.take (s.sent + 1), Wire.RequestTyped q
    rw [hwritten]
    intro q hq
    rcases List.mem_append.1 hq with hq | hq
    · exact hsending.typed q hq
    · rw [List.mem_singleton.1 hq]
      exact hclean r hr
  · show _ = ((OrderGateway.numbered 1
      (s.requests.take (s.sent + 1))).map _).flatten
    rw [hwritten, OrderGateway.numbered_snoc, List.map_append,
      List.flatten_append, ← hsending.buffer, hlength, ← hsending.next]
    show _ = _ ++ (_ ++ [])
    rw [List.append_nil]
  · show s.gateway.nextOutgoingSequenceNumber + 1
      = 1 + UInt64.ofNat (s.sent + 1)
    rw [hsending.next, UInt64.ofNat_add, UInt64.add_assoc]
    rfl
  · have hle := hserving.le
    show s.arrived ≤ (s.gateway.sendBuffer ++ _).length
    rw [List.length_append]
    omega
  · show _ = (s.gateway.sendBuffer ++ _).take s.arrived
    rw [List.take_append_of_le_length hserving.le]
    exact hserving.bytes

/-- What the gateway has of the responses that were written. -/
theorem Wired.incoming_eq (h : s.Wired c socket) :
    s.gateway.incomingResponse = (s.answeredTo c).take
      ((s.heardBytes socket).length / Wire.clientResponse.size) := by
  rw [h.hearing.listening.incoming]
  refine OrderServer.taken_of_stream h.answering.own ?_
  rw [← h.answering.buffer]
  exact List.take_prefix _ _

theorem Wired.deliver (h : s.Wired c socket) {n : Nat}
    (hstep : s.Step socket (.deliver n) s') :
    s'.Wired c socket ∧ Noticed c s s' := by
  obtain ⟨hle, gateway, hrun, rfl⟩ := hstep
  have hbytes : (s.server.sendBuffer socket).take (s.returned + n)
      = s.heardBytes socket
        ++ ((s.server.sendBuffer socket).drop s.returned).take n :=
    List.take_add
  obtain ⟨⟨hlistening, hkept⟩, hbuffer, hnext⟩ :=
    OrderGateway.listening_receive h.hearing.listening h.hearing.kept hrun
  rw [← hbytes] at hlistening hkept
  have hmore : s.gateway.incomingResponse.length
      ≤ gateway.incomingResponse.length := by
    have hstream : (s.server.sendBuffer socket).take (s.returned + n)
        <+: ((OrderServer.outgoing (fun _ => 1) (s.answeredTo c)).map
          Wire.clientResponse.encode).flatten := by
      rw [← h.answering.buffer]
      exact List.take_prefix _ _
    have hafter := OrderServer.taken_of_stream h.answering.own hstream
    rw [← hlistening.incoming] at hafter
    rw [hafter, h.incoming_eq, hbytes, List.length_take, List.length_take,
      List.length_append]
    have hgrown := Nat.div_le_div_right (c := Wire.clientResponse.size)
      (Nat.le_add_right (s.heardBytes socket).length
        (((s.server.sendBuffer socket).drop s.returned).take n).length)
    omega
  have htaken := h.hearing.taken
  obtain ⟨hsending, ⟨es, hserving⟩, hanswering, hhearing⟩ := h
  refine ⟨⟨⟨hsending.logged, hsending.le, hsending.typed, ?_, ?_⟩,
    ⟨es, hserving.inv, ?_, ?_, hserving.only, hserving.kept,
      hserving.handled⟩,
    ⟨hanswering.engine, hanswering.addressed, hanswering.le, hanswering.typed,
      hanswering.buffer, hanswering.next⟩,
    ⟨hle, hlistening, hkept, htaken.trans hmore⟩⟩, .inl rfl⟩
  · exact hbuffer.trans hsending.buffer
  · exact hnext.trans hsending.next
  · show s.arrived ≤ gateway.sendBuffer.length
    rw [hbuffer]
    exact hserving.le
  · show _ = gateway.sendBuffer.take s.arrived
    rw [hbuffer]
    exact hserving.bytes

-- -------------------------------------------------------------- at the server

/-- Some bytes reach the server, on a socket where the client's messages are
allowed. -/
theorem Wired.received (h : s.Wired c socket) {t : SocketID} {rxTime : Nanos}
    {chunk : List UInt8} {server : OrderServer}
    (hrun : (OrderServer.receive t rxTime chunk).run s.server = .ok () server)
    {k : Nat} (hk : k ≤ s.gateway.sendBuffer.length)
    (hbytes : s.gateway.sendBuffer.take s.arrived
      ++ OrderServer.bytesOn socket [.receive t rxTime chunk]
        = s.gateway.sendBuffer.take k)
    (hallowed : ∀ m ∈ OrderServer.messagesIn t (s.server.recvBuffer t ++ chunk),
      OrderServer.clientOf m.2 = c → m.1 = socket) :
    Wired c socket { s with server := server, arrived := k }
      ∧ Noticed c s { s with server := server, arrived := k } := by
  obtain ⟨hsending, ⟨es, hserving⟩, hanswering, hhearing⟩ := h
  obtain ⟨hbuffer, hnext⟩ := OrderServer.writing_of_receive hrun
  obtain ⟨hkept, hpublished⟩ := OrderServer.sequencer_of_receive
    (I := fun f => f.Kept c
      ∧ f.published = s.server.fifoSequencer.published)
    (fun _ _ _ hf => ⟨hf.1.withRequest, hf.2⟩) ⟨hserving.kept, rfl⟩ hrun
  have hheard : OrderServer.heard (es ++ [.receive t rxTime chunk])
      = OrderServer.heard es
        ++ OrderServer.messagesIn t (s.server.recvBuffer t ++ chunk) := by
    unfold OrderServer.heard
    rw [OrderServer.reading_snoc, hserving.inv.kept]
    rfl
  refine ⟨⟨⟨hsending.logged, hsending.le, hsending.typed, hsending.buffer,
      hsending.next⟩,
    ⟨es ++ [.receive t rxTime chunk], OrderServer.inv_receive hserving.inv hrun,
      hk, ?_, ?_, hkept, ?_⟩,
    ⟨hanswering.engine, hanswering.addressed, hanswering.le, hanswering.typed,
      ?_, ?_⟩,
    ⟨?_, ?_, ?_, hhearing.taken⟩⟩, .inl ?_⟩
  · rw [OrderServer.bytesOn_append, hserving.bytes]
    exact hbytes
  · unfold OrderServer.mine
    rw [hheard, List.filter_append]
    intro m hm
    rcases List.mem_append.1 hm with hm | hm
    · exact hserving.only m hm
    · obtain ⟨hm, hc⟩ := List.mem_filter.1 hm
      exact hallowed m hm (of_decide_eq_true hc)
  · show s.handled ≤ server.fifoSequencer.published.length
    rw [hpublished]
    exact hserving.handled
  · show server.sendBuffer socket = _
    rw [hbuffer]
    exact hanswering.buffer
  · show server.cidNextOutgoingSequenceNumber c = _
    rw [hnext]
    exact hanswering.next
  · show s.returned ≤ (server.sendBuffer socket).length
    rw [hbuffer]
    exact hhearing.le
  · show OrderGateway.Listening c (OrderGateway.responsesIn
      ((server.sendBuffer socket).take s.returned)) _
    rw [hbuffer]
    exact hhearing.listening
  · show _ = Framing.remainder _ ((server.sendBuffer socket).take s.returned)
    rw [hbuffer]
    exact hhearing.kept
  · show (⟨s.desk, s.requests.drop
      ((server.fifoSequencer.published.take s.handled).filter
        (·.clientId = c)).length, s.engine, _⟩ : TradingSession) = _
    rw [hpublished]
    rfl

theorem Wired.receive (h : s.Wired c socket) {rxTime : Nanos} {n : Nat}
    (hstep : s.Step socket (.receive rxTime n) s') :
    s'.Wired c socket ∧ Noticed c s s' := by
  obtain ⟨hle, server, hrun, rfl⟩ := hstep
  refine h.received hrun hle ?_ fun m hm _ => OrderServer.messagesIn_socket hm
  unfold OrderServer.bytesOn
  rw [if_pos rfl, OrderServer.bytesOn, List.append_nil]
  exact List.take_add.symm

theorem Wired.receiveOther (h : s.Wired c socket) {other : SocketID}
    {rxTime : Nanos} {chunk : List UInt8}
    (hstep : s.Step socket (.receiveOther other rxTime chunk) s')
    (hclean : s.Clean (.receiveOther other rxTime chunk)) :
    s'.Wired c socket ∧ Noticed c s s' := by
  obtain ⟨hother, server, hrun, rfl⟩ := hstep
  have hle : s.arrived ≤ s.gateway.sendBuffer.length := by
    obtain ⟨es, hserving⟩ := h.serving
    exact hserving.le
  refine h.received hrun hle ?_ fun m hm hc => (hclean m hm ?_).elim
  · unfold OrderServer.bytesOn
    rw [if_neg hother, OrderServer.bytesOn, List.append_nil]
  · rw [h.sending.logged.client]
    exact hc

/-- The sequencer publishes. -/
theorem Wired.recvFinished (h : s.Wired c socket)
    (hstep : s.Step socket .recvFinished s') (hclean : s.Clean .recvFinished) :
    s'.Wired c socket ∧ Noticed c s s' := by
  obtain ⟨f, hf, rfl⟩ := hstep
  obtain ⟨hsending, ⟨es, hserving⟩, hanswering, hhearing⟩ := h
  have hapart : s.server.fifoSequencer.TimesApart c :=
    hsending.logged.client ▸ hclean
  obtain ⟨new, hnew⟩ : ∃ new, f.published = s.published ++ new := by
    obtain ⟨sorted, -, -, rfl⟩ := hf
    exact ⟨_, rfl⟩
  refine ⟨⟨⟨hsending.logged, hsending.le, hsending.typed, hsending.buffer,
      hsending.next⟩,
    ⟨es ++ [.recvFinished], OrderServer.inv_recvFinished hserving.inv hf,
      hserving.le, ?_, ?_, hserving.kept.published hapart hf, ?_⟩,
    ⟨hanswering.engine, hanswering.addressed, hanswering.le, hanswering.typed,
      hanswering.buffer, hanswering.next⟩,
    ⟨hhearing.le, hhearing.listening, hhearing.kept, hhearing.taken⟩⟩, .inl ?_⟩
  · rw [OrderServer.bytesOn_append]
    show _ ++ [] = _
    rw [List.append_nil]
    exact hserving.bytes
  · have hheard : OrderServer.heard (es ++ [.recvFinished])
        = OrderServer.heard es := by
      unfold OrderServer.heard
      rw [OrderServer.reading_snoc]
      rfl
    rw [hheard]
    exact hserving.only
  · show s.handled ≤ f.published.length
    have hhandled := hserving.handled
    rw [hnew, List.length_append]
    omega
  · show (⟨s.desk, s.requests.drop ((f.published.take s.handled).filter
      (·.clientId = c)).length, s.engine, _⟩ : TradingSession) = _
    rw [hnew, List.take_append_of_le_length hserving.handled]
    rfl

/-- What an answer adds to the client's stream. -/
theorem Wired.answering_respond (h : s.Wired c socket)
    {r : MatchingEngineClientResponse} {b : SocketID}
    (hr : (responsesOf s.engine.sent)[s.responded]? = some r)
    (hb : s.server.cidTcpSockets r.clientId = some b)
    (htyped : Wire.ResponseTyped r) : ∃ extra,
      (s.server.afterResponse b r).sendBuffer socket
          = s.server.sendBuffer socket ++ extra
        ∧ Answering c socket { s with
          server := s.server.afterResponse b r
          responded := s.responded + 1 } := by
  have hlt := (List.getElem?_eq_some_iff.1 hr).1
  have hown := h.answering.own
  obtain ⟨hsending, ⟨es, hserving⟩, hanswering, -⟩ := h
  have hanswered : ((responsesOf s.engine.sent).take (s.responded + 1)).filter
      (·.clientId = c) = s.answeredTo c ++ [r].filter (·.clientId = c) := by
    rw [take_succ_of_getElem? hr, List.filter_append]
    rfl
  -- the answer is the client's and on its socket, or neither
  by_cases hc : r.clientId = c
  · have hone : [r].filter (·.clientId = c) = [r] := by simp [hc]
    have hsocket : b = socket :=
      OrderServer.socket_of_only hserving.inv hserving.only (hc ▸ hb)
    rw [hone] at hanswered
    have hbuffer : (s.server.afterResponse b r).sendBuffer socket
        = s.server.sendBuffer socket ++ Wire.clientResponse.encode
          ⟨s.server.cidNextOutgoingSequenceNumber c, r⟩ := by
      unfold OrderServer.afterResponse
      dsimp only
      rw [if_pos hsocket.symm, hc]
    refine ⟨_, hbuffer, hanswering.engine, hanswering.addressed, hlt, ?_, ?_,
      ?_⟩
    · show ∀ m ∈ ((responsesOf s.engine.sent).take (s.responded + 1)).filter _,
        Wire.ResponseTyped m
      rw [hanswered]
      intro m hm
      rcases List.mem_append.1 hm with hm | hm
      · exact hanswering.typed m hm
      · rw [List.mem_singleton.1 hm]
        exact htyped
    · show _ = ((OrderServer.outgoing _ (((responsesOf s.engine.sent).take
        (s.responded + 1)).filter _)).map _).flatten
      rw [hanswered, OrderServer.outgoing_snoc (fun m hm => (hown m hm).1) hc,
        List.map_append, List.flatten_append, ← hanswering.buffer,
        ← hanswering.next]
      refine hbuffer.trans ?_
      show _ = _ ++ (_ ++ [])
      rw [List.append_nil]
    · show (if c = r.clientId then s.server.cidNextOutgoingSequenceNumber c + 1
        else s.server.cidNextOutgoingSequenceNumber c)
        = 1 + UInt64.ofNat (((responsesOf s.engine.sent).take
          (s.responded + 1)).filter _).length
      rw [hanswered, if_pos hc.symm, hanswering.next, List.length_append,
        UInt64.ofNat_add, UInt64.add_assoc]
      rfl
  · have hnone : [r].filter (·.clientId = c) = [] := by simp [hc]
    have hsocket : socket ≠ b := by
      intro heq
      apply hc
      exact OrderServer.client_of_socket hserving.inv hsending.own
        (hserving.stream hsending) (heq ▸ hb)
    rw [hnone, List.append_nil] at hanswered
    have hbuffer : (s.server.afterResponse b r).sendBuffer socket
        = s.server.sendBuffer socket := if_neg hsocket
    refine ⟨[], hbuffer.trans (List.append_nil _).symm, hanswering.engine,
      hanswering.addressed, hlt, ?_, ?_, ?_⟩
    · show ∀ m ∈ ((responsesOf s.engine.sent).take (s.responded + 1)).filter _,
        Wire.ResponseTyped m
      rw [hanswered]
      exact hanswering.typed
    · show _ = ((OrderServer.outgoing _ (((responsesOf s.engine.sent).take
        (s.responded + 1)).filter _)).map _).flatten
      rw [hanswered]
      exact hbuffer.trans hanswering.buffer
    · show (if c = r.clientId then s.server.cidNextOutgoingSequenceNumber c + 1
        else s.server.cidNextOutgoingSequenceNumber c)
        = 1 + UInt64.ofNat (((responsesOf s.engine.sent).take
          (s.responded + 1)).filter _).length
      rw [hanswered, if_neg fun heq => hc heq.symm]
      exact hanswering.next

/-- The server answers. -/
theorem Wired.respond (h : s.Wired c socket)
    (hstep : s.Step socket .respond s') (hclean : s.Clean .respond) :
    s'.Wired c socket ∧ Noticed c s s' := by
  obtain ⟨r, server, hr, hrun, rfl⟩ := hstep
  obtain ⟨b, hb, rfl⟩ := OrderServer.respond_cases hrun
  obtain ⟨extra, hbuffer, hanswering⟩ := h.answering_respond hr hb (hclean r hr)
  obtain ⟨hsending, ⟨es, hserving⟩, -, hhearing⟩ := h
  have hheard : ((s.server.afterResponse b r).sendBuffer socket).take s.returned
      = s.heardBytes socket := by
    rw [hbuffer, List.take_append_of_le_length hhearing.le]
    rfl
  refine ⟨⟨⟨hsending.logged, hsending.le, hsending.typed, hsending.buffer,
      hsending.next⟩,
    ⟨es, hserving.inv.afterResponse b r, hserving.le, hserving.bytes,
      hserving.only, hserving.kept, hserving.handled⟩, hanswering,
    ⟨?_, ?_, ?_, hhearing.taken⟩⟩, .inl rfl⟩
  · have hle := hhearing.le
    show s.returned ≤ ((s.server.afterResponse b r).sendBuffer socket).length
    rw [hbuffer, List.length_append]
    omega
  · show OrderGateway.Listening c (OrderGateway.responsesIn
      (((s.server.afterResponse b r).sendBuffer socket).take s.returned)) _
    rw [hheard]
    exact hhearing.listening
  · show _ = Framing.remainder _
      (((s.server.afterResponse b r).sendBuffer socket).take s.returned)
    rw [hheard]
    exact hhearing.kept

-- -------------------------------------------------------------- at the engine

/-- What the engine sends is for later. -/
theorem Answering.process (h : s.Answering c socket)
    {r : MatchingEngineClientRequest} {engine : MatchingEngine}
    (hsafe : s.engine.Safe r)
    (hown : r.type = .new → (r.clientId = c ↔ r.tickerId = c))
    (hprocessed : MatchingEngine.Processed s.engine r engine) :
    (∃ out, engine.sent = s.engine.sent ++ out)
      ∧ Answering c socket
        { s with engine := engine, handled := s.handled + 1 } := by
  obtain ⟨rs, hrun⟩ := h.engine
  have hgood : ∀ i, ∃ lay,
      MatchingEngineOrderBook.Good (s.engine.tickerOrderBook i) lay := fun i =>
    MatchingEngineOrderBook.good_of_cleanRun
      (MatchingEngine.cleanRun_book hrun i)
  have hcleanStep := hsafe.cleanStep hgood hprocessed
  obtain ⟨i, -, hbook, hset⟩ := hprocessed.book
  obtain ⟨lay, hlay⟩ := hgood i
  obtain ⟨out, hout, haddressed⟩ :=
    MatchingEngineOrderBook.addressed_of_cleanStep hlay
      ⟨hcleanStep.valid, hbook, hcleanStep.slots i⟩ hown
  -- the log grows at its end; what was answered is unchanged
  have hsent : engine.sent = s.engine.sent ++ out :=
    MatchingEngine.sent_of_book hset hout
  have hresponses : responsesOf engine.sent
      = responsesOf s.engine.sent ++ responsesOf out := by
    rw [hsent]
    exact List.filterMap_append
  have hanswered : ((responsesOf engine.sent).take s.responded).filter
      (·.clientId = c) = s.answeredTo c := by
    rw [hresponses, List.take_append_of_le_length h.le]
    rfl
  refine ⟨⟨out, hsent⟩, ⟨rs ++ [r], hrun.snoc hcleanStep⟩, ?_, ?_, ?_, ?_, ?_⟩
  · show ∀ m ∈ responsesOf engine.sent, WellAddressed c m
    rw [hresponses]
    intro m hm
    rcases List.mem_append.1 hm with hm | hm
    · exact h.addressed m hm
    · exact haddressed m hm
  · have hle := h.le
    show s.responded ≤ (responsesOf engine.sent).length
    rw [hresponses, List.length_append]
    omega
  · show ∀ m ∈ ((responsesOf engine.sent).take s.responded).filter _,
      Wire.ResponseTyped m
    rw [hanswered]
    exact h.typed
  · show _ = ((OrderServer.outgoing _
      (((responsesOf engine.sent).take s.responded).filter _)).map _).flatten
    rw [hanswered]
    exact h.buffer
  · show _ = 1 + UInt64.ofNat
      (((responsesOf engine.sent).take s.responded).filter _).length
    rw [hanswered]
    exact h.next

/-- The request is the client's next one, or another client's. -/
theorem Wired.noticed_process (h : s.Wired c socket)
    {r : MatchingEngineClientRequest} {engine : MatchingEngine}
    (hr : s.published[s.handled]? = some r) (hsafe : s.engine.Safe r)
    (hprocessed : MatchingEngine.Processed s.engine r engine)
    {out : List Sent} (hsent : engine.sent = s.engine.sent ++ out) :
    Noticed c s { s with engine := engine, handled := s.handled + 1 } := by
  have hclient := h.sending.logged.client
  have hmore : (answersTo c engine.sent).drop s.taken
      = (answersTo c s.engine.sent).drop s.taken
        ++ answersTo s.desk.orderManager.clientId
          (engine.sent.drop s.engine.sent.length) := by
    have hle := h.hearing.taken.trans h.incoming.length_le
    rw [hclient, hsent, List.drop_left, answersTo_append,
      List.drop_append_of_le_length hle]
  have hnow : (s.published.take (s.handled + 1)).filter (·.clientId = c)
      = s.handledOf c ++ [r].filter (·.clientId = c) := by
    rw [take_succ_of_getElem? hr, List.filter_append]
    rfl
  by_cases hc : r.clientId = c
  · have hone : [r].filter (·.clientId = c) = [r] := by simp [hc]
    rw [hone] at hnow
    have hprefix : s.handledOf c ++ [r] <+: s.requests := by
      rw [← hnow]
      exact ((List.take_prefix _ _).filter _).trans h.published
    have hdrop := drop_of_prefix hprefix List.getElem?_concat_length
    refine .inr ⟨.process, ⟨r, _, engine, hdrop, hprocessed, ?_⟩, ?_⟩
    · show (⟨s.desk, s.requests.drop ((s.published.take
        (s.handled + 1)).filter (·.clientId = c)).length, engine,
        (answersTo c engine.sent).drop s.taken⟩ : TradingSession) = _
      rw [hnow, hmore, List.length_append]
      rfl
    · intro q hq
      have hhead : (s.requests.drop (s.handledOf c).length).head? = some q := hq
      rw [hdrop] at hhead
      cases hhead
      exact hsafe
  · have hnone : [r].filter (·.clientId = c) = [] := by simp [hc]
    rw [hnone, List.append_nil] at hnow
    refine .inr ⟨.other r, ⟨?_, engine, hprocessed, ?_⟩, hsafe⟩
    · show r.clientId ≠ s.desk.orderManager.clientId
      rw [hclient]
      exact hc
    · show (⟨s.desk, s.requests.drop ((s.published.take
        (s.handled + 1)).filter (·.clientId = c)).length, engine,
        (answersTo c engine.sent).drop s.taken⟩ : TradingSession) = _
      rw [hnow, hmore]
      rfl

/-- The engine handles a request. -/
theorem Wired.process (h : s.Wired c socket)
    (hstep : s.Step socket .process s') (hclean : s.Clean .process) :
    s'.Wired c socket ∧ Noticed c s s' := by
  obtain ⟨r, engine, hr, hprocessed, rfl⟩ := hstep
  obtain ⟨hsafe, hown⟩ := hclean r hr
  rw [h.sending.logged.client] at hown
  obtain ⟨⟨out, hsent⟩, hanswering⟩ := h.answering.process hsafe hown hprocessed
  refine ⟨?_, h.noticed_process hr hsafe hprocessed hsent⟩
  obtain ⟨hsending, ⟨es, hserving⟩, -, hhearing⟩ := h
  exact ⟨⟨hsending.logged, hsending.le, hsending.typed, hsending.buffer,
      hsending.next⟩,
    ⟨es, hserving.inv, hserving.le, hserving.bytes, hserving.only,
      hserving.kept, (List.getElem?_eq_some_iff.1 hr).1⟩, hanswering,
    ⟨hhearing.le, hhearing.listening, hhearing.kept, hhearing.taken⟩⟩

-- ====================================================================== runs

/-- Each step keeps the invariant, and is one of the two ends' or nothing to
them. -/
theorem Wired.step (h : s.Wired c socket) {a : Act}
    (hstep : s.Step socket a s') (hclean : s.Clean a) :
    s'.Wired c socket ∧ Noticed c s s' := by
  cases a with
  | moveOrders => exact h.moveOrders hstep hclean
  | updateBBO => exact h.updateBBO hstep
  | sendRequest => exact h.sendRequest hstep hclean
  | receive => exact h.receive hstep
  | receiveOther => exact h.receiveOther hstep hclean
  | recvFinished => exact h.recvFinished hstep hclean
  | process => exact h.process hstep hclean
  | respond => exact h.respond hstep hclean
  | deliver => exact h.deliver hstep
  | take => exact h.take hstep

/-- A run of the session is a run of its two ends. -/
theorem ends_of_run {as : List Act}
    (h : Run (fun s a s' => Step socket s a s' ∧ Clean s a) (new c riskConfig)
      as s) :
    ∃ as' t, Run (fun s a s' => TradingSession.Step s a s'
        ∧ TradingSession.Clean s a) (.new c riskConfig) as' t
      ∧ s.Wired c socket ∧ t = s.toTradingSession c := by
  refine h.simulated (R := fun s t => s.Wired c socket
    ∧ t = s.toTradingSession c) ⟨wired_new, rfl⟩ ?_
  intro _ s a s' _ t _ _ ⟨hwired, ht⟩ ⟨hstep, hclean⟩
  rw [ht]
  obtain ⟨hwired', hsame | ⟨a', hstep', hclean'⟩⟩ := hwired.step hstep hclean
  · exact ⟨[], _, .nil, hwired', hsame.symm⟩
  · exact ⟨[a'], _, Run.nil.snoc ⟨hstep', hclean'⟩, hwired', rfl⟩

/-- `Step`, computed. -/
def act (socket : SocketID) (s : WiredSession) : Act → Option WiredSession
  | .moveOrders tickerId bidPrice askPrice clip =>
      (Exec.returned ((Desk.moveOrders tickerId bidPrice askPrice clip).run
        s.desk)).map fun desk => { s with desk := desk }
  | .updateBBO tickerId bbo =>
      (Exec.returned ((Desk.updateBBO tickerId bbo).run s.desk)).map fun desk =>
        { s with desk := desk }
  | .sendRequest => s.requests[s.sent]?.bind fun request =>
      (Exec.returned ((OrderGateway.sendRequest request).run s.gateway)).map
        fun gateway => { s with gateway := gateway, sent := s.sent + 1 }
  | .receive rxTime n =>
      if s.arrived + n ≤ s.gateway.sendBuffer.length then
        (Exec.returned ((OrderServer.receive socket rxTime
          ((s.gateway.sendBuffer.drop s.arrived).take n)).run s.server)).map
            fun server => { s with server := server, arrived := s.arrived + n }
      else none
  | .receiveOther other rxTime chunk =>
      if other ≠ socket then
        (Exec.returned ((OrderServer.receive other rxTime chunk).run s.server)).map
          fun server => { s with server := server }
      else none
  | .recvFinished => (s.server.serve .recvFinished).map fun server =>
      { s with server := server }
  | .process => s.published[s.handled]?.bind fun request =>
      (Exec.returned ((MatchingEngine.processClientRequest request).run
        s.engine)).map fun engine =>
          { s with engine := engine, handled := s.handled + 1 }
  | .respond => (responsesOf s.engine.sent)[s.responded]?.bind fun response =>
      (Exec.returned ((OrderServer.respond response).run s.server)).map
        fun server => { s with server := server, responded := s.responded + 1 }
  | .deliver n =>
      if s.returned + n ≤ (s.server.sendBuffer socket).length then
        (Exec.returned ((OrderGateway.receive
          (((s.server.sendBuffer socket).drop s.returned).take n)).run
            s.gateway)).map fun gateway =>
              { s with gateway := gateway, returned := s.returned + n }
      else none
  | .take => s.gateway.incomingResponse[s.taken]?.bind fun response =>
      (Exec.returned ((Desk.onOrderUpdate response).run s.desk)).map
        fun desk => { s with desk := desk, taken := s.taken + 1 }

theorem step_of_act {a : Act} (h : s.act socket a = some s') :
    Step socket s a s' := by
  cases a with
  | moveOrders tickerId bidPrice askPrice clip =>
      obtain ⟨desk, hdesk, rfl⟩ := Option.map_eq_some_iff.1 h
      exact ⟨desk, returned_eq_some hdesk, rfl⟩
  | updateBBO tickerId bbo =>
      obtain ⟨desk, hdesk, rfl⟩ := Option.map_eq_some_iff.1 h
      exact ⟨desk, returned_eq_some hdesk, rfl⟩
  | sendRequest =>
      obtain ⟨request, hrequest, hsome⟩ := Option.bind_eq_some_iff.1 h
      obtain ⟨gateway, hgateway, rfl⟩ := Option.map_eq_some_iff.1 hsome
      exact ⟨request, gateway, hrequest, returned_eq_some hgateway, rfl⟩
  | receive rxTime n =>
      obtain ⟨hle, hsome⟩ := Option.ite_none_right_eq_some.1 h
      obtain ⟨server, hserver, rfl⟩ := Option.map_eq_some_iff.1 hsome
      exact ⟨hle, server, returned_eq_some hserver, rfl⟩
  | receiveOther other rxTime chunk =>
      obtain ⟨hother, hsome⟩ := Option.ite_none_right_eq_some.1 h
      obtain ⟨server, hserver, rfl⟩ := Option.map_eq_some_iff.1 hsome
      exact ⟨hother, server, returned_eq_some hserver, rfl⟩
  | recvFinished =>
      obtain ⟨server, hserver, rfl⟩ := Option.map_eq_some_iff.1 h
      obtain ⟨f, hf, rfl⟩ := OrderServer.served_of_serve hserver
      exact ⟨f, hf, rfl⟩
  | process =>
      obtain ⟨request, hrequest, hsome⟩ := Option.bind_eq_some_iff.1 h
      obtain ⟨engine, hengine, rfl⟩ := Option.map_eq_some_iff.1 hsome
      exact ⟨request, engine, hrequest, returned_eq_some hengine, rfl⟩
  | respond =>
      obtain ⟨response, hresponse, hsome⟩ := Option.bind_eq_some_iff.1 h
      obtain ⟨server, hserver, rfl⟩ := Option.map_eq_some_iff.1 hsome
      exact ⟨response, server, hresponse, returned_eq_some hserver, rfl⟩
  | deliver n =>
      obtain ⟨hle, hsome⟩ := Option.ite_none_right_eq_some.1 h
      obtain ⟨gateway, hgateway, rfl⟩ := Option.map_eq_some_iff.1 hsome
      exact ⟨hle, gateway, returned_eq_some hgateway, rfl⟩
  | take =>
      obtain ⟨response, hresponse, hsome⟩ := Option.bind_eq_some_iff.1 h
      obtain ⟨desk, hdesk, rfl⟩ := Option.map_eq_some_iff.1 hsome
      exact ⟨response, desk, hresponse, returned_eq_some hdesk, rfl⟩

instance (s : WiredSession) (a : Act) : Decidable (s.Clean a) :=
  match a with
  | .moveOrders _ _ _ _ => inferInstanceAs (Decidable (_ → _))
  | .sendRequest => inferInstanceAs (Decidable
      (∀ r ∈ s.requests[s.sent]?, Wire.RequestTyped r))
  | .receiveOther other _ chunk => inferInstanceAs (Decidable
      (∀ m ∈ OrderServer.messagesIn other (s.server.recvBuffer other ++ chunk),
        OrderServer.clientOf m.2 ≠ s.desk.orderManager.clientId))
  | .recvFinished => inferInstanceAs (Decidable
      (s.server.fifoSequencer.TimesApart s.desk.orderManager.clientId))
  | .process => inferInstanceAs (Decidable
      (∀ r ∈ s.published[s.handled]?, s.engine.Safe r
        ∧ (r.type = .new → (r.clientId = s.desk.orderManager.clientId
          ↔ r.tickerId = s.desk.orderManager.clientId))))
  | .respond => inferInstanceAs (Decidable
      (∀ m ∈ (responsesOf s.engine.sent)[s.responded]?, Wire.ResponseTyped m))
  | .updateBBO _ _ | .receive _ _ | .deliver _ | .take => .isTrue trivial

/-- A client's two requests come to the engine in pieces, another client's
between them, and the answers back in pieces. -/
def pieces : List Act :=
  [.sendRequest, .sendRequest, .receive 1 20,
    .receiveOther 9 2 (Wire.clientRequest.encode
      ⟨1, ⟨.new, 1, 1, 5, .sell, 100, 4⟩⟩),
    .receive 3 30, .receive 4 26, .recvFinished, .process, .process, .process,
    .respond, .respond, .respond, .respond, .respond,
    .deliver 70, .deliver 80]

end WiredSession

end ElectronicTrading
