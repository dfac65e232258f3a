/-
What the order server takes from its clients.

`heard` reads a run's events as the messages the server decodes, with
the socket each came on. For a client, its `line` is what came for it on
the socket it was first heard on, and `inOrder` picks from that line
the first message numbered 1, then the first after it numbered 2, and so
on: `Session` says that this is what was handed to the sequencer, that
the socket is bound, and which number comes next.

`session_step` is the lemma for one message; a callback is a loop over
messages (`run_recvCallBack`), and a run a list of callbacks, so
`session_of_run` holds of every run. It mentions only the messages that
name the client: nothing else changes what is taken from it.

The numbers are 64 bits wide. After 2^64 - 1 requests of one client the
next one has number 0 (`not_counted_flood`).
-/
import ElectronicTrading.Exchange.OrderServer
import ElectronicTrading.Lib.Runs
import ElectronicTrading.Lib.Sequenced

namespace ElectronicTrading

open Exec Runs Sequenced

namespace OrderServer

-- ================================================================ one request

/-- The client of a message. -/
def clientOf (m : OrderManagementClientRequest) : ClientID :=
  m.meClientRequest.clientId

/-- The server once the client has a socket. -/
def bound (s : OrderServer) (socket : SocketID) (c : ClientID) : OrderServer :=
  { s with cidTcpSockets := fun d =>
      if d = c then some ((s.cidTcpSockets c).getD socket)
      else s.cidTcpSockets d }

/-- The server once the client's next number has been taken. -/
def counted (s : OrderServer) (c : ClientID) : OrderServer :=
  { s with cidNextExpectedSequenceNumber := fun d =>
      if d = c then s.cidNextExpectedSequenceNumber d + 1
      else s.cidNextExpectedSequenceNumber d }

/-- The server once the request is pending. -/
def queued (s : OrderServer) (rxTime : Nanos)
    (request : MatchingEngineClientRequest) : OrderServer :=
  { s with fifoSequencer := { s.fifoSequencer with
      pending := s.fifoSequencer.pending ++ [⟨rxTime, request⟩]
      added := s.fifoSequencer.added ++ [request] } }

/-- The message comes on its client's socket and has the next number. -/
def Accepts (s : OrderServer) (socket : SocketID)
    (m : OrderManagementClientRequest) : Prop :=
  (s.cidTcpSockets (clientOf m)).getD socket = socket
    ∧ m.sequenceNumber = s.cidNextExpectedSequenceNumber (clientOf m)

instance (s : OrderServer) (socket : SocketID)
    (m : OrderManagementClientRequest) : Decidable (s.Accepts socket m) := by
  unfold Accepts
  infer_instance

/-- A free place among the pending requests. -/
def HasRoom (s : OrderServer) : Prop :=
  s.fifoSequencer.pending.length < matchingEngineMaxPendingRequests

instance (s : OrderServer) : Decidable s.HasRoom := by
  unfold HasRoom
  infer_instance

theorem run_addClientRequest (s : OrderServer) (rxTime : Nanos)
    (request : MatchingEngineClientRequest) :
    (onSequencer (FIFOSequencer.addClientRequest rxTime request)).run s
      = if s.HasRoom then .ok () (s.queued rxTime request)
        else .error .tooManyRequests s := by
  unfold onSequencer
  rw [run_zoom]
  by_cases hroom : s.HasRoom
  · have hlt : s.fifoSequencer.pending.length
        < matchingEngineMaxPendingRequests := hroom
    simp [FIFOSequencer.addClientRequest, hlt, hroom]
    rfl
  · have hge : ¬ s.fifoSequencer.pending.length
        < matchingEngineMaxPendingRequests := hroom
    simp [FIFOSequencer.addClientRequest, hge, hroom]

/-- Binding a client that has a socket does nothing. -/
theorem bound_of_some {s : OrderServer} {socket b : SocketID} {c : ClientID}
    (h : s.cidTcpSockets c = some b) : s.bound socket c = s := by
  have hsame : (fun d => if d = c then some ((s.cidTcpSockets c).getD socket)
      else s.cidTcpSockets d) = s.cidTcpSockets := by
    funext d
    split
    · next hd =>
        rw [hd, h]
        rfl
    · rfl
  unfold bound
  rw [hsame]

/-- What `onRequest` does. -/
theorem run_onRequest {s : OrderServer} {socket : SocketID} {rxTime : Nanos}
    {m : OrderManagementClientRequest}
    (hc : (clientOf m).toNat < matchingEngineMaxNumClients) :
    (onRequest socket rxTime m).run s
      = if s.Accepts socket m then
          if s.HasRoom then .ok () (((s.bound socket (clientOf m)).counted
            (clientOf m)).queued rxTime m.meClientRequest)
          else .error .tooManyRequests
            ((s.bound socket (clientOf m)).counted (clientOf m))
        else .ok () (s.bound socket (clientOf m)) := by
  obtain ⟨c, hcm⟩ : ∃ c, c = m.meClientRequest.clientId := ⟨_, rfl⟩
  have hcm' : clientOf m = c := hcm.symm
  rw [hcm'] at hc ⊢
  have hadd := run_addClientRequest ((s.bound socket c).counted c) rxTime
    m.meClientRequest
  have hroom : ((s.bound socket c).counted c).HasRoom ↔ s.HasRoom := Iff.rfl
  cases hb : s.cidTcpSockets c with
  | none =>
      have hbound : s.bound socket c = { s with
          cidTcpSockets := fun d =>
            if d = c then some socket else s.cidTcpSockets d } := by
        unfold bound
        rw [hb]
        rfl
      by_cases hseq : m.sequenceNumber = s.cidNextExpectedSequenceNumber c
      · have haccepts : s.Accepts socket m := by
          unfold Accepts
          rw [hcm', hb]
          exact ⟨rfl, hseq⟩
        rw [if_pos haccepts]
        rw [hbound] at hadd ⊢
        simp [onRequest, ← hcm, hc, hb, hseq]
        exact hadd
      · have haccepts : ¬ s.Accepts socket m := fun h => hseq (hcm' ▸ h.2)
        rw [if_neg haccepts, hbound]
        simp [onRequest, ← hcm, hc, hb, hseq]
  | some b =>
      rw [bound_of_some hb] at hadd ⊢
      by_cases hbs : b = socket
      · by_cases hseq : m.sequenceNumber = s.cidNextExpectedSequenceNumber c
        · have haccepts : s.Accepts socket m := by
            unfold Accepts
            rw [hcm', hb]
            exact ⟨hbs, hseq⟩
          rw [if_pos haccepts]
          simp [onRequest, ← hcm, hc, hb, hbs, hseq]
          exact hadd
        · have haccepts : ¬ s.Accepts socket m := fun h => hseq (hcm' ▸ h.2)
          rw [if_neg haccepts]
          simp [onRequest, ← hcm, hc, hb, hbs, hseq]
      · have haccepts : ¬ s.Accepts socket m := by
          unfold Accepts
          rw [hcm', hb]
          exact fun h => hbs h.1
        rw [if_neg haccepts]
        simp [onRequest, ← hcm, hc, hb, hbs]

-- ================================================================ a callback

/-- The messages in a buffer, each with its socket. -/
def messagesIn (socket : SocketID) (buffer : List UInt8) :
    List (SocketID × OrderManagementClientRequest) :=
  (Framing.frames Wire.clientRequest.size buffer).map fun bytes =>
    (socket, Wire.clientRequest.decode bytes)

/-- Of messages laid end to end, those are found that have arrived
whole. -/
theorem messagesIn_part (socket : SocketID)
    {ms : List OrderManagementClientRequest}
    (htyped : ∀ m ∈ ms, Wire.RequestTyped m.meClientRequest)
    {bytes : List UInt8}
    (hpre : bytes <+: (ms.map Wire.clientRequest.encode).flatten) :
    messagesIn socket bytes
      = (ms.take (bytes.length / Wire.clientRequest.size)).map
          fun m => (socket, m) := by
  have hdecode := Wire.clientRequest.decode_frames (by decide)
    (fun m hm => Wire.valid_clientRequest (htyped m hm)) hpre
  rw [← hdecode, List.map_map]
  rfl

theorem messagesIn_encode (socket : SocketID)
    {m : OrderManagementClientRequest}
    (htyped : Wire.RequestTyped m.meClientRequest) :
    messagesIn socket (Wire.clientRequest.encode m) = [(socket, m)] := by
  have hflat : Wire.clientRequest.encode m
      = ([m].map Wire.clientRequest.encode).flatten :=
    (List.append_nil _).symm
  rw [messagesIn_part socket
    (fun m' hm' => (List.mem_singleton.1 hm').symm ▸ htyped)
    (hflat ▸ List.prefix_refl _), Wire.clientRequest.length_encode]
  rfl

/-- A whole message leaves nothing. -/
theorem remainder_encode (m : OrderManagementClientRequest) :
    Framing.remainder Wire.clientRequest.size (Wire.clientRequest.encode m)
      = [] := by
  have hsize : 0 < Wire.clientRequest.size := by decide
  have hone : Framing.remainder Wire.clientRequest.size
      (Wire.clientRequest.encode m ++ [])
      = Framing.remainder Wire.clientRequest.size [] :=
    Framing.remainder_cons hsize (Wire.clientRequest.length_encode m)
  rw [List.append_nil] at hone
  rw [hone, Framing.remainder_of_lt hsize]

/-- `recvCallBack` is a loop over the messages in the buffer; it keeps
what follows them. The move to the front of the buffer is to another
place. -/
theorem run_recvCallBack (s : OrderServer) (socket : SocketID)
    (rxTime : Nanos) :
    (recvCallBack socket rxTime).run s
      = (do
          forM (messagesIn socket (s.recvBuffer socket)) fun m =>
            onRequest m.1 rxTime m.2
          modify (setRecvBuffer socket
            (Framing.remainder Wire.clientRequest.size
              (s.recvBuffer socket))) : Member Unit).run s := by
  have hsize : 0 < Wire.clientRequest.size := by decide
  have hforM : ∀ bs : List (List UInt8),
      (forM (bs.map fun bytes => (socket, Wire.clientRequest.decode bytes))
        fun m => onRequest m.1 rxTime m.2 : Member Unit)
      = forM bs fun bytes =>
          onRequest socket rxTime (Wire.clientRequest.decode bytes) := by
    intro bs
    induction bs with
    | nil => rfl
    | cons b bs ih => rw [List.map_cons, List.forM_cons, List.forM_cons, ih]
  have hsame : setRecvBuffer socket (s.recvBuffer socket) s = s := by
    have hfun : (fun t => if t = socket then s.recvBuffer socket
        else s.recvBuffer t) = s.recvBuffer := by
      funext t
      split
      · next ht => rw [ht]
      · rfl
    unfold setRecvBuffer
    rw [hfun]
  unfold messagesIn
  rw [hforM]
  exact Framing.run_clip hsize Fault.endlessLoop Fault.overlappingCopy
    (fun bytes => onRequest socket rxTime (Wire.clientRequest.decode bytes))
    (s.recvBuffer socket) (setRecvBuffer socket) s hsame

-- ============================================================== what is heard

/-- A server's reading of its sockets: what it has not decoded yet, and
the messages it has. -/
structure Reading where
  kept : SocketID → List UInt8
  messages : List (SocketID × OrderManagementClientRequest)

/-- What an event adds. -/
def Reading.hear (h : Reading) : Event → Reading
  | .receive socket _ chunk =>
      { kept := fun t =>
          if t = socket then Framing.remainder Wire.clientRequest.size
            (h.kept socket ++ chunk)
          else h.kept t
        messages := h.messages ++ messagesIn socket (h.kept socket ++ chunk) }
  | .recvFinished => h

/-- The reading of a list of events. -/
def reading (es : List Event) : Reading :=
  es.foldl .hear ⟨fun _ => [], []⟩

/-- The messages decoded, in order. -/
def heard (es : List Event) : List (SocketID × OrderManagementClientRequest) :=
  (reading es).messages

/-- Those of a client. -/
def mine (c : ClientID) (ms : List (SocketID × OrderManagementClientRequest)) :
    List (SocketID × OrderManagementClientRequest) :=
  ms.filter fun m => clientOf m.2 = c

/-- The socket the client was first heard on. -/
def firstSocket (c : ClientID)
    (ms : List (SocketID × OrderManagementClientRequest)) : Option SocketID :=
  (mine c ms).head?.map (·.1)

/-- What came for the client on that socket. -/
def line (c : ClientID) (ms : List (SocketID × OrderManagementClientRequest)) :
    List OrderManagementClientRequest :=
  ((mine c ms).filter fun m => some m.1 = firstSocket c ms).map (·.2)

/-- Of a client's line, what has the numbers 1, 2, ... in this order. -/
def inOrder (l : List OrderManagementClientRequest) :
    List OrderManagementClientRequest :=
  inSequence (·.sequenceNumber) 1 l

theorem inOrder_snoc (l : List OrderManagementClientRequest)
    (m : OrderManagementClientRequest) : inOrder (l ++ [m]) = inOrder l
      ++ if m.sequenceNumber = 1 + UInt64.ofNat (inOrder l).length then [m]
        else [] :=
  inSequence_snoc 1 l m

theorem numbered_inOrder (l : List OrderManagementClientRequest) :
    Numbered (·.sequenceNumber) 1 (inOrder l) :=
  numbered_inSequence 1 l

variable {c : ClientID} {ms : List (SocketID × OrderManagementClientRequest)}
  {socket : SocketID} {m : OrderManagementClientRequest}

theorem mine_snoc : mine c (ms ++ [(socket, m)])
    = mine c ms ++ if clientOf m = c then [(socket, m)] else [] := by
  unfold mine
  rw [List.filter_append]
  by_cases hm : clientOf m = c <;> simp [hm]

theorem firstSocket_snoc : firstSocket c (ms ++ [(socket, m)])
    = if clientOf m = c then some ((firstSocket c ms).getD socket)
      else firstSocket c ms := by
  unfold firstSocket
  rw [mine_snoc]
  split
  · cases mine c ms <;> rfl
  · rw [List.append_nil]

/-- A message of another client is not in the line, one of the client is
if it comes on its socket. -/
theorem line_snoc : line c (ms ++ [(socket, m)])
    = line c ms ++ if clientOf m = c
        ∧ (firstSocket c ms).getD socket = socket then [m] else [] := by
  unfold line
  rw [mine_snoc, firstSocket_snoc]
  by_cases hm : clientOf m = c
  · simp only [hm, if_true, true_and, List.filter_append, List.map_append]
    cases hmine : mine c ms with
    | nil =>
        have hfirst : firstSocket c ms = none := by
          unfold firstSocket
          rw [hmine]
          rfl
        simp [hfirst]
    | cons x l =>
        have hfirst : firstSocket c ms = some x.1 := by
          unfold firstSocket
          rw [hmine]
          rfl
        rw [hfirst]
        by_cases hx : x.1 = socket
        · simp [hx]
        · simp [hx, Ne.symm hx]
  · simp [hm]

-- ================================================================ one session

/-- What the server has taken from a client that was heard saying `ms`. -/
structure Session (c : ClientID)
    (ms : List (SocketID × OrderManagementClientRequest)) (s : OrderServer) :
    Prop where
  socket : s.cidTcpSockets c = firstSocket c ms
  taken : s.fifoSequencer.added.filter (·.clientId = c)
    = (inOrder (line c ms)).map (·.meClientRequest)
  next : s.cidNextExpectedSequenceNumber c
    = 1 + UInt64.ofNat (inOrder (line c ms)).length

theorem session_new (c : ClientID) : Session c [] new where
  socket := rfl
  taken := rfl
  next := rfl

/-- A message of another client. -/
theorem session_other {s : OrderServer} (h : Session c ms s)
    (hother : clientOf m ≠ c) : Session c (ms ++ [(socket, m)]) s where
  socket := by
    rw [firstSocket_snoc, if_neg hother]
    exact h.socket
  taken := by
    rw [line_snoc, if_neg fun hm => hother hm.1, List.append_nil]
    exact h.taken
  next := by
    rw [line_snoc, if_neg fun hm => hother hm.1, List.append_nil]
    exact h.next

/-- What a session says, it says of the parts of the server it reads. -/
theorem Session.of_eq {s t : OrderServer} (h : Session c ms s)
    (hsocket : t.cidTcpSockets c = s.cidTcpSockets c)
    (hadded : t.fifoSequencer.added.filter (·.clientId = c)
      = s.fifoSequencer.added.filter (·.clientId = c))
    (hnext : t.cidNextExpectedSequenceNumber c
      = s.cidNextExpectedSequenceNumber c) : Session c ms t :=
  ⟨hsocket.trans h.socket, hadded.trans h.taken, hnext.trans h.next⟩

/-- A message of the client that is dropped. -/
theorem session_dropped {s : OrderServer} (h : Session c ms s)
    (hm : clientOf m = c) (hno : ¬ s.Accepts socket m) :
    Session c (ms ++ [(socket, m)]) (s.bound socket c) := by
  have hstill : inOrder (line c (ms ++ [(socket, m)]))
      = inOrder (line c ms) := by
    rw [line_snoc]
    split
    · next hin =>
        have hnumber : ¬ m.sequenceNumber
            = 1 + UInt64.ofNat (inOrder (line c ms)).length := by
          intro hseq
          refine hno ⟨?_, ?_⟩
          · rw [hm, h.socket]
            exact hin.2
          · rw [hm, h.next]
            exact hseq
        rw [inOrder_snoc, if_neg hnumber, List.append_nil]
    · rw [List.append_nil]
  have hsocket : (s.bound socket c).cidTcpSockets c
      = some ((s.cidTcpSockets c).getD socket) := if_pos rfl
  constructor
  · rw [hsocket, firstSocket_snoc, if_pos hm, h.socket]
  · rw [hstill]
    exact h.taken
  · rw [hstill]
    exact h.next

/-- A message of the client that is taken. -/
theorem session_taken {s : OrderServer} {rxTime : Nanos} (h : Session c ms s)
    (hm : clientOf m = c) (hyes : s.Accepts socket m) :
    Session c (ms ++ [(socket, m)])
      (((s.bound socket c).counted c).queued rxTime m.meClientRequest) := by
  obtain ⟨hon, hseq⟩ := hyes
  rw [hm, h.socket] at hon
  rw [hm, h.next] at hseq
  have hgrown : inOrder (line c (ms ++ [(socket, m)]))
      = inOrder (line c ms) ++ [m] := by
    rw [line_snoc, if_pos ⟨hm, hon⟩, inOrder_snoc, if_pos hseq]
  have hclient : m.meClientRequest.clientId = c := hm
  constructor
  · have hsocket : (s.bound socket c).cidTcpSockets c
        = some ((s.cidTcpSockets c).getD socket) := if_pos rfl
    rw [firstSocket_snoc, if_pos hm, ← h.socket]
    exact hsocket
  · rw [hgrown, List.map_append, ← h.taken]
    show (s.fifoSequencer.added ++ [m.meClientRequest]).filter _ = _
    rw [List.filter_append]
    simp [hclient]
  · have hcount : (((s.bound socket c).counted c).queued rxTime
        m.meClientRequest).cidNextExpectedSequenceNumber c
        = s.cidNextExpectedSequenceNumber c + 1 := if_pos rfl
    rw [hcount, hgrown, h.next, List.length_append, List.length_singleton,
      UInt64.ofNat_add, UInt64.add_assoc]
    rfl

/-- One message. -/
theorem session_step {s s' : OrderServer} {rxTime : Nanos}
    (h : Session c ms s) (hrun : (onRequest socket rxTime m).run s = .ok () s') :
    Session c (ms ++ [(socket, m)]) s' ∧ s'.recvBuffer = s.recvBuffer := by
  have hin : (clientOf m).toNat < matchingEngineMaxNumClients := by
    by_contra hout
    have hfault : (onRequest socket rxTime m).run s
        = .error .outOfRange s := by
      have hout' : ¬ m.meClientRequest.clientId.toNat
        < matchingEngineMaxNumClients := hout
      simp [onRequest, hout']
    rw [hfault] at hrun
    cases hrun
  rw [run_onRequest hin] at hrun
  split at hrun
  · next hyes =>
      split at hrun
      · have hs' := EStateM.Result.ok.inj hrun
        rw [← hs'.2]
        refine ⟨?_, rfl⟩
        by_cases hm : clientOf m = c
        · rw [hm]
          exact session_taken h hm hyes
        · refine (session_other h hm).of_eq (if_neg (Ne.symm hm)) ?_
            (if_neg (Ne.symm hm))
          have hclient : ¬ m.meClientRequest.clientId = c := hm
          show (s.fifoSequencer.added ++ [m.meClientRequest]).filter _ = _
          rw [List.filter_append]
          simp [hclient]
      · cases hrun
  · next hno =>
      have hs' := EStateM.Result.ok.inj hrun
      rw [← hs'.2]
      refine ⟨?_, rfl⟩
      by_cases hm : clientOf m = c
      · rw [hm]
        exact session_dropped h hm hno
      · exact (session_other h hm).of_eq (if_neg (Ne.symm hm)) rfl rfl

/-- The messages of a callback. -/
theorem session_loop {rxTime : Nanos}
    (more : List (SocketID × OrderManagementClientRequest)) :
    ∀ {ms : List (SocketID × OrderManagementClientRequest)}
      {s s' : OrderServer}, (∀ c, Session c ms s) →
      (forM more fun m => onRequest m.1 rxTime m.2).run s = .ok () s' →
      (∀ c, Session c (ms ++ more) s') ∧ s'.recvBuffer = s.recvBuffer := by
  induction more with
  | nil =>
      intro ms s s' h hrun
      have hs' := EStateM.Result.ok.inj hrun
      rw [← hs'.2, List.append_nil]
      exact ⟨h, rfl⟩
  | cons m more ih =>
      intro ms s s' h hrun
      rw [List.forM_cons] at hrun
      obtain ⟨_, t, hfirst, hrest⟩ := run_bind_eq_ok hrun
      have hstep := fun c => session_step (c := c) (h c) hfirst
      obtain ⟨hsessions, hkept⟩ := ih (fun c => (hstep c).1) hrest
      rw [List.append_assoc] at hsessions
      exact ⟨hsessions, hkept.trans (hstep 0).2⟩

-- ================================================================ whole runs

/-- The server's buffers, and what it has taken, are what was read and
heard. -/
structure Served.Inv (es : List Event) (s : OrderServer) : Prop where
  kept : s.recvBuffer = (reading es).kept
  sessions : ∀ c, Session c (heard es) s

theorem reading_snoc (es : List Event) (e : Event) :
    reading (es ++ [e]) = (reading es).hear e := by
  unfold reading
  rw [List.foldl_append]
  rfl

/-- A callback. -/
theorem inv_receive {es : List Event} {s s' : OrderServer}
    {socket : SocketID} {rxTime : Nanos} {chunk : List UInt8}
    (h : Served.Inv es s)
    (hrun : (receive socket rxTime chunk).run s = .ok () s') :
    Served.Inv (es ++ [.receive socket rxTime chunk]) s' := by
  obtain ⟨t, ht⟩ : ∃ t, t = s.setRecvBuffer socket
      (s.recvBuffer socket ++ chunk) := ⟨_, rfl⟩
  have hbuffer : t.recvBuffer socket
      = (reading es).kept socket ++ chunk := by
    rw [ht, ← h.kept]
    exact if_pos rfl
  have hcall : (recvCallBack socket rxTime).run t = .ok () s' := by
    rw [ht]
    exact hrun
  have hsessions : ∀ c, Session c (heard es) t := by
    rw [ht]
    exact fun c => (h.sessions c).of_eq rfl rfl rfl
  rw [run_recvCallBack, hbuffer] at hcall
  obtain ⟨_, u, hloop, hmove⟩ := run_bind_eq_ok hcall
  obtain ⟨hafter, hkept⟩ := session_loop _ hsessions hloop
  have hs' := (EStateM.Result.ok.inj hmove).2
  rw [← hs']
  constructor
  · rw [reading_snoc]
    funext d
    show (if d = socket then _ else u.recvBuffer d)
      = if d = socket then _ else (reading es).kept d
    split
    · rfl
    · next hd =>
        rw [hkept, ht, ← h.kept]
        exact if_neg hd
  · intro c
    have hheard : heard (es ++ [.receive socket rxTime chunk])
        = heard es ++ messagesIn socket ((reading es).kept socket ++ chunk) := by
      unfold heard
      rw [reading_snoc]
      rfl
    rw [hheard]
    exact (hafter c).of_eq rfl rfl rfl

/-- Publishing takes nothing from a client. -/
theorem inv_recvFinished {es : List Event} {s : OrderServer}
    {f : FIFOSequencer} (h : Served.Inv es s)
    (hf : s.fifoSequencer.SequencedAndPublished f) :
    Served.Inv (es ++ [.recvFinished]) { s with fifoSequencer := f } := by
  obtain ⟨sorted, -, -, hf⟩ := hf
  constructor
  · rw [reading_snoc]
    exact h.kept
  · intro c
    have hheard : heard (es ++ [.recvFinished]) = heard es := by
      unfold heard
      rw [reading_snoc]
      rfl
    rw [hheard, hf]
    exact (h.sessions c).of_eq rfl rfl rfl

theorem inv_of_run {es : List Event} {s : OrderServer}
    (h : Run Served new es s) : Served.Inv es s := by
  refine h.induct (I := Served.Inv) ⟨rfl, session_new⟩ ?_
  intro es s e s' _ hinv hserved
  cases e with
  | receive socket rxTime chunk => exact inv_receive hinv hserved
  | recvFinished =>
      obtain ⟨f, hf, rfl⟩ := hserved
      exact inv_recvFinished hinv hf

-- ================================================================= responses

/-- The messages that carry some responses. -/
def outgoing (next : ClientID → UInt64) :
    List MatchingEngineClientResponse → List OrderManagementClientResponse
  | [] => []
  | r :: rs => ⟨next r.clientId, r⟩ :: outgoing
      (fun c => if c = r.clientId then next c + 1 else next c) rs

/-- The messages to a client. -/
def toClient (c : ClientID) (ms : List OrderManagementClientResponse) :
    List OrderManagementClientResponse :=
  ms.filter fun m => m.meClientResponse.clientId = c

/-- Those that go to a socket. -/
def onSocket (sockets : ClientID → Option SocketID) (socket : SocketID)
    (rs : List MatchingEngineClientResponse) :
    List MatchingEngineClientResponse :=
  rs.filter fun r => sockets r.clientId = some socket

theorem map_outgoing (rs : List MatchingEngineClientResponse) :
    ∀ next, (outgoing next rs).map (·.meClientResponse) = rs := by
  induction rs with
  | nil => exact fun _ => rfl
  | cons r rs ih =>
      intro next
      rw [outgoing, List.map_cons, ih]

theorem map_outgoing_onSocket (sockets : ClientID → Option SocketID)
    (next : ClientID → UInt64) (socket : SocketID)
    (rs : List MatchingEngineClientResponse) :
    ((outgoing next rs).filter fun m =>
        sockets m.meClientResponse.clientId = some socket).map
          (·.meClientResponse)
      = onSocket sockets socket rs := by
  have hall := map_outgoing rs next
  unfold onSocket
  conv_rhs => rw [← hall, List.filter_map]
  rfl

/-- Each client's messages are numbered. -/
theorem numbered_outgoing (c : ClientID)
    (rs : List MatchingEngineClientResponse) :
    ∀ next, Numbered (·.sequenceNumber) (next c)
      (toClient c (outgoing next rs)) := by
  induction rs with
  | nil => exact fun _ => trivial
  | cons r rs ih =>
      intro next
      have hrest := ih fun d => if d = r.clientId then next d + 1 else next d
      unfold toClient at hrest ⊢
      rw [outgoing, List.filter_cons]
      by_cases hr : r.clientId = c
      · rw [if_pos (decide_eq_true hr)]
        rw [if_pos hr.symm] at hrest
        exact ⟨congrArg next hr, hrest⟩
      · rw [if_neg (by simpa using hr)]
        rwa [if_neg (Ne.symm hr)] at hrest

/-- What is sent on each socket, in bytes. -/
theorem run_responses (rs : List MatchingEngineClientResponse) :
    ∀ s : OrderServer,
      (∀ r ∈ rs, r.clientId.toNat < matchingEngineMaxNumClients
        ∧ s.cidTcpSockets r.clientId ≠ none) →
      ∃ s', (forM rs respond).run s = .ok () s'
        ∧ ∀ socket, s'.sendBuffer socket = s.sendBuffer socket
          ++ (((outgoing s.cidNextOutgoingSequenceNumber rs).filter fun m =>
              s.cidTcpSockets m.meClientResponse.clientId
                = some socket).map Wire.clientResponse.encode).flatten := by
  induction rs with
  | nil => exact fun s _ => ⟨s, rfl, fun _ => (List.append_nil _).symm⟩
  | cons r rs ih =>
      intro s h
      obtain ⟨hclient, hbound⟩ := h r (List.mem_cons_self ..)
      obtain ⟨b, hb⟩ := Option.ne_none_iff_exists'.1 hbound
      obtain ⟨m, hm⟩ : ∃ m : OrderManagementClientResponse,
        m = ⟨s.cidNextOutgoingSequenceNumber r.clientId, r⟩ := ⟨_, rfl⟩
      obtain ⟨t, ht⟩ : ∃ t, t = { s with
          sendBuffer := fun d => if d = b
            then s.sendBuffer d ++ Wire.clientResponse.encode m
            else s.sendBuffer d
          cidNextOutgoingSequenceNumber := fun c => if c = r.clientId
            then s.cidNextOutgoingSequenceNumber c + 1
            else s.cidNextOutgoingSequenceNumber c } := ⟨_, rfl⟩
      have hfirst : (respond r).run s = .ok () t := by
        have hparts : (fun d =>
            if d = b then
              (if d = b then s.sendBuffer d ++ Packed.Codec.uint64.encode
                  (s.cidNextOutgoingSequenceNumber r.clientId)
                else s.sendBuffer d) ++ Wire.response.encode r
            else if d = b then s.sendBuffer d ++ Packed.Codec.uint64.encode
                (s.cidNextOutgoingSequenceNumber r.clientId)
              else s.sendBuffer d)
            = fun d => if d = b
              then s.sendBuffer d ++ Wire.clientResponse.encode m
              else s.sendBuffer d := by
          funext d
          by_cases hd : d = b
          · rw [if_pos hd, if_pos hd, if_pos hd, hm]
            exact List.append_assoc _ _ _
          · rw [if_neg hd, if_neg hd, if_neg hd]
        simp only [respond, hclient, hb, EStateM.run_bind, run_assert,
          EStateM.run_get, decide_true, if_true]
        rw [ht, ← hparts]
        rfl
      obtain ⟨s', hrest, hsent⟩ := ih t fun r' hr' => by
        rw [ht]
        exact h r' (List.mem_cons_of_mem r hr')
      refine ⟨s', ?_, fun socket => ?_⟩
      · rw [List.forM_cons, run_bind_ok hfirst, hrest]
      · rw [hsent, ht, outgoing, List.filter_cons]
        dsimp only
        by_cases hs : socket = b
        · have hgoes : s.cidTcpSockets r.clientId = some socket := by
            rw [hb, hs]
          rw [if_pos hs, if_pos (decide_eq_true hgoes), List.map_cons,
            List.flatten_cons, List.append_assoc, hm]
        · have hother : ¬ s.cidTcpSockets r.clientId = some socket := by
            rw [hb]
            exact fun h => hs (Option.some.inj h).symm
          rw [if_neg hs, if_neg (by simpa using hother)]

-- ================================================================= progress

/-- A message is worked off if there is room, and stops the server only
if there is none. -/
theorem onRequest_progress (s : OrderServer) (socket : SocketID)
    (rxTime : Nanos) {m : OrderManagementClientRequest}
    (hc : (clientOf m).toNat < matchingEngineMaxNumClients) :
    (s.HasRoom → ∃ s', (onRequest socket rxTime m).run s = .ok () s'
        ∧ s'.fifoSequencer.pending.length
          ≤ s.fifoSequencer.pending.length + 1)
      ∧ ∀ e t, (onRequest socket rxTime m).run s = .error e t →
          e = .tooManyRequests := by
  rw [run_onRequest hc]
  by_cases hyes : s.Accepts socket m
  · rw [if_pos hyes]
    constructor
    · intro hroom
      rw [if_pos hroom]
      exact ⟨_, rfl, Nat.le_of_eq List.length_append⟩
    · intro e t herr
      split at herr
      · cases herr
      · cases herr
        rfl
  · rw [if_neg hyes]
    exact ⟨fun _ => ⟨_, rfl, Nat.le_succ _⟩, fun e t herr => by cases herr⟩

theorem loop_progress (rxTime : Nanos)
    (more : List (SocketID × OrderManagementClientRequest)) :
    ∀ {s : OrderServer},
      (∀ m ∈ more, (clientOf m.2).toNat < matchingEngineMaxNumClients) →
      (s.fifoSequencer.pending.length + more.length
          ≤ matchingEngineMaxPendingRequests →
        ∃ s', (forM more fun m => onRequest m.1 rxTime m.2).run s = .ok () s')
      ∧ ∀ e t, (forM more fun m => onRequest m.1 rxTime m.2).run s
          = .error e t → e = .tooManyRequests := by
  induction more with
  | nil =>
      intro s _
      exact ⟨fun _ => ⟨s, rfl⟩, fun e t herr => by cases herr⟩
  | cons m more ih =>
      intro s hin
      have hfirst := onRequest_progress s m.1 rxTime
        (hin m (List.mem_cons_self ..))
      have hlater := fun m' hm' => hin m' (List.mem_cons_of_mem m hm')
      rw [List.forM_cons]
      constructor
      · intro hroom
        rw [List.length_cons] at hroom
        obtain ⟨t, ht, hpending⟩ := hfirst.1 (show _ < _ by omega)
        rw [run_bind_ok ht]
        exact (ih hlater).1 (by omega)
      · intro e t herr
        cases hrun : (onRequest m.1 rxTime m.2).run s with
        | ok _ u =>
            rw [run_bind_ok hrun] at herr
            exact (ih hlater).2 e t herr
        | error e' u =>
            rw [run_bind_error hrun] at herr
            cases herr
            exact hfirst.2 e t hrun

/-- So is a chunk. -/
theorem receive_progress (s : OrderServer) (socket : SocketID)
    (rxTime : Nanos) (chunk : List UInt8)
    (hin : ∀ m ∈ messagesIn socket (s.recvBuffer socket ++ chunk),
      (clientOf m.2).toNat < matchingEngineMaxNumClients) :
    (s.fifoSequencer.pending.length
          + (messagesIn socket (s.recvBuffer socket ++ chunk)).length
          ≤ matchingEngineMaxPendingRequests →
        ∃ s', (receive socket rxTime chunk).run s = .ok () s')
      ∧ ∀ e t, (receive socket rxTime chunk).run s = .error e t →
          e = .tooManyRequests := by
  obtain ⟨t, ht⟩ : ∃ t, t = s.setRecvBuffer socket
      (s.recvBuffer socket ++ chunk) := ⟨_, rfl⟩
  have hbuffer : t.recvBuffer socket = s.recvBuffer socket ++ chunk := by
    rw [ht]
    exact if_pos rfl
  have hpending : t.fifoSequencer.pending = s.fifoSequencer.pending := by
    rw [ht]
    rfl
  have hcall : (receive socket rxTime chunk).run s
      = (recvCallBack socket rxTime).run t := by
    rw [ht]
    rfl
  have hloop := loop_progress rxTime _ (s := t) hin
  rw [hcall, run_recvCallBack, hbuffer]
  constructor
  · intro hroom
    obtain ⟨u, hu⟩ := hloop.1 (by rw [hpending]; exact hroom)
    rw [run_bind_ok hu]
    exact ⟨_, rfl⟩
  · intro e u herr
    cases hrun : (forM (messagesIn socket (s.recvBuffer socket ++ chunk))
        fun m => onRequest m.1 rxTime m.2).run t with
    | ok _ v =>
        rw [run_bind_ok hrun] at herr
        cases herr
    | error e' v =>
        rw [run_bind_error hrun] at herr
        cases herr
        exact hloop.2 e u hrun

/-- A chunk that completes no message is kept. -/
theorem run_receive_part {s : OrderServer} {socket : SocketID} {rxTime : Nanos}
    {chunk : List UInt8}
    (h : (s.recvBuffer socket ++ chunk).length < Wire.clientRequest.size) :
    (receive socket rxTime chunk).run s
      = .ok () (s.setRecvBuffer socket (s.recvBuffer socket ++ chunk)) := by
  obtain ⟨t, ht⟩ : ∃ t, t = s.setRecvBuffer socket
      (s.recvBuffer socket ++ chunk) := ⟨_, rfl⟩
  have hbuffer : t.recvBuffer socket = s.recvBuffer socket ++ chunk := by
    rw [ht]
    exact if_pos rfl
  have hcall : (receive socket rxTime chunk).run s
      = (recvCallBack socket rxTime).run t := by
    rw [ht]
    rfl
  have hnone : messagesIn socket (t.recvBuffer socket) = [] := by
    unfold messagesIn
    rw [hbuffer, Framing.frames_of_lt h]
    rfl
  have hsame : t.setRecvBuffer socket (t.recvBuffer socket) = t := by
    rw [ht]
    unfold setRecvBuffer
    congr 1
    funext d
    by_cases hd : d = socket
    · simp [hd]
    · simp [hd]
  have hkept : Framing.remainder Wire.clientRequest.size (t.recvBuffer socket)
      = t.recvBuffer socket := by
    rw [hbuffer]
    exact Framing.remainder_of_lt h
  rw [hcall, run_recvCallBack, hnone, hkept, List.forM_nil, ← ht]
  show EStateM.Result.ok () (t.setRecvBuffer socket (t.recvBuffer socket)) = _
  rw [hsame]

/-- Publishing is always possible. -/
theorem exists_published (s : FIFOSequencer) :
    ∃ s', s.SequencedAndPublished s' ∧ s'.pending = [] := by
  refine ⟨_, ⟨s.pending.mergeSort fun a b => decide (a.recvTime ≤ b.recvTime),
    List.mergeSort_perm _ _, ?_, rfl⟩, rfl⟩
  have htrans : ∀ a b c : RecvTimeClientRequest,
      decide (a.recvTime ≤ b.recvTime) = true →
      decide (b.recvTime ≤ c.recvTime) = true →
      decide (a.recvTime ≤ c.recvTime) = true := fun a b c hab hbc =>
    decide_eq_true
      (Int.le_trans (of_decide_eq_true hab) (of_decide_eq_true hbc))
  have htotal : ∀ a b : RecvTimeClientRequest,
      (decide (a.recvTime ≤ b.recvTime)
        || decide (b.recvTime ≤ a.recvTime)) = true := by
    intro a b
    rcases Int.le_total a.recvTime b.recvTime with hab | hab <;> simp [hab]
  have hsorted := List.pairwise_mergeSort htrans htotal s.pending
  rw [List.pairwise_map]
  exact hsorted.imp fun hab => of_decide_eq_true hab

-- ================================================================ the numbers

/-- What was taken from a client: the messages of its line in sequence,
numbered from 1; what comes next; and nothing of this depends on what
names other clients. -/
theorem taken_in_sequence {es : List Event} {s : OrderServer}
    (h : Run Served new es s) (c : ClientID) :
    s.fifoSequencer.added.filter (·.clientId = c)
        = (inOrder (line c (heard es))).map (·.meClientRequest)
      ∧ (inOrder (line c (heard es))).Sublist (line c (heard es))
      ∧ (inOrder (line c (heard es))).map (·.sequenceNumber)
        = (List.range (inOrder (line c (heard es))).length).map
            (fun i => UInt64.ofNat (i + 1))
      ∧ s.cidNextExpectedSequenceNumber c
        = UInt64.ofNat ((inOrder (line c (heard es))).length + 1)
      ∧ s.cidTcpSockets c = firstSocket c (heard es)
      ∧ ∀ {es' : List Event} {s' : OrderServer}, Run Served new es' s' →
          mine c (heard es') = mine c (heard es) →
          s'.fifoSequencer.added.filter (·.clientId = c)
              = s.fifoSequencer.added.filter (·.clientId = c)
            ∧ s'.cidNextExpectedSequenceNumber c
              = s.cidNextExpectedSequenceNumber c
            ∧ s'.cidTcpSockets c = s.cidTcpSockets c := by
  have hsession := (inv_of_run h).sessions c
  have hone : ∀ n, (1 : UInt64) + UInt64.ofNat n = UInt64.ofNat (n + 1) := by
    intro n
    rw [UInt64.ofNat_add, UInt64.add_comm]
    rfl
  refine ⟨hsession.taken, inSequence_sublist 1 _, ?_, ?_, hsession.socket, ?_⟩
  · have hnumbers := (numbered_inOrder (line c (heard es))).numbers
    simp only [hone] at hnumbers
    exact hnumbers
  · rw [hsession.next, hone]
  · intro es' s' h' hmine
    have hsession' := (inv_of_run h').sessions c
    have hsocket : firstSocket c (heard es') = firstSocket c (heard es) := by
      unfold firstSocket
      rw [hmine]
    have hline : line c (heard es') = line c (heard es) := by
      unfold line
      rw [hmine, hsocket]
    exact ⟨by rw [hsession'.taken, hsession.taken, hline],
      by rw [hsession'.next, hsession.next, hline],
      by rw [hsession'.socket, hsession.socket, hsocket]⟩

-- ------------------------------------------------------- messages in two cuts

/-- The events of messages that come one by one, each cut after its tenth
byte. -/
def sending (ms : List (SocketID × OrderManagementClientRequest)) :
    List Event :=
  ms.flatMap fun m =>
    [.receive m.1 0 ((Wire.clientRequest.encode m.2).take 10),
      .receive m.1 0 ((Wire.clientRequest.encode m.2).drop 10), .recvFinished]

theorem sending_snoc (ms : List (SocketID × OrderManagementClientRequest))
    (m : SocketID × OrderManagementClientRequest) :
    sending (ms ++ [m]) = sending ms
      ++ [.receive m.1 0 ((Wire.clientRequest.encode m.2).take 10)]
      ++ [.receive m.1 0 ((Wire.clientRequest.encode m.2).drop 10)]
      ++ [.recvFinished] := by
  unfold sending
  rw [List.flatMap_append, List.flatMap_singleton, List.append_assoc,
    List.append_assoc]
  rfl

/-- The first ten bytes of a message are none. -/
theorem length_cut_lt (m : OrderManagementClientRequest) :
    ((Wire.clientRequest.encode m).take 10).length
      < Wire.clientRequest.size := by
  rw [List.length_take, Wire.clientRequest.length_encode]
  decide

/-- They are heard as they were sent. -/
theorem reading_sending {ms : List (SocketID × OrderManagementClientRequest)}
    (htyped : ∀ m ∈ ms, Wire.RequestTyped m.2.meClientRequest) :
    reading (sending ms) = ⟨fun _ => [], ms⟩ := by
  induction ms using List.reverseRecOn with
  | nil => rfl
  | append_singleton ms m ih =>
      have hencoded := messagesIn_encode m.1
        (htyped m (List.mem_append_right _ (List.mem_singleton_self m)))
      have hkept := remainder_encode m.2
      have hcut : messagesIn m.1 ((Wire.clientRequest.encode m.2).take 10)
          = [] := by
        unfold messagesIn
        rw [Framing.frames_of_lt (length_cut_lt m.2)]
        rfl
      have hpart := Framing.remainder_of_lt (length_cut_lt m.2)
      rw [sending_snoc, reading_snoc, reading_snoc, reading_snoc,
        ih fun m' hm' => htyped m' (List.mem_append_left _ hm')]
      unfold Reading.hear
      simp only [List.nil_append, if_true, hcut, hpart, List.take_append_drop,
        hencoded, hkept, List.append_nil]
      congr 1
      funext d
      split
      · rfl
      · rfl

/-- And there is room for each, since the one before is published. -/
theorem run_sending {ms : List (SocketID × OrderManagementClientRequest)}
    (htyped : ∀ m ∈ ms, Wire.RequestTyped m.2.meClientRequest)
    (hin : ∀ m ∈ ms, (clientOf m.2).toNat < matchingEngineMaxNumClients) :
    ∃ s, Run Served new (sending ms) s ∧ s.fifoSequencer.pending = [] := by
  induction ms using List.reverseRecOn with
  | nil => exact ⟨new, .nil, rfl⟩
  | append_singleton ms m ih =>
      have hbefore : ∀ m' ∈ ms, Wire.RequestTyped m'.2.meClientRequest :=
        fun m' hm' => htyped m' (List.mem_append_left _ hm')
      have hm : m ∈ ms ++ [m] :=
        List.mem_append_right _ (List.mem_singleton_self m)
      obtain ⟨s, hrun, hpending⟩ := ih hbefore
        fun m' hm' => hin m' (List.mem_append_left _ hm')
      have hempty : s.recvBuffer m.1 = [] := by
        rw [(inv_of_run hrun).kept, reading_sending hbefore]
      have hpart : (receive m.1 0 ((Wire.clientRequest.encode m.2).take 10)).run s
          = .ok () (s.setRecvBuffer m.1 (s.recvBuffer m.1
            ++ (Wire.clientRequest.encode m.2).take 10)) := by
        apply run_receive_part
        rw [hempty]
        exact length_cut_lt m.2
      rw [hempty, List.nil_append] at hpart
      obtain ⟨t, ht⟩ : ∃ t, t = s.setRecvBuffer m.1
          ((Wire.clientRequest.encode m.2).take 10) := ⟨_, rfl⟩
      have hbuffer : t.recvBuffer m.1
          = (Wire.clientRequest.encode m.2).take 10 := by
        rw [ht]
        exact if_pos rfl
      have hnone : t.fifoSequencer.pending = [] := by
        rw [ht]
        exact hpending
      have hmessages : messagesIn m.1 (t.recvBuffer m.1
          ++ (Wire.clientRequest.encode m.2).drop 10) = [(m.1, m.2)] := by
        rw [hbuffer, List.take_append_drop, messagesIn_encode m.1 (htyped m hm)]
      obtain ⟨u, hu⟩ := (receive_progress t m.1 0
        ((Wire.clientRequest.encode m.2).drop 10)
        (fun m' hm' => by
          rw [hmessages, List.mem_singleton] at hm'
          rw [hm']
          exact hin m hm)).1
        (by
          rw [hmessages, hnone]
          exact (by decide : 0 + 1 ≤ 1024))
      obtain ⟨f, hf, hpublished⟩ := exists_published u.fifoSequencer
      have h₁ : Served s
          (.receive m.1 0 ((Wire.clientRequest.encode m.2).take 10)) t :=
        ht ▸ hpart
      have h₂ : Served t
          (.receive m.1 0 ((Wire.clientRequest.encode m.2).drop 10)) u := hu
      refine ⟨{ u with fifoSequencer := f }, ?_, hpublished⟩
      rw [sending_snoc]
      exact ((hrun.snoc h₁).snoc h₂).snoc ⟨f, hf, rfl⟩

/-- A request to buy one at 100. -/
def buyMessage (clientId : ClientID) (number : UInt64) :
    OrderManagementClientRequest :=
  ⟨number, ⟨.new, clientId, 0, number, .buy, 100, 1⟩⟩

theorem typed_buyMessage (clientId : ClientID) (number : UInt64) :
    Wire.RequestTyped (buyMessage clientId number).meClientRequest where
  type := nofun
  side := trivial
  price := by
    show (-2 ^ 63 : Int) ≤ 100 ∧ (100 : Int) < 2 ^ 63
    decide

/-- Two clients that use each other's sockets, repeat their numbers and
leave some out. -/
def hostile : List (SocketID × OrderManagementClientRequest) :=
  [(0, buyMessage 0 1), (1, buyMessage 0 2), (1, buyMessage 1 5),
    (1, buyMessage 1 1), (0, buyMessage 0 1), (0, buyMessage 0 3),
    (0, buyMessage 0 2), (0, buyMessage 1 2), (1, buyMessage 1 2)]

theorem heard_sending {ms : List (SocketID × OrderManagementClientRequest)}
    (htyped : ∀ m ∈ ms, Wire.RequestTyped m.2.meClientRequest) :
    heard (sending ms) = ms := by
  unfold heard
  rw [reading_sending htyped]

theorem fair_hostile : ∀ m ∈ hostile,
    Wire.RequestTyped m.2.meClientRequest
      ∧ (clientOf m.2).toNat < matchingEngineMaxNumClients := by
  intro m hm
  have hone : ∃ c n, m.2 = buyMessage c n
      ∧ c.toNat < matchingEngineMaxNumClients := by
    simp only [hostile, List.mem_cons, List.not_mem_nil, or_false] at hm
    rcases hm with rfl | rfl | rfl | rfl | rfl | rfl | rfl | rfl | rfl
    all_goals exact ⟨_, _, rfl, by decide⟩
  obtain ⟨c, n, hmessage, hc⟩ := hone
  rw [hmessage]
  exact ⟨typed_buyMessage c n, hc⟩

/-- Of the nine messages two are taken from the client 0, and the same two
if the other client sends nothing. -/
theorem taken_in_sequence_hostile : ∃ s s',
    Run Served new (sending hostile) s
      ∧ Run Served new (sending (mine 0 hostile)) s'
      ∧ s.fifoSequencer.added.filter (·.clientId = 0)
        = [(buyMessage 0 1).meClientRequest, (buyMessage 0 2).meClientRequest]
      ∧ s.cidNextExpectedSequenceNumber 0 = 3
      ∧ s.cidTcpSockets 0 = some 0
      ∧ s'.fifoSequencer.added.filter (·.clientId = 0)
        = s.fifoSequencer.added.filter (·.clientId = 0) := by
  have htyped := fun m hm => (fair_hostile m hm).1
  have hin := fun m hm => (fair_hostile m hm).2
  have hmine : ∀ m ∈ mine 0 hostile, m ∈ hostile := fun m hm =>
    (List.mem_filter.1 hm).1
  obtain ⟨s, hrun, -⟩ := run_sending htyped hin
  obtain ⟨s', hrun', -⟩ := run_sending
    (fun m hm => htyped m (hmine m hm)) fun m hm => hin m (hmine m hm)
  have hheard := heard_sending htyped
  have hheard' := heard_sending fun m hm => htyped m (hmine m hm)
  obtain ⟨htaken, -, -, hnext, hsocket, hothers⟩ := taken_in_sequence hrun 0
  obtain ⟨hsame, -, -⟩ := hothers hrun' (by
    rw [hheard, hheard']
    decide)
  rw [hheard] at htaken hnext hsocket
  refine ⟨s, s', hrun, hrun', htaken.trans ?_, hnext.trans ?_,
    hsocket.trans ?_, hsame⟩
  · decide
  · decide
  · decide

-- -------------------------------------------------------------------- a flood

/-- The client 0's requests, one after the other. -/
def floodMessage (i : Nat) : OrderManagementClientRequest :=
  buyMessage 0 (UInt64.ofNat (i + 1))

def flood (n : Nat) : List Event :=
  sending ((List.range n).map fun i => (0, floodMessage i))

theorem heard_flood (n : Nat) :
    heard (flood n) = (List.range n).map fun i => (0, floodMessage i) := by
  refine heard_sending fun m hm => ?_
  obtain ⟨i, -, rfl⟩ := List.mem_map.1 hm
  exact typed_buyMessage 0 _

/-- Every one of them is taken. -/
theorem inOrder_flood (n : Nat) :
    inOrder ((List.range n).map floodMessage)
      = (List.range n).map floodMessage := by
  induction n with
  | zero => rfl
  | succ n ih =>
      have hnumber : (floodMessage n).sequenceNumber
          = 1 + UInt64.ofNat ((List.range n).map floodMessage).length := by
        show UInt64.ofNat (n + 1) = _
        rw [List.length_map, List.length_range, UInt64.ofNat_add,
          UInt64.add_comm]
        rfl
      rw [List.range_succ, List.map_append, List.map_singleton,
        inOrder_snoc, ih, if_pos hnumber]

theorem session_flood {n : Nat} {s : OrderServer}
    (h : Run Served new (flood n) s) :
    s.cidNextExpectedSequenceNumber 0 = 1 + UInt64.ofNat n := by
  have hnext := ((inv_of_run h).sessions 0).next
  have hheard := heard_flood n
  have hmine : mine 0 (heard (flood n)) = heard (flood n) := by
    refine List.filter_eq_self.2 fun m hm => ?_
    rw [hheard] at hm
    obtain ⟨i, -, rfl⟩ := List.mem_map.1 hm
    rfl
  have hline : line 0 (heard (flood n)) = (List.range n).map floodMessage := by
    unfold line firstSocket
    rw [hmine, hheard]
    cases n with
    | zero => rfl
    | succ n =>
        have hall : ∀ m ∈ (List.range (n + 1)).map fun i =>
            ((0 : SocketID), floodMessage i), decide (some m.1
              = (((List.range (n + 1)).map fun i =>
                ((0 : SocketID), floodMessage i)).head?.map (·.1))) = true := by
          intro m hm
          obtain ⟨i, -, rfl⟩ := List.mem_map.1 hm
          rw [List.range_succ_eq_map]
          rfl
        rw [List.filter_eq_self.2 hall, List.map_map]
        rfl
  rw [hnext, hline, inOrder_flood, List.length_map, List.length_range]

theorem run_flood (n : Nat) : ∃ s, Run Served new (flood n) s := by
  obtain ⟨s, hrun, -⟩ : ∃ s, Run Served new (flood n) s
      ∧ s.fifoSequencer.pending = [] := by
    apply run_sending
    · intro m hm
      obtain ⟨i, -, rfl⟩ := List.mem_map.1 hm
      exact typed_buyMessage 0 _
    · intro m hm
      obtain ⟨i, -, rfl⟩ := List.mem_map.1 hm
      exact (by decide : (0 : ClientID).toNat < 256)
  exact ⟨s, hrun⟩

/-- After 2^64 - 1 requests the number that comes next is 0. -/
theorem not_counted_flood :
    ¬ ∀ (es : List Event) (s : OrderServer), Run Served new es s → ∀ c,
      (s.cidNextExpectedSequenceNumber c).toNat
        = (s.fifoSequencer.added.filter (·.clientId = c)).length + 1 := by
  intro hall
  obtain ⟨s, hrun⟩ := run_flood (2 ^ 64 - 1)
  have hcount := hall _ s hrun 0
  rw [session_flood hrun] at hcount
  have hzero : ((1 : UInt64) + UInt64.ofNat (2 ^ 64 - 1)).toNat = 0 := by decide
  omega

end OrderServer

end ElectronicTrading
