/-
Requests from the gateway to the order server, and responses back.

Either end writes a message in two parts, its number and its body, and
the other end reads it as one packed record. The bytes in between may be
cut anywhere. `numbered` and `outgoing` are the messages the two ends
write, `bytesOn` and a list of chunks the bytes that have arrived; what
is taken from them is as many messages as are whole.

The gateway's reading end is the server's, seen from one client: its
invariant is `Listening`.
-/
import ElectronicTrading.Exchange.Proofs.Sessions
import ElectronicTrading.Trading.OrderGateway

namespace ElectronicTrading

open Exec Runs Sequenced

-- ================================================================== requests

namespace OrderGateway

/-- The messages that carry some requests. -/
def numbered (next : UInt64) :
    List MatchingEngineClientRequest → List OrderManagementClientRequest
  | [] => []
  | r :: rs => ⟨next, r⟩ :: numbered (next + 1) rs

theorem numbered_numbered (next : UInt64)
    (rs : List MatchingEngineClientRequest) :
    Numbered (·.sequenceNumber) next (numbered next rs) := by
  induction rs generalizing next with
  | nil => trivial
  | cons r rs ih => exact ⟨rfl, ih _⟩

theorem map_numbered (next : UInt64) (rs : List MatchingEngineClientRequest) :
    (numbered next rs).map (·.meClientRequest) = rs := by
  induction rs generalizing next with
  | nil => rfl
  | cons r rs ih => rw [numbered, List.map_cons, ih]

/-- What is sent, in bytes. -/
theorem run_sendRequests (rs : List MatchingEngineClientRequest) :
    ∀ s : OrderGateway, ∃ s', (forM rs sendRequest).run s = .ok () s'
      ∧ s'.sendBuffer = s.sendBuffer
        ++ ((numbered s.nextOutgoingSequenceNumber rs).map
          Wire.clientRequest.encode).flatten := by
  induction rs with
  | nil => exact fun s => ⟨s, rfl, (List.append_nil _).symm⟩
  | cons r rs ih =>
      intro s
      obtain ⟨t, ht⟩ : ∃ t, t = { s with
          nextOutgoingSequenceNumber := s.nextOutgoingSequenceNumber + 1
          sendBuffer := s.sendBuffer ++ Wire.clientRequest.encode
            ⟨s.nextOutgoingSequenceNumber, r⟩ } := ⟨_, rfl⟩
      have hfirst : (sendRequest r).run s = .ok () t := by
        have hparts : s.sendBuffer
            ++ Wire.clientRequest.encode ⟨s.nextOutgoingSequenceNumber, r⟩
            = s.sendBuffer
              ++ Packed.Codec.uint64.encode s.nextOutgoingSequenceNumber
              ++ Wire.request.encode r := (List.append_assoc _ _ _).symm
        rw [ht, hparts]
        rfl
      obtain ⟨s', hrest, hsent⟩ := ih t
      refine ⟨s', ?_, ?_⟩
      · rw [List.forM_cons, run_bind_ok hfirst, hrest]
      · rw [hsent, ht, numbered, List.map_cons, List.flatten_cons,
          List.append_assoc]

end OrderGateway

namespace OrderServer

/-- What has arrived on a socket. -/
def bytesOn (socket : SocketID) : List Event → List UInt8
  | [] => []
  | .receive t _ chunk :: es =>
      if t = socket then chunk ++ bytesOn socket es else bytesOn socket es
  | .recvFinished :: es => bytesOn socket es

theorem bytesOn_append (socket : SocketID) (es es' : List Event) :
    bytesOn socket (es ++ es') = bytesOn socket es ++ bytesOn socket es' := by
  induction es with
  | nil => rfl
  | cons e es ih =>
      cases e with
      | recvFinished => exact ih
      | receive t rxTime chunk =>
          rw [List.cons_append, bytesOn, bytesOn, ih]
          split
          · rw [List.append_assoc]
          · rfl

theorem messagesIn_socket {socket : SocketID} {bytes : List UInt8}
    {m : SocketID × OrderManagementClientRequest}
    (h : m ∈ messagesIn socket bytes) : m.1 = socket := by
  obtain ⟨_, -, rfl⟩ := List.mem_map.1 h
  rfl

/-- What was read on a socket depends on its bytes only, not on where
they were cut. -/
theorem reading_on (socket : SocketID) (es : List Event) :
    (reading es).kept socket
        = Framing.remainder Wire.clientRequest.size (bytesOn socket es)
      ∧ (heard es).filter (·.1 = socket)
        = messagesIn socket (bytesOn socket es) := by
  have hsize : 0 < Wire.clientRequest.size := by decide
  induction es using List.reverseRecOn with
  | nil =>
      constructor
      · exact (Framing.remainder_of_lt hsize).symm
      · have hnone : messagesIn socket (bytesOn socket []) = [] :=
          congrArg (List.map _) (Framing.frames_of_lt hsize)
        rw [hnone]
        rfl
  | append_singleton es e ih =>
      obtain ⟨hkept, hheard⟩ := ih
      cases e with
      | recvFinished =>
          unfold heard at hheard ⊢
          rw [reading_snoc, bytesOn_append]
          have hsame : bytesOn socket es ++ bytesOn socket [.recvFinished]
              = bytesOn socket es := List.append_nil _
          rw [hsame]
          exact ⟨hkept, hheard⟩
      | receive t rxTime chunk =>
          unfold heard at hheard ⊢
          rw [reading_snoc, bytesOn_append]
          dsimp only [Reading.hear]
          by_cases ht : t = socket
          · subst ht
            have hbytes : bytesOn t [.receive t rxTime chunk] = chunk := by
              rw [bytesOn, if_pos rfl]
              exact List.append_nil _
            have hall : (messagesIn t
                ((reading es).kept t ++ chunk)).filter (·.1 = t)
                = messagesIn t ((reading es).kept t ++ chunk) :=
              List.filter_eq_self.2 fun m hm =>
                decide_eq_true (messagesIn_socket hm)
            rw [hbytes, List.filter_append, hheard, hall, hkept]
            constructor
            · rw [if_pos rfl]
              exact (Framing.remainder_append (bytesOn t es) chunk).symm
            · unfold messagesIn
              rw [Framing.frames_append (bytesOn t es) chunk,
                List.map_append]
          · have hbytes : bytesOn socket [.receive t rxTime chunk] = [] := by
              rw [bytesOn, if_neg ht]
              rfl
            have hnone : (messagesIn t ((reading es).kept t ++ chunk)).filter
                (·.1 = socket) = [] :=
              List.filter_eq_nil_iff.2 fun m hm => by
                rw [messagesIn_socket hm]
                simp [ht]
            rw [hbytes, List.append_nil, List.filter_append, hnone,
              List.append_nil]
            refine ⟨?_, hheard⟩
            rw [if_neg (Ne.symm ht)]
            exact hkept

/-- A client that is heard on one socket only. -/
theorem line_of_socket {c : ClientID} {socket : SocketID}
    {ms : List (SocketID × OrderManagementClientRequest)}
    (honly : ∀ m ∈ mine c ms, m.1 = socket) :
    line c ms = (mine c ms).map (·.2) := by
  unfold line
  have hall : ∀ m ∈ mine c ms, decide (some m.1 = firstSocket c ms) = true := by
    intro m hm
    unfold firstSocket
    cases hmine : mine c ms with
    | nil =>
        rw [hmine] at hm
        cases hm
    | cons x l =>
        have hx := honly x (by rw [hmine]; exact List.mem_cons_self ..)
        rw [honly m hm, List.head?_cons, Option.map_some, hx]
        exact decide_eq_true rfl
  rw [List.filter_eq_self.2 hall]

/-- Whoever is heard on the socket is the client. -/
theorem client_of_heard {c : ClientID} {socket : SocketID}
    {rs : List MatchingEngineClientRequest}
    (htyped : ∀ r ∈ rs, Wire.RequestTyped r ∧ r.clientId = c)
    {bytes : List UInt8}
    (hstream : bytes
      <+: ((OrderGateway.numbered 1 rs).map Wire.clientRequest.encode).flatten)
    {m : SocketID × OrderManagementClientRequest}
    (hm : m ∈ messagesIn socket bytes) : clientOf m.2 = c := by
  have hof : ∀ m ∈ OrderGateway.numbered 1 rs, m.meClientRequest ∈ rs := by
    intro m hm
    have hbody : m.meClientRequest
        ∈ (OrderGateway.numbered 1 rs).map (·.meClientRequest) :=
      List.mem_map_of_mem hm
    rwa [OrderGateway.map_numbered] at hbody
  rw [messagesIn_part socket (fun m hm => (htyped _ (hof m hm)).1) hstream]
    at hm
  obtain ⟨m, hsent, rfl⟩ := List.mem_map.1 hm
  exact (htyped _ (hof m (List.mem_of_mem_take hsent))).2

/-- The requests of a client that is heard on one socket. -/
theorem requests_taken {c : ClientID} {socket : SocketID}
    {rs : List MatchingEngineClientRequest}
    (htyped : ∀ r ∈ rs, Wire.RequestTyped r ∧ r.clientId = c)
    {es : List Event}
    (hstream : bytesOn socket es
      <+: ((OrderGateway.numbered 1 rs).map Wire.clientRequest.encode).flatten)
    (honly : ∀ m ∈ mine c (heard es), m.1 = socket) {s : OrderServer}
    (hrun : Run Served new es s) :
    s.fifoSequencer.added.filter (·.clientId = c)
      = rs.take ((bytesOn socket es).length / Wire.clientRequest.size) := by
  obtain ⟨k, hk⟩ : ∃ k, k = (bytesOn socket es).length
    / Wire.clientRequest.size := ⟨_, rfl⟩
  obtain ⟨ms, hms⟩ : ∃ ms, ms = OrderGateway.numbered 1 rs := ⟨_, rfl⟩
  have hbodies : ms.map (·.meClientRequest) = rs :=
    hms ▸ OrderGateway.map_numbered 1 rs
  have hof : ∀ m ∈ ms, m.meClientRequest ∈ rs := fun m hm =>
    hbodies ▸ List.mem_map_of_mem hm
  rw [← hms] at hstream
  have hmessages := messagesIn_part socket
    (fun m hm => (htyped _ (hof m hm)).1) hstream
  rw [← hk, ← (reading_on socket es).2] at hmessages
  have hmine : mine c (heard es) = (ms.take k).map fun m => (socket, m) := by
    have hon : mine c (heard es)
        = (mine c (heard es)).filter (·.1 = socket) :=
      (List.filter_eq_self.2 fun m hm => decide_eq_true (honly m hm)).symm
    rw [hon]
    unfold mine
    rw [List.filter_comm, hmessages]
    refine List.filter_eq_self.2 fun m hm => ?_
    obtain ⟨m, hmem, rfl⟩ := List.mem_map.1 hm
    exact decide_eq_true (htyped _ (hof m (List.mem_of_mem_take hmem))).2
  have hline : line c (heard es) = ms.take k := by
    rw [line_of_socket honly, hmine, List.map_map]
    exact List.map_id _
  have hall : inOrder (ms.take k) = ms.take k :=
    ((hms ▸ OrderGateway.numbered_numbered 1 rs :
      Numbered (·.sequenceNumber) 1 ms).part
        (List.take_prefix k ms)).inSequence_eq
  rw [((inv_of_run hrun).sessions c).taken, hline, hall, List.map_take,
    hbodies, hk]

/-- Nothing but a full sequencer stops the server from taking the next
chunk, and if that has room the chunk is taken. -/
theorem requests_progress {c : ClientID} {socket : SocketID}
    (hc : c.toNat < matchingEngineMaxNumClients)
    {rs : List MatchingEngineClientRequest}
    (htyped : ∀ r ∈ rs, Wire.RequestTyped r ∧ r.clientId = c)
    {es : List Event} {s : OrderServer} (hrun : Run Served new es s)
    (rxTime : Nanos) {chunk : List UInt8}
    (hnext : bytesOn socket es ++ chunk
      <+: ((OrderGateway.numbered 1 rs).map Wire.clientRequest.encode).flatten) :
    (s.fifoSequencer.pending.length
          + ((s.recvBuffer socket).length + chunk.length)
            / Wire.clientRequest.size ≤ matchingEngineMaxPendingRequests →
        ∃ s', Served s (.receive socket rxTime chunk) s')
      ∧ ∀ e t, (receive socket rxTime chunk).run s = .error e t →
          e = .tooManyRequests := by
  have hkept : s.recvBuffer socket
      = Framing.remainder Wire.clientRequest.size (bytesOn socket es) := by
    rw [(inv_of_run hrun).kept, (reading_on socket es).1]
  obtain ⟨buffer, hbuffer⟩ : ∃ b, b = s.recvBuffer socket ++ chunk := ⟨_, rfl⟩
  have hstream : messagesIn socket (bytesOn socket es ++ chunk)
      = messagesIn socket (bytesOn socket es) ++ messagesIn socket buffer := by
    unfold messagesIn
    rw [hbuffer, hkept, Framing.frames_append, List.map_append]
  have hin : ∀ m ∈ messagesIn socket buffer,
      (clientOf m.2).toNat < matchingEngineMaxNumClients := by
    intro m hm
    have hmem : m ∈ messagesIn socket (bytesOn socket es ++ chunk) := by
      rw [hstream]
      exact List.mem_append_right _ hm
    rw [client_of_heard htyped hnext hmem]
    exact hc
  have hlen : (messagesIn socket buffer).length
      = ((s.recvBuffer socket).length + chunk.length)
        / Wire.clientRequest.size := by
    unfold messagesIn
    rw [List.length_map, Framing.length_frames (by decide), hbuffer,
      List.length_append]
  rw [hbuffer] at hin hlen
  have hprogress := receive_progress s socket rxTime chunk hin
  rw [hlen] at hprogress
  exact hprogress

end OrderServer

namespace OrderGateway

-- ============================================================ the gateway reads

/-- The responses in a buffer. -/
def responsesIn (buffer : List UInt8) : List OrderManagementClientResponse :=
  (Framing.frames Wire.clientResponse.size buffer).map
    Wire.clientResponse.decode

/-- Of what came for the client, what is in order. -/
def taken (c : ClientID) (ms : List OrderManagementClientResponse) :
    List OrderManagementClientResponse :=
  inSequence (·.sequenceNumber) 1 (OrderServer.toClient c ms)

/-- What a client's gateway has taken that was sent `ms`. -/
structure Listening (c : ClientID) (ms : List OrderManagementClientResponse)
    (s : OrderGateway) : Prop where
  client : s.clientId = c
  incoming : s.incomingResponse = (taken c ms).map (·.meClientResponse)
  next : s.nextExpectedSequenceNumber
    = 1 + UInt64.ofNat (taken c ms).length

theorem listening_new (c : ClientID) : Listening c [] (new c) :=
  ⟨rfl, rfl, rfl⟩

/-- One message. -/
theorem listening_step {c : ClientID}
    {ms : List OrderManagementClientResponse} {s : OrderGateway}
    (h : Listening c ms s) (m : OrderManagementClientResponse) :
    ∃ s', (onResponse m).run s = .ok () s' ∧ Listening c (ms ++ [m]) s'
      ∧ s'.recvBuffer = s.recvBuffer := by
  have hgrown : taken c (ms ++ [m]) = taken c ms
      ++ if m.meClientResponse.clientId = c
          ∧ m.sequenceNumber = 1 + UInt64.ofNat (taken c ms).length
        then [m] else [] := by
    unfold taken OrderServer.toClient
    rw [List.filter_append]
    by_cases hm : m.meClientResponse.clientId = c
    · have hone : [m].filter (fun m => m.meClientResponse.clientId = c)
          = [m] := by simp [hm]
      rw [hone, inSequence_snoc]
      simp only [hm, true_and]
    · have hnone : [m].filter (fun m => m.meClientResponse.clientId = c)
          = [] := by simp [hm]
      rw [hnone, if_neg fun h => hm h.1, List.append_nil, List.append_nil]
  by_cases hm : m.meClientResponse.clientId = s.clientId
  · by_cases hnumber : m.sequenceNumber = s.nextExpectedSequenceNumber
    · have htakes : m.meClientResponse.clientId = c
          ∧ m.sequenceNumber = 1 + UInt64.ofNat (taken c ms).length :=
        ⟨hm.trans h.client, hnumber.trans h.next⟩
      rw [if_pos htakes] at hgrown
      refine ⟨{ s with
          nextExpectedSequenceNumber := s.nextExpectedSequenceNumber + 1
          incomingResponse := s.incomingResponse ++ [m.meClientResponse] },
        by simp [onResponse, hm, hnumber], ⟨h.client, ?_, ?_⟩, rfl⟩
      · rw [hgrown, List.map_append, ← h.incoming]
        rfl
      · rw [hgrown, List.length_append, List.length_singleton, h.next,
          UInt64.ofNat_add, UInt64.add_assoc]
        rfl
    · have hdrops : ¬ (m.meClientResponse.clientId = c
          ∧ m.sequenceNumber = 1 + UInt64.ofNat (taken c ms).length) :=
        fun hno => hnumber (hno.2.trans h.next.symm)
      rw [if_neg hdrops, List.append_nil] at hgrown
      exact ⟨s, by simp [onResponse, hm, hnumber],
        ⟨h.client, hgrown ▸ h.incoming, hgrown ▸ h.next⟩, rfl⟩
  · have hdrops : ¬ (m.meClientResponse.clientId = c
        ∧ m.sequenceNumber = 1 + UInt64.ofNat (taken c ms).length) :=
      fun hno => hm (hno.1.trans h.client.symm)
    rw [if_neg hdrops, List.append_nil] at hgrown
    exact ⟨s, by simp [onResponse, hm],
      ⟨h.client, hgrown ▸ h.incoming, hgrown ▸ h.next⟩, rfl⟩

/-- The messages of a callback. -/
theorem listening_loop {c : ClientID}
    (more : List OrderManagementClientResponse) :
    ∀ {ms : List OrderManagementClientResponse} {s : OrderGateway},
      Listening c ms s →
      ∃ s', (forM more onResponse).run s = .ok () s'
        ∧ Listening c (ms ++ more) s' ∧ s'.recvBuffer = s.recvBuffer := by
  induction more with
  | nil =>
      intro ms s h
      rw [List.append_nil]
      exact ⟨s, rfl, h, rfl⟩
  | cons m more ih =>
      intro ms s h
      obtain ⟨t, hfirst, ht, hkept⟩ := listening_step h m
      obtain ⟨s', hrest, hs', hkept'⟩ := ih ht
      rw [List.append_assoc] at hs'
      exact ⟨s', by rw [List.forM_cons, run_bind_ok hfirst, hrest], hs',
        hkept'.trans hkept⟩

/-- `recvCallback` is a loop over the responses in the buffer. -/
theorem run_recvCallback (s : OrderGateway) :
    recvCallback.run s
      = (do
          forM (responsesIn s.recvBuffer) onResponse
          modify fun t => { t with
            recvBuffer := Framing.remainder Wire.clientResponse.size
              s.recvBuffer } : Member Unit).run s := by
  have hforM : ∀ bs : List (List UInt8),
      (forM (bs.map Wire.clientResponse.decode) onResponse : Member Unit)
      = forM bs fun bytes => onResponse (Wire.clientResponse.decode bytes) := by
    intro bs
    induction bs with
    | nil => rfl
    | cons b bs ih => rw [List.map_cons, List.forM_cons, List.forM_cons, ih]
  unfold responsesIn
  rw [hforM]
  exact Framing.run_clip (by decide) Fault.endlessLoop Fault.overlappingCopy
    (fun bytes => onResponse (Wire.clientResponse.decode bytes))
    s.recvBuffer (fun bytes t => { t with recvBuffer := bytes }) s rfl

/-- The gateway after some bytes, however they were cut. -/
theorem run_receives {c : ClientID} (chunks : List (List UInt8)) :
    ∃ s', (forM chunks receive).run (new c) = .ok () s'
      ∧ Listening c (responsesIn chunks.flatten) s'
      ∧ s'.recvBuffer
        = Framing.remainder Wire.clientResponse.size chunks.flatten := by
  induction chunks using List.reverseRecOn with
  | nil =>
      have hnone : responsesIn ([] : List (List UInt8)).flatten = [] :=
        congrArg (List.map _) (Framing.frames_of_lt (by decide))
      rw [hnone]
      have hempty : Framing.remainder Wire.clientResponse.size
          ([] : List UInt8) = [] := Framing.remainder_of_lt (by decide)
      exact ⟨new c, rfl, listening_new c, hempty.symm⟩
  | append_singleton chunks chunk ih =>
      obtain ⟨s, hbefore, hs, hkept⟩ := ih
      obtain ⟨t, ht⟩ : ∃ t, t = { s with
          recvBuffer := s.recvBuffer ++ chunk } := ⟨_, rfl⟩
      have hlistening : Listening c (responsesIn chunks.flatten) t := by
        rw [ht]
        exact ⟨hs.client, hs.incoming, hs.next⟩
      have hbuffer : t.recvBuffer = Framing.remainder Wire.clientResponse.size
          chunks.flatten ++ chunk := by
        rw [ht, ← hkept]
      obtain ⟨u, hloop, hu, -⟩ :=
        listening_loop (responsesIn t.recvBuffer) hlistening
      have hall : responsesIn (chunks ++ [chunk]).flatten
          = responsesIn chunks.flatten ++ responsesIn t.recvBuffer := by
        unfold responsesIn
        rw [List.flatten_append, List.flatten_singleton, Framing.frames_append,
          List.map_append, hbuffer]
      have hcall : (receive chunk).run s = recvCallback.run t := by
        rw [ht]
        rfl
      refine ⟨{ u with
          recvBuffer := Framing.remainder Wire.clientResponse.size
            t.recvBuffer }, ?_, ?_, ?_⟩
      · rw [List.forM_append, run_bind_ok hbefore, List.forM_cons,
          List.forM_nil, bind_pure_unit, hcall, run_recvCallback,
          run_bind_ok hloop]
        rfl
      · rw [hall]
        exact ⟨hu.client, hu.incoming, hu.next⟩
      · rw [List.flatten_append, List.flatten_singleton,
          Framing.remainder_append, ← hbuffer]

end OrderGateway

-- ============================================================== both directions

namespace OrderServer

/-- What the gateway of a client takes of the messages that went to its
socket. -/
theorem taken_outgoing {sockets : ClientID → Option SocketID}
    {next : ClientID → UInt64} {c : ClientID} {socket : SocketID}
    (hsocket : sockets c = some socket) (hnext : next c = 1)
    (rs : List MatchingEngineClientResponse) (k : Nat) :
    (OrderGateway.taken c (((outgoing next rs).filter fun m =>
        sockets m.meClientResponse.clientId = some socket).take k)).map
          (·.meClientResponse)
      = ((onSocket sockets socket rs).take k).filter (·.clientId = c) := by
  obtain ⟨ms, hms⟩ : ∃ ms, ms = (outgoing next rs).filter fun m =>
    sockets m.meClientResponse.clientId = some socket := ⟨_, rfl⟩
  have hbodies : ms.map (·.meClientResponse) = onSocket sockets socket rs := by
    rw [hms]
    exact map_outgoing_onSocket sockets next socket rs
  have hmine : toClient c ms = toClient c (outgoing next rs) := by
    unfold toClient
    rw [hms, List.filter_filter]
    refine List.filter_congr fun m _ => ?_
    by_cases hm : m.meClientResponse.clientId = c
    · simp [hm, hsocket]
    · simp [hm]
  have hnumbered : Numbered (·.sequenceNumber) 1 (toClient c ms) := by
    rw [hmine, ← hnext]
    exact numbered_outgoing c rs next
  have hpart : toClient c (ms.take k) <+: toClient c ms :=
    (List.take_prefix k ms).filter _
  rw [← hms, OrderGateway.taken, (hnumbered.part hpart).inSequence_eq,
    ← hbodies, ← List.map_take, List.filter_map]
  rfl

/-- All that was handed over is a client's that was heard. -/
theorem added_of_heard {c : ClientID} {es : List Event} {s : OrderServer}
    (hrun : Run Served new es s)
    (hall : ∀ m ∈ heard es, clientOf m.2 = c) :
    s.fifoSequencer.added.filter (·.clientId = c)
      = s.fifoSequencer.added := by
  refine List.filter_eq_self.2 fun r hr => decide_eq_true ?_
  by_contra hother
  have hnone : mine r.clientId (heard es) = [] := by
    refine List.filter_eq_nil_iff.2 fun m hm => ?_
    rw [hall m hm]
    simpa using Ne.symm hother
  have htaken := ((inv_of_run hrun).sessions r.clientId).taken
  unfold line at htaken
  rw [hnone] at htaken
  have hmem : r ∈ s.fifoSequencer.added.filter (·.clientId = r.clientId) :=
    List.mem_filter.2 ⟨hr, decide_eq_true rfl⟩
  rw [htaken] at hmem
  cases hmem

/-- A client's requests reach the sequencer, and the server's responses
the client, wherever the bytes are cut. -/
theorem round_trip :
    (∀ (c : ClientID) (rs : List MatchingEngineClientRequest),
      c.toNat < matchingEngineMaxNumClients →
      (∀ r ∈ rs, Wire.RequestTyped r ∧ r.clientId = c) →
      ∃ g, (forM rs OrderGateway.sendRequest).run (.new c) = .ok () g
        ∧ ∀ (socket : SocketID) (es : List Event) (s : OrderServer),
          bytesOn socket es <+: g.sendBuffer →
          (∀ m ∈ mine c (heard es), m.1 = socket) → Run Served new es s →
          s.fifoSequencer.added.filter (·.clientId = c)
              = rs.take ((bytesOn socket es).length / Wire.clientRequest.size)
            ∧ (bytesOn socket es = g.sendBuffer →
              s.fifoSequencer.added.filter (·.clientId = c) = rs)
            ∧ ((∀ m ∈ heard es, m.1 = socket) →
              s.fifoSequencer.added.filter (·.clientId = c)
                = s.fifoSequencer.added)
            ∧ (s.recvBuffer socket).length < Wire.clientRequest.size
            ∧ ∀ (rxTime : Nanos) (chunk : List UInt8),
              bytesOn socket es ++ chunk <+: g.sendBuffer →
              (s.fifoSequencer.pending.length
                    + ((s.recvBuffer socket).length + chunk.length)
                      / Wire.clientRequest.size
                    ≤ matchingEngineMaxPendingRequests →
                  ∃ s', Served s (.receive socket rxTime chunk) s')
                ∧ ∀ e t, (receive socket rxTime chunk).run s = .error e t →
                    e = .tooManyRequests)
    ∧ ∀ (s : OrderServer) (rs : List MatchingEngineClientResponse),
      (∀ r ∈ rs, Wire.ResponseTyped r
        ∧ r.clientId.toNat < matchingEngineMaxNumClients
        ∧ s.cidTcpSockets r.clientId ≠ none) →
      ∃ s', (forM rs respond).run s = .ok () s'
        ∧ ∀ (c : ClientID) (socket : SocketID),
          s.cidTcpSockets c = some socket →
          s.cidNextOutgoingSequenceNumber c = 1 → s.sendBuffer socket = [] →
          ∀ chunks : List (List UInt8),
            chunks.flatten <+: s'.sendBuffer socket →
            ∃ g, (forM chunks OrderGateway.receive).run (.new c) = .ok () g
              ∧ g.incomingResponse = ((onSocket s.cidTcpSockets socket
                  rs).take (chunks.flatten.length
                    / Wire.clientResponse.size)).filter (·.clientId = c)
              ∧ (chunks.flatten = s'.sendBuffer socket →
                g.incomingResponse = rs.filter (·.clientId = c))
              ∧ g.recvBuffer.length < Wire.clientResponse.size := by
  constructor
  -- from the client to the exchange
  · intro c rs hc htyped
    obtain ⟨g, hg, hsent⟩ := OrderGateway.run_sendRequests rs (.new c)
    rw [show (OrderGateway.new c).sendBuffer = [] from rfl, List.nil_append]
      at hsent
    refine ⟨g, hg, fun socket es s hstream honly hrun => ?_⟩
    rw [hsent] at hstream ⊢
    have htaken := requests_taken htyped hstream honly hrun
    refine ⟨htaken, fun hwhole => ?_, fun hall => ?_, ?_,
      fun rxTime chunk hnext => requests_progress hc htyped hrun rxTime hnext⟩
    · have hlen : (OrderGateway.numbered 1 rs).length = rs.length := by
        rw [← List.length_map, OrderGateway.map_numbered]
      have hcount : (bytesOn socket es).length / Wire.clientRequest.size
          = (OrderGateway.numbered 1 rs).length :=
        (congrArg (·.length / _) hwhole).trans
          (Wire.clientRequest.length_stream (by decide) _)
      rw [htaken, hcount, hlen, List.take_length]
    · refine added_of_heard hrun fun m hm => ?_
      have hon : m ∈ (heard es).filter (·.1 = socket) :=
        List.mem_filter.2 ⟨hm, decide_eq_true (hall m hm)⟩
      rw [(reading_on socket es).2] at hon
      exact client_of_heard htyped hstream hon
    · rw [(inv_of_run hrun).kept, (reading_on socket es).1]
      exact Framing.length_remainder_lt (by decide) _
  -- and back
  · intro s rs h
    obtain ⟨s', hrun, hsent⟩ := run_responses rs s fun r hr => (h r hr).2
    refine ⟨s', hrun, fun c socket hsocket hnext hempty chunks hstream => ?_⟩
    have hbytes := hsent socket
    rw [hempty, List.nil_append] at hbytes
    rw [hbytes] at hstream ⊢
    obtain ⟨g, hg, hlistening, hkept⟩ :=
      OrderGateway.run_receives (c := c) chunks
    have hbody : ∀ m ∈ outgoing s.cidNextOutgoingSequenceNumber rs,
        m.meClientResponse ∈ rs := by
      intro m hm
      have hmem := List.mem_map_of_mem
        (f := OrderManagementClientResponse.meClientResponse) hm
      rwa [map_outgoing] at hmem
    have hdecode := Wire.clientResponse.decode_frames (by decide)
      (fun m hm => Wire.valid_clientResponse
        (h _ (hbody m (List.mem_of_mem_filter hm))).1) hstream
    have hincoming : g.incomingResponse = ((onSocket s.cidTcpSockets socket
        rs).take (chunks.flatten.length
          / Wire.clientResponse.size)).filter (·.clientId = c) := by
      rw [hlistening.incoming, ← taken_outgoing hsocket hnext]
      unfold OrderGateway.responsesIn
      rw [hdecode]
    refine ⟨g, hg, hincoming, fun hwhole => ?_, ?_⟩
    · have hcount : chunks.flatten.length / Wire.clientResponse.size
          = (onSocket s.cidTcpSockets socket rs).length := by
        rw [← map_outgoing_onSocket _ s.cidNextOutgoingSequenceNumber,
          List.length_map]
        exact (congrArg (·.length / _) hwhole).trans
          (Wire.clientResponse.length_stream (by decide) _)
      have hall : (onSocket s.cidTcpSockets socket rs).filter
          (·.clientId = c) = rs.filter (·.clientId = c) := by
        unfold onSocket
        rw [List.filter_filter]
        refine List.filter_congr fun r _ => ?_
        by_cases hr : r.clientId = c
        · simp [hr, hsocket]
        · simp [hr]
      rw [hincoming, hcount, List.take_length, hall]
    · rw [hkept]
      exact Framing.length_remainder_lt (by decide) _

-- ---------------------------------------------------------- two requests

/-- `Served`, computed: the sort has nothing to do. -/
def serve (s : OrderServer) : Event → Option OrderServer
  | .receive socket rxTime chunk =>
      returned ((receive socket rxTime chunk).run s)
  | .recvFinished =>
      let f := s.fifoSequencer
      if (f.pending.map (·.recvTime)).Pairwise (· ≤ ·) then
        some { s with fifoSequencer := { f with
          pending := []
          published := f.published ++ f.pending.map (·.request) } }
      else none

theorem served_of_serve {s s' : OrderServer} {e : Event}
    (h : serve s e = some s') : Served s e s' := by
  cases e with
  | receive socket rxTime chunk => exact returned_eq_some h
  | recvFinished =>
      obtain ⟨hsorted, hs⟩ := Option.ite_none_right_eq_some.1 h
      cases hs
      exact ⟨_, ⟨_, List.Perm.refl _, hsorted, rfl⟩, rfl⟩

/-- A run of `serve`, and what holds at its end. -/
theorem exists_served (es : List Event) (I : OrderServer → Prop)
    [DecidablePred I]
    (h : (es.foldlM serve new).any (fun s => decide (I s)) = true) :
    ∃ s, Run Served new es s ∧ I s := by
  obtain ⟨s, hrun, hend⟩ := Run.exists_of_any serve new es I h
  exact ⟨s, hrun.mono (I := fun _ => True)
    (fun _ _ _ _ hserve => served_of_serve hserve) fun _ _ _ => trivial, hend⟩

/-- An order and its cancellation. -/
def twoRequests : List MatchingEngineClientRequest :=
  [⟨.new, 3, 1, 5, .buy, 100, 10⟩, ⟨.cancel, 3, 1, 5, .buy, 100, 10⟩]

theorem typed_twoRequests : ∀ r ∈ twoRequests,
    Wire.RequestTyped r ∧ r.clientId = 3 := by
  decide

/-- The bytes of the two. -/
def twoSent : List UInt8 :=
  ((OrderGateway.numbered 1 twoRequests).map
    Wire.clientRequest.encode).flatten

/-- Both messages are cut, and another client's comes between. -/
def cutEvents : List Event :=
  [.receive 7 1 (twoSent.take 20),
    .receive 9 1 (Wire.clientRequest.encode
      ⟨1, ⟨.new, 4, 1, 6, .sell, 100, 10⟩⟩),
    .receive 7 2 ((twoSent.drop 20).take 40), .receive 7 3 (twoSent.drop 60),
    .recvFinished]

theorem bytesOn_cutEvents : bytesOn 7 cutEvents = twoSent := by
  decide +kernel

theorem socket_of_cutEvents : ∀ m ∈ mine 3 (heard cutEvents), m.1 = 7 := by
  decide +kernel

/-- What the two are answered with, and an answer of another client. -/
def twoResponses : List MatchingEngineClientResponse :=
  [⟨.accepted, 3, 1, 5, 1, .buy, 100, 0, 10⟩,
    ⟨.accepted, 4, 1, 6, 2, .sell, 100, 0, 10⟩,
    ⟨.cancelled, 3, 1, 5, 1, .buy, 100, quantityInvalid, 10⟩]

theorem typed_twoResponses : ∀ r ∈ twoResponses, Wire.ResponseTyped r
    ∧ r.clientId.toNat < matchingEngineMaxNumClients := by
  decide

/-- Two requests in three chunks, and the answers to them in two, with
another client on another socket. -/
theorem round_trip_cut : ∃ g s s' g',
    (forM twoRequests OrderGateway.sendRequest).run (.new 3) = .ok () g
      ∧ Run Served new cutEvents s
      ∧ s.fifoSequencer.added.filter (·.clientId = 3) = twoRequests
      ∧ (forM twoResponses respond).run s = .ok () s'
      ∧ (forM [(s'.sendBuffer 7).take 60, (s'.sendBuffer 7).drop 60]
          OrderGateway.receive).run (.new 3) = .ok () g'
      ∧ g'.incomingResponse = twoResponses.filter (·.clientId = 3) := by
  obtain ⟨hrequests, hresponses⟩ := round_trip
  obtain ⟨g, hg, hall⟩ := hrequests 3 twoRequests (by decide) typed_twoRequests
  have hsent : g.sendBuffer = twoSent := by
    rw [← (EStateM.Result.ok.inj hg).2]
    decide +kernel
  obtain ⟨s, hrun, h3, h4, hnumber, hempty⟩ := exists_served cutEvents
    (fun s => s.cidTcpSockets 3 = some 7 ∧ s.cidTcpSockets 4 = some 9
      ∧ s.cidNextOutgoingSequenceNumber 3 = 1 ∧ s.sendBuffer 7 = [])
    (by decide +kernel)
  obtain ⟨-, hwhole, -, -, -⟩ := hall 7 cutEvents s
    (by rw [hsent, bytesOn_cutEvents]) socket_of_cutEvents hrun
  have hsockets : ∀ r ∈ twoResponses, s.cidTcpSockets r.clientId ≠ none := by
    intro r hr
    simp only [twoResponses, List.mem_cons, List.not_mem_nil, or_false] at hr
    rcases hr with rfl | rfl | rfl
    · rw [h3]
      nofun
    · rw [h4]
      nofun
    · rw [h3]
      nofun
  obtain ⟨s', hs', hback⟩ := hresponses s twoResponses fun r hr =>
    ⟨(typed_twoResponses r hr).1, (typed_twoResponses r hr).2, hsockets r hr⟩
  have hchunks : [(s'.sendBuffer 7).take 60, (s'.sendBuffer 7).drop 60].flatten
      = s'.sendBuffer 7 := by
    rw [List.flatten_cons, List.flatten_singleton, List.take_append_drop]
  obtain ⟨g', hg', -, hincoming, -⟩ := hback 3 7 h3 hnumber hempty
    [(s'.sendBuffer 7).take 60, (s'.sendBuffer 7).drop 60]
    (by rw [hchunks])
  exact ⟨g, s, s', g', hg, hrun, hwhole (by rw [bytesOn_cutEvents, hsent]),
    hs', hg', hincoming hchunks⟩

end OrderServer

end ElectronicTrading
