/-
What the bytes between a client and the order server carry.

RoundTrip.lean follows a list of requests, and a list of responses, from one
end to the other. Here both directions go on at once, a step at a time: the
gateway writes one more request, the server answers one more response, some
bytes arrive. Each lemma says what one step adds to what is carried, and that
it leaves the other direction alone.
-/
import ElectronicTrading.Trading.Proofs.Requested

namespace ElectronicTrading

open Exec Runs Sequenced

-- ==================================================== the gateway's two ends

namespace OrderGateway

variable {c : ClientID} {s s' : OrderGateway}

/-- The gateway writes a request. -/
theorem run_sendRequest (s : OrderGateway) (r : MatchingEngineClientRequest) :
    (sendRequest r).run s = .ok () { s with
      nextOutgoingSequenceNumber := s.nextOutgoingSequenceNumber + 1
      sendBuffer := s.sendBuffer
        ++ Wire.clientRequest.encode ⟨s.nextOutgoingSequenceNumber, r⟩ } := by
  have hparts : s.sendBuffer
      ++ Wire.clientRequest.encode ⟨s.nextOutgoingSequenceNumber, r⟩
      = s.sendBuffer
        ++ Packed.Codec.uint64.encode s.nextOutgoingSequenceNumber
        ++ Wire.request.encode r := (List.append_assoc _ _ _).symm
  rw [hparts]
  rfl

theorem numbered_snoc (rs : List MatchingEngineClientRequest)
    (r : MatchingEngineClientRequest) (next : UInt64) :
    numbered next (rs ++ [r])
      = numbered next rs ++ [⟨next + UInt64.ofNat rs.length, r⟩] := by
  induction rs generalizing next with
  | nil =>
      have hzero : next + UInt64.ofNat 0 = next := UInt64.add_zero next
      rw [List.length_nil, hzero]
      rfl
  | cons q rs ih =>
      rw [List.cons_append, numbered, ih, add_ofNat_succ]
      rfl

/-- Reading a response is no concern of the writing end. -/
theorem writing_of_onResponse {m : OrderManagementClientResponse}
    (h : (onResponse m).run s = .ok () s') :
    s'.sendBuffer = s.sendBuffer
      ∧ s'.nextOutgoingSequenceNumber = s.nextOutgoingSequenceNumber := by
  by_cases hm : m.meClientResponse.clientId = s.clientId
  · by_cases hnumber : m.sequenceNumber = s.nextExpectedSequenceNumber
    · simp [onResponse, hm, hnumber] at h
      rw [← h]
      exact ⟨rfl, rfl⟩
    · simp [onResponse, hm, hnumber] at h
      rw [← h]
      exact ⟨rfl, rfl⟩
  · simp [onResponse, hm] at h
    rw [← h]
    exact ⟨rfl, rfl⟩

theorem writing_of_loop (ms : List OrderManagementClientResponse) :
    ∀ {s s' : OrderGateway}, (forM ms onResponse).run s = .ok () s' →
      s'.sendBuffer = s.sendBuffer
        ∧ s'.nextOutgoingSequenceNumber = s.nextOutgoingSequenceNumber := by
  induction ms with
  | nil =>
      intro s s' h
      cases h
      exact ⟨rfl, rfl⟩
  | cons m ms ih =>
      intro s s' h
      rw [List.forM_cons] at h
      obtain ⟨_, t, hfirst, hrest⟩ := run_bind_eq_ok h
      obtain ⟨hbuffer, hnext⟩ := writing_of_onResponse hfirst
      obtain ⟨hbuffer', hnext'⟩ := ih hrest
      exact ⟨hbuffer'.trans hbuffer, hnext'.trans hnext⟩

/-- Some bytes arrive at the gateway, which has read `bytes` before. -/
theorem listening_receive {bytes chunk : List UInt8}
    (h : Listening c (responsesIn bytes) s)
    (hkept : s.recvBuffer
      = Framing.remainder Wire.clientResponse.size bytes)
    (hrun : (receive chunk).run s = .ok () s') :
    (Listening c (responsesIn (bytes ++ chunk)) s'
      ∧ s'.recvBuffer
        = Framing.remainder Wire.clientResponse.size (bytes ++ chunk))
    ∧ s'.sendBuffer = s.sendBuffer
      ∧ s'.nextOutgoingSequenceNumber = s.nextOutgoingSequenceNumber := by
  obtain ⟨t, ht⟩ : ∃ t, t = { s with recvBuffer := s.recvBuffer ++ chunk } :=
    ⟨_, rfl⟩
  have hlistening : Listening c (responsesIn bytes) t := by
    rw [ht]
    exact ⟨h.client, h.incoming, h.next⟩
  have hbuffer : t.recvBuffer
      = Framing.remainder Wire.clientResponse.size bytes ++ chunk := by
    rw [ht, ← hkept]
  obtain ⟨u, hloop, hu, -⟩ :=
    listening_loop (responsesIn t.recvBuffer) hlistening
  have hall : responsesIn (bytes ++ chunk)
      = responsesIn bytes ++ responsesIn t.recvBuffer := by
    unfold responsesIn
    rw [Framing.frames_append, List.map_append, hbuffer]
  have hcall : recvCallback.run t = .ok () s' := by
    rw [ht]
    exact hrun
  rw [run_recvCallback, run_bind_ok hloop] at hcall
  have hs' := (EStateM.Result.ok.inj hcall).2
  obtain ⟨hsend, hnext⟩ := writing_of_loop _ hloop
  rw [← hs', hall, Framing.remainder_append, ← hbuffer]
  refine ⟨⟨⟨hu.client, hu.incoming, hu.next⟩, rfl⟩, ?_, ?_⟩
  · rw [ht] at hsend
    exact hsend
  · rw [ht] at hnext
    exact hnext

end OrderGateway

-- ===================================================== the server's two ends

namespace OrderServer

open FIFOSequencer

variable {c : ClientID} {socket : SocketID} {s s' : OrderServer}
  {es : List Event}

/-- Reading requests is no concern of the writing end. -/
theorem writing_of_receive {t : SocketID} {rxTime : Nanos}
    {chunk : List UInt8} (h : (receive t rxTime chunk).run s = .ok () s') :
    s'.sendBuffer = s.sendBuffer
      ∧ s'.cidNextOutgoingSequenceNumber
        = s.cidNextOutgoingSequenceNumber := by
  refine keeps_of_receive (I := fun u => u.sendBuffer = s.sendBuffer
    ∧ u.cidNextOutgoingSequenceNumber = s.cidNextOutgoingSequenceNumber)
    ?_ ?_ ⟨rfl, rfl⟩ h
  · intro u u' d m hu hrun
    have hin : (clientOf m).toNat < matchingEngineMaxNumClients :=
      client_of_onRequest hrun
    rw [run_onRequest hin] at hrun
    split at hrun
    · split at hrun
      · cases hrun
        exact hu
      · cases hrun
    · cases hrun
      exact hu
  · intro u bytes hu
    exact hu

/-- What is in order of a stream of numbered requests. -/
theorem inOrder_of_stream {rs : List MatchingEngineClientRequest}
    (htyped : ∀ r ∈ rs, Wire.RequestTyped r ∧ r.clientId = c)
    (hstream : bytesOn socket es <+: ((OrderGateway.numbered 1 rs).map
      Wire.clientRequest.encode).flatten)
    (honly : ∀ m ∈ mine c (heard es), m.1 = socket) :
    inOrder (line c (heard es)) = (OrderGateway.numbered 1 rs).take
      ((bytesOn socket es).length / Wire.clientRequest.size) := by
  have hof : ∀ m ∈ OrderGateway.numbered 1 rs, m.meClientRequest ∈ rs := by
    intro m hm
    have hbody := List.mem_map_of_mem
      (f := OrderManagementClientRequest.meClientRequest) hm
    rwa [OrderGateway.map_numbered] at hbody
  have hmessages := messagesIn_part socket
    (fun m hm => (htyped _ (hof m hm)).1) hstream
  have hmine : mine c (heard es) = messagesIn socket (bytesOn socket es) := by
    have hon : mine c (heard es) = (mine c (heard es)).filter (·.1 = socket) :=
      (List.filter_eq_self.2 fun m hm => decide_eq_true (honly m hm)).symm
    rw [hon]
    unfold mine
    rw [List.filter_comm, (reading_on socket es).2]
    exact List.filter_eq_self.2 fun m hm =>
      decide_eq_true (client_of_heard htyped hstream hm)
  have hline : line c (heard es) = (OrderGateway.numbered 1 rs).take
      ((bytesOn socket es).length / Wire.clientRequest.size) := by
    rw [line_of_socket honly, hmine, hmessages, List.map_map]
    exact List.map_id _
  rw [hline]
  exact ((OrderGateway.numbered_numbered 1 rs).part
    (List.take_prefix _ _)).inSequence_eq

/-- What the server has taken from the client's stream. -/
theorem added_of_stream {rs : List MatchingEngineClientRequest}
    (hinv : Served.Inv es s)
    (htyped : ∀ r ∈ rs, Wire.RequestTyped r ∧ r.clientId = c)
    (hstream : bytesOn socket es <+: ((OrderGateway.numbered 1 rs).map
      Wire.clientRequest.encode).flatten)
    (honly : ∀ m ∈ mine c (heard es), m.1 = socket) :
    s.fifoSequencer.added.filter (·.clientId = c) <+: rs := by
  rw [(hinv.sessions c).taken, inOrder_of_stream htyped hstream honly,
    List.map_take, OrderGateway.map_numbered]
  exact List.take_prefix _ _

/-- A client that is heard on one socket is bound to it, if at all. -/
theorem socket_of_only (hinv : Served.Inv es s)
    (honly : ∀ m ∈ mine c (heard es), m.1 = socket) {b : SocketID}
    (h : s.cidTcpSockets c = some b) : b = socket := by
  rw [(hinv.sessions c).socket] at h
  obtain ⟨m, hm, rfl⟩ := Option.map_eq_some_iff.1 h
  exact honly m (List.mem_of_mem_head? hm)

/-- And its socket is no other client's. -/
theorem client_of_socket {rs : List MatchingEngineClientRequest}
    (hinv : Served.Inv es s)
    (htyped : ∀ r ∈ rs, Wire.RequestTyped r ∧ r.clientId = c)
    (hstream : bytesOn socket es <+: ((OrderGateway.numbered 1 rs).map
      Wire.clientRequest.encode).flatten) {d : ClientID}
    (h : s.cidTcpSockets d = some socket) : d = c := by
  rw [(hinv.sessions d).socket] at h
  obtain ⟨m, hm, hsocket⟩ := Option.map_eq_some_iff.1 h
  obtain ⟨hheard, hclient⟩ := List.mem_filter.1 (List.mem_of_mem_head? hm)
  have hon : m ∈ (heard es).filter (·.1 = socket) :=
    List.mem_filter.2 ⟨hheard, decide_eq_true hsocket⟩
  rw [(reading_on socket es).2] at hon
  rw [← of_decide_eq_true hclient]
  exact client_of_heard htyped hstream hon

-- ---------------------------------------------------------------- answering

/-- The server after a response on socket `b`. -/
def afterResponse (s : OrderServer) (b : SocketID)
    (r : MatchingEngineClientResponse) : OrderServer :=
  { s with
    sendBuffer := fun d => if d = b then s.sendBuffer d
        ++ Wire.clientResponse.encode
          ⟨s.cidNextOutgoingSequenceNumber r.clientId, r⟩
      else s.sendBuffer d
    cidNextOutgoingSequenceNumber := fun d => if d = r.clientId
      then s.cidNextOutgoingSequenceNumber d + 1
      else s.cidNextOutgoingSequenceNumber d }

theorem respond_cases {r : MatchingEngineClientResponse}
    (h : (respond r).run s = .ok () s') :
    ∃ b, s.cidTcpSockets r.clientId = some b ∧ s' = s.afterResponse b r := by
  obtain ⟨n, hn⟩ : ∃ n, n = s.cidNextOutgoingSequenceNumber r.clientId :=
    ⟨_, rfl⟩
  unfold respond at h
  obtain ⟨_, t, hassert, hrun⟩ := run_bind_eq_ok h
  rw [run_assert] at hassert
  split at hassert
  · cases hassert
    simp only [EStateM.run_bind, EStateM.run_get] at hrun
    cases hb : s.cidTcpSockets r.clientId with
    | none =>
        rw [hb] at hrun
        cases hrun
    | some b =>
        rw [hb] at hrun
        refine ⟨b, rfl, ?_⟩
        have hparts : (fun d =>
            if d = b then
              (if d = b then s.sendBuffer d ++ Packed.Codec.uint64.encode
                  (s.cidNextOutgoingSequenceNumber r.clientId)
                else s.sendBuffer d) ++ Wire.response.encode r
            else if d = b then s.sendBuffer d ++ Packed.Codec.uint64.encode
                (s.cidNextOutgoingSequenceNumber r.clientId)
              else s.sendBuffer d)
            = (s.afterResponse b r).sendBuffer := by
          funext d
          unfold afterResponse
          dsimp only
          by_cases hd : d = b
          · rw [if_pos hd, if_pos hd, if_pos hd]
            exact List.append_assoc _ _ _
          · rw [if_neg hd, if_neg hd, if_neg hd]
        have hs' := (EStateM.Result.ok.inj hrun).2
        rw [← hs']
        have heta : s.afterResponse b r = { s with
            sendBuffer := (s.afterResponse b r).sendBuffer
            cidNextOutgoingSequenceNumber :=
              (s.afterResponse b r).cidNextOutgoingSequenceNumber } := rfl
        rw [heta, ← hparts]
        rfl
  · cases hassert

/-- Answering is no concern of the reading end. -/
theorem Served.Inv.afterResponse (h : Served.Inv es s) (b : SocketID)
    (r : MatchingEngineClientResponse) :
    Served.Inv es (s.afterResponse b r) where
  kept := h.kept
  sessions := fun d => (h.sessions d).of_eq rfl rfl rfl

/-- One more message to a client. -/
theorem outgoing_snoc {rs : List MatchingEngineClientResponse}
    {r : MatchingEngineClientResponse} (hrs : ∀ q ∈ rs, q.clientId = c)
    (hr : r.clientId = c) (next : ClientID → UInt64) :
    outgoing next (rs ++ [r])
      = outgoing next rs ++ [⟨next c + UInt64.ofNat rs.length, r⟩] := by
  induction rs generalizing next with
  | nil =>
      have hzero : next c + UInt64.ofNat 0 = next c := UInt64.add_zero _
      rw [List.length_nil, hzero, ← hr]
      rfl
  | cons q rs ih =>
      have hq := hrs q List.mem_cons_self
      rw [List.cons_append, outgoing, outgoing,
        ih fun q' hq' => hrs q' (List.mem_cons_of_mem q hq')]
      rw [if_pos hq.symm, add_ofNat_succ]
      rfl

/-- What the client's gateway takes from a stream of its responses. -/
theorem taken_of_stream {rs : List MatchingEngineClientResponse}
    (hrs : ∀ r ∈ rs, r.clientId = c ∧ Wire.ResponseTyped r)
    {bytes : List UInt8}
    (hstream : bytes <+: ((outgoing (fun _ => 1) rs).map
      Wire.clientResponse.encode).flatten) :
    (OrderGateway.taken c (OrderGateway.responsesIn bytes)).map
        (·.meClientResponse)
      = rs.take (bytes.length / Wire.clientResponse.size) := by
  obtain ⟨ms, hms⟩ : ∃ ms, ms = outgoing (fun _ => 1) rs := ⟨_, rfl⟩
  have hbodies : ms.map (·.meClientResponse) = rs := by
    rw [hms]
    exact map_outgoing rs _
  have hof : ∀ m ∈ ms, m.meClientResponse ∈ rs := fun m hm =>
    hbodies ▸ List.mem_map_of_mem hm
  have hmine : toClient c ms = ms :=
    List.filter_eq_self.2 fun m hm => decide_eq_true (hrs _ (hof m hm)).1
  have hnumbered : Numbered (·.sequenceNumber) 1 ms := by
    have hall := numbered_outgoing c rs fun _ => 1
    rw [← hms, hmine] at hall
    exact hall
  rw [← hms] at hstream
  have hdecode := Wire.clientResponse.decode_frames (by decide)
    (fun m hm => Wire.valid_clientResponse (hrs _ (hof m hm)).2) hstream
  obtain ⟨k, hk⟩ : ∃ k, k = bytes.length / Wire.clientResponse.size :=
    ⟨_, rfl⟩
  have hread : OrderGateway.responsesIn bytes = ms.take k := by
    unfold OrderGateway.responsesIn
    rw [hdecode, hk]
  have htaken : OrderGateway.taken c (ms.take k) = ms.take k := by
    have hpart : toClient c (ms.take k) = ms.take k :=
      List.filter_eq_self.2 fun m hm =>
        decide_eq_true (hrs _ (hof m (List.mem_of_mem_take hm))).1
    unfold OrderGateway.taken
    rw [hpart]
    exact (hnumbered.part (List.take_prefix k ms)).inSequence_eq
  rw [hread, htaken, List.map_take, hbodies, hk]

end OrderServer

end ElectronicTrading
