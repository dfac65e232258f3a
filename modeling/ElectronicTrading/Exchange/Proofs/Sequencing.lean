/-
One pass over the sockets: what is read between two calls of
`sequenceAndPublish`.

# Order

`std::sort` promises a permutation in the order of the receive times and
nothing about equal ones, and every request decoded from one chunk has
one receive time. First come is first served in all outcomes the sort
may have exactly if requests of one receive time are one request
(`firstCome_iff`).

# Room

A pass adds every request its chunks hold to the 1024 places of
`pending_client_requests` before any is taken out. If the requests are
numbered as the server expects (`InTurn`), the pass stops the exchange
exactly if there are more of them than free places
(`tooManyRequests_iff`).
-/
import ElectronicTrading.Common.TCPSocket
import ElectronicTrading.Exchange.Proofs.Sessions
import ElectronicTrading.Lib.Stable

namespace ElectronicTrading

open Exec Sorting

-- ==================================================================== order

namespace FIFOSequencer

/-- `addClientRequest`, called on a batch. -/
def addClientRequests (batch : List RecvTimeClientRequest) :
    Prog FIFOSequencer Unit :=
  forM batch fun r => addClientRequest r.recvTime r.request

/-- The batch, in the order of the receive times, and in that in which it
was added where they are equal. -/
structure FirstCome (batch : List RecvTimeClientRequest)
    (written : List MatchingEngineClientRequest) : Prop where
  order : ∃ sorted : List RecvTimeClientRequest, sorted.Perm batch
    ∧ (sorted.map (·.recvTime)).Pairwise (· ≤ ·)
    ∧ (∀ t, sorted.filter (·.recvTime = t) = batch.filter (·.recvTime = t))
    ∧ written = sorted.map (·.request)

theorem pending_addClientRequests {batch : List RecvTimeClientRequest}
    {s s' : FIFOSequencer} (h : (addClientRequests batch).run s = .ok () s') :
    s'.pending = s.pending ++ batch ∧ s'.published = s.published := by
  induction batch generalizing s with
  | nil =>
    cases h
    exact ⟨(List.append_nil _).symm, rfl⟩
  | cons r batch ih =>
    unfold addClientRequests at h ih
    rw [List.forM_cons] at h
    obtain ⟨_, t, hadd, hrest⟩ := run_bind_eq_ok h
    obtain ⟨hpending, hpublished⟩ := ih hrest
    have ht : t.pending = s.pending ++ [r] ∧ t.published = s.published := by
      simp only [addClientRequest, EStateM.run_bind, EStateM.run_get,
        run_assert] at hadd
      by_cases hroom : s.pending.length < matchingEngineMaxPendingRequests
      · simp only [hroom, decide_true, if_true, EStateM.run_modify] at hadd
        obtain ⟨-, rfl⟩ := EStateM.Result.ok.inj hadd
        exact ⟨rfl, rfl⟩
      · simp [hroom] at hadd
    rw [hpending, hpublished, ht.1, ht.2, List.append_assoc]
    exact ⟨rfl, rfl⟩

/-- Whatever `sort` does with equal receive times, the batch is served in
the order in which it came, exactly if requests of one receive time are
one request. -/
theorem firstCome_iff (batch : List RecvTimeClientRequest)
    {s s' : FIFOSequencer} (hempty : s.pending = [])
    (hadd : (addClientRequests batch).run s = .ok () s') :
    (∀ s'', SequencedAndPublished s' s'' → ∃ written,
        s''.published = s.published ++ written ∧ FirstCome batch written)
      ↔ ∀ r ∈ batch, ∀ r' ∈ batch, r.recvTime = r'.recvTime →
          r.request = r'.request := by
  obtain ⟨hpending, hpublished⟩ := pending_addClientRequests hadd
  rw [hempty, List.nil_append] at hpending
  have hiff := all_stable_iff RecvTimeClientRequest.recvTime
    RecvTimeClientRequest.request batch
  have hkeys : ∀ m : List RecvTimeClientRequest,
      (m.map (·.recvTime)).Pairwise (· ≤ ·)
        ↔ Ordered RecvTimeClientRequest.recvTime m := fun m =>
    List.pairwise_map
  rw [← hiff]
  constructor
  · intro hall m hperm hordered
    obtain ⟨written, hwritten, ⟨sorted, hsorted, htimes, hties, rfl⟩⟩ :=
      hall _ ⟨m, hpending ▸ hperm, (hkeys m).2 hordered, rfl⟩
    refine ⟨sorted, ⟨hsorted, (hkeys sorted).1 htimes, hties⟩, ?_⟩
    rw [hpublished] at hwritten
    exact List.append_cancel_left hwritten
  · intro hall s'' h
    obtain ⟨m, hperm, htimes, rfl⟩ := h
    rw [hpending] at hperm
    obtain ⟨sorted, hstable, heq⟩ := hall m hperm ((hkeys m).1 htimes)
    refine ⟨m.map (·.request), by rw [hpublished], ?_⟩
    exact ⟨sorted, hstable.perm, (hkeys sorted).2 hstable.ordered,
      hstable.ties, heq⟩

/-- A client's NEW and its CANCEL, from one chunk. -/
def newThenCancel : List RecvTimeClientRequest :=
  [⟨5, ⟨.new, 1, 0, 7, .buy, 100, 10⟩⟩,
    ⟨5, ⟨.cancel, 1, 0, 7, .buy, 100, 10⟩⟩]

theorem firstCome_iff_newThenCancel :
    (∀ s'', SequencedAndPublished
        { new with
          pending := newThenCancel
          added := newThenCancel.map (·.request) } s'' → ∃ written,
        s''.published = new.published ++ written
          ∧ FirstCome newThenCancel written)
      ↔ ∀ r ∈ newThenCancel, ∀ r' ∈ newThenCancel,
          r.recvTime = r'.recvTime → r.request = r'.request :=
  firstCome_iff newThenCancel rfl rfl

/-- The CANCEL may be served first. -/
theorem not_firstCome_newThenCancel : ∃ s s' : FIFOSequencer,
    (addClientRequests newThenCancel).run new = .ok () s
      ∧ s.SequencedAndPublished s'
      ∧ s'.published = newThenCancel.reverse.map (·.request)
      ∧ ¬ FirstCome newThenCancel s'.published := by
  refine ⟨_, _, rfl, ⟨newThenCancel.reverse, List.reverse_perm _, ?_, rfl⟩,
    rfl, ?_⟩
  · show ([5, 5] : List Int).Pairwise (· ≤ ·)
    decide
  · intro h
    obtain ⟨sorted, hperm, -, hties, hwritten⟩ := h
    have hfives : ∀ r ∈ newThenCancel, decide (r.recvTime = 5) = true := by
      decide
    have hall : sorted = newThenCancel := by
      have hfive := hties 5
      rw [List.filter_eq_self.2 ?_, List.filter_eq_self.2 ?_] at hfive
      · exact hfive
      · exact hfives
      · exact fun r hr => hfives r (hperm.mem_iff.1 hr)
    rw [hall] at hwritten
    revert hwritten
    decide

end FIFOSequencer

-- ===================================================================== room

namespace OrderServer

/-- What one `recvmsg` read. -/
structure Chunk where
  socket : SocketID
  rxTime : Nanos
  bytes : List UInt8

/-- The first loop of `TCPServer::sendAndRecv`: every socket that is in
`receive_sockets` and has bytes. -/
def receiveAll (pass : List Chunk) : Member Unit :=
  forM pass fun c => receive c.socket c.rxTime c.bytes

/-- The messages that the server decodes in a pass, given what its
sockets have kept. -/
def messagesOf (kept : SocketID → List UInt8) : List Chunk →
    List (SocketID × OrderManagementClientRequest)
  | [] => []
  | c :: pass =>
      messagesIn c.socket (kept c.socket ++ c.bytes)
        ++ messagesOf (fun t =>
            if t = c.socket then Framing.remainder Wire.clientRequest.size
              (kept c.socket ++ c.bytes)
            else kept t) pass

/-- Every message is of a client the arrays have, comes on its client's
socket and has its client's next number. -/
def InTurn (s : OrderServer) :
    List (SocketID × OrderManagementClientRequest) → Prop
  | [] => True
  | m :: ms =>
      (clientOf m.2).toNat < matchingEngineMaxNumClients
        ∧ s.Accepts m.1 m.2
        ∧ InTurn ((s.bound m.1 (clientOf m.2)).counted (clientOf m.2)) ms

theorem InTurn.congr {ms : List (SocketID × OrderManagementClientRequest)}
    {s t : OrderServer} (h : s.InTurn ms)
    (hsockets : t.cidTcpSockets = s.cidTcpSockets)
    (hnumbers : t.cidNextExpectedSequenceNumber
      = s.cidNextExpectedSequenceNumber) : t.InTurn ms := by
  induction ms generalizing s t with
  | nil => trivial
  | cons m ms ih =>
    obtain ⟨hc, haccepts, hrest⟩ := h
    refine ⟨hc, ?_, ih hrest ?_ ?_⟩
    · unfold Accepts at haccepts ⊢
      rw [hsockets, hnumbers]
      exact haccepts
    · simp only [counted, bound, hsockets]
    · simp only [counted, bound, hnumbers]

/-- How a program of the pass ends that adds `n` requests, `ms` being what
comes after them. -/
def Ends (s : OrderServer) (n : Nat)
    (ms : List (SocketID × OrderManagementClientRequest))
    (result : EStateM.Result Fault OrderServer Unit) : Prop :=
  (∃ t, result = .ok () t ∧ t.InTurn ms
      ∧ t.fifoSequencer.pending.length = s.fifoSequencer.pending.length + n
      ∧ s.fifoSequencer.pending.length + n ≤ matchingEngineMaxPendingRequests)
    ∨ (∃ t, result = .error .tooManyRequests t
      ∧ matchingEngineMaxPendingRequests
        < s.fifoSequencer.pending.length + n)

theorem loop_inTurn (rxTime : Nanos)
    (ms later : List (SocketID × OrderManagementClientRequest)) :
    ∀ {s : OrderServer}, s.InTurn (ms ++ later) →
      s.fifoSequencer.pending.length ≤ matchingEngineMaxPendingRequests →
      s.Ends ms.length later
        ((forM ms fun m => onRequest m.1 rxTime m.2).run s) := by
  induction ms with
  | nil =>
    intro s h hle
    exact .inl ⟨s, rfl, h, rfl, hle⟩
  | cons m ms ih =>
    rintro s ⟨hc, haccepts, hrest⟩ hle
    have hone : (onRequest m.1 rxTime m.2).run s
        = if s.HasRoom then .ok () (((s.bound m.1 (clientOf m.2)).counted
            (clientOf m.2)).queued rxTime m.2.meClientRequest)
          else .error .tooManyRequests
            ((s.bound m.1 (clientOf m.2)).counted (clientOf m.2)) := by
      rw [run_onRequest hc, if_pos haccepts]
    rw [List.forM_cons, List.length_cons]
    by_cases hroom : s.HasRoom
    · rw [if_pos hroom] at hone
      rw [run_bind_ok hone]
      obtain ⟨t, ht⟩ : ∃ t, t = ((s.bound m.1 (clientOf m.2)).counted
        (clientOf m.2)).queued rxTime m.2.meClientRequest := ⟨_, rfl⟩
      have hlen : t.fifoSequencer.pending.length
          = s.fifoSequencer.pending.length + 1 := by
        rw [ht]
        exact List.length_append
      have hlt : s.fifoSequencer.pending.length
          < matchingEngineMaxPendingRequests := hroom
      rw [← ht]
      rcases ih (s := t) (hrest.congr (by rw [ht]; rfl) (by rw [ht]; rfl))
        (by omega) with ⟨u, hu, hturn, hpending, hfits⟩ | ⟨u, hu, hmore⟩
      · exact .inl ⟨u, hu, hturn, by omega, by omega⟩
      · exact .inr ⟨u, hu, by omega⟩
    · rw [if_neg hroom] at hone
      rw [run_bind_error hone]
      have hfull : ¬ s.fifoSequencer.pending.length
          < matchingEngineMaxPendingRequests := hroom
      exact .inr ⟨_, rfl, by omega⟩

/-- The callbacks keep no bytes but the ones left over. -/
theorem recvBuffer_loop (rxTime : Nanos)
    (ms : List (SocketID × OrderManagementClientRequest)) :
    ∀ {s t : OrderServer},
      (∀ m ∈ ms, (clientOf m.2).toNat < matchingEngineMaxNumClients) →
      (forM ms fun m => onRequest m.1 rxTime m.2).run s = .ok () t →
      t.recvBuffer = s.recvBuffer := by
  induction ms with
  | nil =>
    intro s t _ h
    cases h
    rfl
  | cons m ms ih =>
    intro s t hin h
    rw [List.forM_cons] at h
    obtain ⟨_, u, hu, hrest⟩ := run_bind_eq_ok h
    rw [ih (fun m' hm' => hin m' (List.mem_cons_of_mem m hm')) hrest]
    rw [run_onRequest (hin m List.mem_cons_self)] at hu
    split at hu
    · split at hu
      · obtain ⟨-, rfl⟩ := EStateM.Result.ok.inj hu
        rfl
      · cases hu
    · obtain ⟨-, rfl⟩ := EStateM.Result.ok.inj hu
      rfl

theorem InTurn.inRange {ms : List (SocketID × OrderManagementClientRequest)}
    {s : OrderServer} (h : s.InTurn ms) :
    ∀ m ∈ ms, (clientOf m.2).toNat < matchingEngineMaxNumClients := by
  induction ms generalizing s with
  | nil => exact fun m hm => absurd hm List.not_mem_nil
  | cons m ms ih =>
    intro m' hm'
    rcases List.mem_cons.1 hm' with rfl | hm'
    · exact h.1
    · exact ih h.2.2 m' hm'

/-- A pass ends as its messages say. -/
theorem receiveAll_inTurn (pass : List Chunk) :
    ∀ {s : OrderServer}, s.InTurn (messagesOf s.recvBuffer pass) →
      s.fifoSequencer.pending.length ≤ matchingEngineMaxPendingRequests →
      s.Ends (messagesOf s.recvBuffer pass).length []
        ((receiveAll pass).run s) := by
  induction pass with
  | nil =>
    intro s _ hle
    exact .inl ⟨s, rfl, trivial, rfl, hle⟩
  | cons c pass ih =>
    intro s h hle
    obtain ⟨ms, hms⟩ : ∃ ms, ms = messagesIn c.socket
      (s.recvBuffer c.socket ++ c.bytes) := ⟨_, rfl⟩
    obtain ⟨kept, hkept⟩ : ∃ kept : SocketID → List UInt8, kept = fun t =>
        if t = c.socket then Framing.remainder Wire.clientRequest.size
          (s.recvBuffer c.socket ++ c.bytes)
        else s.recvBuffer t := ⟨_, rfl⟩
    have hmessages : messagesOf s.recvBuffer (c :: pass)
        = ms ++ messagesOf kept pass := by
      rw [hms, hkept]
      rfl
    rw [hmessages] at h ⊢
    rw [List.length_append]
    obtain ⟨t, ht⟩ : ∃ t, t = s.setRecvBuffer c.socket
      (s.recvBuffer c.socket ++ c.bytes) := ⟨_, rfl⟩
    have hturn : t.InTurn (ms ++ messagesOf kept pass) := by
      rw [ht]
      exact h.congr rfl rfl
    have hpending : t.fifoSequencer.pending = s.fifoSequencer.pending := by
      rw [ht]
      rfl
    have hbuffer : t.recvBuffer c.socket
        = s.recvBuffer c.socket ++ c.bytes := by
      rw [ht]
      exact if_pos rfl
    have hcall : (receive c.socket c.rxTime c.bytes).run s
        = (do
            forM ms fun m => onRequest m.1 c.rxTime m.2
            modify (setRecvBuffer c.socket
              (Framing.remainder Wire.clientRequest.size
                (t.recvBuffer c.socket))) : Member Unit).run t := by
      have hrun : (receive c.socket c.rxTime c.bytes).run s
          = (recvCallBack c.socket c.rxTime).run t := by
        rw [ht]
        rfl
      rw [hrun, run_recvCallBack, hms, hbuffer]
    unfold receiveAll at ih ⊢
    rw [List.forM_cons]
    -- either this chunk's messages all find room, or the pass stops here
    rcases loop_inTurn c.rxTime ms _ hturn (by rw [hpending]; exact hle) with
      ⟨u, hu, hlater, hlen, hfits⟩ | ⟨u, hu, hmore⟩
    · obtain ⟨v, hv⟩ : ∃ v, v = u.setRecvBuffer c.socket
          (Framing.remainder Wire.clientRequest.size
            (t.recvBuffer c.socket)) := ⟨_, rfl⟩
      have hsent : (receive c.socket c.rxTime c.bytes).run s = .ok () v := by
        rw [hcall, run_bind_ok hu, hv]
        rfl
      have hrange : ∀ m ∈ ms, (clientOf m.2).toNat
          < matchingEngineMaxNumClients := fun m hm =>
        hturn.inRange m (List.mem_append_left _ hm)
      have hvbuffer : v.recvBuffer = kept := by
        funext x
        rw [hv, hkept]
        show (if x = c.socket then _ else u.recvBuffer x) = _
        rw [recvBuffer_loop c.rxTime ms hrange hu, hbuffer]
        by_cases hx : x = c.socket
        · simp only [hx, if_true]
        · simp only [hx, if_false]
          rw [ht]
          exact if_neg hx
      have hvpending : v.fifoSequencer = u.fifoSequencer := by
        rw [hv]
        rfl
      rw [hpending] at hlen hfits
      rw [run_bind_ok hsent]
      have hnext := ih (s := v)
        (by
          rw [hvbuffer]
          exact hlater.congr (by rw [hv]; rfl) (by rw [hv]; rfl))
        (by rw [hvpending]; omega)
      rw [hvbuffer] at hnext
      rcases hnext with ⟨w, hw, hwturn, hwlen, hwfits⟩ | ⟨w, hw, hwmore⟩
      · rw [hvpending] at hwlen hwfits
        exact .inl ⟨w, hw, hwturn, by omega, by omega⟩
      · rw [hvpending] at hwmore
        exact .inr ⟨w, hw, by omega⟩
    · have hsent : (receive c.socket c.rxTime c.bytes).run s
          = .error .tooManyRequests u := by
        rw [hcall, run_bind_error hu]
      rw [run_bind_error hsent]
      rw [hpending] at hmore
      exact .inr ⟨u, rfl, by omega⟩

/-- A pass over requests that are all in turn does not stop the exchange
exactly if the pending array has room for all of them. -/
theorem tooManyRequests_iff (pass : List Chunk) (s : OrderServer)
    (hturn : s.InTurn (messagesOf s.recvBuffer pass))
    (hpending : s.fifoSequencer.pending.length
      ≤ matchingEngineMaxPendingRequests) :
    (∀ t, (receiveAll pass).run s ≠ .error .tooManyRequests t)
      ↔ s.fifoSequencer.pending.length
          + (messagesOf s.recvBuffer pass).length
          ≤ matchingEngineMaxPendingRequests := by
  rcases receiveAll_inTurn pass hturn hpending with
    ⟨t, ht, -, -, hfits⟩ | ⟨t, ht, hmore⟩
  · rw [ht]
    exact ⟨fun _ => hfits, fun _ _ => nofun⟩
  · rw [ht]
    exact ⟨fun hnone => absurd rfl (hnone t), fun hle => by omega⟩

-- ----------------------------------------------------------- one big chunk

/-- The client 0's first `n` requests, in one chunk. -/
def burst (n : Nat) : List Chunk :=
  [⟨0, 0, (((List.range n).map floodMessage).map
    Wire.clientRequest.encode).flatten⟩]

theorem length_burst {n : Nat} {c : Chunk} (hc : c ∈ burst n) :
    c.bytes.length / 38 = n := by
  rw [List.mem_singleton.1 hc]
  have hdiv := Wire.clientRequest.length_stream (by decide)
    ((List.range n).map floodMessage)
  rw [List.length_map, List.length_range] at hdiv
  exact hdiv

theorem messagesOf_burst (n : Nat) :
    messagesOf new.recvBuffer (burst n)
      = (List.range n).map fun i => (0, floodMessage i) := by
  have htyped : ∀ m ∈ (List.range n).map floodMessage,
      Wire.RequestTyped m.meClientRequest := by
    intro m hm
    obtain ⟨i, -, rfl⟩ := List.mem_map.1 hm
    exact typed_buyMessage 0 _
  show messagesIn 0 ([] ++ _) ++ [] = _
  rw [List.append_nil, List.nil_append,
    messagesIn_part 0 htyped (List.prefix_refl _),
    Wire.clientRequest.length_stream (by decide), List.take_length,
    List.map_map]
  rfl

theorem inTurn_flood (n : Nat) : ∀ {s : OrderServer} {i : Nat},
    (s.cidTcpSockets 0).getD 0 = 0 →
    s.cidNextExpectedSequenceNumber 0 = UInt64.ofNat (i + 1) →
    s.InTurn ((List.range' i n).map fun i => (0, floodMessage i)) := by
  induction n with
  | zero => exact fun _ _ => trivial
  | succ n ih =>
    intro s i hsocket hnumber
    rw [List.range'_succ, List.map_cons]
    have hclient : (0 : ClientID).toNat < matchingEngineMaxNumClients := by
      decide
    refine ⟨hclient, ⟨hsocket, hnumber.symm⟩, ih ?_ ?_⟩
    · show (some ((s.cidTcpSockets 0).getD 0)).getD 0 = 0
      exact hsocket
    · show s.cidNextExpectedSequenceNumber 0 + 1 = _
      rw [hnumber, UInt64.ofNat_add (i + 1) 1]
      rfl

theorem inTurn_burst (n : Nat) :
    new.InTurn (messagesOf new.recvBuffer (burst n)) := by
  rw [messagesOf_burst, List.range_eq_range']
  exact inTurn_flood n rfl rfl

/-- The client's first 1024 requests do not. -/
theorem tooManyRequests_iff_burst :
    (messagesOf new.recvBuffer (burst 1024)).length = 1024
      ∧ ∀ t, (receiveAll (burst 1024)).run new ≠ .error .tooManyRequests t := by
  have hlen : (messagesOf new.recvBuffer (burst 1024)).length = 1024 := by
    rw [messagesOf_burst, List.length_map, List.length_range]
  refine ⟨hlen, (tooManyRequests_iff (burst 1024) new (inTurn_burst 1024)
    (Nat.zero_le _)).2 ?_⟩
  rw [hlen]
  decide

/-- The client's first 1025 requests stop the exchange, and they are far
from filling a receive buffer. -/
theorem tooManyRequests_burst :
    new.InTurn (messagesOf new.recvBuffer (burst 1025))
      ∧ (∀ c ∈ burst 1025, c.bytes.length ≤ tcpBufferSize)
      ∧ ∃ t, (receiveAll (burst 1025)).run new
          = .error .tooManyRequests t := by
  have hturn := inTurn_burst 1025
  refine ⟨hturn, ?_, ?_⟩
  · intro c hc
    have hdiv := length_burst hc
    have hsize : tcpBufferSize = 67108864 := rfl
    omega
  · have hlen : (messagesOf new.recvBuffer (burst 1025)).length = 1025 := by
      rw [messagesOf_burst, List.length_map, List.length_range]
    have hmax : matchingEngineMaxPendingRequests = 1024 := rfl
    have hnone : new.fifoSequencer.pending.length = 0 := rfl
    rcases receiveAll_inTurn (burst 1025) hturn (Nat.zero_le _) with
      ⟨t, -, -, -, hfits⟩ | ⟨t, ht, -⟩
    · omega
    · exact ⟨t, ht⟩

end OrderServer

end ElectronicTrading
