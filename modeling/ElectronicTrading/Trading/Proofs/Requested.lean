/-
From a client's gateway to the matching engine's queue.

`requests_taken` follows a client's requests to the sequencer. Here they go
on to what `sequenceAndPublish` writes for the engine. Nothing that was
handed to the sequencer is lost or published twice (`Accounted`), whatever
the receive times are. `std::sort` may exchange requests of one receive
time, and exchanges those whose times run backwards, so that a client's own
requests stay in order takes that in one batch their receive times strictly
increase in the order in which they were taken (`TimesApart`); the sort then
has no choice (`filter_eq_of_sort`), and the client's requests that were
published and those that are pending are what it sent, in the order in which
it sent them (`Kept`).
-/
import ElectronicTrading.Trading.Proofs.RoundTrip

namespace ElectronicTrading

open Exec Runs

namespace FIFOSequencer

-- ================================================================ the sequencer

/-- The client's requests among those pending. -/
def pendingOf (s : FIFOSequencer) (c : ClientID) :
    List RecvTimeClientRequest :=
  s.pending.filter (·.request.clientId = c)

/-- What was added is published or pending, each once. -/
def Accounted (s : FIFOSequencer) : Prop :=
  s.added.Perm (s.published ++ s.pending.map (·.request))

/-- The client's are so in the order in which they were added. -/
def Kept (c : ClientID) (s : FIFOSequencer) : Prop :=
  s.added.filter (·.clientId = c) = s.published.filter (·.clientId = c)
    ++ (s.pendingOf c).map (·.request)

/-- The receive times of the client's pending requests strictly increase in
the order in which they were taken. -/
def TimesApart (c : ClientID) (s : FIFOSequencer) : Prop :=
  ((s.pendingOf c).map (·.recvTime)).Pairwise (· < ·)

instance (c : ClientID) (s : FIFOSequencer) : Decidable (s.TimesApart c) :=
  inferInstanceAs (Decidable (List.Pairwise _ _))

/-- The sequencer with one more request. -/
def withRequest (s : FIFOSequencer) (rxTime : Nanos)
    (request : MatchingEngineClientRequest) : FIFOSequencer :=
  { s with
    pending := s.pending ++ [⟨rxTime, request⟩]
    added := s.added ++ [request] }

variable {s s' : FIFOSequencer} {c : ClientID} {rxTime : Nanos}
  {request : MatchingEngineClientRequest}

theorem Accounted.withRequest (h : s.Accounted) :
    (s.withRequest rxTime request).Accounted := by
  show (s.added ++ [request]).Perm
    (s.published ++ (s.pending ++ [(⟨rxTime, request⟩ :
      RecvTimeClientRequest)]).map (·.request))
  rw [List.map_append, ← List.append_assoc]
  exact h.append_right _

/-- A list's requests of the client, in the sequencer's two forms. -/
theorem map_filter_request (l : List RecvTimeClientRequest) :
    (l.map (·.request)).filter (·.clientId = c)
      = (l.filter (·.request.clientId = c)).map (·.request) :=
  List.filter_map

theorem Kept.withRequest (h : s.Kept c) :
    (s.withRequest rxTime request).Kept c := by
  show (s.added ++ [request]).filter (·.clientId = c)
    = s.published.filter (·.clientId = c)
      ++ ((s.pending ++ [(⟨rxTime, request⟩ :
        RecvTimeClientRequest)]).filter
          (·.request.clientId = c)).map (·.request)
  rw [← map_filter_request, List.map_append, List.filter_append,
    List.filter_append, map_filter_request, ← List.append_assoc, h]
  rfl

/-- A sort by receive time has no choice among receive times that strictly
increase. -/
theorem filter_eq_of_sort {l sorted : List RecvTimeClientRequest}
    {p : RecvTimeClientRequest → Bool} (hperm : sorted.Perm l)
    (hsorted : (sorted.map (·.recvTime)).Pairwise (· ≤ ·))
    (hapart : ((l.filter p).map (·.recvTime)).Pairwise (· < ·)) :
    sorted.filter p = l.filter p := by
  have hnodup : ((l.filter p).map (·.recvTime)).Nodup :=
    hapart.imp fun hlt => Int.ne_of_lt hlt
  rw [List.pairwise_map] at hsorted hapart
  have hfilter := hperm.filter p
  refine List.Perm.eq_of_pairwise (fun a b ha hb hle hle' => ?_)
    (hsorted.filter p) (hapart.imp fun hlt => Int.le_of_lt hlt) hfilter
  exact List.inj_on_of_nodup_map hnodup (hfilter.subset ha) hb
    (Int.le_antisymm hle hle')

theorem Accounted.published (h : s.Accounted)
    (hp : s.SequencedAndPublished s') : s'.Accounted := by
  obtain ⟨sorted, hperm, -, rfl⟩ := hp
  show s.added.Perm (s.published ++ sorted.map (·.request) ++ [])
  rw [List.append_nil]
  exact h.trans ((hperm.symm.map _).append_left _)

theorem Kept.published (h : s.Kept c) (hapart : s.TimesApart c)
    (hp : s.SequencedAndPublished s') : s'.Kept c := by
  obtain ⟨sorted, hperm, hsorted, rfl⟩ := hp
  show s.added.filter (·.clientId = c)
    = (s.published ++ sorted.map (·.request)).filter (·.clientId = c) ++ []
  rw [List.append_nil, List.filter_append, map_filter_request,
    filter_eq_of_sort hperm hsorted hapart]
  exact h

end FIFOSequencer

namespace OrderServer

open FIFOSequencer

-- =================================================================== the server

variable {s s' : OrderServer} {socket : SocketID} {rxTime : Nanos}

/-- A message of a client out of range stops the server. -/
theorem client_of_onRequest {m : OrderManagementClientRequest}
    (h : (onRequest socket rxTime m).run s = .ok () s') :
    (clientOf m).toNat < matchingEngineMaxNumClients := by
  by_contra hout
  have hout' : ¬ m.meClientRequest.clientId.toNat
    < matchingEngineMaxNumClients := hout
  simp [onRequest, hout'] at h

/-- What a message keeps, a chunk keeps, if the buffer does not matter. -/
theorem keeps_of_receive {I : OrderServer → Prop}
    (hrequest : ∀ t t' d m, I t →
      (onRequest d rxTime m).run t = .ok () t' → I t')
    (hbuffer : ∀ t bytes, I t → I (t.setRecvBuffer socket bytes))
    {chunk : List UInt8} (hs : I s)
    (h : (receive socket rxTime chunk).run s = .ok () s') : I s' := by
  have hloop : ∀ (ms : List (SocketID × OrderManagementClientRequest))
      {t t' : OrderServer}, I t →
      (forM ms fun m => onRequest m.1 rxTime m.2).run t = .ok () t' →
      I t' := by
    intro ms
    induction ms with
    | nil =>
        intro t t' ht hrun
        cases hrun
        exact ht
    | cons m ms ih =>
        intro t t' ht hrun
        rw [List.forM_cons] at hrun
        obtain ⟨_, u, hfirst, hrest⟩ := run_bind_eq_ok hrun
        exact ih (hrequest _ _ _ _ ht hfirst) hrest
  have hcall : (recvCallBack socket rxTime).run
      (s.setRecvBuffer socket (s.recvBuffer socket ++ chunk)) = .ok () s' := h
  rw [run_recvCallBack] at hcall
  obtain ⟨_, t, hrun, hmove⟩ := run_bind_eq_ok hcall
  cases hmove
  exact hbuffer t _ (hloop _ (hbuffer s _ hs) hrun)

/-- A message adds its request to the sequencer, or does nothing there. -/
theorem sequencer_of_onRequest {m : OrderManagementClientRequest}
    (h : (onRequest socket rxTime m).run s = .ok () s') :
    s'.fifoSequencer = s.fifoSequencer ∨ s'.fifoSequencer
      = s.fifoSequencer.withRequest rxTime m.meClientRequest := by
  rw [run_onRequest (client_of_onRequest h)] at h
  split at h
  · split at h
    · cases h
      exact Or.inr rfl
    · cases h
  · cases h
    exact Or.inl rfl

/-- What one more request keeps, a chunk keeps. -/
theorem sequencer_of_receive {I : FIFOSequencer → Prop}
    (hI : ∀ f rxTime request, I f → I (f.withRequest rxTime request))
    {chunk : List UInt8} (hs : I s.fifoSequencer)
    (h : (receive socket rxTime chunk).run s = .ok () s') :
    I s'.fifoSequencer := by
  refine keeps_of_receive (I := fun t => I t.fifoSequencer) ?_
    (fun _ _ ht => ht) hs h
  intro t t' d m ht hrun
  rcases sequencer_of_onRequest hrun with hu | hu
  · rw [hu]
    exact ht
  · rw [hu]
    exact hI _ _ _ ht

/-- An event after which a client's published requests are in order: at a
publication the receive times of its pending ones strictly increase. -/
def ServedApart (c : ClientID) (s : OrderServer) (e : Event)
    (s' : OrderServer) : Prop :=
  Served s e s' ∧ (e = .recvFinished → s.fifoSequencer.TimesApart c)

theorem accounted_of_run {es : List Event} (h : Run Served new es s) :
    s.fifoSequencer.Accounted := by
  refine h.induct (I := fun _ s => s.fifoSequencer.Accounted) ?_ ?_
  · exact List.Perm.refl _
  · intro es s e s' _ hs hserved
    cases e with
    | receive socket rxTime chunk =>
        exact sequencer_of_receive (fun _ _ _ hf => hf.withRequest) hs hserved
    | recvFinished =>
        obtain ⟨f, hf, rfl⟩ := hserved
        exact hs.published hf

theorem kept_of_run {c : ClientID} {es : List Event}
    (h : Run (ServedApart c) new es s) : s.fifoSequencer.Kept c := by
  refine h.induct (I := fun _ s => s.fifoSequencer.Kept c) ?_ ?_
  · rfl
  · intro es s e s' _ hs ⟨hserved, hapart⟩
    cases e with
    | receive socket rxTime chunk =>
        exact sequencer_of_receive (fun _ _ _ hf => hf.withRequest) hs hserved
    | recvFinished =>
        obtain ⟨f, hf, rfl⟩ := hserved
        exact hs.published (hapart rfl) hf

-- =================================================================== end to end

/-- The requests that a client's gateway writes reach the engine's queue
each once, however its bytes are cut and whatever other sockets send; and in
the order in which it wrote them, if in each batch their receive times
strictly increase. -/
theorem published_of_run (c : ClientID) {rs : List MatchingEngineClientRequest}
    (htyped : ∀ r ∈ rs, Wire.RequestTyped r ∧ r.clientId = c) :
    ∃ g, (forM rs OrderGateway.sendRequest).run (.new c) = .ok () g
      ∧ ∀ (socket : SocketID) (es : List Event) (s : OrderServer),
        bytesOn socket es <+: g.sendBuffer →
        (∀ m ∈ mine c (heard es), m.1 = socket) → Run Served new es s →
        (rs.take ((bytesOn socket es).length / Wire.clientRequest.size)).Perm
            (s.fifoSequencer.published.filter (·.clientId = c)
              ++ (s.fifoSequencer.pendingOf c).map (·.request))
          ∧ (Run (ServedApart c) new es s →
            rs.take ((bytesOn socket es).length / Wire.clientRequest.size)
              = s.fifoSequencer.published.filter (·.clientId = c)
                ++ (s.fifoSequencer.pendingOf c).map (·.request)) := by
  obtain ⟨g, hg, hsent⟩ := OrderGateway.run_sendRequests rs (.new c)
  rw [show (OrderGateway.new c).sendBuffer = [] from rfl, List.nil_append]
    at hsent
  refine ⟨g, hg, fun socket es s hstream honly hrun => ?_⟩
  rw [hsent] at hstream
  have htaken := requests_taken htyped hstream honly hrun
  refine ⟨?_, fun hapart => ?_⟩
  · have hall := (accounted_of_run hrun).filter (·.clientId = c)
    rw [List.filter_append, map_filter_request, htaken] at hall
    exact hall
  · rw [← htaken]
    exact kept_of_run hapart

/-- An order and its cancellation in three chunks, with another client's
request between them, all published together. -/
theorem published_of_run_cut : ∃ g s,
    (forM twoRequests OrderGateway.sendRequest).run (.new 3) = .ok () g
      ∧ bytesOn 7 cutEvents = g.sendBuffer
      ∧ Run (ServedApart 3) new cutEvents s
      ∧ s.fifoSequencer.published.length = 3
      ∧ s.fifoSequencer.published.filter (·.clientId = 3) = twoRequests := by
  obtain ⟨g, hg, hall⟩ := published_of_run 3 typed_twoRequests
  have hsent : g.sendBuffer = twoSent := by
    rw [← (EStateM.Result.ok.inj hg).2]
    decide +kernel
  obtain ⟨s, hrun, hcount, hnone⟩ := Run.exists_of_guarded
    (P := fun s e _ => e = .recvFinished → s.fifoSequencer.TimesApart 3)
    (fun s e s' hserve => (served_of_serve hserve : Served s e s')) new cutEvents
    (fun s => s.fifoSequencer.published.length = 3
      ∧ s.fifoSequencer.pending = []) (by decide +kernel)
  change Run (ServedApart 3) new cutEvents s at hrun
  have hserved : Run Served new cutEvents s :=
    hrun.mono (I := fun _ => True) (fun _ _ _ _ h => h.1) fun _ _ _ => trivial
  have hkept := (hall 7 cutEvents s (by rw [hsent, bytesOn_cutEvents])
    socket_of_cutEvents hserved).2 hrun
  have hlen : (bytesOn 7 cutEvents).length / Wire.clientRequest.size = 2 := by
    rw [bytesOn_cutEvents]
    decide +kernel
  have hpending : s.fifoSequencer.pendingOf 3 = [] := by
    unfold pendingOf
    rw [hnone]
    rfl
  rw [hlen, hpending, List.map_nil, List.append_nil] at hkept
  exact ⟨g, s, hg, by rw [bytesOn_cutEvents, hsent], hrun, hcount, hkept.symm⟩

end OrderServer

end ElectronicTrading
