/-
Recovery against the order of arrival.

A consumer in recovery checks after every message whether what it has
queued is complete, and throws the queued snapshot away when that has a
gap. So it never holds a snapshot whose messages came in another order
than their numbers': the first one that is early leaves a gap, and is
thrown away with all that came before it (`check_gap`), and what is
thrown away does not come again. `Midway` is what holds before the last
message: either the numbers so far are 0, 1, 2, ... and are queued, or
one of them is lost.

The incrementals may come in any order: they are kept, and a map shows
the same entries whatever the order they were put in.
-/
import ElectronicTrading.Exchange.SnapshotSynthesizer
import ElectronicTrading.Lib.Runs
import ElectronicTrading.Trading.MarketDataConsumer

namespace ElectronicTrading

open SnapshotSynthesizer

namespace MarketDataConsumer

-- ============================================================== the loops

/-- What is passed on of a list of updates. -/
def events (updates : List MatchingEngineMarketUpdate) :
    List MatchingEngineMarketUpdate :=
  updates.filter fun update => ¬ IsDelimiter update

theorem pushEvent_eq (finalEvents : List MatchingEngineMarketUpdate)
    (update : MatchingEngineMarketUpdate) :
    pushEvent finalEvents update = finalEvents ++ events [update] := by
  unfold pushEvent events
  by_cases h : IsDelimiter update
  · simp [h]
  · simp [h]

theorem events_cons (update : MatchingEngineMarketUpdate)
    (updates : List MatchingEngineMarketUpdate) :
    events (update :: updates) = events [update] ++ events updates := by
  unfold events
  rw [← List.filter_append]
  rfl

/-- The entries are numbered from `next` on, without a gap. -/
def Contiguous (next : Nat) (l : List (Nat × MatchingEngineMarketUpdate)) :
    Prop :=
  l.map (·.1) = List.range' next l.length

theorem contiguous_cons {next : Nat} {e : Nat × MatchingEngineMarketUpdate}
    {l : List (Nat × MatchingEngineMarketUpdate)} :
    Contiguous next (e :: l) ↔ e.1 = next ∧ Contiguous (next + 1) l := by
  unfold Contiguous
  rw [List.map_cons, List.length_cons, List.range'_succ, List.cons.injEq]

/-- The loop over the snapshot goes through exactly without a gap. -/
theorem collectSnapshot_of_contiguous
    {l : List (Nat × MatchingEngineMarketUpdate)} :
    ∀ (next : Nat) (finalEvents : List MatchingEngineMarketUpdate),
      Contiguous next l → collectSnapshot l next finalEvents
        = some (finalEvents ++ events (l.map (·.2))) := by
  induction l with
  | nil =>
      intro next finalEvents _
      simp [collectSnapshot, events]
  | cons e l ih =>
      intro next finalEvents h
      obtain ⟨hnext, hrest⟩ := contiguous_cons.1 h
      rw [collectSnapshot, if_neg (not_not.2 hnext), ih _ _ hrest,
        pushEvent_eq, List.map_cons, events_cons e.2 (l.map (·.2)),
        List.append_assoc]

theorem contiguous_of_collectSnapshot
    {l : List (Nat × MatchingEngineMarketUpdate)} :
    ∀ (next : Nat) (finalEvents finalEvents' :
        List MatchingEngineMarketUpdate),
      collectSnapshot l next finalEvents = some finalEvents' →
      Contiguous next l := by
  induction l with
  | nil =>
      intro next finalEvents finalEvents' _
      rfl
  | cons e l ih =>
      intro next finalEvents finalEvents' h
      rw [collectSnapshot] at h
      by_cases hnext : e.1 = next
      · rw [if_neg (not_not.2 hnext)] at h
        exact contiguous_cons.2 ⟨hnext, ih _ _ _ h⟩
      · rw [if_pos hnext] at h
        cases h

/-- The loop over incrementals that follow without a gap. -/
theorem collectIncrementals_of_contiguous
    {l : List (Nat × MatchingEngineMarketUpdate)} :
    ∀ (next : Nat) (finalEvents : List MatchingEngineMarketUpdate),
      next + l.length < 2 ^ 64 → Contiguous next l →
      collectIncrementals l next finalEvents
        = (true, next + l.length,
          finalEvents ++ events (l.map (·.2))) := by
  induction l with
  | nil =>
      intro next finalEvents _ _
      simp [collectIncrementals, events]
  | cons e l ih =>
      intro next finalEvents hroom h
      obtain ⟨hnext, hrest⟩ := contiguous_cons.1 h
      rw [List.length_cons] at hroom
      rw [collectIncrementals, if_neg (by omega), if_neg (not_not.2 hnext),
        Nat.mod_eq_of_lt (by omega), ih _ _ (by omega) hrest, pushEvent_eq, List.map_cons,
        events_cons e.2 (l.map (·.2)), List.append_assoc, List.length_cons]
      congr 2
      omega

-- ========================================================= checkSnapshotSync

/-- The messages of a snapshot as of incremental `n`. -/
structure IsSnapshot (n : Nat) (payload snapshot :
    List MatchingEngineMarketUpdate) : Prop where
  shape : ∃ first last, snapshot = first :: (payload ++ [last])
    ∧ first.type = .snapshotStart ∧ last.type = .snapshotEnd
    ∧ last.orderId.toNat = n
  plain : ∀ update ∈ payload, ¬ IsDelimiter update

variable {n : Nat} {payload snapshot : List MatchingEngineMarketUpdate}

theorem IsSnapshot.events_eq (h : IsSnapshot n payload snapshot) :
    events snapshot = payload := by
  obtain ⟨first, last, rfl, hfirst, hlast, -⟩ := h.shape
  have hplain : payload.filter (fun update => ¬ IsDelimiter update)
      = payload := by
    rw [List.filter_eq_self]
    intro update hupdate
    simpa using h.plain update hupdate
  have hfirst' : IsDelimiter first := .inl hfirst
  have hlast' : IsDelimiter last := .inr hlast
  unfold events
  rw [List.filter_cons_of_neg (by simpa using hfirst'), List.filter_append,
    hplain, List.filter_cons_of_neg (by simpa using hlast'), List.filter_nil,
    List.append_nil]

/-- Only the last message is a SNAPSHOT_END. -/
theorem IsSnapshot.not_end (h : IsSnapshot n payload snapshot) {i : Nat}
    {update : MatchingEngineMarketUpdate} (hi : snapshot[i]? = some update)
    (hlt : i + 1 < snapshot.length) : update.type ≠ .snapshotEnd := by
  obtain ⟨first, last, rfl, hfirst, -, -⟩ := h.shape
  cases i with
  | zero =>
      rw [List.getElem?_cons_zero, Option.some_inj] at hi
      rw [← hi, hfirst]
      decide
  | succ i =>
      rw [List.length_cons, List.length_append, List.length_singleton] at hlt
      rw [List.getElem?_cons_succ, List.getElem?_append_left (by omega)] at hi
      exact fun htype => h.plain update (List.mem_of_getElem? hi) (.inr htype)

/-- The queued entries are messages of the snapshot. -/
def Of (snapshot : List MatchingEngineMarketUpdate)
    (l : List (Nat × MatchingEngineMarketUpdate)) : Prop :=
  ∀ e ∈ l, snapshot[e.1]? = some e.2

/-- The last of entries without a gap. -/
theorem getLast_of_contiguous {e : Nat × MatchingEngineMarketUpdate}
    {l : List (Nat × MatchingEngineMarketUpdate)}
    (h : Contiguous 0 (e :: l)) :
    ((e :: l).getLast (List.cons_ne_nil e l)).1 = l.length := by
  have hlast := congrArg List.getLast? h
  rw [List.getLast?_map, List.getLast?_eq_getLast_of_ne_nil
    (List.cons_ne_nil e l), List.length_cons, List.getLast?_range',
    if_neg (by omega), Option.map_some, Option.some_inj] at hlast
  omega

variable {s : MarketDataConsumer}

/-- Entries with a gap are thrown away. -/
theorem check_gap (hgap : ¬ Contiguous 0 s.snapshotQueuedMsgs.entries) :
    s.checkSnapshotSync = { s with snapshotQueuedMsgs := .empty } := by
  unfold checkSnapshotSync
  cases hentries : s.snapshotQueuedMsgs.entries with
  | nil =>
      rw [hentries] at hgap
      exact absurd rfl hgap
  | cons e l =>
      rw [hentries] at hgap
      dsimp only
      split
      · rfl
      · cases hcollect : collectSnapshot (e :: l) 0 [] with
        | none => rfl
        | some finalEvents =>
            exact absurd (contiguous_of_collectSnapshot _ _ _ hcollect) hgap

/-- Entries without a gap that begin with SNAPSHOT_START are passed on; what
is left to check is how they end. -/
theorem check_contiguous {e : Nat × MatchingEngineMarketUpdate}
    {l : List (Nat × MatchingEngineMarketUpdate)}
    (hentries : s.snapshotQueuedMsgs.entries = e :: l)
    (hcontiguous : Contiguous 0 (e :: l))
    (hfirst : e.2.type = .snapshotStart) :
    s.checkSnapshotSync
      = s.checkIncrementals (events ((e :: l).map (·.2)))
        ((e :: l).getLast (List.cons_ne_nil e l)).2 := by
  unfold checkSnapshotSync
  rw [hentries]
  dsimp only
  rw [if_neg (not_not.2 hfirst),
    collectSnapshot_of_contiguous _ _ hcontiguous, List.nil_append]

/-- A snapshot that has begun and not ended is waited for. -/
theorem check_begun (h : IsSnapshot n payload snapshot)
    (hof : Of snapshot s.snapshotQueuedMsgs.entries)
    (hcontiguous : Contiguous 0 s.snapshotQueuedMsgs.entries)
    (hlt : s.snapshotQueuedMsgs.entries.length < snapshot.length) :
    s.checkSnapshotSync = s := by
  cases hentries : s.snapshotQueuedMsgs.entries with
  | nil =>
      unfold checkSnapshotSync
      rw [hentries]
  | cons e l =>
      rw [hentries] at hof hcontiguous hlt
      have hfirst : e.2.type = .snapshotStart := by
        obtain ⟨first, last, hshape, htype, -⟩ := h.shape
        have he := hof e (List.mem_cons_self ..)
        rw [(contiguous_cons.1 hcontiguous).1, hshape,
          List.getElem?_cons_zero, Option.some_inj] at he
        rw [← he]
        exact htype
      have hlast := hof _ (List.getLast_mem (List.cons_ne_nil e l))
      rw [getLast_of_contiguous hcontiguous] at hlast
      rw [List.length_cons] at hlt
      rw [check_contiguous hentries hcontiguous hfirst]
      unfold checkIncrementals
      rw [if_pos (h.not_end hlast hlt)]

/-- A whole snapshot: what is left to check are the incrementals. -/
theorem check_complete (h : IsSnapshot n payload snapshot)
    (hof : Of snapshot s.snapshotQueuedMsgs.entries)
    (hcontiguous : Contiguous 0 s.snapshotQueuedMsgs.entries)
    (hlength : s.snapshotQueuedMsgs.entries.length = snapshot.length) :
    ∃ last : MatchingEngineMarketUpdate, last.type = .snapshotEnd
      ∧ last.orderId.toNat = n
      ∧ s.checkSnapshotSync = s.checkIncrementals payload last := by
  have hupdates : s.snapshotQueuedMsgs.entries.map (·.2) = snapshot := by
    apply List.ext_getElem?
    intro i
    rw [List.getElem?_map]
    by_cases hi : i < s.snapshotQueuedMsgs.entries.length
    · have hnumber := congrArg (·[i]?) hcontiguous
      rw [List.getElem?_eq_getElem hi, Option.map_some]
      simp only [List.getElem?_map, List.getElem?_eq_getElem hi,
        Option.map_some, List.getElem?_range' hi, Option.some_inj] at hnumber
      have he := hof _ (List.getElem_mem hi)
      rw [hnumber, Nat.zero_add, Nat.one_mul] at he
      exact he.symm
    · rw [List.getElem?_eq_none (by omega), Option.map_none,
        List.getElem?_eq_none (by omega)]
  obtain ⟨first, last, hshape, hfirstType, hlastType, hn⟩ := h.shape
  refine ⟨last, hlastType, hn, ?_⟩
  cases hentries : s.snapshotQueuedMsgs.entries with
  | nil =>
      rw [hentries, hshape] at hlength
      simp at hlength
  | cons e l =>
      rw [hentries] at hof hcontiguous hlength hupdates
      have hfirst : e.2.type = .snapshotStart := by
        rw [List.map_cons, hshape, List.cons.injEq] at hupdates
        rw [hupdates.1]
        exact hfirstType
      have hlast : ((e :: l).getLast (List.cons_ne_nil e l)).2 = last := by
        have hend := congrArg List.getLast? hupdates
        rw [List.getLast?_map, List.getLast?_eq_getLast_of_ne_nil
          (List.cons_ne_nil e l), Option.map_some, hshape,
          ← List.cons_append, List.getLast?_concat] at hend
        exact Option.some.inj hend
      rw [check_contiguous hentries hcontiguous hfirst, hupdates,
        h.events_eq, hlast]

/-- A whole snapshot, and incrementals that follow it: the recovery
completes. -/
theorem check_whole (h : IsSnapshot n payload snapshot)
    (hof : Of snapshot s.snapshotQueuedMsgs.entries)
    (hcontiguous : Contiguous 0 s.snapshotQueuedMsgs.entries)
    (hlength : s.snapshotQueuedMsgs.entries.length = snapshot.length)
    (hincs : Contiguous (n + 1) s.incrementalQueuedMsgs.entries)
    (hroom : n + 1 + s.incrementalQueuedMsgs.entries.length < 2 ^ 64) :
    s.checkSnapshotSync = { s with
      nextExpectedSequenceNumber :=
        n + 1 + s.incrementalQueuedMsgs.entries.length
      incomingMdQueue := s.incomingMdQueue ++ (payload
        ++ events (s.incrementalQueuedMsgs.entries.map (·.2)))
      snapshotQueuedMsgs := .empty
      incrementalQueuedMsgs := .empty
      inRecoveryMode := false } := by
  obtain ⟨last, htype, hn, hcheck⟩ := check_complete h hof hcontiguous hlength
  rw [hcheck]
  unfold checkIncrementals
  rw [if_neg (not_not.2 htype), hn, Nat.mod_eq_of_lt (by omega),
    collectIncrementals_of_contiguous _ _ hroom hincs]
  rfl

-- ========================================================== one delivery

/-- A message and whether it is of the snapshot stream. -/
abbrev Delivery := Bool × MDPMarketUpdate

/-- The numbers of the snapshot messages, as they came. -/
def snapshotNumbers (ds : List Delivery) : List Nat :=
  (ds.filter (·.1)).map (·.2.sequenceNumber)

theorem mem_snapshotNumbers {ds : List Delivery} {k : Nat} :
    k ∈ snapshotNumbers ds ↔ ∃ d ∈ ds, d.1 = true ∧ d.2.sequenceNumber = k := by
  unfold snapshotNumbers
  simp only [List.mem_map, List.mem_filter]
  constructor
  · intro h
    obtain ⟨d, ⟨hd, hsnap⟩, hk⟩ := h
    exact ⟨d, hd, hsnap, hk⟩
  · intro h
    obtain ⟨d, hd, hsnap, hk⟩ := h
    exact ⟨d, ⟨hd, hsnap⟩, hk⟩

theorem snapshotNumbers_snoc (ds : List Delivery) (d : Delivery) :
    snapshotNumbers (ds ++ [d])
      = snapshotNumbers ds ++ if d.1 then [d.2.sequenceNumber] else [] := by
  unfold snapshotNumbers
  rw [List.filter_append, List.map_append]
  cases hd : d.1 with
  | true => simp [hd]
  | false => simp [hd]

/-- The snapshot messages so far came as 0, 1, 2, ... -/
def InOrder (ds : List Delivery) : Prop :=
  snapshotNumbers ds = List.range (snapshotNumbers ds).length

instance (ds : List Delivery) : Decidable (InOrder ds) :=
  inferInstanceAs (Decidable (_ = _))

/-- Before the recovery completes, and `c` is where it began: the
incrementals are queued; of the snapshot either everything, or something
is lost. -/
structure Midway (c : MarketDataConsumer) (ds : List Delivery)
    (s : MarketDataConsumer) : Prop where
  recovering : s.inRecoveryMode = true
  written : s.incomingMdQueue = c.incomingMdQueue
  incrementals : ∀ e, e ∈ s.incrementalQueuedMsgs.entries
    ↔ (false, ⟨e.1, e.2⟩) ∈ ds
  known : ∀ e ∈ s.snapshotQueuedMsgs.entries, (true, ⟨e.1, e.2⟩) ∈ ds
  queued : InOrder ds →
    s.snapshotQueuedMsgs.entries.map (·.1) = snapshotNumbers ds
  lost : ¬ InOrder ds → ∃ k ∈ snapshotNumbers ds,
    ∀ e ∈ s.snapshotQueuedMsgs.entries, e.1 ≠ k

/-- The consumer with a message in its map. -/
def put (s : MarketDataConsumer) (d : Delivery) : MarketDataConsumer :=
  if d.1 then
    { s with
      snapshotQueuedMsgs := s.snapshotQueuedMsgs.insert
        d.2.sequenceNumber d.2.meMarketUpdate }
  else
    { s with
      incrementalQueuedMsgs := s.incrementalQueuedMsgs.insert
        d.2.sequenceNumber d.2.meMarketUpdate }

def deliver (s : MarketDataConsumer) (d : Delivery) : MarketDataConsumer :=
  onRequest d.1 s d.2

/-- A message whose number has not come in its stream. -/
def Fresh (ds : List Delivery) (d : Delivery) : Prop :=
  ∀ x ∈ ds, x.1 = d.1 → x.2.sequenceNumber ≠ d.2.sequenceNumber

variable {c t : MarketDataConsumer} {ds : List Delivery} {d : Delivery}

/-- In recovery a fresh message is put into its map and the check made. -/
theorem Midway.deliver_eq (h : Midway c ds s) (hfresh : Fresh ds d) :
    s.deliver d = (s.put d).checkSnapshotSync := by
  have hrecovery := h.recovering
  unfold deliver onRequest put
  simp only [hrecovery, Bool.true_or, if_true]
  have hself : ({ s with inRecoveryMode := true } : MarketDataConsumer)
      = s := by
    rw [← hrecovery]
  rw [hself]
  unfold queueMessage
  cases hd : d.1 with
  | false => simp [hrecovery]
  | true =>
      have hnot : s.snapshotQueuedMsgs.contains d.2.sequenceNumber
          = false := by
        rw [Bool.eq_false_iff, ne_eq, SortedMap.contains_iff]
        intro h
        obtain ⟨e, he, hnumber⟩ := h
        exact hfresh _ (h.known e he) (by rw [hd]) hnumber
      simp [hnot, hrecovery]

/-- What a message that has been put in leaves, before the check. -/
structure PutIn (c : MarketDataConsumer) (ds : List Delivery)
    (t : MarketDataConsumer) : Prop where
  recovering : t.inRecoveryMode = true
  written : t.incomingMdQueue = c.incomingMdQueue
  incrementals : ∀ e, e ∈ t.incrementalQueuedMsgs.entries
    ↔ (false, ⟨e.1, e.2⟩) ∈ ds
  known : ∀ e ∈ t.snapshotQueuedMsgs.entries, (true, ⟨e.1, e.2⟩) ∈ ds
  queued : InOrder ds →
    t.snapshotQueuedMsgs.entries.map (·.1) = snapshotNumbers ds
  lost : ¬ InOrder ds → ¬ Contiguous 0 t.snapshotQueuedMsgs.entries
    ∨ ∃ k ∈ snapshotNumbers ds, ∀ e ∈ t.snapshotQueuedMsgs.entries, e.1 ≠ k

/-- An incremental that is put in. -/
theorem Midway.put_incremental (h : Midway c ds s) (hfresh : Fresh ds d)
    (hd : d.1 = false) : PutIn c (ds ++ [d]) (s.put d) := by
  have hput : s.put d = { s with
      incrementalQueuedMsgs := s.incrementalQueuedMsgs.insert
        d.2.sequenceNumber d.2.meMarketUpdate } := by
    unfold put
    rw [hd]
    rfl
  have hnumbers : snapshotNumbers (ds ++ [d]) = snapshotNumbers ds := by
    rw [snapshotNumbers_snoc, hd]
    exact List.append_nil _
  have horder : InOrder (ds ++ [d]) ↔ InOrder ds := by
    unfold InOrder
    rw [hnumbers]
  rw [hput]
  constructor
  · exact h.recovering
  · exact h.written
  · intro e
    rw [SortedMap.mem_insert, h.incrementals, List.mem_append,
      List.mem_singleton]
    constructor
    · intro h
      rcases h with heq | ⟨-, hin⟩
      · rw [heq]
        exact .inr (by rw [← hd])
      · exact .inl hin
    · intro h
      rcases h with hin | heq
      · exact .inr ⟨hfresh _ hin (by rw [hd]), hin⟩
      · rw [← heq]
        exact .inl rfl
  · intro e he
    exact List.mem_append_left _ (h.known e he)
  · intro hinOrder
    rw [hnumbers]
    exact h.queued (horder.1 hinOrder)
  · intro hnot
    rw [hnumbers]
    exact .inr (h.lost fun hinOrder => hnot (horder.2 hinOrder))

/-- A snapshot message that is put in. -/
theorem Midway.put_snapshot (h : Midway c ds s) (hfresh : Fresh ds d)
    (hd : d.1 = true) : PutIn c (ds ++ [d]) (s.put d) := by
  have hput : s.put d = { s with
      snapshotQueuedMsgs := s.snapshotQueuedMsgs.insert
        d.2.sequenceNumber d.2.meMarketUpdate } := by
    unfold put
    rw [hd]
    rfl
  have hnumbers : snapshotNumbers (ds ++ [d])
      = snapshotNumbers ds ++ [d.2.sequenceNumber] := by
    rw [snapshotNumbers_snoc, hd]
    rfl
  -- the number that would come next
  have hnext : InOrder ds → (InOrder (ds ++ [d])
      ↔ d.2.sequenceNumber = (snapshotNumbers ds).length) := by
    intro hinOrder
    unfold InOrder at hinOrder ⊢
    rw [hnumbers, List.length_append, List.length_singleton,
      List.range_succ, ← hinOrder]
    simp
  have hbefore : InOrder (ds ++ [d]) → InOrder ds := by
    intro hinOrder
    unfold InOrder at hinOrder ⊢
    rw [hnumbers, List.length_append, List.length_singleton,
      List.range_succ] at hinOrder
    exact (List.append_inj' hinOrder rfl).1
  have hgone : ∀ e ∈ s.snapshotQueuedMsgs.entries,
      e.1 ≠ d.2.sequenceNumber := fun e he =>
    hfresh _ (h.known e he) (by rw [hd])
  have hmem : ∀ e, e ∈ (s.put d).snapshotQueuedMsgs.entries
      ↔ e = (d.2.sequenceNumber, d.2.meMarketUpdate)
        ∨ e ∈ s.snapshotQueuedMsgs.entries := by
    intro e
    rw [hput, SortedMap.mem_insert]
    constructor
    · intro h
      rcases h with heq | ⟨-, he⟩
      · exact .inl heq
      · exact .inr he
    · intro h
      rcases h with heq | he
      · exact .inl heq
      · exact .inr ⟨hgone e he, he⟩
  refine ⟨?_, ?_, ?_, ?_, ?_, ?_⟩
  · rw [hput]
    exact h.recovering
  · rw [hput]
    exact h.written
  · intro e
    rw [hput, h.incrementals, List.mem_append, List.mem_singleton]
    constructor
    · exact .inl
    · intro h
      rcases h with hin | heq
      · exact hin
      · rw [← heq] at hd
        cases hd
  · intro e he
    rcases (hmem e).1 he with rfl | he
    · exact List.mem_append_right _ (List.mem_singleton.2 (by rw [← hd]))
    · exact List.mem_append_left _ (h.known e he)
  · intro hinOrder
    have hds := hbefore hinOrder
    have hnumber := (hnext hds).1 hinOrder
    have hkeys := h.queued hds
    have hlt : ∀ e ∈ s.snapshotQueuedMsgs.entries,
        e.1 < d.2.sequenceNumber := by
      intro e he
      have hin : e.1 ∈ snapshotNumbers ds := by
        rw [← hkeys]
        exact List.mem_map_of_mem he
      unfold InOrder at hds
      rw [hds, List.mem_range] at hin
      omega
    rw [hput, hnumbers]
    dsimp only
    rw [SortedMap.insert_entries_of_lt hlt, List.map_append, hkeys]
    rfl
  · intro hnot
    by_cases hds : InOrder ds
    · left
      intro hcontiguous
      -- the number is early, so the one before it is missing
      have hne : d.2.sequenceNumber ≠ (snapshotNumbers ds).length :=
        fun heq => hnot ((hnext hds).2 heq)
      have hnotIn : d.2.sequenceNumber ∉ snapshotNumbers ds := by
        intro hin
        obtain ⟨x, hx, hsnap, hnumber⟩ := mem_snapshotNumbers.1 hin
        exact hfresh x hx (by rw [hsnap, hd]) hnumber
      have hds' : snapshotNumbers ds
          = List.range (snapshotNumbers ds).length := hds
      rw [hds', List.mem_range] at hnotIn
      have hd' : d.2.sequenceNumber
          ∈ (s.put d).snapshotQueuedMsgs.entries.map (·.1) :=
        List.mem_map_of_mem
          ((hmem (d.2.sequenceNumber, d.2.meMarketUpdate)).2 (.inl rfl))
      unfold Contiguous at hcontiguous
      rw [hcontiguous, List.mem_range'_1] at hd'
      have hmissing : (snapshotNumbers ds).length
          ∈ (s.put d).snapshotQueuedMsgs.entries.map (·.1) := by
        rw [hcontiguous, List.mem_range'_1]
        omega
      obtain ⟨e, he, hnumber⟩ := List.mem_map.1 hmissing
      rcases (hmem e).1 he with rfl | he
      · exact hne hnumber
      · have hin : e.1 ∈ snapshotNumbers ds := by
          rw [← h.queued hds]
          exact List.mem_map_of_mem he
        rw [hds', List.mem_range] at hin
        omega
    · right
      obtain ⟨k, hk, hmissing⟩ := h.lost hds
      refine ⟨k, ?_, fun e he => ?_⟩
      · rw [hnumbers]
        exact List.mem_append_left _ hk
      · rcases (hmem e).1 he with rfl | he
        · obtain ⟨x, hx, hsnap, hnumber⟩ := mem_snapshotNumbers.1 hk
          intro heq
          exact hfresh x hx (by rw [hsnap, hd]) (hnumber.trans heq.symm)
        · exact hmissing e he

/-- What has come is of the snapshot, under its number. -/
def Known (snapshot : List MatchingEngineMarketUpdate) (ds : List Delivery) :
    Prop :=
  ∀ x ∈ ds, x.1 = true → snapshot[x.2.sequenceNumber]? = some x.2.meMarketUpdate

theorem PutIn.of (h : PutIn c ds t) (hknown : Known snapshot ds) :
    Of snapshot t.snapshotQueuedMsgs.entries := fun e he =>
  hknown _ (h.known e he) rfl

/-- Entries without a gap are fewer than a number that is not there. -/
theorem length_le_of_missing {l : List (Nat × MatchingEngineMarketUpdate)}
    (hcontiguous : Contiguous 0 l) {k : Nat} (hk : ∀ e ∈ l, e.1 ≠ k) :
    l.length ≤ k := by
  by_contra hlt
  have hin : k ∈ l.map (·.1) := by
    rw [hcontiguous, List.mem_range'_1]
    omega
  obtain ⟨e, he, hnumber⟩ := List.mem_map.1 hin
  exact hk e he hnumber

theorem PutIn.contiguous (h : PutIn c ds t) (hds : InOrder ds) :
    Contiguous 0 t.snapshotQueuedMsgs.entries := by
  have hkeys := h.queued hds
  have hlength := congrArg List.length hkeys
  rw [List.length_map] at hlength
  unfold Contiguous
  rw [hkeys, hlength, ← List.range_eq_range']
  exact hds

/-- The check leaves the recovery going on when a snapshot message has
not come, or one has been lost. -/
theorem PutIn.check (h : PutIn c ds t) (hsnapshot : IsSnapshot n payload snapshot)
    (hknown : Known snapshot ds)
    (hmore : InOrder ds → ∃ k < snapshot.length, k ∉ snapshotNumbers ds) :
    Midway c ds t.checkSnapshotSync := by
  by_cases hcontiguous : Contiguous 0 t.snapshotQueuedMsgs.entries
  · have hmissing : ∃ k < snapshot.length,
        ∀ e ∈ t.snapshotQueuedMsgs.entries, e.1 ≠ k := by
      by_cases hds : InOrder ds
      · obtain ⟨k, hlt, hk⟩ := hmore hds
        refine ⟨k, hlt, fun e he heq => hk ?_⟩
        rw [← h.queued hds, ← heq]
        exact List.mem_map_of_mem he
      · obtain ⟨k, hk, hmissing⟩ :=
          (h.lost hds).resolve_left (not_not.2 hcontiguous)
        obtain ⟨x, hx, hsnap, hnumber⟩ := mem_snapshotNumbers.1 hk
        have hget := hknown x hx hsnap
        rw [hnumber] at hget
        exact ⟨k, (List.getElem?_eq_some_iff.1 hget).1, hmissing⟩
    obtain ⟨k, hlt, hk⟩ := hmissing
    have hle := length_le_of_missing hcontiguous hk
    rw [check_begun hsnapshot (h.of hknown) hcontiguous (by omega)]
    exact ⟨h.recovering, h.written, h.incrementals, h.known, h.queued,
      fun hds => (h.lost hds).resolve_left (not_not.2 hcontiguous)⟩
  · -- a gap: what was queued is lost, so something is
    have hds : ¬ InOrder ds := fun hds => hcontiguous (h.contiguous hds)
    rw [check_gap hcontiguous]
    refine ⟨h.recovering, h.written, h.incrementals, ?_, ?_, ?_⟩
    · intro e he
      cases he
    · exact fun hin => absurd hin hds
    · intro _
      have hne : snapshotNumbers ds ≠ [] := by
        intro hnil
        apply hds
        unfold InOrder
        rw [hnil]
        rfl
      obtain ⟨k, hk⟩ := List.exists_mem_of_ne_nil _ hne
      refine ⟨k, hk, fun e he => ?_⟩
      cases he

-- =============================================================== arrivals

/-- The messages of both streams, each once, in any order in which one of
the snapshot's comes last. -/
structure Arrival (snapshot incrementals : List MDPMarketUpdate)
    (ds : List Delivery) : Prop where
  once : ds.Perm (snapshot.map (Prod.mk true)
    ++ incrementals.map (Prod.mk false))
  last : ∃ before message, ds = before ++ [(true, message)]

theorem numbered_numbers (k : Nat) (updates : List MatchingEngineMarketUpdate) :
    (numbered k updates).map (·.sequenceNumber)
      = List.range' k updates.length := by
  unfold numbered
  refine List.ext_getElem (by simp) fun i hi hi' => ?_
  simp

theorem mem_numbered {k : Nat} {updates : List MatchingEngineMarketUpdate}
    {message : MDPMarketUpdate} :
    message ∈ numbered k updates ↔ ∃ i, updates[i]? = some message.meMarketUpdate
      ∧ message.sequenceNumber = k + i := by
  unfold numbered
  rw [List.mem_mapIdx]
  constructor
  · intro h
    obtain ⟨i, hi, rfl⟩ := h
    exact ⟨i, List.getElem?_eq_getElem hi, rfl⟩
  · intro h
    obtain ⟨i, hget, hnumber⟩ := h
    obtain ⟨hi, hupdate⟩ := List.getElem?_eq_some_iff.1 hget
    refine ⟨i, hi, ?_⟩
    rw [hupdate, ← hnumber]

section Arrival

variable {incs : List MatchingEngineMarketUpdate}

theorem Arrival.known (h : Arrival (numbered 0 snapshot)
    (numbered (n + 1) incs) ds) : Known snapshot ds := by
  intro x hx hsnap
  rcases List.mem_append.1 (h.once.mem_iff.1 hx) with hin | hin
  · obtain ⟨message, hmessage, rfl⟩ := List.mem_map.1 hin
    obtain ⟨i, hget, hnumber⟩ := mem_numbered.1 hmessage
    rw [hnumber, Nat.zero_add]
    exact hget
  · obtain ⟨message, -, rfl⟩ := List.mem_map.1 hin
    cases hsnap

/-- No number comes twice in a stream. -/
theorem Arrival.nodup (h : Arrival (numbered 0 snapshot)
    (numbered (n + 1) incs) ds) :
    (ds.map fun d => (d.1, d.2.sequenceNumber)).Nodup := by
  have hperm := h.once.map fun d : Delivery => (d.1, d.2.sequenceNumber)
  rw [hperm.nodup_iff, List.map_append, List.map_map, List.map_map]
  have hstream : ∀ (b : Bool) (k : Nat)
      (updates : List MatchingEngineMarketUpdate),
      (numbered k updates).map
          ((fun d : Delivery => (d.1, d.2.sequenceNumber)) ∘ Prod.mk b)
        = (List.range' k updates.length).map (Prod.mk b) := by
    intro b k updates
    rw [← numbered_numbers, List.map_map]
    rfl
  have hnodup : ∀ (b : Bool) (k l : Nat),
      ((List.range' k l).map (Prod.mk b)).Nodup := fun b k l =>
    (List.nodup_range').map fun _ _ heq => (Prod.mk.inj heq).2
  rw [hstream, hstream, List.nodup_append]
  refine ⟨hnodup _ _ _, hnodup _ _ _, ?_⟩
  intro x hx y hy heq
  obtain ⟨i, -, rfl⟩ := List.mem_map.1 hx
  obtain ⟨j, -, rfl⟩ := List.mem_map.1 hy
  cases heq

theorem Arrival.fresh (h : Arrival (numbered 0 snapshot)
    (numbered (n + 1) incs) ds) {before rest : List Delivery}
    (hds : ds = before ++ d :: rest) : Fresh before d := by
  have hnodup := h.nodup
  rw [hds, List.map_append, List.map_cons, List.nodup_append] at hnodup
  intro x hx hstream hnumber
  refine hnodup.2.2 _ (List.mem_map_of_mem hx) _ (List.mem_cons_self ..) ?_
  rw [hstream, hnumber]

/-- All the snapshot's numbers come. -/
theorem Arrival.numbers (h : Arrival (numbered 0 snapshot)
    (numbered (n + 1) incs) ds) :
    (snapshotNumbers ds).Perm (List.range snapshot.length) := by
  have hperm := (h.once.filter fun d => d.1).map fun d => d.2.sequenceNumber
  have hin : ((numbered 0 snapshot).map (Prod.mk true)).filter
      (fun d : Delivery => d.1) = (numbered 0 snapshot).map (Prod.mk true) := by
    refine List.filter_eq_self.2 fun d hd => ?_
    obtain ⟨message, -, rfl⟩ := List.mem_map.1 hd
    rfl
  have hout : ((numbered (n + 1) incs).map (Prod.mk false)).filter
      (fun d : Delivery => d.1) = [] := by
    refine List.filter_eq_nil_iff.2 fun d hd => ?_
    obtain ⟨message, -, rfl⟩ := List.mem_map.1 hd
    exact Bool.false_ne_true
  rw [List.filter_append, hin, hout, List.append_nil, List.map_map] at hperm
  rw [List.range_eq_range', ← numbered_numbers]
  exact hperm

/-- The incrementals, once all have come. -/
theorem Arrival.entries (h : Arrival (numbered 0 snapshot)
    (numbered (n + 1) incs) ds)
    (hin : ∀ e, e ∈ t.incrementalQueuedMsgs.entries
      ↔ (false, ⟨e.1, e.2⟩) ∈ ds) :
    t.incrementalQueuedMsgs.entries
      = incs.mapIdx fun i update => (n + 1 + i, update) := by
  refine SortedMap.entries_eq ?_ fun e => ?_
  · rw [List.pairwise_iff_getElem]
    intro i j hi hj hlt
    rw [List.getElem_mapIdx, List.getElem_mapIdx]
    dsimp only
    omega
  · rw [hin, h.once.mem_iff, List.mem_append, List.mem_mapIdx]
    constructor
    · intro h
      rcases h with hmem | hmem
      · obtain ⟨message, -, heq⟩ := List.mem_map.1 hmem
        cases heq
      · obtain ⟨message, hmessage, heq⟩ := List.mem_map.1 hmem
        cases heq
        obtain ⟨i, hget, hnumber⟩ := mem_numbered.1 hmessage
        obtain ⟨hi, hupdate⟩ := List.getElem?_eq_some_iff.1 hget
        exact ⟨i, hi, Prod.ext hnumber.symm hupdate⟩
    · intro h
      obtain ⟨i, hi, rfl⟩ := h
      exact .inr (List.mem_map_of_mem
        (mem_numbered.2 ⟨i, List.getElem?_eq_getElem hi, rfl⟩))

/-- Where the recovery began. -/
structure Started (c : MarketDataConsumer) : Prop where
  recovering : c.inRecoveryMode = true
  snapshot : c.snapshotQueuedMsgs = .empty
  incrementals : c.incrementalQueuedMsgs = .empty

theorem Started.midway (h : Started c) : Midway c [] c := by
  refine ⟨h.recovering, rfl, ?_, ?_, ?_, ?_⟩
  · intro e
    rw [h.incrementals]
    exact iff_of_false List.not_mem_nil List.not_mem_nil
  · intro e he
    rw [h.snapshot] at he
    cases he
  · intro _
    rw [h.snapshot]
    rfl
  · exact fun hin => absurd rfl hin

/-- A message on, before the check. -/
theorem Midway.put (h : Midway c ds s) (hfresh : Fresh ds d) :
    PutIn c (ds ++ [d]) (s.put d) := by
  cases hd : d.1 with
  | false => exact h.put_incremental hfresh hd
  | true => exact h.put_snapshot hfresh hd

/-- Until the last message has come the recovery goes on. -/
theorem Arrival.midway (h : Arrival (numbered 0 snapshot)
    (numbered (n + 1) incs) ds) (hsnapshot : IsSnapshot n payload snapshot)
    (hc : Started c) {before : List Delivery} :
    ∀ rest, rest ≠ [] → ds = before ++ rest →
      Midway c before (before.foldl deliver c) := by
  induction before using List.reverseRecOn with
  | nil =>
      intro rest _ _
      exact hc.midway
  | append_singleton before d ih =>
      intro rest hrest hds
      have hsplit : ds = before ++ d :: rest := by
        rw [hds, List.append_assoc]
        rfl
      have hfresh := h.fresh hsplit
      have hbefore := ih (d :: rest) (List.cons_ne_nil d rest) hsplit
      rw [List.foldl_append, List.foldl_cons, List.foldl_nil,
        hbefore.deliver_eq hfresh]
      refine (hbefore.put hfresh).check hsnapshot ?_ fun _ => ?_
      · intro x hx
        refine h.known x ?_
        rw [hds]
        exact List.mem_append_left _ hx
      · -- the number of the last message has not come yet
        obtain ⟨front, last, hlast⟩ := h.last
        have hget := h.known (true, last) (by rw [hlast]; simp) rfl
        refine ⟨last.sequenceNumber, (List.getElem?_eq_some_iff.1 hget).1,
          fun hin => ?_⟩
        obtain ⟨x, hx, hsnap, hnumber⟩ := mem_snapshotNumbers.1 hin
        obtain ⟨rest', d', rfl⟩ :=
          (List.eq_nil_or_concat' rest).resolve_left hrest
        have heq : (before ++ [d] ++ rest') ++ [d']
            = front ++ [(true, last)] := by
          rw [List.append_assoc, ← hds, hlast]
        obtain ⟨hfront, hd'⟩ := List.append_inj' heq rfl
        refine h.fresh hlast x ?_ hsnap hnumber
        rw [← hfront]
        exact List.mem_append_left _ hx

/-- The incrementals have their numbers. -/
theorem contiguous_mapIdx (next : Nat)
    (updates : List MatchingEngineMarketUpdate) :
    Contiguous next (updates.mapIdx fun i update => (next + i, update)) := by
  unfold Contiguous
  refine List.ext_getElem (by simp) fun i hi hi' => ?_
  simp

/-- The last message: the recovery completes if the snapshot's messages
came in order, and goes on if not. -/
theorem Arrival.finish (h : Arrival (numbered 0 snapshot)
    (numbered (n + 1) incs) ds) (hsnapshot : IsSnapshot n payload snapshot)
    (hc : Started c) (hroom : n + 1 + incs.length < 2 ^ 64) :
    (InOrder ds →
      (ds.foldl deliver c).inRecoveryMode = false
      ∧ (ds.foldl deliver c).incomingMdQueue
          = c.incomingMdQueue ++ (payload ++ events incs)
      ∧ (ds.foldl deliver c).nextExpectedSequenceNumber
          = n + 1 + incs.length)
    ∧ (¬ InOrder ds → (ds.foldl deliver c).inRecoveryMode = true) := by
  obtain ⟨before, message, hds⟩ := h.last
  have hbefore := h.midway hsnapshot hc [(true, message)]
    (List.cons_ne_nil _ _) hds
  have hfresh : Fresh before (true, message) := h.fresh hds
  have hput := hbefore.put hfresh
  have hfold : ds.foldl deliver c
      = ((before.foldl deliver c).put (true, message)).checkSnapshotSync := by
    rw [hds, List.foldl_append, List.foldl_cons, List.foldl_nil,
      hbefore.deliver_eq hfresh]
  rw [← hds] at hput
  rw [hfold]
  constructor
  · intro hinOrder
    have hlength : ((before.foldl deliver c).put
        (true, message)).snapshotQueuedMsgs.entries.length
          = snapshot.length := by
      rw [← List.length_map (f := Prod.fst), hput.queued hinOrder,
        h.numbers.length_eq, List.length_range]
    have hentries := h.entries hput.incrementals
    have hevents : (incs.mapIdx fun i update => (n + 1 + i, update)).map
        (·.2) = incs := by
      refine List.ext_getElem (by simp) fun i hi hi' => ?_
      simp
    rw [check_whole hsnapshot (hput.of h.known) (hput.contiguous hinOrder)
      hlength (by rw [hentries]; exact contiguous_mapIdx _ _)
      (by rw [hentries, List.length_mapIdx]; exact hroom)]
    refine ⟨rfl, ?_, ?_⟩
    · dsimp only
      rw [hput.written, hentries, hevents]
    · dsimp only
      rw [hentries, List.length_mapIdx]
  · intro hinOrder
    exact (hput.check hsnapshot h.known fun hin =>
      absurd hin hinOrder).recovering

end Arrival

-- ============================================================== callbacks

/-- What the callbacks deliver, message by message. -/
def deliveries (received : List (Bool × List MDPMarketUpdate)) :
    List Delivery :=
  received.flatMap fun r => r.2.map (Prod.mk r.1)

theorem foldl_onRequest (isSnapshot : Bool) (messages : List MDPMarketUpdate)
    (s : MarketDataConsumer) :
    messages.foldl (onRequest isSnapshot) s
      = (messages.map (Prod.mk isSnapshot)).foldl deliver s := by
  rw [List.foldl_map]
  rfl

/-- During a recovery the callbacks take every message. -/
theorem foldl_recvCallback {received : List (Bool × List MDPMarketUpdate)} :
    ∀ {c : MarketDataConsumer},
      (∀ before rest, rest ≠ [] → deliveries received = before ++ rest →
        (before.foldl deliver c).inRecoveryMode = true) →
      received.foldl recvCallback c = (deliveries received).foldl deliver c := by
  induction received with
  | nil =>
      intro c _
      rfl
  | cons r received ih =>
      intro c hrecovering
      have hcons : deliveries (r :: received)
          = r.2.map (Prod.mk r.1) ++ deliveries received := rfl
      have hhead : recvCallback c r
          = (r.2.map (Prod.mk r.1)).foldl deliver c := by
        unfold recvCallback
        cases hmessages : r.2 with
        | nil =>
            split
            · rfl
            · rfl
        | cons message messages =>
            have hc : c.inRecoveryMode = true :=
              hrecovering [] (deliveries (r :: received))
                (by rw [hcons, hmessages]; exact List.cons_ne_nil _ _) rfl
            rw [if_neg (by rw [hc]; simp), foldl_onRequest]
      rw [List.foldl_cons, hhead, hcons, List.foldl_append]
      refine ih fun before rest hrest hdeliveries => ?_
      rw [← List.foldl_append]
      refine hrecovering _ rest hrest ?_
      rw [hcons, hdeliveries, List.append_assoc]

end MarketDataConsumer

-- ======================================================= what is published

namespace SnapshotSynthesizer

open Exec

/-- No stored order is a SNAPSHOT_START or SNAPSHOT_END. -/
def Plain (s : SnapshotSynthesizer) : Prop :=
  s.orderPool.All fun update => ¬ MarketDataConsumer.IsDelimiter update

theorem new_plain : Plain new := fun _ => by
  show ¬ MarketDataConsumer.IsDelimiter {}
  decide

theorem onOrderPool_plain {α : Type}
    {x : Prog (MemPool MatchingEngineMarketUpdate) α}
    (h : Keeps (MemPool.All fun update =>
      ¬ MarketDataConsumer.IsDelimiter update) x) :
    Keeps Plain (onOrderPool x) := by
  refine Spec.zoom fun s hs => ?_
  have hx := h s.orderPool hs
  split
  · next hrun =>
    rw [hrun] at hx
    exact hx
  · next hrun =>
    rw [hrun] at hx
    exact hx

theorem orderAt_plain (tickerId : TickerID) (orderId : OrderID) :
    Keeps Plain (orderAt tickerId orderId) :=
  Keeps.bind (assert_keeps _ _) fun _ => Keeps.get_bind fun _ _ => Keeps.pure _

theorem setOrderAt_plain (tickerId : TickerID) (orderId : OrderID)
    (order : Option Ptr) : Keeps Plain (setOrderAt tickerId orderId order) :=
  Keeps.modify fun _ hs => hs

/-- Only an ADD is stored. -/
theorem onAdd_plain {update : MatchingEngineMarketUpdate}
    (h : update.type = .add) : Keeps Plain (onAdd update) := by
  have hplain : ¬ MarketDataConsumer.IsDelimiter update := by
    unfold MarketDataConsumer.IsDelimiter
    rw [h]
    decide
  refine Keeps.bind (orderAt_plain _ _) fun _ => ?_
  refine Keeps.bind (assert_keeps _ _) fun _ => ?_
  refine Keeps.bind (onOrderPool_plain (MemPool.allocate_all hplain))
    fun _ => ?_
  exact setOrderAt_plain _ _ _

theorem existingOrder_plain (update : MatchingEngineMarketUpdate) :
    Keeps Plain (existingOrder update) := by
  refine Keeps.bind (orderAt_plain _ _) fun order => ?_
  cases order with
  | none => exact Keeps.throw _
  | some order =>
      refine Keeps.get_bind fun _ _ => ?_
      refine Keeps.bind (assert_keeps _ _) fun _ => ?_
      exact Keeps.bind (assert_keeps _ _) fun _ => Keeps.pure _

theorem onModify_plain (update : MatchingEngineMarketUpdate) :
    Keeps Plain (onModify update) :=
  Keeps.bind (existingOrder_plain _) fun order =>
    Keeps.modify fun s hs => by
      have hmodify := MemPool.All.modify (f := fun stored : MatchingEngineMarketUpdate =>
        { stored with quantity := update.quantity, price := update.price })
        hs order (hs order)
      exact hmodify

theorem onCancel_plain (update : MatchingEngineMarketUpdate) :
    Keeps Plain (onCancel update) := by
  refine Keeps.bind (existingOrder_plain _) fun order => ?_
  refine Keeps.bind (onOrderPool_plain (MemPool.deallocate_all order))
    fun _ => ?_
  exact setOrderAt_plain _ _ _

theorem addToSnapshot_plain (marketUpdate : MDPMarketUpdate) :
    Keeps Plain (addToSnapshot marketUpdate) := by
  refine Keeps.bind (assert_keeps _ _) fun _ => ?_
  refine Keeps.bind ?_ fun _ => ?_
  · unfold dispatch
    split
    · next h => exact onAdd_plain h
    · exact onModify_plain _
    · exact onCancel_plain _
    all_goals exact Keeps.pure _
  · refine Keeps.get_bind fun _ _ => ?_
    exact Keeps.bind (assert_keeps _ _) fun _ => Keeps.modify fun _ hs => hs

theorem forM_plain (marketUpdates : List MDPMarketUpdate) :
    Keeps Plain (marketUpdates.forM addToSnapshot) := by
  induction marketUpdates with
  | nil => exact Keeps.pure _
  | cons marketUpdate marketUpdates ih =>
      exact Keeps.bind (addToSnapshot_plain marketUpdate) fun _ => ih

/-- What is published is a snapshot as of the last update taken in. -/
theorem isSnapshot {s : SnapshotSynthesizer} (h : Plain s)
    (hn : s.lastIncrementSequenceNumber < 2 ^ 64) :
    MarketDataConsumer.IsSnapshot s.lastIncrementSequenceNumber s.payload
      (s.delimiter .snapshotStart
        :: (s.payload ++ [s.delimiter .snapshotEnd])) := by
  refine ⟨⟨_, _, rfl, rfl, rfl, ?_⟩, fun update hupdate => ?_⟩
  · unfold delimiter
    rw [UInt64.toNat_ofNat', Nat.mod_eq_of_lt hn]
  · obtain ⟨tickerId, -, hin⟩ := List.mem_flatMap.1 hupdate
    rcases List.mem_cons.1 hin with rfl | hin
    · intro h
      rcases h with htype | htype
      · cases htype
      · cases htype
    · obtain ⟨orderId, -, hsome⟩ := List.mem_filterMap.1 hin
      obtain ⟨p, -, rfl⟩ := Option.map_eq_some_iff.1 hsome
      exact h p

end SnapshotSynthesizer

-- ============================================================= the result

open MarketDataConsumer

section Recovery

variable {marketUpdates : List MDPMarketUpdate} {s : SnapshotSynthesizer}
  {incs : List MatchingEngineMarketUpdate} {c : MarketDataConsumer}
  {received : List (Bool × List MDPMarketUpdate)}

/-- A recovery from a snapshot as of incremental `n`, and the incrementals
from `n + 1` on, in any order in which a snapshot message comes last:
exactly when the snapshot's messages come in the order of their numbers
does it complete, and then the payload has been written in that order,
the incrementals after it, and the next number is the one after the
last. -/
theorem recovery_in_order
    (hpublished : (marketUpdates.forM addToSnapshot).run .new = .ok ⟨⟩ s)
    (hn : s.lastIncrementSequenceNumber + incs.length + 1 < 2 ^ 64)
    (hc : c.Started)
    (harrival : Arrival s.publishSnapshot
      (numbered (s.lastIncrementSequenceNumber + 1) incs)
      (deliveries received)) :
    ((received.foldl recvCallback c).inRecoveryMode = false
        ↔ InOrder (deliveries received))
      ∧ (InOrder (deliveries received) →
        (received.foldl recvCallback c).incomingMdQueue
            = c.incomingMdQueue ++ (s.payload
              ++ incs.filter fun update => ¬ IsDelimiter update)
          ∧ (received.foldl recvCallback c).nextExpectedSequenceNumber
            = s.lastIncrementSequenceNumber + incs.length + 1) := by
  have hplain : Plain s :=
    (forM_plain marketUpdates).of_run_ok new_plain hpublished
  have hsnapshot := isSnapshot hplain (by omega)
  have hfold : received.foldl recvCallback c
      = (deliveries received).foldl deliver c :=
    foldl_recvCallback fun before rest hrest hds =>
      (harrival.midway hsnapshot hc rest hrest hds).recovering
  obtain ⟨hdone, hnot⟩ := harrival.finish hsnapshot hc (by omega)
  rw [hfold]
  refine ⟨⟨fun hrecovered => ?_, fun h => (hdone h).1⟩, fun h => ?_⟩
  · by_contra h
    rw [hnot h] at hrecovered
    cases hrecovered
  · obtain ⟨-, hwritten, hnext⟩ := hdone h
    refine ⟨hwritten, ?_⟩
    rw [hnext]
    omega

end Recovery

/-- The snapshot of a synthesizer that has taken nothing in. -/
def firstSnapshot : List MDPMarketUpdate :=
  numbered 0 (SnapshotSynthesizer.new.delimiter .snapshotStart
    :: (tickerIds.map (fun tickerId => { type := .clear, tickerId := tickerId })
      ++ [SnapshotSynthesizer.new.delimiter .snapshotEnd]))

theorem publishSnapshot_new :
    SnapshotSynthesizer.new.publishSnapshot = firstSnapshot := by
  have hnone : ∀ tickerId, SnapshotSynthesizer.new.ordersOf tickerId = [] :=
    fun tickerId => List.filterMap_eq_nil_iff.2 fun _ _ => rfl
  have hpayload : SnapshotSynthesizer.new.payload = tickerIds.map
      fun tickerId => { type := .clear, tickerId := tickerId } := by
    unfold payload
    simp only [hnone]
    rw [List.map_eq_flatMap]
  unfold publishSnapshot firstSnapshot
  rw [hpayload]

/-- A consumer that has just begun to recover. -/
def waiting : MarketDataConsumer :=
  { MarketDataConsumer.new with inRecoveryMode := true }

/-- An incremental, and then the snapshot, in order. -/
theorem recovery_in_order_waiting :
    let received := [(false, numbered 1 [{ type := .add, tickerId := 3 }]),
      (true, firstSnapshot)]
    (received.foldl recvCallback waiting).inRecoveryMode = false
      ∧ (received.foldl recvCallback waiting).nextExpectedSequenceNumber
        = 2 := by
  intro received
  have hpublished : (([] : List MDPMarketUpdate).forM addToSnapshot).run .new
      = .ok ⟨⟩ SnapshotSynthesizer.new := rfl
  have hstarted : waiting.Started := ⟨rfl, rfl, rfl⟩
  have harrival : Arrival SnapshotSynthesizer.new.publishSnapshot
      (numbered 1 [{ type := .add, tickerId := 3 }]) (deliveries received) :=
    ⟨by rw [publishSnapshot_new]; decide, (deliveries received).take 10,
      ⟨9, SnapshotSynthesizer.new.delimiter .snapshotEnd⟩, by decide⟩
  have hresult := recovery_in_order hpublished (by decide) hstarted harrival
  have hinOrder : InOrder (deliveries received) := by decide
  exact ⟨hresult.1.2 hinOrder, (hresult.2 hinOrder).2⟩

/-- The snapshot with its first two messages exchanged. -/
def exchanged : List MDPMarketUpdate :=
  match firstSnapshot with
  | first :: second :: rest => second :: first :: rest
  | messages => messages

/-- One exchange of two snapshot messages, and the consumer has thrown the
snapshot away. -/
theorem recovery_depends_on_order :
    ([].forM addToSnapshot).run .new = .ok ⟨⟩ .new
      ∧ Arrival SnapshotSynthesizer.new.publishSnapshot (numbered 1 [])
        (deliveries [(true, exchanged)])
      ∧ waiting.Started
      ∧ ([(true, exchanged)].foldl recvCallback waiting).inRecoveryMode = true
      := by
  refine ⟨rfl, ⟨?_, (deliveries [(true, exchanged)]).take 9,
    ⟨9, SnapshotSynthesizer.new.delimiter .snapshotEnd⟩, by decide⟩,
    ⟨rfl, rfl, rfl⟩, by decide⟩
  rw [publishSnapshot_new]
  decide

end ElectronicTrading
