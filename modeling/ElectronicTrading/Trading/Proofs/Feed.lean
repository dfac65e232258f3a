/-
The consumer on streams that lose, repeat and reorder messages.

A `Feed` is what the exchange sends: its updates under the numbers 1, 2,
3, ..., and as of any of them a snapshot under the numbers 0, 1, 2, ...
What arrives is any list of these messages in any callbacks. Two
snapshots use the same numbers, so that the consumer cannot tell a message
of the one from a message of the other: a SNAPSHOT_END completes whatever
is queued under the numbers before its own. `EndsOwn` says of one message
that it completes no recovery from two snapshots, and `Unmixed` of a list
of packets that no such message is among them (`run_of_unmixed`). Messages
may be lost all the same, SNAPSHOT_START among them, or come late.

# The argument

What has been written is, from the last recovery on, a payload and the
updates from its number up to the number reached (`Writes`). In recovery
nothing is written until a snapshot has ended; the queued messages are at
every moment the snapshot messages that came last, under the numbers 0, 1,
2, ... (`Gathered`), since a gap empties the queue at once, and so does a
SNAPSHOT_END. The incrementals are kept under their numbers, whatever order
they come in, so that the loop over them reads a stretch of the updates
(`collectIncrementals_stretch`).
-/
import ElectronicTrading.Trading.Proofs.Recovery
import ElectronicTrading.Trading.Proofs.LiveSnapshot

namespace ElectronicTrading

open Runs

namespace MarketDataConsumer

/-- The updates that are sent, and the payloads of the snapshots. -/
structure Feed where
  updates : List MatchingEngineMarketUpdate
  payload : Nat → List MatchingEngineMarketUpdate
  plain : ∀ n, ∀ update ∈ payload n, ¬ IsDelimiter update
  short : updates.length < 2 ^ 64

/-- A message of the feed: an incremental, or one of a snapshot. -/
inductive Packet where
  | incremental (number : Nat)
  | snapshot (asOf number : Nat)
deriving DecidableEq, Repr

/-- The messages of snapshots, each as the update it is of and its
number. -/
def snapshots (ps : List Packet) : List (Nat × Nat) :=
  ps.filterMap fun
    | .snapshot asOf number => some (asOf, number)
    | .incremental _ => none

/-- Messages of snapshots that come one after the other and are numbered 0,
1, 2, ... are of one snapshot. -/
def Unmixed (ps : List Packet) : Prop :=
  ∀ block, block <:+: snapshots ps →
    block.map Prod.snd = List.range block.length →
    ∀ x ∈ block, ∀ y ∈ block, x.1 = y.1

instance (ps : List Packet) : Decidable (Unmixed ps) :=
  decidable_of_iff (∀ tail ∈ (snapshots ps).tails, ∀ block ∈ tail.inits,
      block.map Prod.snd = List.range block.length →
      ∀ x ∈ block, ∀ y ∈ block, x.1 = y.1) <| by
    constructor
    · intro h block hblock
      obtain ⟨tail, hinit, htail⟩ := List.infix_iff_prefix_suffix.1 hblock
      exact h tail ((List.mem_tails _ _).2 htail) block
        ((List.mem_inits _ _).2 hinit)
    · intro h tail htail block hinit
      exact h block (List.infix_iff_prefix_suffix.2 ⟨tail,
        (List.mem_inits _ _).1 hinit, (List.mem_tails _ _).1 htail⟩)

theorem snapshots_append (ps ps' : List Packet) :
    snapshots (ps ++ ps') = snapshots ps ++ snapshots ps' :=
  List.filterMap_append

theorem snapshots_incremental (ps : List Packet) (k : Nat) :
    snapshots (ps ++ [.incremental k]) = snapshots ps := by
  rw [snapshots_append]
  exact List.append_nil _

theorem snapshots_snapshot (ps : List Packet) (n k : Nat) :
    snapshots (ps ++ [.snapshot n k]) = snapshots ps ++ [(n, k)] :=
  snapshots_append ps _

/-- A message completes no recovery from two snapshots. Where it is a
SNAPSHOT_END that comes under the next number of the queued snapshot, and
no queued incremental is missing after it, all that is queued is of its own
snapshot; what is queued are the snapshot messages that came last. -/
def EndsOwn (ps : List Packet) (s : MarketDataConsumer) :
    Packet → Delivery → Prop
  | .incremental _, _ => True
  | .snapshot n k, d =>
      d.2.meMarketUpdate.type = .snapshotEnd →
      k = s.snapshotQueuedMsgs.entries.length →
      (collectIncrementals s.incrementalQueuedMsgs.entries
        ((n + 1) % 2 ^ 64) []).1 = true →
      ∀ x ∈ (snapshots ps).drop ((snapshots ps).length - k), x.1 = n

instance (ps : List Packet) (s : MarketDataConsumer) :
    (p : Packet) → (d : Delivery) → Decidable (s.EndsOwn ps p d)
  | .incremental _, _ => .isTrue trivial
  | .snapshot _ _, _ => inferInstanceAs (Decidable (_ → _ → _ → _))

namespace Feed

variable (f : Feed)

/-- The messages of the snapshot as of `n`. -/
def snapshot (n : Nat) : List MatchingEngineMarketUpdate :=
  { type := .snapshotStart, orderId := UInt64.ofNat n }
    :: (f.payload n ++ [{ type := .snapshotEnd, orderId := UInt64.ofNat n }])

/-- The updates after number `n`, up to number `m`. -/
def between (n m : Nat) : List MatchingEngineMarketUpdate :=
  (f.updates.take m).drop n

/-- What is delivered when a packet arrives. -/
def Sends : Packet → Delivery → Prop
  | .incremental k, d => d.1 = false
      ∧ ∃ j u, k = j + 1 ∧ f.updates[j]? = some u ∧ d.2 = ⟨k, u⟩
  | .snapshot n k, d => d.1 = true ∧ n ≤ f.updates.length
      ∧ ∃ u, (f.snapshot n)[k]? = some u ∧ d.2 = ⟨k, u⟩

/-- What has been written when update `m` is the last of it: before the
last recovery, and from there on. -/
inductive Writes : List MatchingEngineMarketUpdate →
    List MatchingEngineMarketUpdate → Nat → Prop
  | start : Writes [] [] 0
  | next {before current : List MatchingEngineMarketUpdate} {m : Nat}
      {u : MatchingEngineMarketUpdate} (h : Writes before current m)
      (hu : f.updates[m]? = some u) : Writes before (current ++ [u]) (m + 1)
  | recover {before current : List MatchingEngineMarketUpdate} {m n m' : Nat}
      (h : Writes before current m) (hn : n ≤ m')
      (hm : m' ≤ f.updates.length) :
      Writes (before ++ current)
        (f.payload n ++ events (f.between n m')) m'

variable {f}

theorem isSnapshot {n : Nat} (hn : n ≤ f.updates.length) :
    IsSnapshot n (f.payload n) (f.snapshot n) where
  shape := by
    refine ⟨_, _, rfl, rfl, rfl, ?_⟩
    have hshort := f.short
    rw [UInt64.toNat_ofNat', Nat.mod_eq_of_lt (by omega)]
  plain := f.plain n

/-- No more is written than is sent. -/
theorem Writes.le {before current : List MatchingEngineMarketUpdate} {m : Nat}
    (h : f.Writes before current m) : m ≤ f.updates.length := by
  cases h with
  | start => exact Nat.zero_le _
  | next _ hu => exact (List.getElem?_eq_some_iff.1 hu).1
  | recover _ _ hm => exact hm

theorem between_self (n : Nat) : f.between n n = [] := by
  unfold between
  exact List.drop_eq_nil_of_le (List.length_take_le _ _)

/-- The first update after number `n`. -/
theorem between_cons {n m : Nat} {u : MatchingEngineMarketUpdate}
    (hu : f.updates[n]? = some u) (hm : n < m) :
    f.between n m = u :: f.between (n + 1) m := by
  have hn := (List.getElem?_eq_some_iff.1 hu).1
  have hlen : n < (f.updates.take m).length := by
    rw [List.length_take]
    omega
  unfold between
  rw [List.drop_eq_getElem_cons hlen, List.getElem_take]
  congr 1
  exact (List.getElem?_eq_some_iff.1 hu).2

/-- The queued incrementals are updates under their numbers. -/
def Stretch (f : Feed) (l : List (Nat × MatchingEngineMarketUpdate)) : Prop :=
  ∀ e ∈ l, ∃ j, e.1 = j + 1 ∧ f.updates[j]? = some e.2

/-- An update whose number is the next one. No number has come round to 0:
the updates are fewer. -/
theorem eq_of_number {j n : Nat} {u : MatchingEngineMarketUpdate}
    (h : j + 1 = (n + 1) % 2 ^ 64) (hn : n ≤ f.updates.length)
    (hu : f.updates[j]? = some u) : j = n := by
  have hj := (List.getElem?_eq_some_iff.1 hu).1
  have hshort := f.short
  omega

/-- The loop over them reads the updates from its number on, as far as it
comes. -/
theorem collectIncrementals_stretch
    {l : List (Nat × MatchingEngineMarketUpdate)} (h : f.Stretch l) :
    ∀ (n : Nat) (finalEvents : List MatchingEngineMarketUpdate),
      n ≤ f.updates.length → ∃ ok m, n ≤ m ∧ m ≤ f.updates.length
        ∧ collectIncrementals l ((n + 1) % 2 ^ 64) finalEvents
          = (ok, (m + 1) % 2 ^ 64,
            finalEvents ++ events (f.between n m)) := by
  have hstop : ∀ (n : Nat) (finalEvents : List MatchingEngineMarketUpdate),
      finalEvents = finalEvents ++ events (f.between n n) := by
    intro n finalEvents
    rw [between_self]
    exact (List.append_nil _).symm
  induction l with
  | nil =>
      intro n finalEvents hn
      refine ⟨true, n, Nat.le_refl n, hn, ?_⟩
      rw [← hstop]
      rfl
  | cons e l ih =>
      intro n finalEvents hn
      have hrest : f.Stretch l := fun e' he' =>
        h e' (List.mem_cons_of_mem e he')
      obtain ⟨j, hj, hu⟩ := h e List.mem_cons_self
      unfold collectIncrementals
      by_cases hold : e.1 < (n + 1) % 2 ^ 64
      · rw [if_pos hold]
        exact ih hrest n finalEvents hn
      · rw [if_neg hold]
        by_cases hnext : e.1 = (n + 1) % 2 ^ 64
        · have hjn : j = n := f.eq_of_number (hj.symm.trans hnext) hn hu
          rw [hjn] at hu
          have hlt := (List.getElem?_eq_some_iff.1 hu).1
          have hself : ((n + 1) % 2 ^ 64 + 1) % 2 ^ 64
              = (n + 1 + 1) % 2 ^ 64 := Nat.mod_add_mod ..
          rw [if_neg (not_not.2 hnext), hself]
          obtain ⟨ok, m, hle, hm, heq⟩ :=
            ih hrest (n + 1) (pushEvent finalEvents e.2) hlt
          refine ⟨ok, m, by omega, hm, ?_⟩
          rw [heq, pushEvent_eq, between_cons hu hle,
            events_cons e.2 (f.between (n + 1) m), List.append_assoc]
        · rw [if_pos hnext]
          refine ⟨false, n, Nat.le_refl n, hn, ?_⟩
          rw [← hstop]

end Feed

-- ============================================================== the invariant

variable {f : Feed} {s : MarketDataConsumer} {ps : List Packet}

/-- Something of the feed has been written, up to number `m`. -/
def Feed.Written (f : Feed) (s : MarketDataConsumer) (m : Nat) : Prop :=
  ∃ before current, f.Writes before current m
    ∧ s.incomingMdQueue = before ++ current

/-- The queued message is the one of the packet. -/
def Feed.Queues (f : Feed) (x : Nat × Nat)
    (e : Nat × MatchingEngineMarketUpdate) : Prop :=
  x.1 ≤ f.updates.length ∧ x.2 = e.1 ∧ (f.snapshot x.1)[e.1]? = some e.2

/-- The entries are the snapshot messages that came last, under numbers
without a gap. -/
structure Feed.Gathered (f : Feed) (ps : List Packet)
    (l : List (Nat × MatchingEngineMarketUpdate)) : Prop where
  contiguous : Contiguous 0 l
  last : ∃ block, block <:+ snapshots ps ∧ List.Forall₂ f.Queues block l

/-- And no snapshot among them has ended. -/
structure Feed.Queued (f : Feed) (ps : List Packet)
    (l : List (Nat × MatchingEngineMarketUpdate)) : Prop
    extends f.Gathered ps l where
  waits : ∀ e ∈ l, e.2.type ≠ .snapshotEnd

theorem Feed.queued_nil (f : Feed) (ps : List Packet) : f.Queued ps [] where
  contiguous := rfl
  last := ⟨[], List.nil_suffix, .nil⟩
  waits := fun _ he => by cases he

/-- What holds between messages, after the packets `ps`. -/
structure Feed.Inv (f : Feed) (ps : List Packet) (s : MarketDataConsumer) :
    Prop where
  written : ∃ m, f.Written s m
    ∧ (s.inRecoveryMode = false →
      s.nextExpectedSequenceNumber = (m + 1) % 2 ^ 64)
  incrementals : f.Stretch s.incrementalQueuedMsgs.entries
  queued : f.Queued ps s.snapshotQueuedMsgs.entries
  idle : s.inRecoveryMode = false → s.snapshotQueuedMsgs.entries = []

theorem Feed.inv_new (f : Feed) : f.Inv [] new where
  written := ⟨0, ⟨[], [], .start, rfl⟩, fun _ => rfl⟩
  incrementals := fun _ he => by cases he
  queued := f.queued_nil []
  idle := fun _ => rfl

/-- What holds in recovery when a message has been put into its map. -/
structure Feed.Stocked (f : Feed) (s : MarketDataConsumer) : Prop where
  recovering : s.inRecoveryMode = true
  written : ∃ m, f.Written s m
  incrementals : f.Stretch s.incrementalQueuedMsgs.entries

/-- With the snapshot thrown away. -/
theorem Feed.Stocked.emptied (h : f.Stocked s) {next : Nat} :
    f.Inv ps { s with
      nextExpectedSequenceNumber := next, snapshotQueuedMsgs := .empty } where
  written := h.written.imp fun _ hm =>
    ⟨hm, fun hidle => by rw [h.recovering] at hidle; cases hidle⟩
  incrementals := h.incrementals
  queued := f.queued_nil ps
  idle := fun _ => rfl

/-- With the snapshot waiting for more. -/
theorem Feed.Stocked.waiting (h : f.Stocked s)
    (hqueued : f.Queued ps s.snapshotQueuedMsgs.entries) : f.Inv ps s where
  written := h.written.imp fun _ hm =>
    ⟨hm, fun hidle => by rw [h.recovering] at hidle; cases hidle⟩
  incrementals := h.incrementals
  queued := hqueued
  idle := fun hidle => by rw [h.recovering] at hidle; cases hidle

/-- A whole snapshot: the recovery completes, unless the incrementals have
a gap. -/
theorem Feed.Stocked.whole (h : f.Stocked s) {n : Nat}
    (hn : n ≤ f.updates.length) {last : MatchingEngineMarketUpdate}
    (htype : last.type = .snapshotEnd) (hlast : last.orderId.toNat = n) :
    f.Inv ps (s.checkIncrementals (f.payload n) last) := by
  obtain ⟨m, before, current, hwrites, hqueue⟩ := h.written
  obtain ⟨ok, m', hle, hm', heq⟩ :=
    Feed.collectIncrementals_stretch h.incrementals n (f.payload n) hn
  unfold checkIncrementals
  rw [if_neg (not_not.2 htype), hlast, heq]
  dsimp only
  cases ok with
  | true =>
      rw [if_pos rfl]
      refine
        { written := ⟨m', ⟨before ++ current, _, .recover hwrites hle hm', ?_⟩,
            fun _ => rfl⟩
          incrementals := fun _ he => by cases he
          queued := f.queued_nil ps
          idle := fun _ => rfl }
      rw [hqueue]
  | false =>
      rw [if_neg Bool.false_ne_true]
      exact h.emptied

/-- Whether incrementals are missing does not depend on the events so
far. -/
theorem collectIncrementals_complete
    {l : List (Nat × MatchingEngineMarketUpdate)} :
    ∀ (next : Nat) (finalEvents finalEvents' :
        List MatchingEngineMarketUpdate),
      (collectIncrementals l next finalEvents).1
        = (collectIncrementals l next finalEvents').1 := by
  induction l with
  | nil =>
      intro next finalEvents finalEvents'
      rfl
  | cons e l ih =>
      intro next finalEvents finalEvents'
      unfold collectIncrementals
      split
      · exact ih _ _ _
      · split
        · rfl
        · exact ih _ _ _

/-- With incrementals missing, the snapshot is thrown away whatever is in
it. -/
theorem Feed.Stocked.missing (h : f.Stocked s)
    {finalEvents : List MatchingEngineMarketUpdate}
    {last : MatchingEngineMarketUpdate} (htype : last.type = .snapshotEnd)
    (hmissing : ¬ (collectIncrementals s.incrementalQueuedMsgs.entries
      ((last.orderId.toNat + 1) % 2 ^ 64) []).1 = true) :
    f.Inv ps (s.checkIncrementals finalEvents last) := by
  rw [collectIncrementals_complete _ _ finalEvents] at hmissing
  unfold checkIncrementals
  rw [if_neg (not_not.2 htype)]
  dsimp only
  rw [if_neg hmissing]
  exact h.emptied

variable {l : List (Nat × MatchingEngineMarketUpdate)}

theorem contiguous_concat (h : Contiguous 0 l) {k : Nat} {u : MatchingEngineMarketUpdate} :
    Contiguous 0 (l ++ [(k, u)]) ↔ k = l.length := by
  unfold Contiguous at h ⊢
  rw [List.map_append, h, List.length_append, List.length_singleton,
    List.range'_concat, List.append_cancel_left_eq, Nat.zero_add, Nat.one_mul]
  constructor
  · intro heq
    cases heq
    rfl
  · intro heq
    rw [heq]
    rfl

/-- What is queued begins with SNAPSHOT_START. -/
theorem Feed.Gathered.first {e : Nat × MatchingEngineMarketUpdate}
    (h : f.Gathered ps (e :: l)) : e.2.type = .snapshotStart := by
  obtain ⟨block, -, hblock⟩ := h.last
  cases hblock with
  | cons hqueues _ =>
      obtain ⟨-, -, he⟩ := hqueues
      rw [(contiguous_cons.1 h.contiguous).1] at he
      rw [← Option.some.inj he]

/-- With all of the last messages of one snapshot, it is of that
snapshot. -/
theorem Feed.Gathered.of_own (h : f.Gathered ps l) {n : Nat}
    (hown : ∀ x ∈ (snapshots ps).drop ((snapshots ps).length - l.length),
      x.1 = n) : Of (f.snapshot n) l := by
  obtain ⟨block, hlast, hblock⟩ := h.last
  rw [← hblock.length_eq, ← List.suffix_iff_eq_drop.1 hlast] at hown
  intro e he
  obtain ⟨i, hi, rfl⟩ := List.getElem_of_mem he
  have hi' : i < block.length := by
    rw [hblock.length_eq]
    exact hi
  obtain ⟨-, -, hqueued⟩ := hblock.get hi' hi
  rw [hown _ (List.get_mem block ⟨i, hi'⟩)] at hqueued
  exact hqueued

/-- One more message of a snapshot. -/
theorem Feed.Gathered.snoc (h : f.Gathered ps l) {n : Nat}
    {u : MatchingEngineMarketUpdate} (hn : n ≤ f.updates.length)
    (hu : (f.snapshot n)[l.length]? = some u) :
    f.Gathered (ps ++ [.snapshot n l.length]) (l ++ [(l.length, u)]) := by
  obtain ⟨block, hlast, hblock⟩ := h.last
  refine
    { contiguous := (contiguous_concat h.contiguous).2 rfl
      last := ⟨block ++ [(n, l.length)], ?_, ?_⟩ }
  · rw [snapshots_snapshot]
    obtain ⟨more, hmore⟩ := hlast
    exact ⟨more, by rw [← hmore, List.append_assoc]⟩
  · exact List.rel_append hblock (.cons ⟨hn, rfl, hu⟩ .nil)

/-- A SNAPSHOT_END is the last message of its snapshot, and has its
number. -/
theorem Feed.end_of_type {n k : Nat} {u : MatchingEngineMarketUpdate}
    (hn : n ≤ f.updates.length) (hu : (f.snapshot n)[k]? = some u)
    (htype : u.type = .snapshotEnd) :
    k + 1 = (f.snapshot n).length ∧ u.orderId.toNat = n := by
  have hk := (List.getElem?_eq_some_iff.1 hu).1
  have hlast : k + 1 = (f.snapshot n).length := by
    by_contra hne
    exact (Feed.isSnapshot hn).not_end hu (by omega) htype
  refine ⟨hlast, ?_⟩
  obtain ⟨first, last, hshape, -, -, hnumber⟩ := (Feed.isSnapshot hn).shape
  rw [hshape, ← List.cons_append] at hu hlast
  rw [List.length_append, List.length_singleton] at hlast
  rw [show k = (first :: f.payload n).length by omega,
    List.getElem?_concat_length] at hu
  rw [← Option.some.inj hu]
  exact hnumber

/-- It is passed on; what is left to check is its last message. -/
theorem Feed.Gathered.check {k : Nat} {u : MatchingEngineMarketUpdate}
    (h : f.Gathered ps (l ++ [(k, u)]))
    (hentries : s.snapshotQueuedMsgs.entries = l ++ [(k, u)]) :
    ∃ finalEvents,
      s.checkSnapshotSync = s.checkIncrementals finalEvents u := by
  obtain ⟨e, rest, hcons⟩ : ∃ e rest, l ++ [(k, u)] = e :: rest :=
    List.exists_cons_of_ne_nil (List.append_ne_nil_of_right_ne_nil _
      (List.cons_ne_nil _ _))
  have hlast : (e :: rest).getLast (List.cons_ne_nil e rest) = (k, u) := by
    simp only [← hcons, List.getLast_concat]
  rw [hcons] at hentries h
  exact ⟨_, by rw [check_contiguous hentries h.contiguous h.first, hlast]⟩

/-- `checkSnapshotSync` with no snapshot ended. -/
theorem Feed.Stocked.check (h : f.Stocked s)
    (hqueued : f.Queued ps s.snapshotQueuedMsgs.entries) :
    f.Inv ps s.checkSnapshotSync := by
  have hcheck : s.checkSnapshotSync = s := by
    cases hentries : s.snapshotQueuedMsgs.entries with
    | nil =>
        unfold checkSnapshotSync
        rw [hentries]
    | cons e l =>
        rw [hentries] at hqueued
        rw [check_contiguous hentries hqueued.contiguous
          hqueued.toGathered.first]
        unfold checkIncrementals
        rw [if_pos (hqueued.waits _ (List.getLast_mem _))]
  rw [hcheck]
  exact h.waiting hqueued

/-- `checkSnapshotSync` when a SNAPSHOT_END has come: of what is queued
before it something is written only if it is of the same snapshot. -/
theorem Feed.Stocked.check_ended (h : f.Stocked s) {n : Nat}
    {u : MatchingEngineMarketUpdate} (hn : n ≤ f.updates.length)
    (hu : (f.snapshot n)[l.length]? = some u) (htype : u.type = .snapshotEnd)
    (hentries : s.snapshotQueuedMsgs.entries = l ++ [(l.length, u)])
    (hgathered : f.Gathered ps (l ++ [(l.length, u)]))
    (hown : (collectIncrementals s.incrementalQueuedMsgs.entries
      ((n + 1) % 2 ^ 64) []).1 = true → Of (f.snapshot n) l) :
    f.Inv ps s.checkSnapshotSync := by
  obtain ⟨hlast, hnumber⟩ := Feed.end_of_type hn hu htype
  by_cases hcomplete : (collectIncrementals s.incrementalQueuedMsgs.entries
      ((n + 1) % 2 ^ 64) []).1 = true
  · have hof : Of (f.snapshot n) s.snapshotQueuedMsgs.entries := by
      rw [hentries]
      intro e he
      rcases List.mem_append.1 he with he | he
      · exact hown hcomplete e he
      · rw [List.mem_singleton.1 he]
        exact hu
    have hcontiguous : Contiguous 0 s.snapshotQueuedMsgs.entries := by
      rw [hentries]
      exact hgathered.contiguous
    have hlength : s.snapshotQueuedMsgs.entries.length
        = (f.snapshot n).length := by
      rw [hentries, List.length_append, List.length_singleton, hlast]
    obtain ⟨last, hend, horder, hcheck⟩ :=
      check_complete (Feed.isSnapshot hn) hof hcontiguous hlength
    rw [hcheck]
    exact h.whole hn hend horder
  · obtain ⟨finalEvents, hcheck⟩ := hgathered.check hentries
    rw [hcheck]
    refine h.missing htype ?_
    rw [hnumber]
    exact hcomplete

-- ============================================================ one message

/-- The keys of entries without a gap. -/
theorem contiguous_key {l : List (Nat × MatchingEngineMarketUpdate)}
    (h : Contiguous 0 l) {k : Nat} : (∃ e ∈ l, e.1 = k) ↔ k < l.length := by
  have hmap := List.mem_map (f := Prod.fst) (l := l) (b := k)
  unfold Contiguous at h
  rw [← hmap, h, List.mem_range'_1]
  omega

/-- A snapshot message in the map, which it has emptied if its number was
there. -/
def queueSnapshot (queued : QueuedMarketUpdates) (k : Nat)
    (u : MatchingEngineMarketUpdate) : QueuedMarketUpdates :=
  (if queued.contains k then .empty else queued).insert k u

/-- It continues what is queued; or it makes a gap, or is the first of a
snapshot. -/
theorem Feed.Queued.queueSnapshot {queued : QueuedMarketUpdates}
    (h : f.Queued ps queued.entries) (k : Nat)
    (u : MatchingEngineMarketUpdate) :
    (k = queued.entries.length
        ∧ (queueSnapshot queued k u).entries = queued.entries ++ [(k, u)])
      ∨ (k ≠ queued.entries.length
        ∧ (¬ Contiguous 0 (queueSnapshot queued k u).entries
          ∨ k = 0 ∧ (queueSnapshot queued k u).entries = [(k, u)])) := by
  have hkey := contiguous_key (k := k) h.contiguous
  rw [← SortedMap.contains_iff] at hkey
  unfold MarketDataConsumer.queueSnapshot
  by_cases hcontains : queued.contains k = true
  · have hlt := hkey.1 hcontains
    rw [if_pos hcontains]
    refine Or.inr ⟨Nat.ne_of_lt hlt, ?_⟩
    have hentries : (SortedMap.insert .empty k u).entries = [(k, u)] := rfl
    rw [hentries]
    by_cases hk : k = 0
    · exact Or.inr ⟨hk, rfl⟩
    · exact Or.inl fun hcontiguous => hk (contiguous_cons.1 hcontiguous).1
  · rw [if_neg hcontains]
    have hle : queued.entries.length ≤ k :=
      Nat.not_lt.1 fun hlt => hcontains (hkey.2 hlt)
    have hentries : (queued.insert k u).entries
        = queued.entries ++ [(k, u)] :=
      SortedMap.insert_entries_of_lt fun e he => Nat.lt_of_lt_of_le
        ((contiguous_key h.contiguous).1 ⟨e, he, rfl⟩) hle
    rw [hentries]
    by_cases hk : k = queued.entries.length
    · exact Or.inl ⟨hk, rfl⟩
    · exact Or.inr ⟨hk, Or.inl fun hcontiguous =>
        hk ((contiguous_concat h.contiguous).1 hcontiguous)⟩

/-- An incremental is none of them. -/
theorem Feed.Queued.incremental (h : f.Queued ps l) (k : Nat) :
    f.Queued (ps ++ [.incremental k]) l where
  contiguous := h.contiguous
  last := by
    rw [snapshots_incremental]
    exact h.last
  waits := h.waits

/-- `queueMessage` of a message of the feed. -/
theorem Feed.Stocked.queueMessage (h : f.Stocked s)
    (hqueued : f.Queued ps s.snapshotQueuedMsgs.entries) {p : Packet}
    {d : Delivery} (hsends : f.Sends p d) (hown : s.EndsOwn ps p d) :
    f.Inv (ps ++ [p]) (s.queueMessage d.1 d.2) := by
  unfold MarketDataConsumer.queueMessage
  cases p with
  | incremental k =>
      obtain ⟨hincremental, j, u, hk, hu, hmessage⟩ := hsends
      rw [hincremental, hmessage]
      refine Feed.Stocked.check ⟨h.recovering, h.written, fun e he => ?_⟩
        (hqueued.incremental k)
      rcases SortedMap.mem_insert.1 he with heq | ⟨-, he⟩
      · rw [heq]
        exact ⟨j, hk, hu⟩
      · exact h.incrementals e he
  | snapshot n k =>
      obtain ⟨hsnapshot, hn, u, hu, hmessage⟩ := hsends
      rw [hsnapshot, hmessage, if_pos rfl]
      have htypes : d.2.meMarketUpdate.type = u.type := by rw [hmessage]
      have hstocked : f.Stocked { s with
          snapshotQueuedMsgs := queueSnapshot s.snapshotQueuedMsgs k u } :=
        ⟨h.recovering, h.written, h.incrementals⟩
      rcases hqueued.queueSnapshot k u with
        ⟨rfl, hentries⟩ | ⟨-, hgap | ⟨rfl, hentries⟩⟩
      · have hgathered := hqueued.toGathered.snoc hn hu
        by_cases htype : u.type = .snapshotEnd
        · exact hstocked.check_ended hn hu htype hentries hgathered
            fun hcomplete => hqueued.toGathered.of_own
              (hown (htypes.trans htype) rfl hcomplete)
        · refine hstocked.check ?_
          show f.Queued _ (queueSnapshot s.snapshotQueuedMsgs _ u).entries
          rw [hentries]
          refine { toGathered := hgathered, waits := fun e he => ?_ }
          rcases List.mem_append.1 he with he | he
          · exact hqueued.waits e he
          · rw [List.mem_singleton.1 he]
            exact htype
      · have hcheck := check_gap (s := { s with
          snapshotQueuedMsgs := queueSnapshot s.snapshotQueuedMsgs k u }) hgap
        exact hcheck ▸ hstocked.emptied
      · -- SNAPSHOT_START: what was queued is gone
        refine hstocked.check ?_
        show f.Queued _ (queueSnapshot s.snapshotQueuedMsgs 0 u).entries
        rw [hentries]
        refine { toGathered := (f.queued_nil ps).toGathered.snoc hn hu
                 waits := fun e he => ?_ }
        rw [List.mem_singleton.1 he, ← Option.some.inj hu]
        exact MarketUpdateType.noConfusion

/-- A message of the feed keeps the invariant. -/
theorem Feed.Inv.deliver (h : f.Inv ps s) {p : Packet} {d : Delivery}
    (hsends : f.Sends p d) (hown : s.EndsOwn ps p d) :
    f.Inv (ps ++ [p]) (s.deliver d) := by
  obtain ⟨m, hwritten, hnext⟩ := h.written
  have hidle : s.inRecoveryMode = false →
      f.Queued (ps ++ [p]) s.snapshotQueuedMsgs.entries := fun hmode => by
    rw [h.idle hmode]
    exact f.queued_nil _
  unfold MarketDataConsumer.deliver onRequest
  cases hmode : s.inRecoveryMode with
  | true =>
      have hself : ({ s with inRecoveryMode := true } : MarketDataConsumer)
          = s := by
        rw [← hmode]
      simp only [Bool.true_or, if_true]
      rw [hself]
      exact Feed.Stocked.queueMessage ⟨hmode, ⟨m, hwritten⟩, h.incrementals⟩
        h.queued hsends hown
  | false =>
      by_cases hnumber : d.2.sequenceNumber = s.nextExpectedSequenceNumber
      · simp only [hnumber, ne_eq, not_true_eq_false, decide_false,
          Bool.or_self, Bool.false_eq_true, if_false]
        cases p with
        | incremental k =>
            obtain ⟨hincremental, j, u, hk, hu, hmessage⟩ := hsends
            rw [hmessage, hnext hmode] at hnumber
            have hj : j = m := by
              refine f.eq_of_number (hk.symm.trans hnumber) ?_ hu
              obtain ⟨before, current, hwrites, -⟩ := hwritten
              exact hwrites.le
            have hlater : (s.nextExpectedSequenceNumber + 1) % 2 ^ 64
                = (m + 1 + 1) % 2 ^ 64 := by
              rw [hnext hmode, Nat.mod_add_mod]
            rw [hj] at hu
            rw [hincremental, hmessage]
            obtain ⟨before, current, hwrites, hqueue⟩ := hwritten
            refine
              { written := ⟨m + 1, ⟨before, current ++ [u], .next hwrites hu,
                  ?_⟩, fun _ => hlater⟩
                incrementals := h.incrementals
                queued := hidle hmode
                idle := fun _ => h.idle hmode }
            show s.incomingMdQueue ++ [u] = _
            rw [hqueue, List.append_assoc]
        | snapshot n k =>
            rw [hsends.1, if_pos rfl]
            exact
              { written := ⟨m, hwritten, fun _ => hnext hmode⟩
                incrementals := h.incrementals
                queued := hidle hmode
                idle := fun _ => h.idle hmode }
      · simp only [hnumber, ne_eq, not_false_eq_true, decide_true,
          Bool.or_true, if_true, Bool.false_eq_true, if_false]
        have hstarted : f.Stocked
            (startSnapshotSync { s with inRecoveryMode := true }) :=
          ⟨rfl, ⟨m, hwritten⟩, fun e he => by cases he⟩
        refine hstarted.queueMessage (f.queued_nil ps) hsends ?_
        cases p with
        | incremental k => trivial
        | snapshot n k =>
            -- nothing is queued that it could end
            intro _ hk _ x hx
            rw [show k = 0 from hk, Nat.sub_zero, List.drop_length] at hx
            cases hx

/-- The last check completes the recovery with a SNAPSHOT_END and no
incremental missing. -/
theorem checkIncrementals_completes_iff (hmode : s.inRecoveryMode = true)
    {finalEvents : List MatchingEngineMarketUpdate}
    {last : MatchingEngineMarketUpdate} :
    (s.checkIncrementals finalEvents last).inRecoveryMode = false
      ↔ last.type = .snapshotEnd
        ∧ (collectIncrementals s.incrementalQueuedMsgs.entries
          ((last.orderId.toNat + 1) % 2 ^ 64) []).1 = true := by
  rw [collectIncrementals_complete _ [] finalEvents]
  unfold checkIncrementals
  by_cases htype : last.type = .snapshotEnd
  · rw [if_neg (not_not.2 htype)]
    dsimp only
    split
    · next hcomplete => exact ⟨fun _ => ⟨htype, hcomplete⟩, fun _ => rfl⟩
    · next hmissing =>
      constructor
      · intro hidle
        exact absurd (hidle.symm.trans hmode) Bool.false_ne_true
      · intro ⟨_, hcomplete⟩
        exact absurd hcomplete hmissing
  · rw [if_pos htype]
    simp [htype, hmode]

/-- In a recovery, a snapshot message completes it when it is a SNAPSHOT_END
that comes under the next number of the queued snapshot, and no queued
incremental is missing after it. -/
theorem Feed.Inv.completes_iff (h : f.Inv ps s)
    (hmode : s.inRecoveryMode = true) {n k : Nat} {d : Delivery}
    (hsends : f.Sends (.snapshot n k) d) :
    (s.deliver d).inRecoveryMode = false
      ↔ d.2.meMarketUpdate.type = .snapshotEnd
        ∧ k = s.snapshotQueuedMsgs.entries.length
        ∧ (collectIncrementals s.incrementalQueuedMsgs.entries
          ((n + 1) % 2 ^ 64) []).1 = true := by
  obtain ⟨hsnapshot, hn, u, hu, hmessage⟩ := hsends
  have hdeliver : s.deliver d = checkSnapshotSync { s with
      snapshotQueuedMsgs := queueSnapshot s.snapshotQueuedMsgs k u } := by
    have hself : ({ s with inRecoveryMode := true } : MarketDataConsumer)
        = s := by
      rw [← hmode]
    have hqueue : s.deliver d = s.queueMessage d.1 d.2 := by
      unfold MarketDataConsumer.deliver onRequest
      simp only [hmode, Bool.true_or, if_true]
      rw [hself]
    rw [hqueue, hsnapshot, hmessage]
    rfl
  rw [hdeliver, hmessage]
  dsimp only
  rcases h.queued.queueSnapshot k u with
    ⟨rfl, hentries⟩ | ⟨hk, hgap | ⟨rfl, hentries⟩⟩
  · have hgathered := h.queued.toGathered.snoc hn hu
    obtain ⟨finalEvents, hcheck⟩ := Feed.Gathered.check (s := { s with
      snapshotQueuedMsgs := queueSnapshot s.snapshotQueuedMsgs _ u })
      hgathered hentries
    rw [hcheck]
    refine (checkIncrementals_completes_iff (s := { s with
      snapshotQueuedMsgs := queueSnapshot s.snapshotQueuedMsgs _ u })
      hmode).trans ?_
    constructor
    · intro ⟨htype, hcomplete⟩
      rw [(Feed.end_of_type hn hu htype).2] at hcomplete
      exact ⟨htype, rfl, hcomplete⟩
    · intro ⟨htype, _, hcomplete⟩
      rw [(Feed.end_of_type hn hu htype).2]
      exact ⟨htype, hcomplete⟩
  · rw [check_gap hgap]
    simp [hk, hmode]
  · have hgathered := (f.queued_nil ps).toGathered.snoc hn hu
    obtain ⟨finalEvents, hcheck⟩ := Feed.Gathered.check (s := { s with
      snapshotQueuedMsgs := queueSnapshot s.snapshotQueuedMsgs 0 u })
      hgathered hentries
    rw [hcheck]
    refine (checkIncrementals_completes_iff (s := { s with
      snapshotQueuedMsgs := queueSnapshot s.snapshotQueuedMsgs 0 u })
      hmode).trans ?_
    have hstart : u.type ≠ .snapshotEnd := by
      rw [← Option.some.inj hu]
      exact MarketUpdateType.noConfusion
    simp [hstart]

/-- So `EndsOwn` leaves out no more than it has to: what is queued when a
message completes the recovery is of the message's own snapshot. -/
theorem Feed.Inv.endsOwn_iff (h : f.Inv ps s)
    (hmode : s.inRecoveryMode = true) {n k : Nat} {d : Delivery}
    (hsends : f.Sends (.snapshot n k) d) :
    s.EndsOwn ps (.snapshot n k) d
      ↔ ((s.deliver d).inRecoveryMode = false →
        ∀ x ∈ (snapshots ps).drop ((snapshots ps).length
          - s.snapshotQueuedMsgs.entries.length), x.1 = n) := by
  rw [h.completes_iff hmode hsends]
  constructor
  · intro hown ⟨htype, hk, hcomplete⟩
    rw [← hk]
    exact hown htype hk hcomplete
  · intro hown htype hk hcomplete
    rw [hk]
    exact hown ⟨htype, hk, hcomplete⟩

-- ================================================================= callbacks

/-- `EndsOwn` for the messages of a callback. -/
def OwnEnds : List Packet → MarketDataConsumer → List Packet →
    List Delivery → Prop
  | ps, s, p :: ps', d :: ds =>
      s.EndsOwn ps p d ∧ OwnEnds (ps ++ [p]) (s.deliver d) ps' ds
  | _, _, [], _ => True
  | _, _, _ :: _, [] => True

instance : (ps : List Packet) → (s : MarketDataConsumer) →
    (ps' : List Packet) → (ds : List Delivery) →
    Decidable (OwnEnds ps s ps' ds)
  | ps, s, p :: ps', d :: ds =>
      have := instDecidableOwnEnds (ps ++ [p]) (s.deliver d) ps' ds
      inferInstanceAs (Decidable (_ ∧ _))
  | _, _, [], _ => .isTrue trivial
  | _, _, _ :: _, [] => .isTrue trivial

/-- A consumer, and the packets that have come to it. -/
structure Heard where
  consumer : MarketDataConsumer
  packets : List Packet

def Heard.new : Heard := ⟨.new, []⟩

/-- A callback with messages that are sent, and that complete no recovery
from two snapshots unless they are dropped. -/
def Heard.Hears (sends : Packet → Delivery → Prop) (w : Heard)
    (received : Bool × List MDPMarketUpdate) (w' : Heard) : Prop :=
  ∃ ps, List.Forall₂ sends ps (received.2.map (Prod.mk received.1))
    ∧ ((received.1 = true ∧ w.consumer.inRecoveryMode = false)
      ∨ OwnEnds w.packets w.consumer ps
        (received.2.map (Prod.mk received.1)))
    ∧ w' = ⟨w.consumer.recvCallback received, w.packets ++ ps⟩

/-- The messages of one callback. -/
theorem Feed.Inv.foldl_deliver {ds : List Delivery} {ps' : List Packet}
    (hsends : List.Forall₂ f.Sends ps' ds) : ∀ {ps : List Packet}
    {s : MarketDataConsumer}, f.Inv ps s → OwnEnds ps s ps' ds →
      f.Inv (ps ++ ps') (ds.foldl MarketDataConsumer.deliver s) := by
  induction hsends with
  | nil =>
      intro ps s h _
      rwa [List.append_nil]
  | @cons p d ps' ds hsend _ ih =>
      intro ps s h hown
      have hrest := ih (h.deliver hsend hown.1) hown.2
      rw [List.foldl_cons]
      simpa using hrest

/-- A callback keeps the invariant. -/
theorem Feed.Inv.hears {w w' : Heard} (h : f.Inv w.packets w.consumer)
    {received : Bool × List MDPMarketUpdate}
    (hhears : w.Hears f.Sends received w') :
    f.Inv w'.packets w'.consumer := by
  obtain ⟨ps', hsends, hown, rfl⟩ := hhears
  show f.Inv (w.packets ++ ps') (w.consumer.recvCallback received)
  unfold MarketDataConsumer.recvCallback
  split
  · next hdropped =>
    -- a snapshot message outside of a recovery is dropped
    refine
      { written := h.written
        incrementals := h.incrementals
        queued := ?_
        idle := h.idle }
    rw [h.idle hdropped.2]
    exact f.queued_nil _
  · next htaken =>
    rw [foldl_onRequest]
    exact h.foldl_deliver hsends (hown.resolve_left htaken)

/-- The invariant after any callbacks. -/
theorem Feed.inv_of_run {received : List (Bool × List MDPMarketUpdate)}
    {w : Heard} (h : Run (Heard.Hears f.Sends) .new received w) :
    f.Inv w.packets w.consumer :=
  h.induct (I := fun _ w => f.Inv w.packets w.consumer) f.inv_new
    fun _ _ _ _ _ hinv hhears => hinv.hears hhears

-- ============================================================ mixed packets

theorem Unmixed.left {ps ps' : List Packet} (h : Unmixed (ps ++ ps')) :
    Unmixed ps := by
  intro block hblock
  apply h block
  rw [snapshots_append]
  exact hblock.trans (List.prefix_append _ _).isInfix

/-- The numbers of what is queued. -/
theorem Feed.Gathered.numbers {block : List (Nat × Nat)}
    (h : f.Gathered ps l) (hblock : List.Forall₂ f.Queues block l) :
    block.map Prod.snd = List.range block.length := by
  have hsame : block.map Prod.snd = l.map Prod.fst := by
    refine List.forall₂_eq_eq_eq ▸ List.forall₂_map_left_iff.2
      (List.forall₂_map_right_iff.2 (hblock.imp fun x e hqueues => ?_))
    exact hqueues.2.1
  have hnumbers : l.map Prod.fst = List.range' 0 l.length := h.contiguous
  rw [hsame, hnumbers, ← List.range_eq_range', hblock.length_eq]

/-- Where no packets are mixed, no message completes a recovery from two
snapshots. -/
theorem Feed.Inv.endsOwn (h : f.Inv ps s) {p : Packet} (d : Delivery)
    (hunmixed : Unmixed (ps ++ [p])) : s.EndsOwn ps p d := by
  cases p with
  | incremental k => trivial
  | snapshot n k =>
      intro _ hk _ x hx
      obtain ⟨block, hlast, hblock⟩ := h.queued.last
      rw [hk, ← hblock.length_eq, ← List.suffix_iff_eq_drop.1 hlast] at hx
      refine hunmixed (block ++ [(n, k)]) ?_ ?_ x
        (List.mem_append_left _ hx) (n, k)
        (List.mem_append_right _ (List.mem_singleton_self _))
      · obtain ⟨more, hmore⟩ := hlast
        rw [snapshots_snapshot, ← hmore, List.append_assoc]
        exact (List.suffix_append _ _).isInfix
      · rw [List.map_append, h.queued.numbers hblock, List.length_append,
          List.length_singleton, List.range_succ, hk, hblock.length_eq]
        rfl

theorem Feed.Inv.ownEnds {ds : List Delivery} {ps' : List Packet}
    (hsends : List.Forall₂ f.Sends ps' ds) : ∀ {ps : List Packet}
    {s : MarketDataConsumer}, f.Inv ps s → Unmixed (ps ++ ps') →
      OwnEnds ps s ps' ds := by
  induction hsends with
  | nil =>
      intro ps s _ _
      trivial
  | @cons p d ps' ds hsend _ ih =>
      intro ps s h hunmixed
      have hunmixed' : Unmixed (ps ++ [p] ++ ps') := by simpa using hunmixed
      have hown := h.endsOwn d hunmixed'.left
      exact ⟨hown, ih (h.deliver hsend hown) hunmixed'⟩

/-- Packets that are not mixed make a run. -/
theorem Feed.run_of_unmixed {received : List (Bool × List MDPMarketUpdate)}
    (hsends : List.Forall₂ f.Sends ps (deliveries received))
    (hunmixed : Unmixed ps) :
    Run (Heard.Hears f.Sends) .new received
      ⟨received.foldl MarketDataConsumer.recvCallback new, ps⟩ := by
  induction received using List.reverseRecOn generalizing ps with
  | nil =>
      cases hsends
      exact .nil
  | append_singleton received r ih =>
      have hsplit : deliveries (received ++ [r])
          = deliveries received ++ r.2.map (Prod.mk r.1) := by
        unfold deliveries
        rw [List.flatMap_append, List.flatMap_singleton]
      rw [hsplit] at hsends
      obtain ⟨ps₁, ps₂, hsends₁, hsends₂, rfl⟩ :
          ∃ ps₁ ps₂, List.Forall₂ f.Sends ps₁ (deliveries received)
            ∧ List.Forall₂ f.Sends ps₂ (r.2.map (Prod.mk r.1))
            ∧ ps = ps₁ ++ ps₂ := by
        refine ⟨_, _, List.forall₂_take_append _ _ _ hsends,
          List.forall₂_drop_append _ _ _ hsends,
          (List.take_append_drop _ _).symm⟩
      have hrun := ih hsends₁ hunmixed.left
      have hown := (Feed.inv_of_run hrun).ownEnds hsends₂ hunmixed
      refine hrun.snoc ⟨ps₂, hsends₂, Or.inr hown, ?_⟩
      rw [List.foldl_concat]

/-- The invariant after callbacks with packets that are not mixed. -/
theorem Feed.inv_of_received {received : List (Bool × List MDPMarketUpdate)}
    (hsends : List.Forall₂ f.Sends ps (deliveries received))
    (hunmixed : Unmixed ps) :
    f.Inv ps (received.foldl MarketDataConsumer.recvCallback new) :=
  Feed.inv_of_run (Feed.run_of_unmixed hsends hunmixed)

end MarketDataConsumer

end ElectronicTrading
