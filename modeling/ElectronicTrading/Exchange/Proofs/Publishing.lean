/-
What the publisher's loop passes on.

# The two feeds

`run` sends the element behind `market_update` and reads it again after
it has given the slot back. The slot is the producer's next one exactly
when all others are unread, so a producer that starts its next write then
puts another update under the number already sent (`Overtakes`). In runs
without such a write both feeds are the engine's updates, numbered from 1
(`feeds_of_run`).

`Coupled` ties each step of `run` to the state of the queue's consumer,
so that what is proved of the queue (`Threads.Roomy`) carries over.

# One datagram

Everything sent between two calls of `sendAndRecv` goes into one
datagram, 42 bytes an update, and the loop runs as long as the engine
keeps the queue from being empty. `delivered_iff` is the bound: no
datagram is discarded exactly if no update is taken as the 1560th.
-/
import ElectronicTrading.Exchange.MarketDataPublisher
import Mathlib.Data.List.Infix

namespace ElectronicTrading

open Runs

namespace MarketDataPublisher

/-- Updates, numbered from 1. -/
def numbered (updates : List MatchingEngineMarketUpdate) :
    List MDPMarketUpdate :=
  updates.mapIdx fun i u => ⟨i + 1, u⟩

theorem numbered_snoc (us : List MatchingEngineMarketUpdate)
    (u : MatchingEngineMarketUpdate) :
    numbered (us ++ [u]) = numbered us ++ [⟨us.length + 1, u⟩] := by
  unfold numbered
  rw [List.mapIdx_append]
  simp

theorem numbered_mono {us vs : List MatchingEngineMarketUpdate}
    (h : us <+: vs) : numbered us <+: numbered vs := by
  obtain ⟨more, rfl⟩ := h
  unfold numbered
  rw [List.mapIdx_append]
  exact List.prefix_append _ _

theorem length_numbered (us : List MatchingEngineMarketUpdate) :
    (numbered us).length = us.length := List.length_mapIdx

-- ============================================================ the two feeds

/-- One step, after which the queue is not full. -/
def ActedRoomy (s : MarketDataPublisher) (a : PublisherAct)
    (s' : MarketDataPublisher) : Prop :=
  Acted s a s' ∧ s'.unread < s'.threads.queue.size

/-- A write of another update into the slot that `run` has given back and
not yet read for the last time. -/
def Overtakes (s : MarketDataPublisher) : PublisherAct → Prop
  | .write update =>
      match s.step with
      | .countDown slot | .copy slot => s.unread + 1 = s.threads.queue.size
          ∧ update ≠ s.threads.queue.store slot
      | _ => False
  | _ => False

instance (s : MarketDataPublisher) (a : PublisherAct) :
    Decidable (s.Overtakes a) :=
  match a with
  | .write update =>
      match h : s.step with
      | .countDown slot | .copy slot =>
          decidable_of_iff (s.unread + 1 = s.threads.queue.size
            ∧ update ≠ s.threads.queue.store slot) (by simp [Overtakes, h])
      | .getNextToRead | .test _ | .sendNumber _ | .sendUpdate _
      | .advanceRead _ | .sendAndRecv | .stopped =>
          isFalse (by simp [Overtakes, h])
  | .advanceWrite | .countUp | .run => isFalse id

/-- A step that does not overtake `run`, while there is a number left:
`next_increment_sequence_number` is 0 after the 2^64 - 1st update. -/
def ActedBehind (s : MarketDataPublisher) (a : PublisherAct)
    (s' : MarketDataPublisher) : Prop :=
  ActedRoomy s a s' ∧ ¬ s.Overtakes a ∧ s.nextIncrementSequenceNumber ≠ 0

/-- The number of the next update, with `n` copied. -/
def NextNumber (number n : Nat) : Prop :=
  n < 2 ^ 64 ∧ number = (n + 1) % 2 ^ 64

/-- A number that is not 0 has not wrapped. -/
theorem NextNumber.eq {number n : Nat} (h : NextNumber number n)
    (hne : number ≠ 0) : number = n + 1 ∧ n + 1 < 2 ^ 64 := by
  obtain ⟨hlt, hnumber⟩ := h
  have hlast : n + 1 ≠ 2 ^ 64 := by
    intro hlast
    rw [hlast] at hnumber
    exact hne hnumber
  rw [Nat.mod_eq_of_lt (by omega)] at hnumber
  exact ⟨hnumber, by omega⟩

theorem NextNumber.succ {number n : Nat} (h : NextNumber number n)
    (hne : number ≠ 0) : NextNumber ((number + 1) % 2 ^ 64) (n + 1) := by
  obtain ⟨hnumber, hlt⟩ := h.eq hne
  exact ⟨hlt, by rw [hnumber]⟩

/-- Where the consumer is at each step of `run`, with `n` elements copied.
From `advanceRead` to `copy` the slot is that of the last element taken,
and still holds it. -/
def Coupled (step : PublisherStep) (t : Threads MatchingEngineMarketUpdate)
    (n : Nat) : Prop :=
  match step with
  | .getNextToRead | .test none | .sendAndRecv =>
      t.consumer = .idle ∧ n = t.returned.length
  | .test (some slot) => t.consumer = .holding slot ∧ n = t.returned.length
  | .sendNumber slot | .sendUpdate slot =>
      t.consumer = .holding slot ∧ t.queue.numElements ≠ 0
        ∧ n = t.returned.length
  | .advanceRead slot =>
      t.consumer = .took ∧ t.queue.numElements ≠ 0
        ∧ n + 1 = t.returned.length ∧ slot = n % t.queue.size
        ∧ t.returned.getLast? = some (t.queue.store slot)
  | .countDown slot =>
      t.consumer = .released ∧ t.queue.numElements ≠ 0
        ∧ n + 1 = t.returned.length ∧ slot = n % t.queue.size
        ∧ t.returned.getLast? = some (t.queue.store slot)
  | .copy slot =>
      t.consumer = .idle ∧ n + 1 = t.returned.length
        ∧ slot = n % t.queue.size
        ∧ t.returned.getLast? = some (t.queue.store slot)
  | .stopped => True

/-- `send` goes on, or stops. -/
theorem Coupled.send {step : PublisherStep}
    {t : Threads MatchingEngineMarketUpdate} {n : Nat} {c : Prop}
    [Decidable c] (h : Coupled step t n) :
    Coupled (if c then step else .stopped) t n := by
  split
  · exact h
  · trivial

/-- What the runs keep. -/
structure Feeds (s : MarketDataPublisher) : Prop where
  roomy : s.threads.Roomy
  coupled : Coupled s.step s.threads s.snapshot.length
  next : NextNumber s.nextIncrementSequenceNumber s.snapshot.length
  incremental : s.incremental = numbered s.threads.returned
  snapshot : s.snapshot <+: s.incremental

theorem feeds_new {capacity : Nat} (h : 0 < capacity) :
    Feeds (new capacity) where
  roomy := Threads.roomy_new h _
  coupled := ⟨rfl, rfl⟩
  next := ⟨by show 0 < 2 ^ 64; decide, rfl⟩
  incremental := rfl
  snapshot := List.prefix_refl _

/-- A step of the consumer keeps the queue in order. -/
theorem Feeds.consumer_roomy {s s' : MarketDataPublisher} (h : Feeds s)
    {a : Act MatchingEngineMarketUpdate} (hconsumer : a ≠ .advanceWrite)
    (ha : Threads.Acted s.threads a s'.threads) : s'.threads.Roomy := by
  refine h.roomy.acted ?_ ha
  cases a with
  | advanceWrite => exact absurd rfl hconsumer
  | _ => trivial

/-- Putting an idle consumer where it is. -/
theorem idle_eq {t : Threads MatchingEngineMarketUpdate}
    (h : t.consumer = .idle) : { t with consumer := .idle } = t := by
  obtain ⟨queue, producer, consumer, passed, returned⟩ := t
  cases h
  rfl

/-- `run` keeps the feeds aligned. -/
theorem Feeds.run {s : MarketDataPublisher} (h : Feeds s)
    (hne : s.nextIncrementSequenceNumber ≠ 0) : Feeds s.run := by
  obtain ⟨hroomy, hcoupled, hnext, hincremental, hsnapshot⟩ := id h
  obtain ⟨hnumber, -⟩ := hnext.eq hne
  unfold MarketDataPublisher.run
  cases hstep : s.step with
  | getNextToRead =>
    rw [hstep] at hcoupled
    obtain ⟨hidle, hlen⟩ := hcoupled
    cases hget : s.threads.queue.getNextToRead with
    | none =>
      dsimp only
      rw [idle_eq hidle]
      exact ⟨hroomy, ⟨hidle, hlen⟩, hnext, hincremental, hsnapshot⟩
    | some slot =>
      refine ⟨h.consumer_roomy (a := .getNextToRead) (by simp) ?_,
        ⟨rfl, hlen⟩, hnext, hincremental, hsnapshot⟩
      unfold Threads.Acted
      simp only [Threads.act, hidle, if_true, hget]
  | test marketUpdate =>
    rw [hstep] at hcoupled
    cases marketUpdate with
    | none => exact ⟨hroomy, hcoupled, hnext, hincremental, hsnapshot⟩
    | some slot =>
      obtain ⟨hholding, hlen⟩ := hcoupled
      dsimp only
      by_cases hzero : s.threads.queue.numElements = 0
      · rw [if_pos hzero]
        refine ⟨h.consumer_roomy (a := .take) (by simp) ?_, ⟨rfl, hlen⟩,
          hnext, hincremental, hsnapshot⟩
        unfold Threads.Acted
        simp only [Threads.act, hholding, hzero, if_true]
      · rw [if_neg hzero]
        exact ⟨hroomy, ⟨hholding, hzero, hlen⟩, hnext, hincremental,
          hsnapshot⟩
  | sendNumber slot =>
    rw [hstep] at hcoupled
    have hsent : Coupled (.sendUpdate slot) s.threads s.snapshot.length :=
      hcoupled
    exact ⟨hroomy, hsent.send, hnext, hincremental, hsnapshot⟩
  | sendUpdate slot =>
    rw [hstep] at hcoupled
    obtain ⟨hholding, hne, hlen⟩ := hcoupled
    have hslot := (hroomy.counted.pointer slot hholding).1
    have hread := hroomy.counted.readIndex
    have hconsumed : s.threads.consumed = s.threads.returned.length := by
      simp [Threads.consumed, hholding]
    -- for the queue this is the read of the element
    have htaken : Threads.Acted s.threads .take { s.threads with
        consumer := .took
        returned := s.threads.returned
          ++ [s.threads.queue.store slot] } := by
      unfold Threads.Acted
      simp only [Threads.act, hholding, hne, if_false]
    have hsent : Coupled (.advanceRead slot)
        { s.threads with
          consumer := .took
          returned := s.threads.returned ++ [s.threads.queue.store slot] }
        s.snapshot.length := by
      refine ⟨rfl, hne, ?_, ?_, List.getLast?_concat⟩
      · rw [List.length_append, hlen]
        rfl
      · rw [hslot, hread, hconsumed, hlen]
    refine ⟨h.consumer_roomy (a := .take) (by simp) htaken, hsent.send,
      hnext, ?_, ?_⟩
    · show s.incremental ++ [_] = numbered (s.threads.returned ++ [_])
      rw [numbered_snoc, hincremental, hnumber, hlen]
    · exact hsnapshot.trans (List.prefix_append _ _)
  | advanceRead slot =>
    rw [hstep] at hcoupled
    obtain ⟨htook, hne, hrest⟩ := hcoupled
    refine ⟨h.consumer_roomy (a := .advanceRead) (by simp) ?_,
      ⟨rfl, hne, hrest⟩, hnext, hincremental, hsnapshot⟩
    unfold Threads.Acted
    simp only [Threads.act, htook, if_true]
  | countDown slot =>
    rw [hstep] at hcoupled
    obtain ⟨hreleased, hne, hrest⟩ := hcoupled
    dsimp only
    rw [if_neg hne]
    refine ⟨h.consumer_roomy (a := .countDown) (by simp) ?_, ⟨rfl, hrest⟩,
      hnext, hincremental, hsnapshot⟩
    unfold Threads.Acted
    simp only [Threads.act, hreleased, hne, ne_eq, not_false_eq_true,
      and_self, if_true]
  | copy slot =>
    rw [hstep] at hcoupled
    obtain ⟨hidle, hlen, -, hlast⟩ := hcoupled
    have hlen' : (s.snapshot ++ [(⟨s.nextIncrementSequenceNumber,
        s.threads.queue.store slot⟩ : MDPMarketUpdate)]).length
          = s.threads.returned.length := by
      rw [List.length_append]
      exact hlen
    -- the slot still holds what was sent from it last
    obtain ⟨us, hus⟩ := List.getLast?_eq_some_iff.1 hlast
    have hfeed : s.incremental = numbered us ++ [⟨us.length + 1,
        s.threads.queue.store slot⟩] := by
      rw [hincremental, hus, numbered_snoc]
    have hus' : us.length = s.snapshot.length := by
      have hsize := congrArg List.length hus
      rw [List.length_append, List.length_singleton] at hsize
      omega
    refine ⟨hroomy, ⟨hidle, hlen'⟩, ?_, hincremental, ?_⟩
    · show NextNumber _ (s.snapshot ++ [_]).length
      rw [List.length_append]
      exact hnext.succ hne
    · have hnumbered : s.snapshot = numbered us := by
        rw [hfeed] at hsnapshot
        have hpre := List.prefix_of_prefix_length_le hsnapshot
          (List.prefix_append (numbered us) _)
          (by rw [length_numbered, hus'])
        exact hpre.eq_of_length (by rw [length_numbered, hus'])
      show s.snapshot ++ [_] <+: s.incremental
      rw [hfeed, hnumber, ← hus', hnumbered]
  | sendAndRecv =>
    rw [hstep] at hcoupled
    exact ⟨hroomy, hcoupled, hnext, hincremental, hsnapshot⟩
  | stopped => exact h

/-- What the engine's steps leave alone. -/
theorem Feeds.engine {s : MarketDataPublisher} (h : Feeds s)
    {t : Threads MatchingEngineMarketUpdate} (hroomy : t.Roomy)
    (hconsumer : t.consumer = s.threads.consumer)
    (hreturned : t.returned = s.threads.returned)
    (hsize : t.queue.size = s.threads.queue.size)
    (hcount : s.threads.queue.numElements ≤ t.queue.numElements)
    (hstore : ∀ slot, s.step = .advanceRead slot ∨ s.step = .countDown slot
      ∨ s.step = .copy slot → t.queue.store slot
        = s.threads.queue.store slot) :
    Feeds { s with threads := t } := by
  obtain ⟨-, hcoupled, hnext, hincremental, hsnapshot⟩ := h
  refine ⟨hroomy, ?_, hnext, ?_, hsnapshot⟩
  · show Coupled s.step t s.snapshot.length
    cases hstep : s.step with
    | test marketUpdate =>
      rw [hstep] at hcoupled
      cases marketUpdate with
      | none => exact ⟨hconsumer.trans hcoupled.1, hreturned ▸ hcoupled.2⟩
      | some slot =>
        exact ⟨hconsumer.trans hcoupled.1, hreturned ▸ hcoupled.2⟩
    | sendNumber slot =>
      rw [hstep] at hcoupled
      obtain ⟨hholding, hne, hlen⟩ := hcoupled
      exact ⟨hconsumer.trans hholding, by omega, hreturned ▸ hlen⟩
    | sendUpdate slot =>
      rw [hstep] at hcoupled
      obtain ⟨hholding, hne, hlen⟩ := hcoupled
      exact ⟨hconsumer.trans hholding, by omega, hreturned ▸ hlen⟩
    | advanceRead slot =>
      rw [hstep] at hcoupled
      obtain ⟨htook, hne, hlen, hslot, hlast⟩ := hcoupled
      refine ⟨hconsumer.trans htook, by omega, hreturned ▸ hlen,
        hsize ▸ hslot, ?_⟩
      rw [hstore slot (.inl hstep), hreturned]
      exact hlast
    | countDown slot =>
      rw [hstep] at hcoupled
      obtain ⟨hreleased, hne, hlen, hslot, hlast⟩ := hcoupled
      refine ⟨hconsumer.trans hreleased, by omega, hreturned ▸ hlen,
        hsize ▸ hslot, ?_⟩
      rw [hstore slot (.inr (.inl hstep)), hreturned]
      exact hlast
    | copy slot =>
      rw [hstep] at hcoupled
      obtain ⟨hidle, hlen, hslot, hlast⟩ := hcoupled
      refine ⟨hconsumer.trans hidle, hreturned ▸ hlen, hsize ▸ hslot, ?_⟩
      rw [hstore slot (.inr (.inr hstep)), hreturned]
      exact hlast
    | getNextToRead | sendAndRecv =>
      rw [hstep] at hcoupled
      exact ⟨hconsumer.trans hcoupled.1, hreturned ▸ hcoupled.2⟩
    | stopped => trivial
  · show s.incremental = numbered t.returned
    rw [hreturned]
    exact hincremental

/-- A write behind `run` leaves the element it is busy with. -/
theorem Feeds.store_kept {s : MarketDataPublisher} (h : Feeds s)
    {update : MatchingEngineMarketUpdate}
    (hbehind : ¬ s.Overtakes (.write update)) (slot : Nat)
    (hstep : s.step = .advanceRead slot ∨ s.step = .countDown slot
      ∨ s.step = .copy slot) :
    (s.threads.queue.write update).store slot
      = s.threads.queue.store slot := by
  have hcounted := h.roomy.counted
  have hroom := h.roomy.room
  have hcoupled := h.coupled
  show (if slot = s.threads.queue.nextWriteIndex then update
    else s.threads.queue.store slot) = _
  by_cases hslot : slot = s.threads.queue.nextWriteIndex
  · rw [if_pos hslot]
    rw [hcounted.writeIndex] at hslot
    rcases hstep with hstep | hstep
    · rw [hstep] at hcoupled
      obtain ⟨htook, -, hlen, hmod, -⟩ := hcoupled
      have hahead := hcounted.ahead htook
      have hconsumed : s.threads.consumed = s.snapshot.length := by
        unfold Threads.consumed
        rw [htook, if_pos rfl]
        omega
      rw [hmod, ← hconsumed] at hslot
      exact absurd hslot (Threads.mod_ne hahead hroom)
    · have hback : s.threads.consumed = s.snapshot.length + 1
          ∧ slot = s.snapshot.length % s.threads.queue.size := by
        rcases hstep with hstep | hstep
        · rw [hstep] at hcoupled
          obtain ⟨hreleased, -, hlen, hmod, -⟩ := hcoupled
          refine ⟨?_, hmod⟩
          unfold Threads.consumed
          rw [hreleased, if_neg nofun]
          omega
        · rw [hstep] at hcoupled
          obtain ⟨hidle, hlen, hmod, -⟩ := hcoupled
          refine ⟨?_, hmod⟩
          unfold Threads.consumed
          rw [hidle, if_neg nofun]
          omega
      have hle := hcounted.le
      have hfull : s.unread + 1 = s.threads.queue.size := by
        by_contra hne
        unfold unread at hne
        rw [hback.2] at hslot
        exact Threads.mod_ne (by omega) (by omega) hslot
      by_contra hne
      apply hbehind
      rcases hstep with hstep | hstep
      · simp only [Overtakes, hstep]
        exact ⟨hfull, hne⟩
      · simp only [Overtakes, hstep]
        exact ⟨hfull, hne⟩
  · rw [if_neg hslot]

/-- A step that does not overtake `run` keeps the feeds aligned. -/
theorem Feeds.acted {s s' : MarketDataPublisher} {a : PublisherAct}
    (h : Feeds s) (ha : ActedBehind s a s') : Feeds s' := by
  obtain ⟨⟨hstep, hroom⟩, hbehind, hne⟩ := ha
  unfold Acted at hstep
  cases a with
  | write update =>
    obtain ⟨t, ht, rfl⟩ := Option.map_eq_some_iff.1 hstep
    have hroomy := h.roomy.acted (a := .write update) trivial ht
    simp only [Threads.act] at ht
    split at ht
    · cases ht
      exact h.engine hroomy rfl rfl rfl (Nat.le_refl _)
        fun slot hslot => h.store_kept hbehind slot hslot
    · cases ht
  | advanceWrite =>
    obtain ⟨t, ht, rfl⟩ := Option.map_eq_some_iff.1 hstep
    have hwrote := h.roomy.counted.wrote
    have hle := h.roomy.counted.le
    have hacted : Threads.Acted s.threads .advanceWrite t := ht
    simp only [Threads.act] at ht
    split at ht
    · next hpc =>
      cases ht
      refine h.engine (h.roomy.acted ?_ hacted) rfl rfl rfl (Nat.le_refl _)
        fun _ _ => rfl
      have hpos := hwrote hpc
      have hpub : s.threads.published = s.threads.passed.length - 1 := by
        simp [Threads.published, hpc]
      have hunread : s.threads.passed.length - 0 - s.threads.consumed
          < s.threads.queue.size := hroom
      show s.threads.published - s.threads.consumed + 1
        < s.threads.queue.size
      omega
    · cases ht
  | countUp =>
    obtain ⟨t, ht, rfl⟩ := Option.map_eq_some_iff.1 hstep
    have hroomy := h.roomy.acted (a := .countUp) trivial ht
    simp only [Threads.act] at ht
    split at ht
    · cases ht
      exact h.engine hroomy rfl rfl rfl (Nat.le_succ _) fun _ _ => rfl
    · cases ht
  | run =>
    cases hstep
    exact h.run hne

/-- Without an overtaking write, both feeds are the engine's updates,
numbered from 1. -/
theorem feeds_of_run {capacity : Nat} (hcap : 0 < capacity)
    {as : List PublisherAct} {s : MarketDataPublisher}
    (h : Run ActedBehind (new capacity) as s) :
    s.incremental <+: numbered s.threads.passed
      ∧ s.snapshot <+: s.incremental := by
  have hfeeds : Feeds s := h.induct (I := fun _ s => Feeds s)
    (feeds_new hcap) fun _ _ _ _ _ hs ha => hs.acted ha
  refine ⟨?_, hfeeds.snapshot⟩
  rw [hfeeds.incremental]
  exact numbered_mono hfeeds.roomy.lossless.order

/-- Three updates of a queue of two slots. The second is written and
counted between the two reads of the first, and the third is begun when
`run` has copied it. -/
def followed : List PublisherAct :=
  [.write { orderId := 1 }, .advanceWrite, .countUp, .run, .run, .run, .run,
    .run, .write { orderId := 2 }, .advanceWrite, .countUp, .run, .run,
    .write { orderId := 3 }, .run, .run, .run, .run, .run, .run, .run,
    .advanceWrite, .countUp, .run, .run, .run, .run]

/-- Two have been copied and the third is sent. -/
theorem feeds_of_run_followed : ∃ s,
    Run ActedBehind (new 2) followed s
      ∧ s.incremental = [⟨1, { orderId := 1 }⟩, ⟨2, { orderId := 2 }⟩,
        ⟨3, { orderId := 3 }⟩]
      ∧ s.snapshot.length = 2
      ∧ s.incremental <+: numbered s.threads.passed
      ∧ s.snapshot <+: s.incremental := by
  obtain ⟨s, hrun, hend⟩ := Run.exists_of_any
    (guarded act fun s a s' => s'.unread < s'.threads.queue.size
      ∧ ¬ s.Overtakes a ∧ s.nextIncrementSequenceNumber ≠ 0)
    (new 2) followed
    (fun s => s.incremental = [⟨1, { orderId := 1 }⟩,
        ⟨2, { orderId := 2 }⟩, ⟨3, { orderId := 3 }⟩]
      ∧ s.snapshot.length = 2) (by decide +kernel)
  have hbehind : Run ActedBehind (new 2) followed s :=
    hrun.of_guarded.mono (I := fun _ => True)
      (fun _ _ _ _ ⟨hact, hroom, hrest⟩ => ⟨⟨hact, hroom⟩, hrest⟩)
      fun _ _ _ => trivial
  exact ⟨s, hbehind, hend.1, hend.2, feeds_of_run (by decide) hbehind⟩

/-- Three updates of a queue of two slots. The third is written while the
second is unread and `run` has given back the slot of the first. -/
def overtaken : List PublisherAct :=
  [.write { orderId := 1 }, .advanceWrite, .countUp, .run, .run, .run, .run,
    .run, .write { orderId := 2 }, .advanceWrite, .countUp,
    .write { orderId := 3 }, .run, .run]

/-- The snapshot queue gets the third update under the number 1. -/
theorem feeds_differ_overtaken :
    ¬ ∀ capacity as s, 0 < capacity → Run ActedRoomy (new capacity) as s →
      s.snapshot <+: s.incremental := by
  obtain ⟨s, hrun, hincremental, hsnapshot⟩ := Run.exists_of_any
    (guarded act fun _ _ s' => s'.unread < s'.threads.queue.size)
    (new 2) overtaken
    (fun s => s.incremental = [⟨1, { orderId := 1 }⟩]
      ∧ s.snapshot = [⟨1, { orderId := 3 }⟩]) (by decide +kernel)
  intro hall
  have hpre := hall 2 _ s (by decide) hrun.of_guarded
  rw [hincremental, hsnapshot] at hpre
  revert hpre
  decide

-- ============================================================ one datagram

/-- What is sent between two calls of `sendAndRecv` fits in a datagram,
none has been discarded, and no ASSERT has failed. -/
structure Delivered (s : MarketDataPublisher) : Prop where
  payload : s.incrementalSocket.sendBuffer.length ≤ maxUdpPayload
  discarded : s.incrementalSocket.discarded = []
  running : s.step ≠ .stopped

/-- The updates that fit in a datagram: 1559. -/
def maxBatch : Nat := maxUdpPayload / (8 + Wire.marketUpdate.size)

/-- `run` takes an update with a full datagram waiting to be sent. -/
def Overfills (s : MarketDataPublisher) (a : PublisherAct) : Prop :=
  a = .run ∧ (∃ slot, s.step = .sendUpdate slot) ∧ maxBatch ≤ s.batch

def ActedDelivered (s : MarketDataPublisher) (a : PublisherAct)
    (s' : MarketDataPublisher) : Prop :=
  Acted s a s' ∧ s'.Delivered

def ActedShort (s : MarketDataPublisher) (a : PublisherAct)
    (s' : MarketDataPublisher) : Prop :=
  Acted s a s' ∧ ¬ s.Overfills a

/-- The element that `run` is busy with is still counted. -/
def Busy : PublisherStep → Prop
  | .sendNumber _ | .sendUpdate _ | .advanceRead _ | .countDown _ => True
  | _ => False

/-- The bytes of a number whose update is not yet sent. -/
def started : PublisherStep → Nat
  | .sendUpdate _ => 8
  | _ => 0

/-- What the runs keep: the buffer holds whole updates, but for a number
whose update is sent next. -/
structure Batched (s : MarketDataPublisher) : Prop where
  length : s.incrementalSocket.sendBuffer.length
    = 42 * s.batch + started s.step
  short : s.batch ≤ maxBatch
  discarded : s.incrementalSocket.discarded = []
  running : s.step ≠ .stopped
  busy : Busy s.step → s.threads.queue.numElements ≠ 0

theorem batched_new (capacity : Nat) : Batched (new capacity) where
  length := rfl
  short := Nat.zero_le _
  discarded := rfl
  running := nofun
  busy := nofun

theorem Batched.delivered {s : MarketDataPublisher} (h : Batched s) :
    s.Delivered where
  payload := by
    have hlength := h.length
    have hshort : s.batch ≤ 1559 := h.short
    have hstarted : started s.step ≤ 8 := by
      cases s.step <;> simp [started]
    show _ ≤ 65507
    omega
  discarded := h.discarded
  running := h.running

/-- A buffer that goes into a datagram is far from full. -/
theorem fits_of_le {s : McastSocket} (h : s.sendBuffer.length ≤ 2 * maxUdpPayload) :
    s.Fits := by
  have hpayload : maxUdpPayload = 65507 := rfl
  have hsize : multicastBufferSize = 67108864 := rfl
  unfold McastSocket.Fits
  omega

/-- The engine's steps leave the socket alone and count only up. -/
theorem Batched.engine {s : MarketDataPublisher} (h : Batched s)
    {t : Threads MatchingEngineMarketUpdate}
    (hcount : s.threads.queue.numElements ≤ t.queue.numElements) :
    Batched { s with threads := t } :=
  { h with
    busy := fun hbusy => by
      have hne := h.busy hbusy
      show t.queue.numElements ≠ 0
      omega }

/-- A short step of `run` keeps the buffer short. -/
theorem Batched.run {s : MarketDataPublisher} (h : Batched s)
    (hshort : ¬ s.Overfills .run) : Batched s.run := by
  obtain ⟨hlength, hbatch, hdiscarded, hrunning, hbusy⟩ := id h
  have hmax : maxBatch = 1559 := rfl
  have hpayload : maxUdpPayload = 65507 := rfl
  unfold MarketDataPublisher.run
  cases hstep : s.step with
  | getNextToRead =>
    rw [hstep] at hlength
    exact ⟨hlength, hbatch, hdiscarded, nofun, nofun⟩
  | test marketUpdate =>
    rw [hstep] at hlength
    cases marketUpdate with
    | none => exact ⟨hlength, hbatch, hdiscarded, nofun, nofun⟩
    | some slot =>
      dsimp only
      split
      · exact ⟨hlength, hbatch, hdiscarded, nofun, nofun⟩
      · next hne => exact ⟨hlength, hbatch, hdiscarded, nofun, fun _ => hne⟩
  | sendNumber slot =>
    rw [hstep] at hlength hbusy
    have hnumber : (s.incrementalSocket.send ((Packed.Codec.nat 8).encode
        s.nextIncrementSequenceNumber)).sendBuffer.length
        = 42 * s.batch + 8 := by
      unfold McastSocket.send
      rw [List.length_append, hlength, Packed.Codec.length_encode]
      rfl
    have hfits := fits_of_le (s := s.incrementalSocket.send
      ((Packed.Codec.nat 8).encode s.nextIncrementSequenceNumber)) (by omega)
    unfold MarketDataPublisher.send
    dsimp only
    rw [if_pos hfits]
    exact ⟨hnumber, hbatch, hdiscarded, nofun, fun _ => hbusy trivial⟩
  | sendUpdate slot =>
    rw [hstep] at hlength hbusy
    have hroom : s.batch < maxBatch := by
      by_contra hge
      exact hshort ⟨rfl, ⟨slot, hstep⟩, by omega⟩
    have hupdate : (s.incrementalSocket.send (Wire.marketUpdate.encode
        (s.threads.queue.store slot))).sendBuffer.length
        = 42 * (s.batch + 1) := by
      unfold McastSocket.send
      rw [List.length_append, hlength, Packed.Codec.length_encode]
      show 42 * s.batch + 8 + 34 = _
      omega
    have hfits := fits_of_le (s := s.incrementalSocket.send
      (Wire.marketUpdate.encode (s.threads.queue.store slot))) (by omega)
    unfold MarketDataPublisher.send
    dsimp only
    rw [if_pos hfits]
    exact ⟨hupdate, hroom, hdiscarded, nofun, fun _ => hbusy trivial⟩
  | advanceRead slot =>
    rw [hstep] at hlength hbusy
    exact ⟨hlength, hbatch, hdiscarded, nofun, fun _ => hbusy trivial⟩
  | countDown slot =>
    rw [hstep] at hlength hbusy
    dsimp only
    rw [if_neg (hbusy trivial)]
    exact ⟨hlength, hbatch, hdiscarded, nofun, nofun⟩
  | copy slot =>
    rw [hstep] at hlength
    exact ⟨hlength, hbatch, hdiscarded, nofun, nofun⟩
  | sendAndRecv =>
    have hdelivered := h.delivered
    unfold McastSocket.sendAndRecv
    dsimp only
    split
    · next hnone =>
      exact ⟨hnone, Nat.zero_le _, hdiscarded, nofun, nofun⟩
    · rw [if_pos hdelivered.payload]
      exact ⟨rfl, Nat.zero_le _, hdiscarded, nofun, nofun⟩
  | stopped => exact absurd hstep hrunning

theorem Batched.acted {s s' : MarketDataPublisher} {a : PublisherAct}
    (h : Batched s) (ha : ActedShort s a s') : Batched s' := by
  obtain ⟨hstep, hshort⟩ := ha
  unfold Acted at hstep
  cases a with
  | run =>
    cases hstep
    exact h.run hshort
  | write update =>
    obtain ⟨t, ht, rfl⟩ := Option.map_eq_some_iff.1 hstep
    simp only [Threads.act] at ht
    split at ht
    · cases ht
      exact h.engine (Nat.le_refl _)
    · cases ht
  | advanceWrite =>
    obtain ⟨t, ht, rfl⟩ := Option.map_eq_some_iff.1 hstep
    simp only [Threads.act] at ht
    split at ht
    · cases ht
      exact h.engine (Nat.le_refl _)
    · cases ht
  | countUp =>
    obtain ⟨t, ht, rfl⟩ := Option.map_eq_some_iff.1 hstep
    simp only [Threads.act] at ht
    split at ht
    · cases ht
      exact h.engine (Nat.le_succ _)
    · cases ht

/-- An overfilled buffer does not fit in a datagram. -/
theorem Batched.not_delivered {s s' : MarketDataPublisher} {a : PublisherAct}
    (h : Batched s) (ha : Acted s a s') (hover : s.Overfills a) :
    ¬ s'.Delivered := by
  obtain ⟨rfl, ⟨slot, hstep⟩, hfull⟩ := hover
  intro hdelivered
  have hpayload := hdelivered.payload
  have hlength := h.length
  rw [hstep] at hlength
  cases ha
  unfold MarketDataPublisher.run MarketDataPublisher.send McastSocket.send
    at hpayload
  rw [hstep] at hpayload
  dsimp only at hpayload
  rw [List.length_append, hlength, Packed.Codec.length_encode] at hpayload
  have hmax : 1559 ≤ s.batch := hfull
  have hsum : 42 * s.batch + 8 + 34 ≤ 65507 := hpayload
  omega

/-- Everything is delivered in every state of a run exactly if `run` never
takes an update with 1559 of them waiting to be sent. -/
theorem delivered_iff (capacity : Nat) (as : List PublisherAct)
    (s : MarketDataPublisher) :
    Run ActedDelivered (new capacity) as s
      ↔ Run ActedShort (new capacity) as s := by
  have hbatched : ∀ {as : List PublisherAct} {s : MarketDataPublisher},
      Run ActedShort (new capacity) as s → Batched s := fun hrun =>
    hrun.induct (I := fun _ s => Batched s) (batched_new capacity)
      fun _ _ _ _ _ hs ha => hs.acted ha
  constructor
  · intro h
    induction h with
    | nil => exact .nil
    | snoc hrun ha ih =>
      exact ih.snoc ⟨ha.1, fun hover =>
        (hbatched ih).not_delivered ha.1 hover ha.2⟩
  · intro h
    induction h with
    | nil => exact .nil
    | snoc hrun ha ih =>
      exact ih.snoc ⟨ha.1, ((hbatched hrun).acted ha).delivered⟩

/-- Two updates, the second written while `run` takes the first, and the
end of the loop. -/
def inOneDatagram : List PublisherAct :=
  [.write { orderId := 1 }, .advanceWrite, .countUp, .run, .run,
    .write { orderId := 2 }, .advanceWrite, .countUp, .run, .run, .run, .run,
    .run, .run, .run, .run, .run, .run, .run, .run, .run, .run, .run]

theorem delivered_iff_datagram : ∃ s,
    Run ActedDelivered (new 4) inOneDatagram s
      ∧ s.incremental.length = 2
      ∧ s.incrementalSocket.datagrams.map List.length = [84]
      ∧ s.batch = 0 := by
  obtain ⟨s, hrun, hend⟩ := Run.exists_of_any
    (guarded act fun s _ _ => s.batch < 1559) (new 4) inOneDatagram
    (fun s => s.incremental.length = 2
      ∧ s.incrementalSocket.datagrams.map List.length = [84]
      ∧ s.batch = 0) (by decide +kernel)
  refine ⟨s, (delivered_iff 4 _ s).2 ?_, hend⟩
  refine hrun.of_guarded.mono (I := fun _ => True) ?_ fun _ _ _ => trivial
  rintro t a t' - ⟨hact, hbatch⟩
  exact ⟨hact, fun hover => absurd hover.2.2 (Nat.not_le.2 hbatch)⟩

-- -------------------------------------------------------- a steady producer

/-- The engine writes an update, and `run` takes it. -/
def oneUpdate : List PublisherAct :=
  [.write {}, .advanceWrite, .countUp, .run, .run, .run, .run, .run, .run,
    .run]

/-- The queue is empty after `k` updates, and `run` looks again. -/
structure Lull (k : Nat) (s : MarketDataPublisher) : Prop where
  step : s.step = .getNextToRead
  producer : s.threads.producer = .idle
  counted : s.threads.queue.numElements = 0
  index : s.threads.queue.nextReadIndex = s.threads.queue.nextWriteIndex
  index_lt : s.threads.queue.nextWriteIndex < s.threads.queue.size
  size : 2 ≤ s.threads.queue.size
  length : s.incrementalSocket.sendBuffer.length = 42 * k

/-- The engine has written an update, and `run` looks again. -/
structure Full (k : Nat) (s : MarketDataPublisher) : Prop where
  step : s.step = .getNextToRead
  producer : s.threads.producer = .idle
  counted : s.threads.queue.numElements = 1
  next : (s.threads.queue.nextReadIndex + 1) % s.threads.queue.size
    = s.threads.queue.nextWriteIndex
  index_ne : s.threads.queue.nextReadIndex ≠ s.threads.queue.nextWriteIndex
  index_lt : s.threads.queue.nextWriteIndex < s.threads.queue.size
  size : 2 ≤ s.threads.queue.size
  length : s.incrementalSocket.sendBuffer.length = 42 * k

theorem Lull.full {k : Nat} {s : MarketDataPublisher} (h : Lull k s) :
    ∃ s', Run Acted s [.write {}, .advanceWrite, .countUp] s'
      ∧ Full k s' := by
  obtain ⟨⟨⟨store, size, w, r, n⟩, producer, consumer, passed, returned⟩,
    step, number, socket, incremental, snapshot, batch⟩ := s
  obtain ⟨hstep, hproducer, hcounted, hindex, hlt, hsize, hlength⟩ := h
  dsimp only at hstep hproducer hcounted hindex hlt hsize hlength
  subst hstep hproducer hcounted hindex
  have hne : r ≠ (r + 1) % size := by
    have hmod := Threads.mod_ne (Nat.lt_succ_self r) (n := size) (by omega)
    rwa [Nat.mod_eq_of_lt hlt] at hmod
  have hwrap : (r + 1) % size < size := Nat.mod_lt _ (by omega)
  exact ⟨_, Run.of_foldlM (f := act) rfl, rfl, rfl, rfl, rfl, hne, hwrap,
    hsize, hlength⟩

/-- `run` sends it. -/
theorem Full.lull {k : Nat} {s : MarketDataPublisher} (h : Full k s)
    (hk : k < 2000) :
    ∃ s', Run Acted s [.run, .run, .run, .run, .run, .run, .run] s'
      ∧ Lull (k + 1) s' := by
  obtain ⟨⟨⟨store, size, w, r, n⟩, producer, consumer, passed, returned⟩,
    step, number, ⟨buffer, datagrams, discarded⟩, incremental, snapshot,
    batch⟩ := s
  obtain ⟨hstep, hproducer, hcounted, hnext, hne, hlt, hsize, hlength⟩ := h
  dsimp only at hstep hproducer hcounted hnext hne hlt hsize hlength
  subst hstep hproducer hcounted
  have hfits : ∀ data : List UInt8, data.length ≤ 42 →
      (⟨buffer ++ data, datagrams, discarded⟩ : McastSocket).Fits := by
    intro data hdata
    have hall : (buffer ++ data).length ≤ 2 * maxUdpPayload := by
      have hpayload : maxUdpPayload = 65507 := rfl
      rw [List.length_append]
      omega
    exact fits_of_le hall
  have hnumber : ((Packed.Codec.nat 8).encode number).length = 8 :=
    Packed.Codec.length_encode _ _
  have hupdate : ∀ u, (Wire.marketUpdate.encode u).length = 34 :=
    Packed.Codec.length_encode _
  have hfirst := hfits ((Packed.Codec.nat 8).encode number) (by omega)
  have hboth : ∀ u, (⟨buffer ++ (Packed.Codec.nat 8).encode number
      ++ Wire.marketUpdate.encode u, datagrams, discarded⟩
        : McastSocket).Fits := by
    intro u
    rw [List.append_assoc]
    refine hfits _ ?_
    rw [List.length_append, hnumber, hupdate]
  refine ⟨_, Run.of_foldlM (f := act) (s := ?_) ?_, ?_⟩
  rotate_left
  · simp only [List.foldlM_cons, List.foldlM_nil, act,
      LockFreeQueue.getNextToRead, LockFreeQueue.advanceRead,
      LockFreeQueue.countDown, run, send, McastSocket.send, hne, hfirst,
      hboth, if_true, if_false, Option.bind_eq_bind, Option.bind_some,
      Nat.one_ne_zero]
    rfl
  · refine ⟨rfl, rfl, rfl, hnext, hlt, hsize, ?_⟩
    show List.length (buffer ++ _ ++ _) = _
    rw [List.length_append, List.length_append, hnumber, hupdate, hlength]
    omega

theorem lull_oneUpdate {k : Nat} {s : MarketDataPublisher} (h : Lull k s)
    (hk : k < 2000) : ∃ s', Run Acted s oneUpdate s' ∧ Lull (k + 1) s' := by
  obtain ⟨full, hwritten, hfull⟩ := h.full
  obtain ⟨s', hsent, hlull⟩ := hfull.lull hk
  exact ⟨s', hwritten.append hsent, hlull⟩

theorem lull_run {capacity : Nat} (hcap : 2 ≤ capacity) (k : Nat)
    (hk : k ≤ 2000) : ∃ as s, Run Acted (new capacity) as s ∧ Lull k s := by
  induction k with
  | zero =>
    have hpos : 0 < capacity := by omega
    exact ⟨[], new capacity, .nil, rfl, rfl, rfl, rfl, hpos, hcap, rfl⟩
  | succ k ih =>
    obtain ⟨as, s, hrun, hlull⟩ := ih (by omega)
    obtain ⟨s', hone, hlull'⟩ := lull_oneUpdate hlull (by omega)
    exact ⟨_, s', hrun.append hone, hlull'⟩

/-- After a lull `run` sends what it has. -/
theorem discarded_of_lull {k : Nat} {s : MarketDataPublisher} (h : Lull k s)
    (hk : maxUdpPayload < 42 * k) :
    s.run.run.run.incrementalSocket.discarded ≠ [] := by
  have hget : s.threads.queue.getNextToRead = none := by
    unfold LockFreeQueue.getNextToRead
    rw [if_pos h.index]
  have hlength := h.length
  have hmany : ¬ s.incrementalSocket.sendBuffer.length ≤ maxUdpPayload := by
    omega
  have hsome : ¬ s.incrementalSocket.sendBuffer.length = 0 := by omega
  have hsent : s.run.run.run.incrementalSocket
      = s.incrementalSocket.sendAndRecv := by
    simp only [run, h.step, hget]
  rw [hsent]
  unfold McastSocket.sendAndRecv
  rw [if_neg hsome, if_neg hmany]
  simp

/-- 1560 updates that the engine writes as fast as they are taken make a
datagram that is not sent. -/
theorem not_delivered_steady : ∃ as s,
    Run Acted (new (256 * 1024)) as s
      ∧ maxUdpPayload < s.incrementalSocket.sendBuffer.length
      ∧ s.run.run.run.incrementalSocket.discarded ≠ []
      ∧ ¬ s.Delivered := by
  obtain ⟨as, s, hrun, hlull⟩ := lull_run
    (by decide : 2 ≤ 256 * 1024) 1560 (by decide)
  have hmany : maxUdpPayload < s.incrementalSocket.sendBuffer.length := by
    rw [hlull.length]
    decide
  refine ⟨as, s, hrun, hmany, discarded_of_lull hlull (by decide), ?_⟩
  intro hdelivered
  exact absurd hdelivered.payload (Nat.not_le.2 hmany)

end MarketDataPublisher

end ElectronicTrading
