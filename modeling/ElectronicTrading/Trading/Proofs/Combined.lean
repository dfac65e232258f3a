/-
Recoveries that combine two snapshots.

A snapshot message bears its number in the snapshot, and every snapshot
numbers its messages 0, 1, 2, ... Only SNAPSHOT_START and SNAPSHOT_END say
which snapshot they are of, by the number of the last update in it, and the
consumer does not compare the two. It throws away what is queued when a
number is missing or comes twice; the beginning of one snapshot and the
rest of a later one show neither (`not_replays_combined`).

`replays_of_run` is about the runs in which no message completes a recovery
from two snapshots (`EndsOwn`), whatever else is lost, repeated or
reordered: out of recovery, what the consumer has written tells the live
orders as of the update before the one it expects.
-/
import ElectronicTrading.Trading.Proofs.Delivered

namespace ElectronicTrading

open Runs

namespace MarketDataConsumer

open SnapshotSynthesizer (Took after)

variable {us : List MatchingEngineMarketUpdate}

/-- What is published is sent by the feed, callback by callback. -/
theorem Heard.Hears.sends (hshort : us.length < 2 ^ 64)
    (htook : ∃ s, Took us s) (hclear : ∀ u ∈ us, u.type ≠ .clear)
    {w w' : Heard} {received : Bool × List MDPMarketUpdate}
    (h : w.Hears (Published us) received w') :
    w.Hears (exchangeFeed us hshort).Sends received w' := by
  obtain ⟨ps, hpublished, hown, hw⟩ := h
  exact ⟨ps, hpublished.imp fun p d hp => hp.sends hshort htook hclear,
    hown, hw⟩

/-- In every run in which no message completes a recovery from two
snapshots: out of recovery, what has been written are recoveries from one
snapshot each and the updates after them, and it tells the live orders as of
the update before the one that is expected. -/
theorem replays_of_run (hshort : us.length + 1 < 2 ^ 64)
    (htook : ∃ s, Took us s) (hclear : ∀ u ∈ us, u.type ≠ .clear)
    {received : List (Bool × List MDPMarketUpdate)} {w : Heard}
    (h : Run (Heard.Hears (Published us)) .new received w)
    (hidle : w.consumer.inRecoveryMode = false) :
    w.consumer.nextExpectedSequenceNumber - 1 ≤ us.length
      ∧ (∃ before current, w.consumer.incomingMdQueue = before ++ current
        ∧ (exchangeFeed us (Nat.lt_of_succ_lt hshort)).Writes before current
          (w.consumer.nextExpectedSequenceNumber - 1))
      ∧ LiveOrders.replay w.consumer.incomingMdQueue
        = .replay (us.take (w.consumer.nextExpectedSequenceNumber - 1)) := by
  have hfed : Run (Heard.Hears (exchangeFeed us
      (Nat.lt_of_succ_lt hshort)).Sends) .new received w :=
    h.mono (I := fun _ => True) (fun _ _ _ _ hhears =>
      hhears.sends _ htook hclear) fun _ _ _ => trivial
  obtain ⟨m, ⟨before, current, hwrites, hqueue⟩, hnext⟩ :=
    (Feed.inv_of_run hfed).written
  have hm : m ≤ us.length := hwrites.le
  have hreached : w.consumer.nextExpectedSequenceNumber - 1 = m := by
    rw [hnext hidle, Nat.mod_eq_of_lt (by omega)]
    rfl
  rw [hreached]
  refine ⟨hm, ⟨before, current, hqueue, hwrites⟩, ?_⟩
  rw [hqueue]
  exact hwrites.live htook hclear

-- ========================================================= two snapshots

/-- The ADD of a second bid. -/
def secondAdd : MatchingEngineMarketUpdate :=
  { firstAdd with orderId := 2, price := 99 }

def twoAdds : List MatchingEngineMarketUpdate := [firstAdd, secondAdd]

theorem took_twoAdds : ∃ s, Took twoAdds s := ⟨_, rfl⟩

/-- The snapshot between the two. -/
def secondSnapshot : List MDPMarketUpdate :=
  SnapshotSynthesizer.numbered 0
    ([{ type := .snapshotStart, orderId := 1 }, { type := .clear, tickerId := 0 },
        firstAdd]
      ++ (SnapshotSynthesizer.tickerIds.drop 1).map
        (fun tickerId => { type := .clear, tickerId := tickerId })
      ++ [{ type := .snapshotEnd, orderId := 1 }])

theorem publishSnapshot_firstAdd :
    (after (twoAdds.take 1)).publishSnapshot = secondSnapshot := by
  have hstored : (after (twoAdds.take 1)).tickerOrders
      = fun t o => if t = 0 ∧ o = 1 then some 0 else none := rfl
  have hobject : (after (twoAdds.take 1)).orderPool.deref 0 = firstAdd := rfl
  have hfirst : (after (twoAdds.take 1)).ordersOf 0 = [firstAdd] := by
    have hone : orderIds.filter (· = 1) = [1] := by
      rw [List.filter_eq, List.count_eq_one_of_mem nodup_orderIds
        (mem_orderIds.2 (by decide)), List.replicate_one]
    calc (after (twoAdds.take 1)).ordersOf 0
        = orderIds.filterMap fun o => if decide (o = 1) = true
            then some firstAdd else none := by
          refine List.filterMap_congr fun o _ => ?_
          rw [hstored]
          by_cases ho : o = 1
          · simp [ho, hobject]
          · simp [ho]
      _ = (orderIds.filter (· = 1)).filterMap fun _ => some firstAdd :=
          List.filterMap_filter.symm
      _ = [firstAdd] := by
          rw [hone]
          rfl
  have hrest : ∀ t ∈ SnapshotSynthesizer.tickerIds.drop 1,
      (after (twoAdds.take 1)).ordersOf t = [] := by
    intro t ht
    refine List.filterMap_eq_nil_iff.2 fun o _ => ?_
    have hne : t ≠ 0 := by
      rintro rfl
      revert ht
      decide
    rw [hstored]
    simp [hne]
  unfold SnapshotSynthesizer.publishSnapshot secondSnapshot
  congr 1
  have hpayload : (after (twoAdds.take 1)).payload
      = { type := .clear, tickerId := 0 } :: firstAdd
        :: (SnapshotSynthesizer.tickerIds.drop 1).map
          fun tickerId => { type := .clear, tickerId := tickerId } := by
    unfold SnapshotSynthesizer.payload
    have hids : SnapshotSynthesizer.tickerIds
        = 0 :: SnapshotSynthesizer.tickerIds.drop 1 := rfl
    rw [hids, List.flatMap_cons, hfirst, List.map_eq_flatMap]
    refine congrArg (_ :: firstAdd :: ·) (List.flatMap_congr fun t ht => ?_)
    rw [hrest t ht]
  rw [hpayload]
  rfl

theorem published_second : Published twoAdds (.incremental 2)
    (false, ⟨2, secondAdd⟩) :=
  ⟨rfl, rfl, List.mem_cons_of_mem _ List.mem_cons_self⟩

theorem published_firstSnapshot : List.Forall₂ (Published twoAdds)
    ((List.range 10).map (.snapshot 0))
    (firstSnapshot.map (Prod.mk true)) :=
  published_snapshot (Nat.zero_le _) publishSnapshot_new

theorem published_secondSnapshot : List.Forall₂ (Published twoAdds)
    ((List.range 11).map (.snapshot 1))
    (secondSnapshot.map (Prod.mk true)) :=
  published_snapshot (by decide) publishSnapshot_firstAdd

/-- The first update is lost, and all but the beginning of the first
snapshot; the second snapshot comes whole. -/
def restarted : List (Bool × List MDPMarketUpdate) :=
  [(false, [⟨2, secondAdd⟩]), (true, firstSnapshot.take 3),
    (true, secondSnapshot)]

/-- The snapshot that comes whole is the only one that ends. -/
theorem run_restarted : ∃ w, Run (Heard.Hears (Published twoAdds)) .new
    restarted w ∧ w.consumer.inRecoveryMode = false
      ∧ w.consumer.nextExpectedSequenceNumber = 3 := by
  have hincremental : Run (Heard.Hears (Published twoAdds)) .new
      [(false, [⟨2, secondAdd⟩])] _ := Run.nil.snoc
    ⟨_, .cons published_second .nil, Or.inr (by decide), rfl⟩
  have hbeginning := hincremental.snoc (r := (true, firstSnapshot.take 3))
    ⟨_, List.forall₂_take 3 published_firstSnapshot, Or.inr (by decide), rfl⟩
  have hwhole := hbeginning.snoc (r := (true, secondSnapshot))
    ⟨_, published_secondSnapshot, Or.inr (by decide), rfl⟩
  exact ⟨_, hwhole, by decide, by decide⟩

/-- It recovers, and knows both bids. -/
theorem replays_of_run_restarted : ∃ w,
    Run (Heard.Hears (Published twoAdds)) .new restarted w
      ∧ w.consumer.nextExpectedSequenceNumber = 3
      ∧ LiveOrders.replay w.consumer.incomingMdQueue = .replay twoAdds := by
  obtain ⟨w, hrun, hidle, hnext⟩ := run_restarted
  have hreplays := (replays_of_run (by decide) took_twoAdds (by decide)
    hrun hidle).2.2
  rw [hnext] at hreplays
  exact ⟨w, hrun, hnext, hreplays⟩

/-- The first update is lost, all but the beginning of the first snapshot,
and the beginning of the second. -/
def combined : List (Bool × List MDPMarketUpdate) :=
  [(false, [⟨2, secondAdd⟩]), (true, firstSnapshot.take 3),
    (true, secondSnapshot.drop 3)]

/-- The consumer takes what it has of the two for one snapshot, recovers,
and does not know the first bid. -/
theorem not_replays_combined : ¬ ∀ (us : List MatchingEngineMarketUpdate)
    (received : List (Bool × List MDPMarketUpdate)) (ps : List Packet),
    us.length + 1 < 2 ^ 64 → (∃ s, Took us s) → (∀ u ∈ us, u.type ≠ .clear) →
    List.Forall₂ (Published us) ps (deliveries received) →
    (received.foldl recvCallback new).inRecoveryMode = false →
    LiveOrders.replay (received.foldl recvCallback new).incomingMdQueue
      = .replay (us.take ((received.foldl recvCallback
        new).nextExpectedSequenceNumber - 1)) := by
  intro hall
  have hpublished := List.rel_append (.cons published_second .nil)
    (List.rel_append (List.forall₂_take 3 published_firstSnapshot)
      (List.forall₂_drop 3 published_secondSnapshot))
  have hreplays := hall twoAdds combined _ (by decide) took_twoAdds
    (by decide) hpublished (by decide)
  have hbid := congrArg (fun live => live 0 1) hreplays
  revert hbid
  decide

end MarketDataConsumer

end ElectronicTrading
