/-
The synthesizer against the live orders that the updates tell.

Whatever updates it has taken in without an ASSERT, it holds the live
orders of those updates (`Shows`), and its snapshot, played over any
orders of the known tickers, leaves exactly these. Nothing is asked of the
updates here: what would disagree, an ADD of an order that is live or a
CANCEL with another side, is what the ASSERTs stop.
-/
import ElectronicTrading.Exchange.LiveOrders
import ElectronicTrading.Trading.Proofs.Snapshot

namespace ElectronicTrading

open Exec

namespace SnapshotSynthesizer

/-- The synthesizer holds the orders of `live`, each as an ADD under its
own id. -/
structure Shows (s : SnapshotSynthesizer) (live : LiveOrders) : Prop where
  pooled : ∃ held, s.Pooled held
  keyed : ∀ i o v, s.view i o = some v → v.type = .add
    ∧ v.tickerId = tickerOf i ∧ v.orderId = o
    ∧ o.toNat < matchingEngineMaxOrderIds
  orders : ∀ i o, (s.view i o).map MatchingEngineMarketUpdate.order
    = live (tickerOf i) o
  others : ∀ t, (∀ i, t ≠ tickerOf i) → ∀ o, live t o = none

theorem shows_new : new.Shows .empty where
  pooled := ⟨[], pooled_new⟩
  keyed := fun _ _ _ h => by cases h
  orders := fun _ _ => rfl
  others := fun _ _ _ => rfl

variable {s s' : SnapshotSynthesizer} {live : LiveOrders}
  {u v : MatchingEngineMarketUpdate} {us : List MatchingEngineMarketUpdate}
  {i : Fin matchingEngineMaxTickers}

theorem exists_tickerOf {t : TickerID}
    (h : t.toNat < matchingEngineMaxTickers) : ∃ i, t = tickerOf i := by
  refine ⟨⟨t.toNat, h⟩, UInt32.toNat_inj.1 ?_⟩
  rw [toNat_tickerOf]

-- ============================================================== one update

/-- The view of one id changes, to an ADD under that id or to nothing. -/
theorem Shows.set (h : s.Shows live) {held : List Ptr}
    (hpooled : s'.Pooled held) {o : OrderID}
    {order : Option MatchingEngineMarketUpdate}
    (hview : ∀ j o', s'.view j o'
      = if j = i ∧ o' = o then order else s.view j o')
    (hkeyed : ∀ v, order = some v → v.type = .add ∧ v.tickerId = tickerOf i
      ∧ v.orderId = o ∧ o.toNat < matchingEngineMaxOrderIds) :
    s'.Shows (live.set (tickerOf i) o
      (order.map MatchingEngineMarketUpdate.order)) where
  pooled := ⟨held, hpooled⟩
  keyed := by
    intro j o' v hv
    rw [hview] at hv
    split at hv
    · next hself =>
      rw [hself.1, hself.2]
      exact hkeyed v hv
    · exact h.keyed j o' v hv
  orders := by
    intro j o'
    rw [hview]
    show _ = if tickerOf j = tickerOf i ∧ o' = o then _ else _
    by_cases hself : j = i ∧ o' = o
    · rw [if_pos hself, if_pos ⟨congrArg tickerOf hself.1, hself.2⟩]
    · rw [if_neg hself, if_neg fun hboth =>
        hself ⟨tickerOf_injective hboth.1, hboth.2⟩]
      exact h.orders j o'
  others := by
    intro t ht o'
    show (if t = tickerOf i ∧ o' = o then _ else _) = none
    rw [if_neg fun hboth => ht i hboth.1]
    exact h.others t ht o'

/-- What MODIFY and CANCEL have asserted once they have an order. -/
theorem existingOrder_ok {p : Ptr} (hticker : u.tickerId = tickerOf i)
    (h : (existingOrder u).run s = .ok p s') :
    s' = s ∧ u.orderId.toNat < matchingEngineMaxOrderIds
      ∧ ∃ v, s.view i u.orderId = some v ∧ v.orderId = u.orderId
        ∧ v.side = u.side := by
  unfold existingOrder orderAt at h
  by_cases hrange : u.orderId.toNat < matchingEngineMaxOrderIds
  · cases horder : s.tickerOrders (tickerOf i) u.orderId with
    | none =>
        simp [hrange, hticker, horder] at h
        cases h
    | some q =>
        simp only [hrange, hticker, horder, decide_true, EStateM.run_bind,
          run_assert, if_true, EStateM.run_get, EStateM.run_pure] at h
        by_cases hid : (s.orderPool.deref q).orderId = u.orderId
        · by_cases hside : (s.orderPool.deref q).side = u.side
          · simp only [hid, hside, decide_true, if_true] at h
            refine ⟨(EStateM.Result.ok.inj h).2.symm, hrange,
              s.orderPool.deref q, ?_, hid, hside⟩
            unfold view
            rw [horder]
            rfl
          · simp [hid, hside] at h
        · simp [hid] at h
  · simp [hrange] at h

theorem Shows.onAdd (h : s.Shows live) (hticker : u.tickerId = tickerOf i)
    (htype : u.type = .add) (hrun : (onAdd u).run s = .ok () s') :
    s'.Shows (live.play u)
      ∧ s'.lastIncrementSequenceNumber = s.lastIncrementSequenceNumber := by
  obtain ⟨held, hpooled⟩ := h.pooled
  have hrun' := hrun
  unfold SnapshotSynthesizer.onAdd orderAt at hrun'
  by_cases hrange : u.orderId.toNat < matchingEngineMaxOrderIds
  · by_cases hnone : s.tickerOrders (tickerOf i) u.orderId = none
    · have hroom : held.length + 1 < matchingEngineMaxOrderIds := by
        by_contra hfull
        have hle := hpooled.pool.held_length
        obtain ⟨e, m, herr⟩ := (hpooled.pool.runsOut_iff u).2 (by
          show held.length + 1 = matchingEngineMaxOrderIds
          change held.length + 1 ≤ matchingEngineMaxOrderIds at hle
          omega)
        have hout : (onOrderPool (MemPool.allocate u)).run s
            = .error e { s with orderPool := m } := run_zoom_error herr
        simp [hrange, hticker, hnone, hout] at hrun'
      have hview : s.view i u.orderId = none := by
        unfold view
        rw [hnone]
        rfl
      obtain ⟨t, p, ht, hpooled', hlast, hviews⟩ :=
        run_onAdd hpooled hticker hrange hview hroom
      rw [hrun] at ht
      have heq := (EStateM.Result.ok.inj ht).2
      rw [← heq] at hpooled' hlast hviews
      refine ⟨?_, hlast⟩
      have hset := h.set hpooled' hviews fun v hv => by
        cases hv
        exact ⟨htype, hticker, rfl, hrange⟩
      unfold LiveOrders.play
      rw [htype, hticker]
      exact hset
    · simp [hrange, hticker, hnone] at hrun'
  · simp [hrange] at hrun'

theorem Shows.onModify (h : s.Shows live) (hticker : u.tickerId = tickerOf i)
    (htype : u.type = .modify) (hrun : (onModify u).run s = .ok () s') :
    s'.Shows (live.play u)
      ∧ s'.lastIncrementSequenceNumber = s.lastIncrementSequenceNumber := by
  obtain ⟨held, hpooled⟩ := h.pooled
  have hfirst := hrun
  unfold SnapshotSynthesizer.onModify at hfirst
  obtain ⟨p, t, hexisting, -⟩ := run_bind_eq_ok hfirst
  obtain ⟨-, hrange, v, hview, hid, hside⟩ :=
    existingOrder_ok hticker hexisting
  obtain ⟨t, ht, hpooled', hlast, hviews⟩ :=
    run_onModify hpooled hticker hrange hview hid hside
  rw [hrun] at ht
  have heq := (EStateM.Result.ok.inj ht).2
  rw [← heq] at hpooled' hlast hviews
  refine ⟨?_, hlast⟩
  have hset := h.set hpooled' hviews fun v' hv => by
    cases hv
    exact h.keyed i u.orderId v hview
  unfold LiveOrders.play
  rw [htype, hticker]
  dsimp only
  rw [← h.orders i u.orderId, hview]
  exact hset

theorem Shows.onCancel (h : s.Shows live) (hticker : u.tickerId = tickerOf i)
    (htype : u.type = .cancel) (hrun : (onCancel u).run s = .ok () s') :
    s'.Shows (live.play u)
      ∧ s'.lastIncrementSequenceNumber = s.lastIncrementSequenceNumber := by
  obtain ⟨held, hpooled⟩ := h.pooled
  have hfirst := hrun
  unfold SnapshotSynthesizer.onCancel at hfirst
  obtain ⟨p, t, hexisting, -⟩ := run_bind_eq_ok hfirst
  obtain ⟨-, hrange, v, hview, hid, hside⟩ :=
    existingOrder_ok hticker hexisting
  obtain ⟨t, q, ht, hpooled', hlast, hviews⟩ :=
    run_onCancel hpooled hticker hrange hview hid hside
  rw [hrun] at ht
  have heq := (EStateM.Result.ok.inj ht).2
  rw [← heq] at hpooled' hlast hviews
  refine ⟨?_, hlast⟩
  have hset := h.set hpooled' hviews fun v' hv => by cases hv
  unfold LiveOrders.play
  rw [htype, hticker]
  exact hset

/-- The `switch` does to the orders what the update tells, but for a
CLEAR, which it does not take. -/
theorem Shows.dispatch (h : s.Shows live) (hticker : u.tickerId = tickerOf i)
    (hclear : u.type ≠ .clear) (hrun : (dispatch u).run s = .ok () s') :
    s'.Shows (live.play u)
      ∧ s'.lastIncrementSequenceNumber = s.lastIncrementSequenceNumber := by
  unfold SnapshotSynthesizer.dispatch at hrun
  cases htype : u.type with
  | add =>
      rw [htype] at hrun
      exact h.onAdd hticker htype hrun
  | modify =>
      rw [htype] at hrun
      exact h.onModify hticker htype hrun
  | cancel =>
      rw [htype] at hrun
      exact h.onCancel hticker htype hrun
  | clear => exact (hclear htype).elim
  | invalid | trade | snapshotStart | snapshotEnd =>
      have hplay : live.play u = live := by
        unfold LiveOrders.play
        rw [htype]
      rw [htype] at hrun
      rw [hplay, ← (EStateM.Result.ok.inj hrun).2]
      exact ⟨h, rfl⟩

/-- One update of the incremental stream. -/
theorem Shows.addToSnapshot (h : s.Shows live) {number : Nat}
    (hclear : u.type ≠ .clear)
    (hrun : (addToSnapshot ⟨number, u⟩).run s = .ok () s') :
    s'.Shows (live.play u)
      ∧ number = s.lastIncrementSequenceNumber + 1
      ∧ s'.lastIncrementSequenceNumber = number := by
  unfold SnapshotSynthesizer.addToSnapshot at hrun
  dsimp only at hrun
  obtain ⟨_, t₀, hticker, hrun⟩ := run_bind_eq_ok hrun
  rw [run_assert] at hticker
  split at hticker
  · next hin =>
    obtain ⟨i, hi⟩ := exists_tickerOf (of_decide_eq_true hin)
    rw [← (EStateM.Result.ok.inj hticker).2] at hrun
    obtain ⟨_, t, hdispatch, hrun⟩ := run_bind_eq_ok hrun
    obtain ⟨hshows, hlast⟩ := h.dispatch hi hclear hdispatch
    by_cases hnext : number = t.lastIncrementSequenceNumber + 1
    · simp [hnext] at hrun
      rw [← hrun]
      exact ⟨⟨hshows.pooled.imp fun _ hp => ⟨hp.pool, hp.orders, hp.apart⟩,
        hshows.keyed, hshows.orders, hshows.others⟩, by rw [hnext, hlast],
        hnext.symm⟩
    · simp [hnext] at hrun
  · cases hticker

-- ============================================================ all updates

/-- `addToSnapshot` of the updates, numbered from 1, has returned. -/
def Took (us : List MatchingEngineMarketUpdate) (s : SnapshotSynthesizer) :
    Prop :=
  (addAllToSnapshot (MarketDataPublisher.numbered us)).run new = .ok () s

theorem Took.snoc (h : Took (us ++ [u]) s') : ∃ s, Took us s
    ∧ (addToSnapshot ⟨us.length + 1, u⟩).run s = .ok () s' := by
  unfold Took addAllToSnapshot at h
  rw [MarketDataPublisher.numbered_snoc, List.forM_append] at h
  obtain ⟨_, s, hs, hone⟩ := run_bind_eq_ok h
  refine ⟨s, hs, ?_⟩
  rw [List.forM_cons] at hone
  obtain ⟨_, t, ht, hnil⟩ := run_bind_eq_ok hone
  cases hnil
  exact ht

/-- Updates taken in have been taken in one after the other. -/
theorem Took.take (h : Took us s') {n : Nat} : ∃ s, Took (us.take n) s := by
  induction us using List.reverseRecOn generalizing s' with
  | nil => exact ⟨s', by rwa [List.take_nil]⟩
  | append_singleton us u ih =>
      by_cases hn : n ≤ us.length
      · obtain ⟨s, hs, -⟩ := h.snoc
        rw [List.take_append_of_le_length hn]
        exact ih hs
      · rw [List.take_of_length_le]
        · exact ⟨s', h⟩
        · rw [List.length_append, List.length_singleton]
          omega

/-- The synthesizer shows what the updates tell. -/
theorem Took.shows (h : Took us s) (hclear : ∀ u ∈ us, u.type ≠ .clear) :
    s.Shows (.replay us) ∧ s.lastIncrementSequenceNumber = us.length := by
  induction us using List.reverseRecOn generalizing s with
  | nil =>
      cases h
      exact ⟨shows_new, rfl⟩
  | append_singleton us u ih =>
      obtain ⟨t, ht, hone⟩ := h.snoc
      obtain ⟨hshows, -⟩ := ih ht fun v hv =>
        hclear v (List.mem_append_left [u] hv)
      obtain ⟨hshows', -, hlast⟩ := hshows.addToSnapshot
        (hclear u (List.mem_append_right us (List.mem_singleton_self u))) hone
      rw [LiveOrders.replay_snoc, hlast, List.length_append]
      exact ⟨hshows', rfl⟩

-- ============================================================ the snapshot

/-- A ticker's part of the snapshot leaves the orders held. -/
theorem Shows.playAll_part (h : s.Shows live) (i : Fin matchingEngineMaxTickers)
    (before : LiveOrders) (t : TickerID) :
    before.playAll ({ type := .clear, tickerId := tickerOf i }
        :: s.ordersOf (tickerOf i)) t
      = if t = tickerOf i then live t else before t := by
  funext o
  have hkeyed : ∀ o u, s.view i o = some u →
      u.type = .add ∧ u.tickerId = tickerOf i ∧ u.orderId = o :=
    fun o u hu => ⟨(h.keyed i o u hu).1, (h.keyed i o u hu).2.1,
      (h.keyed i o u hu).2.2.1⟩
  have hadds := LiveOrders.playAll_adds hkeyed orderIds
    (before.clear (tickerOf i)) t o
  have hplay : before.play { type := .clear, tickerId := tickerOf i }
      = before.clear (tickerOf i) := rfl
  rw [LiveOrders.playAll_cons, hplay]
  refine hadds.trans ?_
  by_cases ht : t = tickerOf i
  · rw [if_pos ht, ht]
    cases hview : s.view i o with
    | none =>
        rw [if_neg fun hboth => hboth.2.2 rfl, ← h.orders i o, hview]
        exact if_pos rfl
    | some v =>
        have hin := mem_orderIds.2 (h.keyed i o v hview).2.2.2
        rw [if_pos ⟨rfl, hin, Option.some_ne_none v⟩, ← h.orders i o, hview]
  · rw [if_neg ht, if_neg fun hboth => ht hboth.1]
    exact if_neg ht

/-- A snapshot leaves the live orders, whatever was there of the known
tickers before. -/
theorem Shows.playAll_payload (h : s.Shows live) {before : LiveOrders}
    (hothers : ∀ t, (∀ i, t ≠ tickerOf i) → before t = live t) :
    before.playAll s.payload = live := by
  have hparts : ∀ tickerId ∈ tickerIds, ∀ (before : LiveOrders) t,
      before.playAll ({ type := .clear, tickerId := tickerId }
          :: s.ordersOf tickerId) t
        = if t = tickerId then live t else before t := by
    intro tickerId hmem
    obtain ⟨k, hk, rfl⟩ := List.mem_map.1 hmem
    exact h.playAll_part ⟨k, List.mem_range.1 hk⟩
  funext t
  unfold payload
  rw [LiveOrders.playAll_flatMap hparts]
  split
  · rfl
  · next hnot =>
    exact hothers t fun i heq => hnot (heq ▸ tickerOf_mem i)

/-- For all updates that the synthesizer takes in, without a CLEAR among
them: its snapshot carries their number, and played over the orders that
any updates of known tickers have left it leaves the live orders of its
updates. -/
theorem snapshot_of_took (h : Took us s) (hclear : ∀ u ∈ us, u.type ≠ .clear)
    {vs : List MatchingEngineMarketUpdate}
    (hknown : ∀ v ∈ vs, v.tickerId.toNat < matchingEngineMaxTickers) :
    s.publishSnapshot.map (·.meMarketUpdate)
      = { type := .snapshotStart, orderId := UInt64.ofNat us.length }
        :: (s.payload
          ++ [{ type := .snapshotEnd, orderId := UInt64.ofNat us.length }])
      ∧ LiveOrders.replay (vs ++ s.payload) = .replay us := by
  obtain ⟨hshows, hlast⟩ := h.shows hclear
  constructor
  · unfold publishSnapshot
    rw [updates_numbered]
    unfold delimiter
    rw [hlast]
  · rw [LiveOrders.replay_append]
    refine hshows.playAll_payload fun t ht => ?_
    have hnone : LiveOrders.replay us t = fun _ => none :=
      funext (hshows.others t ht)
    rw [hnone]
    refine LiveOrders.playAll_other fun v hv heq => ?_
    obtain ⟨i, hi⟩ := exists_tickerOf (hknown v hv)
    exact ht i (heq.trans hi)

/-- Two bids and an ask: one bid is filled in part, the ask is cancelled. -/
def partFilled : List MatchingEngineMarketUpdate :=
  [⟨.add, 1, 0, .buy, 100, 5, 1⟩, ⟨.add, 2, 0, .sell, 102, 7, 1⟩,
    ⟨.modify, 1, 0, .buy, 100, 4, 1⟩, ⟨.add, 3, 1, .buy, 50, 6, 1⟩,
    ⟨.cancel, 2, 0, .sell, 102, 7, 1⟩]

theorem took_partFilled : ∃ s, Took partFilled s := ⟨_, rfl⟩

/-- The snapshot tells what is left, to a receiver that knows another order
and has missed that one is gone. -/
theorem snapshot_of_took_partFilled : ∃ s, Took partFilled s
    ∧ LiveOrders.replay ([⟨.add, 7, 3, .buy, 1, 1, 1⟩,
        ⟨.add, 2, 0, .sell, 102, 7, 1⟩] ++ s.payload)
      = .replay partFilled
    ∧ LiveOrders.replay partFilled 0 1 = some ⟨.buy, 100, 4⟩
    ∧ LiveOrders.replay partFilled 0 2 = none
    ∧ LiveOrders.replay partFilled 1 3 = some ⟨.buy, 50, 6⟩ := by
  obtain ⟨s, htook⟩ := took_partFilled
  refine ⟨s, htook, (snapshot_of_took htook ?_ ?_).2, rfl, rfl, rfl⟩
  · decide
  · decide

end SnapshotSynthesizer

end ElectronicTrading
