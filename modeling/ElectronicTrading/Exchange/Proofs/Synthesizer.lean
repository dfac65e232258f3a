/-
The operations of the synthesizer, seen through what it holds.

`view` is the update held for an order id of a ticker. An operation that
meets its assertions changes the view of one id and nothing else. The
blocks of the pool in use are those of the orders held (`Pooled`), of all
tickers together, so that ADD fails only for want of a block.
-/
import ElectronicTrading.Exchange.SnapshotSynthesizer
import ElectronicTrading.Common.Proofs.PoolRuns

namespace ElectronicTrading

open Exec

namespace SnapshotSynthesizer

-- ============================================================ what is held

/-- The `i`-th ticker. -/
def tickerOf (i : Fin matchingEngineMaxTickers) : TickerID := UInt32.ofNat i

theorem toNat_tickerOf (i : Fin matchingEngineMaxTickers) :
    (tickerOf i).toNat = i := by
  have hi := i.isLt
  have hmax : matchingEngineMaxTickers < 2 ^ 32 := by decide
  unfold tickerOf
  rw [UInt32.toNat_ofNat', Nat.mod_eq_of_lt (by omega)]

theorem tickerOf_injective {i j : Fin matchingEngineMaxTickers}
    (h : tickerOf i = tickerOf j) : i = j := by
  apply Fin.ext
  rw [← toNat_tickerOf i, ← toNat_tickerOf j, h]

/-- The update held for an id of the `i`-th ticker. -/
def view (s : SnapshotSynthesizer) (i : Fin matchingEngineMaxTickers)
    (orderId : OrderID) : Option MatchingEngineMarketUpdate :=
  (s.tickerOrders (tickerOf i) orderId).map s.orderPool.deref

/-- The elements that are held, which are the blocks in use, are the
orders', one each. -/
structure Pooled (s : SnapshotSynthesizer) (held : List Ptr) : Prop where
  pool : Loans.Matches matchingEngineMaxOrderIds ⟨s.orderPool, held⟩
  orders : ∀ p, p ∈ held ↔ ∃ i o, s.tickerOrders (tickerOf i) o = some p
  apart : ∀ i o j o' p, s.tickerOrders (tickerOf i) o = some p →
    s.tickerOrders (tickerOf j) o' = some p → i = j ∧ o = o'

theorem pooled_new : Pooled new [] where
  pool := Loans.matches_new (by decide) _
  orders := fun p => by
    constructor
    · intro hp
      cases hp
    · intro h
      obtain ⟨i, o, hp⟩ := h
      cases hp
  apart := fun _ _ _ _ _ hp => by cases hp

variable {s : SnapshotSynthesizer} {held : List Ptr}
  {u v : MatchingEngineMarketUpdate} {i : Fin matchingEngineMaxTickers}

theorem run_orderAt (s : SnapshotSynthesizer) (tickerId : TickerID)
    {orderId : OrderID} (h : orderId.toNat < matchingEngineMaxOrderIds) :
    (orderAt tickerId orderId).run s
      = .ok (s.tickerOrders tickerId orderId) s := by
  simp [orderAt, h]

/-- The synthesizer once an id of the ticker `i` has another order. -/
def withOrder (s : SnapshotSynthesizer) (tickerId : TickerID)
    (orderId : OrderID) (order : Option Ptr)
    (m : MemPool MatchingEngineMarketUpdate) : SnapshotSynthesizer :=
  { s with
    tickerOrders := fun t o =>
      if t = tickerId ∧ o = orderId then order else s.tickerOrders t o
    orderPool := m }

/-- An ADD of an id that is not held, with two blocks free. -/
theorem run_onAdd (h : s.Pooled held) (hticker : u.tickerId = tickerOf i)
    (hrange : u.orderId.toNat < matchingEngineMaxOrderIds)
    (hnone : s.view i u.orderId = none)
    (hroom : held.length + 1 < matchingEngineMaxOrderIds) :
    ∃ s' p, (onAdd u).run s = .ok () s' ∧ s'.Pooled (p :: held)
      ∧ s'.lastIncrementSequenceNumber = s.lastIncrementSequenceNumber
      ∧ ∀ j o, s'.view j o
        = if j = i ∧ o = u.orderId then some u else s.view j o := by
  have hempty : s.tickerOrders u.tickerId u.orderId = none := by
    rw [hticker]
    exact Option.map_eq_none_iff.1 hnone
  obtain ⟨m, hrun, hok, hsize, hstore⟩ :=
    (MemPool.allocate_cases h.pool.ok u).resolve_right fun hfull => by
      have hout := (h.pool.runsOut_iff u).1 ⟨_, hfull.1⟩
      have hlength : held.length + 1 = matchingEngineMaxOrderIds := hout
      omega
  obtain ⟨p, hp⟩ : ∃ p, p = s.orderPool.nextFreeIndex := ⟨_, rfl⟩
  rw [← hp] at hrun hstore
  -- the block allocated is nobody's yet
  have hnot : p ∉ held := by
    rw [hp]
    exact h.pool.cursor_not_held
  have hderef : ∀ q, m.deref q = if q = p then u else s.orderPool.deref q :=
    MemPool.deref_of_store hstore
  have hold : ∀ j o q, s.tickerOrders (tickerOf j) o = some q → q ≠ p := by
    intro j o q hq heq
    rw [heq] at hq
    exact hnot ((h.orders p).2 ⟨j, o, hq⟩)
  have hpool : Loans.Matches matchingEngineMaxOrderIds ⟨m, p :: held⟩ :=
    h.pool.called (c := .allocate u) ⟨p, hrun, rfl⟩
  have halloc : (onOrderPool (MemPool.allocate u)).run s
      = .ok p { s with orderPool := m } := run_zoom_ok hrun
  have hwith : ∀ j o q, (s.withOrder u.tickerId u.orderId (some p)
      m).tickerOrders (tickerOf j) o = some q ↔
      (j = i ∧ o = u.orderId ∧ q = p)
        ∨ s.tickerOrders (tickerOf j) o = some q := by
    intro j o q
    show (if tickerOf j = u.tickerId ∧ o = u.orderId then some p
      else s.tickerOrders (tickerOf j) o) = some q ↔ _
    split
    · next hself =>
      obtain ⟨hj, ho⟩ := hself
      rw [hj, ho, hempty]
      rw [hticker] at hj
      have hji := tickerOf_injective hj
      constructor
      · intro hq
        exact Or.inl ⟨hji, rfl, (Option.some.inj hq).symm⟩
      · intro h
        rcases h with ⟨-, -, hq⟩ | hq
        · rw [hq]
        · cases hq
    · next hself =>
      constructor
      · exact Or.inr
      · intro h
        rcases h with ⟨hj, ho, -⟩ | hq
        · refine (hself ⟨?_, ho⟩).elim
          rw [hj, hticker]
        · exact hq
  refine ⟨s.withOrder u.tickerId u.orderId (some p) m, p, ?_,
    ⟨hpool, fun q => ?_, fun j o j' o' q hq hq' => ?_⟩, rfl, ?_⟩
  · unfold onAdd
    rw [run_bind_ok (run_orderAt s u.tickerId hrange), hempty]
    simp only [decide_true, EStateM.run_bind, run_assert, if_true]
    rw [halloc]
    rfl
  · rw [List.mem_cons, h.orders]
    constructor
    · intro h
      rcases h with heq | ⟨j, o, hj⟩
      · exact ⟨i, u.orderId, (hwith _ _ _).2 (Or.inl ⟨rfl, rfl, heq⟩)⟩
      · exact ⟨j, o, (hwith _ _ _).2 (Or.inr hj)⟩
    · intro h
      obtain ⟨j, o, hq⟩ := h
      rcases (hwith _ _ _).1 hq with ⟨-, -, heq⟩ | hq
      · exact Or.inl heq
      · exact Or.inr ⟨j, o, hq⟩
  · rcases (hwith _ _ _).1 hq with ⟨hj, ho, heq⟩ | hq
    · rcases (hwith _ _ _).1 hq' with ⟨hj', ho', -⟩ | hq'
      · exact ⟨hj.trans hj'.symm, ho.trans ho'.symm⟩
      · exact (hold _ _ _ hq' heq).elim
    · rcases (hwith _ _ _).1 hq' with ⟨-, -, heq⟩ | hq'
      · exact (hold _ _ _ hq heq).elim
      · exact h.apart _ _ _ _ _ hq hq'
  · intro j o
    show (if tickerOf j = u.tickerId ∧ o = u.orderId then some p
      else s.tickerOrders (tickerOf j) o).map m.deref = _
    by_cases hself : j = i ∧ o = u.orderId
    · rw [if_pos hself, if_pos ⟨by rw [hself.1, hticker], hself.2⟩,
        Option.map_some, hderef, if_pos rfl]
    · rw [if_neg hself, if_neg fun hboth => hself
        ⟨tickerOf_injective (hboth.1.trans hticker), hboth.2⟩]
      unfold view
      cases hq : s.tickerOrders (tickerOf j) o with
      | none => rfl
      | some q =>
          rw [Option.map_some, Option.map_some, hderef,
            if_neg (hold j o q hq)]

/-- The assertions of MODIFY and CANCEL. -/
theorem run_existingOrder (hticker : u.tickerId = tickerOf i)
    (hrange : u.orderId.toNat < matchingEngineMaxOrderIds)
    (hview : s.view i u.orderId = some v)
    (hid : v.orderId = u.orderId) (hside : v.side = u.side) :
    ∃ p, s.tickerOrders (tickerOf i) u.orderId = some p
      ∧ s.orderPool.deref p = v ∧ (existingOrder u).run s = .ok p s := by
  obtain ⟨p, hp, hderef⟩ := Option.map_eq_some_iff.1 hview
  refine ⟨p, hp, hderef, ?_⟩
  unfold existingOrder
  rw [run_bind_ok (run_orderAt s u.tickerId hrange), hticker, hp]
  simp [hderef, hid, hside]

/-- A MODIFY of an order that is held. -/
theorem run_onModify (h : s.Pooled held) (hticker : u.tickerId = tickerOf i)
    (hrange : u.orderId.toNat < matchingEngineMaxOrderIds)
    (hview : s.view i u.orderId = some v)
    (hid : v.orderId = u.orderId) (hside : v.side = u.side) :
    ∃ s', (onModify u).run s = .ok () s' ∧ s'.Pooled held
      ∧ s'.lastIncrementSequenceNumber = s.lastIncrementSequenceNumber
      ∧ ∀ j o, s'.view j o = if j = i ∧ o = u.orderId
          then some { v with quantity := u.quantity, price := u.price }
          else s.view j o := by
  obtain ⟨p, hp, hderef, hrun⟩ :=
    run_existingOrder hticker hrange hview hid hside
  obtain ⟨f, hf⟩ : ∃ f : MatchingEngineMarketUpdate →
      MatchingEngineMarketUpdate, f = fun stored =>
        { stored with quantity := u.quantity, price := u.price } := ⟨_, rfl⟩
  refine ⟨{ s with orderPool := s.orderPool.modify p f }, ?_,
    ⟨h.pool.modify p f, h.orders, h.apart⟩, rfl, fun j o => ?_⟩
  · unfold onModify
    rw [run_bind_ok hrun, hf]
    rfl
  · show (s.tickerOrders (tickerOf j) o).map (s.orderPool.modify p f).deref = _
    by_cases hself : j = i ∧ o = u.orderId
    · rw [if_pos hself, hself.1, hself.2, hp, Option.map_some,
        MemPool.modify_deref, if_pos rfl, hderef, hf]
    · rw [if_neg hself]
      unfold view
      cases hq : s.tickerOrders (tickerOf j) o with
      | none => rfl
      | some q =>
          rw [Option.map_some, Option.map_some, MemPool.modify_deref]
          split
          · next heq =>
            rw [heq] at hq
            exact (hself (h.apart _ _ _ _ _ hq hp)).elim
          · rfl

/-- A CANCEL of an order that is held. -/
theorem run_onCancel (h : s.Pooled held) (hticker : u.tickerId = tickerOf i)
    (hrange : u.orderId.toNat < matchingEngineMaxOrderIds)
    (hview : s.view i u.orderId = some v)
    (hid : v.orderId = u.orderId) (hside : v.side = u.side) :
    ∃ s' p, (onCancel u).run s = .ok () s' ∧ s'.Pooled (held.erase p)
      ∧ s'.lastIncrementSequenceNumber = s.lastIncrementSequenceNumber
      ∧ ∀ j o, s'.view j o = if j = i ∧ o = u.orderId then none
          else s.view j o := by
  obtain ⟨p, hp, hderef, hrun⟩ :=
    run_existingOrder hticker hrange hview hid hside
  have hin : p ∈ held := (h.orders p).2 ⟨i, _, hp⟩
  have hdealloc := (MemPool.deallocate_ok h.pool.ok ((h.pool.used p).2 hin)).1
  obtain ⟨m, hm⟩ : ∃ m, m = s.orderPool.put p
    { s.orderPool.store p with isFree := true } := ⟨_, rfl⟩
  change (MemPool.deallocate p).run s.orderPool = .ok () (s.orderPool.put p
    { s.orderPool.store p with isFree := true }) at hdealloc
  rw [← hm] at hdealloc
  have hmatches : Loans.Matches matchingEngineMaxOrderIds ⟨m, held.erase p⟩ :=
    h.pool.called (c := .deallocate p) ⟨hin, hdealloc, rfl⟩
  have hpool : (onOrderPool (MemPool.deallocate p)).run s
      = .ok () { s with orderPool := m } := run_zoom_ok hdealloc
  -- no other entry has the block that is given back
  have hstill : ∀ j o q, (s.withOrder u.tickerId u.orderId none
      m).tickerOrders (tickerOf j) o = some q ↔
      q ≠ p ∧ s.tickerOrders (tickerOf j) o = some q := by
    intro j o q
    show (if tickerOf j = u.tickerId ∧ o = u.orderId then none
      else s.tickerOrders (tickerOf j) o) = some q ↔ _
    split
    · next hself =>
      rw [hself.1, hself.2, hticker, hp]
      exact iff_of_false (Option.some_ne_none q).symm fun hboth =>
        hboth.1 (Option.some.inj hboth.2).symm
    · next hself =>
      refine ⟨fun hq => ⟨fun heq => hself ?_, hq⟩, And.right⟩
      rw [heq] at hq
      obtain ⟨hj, ho⟩ := h.apart _ _ _ _ _ hq hp
      exact ⟨by rw [hj, hticker], ho⟩
  refine ⟨s.withOrder u.tickerId u.orderId none m, p, ?_,
    ⟨hmatches, fun q => ?_, fun j o j' o' q hq hq' => h.apart _ _ _ _ _
      ((hstill _ _ _).1 hq).2 ((hstill _ _ _).1 hq').2⟩, rfl, fun j o => ?_⟩
  · unfold onCancel
    rw [run_bind_ok hrun, run_bind_ok hpool]
    rfl
  · rw [h.pool.nodup.mem_erase_iff, h.orders]
    constructor
    · intro h
      obtain ⟨hne, j, o, hj⟩ := h
      exact ⟨j, o, (hstill j o q).2 ⟨hne, hj⟩⟩
    · intro h
      obtain ⟨j, o, hq⟩ := h
      obtain ⟨hne, hj⟩ := (hstill j o q).1 hq
      exact ⟨hne, j, o, hj⟩
  · show (if tickerOf j = u.tickerId ∧ o = u.orderId then none
      else s.tickerOrders (tickerOf j) o).map m.deref = _
    by_cases hself : j = i ∧ o = u.orderId
    · rw [if_pos hself, if_pos ⟨by rw [hself.1, hticker], hself.2⟩]
      rfl
    · rw [if_neg hself, if_neg fun hboth => hself
        ⟨tickerOf_injective (hboth.1.trans hticker), hboth.2⟩]
      unfold view
      cases hq : s.tickerOrders (tickerOf j) o with
      | none => rfl
      | some q =>
          rw [Option.map_some, Option.map_some, hm, MemPool.put_deref]
          split
          · next heq =>
            rw [heq]
            rfl
          · rfl

end SnapshotSynthesizer

end ElectronicTrading
