/-
A snapshot makes the book that the updates before it have made.

# What the synthesizer holds

The lists of all tickers' orders move together (`Changed`): an update
changes the lists of its ticker. `Stores` says that the update held for an
id is the ADD of that order as it is now; each change of the lists is one
of `view`, and meets the assertions (`run_addToSnapshot`). What bounds a
run is the pool, which never has more blocks in use than there were ADDs.

# What it sends

A ticker's part of the snapshot is a CLEAR, which a new book does not
notice, and its orders in the order of their ids, which make its lists
again (`Listed.rebuild`).

# The exchange

The updates of the eight books, in the order in which they were queued,
change the lists one at a time (`changed_of_run`), so that the snapshot may
be taken after any of them, also inside a sweep.
-/
import ElectronicTrading.Exchange.Proofs.Publishing
import ElectronicTrading.Exchange.Proofs.Synthesizer
import ElectronicTrading.Exchange.Proofs.Untrusted
import ElectronicTrading.Trading.Proofs.Clear
import ElectronicTrading.Trading.Proofs.Listed

namespace ElectronicTrading

open Exec Runs PriceTime
open MatchingEngineOrderBook (adds)

namespace MarketOrderBook

variable {book book' : Bool → List (Resting OrderID)} {tickerId : TickerID}
  {held held' : OrderID → Option MatchingEngineMarketUpdate}
  {orderId : OrderID}

-- ================================================================ held by id

/-- What is held under one id changes with the lists. -/
theorem HeldAs.change (h : HeldAs tickerId book held)
    (hother : ∀ o, o ≠ orderId → held' o = held o)
    (hmem : ∀ c y, y.key ≠ orderId → (y ∈ book' c ↔ y ∈ book c))
    (hself : ∀ v, held' orderId = some v ↔
      ∃ b, ∃ x ∈ book' b, x.key = orderId ∧ v = addOf tickerId x) :
    HeldAs tickerId book' held' := by
  intro o v
  by_cases ho : o = orderId
  · rw [ho]
    exact hself v
  · rw [hother o ho, h o v]
    constructor
    · intro h
      obtain ⟨b, x, hx, hkey, hv⟩ := h
      exact ⟨b, x, (hmem b x (hkey ▸ ho)).2 hx, hkey, hv⟩
    · intro h
      obtain ⟨b, x, hx, hkey, hv⟩ := h
      exact ⟨b, x, (hmem b x (hkey ▸ ho)).1 hx, hkey, hv⟩

/-- The id has this order now. -/
theorem HeldAs.put (h : HeldAs tickerId book held) (hlisted : Listed book')
    {b : Bool} {x : Resting OrderID} (hx : x ∈ book' b)
    (hother : ∀ o, o ≠ x.key → held' o = held o)
    (hmem : ∀ c y, y.key ≠ x.key → (y ∈ book' c ↔ y ∈ book c))
    (hself : held' x.key = some (addOf tickerId x)) :
    HeldAs tickerId book' held' := by
  refine h.change hother hmem fun v => ?_
  rw [hself]
  constructor
  · intro hv
    exact ⟨b, x, hx, rfl, (Option.some.inj hv).symm⟩
  · intro h
    obtain ⟨c, y, hy, hkey, rfl⟩ := h
    rw [(hlisted.unique hy hx hkey).2]

/-- The id has no order now. -/
theorem HeldAs.erase (h : HeldAs tickerId book held)
    (hnone : ∀ c, ∀ y ∈ book' c, y.key ≠ orderId)
    (hother : ∀ o, o ≠ orderId → held' o = held o)
    (hmem : ∀ c y, y.key ≠ orderId → (y ∈ book' c ↔ y ∈ book c))
    (hself : held' orderId = none) : HeldAs tickerId book' held' := by
  refine h.change hother hmem fun v => ?_
  rw [hself]
  refine iff_of_false (Option.some_ne_none v).symm ?_
  intro h
  obtain ⟨c, y, hy, hkey, -⟩ := h
  exact hnone c y hy hkey

/-- An order in its list replaced by one of the same id. -/
theorem mem_setSide_replaced {b : Bool} {x x' : Resting OrderID}
    {l m : List (Resting OrderID)} (hbook : book b = l ++ x :: m)
    (hkey : x'.key = x.key) (c : Bool) (y : Resting OrderID)
    (hy : y.key ≠ x.key) :
    y ∈ setSide book b (l ++ x' :: m) c ↔ y ∈ book c := by
  have hne : y ≠ x := fun heq => hy (congrArg (·.key) heq)
  have hne' : y ≠ x' := fun heq => hy ((congrArg (·.key) heq).trans hkey)
  unfold setSide
  split
  · next hc =>
    rw [hc, hbook]
    simp [hne, hne']
  · exact Iff.rfl

/-- An order taken out of its list. -/
theorem mem_setSide_removed {b : Bool} {x : Resting OrderID}
    {l m : List (Resting OrderID)} (hbook : book b = l ++ x :: m) (c : Bool)
    (y : Resting OrderID) (hy : y.key ≠ x.key) :
    y ∈ setSide book b (l ++ m) c ↔ y ∈ book c := by
  have hne : y ≠ x := fun heq => hy (congrArg (·.key) heq)
  unfold setSide
  split
  · next hc =>
    rw [hc, hbook]
    simp [hne]
  · exact Iff.rfl

/-- An order placed in its list. -/
theorem mem_setSide_placed {b : Bool} {x : Resting OrderID} (c : Bool)
    (y : Resting OrderID) (hy : y.key ≠ x.key) :
    y ∈ setSide book b (place b x (book b)) c ↔ y ∈ book c := by
  have hne : y ≠ x := fun heq => hy (congrArg (·.key) heq)
  unfold setSide
  split
  · next hc =>
    rw [hc, mem_place]
    exact or_iff_right hne
  · exact Iff.rfl

/-- An order taken out is nowhere. -/
theorem Listed.removed (h : Listed book) {b : Bool} {x : Resting OrderID}
    {l m : List (Resting OrderID)} (hbook : book b = l ++ x :: m) :
    ∀ c, ∀ y ∈ setSide book b (l ++ m) c, y.key ≠ x.key := by
  have hx : x ∈ book b := by
    rw [hbook]
    exact List.mem_append_right l List.mem_cons_self
  intro c y hy hkey
  unfold setSide at hy
  split at hy
  · have hkeys := h.keys b
    rw [hbook, List.map_append, List.map_cons] at hkeys
    have hnot := (List.nodup_cons.1 (List.nodup_middle.1 hkeys)).1
    rw [← List.map_append] at hnot
    exact hnot (hkey ▸ List.mem_map_of_mem hy)
  · next hc => exact hc (h.unique hy hx hkey).1

end MarketOrderBook

namespace SnapshotSynthesizer

open MarketOrderBook (Change Changes Listed HeldAs addOf added setSide Leads
  Holds mem_setSide_placed mem_setSide_replaced mem_setSide_removed)

-- ============================================================= all tickers

/-- The lists of the tickers' orders. -/
abbrev Books : Type :=
  Fin matchingEngineMaxTickers → Bool → List (Resting OrderID)

/-- The synthesizer holds the orders of all tickers. -/
def Stores (s : SnapshotSynthesizer) (books : Books) : Prop :=
  ∀ i, HeldAs (tickerOf i) (books i) (s.view i)

/-- An update changes the lists of its ticker. -/
def Changed (books : Books) (u : MatchingEngineMarketUpdate)
    (books' : Books) : Prop :=
  ∃ i book', u.tickerId = tickerOf i ∧ Change u (books i) book'
    ∧ books' = Function.update books i book'

/-- The updates of a ticker. -/
def about (i : Fin matchingEngineMaxTickers)
    (us : List MatchingEngineMarketUpdate) : List MatchingEngineMarketUpdate :=
  us.filter (·.tickerId = tickerOf i)

variable {s s' : SnapshotSynthesizer} {held : List Ptr} {books books' : Books}
  {u : MatchingEngineMarketUpdate} {us : List MatchingEngineMarketUpdate}
  {i : Fin matchingEngineMaxTickers}

theorem stores_new : new.Stores fun _ _ => [] := by
  intro i o v
  refine iff_of_false (Option.some_ne_none v).symm ?_
  intro h
  obtain ⟨b, x, hx, -⟩ := h
  cases hx

theorem listed_of_run (h : Run Changed (fun _ _ => []) us books) :
    ∀ i, Listed (books i) := by
  refine h.induct (I := fun _ books => ∀ i, Listed (books i))
    (fun _ => MarketOrderBook.listed_empty) ?_
  intro us books u books' _ hlisted hchanged j
  obtain ⟨i, book', -, hchange, hbooks⟩ := hchanged
  rw [hbooks, Function.update_apply]
  split
  · exact (hlisted i).change hchange
  · exact hlisted j

/-- The updates of one ticker change its lists. -/
theorem changes_about {first : Books} (h : Run Changed first us books)
    (i : Fin matchingEngineMaxTickers) :
    Changes (about i us) (first i) (books i) := by
  refine h.induct (I := fun us books =>
    Changes (about i us) (first i) (books i)) .nil ?_
  intro us books u books' _ hchanges hchanged
  obtain ⟨j, book', hticker, hchange, hbooks⟩ := hchanged
  unfold about at hchanges ⊢
  rw [List.filter_append, hbooks, Function.update_apply]
  split
  · next hij =>
    rw [hij] at hchanges ⊢
    rw [List.filter_cons_of_pos (by simp [hticker])]
    exact hchanges.append hchange.changes
  · next hij =>
    rw [List.filter_cons_of_neg, List.filter_nil, List.append_nil]
    · exact hchanges
    · rw [hticker]
      exact fun heq => hij (tickerOf_injective (of_decide_eq_true heq)).symm

-- ============================================================== addToSnapshot

/-- The views of the other tickers stay. -/
theorem Stores.update (h : s.Stores books) {book' : Bool → List (Resting OrderID)}
    {orderId : OrderID} {order : Option MatchingEngineMarketUpdate}
    (hview : ∀ j o, s'.view j o
      = if j = i ∧ o = orderId then order else s.view j o)
    (hheld : HeldAs (tickerOf i) book' (s'.view i)) :
    s'.Stores (Function.update books i book') := by
  intro j
  rw [Function.update_apply]
  split
  · next hj =>
    rw [hj]
    exact hheld
  · next hj =>
    have hsame : s'.view j = s.view j := by
      funext o
      rw [hview, if_neg fun hboth => hj hboth.1]
    rw [hsame]
    exact h j

/-- The `switch` follows a change. -/
theorem run_dispatch (h : s.Pooled held) (hstores : s.Stores books)
    (hlisted : ∀ i, Listed (books i)) (hchanged : Changed books u books')
    (hroom : held.length + adds [u] < matchingEngineMaxOrderIds) :
    ∃ s' held', (dispatch u).run s = .ok () s' ∧ s'.Pooled held'
      ∧ held'.length ≤ held.length + adds [u] ∧ s'.Stores books'
      ∧ s'.lastIncrementSequenceNumber = s.lastIncrementSequenceNumber := by
  obtain ⟨i, book', hticker, hchange, rfl⟩ := hchanged
  have hlisted' := (hlisted i).change hchange
  have hother : ∀ {s' : SnapshotSynthesizer}
      {order : Option MatchingEngineMarketUpdate},
      (∀ j o, s'.view j o
        = if j = i ∧ o = u.orderId then order else s.view j o) →
      ∀ o, o ≠ u.orderId → s'.view i o = s.view i o := by
    intro s' order hview o ho
    rw [hview, if_neg fun hboth => ho hboth.2]
  cases hchange with
  | add b htype hside hrange hlater hfree hfull =>
      have hone : adds [u] = 1 := by
        unfold adds
        rw [List.countP_singleton, htype]
        rfl
      -- an id later than all that rest is not in the map
      have hnone : s.view i u.orderId = none := by
        apply Option.eq_none_iff_forall_ne_some.2
        intro v hv
        obtain ⟨c, x, hx, hkey, -⟩ := (hstores i _ _).1 hv
        exact UInt64.ne_of_lt (hlater c x hx) hkey
      obtain ⟨s', p, hrun, hpooled, hlast, hview⟩ :=
        run_onAdd h hticker hrange hnone (by omega)
      refine ⟨s', _, ?_, hpooled, by rw [hone]; rfl, ?_, hlast⟩
      · unfold dispatch
        rw [htype]
        exact hrun
      · have hadded : addOf (tickerOf i) (added u) = u := by
          rw [← hticker, addOf, added, ← htype]
        refine hstores.update hview ((hstores i).put hlisted' (b := b)
          (x := added u) ?_ (hother hview) mem_setSide_placed ?_)
        · unfold setSide
          rw [if_pos rfl]
          exact mem_place.2 (Or.inl rfl)
        · rw [hadded, hview, if_pos ⟨rfl, rfl⟩]
  | modify b x l m htype hkey hside hprice hbook =>
      have hx : x ∈ books i b := by
        rw [hbook]
        exact List.mem_append_right l List.mem_cons_self
      have hheld := (hstores i _ _).2 ⟨b, x, hx, hkey, rfl⟩
      obtain ⟨s', hrun, hpooled, hlast, hview⟩ :=
        run_onModify h hticker (hkey ▸ (hlisted i).range b x hx) hheld hkey
          hside.symm
      refine ⟨s', held, ?_, hpooled, Nat.le_add_right _ _, ?_, hlast⟩
      · unfold dispatch
        rw [htype]
        exact hrun
      · have hmodified := hother hview
        rw [← hkey] at hview hmodified
        have hreplaced : ∀ c y, y.key ≠ x.key →
            (y ∈ setSide (books i) b
              (l ++ { x with quantity := u.quantity } :: m) c
                ↔ y ∈ books i c) := mem_setSide_replaced hbook rfl
        refine hstores.update hview ((hstores i).put hlisted' (b := b)
          (x := { x with quantity := u.quantity }) ?_ hmodified hreplaced ?_)
        · unfold setSide
          rw [if_pos rfl]
          exact List.mem_append_right l List.mem_cons_self
        · rw [hview, if_pos ⟨rfl, rfl⟩, hprice]
          rfl
  | cancel b x l m htype hkey hside hbook =>
      have hx : x ∈ books i b := by
        rw [hbook]
        exact List.mem_append_right l List.mem_cons_self
      have hheld := (hstores i _ _).2 ⟨b, x, hx, hkey, rfl⟩
      obtain ⟨s', p, hrun, hpooled, hlast, hview⟩ :=
        run_onCancel h hticker (hkey ▸ (hlisted i).range b x hx) hheld hkey
          hside.symm
      refine ⟨s', _, ?_, hpooled, ?_, ?_, hlast⟩
      · unfold dispatch
        rw [htype]
        exact hrun
      · have hle := List.length_erase_le (a := p) (l := held)
        omega
      · have herased := hother hview
        rw [← hkey] at hview herased
        exact hstores.update hview ((hstores i).erase
          ((hlisted i).removed hbook) herased (mem_setSide_removed hbook)
          (by rw [hview, if_pos ⟨rfl, rfl⟩]))

/-- `addToSnapshot` of each update, as `run` takes them from the queue. -/
def addAllToSnapshot (marketUpdates : List MDPMarketUpdate) : Member Unit :=
  forM marketUpdates addToSnapshot

/-- The synthesizer after the updates `us`, which made the lists. -/
structure Follows (s : SnapshotSynthesizer) (books : Books)
    (us : List MatchingEngineMarketUpdate) : Prop where
  pooled : ∃ held, s.Pooled held ∧ held.length ≤ adds us
  stores : s.Stores books
  last : s.lastIncrementSequenceNumber = us.length

theorem adds_append (us us' : List MatchingEngineMarketUpdate) :
    adds (us ++ us') = adds us + adds us' := List.countP_append

/-- The next update meets all assertions. -/
theorem Follows.run_addToSnapshot (h : s.Follows books us)
    (hlisted : ∀ i, Listed (books i)) (hchanged : Changed books u books')
    (hroom : adds (us ++ [u]) < matchingEngineMaxOrderIds) :
    ∃ s', (addToSnapshot ⟨us.length + 1, u⟩).run s = .ok () s'
      ∧ s'.Follows books' (us ++ [u]) := by
  obtain ⟨held, hpooled, hheld⟩ := h.pooled
  rw [adds_append] at hroom
  obtain ⟨s', held', hrun, hpooled', hheld', hstores, hlast⟩ :=
    run_dispatch hpooled h.stores hlisted hchanged (by omega)
  obtain ⟨i, book', hticker, -, -⟩ := hchanged
  have hin : u.tickerId.toNat < matchingEngineMaxTickers := by
    rw [hticker, toNat_tickerOf]
    exact i.isLt
  rw [h.last] at hlast
  refine ⟨{ s' with lastIncrementSequenceNumber := us.length + 1 }, ?_,
    ⟨held', ⟨hpooled'.pool, hpooled'.orders, hpooled'.apart⟩, ?_⟩, hstores,
    ?_⟩
  · unfold addToSnapshot
    dsimp only
    rw [decide_eq_true hin]
    simp only [EStateM.run_bind, run_assert, if_true]
    rw [hrun]
    simp [hlast]
  · rw [adds_append]
    omega
  · rw [List.length_append]
    rfl

/-- The synthesizer follows every run of the changes, as long as there are
fewer ADDs than order ids. -/
theorem follows_of_run (h : Run Changed (fun _ _ => []) us books) :
    adds us < matchingEngineMaxOrderIds →
    ∃ s, (addAllToSnapshot (MarketDataPublisher.numbered us)).run new
        = .ok () s ∧ s.Follows books us := by
  refine h.induct (I := fun us books => adds us < matchingEngineMaxOrderIds →
    ∃ s, (addAllToSnapshot (MarketDataPublisher.numbered us)).run new
        = .ok () s ∧ s.Follows books us) ?_ ?_
  · exact fun _ => ⟨new, rfl, ⟨⟨[], pooled_new, Nat.zero_le _⟩, stores_new,
      rfl⟩⟩
  · intro us books u books' hrun ih hchanged hroom
    have hfewer : adds us < matchingEngineMaxOrderIds := by
      rw [adds_append] at hroom
      omega
    obtain ⟨s, hs, hfollows⟩ := ih hfewer
    obtain ⟨s', hone, hfollows'⟩ :=
      hfollows.run_addToSnapshot (listed_of_run hrun) hchanged hroom
    refine ⟨s', ?_, hfollows'⟩
    unfold addAllToSnapshot at hs ⊢
    rw [MarketDataPublisher.numbered_snoc, List.forM_append, run_bind_ok hs,
      List.forM_cons, run_bind_ok hone]
    rfl

-- ============================================================ publishSnapshot

theorem numbers_numbered (us : List MatchingEngineMarketUpdate) :
    (numbered 0 us).map (·.sequenceNumber) = List.range us.length := by
  unfold numbered
  apply List.ext_getElem
  · simp
  · intro k hk hk'
    simp

theorem updates_numbered (us : List MatchingEngineMarketUpdate) :
    (numbered 0 us).map (·.meMarketUpdate) = us := by
  unfold numbered
  apply List.ext_getElem
  · simp
  · intro k hk hk'
    simp

theorem nodup_tickerIds : tickerIds.Nodup := by decide

theorem tickerOf_mem (i : Fin matchingEngineMaxTickers) :
    tickerOf i ∈ tickerIds :=
  List.mem_map_of_mem (List.mem_range.2 i.isLt)

/-- Of parts that are each about one ticker, those about a given one. -/
theorem filter_flatMap {f : TickerID → List MatchingEngineMarketUpdate}
    {tickerId : TickerID} {l : List TickerID} (hnodup : l.Nodup)
    (hin : tickerId ∈ l) (hf : ∀ t ∈ l, ∀ u ∈ f t, u.tickerId = t) :
    (l.flatMap f).filter (·.tickerId = tickerId) = f tickerId := by
  have hnone : ∀ l' : List TickerID, (∀ t ∈ l', t ∈ l) → tickerId ∉ l' →
      (l'.flatMap f).filter (·.tickerId = tickerId) = [] := by
    intro l' hsub hnot
    refine List.filter_eq_nil_iff.2 fun u hu heq => ?_
    obtain ⟨t, ht, hut⟩ := List.mem_flatMap.1 hu
    have hticker := of_decide_eq_true heq
    rw [hf t (hsub t ht) u hut] at hticker
    exact hnot (hticker ▸ ht)
  obtain ⟨l₁, l₂, rfl⟩ := List.append_of_mem hin
  obtain ⟨-, hrest, hapart⟩ := List.nodup_append'.1 hnodup
  have hnot₁ : tickerId ∉ l₁ := fun hin₁ =>
    hapart hin₁ List.mem_cons_self
  have hself : (f tickerId).filter (·.tickerId = tickerId) = f tickerId :=
    List.filter_eq_self.2 fun u hu => decide_eq_true (hf tickerId hin u hu)
  rw [List.flatMap_append, List.flatMap_cons, List.filter_append,
    List.filter_append, hself,
    hnone l₁ (fun t ht => List.mem_append_left _ ht) hnot₁,
    hnone l₂ (fun t ht => List.mem_append_right _ (List.mem_cons_of_mem _ ht))
      (List.nodup_cons.1 hrest).1, List.nil_append, List.append_nil]

/-- A ticker's part of the snapshot. -/
theorem Stores.about_payload (h : s.Stores books)
    (i : Fin matchingEngineMaxTickers) :
    about i s.payload
      = MarketOrderBook.clearUpdate (tickerOf i) :: s.ordersOf (tickerOf i) := by
  refine filter_flatMap nodup_tickerIds (tickerOf_mem i) ?_
  intro t ht u hu
  obtain ⟨k, hk, rfl⟩ := List.mem_map.1 ht
  rcases List.mem_cons.1 hu with rfl | hu
  · rfl
  · obtain ⟨o, -, ho⟩ := List.mem_filterMap.1 hu
    obtain ⟨b, x, -, -, rfl⟩ := (h ⟨k, List.mem_range.1 hk⟩ o u).1 ho
    rfl

/-- A ticker's orders, sent in the order of their ids, make its lists. -/
theorem Stores.changes_ordersOf (h : s.Stores books)
    (hlisted : ∀ i, Listed (books i)) (i : Fin matchingEngineMaxTickers) :
    Changes (s.ordersOf (tickerOf i)) (fun _ => []) (books i) := by
  have hchanges := (hlisted i).rebuild (h i) matchingEngineMaxOrderIds
    (by decide)
  rw [(hlisted i).below_max] at hchanges
  unfold ordersOf orderIds
  exact hchanges

/-- Two replays to the same lists make the same levels. -/
theorem levelViews_of_changes {us us' : List MatchingEngineMarketUpdate}
    {book : Bool → List (Resting OrderID)}
    (h : Changes us (fun _ => []) book) (h' : Changes us' (fun _ => []) book) :
    ∃ m m', (MarketOrderBook.onMarketUpdates us).run MarketOrderBook.new
        = .ok () m
      ∧ (MarketOrderBook.onMarketUpdates us').run MarketOrderBook.new
        = .ok () m'
      ∧ ∀ b, m.ladder.levelViews b = m'.ladder.levelViews b := by
  have hnew : Holds MarketOrderBook.new .empty fun _ => [] :=
    ⟨MarketOrderBook.mirror_new, fun c => by rw [MarketOrderBook.book_new]⟩
  obtain ⟨m, lay, hrun, hm⟩ := h.leads _ _ hnew
  obtain ⟨m', lay', hrun', hm'⟩ := h'.leads _ _ hnew
  refine ⟨m, m', hrun, hrun', fun b => ?_⟩
  have hbook : m.ladder.restingOrders b = m'.ladder.restingOrders b :=
    (hm.book b).trans (hm'.book b).symm
  rw [hm.mirror.booked.levelViews_eq, hm'.mirror.booked.levelViews_eq, hbook]

/-- A new book does not notice the CLEAR. -/
theorem run_clear_new {us : List MatchingEngineMarketUpdate}
    {m : MarketOrderBook} (tickerId : TickerID)
    (h : (MarketOrderBook.onMarketUpdates us).run MarketOrderBook.new
      = .ok () m) :
    ∃ m', (MarketOrderBook.onMarketUpdates
        (MarketOrderBook.clearUpdate tickerId :: us)).run MarketOrderBook.new
        = .ok () m'
      ∧ ∀ b, m'.ladder.levelViews b = m.ladder.levelViews b := by
  have hblank : MarketOrderBook.Blank MarketOrderBook.new :=
    ⟨fun _ => rfl, fun b => by cases b <;> rfl, rfl⟩
  have hagree := MarketOrderBook.agree_of_blank MarketOrderBook.tidy_new hblank
    tickerId us
  rw [h] at hagree
  cases hrun : (MarketOrderBook.onMarketUpdates
      (MarketOrderBook.clearUpdate tickerId :: us)).run MarketOrderBook.new with
  | ok x m' =>
      rw [hrun] at hagree
      exact ⟨m', rfl, hagree.levels⟩
  | error e m' =>
      rw [hrun] at hagree
      exact hagree.elim

/-- The snapshot of a synthesizer that follows the updates makes the books
that the updates make. -/
theorem Follows.replay (h : s.Follows books us)
    (hrun : Run Changed (fun _ _ => []) us books)
    (i : Fin matchingEngineMaxTickers) :
    ∃ m m', (MarketOrderBook.onMarketUpdates (about i s.payload)).run
        MarketOrderBook.new = .ok () m
      ∧ (MarketOrderBook.onMarketUpdates (about i us)).run
        MarketOrderBook.new = .ok () m'
      ∧ ∀ b, m.ladder.levelViews b = m'.ladder.levelViews b := by
  obtain ⟨m, m', horders, hupdates, hsame⟩ := levelViews_of_changes
    (h.stores.changes_ordersOf (listed_of_run hrun) i) (changes_about hrun i)
  obtain ⟨m₁, hclear, hlevels⟩ := run_clear_new (tickerOf i) horders
  refine ⟨m₁, m', ?_, hupdates, fun b => (hlevels b).trans (hsame b)⟩
  rw [h.stores.about_payload i]
  exact hclear

end SnapshotSynthesizer

namespace MatchingEngine

open Reference (OnePerSlot submitted)
open MatchingEngineOrderBook (changes_of_cleanStep)
open MarketOrderBook (Changes)
open SnapshotSynthesizer (Books Changed about tickerOf toNat_tickerOf
  tickerOf_injective adds_append addAllToSnapshot)

-- ================================================================ the exchange

/-- A step after which no two resting prices of a ticker share a slot. -/
structure CleanStep (s : MatchingEngine) (r : MatchingEngineClientRequest)
    (s' : MatchingEngine) : Prop where
  valid : Valid r
  processed : Processed s r s'
  slots : ∀ i, OnePerSlot (s'.tickerOrderBook i).book

/-- A clean run and what holds at its end, computed. -/
theorem exists_cleanRun (rs : List MatchingEngineClientRequest)
    (I : MatchingEngine → Prop) [DecidablePred I]
    (h : (rs.foldlM (Runs.guarded
      (fun s r => Exec.returned ((processClientRequest r).run s))
      fun _ r s' => Valid r ∧ ∀ i, OnePerSlot (s'.tickerOrderBook i).book)
        new).any (fun s => decide (I s)) = true) :
    ∃ s, Runs.Run CleanStep new rs s ∧ I s := by
  obtain ⟨s, hrun, hend⟩ := Runs.Run.exists_of_guarded (fun s r s' hstep =>
    (Exec.returned_eq_some hstep : Processed s r s')) new rs I h
  refine ⟨s, hrun.mono (I := fun _ => True) ?_ fun _ _ _ => trivial, hend⟩
  exact fun _ _ _ _ hstep => ⟨hstep.2.1, hstep.1, hstep.2.2⟩

/-- The lists of all books, as the market books hold them. -/
def listsOf (s : MatchingEngine) : Books :=
  fun i => MarketOrderBook.listsOf (s.tickerOrderBook i).book

variable {s s' : MatchingEngine} {r : MatchingEngineClientRequest}
  {rs : List MatchingEngineClientRequest}

/-- A request is its ticker's book's. -/
theorem Processed.book (h : Processed s r s') : ∃ i, r.tickerId = tickerOf i
    ∧ MatchingEngineOrderBook.Processed (s.tickerOrderBook i) r
      (s'.tickerOrderBook i)
    ∧ s' = setBook i (s'.tickerOrderBook i) s := by
  unfold Processed processClientRequest at h
  split at h
  · next hticker =>
    obtain ⟨i, hi⟩ : ∃ i : Fin matchingEngineMaxTickers,
      i = ⟨r.tickerId.toNat, hticker⟩ := ⟨_, rfl⟩
    rw [← hi] at h
    have htick : r.tickerId = tickerOf i := by
      apply UInt32.toNat_inj.1
      rw [toNat_tickerOf, hi]
    unfold onBook at h
    rw [run_zoom] at h
    cases hrun : (MatchingEngineOrderBook.processClientRequest r).run
        (s.tickerOrderBook i) with
    | ok x b =>
        rw [hrun] at h
        have hs' := (EStateM.Result.ok.inj h).2
        have hb : s'.tickerOrderBook i = b := by
          rw [← hs']
          exact if_pos rfl
        refine ⟨i, htick, ?_, ?_⟩
        · rw [hb]
          exact hrun
        · rw [hb]
          exact hs'.symm
    | error e b =>
        rw [hrun] at h
        cases h
  · cases h

theorem setBook_other {i j : Fin matchingEngineMaxTickers} (hj : j ≠ i)
    (book : MatchingEngineOrderBook) (s : MatchingEngine) :
    (setBook i book s).tickerOrderBook j = s.tickerOrderBook j := if_neg hj

/-- What the book has handed over since is logged. -/
theorem sent_of_book {i : Fin matchingEngineMaxTickers} {out : List Sent}
    (hset : s' = setBook i (s'.tickerOrderBook i) s)
    (hout : (s'.tickerOrderBook i).sent = (s.tickerOrderBook i).sent ++ out) :
    s'.sent = s.sent ++ out := by
  rw [hset]
  show s.sent ++ (s'.tickerOrderBook i).sent.drop _ = _
  rw [hout, List.drop_left]

/-- Each book's part of a clean run. -/
theorem cleanRun_book (h : Run CleanStep new rs s)
    (i : Fin matchingEngineMaxTickers) :
    Run MatchingEngineOrderBook.CleanStep .new
      (rs.filter (·.tickerId = tickerOf i)) (s.tickerOrderBook i) := by
  refine h.induct (I := fun rs s =>
    Run MatchingEngineOrderBook.CleanStep .new
      (rs.filter (·.tickerId = tickerOf i)) (s.tickerOrderBook i)) .nil ?_
  intro rs s r s' _ ih hstep
  obtain ⟨j, hticker, hbook, hset⟩ := hstep.processed.book
  rw [List.filter_append]
  by_cases hij : i = j
  · rw [List.filter_cons_of_pos (by simp [hticker, hij])]
    rw [← hij] at hbook
    exact ih.snoc ⟨hstep.valid, hbook, hstep.slots i⟩
  · rw [List.filter_cons_of_neg, List.filter_nil, List.append_nil, hset,
      setBook_other hij]
    · exact ih
    · rw [hticker]
      exact fun heq => hij (tickerOf_injective (of_decide_eq_true heq)).symm

theorem submitted_filter_le (p : MatchingEngineClientRequest → Bool)
    (rs : List MatchingEngineClientRequest) :
    (submitted (rs.filter p)).length ≤ (submitted rs).length := by
  unfold submitted
  exact ((List.filter_sublist.filter _).map _).length_le

/-- One ticker's changes are changes of all lists. -/
theorem changed_of_changes {books : Books} {i : Fin matchingEngineMaxTickers}
    {us : List MatchingEngineMarketUpdate}
    {book' : Bool → List (Resting OrderID)} (h : Changes us (books i) book') :
    (∀ u ∈ us, u.tickerId = tickerOf i) →
    Run Changed books us (Function.update books i book') := by
  refine h.induct (I := fun us book' => (∀ u ∈ us, u.tickerId = tickerOf i) →
    Run Changed books us (Function.update books i book')) ?_ ?_
  · rw [Function.update_eq_self]
    exact fun _ => .nil
  · intro us book u book' _ ih hchange htickers
    refine (ih fun v hv => htickers v (List.mem_append_left _ hv)).snoc
      ⟨i, book', ?_, ?_, ?_⟩
    · exact htickers u (List.mem_append_right _ (List.mem_singleton_self u))
    · rw [Function.update_self]
      exact hchange
    · rw [Function.update_idem]

/-- The updates of a clean run change the lists one at a time. Every ADD is
of a NEW request. -/
theorem changed_of_run (h : Run CleanStep new rs s) :
    (submitted rs).length < matchingEngineMaxOrderIds →
    Run Changed (fun _ _ => []) (updatesOf s.sent) s.listsOf
      ∧ adds (updatesOf s.sent) ≤ (submitted rs).length := by
  refine h.induct (I := fun rs s =>
    (submitted rs).length < matchingEngineMaxOrderIds →
    Run Changed (fun _ _ => []) (updatesOf s.sent) s.listsOf
      ∧ adds (updatesOf s.sent) ≤ (submitted rs).length) ?_ ?_
  · have hempty : new.listsOf = fun _ _ => [] := by
      funext i
      show MarketOrderBook.listsOf MatchingEngineOrderBook.new.book = _
      rw [MatchingEngineOrderBook.book_new]
      rfl
    rw [hempty]
    exact fun _ => ⟨.nil, Nat.le_refl 0⟩
  · intro rs s r s' hrun ih hstep hcount
    have hsum : (submitted (rs ++ [r])).length
        = (submitted rs).length + (submitted [r]).length := by
      unfold submitted
      rw [List.filter_append, List.map_append, List.length_append]
    obtain ⟨hchanged, hadds⟩ := ih (by omega)
    obtain ⟨i, hticker, hbook, hset⟩ := hstep.processed.book
    have hfewer : (submitted (rs.filter (·.tickerId = tickerOf i)
        ++ [r])).length < matchingEngineMaxOrderIds := by
      have hle := submitted_filter_le (·.tickerId = tickerOf i) (rs ++ [r])
      rw [List.filter_append, List.filter_cons_of_pos (by simp [hticker])]
        at hle
      exact Nat.lt_of_le_of_lt hle hcount
    obtain ⟨out, hout, hchanges, htickers, hadds'⟩ :=
      changes_of_cleanStep (cleanRun_book hrun i)
        ⟨hstep.valid, hbook, hstep.slots i⟩ hfewer
    have hsent := sent_of_book hset hout
    have hlists : s'.listsOf = Function.update s.listsOf i
        (MarketOrderBook.listsOf (s'.tickerOrderBook i).book) := by
      funext j
      rw [Function.update_apply]
      split
      · next hj =>
        rw [hj]
        rfl
      · next hj =>
        unfold listsOf
        rw [hset, setBook_other hj]
    rw [hsent, updatesOf_append, hlists, adds_append, hsum]
    refine ⟨hchanged.append (changed_of_changes hchanges fun u hu =>
      (htickers u hu).trans hticker), by omega⟩

/-- After any number of the updates of a clean run of fewer than 2^20
orders, none of the synthesizer's assertions has failed, and its snapshot
makes the same levels and queues in new market books as these updates. -/
theorem snapshot_of_run (h : Run CleanStep new rs s)
    (hcount : (submitted rs).length < matchingEngineMaxOrderIds) {n : Nat}
    (hn : n ≤ (updatesOf s.sent).length) : ∃ t payload,
    (addAllToSnapshot (MarketDataPublisher.numbered
        ((updatesOf s.sent).take n))).run SnapshotSynthesizer.new = .ok () t
      ∧ t.publishSnapshot.map (·.sequenceNumber)
        = List.range t.publishSnapshot.length
      ∧ t.publishSnapshot.map (·.meMarketUpdate)
        = { type := .snapshotStart, orderId := UInt64.ofNat n }
          :: (payload ++ [{ type := .snapshotEnd, orderId := UInt64.ofNat n }])
      ∧ ∀ i, ∃ m m',
        (MarketOrderBook.onMarketUpdates (about i payload)).run
            MarketOrderBook.new = .ok () m
          ∧ (MarketOrderBook.onMarketUpdates
            (about i ((updatesOf s.sent).take n))).run
            MarketOrderBook.new = .ok () m'
          ∧ ∀ b, m.ladder.levelViews b = m'.ladder.levelViews b := by
  obtain ⟨hchanged, hadds⟩ := changed_of_run h hcount
  rw [← List.take_append_drop n (updatesOf s.sent)] at hchanged
  obtain ⟨books, hfirst, -⟩ := hchanged.split
  have hfewer : adds ((updatesOf s.sent).take n)
      < matchingEngineMaxOrderIds := by
    have hle : adds ((updatesOf s.sent).take n) ≤ adds (updatesOf s.sent) :=
      (List.take_sublist _ _).countP_le
    omega
  obtain ⟨t, hrun, hfollows⟩ :=
    SnapshotSynthesizer.follows_of_run hfirst hfewer
  have hlast : t.lastIncrementSequenceNumber = n := by
    rw [hfollows.last, List.length_take, Nat.min_eq_left hn]
  refine ⟨t, t.payload, hrun, ?_, ?_, hfollows.replay hfirst⟩
  · unfold SnapshotSynthesizer.publishSnapshot
    rw [SnapshotSynthesizer.numbers_numbered]
    unfold SnapshotSynthesizer.numbered
    rw [List.length_mapIdx]
  · unfold SnapshotSynthesizer.publishSnapshot
    rw [SnapshotSynthesizer.updates_numbered]
    unfold SnapshotSynthesizer.delimiter
    rw [hlast]

/-- A bid, an ask that takes a part of it, an ask of another ticker, and a bid
that is cancelled. -/
def fiveUpdates : List MatchingEngineClientRequest :=
  [⟨.new, 0, 0, 0, .buy, 100, 10⟩, ⟨.new, 1, 0, 5, .sell, 100, 4⟩,
    ⟨.new, 1, 1, 6, .sell, 200, 3⟩, ⟨.new, 0, 0, 1, .buy, 99, 2⟩,
    ⟨.cancel, 0, 0, 1, .buy, 99, 2⟩]

/-- The snapshot after four of its five updates. -/
theorem snapshot_fiveUpdates : ∃ s t payload m m',
    Run CleanStep new fiveUpdates s ∧ (updatesOf s.sent).length = 5
      ∧ (addAllToSnapshot (MarketDataPublisher.numbered
        ((updatesOf s.sent).take 4))).run SnapshotSynthesizer.new = .ok () t
      ∧ t.publishSnapshot.map (·.meMarketUpdate)
        = { type := .snapshotStart, orderId := 4 }
          :: (payload ++ [{ type := .snapshotEnd, orderId := 4 }])
      ∧ (MarketOrderBook.onMarketUpdates (about ⟨0, by decide⟩ payload)).run
          MarketOrderBook.new = .ok () m
      ∧ (MarketOrderBook.onMarketUpdates
          (about ⟨0, by decide⟩ ((updatesOf s.sent).take 4))).run
          MarketOrderBook.new = .ok () m'
      ∧ ∀ b, m.ladder.levelViews b = m'.ladder.levelViews b := by
  obtain ⟨s, hrun, hfive⟩ := exists_cleanRun fiveUpdates
    (fun s => (updatesOf s.sent).length = 5) (by decide +kernel)
  obtain ⟨t, payload, hadd, -, hmessages, hsame⟩ :=
    snapshot_of_run hrun (by decide) (n := 4) (by rw [hfive]; decide)
  obtain ⟨m, m', hm, hm', hviews⟩ := hsame ⟨0, by decide⟩
  exact ⟨s, t, payload, m, m', hrun, hfive, hadd, hmessages, hm, hm', hviews⟩

end MatchingEngine

end ElectronicTrading
