/-
What a client knows of the exchange, whatever the streams lose, repeat and
reorder.

`exchangeFeed` puts the synthesizer into the `Feed`: the snapshot as of
`n` is what `publishSnapshot` sends once the first `n` updates have been
taken in. The two results are about any client that is not in recovery and
has never been sent two snapshots mixed.

- `live_of_received`: what it has written tells the live orders as of the
  number it has reached. This is about all updates a synthesizer takes in.
- `books_of_received`: for the updates of the matching engine, market books
  that start with the last recovery show the levels of the exchange.

The second speaks of books that are new at a recovery: a book that has
been used does not forget everything at a CLEAR.
-/
import ElectronicTrading.Trading.Proofs.Agreement
import ElectronicTrading.Trading.Proofs.Feed

namespace ElectronicTrading

open Runs

namespace SnapshotSynthesizer

/-- The synthesizer once it has taken in the updates, if it could. -/
def after (us : List MatchingEngineMarketUpdate) : SnapshotSynthesizer :=
  match (addAllToSnapshot (MarketDataPublisher.numbered us)).run new with
  | .ok _ s => s
  | .error _ s => s

variable {us : List MatchingEngineMarketUpdate} {s : SnapshotSynthesizer}

theorem Took.after_eq (h : Took us s) : after us = s := by
  unfold after
  rw [show (addAllToSnapshot (MarketDataPublisher.numbered us)).run new
    = .ok () s from h]

theorem plain_after (us : List MatchingEngineMarketUpdate) :
    ∀ u ∈ (after us).payload, ¬ MarketDataConsumer.IsDelimiter u := by
  have hplain : Plain (after us) := by
    have hkeeps := forM_plain (MarketDataPublisher.numbered us) new new_plain
    unfold after
    change Plain (match (List.forM (MarketDataPublisher.numbered us)
      addToSnapshot).run new with
      | .ok _ s => s
      | .error _ s => s)
    cases hrun : (List.forM (MarketDataPublisher.numbered us)
        addToSnapshot).run new with
    | ok a s =>
        rw [hrun] at hkeeps
        exact hkeeps
    | error e s =>
        rw [hrun] at hkeeps
        exact hkeeps
  intro u hu
  obtain ⟨tickerId, -, hin⟩ := List.mem_flatMap.1 hu
  rcases List.mem_cons.1 hin with rfl | hin
  · intro h
    rcases h with htype | htype
    · cases htype
    · cases htype
  · obtain ⟨orderId, -, hsome⟩ := List.mem_filterMap.1 hin
    obtain ⟨p, -, rfl⟩ := Option.map_eq_some_iff.1 hsome
    exact hplain p

end SnapshotSynthesizer

namespace MarketDataConsumer

open MatchingEngineOrderBook (adds)
open SnapshotSynthesizer (Took after about plain_after tickerOf)

variable {us : List MatchingEngineMarketUpdate}

/-- The updates and the synthesizer's snapshots. -/
def exchangeFeed (us : List MatchingEngineMarketUpdate)
    (hshort : us.length < 2 ^ 64) : Feed where
  updates := us
  payload := fun n => (after (us.take n)).payload
  plain := fun n => plain_after (us.take n)
  short := hshort

/-- A delivery is a message that the publisher or the synthesizer has
sent. -/
def Published (us : List MatchingEngineMarketUpdate) : Packet → Delivery → Prop
  | .incremental k, d => d.1 = false ∧ d.2.sequenceNumber = k
      ∧ d.2 ∈ MarketDataPublisher.numbered us
  | .snapshot n k, d => d.1 = true ∧ n ≤ us.length
      ∧ (after (us.take n)).publishSnapshot[k]? = some d.2

/-- What is published is what the feed sends. -/
theorem Published.sends (hshort : us.length < 2 ^ 64)
    (htook : ∃ s, Took us s) (hclear : ∀ u ∈ us, u.type ≠ .clear) {p : Packet}
    {d : Delivery} (h : Published us p d) :
    (exchangeFeed us hshort).Sends p d := by
  cases p with
  | incremental k =>
      obtain ⟨hincremental, hk, hin⟩ := h
      obtain ⟨j, hj⟩ := List.mem_iff_getElem?.1 hin
      unfold MarketDataPublisher.numbered at hj
      rw [List.getElem?_mapIdx] at hj
      obtain ⟨u, hu, hd⟩ := Option.map_eq_some_iff.1 hj
      refine ⟨hincremental, j, u, ?_, hu, ?_⟩
      · rw [← hk, ← hd]
      · rw [← hd, ← hk, ← hd]
  | snapshot n k =>
      obtain ⟨hsnapshot, hn, hmessage⟩ := h
      obtain ⟨s, hs⟩ := htook
      obtain ⟨t, ht⟩ := hs.take (n := n)
      have hlast : (after (us.take n)).lastIncrementSequenceNumber = n := by
        rw [ht.after_eq, (ht.shows fun u hu =>
          hclear u (List.mem_of_mem_take hu)).2, List.length_take,
          Nat.min_eq_left hn]
      unfold SnapshotSynthesizer.publishSnapshot
        SnapshotSynthesizer.numbered at hmessage
      rw [List.getElem?_mapIdx] at hmessage
      obtain ⟨u, hu, hd⟩ := Option.map_eq_some_iff.1 hmessage
      refine ⟨hsnapshot, hn, u, ?_, ?_⟩
      · unfold SnapshotSynthesizer.delimiter at hu
        rw [hlast] at hu
        exact hu
      · rw [← hd, Nat.zero_add]

/-- A whole snapshot. -/
theorem published_snapshot {n : Nat} (hn : n ≤ us.length)
    {messages : List MDPMarketUpdate}
    (h : (after (us.take n)).publishSnapshot = messages) :
    List.Forall₂ (Published us)
      ((List.range messages.length).map (.snapshot n))
      (messages.map (Prod.mk true)) := by
  refine List.forall₂_iff_get.2 ⟨by simp, fun k hk hk' => ?_⟩
  simp only [List.get_eq_getElem, List.getElem_map, List.getElem_range]
  refine ⟨rfl, hn, ?_⟩
  rw [h]
  exact List.getElem?_eq_getElem _

-- ============================================================ live orders

/-- Delimiters say nothing about orders. -/
theorem playAll_events (live : LiveOrders)
    (us : List MatchingEngineMarketUpdate) :
    live.playAll (events us) = live.playAll us := by
  induction us generalizing live with
  | nil => rfl
  | cons u us ih =>
      rw [events_cons, LiveOrders.playAll_append, ih]
      unfold events
      by_cases hu : IsDelimiter u
      · rw [List.filter_cons_of_neg (by simpa using hu)]
        have hplay : live.play u = live := by
          unfold LiveOrders.play
          rcases hu with htype | htype
          · rw [htype]
          · rw [htype]
        rw [LiveOrders.playAll_cons, hplay]
        rfl
      · rw [List.filter_cons_of_pos (by simpa using hu)]
        rfl

theorem take_between {f : Feed} {n m : Nat} (h : n ≤ m) :
    f.updates.take n ++ f.between n m = f.updates.take m := by
  have hsplit := List.take_append_drop n (f.updates.take m)
  rw [List.take_take, Nat.min_eq_left h] at hsplit
  exact hsplit

/-- What has been written tells the live orders as of the number
reached. -/
theorem Feed.Writes.live {hshort : us.length < 2 ^ 64}
    (htook : ∃ s, Took us s) (hclear : ∀ u ∈ us, u.type ≠ .clear)
    {before current : List MatchingEngineMarketUpdate} {m : Nat}
    (h : (exchangeFeed us hshort).Writes before current m) :
    LiveOrders.replay (before ++ current) = .replay (us.take m) := by
  obtain ⟨s, hs⟩ := htook
  have hshows : ∀ n, (after (us.take n)).Shows (.replay (us.take n)) := by
    intro n
    obtain ⟨t, ht⟩ := hs.take (n := n)
    rw [ht.after_eq]
    exact (ht.shows fun u hu => hclear u (List.mem_of_mem_take hu)).1
  induction h with
  | start => rfl
  | @next before current m u _ hu ih =>
      have htake : us.take (m + 1) = us.take m ++ [u] := by
        rw [List.take_add_one, show us[m]? = some u from hu]
        rfl
      rw [← List.append_assoc, LiveOrders.replay_snoc, ih, htake,
        LiveOrders.replay_snoc]
  | @recover before current m n m' _ hn _ ih =>
      have hpayload : LiveOrders.playAll (.replay (before ++ current))
          (after (us.take n)).payload = .replay (us.take n) := by
        rw [ih]
        refine (hshows n).playAll_payload fun t ht => ?_
        rw [funext ((hshows m).others t ht), funext ((hshows n).others t ht)]
      rw [← List.append_assoc, LiveOrders.replay_append,
        LiveOrders.replay_append]
      have hlater : (LiveOrders.replay (us.take n)).playAll
          (events ((exchangeFeed us hshort).between n m'))
          = .replay (us.take m') := by
        rw [playAll_events, ← LiveOrders.replay_append]
        exact congrArg LiveOrders.replay
          (take_between (f := exchangeFeed us hshort) hn)
      exact (congrArg (LiveOrders.playAll · _) hpayload).trans hlater

/-- Not in recovery, a client that has been sent no two snapshots mixed has
written what tells the live orders as of the update before the one it
expects next. -/
theorem live_of_received (hshort : us.length < 2 ^ 64)
    (htook : ∃ s, Took us s) (hclear : ∀ u ∈ us, u.type ≠ .clear)
    {received : List (Bool × List MDPMarketUpdate)} {ps : List Packet}
    (hpublished : List.Forall₂ (Published us) ps (deliveries received))
    (hunmixed : Unmixed ps)
    (hidle : (received.foldl recvCallback new).inRecoveryMode = false) :
    ∃ m ≤ us.length,
      (received.foldl recvCallback new).nextExpectedSequenceNumber
        = (m + 1) % 2 ^ 64
      ∧ LiveOrders.replay (received.foldl recvCallback new).incomingMdQueue
        = .replay (us.take m) := by
  have hsends := hpublished.imp fun p d h => h.sends hshort htook hclear
  have hinv := Feed.inv_of_received hsends hunmixed
  obtain ⟨m, ⟨before, current, hwrites, hqueue⟩, hnext⟩ := hinv.written
  refine ⟨m, hwrites.le, hnext hidle, ?_⟩
  rw [hqueue]
  exact hwrites.live htook hclear

-- ======================================================= the market books

open MarketOrderBook (Change Changes)
open SnapshotSynthesizer (Books Changed changes_about)

/-- The updates of a run of changes are ADD, MODIFY and CANCEL. -/
theorem type_of_changed {first books : Books}
    (h : Run Changed first us books) : ∀ u ∈ us,
      u.type = .add ∨ u.type = .modify ∨ u.type = .cancel := by
  refine h.induct (I := fun us _ => ∀ u ∈ us,
    u.type = .add ∨ u.type = .modify ∨ u.type = .cancel) ?_ ?_
  · intro u hu
    cases hu
  · intro us books u books' _ ih hchanged v hv
    rcases List.mem_append.1 hv with hv | hv
    · exact ih v hv
    · rw [List.mem_singleton.1 hv]
      obtain ⟨i, book', -, hchange, -⟩ := hchanged
      cases hchange with
      | add b htype _ _ _ _ _ => exact Or.inl htype
      | modify b x l m htype _ _ _ _ => exact Or.inr (Or.inl htype)
      | cancel b x l m htype _ _ _ => exact Or.inr (Or.inr htype)

/-- Of a ticker, what has been written since the last recovery makes the
exchange's lists, after a CLEAR if there was one. -/
theorem Feed.Writes.changes {hshort : us.length < 2 ^ 64}
    (hfewer : adds us < matchingEngineMaxOrderIds)
    {before current : List MatchingEngineMarketUpdate} {m : Nat}
    (h : (exchangeFeed us hshort).Writes before current m)
    (i : Fin matchingEngineMaxTickers) : ∀ books : Books,
    Run Changed (fun _ _ => []) (us.take m) books →
    ∃ l, (about i current = l
        ∨ about i current = MarketOrderBook.clearUpdate (tickerOf i) :: l)
      ∧ Changes l (fun _ => []) (books i) := by
  induction h with
  | start =>
      intro books hbooks
      exact ⟨[], Or.inl rfl, changes_about hbooks i⟩
  | @next before current m u _ hu ih =>
      intro books hbooks
      have htake : us.take (m + 1) = us.take m ++ [u] := by
        rw [List.take_add_one, show us[m]? = some u from hu]
        rfl
      rw [htake] at hbooks
      obtain ⟨books', hbefore, hlast⟩ := hbooks.split
      obtain ⟨l, habout, hchanges⟩ := ih books' hbefore
      refine ⟨l ++ about i [u], ?_,
        hchanges.append (changes_about hlast i)⟩
      unfold about at habout ⊢
      rw [List.filter_append]
      rcases habout with habout | habout
      · rw [habout]
        exact Or.inl rfl
      · rw [habout, List.cons_append]
        exact Or.inr rfl
  | @recover before current m n m' _ hn _ _ =>
      intro books hbooks
      have hsplit := take_between (f := exchangeFeed us hshort) hn
      change us.take n ++ _ = us.take m' at hsplit
      rw [← hsplit] at hbooks
      obtain ⟨books', hbefore, hafter⟩ := hbooks.split
      have hroom : adds (us.take n) < matchingEngineMaxOrderIds := by
        have hle : adds (us.take n) ≤ adds us :=
          (List.take_sublist n us).countP_le
        omega
      obtain ⟨s, hs, hfollows⟩ :=
        SnapshotSynthesizer.follows_of_run hbefore hroom
      have hpayload : (exchangeFeed us hshort).payload n = s.payload := by
        show (after (us.take n)).payload = _
        rw [Took.after_eq hs]
      have hevents : events ((exchangeFeed us hshort).between n m')
          = (exchangeFeed us hshort).between n m' := by
        refine List.filter_eq_self.2 fun u hu => ?_
        have htype := type_of_changed hafter u hu
        refine decide_eq_true fun hdelimiter => ?_
        rcases hdelimiter with hd | hd
        · rw [hd] at htype
          simp at htype
        · rw [hd] at htype
          simp at htype
      refine ⟨s.ordersOf (tickerOf i)
        ++ about i ((exchangeFeed us hshort).between n m'), Or.inr ?_, ?_⟩
      · have habout := hfollows.stores.about_payload i
        rw [hevents, hpayload]
        unfold about at habout ⊢
        rw [List.filter_append, habout, List.cons_append]
      · exact (hfollows.stores.changes_ordersOf
          (SnapshotSynthesizer.listed_of_run hbefore) i).append
          (changes_about hafter i)

/-- A run of changes is about the tickers. -/
theorem ticker_of_changed {first books : Books}
    (h : Run Changed first us books) :
    ∀ u ∈ us, ∃ i, u.tickerId = tickerOf i := by
  refine h.induct (I := fun us _ => ∀ u ∈ us, ∃ i, u.tickerId = tickerOf i)
    (List.forall_mem_nil _) ?_
  intro us books u books' _ ih hchanged v hv
  rcases List.mem_append.1 hv with hv | hv
  · exact ih v hv
  · rw [List.mem_singleton.1 hv]
    obtain ⟨i, book', hticker, -, -⟩ := hchanged
    exact ⟨i, hticker⟩

/-- So is a snapshot of it. -/
theorem ticker_of_payload {s : SnapshotSynthesizer} {books : Books}
    (h : s.Stores books) : ∀ u ∈ s.payload, ∃ i, u.tickerId = tickerOf i := by
  intro u hu
  obtain ⟨tickerId, hticker, hin⟩ := List.mem_flatMap.1 hu
  obtain ⟨k, hk, rfl⟩ := List.mem_map.1 hticker
  refine ⟨⟨k, List.mem_range.1 hk⟩, ?_⟩
  rcases List.mem_cons.1 hin with rfl | hin
  · rfl
  · obtain ⟨o, -, ho⟩ := List.mem_filterMap.1 hin
    obtain ⟨b, x, -, -, rfl⟩ := (h ⟨k, List.mem_range.1 hk⟩ o u).1 ho
    rfl

/-- And so is what has been written since the last recovery. -/
theorem Feed.Writes.tickers {hshort : us.length < 2 ^ 64}
    (hfewer : adds us < matchingEngineMaxOrderIds) {books : Books}
    (hchanged : Run Changed (fun _ _ => []) us books)
    {before current : List MatchingEngineMarketUpdate} {m : Nat}
    (h : (exchangeFeed us hshort).Writes before current m) :
    ∀ u ∈ current, ∃ i, u.tickerId = tickerOf i := by
  induction h with
  | start => exact List.forall_mem_nil _
  | @next before current m u _ hu ih =>
      intro v hv
      rcases List.mem_append.1 hv with hv | hv
      · exact ih v hv
      · rw [List.mem_singleton.1 hv]
        exact ticker_of_changed hchanged u (List.mem_of_getElem? hu)
  | @recover before current m n m' _ _ _ _ =>
      intro v hv
      rcases List.mem_append.1 hv with hv | hv
      · have hsplit := hchanged
        rw [← List.take_append_drop n us] at hsplit
        obtain ⟨books', hbefore, -⟩ := hsplit.split
        have hroom : adds (us.take n) < matchingEngineMaxOrderIds := by
          have hle : adds (us.take n) ≤ adds us :=
            (List.take_sublist n us).countP_le
          omega
        obtain ⟨s, hs, hfollows⟩ :=
          SnapshotSynthesizer.follows_of_run hbefore hroom
        have hpayload : (exchangeFeed us hshort).payload n = s.payload := by
          show (after (us.take n)).payload = _
          rw [Took.after_eq hs]
        rw [hpayload] at hv
        exact ticker_of_payload hfollows.stores v hv
      · exact ticker_of_changed hchanged v (List.mem_of_mem_take
          (List.mem_of_mem_drop (List.mem_of_mem_filter hv)))

/-- Lists that are made with or without a CLEAR first are made in a new
market book. -/
theorem run_of_changes {i : Fin matchingEngineMaxTickers}
    {current l l' : List MatchingEngineMarketUpdate}
    {book : Bool → List (Resting OrderID)}
    (hcurrent : current = l
      ∨ current = MarketOrderBook.clearUpdate (tickerOf i) :: l)
    (h : Changes l (fun _ => []) book) (h' : Changes l' (fun _ => []) book) :
    ∃ m m', (MarketOrderBook.onMarketUpdates current).run MarketOrderBook.new
        = .ok () m
      ∧ (MarketOrderBook.onMarketUpdates l').run MarketOrderBook.new
        = .ok () m'
      ∧ ∀ b, m.ladder.levelViews b = m'.ladder.levelViews b := by
  obtain ⟨m, m', hm, hm', hsame⟩ :=
    SnapshotSynthesizer.levelViews_of_changes h h'
  rcases hcurrent with rfl | rfl
  · exact ⟨m, m', hm, hm', hsame⟩
  · obtain ⟨m₁, hrun, hlevels⟩ :=
      SnapshotSynthesizer.run_clear_new (tickerOf i) hm
    exact ⟨m₁, m', hrun, hm', fun b => (hlevels b).trans (hsame b)⟩

end MarketDataConsumer

namespace MatchingEngine

open MarketDataConsumer
open MatchingEngineOrderBook (adds)
open Reference (submitted)
open SnapshotSynthesizer (about changes_about)

variable {s : MatchingEngine} {rs : List MatchingEngineClientRequest}

/-- What the client has written, whatever became of the packets. -/
theorem written_of_received (h : Run CleanStep new rs s)
    (hcount : (submitted rs).length < matchingEngineMaxOrderIds)
    (hshort : (updatesOf s.sent).length < 2 ^ 64)
    {received : List (Bool × List MDPMarketUpdate)} {ps : List Packet}
    (hpublished : List.Forall₂ (Published (updatesOf s.sent)) ps
      (deliveries received))
    (hunmixed : Unmixed ps) :
    ∃ before current m,
      (received.foldl recvCallback .new).incomingMdQueue = before ++ current
      ∧ (exchangeFeed (updatesOf s.sent) hshort).Writes before current m
      ∧ ((received.foldl recvCallback .new).inRecoveryMode = false →
        (received.foldl recvCallback .new).nextExpectedSequenceNumber
          = (m + 1) % 2 ^ 64) := by
  obtain ⟨hchanged, hadds⟩ := changed_of_run h hcount
  have hfewer : adds (updatesOf s.sent) < matchingEngineMaxOrderIds := by
    omega
  obtain ⟨t, htook, -⟩ := SnapshotSynthesizer.follows_of_run hchanged hfewer
  have hclear : ∀ u ∈ updatesOf s.sent, u.type ≠ .clear := by
    intro u hu htype
    have hin := type_of_changed hchanged u hu
    rw [htype] at hin
    simp at hin
  have hsends := hpublished.imp fun p d hd =>
    hd.sends hshort ⟨t, htook⟩ hclear
  obtain ⟨m, ⟨before, current, hwrites, hqueue⟩, hnext⟩ :=
    (Feed.inv_of_received hsends hunmixed).written
  exact ⟨before, current, m, hqueue, hwrites, hnext⟩

/-- What new market books make of it. -/
theorem books_of_writes (h : Run CleanStep new rs s)
    (hcount : (submitted rs).length < matchingEngineMaxOrderIds)
    {hshort : (updatesOf s.sent).length < 2 ^ 64}
    {before current : List MatchingEngineMarketUpdate} {m : Nat}
    (hwrites : (exchangeFeed (updatesOf s.sent) hshort).Writes before current m)
    (i : Fin matchingEngineMaxTickers) : ∃ book book',
      (MarketOrderBook.onMarketUpdates (about i current)).run
          MarketOrderBook.new = .ok () book
        ∧ (MarketOrderBook.onMarketUpdates
          (about i ((updatesOf s.sent).take m))).run MarketOrderBook.new
          = .ok () book'
        ∧ (∀ b, book.ladder.levelViews b = book'.ladder.levelViews b)
        ∧ (m = (updatesOf s.sent).length →
          ∀ b, book.ladder.levelViews b
            = ((s.tickerOrderBook i).ladder.levelViews b).map
              LevelView.toMarket) := by
  obtain ⟨hchanged, hadds⟩ := changed_of_run h hcount
  have hfewer : adds (updatesOf s.sent) < matchingEngineMaxOrderIds := by
    omega
  have hsplit := hchanged
  rw [← List.take_append_drop m (updatesOf s.sent)] at hsplit
  obtain ⟨books, hfirst, hrest⟩ := hsplit.split
  obtain ⟨l, hcurrent, hchanges⟩ := hwrites.changes hfewer i books hfirst
  obtain ⟨book, book', hbook, hbook', hsame⟩ :=
    run_of_changes hcurrent hchanges (changes_about hfirst i)
  refine ⟨book, book', hbook, hbook', hsame, fun hall b => ?_⟩
  rw [hall, List.take_length] at hbook'
  rw [hsame b]
  -- the exchange's own updates make its book
  obtain ⟨lay, hgood⟩ := MatchingEngineOrderBook.good_of_cleanRun
    (cleanRun_book h i)
  have hnew : MarketOrderBook.Holds MarketOrderBook.new .empty fun _ => [] :=
    ⟨MarketOrderBook.mirror_new, fun c => by rw [MarketOrderBook.book_new]⟩
  obtain ⟨m₁, lay', hrun, hholds⟩ :=
    (changes_about hchanged i).leads _ _ hnew
  rw [hbook'] at hrun
  rw [(EStateM.Result.ok.inj hrun).2]
  exact MatchingEngineOrderBook.levelViews_of_holds hgood.stored hholds b

/-- Not in recovery, market books that were new at the client's last
recovery show what the exchange's own updates show as of the update before
the one the client expects, and the exchange's levels once the client has
them all. -/
theorem books_of_received {s : MatchingEngine}
    {rs : List MatchingEngineClientRequest} (h : Run CleanStep new rs s)
    (hcount : (submitted rs).length < matchingEngineMaxOrderIds)
    (hshort : (updatesOf s.sent).length < 2 ^ 64)
    {received : List (Bool × List MDPMarketUpdate)} {ps : List Packet}
    (hpublished : List.Forall₂ (Published (updatesOf s.sent)) ps
      (deliveries received))
    (hunmixed : Unmixed ps)
    (hidle : (received.foldl recvCallback .new).inRecoveryMode = false) :
    ∃ before current m,
      (received.foldl recvCallback .new).incomingMdQueue = before ++ current
      ∧ (exchangeFeed (updatesOf s.sent) hshort).Writes before current m
      ∧ (received.foldl recvCallback .new).nextExpectedSequenceNumber
        = (m + 1) % 2 ^ 64
      ∧ ∀ i, ∃ book book',
        (MarketOrderBook.onMarketUpdates (about i current)).run
            MarketOrderBook.new = .ok () book
          ∧ (MarketOrderBook.onMarketUpdates
            (about i ((updatesOf s.sent).take m))).run MarketOrderBook.new
            = .ok () book'
          ∧ (∀ b, book.ladder.levelViews b = book'.ladder.levelViews b)
          ∧ (m = (updatesOf s.sent).length →
            ∀ b, book.ladder.levelViews b
              = ((s.tickerOrderBook i).ladder.levelViews b).map
                LevelView.toMarket) := by
  obtain ⟨before, current, m, hqueue, hwrites, hnext⟩ :=
    written_of_received h hcount hshort hpublished hunmixed
  exact ⟨before, current, m, hqueue, hwrites, hnext hidle,
    books_of_writes h hcount hwrites⟩

end MatchingEngine

-- ============================================================ a first order

namespace MarketDataConsumer

open SnapshotSynthesizer (Took after)

/-- The ADD of a first bid. -/
def firstAdd : MatchingEngineMarketUpdate where
  type := .add
  orderId := 1
  tickerId := 0
  side := .buy
  price := 100
  quantity := 1
  priority := 1

/-- It comes twice, then the first snapshot without its SNAPSHOT_START, and
then the whole of it. -/
def repeated : List (Bool × List MDPMarketUpdate) :=
  [(false, [⟨1, firstAdd⟩, ⟨1, firstAdd⟩]), (true, firstSnapshot.drop 1),
    (true, firstSnapshot)]

def repeatedPackets : List Packet :=
  [.incremental 1, .incremental 1]
    ++ (((List.range 10).map (.snapshot 0)).drop 1
      ++ (List.range 10).map (.snapshot 0))

theorem published_repeated : List.Forall₂ (Published [firstAdd])
    repeatedPackets (deliveries repeated) := by
  have hincremental : Published [firstAdd] (.incremental 1)
      (false, ⟨1, firstAdd⟩) := ⟨rfl, rfl, List.mem_cons_self⟩
  have hwhole : List.Forall₂ (Published [firstAdd])
      ((List.range 10).map (.snapshot 0))
      (firstSnapshot.map (Prod.mk true)) :=
    published_snapshot (Nat.zero_le _) publishSnapshot_new
  have hpart := List.forall₂_drop 1 hwhole
  exact .cons hincremental (.cons hincremental (List.rel_append hpart hwhole))

/-- The request it is sent for. -/
def firstBid : MatchingEngineClientRequest := ⟨.new, 0, 0, 1, .buy, 100, 1⟩

theorem exists_firstAdd : ∃ s : MatchingEngine,
    Run MatchingEngine.CleanStep .new [firstBid] s
      ∧ updatesOf s.sent = [firstAdd] :=
  MatchingEngine.exists_cleanRun [firstBid] _ (by decide +kernel)

theorem next_repeated :
    (repeated.foldl recvCallback new).nextExpectedSequenceNumber = 2 := by
  decide

/-- It expects what comes after the bid. -/
theorem eq_one_of_next {m : Nat} (hm : m ≤ [firstAdd].length)
    (h : (repeated.foldl recvCallback new).nextExpectedSequenceNumber
      = (m + 1) % 2 ^ 64) : m = 1 := by
  rw [next_repeated] at h
  rw [List.length_singleton] at hm
  omega

/-- The client recovers, and knows the bid. -/
theorem live_of_received_repeated :
    (repeated.foldl recvCallback new).nextExpectedSequenceNumber = 2
      ∧ LiveOrders.replay (repeated.foldl recvCallback new).incomingMdQueue
        = .replay [firstAdd] := by
  obtain ⟨s, hrun, hupdates⟩ := exists_firstAdd
  obtain ⟨hchanged, -⟩ := MatchingEngine.changed_of_run hrun (by decide)
  rw [hupdates] at hchanged
  obtain ⟨t, htook, -⟩ :=
    SnapshotSynthesizer.follows_of_run hchanged (by decide)
  obtain ⟨m, hm, hnext, hlive⟩ := live_of_received (by decide) ⟨t, htook⟩
    (by decide) published_repeated (by decide) (by decide)
  obtain rfl : m = 1 := eq_one_of_next hm hnext
  exact ⟨hnext, hlive⟩

end MarketDataConsumer

namespace MatchingEngine

open MarketDataConsumer

/-- Its books show the bid. -/
theorem books_of_received_repeated : ∃ s,
    Run CleanStep new [firstBid] s
      ∧ (updatesOf s.sent).length = 1
      ∧ ∃ before current,
        (repeated.foldl recvCallback .new).incomingMdQueue = before ++ current
        ∧ ∀ i, ∃ book,
          (MarketOrderBook.onMarketUpdates
            (SnapshotSynthesizer.about i current)).run MarketOrderBook.new
            = .ok () book
          ∧ ∀ b, book.ladder.levelViews b
            = ((s.tickerOrderBook i).ladder.levelViews b).map
              LevelView.toMarket := by
  obtain ⟨s, hrun, hupdates⟩ := exists_firstAdd
  obtain ⟨before, current, m, hqueue, hwrites, hnext, hbooks⟩ :=
    books_of_received hrun (by decide) (by rw [hupdates]; decide)
      (by rw [hupdates]; exact published_repeated)
      (show Unmixed repeatedPackets by decide)
      (show (repeated.foldl recvCallback .new).inRecoveryMode = false
        by decide)
  have hall : m = (updatesOf s.sent).length := by
    have hm : m ≤ (updatesOf s.sent).length := hwrites.le
    rw [hupdates] at hm ⊢
    exact eq_one_of_next hm hnext
  refine ⟨s, hrun, by rw [hupdates]; rfl, before, current, hqueue,
    fun i => ?_⟩
  obtain ⟨book, -, hbook, -, -, hsame⟩ := hbooks i
  exact ⟨book, hbook, hsame hall⟩

end MatchingEngine

end ElectronicTrading
