/-
`add` is price-time priority: on every book that clean runs reach, the
code's linked lists end where the reference algorithm of Reference.lean
ends, and the messages are its messages.

Reference.lean says how an order trades by recursion on the opposite
list. What that means is spelled out here: which orders trade and when
trading stops (`PriceTimePriority`), and that the lists it works on are
in price-time order to begin with (`InPriority`). Time is the order of
the requests. It is not read off the priorities or the market order
ids, which are machine integers and could wrap: each resting order is
paired with the number of the NEW it came with (`Arrivals`).
-/
import ElectronicTrading.Exchange.Proofs.Representation

namespace ElectronicTrading

open PriceTime Runs

namespace Reference

-- ================================================================ arrivals

/-- The order `r` came with the `n`-th request of the run. -/
def Submitted (rs : List MatchingEngineClientRequest) (r : Resting OrderIds)
    (n : Nat) : Prop :=
  ∃ request, rs[n]? = some request ∧ request.type = .new
    ∧ request.tickerId = r.key.tickerId ∧ request.clientId = r.key.clientId
    ∧ request.orderId = r.key.clientOrderId ∧ request.side = r.side
    ∧ request.price = r.price

theorem Submitted.lt {rs : List MatchingEngineClientRequest}
    {r : Resting OrderIds} {n : Nat} (h : Submitted rs r n) :
    n < rs.length := by
  obtain ⟨request, hget, -⟩ := h
  exact (List.getElem?_eq_some_iff.1 hget).1

theorem Submitted.snoc {rs : List MatchingEngineClientRequest}
    {r : Resting OrderIds} {n : Nat} (h : Submitted rs r n)
    (request : MatchingEngineClientRequest) :
    Submitted (rs ++ [request]) r n := by
  have hlt := h.lt
  obtain ⟨request', hget, hrest⟩ := h
  refine ⟨request', ?_, hrest⟩
  rw [List.getElem?_append_left hlt]
  exact hget

/-- At one price, the orders of the list stand in the order in which the
run submitted them. Quantities aside: they change after submission. -/
def Arrivals (rs : List MatchingEngineClientRequest)
    (l : List (Resting OrderIds)) : Prop :=
  ∃ ws : List (Resting OrderIds × Nat), ws.map Prod.fst = l.map core
    ∧ (∀ w ∈ ws, Submitted rs w.1 w.2)
    ∧ ws.Pairwise fun w w' => w.1.price = w'.1.price → w.2 < w'.2

theorem arrivals_nil (rs : List MatchingEngineClientRequest) :
    Arrivals rs [] := ⟨[], rfl, nofun, List.Pairwise.nil⟩

theorem Arrivals.snoc {rs : List MatchingEngineClientRequest}
    {l : List (Resting OrderIds)} (h : Arrivals rs l)
    (request : MatchingEngineClientRequest) :
    Arrivals (rs ++ [request]) l := by
  obtain ⟨ws, hws, hsub, hpair⟩ := h
  exact ⟨ws, hws, fun w hw => (hsub w hw).snoc request, hpair⟩

/-- Orders can leave the list and change their quantities. -/
theorem Arrivals.sublist {rs : List MatchingEngineClientRequest}
    {l l' : List (Resting OrderIds)} (h : Arrivals rs l)
    (hsub : (l'.map core).Sublist (l.map core)) : Arrivals rs l' := by
  obtain ⟨ws, hws, hborn, hpair⟩ := h
  rw [← hws] at hsub
  obtain ⟨ws', hsub', heq⟩ := List.sublist_map_iff.1 hsub
  exact ⟨ws', heq.symm, fun w hw => hborn w (hsub'.subset hw),
    hpair.sublist hsub'⟩

/-- The order of the last request goes in behind those of its price. -/
theorem Arrivals.place {rs : List MatchingEngineClientRequest}
    {request : MatchingEngineClientRequest} {b : Bool}
    {l : List (Resting OrderIds)} {r : Resting OrderIds}
    (h : Arrivals rs l) (hsorted : Sorted b l)
    (hr : Submitted (rs ++ [request]) (core r) rs.length) :
    Arrivals (rs ++ [request]) (place b r l) := by
  obtain ⟨ws, hws, hborn, hpair⟩ := h
  obtain ⟨m, n, hsplit, hplace, -, hn⟩ := exists_place hsorted r
  rw [hsplit, List.map_append] at hws
  obtain ⟨ws₁, ws₂, rfl, hm, hn'⟩ := List.map_eq_append_iff.1 hws
  obtain ⟨hpair₁, hpair₂, hcross⟩ := List.pairwise_append.1 hpair
  refine ⟨ws₁ ++ (core r, rs.length) :: ws₂, ?_, ?_, ?_⟩
  · rw [hplace, List.map_append, List.map_append, List.map_cons, List.map_cons,
      hm, hn']
  · intro w hw
    rw [List.mem_append, List.mem_cons] at hw
    rcases hw with hw | rfl | hw
    · exact (hborn w (List.mem_append_left _ hw)).snoc request
    · exact hr
    · exact (hborn w (List.mem_append_right _ hw)).snoc request
  · refine List.pairwise_append.2 ⟨hpair₁, List.pairwise_cons.2 ⟨?_, hpair₂⟩,
      ?_⟩
    · -- those behind the new order have a worse price
      intro w hw heq
      have hmem : w.1 ∈ n.map core := by
        rw [← hn']
        exact List.mem_map_of_mem hw
      obtain ⟨q, hq, hcore⟩ := List.mem_map.1 hmem
      rw [← hcore] at heq
      exact absurd heq (hn q hq).ne
    · intro w hw w' hw'
      rcases List.mem_cons.1 hw' with rfl | hw'
      · intro _
        exact (hborn w (List.mem_append_left _ hw)).lt
      · exact hcross w hw w' hw'

/-- Both lists are in price-time priority. -/
structure InPriority (rs : List MatchingEngineClientRequest) (book : Book) :
    Prop where
  bestFirst : ∀ b, Sorted b (book b)
  earliestFirst : ∀ b, Arrivals rs (book b)

-- ===================================================== what a NEW order does

/-- How a book changes under the NEW order `i`: it trades with a
beginning of the opposite list, stops when it is used up or nothing
left crosses, and rests behind its price. -/
structure PriceTimePriority (i : Incoming) (book book' : Book) : Prop where
  /-- The orders that trade are the first of the opposite list, and all
  behind them stay; the last that trades stays with a new quantity if it
  is not used up. -/
  trades : ∃ untouched, book (!i.isBuy)
      = (i.swept book).trades.map (·.resting) ++ untouched
    ∧ (book' (!i.isBuy) = untouched
      ∨ ∃ t, (i.swept book).trades.getLast? = some t
        ∧ t.resting.quantity - t.quantity ≠ 0
        ∧ book' (!i.isBuy) = { t.resting with
            quantity := t.resting.quantity - t.quantity } :: untouched)
  crossing : ∀ t ∈ (i.swept book).trades,
    crosses i.isBuy i.price t.resting = true
  stops : (i.swept book).left = 0
    ∨ ∀ r ∈ book' (!i.isBuy), crosses i.isBuy i.price r = false
  /-- What is left of the order rests behind its price. -/
  rests : (i.swept book).left ≠ 0 → ∃ l m, book i.isBuy = l ++ m
    ∧ book' i.isBuy = l ++ i.remainder book :: m
    ∧ (∀ q ∈ l, ¬ Better i.isBuy i.price q.price)
    ∧ ∀ q ∈ m, Better i.isBuy i.price q.price
  spent : (i.swept book).left = 0 → book' i.isBuy = book i.isBuy

/-- The reference algorithm is price-time priority. -/
theorem priceTimePriority_apply (i : Incoming) {book : Book}
    (h : ∀ b, Sorted b (book b)) :
    PriceTimePriority i book (i.apply book) := by
  obtain ⟨untouched, hsplit, hall, hrest⟩ :=
    sweep_split i.isBuy i.price (book !i.isBuy) i.quantity
  refine
    { trades := ⟨untouched, hsplit, ?_⟩
      crossing := hall
      stops := ?_
      rests := ?_
      spent := ?_ }
  · rw [Incoming.apply_opposite]
    exact hrest
  · rw [Incoming.apply_opposite]
    by_cases hleft : (i.swept book).left = 0
    · exact Or.inl hleft
    · exact Or.inr (sweep_rest_not_crosses (h _) hleft)
  · intro hleft
    obtain ⟨l, m, hsplit', hplace, hl, hm⟩ :=
      exists_place (h i.isBuy) (i.remainder book)
    refine ⟨l, m, hsplit', ?_, hl, hm⟩
    rw [Incoming.apply_own hleft]
    exact hplace
  · intro hleft
    rw [Incoming.apply_spent hleft, Incoming.sweptBook_own]

end Reference

namespace MatchingEngineOrderBook

open Reference

-- ==================================================================== runs

/-- The lists are in price-time priority along every clean run. -/
theorem inPriority_of_cleanRun {rs : List MatchingEngineClientRequest}
    {s : MatchingEngineOrderBook} (h : Run CleanStep new rs s) :
    InPriority rs s.book := by
  refine h.induct (I := fun rs s => InPriority rs s.book) ?_ ?_
  · rw [book_new]
    exact ⟨fun _ => List.Pairwise.nil, fun _ => arrivals_nil _⟩
  · intro rs s r s' hrun hprio hstep
    obtain ⟨lay, hgood⟩ := good_of_cleanRun hrun
    refine ⟨(good_of_cleanRun (hrun.snoc hstep)).choose_spec.ok.sorted,
      fun b => ?_⟩
    have hsame : ∀ c, Arrivals (rs ++ [r]) (s.book c) := fun c =>
      (hprio.earliestFirst c).snoc r
    rcases step_cases hgood.stored hstep.valid hstep.processed
        (hstep.free hgood.stored) with
      ⟨hnew, lay', hafter⟩ | ⟨-, -, rfl⟩ | ⟨-, -, lay', c, x, hafter⟩
    · rw [hafter.book]
      unfold Incoming.apply
      split
      · next hb =>
          obtain ⟨rfl, -⟩ := hb
          refine (hprio.earliestFirst _).place (hprio.bestFirst _) ⟨r, ?_⟩
          have hside : r.side = sideOf (r.side == .buy) := by
            rcases hstep.valid.side hnew with h | h <;> rw [h] <;> rfl
          exact ⟨by simp, hnew, rfl, rfl, rfl, hside, rfl⟩
      · unfold Incoming.sweptBook
        split
        · exact hsame b
        · exact (hsame _).sublist sweep_rest_suffix.sublist
    · exact hsame b
    · by_cases hb : b = c
      · obtain ⟨l, m, hbefore, hbook⟩ := hafter.book
        rw [hb, hbook]
        refine (hsame c).sublist ?_
        rw [hbefore]
        exact ((List.Sublist.refl l).append
          (List.sublist_cons_self x m)).map core
      · rw [hafter.other b hb]
        exact hsame b

/-- What a NEW order does to a book that a clean run reached: it is
processed to its end, in price-time priority, with the reference
algorithm's messages. -/
theorem add_refines_reference {rs : List MatchingEngineClientRequest}
    {s : MatchingEngineOrderBook} (h : Run CleanStep new rs s)
    {r : MatchingEngineClientRequest} (hv : Valid r) (hnew : r.type = .new)
    (hfree : SlotFree s.book r.price)
    (hpool : ∀ s', (processClientRequest r).run s
      ≠ .error .poolOutOfSpace s') :
    InPriority rs s.book ∧ ∃ s', Processed s r s'
      ∧ s'.book = (s.incoming r).apply s.book
      ∧ PriceTimePriority (s.incoming r) s.book s'.book
      ∧ s'.sent = s.sent ++ (s.incoming r).messages s.book
      ∧ ∀ b, s'.ladder.levelViews b
        = (levelsOf (s'.book b)).map (Ladder.levelOfRun b) := by
  obtain ⟨lay, hgood⟩ := good_of_cleanRun h
  refine ⟨inPriority_of_cleanRun h, ?_⟩
  rcases add_spec (s.incoming r) hgood.stored rfl hv.range
      (fun _ => Incoming.slotFree_swept (i := s.incoming r) hfree) with
    ⟨s', lay', hrun, hafter⟩ | ⟨⟨s', hrun⟩, -⟩
  · refine ⟨s', ?_, hafter.book, ?_, hafter.sent, ?_⟩
    · unfold Processed
      rw [run_new hv hnew]
      exact hrun
    · rw [hafter.book]
      exact priceTimePriority_apply _ hgood.ok.sorted
    · intro b
      exact hafter.stored.booked.levelViews_eq b
  · rw [← run_new hv hnew] at hrun
    exact absurd hrun (hpool s')

/-- One lot sold at price 0. -/
def sellOne : MatchingEngineClientRequest where
  type := .new
  clientId := 1
  tickerId := 0
  orderId := 0
  side := .sell
  price := 0
  quantity := 1

theorem sellOne_valid : Valid sellOne where
  type := Or.inl rfl
  side := fun _ => Or.inr rfl
  range := by decide

/-- Nothing is left of one lot that meets an order. -/
theorem swept_one_left {q : Quantity} (h : q ≠ 0) : 1 - min q 1 = 0 := by
  have hpos : 0 < q.toNat := UInt32.pos_iff_ne_zero.2 h
  rw [← UInt32.toNat_inj, toNat_sub_fill_right]
  show 1 - min q.toNat 1 = 0
  omega

/-- A lot bought and sold at price 0. -/
theorem add_refines_reference_sellOne :
    ∃ s s', Run CleanStep new (churn 0) s ∧ Processed s sellOne s'
      ∧ s'.book = (s.incoming sellOne).apply s.book
      ∧ s'.sent = s.sent ++ (s.incoming sellOne).messages s.book := by
  obtain ⟨s, r, hrun, hchurned, -⟩ := churned 0
  obtain ⟨lay, hgood⟩ := hchurned.good
  have hfree : SlotFree s.book sellOne.price := by
    intro b x hx _
    cases b with
    | false =>
        rw [hchurned.asks] at hx
        cases hx
    | true =>
        rw [hchurned.bids, List.mem_singleton] at hx
        rw [hx]
        exact hchurned.price
  have hpos : r.quantity ≠ 0 := hgood.ok.positive true r (by
    rw [hchurned.bids]
    exact List.mem_singleton_self r)
  have hleft : ((s.incoming sellOne).swept s.book).left = 0 := by
    show (sweep false 0 1 (s.book true)).left = 0
    rw [hchurned.bids, sweep, if_neg]
    · have hone := swept_one_left hpos
      by_cases hzero : r.quantity - min r.quantity 1 = 0
      · simp only [hzero, if_true]
        exact hone
      · simp only [hzero, if_false]
        exact hone
    · intro h
      rcases h with h | h
      · cases h
      · rw [crosses_at_limit hchurned.price] at h
        cases h
  have hpool : ∀ s', (processClientRequest sellOne).run s
      ≠ .error .poolOutOfSpace s' := by
    intro s' herr
    rw [run_new sellOne_valid rfl] at herr
    rcases add_spec (s.incoming sellOne) hgood.stored rfl sellOne_valid.range
        (fun hne => absurd hleft hne) with ⟨t, -, hrun', -⟩ | ⟨-, hne, -⟩
    · rw [hrun'] at herr
      cases herr
    · exact hne hleft
  obtain ⟨-, s', hproc, hbook, -, hsent, -⟩ := add_refines_reference
    (cleanRun_of_run hrun) sellOne_valid rfl hfree hpool
  exact ⟨s, s', cleanRun_of_run hrun, hproc, hbook, hsent⟩

end MatchingEngineOrderBook

end ElectronicTrading
