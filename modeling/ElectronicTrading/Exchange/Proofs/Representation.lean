/-
The representation invariant of the book's memory, along every run.

`WellFormed` is stated on what can be read in the memory alone, by
walking it: rings, heads, slots, queues. It follows from the layout
(`Good`), which steps keep, and from time priority, which they keep as
long as `getNextPriority` does not wrap: fewer than 2^64 NEW requests.

# The wrap

A level that never empties hands out priorities 1, 2, 3, … to the end of
the machine integer. `churn` keeps one level alive with two client order
ids in turn, a NEW before each CANCEL; after 2^64 - 1 NEWs the order at
the head has the largest priority and the next one gets 0 behind it
(`not_wellFormed_of_churn`).

# The last level

A pool hands out all its blocks but one, so a book of
`matchingEngineMaxPriceLevels` slots has at most one level less
(`runsOut_iff_of_run`).
-/
import ElectronicTrading.Common.Proofs.PoolRuns
import ElectronicTrading.Exchange.Proofs.Steps

namespace ElectronicTrading

open PriceTime LinkedRing Runs

-- ==================================================== time priority, twice

/-- Increasing priorities along every level are time priority along the
side. -/
theorem Ladder.Booked.fifo_iff {K : Type} {s : Ladder K} {lay : Layout}
    {loose : Option Ptr} (h : s.Booked lay loose) (b : Bool) :
    (∀ p ∈ lay.levels b, (lay.queue p).Pairwise
        fun o o' => (s.resting o).priority < (s.resting o').priority)
      ↔ Fifo (s.restingOrders b) := by
  unfold Fifo
  rw [h.laid.restingOrders_eq, List.pairwise_map]
  unfold Layout.orders
  rw [List.pairwise_flatMap]
  constructor
  · intro hfifo
    refine ⟨fun p hp => (hfifo p hp).imp fun {o o'} hlt => ?_, ?_⟩
    · intro _
      exact hlt
    refine (h.laid.levels.sorted b).imp fun {p q} hpq o ho o' ho' heq => ?_
    rw [(h.matched p o ho).2, (h.matched q o' ho').2] at heq
    exact absurd heq hpq.ne
  · rintro ⟨hfifo, -⟩ p hp
    refine (hfifo p hp).imp_of_mem fun {o o'} ho ho' hlt => hlt ?_
    rw [(h.matched p o ho).2, (h.matched p o' ho').2]

namespace Reference

/-- Time priority, with priorities up to `n`. -/
def Timely (n : Nat) (book : Book) : Prop :=
  ∀ b, Fifo (book b) ∧ ∀ r ∈ book b, r.priority.toNat ≤ n

theorem timely_empty (n : Nat) : Timely n fun _ => [] :=
  fun _ => ⟨List.Pairwise.nil, fun _ hr => by cases hr⟩

theorem Timely.mono {n m : Nat} {book : Book} (h : Timely n book)
    (hnm : n ≤ m) : Timely m book :=
  fun b => ⟨(h b).1, fun r hr => ((h b).2 r hr).trans hnm⟩

theorem Timely.sublist {n : Nat} {book book' : Book} (h : Timely n book)
    (hsub : ∀ b, (book' b).Sublist (book b)) : Timely n book' :=
  fun b => ⟨(h b).1.sublist (hsub b),
    fun r hr => (h b).2 r ((hsub b).subset hr)⟩

/-- A NEW keeps time priority while the next priority does not wrap. -/
theorem Timely.apply {n : Nat} {book : Book} {i : Incoming}
    (h : Timely n book) (hok : Ok book) (hn : n + 1 < 2 ^ 64) :
    Timely (n + 1) (i.apply book) := by
  have hswept : Timely n (i.sweptBook book) := by
    intro b
    refine ⟨?_, fun r hr => ?_⟩
    · unfold Incoming.sweptBook
      split
      · exact (h b).1
      · exact Pairwise.sweep_rest (fun _ _ => Iff.rfl) (h _).1
    · obtain ⟨r', hr', hcore⟩ := Incoming.exists_core hr
      rw [← (core_eq hcore).2.2.2]
      exact (h b).2 r' hr'
  intro b
  unfold Incoming.apply
  split
  · next hb =>
      obtain ⟨rfl, -⟩ := hb
      obtain ⟨hlt, hle⟩ := lt_nextPriority i.price (h i.isBuy).1
        (h i.isBuy).2 hn
      refine ⟨(h _).1.place (hok.sorted _) hlt, fun r hr => ?_⟩
      rcases mem_place.1 hr with rfl | hr
      · exact hle
      · exact ((h _).2 r hr).trans (Nat.le_succ n)
  · exact (hswept.mono (Nat.le_succ n)) b

end Reference

namespace MatchingEngineOrderBook

open Reference

-- ========================================================== the invariant

/-- The book's memory is in order. -/
structure WellFormed (s : MatchingEngineOrderBook) : Prop where
  /-- Each head is the first level of its walk. -/
  head : ∀ b, s.ladder.best b = (s.ladder.levelPtrs b).head?
  /-- The levels of a side are a circular doubly linked list. -/
  levels : ∀ b, IsRing s.ladder.nextEntry s.ladder.prevEntry
    (s.ladder.levelPtrs b)
  /-- Bids descend and asks ascend in price. -/
  sorted : ∀ b, (s.ladder.levelPtrs b).Pairwise
    fun p q => Better b (s.ladder.levelPrice p) (s.ladder.levelPrice q)
  side : ∀ b, ∀ p ∈ s.ladder.levelPtrs b, s.ladder.levelSide p = sideOf b
  /-- A slot holds a level exactly when the level's price has the slot. -/
  slots : ∀ i p, s.ladder.priceOrdersAtPrice i = some p
    ↔ (∃ b, p ∈ s.ladder.levelPtrs b)
      ∧ priceToIndex (s.ladder.levelPrice p) = i
  first : ∀ b, ∀ p ∈ s.ladder.levelPtrs b,
    s.ladder.firstOrder p = (s.ladder.orderPtrs p).head?
  nonempty : ∀ b, ∀ p ∈ s.ladder.levelPtrs b, s.ladder.orderPtrs p ≠ []
  /-- The orders of a level are a circular doubly linked list. -/
  queues : ∀ b, ∀ p ∈ s.ladder.levelPtrs b,
    IsRing s.ladder.nextOrder s.ladder.prevOrder (s.ladder.orderPtrs p)
  matched : ∀ b, ∀ p ∈ s.ladder.levelPtrs b, ∀ o ∈ s.ladder.orderPtrs p,
    (s.ladder.resting o).side = s.ladder.levelSide p
      ∧ (s.ladder.resting o).price = s.ladder.levelPrice p
  fifo : ∀ b, ∀ p ∈ s.ladder.levelPtrs b, (s.ladder.orderPtrs p).Pairwise
    fun o o' => (s.ladder.resting o).priority < (s.ladder.resting o').priority
  positive : ∀ b, ∀ p ∈ s.ladder.levelPtrs b, ∀ o ∈ s.ladder.orderPtrs p,
    0 < (s.ladder.resting o).quantity
  uncrossed : ∀ p q, s.ladder.best true = some p →
    s.ladder.best false = some q → s.ladder.levelPrice p < s.ladder.levelPrice q

/-- The walks of a laid-out book. -/
theorem Stored.walks {s : MatchingEngineOrderBook} {lay : Layout}
    (h : Stored s lay) :
    (∀ b, s.ladder.levelPtrs b = lay.levels b)
      ∧ ∀ b, ∀ p ∈ lay.levels b, s.ladder.orderPtrs p = lay.queue p :=
  ⟨h.booked.laid.levelPtrs_eq, fun b _ hp =>
    h.booked.laid.orderPtrs_eq ⟨b, hp⟩⟩

/-- A book that is in order keeps time priority. -/
theorem WellFormed.fifo_book {s : MatchingEngineOrderBook} {lay : Layout}
    (hw : WellFormed s) (h : Stored s lay) (b : Bool) : Fifo (s.book b) := by
  obtain ⟨hlevels, hqueues⟩ := h.walks
  refine (h.booked.fifo_iff b).1 fun p hp => ?_
  rw [← hqueues b p hp]
  exact hw.fifo b p (by rw [hlevels]; exact hp)

/-- The invariant of the steps, with time priority, is the representation
invariant. -/
theorem Good.wellFormed {s : MatchingEngineOrderBook} {lay : Layout}
    (h : Good s lay) (hfifo : ∀ b, Fifo (s.book b)) : WellFormed s := by
  obtain ⟨hlevels, hqueues⟩ := h.stored.walks
  have hlaid := h.stored.booked.laid
  have hmem : ∀ b, ∀ p ∈ lay.levels b, ∀ o ∈ lay.queue p,
      s.ladder.resting o ∈ s.book b := by
    intro b p hp o ho
    rw [h.stored.book_eq]
    exact List.mem_map_of_mem (List.mem_flatMap.2 ⟨p, hp, ho⟩)
  refine
    { head := fun b => by rw [hlevels]; exact hlaid.levels.head b
      levels := fun b => by rw [hlevels]; exact hlaid.levels.ring b
      sorted := fun b => by rw [hlevels]; exact hlaid.levels.sorted b
      side := fun b p hp => hlaid.levels.side b p (by rwa [hlevels] at hp)
      slots := ?_
      first := ?_
      nonempty := ?_
      queues := ?_
      matched := ?_
      fifo := ?_
      positive := ?_
      uncrossed := ?_ }
  · intro i p
    simp only [hlevels]
    constructor
    · intro hslot
      exact hlaid.levels.slots i p hslot
    · intro h
      obtain ⟨hp, hidx⟩ := h
      rw [← hidx]
      exact hlaid.levels.slot_price hp
  · intro b p hp
    rw [hlevels] at hp
    rw [hqueues b p hp]
    exact hlaid.queues.first p ⟨b, hp⟩
  · intro b p hp
    rw [hlevels] at hp
    rw [hqueues b p hp]
    exact hlaid.queues.nonempty p ⟨b, hp⟩
  · intro b p hp
    rw [hlevels] at hp
    rw [hqueues b p hp]
    exact hlaid.queues.ring p
  · intro b p hp o ho
    rw [hlevels] at hp
    rw [hqueues b p hp] at ho
    exact h.stored.booked.matched p o ho
  · intro b p hp
    rw [hlevels] at hp
    rw [hqueues b p hp]
    exact (h.stored.booked.fifo_iff b).2 (hfifo b) p hp
  · intro b p hp o ho
    rw [hlevels] at hp
    rw [hqueues b p hp] at ho
    exact UInt32.pos_iff_ne_zero.2 (h.ok.positive b _ (hmem b p hp o ho))
  · intro p q hbid hask
    -- compare an order of each best level
    have hread : ∀ b p, s.ladder.best b = some p →
        ∃ r ∈ s.book b, r.price = s.ladder.levelPrice p := by
      intro b p hbest
      rcases hlaid.head_cases b with ⟨hnone, -⟩ | ⟨p', o, -, hp', -, -, hpb, ho⟩
      · rw [hbest] at hnone
        cases hnone
      · rw [hbest] at hp'
        cases hp'
        exact ⟨_, hmem b p hpb o ho, (h.stored.booked.matched p o ho).2⟩
    obtain ⟨r, hr, hrp⟩ := hread true p hbid
    obtain ⟨r', hr', hrq⟩ := hread false q hask
    rw [← hrp, ← hrq]
    exact h.ok.uncrossed r hr r' hr'

-- =============================================================== the runs

/-- A step whose NEW price shares its slot with no other price that rests
at that moment. -/
structure FreeStep (s : MatchingEngineOrderBook)
    (r : MatchingEngineClientRequest) (s' : MatchingEngineOrderBook) :
    Prop where
  valid : Valid r
  free : r.type = .new → SlotFree s.book r.price
  processed : Processed s r s'

/-- The NEW requests of a run. -/
def newCount (rs : List MatchingEngineClientRequest) : Nat :=
  rs.countP fun r => r.type = .new

theorem newCount_snoc (rs : List MatchingEngineClientRequest)
    (r : MatchingEngineClientRequest) :
    newCount (rs ++ [r]) = newCount rs + if r.type = .new then 1 else 0 := by
  unfold newCount
  rw [List.countP_append, List.countP_singleton]
  simp only [decide_eq_true_eq]

/-- What a run of free steps keeps: the invariant, and time priority as
long as priorities do not wrap. -/
theorem good_of_run {rs : List MatchingEngineClientRequest}
    {s : MatchingEngineOrderBook} (h : Run FreeStep new rs s) :
    (∃ lay, Good s lay)
      ∧ (newCount rs < 2 ^ 64 → Timely (newCount rs) s.book) := by
  refine h.induct (I := fun rs s => (∃ lay, Good s lay)
    ∧ (newCount rs < 2 ^ 64 → Timely (newCount rs) s.book)) ?_ ?_
  · refine ⟨⟨_, good_new⟩, fun _ => ?_⟩
    rw [book_new]
    exact timely_empty 0
  · rintro rs s r s' - ⟨⟨lay, hgood⟩, htimely⟩ hstep
    have hfree : r.type = .new → ((s.incoming r).swept s.book).left ≠ 0 →
        SlotFree ((s.incoming r).sweptBook s.book) r.price :=
      fun hnew _ => Incoming.slotFree_swept (i := s.incoming r)
        (hstep.free hnew)
    refine ⟨hgood.step hstep.valid hstep.processed hfree, ?_⟩
    rw [newCount_snoc]
    intro hcount
    rcases step_cases hgood.stored hstep.valid hstep.processed hfree with
      ⟨hnew, lay', hafter⟩ | ⟨hcancel, -, rfl⟩ |
      ⟨hcancel, -, lay', b, x, hafter⟩
    · rw [if_pos hnew] at hcount ⊢
      rw [hafter.book]
      exact (htimely (by omega)).apply hgood.ok hcount
    · rw [if_neg (by rw [hcancel]; decide), Nat.add_zero] at hcount ⊢
      exact htimely hcount
    · rw [if_neg (by rw [hcancel]; decide), Nat.add_zero] at hcount ⊢
      refine (htimely hcount).sublist fun c => ?_
      by_cases hc : c = b
      · obtain ⟨l, m, hbefore, hbook⟩ := hafter.book
        rw [hc, hbefore, hbook]
        exact (List.Sublist.refl l).append (List.sublist_cons_self x m)
      · rw [hafter.other c hc]

/-- A run of free steps is one of clean steps. -/
theorem cleanRun_of_run {rs : List MatchingEngineClientRequest}
    {s : MatchingEngineOrderBook} (h : Run FreeStep new rs s) :
    Run CleanStep new rs s := by
  refine h.mono (I := fun s => ∃ lay, Good s lay) ?_
    fun _ _ hrun => (good_of_run hrun).1
  rintro s r s' ⟨lay, hgood⟩ hstep
  obtain ⟨lay', hgood'⟩ := hgood.step hstep.valid hstep.processed
    fun hnew _ => Incoming.slotFree_swept (i := s.incoming r)
      (hstep.free hnew)
  exact ⟨hstep.valid, hstep.processed, hgood'.ok.slots⟩

/-- A valid request at a free slot is processed, or a pool is exhausted. -/
theorem Good.progress {s : MatchingEngineOrderBook} {lay : Layout}
    {r : MatchingEngineClientRequest} (h : Good s lay) (hv : Valid r)
    (hfree : r.type = .new → SlotFree s.book r.price) :
    (∃ s', Processed s r s')
      ∨ ∃ s', (processClientRequest r).run s = .error .poolOutOfSpace s' := by
  unfold Processed
  rcases hv.type with hnew | hcancel
  · rw [run_new hv hnew]
    rcases add_spec (s.incoming r) h.stored rfl hv.range
        (fun _ => Incoming.slotFree_swept (i := s.incoming r) (hfree hnew)) with
      ⟨s', lay', hrun, -⟩ | ⟨hfull, -⟩
    · exact Or.inl ⟨s', hrun⟩
    · exact Or.inr hfull
  · rw [run_cancel hcancel]
    rcases cancel_spec h.stored r.tickerId hv.range with
      ⟨-, hrun⟩ | ⟨-, s', -, -, -, hrun, -⟩
    · exact Or.inl ⟨_, hrun⟩
    · exact Or.inl ⟨s', hrun⟩

/-- The representation invariant holds along every run of fewer than 2^64
NEW requests, and nothing but an exhausted pool stops the next one. -/
theorem wellFormed_of_run {rs : List MatchingEngineClientRequest}
    {s : MatchingEngineOrderBook} (h : Run FreeStep new rs s)
    (hcount : newCount rs < 2 ^ 64) :
    WellFormed s
      ∧ ∀ r, Valid r → (r.type = .new → SlotFree s.book r.price) →
        (∃ s', Processed s r s')
          ∨ ∃ s', (processClientRequest r).run s
            = .error .poolOutOfSpace s' := by
  obtain ⟨⟨lay, hgood⟩, htimely⟩ := good_of_run h
  refine ⟨hgood.wellFormed fun b => (htimely hcount b).1, ?_⟩
  intro r hv hfree
  exact hgood.progress hv hfree

-- =============================================================== the wrap

/-- The two client order ids in turn. -/
def turn (n : Nat) : OrderID := if n % 2 = 0 then 0 else 1

theorem turn_succ_ne (n : Nat) : turn n ≠ turn (n + 1) := by
  unfold turn
  have h : n % 2 = 0 ∧ (n + 1) % 2 = 1 ∨ n % 2 = 1 ∧ (n + 1) % 2 = 0 := by
    omega
  rcases h with ⟨h, h'⟩ | ⟨h, h'⟩ <;> rw [h, h'] <;> decide

/-- The `n`-th NEW: one lot at price 0. -/
def churnNew (n : Nat) : MatchingEngineClientRequest where
  type := .new
  clientId := 0
  tickerId := 0
  orderId := turn n
  side := .buy
  price := 0
  quantity := 1

/-- The CANCEL of the `n`-th NEW. -/
def churnCancel (n : Nat) : MatchingEngineClientRequest where
  type := .cancel
  clientId := 0
  tickerId := 0
  orderId := turn n

/-- `n` times: a NEW, then the CANCEL of the NEW before it. -/
def churn : Nat → List MatchingEngineClientRequest
  | 0 => [churnNew 0]
  | n + 1 => churn n ++ [churnNew (n + 1)] ++ [churnCancel n]

theorem turn_inRange (n : Nat) : inRange 0 (turn n) = true := by
  unfold turn
  split <;> decide

theorem churnNew_valid (n : Nat) : Valid (churnNew n) where
  type := Or.inl rfl
  side := fun _ => Or.inl rfl
  range := turn_inRange n

theorem churnCancel_valid (n : Nat) : Valid (churnCancel n) where
  type := Or.inr rfl
  side := fun h => by cases h
  range := turn_inRange n

/-- The `n`-th order alone in the book. -/
structure Churned (n : Nat) (s : MatchingEngineOrderBook)
    (r : Resting OrderIds) : Prop where
  good : ∃ lay, Good s lay
  bids : s.book true = [r]
  asks : s.book false = []
  price : r.price = 0
  owner : r.key.clientId = 0 ∧ r.key.clientOrderId = turn n
  index : s.cidOidToOrder 0 (turn n) ≠ none

/-- A NEW at price 0, when at most one order rests and does so at price 0,
comes to rest behind it. -/
theorem churn_new {n : Nat} {s : MatchingEngineOrderBook} {lay : Layout}
    (h : Good s lay) (hasks : s.book false = [])
    (hprice : ∀ r ∈ s.book true, r.price = 0)
    (hlen : (s.book true).length ≤ 1)
    (hroom : s.book true = [] → (levelsOf (s.book true)).length = 0) :
    ∃ s' r, FreeStep s (churnNew n) s' ∧ (∃ lay', Good s' lay')
      ∧ s'.book true = s.book true ++ [r] ∧ s'.book false = []
      ∧ r.price = 0 ∧ r.key.clientId = 0 ∧ r.key.clientOrderId = turn n
      ∧ r.key.marketOrderId = s.nextMarketOrderId
      ∧ r.priority = nextPriority (s.book true) 0
      ∧ s'.cidOidToOrder 0 (turn n) ≠ none
      ∧ ∀ m, turn n ≠ turn m →
        s'.cidOidToOrder 0 (turn m) = s.cidOidToOrder 0 (turn m) := by
  obtain ⟨i, hi⟩ : ∃ i, i = s.incoming (churnNew n) := ⟨_, rfl⟩
  -- nothing to trade with
  have hswept : i.swept s.book = ⟨[], [], 1⟩ := by
    rw [hi]
    show sweep true 0 1 (s.book false) = _
    rw [hasks]
    rfl
  have hfree : SlotFree s.book (churnNew n).price := by
    intro b r hr _
    cases b with
    | false =>
        rw [hasks] at hr
        cases hr
    | true => exact hprice r hr
  have hsb : ∀ b, i.sweptBook s.book b = s.book b := by
    intro b
    unfold Incoming.sweptBook
    split
    · rfl
    · next hb =>
        have hb' : b = false := by
          rw [hi] at hb
          exact Bool.eq_false_of_not_eq_true hb
        rw [hswept, hb', hasks]
  have hremainder : (i.remainder s.book).price = 0 := by
    rw [hi]
    rfl
  rcases add_spec i h.stored (by rw [hi]; rfl)
      (by rw [hi]; exact turn_inRange n)
      (fun _ => by rw [hi]; exact Incoming.slotFree_swept hfree) with
    ⟨s', lay', hrun, hafter⟩ | ⟨-, -, hfull⟩
  · have hproc : Processed s (churnNew n) s' := by
      unfold Processed
      rw [run_new (churnNew_valid n) rfl, ← hi]
      exact hrun
    have hbids : s'.book true
        = place true (i.remainder s.book) (s.book true) := by
      rw [hafter.book]
      unfold Incoming.apply
      rw [if_pos ⟨by rw [hi]; rfl, by rw [hswept]; decide⟩]
    refine ⟨s', i.remainder s.book, ⟨churnNew_valid n, fun _ => hfree, hproc⟩,
      ?_, ?_, ?_, hremainder, by rw [hi]; rfl, by rw [hi]; rfl,
      by rw [hi]; rfl, ?_, ?_, ?_⟩
    · refine ⟨lay', hafter.stored, ?_⟩
      rw [hafter.book]
      exact Incoming.ok_apply h.ok fun _ => by
        rw [hi]
        exact Incoming.slotFree_swept hfree
    · rw [hbids, ← List.append_nil (s.book true)]
      rw [place_append (m := []) _ (by simp), List.append_nil]
      intro q hq hb
      rw [hremainder, hprice q hq] at hb
      exact hb.ne rfl
    · rw [hafter.book]
      unfold Incoming.apply
      rw [if_neg (by rw [hi]; exact fun hb => Bool.noConfusion hb.1), hsb,
        hasks]
    · rw [hi]
      rfl
    · have hrested := hafter.rested (by rw [hswept]; decide)
      rw [hi] at hrested
      exact hrested
    · intro m hm
      rw [hafter.index 0 (turn m) (Or.inr fun hids => ?_), if_neg]
      · intro h
        obtain ⟨t, ht, -⟩ := h
        rw [hswept] at ht
        cases ht
      · rw [hi] at hids
        exact hm hids.2
  · -- there is room
    exfalso
    rcases hfull with hfull | ⟨hfull, hnew⟩
    · rw [hsb, hsb, hasks] at hfull
      have hle : (s.book true).length + ([] : List (Resting OrderIds)).length
          + 1 ≤ 2 := by
        rw [List.length_nil]
        omega
      have h2 := hfull.trans hle
      revert h2
      decide
    · cases hbook : s.book true with
      | nil =>
          rw [hsb, hsb, hasks, hroom hbook] at hfull
          revert hfull
          decide
      | cons r l =>
          have hr : r ∈ s.book true := by
            rw [hbook]
            exact List.mem_cons_self ..
          refine hnew true r (by rw [hsb]; exact hr) ?_
          rw [hprice r hr, hi]
          rfl

/-- The next NEW and the CANCEL of the one before leave the next order
alone, one priority on. -/
theorem Churned.next {n : Nat} {s : MatchingEngineOrderBook}
    {r : Resting OrderIds} (h : Churned n s r) :
    ∃ s₁ s₂ r', FreeStep s (churnNew (n + 1)) s₁
      ∧ s₁.book true = [r, r'] ∧ (∃ lay, Good s₁ lay)
      ∧ FreeStep s₁ (churnCancel n) s₂ ∧ Churned (n + 1) s₂ r'
      ∧ r'.price = 0 ∧ r'.priority = r.priority + 1 := by
  obtain ⟨lay, hgood⟩ := h.good
  obtain ⟨s₁, r', hstep₁, ⟨lay₁, hgood₁⟩, hbids₁, hasks₁, hprice, hclient,
    horder, -, hprio, hindex, hother⟩ := churn_new (n := n + 1) hgood h.asks
    (by rw [h.bids]; simpa using h.price) (by rw [h.bids]; simp)
    (by rw [h.bids]; simp)
  have hne := turn_succ_ne n
  have hbids : s₁.book true = [r, r'] := by rw [hbids₁, h.bids]; rfl
  have hprio' : r'.priority = r.priority + 1 := by
    rw [hprio, h.bids]
    unfold nextPriority
    simp [h.price]
  rcases cancel_spec hgood₁.stored 0 (turn_inRange n) with
    ⟨hnone, -⟩ | ⟨-, s₂, lay₂, b, x, hrun, hafter⟩
  · rw [hother n (Ne.symm hne)] at hnone
    exact absurd hnone h.index
  · have hb : b = true := by
      cases b with
      | true => rfl
      | false =>
          obtain ⟨l, m, hsplit, -⟩ := hafter.book
          rw [hasks₁] at hsplit
          simp at hsplit
    subst hb
    -- the ids tell which of the two orders goes
    have hbook₂ : s₂.book true = [r'] := by
      obtain ⟨l, m, hsplit, hbook⟩ := hafter.book
      rw [hbids] at hsplit
      cases l with
      | nil =>
          cases hsplit
          exact hbook
      | cons y l =>
          exfalso
          rw [List.cons_append] at hsplit
          obtain ⟨-, hsplit⟩ := List.cons_eq_cons.1 hsplit
          have hx : x ∈ [r'] := by
            rw [hsplit]
            simp
          rw [List.mem_singleton.1 hx] at hafter
          exact hne (hafter.owned.2.symm.trans horder)
    have hproc : Processed s₁ (churnCancel n) s₂ := by
      unfold Processed
      rw [run_cancel rfl]
      exact hrun
    refine ⟨s₁, s₂, r', hstep₁, hbids, ⟨lay₁, hgood₁⟩,
      ⟨churnCancel_valid n, nofun, hproc⟩, ?_, hprice,
      hprio'⟩
    exact
      { good := hgood₁.step (churnCancel_valid n) hproc
          nofun
        bids := hbook₂
        asks := by rw [hafter.other false (by decide), hasks₁]
        price := hprice
        owner := ⟨hclient, horder⟩
        index := by
          rw [hafter.index, if_neg fun hids => hne hids.2]
          exact hindex }

/-- After `churn n` the book holds one order, of priority `n + 1`. -/
theorem churned (n : Nat) : ∃ s r, Run FreeStep new (churn n) s
    ∧ Churned n s r ∧ r.priority = UInt64.ofNat (n + 1) := by
  induction n with
  | zero =>
      obtain ⟨s, r, hstep, hgood, hbids, hasks, hprice, hclient, horder, -,
        hprio, hindex, -⟩ := churn_new (n := 0) good_new (by rw [book_new])
        (by rw [book_new]; simp) (by rw [book_new]; simp)
        (by rw [book_new]; intro _; rfl)
      rw [book_new] at hbids hprio
      exact ⟨s, r, Run.nil.snoc hstep,
        ⟨hgood, hbids, hasks, hprice, ⟨hclient, horder⟩, hindex⟩, hprio⟩
  | succ n ih =>
      obtain ⟨s, r, hrun, hchurned, hprio⟩ := ih
      obtain ⟨s₁, s₂, r', hstep₁, -, -, hstep₂, hchurned', -, hprio'⟩ :=
        hchurned.next
      refine ⟨s₂, r', (hrun.snoc hstep₁).snoc hstep₂, hchurned', ?_⟩
      rw [hprio', hprio]
      exact (UInt64.ofNat_add (n + 1) 1).symm

/-- The invariant after a NEW, a second NEW and the CANCEL of the first. -/
theorem wellFormed_churn_one : ∃ s, Run FreeStep new (churn 1) s
    ∧ newCount (churn 1) < 2 ^ 64 ∧ WellFormed s
    ∧ ((∃ s', Processed s (churnCancel 1) s')
      ∨ ∃ s', (processClientRequest (churnCancel 1)).run s
        = .error .poolOutOfSpace s') := by
  obtain ⟨s, -, hrun, -⟩ := churned 1
  obtain ⟨hwell, hnext⟩ := wellFormed_of_run hrun (by decide)
  exact ⟨s, hrun, by decide, hwell, hnext _ (churnCancel_valid 1) nofun⟩

/-- With 2^64 NEW requests a priority can wrap: the second order of a
level has priority 0. -/
theorem not_wellFormed_of_churn :
    ¬ ∀ rs s, Run FreeStep new rs s → WellFormed s := by
  intro hall
  obtain ⟨s, r, hrun, hchurned, hprio⟩ := churned (2 ^ 64 - 2)
  obtain ⟨s₁, s₂, r', hstep₁, hbids, ⟨lay, hgood⟩, -, -, hprice, hprio'⟩ :=
    hchurned.next
  have hfifo := (hall _ _ (hrun.snoc hstep₁)).fifo_book hgood.stored true
  rw [hbids] at hfifo
  have hlt := (List.pairwise_cons.1 hfifo).1 r' (List.mem_singleton_self r')
    (hchurned.price.trans hprice.symm)
  rw [hprio', hprio] at hlt
  revert hlt
  decide

-- ========================================================= the last level

/-- A pool of `n` blocks ends the process when `n - 1` elements are
allocated: the error comes with `n` allocated only where it does not come
at all. So no slot of a book is the last one to be filled. -/
theorem runsOut_iff_of_run {α : Type} {n : Nat} {object : α}
    {cs : List (PoolCall α)} {s : Loans α} (hn : 0 < n)
    (h : Run Loans.Called (.new n object) cs s) (arg : α) :
    ((∃ e m, (MemPool.allocate arg).run s.pool = .error e m)
        ↔ s.held.length + 1 = n)
      ∧ (((∃ e m, (MemPool.allocate arg).run s.pool = .error e m)
          → s.held.length = n)
        ↔ s.held.length + 1 < n)
      ∧ ∀ (rs : List MatchingEngineClientRequest)
          (book : MatchingEngineOrderBook), Run CleanStep new rs book →
        (levelsOf (book.book true)).length
          + (levelsOf (book.book false)).length
            < matchingEngineMaxPriceLevels := by
  obtain ⟨hiff, hclaim⟩ := Loans.runsOut_of_run hn h arg
  refine ⟨hiff, hclaim, fun rs book hrun => ?_⟩
  obtain ⟨lay, hgood⟩ := good_of_cleanRun hrun
  exact hgood.stored.booked.lengths.2

/-- Two bids at one price and one at another. -/
def threeBids : List MatchingEngineClientRequest :=
  [⟨.new, 0, 0, 0, .buy, 100, 10⟩, ⟨.new, 1, 0, 5, .buy, 100, 7⟩,
    ⟨.new, 0, 0, 1, .buy, 99, 4⟩]

theorem run_threeBids : ∃ s, Run CleanStep new threeBids s
    ∧ s.cidOidToOrder 0 0 ≠ none ∧ s.cidOidToOrder 1 3 = none
    ∧ (levelsOf (s.book true)).length = 2
    ∧ (levelsOf (s.book false)).length = 0 :=
  exists_cleanRun _ _ (by decide +kernel)

/-- With three of four blocks held the process ends; a book of two levels has
room. -/
theorem runsOut_iff_of_run_around :
    (∃ s : Loans Nat, Run Loans.Called (.new 4 0) Loans.around s
      ∧ s.held.length + 1 = 4
      ∧ (∃ e m, (MemPool.allocate 9).run s.pool = .error e m)
      ∧ ¬ ((∃ e m, (MemPool.allocate 9).run s.pool = .error e m)
        → s.held.length = 4))
      ∧ ∃ book, Run CleanStep new threeBids book
        ∧ (levelsOf (book.book true)).length
          + (levelsOf (book.book false)).length = 2
        ∧ (levelsOf (book.book true)).length
          + (levelsOf (book.book false)).length
            < matchingEngineMaxPriceLevels := by
  obtain ⟨s, hcalled, hheld, -⟩ := Loans.run_around
  obtain ⟨book, hrun, -, -, hbids, hasks⟩ := run_threeBids
  obtain ⟨hruns, hclaim, hlevels⟩ :=
    runsOut_iff_of_run (by decide) hcalled 9
  have hlast : s.held.length + 1 = 4 := by
    rw [hheld]
    rfl
  refine ⟨⟨s, hcalled, hlast, hruns.2 hlast, fun h => ?_⟩,
    book, hrun, by rw [hbids, hasks], hlevels _ book hrun⟩
  have hlt := hclaim.1 h
  omega

/-- A pool built for one element holds none. -/
theorem runsOut_new_one : ¬ ∀ (n : Nat) (cs : List (PoolCall Nat))
    (s : Loans Nat), 0 < n → Run Loans.Called (.new n 0) cs s →
      (∃ e m, (MemPool.allocate 0).run s.pool = .error e m) →
        s.held.length = n := by
  intro hall
  have hheld := hall 1 [] _ Nat.one_pos .nil
    ⟨.poolOutOfSpace, (MemPool.new 1 0).put 0 ⟨0, false⟩, rfl⟩
  cases hheld

end MatchingEngineOrderBook

end ElectronicTrading
