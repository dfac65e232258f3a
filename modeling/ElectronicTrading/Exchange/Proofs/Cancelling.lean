/-
What a CANCEL changes, and what it does not.

The index names an order or it does not. If not, one response is sent
and the book stays. If it does, that order leaves its level's queue; the
level goes with its last order; everything else a reader of the memory
sees, on both sides, is as it was (`CancelFrame`). Both are read off the
order lists: removing one order from its run leaves the other runs
(`IsRuns.remove`), and the levels a reader sees are the runs
(`Booked.levelViews_eq`).
-/
import ElectronicTrading.Exchange.Proofs.Representation

namespace ElectronicTrading

open Ladder Reference PriceTime Runs

namespace MatchingEngineOrderBook

/-- `s'` is `s` without the order `r` of side `b`, which is the client's
order `orderId`. -/
structure CancelFrame (clientId : ClientID) (orderId : OrderID) (b : Bool)
    (r : Resting OrderIds) (s s' : MatchingEngineOrderBook) : Prop where
  owned : r.key.clientId = clientId ∧ r.key.clientOrderId = orderId
  /-- The order's level loses it and nothing else, or goes when it was
  alone; the side's other levels stay as they are and where they are. -/
  levels : ∃ before x y after,
    s.ladder.levelViews b
        = before ++ ⟨sideOf b, r.price, x ++ r :: y⟩ :: after
      ∧ s'.ladder.levelViews b
        = before ++ (if x ++ y = [] then []
          else [⟨sideOf b, r.price, x ++ y⟩]) ++ after
  /-- There is no level of its price left if and only if it was the only
  order there. -/
  gone : (∀ v ∈ s'.ladder.levelViews b, v.price ≠ r.price)
    ↔ (⟨sideOf b, r.price, [r]⟩ : LevelView OrderIds)
      ∈ s.ladder.levelViews b
  other : s'.ladder.levelViews (!b) = s.ladder.levelViews (!b)
  index : ∀ c oid, s'.cidOidToOrder c oid
    = if clientId = c ∧ orderId = oid then none else s.cidOidToOrder c oid
  nextId : s'.nextMarketOrderId = s.nextMarketOrderId

variable {s s' : MatchingEngineOrderBook} {lay lay' : Layout}

/-- The levels of a side have different prices. -/
theorem Stored.prices_distinct (h : Stored s lay) (b : Bool) :
    (s.ladder.levelViews b).Pairwise fun v w => v.price ≠ w.price := by
  rw [h.booked.laid.levelViews_eq, List.pairwise_map]
  exact (h.booked.laid.levels.sorted b).imp fun hbetter => hbetter.ne

/-- The levels of a side before and after one of its orders is taken
out. -/
theorem Stored.levelViews_erase (h : Stored s lay) (h' : Stored s' lay')
    {b : Bool} {o : Ptr} (ho : o ∈ lay.orders b)
    (horders : lay'.orders b = (lay.orders b).erase o)
    (hrest : s'.ladder.resting = s.ladder.resting) :
    ∃ before x y after,
      s.ladder.levelViews b = before ++ ⟨sideOf b,
          (s.ladder.resting o).price, x ++ s.ladder.resting o :: y⟩ :: after
        ∧ s'.ladder.levelViews b
          = before ++ (if x ++ y = [] then []
            else [⟨sideOf b, (s.ladder.resting o).price, x ++ y⟩])
              ++ after := by
  obtain ⟨p, hp, hop⟩ := mem_orders ho
  obtain ⟨A, B, hlevels⟩ := List.append_of_mem hp
  obtain ⟨q₁, q₂, hqueue⟩ := List.append_of_mem hop
  have hruns := h.booked.isRuns b
  have hruns_eq : ∀ ps : List Ptr, (ps.flatMap lay.queue).map s.ladder.resting
      = (ps.map fun p => (lay.queue p).map s.ladder.resting).flatten := by
    intro ps
    rw [List.map_flatMap, List.flatMap_def]
  have hlist : s.book b
      = ((lay.levels b).map fun p => (lay.queue p).map s.ladder.resting
        ).flatten := by
    rw [h.book_eq]
    exact hruns_eq (lay.levels b)
  have hflat := hruns.levelsOf_flatten
  rw [← hlist] at hflat
  rw [hlevels, List.map_append, List.map_cons, hqueue, List.map_append,
    List.map_cons] at hruns hflat
  -- the list without the order
  have hlist' : s'.book b
      = (A.map fun p => (lay.queue p).map s.ladder.resting).flatten
        ++ (q₁.map s.ladder.resting ++ q₂.map s.ladder.resting)
        ++ (B.map fun p => (lay.queue p).map s.ladder.resting).flatten := by
    have hnd := h.booked.laid.orders_nodup b
    unfold Layout.orders at horders hnd
    rw [hlevels, List.flatMap_append, List.flatMap_cons, hqueue] at horders hnd
    rw [show A.flatMap lay.queue ++ (q₁ ++ o :: q₂ ++ B.flatMap lay.queue)
        = (A.flatMap lay.queue ++ q₁) ++ o :: (q₂ ++ B.flatMap lay.queue)
      by simp] at horders hnd
    rw [List.nodup_middle, List.nodup_cons, List.mem_append, not_or] at hnd
    rw [h'.book_eq]
    unfold Layout.orders
    rw [horders, hrest, List.erase_append_right _ hnd.1.1,
      List.erase_cons_head]
    simp only [List.map_append, hruns_eq, List.append_assoc]
  have hflat' := hruns.remove
  rw [← hlist'] at hflat'
  -- the orders of the level are of one price
  have hprice : ∀ q ∈ q₁.map s.ladder.resting
      ++ s.ladder.resting o :: q₂.map s.ladder.resting,
      q.price = (s.ladder.resting o).price := fun q hq =>
    hruns.one _ (List.mem_append_right _ (List.mem_cons_self ..)) q hq _
      (List.mem_append_right _ (List.mem_cons_self ..))
  refine ⟨(A.map fun p => (lay.queue p).map s.ladder.resting).map
      (levelOfRun b), q₁.map s.ladder.resting, q₂.map s.ladder.resting,
    (B.map fun p => (lay.queue p).map s.ladder.resting).map (levelOfRun b),
    ?_, ?_⟩
  · rw [h.booked.levelViews_eq]
    rw [show s.ladder.restingOrders b = s.book b from rfl, hflat,
      List.map_append, List.map_cons,
      levelOfRun_eq b (by simp) hprice]
  · rw [h'.booked.levelViews_eq]
    rw [show s'.ladder.restingOrders b = s'.book b from rfl, hflat',
      List.map_append, List.map_append]
    by_cases hlast :
        q₁.map s.ladder.resting ++ q₂.map s.ladder.resting = []
    · rw [if_pos hlast, if_pos hlast, List.map_nil]
    · rw [if_neg hlast, if_neg hlast, List.map_singleton,
        levelOfRun_eq b hlast fun q hq => hprice q
          (((List.Sublist.refl _).append
            (List.sublist_cons_self _ _)).subset hq)]

/-- When a level's price is its own, the level goes exactly with its only
order. -/
theorem gone_iff {before after : List (LevelView OrderIds)} {b : Bool}
    {r : Resting OrderIds} {x y : List (Resting OrderIds)}
    (hdistinct : (before ++ ⟨sideOf b, r.price, x ++ r :: y⟩ :: after
      ).Pairwise fun v w => v.price ≠ w.price) :
    (∀ v ∈ before ++ (if x ++ y = [] then []
        else [(⟨sideOf b, r.price, x ++ y⟩ : LevelView OrderIds)]) ++ after,
      v.price ≠ r.price)
      ↔ (⟨sideOf b, r.price, [r]⟩ : LevelView OrderIds)
        ∈ before ++ ⟨sideOf b, r.price, x ++ r :: y⟩ :: after := by
  obtain ⟨-, hrest, hcross⟩ := List.pairwise_append.1 hdistinct
  obtain ⟨hown, -⟩ := List.pairwise_cons.1 hrest
  have hbefore : ∀ v ∈ before, v.price ≠ r.price := fun v hv =>
    hcross v hv _ (List.mem_cons_self ..)
  have hafter : ∀ v ∈ after, v.price ≠ r.price := fun v hv =>
    (hown v hv).symm
  constructor
  · intro hnone
    by_cases hlast : x ++ y = []
    · obtain ⟨rfl, rfl⟩ := List.append_eq_nil_iff.1 hlast
      exact List.mem_append_right _ (List.mem_cons_self ..)
    · rw [if_neg hlast] at hnone
      refine absurd rfl (hnone ⟨sideOf b, r.price, x ++ y⟩ ?_)
      simp
  · intro hmem v hv
    have hlast : x ++ y = [] := by
      rcases List.mem_append.1 hmem with hin | hin
      · exact absurd rfl (hbefore _ hin)
      · rcases List.mem_cons.1 hin with heq | hin
        · have hlength := congrArg (fun v => v.orders.length) heq
          simp only [List.length_append, List.length_cons, List.length_nil]
            at hlength
          exact List.eq_nil_of_length_eq_zero (by
            rw [List.length_append]
            omega)
        · exact absurd rfl (hafter _ hin)
    rw [if_pos hlast, List.append_nil] at hv
    rcases List.mem_append.1 hv with hv | hv
    · exact hbefore v hv
    · exact hafter v hv

/-- A CANCEL with ids in range, in any book that clean steps lead to:
without an order it sends one rejection and changes nothing; with one it
sends the update and the response of that order and takes it out. -/
theorem cancel_of_cleanRun {rs : List MatchingEngineClientRequest}
    (hrun : Run CleanStep new rs s) {clientId : ClientID} {orderId : OrderID}
    (tickerId : TickerID) (hrange : inRange clientId orderId = true) :
    (s.cidOidToOrder clientId orderId = none →
      (cancel clientId orderId tickerId).run s = .ok () { s with
        sent := s.sent
          ++ [.response (cancelRejected clientId orderId tickerId)] })
    ∧ ∀ o, s.cidOidToOrder clientId orderId = some o →
      ∃ s' b, (cancel clientId orderId tickerId).run s = .ok () s'
        ∧ s'.sent = s.sent
          ++ [.update (cancelUpdate tickerId (s.ladder.resting o)),
            .response (cancelled clientId orderId tickerId
              (s.ladder.resting o))]
        ∧ CancelFrame clientId orderId b (s.ladder.resting o) s s' := by
  obtain ⟨lay, hgood⟩ := good_of_cleanRun hrun
  refine ⟨cancel_none tickerId hrange, fun o hentry => ?_⟩
  obtain ⟨s', lay', b, ho, horders, hrest, hcancel, hafter⟩ :=
    cancel_some hgood.stored tickerId hrange hentry
  obtain ⟨before, x, y, after, hviews, hviews'⟩ :=
    hgood.stored.levelViews_erase hafter.stored ho horders hrest
  refine ⟨s', b, hcancel, hafter.sent, ?_⟩
  exact
    { owned := hafter.owned
      levels := ⟨before, x, y, after, hviews, hviews'⟩
      gone := by
        have hdistinct := hgood.stored.prices_distinct b
        rw [hviews] at hdistinct
        rw [hviews, hviews']
        exact gone_iff hdistinct
      other := by
        have hbook : s'.ladder.restingOrders (!b)
            = s.ladder.restingOrders (!b) :=
          hafter.other (!b) (by cases b <;> decide)
        rw [hafter.stored.booked.levelViews_eq,
          hgood.stored.booked.levelViews_eq, hbook]
      index := hafter.index
      nextId := hafter.nextId }

/-- The first of three bids cancelled, and a bid that is not there. -/
theorem cancel_of_threeBids : ∃ s, Run CleanStep new threeBids s
    ∧ (∃ o s' b, s.cidOidToOrder 0 0 = some o
      ∧ (cancel 0 0 0).run s = .ok () s'
      ∧ s'.sent = s.sent ++ [.update (cancelUpdate 0 (s.ladder.resting o)),
        .response (cancelled 0 0 0 (s.ladder.resting o))]
      ∧ CancelFrame 0 0 b (s.ladder.resting o) s s')
    ∧ (cancel 1 3 0).run s = .ok ()
      { s with sent := s.sent ++ [.response (cancelRejected 1 3 0)] } := by
  obtain ⟨s, hrun, hfirst, hnone, -⟩ := run_threeBids
  obtain ⟨o, ho⟩ := Option.ne_none_iff_exists'.1 hfirst
  have hthere : inRange 0 0 = true := by decide
  have hmissing : inRange 1 3 = true := by decide
  obtain ⟨-, hsome⟩ := cancel_of_cleanRun hrun 0 hthere
  obtain ⟨hreject, -⟩ := cancel_of_cleanRun hrun 0 hmissing
  obtain ⟨s', b, hcancel, hsent, hframe⟩ := hsome o ho
  exact ⟨s, hrun, ⟨o, s', b, ho, hcancel, hsent, hframe⟩, hreject hnone⟩

end MatchingEngineOrderBook

end ElectronicTrading
