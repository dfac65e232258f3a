/-
Trading, function by function, on the book's order lists: `removeOrder`,
`match` and `checkForMatch`.

`Stored` is the invariant between calls that needs nothing about
quantities: the ladder is booked, every index entry is a queued order
under its own ids, and the ids of every queued order are in the index's
range. Each function gets one specification that says what it does to
the order lists, the orders' data, the index and the messages sent.

# The loop

`checkForMatch` reads the head of a list that `match` changes and frees
under it. On the order lists there is nothing to be afraid of: a round
that goes on has erased the first order (`AfterFill.orders`), so the
loop is the recursion of `sweep`, by induction on the list
(`matchWhile_spec`), and its rounds are bounded by the list's length.
-/
import ElectronicTrading.Common.Proofs.Lists
import ElectronicTrading.Exchange.Reference

namespace ElectronicTrading

namespace MatchingEngineOrderBook

open Ladder Reference PriceTime

-- ============================================================ the ladder

theorem run_onLadder_ok {α : Type} {x : Prog (Ladder OrderIds) α}
    {s : MatchingEngineOrderBook} {a : α} {l : Ladder OrderIds}
    (h : x.run s.ladder = .ok a l) :
    (onLadder x).run s = .ok a { s with ladder := l } := Exec.run_zoom_ok h

theorem run_onLadder_error {α : Type} {x : Prog (Ladder OrderIds) α}
    {s : MatchingEngineOrderBook} {e : Fault} {l : Ladder OrderIds}
    (h : x.run s.ladder = .error e l) :
    (onLadder x).run s = .error e { s with ladder := l } :=
  Exec.run_zoom_error h

@[simp] theorem run_onLadder_readOrder (s : MatchingEngineOrderBook)
    (p : Ptr) :
    (onLadder (readOrder (some p))).run s = .ok (s.ladder.order p) s := rfl

@[simp] theorem run_onLadder_readLevel (s : MatchingEngineOrderBook)
    (p : Ptr) :
    (onLadder (readLevel (some p))).run s = .ok (s.ladder.level p) s := rfl

@[simp] theorem run_onLadder_setQuantity (s : MatchingEngineOrderBook)
    (p : Ptr) (q : Quantity) :
    (onLadder (writeOrder (.setQuantity q) (some p))).run s
      = .ok () { s with ladder := s.ladder.putOrder p (.setQuantity q) } :=
  rfl

@[simp] theorem run_sendClientResponse (s : MatchingEngineOrderBook)
    (r : MatchingEngineClientResponse) :
    (sendClientResponse r).run s
      = .ok () { s with sent := s.sent ++ [.response r] } := rfl

@[simp] theorem run_sendMarketUpdate (s : MatchingEngineOrderBook)
    (u : MatchingEngineMarketUpdate) :
    (sendMarketUpdate u).run s
      = .ok () { s with sent := s.sent ++ [.update u] } := rfl

-- ========================================================= the invariant

/-- The client's ids of the order at `p`. -/
def OwnedBy (s : MatchingEngineOrderBook) (p : Ptr) (c : ClientID)
    (oid : OrderID) : Prop :=
  (s.ladder.resting p).key.clientId = c
    ∧ (s.ladder.resting p).key.clientOrderId = oid

instance (s : MatchingEngineOrderBook) (p : Ptr) (c : ClientID)
    (oid : OrderID) : Decidable (s.OwnedBy p c oid) := by
  unfold OwnedBy
  infer_instance

structure Stored (s : MatchingEngineOrderBook) (lay : Layout) : Prop where
  booked : Booked s.ladder lay none
  index : ∀ c oid p, s.cidOidToOrder c oid = some p →
    lay.HasOrder p ∧ s.OwnedBy p c oid
  ranges : ∀ p, lay.HasOrder p →
    inRange (s.ladder.resting p).key.clientId
      (s.ladder.resting p).key.clientOrderId = true

/-- The order lists, as a reader sees them. -/
def book (s : MatchingEngineOrderBook) : Reference.Book :=
  s.ladder.restingOrders

theorem Stored.book_eq {s : MatchingEngineOrderBook} {lay : Layout}
    (h : Stored s lay) (b : Bool) :
    s.book b = (lay.orders b).map s.ladder.resting :=
  h.booked.laid.restingOrders_eq b

/-- The invariant is about the ladder and the index. -/
theorem Stored.congr {s s' : MatchingEngineOrderBook} {lay : Layout}
    (h : Stored s lay) (hladder : s'.ladder = s.ladder)
    (hindex : s'.cidOidToOrder = s.cidOidToOrder) : Stored s' lay where
  booked := by rw [hladder]; exact h.booked
  index := fun c oid p hp => by
    unfold OwnedBy
    rw [hladder]
    rw [hindex] at hp
    exact h.index c oid p hp
  ranges := by rw [hladder]; exact h.ranges

theorem stored_new : Stored new .empty where
  booked := ⟨laid_new _, fun p o ho => by cases ho⟩
  index := fun c oid p hp => by cases hp
  ranges := fun p hp => by
    obtain ⟨q, hq⟩ := hp
    cases hq

-- ============================================================ removeOrder

/-- `removeOrder` takes the order out of its list and clears the index
at the order's ids. -/
theorem removeOrder_spec {s : MatchingEngineOrderBook} {lay : Layout}
    {b : Bool} {o : Ptr} (h : Stored s lay) (ho : o ∈ lay.orders b) :
    ∃ s' lay', (removeOrder (some o)).run s = .ok () s' ∧ Stored s' lay'
      ∧ s'.ladder.resting = s.ladder.resting
      ∧ lay'.orders b = (lay.orders b).erase o
      ∧ (∀ c, c ≠ b → lay'.orders c = lay.orders c)
      ∧ (∀ c oid, s'.cidOidToOrder c oid
          = if s.OwnedBy o c oid then none else s.cidOidToOrder c oid)
      ∧ s'.nextMarketOrderId = s.nextMarketOrderId ∧ s'.sent = s.sent := by
  obtain ⟨l₁, l₂, lay', hunlink, hrest₁, hdealloc, hb₂, hrest, horders, hother,
    hmem⟩ := takeOrder_spec h.booked ho
  have hrange := h.ranges o ((h.booked.laid.hasOrder_iff o).2 ⟨b, ho⟩)
  have hkey : (l₁.order o).key = (s.ladder.resting o).key := by
    rw [order_key, hrest₁]
  have hrun : (removeOrder (some o)).run s
      = .ok () { s with
          ladder := l₂
          cidOidToOrder := fun c oid =>
            if c = (s.ladder.resting o).key.clientId
                ∧ oid = (s.ladder.resting o).key.clientOrderId
            then none else s.cidOidToOrder c oid } := by
    unfold removeOrder setClientOrder
    rw [Exec.run_bind_ok (run_onLadder_ok hunlink)]
    simp only [EStateM.run_bind, run_onLadder_readOrder, hkey, run_assert,
      hrange, if_true]
    exact run_onLadder_ok hdealloc
  have hindex : ∀ c oid, (if c = (s.ladder.resting o).key.clientId
      ∧ oid = (s.ladder.resting o).key.clientOrderId
      then none else s.cidOidToOrder c oid)
      = if s.OwnedBy o c oid then none else s.cidOidToOrder c oid := by
    intro c oid
    refine if_congr ?_ rfl rfl
    unfold OwnedBy
    rw [eq_comm, @eq_comm _ oid]
  refine ⟨_, lay', hrun, ?_, hrest, horders, hother, hindex, rfl, rfl⟩
  exact
    { booked := hb₂
      index := fun c oid p hp => by
        change (if _ then none else s.cidOidToOrder c oid) = some p at hp
        rw [hindex] at hp
        split at hp
        · cases hp
        · next hown =>
            obtain ⟨hhas, hids⟩ := h.index c oid p hp
            refine ⟨(hmem p).2 ⟨fun hpo => hown (hpo ▸ hids), hhas⟩, ?_⟩
            unfold OwnedBy
            rw [hrest]
            exact hids
      ranges := fun p hp => by
        rw [hrest]
        exact h.ranges p ((hmem p).1 hp).2 }

-- ============================================================= matchOrder

/-- What one fill of the incoming order `i`, with `leaves` to trade,
against the order at `o` leaves. -/
structure AfterFill (i : Incoming) (leaves : Quantity) (b : Bool) (o : Ptr)
    (s s' : MatchingEngineOrderBook) (lay lay' : Layout) : Prop where
  stored : Stored s' lay'
  sent : s'.sent = s.sent ++ i.fillMessages
    (leaves - min (s.ladder.resting o).quantity leaves)
    ⟨s.ladder.resting o, min (s.ladder.resting o).quantity leaves⟩
  nextId : s'.nextMarketOrderId = s.nextMarketOrderId
  others : ∀ q, q ≠ o → s'.ladder.resting q = s.ladder.resting q
  filled : s'.ladder.resting o = { s.ladder.resting o with
    quantity := (s.ladder.resting o).quantity
      - min (s.ladder.resting o).quantity leaves }
  orders : lay'.orders b
    = if (s.ladder.resting o).quantity
        - min (s.ladder.resting o).quantity leaves = 0
      then (lay.orders b).erase o else lay.orders b
  other : ∀ c, c ≠ b → lay'.orders c = lay.orders c
  index : ∀ c oid, s'.cidOidToOrder c oid
    = if (s.ladder.resting o).quantity
          - min (s.ladder.resting o).quantity leaves = 0 ∧ s.OwnedBy o c oid
      then none else s.cidOidToOrder c oid

/-- Changing a quantity keeps the invariant. -/
theorem Stored.setQuantity {s : MatchingEngineOrderBook} {lay : Layout}
    (h : Stored s lay) (o : Ptr) (n : Quantity) (sent : List Sent) :
    Stored { s with ladder := s.ladder.putOrder o (.setQuantity n)
                    sent := sent } lay := by
  have hkey : ∀ q, ((s.ladder.putOrder o (.setQuantity n)).resting q).key
      = (s.ladder.resting q).key := by
    intro q
    rw [setQuantity_resting]
    split
    · next heq => rw [heq]
    · rfl
  exact
    { booked := setQuantity_spec h.booked o n
      index := fun c oid p hp => by
        obtain ⟨hhas, hids⟩ := h.index c oid p hp
        refine ⟨hhas, ?_⟩
        unfold OwnedBy
        rw [hkey]
        exact hids
      ranges := fun p hp => by
        rw [hkey]
        exact h.ranges p hp }

/-- `match` is one fill. -/
theorem matchOrder_spec {s : MatchingEngineOrderBook} {lay : Layout}
    {b : Bool} {o : Ptr} (i : Incoming) (leaves : Quantity)
    (h : Stored s lay) (ho : o ∈ lay.orders b) :
    ∃ s' lay', (matchOrder i.ids.tickerId i.ids.clientId (sideOf i.isBuy)
        i.ids.clientOrderId i.ids.marketOrderId (some o) leaves).run s
        = .ok (leaves - min (s.ladder.resting o).quantity leaves) s'
      ∧ AfterFill i leaves b o s s' lay lay' := by
  obtain ⟨r, hr⟩ : ∃ r, s.ladder.resting o = r := ⟨_, rfl⟩
  obtain ⟨fill, hfill⟩ : ∃ fill, min r.quantity leaves = fill := ⟨_, rfl⟩
  obtain ⟨l, hl⟩ : ∃ l, l = s.ladder.putOrder o
    (.setQuantity (r.quantity - fill)) := ⟨_, rfl⟩
  have hlo : l.resting o = { r with quantity := r.quantity - fill } := by
    rw [hl, setQuantity_resting, if_pos rfl, hr]
  have hlq : ∀ q, q ≠ o → l.resting q = s.ladder.resting q := fun q hq => by
    rw [hl, setQuantity_resting, if_neg hq]
  by_cases hzero : r.quantity - fill = 0
  · -- the resting order is used up and leaves the book
    obtain ⟨s₁, hs₁⟩ : ∃ s₁, s₁ = { s with
        ladder := l
        sent := s.sent ++ i.fillMessages (leaves - fill) ⟨r, fill⟩ } :=
      ⟨_, rfl⟩
    have hstored : Stored s₁ lay := by
      rw [hs₁, hl]
      exact h.setQuantity o _ _
    obtain ⟨s', lay', hremove, hst, hrest, horders, hother, hindex, hnext,
      hsent⟩ := removeOrder_spec hstored ho
    have hrest' : s'.ladder.resting = l.resting := by
      rw [hrest, hs₁]
    refine ⟨s', lay', ?_, ?_⟩
    · rw [hs₁] at hremove
      simp only [Incoming.fillMessages, Incoming.filled,
        Incoming.restingFilled, Incoming.fillUpdate, hzero, if_true] at hremove
      have hl₀ := hl
      rw [hzero] at hl₀
      rw [hr, hfill]
      unfold matchOrder
      simp [hr, hfill, ← hl₀, hlo, hzero, hremove]
    · exact
        { stored := hst
          sent := by rw [hsent, hs₁, hr, hfill]
          nextId := by rw [hnext, hs₁]
          others := fun q hq => by rw [hrest', hlq q hq]
          filled := by rw [hrest', hlo, hr, hfill]
          orders := by rw [horders, hr, hfill, if_pos hzero]
          other := hother
          index := fun c oid => by
            rw [hindex, hs₁, hr, hfill]
            refine if_congr ?_ rfl rfl
            unfold OwnedBy
            show ((l.resting o).key.clientId = c
              ∧ (l.resting o).key.clientOrderId = oid) ↔ _
            rw [hlo, hr]
            exact ⟨fun hids => ⟨hzero, hids⟩, fun hids => hids.2⟩ }
  · refine ⟨{ s with
        ladder := l
        sent := s.sent ++ i.fillMessages (leaves - fill) ⟨r, fill⟩ }, lay,
      ?_, ?_⟩
    · rw [hr, hfill]
      unfold matchOrder
      simp [hr, hfill, ← hl, hlo, hzero,
        Incoming.fillMessages, Incoming.filled, Incoming.restingFilled,
        Incoming.fillUpdate]
    · exact
        { stored := by
            rw [hl]
            exact h.setQuantity o _ _
          sent := by rw [hr, hfill]
          nextId := rfl
          others := hlq
          filled := by rw [hr, hfill]; exact hlo
          orders := by rw [hr, hfill, if_neg hzero]
          other := fun _ _ => rfl
          index := fun _ _ => by
            rw [hr, hfill, if_neg fun hids => hzero hids.1] }

-- ============================================================== matchWhile

/-- One of the trades uses up an order under these ids. -/
def UsedUp (ts : List (Trade OrderIds)) (c : ClientID) (oid : OrderID) :
    Prop :=
  ∃ t ∈ ts, t.resting.quantity - t.quantity = 0
    ∧ t.resting.key.clientId = c ∧ t.resting.key.clientOrderId = oid

instance (ts : List (Trade OrderIds)) (c : ClientID) (oid : OrderID) :
    Decidable (UsedUp ts c oid) := by
  unfold UsedUp
  infer_instance

/-- What trading the incoming order `i`, with `leaves` to trade, down the
opposite list leaves. -/
structure AfterSweep (i : Incoming) (leaves : Quantity)
    (s s' : MatchingEngineOrderBook) (lay lay' : Layout)
    (sw : Sweep OrderIds) : Prop where
  stored : Stored s' lay'
  sent : s'.sent = s.sent ++ i.sweepMessages leaves sw.trades
  nextId : s'.nextMarketOrderId = s.nextMarketOrderId
  opposite : s'.book (!i.isBuy) = sw.rest
  own : lay'.orders i.isBuy = lay.orders i.isBuy
  ownResting : ∀ q ∈ lay.orders i.isBuy,
    s'.ladder.resting q = s.ladder.resting q
  index : ∀ c oid, s'.cidOidToOrder c oid
    = if UsedUp sw.trades c oid then none else s.cidOidToOrder c oid

/-- Nothing was traded. -/
theorem AfterSweep.refl (i : Incoming) (leaves : Quantity)
    {s : MatchingEngineOrderBook} {lay : Layout} (h : Stored s lay) :
    AfterSweep i leaves s s lay lay ⟨[], s.book (!i.isBuy), leaves⟩ where
  stored := h
  sent := (List.append_nil _).symm
  nextId := rfl
  opposite := rfl
  own := rfl
  ownResting := fun _ _ => rfl
  index := fun _ _ => (if_neg fun ⟨_, ht, _⟩ => nomatch ht).symm

/-- A round that does not trade. -/
theorem matchWhile_done {s : MatchingEngineOrderBook} {lay : Layout}
    {i : Incoming} {stop : Price → Bool} {leaves : Quantity} {fuel : Nat}
    (h : Stored s lay)
    (hdone : leaves = 0 ∨ ∀ o, (lay.orders (!i.isBuy)).head? = some o →
      stop (s.ladder.resting o).price = true) :
    (matchWhile i.isBuy stop i.ids.tickerId i.ids.clientId (sideOf i.isBuy)
      i.ids.clientOrderId i.ids.marketOrderId (fuel + 1) leaves).run s
      = .ok leaves s := by
  by_cases hzero : leaves = 0
  · simp [matchWhile, hzero]
  · rcases h.booked.laid.head_cases (!i.isBuy) with
      ⟨hbest, -⟩ | ⟨p, o, rest, hbest, hfirst, horders, -, -⟩
    · simp [matchWhile, hbest]
    · have hstop := hdone.resolve_left hzero o (by rw [horders]; rfl)
      simp [matchWhile, hzero, hbest, hfirst, hstop]

/-- A round that trades. -/
theorem matchWhile_fill {s s' : MatchingEngineOrderBook} {lay : Layout}
    {i : Incoming} (stop : Price → Bool) {leaves leaves' : Quantity}
    (fuel : Nat) {o : Ptr} {rest : List Ptr} (h : Stored s lay)
    (hleaves : leaves ≠ 0) (horders : lay.orders (!i.isBuy) = o :: rest)
    (hstop : stop (s.ladder.resting o).price = false)
    (hmatch : (matchOrder i.ids.tickerId i.ids.clientId (sideOf i.isBuy)
      i.ids.clientOrderId i.ids.marketOrderId (some o) leaves).run s
        = .ok leaves' s') :
    (matchWhile i.isBuy stop i.ids.tickerId i.ids.clientId (sideOf i.isBuy)
      i.ids.clientOrderId i.ids.marketOrderId (fuel + 1) leaves).run s
      = (matchWhile i.isBuy stop i.ids.tickerId i.ids.clientId
          (sideOf i.isBuy) i.ids.clientOrderId i.ids.marketOrderId fuel
          leaves').run s' := by
  rcases h.booked.laid.head_cases (!i.isBuy) with
    ⟨-, hnil⟩ | ⟨p, o', rest', hbest, hfirst, horders', -, -⟩
  · rw [hnil] at horders
    cases horders
  · rw [horders'] at horders
    cases horders
    simp [matchWhile, hleaves, hbest, hfirst, hstop, hmatch]

/-- The loops of `checkForMatch` are the sweep of the opposite list. The
induction is on that list: a round that goes on has removed its
first order. -/
theorem matchWhile_spec {i : Incoming} (stop : Price → Bool)
    (hstop : ∀ r : Resting OrderIds,
      stop r.price = !crosses i.isBuy i.price r) (l : List Ptr) :
    ∀ (fuel : Nat) (leaves : Quantity) (s : MatchingEngineOrderBook)
      (lay : Layout), Stored s lay → lay.orders (!i.isBuy) = l →
      l.length < fuel →
    ∃ s' lay', (matchWhile i.isBuy stop i.ids.tickerId i.ids.clientId
        (sideOf i.isBuy) i.ids.clientOrderId i.ids.marketOrderId fuel
        leaves).run s
        = .ok (sweep i.isBuy i.price leaves (s.book !i.isBuy)).left s'
      ∧ AfterSweep i leaves s s' lay lay'
          (sweep i.isBuy i.price leaves (s.book !i.isBuy)) := by
  induction l with
  | nil =>
      intro fuel leaves s lay h hl hfuel
      obtain ⟨n, rfl⟩ : ∃ n, fuel = n + 1 := ⟨fuel - 1, by omega⟩
      have hbook : s.book (!i.isBuy) = [] := by rw [h.book_eq, hl]; rfl
      refine ⟨s, lay, ?_, ?_⟩
      · rw [matchWhile_done h (Or.inr (by rw [hl]; simp)), hbook]
        rfl
      · have hrefl := AfterSweep.refl i leaves h
        rw [hbook] at hrefl ⊢
        exact hrefl
  | cons o rest ih =>
      intro fuel leaves s lay h hl hfuel
      rw [List.length_cons] at hfuel
      obtain ⟨n, rfl⟩ : ∃ n, fuel = n + 2 := ⟨fuel - 2, by omega⟩
      have hbook : s.book (!i.isBuy)
          = s.ladder.resting o :: rest.map s.ladder.resting := by
        rw [h.book_eq, hl]
        rfl
      by_cases hdone : leaves = 0
          ∨ crosses i.isBuy i.price (s.ladder.resting o) = false
      · -- nothing left, or the best order does not cross
        have hsweep : sweep i.isBuy i.price leaves (s.book !i.isBuy)
            = ⟨[], s.book (!i.isBuy), leaves⟩ := by
          rw [hbook, sweep, if_pos hdone]
        refine ⟨s, lay, ?_, ?_⟩
        · rw [hsweep]
          refine matchWhile_done h (hdone.imp_right fun hcross o' ho' => ?_)
          rw [hl] at ho'
          cases ho'
          rw [hstop, hcross]
          rfl
        · rw [hsweep]
          exact AfterSweep.refl i leaves h
      · obtain ⟨hleaves, hcross⟩ := not_or.1 hdone
        rw [Bool.not_eq_false] at hcross
        have ho : o ∈ lay.orders (!i.isBuy) := by
          rw [hl]
          exact List.mem_cons_self ..
        obtain ⟨s₁, lay₁, hmatch, hfill⟩ := matchOrder_spec i leaves h ho
        have hround := matchWhile_fill stop (n + 1) h hleaves hl
          (by rw [hstop, hcross]; rfl) hmatch
        have hnd := h.booked.laid.orders_nodup (!i.isBuy)
        rw [hl, List.nodup_cons] at hnd
        have hrest : rest.map s₁.ladder.resting
            = rest.map s.ladder.resting :=
          List.map_congr_left fun q hq =>
            hfill.others q fun heq => hnd.1 (heq ▸ hq)
        have hown : lay₁.orders i.isBuy = lay.orders i.isBuy :=
          hfill.other i.isBuy (by cases i.isBuy <;> decide)
        have hownRest : ∀ q ∈ lay.orders i.isBuy,
            s₁.ladder.resting q = s.ladder.resting q := by
          intro q hq
          refine hfill.others q fun heq => ?_
          have hside := h.booked.orders_disjoint (heq ▸ hq) ho
          cases hb : i.isBuy <;> rw [hb] at hside <;> cases hside
        have horders := hfill.orders
        rw [hl] at horders
        by_cases hzero : (s.ladder.resting o).quantity
            - min (s.ladder.resting o).quantity leaves = 0
        · -- the order is used up: on with the rest
          rw [if_pos hzero, List.erase_cons_head] at horders
          have hbook₁ : s₁.book (!i.isBuy) = rest.map s.ladder.resting := by
            rw [hfill.stored.book_eq, horders, hrest]
          obtain ⟨s', lay', hrun, hafter⟩ := ih (n + 1)
            (leaves - min (s.ladder.resting o).quantity leaves) s₁ lay₁
            hfill.stored horders (by omega)
          have hsweep : sweep i.isBuy i.price leaves (s.book !i.isBuy)
              = ⟨⟨s.ladder.resting o,
                    min (s.ladder.resting o).quantity leaves⟩
                  :: (sweep i.isBuy i.price
                      (leaves - min (s.ladder.resting o).quantity leaves)
                      (s₁.book !i.isBuy)).trades,
                (sweep i.isBuy i.price
                  (leaves - min (s.ladder.resting o).quantity leaves)
                  (s₁.book !i.isBuy)).rest,
                (sweep i.isBuy i.price
                  (leaves - min (s.ladder.resting o).quantity leaves)
                  (s₁.book !i.isBuy)).left⟩ := by
            rw [hbook, hbook₁, sweep, if_neg hdone]
            simp only [hzero, if_true]
          refine ⟨s', lay', by rw [hround, hrun, hsweep], ?_⟩
          rw [hsweep]
          exact
            { stored := hafter.stored
              sent := by
                rw [hafter.sent, hfill.sent, List.append_assoc]
                rfl
              nextId := hafter.nextId.trans hfill.nextId
              opposite := hafter.opposite
              own := hafter.own.trans hown
              ownResting := fun q hq =>
                (hafter.ownResting q (hown ▸ hq)).trans (hownRest q hq)
              index := fun c oid => by
                rw [hafter.index, hfill.index]
                unfold UsedUp
                simp only [List.exists_mem_cons_iff, hzero, true_and]
                split <;> split <;> simp_all [OwnedBy] }
        · -- the order is not used up: the incoming one is
          rw [if_neg hzero] at horders
          have hleft := leaves_eq_zero hzero
          have hsweep : sweep i.isBuy i.price leaves (s.book !i.isBuy)
              = ⟨[⟨s.ladder.resting o,
                    min (s.ladder.resting o).quantity leaves⟩],
                { s.ladder.resting o with
                  quantity := (s.ladder.resting o).quantity
                    - min (s.ladder.resting o).quantity leaves }
                  :: rest.map s.ladder.resting,
                leaves - min (s.ladder.resting o).quantity leaves⟩ := by
            rw [hbook, sweep, if_neg hdone]
            simp only [hzero, if_false]
          refine ⟨s₁, lay₁, ?_, ?_⟩
          · rw [hround, matchWhile_done hfill.stored (Or.inl hleft), hsweep]
          · rw [hsweep]
            exact
              { stored := hfill.stored
                sent := by
                  rw [hfill.sent]
                  simp [Incoming.sweepMessages]
                nextId := hfill.nextId
                opposite := by
                  rw [hfill.stored.book_eq, horders, List.map_cons,
                    hfill.filled, hrest]
                own := hown
                ownResting := hownRest
                index := fun c oid => by
                  rw [hfill.index, if_neg fun hids => hzero hids.1, if_neg]
                  intro h
                  obtain ⟨t, ht, hused, -⟩ := h
                  rw [List.mem_singleton.1 ht] at hused
                  exact hzero hused }

-- =========================================================== checkForMatch

/-- `checkForMatch` is the sweep of the opposite list. -/
theorem checkForMatch_spec {s : MatchingEngineOrderBook} {lay : Layout}
    (i : Incoming) (h : Stored s lay) :
    ∃ s' lay', (checkForMatch i.ids.clientId i.ids.clientOrderId
        i.ids.tickerId (sideOf i.isBuy) i.price i.quantity
        i.ids.marketOrderId).run s = .ok (i.swept s.book).left s'
      ∧ AfterSweep i i.quantity s s' lay lay' (i.swept s.book) := by
  have hfuel : (lay.orders (!i.isBuy)).length
      < s.ladder.orderPool.size + 1 := by
    have hlen := length_le_of_lt (h.booked.laid.orders_nodup (!i.isBuy))
      fun o ho => h.booked.laid.queues.pool.used_lt o
        ((h.booked.laid.queues.used o).2
          (Or.inl ((h.booked.laid.hasOrder_iff o).2 ⟨_, ho⟩)))
    omega
  obtain ⟨ids, b, price, quantity⟩ := i
  cases b with
  | true =>
      have hstop : ∀ r : Resting OrderIds,
          decide (price < r.price) = !crosses true price r := by
        intro r
        show _ = !decide (r.price ≤ price)
        rw [← decide_not]
        exact decide_eq_decide.2 Int.not_le.symm
      obtain ⟨s', lay', hrun, hafter⟩ := matchWhile_spec
        (i := ⟨ids, true, price, quantity⟩)
        (fun best => decide (price < best)) hstop _ _ quantity s lay h
        rfl hfuel
      refine ⟨s', lay', ?_, hafter⟩
      simpa [checkForMatch, sideOf, Incoming.swept] using hrun
  | false =>
      have hstop : ∀ r : Resting OrderIds,
          decide (price > r.price) = !crosses false price r := by
        intro r
        show _ = !decide (price ≤ r.price)
        rw [← decide_not]
        exact decide_eq_decide.2 Int.not_le.symm
      obtain ⟨s', lay', hrun, hafter⟩ := matchWhile_spec
        (i := ⟨ids, false, price, quantity⟩)
        (fun best => decide (price > best)) hstop _ _ quantity s lay h
        rfl hfuel
      refine ⟨s', lay', ?_, hafter⟩
      simpa [checkForMatch, sideOf, Incoming.swept] using hrun

end MatchingEngineOrderBook

end ElectronicTrading
