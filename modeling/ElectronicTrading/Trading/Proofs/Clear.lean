/-
CLEAR: what it forgets, and what it leaves behind.

After a CLEAR the index is empty, no order block and no level head is in
use, but `price_orders_at_price` still points at the released levels and
the BBO still shows the old book (`Cleared`). The next ADD at a price
with such a slot is queued in a level that is in no list.

So a cleared book answers later updates as a new one does exactly when
CLEAR found nothing to forget there: every slot null, both heads null,
and the BBO of a new book (`clear_forgets_iff_blank`). That such a book
behaves like a new one does not depend on where its pools' cursors stand
or on what its released blocks hold: it is a copy of a new book
(Lockstep.lean).
-/
import ElectronicTrading.Trading.Proofs.Lockstep
import ElectronicTrading.Trading.Proofs.Tidy

namespace ElectronicTrading

open Exec Runs

namespace MarketOrderBook

open Ladder

/-- A CLEAR, as `publishSnapshot` makes it: all but the ticker by
default. -/
def clearUpdate (tickerId : TickerID) : MatchingEngineMarketUpdate where
  type := .clear
  tickerId := tickerId

variable {ids : OrderID → Option Ptr} {shelf : Ptr → Prop} {slots : Slots}
  {heads : Bool → Option Ptr} {s : MarketOrderBook}

-- ==================================================== the levels of a side

/-- Releasing a side's levels keeps the table, the index and the
heads. -/
theorem deallocateLevels_ends (isBuy : Bool) (fuel : Nat) :
    ∀ p : Option Ptr,
    Ends (fun l => Kept ids shelf slots l ∧ l.best = heads)
      (deallocateLevels isBuy fuel p)
      (fun l => Kept ids shelf slots l ∧ l.best = heads) := by
  induction fuel with
  | zero => exact fun _ => Spec.throw fun _ _ => trivial
  | succ fuel ih =>
      intro p
      unfold deallocateLevels
      refine Spec.get_bind fun l _ => ?_
      refine Spec.ite (fun _ => Spec.pure fun _ h => h) fun _ => ?_
      refine Spec.bind (Spec.and (deallocateLevel_ends p)
        (deallocateLevel_best p)) fun _ => ?_
      refine (readLevel_keeps p).bind_spec fun l => ?_
      refine Spec.mono (ih _) ?_ (fun _ _ h => h) fun _ _ h => h
      intro t h
      obtain ⟨⟨ht, -⟩, hbest⟩ := h
      exact ⟨ht.mono fun _ h => h.1, hbest⟩

/-- With a level to release, the shelf was not empty. -/
theorem clearLevels_ends (isBuy : Bool) :
    Ends (fun l => Kept ids shelf slots l ∧ l.best = heads)
      (clearLevels isBuy)
      (fun l => (Kept ids shelf slots l ∧ l.best = heads)
        ∧ (heads isBuy = none ∨ ∃ q, shelf q)) := by
  unfold clearLevels
  refine Spec.get_bind fun l hl => ?_
  refine Spec.ite (fun _ => ?_) fun hnone => ?_
  · refine Spec.get_bind fun _ _ => ?_
    refine (readLevel_keeps _).bind_spec fun _ => ?_
    refine Spec.bind (deallocateLevels_ends isBuy _ _) fun _ => ?_
    refine Spec.get_bind fun t _ => ?_
    refine Spec.mono (Spec.and (deallocateLevel_ends (t.best isBuy))
      (deallocateLevel_best (t.best isBuy))) (fun _ h => h) ?_
      fun _ _ h => h
    rintro - t ⟨⟨ht, hshelf⟩, hbest⟩
    exact ⟨⟨ht.mono fun _ h => h.1, hbest⟩, Or.inr hshelf⟩
  · refine Spec.pure fun t ht => ⟨ht, Or.inl ?_⟩
    rw [← hl.2]
    exact not_not.1 hnone

theorem run_clearLevels_none {l : Ladder OrderID} {isBuy : Bool}
    (h : l.best isBuy = none) : (clearLevels isBuy).run l = .ok () l := by
  simp [clearLevels, h]

-- ==================================================================== CLEAR

/-- What a CLEAR leaves of the book `s`. -/
structure Cleared (s t : MarketOrderBook) : Prop where
  index : t.oidToOrder = fun _ => none
  kept : Kept (fun _ => none) (targets s.ladder.priceOrdersAtPrice)
    s.ladder.priceOrdersAtPrice t.ladder
  best : ∀ b, t.ladder.best b = none
  bbo : t.bbo = s.bbo

/-- The order blocks are released without a fault. -/
theorem run_clear (hs : Tidy s) :
    ∃ m, Kept (fun _ => none) (targets s.ladder.priceOrdersAtPrice)
        s.ladder.priceOrdersAtPrice { s.ladder with orderPool := m }
      ∧ clear.run s = (do
          onLadder (clearLevels true)
          onLadder (clearLevels false)
          onLadder (setBest true none)
          onLadder (setBest false none)).run
        { s with
          oidToOrder := fun _ => none
          ladder := { s.ladder with orderPool := m } } := by
  obtain ⟨m, hrun, hkept⟩ := deallocateOrders_spec orderIds s.oidToOrder s
    nodup_orderIds hs.shelved fun _ _ => rfl
  have hnone : (fun id => if id ∈ orderIds then none else s.oidToOrder id)
      = fun _ => none := by
    funext id
    split
    · rfl
    · next hid =>
        cases hentry : s.oidToOrder id with
        | none => rfl
        | some p => exact absurd (mem_orderIds.2 (hs.ranges id p hentry)) hid
  rw [hnone] at hkept
  refine ⟨m, hkept, ?_⟩
  unfold clear
  rw [run_bind_ok hrun]
  rfl

/-- A CLEAR that returns; it releases a level only if a slot reached
one. -/
theorem clear_leaves (hs : Tidy s) :
    Leaves (fun t => t = s) clear fun t => Cleared s t
      ∧ ((∀ i, s.ladder.priceOrdersAtPrice i = none) →
        ∀ b, s.ladder.best b = none) := by
  rintro t rfl
  obtain ⟨m, hkept, hrun⟩ := run_clear hs
  rw [hrun]
  refine Spec.bind (onLadder_leaves (clearLevels_ends true) _ _) (fun _ => ?_)
    _ ⟨⟨hkept, rfl⟩, rfl, rfl⟩
  refine Spec.bind (M := fun _ u => ((Kept (fun _ => none)
      (targets t.ladder.priceOrdersAtPrice) t.ladder.priceOrdersAtPrice u.ladder
      ∧ u.ladder.best = t.ladder.best)
      ∧ (t.ladder.best true = none ∨ ∃ q, targets t.ladder.priceOrdersAtPrice q)
      ∧ (t.ladder.best false = none
        ∨ ∃ q, targets t.ladder.priceOrdersAtPrice q))
      ∧ u.oidToOrder = (fun _ => none) ∧ u.bbo = t.bbo) ?_ fun _ => ?_
  · intro u h
    obtain ⟨⟨hu, htrue⟩, hids, hbbo⟩ := h
    refine Spec.mono (onLadder_leaves (clearLevels_ends false) _ _)
      (fun _ h => h) ?_ (fun _ _ h => h) u ⟨hu, hids, hbbo⟩
    rintro - v ⟨⟨hv, hfalse⟩, hrest⟩
    exact ⟨⟨hv, htrue, hfalse⟩, hrest⟩
  · intro u h
    obtain ⟨⟨⟨hu, -⟩, htrue, hfalse⟩, hids, hbbo⟩ := h
    refine ⟨⟨hids, { hu with }, fun b => by cases b <;> rfl, hbbo⟩, ?_⟩
    intro hnull b
    have hno : ¬ ∃ q, targets t.ladder.priceOrdersAtPrice q := by
      intro h
      obtain ⟨q, i, hi⟩ := h
      rw [hnull i] at hi
      cases hi
    cases b
    · exact hfalse.resolve_right hno
    · exact htrue.resolve_right hno

/-- With both heads null a CLEAR returns. -/
theorem run_clear_blank (hs : Tidy s) (hbest : ∀ b, s.ladder.best b = none) :
    ∃ t, clear.run s = .ok () t := by
  obtain ⟨m, -, hrun⟩ := run_clear hs
  have hlevels : ∀ b, (clearLevels b).run { s.ladder with orderPool := m }
      = .ok () { s.ladder with orderPool := m } := fun b =>
    run_clearLevels_none (by cases b; exacts [hbest false, hbest true])
  obtain ⟨u, hu⟩ : ∃ u : MarketOrderBook, u = { s with
      oidToOrder := fun _ => none
      ladder := { s.ladder with orderPool := m } } := ⟨_, rfl⟩
  have hsame : ∀ b, (onLadder (clearLevels b)).run u = .ok () u := by
    intro b
    rw [hu]
    exact run_onLadder_ok (hlevels b)
  rw [hrun, ← hu, run_bind_ok (hsame true), run_bind_ok (hsame false)]
  exact ⟨_, rfl⟩

-- ================================================================= updates

/-- A CLEAR names no side, so it asks for no new BBO. -/
theorem run_isUpdated_clear (l : Ladder OrderID) (isBuy : Bool)
    (tickerId : TickerID) :
    (isUpdated isBuy (clearUpdate tickerId)).run l = .ok false l := by
  cases hbest : l.best isBuy with
  | none => simp [isUpdated, hbest]
  | some p => cases isBuy <;> simp [isUpdated, hbest, clearUpdate]

/-- Without a new BBO, the rest of `onMarketUpdate` does nothing. -/
theorem run_then_noBBO (x : Member Unit) (notice : Notice)
    (s : MarketOrderBook) :
    (do
        x
        updateBBO false false
        return notice : Member Notice).run s
      = match x.run s with
        | .ok _ t => .ok notice t
        | .error e t => .error e t := by
  rw [EStateM.run_bind]
  cases x.run s <;> rfl

theorem dispatch_clear (tickerId : TickerID) :
    dispatch (clearUpdate tickerId) = clear := rfl

theorem run_onMarketUpdate_clear (s : MarketOrderBook) (tickerId : TickerID) :
    (onMarketUpdate (clearUpdate tickerId)).run s
      = match clear.run s with
        | .ok _ t => .ok (.onOrderBookUpdate tickerId priceInvalid .invalid) t
        | .error e t => .error e t := by
  unfold onMarketUpdate
  rw [run_bind_ok (run_onLadder_ok (run_isUpdated_clear _ true tickerId)),
    run_bind_ok (run_onLadder_ok (run_isUpdated_clear _ false tickerId)),
    if_neg (show (clearUpdate tickerId).type ≠ .trade from nofun),
    dispatch_clear]
  exact run_then_noBBO clear (.onOrderBookUpdate tickerId priceInvalid .invalid)
    s

theorem isUpdated_keeps {I : Ladder OrderID → Prop} (isBuy : Bool)
    (u : MatchingEngineMarketUpdate) : Keeps I (isUpdated isBuy u) := by
  unfold isUpdated
  refine Keeps.get_bind fun _ _ => ?_
  refine Keeps.ite (fun _ => Keeps.pure _) fun _ => ?_
  refine Keeps.bind (readLevel_keeps _) fun l => ?_
  exact Keeps.ite (fun _ => Keeps.pure _) fun _ => Keeps.pure _

theorem sumQuantity_keeps {I : Ladder OrderID → Prop} (first : Option Ptr)
    (fuel : Nat) : ∀ (p : Option Ptr) (quantity : Quantity),
    Keeps I (sumQuantity first fuel p quantity) := by
  induction fuel with
  | zero => exact fun _ _ => Keeps.throw _
  | succ fuel ih =>
      intro p quantity
      unfold sumQuantity
      refine Keeps.ite (fun _ => Keeps.pure _) fun _ => ?_
      exact Keeps.bind (readOrder_keeps _) fun o => ih _ _

theorem topOfBook_keeps {I : Ladder OrderID → Prop} (isBuy : Bool) :
    Keeps I (topOfBook isBuy) := by
  unfold topOfBook
  refine Keeps.get_bind fun _ _ => ?_
  refine Keeps.ite (fun _ => Keeps.pure _) fun _ => ?_
  refine Keeps.bind (readLevel_keeps _) fun l => ?_
  refine Keeps.get_bind fun _ _ => ?_
  refine Keeps.bind (readOrder_keeps _) fun o => ?_
  exact Keeps.bind (sumQuantity_keeps _ _ _ _) fun _ => Keeps.pure _

/-- A member keeps what its ladder's program keeps. -/
theorem onLadder_keeps {α : Type} {I : MarketOrderBook → Prop}
    {x : Prog (Ladder OrderID) α}
    (h : ∀ s : MarketOrderBook, Keeps (fun l => I { s with ladder := l }) x) :
    Keeps I (onLadder x) :=
  Spec.zoom fun s hs => h s s.ladder hs

/-- The BBO is not read by any invariant of the book's memory. -/
theorem updateBest_keeps {I : MarketOrderBook → Prop}
    (hbbo : ∀ (s : MarketOrderBook) bbo, I s → I { s with bbo := bbo })
    (isBuy updated : Bool) :
    Keeps I (updateBest isBuy updated) := by
  unfold updateBest
  refine Keeps.ite (fun _ => ?_) fun _ => Keeps.pure _
  refine Keeps.bind (onLadder_keeps fun _ => topOfBook_keeps isBuy) fun _ => ?_
  exact Keeps.modify fun s hs => hbbo s _ hs

/-- An update leaves what its case of the `switch` leaves. -/
theorem onMarketUpdate_leaves {P Q : MarketOrderBook → Prop}
    {u : MatchingEngineMarketUpdate} (htrade : ∀ s, P s → Q s)
    (hbbo : ∀ (s : MarketOrderBook) bbo, Q s → Q { s with bbo := bbo })
    (hdispatch : Leaves P (dispatch u) Q) :
    Leaves P (onMarketUpdate u) Q := by
  unfold onMarketUpdate
  refine (onLadder_keeps fun _ => isUpdated_keeps true u).bind_spec
    fun bid => ?_
  refine (onLadder_keeps fun _ => isUpdated_keeps false u).bind_spec
    fun ask => ?_
  refine Spec.ite (fun _ => Spec.pure htrade) fun _ => ?_
  refine Spec.bind hdispatch fun _ => ?_
  unfold updateBBO
  refine Keeps.bind_spec ?_ fun _ => Spec.pure fun _ h => h
  exact Keeps.bind (updateBest_keeps hbbo true bid) fun _ =>
    updateBest_keeps hbbo false ask

-- ============================================================== reachability

/-- One market update. -/
def Updated (s : MarketOrderBook) (u : MatchingEngineMarketUpdate)
    (s' : MarketOrderBook) : Prop :=
  ∃ notice, (onMarketUpdate u).run s = .ok notice s'

theorem tidy_of_updated {u : MatchingEngineMarketUpdate}
    {s' : MarketOrderBook} (h : Tidy s) (hu : Updated s u s') : Tidy s' := by
  obtain ⟨notice, hrun⟩ := hu
  refine Spec.of_run_ok (onMarketUpdate_leaves (fun _ h => h)
    (fun _ _ h => ⟨h.shelved, h.ranges⟩) ?_) h hrun
  unfold dispatch
  cases u.type with
  | add => exact onAdd_leaves u
  | modify => exact onModify_leaves u
  | cancel => exact onCancel_leaves u
  | clear =>
      refine Spec.of_forall fun t ht => ?_
      refine Spec.mono (clear_leaves ht) (fun _ h => h) ?_ fun _ _ h => h
      rintro - v ⟨hv, -⟩
      refine ⟨?_, fun id p hp => ?_⟩
      · rw [hv.index]
        exact hv.kept.shelved fun _ h => h
      · rw [hv.index] at hp
        cases hp
  | trade | invalid | snapshotStart | snapshotEnd =>
      exact Spec.pure fun _ h => h

theorem tidy_of_run {us : List MatchingEngineMarketUpdate}
    (h : Run Updated new us s) : Tidy s :=
  h.induct (I := fun _ s => Tidy s) tidy_new
    fun _ _ _ _ _ hs hu => tidy_of_updated hs hu

-- ======================================================== a blank book

/-- There is nothing for CLEAR to forget beyond what it forgets. -/
structure Blank (s : MarketOrderBook) : Prop where
  slots : ∀ i, s.ladder.priceOrdersAtPrice i = none
  best : ∀ b, s.ladder.best b = none
  bbo : s.bbo = {}

/-- Every MODIFY and CANCEL is of an order added before it. -/
def SelfContained (us : List MatchingEngineMarketUpdate) : Prop :=
  ∀ before u after, us = before ++ u :: after →
    u.type = .modify ∨ u.type = .cancel →
    ∃ v ∈ before, v.type = .add ∧ v.orderId = u.orderId

/-- A pool with no block in use is a copy of a new one. -/
theorem poolCopy_new {α : Type} {m : MemPool α} {n : Nat} {object : α}
    {E : α → α → Prop} (hok : m.Ok) (hsize : m.size = n)
    (hfree : ∀ p, m.used p = false) :
    MemPool.PoolCopy (fun p => (p + m.nextFreeIndex) % n) (fun _ => False) E
      (MemPool.new n object) m where
  size := hsize
  rotation := MemPool.rotation_add n _
  cursor_lt := by
    have hlt := hok.cursor_lt
    rw [hsize] at hlt
    exact Nat.zero_lt_of_lt hlt
  cursor := by
    show _ = (0 + m.nextFreeIndex) % n
    rw [Nat.zero_add, Nat.mod_eq_of_lt (hsize ▸ hok.cursor_lt)]
  free := fun p _ => by
    have hp := hfree ((p + m.nextFreeIndex) % n)
    unfold MemPool.used at hp
    rw [Bool.not_eq_false'] at hp
    exact hp
  seen_lt := fun _ h => h.elim
  object := fun _ h => h.elim

/-- A cleared blank book is a copy of a new one. -/
theorem copies_of_cleared {t : MarketOrderBook} (hb : Blank s)
    (ht : Cleared s t) : Copies new t := by
  have horders : ∀ p, t.ladder.orderPool.used p = false := by
    intro p
    cases hp : t.ladder.orderPool.used p with
    | false => rfl
    | true => cases ht.kept.owned p hp
  have hlevels : ∀ p, t.ladder.ordersAtPricePool.used p = false := by
    intro p
    cases hp : t.ladder.ordersAtPricePool.used p with
    | false => rfl
    | true =>
        obtain ⟨i, hi⟩ := ht.kept.stocked p hp
        rw [hb.slots] at hi
        cases hi
  refine ⟨{ order := _, level := _, orderSeen := fun _ => False,
            levelSeen := fun _ => False, stamped := fun _ => True },
    fun _ => trivial, fun id => ?_,
    ⟨poolCopy_new ht.kept.orders ht.kept.orders_size horders,
      poolCopy_new ht.kept.levels ht.kept.levels_size hlevels,
      fun b => ?_, fun i => ?_⟩, ?_⟩
  · rw [ht.index]
    exact ptrCopy_none
  · rw [ht.best]
    cases b <;> exact ptrCopy_none
  · rw [ht.kept.table, hb.slots]
    exact ptrCopy_none
  · rw [ht.bbo, hb.bbo]
    rfl

/-- A cleared blank book answers every sequence as a new one. -/
theorem agree_of_blank (hs : Tidy s) (hb : Blank s) (tickerId : TickerID)
    (us : List MatchingEngineMarketUpdate) :
    Agree ((onMarketUpdates (clearUpdate tickerId :: us)).run s)
      ((onMarketUpdates us).run new) := by
  obtain ⟨t, hrun⟩ := run_clear_blank hs hb.best
  have hcleared : Cleared s t :=
    (Spec.of_run_ok (clear_leaves hs) rfl hrun).1
  have hupdate := run_onMarketUpdate_clear s tickerId
  rw [hrun] at hupdate
  rw [show onMarketUpdates (clearUpdate tickerId :: us) = (do
      let _ ← onMarketUpdate (clearUpdate tickerId)
      onMarketUpdates us) from rfl, run_bind_ok hupdate]
  exact agree_of_copies (copies_of_cleared hb hcleared) us

-- ============================================================ a stale slot

/-- An order for the slot `i`. -/
def probe (i : Fin matchingEngineMaxPriceLevels) :
    MatchingEngineMarketUpdate where
  type := .add
  orderId := 0
  tickerId := 0
  side := .buy
  price := i.val
  quantity := 1
  priority := 1

theorem inRange_zero : InRange 0 := by
  show (0 : OrderID).toNat < matchingEngineMaxOrderIds
  decide

theorem priceToIndex_probe (i : Fin matchingEngineMaxPriceLevels) :
    priceToIndex (probe i).price = i := by
  have hi := i.isLt
  unfold matchingEngineMaxPriceLevels at hi
  apply Fin.ext
  show (((i.val : Int) % 256)).toNat = i.val
  omega

theorem selfContained_probe (i : Fin matchingEngineMaxPriceLevels) :
    SelfContained [probe i] := by
  intro before u after h htype
  have hu : u ∈ [probe i] := by
    rw [h]
    simp
  rw [List.mem_singleton.1 hu] at htype
  rcases htype with h | h <;> cases h

/-- A book with orders on a side shows levels there. -/
theorem levelViews_ne_nil {b : Bool} (h : s.book b ≠ []) :
    s.ladder.levelViews b ≠ [] := by
  intro hnil
  apply h
  show (s.ladder.levelViews b).flatMap (·.orders) = []
  rw [hnil]
  rfl

/-- An order whose price has a slot is queued there: no head changes. -/
theorem linkOrder_stale (p : Ptr) :
    Ends (fun l : Ladder OrderID => (∀ b, l.best b = none)
        ∧ l.getOrdersAtPrice (l.order p).price ≠ none)
      (linkOrder (some p)) (fun l => ∀ b, l.best b = none) := by
  intro l h
  obtain ⟨hbest, hslot⟩ := h
  have hwrite : ∀ (q : Option Ptr) (f : Order OrderID → Order OrderID),
      Keeps (fun l : Ladder OrderID => ∀ b, l.best b = none)
        (writeOrder f q) := by
    intro q f
    cases q with
    | none => exact Keeps.throw _
    | some q =>
        refine Keeps.modify fun l hl => ?_
        rw [putOrder_best]
        exact hl
  unfold linkOrder
  rw [run_bind_ok (run_readOrder l p)]
  refine (Spec.get_bind (P := fun t => t = l) ?_ : Ends _ _ _) l rfl
  rintro t rfl
  refine Spec.ite (fun hnone => absurd hnone hslot) fun _ => ?_
  refine Spec.mono (Keeps.spec (I := fun l => ∀ b, l.best b = none) ?_)
    (fun _ h => by rw [h]; exact hbest) (fun _ _ h => h) fun _ _ h => h
  refine Keeps.bind (readLevel_keeps _) fun o => ?_
  refine Keeps.bind (readOrder_keeps _) fun o' => ?_
  refine Keeps.bind (hwrite _ _) fun _ => ?_
  refine Keeps.bind (readOrder_keeps _) fun o' => ?_
  refine Keeps.bind (hwrite _ _) fun _ => ?_
  exact Keeps.bind (hwrite _ _) fun _ => hwrite _ _

/-- An ADD at a price whose slot points at a level in no list is in no
list either. -/
theorem add_stale {ids : OrderID → Option Ptr} {shelf : Ptr → Prop}
    {t : MarketOrderBook} {i : Fin matchingEngineMaxPriceLevels}
    (hkept : Kept ids shelf t.ladder.priceOrdersAtPrice t.ladder)
    (hids : ∀ id, ids id = none) (hbest : ∀ b, t.ladder.best b = none)
    (hslot : t.ladder.priceOrdersAtPrice i ≠ none) :
    Leaves (fun s => s = t) (onMarketUpdate (probe i))
      (fun s => ∀ b, s.ladder.best b = none) := by
  refine onMarketUpdate_leaves (fun s hs => by rw [hs]; exact hbest)
    (fun _ _ h => h) ?_
  show Leaves _ (onAdd (probe i)) _
  rintro s rfl
  unfold onAdd
  rcases run_getOrder_cases s (probe i).orderId with ⟨-, hget⟩ | herr
  swap
  · rw [run_bind_error herr]
    trivial
  rw [run_bind_ok hget]
  cases hid : s.oidToOrder (probe i).orderId with
  | some p => trivial
  | none =>
      rw [run_bind_ok (run_assert _ _ s)]
      refine Spec.bind (P := fun u => u = s) (M := fun x u => ∃ p, x = some p
        ∧ (∀ b, u.ladder.best b = none)
        ∧ u.ladder.getOrdersAtPrice (u.ladder.order p).price ≠ none)
        ?_ (fun x => ?_) s rfl
      · rintro u rfl
        rcases hkept.allocateOrder_cases (o := unlinked (added (probe i)))
            (hids _) with ⟨p, m, hrun, hderef, -⟩ | ⟨e, l, hrun⟩
        · have hladder := run_onLadder_ok hrun
          unfold unlinked added at hladder
          rw [hladder]
          refine ⟨p, rfl, fun b => ?_, ?_⟩
          · show Ladder.best _ b = none
            rw [← hbest b]
            cases b <;> rfl
          · show u.ladder.priceOrdersAtPrice
              (priceToIndex (m.deref p).price) ≠ none
            rw [hderef]
            show u.ladder.priceOrdersAtPrice (priceToIndex (probe i).price)
              ≠ none
            rw [priceToIndex_probe]
            exact hslot
        · have hladder := run_onLadder_error hrun
          unfold unlinked added at hladder
          rw [hladder]
          trivial
      · intro u h
        obtain ⟨p, rfl, hu⟩ := h
        unfold addOrder
        refine Spec.bind (onLadder_leaves (linkOrder_stale p) _ _)
          (fun _ => ?_) u ⟨hu, rfl, rfl⟩
        intro v h
        obtain ⟨hv, -⟩ := h
        rw [run_bind_ok (run_onLadder_readOrder v p)]
        generalize (v.ladder.order p).key = key
        by_cases hr : InRange key
        · rw [run_setOrder _ hr]
          exact hv
        · unfold InRange at hr
          simp [setOrder, hr]

/-- A book that answers as a new one after a CLEAR was blank. -/
theorem blank_of_agree (hs : Tidy s) {tickerId : TickerID}
    (h : ∀ us, SelfContained us →
      Agree ((onMarketUpdates (clearUpdate tickerId :: us)).run s)
        ((onMarketUpdates us).run new)) : Blank s := by
  have hcons : ∀ us, onMarketUpdates (clearUpdate tickerId :: us) = (do
      let _ ← onMarketUpdate (clearUpdate tickerId)
      onMarketUpdates us) := fun _ => rfl
  have hupdate := run_onMarketUpdate_clear s tickerId
  -- with no update after it, the CLEAR returns and shows the old BBO
  have hnil := h [] (by
    intro before u after heq
    simp at heq)
  cases hrun : clear.run s with
  | error e t =>
      rw [hrun] at hupdate
      rw [hcons, run_bind_error hupdate] at hnil
      exact hnil.elim
  | ok a t =>
      rw [hrun] at hupdate
      obtain ⟨hcleared, hheads⟩ := Spec.of_run_ok (clear_leaves hs) rfl hrun
      rw [hcons, run_bind_ok hupdate] at hnil
      have hsame : SameBook t new := hnil
      have hslots : ∀ i, s.ladder.priceOrdersAtPrice i = none := by
        intro i
        by_contra hi
        have hprobe := h [probe i] (selfContained_probe i)
        obtain ⟨notice, u, lay, hadd, hmirror, hbook, -⟩ :=
          run_firstAdd (u := probe i) (b := true) rfl rfl
            inRange_zero
        have hfresh : (onMarketUpdates [probe i]).run new = .ok () u := by
          unfold onMarketUpdates
          rw [run_bind_ok hadd]
          rfl
        rw [hcons, run_bind_ok hupdate, hfresh] at hprobe
        have hstale := add_stale (t := t) (i := i)
          (by rw [hcleared.kept.table]; exact hcleared.kept) (fun _ => rfl)
          hcleared.best (by rw [hcleared.kept.table]; exact hi)
        unfold onMarketUpdates at hprobe
        rw [EStateM.run_bind] at hprobe
        have hone := hstale t rfl
        cases hv : (onMarketUpdate (probe i)).run t with
        | error e v =>
            rw [hv] at hprobe
            exact hprobe.elim
        | ok n v =>
            rw [hv] at hprobe hone
            have hviews : SameBook v u := hprobe
            refine levelViews_ne_nil (s := u) (b := true) ?_ ?_
            · rw [hbook]
              simp
            · rw [← hviews.levels true]
              show (v.ladder.levelPtrs true).map _ = []
              unfold levelPtrs
              rw [hone true]
              rfl
      refine ⟨hslots, hheads hslots, ?_⟩
      rw [← hcleared.bbo]
      exact hsame.bbo

/-- When a CLEAR makes a reachable book answer all later updates as a new
book does. -/
theorem clear_forgets_iff_blank {us : List MatchingEngineMarketUpdate}
    (h : Run Updated new us s) (tickerId : TickerID) :
    (∀ later, SelfContained later →
      Agree ((onMarketUpdates (clearUpdate tickerId :: later)).run s)
        ((onMarketUpdates later).run new))
    ↔ Blank s :=
  ⟨blank_of_agree (tidy_of_run h),
    fun hb later _ => agree_of_blank (tidy_of_run h) hb tickerId later⟩

-- ============================================================ two examples

/-- Its cancellation. -/
def cancelOne : MatchingEngineMarketUpdate :=
  { addOne with type := .cancel }

/-- The book of one order, cleared, is not a new book. -/
theorem clear_remembers_one :
    ¬ ∀ us s, Run Updated new us s → ∀ tickerId later, SelfContained later →
      Agree ((onMarketUpdates (clearUpdate tickerId :: later)).run s)
        ((onMarketUpdates later).run new) := by
  intro hall
  obtain ⟨notice, s, lay, hadd, hmirror, hbook, -⟩ :=
    run_firstAdd (u := addOne) (b := true) rfl rfl inRange_one
  have hrun : Run Updated new [addOne] s := Run.nil.snoc ⟨notice, hadd⟩
  have hblank := blank_of_agree (tidy_of_run hrun) (hall _ s hrun 0)
  refine levelViews_ne_nil (s := s) (b := true) ?_ ?_
  · rw [hbook]
    simp
  · show (s.ladder.levelPtrs true).map _ = []
    unfold levelPtrs
    rw [hblank.best true]
    rfl

/-- With its order cancelled the book is blank again. -/
theorem clear_forgets_addCancel : ∃ s,
    Run Updated new [addOne, cancelOne] s
    ∧ ((∀ later, SelfContained later →
        Agree ((onMarketUpdates (clearUpdate 0 :: later)).run s)
          ((onMarketUpdates later).run new))
      ↔ Blank s)
    ∧ Blank s := by
  obtain ⟨n₁, s₁, lay₁, h₁, hmirror, hbook, hbbo₁⟩ :=
    run_firstAdd (u := addOne) (b := true) rfl rfl inRange_one
  have hbids : s₁.book true = [] ++ added addOne :: [] := by
    rw [hbook, if_pos rfl]
    rfl
  obtain ⟨t, lay₂, hcancel, hmirror₂, hbook₂⟩ :=
    onCancel_spec cancelOne hmirror hbids rfl
  have hempty : ∀ b, t.book b = [] := by
    intro b
    rw [hbook₂]
    split
    · rfl
    · next hb => rw [hbook, if_neg hb]
  obtain ⟨n₂, bbo, h₂, htop⟩ := onMarketUpdate_spec hmirror
    (by nofun) (show (dispatch cancelOne).run s₁ = .ok () t from hcancel)
    hmirror₂
  obtain ⟨hlevels, hslots⟩ := hmirror₂.bare hempty
  have hrun : Run Updated new [addOne, cancelOne] { t with bbo := bbo } :=
    (Run.nil.snoc ⟨n₁, h₁⟩).snoc ⟨n₂, h₂⟩
  refine ⟨_, hrun, clear_forgets_iff_blank hrun 0, hslots, fun b => ?_, ?_⟩
  · have hhead := hmirror₂.booked.laid.levels.head b
    rw [hlevels b] at hhead
    exact hhead
  · have hinvalid : ∀ b, bbo.top b = (priceInvalid, quantityInvalid) := by
      intro b
      rw [htop b, hbook b]
      cases b with
      | true =>
          rw [if_pos rfl, if_pos (by decide), hempty]
          rfl
      | false =>
          rw [if_neg (by decide)]
          exact hbbo₁ false
    have hbid := hinvalid true
    have hask := hinvalid false
    cases bbo
    cases hbid
    cases hask
    rfl

end MarketOrderBook

end ElectronicTrading
