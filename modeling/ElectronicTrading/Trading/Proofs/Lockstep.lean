/-
Two market books that differ only in where their blocks lie answer every
sequence of updates alike (`onMarketUpdates_copy`): both stop at the
same update or neither does, and then the same levels, orders, index and
BBO can be read from both (`Agree`).

The relation between the two is that of the ladders (Relocation.lean)
with the index and the BBO. It is kept by every update, whatever sides,
prices and ids the update names, so nothing here asks for a well-formed
feed.
-/
import ElectronicTrading.Common.Proofs.Relocation
import ElectronicTrading.Trading.MarketOrderBook

namespace ElectronicTrading

open Exec

namespace MarketOrderBook

open Ladder Relocation

/-- The book `t` is `s` with its blocks moved by `r`. -/
structure BookCopy (r : Relocation OrderID) (s t : MarketOrderBook) :
    Prop where
  stamped : ∀ id, r.stamped id
  index : ∀ id, r.OrderPtr (s.oidToOrder id) (t.oidToOrder id)
  ladder : LadderCopy r s.ladder t.ladder
  bbo : t.bbo = s.bbo

/-- Copies by some relocation. -/
def Copies (s t : MarketOrderBook) : Prop := ∃ r, BookCopy r s t

variable {r : Relocation OrderID}

-- ============================================================== statements

/-- What keeps two ladders copies keeps the books that have them. -/
theorem onLadder_copy {α β : Type} {x : Prog (Ladder OrderID) α}
    {y : Prog (Ladder OrderID) β} {V : α → β → Prop}
    (h : Lockstep (LadderCopy r) x y V) :
    Lockstep (BookCopy r) (onLadder x) (onLadder y) V := by
  refine Sim.zoom h (fun s t hst => hst.ladder) ?_
  intro a b s t l m hst h
  obtain ⟨hab, hlm⟩ := h
  exact ⟨hab, hst.stamped, hst.index, hlm, hst.bbo⟩

/-- A ladder's program that hands out a block. -/
theorem onLadder_grows {α β : Type} {x : Prog (Ladder OrderID) α}
    {y : Prog (Ladder OrderID) β} {V : Relocation OrderID → α → β → Prop}
    (h : Sim (LadderCopy r) x y fun a b s t =>
      ∃ r', r.le r' ∧ V r' a b ∧ LadderCopy r' s t) :
    Sim (BookCopy r) (onLadder x) (onLadder y) fun a b s t =>
      ∃ r', r.le r' ∧ V r' a b ∧ BookCopy r' s t := by
  refine Sim.zoom h (fun s t hst => hst.ladder) ?_
  intro a b s t l m hst h
  obtain ⟨r', hle, hab, hlm⟩ := h
  exact ⟨r', hle, hab, fun id => by rw [hle.stamped]; exact hst.stamped id,
    fun id => hle.orderPtr (hst.index id), hlm, hst.bbo⟩

/-- An id out of range stops both books; the entry of any other is the same. -/
theorem getOrder_copy (orderId : OrderID) :
    Lockstep (BookCopy r) (getOrder orderId) (getOrder orderId)
      r.OrderPtr := by
  intro s t hst
  unfold getOrder
  by_cases hid : orderId.toNat < matchingEngineMaxOrderIds
  · simp only [EStateM.run_bind, run_assert, hid, decide_true, if_true,
      EStateM.run_get, EStateM.run_pure]
    exact ⟨hst.index orderId, hst⟩
  · simp [EStateM.run_bind, hid]

/-- An entry of the index is set to corresponding orders. -/
theorem setOrder_copy (orderId : OrderID) {p q : Option Ptr}
    (h : r.OrderPtr p q) :
    Lockstep (BookCopy r) (setOrder orderId p) (setOrder orderId q)
      fun _ _ => True := by
  intro s t hst
  unfold setOrder
  by_cases hid : orderId.toNat < matchingEngineMaxOrderIds
  · simp only [EStateM.run_bind, run_assert, hid, decide_true, if_true,
      EStateM.run_modify]
    refine ⟨trivial, hst.stamped, fun id => ?_, hst.ladder, hst.bbo⟩
    show r.OrderPtr (if id = orderId then p else s.oidToOrder id)
      (if id = orderId then q else t.oidToOrder id)
    split
    · exact h
    · exact hst.index id
  · simp [EStateM.run_bind, hid]

/-- `addOrder`. The level it may hand out makes the relocation larger. -/
theorem addOrder_copy {p q : Option Ptr} (h : r.OrderPtr p q) :
    Sim (BookCopy r) (addOrder p) (addOrder q) fun _ _ => Copies := by
  unfold addOrder
  refine Sim.bind (onLadder_grows (V := fun _ _ _ => True)
    (Sim.mono (linkOrder_copy h) (fun _ _ hst => hst)
      fun _ _ _ _ ⟨r', hle, hst⟩ => ⟨r', hle, trivial, hst⟩)) fun _ _ => ?_
  intro s t h
  obtain ⟨r', hle, -, hst⟩ := h
  have hset : Lockstep (BookCopy r')
      (do setOrder (← onLadder (readOrder p)).key p)
      (do setOrder (← onLadder (readOrder q)).key q) fun _ _ => True := by
    refine Lockstep.bind (onLadder_copy (readOrder_copy (hle.orderPtr h)))
      fun o o' ho => ?_
    rw [ho.key]
    exact setOrder_copy o.key (hle.orderPtr h)
  exact Sim.mono hset (fun _ _ hst => hst) (fun _ _ _ _ h => ⟨r', h.2⟩) s t hst

/-- `removeOrder`. The order is read again after it is unlinked, and the entry
of its own id is cleared. -/
theorem removeOrder_copy {p q : Option Ptr} (h : r.OrderPtr p q) :
    Lockstep (BookCopy r) (removeOrder p) (removeOrder q)
      fun _ _ => True := by
  unfold removeOrder
  refine Lockstep.bind (onLadder_copy (unlinkOrder_copy h)) fun _ _ _ => ?_
  refine Lockstep.bind (onLadder_copy (readOrder_copy h)) fun o o' ho => ?_
  rw [ho.key]
  exact Lockstep.bind (setOrder_copy o.key ptrCopy_none)
    fun _ _ _ => onLadder_copy (deallocateOrder_copy h)

-- ================================================================= the BBO

/-- Whether an update can move the best price is read off that price. -/
theorem isUpdated_copy (isBuy : Bool) (u : MatchingEngineMarketUpdate) :
    Lockstep (LadderCopy r) (isUpdated isBuy u) (isUpdated isBuy u) Eq := by
  unfold isUpdated
  refine Sim.get_bind fun s t hst => ?_
  have hbest := hst.best isBuy
  refine Sim.ite hbest.none_iff (fun _ => Lockstep.pure rfl) fun _ => ?_
  refine Lockstep.bind (readLevel_copy hbest) fun l l' hl => ?_
  rw [hl.price]
  exact Sim.ite Iff.rfl (fun _ => Lockstep.pure rfl)
    fun _ => Lockstep.pure rfl

/-- The loop around the best queue ends at the same order, and has added up
the same quantities. -/
theorem sumQuantity_copy {first first' : Option Ptr}
    (hfirst : r.OrderPtr first first') (fuel : Nat) :
    ∀ (p q : Option Ptr) (quantity : Quantity), r.OrderPtr p q →
    Lockstep (LadderCopy r) (sumQuantity first fuel p quantity)
      (sumQuantity first' fuel q quantity) Eq := by
  induction fuel with
  | zero => exact fun _ _ _ _ => Sim.throw _ _
  | succ fuel ih =>
      intro p q quantity h
      refine moved_of_copy fun s t hst => ?_
      unfold sumQuantity
      refine Sim.ite (hst.orderPtr_eq_iff h hfirst)
        (fun _ => Lockstep.pure rfl) fun _ => ?_
      refine Lockstep.bind (readOrder_copy h) fun o o' ho => ?_
      rw [ho.quantity]
      exact ih _ _ _ ho.nextOrder

/-- So both books read the same best price and quantity. -/
theorem topOfBook_copy (isBuy : Bool) :
    Lockstep (LadderCopy r) (topOfBook isBuy) (topOfBook isBuy) Eq := by
  unfold topOfBook
  refine Sim.get_bind fun s t hst => ?_
  have hbest := hst.best isBuy
  refine Sim.ite hbest.none_iff (fun _ => Lockstep.pure rfl) fun _ => ?_
  refine Lockstep.bind (readLevel_copy hbest) fun l l' hl => ?_
  refine Sim.get_bind fun s₁ t₁ hst₁ => ?_
  refine Lockstep.bind (readOrder_copy hl.firstOrder) fun o o' ho => ?_
  -- the source starts with the first order's quantity and goes on behind it
  rw [ho.quantity, hst₁.orders.size, hl.price]
  refine Lockstep.bind (sumQuantity_copy hl.firstOrder _ _ _ _ ho.nextOrder)
    fun n n' hn => ?_
  rw [hn]
  exact Lockstep.pure rfl

/-- And write the same BBO. -/
theorem updateBest_copy (isBuy updated : Bool) :
    Lockstep (BookCopy r) (updateBest isBuy updated)
      (updateBest isBuy updated) fun _ _ => True := by
  unfold updateBest
  refine Sim.ite Iff.rfl (fun _ => ?_) fun _ => Lockstep.pure trivial
  refine Lockstep.bind (onLadder_copy (topOfBook_copy isBuy))
    fun top top' htop => ?_
  rw [htop]
  refine Lockstep.modify fun s t hst => ?_
  refine ⟨hst.stamped, hst.index, hst.ladder, ?_⟩
  show t.bbo.put _ _ _ = s.bbo.put _ _ _
  rw [hst.bbo]

theorem updateBBO_copy (bid ask : Bool) :
    Lockstep (BookCopy r) (updateBBO bid ask) (updateBBO bid ask)
      fun _ _ => True :=
  Lockstep.bind (updateBest_copy true bid) fun _ _ _ =>
    updateBest_copy false ask

-- =================================================================== CLEAR

/-- A CLEAR frees the order of each entry of the index. -/
theorem deallocateOrders_copy (ids : List OrderID) :
    Lockstep (BookCopy r) (deallocateOrders ids) (deallocateOrders ids)
      fun _ _ => True := by
  induction ids with
  | nil => exact Lockstep.pure trivial
  | cons id ids ih =>
      unfold deallocateOrders
      refine Sim.get_bind fun s t hst => ?_
      have hid := hst.index id
      refine Sim.ite (not_congr hid.none_iff) (fun _ => ?_) fun _ => ih
      exact Lockstep.bind (onLadder_copy (deallocateOrder_copy hid))
        fun _ _ _ => ih

/-- Then it walks around each ring of levels, freeing a level before it reads
the next one from it. -/
theorem deallocateLevels_copy (isBuy : Bool) (fuel : Nat) :
    ∀ p q : Option Ptr, r.LevelPtr p q →
    Moved r (deallocateLevels isBuy fuel p)
      (deallocateLevels isBuy fuel q) := by
  induction fuel with
  | zero => exact fun _ _ _ => Sim.throw _ _
  | succ fuel ih =>
      intro p q h
      unfold deallocateLevels
      refine Sim.get_bind fun s t hst => ?_
      refine Sim.ite (hst.levelPtr_eq_iff h (hst.best isBuy))
        (fun _ => Lockstep.pure trivial) fun _ => ?_
      refine Lockstep.bind (deallocateLevel_copy h) fun _ _ _ => ?_
      refine Lockstep.bind (readLevel_copy h) fun l l' hl => ?_
      exact ih _ _ hl.nextEntry

theorem clearLevels_copy (isBuy : Bool) :
    Moved r (clearLevels isBuy) (clearLevels isBuy) := by
  unfold clearLevels
  refine Sim.get_bind fun s t hst => ?_
  have hbest := hst.best isBuy
  refine Sim.ite (not_congr hbest.none_iff) (fun _ => ?_)
    fun _ => Lockstep.pure trivial
  refine Sim.get_bind fun s₁ t₁ hst₁ => ?_
  refine Lockstep.bind (readLevel_copy hbest) fun l l' hl => ?_
  rw [hst₁.levels.size]
  refine Lockstep.bind (deallocateLevels_copy isBuy _ _ _ hl.nextEntry)
    fun _ _ _ => ?_
  exact Sim.get_bind fun s₂ t₂ hst₂ => deallocateLevel_copy (hst₂.best isBuy)

/-- A CLEAR. Afterwards the free blocks of the two books differ, which no
reader sees. -/
theorem clear_copy : Lockstep (BookCopy r) clear clear fun _ _ => True := by
  unfold clear
  refine Lockstep.bind (deallocateOrders_copy orderIds) fun _ _ _ => ?_
  refine Lockstep.bind (W := fun _ _ => True) (Lockstep.modify ?_)
    fun _ _ _ => ?_
  · exact fun s t hst => ⟨hst.stamped, fun _ => ptrCopy_none, hst.ladder, hst.bbo⟩
  refine Lockstep.bind (onLadder_copy (clearLevels_copy true))
    fun _ _ _ => ?_
  refine Lockstep.bind (onLadder_copy (clearLevels_copy false))
    fun _ _ _ => ?_
  refine Lockstep.bind (onLadder_copy (setBest_copy true ptrCopy_none))
    fun _ _ _ => ?_
  exact onLadder_copy (setBest_copy false ptrCopy_none)

-- ================================================================= updates

/-- An ADD hands out an order and maybe a level. -/
theorem onAdd_copy (u : MatchingEngineMarketUpdate) :
    Sim (BookCopy r) (onAdd u) (onAdd u) fun _ _ => Copies := by
  intro s t hst
  refine Lockstep.bind (getOrder_copy u.orderId) (fun p q hpq => ?_) s t hst
  have hnone : decide (p = none) = decide (q = none) :=
    decide_eq_decide.2 hpq.none_iff
  rw [hnone]
  refine Lockstep.bind (W := fun _ _ => True) ?_ fun _ _ _ => ?_
  · unfold assert
    exact Sim.ite Iff.rfl (fun _ => Lockstep.pure trivial)
      fun _ => Sim.throw _ _
  -- the two orders lie where the two cursors were
  refine Sim.bind (onLadder_grows (V := fun r' x y => r'.OrderPtr x y)
    (allocateOrder_copy ⟨hst.stamped u.orderId, rfl, rfl, rfl, rfl, rfl,
      ptrCopy_none, ptrCopy_none⟩)) fun x y => ?_
  intro s t h
  obtain ⟨r', -, hxy, hst⟩ := h
  exact addOrder_copy hxy s t hst

/-- A lockstep keeps the two books copies of each other. -/
theorem copies_of_lockstep {α : Type} {x y : Member α} {V : α → α → Prop}
    (h : Lockstep (BookCopy r) x y V) :
    Sim (BookCopy r) x y fun _ _ => Copies :=
  Sim.mono h (fun _ _ hst => hst) fun _ _ _ _ h => ⟨r, h.2⟩

/-- What MODIFY and CANCEL do to the order they find. -/
theorem onFound_copy {orderId : OrderID} {fault : Fault}
    {f : Option Ptr → Member Unit}
    (hf : ∀ p q, r.OrderPtr p q →
      Lockstep (BookCopy r) (f p) (f q) fun _ _ => True) :
    Lockstep (BookCopy r)
      (do let order ← getOrder orderId
          assert (decide (order ≠ none)) fault
          f order)
      (do let order ← getOrder orderId
          assert (decide (order ≠ none)) fault
          f order) fun _ _ => True := by
  refine Lockstep.bind (getOrder_copy orderId) fun p q hpq => ?_
  have hnone : decide (p ≠ none) = decide (q ≠ none) :=
    decide_eq_decide.2 (not_congr hpq.none_iff)
  rw [hnone]
  refine Lockstep.bind (W := fun _ _ => True) ?_ fun _ _ _ => hf p q hpq
  unfold assert
  exact Sim.ite Iff.rfl (fun _ => Lockstep.pure trivial)
    fun _ => Sim.throw _ _

theorem onModify_copy (u : MatchingEngineMarketUpdate) :
    Lockstep (BookCopy r) (onModify u) (onModify u) fun _ _ => True :=
  onFound_copy fun _ _ h => onLadder_copy (writeOrder_copy h
    fun _ _ ho => { ho with quantity := rfl })

theorem onCancel_copy (u : MatchingEngineMarketUpdate) :
    Lockstep (BookCopy r) (onCancel u) (onCancel u) fun _ _ => True :=
  onFound_copy fun _ _ h => removeOrder_copy h

/-- Only an ADD hands out blocks. -/
theorem dispatch_copy (u : MatchingEngineMarketUpdate) :
    Sim (BookCopy r) (dispatch u) (dispatch u) fun _ _ => Copies := by
  unfold dispatch
  cases u.type with
  | add => exact onAdd_copy u
  | modify => exact copies_of_lockstep (onModify_copy u)
  | cancel => exact copies_of_lockstep (onCancel_copy u)
  | clear => exact copies_of_lockstep clear_copy
  | trade | invalid | snapshotStart | snapshotEnd =>
      exact copies_of_lockstep (V := fun _ _ => True) (Lockstep.pure trivial)

/-- An update: which sides can change is decided before it is carried out, and
alike. -/
theorem onMarketUpdate_copy (u : MatchingEngineMarketUpdate) :
    Sim Copies (onMarketUpdate u) (onMarketUpdate u) fun _ _ => Copies := by
  intro s t h
  obtain ⟨r, hst⟩ := h
  refine Lockstep.bind (onLadder_copy (isUpdated_copy true u))
    (fun bid bid' hbid => ?_) s t hst
  subst hbid
  refine Lockstep.bind (onLadder_copy (isUpdated_copy false u))
    fun ask ask' hask => ?_
  subst hask
  -- a TRADE goes to the strategy and leaves the book alone
  refine Sim.ite Iff.rfl
    (fun _ => copies_of_lockstep (V := Eq) (Lockstep.pure rfl)) fun _ => ?_
  refine Sim.bind (dispatch_copy u) fun _ _ => ?_
  intro s t h
  obtain ⟨r', hst⟩ := h
  refine Lockstep.bind (updateBBO_copy bid ask) (fun _ _ _ => ?_) s t hst
  exact copies_of_lockstep (V := Eq) (Lockstep.pure rfl)

/-- Any number of updates. -/
theorem onMarketUpdates_copy (us : List MatchingEngineMarketUpdate) :
    Sim Copies (onMarketUpdates us) (onMarketUpdates us)
      fun _ _ => Copies := by
  induction us with
  | nil => exact Sim.pure fun _ _ h => h
  | cons u us ih =>
      unfold onMarketUpdates
      exact Sim.bind (onMarketUpdate_copy u) fun _ _ => ih

-- ============================================================== reading it

/-- The same levels and queues, the same orders under the same ids, and
the same BBO. -/
structure SameBook (s t : MarketOrderBook) : Prop where
  levels : ∀ b, s.ladder.levelViews b = t.ladder.levelViews b
  index : ∀ id, (s.oidToOrder id).map s.ladder.resting
    = (t.oidToOrder id).map t.ladder.resting
  bbo : s.bbo = t.bbo

/-- Two runs end in the same book, or both stop on the way. -/
def Agree {α : Type} : EStateM.Result Fault MarketOrderBook α →
    EStateM.Result Fault MarketOrderBook α → Prop
  | .ok _ s, .ok _ t => SameBook s t
  | .error _ _, .error _ _ => True
  | _, _ => False

/-- What can be read does not show where the blocks lie. -/
theorem BookCopy.sameBook {s t : MarketOrderBook} (h : BookCopy r s t) :
    SameBook t s where
  levels := h.ladder.levelViews_eq
  index := fun id => by
    obtain ⟨hp, hseen⟩ := h.index id
    rw [hp, Option.map_map]
    cases hid : s.oidToOrder id with
    | none => rfl
    | some p =>
        rw [Option.map_some, Option.map_some, Function.comp_apply,
          h.ladder.resting_eq (hseen p hid)]
  bbo := h.bbo

/-- Copies of a book answer the same updates alike. -/
theorem agree_of_copies {s t : MarketOrderBook} (h : Copies s t)
    (us : List MatchingEngineMarketUpdate) :
    Agree ((onMarketUpdates us).run t) ((onMarketUpdates us).run s) := by
  have hrun := onMarketUpdates_copy us s t h
  cases hs : (onMarketUpdates us).run s with
  | ok a s' =>
      cases ht : (onMarketUpdates us).run t with
      | ok b t' =>
          rw [hs, ht] at hrun
          obtain ⟨r, hcopy⟩ := hrun
          exact hcopy.sameBook
      | error e t' => rw [hs, ht] at hrun; exact hrun.elim
  | error e s' =>
      cases ht : (onMarketUpdates us).run t with
      | ok b t' => rw [hs, ht] at hrun; exact hrun.elim
      | error e' t' => trivial

end MarketOrderBook

end ElectronicTrading
