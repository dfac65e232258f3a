/-
What a request may do whose fields nobody has checked.

Requests are taken as they come off the wire, and a book may have been
through anything: levels under a wrong slot, orders of no side, rings
broken by dangling pointers. What survives all of this is `Stamped`:
every pointer leads to an order that was allocated for a client id and
an order id inside the index (the relocation of Relocation.lean that
moves nothing). So the index is never written out of range for an order
found in the book, only for the ids of the request itself.

`checked_of_run` puts this together: a request whose ids are in range
and whose side, if it is NEW, is BUY or SELL, never leads to an access
out of range, and nor does a NEW of no quantity. The server checks none
of it: `recvCallBack` indexes its arrays by whatever client id it reads.
-/
import ElectronicTrading.Common.PriceTime
import ElectronicTrading.Common.Proofs.Relocation
import ElectronicTrading.Exchange.MatchingEngine
import ElectronicTrading.Exchange.Proofs.Sessions

namespace ElectronicTrading

open Exec

-- ========================================================= faults of a ladder

/-- A program that may fault, but not by an index out of range. -/
def Fenced {σ α : Type} (x : Prog σ α) : Prop :=
  Spec (fun _ => True) x (fun _ _ => True) fun e _ => e ≠ .outOfRange

section Fenced

variable {σ α β : Type}

theorem Fenced.pure (a : α) : Fenced (Pure.pure a : Prog σ α) :=
  fun _ _ => trivial

theorem Fenced.throw {e : Fault} (h : e ≠ .outOfRange) :
    Fenced (MonadExcept.throw e : Prog σ α) := fun _ _ => h

theorem Fenced.bind {x : Prog σ β} {f : β → Prog σ α} (hx : Fenced x)
    (hf : ∀ b, Fenced (f b)) : Fenced (x >>= f) :=
  Spec.bind hx hf

theorem Fenced.get : Fenced (MonadState.get : Prog σ σ) := fun _ _ => trivial

theorem Fenced.set (s : σ) : Fenced (MonadStateOf.set s : Prog σ PUnit) :=
  fun _ _ => trivial

theorem Fenced.modify (f : σ → σ) : Fenced (modify f : Prog σ PUnit) :=
  fun _ _ => trivial

theorem Fenced.ite {c : Prop} [Decidable c] {x y : Prog σ α} (hx : Fenced x)
    (hy : Fenced y) : Fenced (if c then x else y) := by
  split
  · exact hx
  · exact hy

theorem Fenced.assert {cond : Bool} {e : Fault} (h : e ≠ .outOfRange) :
    Fenced (assert cond e : Prog σ Unit) := by
  unfold ElectronicTrading.assert
  exact Fenced.ite (Fenced.pure _) (Fenced.throw h)

theorem Fenced.zoom {τ : Type} {view : σ → τ} {put : τ → σ → σ}
    {x : Prog τ α} (h : Fenced x) : Fenced (Exec.zoom view put x) := by
  refine Spec.zoom fun s _ => ?_
  have hx := h (view s) trivial
  cases hrun : x.run (view s) with
  | ok a t => trivial
  | error e t => rw [hrun] at hx; exact hx

end Fenced

namespace MemPool

variable {α : Type}

theorem seekFree_ne_outOfRange (m : MemPool α) (i fuel next : Nat) :
    m.seekFree i fuel next ≠ .error .outOfRange := by
  induction fuel generalizing next with
  | zero =>
      intro hzero
      cases hzero
  | succ fuel ih =>
      unfold seekFree
      by_cases hfree : (m.store next).isFree = true
      · rw [if_pos hfree]
        intro hok
        cases hok
      · rw [if_neg hfree]
        by_cases hstart : i = if next + 1 = m.size then 0 else next + 1
        · simp [hstart]
        · simp only [hstart, if_false]
          exact ih _

theorem updateNextFreeIndex_fenced :
    Fenced (updateNextFreeIndex (α := α)) := by
  unfold updateNextFreeIndex
  intro m _
  have hne := m.seekFree_ne_outOfRange m.nextFreeIndex m.size m.nextFreeIndex
  simp only [EStateM.run_bind, EStateM.run_get]
  cases hseek : m.seekFree m.nextFreeIndex m.size m.nextFreeIndex with
  | ok next => trivial
  | error e =>
      rw [hseek] at hne
      exact fun he => hne (congrArg _ he)

theorem allocate_fenced (o : α) : Fenced (allocate o) := by
  unfold allocate
  refine Fenced.bind Fenced.get fun m => ?_
  refine Fenced.bind (Fenced.assert nofun) fun _ => ?_
  refine Fenced.bind (Fenced.set _) fun _ => ?_
  exact Fenced.bind updateNextFreeIndex_fenced fun _ => Fenced.pure _

theorem deallocate_fenced (p : Ptr) : Fenced (deallocate (α := α) p) := by
  unfold deallocate
  refine Fenced.bind Fenced.get fun m => ?_
  refine Fenced.bind (Fenced.assert nofun) fun _ => ?_
  exact Fenced.bind (Fenced.assert nofun) fun _ => Fenced.set _

end MemPool

namespace Ladder

variable {K : Type}

theorem readOrder_fenced (p : Option Ptr) :
    Fenced (readOrder (K := K) p) := by
  cases p with
  | none => exact Fenced.throw nofun
  | some p => exact Fenced.bind Fenced.get fun _ => Fenced.pure _

theorem readLevel_fenced (p : Option Ptr) :
    Fenced (readLevel (K := K) p) := by
  cases p with
  | none => exact Fenced.throw nofun
  | some p => exact Fenced.bind Fenced.get fun _ => Fenced.pure _

theorem writeOrder_fenced (f : Order K → Order K) (p : Option Ptr) :
    Fenced (writeOrder f p) := by
  cases p with
  | none => exact Fenced.throw nofun
  | some p => exact Fenced.modify _

theorem writeLevel_fenced (f : OrdersAtPrice → OrdersAtPrice)
    (p : Option Ptr) : Fenced (writeLevel (K := K) f p) := by
  cases p with
  | none => exact Fenced.throw nofun
  | some p => exact Fenced.modify _

theorem allocateOrder_fenced (o : Order K) : Fenced (allocateOrder o) :=
  Fenced.bind (Fenced.zoom (MemPool.allocate_fenced o)) fun _ => Fenced.pure _

theorem allocateLevel_fenced (l : OrdersAtPrice) :
    Fenced (allocateLevel (K := K) l) :=
  Fenced.bind (Fenced.zoom (MemPool.allocate_fenced l)) fun _ => Fenced.pure _

theorem deallocateOrder_fenced (p : Option Ptr) :
    Fenced (deallocateOrder (K := K) p) := by
  cases p with
  | none => exact Fenced.throw nofun
  | some p => exact Fenced.zoom (MemPool.deallocate_fenced p)

theorem deallocateLevel_fenced (p : Option Ptr) :
    Fenced (deallocateLevel (K := K) p) := by
  cases p with
  | none => exact Fenced.throw nofun
  | some p => exact Fenced.zoom (MemPool.deallocate_fenced p)

theorem setNextEntry_fenced (p v : Option Ptr) :
    Fenced (setNextEntry (K := K) p v) := writeLevel_fenced _ p

theorem setPrevEntry_fenced (p v : Option Ptr) :
    Fenced (setPrevEntry (K := K) p v) := writeLevel_fenced _ p

theorem setNextOrder_fenced (p v : Option Ptr) :
    Fenced (setNextOrder (K := K) p v) := writeOrder_fenced _ p

theorem setPrevOrder_fenced (p v : Option Ptr) :
    Fenced (setPrevOrder (K := K) p v) := writeOrder_fenced _ p

theorem removeOrderAtPrice_fenced (side : Side) (price : Price) :
    Fenced (removeOrderAtPrice (K := K) side price) := by
  unfold removeOrderAtPrice
  refine Fenced.bind Fenced.get fun s => Fenced.bind Fenced.get fun s' => ?_
  obtain ⟨p, hp⟩ : ∃ p, s'.getOrdersAtPrice price = p := ⟨_, rfl⟩
  have hend : Fenced (do
      setOrdersAtPrice price none
      deallocateLevel p : Prog (Ladder K) Unit) :=
    Fenced.bind (Fenced.modify _) fun _ => deallocateLevel_fenced p
  have hclose : Fenced (do
      setNextEntry p none
      setPrevEntry p none
      setOrdersAtPrice price none
      deallocateLevel p : Prog (Ladder K) Unit) :=
    Fenced.bind (setNextEntry_fenced _ _) fun _ =>
      Fenced.bind (setPrevEntry_fenced _ _) fun _ => hend
  rw [hp]
  refine Fenced.bind (readLevel_fenced p) fun l => ?_
  refine Fenced.ite (Fenced.bind (Fenced.modify _) fun _ => hend) ?_
  refine Fenced.bind (readLevel_fenced p) fun _ => ?_
  refine Fenced.bind (readLevel_fenced p) fun _ => ?_
  refine Fenced.bind (setNextEntry_fenced _ _) fun _ => ?_
  refine Fenced.bind (readLevel_fenced p) fun _ => ?_
  refine Fenced.bind (readLevel_fenced p) fun _ => ?_
  refine Fenced.bind (setPrevEntry_fenced _ _) fun _ => ?_
  refine Fenced.ite ?_ hclose
  refine Fenced.bind (readLevel_fenced p) fun _ => ?_
  exact Fenced.bind (Fenced.modify _) fun _ => hclose

theorem unlinkOrder_fenced (p : Option Ptr) :
    Fenced (unlinkOrder (K := K) p) := by
  unfold unlinkOrder
  refine Fenced.bind (readOrder_fenced p) fun o => ?_
  refine Fenced.bind Fenced.get fun s => ?_
  refine Fenced.ite (removeOrderAtPrice_fenced _ _) ?_
  have hclose : Fenced (do
      setNextOrder p none
      setPrevOrder p none : Prog (Ladder K) Unit) :=
    Fenced.bind (setNextOrder_fenced _ _) fun _ => setPrevOrder_fenced _ _
  refine Fenced.bind (setNextOrder_fenced _ _) fun _ => ?_
  refine Fenced.bind (setPrevOrder_fenced _ _) fun _ => ?_
  refine Fenced.bind (readLevel_fenced _) fun _ => ?_
  exact Fenced.ite (Fenced.bind (writeLevel_fenced _ _) fun _ => hclose) hclose

theorem seekTarget_fenced (e : OrdersAtPrice) (best : Option Ptr)
    (fuel : Nat) (target : Option Ptr) (after : Bool) :
    Fenced (seekTarget (K := K) e best fuel target after) := by
  induction fuel generalizing target after with
  | zero => exact Fenced.throw nofun
  | succ fuel ih =>
      unfold seekTarget
      refine Fenced.ite ?_ (Fenced.pure _)
      refine Fenced.bind (readLevel_fenced _) fun _ => ?_
      refine Fenced.ite ?_ (ih _ _)
      exact Fenced.bind (readLevel_fenced _) fun _ => ih _ _

theorem findTarget_fenced (e : OrdersAtPrice) (best : Option Ptr) :
    Fenced (findTarget (K := K) e best) := by
  unfold findTarget
  refine Fenced.bind Fenced.get fun s => ?_
  refine Fenced.bind (readLevel_fenced _) fun _ => ?_
  refine Fenced.ite ?_ (seekTarget_fenced _ _ _ _ _)
  refine Fenced.bind (readLevel_fenced _) fun _ => ?_
  exact Fenced.bind (readLevel_fenced _) fun _ => seekTarget_fenced _ _ _ _ _

theorem addOrderAtPrice_fenced (p : Option Ptr) :
    Fenced (addOrderAtPrice (K := K) p) := by
  unfold addOrderAtPrice
  refine Fenced.bind (readLevel_fenced p) fun e => ?_
  refine Fenced.bind (Fenced.modify _) fun _ => ?_
  refine Fenced.bind Fenced.get fun s => ?_
  refine Fenced.ite ?_ ?_
  · refine Fenced.bind (Fenced.modify _) fun _ => ?_
    exact Fenced.bind (setNextEntry_fenced _ _) fun _ => setPrevEntry_fenced _ _
  · refine Fenced.bind (findTarget_fenced _ _) fun found => ?_
    refine Fenced.ite ?_ ?_
    · refine Fenced.bind (readLevel_fenced _) fun _ => ?_
      refine Fenced.bind (setPrevEntry_fenced _ _) fun _ => ?_
      refine Fenced.bind (readLevel_fenced _) fun _ => ?_
      refine Fenced.bind (setPrevEntry_fenced _ _) fun _ => ?_
      refine Fenced.bind (readLevel_fenced _) fun _ => ?_
      exact Fenced.bind (setNextEntry_fenced _ _) fun _ =>
        setNextEntry_fenced _ _
    · refine Fenced.bind (readLevel_fenced _) fun _ => ?_
      refine Fenced.bind (setPrevEntry_fenced _ _) fun _ => ?_
      refine Fenced.bind (setNextEntry_fenced _ _) fun _ => ?_
      refine Fenced.bind (readLevel_fenced _) fun _ => ?_
      refine Fenced.bind (setNextEntry_fenced _ _) fun _ => ?_
      refine Fenced.bind (setPrevEntry_fenced _ _) fun _ => ?_
      refine Fenced.bind (readLevel_fenced _) fun _ => ?_
      refine Fenced.ite ?_ (Fenced.pure _)
      refine Fenced.bind (readLevel_fenced _) fun _ => ?_
      exact Fenced.bind (setNextEntry_fenced _ _) fun _ => Fenced.modify _

theorem linkOrder_fenced (p : Option Ptr) :
    Fenced (linkOrder (K := K) p) := by
  unfold linkOrder
  refine Fenced.bind (readOrder_fenced p) fun o => ?_
  refine Fenced.bind Fenced.get fun s => ?_
  refine Fenced.ite ?_ ?_
  · refine Fenced.bind (setPrevOrder_fenced _ _) fun _ => ?_
    refine Fenced.bind (setNextOrder_fenced _ _) fun _ => ?_
    exact Fenced.bind (allocateLevel_fenced _) fun _ =>
      addOrderAtPrice_fenced _
  · refine Fenced.bind (readLevel_fenced _) fun _ => ?_
    refine Fenced.bind (readOrder_fenced _) fun _ => ?_
    refine Fenced.bind (setNextOrder_fenced _ _) fun _ => ?_
    refine Fenced.bind (readOrder_fenced _) fun _ => ?_
    refine Fenced.bind (setPrevOrder_fenced _ _) fun _ => ?_
    exact Fenced.bind (setNextOrder_fenced _ _) fun _ =>
      setPrevOrder_fenced _ _

/-- Reading changes nothing. -/
theorem readOrder_same (p : Option Ptr) (l : Ladder K) :
    Spec (fun t => t = l) (readOrder p) (fun _ t => t = l)
      fun _ _ => True := by
  cases p with
  | none => exact Spec.throw fun _ _ => trivial
  | some p => exact fun _ hs => hs

theorem readLevel_same (p : Option Ptr) (l : Ladder K) :
    Spec (fun t => t = l) (readLevel p) (fun _ t => t = l)
      fun _ _ => True := by
  cases p with
  | none => exact Spec.throw fun _ _ => trivial
  | some p => exact fun _ hs => hs

-- ============================================================ whose blocks

/-- Which blocks are handed out, and to which orders. -/
structure Owned (u : Ptr → Bool) (κ : Ptr → K) (s : Ladder K) : Prop where
  used : ∀ p, s.orderPool.used p = u p
  key : ∀ p, (s.order p).key = κ p

variable {u : Ptr → Bool} {κ : Ptr → K}

theorem readOrder_owned (q : Option Ptr) :
    Keeps (Owned u κ) (readOrder q) := by
  cases q with
  | none => exact Keeps.throw _
  | some q => exact fun _ hs => hs

theorem readLevel_owned (q : Option Ptr) :
    Keeps (Owned u κ) (readLevel q) := by
  cases q with
  | none => exact Keeps.throw _
  | some q => exact fun _ hs => hs

theorem writeOrder_owned {f : Order K → Order K} (hf : ∀ o, (f o).key = o.key)
    (q : Option Ptr) : Keeps (Owned u κ) (writeOrder f q) := by
  cases q with
  | none => exact Keeps.throw _
  | some q =>
      refine Keeps.modify fun s hs => ⟨fun p => ?_, fun p => ?_⟩
      · exact (MemPool.modify_used _ _ _ _).trans (hs.used p)
      · show ((s.orderPool.modify q f).deref p).key = κ p
        rw [MemPool.modify_deref]
        split
        · next hpq =>
            rw [hf, ← hpq]
            exact hs.key p
        · exact hs.key p

/-- What leaves the orders alone. -/
theorem writeLevel_owned (f : OrdersAtPrice → OrdersAtPrice)
    (q : Option Ptr) : Keeps (Owned u κ) (writeLevel f q) := by
  cases q with
  | none => exact Keeps.throw _
  | some q => exact Keeps.modify fun s hs => ⟨hs.used, hs.key⟩

theorem setBest_owned (isBuy : Bool) (v : Option Ptr) :
    Keeps (Owned u κ) (setBest isBuy v) := by
  refine Keeps.modify fun s hs => ?_
  cases isBuy <;> exact ⟨hs.used, hs.key⟩

theorem allocateLevel_owned (l : OrdersAtPrice) :
    Keeps (Owned u κ) (allocateLevel l) := by
  refine Keeps.bind (Spec.zoom fun s hs => ?_) fun _ => Keeps.pure _
  cases (MemPool.allocate l).run s.ordersAtPricePool with
  | ok a m => exact ⟨hs.used, hs.key⟩
  | error e m => exact ⟨hs.used, hs.key⟩

theorem seekTarget_owned (e : OrdersAtPrice) (best : Option Ptr)
    (fuel : Nat) (target : Option Ptr) (after : Bool) :
    Keeps (Owned u κ) (seekTarget e best fuel target after) := by
  induction fuel generalizing target after with
  | zero => exact Keeps.throw _
  | succ fuel ih =>
      unfold seekTarget
      refine Keeps.ite (fun _ => ?_) fun _ => Keeps.pure _
      refine Keeps.bind (readLevel_owned _) fun _ => ?_
      refine Keeps.ite (fun _ => ?_) fun _ => ih _ _
      exact Keeps.bind (readLevel_owned _) fun _ => ih _ _

theorem findTarget_owned (e : OrdersAtPrice) (best : Option Ptr) :
    Keeps (Owned u κ) (findTarget e best) := by
  unfold findTarget
  refine Keeps.get_bind fun s _ => ?_
  refine Keeps.bind (readLevel_owned _) fun _ => ?_
  refine Keeps.ite (fun _ => ?_) fun _ => seekTarget_owned _ _ _ _ _
  refine Keeps.bind (readLevel_owned _) fun _ => ?_
  exact Keeps.bind (readLevel_owned _) fun _ => seekTarget_owned _ _ _ _ _

theorem deallocateLevel_owned (q : Option Ptr) :
    Keeps (Owned u κ) (deallocateLevel q) := by
  cases q with
  | none => exact Keeps.throw _
  | some q =>
      refine Spec.zoom fun s hs => ?_
      cases (MemPool.deallocate q).run s.ordersAtPricePool with
      | ok a m => exact ⟨hs.used, hs.key⟩
      | error e m => exact ⟨hs.used, hs.key⟩

theorem setOrdersAtPrice_owned (price : Price) (v : Option Ptr) :
    Keeps (Owned u κ) (setOrdersAtPrice price v) :=
  Keeps.modify fun _ hs => ⟨hs.used, hs.key⟩

theorem removeOrderAtPrice_owned (side : Side) (price : Price) :
    Keeps (Owned u κ) (removeOrderAtPrice side price) := by
  unfold removeOrderAtPrice
  refine Keeps.get_bind fun s _ => Keeps.get_bind fun s' _ => ?_
  obtain ⟨p, hp⟩ : ∃ p, s'.getOrdersAtPrice price = p := ⟨_, rfl⟩
  have hread : Keeps (Owned u κ) (readLevel p) := readLevel_owned p
  have hend : Keeps (Owned u κ) (do
      setOrdersAtPrice price none
      deallocateLevel p) :=
    Keeps.bind (setOrdersAtPrice_owned _ _) fun _ => deallocateLevel_owned p
  have hclose : Keeps (Owned u κ) (do
      setNextEntry p none
      setPrevEntry p none
      setOrdersAtPrice price none
      deallocateLevel p) :=
    Keeps.bind (writeLevel_owned _ _) fun _ =>
      Keeps.bind (writeLevel_owned _ _) fun _ => hend
  rw [hp]
  refine Keeps.bind hread fun l => ?_
  refine Keeps.ite (fun _ => ?_) fun _ => ?_
  · exact Keeps.bind (setBest_owned _ _) fun _ => hend
  refine Keeps.bind hread fun _ => Keeps.bind hread fun _ => ?_
  refine Keeps.bind (writeLevel_owned _ _) fun _ => ?_
  refine Keeps.bind hread fun _ => Keeps.bind hread fun _ => ?_
  refine Keeps.bind (writeLevel_owned _ _) fun _ => ?_
  refine Keeps.ite (fun _ => ?_) fun _ => hclose
  refine Keeps.bind hread fun _ => ?_
  exact Keeps.bind (setBest_owned _ _) fun _ => hclose

/-- Unlinking an order changes no block's owner. -/
theorem unlinkOrder_owned (q : Option Ptr) :
    Keeps (Owned u κ) (unlinkOrder q) := by
  have hnext : ∀ q v, Keeps (Owned u κ) (setNextOrder q v) :=
    fun q v => writeOrder_owned (f := Order.setNext v) (fun _ => rfl) q
  have hprev : ∀ q v, Keeps (Owned u κ) (setPrevOrder q v) :=
    fun q v => writeOrder_owned (f := Order.setPrev v) (fun _ => rfl) q
  have hclose : Keeps (Owned u κ) (do
      setNextOrder q none
      setPrevOrder q none) := Keeps.bind (hnext _ _) fun _ => hprev _ _
  unfold unlinkOrder
  refine Keeps.bind (readOrder_owned q) fun o => ?_
  refine Keeps.get_bind fun s _ => ?_
  refine Keeps.ite (fun _ => removeOrderAtPrice_owned _ _) fun _ => ?_
  refine Keeps.bind (hnext _ _) fun _ => Keeps.bind (hprev _ _) fun _ => ?_
  refine Keeps.bind (readLevel_owned _) fun _ => ?_
  refine Keeps.ite (fun _ => ?_) fun _ => hclose
  exact Keeps.bind (writeLevel_owned _ _) fun _ => hclose

theorem addOrderAtPrice_owned (q : Option Ptr) :
    Keeps (Owned u κ) (addOrderAtPrice q) := by
  have hnext : ∀ q v, Keeps (Owned u κ) (setNextEntry q v) :=
    fun q v => writeLevel_owned _ q
  have hprev : ∀ q v, Keeps (Owned u κ) (setPrevEntry q v) :=
    fun q v => writeLevel_owned _ q
  unfold addOrderAtPrice
  refine Keeps.bind (readLevel_owned q) fun e => ?_
  refine Keeps.bind (Keeps.modify fun s hs => ⟨hs.used, hs.key⟩) fun _ => ?_
  refine Keeps.get_bind fun s _ => ?_
  refine Keeps.ite (fun _ => ?_) fun _ => ?_
  · refine Keeps.bind (setBest_owned _ _) fun _ => ?_
    exact Keeps.bind (hnext _ _) fun _ => hprev _ _
  · refine Keeps.bind (findTarget_owned _ _) fun found => ?_
    refine Keeps.ite (fun _ => ?_) fun _ => ?_
    · refine Keeps.bind (readLevel_owned _) fun _ => ?_
      refine Keeps.bind (hprev _ _) fun _ => ?_
      refine Keeps.bind (readLevel_owned _) fun _ => ?_
      refine Keeps.bind (hprev _ _) fun _ => ?_
      refine Keeps.bind (readLevel_owned _) fun _ => ?_
      exact Keeps.bind (hnext _ _) fun _ => hnext _ _
    · refine Keeps.bind (readLevel_owned _) fun _ => ?_
      refine Keeps.bind (hprev _ _) fun _ => ?_
      refine Keeps.bind (hnext _ _) fun _ => ?_
      refine Keeps.bind (readLevel_owned _) fun _ => ?_
      refine Keeps.bind (hnext _ _) fun _ => ?_
      refine Keeps.bind (hprev _ _) fun _ => ?_
      refine Keeps.bind (readLevel_owned _) fun _ => ?_
      refine Keeps.ite (fun _ => ?_) fun _ => Keeps.pure _
      refine Keeps.bind (readLevel_owned _) fun _ => ?_
      exact Keeps.bind (hnext _ _) fun _ => setBest_owned _ _

/-- Linking an order changes no block's owner. -/
theorem linkOrder_owned (q : Option Ptr) :
    Keeps (Owned u κ) (linkOrder q) := by
  have hnext : ∀ q v, Keeps (Owned u κ) (setNextOrder q v) :=
    fun q v => writeOrder_owned (f := Order.setNext v) (fun _ => rfl) q
  have hprev : ∀ q v, Keeps (Owned u κ) (setPrevOrder q v) :=
    fun q v => writeOrder_owned (f := Order.setPrev v) (fun _ => rfl) q
  unfold linkOrder
  refine Keeps.bind (readOrder_owned q) fun o => ?_
  refine Keeps.get_bind fun s _ => ?_
  refine Keeps.ite (fun _ => ?_) fun _ => ?_
  · refine Keeps.bind (hprev _ _) fun _ => ?_
    refine Keeps.bind (hnext _ _) fun _ => ?_
    exact Keeps.bind (allocateLevel_owned _) fun _ => addOrderAtPrice_owned _
  · refine Keeps.bind (readLevel_owned _) fun _ => ?_
    refine Keeps.bind (readOrder_owned _) fun _ => ?_
    refine Keeps.bind (hnext _ _) fun _ => ?_
    refine Keeps.bind (readOrder_owned _) fun _ => ?_
    refine Keeps.bind (hprev _ _) fun _ => ?_
    exact Keeps.bind (hnext _ _) fun _ => hprev _ _

/-- A block is handed out that was free. -/
theorem allocateOrder_owned (o : Order K) :
    Spec (Owned u κ) (allocateOrder o) (fun p s => ∃ q, p = some q
      ∧ u q = false ∧ Owned (fun x => if x = q then true else u x)
        (fun x => if x = q then o.key else κ x) s) fun _ _ => True := by
  refine Spec.bind (M := fun q s => u q = false
    ∧ Owned (fun x => if x = q then true else u x)
      (fun x => if x = q then o.key else κ x) s) ?_ fun q => ?_
  · refine Spec.zoom fun s hs => ?_
    rw [MemPool.run_allocate]
    by_cases hfree : (s.orderPool.store s.orderPool.nextFreeIndex).isFree = true
    · rw [if_pos hfree]
      split
      · next a m hrun =>
          split at hrun
          · obtain ⟨rfl, rfl⟩ := EStateM.Result.ok.inj hrun
            refine ⟨?_, fun p => ?_, fun p => ?_⟩
            · rw [← hs.used]
              simp [MemPool.used, hfree]
            · show (s.orderPool.put _ _).used p = _
              rw [MemPool.put_used, hs.used]
              rfl
            · show ((s.orderPool.put _ _).deref p).key = _
              rw [MemPool.put_deref, ← hs.key]
              split <;> rfl
          · cases hrun
      · trivial
    · rw [if_neg hfree]
      trivial
  · exact Spec.pure fun s hs => ⟨q, rfl, hs⟩

end Ladder

-- ================================================================== the book

namespace MatchingEngineOrderBook

open Ladder Relocation PriceTime

/-- The relocation that moves nothing: `orders` and `levels` have been
handed out, all orders to ids in `P`. -/
def marked (P : OrderIds → Prop) (orders levels : Ptr → Prop) :
    Relocation OrderIds where
  order := id
  level := id
  orderSeen := orders
  levelSeen := levels
  stamped := P

/-- A book that has handed nothing out. -/
theorem ladderCopy_new (P : OrderIds → Prop) :
    LadderCopy (marked P (fun _ => False) fun _ => False) new.ladder
      new.ladder := by
  have hpool : ∀ {α : Type} (E : α → α → Prop) (n : Nat) (a : α), 0 < n →
      MemPool.PoolCopy id (fun _ => False) E (.new n a) (.new n a) :=
    fun E n a hn =>
      { size := rfl, rotation := MemPool.rotation_id n, cursor_lt := hn
        cursor := rfl, free := fun _ _ => rfl
        seen_lt := nofun, object := nofun }
  exact ⟨hpool _ _ _ (by decide), hpool _ _ _ (by decide),
    fun b => by cases b <;> exact ptrCopy_none, fun _ => ptrCopy_none⟩

theorem marked_of_le {P : OrderIds → Prop} {r r' : Relocation OrderIds}
    (hr : ∃ orders levels, r = marked P orders levels) (hle : r.le r') :
    ∃ orders levels, r' = marked P orders levels := by
  obtain ⟨orders, levels, rfl⟩ := hr
  refine ⟨r'.orderSeen, r'.levelSeen, ?_⟩
  cases r'
  cases hle.order
  cases hle.level
  cases hle.stamped
  rfl

/-- The relocation that moves nothing: `orders` and `levels` have been
handed out, all orders to ids inside the index. -/
def still (orders levels : Ptr → Prop) : Relocation OrderIds where
  order := id
  level := id
  orderSeen := orders
  levelSeen := levels
  stamped := fun ids => inRange ids.clientId ids.clientOrderId = true

/-- Every pointer leads to a block that has been handed out. -/
structure Stamped (r : Relocation OrderIds) (s : MatchingEngineOrderBook) :
    Prop where
  still : ∃ orders levels, r = still orders levels
  index : ∀ c o, r.OrderPtr (s.cidOidToOrder c o) (s.cidOidToOrder c o)
  ladder : LadderCopy r s.ladder s.ladder

def Tame (s : MatchingEngineOrderBook) : Prop := ∃ r, Stamped r s

theorem tame_new : Tame new :=
  ⟨still (fun _ => False) fun _ => False, ⟨_, _, rfl⟩,
    fun _ _ => ptrCopy_none, ladderCopy_new _⟩

variable {r : Relocation OrderIds}

/-- A program that keeps the pointers in order and never leaves the
index, with what it returns. -/
def Steady {α : Type} (r : Relocation OrderIds) (x : Member α)
    (V : α → Prop) : Prop :=
  Spec (Stamped r) x (fun a s => V a ∧ Stamped r s) fun e _ => e ≠ .outOfRange

/-- Two copies of a ladder that are one ladder. -/
theorem onLadder_steady {α : Type} {x : Prog (Ladder OrderIds) α}
    {V : α → α → Prop} (h : Lockstep (LadderCopy r) x x V) (hx : Fenced x) :
    Steady r (onLadder x) fun a => V a a := by
  refine Spec.zoom fun s hs => ?_
  have hcopy := h s.ladder s.ladder hs.ladder
  have hfenced := hx s.ladder trivial
  cases hrun : x.run s.ladder with
  | ok a l =>
      rw [hrun] at hcopy
      exact ⟨hcopy.1, hs.still, hs.index, hcopy.2⟩
  | error e l =>
      rw [hrun] at hfenced
      exact hfenced

/-- A steady program, then one that may leave the index. -/
theorem Steady.bind_spec {α β : Type} {x : Member β} {f : β → Member α}
    {V : β → Prop} {Q : α → MatchingEngineOrderBook → Prop}
    {E : Fault → MatchingEngineOrderBook → Prop} (hx : Steady r x V)
    (hE : ∀ e s, e ≠ .outOfRange → E e s)
    (hf : ∀ b, V b → Spec (Stamped r) (f b) Q E) :
    Spec (Stamped r) (x >>= f) Q E := by
  refine Spec.bind (Spec.mono hx (fun _ h => h) (fun _ _ h => h) hE)
    fun b => ?_
  intro s h
  obtain ⟨hb, hs⟩ := h
  exact hf b hb s hs

theorem Steady.bind {α β : Type} {x : Member β} {f : β → Member α}
    {V : β → Prop} {Q : α → MatchingEngineOrderBook → Prop}
    (hx : Steady r x V)
    (hf : ∀ b, V b → Spec (Stamped r) (f b) Q fun e _ => e ≠ .outOfRange) :
    Spec (Stamped r) (x >>= f) Q fun e _ => e ≠ .outOfRange :=
  hx.bind_spec (fun _ _ h => h) hf

theorem sendClientResponse_steady (m : MatchingEngineClientResponse) :
    Steady r (sendClientResponse m) fun _ => True :=
  Spec.modify fun _ hs => ⟨trivial, hs.still, hs.index, hs.ladder⟩

theorem sendMarketUpdate_steady (u : MatchingEngineMarketUpdate) :
    Steady r (sendMarketUpdate u) fun _ => True :=
  Spec.modify fun _ hs => ⟨trivial, hs.still, hs.index, hs.ladder⟩

theorem setClientOrder_steady {c : ClientID} {o : OrderID} {p : Option Ptr}
    (hrange : inRange c o = true) (hp : r.OrderPtr p p) :
    Steady r (setClientOrder c o p) fun _ => True := by
  intro s hs
  unfold setClientOrder
  simp only [EStateM.run_bind, run_assert, hrange, if_true,
    EStateM.run_modify]
  refine ⟨trivial, hs.still, fun d i => ?_, hs.ladder⟩
  show r.OrderPtr (if d = c ∧ i = o then p else s.cidOidToOrder d i)
    (if d = c ∧ i = o then p else s.cidOidToOrder d i)
  split
  · exact hp
  · exact hs.index d i

/-- An order that was handed out has ids inside the index. -/
theorem inRange_of_copy (hr : ∃ orders levels, r = still orders levels)
    {a : Order OrderIds} (h : r.OrderCopy a a) :
    inRange a.key.clientId a.key.clientOrderId = true := by
  obtain ⟨orders, levels, rfl⟩ := hr
  exact h.stamped

theorem removeOrder_steady {p : Option Ptr} (hp : r.OrderPtr p p) :
    Steady r (removeOrder p) fun _ => True := by
  unfold removeOrder
  refine Steady.bind (onLadder_steady (unlinkOrder_copy hp)
    (unlinkOrder_fenced p)) fun _ _ => ?_
  refine Steady.bind (onLadder_steady (readOrder_copy hp)
    (readOrder_fenced p)) fun o ho => ?_
  refine Spec.of_forall fun s hs => ?_
  rintro _ rfl
  refine Steady.bind (setClientOrder_steady (inRange_of_copy hs.still ho)
    ptrCopy_none) (fun _ _ => ?_) _ hs
  exact onLadder_steady (deallocateOrder_copy hp) (deallocateOrder_fenced p)

theorem matchOrder_steady {p : Option Ptr} (hp : r.OrderPtr p p)
    (tickerId : TickerID) (clientId : ClientID) (side : Side)
    (clientOrderId newMarketOrderId : OrderID) (leavesQuantity : Quantity) :
    Steady r (matchOrder tickerId clientId side clientOrderId newMarketOrderId
      p leavesQuantity) fun _ => True := by
  unfold matchOrder
  refine Steady.bind (onLadder_steady (readOrder_copy hp)
    (readOrder_fenced p)) fun o ho => ?_
  refine Steady.bind (onLadder_steady (writeOrder_copy hp
    fun _ _ h => { h with quantity := rfl }) (writeOrder_fenced _ p))
    fun _ _ => ?_
  refine Steady.bind (sendClientResponse_steady _) fun _ _ => ?_
  refine Steady.bind (onLadder_steady (readOrder_copy hp)
    (readOrder_fenced p)) fun o' ho' => ?_
  refine Steady.bind (sendClientResponse_steady _) fun _ _ => ?_
  dsimp only
  refine Spec.ite (fun _ => ?_) fun _ => ?_
  · refine Steady.bind (sendMarketUpdate_steady _) fun _ _ => ?_
    refine Steady.bind (removeOrder_steady hp) fun _ _ => ?_
    exact Spec.pure fun s hs => ⟨trivial, hs⟩
  · refine Steady.bind (sendMarketUpdate_steady _) fun _ _ => ?_
    exact Spec.pure fun s hs => ⟨trivial, hs⟩

theorem matchWhile_steady (isBuy : Bool) (stop : Price → Bool)
    (tickerId : TickerID) (clientId : ClientID) (side : Side)
    (clientOrderId newMarketOrderId : OrderID) (fuel : Nat) :
    ∀ leavesQuantity : Quantity,
      Steady r (matchWhile isBuy stop tickerId clientId side clientOrderId
        newMarketOrderId fuel leavesQuantity) fun _ => True := by
  induction fuel with
  | zero => exact fun _ => Spec.throw fun _ _ => nofun
  | succ fuel ih =>
      intro leavesQuantity
      have hdone : ∀ q : Quantity, Steady r (Pure.pure q) fun _ => True :=
        fun q => Spec.pure fun s hs => ⟨trivial, hs⟩
      unfold matchWhile
      refine Spec.get_bind fun s hs => ?_
      have hbest := hs.ladder.best (!isBuy)
      dsimp only
      refine Spec.ite (fun _ => hdone _) fun _ => ?_
      refine Steady.bind (onLadder_steady (readLevel_copy hbest)
        (readLevel_fenced _)) fun l hl => ?_
      refine Steady.bind (onLadder_steady (readOrder_copy hl.firstOrder)
        (readOrder_fenced _)) fun o _ => ?_
      refine Spec.ite (fun _ => hdone _) fun _ => ?_
      exact Steady.bind (matchOrder_steady hl.firstOrder _ _ _ _ _ _)
        fun q _ => ih q

theorem checkForMatch_steady (clientId : ClientID) (clientOrderId : OrderID)
    (tickerId : TickerID) (side : Side) (price : Price) (quantity : Quantity)
    (newMarketOrderId : OrderID) :
    Steady r (checkForMatch clientId clientOrderId tickerId side price quantity
      newMarketOrderId) fun _ => True := by
  unfold checkForMatch
  refine Spec.get_bind fun s hs => ?_
  refine Spec.ite (fun _ => matchWhile_steady _ _ _ _ _ _ _ _ _) fun _ => ?_
  refine Spec.ite (fun _ => matchWhile_steady _ _ _ _ _ _ _ _ _) fun _ => ?_
  exact Spec.pure fun s hs => ⟨trivial, hs⟩

-- ================================================================= requests

/-- The rest of `add`, for a quantity that is left. -/
def rest (clientId : ClientID) (clientOrderId : OrderID) (tickerId : TickerID)
    (side : Side) (price : Price) (newMarketOrderId : OrderID)
    (leavesQuantity : Quantity) : Member Unit := do
  let priority ← onLadder (getNextPriority price)
  let order ← onLadder (Ladder.allocateOrder
    { key := ⟨tickerId, clientId, clientOrderId, newMarketOrderId⟩,
      side := side, price := price, quantity := leavesQuantity,
      priority := priority, prevOrder := none, nextOrder := none })
  addOrder order
  sendMarketUpdate
    { type := .add, orderId := newMarketOrderId, tickerId := tickerId,
      side := side, price := price, quantity := leavesQuantity,
      priority := priority }

theorem getNextPriority_copy (price : Price) :
    Lockstep (LadderCopy r) (getNextPriority price) (getNextPriority price)
      fun _ _ => True := by
  unfold getNextPriority
  refine Sim.get_bind fun s t hst => ?_
  have hlevel := getOrdersAtPrice_copy hst price
  refine Sim.ite hlevel.none_iff (fun _ => Lockstep.pure trivial) fun _ => ?_
  refine Lockstep.bind (readLevel_copy hlevel) fun l l' hl => ?_
  refine Lockstep.bind (readOrder_copy hl.firstOrder) fun o o' ho => ?_
  exact Lockstep.bind (readOrder_copy ho.prevOrder)
    fun _ _ _ => Lockstep.pure trivial

theorem getNextPriority_fenced (price : Price) :
    Fenced (getNextPriority price) := by
  unfold getNextPriority
  refine Fenced.bind Fenced.get fun s => ?_
  refine Fenced.ite (Fenced.pure _) ?_
  refine Fenced.bind (readLevel_fenced _) fun _ => ?_
  refine Fenced.bind (readOrder_fenced _) fun _ => ?_
  exact Fenced.bind (readOrder_fenced _) fun _ => Fenced.pure _

theorem still_of_le {r' : Relocation OrderIds}
    (hr : ∃ orders levels, r = still orders levels) (hle : r.le r') :
    ∃ orders levels, r' = still orders levels :=
  marked_of_le (P := fun ids =>
    inRange ids.clientId ids.clientOrderId = true) hr hle

/-- A ladder's program that hands out a block. -/
theorem onLadder_stamps {α : Type} {x : Prog (Ladder OrderIds) α}
    {V : Relocation OrderIds → α → α → Prop}
    (h : Sim (LadderCopy r) x x fun a b s t =>
      ∃ r', r.le r' ∧ V r' a b ∧ LadderCopy r' s t) (hx : Fenced x) :
    Spec (Stamped r) (onLadder x) (fun a s => ∃ r', r.le r' ∧ V r' a a
      ∧ Stamped r' s) fun e _ => e ≠ .outOfRange := by
  refine Spec.zoom fun s hs => ?_
  have hcopy := h s.ladder s.ladder hs.ladder
  have hfenced := hx s.ladder trivial
  cases hrun : x.run s.ladder with
  | ok a l =>
      rw [hrun] at hcopy
      obtain ⟨r', hle, ha, hl⟩ := hcopy
      exact ⟨r', hle, ha, still_of_le hs.still hle,
        fun c o => hle.orderPtr (hs.index c o), hl⟩
  | error e l =>
      rw [hrun] at hfenced
      exact hfenced

theorem addOrder_tame {p : Option Ptr} (hp : r.OrderPtr p p) :
    Spec (Stamped r) (addOrder p) (fun _ => Tame)
      fun e _ => e ≠ .outOfRange := by
  unfold addOrder
  refine Spec.bind (onLadder_stamps (V := fun _ _ _ => True)
    (Sim.mono (linkOrder_copy hp) (fun _ _ h => h)
      fun _ _ _ _ ⟨r', hle, hst⟩ => ⟨r', hle, trivial, hst⟩)
    (linkOrder_fenced p)) fun _ => ?_
  intro s h
  obtain ⟨r', hle, -, hs⟩ := h
  have hp' := hle.orderPtr hp
  refine Steady.bind (onLadder_steady (readOrder_copy hp')
    (readOrder_fenced p)) (fun o ho => ?_) s hs
  exact Spec.mono (setClientOrder_steady (inRange_of_copy hs.still ho) hp')
    (fun _ h => h) (fun _ _ h => ⟨r', h.2⟩) fun _ _ h => h

/-- With ids inside the index, the order goes there. -/
theorem rest_tame {clientId : ClientID} {clientOrderId : OrderID}
    (hrange : inRange clientId clientOrderId = true) (tickerId : TickerID)
    (side : Side) (price : Price) (newMarketOrderId : OrderID)
    (leavesQuantity : Quantity) :
    Spec Tame (rest clientId clientOrderId tickerId side price newMarketOrderId
      leavesQuantity) (fun _ => Tame) fun e _ => e ≠ .outOfRange := by
  intro s h
  obtain ⟨r, hs⟩ := h
  unfold rest
  refine Steady.bind (onLadder_steady (getNextPriority_copy price)
    (getNextPriority_fenced price)) (fun priority _ => ?_) s hs
  have hstamped : r.stamped
      ⟨tickerId, clientId, clientOrderId, newMarketOrderId⟩ := by
    obtain ⟨orders, levels, rfl⟩ := hs.still
    exact hrange
  refine Spec.bind (onLadder_stamps (V := fun r' x y => r'.OrderPtr x y)
    (allocateOrder_copy ⟨hstamped, rfl, rfl, rfl, rfl, rfl, ptrCopy_none,
      ptrCopy_none⟩) (allocateOrder_fenced _)) fun p => ?_
  intro s h
  obtain ⟨r', -, hp, hs⟩ := h
  refine Spec.bind (addOrder_tame hp) (fun _ => ?_) s hs
  exact Spec.modify fun s ⟨r, hs⟩ => ⟨r, hs.still, hs.index, hs.ladder⟩

section Owned

variable {u : Ptr → Bool} {κ : Ptr → OrderIds}

theorem onLadder_spec {α : Type} {P : Ladder OrderIds → Prop}
    {x : Prog (Ladder OrderIds) α} {Q : α → Ladder OrderIds → Prop}
    (h : Spec P x Q fun _ _ => True) :
    Spec (fun s => P s.ladder) (onLadder x) (fun a s => Q a s.ladder)
      fun _ _ => True := by
  refine Spec.zoom fun s hs => ?_
  have hx := h s.ladder hs
  cases hrun : x.run s.ladder with
  | ok a l => rw [hrun] at hx; exact hx
  | error e l => trivial

theorem getNextPriority_owned (price : Price) :
    Keeps (Owned u κ) (getNextPriority price) := by
  unfold getNextPriority
  refine Keeps.get_bind fun s _ => ?_
  refine Keeps.ite (fun _ => Keeps.pure _) fun _ => ?_
  refine Keeps.bind (readLevel_owned _) fun _ => ?_
  refine Keeps.bind (readOrder_owned _) fun _ => ?_
  exact Keeps.bind (readOrder_owned _) fun _ => Keeps.pure _

/-- An order of the book is filed under its ids, which are inside the
index. -/
theorem addOrder_owned {q : Ptr} (hused : u q = true) :
    Spec (fun s => Owned u κ s.ladder) (addOrder (some q))
      (fun _ s => inRange (κ q).clientId (κ q).clientOrderId = true
        ∧ s.ladder.orderPool.used q = true) fun _ _ => True := by
  unfold addOrder
  refine Spec.bind (onLadder_spec (linkOrder_owned _).spec) fun _ => ?_
  intro s hs
  have hread : (onLadder (readOrder (some q))).run s
      = .ok (s.ladder.order q) s := rfl
  rw [run_bind_ok hread, hs.key q]
  unfold setClientOrder
  simp only [EStateM.run_bind, run_assert]
  by_cases hrange : inRange (κ q).clientId (κ q).clientOrderId = true
  · simp only [hrange, if_true, EStateM.run_modify]
    exact ⟨trivial, (hs.used q).trans hused⟩
  · simp only [hrange]
    trivial

/-- An order that rests takes a block that was free, and has ids inside
the index. -/
theorem rest_owned (clientId : ClientID) (clientOrderId : OrderID)
    (tickerId : TickerID) (side : Side) (price : Price)
    (newMarketOrderId : OrderID) (leavesQuantity : Quantity) :
    Spec (fun s => Owned u κ s.ladder) (rest clientId clientOrderId tickerId
      side price newMarketOrderId leavesQuantity)
      (fun _ s => inRange clientId clientOrderId = true
        ∧ ∃ p, u p = false ∧ s.ladder.orderPool.used p = true)
      fun _ _ => True := by
  unfold rest
  refine Spec.bind (onLadder_spec (getNextPriority_owned price).spec)
    fun priority => ?_
  refine Spec.bind (onLadder_spec (allocateOrder_owned _)) fun x => ?_
  intro s h
  obtain ⟨q, rfl, hfree, hs⟩ := h
  have hadd := addOrder_owned (q := q) (if_pos rfl) s hs
  rw [EStateM.run_bind]
  cases hrun : (addOrder (some q)).run s with
  | ok _ t =>
      rw [hrun] at hadd
      obtain ⟨hrange, hused⟩ := hadd
      rw [if_pos rfl] at hrange
      exact ⟨hrange, q, hfree, hused⟩
  | error e t => trivial

end Owned

/-- `add`, in two parts. -/
theorem add_eq (clientId : ClientID) (clientOrderId : OrderID)
    (tickerId : TickerID) (side : Side) (price : Price)
    (quantity : Quantity) :
    add clientId clientOrderId tickerId side price quantity = (do
      let newMarketOrderId ← generateNewMarketOrderId
      sendClientResponse
        { type := .accepted, clientId := tickerId, tickerId := clientId,
          clientOrderId := clientOrderId, marketOrderId := newMarketOrderId,
          side := side, price := price, execQuantity := 0,
          leavesQuantity := quantity }
      let leavesQuantity ← checkForMatch clientId clientOrderId tickerId side
        price quantity newMarketOrderId
      if leavesQuantity ≠ 0 then
        rest clientId clientOrderId tickerId side price newMarketOrderId
          leavesQuantity) := rfl

theorem generateNewMarketOrderId_steady :
    Steady r generateNewMarketOrderId fun _ => True :=
  fun _ hs => ⟨trivial, hs.still, hs.index, hs.ladder⟩

/-- `add` keeps the book tame, and leaves the index only for the ids of
the request. -/
theorem add_tame (clientId : ClientID) (clientOrderId : OrderID)
    (tickerId : TickerID) (side : Side) (price : Price)
    (quantity : Quantity) :
    Spec Tame (add clientId clientOrderId tickerId side price quantity)
      (fun _ => Tame) fun e _ => inRange clientId clientOrderId = true →
        e ≠ .outOfRange := by
  intro s h
  obtain ⟨r, hs⟩ := h
  rw [add_eq]
  have hE : ∀ (e : Fault) (s : MatchingEngineOrderBook), e ≠ .outOfRange →
      inRange clientId clientOrderId = true → e ≠ .outOfRange :=
    fun _ _ he _ => he
  refine Steady.bind_spec (r := r) generateNewMarketOrderId_steady hE
    (fun n _ => ?_) s hs
  refine (sendClientResponse_steady _).bind_spec hE fun _ _ => ?_
  refine (checkForMatch_steady _ _ _ _ _ _ _).bind_spec hE fun q _ => ?_
  refine Spec.ite (fun _ => ?_) fun _ => Spec.pure fun s hs => ⟨r, hs⟩
  by_cases hrange : inRange clientId clientOrderId = true
  · exact Spec.mono (rest_tame hrange tickerId side price n q)
      (fun s hs => ⟨r, hs⟩) (fun _ _ h => h) hE
  · intro s hs
    have hrest := rest_owned clientId clientOrderId tickerId side price n q s
      ⟨fun p => rfl, fun p => rfl⟩
    cases hrun : (rest clientId clientOrderId tickerId side price n q).run s with
    | ok _ t =>
        rw [hrun] at hrest
        exact (hrange hrest.1).elim
    | error e t => exact fun h => (hrange h).elim

/-- `cancel` leaves the index only for the order id of the request. -/
theorem cancel_tame (clientId : ClientID) (orderId : OrderID)
    (tickerId : TickerID) :
    Spec Tame (cancel clientId orderId tickerId) (fun _ => Tame)
      fun e _ => inRange clientId orderId = true → e ≠ .outOfRange := by
  intro s h
  obtain ⟨r, hs⟩ := h
  have hE : ∀ (e : Fault) (s : MatchingEngineOrderBook), e ≠ .outOfRange →
      inRange clientId orderId = true → e ≠ .outOfRange :=
    fun _ _ he _ => he
  have hfound : Spec (Stamped r) (findOrder clientId orderId)
      (fun p s => r.OrderPtr p p ∧ Stamped r s)
      fun e _ => inRange clientId orderId = true → e ≠ .outOfRange := by
    unfold findOrder
    refine Spec.ite (fun _ => ?_) fun _ =>
      Spec.pure fun s hs => ⟨ptrCopy_none, hs⟩
    intro s hs
    simp only [EStateM.run_bind, run_assert]
    by_cases hrange : inRange clientId orderId = true
    · simp only [hrange, if_true, EStateM.run_get, EStateM.run_pure]
      exact ⟨hs.index clientId orderId, hs⟩
    · simp only [hrange]
      nofun
  unfold cancel
  refine Spec.bind hfound (fun p => ?_) s hs
  intro s h
  obtain ⟨hp, hs⟩ := h
  refine Spec.ite (fun _ => ?_) (fun _ => ?_) s hs
  · exact Spec.modify fun s hs => ⟨r, hs.still, hs.index, hs.ladder⟩
  · refine (onLadder_steady (readOrder_copy hp)
      (readOrder_fenced p)).bind_spec hE fun o _ => ?_
    refine (removeOrder_steady hp).bind_spec hE fun _ _ => ?_
    refine (sendMarketUpdate_steady _).bind_spec hE fun _ _ => ?_
    exact Spec.modify fun s hs => ⟨r, hs.still, hs.index, hs.ladder⟩

/-- So does the book as a whole. -/
theorem processClientRequest_tame (request : MatchingEngineClientRequest) :
    Spec Tame (processClientRequest request) (fun _ => Tame) fun e _ =>
      inRange request.clientId request.orderId = true → e ≠ .outOfRange := by
  unfold processClientRequest
  split
  · exact add_tame _ _ _ _ _ _
  · exact cancel_tame _ _ _
  · exact Spec.throw fun _ _ _ => nofun

-- ========================================================== what a fill changes

/-- Of the pool `m`, a block has been given back, and none taken. -/
structure Less (m : MemPool (Order OrderIds)) (s : Ladder OrderIds) :
    Prop where
  used : ∀ p, s.orderPool.used p = true → m.used p = true
  given : ∃ p, m.used p = true ∧ s.orderPool.used p = false

theorem Less.ne {m : MemPool (Order OrderIds)} {s : Ladder OrderIds}
    (h : Less m s) : s.orderPool ≠ m := by
  intro heq
  obtain ⟨p, hp, hfree⟩ := h.given
  rw [heq, hp] at hfree
  cases hfree

section Less

variable {m : MemPool (Order OrderIds)} {u : Ptr → Bool} {κ : Ptr → OrderIds}

theorem deallocateOrder_owned (p : Option Ptr) :
    Spec (Owned u κ) (deallocateOrder p) (fun _ s => ∃ q, u q = true
      ∧ ∀ x, s.orderPool.used x = if x = q then false else u x)
      fun _ _ => True := by
  cases p with
  | none => exact Spec.throw fun _ _ => trivial
  | some q =>
      refine Spec.zoom fun s hs => ?_
      simp only [MemPool.deallocate, EStateM.run_bind, EStateM.run_get,
        run_assert]
      by_cases hlt : q < s.orderPool.size
      · by_cases hfree : (s.orderPool.store q).isFree = true
        · simp [hlt, hfree]
        · simp only [hlt, hfree, decide_true, if_true, Bool.not_false,
            EStateM.run_set]
          refine ⟨q, ?_, fun x => ?_⟩
          · rw [← hs.used]
            simp [MemPool.used, hfree]
          · show (s.orderPool.put _ _).used x = _
            rw [MemPool.put_used, hs.used]
            rfl
      · simp [hlt]

/-- An order that is removed gives its block back. -/
theorem removeOrder_less (p : Option Ptr) :
    Spec (fun s => ∀ q, s.ladder.orderPool.used q = true → m.used q = true)
      (removeOrder p) (fun _ s => Less m s.ladder) fun _ _ => True := by
  intro s hs
  unfold removeOrder
  have howned : Owned s.ladder.orderPool.used
      (fun q => (s.ladder.order q).key) s.ladder := ⟨fun _ => rfl, fun _ => rfl⟩
  refine Spec.bind (onLadder_spec (unlinkOrder_owned p).spec) (fun _ => ?_)
    s howned
  refine Spec.bind (onLadder_spec (readOrder_owned p).spec) fun o => ?_
  refine Spec.bind (M := fun _ t => Owned s.ladder.orderPool.used
    (fun q => (s.ladder.order q).key) t.ladder) ?_ fun _ => ?_
  · unfold setClientOrder assert
    refine Spec.bind (M := fun _ t => Owned s.ladder.orderPool.used
      (fun q => (s.ladder.order q).key) t.ladder)
      (Spec.ite (fun _ => Spec.pure fun _ h => h)
        fun _ => Spec.throw fun _ _ => trivial) fun _ => ?_
    exact Spec.modify fun t ht => ht
  · refine Spec.mono (onLadder_spec (deallocateOrder_owned p)) (fun _ h => h)
      ?_ fun _ _ h => h
    rintro - t ⟨q, hq, hused⟩
    refine ⟨fun x hx => hs x ?_, q, hs q hq, by rw [hused, if_pos rfl]⟩
    rw [hused] at hx
    split at hx
    · cases hx
    · exact hx

/-- A fill that leaves something of a resting order changes it. -/
theorem fill_changes {q leaves : Quantity} (h : q - min q leaves ≠ 0)
    (hleaves : leaves ≠ 0) : q - min q leaves ≠ q := by
  intro heq
  have hq := congrArg UInt32.toNat heq
  have hne : (q - min q leaves).toNat ≠ 0 := fun h0 =>
    h (UInt32.toNat_inj.1 h0)
  have hpos : leaves.toNat ≠ 0 := fun h0 => hleaves (UInt32.toNat_inj.1 h0)
  rw [toNat_sub_fill_left] at hq hne
  omega

/-- One fill. If it does not give the order's block back, nothing is left
to fill. -/
theorem matchOrder_less (p : Option Ptr) (tickerId : TickerID)
    (clientId : ClientID) (side : Side)
    (clientOrderId newMarketOrderId : OrderID) {leavesQuantity : Quantity}
    (hleaves : leavesQuantity ≠ 0) :
    Spec (fun s => Less m s.ladder ∨ s.ladder.orderPool = m)
      (matchOrder tickerId clientId side clientOrderId newMarketOrderId p
        leavesQuantity)
      (fun q s => Less m s.ladder ∨ (q = 0 ∧ s.ladder.orderPool ≠ m))
      fun _ _ => True := by
  cases p with
  | none => exact fun _ _ => trivial
  | some p =>
      intro s hs
      obtain ⟨fill, hfill⟩ : ∃ fill, fill
        = min (s.ladder.order p).quantity leavesQuantity := ⟨_, rfl⟩
      obtain ⟨l, hl⟩ : ∃ l, l = s.ladder.putOrder p
        (.setQuantity ((s.ladder.order p).quantity - fill)) := ⟨_, rfl⟩
      have hused : ∀ q, l.orderPool.used q = s.ladder.orderPool.used q := by
        intro q
        rw [hl]
        exact MemPool.modify_used _ _ _ _
      have hquantity : (l.order p).quantity
          = (s.ladder.order p).quantity - fill := by
        rw [hl]
        show ((s.ladder.orderPool.modify _ _).deref p).quantity = _
        rw [MemPool.modify_deref, if_pos rfl]
        rfl
      -- the quantity is written over; who has which block stays
      have hwritten : Less m l ∨ ∀ q, l.orderPool.used q = m.used q := by
        rcases hs with hs | hs
        · refine Or.inl ⟨fun q hq => hs.used q (hused q ▸ hq), ?_⟩
          obtain ⟨q, hq, hfree⟩ := hs.given
          exact ⟨q, hq, (hused q).trans hfree⟩
        · exact Or.inr fun q => by rw [hused, hs]
      have hread : (onLadder (readOrder (some p))).run s
          = .ok (s.ladder.order p) s := rfl
      unfold matchOrder
      rw [run_bind_ok hread]
      dsimp only
      rw [← hfill]
      have hwrite : (onLadder (writeOrder (.setQuantity
          ((s.ladder.order p).quantity - fill)) (some p))).run s
          = .ok () { s with ladder := l } := by
        rw [hl]
        rfl
      rw [run_bind_ok hwrite]
      refine Spec.bind (P := fun t => t.ladder = l)
        (M := fun _ t => t.ladder = l) (Spec.modify fun _ h => h)
        (fun _ => ?_) _ rfl
      refine Spec.bind (M := fun o t => t.ladder = l ∧ o = l.order p)
        (fun t ht => ⟨ht, by rw [← ht]⟩) fun o => ?_
      refine Spec.bind (M := fun _ t => t.ladder = l ∧ o = l.order p)
        (Spec.modify fun _ h => h) fun _ => ?_
      refine Spec.ite (fun _ => ?_) fun hmore => ?_
      · refine Spec.bind (M := fun _ t => t.ladder = l)
          (Spec.modify fun _ h => h.1) fun _ => ?_
        refine Spec.bind (Spec.mono (removeOrder_less (some p)) ?_
          (fun _ _ h => h) fun _ _ h => h) fun _ => Spec.pure fun _ => Or.inl
        intro t ht q hq
        rw [ht] at hq
        rcases hwritten with hless | hsame
        · exact hless.used q hq
        · rwa [← hsame]
      · refine Spec.bind (M := fun _ t => t.ladder = l ∧ o = l.order p)
          (Spec.modify fun _ h => h) fun _ => ?_
        refine Spec.pure fun t ⟨ht, ho⟩ => ?_
        rw [ht]
        rw [ho, hquantity, hfill] at hmore
        rcases hs with hs | hs
        · rcases hwritten with hless | hsame
          · exact Or.inl hless
          · obtain ⟨q, hq, hfree⟩ := hs.given
            rw [← hused, hsame, hq] at hfree
            cases hfree
        · refine Or.inr ⟨hfill ▸ leaves_eq_zero hmore, fun heq => ?_⟩
          have hsame : (l.order p).quantity = (s.ladder.order p).quantity := by
            show (l.orderPool.deref p).quantity
              = (s.ladder.orderPool.deref p).quantity
            rw [heq, hs]
          rw [hquantity, hfill] at hsame
          -- a fill of a positive quantity has changed the order
          exact fill_changes hmore hleaves hsame

/-- What fills anything changes the orders. -/
theorem matchWhile_less (isBuy : Bool) (stop : Price → Bool)
    (tickerId : TickerID) (clientId : ClientID) (side : Side)
    (clientOrderId newMarketOrderId : OrderID) (quantity : Quantity)
    (fuel : Nat) :
    ∀ leaves : Quantity,
      Spec (fun s => Less m s.ladder
          ∨ (s.ladder.orderPool = m ∧ leaves = quantity)
          ∨ (leaves = 0 ∧ s.ladder.orderPool ≠ m))
        (matchWhile isBuy stop tickerId clientId side clientOrderId
          newMarketOrderId fuel leaves)
        (fun q s => s.ladder.orderPool ≠ m
          ∨ (s.ladder.orderPool = m ∧ q = quantity)) fun _ _ => True := by
  induction fuel with
  | zero => exact fun _ => Spec.throw fun _ _ => trivial
  | succ fuel ih =>
      intro leaves
      have hdone : Spec (fun s => Less m s.ladder
            ∨ (s.ladder.orderPool = m ∧ leaves = quantity)
            ∨ (leaves = 0 ∧ s.ladder.orderPool ≠ m))
          (Pure.pure leaves : Member Quantity)
          (fun q s => s.ladder.orderPool ≠ m
            ∨ (s.ladder.orderPool = m ∧ q = quantity)) fun _ _ => True := by
        refine Spec.pure fun s hs => ?_
        rcases hs with hless | hsame | ⟨-, hne⟩
        · exact Or.inl hless.ne
        · exact Or.inr hsame
        · exact Or.inl hne
      unfold matchWhile
      refine Spec.get_bind fun s _ => ?_
      dsimp only
      refine Spec.ite (fun _ => hdone) fun hmore => ?_
      have hleaves : leaves ≠ 0 := fun h0 => hmore (Or.inl h0)
      -- what only reads the ladder keeps the condition
      have hread : ∀ {α : Type} {x : Prog (Ladder OrderIds) α},
          (∀ l, Spec (fun t => t = l) x (fun _ t => t = l)
            fun _ _ => True) →
          Spec (fun s => Less m s.ladder
              ∨ (s.ladder.orderPool = m ∧ leaves = quantity)
              ∨ (leaves = 0 ∧ s.ladder.orderPool ≠ m))
            (onLadder x) (fun _ s => Less m s.ladder
              ∨ (s.ladder.orderPool = m ∧ leaves = quantity)
              ∨ (leaves = 0 ∧ s.ladder.orderPool ≠ m))
            fun _ _ => True := by
        intro α x hx s hs
        have hl := onLadder_spec (hx s.ladder) s rfl
        cases hrun : (onLadder x).run s with
        | ok a t =>
            rw [hrun] at hl
            show Less m t.ladder ∨ _
            rw [hl]
            exact hs
        | error e t => trivial
      refine Spec.bind (hread (readLevel_same _)) fun l => ?_
      refine Spec.bind (hread (readOrder_same _)) fun o => ?_
      refine Spec.ite (fun _ => hdone) fun _ => ?_
      refine Spec.bind (M := fun q s => Less m s.ladder
          ∨ (q = 0 ∧ s.ladder.orderPool ≠ m))
        (Spec.mono (matchOrder_less _ _ _ _ _ _ hleaves) ?_
          (fun _ _ h => h) fun _ _ h => h) fun q => ?_
      · intro s hs
        rcases hs with hless | hsame | hzero
        · exact Or.inl hless
        · exact Or.inr hsame.1
        · exact (hleaves hzero.1).elim
      · refine Spec.mono (ih q) (fun s hs => ?_) (fun _ _ h => h)
          fun _ _ h => h
        rcases hs with hless | hzero
        · exact Or.inl hless
        · exact Or.inr (Or.inr hzero)

/-- So a quantity that is used up has changed the book. -/
theorem checkForMatch_less (clientId : ClientID) (clientOrderId : OrderID)
    (tickerId : TickerID) (side : Side) (price : Price) (quantity : Quantity)
    (newMarketOrderId : OrderID) :
    Spec (fun s => s.ladder.orderPool = m)
      (checkForMatch clientId clientOrderId tickerId side price quantity
        newMarketOrderId)
      (fun q s => s.ladder.orderPool ≠ m
        ∨ (s.ladder.orderPool = m ∧ q = quantity)) fun _ _ => True := by
  have hloop : ∀ isBuy stop fuel, Spec (fun s => s.ladder.orderPool = m)
      (matchWhile isBuy stop tickerId clientId side clientOrderId
        newMarketOrderId fuel quantity)
      (fun q s => s.ladder.orderPool ≠ m
        ∨ (s.ladder.orderPool = m ∧ q = quantity)) fun _ _ => True :=
    fun isBuy stop fuel =>
      Spec.mono (matchWhile_less isBuy stop tickerId clientId side
        clientOrderId newMarketOrderId quantity fuel quantity)
        (fun s hs => Or.inr (Or.inl ⟨hs, rfl⟩)) (fun _ _ h => h)
        fun _ _ h => h
  unfold checkForMatch
  refine Spec.get_bind fun s _ => ?_
  refine Spec.ite (fun _ => hloop _ _ _) fun _ => ?_
  refine Spec.ite (fun _ => hloop _ _ _) fun _ => ?_
  exact Spec.pure fun s hs => Or.inr ⟨hs, rfl⟩

end Less

/-- The orders of a book: all but its counter and its log. -/
def SameOrders (s t : MatchingEngineOrderBook) : Prop :=
  t.ladder = s.ladder ∧ t.cidOidToOrder = s.cidOidToOrder

/-- A NEW of no quantity does nothing to the orders. -/
theorem run_add_zero (s : MatchingEngineOrderBook) (clientId : ClientID)
    (clientOrderId : OrderID) (tickerId : TickerID) (side : Side)
    (price : Price) :
    ∃ t, (add clientId clientOrderId tickerId side price 0).run s = .ok () t
      ∧ SameOrders s t := by
  have hloop : ∀ (isBuy : Bool) (stop : Price → Bool) (n : OrderID)
      (fuel : Nat) (t : MatchingEngineOrderBook),
      (matchWhile isBuy stop tickerId clientId side clientOrderId n (fuel + 1)
        0).run t = .ok 0 t := fun _ _ _ _ _ => rfl
  have hmatch : ∀ (n : OrderID) (t : MatchingEngineOrderBook),
      (checkForMatch clientId clientOrderId tickerId side price 0 n).run t
        = .ok 0 t := by
    intro n t
    unfold checkForMatch
    rw [EStateM.run_bind, EStateM.run_get]
    dsimp only
    split
    · exact hloop _ _ _ _ _
    · split
      · exact hloop _ _ _ _ _
      · rfl
  refine ⟨{ s with
      nextMarketOrderId := s.nextMarketOrderId + 1
      sent := s.sent ++ [.response
        { type := .accepted, clientId := tickerId, tickerId := clientId,
          clientOrderId := clientOrderId,
          marketOrderId := s.nextMarketOrderId, side := side, price := price,
          execQuantity := 0, leavesQuantity := 0 }] }, ?_, rfl, rfl⟩
  rw [add_eq]
  have hnew : generateNewMarketOrderId.run s = .ok s.nextMarketOrderId
      { s with nextMarketOrderId := s.nextMarketOrderId + 1 } := rfl
  rw [run_bind_ok hnew]
  refine Eq.trans (run_bind_ok rfl) ?_
  rw [run_bind_ok (hmatch _ _)]
  rfl

/-- A NEW of some quantity that returns has changed the orders, if its
ids are outside the index or its side is neither BUY nor SELL. -/
theorem add_changes (m : MemPool (Order OrderIds)) {clientId : ClientID}
    {clientOrderId : OrderID} (tickerId : TickerID) {side : Side}
    (price : Price) {quantity : Quantity} (hquantity : quantity ≠ 0)
    (hbad : ¬ inRange clientId clientOrderId = true
      ∨ (side ≠ .buy ∧ side ≠ .sell)) :
    Spec (fun s => s.ladder.orderPool = m)
      (add clientId clientOrderId tickerId side price quantity)
      (fun _ s => s.ladder.orderPool ≠ m) fun _ _ => True := by
  rw [add_eq]
  refine Spec.bind (M := fun _ s => s.ladder.orderPool = m)
    (fun s hs => hs) fun n => ?_
  refine Spec.bind (M := fun _ s => s.ladder.orderPool = m)
    (Spec.modify fun s hs => hs) fun _ => ?_
  rcases hbad with hbad | ⟨hbuy, hsell⟩
  · refine Spec.bind (checkForMatch_less _ _ _ _ _ _ _) fun q => ?_
    refine Spec.ite (fun _ => ?_) fun hdone => Spec.pure fun s hs => ?_
    · intro s _
      have hrest := rest_owned clientId clientOrderId tickerId side price n q
        s ⟨fun p => rfl, fun p => rfl⟩
      cases hrun : (rest clientId clientOrderId tickerId side price n q).run s with
      | ok _ t =>
          rw [hrun] at hrest
          exact (hbad hrest.1).elim
      | error e t => trivial
    · rcases hs with hne | ⟨-, hq⟩
      · exact hne
      · exact (hdone (hq ▸ hquantity)).elim
  · unfold checkForMatch
    refine Spec.bind (M := fun q s => s.ladder.orderPool = m ∧ q = quantity)
      (Spec.get_bind fun s _ => ?_) fun q => ?_
    · rw [if_neg hbuy, if_neg hsell]
      exact Spec.pure fun s hs => ⟨hs, rfl⟩
    · refine Spec.ite (fun _ => ?_) fun hdone =>
        Spec.pure fun s ⟨_, hq⟩ => (hdone (hq ▸ hquantity)).elim
      intro s h
      obtain ⟨hs, -⟩ := h
      have hrest := rest_owned clientId clientOrderId tickerId side price n q
        s ⟨fun p => rfl, fun p => rfl⟩
      cases hrun : (rest clientId clientOrderId tickerId side price n q).run s with
      | ok _ t =>
          rw [hrun] at hrest
          obtain ⟨-, p, hfree, hused⟩ := hrest
          intro heq
          rw [hs, ← heq, hused] at hfree
          cases hfree
      | error e t => trivial

/-- Neither a client id nor, then, an order id that the index has. -/
theorem run_cancel_outOfRange (s : MatchingEngineOrderBook)
    {clientId : ClientID} {orderId : OrderID} (tickerId : TickerID)
    (hclient : clientId.toNat < matchingEngineMaxNumClients)
    (hrange : ¬ inRange clientId orderId = true) :
    (cancel clientId orderId tickerId).run s = .error .outOfRange s := by
  unfold cancel findOrder
  rw [if_pos hclient]
  simp [EStateM.run_bind, hrange]

end MatchingEngineOrderBook

-- ================================================================ the exchange

namespace MatchingEngine

open MatchingEngineOrderBook Runs

/-- A request, worked off to its end. -/
def Processed (s : MatchingEngine) (r : MatchingEngineClientRequest)
    (s' : MatchingEngine) : Prop :=
  (processClientRequest r).run s = .ok () s'

/-- All books are tame, whatever they were asked. -/
theorem tame_of_run {rs : List MatchingEngineClientRequest}
    {s : MatchingEngine} (h : Run Processed new rs s) :
    ∀ i, (s.tickerOrderBook i).Tame := by
  refine h.induct (I := fun _ s => ∀ i, (s.tickerOrderBook i).Tame)
    (fun _ => tame_new) ?_
  intro rs s r s' _ htame hprocessed i
  unfold Processed processClientRequest at hprocessed
  split at hprocessed
  · next hticker =>
      unfold onBook at hprocessed
      rw [run_zoom] at hprocessed
      have hbook := processClientRequest_tame r _
        (htame ⟨r.tickerId.toNat, hticker⟩)
      cases hrun : (MatchingEngineOrderBook.processClientRequest r).run
          (s.tickerOrderBook ⟨r.tickerId.toNat, hticker⟩) with
      | ok _ b =>
          rw [hrun] at hprocessed hbook
          rw [← (EStateM.Result.ok.inj hprocessed).2]
          show (if i = _ then b else s.tickerOrderBook i).Tame
          split
          · exact hbook
          · exact htame i
      | error e b =>
          rw [hrun] at hprocessed
          cases hprocessed
  · cases hprocessed

/-- No book's orders differ. -/
def SameBooks (s t : MatchingEngine) : Prop :=
  ∀ i, SameOrders (s.tickerOrderBook i) (t.tickerOrderBook i)

/-- An id that is none of the exchange's, or an order of no side. -/
def Malformed (r : MatchingEngineClientRequest) : Prop :=
  ¬ (r.clientId.toNat < matchingEngineMaxNumClients
    ∧ r.tickerId.toNat < matchingEngineMaxTickers
    ∧ r.orderId.toNat < matchingEngineMaxOrderIds
    ∧ (r.type = .new → r.side = .buy ∨ r.side = .sell))

/-- What the exchange would have to check: a request that is not
malformed, or a NEW of no quantity for a client and a ticker it has. -/
def Checked (r : MatchingEngineClientRequest) : Prop :=
  r.clientId.toNat < matchingEngineMaxNumClients
    ∧ r.tickerId.toNat < matchingEngineMaxTickers
    ∧ ((r.orderId.toNat < matchingEngineMaxOrderIds
        ∧ (r.type = .new → r.side = .buy ∨ r.side = .sell))
      ∨ (r.type = .new ∧ r.quantity = 0))

/-- The request does no harm: no index out of range in the server or the
engine, and nothing done if it is malformed. -/
structure Contained (server : OrderServer) (socket : SocketID)
    (rxTime : Nanos) (engine : MatchingEngine)
    (r : MatchingEngineClientRequest) : Prop where
  received : ∀ e t, (OrderServer.recvCallBack socket rxTime).run server
    = .error e t → e ≠ .outOfRange
  processed : ∀ e t, (processClientRequest r).run engine = .error e t →
    e ≠ .outOfRange
  unchanged : Malformed r → ∀ t, (Processed engine r t
    ∨ ∃ e, (processClientRequest r).run engine = .error e t) →
    SameBooks engine t

/-- The server accesses its arrays inside them exactly for the clients
they have. -/
theorem received_iff {server : OrderServer} {socket : SocketID}
    {bytes : List UInt8} (hlen : bytes.length = Wire.clientRequest.size)
    (hbuffer : server.recvBuffer socket = bytes) (rxTime : Nanos) :
    (∀ e t, (OrderServer.recvCallBack socket rxTime).run server = .error e t →
        e ≠ .outOfRange)
      ↔ (Wire.clientRequest.decode bytes).meClientRequest.clientId.toNat
        < matchingEngineMaxNumClients := by
  obtain ⟨m, hm⟩ : ∃ m, m = Wire.clientRequest.decode bytes := ⟨_, rfl⟩
  have hone : OrderServer.messagesIn socket (server.recvBuffer socket)
      = [(socket, m)] := by
    have hframe : Framing.frames Wire.clientRequest.size (bytes ++ [])
        = bytes :: Framing.frames Wire.clientRequest.size [] :=
      Framing.frames_cons (by decide) hlen
    have hnone : Framing.frames Wire.clientRequest.size ([] : List UInt8)
        = [] := Framing.frames_of_lt (by decide)
    rw [List.append_nil, hnone] at hframe
    unfold OrderServer.messagesIn
    rw [hbuffer, hframe, hm]
    rfl
  rw [← hm]
  by_cases hin : m.meClientRequest.clientId.toNat < matchingEngineMaxNumClients
  · refine iff_of_true (fun e t herr => ?_) hin
    rw [OrderServer.run_recvCallBack, hone] at herr
    have hloop := (OrderServer.loop_progress rxTime [(socket, m)]
      (s := server) fun m' hm' => by
        rw [List.mem_singleton.1 hm']
        exact hin).2
    cases hrun : (forM [(socket, m)] fun m =>
        OrderServer.onRequest m.1 rxTime m.2).run server with
    | ok _ u =>
        rw [run_bind_ok hrun] at herr
        cases herr
    | error e' u =>
        rw [run_bind_error hrun] at herr
        cases herr
        rw [hloop e t hrun]
        nofun
  · refine iff_of_false (fun hall => ?_) hin
    have hfault : (OrderServer.onRequest socket rxTime m).run server
        = .error .outOfRange server := by
      simp [OrderServer.onRequest, hin]
    have hrun : (OrderServer.recvCallBack socket rxTime).run server
        = .error .outOfRange server := by
      rw [OrderServer.run_recvCallBack, hone, List.forM_cons]
      exact run_bind_error (run_bind_error hfault)
    exact hall _ _ hrun rfl

/-- What a request leaves in the books it does not name, and what its
own book's run leaves in the other. -/
theorem sameBooks_of_run {s t : MatchingEngine}
    {r : MatchingEngineClientRequest}
    (hticker : r.tickerId.toNat < matchingEngineMaxTickers)
    (hrun : Processed s r t ∨ ∃ e, (processClientRequest r).run s = .error e t) :
    ∃ b, ((MatchingEngineOrderBook.processClientRequest r).run
          (s.tickerOrderBook ⟨r.tickerId.toNat, hticker⟩) = .ok () b
        ∧ Processed s r t
      ∨ ∃ e, (MatchingEngineOrderBook.processClientRequest r).run
          (s.tickerOrderBook ⟨r.tickerId.toNat, hticker⟩) = .error e b
        ∧ (processClientRequest r).run s = .error e t)
      ∧ (SameBooks s t ↔ SameOrders
        (s.tickerOrderBook ⟨r.tickerId.toNat, hticker⟩) b) := by
  obtain ⟨i, hi⟩ : ∃ i : Fin matchingEngineMaxTickers,
    i = ⟨r.tickerId.toNat, hticker⟩ := ⟨_, rfl⟩
  have hbook : ∀ b, SameBooks s (s.setBook i b)
      ↔ SameOrders (s.tickerOrderBook i) b := by
    intro b
    constructor
    · intro h
      have hown := h i
      unfold setBook at hown
      dsimp only at hown
      rwa [if_pos rfl] at hown
    · intro h j
      unfold setBook
      dsimp only
      split
      · next hj =>
          rw [hj]
          exact h
      · exact ⟨rfl, rfl⟩
  have hwhole : (processClientRequest r).run s
      = match (MatchingEngineOrderBook.processClientRequest r).run
          (s.tickerOrderBook i) with
        | .ok a b => .ok a (s.setBook i b)
        | .error e b => .error e (s.setBook i b) := by
    unfold processClientRequest onBook
    rw [dif_pos hticker, run_zoom, hi]
    cases (MatchingEngineOrderBook.processClientRequest r).run
      (s.tickerOrderBook ⟨r.tickerId.toNat, hticker⟩) <;> rfl
  rw [← hi]
  unfold Processed at hrun ⊢
  rw [hwhole] at hrun ⊢
  cases hown : (MatchingEngineOrderBook.processClientRequest r).run
      (s.tickerOrderBook i) with
  | ok a b =>
      rw [hown] at hrun
      rcases hrun with hrun | ⟨e, hrun⟩
      · have ht := (EStateM.Result.ok.inj hrun).2
        rw [← ht]
        exact ⟨b, Or.inl ⟨rfl, rfl⟩, hbook b⟩
      · cases hrun
  | error e b =>
      rw [hown] at hrun
      rcases hrun with hrun | ⟨e', hrun⟩
      · cases hrun
      · have ht := (EStateM.Result.error.inj hrun).2
        rw [← ht]
        exact ⟨b, Or.inr ⟨e, rfl, rfl⟩, hbook b⟩

/-- A request the exchange would accept after checking it does no harm,
in any state it can be in; and no other request is harmless, unless it
stops the exchange for another reason (a pool out of space, a null
pointer). -/
theorem contained_of_checked {rs : List MatchingEngineClientRequest}
    {engine : MatchingEngine} (hrun : Run Processed new rs engine)
    (server : OrderServer) (socket : SocketID) (rxTime : Nanos)
    {bytes : List UInt8} (hlen : bytes.length = Wire.clientRequest.size)
    (hbuffer : server.recvBuffer socket = bytes)
    {r : MatchingEngineClientRequest}
    (hr : r = (Wire.clientRequest.decode bytes).meClientRequest)
    (htype : r.type = .new ∨ r.type = .cancel) :
    (Checked r → Contained server socket rxTime engine r)
      ∧ ((∀ e t, (processClientRequest r).run engine = .error e t →
          e = .outOfRange) →
        Contained server socket rxTime engine r → Checked r) := by
  have hserver := received_iff hlen hbuffer rxTime
  rw [← hr] at hserver
  have htame := tame_of_run hrun
  constructor
  · intro h
    obtain ⟨hclient, hticker, hchecked⟩ := h
    obtain ⟨book, hbook⟩ : ∃ book, book
      = engine.tickerOrderBook ⟨r.tickerId.toNat, hticker⟩ := ⟨_, rfl⟩
    rcases hchecked with ⟨horder, hside⟩ | ⟨hnew, hzero⟩
    · have hrange : inRange r.clientId r.orderId = true := by
        unfold inRange
        rw [decide_eq_true hclient, decide_eq_true horder]
        rfl
      refine ⟨hserver.2 hclient, fun e t herr => ?_, fun hbad => ?_⟩
      · obtain ⟨b, hown, -⟩ := sameBooks_of_run hticker (Or.inr ⟨e, herr⟩)
        have hspec := processClientRequest_tame r _ (htame ⟨_, hticker⟩)
        rcases hown with ⟨-, hok⟩ | ⟨e', hown, herr'⟩
        · unfold Processed at hok
          rw [herr] at hok
          cases hok
        · rw [hown] at hspec
          rw [herr] at herr'
          rw [(EStateM.Result.error.inj herr').1]
          exact hspec hrange
      · exact (hbad ⟨hclient, hticker, horder, hside⟩).elim
    · obtain ⟨t, ht, hsame⟩ := run_add_zero book r.clientId r.orderId
        r.tickerId r.side r.price
      have hown : (MatchingEngineOrderBook.processClientRequest r).run book
          = .ok () t := by
        unfold MatchingEngineOrderBook.processClientRequest
        rw [hnew, hzero]
        exact ht
      -- a NEW of quantity zero is answered and leaves all books
      have hall : ∀ u, (Processed engine r u
          ∨ ∃ e, (processClientRequest r).run engine = .error e u) →
          Processed engine r u ∧ SameBooks engine u := by
        intro u hu
        obtain ⟨b, hcase, hiff⟩ := sameBooks_of_run hticker hu
        rw [← hbook, hown] at hcase
        rcases hcase with ⟨hb, hok⟩ | ⟨e, herr, -⟩
        · rw [← (EStateM.Result.ok.inj hb).2, ← hbook] at hiff
          exact ⟨hok, hiff.2 hsame⟩
        · cases herr
      refine ⟨hserver.2 hclient, fun e u herr => ?_,
        fun _ u hu => (hall u hu).2⟩
      have hok := (hall u (Or.inr ⟨e, herr⟩)).1
      unfold Processed at hok
      rw [herr] at hok
      cases hok
  -- the other way: what is harmless has passed the checks
  · intro hother h
    have hclient := hserver.1 h.received
    have hticker : r.tickerId.toNat < matchingEngineMaxTickers := by
      by_contra hno
      have hfault : (processClientRequest r).run engine
          = .error .outOfRange engine := by
        unfold processClientRequest
        rw [dif_neg hno]
        rfl
      exact h.processed _ _ hfault rfl
    obtain ⟨t, ht⟩ : ∃ t, Processed engine r t := by
      cases hengine : (processClientRequest r).run engine with
      | ok _ t => exact ⟨t, hengine⟩
      | error e t =>
          exact (h.processed e t hengine (hother e t hengine)).elim
    obtain ⟨b, hcase, hiff⟩ := sameBooks_of_run hticker (Or.inl ht)
    have hown : (MatchingEngineOrderBook.processClientRequest r).run
        (engine.tickerOrderBook ⟨r.tickerId.toNat, hticker⟩) = .ok () b := by
      rcases hcase with ⟨hown, -⟩ | ⟨e, -, herr⟩
      · exact hown
      · unfold Processed at ht
        rw [ht] at herr
        cases herr
    unfold MatchingEngineOrderBook.processClientRequest at hown
    refine ⟨hclient, hticker, ?_⟩
    rcases htype with hnew | hcancel
    · by_cases hzero : r.quantity = 0
      · exact Or.inr ⟨hnew, hzero⟩
      · refine Or.inl ?_
        by_contra hbad
        have hmalformed : Malformed r := fun hok => hbad ⟨hok.2.2.1, hok.2.2.2⟩
        have hsame := hiff.1 (h.unchanged hmalformed t (Or.inl ht))
        -- a NEW that fails a check has changed its book
        have hids : ¬ inRange r.clientId r.orderId = true
            ∨ (r.side ≠ .buy ∧ r.side ≠ .sell) := by
          by_contra hno
          refine hbad ⟨?_, fun _ => ?_⟩
          · by_contra horder
            refine hno (Or.inl ?_)
            unfold inRange
            rw [decide_eq_false horder, Bool.and_false]
            nofun
          · by_contra hside
            exact hno (Or.inr ⟨fun hb => hside (Or.inl hb),
              fun hs => hside (Or.inr hs)⟩)
        rw [hnew] at hown
        have hchanged := add_changes (engine.tickerOrderBook
          ⟨r.tickerId.toNat, hticker⟩).ladder.orderPool r.tickerId r.price
          hzero hids _ rfl
        rw [hown] at hchanged
        exact hchanged (congrArg _ hsame.1)
    · refine Or.inl ⟨?_, fun hnew => by rw [hcancel] at hnew; cases hnew⟩
      by_contra horder
      rw [hcancel] at hown
      have hrange : ¬ inRange r.clientId r.orderId = true := by
        unfold inRange
        rw [decide_eq_false horder, Bool.and_false]
        nofun
      have hfault := run_cancel_outOfRange
        (engine.tickerOrderBook ⟨r.tickerId.toNat, hticker⟩) r.tickerId
        hclient hrange
      rw [hown] at hfault
      cases hfault

/-- A CANCEL of an order id that the index does not have. -/
def farCancel : MatchingEngineClientRequest :=
  ⟨.cancel, 0, 0, 1048576, .invalid, 0, 0⟩

/-- A NEW that every check would accept. -/
def plainNew : MatchingEngineClientRequest :=
  ⟨.new, 3, 1, 5, .buy, 100, 10⟩

/-- A server that has just received one message. -/
def receivedOne (r : MatchingEngineClientRequest) : OrderServer :=
  { OrderServer.new with
    recvBuffer := fun _ => Wire.clientRequest.encode ⟨1, r⟩ }

theorem decode_one {r : MatchingEngineClientRequest}
    (h : Wire.RequestTyped r) :
    r = (Wire.clientRequest.decode
      (Wire.clientRequest.encode ⟨1, r⟩)).meClientRequest := by
  rw [Wire.clientRequest.decode_encode (Wire.valid_clientRequest h)]

theorem contained_plainNew :
    Contained (receivedOne plainNew) 0 0 new plainNew := by
  have htyped : Wire.RequestTyped plainNew :=
    ⟨nofun, trivial, by show (-2 ^ 63 : Int) ≤ 100; decide,
      by show (100 : Int) < 2 ^ 63; decide⟩
  exact (contained_of_checked .nil (receivedOne plainNew) 0 0
    (Wire.clientRequest.length_encode _) rfl (decode_one htyped)
    (Or.inl rfl)).1
    ⟨by decide, by decide, Or.inl ⟨by decide, fun _ => Or.inl rfl⟩⟩

theorem not_contained_farCancel :
    ¬ ∀ {rs : List MatchingEngineClientRequest} {engine : MatchingEngine},
      Run Processed new rs engine →
      ∀ (server : OrderServer) (socket : SocketID) (rxTime : Nanos)
        {bytes : List UInt8}, bytes.length = Wire.clientRequest.size →
      server.recvBuffer socket = bytes →
      ∀ {r : MatchingEngineClientRequest},
      r = (Wire.clientRequest.decode bytes).meClientRequest →
      r.type = .new ∨ r.type = .cancel →
      Contained server socket rxTime engine r := by
  intro hall
  have htyped : Wire.RequestTyped farCancel :=
    ⟨nofun, trivial, by show (-2 ^ 63 : Int) ≤ 0; decide,
      by show (0 : Int) < 2 ^ 63; decide⟩
  have hcontained := hall .nil (receivedOne farCancel) 0 0
    (Wire.clientRequest.length_encode _) rfl (decode_one htyped) (Or.inr rfl)
  have hticker : farCancel.tickerId.toNat < matchingEngineMaxTickers := by
    decide
  have hfault : (processClientRequest farCancel).run new
      = .error .outOfRange (new.setBook ⟨_, hticker⟩ .new) := by
    have hrange : ¬ inRange farCancel.clientId farCancel.orderId = true := by
      decide
    have hbook := run_cancel_outOfRange .new farCancel.tickerId (by decide)
      hrange
    unfold processClientRequest onBook
    rw [dif_pos hticker]
    exact run_zoom_error hbook
  exact hcontained.processed _ _ hfault rfl

end MatchingEngine

end ElectronicTrading
