/-
What every reachable market book keeps, whatever the updates were.

A feed may send anything: two prices of one slot, a CLEAR that leaves
dangling slots behind, and the rings are then no rings any more. Three
facts survive, since the code that links blocks writes no identifier, no
slot and no pool: the orders in use are exactly those of the index, each
under its id; a level in use is the target of a slot; both pools are as
`MemPool` keeps them (`Tidy`).

`Kept` is the invariant in the middle of an update: the index and the
slots are what they were, and the levels in use lie on a given shelf.
-/
import ElectronicTrading.Common.Proofs.Fields
import ElectronicTrading.Trading.Proofs.Mirror
import ElectronicTrading.Lib.Runs

namespace ElectronicTrading

open Exec Runs

namespace Ladder

variable {K : Type}

/-- The slots, as a table. -/
abbrev Slots := Fin matchingEngineMaxPriceLevels → Option Ptr

/-- In the middle of an update: the orders in use are those of `ids`,
the levels in use are on the `shelf`, and the table is `slots`. -/
structure Kept (ids : K → Option Ptr) (shelf : Ptr → Prop) (slots : Slots)
    (s : Ladder K) : Prop where
  orders : s.orderPool.Ok
  orders_size : s.orderPool.size = matchingEngineMaxOrderIds
  levels : s.ordersAtPricePool.Ok
  levels_size : s.ordersAtPricePool.size = matchingEngineMaxPriceLevels
  indexed : ∀ k p, ids k = some p →
    s.orderUsed p = true ∧ (s.order p).key = k
  owned : ∀ p, s.orderUsed p = true → ids (s.order p).key = some p
  stocked : ∀ p, s.levelUsed p = true → shelf p
  table : s.priceOrdersAtPrice = slots

/-- The targets of the slots. -/
def targets (slots : Slots) (p : Ptr) : Prop := ∃ i, slots i = some p

/-- The table with one slot changed. -/
def changed (slots : Slots) (i : Fin matchingEngineMaxPriceLevels)
    (v : Option Ptr) : Slots := fun j => if j = i then v else slots j

/-- Between updates: every level in use is a slot's target. -/
def Shelved (ids : K → Option Ptr) (s : Ladder K) : Prop :=
  Kept ids (targets s.priceOrdersAtPrice) s.priceOrdersAtPrice s

variable {ids : K → Option Ptr} {shelf : Ptr → Prop} {slots : Slots}

theorem Kept.mono {s : Ladder K} {shelf' : Ptr → Prop}
    (h : Kept ids shelf slots s) (hle : ∀ p, shelf p → shelf' p) :
    Kept ids shelf' slots s :=
  { h with stocked := fun p hp => hle p (h.stocked p hp) }

theorem Kept.shelved {s : Ladder K} (h : Kept ids shelf slots s)
    (hle : ∀ p, shelf p → targets slots p) : Shelved ids s := by
  unfold Shelved
  rw [h.table]
  exact h.mono hle

-- ============================================================= statements

/-- A program that returns leaves the shelf in order. -/
abbrev Ends (P : Ladder K → Prop) (x : Prog (Ladder K) Unit)
    (Q : Ladder K → Prop) : Prop :=
  Spec P x (fun _ => Q) fun _ _ => True

section statements

variable (p : Option Ptr)

theorem readOrder_keeps {I : Ladder K → Prop} : Keeps I (readOrder p) := by
  cases p with
  | none => exact Keeps.throw _
  | some p => exact fun _ hs => hs

theorem readLevel_keeps {I : Ladder K → Prop} : Keeps I (readLevel p) := by
  cases p with
  | none => exact Keeps.throw _
  | some p => exact fun _ hs => hs

theorem writeOrder_keeps {f : Order K → Order K}
    (hf : ∀ o, (f o).key = o.key) :
    Keeps (Kept ids shelf slots) (writeOrder f p) := by
  cases p with
  | none => exact Keeps.throw _
  | some p =>
      refine Keeps.modify fun s hs => ?_
      have hkey : ∀ q, ((s.putOrder p f).order q).key = (s.order q).key := by
        intro q
        rw [putOrder_order]
        split
        · next h => rw [hf, h]
        · rfl
      exact
        { hs with
          orders := hs.orders.modify p f
          indexed := fun k q hq => by
            rw [putOrder_orderUsed, hkey]
            exact hs.indexed k q hq
          owned := fun q hq => by
            rw [putOrder_orderUsed] at hq
            rw [hkey]
            exact hs.owned q hq }

theorem writeLevel_keeps (f : OrdersAtPrice → OrdersAtPrice) :
    Keeps (Kept ids shelf slots) (writeLevel (K := K) f p) := by
  cases p with
  | none => exact Keeps.throw _
  | some p =>
      refine Keeps.modify fun s hs => ?_
      exact
        { hs with
          levels := hs.levels.modify p f
          stocked := fun q hq => by
            rw [putLevel_levelUsed] at hq
            exact hs.stocked q hq }

variable (v : Option Ptr)

theorem setNextOrder_keeps :
    Keeps (Kept ids shelf slots) (setNextOrder p v) :=
  writeOrder_keeps p fun _ => rfl
theorem setPrevOrder_keeps :
    Keeps (Kept ids shelf slots) (setPrevOrder p v) :=
  writeOrder_keeps p fun _ => rfl
theorem setNextEntry_keeps :
    Keeps (Kept ids shelf slots) (setNextEntry (K := K) p v) :=
  writeLevel_keeps p _
theorem setPrevEntry_keeps :
    Keeps (Kept ids shelf slots) (setPrevEntry (K := K) p v) :=
  writeLevel_keeps p _
theorem setFirstOrder_keeps :
    Keeps (Kept ids shelf slots) (setFirstOrder (K := K) p v) :=
  writeLevel_keeps p _

theorem setBest_keeps (b : Bool) :
    Keeps (Kept ids shelf slots) (setBest (K := K) b v) := by
  refine Keeps.modify fun s hs => ?_
  cases b <;> exact { hs with }

theorem setOrdersAtPrice_ends (price : Price) :
    Ends (Kept ids shelf slots) (setOrdersAtPrice (K := K) price v)
      (Kept ids shelf (changed slots (priceToIndex price) v)) := by
  refine Spec.modify fun s hs => ?_
  refine { hs with table := ?_ }
  funext j
  rw [putSlot_priceOrdersAtPrice, hs.table]
  rfl

/-- A level that is released was on the shelf and leaves it. -/
theorem deallocateLevel_ends :
    Ends (Kept ids shelf slots) (deallocateLevel (K := K) p)
      fun s => Kept ids (fun q => shelf q ∧ p ≠ some q) slots s
        ∧ ∃ q, shelf q := by
  cases p with
  | none => exact Spec.throw fun _ _ => trivial
  | some p =>
      refine Spec.zoom fun s hs => ?_
      cases hused : s.ordersAtPricePool.used p with
      | false =>
          obtain ⟨e, he⟩ := MemPool.deallocate_error hused
          rw [he]
          trivial
      | true =>
          obtain ⟨hrun, hok⟩ := MemPool.deallocate_ok hs.levels hused
          rw [hrun]
          refine ⟨{ hs with levels := hok, stocked := fun q hq => ?_ },
            p, hs.stocked p hused⟩
          have hq' : (s.ordersAtPricePool.put p _).used q = true := hq
          rw [MemPool.put_used] at hq'
          split at hq'
          · cases hq'
          · next hne =>
              refine ⟨hs.stocked q hq', fun heq => hne ?_⟩
              cases heq
              rfl

/-- Releasing a level leaves the heads alone. -/
theorem deallocateLevel_best {heads : Bool → Option Ptr} :
    Ends (fun s => s.best = heads) (deallocateLevel (K := K) p)
      fun s => s.best = heads := by
  cases p with
  | none => exact Spec.throw fun _ _ => trivial
  | some p =>
      refine Spec.zoom fun s hs => ?_
      cases (MemPool.deallocate p).run s.ordersAtPricePool with
      | ok a m => exact hs
      | error e m => trivial

end statements

-- ============================================================== functions

/-- A removed level leaves the shelf and its slot. -/
theorem removeOrderAtPrice_ends (side : Side) (price : Price) :
    Ends (Kept (K := K) ids (targets slots) slots)
      (removeOrderAtPrice side price) (Shelved ids) := by
  unfold removeOrderAtPrice
  refine Spec.get_bind fun s hs => ?_
  refine Spec.get_bind fun s' hs' => ?_
  have hend : Ends (Kept (K := K) ids (targets slots) slots)
      (do setOrdersAtPrice price none
          deallocateLevel (s'.getOrdersAtPrice price)) (Shelved ids) := by
    refine Spec.bind (setOrdersAtPrice_ends none price) fun _ => ?_
    refine Spec.mono (deallocateLevel_ends (s'.getOrdersAtPrice price))
      (fun _ h => h) (fun _ t ht => ht.1.shelved ?_) fun _ _ h => h
    -- a target of another slot is still one
    intro q h
    obtain ⟨⟨i, hi⟩, hne⟩ := h
    refine ⟨i, ?_⟩
    unfold changed
    rw [if_neg, hi]
    intro heq
    apply hne
    show s'.priceOrdersAtPrice (priceToIndex price) = some q
    rw [hs'.table, ← heq, hi]
  have hclear : Ends (Kept (K := K) ids (targets slots) slots)
      (do setNextEntry (s'.getOrdersAtPrice price) none
          setPrevEntry (s'.getOrdersAtPrice price) none
          setOrdersAtPrice price none
          deallocateLevel (s'.getOrdersAtPrice price)) (Shelved ids) :=
    (setNextEntry_keeps _ _).bind_spec fun _ =>
      (setPrevEntry_keeps _ _).bind_spec fun _ => hend
  refine (readLevel_keeps _).bind_spec fun l => ?_
  refine Spec.ite (fun _ => ?_) fun _ => ?_
  · exact (setBest_keeps _ _).bind_spec fun _ => hend
  · refine (readLevel_keeps _).bind_spec fun l₁ => ?_
    refine (readLevel_keeps _).bind_spec fun l₂ => ?_
    refine (setNextEntry_keeps _ _).bind_spec fun _ => ?_
    refine (readLevel_keeps _).bind_spec fun l₃ => ?_
    refine (readLevel_keeps _).bind_spec fun l₄ => ?_
    refine (setPrevEntry_keeps _ _).bind_spec fun _ => ?_
    refine Spec.ite (fun _ => ?_) fun _ => hclear
    refine (readLevel_keeps _).bind_spec fun l₅ => ?_
    exact (setBest_keeps _ _).bind_spec fun _ => hclear

/-- A keeping program leaves the shelf in order. -/
theorem shelved_of_keeps {x : Prog (Ladder K) Unit}
    (h : Keeps (Kept ids (targets slots) slots) x) :
    Ends (Kept ids (targets slots) slots) x (Shelved ids) :=
  Spec.mono h.spec (fun _ h => h) (fun _ _ h => h.shelved fun _ hp => hp)
    fun _ _ h => h

/-- What ends in order from every table does so from a shelved ladder. -/
theorem ends_of_shelved {x : Prog (Ladder K) Unit} {Q : Ladder K → Prop}
    (h : ∀ slots, Ends (Kept ids (targets slots) slots) x Q) :
    Ends (Shelved ids) x Q := fun s hs => h s.priceOrdersAtPrice s hs

theorem unlinkOrder_ends (p : Option Ptr) :
    Ends (Shelved (K := K) ids) (unlinkOrder p) (Shelved ids) := by
  refine ends_of_shelved fun slots => ?_
  unfold unlinkOrder
  refine (readOrder_keeps _).bind_spec fun o => ?_
  refine Spec.get_bind fun s _ => ?_
  have hend : Ends (Kept (K := K) ids (targets slots) slots)
      (do setNextOrder p none; setPrevOrder p none) (Shelved ids) :=
    (setNextOrder_keeps _ _).bind_spec fun _ =>
      shelved_of_keeps (setPrevOrder_keeps _ _)
  refine Spec.ite (fun _ => removeOrderAtPrice_ends _ _) fun _ => ?_
  refine (setNextOrder_keeps _ _).bind_spec fun _ => ?_
  refine (setPrevOrder_keeps _ _).bind_spec fun _ => ?_
  refine (readLevel_keeps _).bind_spec fun l => ?_
  refine Spec.ite (fun _ => ?_) fun _ => hend
  exact (setFirstOrder_keeps _ _).bind_spec fun _ => hend

theorem seekTarget_keeps {I : Ladder K → Prop} (e : OrdersAtPrice)
    (best : Option Ptr) (fuel : Nat) : ∀ (target : Option Ptr) (after : Bool),
    Keeps I (seekTarget e best fuel target after) := by
  induction fuel with
  | zero => exact fun _ _ => Keeps.throw _
  | succ fuel ih =>
      intro target after
      unfold seekTarget
      refine Keeps.ite (fun _ => ?_) fun _ => Keeps.pure _
      refine Keeps.bind (readLevel_keeps _) fun l => ?_
      refine Keeps.ite (fun _ => ?_) fun _ => ih _ _
      exact Keeps.bind (readLevel_keeps _) fun l => ih _ _

theorem findTarget_keeps {I : Ladder K → Prop} (e : OrdersAtPrice)
    (best : Option Ptr) : Keeps I (findTarget e best) := by
  unfold findTarget
  refine Keeps.get_bind fun s _ => ?_
  refine Keeps.bind (readLevel_keeps _) fun l => ?_
  refine Keeps.ite (fun _ => ?_) fun _ => seekTarget_keeps _ _ _ _ _
  refine Keeps.bind (readLevel_keeps _) fun l₁ => ?_
  exact Keeps.bind (readLevel_keeps _) fun l₂ => seekTarget_keeps _ _ _ _ _

/-- A new level gets the slot of its price. -/
theorem addOrderAtPrice_ends {q : Ptr} {price : Price}
    (hfree : slots (priceToIndex price) = none) :
    Ends (fun s => Kept (K := K) ids (fun p => targets slots p ∨ p = q) slots s
        ∧ s.levelPrice q = price)
      (addOrderAtPrice (some q)) (Shelved ids) := by
  intro s h
  obtain ⟨hs, hprice⟩ := h
  -- with the slot set, the new level is a target too
  have htargets : ∀ p, targets slots p ∨ p = q →
      targets (changed slots (priceToIndex price) (some q)) p := by
    intro p h
    rcases h with ⟨i, hi⟩ | rfl
    · refine ⟨i, ?_⟩
      unfold changed
      rw [if_neg, hi]
      intro heq
      rw [heq, hfree] at hi
      cases hi
    · exact ⟨_, if_pos rfl⟩
  unfold addOrderAtPrice
  rw [run_bind_ok (run_readLevel s q), level_price, hprice]
  generalize s.level q = e
  refine Spec.bind (P := Kept (K := K) ids (fun p => targets slots p ∨ p = q)
    slots) (M := fun _ => Kept ids
      (targets (changed slots (priceToIndex price) (some q)))
      (changed slots (priceToIndex price) (some q)))
    (Spec.mono (setOrdersAtPrice_ends _ price) (fun _ h => h)
      (fun _ _ h => h.mono htargets) fun _ _ h => h) (fun _ => ?_) s hs
  refine shelved_of_keeps (Keeps.get_bind fun t _ => ?_)
  refine Keeps.ite (fun _ => ?_) fun _ => ?_
  · refine Keeps.bind (setBest_keeps _ _) fun _ => ?_
    exact Keeps.bind (setNextEntry_keeps _ _) fun _ => setPrevEntry_keeps _ _
  · refine Keeps.bind (findTarget_keeps _ _) fun x => ?_
    obtain ⟨target, after⟩ := x
    refine Keeps.ite (fun _ => ?_) fun _ => ?_
    · refine Keeps.bind (readLevel_keeps _) fun l => ?_
      refine Keeps.bind (setPrevEntry_keeps _ _) fun _ => ?_
      refine Keeps.bind (readLevel_keeps _) fun l₁ => ?_
      refine Keeps.bind (setPrevEntry_keeps _ _) fun _ => ?_
      refine Keeps.bind (readLevel_keeps _) fun l₂ => ?_
      exact Keeps.bind (setNextEntry_keeps _ _) fun _ => setNextEntry_keeps _ _
    · refine Keeps.bind (readLevel_keeps _) fun l => ?_
      refine Keeps.bind (setPrevEntry_keeps _ _) fun _ => ?_
      refine Keeps.bind (setNextEntry_keeps _ _) fun _ => ?_
      refine Keeps.bind (readLevel_keeps _) fun l₁ => ?_
      refine Keeps.bind (setNextEntry_keeps _ _) fun _ => ?_
      refine Keeps.bind (setPrevEntry_keeps _ _) fun _ => ?_
      refine Keeps.bind (readLevel_keeps _) fun l₂ => ?_
      refine Keeps.ite (fun _ => ?_) fun _ => Keeps.pure _
      refine Keeps.bind (readLevel_keeps _) fun l₃ => ?_
      exact Keeps.bind (setNextEntry_keeps _ _) fun _ => setBest_keeps _ _

/-- A level that is allocated is on the shelf. -/
theorem allocateLevel_ends (l : OrdersAtPrice) :
    Spec (Kept (K := K) ids shelf slots) (allocateLevel l)
      (fun x s => ∃ q, x = some q
        ∧ Kept ids (fun p => shelf p ∨ p = q) slots s
        ∧ s.levelPrice q = l.price) fun _ _ => True := by
  refine Spec.bind (M := fun q s =>
    Kept ids (fun p => shelf p ∨ p = q) slots s ∧ s.levelPrice q = l.price)
    ?_ fun q => Spec.pure fun s hs => ⟨q, rfl, hs⟩
  refine Spec.zoom fun s hs => ?_
  rcases MemPool.allocate_cases hs.levels l with
    ⟨m, hrun, hok, hsize, hstore⟩ | ⟨⟨m, hrun⟩, -⟩
  · rw [hrun]
    refine ⟨{ hs with
        levels := hok
        levels_size := hsize.trans hs.levels_size
        stocked := fun p hp => ?_ }, ?_⟩
    · have hp' : m.used p = true := hp
      rw [MemPool.used_of_store hstore] at hp'
      split at hp'
      · next heq => exact Or.inr heq
      · exact Or.inl (hs.stocked p hp')
    · show (m.deref _).price = l.price
      rw [MemPool.deref_of_store hstore, if_pos rfl]
  · rw [hrun]
    trivial

theorem linkOrder_ends (p : Option Ptr) :
    Ends (Shelved (K := K) ids) (linkOrder p) (Shelved ids) := by
  refine ends_of_shelved fun slots => ?_
  unfold linkOrder
  refine (readOrder_keeps _).bind_spec fun o => ?_
  refine Spec.get_bind fun s hs => ?_
  refine Spec.ite (fun hnone => ?_) fun _ => ?_
  · have hfree : slots (priceToIndex o.price) = none := by
      rw [← hs.table]
      exact hnone
    refine (setPrevOrder_keeps _ _).bind_spec fun _ => ?_
    refine (setNextOrder_keeps _ _).bind_spec fun _ => ?_
    refine Spec.bind (allocateLevel_ends _) fun x => ?_
    intro t h
    obtain ⟨q, rfl, ht⟩ := h
    exact addOrderAtPrice_ends hfree t ht
  · refine shelved_of_keeps ?_
    refine Keeps.bind (readLevel_keeps _) fun l => ?_
    refine Keeps.bind (readOrder_keeps _) fun a => ?_
    refine Keeps.bind (setNextOrder_keeps _ _) fun _ => ?_
    refine Keeps.bind (readOrder_keeps _) fun b => ?_
    refine Keeps.bind (setPrevOrder_keeps _ _) fun _ => ?_
    exact Keeps.bind (setNextOrder_keeps _ _) fun _ => setPrevOrder_keeps _ _

-- ================================================================= orders

section orders

variable [DecidableEq K] {s : Ladder K}

/-- The index with one entry changed. -/
def entered (ids : K → Option Ptr) (k : K) (v : Option Ptr) :
    K → Option Ptr := fun id => if id = k then v else ids id

/-- A new order takes a block no entry of the index has. -/
theorem Kept.allocateOrder_cases {o : Order K} (h : Kept ids shelf slots s)
    (hnew : ids o.key = none) :
    (∃ p m, (allocateOrder o).run s = .ok (some p) { s with orderPool := m }
        ∧ m.deref p = o
        ∧ Kept (entered ids o.key (some p)) shelf slots
          { s with orderPool := m })
      ∨ ∃ e t, (allocateOrder o).run s = .error e t := by
  rcases MemPool.allocate_cases h.orders o with
    ⟨m, hrun, hok, hsize, hstore⟩ | ⟨⟨m, hrun⟩, -⟩
  · left
    generalize hp : s.orderPool.nextFreeIndex = p at hrun hstore
    have hfree : s.orderUsed p = false := hp ▸ h.orders.cursor_free
    have hused : ∀ q, m.used q = (if q = p then true else s.orderUsed q) :=
      MemPool.used_of_store hstore
    have hderef : ∀ q, m.deref q = if q = p then o else s.order q :=
      MemPool.deref_of_store hstore
    refine ⟨p, m, ?_, by rw [hderef, if_pos rfl], ?_⟩
    · unfold allocateOrder
      refine (run_bind_ok (run_zoom_ok hrun)).trans rfl
    · exact
        { h with
          orders := hok
          orders_size := hsize.trans h.orders_size
          indexed := fun k q hq => by
            show m.used q = true ∧ (m.deref q).key = k
            rw [hused, hderef]
            unfold entered at hq
            split at hq
            · next hk =>
                cases hq
                rw [if_pos rfl, if_pos rfl]
                exact ⟨rfl, hk.symm⟩
            · have hold := h.indexed k q hq
              have hqp : q ≠ p := fun heq => by
                rw [heq, hfree] at hold
                cases hold.1
              rw [if_neg hqp, if_neg hqp]
              exact hold
          owned := fun q hq => by
            show entered ids o.key (some p) (m.deref q).key = some q
            have hq' : m.used q = true := hq
            rw [hused] at hq'
            rw [hderef]
            unfold entered
            by_cases hqp : q = p
            · rw [if_pos hqp, if_pos rfl, hqp]
            · rw [if_neg hqp] at hq' ⊢
              have hold := h.owned q hq'
              rw [if_neg, hold]
              intro heq
              rw [heq, hnew] at hold
              cases hold }
  · right
    have hzoom : (onOrderPool (MemPool.allocate o)).run s
        = .error .poolOutOfSpace { s with orderPool := m } :=
      run_zoom_error hrun
    exact ⟨.poolOutOfSpace, _, run_bind_error hzoom⟩

/-- An order of the index can be released. -/
theorem Kept.deallocateOrder_spec (h : Kept ids shelf slots s) {k : K} {p : Ptr}
    (hk : ids k = some p) :
    ∃ m, (deallocateOrder (some p)).run s = .ok () { s with orderPool := m }
      ∧ Kept (entered ids k none) shelf slots { s with orderPool := m } := by
  obtain ⟨hused, hkey⟩ := h.indexed k p hk
  obtain ⟨hrun, hok⟩ := MemPool.deallocate_ok h.orders hused
  refine ⟨_, run_zoom_ok hrun, ?_⟩
  have hput : ∀ q, (s.orderPool.put p
      { s.orderPool.store p with isFree := true }).used q
      = if q = p then false else s.orderUsed q := fun q =>
    MemPool.put_used _ _ _ _
  have hderef : ∀ q, (s.orderPool.put p
      { s.orderPool.store p with isFree := true }).deref q = s.order q := by
    intro q
    rw [MemPool.put_deref]
    split
    · next heq => rw [heq]; rfl
    · rfl
  exact
    { h with
      orders := hok
      indexed := fun k' q hq => by
        show (s.orderPool.put p _).used q = true
          ∧ ((s.orderPool.put p _).deref q).key = k'
        rw [hput, hderef]
        unfold entered at hq
        split at hq
        · cases hq
        · next hne =>
            obtain ⟨hu, hkey'⟩ := h.indexed k' q hq
            rw [if_neg]
            · exact ⟨hu, hkey'⟩
            · intro heq
              apply hne
              rw [← hkey', heq, hkey]
      owned := fun q hq => by
        show entered ids k none ((s.orderPool.put p _).deref q).key = some q
        have hq' : (s.orderPool.put p _).used q = true := hq
        rw [hput] at hq'
        rw [hderef]
        split at hq'
        · cases hq'
        · next hne =>
            have hold := h.owned q hq'
            unfold entered
            rw [if_neg, hold]
            intro heq
            rw [heq, hk, Option.some.injEq] at hold
            exact hne hold.symm }

end orders

end Ladder

-- =============================================================== the book

namespace MarketOrderBook

open Ladder

/-- The index is the orders in use, and the slots reach the levels in
use. -/
structure Tidy (s : MarketOrderBook) : Prop where
  shelved : Shelved s.oidToOrder s.ladder
  ranges : ∀ id p, s.oidToOrder id = some p → InRange id

theorem tidy_new : Tidy new where
  shelved :=
    { orders := MemPool.ok_new (by decide) _
      orders_size := rfl
      levels := MemPool.ok_new (by decide) _
      levels_size := rfl
      indexed := nofun
      owned := nofun
      stocked := nofun
      table := rfl }
  ranges := nofun

/-- What a returning member leaves. -/
abbrev Leaves {α : Type} (P : MarketOrderBook → Prop) (x : Member α)
    (Q : MarketOrderBook → Prop) : Prop :=
  Spec P x (fun _ => Q) fun _ _ => True

variable {s : MarketOrderBook}

/-- A ladder's program leaves the index and the BBO alone. -/
theorem onLadder_leaves {α : Type} {P : Ladder OrderID → Prop}
    {x : Prog (Ladder OrderID) α} {Q : α → Ladder OrderID → Prop}
    (h : Spec P x Q fun _ _ => True) (ids : OrderID → Option Ptr)
    (bbo : BBO) :
    Spec (fun s => P s.ladder ∧ s.oidToOrder = ids ∧ s.bbo = bbo)
      (onLadder x)
      (fun a s => Q a s.ladder ∧ s.oidToOrder = ids ∧ s.bbo = bbo)
      fun _ _ => True := by
  refine Spec.zoom fun s hs => ?_
  have hx := h s.ladder hs.1
  cases hrun : x.run s.ladder with
  | ok a l => rw [hrun] at hx; exact ⟨hx, hs.2⟩
  | error e l => trivial

/-- `getOrder` reads an entry of the index. -/
theorem run_getOrder_cases (s : MarketOrderBook) (id : OrderID) :
    (InRange id ∧ (getOrder id).run s = .ok (s.oidToOrder id) s)
      ∨ (getOrder id).run s = .error .outOfRange s := by
  by_cases h : InRange id
  · exact Or.inl ⟨h, run_getOrder h⟩
  · right
    unfold InRange at h
    simp [getOrder, h]

theorem onAdd_leaves (u : MatchingEngineMarketUpdate) :
    Leaves Tidy (onAdd u) Tidy := by
  intro s hs
  unfold onAdd
  rcases run_getOrder_cases s u.orderId with ⟨hrange, hget⟩ | herr
  swap
  · rw [run_bind_error herr]
    trivial
  rw [run_bind_ok hget]
  cases hid : s.oidToOrder u.orderId with
  | some p => trivial
  | none =>
      refine Spec.bind (P := fun t => t = s) (M := fun x t => ∃ p, x = some p
        ∧ Shelved (entered s.oidToOrder u.orderId (some p)) t.ladder
        ∧ t.oidToOrder = s.oidToOrder) ?_ (fun x => ?_) s rfl
      · rintro t rfl
        rcases hs.shelved.allocateOrder_cases (o := unlinked (added u)) hid with
          ⟨p, m, hrun, -, hkept⟩ | ⟨e, l, hrun⟩
        · have hladder := run_onLadder_ok hrun
          unfold unlinked added at hladder
          rw [hladder]
          exact ⟨p, rfl, hkept, rfl⟩
        · have hladder := run_onLadder_error hrun
          unfold unlinked added at hladder
          rw [hladder]
          trivial
      · intro t h
        obtain ⟨p, rfl, ht, hids⟩ := h
        unfold addOrder
        refine Spec.bind (onLadder_leaves (linkOrder_ends (some p)) _ _)
          (fun _ => ?_) t ⟨ht, hids, rfl⟩
        intro t' h
        obtain ⟨ht', hids', -⟩ := h
        rw [run_bind_ok (run_onLadder_readOrder t' p)]
        have hkey := (ht'.indexed u.orderId p (if_pos rfl)).2
        rw [hkey, run_setOrder _ hrange, hids']
        refine ⟨ht', fun id q hq => ?_⟩
        have hq' : (if id = u.orderId then some p else s.oidToOrder id)
          = some q := hq
        split at hq'
        · next heq => rw [heq]; exact hrange
        · exact hs.ranges id q hq'

theorem onModify_leaves (u : MatchingEngineMarketUpdate) :
    Leaves Tidy (onModify u) Tidy := by
  intro s hs
  unfold onModify
  rcases run_getOrder_cases s u.orderId with ⟨-, hget⟩ | herr
  swap
  · rw [run_bind_error herr]
    trivial
  rw [run_bind_ok hget]
  cases hid : s.oidToOrder u.orderId with
  | none => trivial
  | some p =>
      have hkeep := (writeOrder_keeps (some p)
        (f := .setQuantity u.quantity) fun _ => rfl) s.ladder hs.shelved
      exact ⟨hkeep, hs.ranges⟩

theorem onCancel_leaves (u : MatchingEngineMarketUpdate) :
    Leaves Tidy (onCancel u) Tidy := by
  intro s hs
  unfold onCancel
  rcases run_getOrder_cases s u.orderId with ⟨hrange, hget⟩ | herr
  swap
  · rw [run_bind_error herr]
    trivial
  rw [run_bind_ok hget]
  cases hid : s.oidToOrder u.orderId with
  | none => trivial
  | some p =>
      rw [run_bind_ok (run_assert _ _ s)]
      unfold removeOrder
      refine Spec.bind (onLadder_leaves (unlinkOrder_ends (some p)) _ _)
        (fun _ => ?_) s ⟨hs.shelved, rfl, rfl⟩
      intro t h
      obtain ⟨ht, hids, -⟩ := h
      rw [run_bind_ok (run_onLadder_readOrder t p)]
      have hkey := (ht.indexed u.orderId p hid).2
      obtain ⟨m, hrun, hkept⟩ := ht.deallocateOrder_spec hid
      have hdealloc := run_onLadder_ok (s := { t with oidToOrder :=
        fun id => if id = u.orderId then none else t.oidToOrder id }) hrun
      rw [hkey, run_bind_ok (run_setOrder none hrange), hdealloc, hids]
      refine ⟨hkept, fun id q hq => ?_⟩
      have hq' : (if id = u.orderId then none else s.oidToOrder id)
        = some q := hq
      split at hq'
      · cases hq'
      · exact hs.ranges id q hq'

-- =================================================================== CLEAR

/-- The loop of a CLEAR releases the orders of the entries it visits. -/
theorem deallocateOrders_spec {shelf : Ptr → Prop} {slots : Slots}
    (ids : List OrderID) : ∀ (held : OrderID → Option Ptr)
    (s : MarketOrderBook), ids.Nodup → Kept held shelf slots s.ladder →
    (∀ id ∈ ids, s.oidToOrder id = held id) →
    ∃ m, (deallocateOrders ids).run s
        = .ok () { s with ladder := { s.ladder with orderPool := m } }
      ∧ Kept (fun id => if id ∈ ids then none else held id) shelf slots
        { s.ladder with orderPool := m } := by
  induction ids with
  | nil =>
      intro held s _ hs _
      refine ⟨s.ladder.orderPool, rfl, ?_⟩
      simpa using hs
  | cons id ids ih =>
      intro held s hnd hs hread
      obtain ⟨hid, hnd'⟩ := List.nodup_cons.1 hnd
      have hfinal : (fun id' => if id' ∈ ids then none
            else entered held id none id')
          = fun id' => if id' ∈ id :: ids then none else held id' := by
        funext id'
        unfold entered
        by_cases h₁ : id' ∈ ids
        · simp [h₁]
        · by_cases h₂ : id' = id <;> simp [h₁, h₂]
      have hread' : ∀ id' ∈ ids, s.oidToOrder id' = entered held id none id' := by
        intro id' hmem
        unfold entered
        rw [if_neg fun heq : id' = id => hid (heq ▸ hmem)]
        exact hread id' (List.mem_cons_of_mem id hmem)
      have hhead := hread id (List.mem_cons_self ..)
      unfold deallocateOrders
      cases hentry : s.oidToOrder id with
      | none =>
          have hsame : entered held id none = held := by
            funext id'
            unfold entered
            split
            · next heq => rw [heq, ← hhead, hentry]
            · rfl
          obtain ⟨m, hrun, hkept⟩ := ih held s hnd' hs fun id' hmem =>
            hread id' (List.mem_cons_of_mem id hmem)
          refine ⟨m, ?_, ?_⟩
          · simp only [EStateM.run_bind, EStateM.run_get, hentry]
            exact hrun
          · rw [← hfinal, hsame]
            exact hkept
      | some p =>
          obtain ⟨m₁, hfree, hkept₁⟩ := hs.deallocateOrder_spec
            (hhead.symm.trans hentry)
          obtain ⟨m, hrun, hkept⟩ := ih (entered held id none)
            { s with ladder := { s.ladder with orderPool := m₁ } } hnd' hkept₁
            hread'
          refine ⟨m, ?_, ?_⟩
          · simp only [EStateM.run_bind, EStateM.run_get, hentry]
            rw [if_pos (by simp), run_bind_ok (run_onLadder_ok hfree)]
            exact hrun
          · rw [← hfinal]
            exact hkept

end MarketOrderBook

end ElectronicTrading
