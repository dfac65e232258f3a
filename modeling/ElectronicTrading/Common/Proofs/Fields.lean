/-
The ladder's memory, field by field: what each statement of
PriceLadder.lean leaves in every link, in the data of an order or level
that is not a link, in the two pools' use, in the heads and the slots.

Nothing here knows about rings. The lemmas are the simp set with which
straight-line pointer code is run symbolically: `run_…` turns a
statement into its `put…`, and the `put…_…` lemmas read a field back.
-/
import ElectronicTrading.Common.PriceLadder
import ElectronicTrading.Common.PriceTime

namespace ElectronicTrading

namespace Ladder

variable {K : Type}

-- ============================================================ the fields

def nextOrder (s : Ladder K) (p : Ptr) : Option Ptr := (s.order p).nextOrder
def prevOrder (s : Ladder K) (p : Ptr) : Option Ptr := (s.order p).prevOrder
def nextEntry (s : Ladder K) (p : Ptr) : Option Ptr := (s.level p).nextEntry
def prevEntry (s : Ladder K) (p : Ptr) : Option Ptr := (s.level p).prevEntry
def firstOrder (s : Ladder K) (p : Ptr) : Option Ptr := (s.level p).firstOrder
def levelSide (s : Ladder K) (p : Ptr) : Side := (s.level p).side
def levelPrice (s : Ladder K) (p : Ptr) : Price := (s.level p).price

def resting (s : Ladder K) (p : Ptr) : Resting K :=
  let o := s.order p
  { key := o.key, side := o.side, price := o.price, quantity := o.quantity,
    priority := o.priority }

def orderUsed (s : Ladder K) (p : Ptr) : Bool := s.orderPool.used p
def levelUsed (s : Ladder K) (p : Ptr) : Bool := s.ordersAtPricePool.used p

@[simp] theorem order_nextOrder (s : Ladder K) (p : Ptr) :
    (s.order p).nextOrder = s.nextOrder p := rfl
@[simp] theorem order_prevOrder (s : Ladder K) (p : Ptr) :
    (s.order p).prevOrder = s.prevOrder p := rfl
@[simp] theorem level_nextEntry (s : Ladder K) (p : Ptr) :
    (s.level p).nextEntry = s.nextEntry p := rfl
@[simp] theorem level_prevEntry (s : Ladder K) (p : Ptr) :
    (s.level p).prevEntry = s.prevEntry p := rfl
@[simp] theorem level_firstOrder (s : Ladder K) (p : Ptr) :
    (s.level p).firstOrder = s.firstOrder p := rfl
@[simp] theorem level_side (s : Ladder K) (p : Ptr) :
    (s.level p).side = s.levelSide p := rfl
@[simp] theorem level_price (s : Ladder K) (p : Ptr) :
    (s.level p).price = s.levelPrice p := rfl
@[simp] theorem order_key (s : Ladder K) (p : Ptr) :
    (s.order p).key = (s.resting p).key := rfl
@[simp] theorem order_side (s : Ladder K) (p : Ptr) :
    (s.order p).side = (s.resting p).side := rfl
@[simp] theorem order_price (s : Ladder K) (p : Ptr) :
    (s.order p).price = (s.resting p).price := rfl
@[simp] theorem order_quantity (s : Ladder K) (p : Ptr) :
    (s.order p).quantity = (s.resting p).quantity := rfl
@[simp] theorem order_priority (s : Ladder K) (p : Ptr) :
    (s.order p).priority = (s.resting p).priority := rfl

-- ===================================================== writes to an order

section putOrder

variable (s : Ladder K) (p : Ptr) (f : Order K → Order K)

theorem putOrder_order (q : Ptr) :
    (s.putOrder p f).order q = if q = p then f (s.order p) else s.order q :=
  MemPool.modify_deref _ _ _ _

@[simp] theorem putOrder_level : (s.putOrder p f).level = s.level := rfl
@[simp] theorem putOrder_nextEntry :
    (s.putOrder p f).nextEntry = s.nextEntry := rfl
@[simp] theorem putOrder_prevEntry :
    (s.putOrder p f).prevEntry = s.prevEntry := rfl
@[simp] theorem putOrder_firstOrder :
    (s.putOrder p f).firstOrder = s.firstOrder := rfl
@[simp] theorem putOrder_levelSide :
    (s.putOrder p f).levelSide = s.levelSide := rfl
@[simp] theorem putOrder_levelPrice :
    (s.putOrder p f).levelPrice = s.levelPrice := rfl
@[simp] theorem putOrder_ordersAtPricePool :
    (s.putOrder p f).ordersAtPricePool = s.ordersAtPricePool := rfl
@[simp] theorem putOrder_levelUsed :
    (s.putOrder p f).levelUsed = s.levelUsed := rfl
@[simp] theorem putOrder_best : (s.putOrder p f).best = s.best := by
  funext b
  cases b <;> rfl
@[simp] theorem putOrder_priceOrdersAtPrice :
    (s.putOrder p f).priceOrdersAtPrice = s.priceOrdersAtPrice := rfl
@[simp] theorem putOrder_getOrdersAtPrice :
    (s.putOrder p f).getOrdersAtPrice = s.getOrdersAtPrice := rfl
@[simp] theorem putOrder_orderUsed :
    (s.putOrder p f).orderUsed = s.orderUsed := by
  funext q
  exact MemPool.modify_used _ _ _ _

end putOrder

section orderFields

variable (s : Ladder K) (p q : Ptr) (v : Option Ptr) (n : Quantity)

@[simp] theorem setNext_nextOrder :
    (s.putOrder p (.setNext v)).nextOrder q
      = if q = p then v else s.nextOrder q := by
  unfold nextOrder
  rw [putOrder_order]
  split <;> rfl

@[simp] theorem setNext_prevOrder :
    (s.putOrder p (.setNext v)).prevOrder q = s.prevOrder q := by
  unfold prevOrder
  rw [putOrder_order]
  split
  · next h => rw [h]; rfl
  · rfl

@[simp] theorem setNext_resting :
    (s.putOrder p (.setNext v)).resting q = s.resting q := by
  unfold resting
  rw [putOrder_order]
  split
  · next h => rw [h]; rfl
  · rfl

@[simp] theorem setPrev_prevOrder :
    (s.putOrder p (.setPrev v)).prevOrder q
      = if q = p then v else s.prevOrder q := by
  unfold prevOrder
  rw [putOrder_order]
  split <;> rfl

@[simp] theorem setPrev_nextOrder :
    (s.putOrder p (.setPrev v)).nextOrder q = s.nextOrder q := by
  unfold nextOrder
  rw [putOrder_order]
  split
  · next h => rw [h]; rfl
  · rfl

@[simp] theorem setPrev_resting :
    (s.putOrder p (.setPrev v)).resting q = s.resting q := by
  unfold resting
  rw [putOrder_order]
  split
  · next h => rw [h]; rfl
  · rfl

@[simp] theorem setQuantity_nextOrder :
    (s.putOrder p (.setQuantity n)).nextOrder q = s.nextOrder q := by
  unfold nextOrder
  rw [putOrder_order]
  split
  · next h => rw [h]; rfl
  · rfl

@[simp] theorem setQuantity_prevOrder :
    (s.putOrder p (.setQuantity n)).prevOrder q = s.prevOrder q := by
  unfold prevOrder
  rw [putOrder_order]
  split
  · next h => rw [h]; rfl
  · rfl

theorem setQuantity_resting :
    (s.putOrder p (.setQuantity n)).resting q
      = if q = p then { s.resting p with quantity := n } else s.resting q := by
  unfold resting
  rw [putOrder_order]
  split <;> rfl

end orderFields

-- ====================================================== writes to a level

section putLevel

variable (s : Ladder K) (p : Ptr) (f : OrdersAtPrice → OrdersAtPrice)

theorem putLevel_level (q : Ptr) :
    (s.putLevel p f).level q = if q = p then f (s.level p) else s.level q :=
  MemPool.modify_deref _ _ _ _

@[simp] theorem putLevel_order : (s.putLevel p f).order = s.order := rfl
@[simp] theorem putLevel_nextOrder :
    (s.putLevel p f).nextOrder = s.nextOrder := rfl
@[simp] theorem putLevel_prevOrder :
    (s.putLevel p f).prevOrder = s.prevOrder := rfl
@[simp] theorem putLevel_resting :
    (s.putLevel p f).resting = s.resting := rfl
@[simp] theorem putLevel_orderPool :
    (s.putLevel p f).orderPool = s.orderPool := rfl
@[simp] theorem putLevel_orderUsed :
    (s.putLevel p f).orderUsed = s.orderUsed := rfl
@[simp] theorem putLevel_best : (s.putLevel p f).best = s.best := by
  funext b
  cases b <;> rfl
@[simp] theorem putLevel_priceOrdersAtPrice :
    (s.putLevel p f).priceOrdersAtPrice = s.priceOrdersAtPrice := rfl
@[simp] theorem putLevel_getOrdersAtPrice :
    (s.putLevel p f).getOrdersAtPrice = s.getOrdersAtPrice := rfl
@[simp] theorem putLevel_size :
    (s.putLevel p f).ordersAtPricePool.size = s.ordersAtPricePool.size := rfl
@[simp] theorem putLevel_levelUsed :
    (s.putLevel p f).levelUsed = s.levelUsed := by
  funext q
  exact MemPool.modify_used _ _ _ _

end putLevel

section levelFields

variable (s : Ladder K) (p q : Ptr) (v : Option Ptr)

@[simp] theorem setNext_nextEntry :
    (s.putLevel p (.setNext v)).nextEntry q
      = if q = p then v else s.nextEntry q := by
  unfold nextEntry
  rw [putLevel_level]
  split <;> rfl

@[simp] theorem setNext_prevEntry :
    (s.putLevel p (.setNext v)).prevEntry q = s.prevEntry q := by
  unfold prevEntry
  rw [putLevel_level]
  split
  · next h => rw [h]; rfl
  · rfl

@[simp] theorem setNext_firstOrder :
    (s.putLevel p (.setNext v)).firstOrder q = s.firstOrder q := by
  unfold firstOrder
  rw [putLevel_level]
  split
  · next h => rw [h]; rfl
  · rfl

@[simp] theorem setPrev_nextEntry :
    (s.putLevel p (.setPrev v)).nextEntry q = s.nextEntry q := by
  unfold nextEntry
  rw [putLevel_level]
  split
  · next h => rw [h]; rfl
  · rfl

@[simp] theorem setPrev_prevEntry :
    (s.putLevel p (.setPrev v)).prevEntry q
      = if q = p then v else s.prevEntry q := by
  unfold prevEntry
  rw [putLevel_level]
  split <;> rfl

@[simp] theorem setPrev_firstOrder :
    (s.putLevel p (.setPrev v)).firstOrder q = s.firstOrder q := by
  unfold firstOrder
  rw [putLevel_level]
  split
  · next h => rw [h]; rfl
  · rfl

@[simp] theorem setFirst_nextEntry :
    (s.putLevel p (.setFirst v)).nextEntry q = s.nextEntry q := by
  unfold nextEntry
  rw [putLevel_level]
  split
  · next h => rw [h]; rfl
  · rfl

@[simp] theorem setFirst_prevEntry :
    (s.putLevel p (.setFirst v)).prevEntry q = s.prevEntry q := by
  unfold prevEntry
  rw [putLevel_level]
  split
  · next h => rw [h]; rfl
  · rfl

@[simp] theorem setFirst_firstOrder :
    (s.putLevel p (.setFirst v)).firstOrder q
      = if q = p then v else s.firstOrder q := by
  unfold firstOrder
  rw [putLevel_level]
  split <;> rfl

/-- No statement changes a level's side or price. -/
theorem putLevel_sidePrice (f : OrdersAtPrice → OrdersAtPrice)
    (hf : ∀ l, (f l).side = l.side ∧ (f l).price = l.price) :
    (s.putLevel p f).levelSide = s.levelSide
      ∧ (s.putLevel p f).levelPrice = s.levelPrice := by
  constructor
  · funext r
    show ((s.putLevel p f).level r).side = _
    rw [putLevel_level]
    split
    · next h => rw [(hf _).1, h]; rfl
    · rfl
  · funext r
    show ((s.putLevel p f).level r).price = _
    rw [putLevel_level]
    split
    · next h => rw [(hf _).2, h]; rfl
    · rfl

@[simp] theorem setNext_levelSide :
    (s.putLevel p (.setNext v)).levelSide = s.levelSide :=
  (putLevel_sidePrice s p (.setNext v) fun _ => ⟨rfl, rfl⟩).1
@[simp] theorem setNext_levelPrice :
    (s.putLevel p (.setNext v)).levelPrice = s.levelPrice :=
  (putLevel_sidePrice s p (.setNext v) fun _ => ⟨rfl, rfl⟩).2
@[simp] theorem setPrev_levelSide :
    (s.putLevel p (.setPrev v)).levelSide = s.levelSide :=
  (putLevel_sidePrice s p (.setPrev v) fun _ => ⟨rfl, rfl⟩).1
@[simp] theorem setPrev_levelPrice :
    (s.putLevel p (.setPrev v)).levelPrice = s.levelPrice :=
  (putLevel_sidePrice s p (.setPrev v) fun _ => ⟨rfl, rfl⟩).2
@[simp] theorem setFirst_levelSide :
    (s.putLevel p (.setFirst v)).levelSide = s.levelSide :=
  (putLevel_sidePrice s p (.setFirst v) fun _ => ⟨rfl, rfl⟩).1
@[simp] theorem setFirst_levelPrice :
    (s.putLevel p (.setFirst v)).levelPrice = s.levelPrice :=
  (putLevel_sidePrice s p (.setFirst v) fun _ => ⟨rfl, rfl⟩).2

end levelFields

-- =============================================== writes to heads and slots

section putBest

variable (s : Ladder K) (v : Option Ptr) (b : Bool)

@[simp] theorem putBest_best (c : Bool) :
    (s.putBest v b).best c = if c = b then v else s.best c := by
  cases b <;> cases c <;> rfl

@[simp] theorem putBest_orderPool :
    (s.putBest v b).orderPool = s.orderPool := by cases b <;> rfl
@[simp] theorem putBest_ordersAtPricePool :
    (s.putBest v b).ordersAtPricePool = s.ordersAtPricePool := by
  cases b <;> rfl
@[simp] theorem putBest_priceOrdersAtPrice :
    (s.putBest v b).priceOrdersAtPrice = s.priceOrdersAtPrice := by
  cases b <;> rfl
@[simp] theorem putBest_getOrdersAtPrice :
    (s.putBest v b).getOrdersAtPrice = s.getOrdersAtPrice := by
  cases b <;> rfl
@[simp] theorem putBest_order : (s.putBest v b).order = s.order := by
  cases b <;> rfl
@[simp] theorem putBest_level : (s.putBest v b).level = s.level := by
  cases b <;> rfl
@[simp] theorem putBest_nextOrder :
    (s.putBest v b).nextOrder = s.nextOrder := by cases b <;> rfl
@[simp] theorem putBest_prevOrder :
    (s.putBest v b).prevOrder = s.prevOrder := by cases b <;> rfl
@[simp] theorem putBest_resting :
    (s.putBest v b).resting = s.resting := by cases b <;> rfl
@[simp] theorem putBest_nextEntry :
    (s.putBest v b).nextEntry = s.nextEntry := by cases b <;> rfl
@[simp] theorem putBest_prevEntry :
    (s.putBest v b).prevEntry = s.prevEntry := by cases b <;> rfl
@[simp] theorem putBest_firstOrder :
    (s.putBest v b).firstOrder = s.firstOrder := by cases b <;> rfl
@[simp] theorem putBest_levelSide :
    (s.putBest v b).levelSide = s.levelSide := by cases b <;> rfl
@[simp] theorem putBest_levelPrice :
    (s.putBest v b).levelPrice = s.levelPrice := by cases b <;> rfl
@[simp] theorem putBest_orderUsed :
    (s.putBest v b).orderUsed = s.orderUsed := by cases b <;> rfl
@[simp] theorem putBest_levelUsed :
    (s.putBest v b).levelUsed = s.levelUsed := by cases b <;> rfl

end putBest

section putSlot

variable (s : Ladder K) (i : Fin matchingEngineMaxPriceLevels)
  (v : Option Ptr)

@[simp] theorem putSlot_priceOrdersAtPrice
    (j : Fin matchingEngineMaxPriceLevels) :
    (s.putSlot i v).priceOrdersAtPrice j
      = if j = i then v else s.priceOrdersAtPrice j := rfl

@[simp] theorem putSlot_best : (s.putSlot i v).best = s.best := by
  funext b
  cases b <;> rfl
@[simp] theorem putSlot_orderPool :
    (s.putSlot i v).orderPool = s.orderPool := rfl
@[simp] theorem putSlot_ordersAtPricePool :
    (s.putSlot i v).ordersAtPricePool = s.ordersAtPricePool := rfl
@[simp] theorem putSlot_order : (s.putSlot i v).order = s.order := rfl
@[simp] theorem putSlot_level : (s.putSlot i v).level = s.level := rfl
@[simp] theorem putSlot_nextOrder :
    (s.putSlot i v).nextOrder = s.nextOrder := rfl
@[simp] theorem putSlot_prevOrder :
    (s.putSlot i v).prevOrder = s.prevOrder := rfl
@[simp] theorem putSlot_resting : (s.putSlot i v).resting = s.resting := rfl
@[simp] theorem putSlot_nextEntry :
    (s.putSlot i v).nextEntry = s.nextEntry := rfl
@[simp] theorem putSlot_prevEntry :
    (s.putSlot i v).prevEntry = s.prevEntry := rfl
@[simp] theorem putSlot_firstOrder :
    (s.putSlot i v).firstOrder = s.firstOrder := rfl
@[simp] theorem putSlot_levelSide :
    (s.putSlot i v).levelSide = s.levelSide := rfl
@[simp] theorem putSlot_levelPrice :
    (s.putSlot i v).levelPrice = s.levelPrice := rfl
@[simp] theorem putSlot_orderUsed :
    (s.putSlot i v).orderUsed = s.orderUsed := rfl
@[simp] theorem putSlot_levelUsed :
    (s.putSlot i v).levelUsed = s.levelUsed := rfl

end putSlot

-- ======================================================== the statements

section run

variable (s : Ladder K) (p : Ptr)

@[simp] theorem run_readOrder :
    (readOrder (some p)).run s = .ok (s.order p) s := rfl
@[simp] theorem run_readLevel :
    (readLevel (some p)).run s = .ok (s.level p) s := rfl
@[simp] theorem run_setNextOrder (v : Option Ptr) :
    (setNextOrder (some p) v).run s = .ok () (s.putOrder p (.setNext v)) := rfl
@[simp] theorem run_setPrevOrder (v : Option Ptr) :
    (setPrevOrder (some p) v).run s = .ok () (s.putOrder p (.setPrev v)) := rfl
@[simp] theorem run_setNextEntry (v : Option Ptr) :
    (setNextEntry (some p) v).run s = .ok () (s.putLevel p (.setNext v)) := rfl
@[simp] theorem run_setPrevEntry (v : Option Ptr) :
    (setPrevEntry (some p) v).run s = .ok () (s.putLevel p (.setPrev v)) := rfl
@[simp] theorem run_setFirstOrder (v : Option Ptr) :
    (setFirstOrder (some p) v).run s
      = .ok () (s.putLevel p (.setFirst v)) := rfl
@[simp] theorem run_setBest (b : Bool) (v : Option Ptr) :
    (setBest b v).run s = .ok () (s.putBest v b) := rfl
@[simp] theorem run_setOrdersAtPrice (price : Price) (v : Option Ptr) :
    (setOrdersAtPrice price v).run s
      = .ok () (s.putSlot (priceToIndex price) v) := rfl

end run

end Ladder

end ElectronicTrading
