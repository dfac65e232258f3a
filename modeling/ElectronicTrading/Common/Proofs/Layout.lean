/-
How a well-formed ladder is laid out in memory.

A `Layout` is the ghost reading of the rings: the level pointers of each
side, best first, and the order pointers of each level, oldest first.
`Laid s lay loose` says that memory `s` is linked as `lay` reads it.
`loose` is at most one order that is allocated and on no ring: the one
being added or removed.

# Levels and queues apart

`LevelsLaid` speaks of the level rings, the heads and the slots;
`QueuesLaid` of the order rings. A statement that writes orders leaves
the first alone and one that writes level links leaves most of the
second alone, and the two `congr` lemmas say so.

# What is not part of it

That an order has its level's side and price is `Matched`, kept apart
on purpose: linking an order into the level its slot names preserves
`Laid` whatever that level's price is (`linkOrder_append` in Link.lean),
and whether it preserves `Matched` is the whole question about prices
that share a slot.
-/
import ElectronicTrading.Common.Proofs.Fields
import ElectronicTrading.Lib.Ring

namespace ElectronicTrading

open LinkedRing

/-- `addAfter` asks whether the level looked at is better. -/
theorem addAfter_eq {b : Bool} {e t : OrdersAtPrice} (h : e.side = sideOf b) :
    addAfter e t = decide (Better b t.price e.price) := by
  unfold addAfter Better
  rw [h]
  cases b <;> simp [sideOf]

-- ============================================================ the layout

/-- A reading of the rings. -/
structure Layout where
  levels : Bool → List Ptr
  queue : Ptr → List Ptr

namespace Layout

def empty : Layout where
  levels := fun _ => []
  queue := fun _ => []

/-- `p` is a level of one of the sides. -/
def HasLevel (lay : Layout) (p : Ptr) : Prop := ∃ b, p ∈ lay.levels b

/-- `o` is queued at one of the levels. -/
def HasOrder (lay : Layout) (o : Ptr) : Prop := ∃ p, o ∈ lay.queue p

def setLevels (lay : Layout) (b : Bool) (l : List Ptr) : Layout :=
  { lay with levels := fun c => if c = b then l else lay.levels c }

def setQueue (lay : Layout) (p : Ptr) (l : List Ptr) : Layout :=
  { lay with queue := fun q => if q = p then l else lay.queue q }

@[simp] theorem setLevels_levels (lay : Layout) (b : Bool) (l : List Ptr)
    (c : Bool) :
    (lay.setLevels b l).levels c = if c = b then l else lay.levels c := rfl
@[simp] theorem setLevels_queue (lay : Layout) (b : Bool) (l : List Ptr) :
    (lay.setLevels b l).queue = lay.queue := rfl
@[simp] theorem setQueue_levels (lay : Layout) (p : Ptr) (l : List Ptr) :
    (lay.setQueue p l).levels = lay.levels := rfl
@[simp] theorem setQueue_queue (lay : Layout) (p : Ptr) (l : List Ptr)
    (q : Ptr) :
    (lay.setQueue p l).queue q = if q = p then l else lay.queue q := rfl

end Layout

namespace Ladder

variable {K : Type}

/-- The level rings, their heads and the slots. -/
structure LevelsLaid (s : Ladder K) (lay : Layout) : Prop where
  pool : s.ordersAtPricePool.Ok
  size : s.ordersAtPricePool.size = matchingEngineMaxPriceLevels
  head : ∀ b, s.best b = (lay.levels b).head?
  ring : ∀ b, IsRing s.nextEntry s.prevEntry (lay.levels b)
  sorted : ∀ b, (lay.levels b).Pairwise
    fun p q => Better b (s.levelPrice p) (s.levelPrice q)
  side : ∀ b, ∀ p ∈ lay.levels b, s.levelSide p = sideOf b
  slot : ∀ b, ∀ p ∈ lay.levels b,
    s.priceOrdersAtPrice (priceToIndex (s.levelPrice p)) = some p
  slots : ∀ i p, s.priceOrdersAtPrice i = some p →
    lay.HasLevel p ∧ priceToIndex (s.levelPrice p) = i
  used : ∀ p, s.levelUsed p = true ↔ lay.HasLevel p

/-- The order rings. -/
structure QueuesLaid (s : Ladder K) (lay : Layout) (loose : Option Ptr) :
    Prop where
  pool : s.orderPool.Ok
  size : s.orderPool.size = matchingEngineMaxOrderIds
  first : ∀ p, lay.HasLevel p → s.firstOrder p = (lay.queue p).head?
  nonempty : ∀ p, lay.HasLevel p → lay.queue p ≠ []
  ring : ∀ p, IsRing s.nextOrder s.prevOrder (lay.queue p)
  unique : ∀ p q o, o ∈ lay.queue p → o ∈ lay.queue q → p = q
  level : ∀ p, lay.queue p ≠ [] → lay.HasLevel p
  used : ∀ o, s.orderUsed o = true ↔ lay.HasOrder o ∨ loose = some o
  loose : ∀ o, loose = some o → ¬ lay.HasOrder o

/-- Memory `s` is linked as `lay` reads it; besides the queued orders at
most `loose` is allocated. -/
structure Laid (s : Ladder K) (lay : Layout) (loose : Option Ptr) :
    Prop where
  levels : LevelsLaid s lay
  queues : QueuesLaid s lay loose

/-- Every queued order has its level's side and price. -/
def Matched (s : Ladder K) (lay : Layout) : Prop :=
  ∀ p o, o ∈ lay.queue p →
    (s.resting o).side = s.levelSide p
      ∧ (s.resting o).price = s.levelPrice p

-- ================================================================ frames

theorem LevelsLaid.congr {s s' : Ladder K} {lay : Layout}
    (h : LevelsLaid s lay) (hpool : s'.ordersAtPricePool.Ok)
    (hsize : s'.ordersAtPricePool.size = s.ordersAtPricePool.size)
    (hused : s'.levelUsed = s.levelUsed) (hbest : s'.best = s.best)
    (hnext : s'.nextEntry = s.nextEntry) (hprev : s'.prevEntry = s.prevEntry)
    (hside : s'.levelSide = s.levelSide)
    (hprice : s'.levelPrice = s.levelPrice)
    (hslots : s'.priceOrdersAtPrice = s.priceOrdersAtPrice) :
    LevelsLaid s' lay where
  pool := hpool
  size := by rw [hsize]; exact h.size
  head := by rw [hbest]; exact h.head
  ring := by rw [hnext, hprev]; exact h.ring
  sorted := by rw [hprice]; exact h.sorted
  side := by rw [hside]; exact h.side
  slot := by rw [hslots, hprice]; exact h.slot
  slots := by rw [hslots, hprice]; exact h.slots
  used := by rw [hused]; exact h.used

/-- The level side depends on the pool of levels, the heads and the
slots. -/
theorem LevelsLaid.of_pool {s s' : Ladder K} {lay : Layout}
    (h : LevelsLaid s lay)
    (hpool : s'.ordersAtPricePool = s.ordersAtPricePool)
    (hbest : s'.best = s.best)
    (hslots : s'.priceOrdersAtPrice = s.priceOrdersAtPrice) :
    LevelsLaid s' lay := by
  have hlevel : s'.level = s.level := by
    unfold level
    rw [hpool]
  have hused : s'.levelUsed = s.levelUsed := by
    unfold levelUsed
    rw [hpool]
  refine h.congr ?_ ?_ hused hbest ?_ ?_ ?_ ?_ hslots
  · rw [hpool]
    exact h.pool
  · rw [hpool]
  · unfold nextEntry
    rw [hlevel]
  · unfold prevEntry
    rw [hlevel]
  · unfold levelSide
    rw [hlevel]
  · unfold levelPrice
    rw [hlevel]

/-- A write to an order keeps the level side. -/
theorem LevelsLaid.putOrder {s : Ladder K} {lay : Layout}
    (h : LevelsLaid s lay) (p : Ptr) (f : Order K → Order K) :
    LevelsLaid (s.putOrder p f) lay :=
  h.congr h.pool rfl rfl (putOrder_best s p f) rfl rfl rfl rfl rfl

theorem LevelsLaid.setFirst {s : Ladder K} {lay : Layout}
    (h : LevelsLaid s lay) (p : Ptr) (v : Option Ptr) :
    LevelsLaid (s.putLevel p (.setFirst v)) lay :=
  h.congr (h.pool.modify _ _) rfl (putLevel_levelUsed _ _ _)
    (putLevel_best _ _ _) (funext fun q => setFirst_nextEntry s p q v)
    (funext fun q => setFirst_prevEntry s p q v) (setFirst_levelSide _ _ _)
    (setFirst_levelPrice _ _ _) rfl

/-- The level side of a layout does not see the queues. -/
theorem LevelsLaid.setQueue {s : Ladder K} {lay : Layout}
    (h : LevelsLaid s lay) (p : Ptr) (l : List Ptr) :
    LevelsLaid s (lay.setQueue p l) :=
  ⟨h.pool, h.size, h.head, h.ring, h.sorted, h.side, h.slot, h.slots, h.used⟩

theorem QueuesLaid.congr {s s' : Ladder K} {lay lay' : Layout}
    {loose : Option Ptr} (h : QueuesLaid s lay loose)
    (hpool : s'.orderPool = s.orderPool)
    (hfirst : ∀ p, lay.HasLevel p → s'.firstOrder p = s.firstOrder p)
    (hqueue : lay'.queue = lay.queue)
    (hlevels : ∀ p, lay'.HasLevel p ↔ lay.HasLevel p) :
    QueuesLaid s' lay' loose := by
  have hnext : s'.nextOrder = s.nextOrder := by
    funext o; simp only [nextOrder, order, hpool]
  have hprev : s'.prevOrder = s.prevOrder := by
    funext o; simp only [prevOrder, order, hpool]
  have hused : s'.orderUsed = s.orderUsed := by
    funext o; simp only [orderUsed, hpool]
  have horder : ∀ o, lay'.HasOrder o ↔ lay.HasOrder o := fun o => by
    simp only [Layout.HasOrder, hqueue]
  exact
    { pool := by rw [hpool]; exact h.pool
      size := by rw [hpool]; exact h.size
      first := fun p hp => by
        rw [hfirst p ((hlevels p).1 hp), hqueue]
        exact h.first p ((hlevels p).1 hp)
      nonempty := fun p hp => by
        rw [hqueue]
        exact h.nonempty p ((hlevels p).1 hp)
      ring := fun p => by
        rw [hnext, hprev, hqueue]
        exact h.ring p
      unique := by rw [hqueue]; exact h.unique
      level := fun p hp => by
        rw [hqueue] at hp
        exact (hlevels p).2 (h.level p hp)
      used := fun o => by
        rw [hused, horder]
        exact h.used o
      loose := fun o ho => by
        rw [horder]
        exact h.loose o ho }

/-- One level's queue is replaced. What leaves the queue is the new
loose order and what joins it is the old one; links of orders that are
neither queued there nor loose are as they were. -/
theorem QueuesLaid.replace {s s' : Ladder K} {lay : Layout} {p : Ptr}
    {l : List Ptr} {loose loose' : Option Ptr} (h : QueuesLaid s lay loose)
    (hp : lay.HasLevel p) (hpool : s'.orderPool.Ok)
    (hsize : s'.orderPool.size = s.orderPool.size)
    (hused : s'.orderUsed = s.orderUsed)
    (hfirst : ∀ q, q ≠ p → s'.firstOrder q = s.firstOrder q)
    (hhead : s'.firstOrder p = l.head?) (hne : l ≠ [])
    (hring : IsRing s'.nextOrder s'.prevOrder l)
    (hframe : ∀ y, y ∉ lay.queue p → loose ≠ some y →
      s'.nextOrder y = s.nextOrder y ∧ s'.prevOrder y = s.prevOrder y)
    (hmem : ∀ y, y ∈ l ∨ loose' = some y ↔ y ∈ lay.queue p ∨ loose = some y)
    (hloose : ∀ y, loose' = some y → y ∉ l) :
    QueuesLaid s' (lay.setQueue p l) loose' := by
  -- an order of another queue is neither `p`'s nor loose
  have hother : ∀ q, q ≠ p → ∀ y ∈ lay.queue q,
      y ∉ lay.queue p ∧ loose ≠ some y := by
    intro q hqp y hy
    refine ⟨fun hyp => hqp (h.unique q p y hy hyp), fun hly => ?_⟩
    exact h.loose y hly ⟨q, hy⟩
  have hnot : ∀ q, q ≠ p → ∀ y ∈ lay.queue q, y ∉ l := by
    intro q hqp y hy hyl
    obtain ⟨h1, h2⟩ := hother q hqp y hy
    rcases (hmem y).1 (Or.inl hyl) with h3 | h3
    · exact h1 h3
    · exact h2 h3
  refine
    { pool := hpool
      size := hsize.trans h.size
      first := ?_
      nonempty := ?_
      ring := ?_
      unique := ?_
      level := ?_
      used := ?_
      loose := ?_ }
  · intro q hq
    rw [Layout.setQueue_queue]
    split
    · next heq => rw [heq, hhead]
    · next hqp => rw [hfirst q hqp, h.first q hq]
  · intro q hq
    rw [Layout.setQueue_queue]
    split
    · exact hne
    · exact h.nonempty q hq
  · intro q
    rw [Layout.setQueue_queue]
    split
    · exact hring
    · next hqp =>
        refine (h.ring q).congr (fun y hy => ?_) (fun y hy => ?_)
        · obtain ⟨h1, h2⟩ := hother q hqp y hy
          exact (hframe y h1 h2).1
        · obtain ⟨h1, h2⟩ := hother q hqp y hy
          exact (hframe y h1 h2).2
  · intro q r y hq hr
    rw [Layout.setQueue_queue] at hq hr
    by_cases hqp : q = p
    · by_cases hrp : r = p
      · rw [hqp, hrp]
      · rw [if_pos hqp] at hq
        rw [if_neg hrp] at hr
        exact absurd hq (hnot r hrp y hr)
    · rw [if_neg hqp] at hq
      by_cases hrp : r = p
      · rw [if_pos hrp] at hr
        exact absurd hr (hnot q hqp y hq)
      · rw [if_neg hrp] at hr
        exact h.unique q r y hq hr
  · intro q hqne
    by_cases hqp : q = p
    · rw [hqp]
      exact hp
    · rw [Layout.setQueue_queue, if_neg hqp] at hqne
      exact h.level q hqne
  · intro y
    rw [hused, h.used]
    constructor
    · intro h
      rcases h with ⟨q, hy⟩ | hly
      · by_cases hqp : q = p
        · rcases (hmem y).2 (Or.inl (hqp ▸ hy)) with hyl | hyl
          · exact Or.inl ⟨p, by rw [Layout.setQueue_queue, if_pos rfl]; exact hyl⟩
          · exact Or.inr hyl
        · exact Or.inl ⟨q, by rw [Layout.setQueue_queue, if_neg hqp]; exact hy⟩
      · rcases (hmem y).2 (Or.inr hly) with hyl | hyl
        · exact Or.inl ⟨p, by rw [Layout.setQueue_queue, if_pos rfl]; exact hyl⟩
        · exact Or.inr hyl
    · intro h
      rcases h with ⟨q, hy⟩ | hly
      · rw [Layout.setQueue_queue] at hy
        by_cases hqp : q = p
        · rw [if_pos hqp] at hy
          rcases (hmem y).1 (Or.inl hy) with hyl | hyl
          · exact Or.inl ⟨p, hyl⟩
          · exact Or.inr hyl
        · rw [if_neg hqp] at hy
          exact Or.inl ⟨q, hy⟩
      · rcases (hmem y).1 (Or.inr hly) with hyl | hyl
        · exact Or.inl ⟨p, hyl⟩
        · exact Or.inr hyl
  · intro y hly h
    obtain ⟨q, hy⟩ := h
    rw [Layout.setQueue_queue] at hy
    by_cases hqp : q = p
    · rw [if_pos hqp] at hy
      exact hloose y hly hy
    · rw [if_neg hqp] at hy
      obtain ⟨h1, h2⟩ := hother q hqp y hy
      rcases (hmem y).1 (Or.inr hly) with h3 | h3
      · exact h1 h3
      · exact h2 h3

/-- Everything but the level links, the heads and the slots is as it
was. -/
structure SameButLevelLinks (s s' : Ladder K) : Prop where
  orderPool : s'.orderPool = s.orderPool
  firstOrder : s'.firstOrder = s.firstOrder
  levelSide : s'.levelSide = s.levelSide
  levelPrice : s'.levelPrice = s.levelPrice
  levelUsed : s'.levelUsed = s.levelUsed
  pool : s.ordersAtPricePool.Ok → s'.ordersAtPricePool.Ok
  size : s'.ordersAtPricePool.size = s.ordersAtPricePool.size

theorem SameButLevelLinks.refl (s : Ladder K) : SameButLevelLinks s s :=
  ⟨rfl, rfl, rfl, rfl, rfl, id, rfl⟩

theorem SameButLevelLinks.setNext {s s' : Ladder K}
    (h : SameButLevelLinks s s') (p : Ptr) (v : Option Ptr) :
    SameButLevelLinks s (s'.putLevel p (.setNext v)) where
  orderPool := h.orderPool
  firstOrder := (funext fun q => setNext_firstOrder s' p q v).trans
    h.firstOrder
  levelSide := (setNext_levelSide s' p v).trans h.levelSide
  levelPrice := (setNext_levelPrice s' p v).trans h.levelPrice
  levelUsed := (putLevel_levelUsed s' p _).trans h.levelUsed
  pool := fun hp => (h.pool hp).modify _ _
  size := h.size

theorem SameButLevelLinks.setPrev {s s' : Ladder K}
    (h : SameButLevelLinks s s') (p : Ptr) (v : Option Ptr) :
    SameButLevelLinks s (s'.putLevel p (.setPrev v)) where
  orderPool := h.orderPool
  firstOrder := (funext fun q => setPrev_firstOrder s' p q v).trans
    h.firstOrder
  levelSide := (setPrev_levelSide s' p v).trans h.levelSide
  levelPrice := (setPrev_levelPrice s' p v).trans h.levelPrice
  levelUsed := (putLevel_levelUsed s' p _).trans h.levelUsed
  pool := fun hp => (h.pool hp).modify _ _
  size := h.size

theorem SameButLevelLinks.putBest {s s' : Ladder K}
    (h : SameButLevelLinks s s') (v : Option Ptr) (b : Bool) :
    SameButLevelLinks s (s'.putBest v b) where
  orderPool := (putBest_orderPool s' v b).trans h.orderPool
  firstOrder := (putBest_firstOrder s' v b).trans h.firstOrder
  levelSide := (putBest_levelSide s' v b).trans h.levelSide
  levelPrice := (putBest_levelPrice s' v b).trans h.levelPrice
  levelUsed := (putBest_levelUsed s' v b).trans h.levelUsed
  pool := by rw [putBest_ordersAtPricePool]; exact h.pool
  size := by rw [putBest_ordersAtPricePool]; exact h.size

theorem SameButLevelLinks.putSlot {s s' : Ladder K}
    (h : SameButLevelLinks s s') (i : Fin matchingEngineMaxPriceLevels)
    (v : Option Ptr) : SameButLevelLinks s (s'.putSlot i v) :=
  ⟨h.orderPool, h.firstOrder, h.levelSide, h.levelPrice, h.levelUsed,
    h.pool, h.size⟩

-- ======================================================= reading a layout

/-- A level is on one side only. -/
theorem LevelsLaid.side_unique {s : Ladder K} {lay : Layout}
    (h : LevelsLaid s lay) {b c : Bool} {p : Ptr} (hb : p ∈ lay.levels b)
    (hc : p ∈ lay.levels c) : b = c :=
  sideOf_injective ((h.side b p hb).symm.trans (h.side c p hc))

/-- The slot of a level's price is that level. -/
theorem LevelsLaid.slot_price {s : Ladder K} {lay : Layout}
    (h : LevelsLaid s lay) {p : Ptr} (hp : lay.HasLevel p) :
    s.getOrdersAtPrice (s.levelPrice p) = some p := by
  obtain ⟨b, hb⟩ := hp
  exact h.slot b p hb

/-- Two levels whose prices share a slot are one. -/
theorem LevelsLaid.eq_of_index {s : Ladder K} {lay : Layout}
    (h : LevelsLaid s lay) {p q : Ptr} (hp : lay.HasLevel p)
    (hq : lay.HasLevel q)
    (hidx : priceToIndex (s.levelPrice p) = priceToIndex (s.levelPrice q)) :
    p = q := by
  have h1 := h.slot_price hp
  have h2 := h.slot_price hq
  unfold getOrdersAtPrice at h1 h2
  rw [hidx, h2] at h1
  exact (Option.some.inj h1).symm

/-- An order on a ring is allocated. -/
theorem QueuesLaid.used_of_mem {s : Ladder K} {lay : Layout}
    {loose : Option Ptr} (h : QueuesLaid s lay loose) {p o : Ptr}
    (ho : o ∈ lay.queue p) : s.orderUsed o = true :=
  (h.used o).2 (Or.inl ⟨p, ho⟩)

/-- The level an order is queued at is a level of the ladder. -/
theorem QueuesLaid.hasLevel_of_mem {s : Ladder K} {lay : Layout}
    {loose : Option Ptr} (h : QueuesLaid s lay loose) {p o : Ptr}
    (ho : o ∈ lay.queue p) : lay.HasLevel p :=
  h.level p (List.ne_nil_of_mem ho)

/-- The constructed ladder is laid out empty. -/
theorem laid_new (o : Order K) : Laid (Ladder.new o) .empty none where
  levels :=
    { pool := MemPool.ok_new (by decide) _
      size := rfl
      head := fun b => by cases b <;> rfl
      ring := fun _ => isRing_nil
      sorted := fun _ => List.Pairwise.nil
      side := fun _ p hp => by cases hp
      slot := fun _ p hp => by cases hp
      slots := fun i p hp => by cases hp
      used := fun p => by
        constructor
        · intro hp
          simp [levelUsed, Ladder.new] at hp
        · intro h
          obtain ⟨b, hb⟩ := h
          cases hb }
  queues :=
    { pool := MemPool.ok_new (by decide) _
      size := rfl
      first := fun p hp => by obtain ⟨b, hb⟩ := hp; cases hb
      nonempty := fun p hp => by obtain ⟨b, hb⟩ := hp; cases hb
      ring := fun _ => isRing_nil
      unique := fun p q o ho => by cases ho
      level := fun p hp => absurd rfl hp
      used := fun o => by
        constructor
        · intro ho
          simp [orderUsed, Ladder.new] at ho
        · intro h
          rcases h with ⟨p, hp⟩ | hl
          · cases hp
          · cases hl
      loose := fun o ho => by cases ho }

end Ladder

end ElectronicTrading
