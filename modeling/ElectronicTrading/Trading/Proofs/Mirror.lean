/-
`onMarketUpdate`, case by case, on the lists of the market book's
orders.

`Mirror` is the invariant between updates: the ladder is booked and the
index is exactly the queued orders, each under its id. The updates that
the exchange sends for one order are a single change of a list each: an
ADD puts an order in its place, a MODIFY changes a quantity, a CANCEL
takes an order out. The BBO that follows is read off the list of its
side (`topOfBook_spec`).
-/
import ElectronicTrading.Common.Proofs.Lists
import ElectronicTrading.Trading.MarketOrderBook

namespace ElectronicTrading

open LinkedRing PriceTime

namespace MarketOrderBook

open Ladder

-- ============================================================== statements

theorem run_onLadder_ok {α : Type} {x : Prog (Ladder OrderID) α}
    {s : MarketOrderBook} {a : α} {l : Ladder OrderID}
    (h : x.run s.ladder = .ok a l) :
    (onLadder x).run s = .ok a { s with ladder := l } := Exec.run_zoom_ok h

theorem run_onLadder_error {α : Type} {x : Prog (Ladder OrderID) α}
    {s : MarketOrderBook} {e : Fault} {l : Ladder OrderID}
    (h : x.run s.ladder = .error e l) :
    (onLadder x).run s = .error e { s with ladder := l } :=
  Exec.run_zoom_error h

@[simp] theorem run_onLadder_readOrder (s : MarketOrderBook) (p : Ptr) :
    (onLadder (readOrder (some p))).run s = .ok (s.ladder.order p) s := rfl

/-- The index has the id. -/
def InRange (orderId : OrderID) : Prop :=
  orderId.toNat < matchingEngineMaxOrderIds

theorem run_getOrder {s : MarketOrderBook} {orderId : OrderID}
    (h : InRange orderId) :
    (getOrder orderId).run s = .ok (s.oidToOrder orderId) s := by
  unfold InRange at h
  simp [getOrder, h]

theorem run_setOrder {s : MarketOrderBook} {orderId : OrderID}
    (order : Option Ptr) (h : InRange orderId) :
    (setOrder orderId order).run s = .ok () { s with
      oidToOrder := fun id =>
        if id = orderId then order else s.oidToOrder id } := by
  unfold InRange at h
  simp [setOrder, h]

-- ================================================================= the BBO

section BBO

variable {s : Ladder OrderID} {lay : Layout}

/-- The update is at the top of the list, or above it. -/
def atTop (b : Bool) (l : List (Resting OrderID))
    (u : MatchingEngineMarketUpdate) : Bool :=
  match l with
  | [] => false
  | x :: _ => u.side == sideOf b && !decide (Better b x.price u.price)

/-- `bid_updated` and `ask_updated` ask for the top of the list. -/
theorem run_isUpdated (h : Booked s lay none) (isBuy : Bool)
    (u : MatchingEngineMarketUpdate) :
    (isUpdated isBuy u).run s
      = .ok (atTop isBuy (s.restingOrders isBuy) u) s := by
  have hlist := h.laid.restingOrders_eq isBuy
  rcases h.laid.head_cases isBuy with
    ⟨hbest, hnil⟩ | ⟨p, o, rest, hbest, -, horders, -, hop⟩
  · rw [hnil] at hlist
    simp [isUpdated, hbest, hlist, atTop]
  · have hprice := (h.matched p o hop).2
    rw [horders] at hlist
    have hbid : ∀ x y : Price, decide (x ≤ y) = !decide (Better true x y) := by
      intro x y
      rw [← decide_not]
      exact decide_eq_decide.2 Int.not_lt.symm
    have hask : ∀ x y : Price, decide (y ≤ x) = !decide (Better false x y) := by
      intro x y
      rw [← decide_not]
      exact decide_eq_decide.2 Int.not_lt.symm
    cases isBuy with
    | true =>
        simp [isUpdated, hbest, hlist, atTop, hprice, sideOf, hbid]
        rfl
    | false =>
        simp [isUpdated, hbest, hlist, atTop, hprice, sideOf, hask]
        rfl

/-- The loop of `updateBBO` along the rest of a queue, from behind `x`
on. -/
theorem sumQuantity_spec {a : Ptr} (l : List Ptr) :
    ∀ (x : Ptr) (fuel : Nat) (quantity : Quantity),
    List.IsChain (Link s.nextOrder s.prevOrder) (x :: l) →
    s.nextOrder ((x :: l).getLast (List.cons_ne_nil x l)) = some a →
    a ∉ l → l.length < fuel →
    (sumQuantity (some a) fuel (s.nextOrder x) quantity).run s
      = .ok (quantity + (l.map fun o => (s.resting o).quantity).sum) s := by
  induction l with
  | nil =>
      intro x fuel quantity _ hback _ hfuel
      obtain ⟨n, rfl⟩ : ∃ n, fuel = n + 1 := ⟨fuel - 1, by omega⟩
      have hx : s.nextOrder x = some a := by simpa using hback
      simp [sumQuantity, hx]
  | cons y l ih =>
      intro x fuel quantity hch hback ha hfuel
      rw [List.length_cons] at hfuel
      obtain ⟨n, rfl⟩ : ∃ n, fuel = n + 1 := ⟨fuel - 1, by omega⟩
      obtain ⟨hlink, hch'⟩ := List.isChain_cons_cons.1 hch
      rw [List.mem_cons, not_or] at ha
      have hya : y ≠ a := fun heq => ha.1 heq.symm
      have hrest := ih y n (quantity + (s.resting y).quantity) hch'
        (by rwa [List.getLast_cons (List.cons_ne_nil y l)] at hback) ha.2
        (by omega)
      rw [hlink.1]
      simp only [sumQuantity, Option.some.injEq, hya, if_false,
        EStateM.run_bind, run_readOrder, order_nextOrder, order_quantity,
        hrest, List.map_cons, List.sum_cons]
      rw [UInt32.add_assoc]

/-- The top of a list: the price of its first level, and the quantity
there. -/
def topOf (l : List (Resting OrderID)) : Price × Quantity :=
  match levelsOf l with
  | [] => (priceInvalid, quantityInvalid)
  | run :: _ => ((run.head?.map (·.price)).getD priceInvalid,
      (run.map (·.quantity)).sum)

/-- `updateBBO` reads the top of the list. -/
theorem topOfBook_spec (h : Booked s lay none) (isBuy : Bool) :
    (topOfBook isBuy).run s = .ok (topOf (s.restingOrders isBuy)) s := by
  have hlevels := h.levelsOf_eq isBuy
  have hhead := h.laid.levels.head isBuy
  unfold topOf
  rw [hlevels]
  cases hl : lay.levels isBuy with
  | nil =>
      rw [hl] at hhead
      simp [topOfBook, show s.best isBuy = none from hhead]
  | cons p rest =>
      rw [hl] at hhead
      have hp : p ∈ lay.levels isBuy := by
        rw [hl]
        exact List.mem_cons_self ..
      obtain ⟨a, q, hq⟩ := List.exists_cons_of_ne_nil
        (h.laid.queues.nonempty p ⟨isBuy, hp⟩)
      have hfirst := h.laid.queues.first p ⟨isBuy, hp⟩
      have hring := h.laid.queues.ring p
      rw [hq] at hfirst hring
      obtain ⟨hnd, hch, hback⟩ := isRing_cons_iff.1 hring
      have hprice := (h.matched p a (by rw [hq]; exact List.mem_cons_self ..)).2
      have hlen : q.length < s.orderPool.size + 1 := by
        have hle := length_le_of_lt (List.nodup_cons.1 hnd).2 fun o ho =>
          h.laid.queues.pool.used_lt o ((h.laid.queues.used o).2
            (Or.inl ⟨p, by rw [hq]; exact List.mem_cons_of_mem a ho⟩))
        omega
      have hsum := sumQuantity_spec q a (s.orderPool.size + 1)
        (s.resting a).quantity hch hback.1 (List.nodup_cons.1 hnd).1 hlen
      simp [topOfBook, show s.best isBuy = some p from hhead,
        show s.firstOrder p = some a from hfirst, hsum, hq, hprice,
        List.map_map]
      rfl

end BBO

-- ============================================================== the invariant

/-- The ladder is booked and the index is its orders. -/
structure Mirror (s : MarketOrderBook) (lay : Layout) : Prop where
  booked : Booked s.ladder lay none
  index : ∀ id p, s.oidToOrder id = some p
    ↔ lay.HasOrder p ∧ (s.ladder.resting p).key = id
  ranges : ∀ p, lay.HasOrder p → InRange (s.ladder.resting p).key

/-- The order lists, as a reader sees them. -/
def book (s : MarketOrderBook) : Bool → List (Resting OrderID) :=
  s.ladder.restingOrders

theorem mirror_new : Mirror new .empty where
  booked := ⟨laid_new _, fun p o ho => by cases ho⟩
  index := fun id p => by
    constructor
    · intro hp
      cases hp
    · intro h
      obtain ⟨⟨q, hq⟩, -⟩ := h
      cases hq
  ranges := fun p hp => by
    obtain ⟨q, hq⟩ := hp
    cases hq

section Mirror

variable {s : MarketOrderBook} {lay : Layout}

theorem Mirror.book_eq (h : Mirror s lay) (b : Bool) :
    s.book b = (lay.orders b).map s.ladder.resting :=
  h.booked.laid.restingOrders_eq b

/-- Without orders there are no levels and no slots taken. -/
theorem Mirror.bare (h : Mirror s lay) (hempty : ∀ b, s.book b = []) :
    (∀ b, lay.levels b = [])
      ∧ ∀ i, s.ladder.priceOrdersAtPrice i = none := by
  have hlevels : ∀ b, lay.levels b = [] := by
    intro b
    refine List.eq_nil_iff_forall_not_mem.2 fun p hp => ?_
    obtain ⟨o, l, hq⟩ := List.exists_cons_of_ne_nil
      (h.booked.laid.queues.nonempty p ⟨b, hp⟩)
    have hlist := h.book_eq b
    rw [hempty b] at hlist
    have ho : o ∈ lay.orders b :=
      List.mem_flatMap.2 ⟨p, hp, by rw [hq]; exact List.mem_cons_self ..⟩
    have hmem := List.mem_map_of_mem (f := s.ladder.resting) ho
    rw [← hlist] at hmem
    cases hmem
  refine ⟨hlevels, fun i => ?_⟩
  cases hi : s.ladder.priceOrdersAtPrice i with
  | none => rfl
  | some p =>
      obtain ⟨b, hp⟩ := (h.booked.laid.levels.slots i p hi).1
      rw [hlevels b] at hp
      cases hp

theorem book_new : new.book = fun _ => [] := by
  funext b
  rw [mirror_new.book_eq]
  rfl

/-- The invariant is not about the BBO. -/
theorem Mirror.withBBO (h : Mirror s lay) (bbo : BBO) :
    Mirror { s with bbo := bbo } lay where
  booked := h.booked
  index := h.index
  ranges := h.ranges

/-- `updateBBO` sets the sides that are asked for to the tops of their
lists, and nothing else. -/
theorem updateBBO_spec (h : Mirror s lay) (updated : Bool → Bool) :
    ∃ bbo : BBO, (updateBBO (updated true) (updated false)).run s
        = .ok () { s with bbo := bbo }
      ∧ ∀ b, bbo.top b = if updated b then topOf (s.book b)
          else s.bbo.top b := by
  have hbest : ∀ (isBuy : Bool) (bbo : BBO), ∃ bbo' : BBO,
      (updateBest isBuy (updated isBuy)).run { s with bbo := bbo }
        = .ok () { s with bbo := bbo' }
      ∧ (bbo'.top isBuy = if updated isBuy then topOf (s.book isBuy)
          else bbo.top isBuy)
      ∧ bbo'.top (!isBuy) = bbo.top (!isBuy) := by
    intro isBuy bbo
    cases updated isBuy with
    | false => exact ⟨bbo, rfl, rfl, rfl⟩
    | true =>
        have htop := run_onLadder_ok (s := { s with bbo := bbo })
          (topOfBook_spec h.booked isBuy)
        refine ⟨bbo.put isBuy (topOf (s.ladder.restingOrders isBuy)).1
          (topOf (s.ladder.restingOrders isBuy)).2, ?_, ?_, ?_⟩
        · unfold updateBest
          rw [if_pos rfl, Exec.run_bind_ok htop]
          rfl
        · cases isBuy <;> rfl
        · cases isBuy <;> rfl
  obtain ⟨bbo₁, h₁, hbid, hask₁⟩ := hbest true s.bbo
  obtain ⟨bbo₂, h₂, hask, hbid₂⟩ := hbest false bbo₁
  refine ⟨bbo₂, ?_, fun b => ?_⟩
  · unfold updateBBO
    rw [Exec.run_bind_ok h₁, h₂]
  · cases b with
    | true => exact hbid₂.trans hbid
    | false =>
        rw [hask]
        exact if_congr Iff.rfl rfl hask₁

-- ------------------------------------------------- the BBO is left alone

section Keeps

variable {bbo : BBO}

theorem onLadder_bbo {α : Type} (x : Prog (Ladder OrderID) α) :
    Exec.Keeps (fun s => s.bbo = bbo) (onLadder x) := by
  refine Exec.Spec.zoom fun s hs => ?_
  cases x.run s.ladder with
  | ok a t => exact hs
  | error e t => exact hs

theorem assert_bbo (c : Bool) (f : Fault) :
    Exec.Keeps (fun s : MarketOrderBook => s.bbo = bbo) (assert c f) := by
  intro s hs
  cases c with
  | true => exact hs
  | false => exact hs

theorem getOrder_bbo (orderId : OrderID) :
    Exec.Keeps (fun s => s.bbo = bbo) (getOrder orderId) :=
  .bind (assert_bbo _ _) fun _ => .get_bind fun _ _ => .pure _

theorem setOrder_bbo (orderId : OrderID) (order : Option Ptr) :
    Exec.Keeps (fun s => s.bbo = bbo) (setOrder orderId order) :=
  .bind (assert_bbo _ _) fun _ => .modify fun _ hs => hs

theorem deallocateOrders_bbo (ids : List OrderID) :
    Exec.Keeps (fun s => s.bbo = bbo) (deallocateOrders ids) := by
  induction ids with
  | nil => exact .pure _
  | cons id ids ih =>
      refine .get_bind fun s _ => ?_
      exact .ite (fun _ => .bind (onLadder_bbo _) fun _ => ih) fun _ => ih

/-- Only `updateBBO` sets the BBO. -/
theorem dispatch_bbo (u : MatchingEngineMarketUpdate) :
    Exec.Keeps (fun s => s.bbo = bbo) (dispatch u) := by
  unfold dispatch
  cases u.type with
  | add =>
      refine .bind (getOrder_bbo _) fun _ => .bind (assert_bbo _ _) fun _ => ?_
      refine .bind (onLadder_bbo _) fun _ => .bind (onLadder_bbo _) fun _ => ?_
      exact .bind (onLadder_bbo _) fun _ => setOrder_bbo _ _
  | modify =>
      refine .bind (getOrder_bbo _) fun _ => .bind (assert_bbo _ _) fun _ => ?_
      exact onLadder_bbo _
  | cancel =>
      refine .bind (getOrder_bbo _) fun _ => .bind (assert_bbo _ _) fun _ => ?_
      refine .bind (onLadder_bbo _) fun _ => .bind (onLadder_bbo _) fun _ => ?_
      exact .bind (setOrder_bbo _ _) fun _ => onLadder_bbo _
  | clear =>
      refine .bind (deallocateOrders_bbo _) fun _ => ?_
      refine .bind (.modify fun _ hs => hs) fun _ => ?_
      refine .bind (onLadder_bbo _) fun _ => .bind (onLadder_bbo _) fun _ => ?_
      exact .bind (onLadder_bbo _) fun _ => onLadder_bbo _
  | invalid => exact .pure _
  | trade => exact .pure _
  | snapshotStart => exact .pure _
  | snapshotEnd => exact .pure _

end Keeps

/-- An update that is dispatched to its end is processed to its end. The
BBO is set from the book as it is then, on a side whose top the update
is at in the book as it was. -/
theorem onMarketUpdate_spec {s' : MarketOrderBook} {lay' : Layout}
    {u : MatchingEngineMarketUpdate} (h : Mirror s lay)
    (htype : u.type ≠ .trade) (hrun : (dispatch u).run s = .ok () s')
    (h' : Mirror s' lay') :
    ∃ notice, ∃ bbo : BBO, (onMarketUpdate u).run s
        = .ok notice { s' with bbo := bbo }
      ∧ ∀ b, bbo.top b = if atTop b (s.book b) u then topOf (s'.book b)
          else s.bbo.top b := by
  have hbid : (isUpdated true u).run s.ladder
      = .ok (atTop true (s.book true) u) s.ladder :=
    run_isUpdated h.booked true u
  have hask : (isUpdated false u).run s.ladder
      = .ok (atTop false (s.book false) u) s.ladder :=
    run_isUpdated h.booked false u
  obtain ⟨bbo, hbbo, htop⟩ := updateBBO_spec h' fun b => atTop b (s.book b) u
  have hkept : s'.bbo = s.bbo := (dispatch_bbo u).of_run_ok rfl hrun
  rw [hkept] at htop
  refine ⟨.onOrderBookUpdate u.tickerId u.price u.side, bbo, ?_, htop⟩
  unfold onMarketUpdate
  rw [Exec.run_bind_ok (run_onLadder_ok hbid),
    Exec.run_bind_ok (run_onLadder_ok hask), if_neg htype,
    Exec.run_bind_ok hrun, Exec.run_bind_ok hbbo]
  rfl

-- ==================================================================== ADD

/-- The resting order an ADD stands for. -/
def added (u : MatchingEngineMarketUpdate) : Resting OrderID where
  key := u.orderId
  side := u.side
  price := u.price
  quantity := u.quantity
  priority := u.priority

/-- An ADD puts its order in its place. -/
theorem onAdd_spec {b : Bool} {u : MatchingEngineMarketUpdate}
    (h : Mirror s lay) (hside : u.side = sideOf b) (hrange : InRange u.orderId)
    (hnew : ∀ c, ∀ x ∈ s.book c, x.key ≠ u.orderId)
    (hfree : ∀ c, ∀ x ∈ s.book c,
      priceToIndex x.price = priceToIndex u.price → c = b ∧ x.price = u.price)
    (hroom : ¬ Full s.book u.price) :
    ∃ s' lay', (onAdd u).run s = .ok () s' ∧ Mirror s' lay'
      ∧ ∀ c, s'.book c
        = if c = b then place b (added u) (s.book b) else s.book c := by
  have hmem : ∀ c, ∀ q ∈ lay.orders c, s.ladder.resting q ∈ s.book c := by
    intro c q hq
    rw [h.book_eq]
    exact List.mem_map_of_mem hq
  -- the index has resting orders only
  have hnone : s.oidToOrder u.orderId = none := by
    cases hid : s.oidToOrder u.orderId with
    | none => rfl
    | some p =>
        obtain ⟨hp, hkey⟩ := (h.index _ p).1 hid
        obtain ⟨c, hc⟩ := (h.booked.laid.hasOrder_iff p).1 hp
        exact absurd hkey (hnew c _ (hmem c p hc))
  rcases restOrder_spec (r := added u) h.booked hside
      (fun c q hq => hfree c _ (hmem c q hq)) with
    ⟨l₁, l₂, lay', o, halloc, -, hlink, hrest⟩ | ⟨-, hfull⟩
  · have hor : l₂.resting o = added u := by rw [hrest.resting, if_pos rfl]
    have hkey : (l₂.order o).key = u.orderId := by rw [order_key, hor]; rfl
    refine ⟨{ s with
        ladder := l₂
        oidToOrder := fun id =>
          if id = u.orderId then some o else s.oidToOrder id }, lay', ?_, ?_,
      hrest.book⟩
    · unfold onAdd
      rw [Exec.run_bind_ok (run_getOrder hrange), hnone]
      refine (Exec.run_bind_ok (run_onLadder_ok halloc)).trans ?_
      unfold addOrder
      refine (Exec.run_bind_ok (run_onLadder_ok hlink)).trans ?_
      refine (Exec.run_bind_ok (run_onLadder_readOrder _ o)).trans ?_
      show (setOrder (l₂.order o).key (some o)).run _ = _
      rw [hkey]
      exact run_setOrder _ hrange
    · exact
        { booked := hrest.booked
          index := fun id p => by
            show (if id = u.orderId then some o else s.oidToOrder id) = some p
              ↔ lay'.HasOrder p ∧ (l₂.resting p).key = id
            rw [hrest.hasOrder, hrest.resting]
            by_cases hpo : p = o
            · rw [if_pos hpo, hpo]
              constructor
              · intro hp
                split at hp
                · next hid => exact ⟨Or.inl rfl, hid.symm⟩
                · exact absurd ((h.index id o).1 hp).1 hrest.fresh
              · intro h
                obtain ⟨-, hid⟩ := h
                exact if_pos hid.symm
            · rw [if_neg hpo]
              constructor
              · intro hp
                split at hp
                · cases hp
                  exact absurd rfl hpo
                · obtain ⟨hhas, hkey'⟩ := (h.index id p).1 hp
                  exact ⟨Or.inr hhas, hkey'⟩
              · intro h
                obtain ⟨hp, hid⟩ := h
                have hp' := hp.resolve_left hpo
                have hentry := (h.index id p).2 ⟨hp', hid⟩
                rw [if_neg]
                · exact hentry
                · intro heq
                  rw [heq, hnone] at hentry
                  cases hentry
          ranges := fun p hp => by
            show InRange (l₂.resting p).key
            rw [hrest.resting]
            split
            · exact hrange
            · next hpo =>
                exact h.ranges p (((hrest.hasOrder p).1 hp).resolve_left hpo) }
  · exact absurd hfull hroom

-- ================================================================= MODIFY

/-- The block of a resting order, found by the index. -/
theorem Mirror.find (h : Mirror s lay) {b : Bool} {x : Resting OrderID}
    {l m : List (Resting OrderID)} (hbook : s.book b = l ++ x :: m) :
    ∃ ps o qs, lay.orders b = ps ++ o :: qs ∧ s.ladder.resting o = x
      ∧ ps.map s.ladder.resting = l ∧ qs.map s.ladder.resting = m
      ∧ s.oidToOrder x.key = some o ∧ InRange x.key := by
  rw [h.book_eq] at hbook
  obtain ⟨ps, rest, hps, hl, hrest⟩ := List.map_eq_append_iff.1 hbook
  obtain ⟨o, qs, rfl, ho, hm⟩ := List.map_eq_cons_iff.1 hrest
  have hhas : lay.HasOrder o := (h.booked.laid.hasOrder_iff o).2 ⟨b, by
    rw [hps]
    simp⟩
  refine ⟨ps, o, qs, hps, ho, hl, hm, (h.index _ o).2 ⟨hhas, by rw [ho]⟩, ?_⟩
  rw [← ho]
  exact h.ranges o hhas

/-- A MODIFY changes a quantity. -/
theorem onModify_spec {b : Bool} (u : MatchingEngineMarketUpdate)
    {x : Resting OrderID} {l m : List (Resting OrderID)} (h : Mirror s lay)
    (hbook : s.book b = l ++ x :: m) (hkey : x.key = u.orderId) :
    ∃ s', (onModify u).run s = .ok () s' ∧ Mirror s' lay
      ∧ ∀ c, s'.book c
        = if c = b then l ++ { x with quantity := u.quantity } :: m
          else s.book c := by
  obtain ⟨ps, o, qs, hps, ho, hl, hm, hentry, hrange⟩ := h.find hbook
  have hnd := h.booked.laid.orders_nodup b
  rw [hps, List.nodup_middle, List.nodup_cons, List.mem_append, not_or] at hnd
  have hrest : ∀ q, (s.ladder.putOrder o (.setQuantity u.quantity)).resting q
      = if q = o then { x with quantity := u.quantity }
        else s.ladder.resting q := by
    intro q
    rw [setQuantity_resting, ho]
  have hkeys : ∀ q,
      ((s.ladder.putOrder o (.setQuantity u.quantity)).resting q).key
        = (s.ladder.resting q).key := by
    intro q
    rw [hrest]
    split
    · next hq => rw [hq, ho]
    · rfl
  have hmirror : Mirror { s with
      ladder := s.ladder.putOrder o (.setQuantity u.quantity) } lay :=
    { booked := setQuantity_spec h.booked o _
      index := fun id p => by
        rw [hkeys]
        exact h.index id p
      ranges := fun p hp => by
        rw [hkeys]
        exact h.ranges p hp }
  refine ⟨_, ?_, hmirror, ?_⟩
  · unfold onModify
    rw [← hkey, Exec.run_bind_ok (run_getOrder hrange), hentry]
    rfl
  · intro c
    rw [hmirror.book_eq]
    have hkeep : ∀ rs : List Ptr, o ∉ rs →
        rs.map (s.ladder.putOrder o (.setQuantity u.quantity)).resting
          = rs.map s.ladder.resting := fun rs hrs =>
      List.map_congr_left fun q hq => by
        rw [hrest, if_neg fun heq : q = o => hrs (heq ▸ hq)]
    split
    · next hc =>
        rw [hc, hps, List.map_append, List.map_cons, hkeep ps hnd.1.1,
          hkeep qs hnd.1.2, hl, hm, hrest, if_pos rfl]
    · next hc =>
        rw [h.book_eq]
        refine hkeep _ fun hoc => hc ?_
        exact h.booked.orders_disjoint hoc (by rw [hps]; simp)

-- ================================================================= CANCEL

/-- A CANCEL takes its order out. -/
theorem onCancel_spec {b : Bool} (u : MatchingEngineMarketUpdate)
    {x : Resting OrderID} {l m : List (Resting OrderID)} (h : Mirror s lay)
    (hbook : s.book b = l ++ x :: m) (hkey : x.key = u.orderId) :
    ∃ s' lay', (onCancel u).run s = .ok () s' ∧ Mirror s' lay'
      ∧ ∀ c, s'.book c = if c = b then l ++ m else s.book c := by
  obtain ⟨ps, o, qs, hps, ho, hl, hm, hentry, hrange⟩ := h.find hbook
  obtain ⟨l₁, l₂, lay', hunlink, hrest₁, hdealloc, hb₂, hrest, horders, hother,
    hmem⟩ := takeOrder_spec h.booked (b := b) (o := o) (by rw [hps]; simp)
  have hnd := h.booked.laid.orders_nodup b
  rw [hps, List.nodup_middle, List.nodup_cons, List.mem_append, not_or] at hnd
  have hkey₁ : (l₁.order o).key = x.key := by rw [order_key, hrest₁, ho]
  have hmirror : Mirror { s with
      ladder := l₂
      oidToOrder := fun id =>
        if id = x.key then none else s.oidToOrder id } lay' :=
    { booked := hb₂
      index := fun id p => by
        show (if id = x.key then none else s.oidToOrder id) = some p
          ↔ lay'.HasOrder p ∧ (l₂.resting p).key = id
        rw [hmem, hrest]
        constructor
        · intro hp
          split at hp
          · cases hp
          · next hid =>
              obtain ⟨hhas, hkey'⟩ := (h.index id p).1 hp
              refine ⟨⟨fun hpo => hid ?_, hhas⟩, hkey'⟩
              rw [← hkey', hpo, ho]
        · intro h
          obtain ⟨⟨hpo, hhas⟩, hid⟩ := h
          have hp := (h.index id p).2 ⟨hhas, hid⟩
          rw [if_neg]
          · exact hp
          · intro heq
            rw [heq, hentry] at hp
            cases hp
            exact hpo rfl
      ranges := fun p hp => by
        show InRange (l₂.resting p).key
        rw [hrest]
        exact h.ranges p ((hmem p).1 hp).2 }
  refine ⟨_, lay', ?_, hmirror, ?_⟩
  · unfold onCancel
    rw [← hkey, Exec.run_bind_ok (run_getOrder hrange), hentry]
    show (removeOrder (some o)).run s = _
    unfold removeOrder
    rw [Exec.run_bind_ok (run_onLadder_ok hunlink),
      Exec.run_bind_ok (run_onLadder_readOrder _ o)]
    show (setOrder (l₁.order o).key none >>= fun _ => _).run _ = _
    rw [hkey₁, Exec.run_bind_ok (run_setOrder none hrange)]
    exact run_onLadder_ok hdealloc
  · intro c
    rw [hmirror.book_eq]
    show (lay'.orders c).map l₂.resting = _
    rw [hrest]
    split
    · next hc =>
        rw [hc, horders, hps, List.erase_append_right _ hnd.1.1,
          List.erase_cons_head, List.map_append, hl, hm]
    · next hc => rw [hother c hc, h.book_eq]

-- ========================================================= the first order

/-- On a new book an ADD of a good order makes a level. -/
theorem run_firstAdd {u : MatchingEngineMarketUpdate} {b : Bool}
    (htype : u.type = .add) (hside : u.side = sideOf b)
    (hrange : InRange u.orderId) :
    ∃ notice t lay, (onMarketUpdate u).run new = .ok notice t ∧ Mirror t lay
      ∧ (∀ c, t.book c = if c = b then [added u] else [])
      ∧ ∀ c, t.bbo.top c = (priceInvalid, quantityInvalid) := by
  have hempty : ∀ c, new.book c = [] := fun c => by rw [book_new]
  obtain ⟨t, lay, hrun, hmirror, hbook⟩ := onAdd_spec mirror_new hside hrange
    (fun c x hx => by rw [hempty] at hx; cases hx)
    (fun c x hx => by rw [hempty] at hx; cases hx)
    (by
      rw [book_new]
      unfold Full
      simp [PriceTime.levelsOf, matchingEngineMaxOrderIds,
        matchingEngineMaxPriceLevels])
  have hdispatch : (dispatch u).run new = .ok () t := by
    unfold dispatch
    rw [htype]
    exact hrun
  obtain ⟨notice, bbo, hupdate, htop⟩ := onMarketUpdate_spec mirror_new
    (by rw [htype]; nofun) hdispatch hmirror
  refine ⟨notice, _, lay, hupdate, hmirror.withBBO bbo, fun c => ?_,
    fun c => ?_⟩
  · show t.book c = _
    rw [hbook c, hempty, hempty]
    rfl
  · show bbo.top c = _
    rw [htop c, hempty c]
    cases c <;> rfl

/-- One order to buy at 100. -/
def addOne : MatchingEngineMarketUpdate where
  type := .add
  orderId := 1
  tickerId := 0
  side := .buy
  price := 100
  quantity := 1
  priority := 1

theorem inRange_one : InRange addOne.orderId := by
  show (1 : OrderID).toNat < matchingEngineMaxOrderIds
  decide

end Mirror

end MarketOrderBook

end ElectronicTrading
