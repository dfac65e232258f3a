/-
The two requests, on the book's order lists: `add` is the reference
algorithm of Reference.lean (`add_spec`) and `cancel` removes the order
its index names (`cancel_spec`).

`add` can fail only for want of a block, and only when something is left
to rest. That the remainder is linked into a level of its own price
rests on `SlotFree`: at that moment, no order of another price uses the
slot.
-/
import ElectronicTrading.Exchange.Proofs.Fill

namespace ElectronicTrading

namespace MatchingEngineOrderBook

open Ladder Reference PriceTime

-- ========================================================= coming to rest

/-- `getNextPriority`, when the orders whose prices share the slot are
on side `b` and have the price asked for. -/
theorem getNextPriority_spec {s : Ladder OrderIds} {lay : Layout} {b : Bool}
    {price : Price} (h : Booked s lay none)
    (hfree : ∀ c, ∀ q ∈ lay.orders c,
      priceToIndex (s.resting q).price = priceToIndex price →
        c = b ∧ (s.resting q).price = price) :
    (getNextPriority price).run s
      = .ok (nextPriority (s.restingOrders b) price) s := by
  unfold nextPriority
  cases hslot : s.getOrdersAtPrice price with
  | none =>
      have hnone : (s.restingOrders b).filter (·.price = price) = [] := by
        rw [List.filter_eq_nil_iff, h.laid.restingOrders_eq]
        intro r hr
        obtain ⟨o, ho, rfl⟩ := List.mem_map.1 hr
        obtain ⟨p, -, hop⟩ := mem_orders ho
        rw [decide_eq_true_eq]
        intro heq
        have hown := h.slot hop
        rw [heq, hslot] at hown
        cases hown
      rw [hnone]
      simp [getNextPriority, hslot]
  | some p =>
      obtain ⟨⟨c, hpc⟩, hidx⟩ := h.laid.levels.slots _ p hslot
      obtain ⟨a, l, hq⟩ := List.exists_cons_of_ne_nil
        (h.laid.queues.nonempty p ⟨c, hpc⟩)
      have ha : a ∈ lay.queue p := by
        rw [hq]
        exact List.mem_cons_self ..
      have hamatch := h.matched p a ha
      obtain ⟨rfl, haprice⟩ := hfree c a (List.mem_flatMap.2 ⟨p, hpc, ha⟩)
        (by rw [hamatch.2, hidx])
      have hprice : s.levelPrice p = price := hamatch.2.symm.trans haprice
      have hfirst := h.laid.queues.first p ⟨c, hpc⟩
      have hring := h.laid.queues.ring p
      rw [hq] at hfirst hring
      have hprev := hring.prev_head
      rw [← hprice, h.filter_price hpc, hq,
        List.getLast?_eq_getLast_of_ne_nil (by simp), List.getLast_map]
      rw [List.head?_cons] at hfirst
      simp [getNextPriority, hprice, hslot, hfirst, hprev]

/-- What a new order `r` at `o` on side `b` leaves. -/
structure AfterRest (r : Resting OrderIds) (b : Bool) (o : Ptr)
    (s s' : MatchingEngineOrderBook) (lay' : Layout) : Prop where
  stored : Stored s' lay'
  book : ∀ c, s'.book c = if c = b then place b r (s.book b) else s.book c
  index : ∀ c oid, s'.cidOidToOrder c oid
    = if r.key.clientId = c ∧ r.key.clientOrderId = oid then some o
      else s.cidOidToOrder c oid
  nextId : s'.nextMarketOrderId = s.nextMarketOrderId
  sent : s'.sent = s.sent

/-- Allocating an order and adding it, when the orders whose prices share
its slot have its side and price. It fails only for want of room. -/
theorem addOrder_spec {s : MatchingEngineOrderBook} {lay : Layout} {b : Bool}
    {r : Resting OrderIds} (h : Stored s lay) (hside : r.side = sideOf b)
    (hrange : inRange r.key.clientId r.key.clientOrderId = true)
    (hfree : ∀ c, ∀ q ∈ lay.orders c,
      priceToIndex (s.ladder.resting q).price = priceToIndex r.price →
        c = b ∧ (s.ladder.resting q).price = r.price) :
    (∃ s' lay' o,
        (do addOrder (← onLadder (allocateOrder (unlinked r)))).run s
          = .ok () s'
        ∧ AfterRest r b o s s' lay')
      ∨ ((∃ s', (do addOrder (← onLadder (allocateOrder (unlinked r)))).run s
          = .error .poolOutOfSpace s') ∧ Full s.book r.price) := by
  rcases restOrder_spec h.booked hside hfree with
    ⟨l₁, l₂, lay', o, halloc, ho, hlink, hrest⟩ |
    ⟨⟨l₁, herr⟩ | ⟨l₁, l₂, o, halloc, herr⟩, hfull⟩
  · left
    have hor : l₂.resting o = r := by rw [hrest.resting, if_pos rfl]
    have hkey : (l₂.resting o).key = r.key := by rw [hor]
    have hindex : ∀ c oid, (if c = r.key.clientId
        ∧ oid = r.key.clientOrderId then some o else s.cidOidToOrder c oid)
        = if r.key.clientId = c ∧ r.key.clientOrderId = oid then some o
          else s.cidOidToOrder c oid := by
      intro c oid
      refine if_congr ?_ rfl rfl
      rw [eq_comm, @eq_comm _ oid]
    refine ⟨{ s with
        ladder := l₂
        cidOidToOrder := fun c oid =>
          if c = r.key.clientId ∧ oid = r.key.clientOrderId then some o
          else s.cidOidToOrder c oid }, lay', o, ?_, ?_⟩
    · rw [Exec.run_bind_ok (run_onLadder_ok halloc)]
      unfold addOrder setClientOrder
      rw [Exec.run_bind_ok (run_onLadder_ok hlink)]
      simp [hkey, hrange]
    · exact
        { stored :=
            { booked := hrest.booked
              index := fun c oid p hp => by
                change (if _ then some o else s.cidOidToOrder c oid)
                  = some p at hp
                rw [hindex] at hp
                show _ ∧ ((l₂.resting p).key.clientId = c
                  ∧ (l₂.resting p).key.clientOrderId = oid)
                rw [hrest.hasOrder]
                split at hp
                · next hids =>
                    cases hp
                    rw [hor]
                    exact ⟨Or.inl rfl, hids⟩
                · obtain ⟨hhas, hids⟩ := h.index c oid p hp
                  have hpo : p ≠ o := fun heq => hrest.fresh (heq ▸ hhas)
                  rw [hrest.resting, if_neg hpo]
                  exact ⟨Or.inr hhas, hids⟩
              ranges := fun p hp => by
                show inRange (l₂.resting p).key.clientId
                  (l₂.resting p).key.clientOrderId = true
                rw [hrest.resting]
                split
                · exact hrange
                · next hpo =>
                    exact h.ranges p
                      (((hrest.hasOrder p).1 hp).resolve_left hpo) }
          book := hrest.book
          index := hindex
          nextId := rfl
          sent := rfl }
  · right
    exact ⟨⟨_, Exec.run_bind_error (run_onLadder_error herr)⟩, hfull⟩
  · right
    refine ⟨⟨{ s with ladder := l₂ }, ?_⟩, hfull⟩
    rw [Exec.run_bind_ok (run_onLadder_ok halloc)]
    unfold addOrder
    exact Exec.run_bind_error (run_onLadder_error herr)

-- ==================================================================== add

/-- What the NEW order `i` leaves. -/
structure AfterAdd (i : Incoming) (s s' : MatchingEngineOrderBook)
    (lay' : Layout) : Prop where
  stored : Stored s' lay'
  book : s'.book = i.apply s.book
  sent : s'.sent = s.sent ++ i.messages s.book
  nextId : s'.nextMarketOrderId = s.nextMarketOrderId + 1
  rested : (i.swept s.book).left ≠ 0 →
    s'.cidOidToOrder i.ids.clientId i.ids.clientOrderId ≠ none
  index : ∀ c oid, ((i.swept s.book).left = 0
      ∨ ¬ (i.ids.clientId = c ∧ i.ids.clientOrderId = oid)) →
    s'.cidOidToOrder c oid
      = if UsedUp (i.swept s.book).trades c oid then none
        else s.cidOidToOrder c oid

/-- A booked ladder's lists are in priority. -/
theorem Stored.sorted {s : MatchingEngineOrderBook} {lay : Layout}
    (h : Stored s lay) (b : Bool) : Sorted b (s.book b) := by
  unfold Sorted
  rw [h.book_eq, List.pairwise_map]
  exact h.booked.sorted b

/-- After the sweep, with quantity left, the prices that share the slot of
the limit price are on the order's own side. -/
theorem slot_own {s s₂ : MatchingEngineOrderBook} {lay lay₂ : Layout}
    {i : Incoming} (h : Stored s lay) (h₂ : Stored s₂ lay₂)
    (hbook : s₂.book = i.sweptBook s.book)
    (hleft : (i.swept s.book).left ≠ 0)
    (hfree : SlotFree (i.sweptBook s.book) i.price) (c : Bool) (q : Ptr)
    (hq : q ∈ lay₂.orders c)
    (hidx : priceToIndex (s₂.ladder.resting q).price
      = priceToIndex i.price) :
    c = i.isBuy ∧ (s₂.ladder.resting q).price = i.price := by
  have hmem : s₂.ladder.resting q ∈ i.sweptBook s.book c := by
    rw [← hbook, h₂.book_eq]
    exact List.mem_map_of_mem hq
  have hprice := hfree c _ hmem hidx
  refine ⟨?_, hprice⟩
  by_contra hc
  unfold Incoming.sweptBook at hmem
  rw [if_neg hc] at hmem
  have hcross := sweep_rest_not_crosses (h.sorted _) hleft _ hmem
  rw [crosses_at_limit hprice] at hcross
  cases hcross

/-- The state in which `add` links the remainder. -/
theorem exists_swept {s : MatchingEngineOrderBook} {lay : Layout}
    (i : Incoming) (h : Stored s lay)
    (hid : i.ids.marketOrderId = s.nextMarketOrderId) :
    ∃ s₂ lay₂, (∀ x : OrderID → Quantity → Member Unit,
      (do
        let newMarketOrderId ← generateNewMarketOrderId
        sendClientResponse
          { type := .accepted, clientId := i.ids.tickerId,
            tickerId := i.ids.clientId, clientOrderId := i.ids.clientOrderId,
            marketOrderId := newMarketOrderId, side := sideOf i.isBuy,
            price := i.price, execQuantity := 0,
            leavesQuantity := i.quantity }
        let leavesQuantity ← checkForMatch i.ids.clientId i.ids.clientOrderId
          i.ids.tickerId (sideOf i.isBuy) i.price i.quantity newMarketOrderId
        x newMarketOrderId leavesQuantity : Member Unit).run s
        = (x i.ids.marketOrderId (i.swept s.book).left).run s₂)
      ∧ Stored s₂ lay₂ ∧ s₂.book = i.sweptBook s.book
      ∧ s₂.sent = s.sent ++ (.response i.accepted
          :: i.sweepMessages i.quantity (i.swept s.book).trades)
      ∧ s₂.nextMarketOrderId = s.nextMarketOrderId + 1
      ∧ ∀ c oid, s₂.cidOidToOrder c oid
          = if UsedUp (i.swept s.book).trades c oid then none
            else s.cidOidToOrder c oid := by
  obtain ⟨s₁, hs₁⟩ : ∃ s₁, s₁ = { s with
      nextMarketOrderId := s.nextMarketOrderId + 1
      sent := s.sent ++ [Sent.response i.accepted] } := ⟨_, rfl⟩
  have hst₁ : Stored s₁ lay := h.congr (by rw [hs₁]) (by rw [hs₁])
  have hbook₁ : s₁.book = s.book := by rw [hs₁]; rfl
  obtain ⟨s₂, lay₂, hcheck, hafter⟩ := checkForMatch_spec i hst₁
  rw [hbook₁] at hcheck hafter
  refine ⟨s₂, lay₂, ?_, hafter.stored, ?_, ?_, ?_, ?_⟩
  · intro x
    rw [hs₁] at hcheck
    simp [generateNewMarketOrderId, ← hid, Incoming.accepted, acceptance] at hcheck ⊢
    rw [hcheck]
  · funext c
    unfold Incoming.sweptBook
    split
    · next hc =>
        rw [hc, hafter.stored.book_eq, hafter.own, h.book_eq]
        refine List.map_congr_left fun q hq => ?_
        rw [hafter.ownResting q hq, hs₁]
    · next hc =>
        have hc' : c = !i.isBuy := by
          cases hb : i.isBuy <;> cases c <;> simp_all
        rw [hc', hafter.opposite]
  · rw [hafter.sent, hs₁, List.append_assoc]
    rfl
  · rw [hafter.nextId, hs₁]
  · intro c oid
    rw [hafter.index, hs₁]

/-- `add` is the reference algorithm, or finds no room for what is left
of the order. -/
theorem add_spec {s : MatchingEngineOrderBook} {lay : Layout} (i : Incoming)
    (h : Stored s lay) (hid : i.ids.marketOrderId = s.nextMarketOrderId)
    (hrange : inRange i.ids.clientId i.ids.clientOrderId = true)
    (hfree : (i.swept s.book).left ≠ 0 →
      SlotFree (i.sweptBook s.book) i.price) :
    (∃ s' lay', (add i.ids.clientId i.ids.clientOrderId i.ids.tickerId
        (sideOf i.isBuy) i.price i.quantity).run s = .ok () s'
        ∧ AfterAdd i s s' lay')
      ∨ ((∃ s', (add i.ids.clientId i.ids.clientOrderId i.ids.tickerId
        (sideOf i.isBuy) i.price i.quantity).run s
          = .error .poolOutOfSpace s')
        ∧ (i.swept s.book).left ≠ 0
        ∧ Full (i.sweptBook s.book) i.price) := by
  obtain ⟨s₂, lay₂, hrun, hst₂, hbook₂, hsent, hnext, hindex⟩ :=
    exists_swept i h hid
  have hown : s₂.book i.isBuy = s.book i.isBuy := by
    rw [hbook₂, Incoming.sweptBook_own]
  by_cases hleft : (i.swept s.book).left = 0
  · -- nothing is left to rest
    left
    refine ⟨s₂, lay₂, ?_, ?_⟩
    · unfold add
      rw [hrun, hleft]
      rfl
    · exact
        { stored := hst₂
          book := by
            rw [hbook₂, Incoming.apply_spent hleft]
          sent := by
            rw [hsent]
            unfold Incoming.messages
            rw [if_pos hleft, List.append_nil]
          nextId := hnext
          rested := fun hne => absurd hleft hne
          index := fun c oid _ => hindex c oid }
  · have hslots : ∀ c, ∀ q ∈ lay₂.orders c,
        priceToIndex (s₂.ladder.resting q).price = priceToIndex i.price →
          c = i.isBuy ∧ (s₂.ladder.resting q).price = i.price :=
      slot_own h hst₂ hbook₂ hleft (hfree hleft)
    have hprio : (onLadder (getNextPriority i.price)).run s₂
        = .ok (nextPriority (s.book i.isBuy) i.price) s₂ := by
      rw [← hown]
      exact run_onLadder_ok (getNextPriority_spec hst₂.booked hslots)
    -- the rest of `add`, once the remainder is known
    have htail : (add i.ids.clientId i.ids.clientOrderId i.ids.tickerId
        (sideOf i.isBuy) i.price i.quantity).run s
        = ((do
            addOrder (← onLadder (allocateOrder
              (unlinked (i.remainder s.book)))) : Member Unit)
            >>= fun _ => sendMarketUpdate
              (i.addUpdate (i.remainder s.book))).run s₂ := by
      unfold add
      rw [hrun]
      simp only [ne_eq, hleft, not_false_eq_true, if_true]
      rw [Exec.run_bind_ok hprio]
      simp [Incoming.addUpdate, Incoming.remainder, unlinked]
    rcases addOrder_spec (r := i.remainder s.book) hst₂ rfl hrange
        hslots with ⟨s₃, lay₃, o, hadd, hrest⟩ | ⟨⟨s₃, herr⟩, hfull⟩
    · left
      refine ⟨{ s₃ with
          sent := s₃.sent
            ++ [Sent.update (i.addUpdate (i.remainder s.book))] }, lay₃, ?_, ?_⟩
      · rw [htail]
        exact Exec.run_bind_ok hadd
      · exact
          { stored := hrest.stored.congr rfl rfl
            book := by
              show s₃.book = _
              funext c
              rw [hrest.book, hown, hbook₂]
              unfold Incoming.apply
              by_cases hc : c = i.isBuy
              · rw [if_pos hc, if_pos ⟨hc, hleft⟩, hc]
              · rw [if_neg hc, if_neg fun h' => hc h'.1]
            sent := by
              show s₃.sent ++ _ = _
              rw [hrest.sent, hsent, List.append_assoc]
              unfold Incoming.messages
              rw [if_neg hleft]
            nextId := hrest.nextId.trans hnext
            rested := fun _ => by
              show s₃.cidOidToOrder _ _ ≠ none
              rw [hrest.index, if_pos ⟨rfl, rfl⟩]
              simp
            index := fun c oid hne => by
              show s₃.cidOidToOrder c oid = _
              rw [hrest.index]
              exact (if_neg (hne.resolve_left hleft)).trans
                (hindex c oid) }
    · right
      refine ⟨⟨s₃, ?_⟩, hleft, ?_⟩
      · rw [htail]
        exact Exec.run_bind_error herr
      · rw [← hbook₂]
        exact hfull

-- ---------------------------------------------- a shared slot, the other way

/-- `getNextPriority` reads some priority whenever the slot's level is one
of the ladder. -/
theorem getNextPriority_returns {s : Ladder OrderIds} {lay : Layout}
    (h : Laid s lay none) (price : Price) :
    ∃ priority, (getNextPriority price).run s = .ok priority s := by
  cases hslot : s.getOrdersAtPrice price with
  | none => exact ⟨1, by simp [getNextPriority, hslot]⟩
  | some p =>
      obtain ⟨hlev, -⟩ := h.levels.slots _ p hslot
      obtain ⟨a, l, hq⟩ := List.exists_cons_of_ne_nil
        (h.queues.nonempty p hlev)
      have hfirst := h.queues.first p hlev
      have hring := h.queues.ring p
      rw [hq] at hfirst hring
      rw [List.head?_cons] at hfirst
      refine ⟨(s.resting ((a :: l).getLast (List.cons_ne_nil a l))).priority
        + 1, ?_⟩
      simp [getNextPriority, hslot, hfirst, hring.prev_head]

/-- What is wrong in a book in which an order was linked into the level of
another price: the order at `o` is queued at level `p`, behind the
order at `q`. -/
structure Misplaced (s : MatchingEngineOrderBook) (lay : Layout) (c : Bool)
    (p q o : Ptr) : Prop where
  laid : Laid s.ladder lay none
  level : p ∈ lay.levels c
  first : q ∈ lay.queue p
  second : o ∈ lay.queue p
  price : (s.ladder.resting o).price ≠ s.ladder.levelPrice p
  differ : (s.ladder.resting q).price ≠ (s.ladder.resting o).price
  index : priceToIndex (s.ladder.resting q).price
    = priceToIndex (s.ladder.resting o).price

/-- When another price uses the slot, `add` links the remainder into that
price's level. -/
theorem add_misplaces {s s' : MatchingEngineOrderBook} {lay : Layout}
    {i : Incoming} (h : Stored s lay)
    (hid : i.ids.marketOrderId = s.nextMarketOrderId)
    (hrange : inRange i.ids.clientId i.ids.clientOrderId = true)
    (hleft : (i.swept s.book).left ≠ 0)
    (hbad : ¬ SlotFree (i.sweptBook s.book) i.price)
    (hadd : (add i.ids.clientId i.ids.clientOrderId i.ids.tickerId
        (sideOf i.isBuy) i.price i.quantity).run s = .ok () s') :
    ∃ lay' c p q o, Misplaced s' lay' c p q o := by
  obtain ⟨s₂, lay₂, hrun, hst₂, hbook₂, -, -, -⟩ := exists_swept i h hid
  -- the order whose price uses the slot, and its level
  unfold SlotFree at hbad
  push Not at hbad
  obtain ⟨c, x, hx, hidx, hne⟩ := hbad
  rw [← hbook₂, hst₂.book_eq] at hx
  obtain ⟨q, hq, rfl⟩ := List.mem_map.1 hx
  obtain ⟨p, hpc, hqp⟩ := mem_orders hq
  have hslot := hst₂.booked.slot hqp
  have hqprice := (hst₂.booked.matched p q hqp).2
  obtain ⟨priority, hprio⟩ := getNextPriority_returns hst₂.booked.laid i.price
  unfold add at hadd
  rw [hrun] at hadd
  simp only [ne_eq, hleft, not_false_eq_true, if_true] at hadd
  rw [Exec.run_bind_ok (run_onLadder_ok hprio)] at hadd
  rcases allocateOrder_spec hst₂.booked
      { key := i.ids, side := sideOf i.isBuy, price := i.price,
        quantity := (i.swept s.book).left, priority := priority,
        prevOrder := none, nextOrder := none } with
    ⟨l₁, o, halloc, hb₁, hfresh, horder, hlp, -, hslots⟩ |
    ⟨⟨l₁, herr⟩, -⟩
  · rw [Exec.run_bind_ok (run_onLadder_ok halloc)] at hadd
    have hoprice : (l₁.resting o).price = i.price := by
      unfold Ladder.resting
      rw [horder, if_pos rfl]
    have hokey : (l₁.resting o).key = i.ids := by
      unfold Ladder.resting
      rw [horder, if_pos rfl]
    have hqkeep : l₁.resting q = s₂.ladder.resting q := by
      unfold Ladder.resting
      rw [horder, if_neg]
      intro heq
      exact hfresh ⟨p, heq ▸ hqp⟩
    have hslot₁ : l₁.getOrdersAtPrice (l₁.resting o).price = some p := by
      rw [hoprice]
      unfold getOrdersAtPrice at hslot ⊢
      rw [hslots, ← hidx]
      exact hslot
    obtain ⟨l₂, hlink, hlaid, hrest, -, hprices⟩ :=
      linkOrder_append hb₁.laid hslot₁
    have hkey : (l₂.resting o).key = i.ids := by rw [hrest, hokey]
    unfold addOrder setClientOrder at hadd
    simp only [bind_assoc] at hadd
    rw [Exec.run_bind_ok (run_onLadder_ok hlink)] at hadd
    simp [hkey, hrange] at hadd
    have hladder : s'.ladder = l₂ := by rw [← hadd]
    refine ⟨lay₂.setQueue p (lay₂.queue p ++ [o]), c, p, q, o, ?_⟩
    exact
      { laid := by rw [hladder]; exact hlaid
        level := hpc
        first := by
          rw [Layout.setQueue_queue, if_pos rfl]
          exact List.mem_append_left _ hqp
        second := by
          rw [Layout.setQueue_queue, if_pos rfl]
          exact List.mem_append_right _ (List.mem_singleton_self o)
        price := by
          rw [hladder, hrest, hprices, hlp, hoprice, ← hqprice]
          exact fun heq => hne heq.symm
        differ := by
          rw [hladder, hrest, hqkeep, hoprice]
          exact hne
        index := by
          rw [hladder, hrest, hqkeep, hoprice]
          exact hidx }
  · rw [Exec.run_bind_error (run_onLadder_error herr)] at hadd
    cases hadd

-- ================================================================= cancel

/-- What a CANCEL that finds the order `r` on side `b` leaves. -/
structure AfterCancel (clientId : ClientID) (orderId : OrderID)
    (tickerId : TickerID) (b : Bool) (r : Resting OrderIds)
    (s s' : MatchingEngineOrderBook) (lay' : Layout) : Prop where
  stored : Stored s' lay'
  owned : r.key.clientId = clientId ∧ r.key.clientOrderId = orderId
  book : ∃ l m, s.book b = l ++ r :: m ∧ s'.book b = l ++ m
  other : ∀ c, c ≠ b → s'.book c = s.book c
  sent : s'.sent = s.sent ++ [.update (cancelUpdate tickerId r),
    .response (cancelled clientId orderId tickerId r)]
  nextId : s'.nextMarketOrderId = s.nextMarketOrderId
  index : ∀ c oid, s'.cidOidToOrder c oid
    = if clientId = c ∧ orderId = oid then none else s.cidOidToOrder c oid

theorem run_findOrder {s : MatchingEngineOrderBook} {clientId : ClientID}
    {orderId : OrderID} (hrange : inRange clientId orderId = true) :
    (findOrder clientId orderId).run s
      = .ok (s.cidOidToOrder clientId orderId) s := by
  have hclient : clientId.toNat < matchingEngineMaxNumClients := by
    unfold inRange at hrange
    simp only [Bool.and_eq_true, decide_eq_true_eq] at hrange
    exact hrange.1
  unfold findOrder
  rw [if_pos hclient]
  simp [hrange]

/-- `cancel`, when the index names no order. -/
theorem cancel_none {s : MatchingEngineOrderBook} {clientId : ClientID}
    {orderId : OrderID} (tickerId : TickerID)
    (hrange : inRange clientId orderId = true)
    (hentry : s.cidOidToOrder clientId orderId = none) :
    (cancel clientId orderId tickerId).run s = .ok () { s with
      sent := s.sent
        ++ [.response (cancelRejected clientId orderId tickerId)] } := by
  have hfind := run_findOrder (s := s) hrange
  rw [hentry] at hfind
  unfold cancel
  rw [Exec.run_bind_ok hfind]
  rfl

/-- `cancel` removes the order at `o`, when the index names it. -/
theorem cancel_some {s : MatchingEngineOrderBook} {lay : Layout}
    (h : Stored s lay) {clientId : ClientID} {orderId : OrderID}
    (tickerId : TickerID) (hrange : inRange clientId orderId = true) {o : Ptr}
    (hentry : s.cidOidToOrder clientId orderId = some o) :
    ∃ s' lay' b, o ∈ lay.orders b
      ∧ lay'.orders b = (lay.orders b).erase o
      ∧ s'.ladder.resting = s.ladder.resting
      ∧ (cancel clientId orderId tickerId).run s = .ok () s'
      ∧ AfterCancel clientId orderId tickerId b (s.ladder.resting o) s s'
        lay' := by
  have hfind := run_findOrder (s := s) hrange
  rw [hentry] at hfind
  obtain ⟨hhas, howned⟩ := h.index clientId orderId o hentry
  obtain ⟨b, ho⟩ := (h.booked.laid.hasOrder_iff o).1 hhas
  obtain ⟨s₁, lay₁, hremove, hst, hrest, horders, hother, hindex, hnext,
    hsent⟩ := removeOrder_spec h ho
  refine ⟨{ s₁ with sent := s₁.sent ++
      [Sent.update (cancelUpdate tickerId (s.ladder.resting o)),
        .response (cancelled clientId orderId tickerId
          (s.ladder.resting o))] }, lay₁, b, ho, horders, hrest, ?_, ?_⟩
  · unfold cancel
    rw [Exec.run_bind_ok hfind]
    simp [hremove, cancelUpdate, cancelled]
  · exact
      { stored := hst.congr rfl rfl
        owned := howned
        book := by
          obtain ⟨l, m, hsplit⟩ := List.append_of_mem ho
          have hnd := h.booked.laid.orders_nodup b
          rw [hsplit, List.nodup_middle, List.nodup_cons,
            List.mem_append, not_or] at hnd
          refine ⟨l.map s.ladder.resting, m.map s.ladder.resting, ?_, ?_⟩
          · rw [h.book_eq, hsplit]
            simp
          · show s₁.book b = _
            rw [hst.book_eq, horders, hrest, hsplit,
              List.erase_append_right _ hnd.1.1, List.erase_cons_head]
            simp
        other := fun c hc => by
          show s₁.book c = _
          rw [hst.book_eq, hother c hc, hrest, h.book_eq]
        sent := by
          show s₁.sent ++ _ = _
          rw [hsent]
        nextId := hnext
        index := fun c oid => by
          show s₁.cidOidToOrder c oid = _
          rw [hindex]
          refine if_congr ?_ rfl rfl
          unfold OwnedBy
          rw [howned.1, howned.2] }

/-- `cancel` removes the order the index names, if it names one. -/
theorem cancel_spec {s : MatchingEngineOrderBook} {lay : Layout}
    (h : Stored s lay) {clientId : ClientID} {orderId : OrderID}
    (tickerId : TickerID) (hrange : inRange clientId orderId = true) :
    (s.cidOidToOrder clientId orderId = none
        ∧ (cancel clientId orderId tickerId).run s = .ok () { s with
          sent := s.sent
            ++ [.response (cancelRejected clientId orderId tickerId)] })
      ∨ (s.cidOidToOrder clientId orderId ≠ none
        ∧ ∃ s' lay' b r, (cancel clientId orderId tickerId).run s = .ok () s'
          ∧ AfterCancel clientId orderId tickerId b r s s' lay') := by
  cases hentry : s.cidOidToOrder clientId orderId with
  | none => exact Or.inl ⟨rfl, cancel_none tickerId hrange hentry⟩
  | some o =>
      obtain ⟨s', lay', b, -, -, -, hrun, hafter⟩ :=
        cancel_some h tickerId hrange hentry
      exact Or.inr ⟨by simp, s', lay', b, _, hrun, hafter⟩

end MatchingEngineOrderBook

end ElectronicTrading
