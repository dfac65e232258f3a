/-
The two things a book does to its ladder, on the lists of its resting
orders: an order comes to rest (`restOrder_spec`), an order goes
(`takeOrder_spec`).

Both classes of book do them with the same calls and their own index in
between, so the specifications give the state after each call.
-/
import ElectronicTrading.Common.Proofs.Views

namespace ElectronicTrading

open LinkedRing PriceTime

namespace Ladder

variable {K : Type}

/-- There is no room for one more order at `price`: all blocks but one
are orders, or they are levels and `price` needs a new one. -/
def Full (book : Bool → List (Resting K)) (price : Price) : Prop :=
  matchingEngineMaxOrderIds
      ≤ (book true).length + (book false).length + 1
    ∨ (matchingEngineMaxPriceLevels
        ≤ (levelsOf (book true)).length + (levelsOf (book false)).length + 1
      ∧ ∀ b, ∀ r ∈ book b, r.price ≠ price)

/-- A resting order to be, as it is allocated. -/
def unlinked (r : Resting K) : Order K where
  key := r.key
  side := r.side
  price := r.price
  quantity := r.quantity
  priority := r.priority
  prevOrder := none
  nextOrder := none

section

variable {s : Ladder K} {lay : Layout}

/-- What an order `r` on side `b` that came to rest at `o` leaves. -/
structure AfterRest (r : Resting K) (b : Bool) (o : Ptr) (s s' : Ladder K)
    (lay lay' : Layout) : Prop where
  booked : Booked s' lay' none
  fresh : ¬ lay.HasOrder o
  resting : ∀ q, s'.resting q = if q = o then r else s.resting q
  hasOrder : ∀ q, lay'.HasOrder q ↔ q = o ∨ lay.HasOrder q
  book : ∀ c, s'.restingOrders c
    = if c = b then place b r (s.restingOrders b) else s.restingOrders c

/-- Allocating an order and linking it, when the orders whose prices share
its slot have its side and price. It fails only for want of room. -/
theorem restOrder_spec {b : Bool} {r : Resting K} (h : Booked s lay none)
    (hside : r.side = sideOf b)
    (hfree : ∀ c, ∀ q ∈ lay.orders c,
      priceToIndex (s.resting q).price = priceToIndex r.price →
        c = b ∧ (s.resting q).price = r.price) :
    (∃ l₁ s' lay' o, (allocateOrder (unlinked r)).run s = .ok (some o) l₁
        ∧ l₁.resting o = r
        ∧ (linkOrder (some o)).run l₁ = .ok () s'
        ∧ AfterRest r b o s s' lay lay')
      ∨ ((∃ s', (allocateOrder (unlinked r)).run s
            = .error .poolOutOfSpace s')
          ∨ ∃ l₁ s' o, (allocateOrder (unlinked r)).run s = .ok (some o) l₁
            ∧ (linkOrder (some o)).run l₁ = .error .poolOutOfSpace s')
        ∧ Full s.restingOrders r.price := by
  rcases allocateOrder_spec h (unlinked r) with
    ⟨l₁, o, halloc, hb₁, hfresh, horder, hlp, hls, hslots⟩ |
    ⟨herr, hfull⟩
  · have hrest : ∀ q, l₁.resting q = if q = o then r else s.resting q := by
      intro q
      unfold Ladder.resting
      rw [horder]
      split <;> rfl
    have ho : l₁.resting o = r := by rw [hrest, if_pos rfl]
    -- the block allocated was free, so that no order is written over
    have hkeep : ∀ c, ∀ q ∈ lay.orders c, l₁.resting q = s.resting q := by
      intro c q hq
      rw [hrest, if_neg]
      intro heq
      exact hfresh ((h.laid.hasOrder_iff o).2 ⟨c, heq ▸ hq⟩)
    rcases linkOrder_spec hb₁ (b := b) (by rw [ho, hside])
        (fun c q hq hidx => by
          rw [ho, hkeep c q hq] at hidx
          rw [ho, hkeep c q hq]
          exact hfree c q hq hidx) with
      ⟨l₂, lay', l, m, hlink, hb₂, hrest₂, hput⟩ | ⟨⟨l₂, herr⟩, hnew, hfull⟩
    · refine Or.inl ⟨l₁, l₂, lay', o, halloc, ho, hlink, ?_⟩
      refine
        { booked := hb₂
          fresh := hfresh
          resting := fun q => by rw [hrest₂, hrest]
          hasOrder := ?_
          book := ?_ }
      · intro q
        rw [hb₂.laid.hasOrder_iff, h.laid.hasOrder_iff]
        constructor
        · intro h
          obtain ⟨c, hc⟩ := h
          by_cases hcb : c = b
          · rw [hcb, hput.after, List.mem_append, List.mem_cons] at hc
            rcases hc with hc | hc | hc
            · right
              exact ⟨b, by rw [hput.before]; exact List.mem_append_left _ hc⟩
            · exact Or.inl hc
            · right
              exact ⟨b, by rw [hput.before]; exact List.mem_append_right _ hc⟩
          · rw [hput.other c hcb] at hc
            exact Or.inr ⟨c, hc⟩
        · intro h
          rcases h with hqo | ⟨c, hc⟩
          · refine ⟨b, ?_⟩
            rw [hput.after, hqo]
            simp
          · refine ⟨c, ?_⟩
            by_cases hcb : c = b
            · rw [hcb, hput.before, List.mem_append] at hc
              rw [hcb, hput.after, List.mem_append, List.mem_cons]
              tauto
            · rw [hput.other c hcb]
              exact hc
      · intro c
        have hmap : ∀ ps : List Ptr, (∀ q ∈ ps, q ∈ lay.orders c) →
            ps.map l₂.resting = ps.map s.resting := by
          intro ps hps
          rw [hrest₂]
          exact List.map_congr_left fun q hq => hkeep c q (hps q hq)
        rw [hb₂.laid.restingOrders_eq, h.laid.restingOrders_eq,
          h.laid.restingOrders_eq]
        split
        · next hcb =>
            subst hcb
            have hleft : ∀ q ∈ l, q ∈ lay.orders c := fun q hq => by
              rw [hput.before]
              exact List.mem_append_left _ hq
            have hright : ∀ q ∈ m, q ∈ lay.orders c := fun q hq => by
              rw [hput.before]
              exact List.mem_append_right _ hq
            rw [hput.after, hput.before, List.map_append, List.map_append,
              List.map_cons, hmap l hleft, hmap m hright, hrest₂, ho]
            symm
            -- where `linkOrder` puts it is where the reference does
            refine place_append ?_ ?_
            · intro x hx
              obtain ⟨q, hq, rfl⟩ := List.mem_map.1 hx
              rw [← hkeep c q (hleft q hq), ← ho]
              exact hput.notWorse q hq
            · intro x hx
              obtain ⟨q, hq, rfl⟩ := List.mem_map.1 hx
              rw [← hkeep c q (hright q hq), ← ho]
              exact hput.worse q hq
        · next hcb =>
            rw [hput.other c hcb]
            exact hmap _ fun q hq => hq
    · refine Or.inr ⟨Or.inr ⟨l₁, l₂, o, halloc, herr⟩, Or.inr ⟨?_, ?_⟩⟩
      · rwa [List.length_append, h.levels_length, h.levels_length] at hfull
      · intro c x hx
        rw [h.laid.restingOrders_eq] at hx
        obtain ⟨q, hq, rfl⟩ := List.mem_map.1 hx
        rw [← hkeep c q hq, ← ho]
        exact hnew c q hq
  · refine Or.inr ⟨Or.inl herr, Or.inl ?_⟩
    rw [h.laid.restingOrders_eq, h.laid.restingOrders_eq, List.length_map,
      List.length_map]
    rwa [List.length_append] at hfull

/-- A booked ladder has room for itself. -/
theorem Booked.lengths (h : Booked s lay none) :
    (s.restingOrders true).length + (s.restingOrders false).length + 1
        ≤ matchingEngineMaxOrderIds
      ∧ (levelsOf (s.restingOrders true)).length
          + (levelsOf (s.restingOrders false)).length + 1
        ≤ matchingEngineMaxPriceLevels := by
  constructor
  · rw [h.laid.restingOrders_eq, h.laid.restingOrders_eq, List.length_map,
      List.length_map, ← List.length_append]
    by_contra hlen
    -- the free cursor is a block of its own
    have hnd : (s.orderPool.nextFreeIndex
        :: (lay.orders true ++ lay.orders false)).Nodup := by
      refine List.nodup_cons.2 ⟨fun hmem => ?_, ?_⟩
      · have hused : s.orderUsed s.orderPool.nextFreeIndex = true := by
          refine (h.laid.queues.used _).2 (Or.inl ?_)
          rw [h.laid.hasOrder_iff]
          rcases List.mem_append.1 hmem with hmem | hmem
          · exact ⟨true, hmem⟩
          · exact ⟨false, hmem⟩
        have hfree := h.laid.queues.pool.cursor_free
        unfold orderUsed at hused
        rw [hused] at hfree
        cases hfree
      · refine List.nodup_append.2 ⟨h.laid.orders_nodup true,
          h.laid.orders_nodup false, fun o ho o' ho' heq => ?_⟩
        have hsame := h.orders_disjoint ho (heq ▸ ho')
        cases hsame
    have hle := length_le_of_lt hnd fun o ho => by
      rcases List.mem_cons.1 ho with rfl | ho
      · exact h.laid.queues.pool.cursor_lt
      · refine h.laid.queues.pool.used_lt o
          ((h.laid.queues.used o).2 (Or.inl ?_))
        rw [h.laid.hasOrder_iff]
        rcases List.mem_append.1 ho with ho | ho
        · exact ⟨true, ho⟩
        · exact ⟨false, ho⟩
    rw [List.length_cons, h.laid.queues.size] at hle
    omega
  · rw [← h.levels_length, ← h.levels_length, ← List.length_append]
    by_contra hlen
    have hlevel : ∀ p ∈ lay.levels true ++ lay.levels false,
        s.levelUsed p = true := fun p hp => by
      refine (h.laid.levels.used p).2 ?_
      rcases List.mem_append.1 hp with hp | hp
      · exact ⟨true, hp⟩
      · exact ⟨false, hp⟩
    have hnd : (s.ordersAtPricePool.nextFreeIndex
        :: (lay.levels true ++ lay.levels false)).Nodup := by
      refine List.nodup_cons.2 ⟨fun hmem => ?_, ?_⟩
      · have hused := hlevel _ hmem
        have hfree := h.laid.levels.pool.cursor_free
        unfold levelUsed at hused
        rw [hused] at hfree
        cases hfree
      · refine List.nodup_append.2 ⟨(h.laid.levels.ring true).nodup,
          (h.laid.levels.ring false).nodup, fun p hp p' hp' heq => ?_⟩
        have hsame := h.laid.levels.side_unique hp (heq ▸ hp')
        cases hsame
    have hle := length_le_of_lt hnd fun p hp => by
      rcases List.mem_cons.1 hp with rfl | hp
      · exact h.laid.levels.pool.cursor_lt
      · exact h.laid.levels.pool.used_lt p (hlevel p hp)
    rw [List.length_cons, h.laid.levels.size] at hle
    omega

/-- Unlinking an order and releasing it. -/
theorem takeOrder_spec {b : Bool} {o : Ptr} (h : Booked s lay none)
    (ho : o ∈ lay.orders b) :
    ∃ l₁ s' lay', (unlinkOrder (some o)).run s = .ok () l₁
      ∧ l₁.resting = s.resting
      ∧ (deallocateOrder (some o)).run l₁ = .ok () s'
      ∧ Booked s' lay' none ∧ s'.resting = s.resting
      ∧ lay'.orders b = (lay.orders b).erase o
      ∧ (∀ c, c ≠ b → lay'.orders c = lay.orders c)
      ∧ ∀ p, lay'.HasOrder p ↔ p ≠ o ∧ lay.HasOrder p := by
  obtain ⟨l₁, lay', hunlink, hb₁, hrest₁, horders, hother⟩ :=
    unlinkOrder_spec h ho
  obtain ⟨l₂, hdealloc, hb₂, hrest₂, -, -⟩ := deallocateOrder_spec hb₁
  refine ⟨l₁, l₂, lay', hunlink, hrest₁, hdealloc, hb₂, hrest₂.trans hrest₁,
    horders, hother, fun p => ?_⟩
  have hnd := h.laid.orders_nodup b
  rw [hb₂.laid.hasOrder_iff, h.laid.hasOrder_iff]
  constructor
  · intro h
    obtain ⟨c, hc⟩ := h
    by_cases hcb : c = b
    · rw [hcb, horders, hnd.mem_erase_iff] at hc
      exact ⟨hc.1, b, hc.2⟩
    · rw [hother c hcb] at hc
      refine ⟨fun hpo => hcb ?_, c, hc⟩
      exact h.orders_disjoint (hpo ▸ hc) ho
  · intro h
    obtain ⟨hpo, c, hc⟩ := h
    refine ⟨c, ?_⟩
    by_cases hcb : c = b
    · rw [hcb, horders, hnd.mem_erase_iff]
      exact ⟨hpo, hcb ▸ hc⟩
    · rw [hother c hcb]
      exact hc

end

end Ladder

end ElectronicTrading
