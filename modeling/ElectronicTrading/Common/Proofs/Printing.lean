/-
When the sort check of `toString` stops the process.

`printer` compares each level with the one before it and the first with
the smallest price there is. So on well-formed rings the loop of a side
ends in the FATAL unless that price followed by the side's prices gets
worse throughout (`printLevels_run`). On the asks the smallest price is
better than every other, and the check is right unless it rests there
itself. On the bids it is the worst: the first level already fails,
whatever its price (`not_chain_bids`). The walk over a level's orders
never fails, and nothing is written.
-/
import ElectronicTrading.Common.BookPrinter
import ElectronicTrading.Common.Proofs.Layout

namespace ElectronicTrading

open LinkedRing Exec

namespace Ladder

variable {K : Type} {s : Ladder K} {lay : Layout}

/-- The rings of the levels, and of the orders of each level, are linked
as `lay` reads them, inside of the pools. Nothing is said about prices. -/
structure Ringed (s : Ladder K) (lay : Layout) : Prop where
  head : ∀ b, s.best b = (lay.levels b).head?
  ring : ∀ b, IsRing s.nextEntry s.prevEntry (lay.levels b)
  size : ∀ b, (lay.levels b).length ≤ s.ordersAtPricePool.size
  first : ∀ b, ∀ p ∈ lay.levels b, s.firstOrder p = (lay.queue p).head?
  nonempty : ∀ b, ∀ p ∈ lay.levels b, lay.queue p ≠ []
  queue : ∀ b, ∀ p ∈ lay.levels b,
    IsRing s.nextOrder s.prevOrder (lay.queue p)
  queueSize : ∀ b, ∀ p ∈ lay.levels b,
    (lay.queue p).length ≤ s.orderPool.size

/-- The prices of a side, from the best level on. -/
def prices (s : Ladder K) (lay : Layout) (b : Bool) : List Price :=
  (lay.levels b).map s.levelPrice

/-- The asks ascend and the bids descend strictly. -/
def IsSorted (s : Ladder K) (lay : Layout) : Prop :=
  ∀ b, (s.prices lay b).Pairwise (Better b)

/-- `toString` with its check stops the process. -/
def Fatal (s : Ladder K) (orderId : K → OrderID) (detailed : Bool) : Prop :=
  ∃ s', (toString orderId detailed true).run s = .error .notSorted s'

-- ============================================================= the orders

theorem printId_run (orderId : K → OrderID) (s : Ladder K) (p : Option Ptr) :
    ∃ id, (printId orderId p).run s = .ok id s := by
  cases p with
  | none => exact ⟨_, rfl⟩
  | some p => exact ⟨_, rfl⟩

theorem printOrder_run (orderId : K → OrderID) (s : Ladder K) (o : Order K) :
    ∃ printed, (printOrder orderId o).run s = .ok printed s := by
  obtain ⟨prevOrderId, hprev⟩ := printId_run orderId s o.prevOrder
  obtain ⟨nextOrderId, hnext⟩ := printId_run orderId s o.nextOrder
  refine ⟨{ orderId := orderId o.key, quantity := o.quantity,
            prevOrderId := prevOrderId, nextOrderId := nextOrderId }, ?_⟩
  unfold printOrder
  rw [run_bind_ok hprev, run_bind_ok hnext]
  rfl

/-- A loop over the orders of a ring comes back to the first one, when
its body neither fails nor writes. -/
theorem forOrders_run {α : Type} {body : Order K → α → Prog (Ladder K) α}
    (hbody : ∀ o a, ∃ a', (body o a).run s = .ok a' s) {l : List Ptr}
    (hring : IsRing s.nextOrder s.prevOrder l) (rest : List Ptr) :
    ∀ (before : List Ptr) (p : Ptr) (fuel : Nat) (a : α),
      l = before ++ p :: rest → rest.length < fuel →
      ∃ a', (forOrders body l.head? fuel (some p) a).run s = .ok a' s := by
  induction rest with
  | nil =>
      intro before p fuel a hl hfuel
      obtain ⟨n, rfl⟩ : ∃ n, fuel = n + 1 := ⟨fuel - 1, by omega⟩
      obtain ⟨a', ha'⟩ := hbody (s.order p) a
      have hnext : (s.order p).nextOrder = l.head? := by
        rw [hl] at hring ⊢
        rw [show (s.order p).nextOrder = s.nextOrder p from rfl,
          hring.next_eq, List.nil_append]
      refine ⟨a', ?_⟩
      rw [forOrders, run_bind_ok (run_readOrder s p), run_bind_ok ha',
        if_pos hnext]
      rfl
  | cons q rest ih =>
      intro before p fuel a hl hfuel
      rw [List.length_cons] at hfuel
      obtain ⟨n, rfl⟩ : ∃ n, fuel = n + 1 := ⟨fuel - 1, by omega⟩
      obtain ⟨a', ha'⟩ := hbody (s.order p) a
      have hnext : (s.order p).nextOrder = some q := by
        rw [hl] at hring
        rw [show (s.order p).nextOrder = s.nextOrder p from rfl,
          hring.next_eq]
        rfl
      rw [forOrders, run_bind_ok (run_readOrder s p), run_bind_ok ha', hnext]
      by_cases hback : some q = l.head?
      · rw [if_pos hback]
        exact ⟨a', rfl⟩
      · rw [if_neg hback]
        exact ih (before ++ [p]) q n a' (by rw [hl]; simp) (by omega)

/-- The loop over the orders of a level. -/
theorem Ringed.forOrders_run (h : Ringed s lay) {b : Bool} {p : Ptr}
    (hp : p ∈ lay.levels b) {α : Type}
    (body : Order K → α → Prog (Ladder K) α)
    (hbody : ∀ o a, ∃ a', (body o a).run s = .ok a' s) (a : α) :
    ∃ a', (forOrders body (s.firstOrder p) s.orderPool.size
      (s.firstOrder p) a).run s = .ok a' s := by
  have hsize := h.queueSize b p hp
  obtain ⟨o, rest, hq⟩ := List.exists_cons_of_ne_nil (h.nonempty b p hp)
  have hhead : s.firstOrder p = some o := by
    rw [h.first b p hp, hq]
    rfl
  have hloop := Ladder.forOrders_run hbody (h.queue b p hp) rest [] o
    s.orderPool.size a hq (by rw [hq, List.length_cons] at hsize; omega)
  rw [← h.first b p hp, hhead] at hloop
  rw [hhead]
  exact hloop

-- ============================================================= the levels

/-- The check passes on a price that is worse than the last. -/
theorem checkSorted_run (b : Bool) (lastPrice price : Price) :
    (checkSorted (if b then .buy else .sell) lastPrice price).run s
      = if Better b lastPrice price then .ok price s
        else .error .notSorted s := by
  unfold checkSorted Better
  cases b with
  | true =>
      by_cases hworse : price < lastPrice
      · simp [hworse, hworse.not_ge]
      · simp [hworse, not_lt.1 hworse]
        rfl
  | false =>
      by_cases hworse : lastPrice < price
      · simp [hworse, hworse.not_ge]
      · simp [hworse, not_lt.1 hworse]
        rfl

/-- `printer` fails in its check only. -/
theorem Ringed.printer_run (h : Ringed s lay) (orderId : K → OrderID)
    {b : Bool} {p : Ptr} (hp : p ∈ lay.levels b) (detailed : Bool)
    (lastPrice : Price) :
    ∃ level : PrintedLevel, (printer orderId detailed true (some p)
        (if b then .buy else .sell) lastPrice).run s
      = if Better b lastPrice (s.levelPrice p) then
          .ok (level, s.levelPrice p) s
        else .error .notSorted s := by
  obtain ⟨before, after, hsplit⟩ := List.append_of_mem hp
  have hring := h.ring b
  rw [hsplit] at hring
  obtain ⟨q, hprev⟩ : ∃ q, s.prevEntry p = some q := by
    rw [hring.prev_eq]
    exact ⟨_, List.getLast?_eq_getLast_of_ne_nil (List.cons_ne_nil _ _)⟩
  obtain ⟨q', hnext⟩ : ∃ q', s.nextEntry p = some q' := by
    rw [hring.next_eq]
    cases after with
    | cons _ _ => exact ⟨_, rfl⟩
    | nil =>
        cases before with
        | cons _ _ => exact ⟨_, rfl⟩
        | nil => exact ⟨_, rfl⟩
  obtain ⟨counted, hcounted⟩ := h.forOrders_run hp
    (fun o (counted : Quantity × Nat) =>
      return (counted.1 + o.quantity, counted.2 + 1))
    (fun o a => ⟨_, rfl⟩) (0, 0)
  obtain ⟨orders, horders⟩ := h.forOrders_run hp
    (fun o (printed : List PrintedOrder) =>
      if detailed then do return printed ++ [← printOrder orderId o]
      else return printed)
    (by
      intro o printed
      cases detailed with
      | false => exact ⟨printed, rfl⟩
      | true =>
          obtain ⟨line, hline⟩ := printOrder_run orderId s o
          refine ⟨printed ++ [line], ?_⟩
          rw [if_pos rfl, run_bind_ok hline]
          rfl) []
  refine ⟨{ price := s.levelPrice p, prevPrice := s.levelPrice q,
            nextPrice := s.levelPrice q', quantity := counted.1,
            numOrders := counted.2, orders := orders }, ?_⟩
  have hlevel : (readLevel (some p)).run s = .ok (s.level p) s :=
    run_readLevel s p
  unfold printer
  rw [EStateM.run_bind, EStateM.run_get]
  dsimp only
  rw [run_bind_ok hlevel,
    show (s.level p).firstOrder = s.firstOrder p from rfl,
    run_bind_ok hcounted, run_bind_ok hlevel,
    show (s.level p).prevEntry = some q from hprev,
    run_bind_ok (run_readLevel s q), run_bind_ok hlevel,
    show (s.level p).nextEntry = some q' from hnext,
    run_bind_ok (run_readLevel s q'), run_bind_ok horders,
    run_bind_ok hlevel]
  rw [if_pos rfl, EStateM.run_bind,
    show (s.level p).price = s.levelPrice p from rfl, checkSorted_run]
  by_cases hworse : Better b lastPrice (s.levelPrice p)
  · rw [if_pos hworse, if_pos hworse]
    rfl
  · rw [if_neg hworse, if_neg hworse]

/-- From a level on, the loop of a side ends in the FATAL unless the last
price and the prices to come get worse throughout. -/
theorem Ringed.printLevels_run (h : Ringed s lay) (orderId : K → OrderID)
    (detailed b : Bool) (rest : List Ptr) :
    ∀ (before : List Ptr) (fuel : Nat) (lastPrice : Price)
      (printed : List PrintedLevel),
      lay.levels b = before ++ rest → rest.length < fuel →
      (List.IsChain (Better b) (lastPrice :: rest.map s.levelPrice) →
        ∃ printed', (printLevels orderId detailed true b fuel rest.head?
          lastPrice printed).run s = .ok printed' s)
      ∧ (¬ List.IsChain (Better b) (lastPrice :: rest.map s.levelPrice) →
        (printLevels orderId detailed true b fuel rest.head? lastPrice
          printed).run s = .error .notSorted s) := by
  induction rest with
  | nil =>
      intro before fuel lastPrice printed _ hfuel
      obtain ⟨n, rfl⟩ : ∃ n, fuel = n + 1 := ⟨fuel - 1, by omega⟩
      refine ⟨fun _ => ⟨printed, rfl⟩, fun hchain => ?_⟩
      exact absurd (List.isChain_singleton lastPrice) hchain
  | cons p rest ih =>
      intro before fuel lastPrice printed hl hfuel
      rw [List.length_cons] at hfuel
      obtain ⟨n, rfl⟩ : ∃ n, fuel = n + 1 := ⟨fuel - 1, by omega⟩
      have hring := h.ring b
      rw [hl] at hring
      have hp : p ∈ lay.levels b := by
        rw [hl]
        exact List.mem_append_right _ (List.mem_cons_self ..)
      -- the ring leads to the next level, or back to the best one
      have hnext : (if (s.level p).nextEntry = s.best b then none
          else (s.level p).nextEntry) = rest.head? := by
        have hentry : (s.level p).nextEntry
            = (rest ++ (before ++ [p])).head? := hring.next_eq
        rw [hentry, h.head b, hl]
        cases rest with
        | nil =>
            rw [List.nil_append, if_pos rfl]
            rfl
        | cons q rest =>
            rw [if_neg]
            · rfl
            · intro heq
              have hnd := hring.nodup
              cases before with
              | nil =>
                  obtain rfl : q = p := Option.some.inj heq
                  simp at hnd
              | cons a before =>
                  obtain rfl : q = a := Option.some.inj heq
                  simp at hnd
      obtain ⟨level, hprinter⟩ :=
        h.printer_run orderId hp detailed lastPrice
      have hrun : (printLevels orderId detailed true b (n + 1) (some p)
          lastPrice printed).run s
          = if Better b lastPrice (s.levelPrice p) then
              (printLevels orderId detailed true b n rest.head?
                (s.levelPrice p) (printed ++ [level])).run s
            else .error .notSorted s := by
        rw [printLevels, if_neg (Option.some_ne_none p),
          run_bind_ok (run_readLevel s p), EStateM.run_bind, EStateM.run_get]
        dsimp only
        rw [hnext, EStateM.run_bind, hprinter]
        by_cases hworse : Better b lastPrice (s.levelPrice p)
        · rw [if_pos hworse, if_pos hworse]
        · rw [if_neg hworse, if_neg hworse]
      obtain ⟨hsorted, hunsorted⟩ := ih (before ++ [p]) n (s.levelPrice p)
        (printed ++ [level]) (by rw [hl]; simp) (by omega)
      rw [List.head?_cons, hrun, List.map_cons, List.isChain_cons_cons]
      by_cases hworse : Better b lastPrice (s.levelPrice p)
      · rw [if_pos hworse]
        exact ⟨fun hchain => hsorted hchain.2,
          fun hchain => hunsorted fun hrest => hchain ⟨hworse, hrest⟩⟩
      · rw [if_neg hworse]
        exact ⟨fun hchain => absurd hchain.1 hworse, fun _ => rfl⟩

/-- The process is stopped unless both sides pass, each from the smallest
price on. -/
theorem Ringed.fatal_iff (h : Ringed s lay) (orderId : K → OrderID)
    (detailed : Bool) :
    s.Fatal orderId detailed ↔
      ¬ List.IsChain (Better false) (priceMin :: s.prices lay false)
        ∨ ¬ List.IsChain (Better true) (priceMin :: s.prices lay true) := by
  have hside : ∀ b, (List.IsChain (Better b) (priceMin :: s.prices lay b) →
        ∃ printed, (printLevels orderId detailed true b
          (s.ordersAtPricePool.size + 1) (s.best b) priceMin []).run s
            = .ok printed s)
      ∧ (¬ List.IsChain (Better b) (priceMin :: s.prices lay b) →
        (printLevels orderId detailed true b (s.ordersAtPricePool.size + 1)
          (s.best b) priceMin []).run s = .error .notSorted s) := by
    intro b
    have hsize := h.size b
    have hloop := h.printLevels_run orderId detailed b (lay.levels b) []
      (s.ordersAtPricePool.size + 1) priceMin [] rfl (by omega)
    rw [h.head b]
    exact hloop
  obtain ⟨hasks, hnotAsks⟩ := hside false
  obtain ⟨hbids, hnotBids⟩ := hside true
  have hrun : (toString orderId detailed true).run s
      = ((printLevels orderId detailed true false
          (s.ordersAtPricePool.size + 1) (s.best false) priceMin [])
          >>= fun asks => (do
            return (asks, ← printLevels orderId detailed true true
              (s.ordersAtPricePool.size + 1) (← get).bidsByPrice priceMin []))
            ).run s := rfl
  unfold Fatal
  rw [hrun]
  by_cases hasks' :
      List.IsChain (Better false) (priceMin :: s.prices lay false)
  · obtain ⟨asks, hasksRun⟩ := hasks hasks'
    rw [run_bind_ok hasksRun, EStateM.run_bind, EStateM.run_get]
    dsimp only
    rw [show s.bidsByPrice = s.best true from rfl]
    by_cases hbids' :
        List.IsChain (Better true) (priceMin :: s.prices lay true)
    · obtain ⟨bids, hbidsRun⟩ := hbids hbids'
      rw [run_bind_ok hbidsRun]
      constructor
      · intro h
        obtain ⟨s', hs'⟩ := h
        cases hs'
      · intro h
        rcases h with hfails | hfails
        · exact absurd hasks' hfails
        · exact absurd hbids' hfails
    · rw [run_bind_error (hnotBids hbids')]
      exact ⟨fun _ => .inr hbids', fun _ => ⟨s, rfl⟩⟩
  · rw [run_bind_error (hnotAsks hasks')]
    exact ⟨fun _ => .inl hasks', fun _ => ⟨s, rfl⟩⟩

-- ========================================================== when it is right

/-- No `int64_t` is smaller than the smallest. -/
def PricesFit (s : Ladder K) (lay : Layout) : Prop :=
  ∀ b, ∀ price ∈ s.prices lay b, priceMin ≤ price

instance (b : Bool) : IsTrans Price (Better b) :=
  ⟨fun _ _ _ h h' => h.trans h'⟩

/-- The bids pass from the smallest price on only when there are none. -/
theorem chain_bids_iff (hfit : PricesFit s lay) :
    List.IsChain (Better true) (priceMin :: s.prices lay true)
      ↔ lay.levels true = [] := by
  constructor
  · intro hchain
    cases hl : lay.levels true with
    | nil => rfl
    | cons p rest =>
        have hprice := hfit true (s.levelPrice p) (by simp [prices, hl])
        unfold prices at hchain
        rw [hl, List.map_cons, List.isChain_cons_cons] at hchain
        have hbetter : s.levelPrice p < priceMin := hchain.1
        exact absurd hbetter (not_lt.2 hprice)
  · intro hnone
    simp [prices, hnone]

/-- The asks pass from the smallest price on when they ascend and none is
that price. -/
theorem chain_asks_iff (hfit : PricesFit s lay) :
    List.IsChain (Better false) (priceMin :: s.prices lay false)
      ↔ (s.prices lay false).Pairwise (Better false)
        ∧ priceMin ∉ s.prices lay false := by
  rw [List.isChain_iff_pairwise, List.pairwise_cons]
  constructor
  · intro h
    obtain ⟨hmin, hsorted⟩ := h
    exact ⟨hsorted, fun hmem => (hmin _ hmem).ne rfl⟩
  · intro h
    obtain ⟨hsorted, hmin⟩ := h
    refine ⟨fun price hprice => ?_, hsorted⟩
    have hne : priceMin ≠ price := fun heq => hmin (heq ▸ hprice)
    exact lt_of_le_of_ne (hfit false price hprice) hne

/-- The check stops the process exactly when a side is out of order, if
and only if a side is out of order or there are no bids and no ask at
the smallest price. -/
theorem Ringed.fatal_iff_not_sorted (h : Ringed s lay)
    (hfit : PricesFit s lay) (orderId : K → OrderID) (detailed : Bool) :
    (s.Fatal orderId detailed ↔ ¬ s.IsSorted lay)
      ↔ (¬ s.IsSorted lay
        ∨ (s.bidsByPrice = none ∧ priceMin ∉ s.prices lay false)) := by
  have hbids : s.bidsByPrice = none ↔ lay.levels true = [] := by
    rw [show s.bidsByPrice = s.best true from rfl, h.head true,
      List.head?_eq_none_iff]
  rw [h.fatal_iff orderId detailed, chain_bids_iff hfit, chain_asks_iff hfit,
    hbids]
  have hempty : lay.levels true = [] →
      (s.prices lay true).Pairwise (Better true) := by
    intro hnone
    simp [prices, hnone]
  have hboth : s.IsSorted lay ↔ (s.prices lay false).Pairwise (Better false)
      ∧ (s.prices lay true).Pairwise (Better true) :=
    ⟨fun hs => ⟨hs false, hs true⟩, fun hs b => by
      cases b with
      | false => exact hs.1
      | true => exact hs.2⟩
  rw [hboth]
  tauto

end Ladder

end ElectronicTrading
