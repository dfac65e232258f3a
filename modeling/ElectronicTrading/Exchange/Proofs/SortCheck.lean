/-
The sort check of both books' `toString`, on the books themselves.

Either book prints its ladder, so what stops it is what stops the
ladder's (`toString_fatal_iff_not_sorted`). Every book that requests
lead to is on well-formed rings and sorted (`Good.ringed`,
`Good.isSorted`), and so is killed by its destructor as soon as one bid
is left in it (`one_bid_fatal`).
-/
import ElectronicTrading.Common.Proofs.Printing
import ElectronicTrading.Common.Proofs.Views
import ElectronicTrading.Exchange.Proofs.Representation
import ElectronicTrading.Trading.Proofs.Mirror

namespace ElectronicTrading

open Ladder Reference Exec Runs

/-- `toString` with its check stops the process. -/
def MatchingEngineOrderBook.Fatal (s : MatchingEngineOrderBook)
    (detailed : Bool) : Prop :=
  ∃ s', (MatchingEngineOrderBook.toString detailed true).run s
    = .error .notSorted s'

/-- `toString` with its check stops the process. -/
def MarketOrderBook.Fatal (s : MarketOrderBook) (detailed : Bool) : Prop :=
  ∃ s', (MarketOrderBook.toString detailed true).run s
    = .error .notSorted s'

theorem MatchingEngineOrderBook.fatal_iff {s : MatchingEngineOrderBook}
    {detailed : Bool} :
    s.Fatal detailed ↔ s.ladder.Fatal OrderIds.marketOrderId detailed := by
  unfold MatchingEngineOrderBook.Fatal MatchingEngineOrderBook.toString
    Ladder.Fatal
  cases hrun : (Ladder.toString OrderIds.marketOrderId detailed true).run
      s.ladder with
  | ok a l =>
      rw [run_onLadder_ok hrun]
      simp
  | error e l =>
      rw [run_onLadder_error hrun]
      simp

theorem MarketOrderBook.fatal_iff {s : MarketOrderBook} {detailed : Bool} :
    s.Fatal detailed ↔ s.ladder.Fatal id detailed := by
  unfold MarketOrderBook.Fatal MarketOrderBook.toString Ladder.Fatal
  cases hrun : (Ladder.toString id detailed true).run s.ladder with
  | ok a l =>
      rw [run_onLadder_ok hrun]
      simp
  | error e l =>
      rw [run_onLadder_error hrun]
      simp

/-- On well-formed rings, the check of either book stops the process
exactly when a side is out of order, if and only if one is or there are
no bids and no ask at the smallest price. -/
theorem toString_fatal_iff_not_sorted (detailed : Bool) :
    (∀ (s : MatchingEngineOrderBook) (lay : Layout), Ringed s.ladder lay →
        PricesFit s.ladder lay →
        ((s.Fatal detailed ↔ ¬ s.ladder.IsSorted lay)
          ↔ (¬ s.ladder.IsSorted lay ∨ (s.ladder.bidsByPrice = none
            ∧ priceMin ∉ s.ladder.prices lay false))))
      ∧ (∀ (s : MarketOrderBook) (lay : Layout), Ringed s.ladder lay →
        PricesFit s.ladder lay →
        ((s.Fatal detailed ↔ ¬ s.ladder.IsSorted lay)
          ↔ (¬ s.ladder.IsSorted lay ∨ (s.ladder.bidsByPrice = none
            ∧ priceMin ∉ s.ladder.prices lay false)))) := by
  constructor
  · intro s lay hringed hfit
    rw [MatchingEngineOrderBook.fatal_iff]
    exact hringed.fatal_iff_not_sorted hfit _ detailed
  · intro s lay hringed hfit
    rw [MarketOrderBook.fatal_iff]
    exact hringed.fatal_iff_not_sorted hfit _ detailed

-- ======================================================= books that are kept

/-- A laid-out ladder is on well-formed rings. -/
theorem Ladder.Laid.ringed {K : Type} {s : Ladder K} {lay : Layout}
    {loose : Option Ptr} (h : Laid s lay loose) : Ringed s lay where
  head := h.levels.head
  ring := h.levels.ring
  size := fun b => length_le_of_lt (h.levels.ring b).nodup fun p hp =>
    h.levels.pool.used_lt p ((h.levels.used p).2 ⟨b, hp⟩)
  first := fun b p hp => h.queues.first p ⟨b, hp⟩
  nonempty := fun b p hp => h.queues.nonempty p ⟨b, hp⟩
  queue := fun _ p _ => h.queues.ring p
  queueSize := fun _ p _ => length_le_of_lt (h.queues.ring p).nodup fun o ho =>
    h.queues.pool.used_lt o (h.queues.used_of_mem ho)

/-- A laid-out ladder is sorted. -/
theorem Ladder.Laid.isSorted {K : Type} {s : Ladder K} {lay : Layout}
    {loose : Option Ptr} (h : Laid s lay loose) : s.IsSorted lay := by
  intro b
  unfold Ladder.prices
  rw [List.pairwise_map]
  exact h.levels.sorted b

namespace MatchingEngineOrderBook

/-- The prices of a book's levels are those of its orders. -/
theorem Stored.pricesFit {s : MatchingEngineOrderBook} {lay : Layout}
    (h : Stored s lay) (hprice : ∀ b, ∀ r ∈ s.book b, priceMin ≤ r.price) :
    PricesFit s.ladder lay := by
  intro b price hmem
  obtain ⟨p, hp, rfl⟩ := List.mem_map.1 hmem
  obtain ⟨o, rest, hq⟩ := List.exists_cons_of_ne_nil
    (h.booked.laid.queues.nonempty p ⟨b, hp⟩)
  have ho : o ∈ lay.queue p := by
    rw [hq]
    exact List.mem_cons_self ..
  have hrest : s.ladder.resting o ∈ s.book b := by
    rw [h.book_eq]
    exact List.mem_map_of_mem (List.mem_flatMap.2 ⟨p, hp, ho⟩)
  rw [← (h.booked.matched p o ho).2]
  exact hprice b _ hrest

/-- A book with a bid at price 0 and nothing else, as requests lead to
it. -/
theorem exists_one_bid : ∃ s lay, Run FreeStep new (churn 0) s
    ∧ Good s lay ∧ s.ladder.bidsByPrice ≠ none
    ∧ PricesFit s.ladder lay := by
  obtain ⟨s, r, hrun, hchurned, -⟩ := churned 0
  obtain ⟨lay, hgood⟩ := hchurned.good
  refine ⟨s, lay, hrun, hgood, ?_, hgood.stored.pricesFit ?_⟩
  · intro hnone
    have hbids := hgood.stored.book_eq true
    have hhead := hgood.stored.booked.laid.levels.head true
    rw [show s.ladder.best true = s.ladder.bidsByPrice from rfl, hnone]
      at hhead
    have hlevels := List.head?_eq_none_iff.1 hhead.symm
    unfold Layout.orders at hbids
    rw [hchurned.bids, hlevels] at hbids
    cases hbids
  · intro b x hx
    cases b with
    | false =>
        rw [hchurned.asks] at hx
        cases hx
    | true =>
        rw [hchurned.bids, List.mem_singleton] at hx
        rw [hx, hchurned.price]
        decide

/-- The check stops the process on a sorted book with one bid. -/
theorem one_bid_fatal :
    ¬ ∀ (s : MatchingEngineOrderBook) (lay : Layout), Ringed s.ladder lay →
      PricesFit s.ladder lay →
      (s.Fatal false ↔ ¬ s.ladder.IsSorted lay) := by
  intro hclaim
  obtain ⟨s, lay, -, hgood, hbid, hfit⟩ := exists_one_bid
  have hlaid := hgood.stored.booked.laid
  have hiff := hclaim s lay hlaid.ringed hfit
  rw [fatal_iff] at hiff
  rcases (hlaid.ringed.fatal_iff_not_sorted hfit _ _).1 hiff with
    hunsorted | ⟨hnone, -⟩
  · exact hunsorted hlaid.isSorted
  · exact hbid hnone

/-- What the check does on that book, and on an empty one. -/
theorem fatal_iff_of_one_bid :
    ∃ s lay, Run FreeStep new (churn 0) s ∧ Ringed s.ladder lay
      ∧ PricesFit s.ladder lay
      ∧ ((s.Fatal true ↔ ¬ s.ladder.IsSorted lay)
        ↔ (¬ s.ladder.IsSorted lay ∨ (s.ladder.bidsByPrice = none
          ∧ priceMin ∉ s.ladder.prices lay false)))
      ∧ ((MarketOrderBook.new.Fatal true
          ↔ ¬ MarketOrderBook.new.ladder.IsSorted .empty)
        ↔ (¬ MarketOrderBook.new.ladder.IsSorted .empty
          ∨ (MarketOrderBook.new.ladder.bidsByPrice = none
            ∧ priceMin ∉ MarketOrderBook.new.ladder.prices .empty false))) :=
    by
  obtain ⟨s, lay, hrun, hgood, -, hfit⟩ := exists_one_bid
  have hringed := hgood.stored.booked.laid.ringed
  have hempty : Ringed MarketOrderBook.new.ladder .empty :=
    (laid_new marketOrderDefault).ringed
  refine ⟨s, lay, hrun, hringed, hfit,
    (toString_fatal_iff_not_sorted true).1 s lay hringed hfit,
    (toString_fatal_iff_not_sorted true).2 .new .empty hempty ?_⟩
  intro b price hmem
  cases hmem

end MatchingEngineOrderBook

end ElectronicTrading
