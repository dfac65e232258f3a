/-
The fair price against the prices at the top of the book.

The market price is the average of the two best prices, each weighted
with the quantity on the other side; an average is between them, and it
stays there if what is added to its numerator by rounding is not more than
there is room for (`between_iff`). Two things can go wrong. The quantities
are added up as 32-bit integers, orders of a level first and then the two
levels: if the sums are exact the divisor is the sum of the weights, and
if they are not it can be anything, zero included. And the two products
are made `double`s before they are added up: below 2^53 nothing is rounded
(`roundingError_eq_zero`), above it the average can leave its bounds.
-/
import ElectronicTrading.Lib.Rounding
import ElectronicTrading.Trading.FeatureEngine
import ElectronicTrading.Trading.Proofs.Replica
import ElectronicTrading.Trading.Proofs.Top
import Mathlib.Tactic.Linarith

namespace ElectronicTrading

/-- `n` is a value of `int64_t`. -/
def InInt64 (n : Int) : Prop := -2 ^ 63 ≤ n ∧ n < 2 ^ 63

instance (n : Int) : Decidable (InInt64 n) :=
  inferInstanceAs (Decidable (_ ∧ _))

theorem int64_of_inInt64 {n : Int} (h : InInt64 n) : int64 n = n :=
  Int.bmod_eq_of_le (by unfold InInt64 at h; omega)
    (by unfold InInt64 at h; omega)

/-- An integer as a `double`, which has 53 binary digits. -/
def toDouble (n : Int) : ℚ := Rounding.nearest 53 n

/-- `double`s: a finite number, or what is none. Integers, sums and
differences are rounded; a quotient is the exact one. -/
inductive RoundedDouble where
  | finite (value : ℚ)
  | notFinite

instance : Double RoundedDouble where
  quietNaN := .notFinite
  ofInt n := .finite (toDouble n)
  add
    | .finite a, .finite b => .finite (Rounding.nearest 53 (a + b))
    | _, _ => .notFinite
  sub
    | .finite a, .finite b => .finite (Rounding.nearest 53 (a - b))
    | _, _ => .notFinite
  div
    | .finite a, .finite b => if b = 0 then .notFinite else .finite (a / b)
    | _, _ => .notFinite
  ge
    | .finite a, .finite b => decide (b ≤ a)
    | _, _ => false
  ne
    | .finite a, .finite b => decide (a ≠ b)
    | _, _ => true

/-- What rounding adds to the sum of two integers, each made a `double`
first. -/
def roundingError (a b : Int) : ℚ :=
  Rounding.nearest 53 (toDouble a + toDouble b) - (a + b)

theorem roundingError_eq_zero {a b : Int} (ha : |a| < 2 ^ 53)
    (hb : |b| < 2 ^ 53) (hab : |a + b| < 2 ^ 53) : roundingError a b = 0 := by
  have hsum := Rounding.nearest_intCast hab
  push_cast at hsum
  unfold roundingError toDouble
  rw [Rounding.nearest_intCast ha, Rounding.nearest_intCast hb, hsum, sub_self]

/-- An average of two numbers whose numerator is off by `e` is between
them if and only if there is room for `e`. -/
theorem between_iff {a b u v e : ℚ} (hpos : 0 < u + v) :
    (a ≤ (a * u + b * v + e) / (u + v) ∧ (a * u + b * v + e) / (u + v) ≤ b)
      ↔ -((b - a) * v) ≤ e ∧ e ≤ (b - a) * u := by
  rw [le_div_iff₀ hpos, div_le_iff₀ hpos]
  constructor
  · intro h
    obtain ⟨hlow, hhigh⟩ := h
    constructor
    · linarith
    · linarith
  · intro h
    obtain ⟨hlow, hhigh⟩ := h
    constructor
    · linarith
    · linarith

namespace MarketOrderBook

variable {s : MarketOrderBook} {lay : Layout} {x y : Resting OrderID}
  {l m : List (Resting OrderID)}

/-- The quantity at the price of the first order of a list. -/
def bestQuantity : List (Resting OrderID) → Nat
  | [] => 0
  | x :: l =>
      (((x :: l).filter (·.price = x.price)).map (·.quantity.toNat)).sum

/-- After `updateBBO` and `onOrderBookUpdate` the quantities are exact,
and so is their sum, which is not zero; and the market price is a number
from `bid` to `ask`, whatever it was before. -/
def FairlyPriced (s : MarketOrderBook) (bid ask : Price) : Prop :=
  ∃ s', (updateBBO true true).run s = .ok () s'
    ∧ s'.bbo.bestBidQuantity.toNat = bestQuantity (s.book true)
    ∧ s'.bbo.bestAskQuantity.toNat = bestQuantity (s.book false)
    ∧ (s'.bbo.bestAskQuantity + s'.bbo.bestBidQuantity).toNat
      = bestQuantity (s.book false) + bestQuantity (s.book true)
    ∧ s'.bbo.bestAskQuantity + s'.bbo.bestBidQuantity ≠ 0
    ∧ ∀ f : FeatureEngine RoundedDouble, ∃ price : ℚ,
      (f.onOrderBookUpdate s'.bbo).marketPrice = .finite price
        ∧ bid ≤ price ∧ price ≤ ask

theorem toNat_top (x : Resting OrderID) (l : List (Resting OrderID)) :
    (top (x :: l)).2.toNat = bestQuantity (x :: l) % 2 ^ 32 := by
  unfold top bestQuantity
  rw [toNat_sum_mod, List.map_map]
  rfl

/-- The first order counts. -/
theorem bestQuantity_pos (hpos : ∀ r ∈ x :: l, 0 < r.quantity) :
    0 < bestQuantity (x :: l) := by
  have hx := UInt32.lt_iff_toNat_lt.1 (hpos x (List.mem_cons_self ..))
  rw [bestQuantity, List.filter_cons_of_pos (by simp), List.map_cons,
    List.sum_cons]
  exact Nat.add_pos_left hx _

/-- A fair price's quantities do not wrap. -/
theorem FairlyPriced.lt {bid ask : Price} (h : FairlyPriced s bid ask) :
    bestQuantity (s.book true) + bestQuantity (s.book false) < 2 ^ 32 := by
  obtain ⟨s', -, -, -, hsum, -⟩ := h
  rw [Nat.add_comm, ← hsum]
  exact UInt32.toNat_lt _

/-- The rounding of the numerator takes no more than there is between the
bid and the average, and adds no more than up to the ask. -/
def RoundsWithin (bid ask : Price) (bidQuantity askQuantity : Nat) : Prop :=
  -(((ask : ℚ) - bid) * bidQuantity)
      ≤ roundingError (bid * askQuantity) (ask * bidQuantity)
    ∧ roundingError (bid * askQuantity) (ask * bidQuantity)
      ≤ ((ask : ℚ) - bid) * askQuantity

/-- The market price of a quoted book, if nothing wraps. -/
theorem priceOf_eq {bbo : BBO} {bidQuantity askQuantity : Nat}
    (hbid : bbo.bestBidQuantity.toNat = bidQuantity)
    (hask : bbo.bestAskQuantity.toNat = askQuantity)
    (hsum : (bbo.bestAskQuantity + bbo.bestBidQuantity).toNat
      = askQuantity + bidQuantity) (hpos : 0 < askQuantity + bidQuantity)
    (hbidFits : InInt64 (bbo.bestBidPrice * askQuantity))
    (haskFits : InInt64 (bbo.bestAskPrice * bidQuantity)) :
    (FeatureEngine.priceOf bbo : RoundedDouble)
      = .finite ((bbo.bestBidPrice * askQuantity + bbo.bestAskPrice * bidQuantity
          + roundingError (bbo.bestBidPrice * askQuantity)
            (bbo.bestAskPrice * bidQuantity))
        / (askQuantity + bidQuantity) : ℚ) := by
  -- a sum of 32 bits is not rounded
  have hlt := UInt32.toNat_lt (bbo.bestAskQuantity + bbo.bestBidQuantity)
  rw [hsum] at hlt
  have hdivisor : toDouble ((askQuantity + bidQuantity : Nat) : Int)
      = (askQuantity + bidQuantity : ℚ) := by
    unfold toDouble
    rw [Rounding.nearest_intCast (by rw [abs_of_nonneg] <;> omega)]
    push_cast
    rfl
  have hne : (askQuantity + bidQuantity : ℚ) ≠ 0 := by
    exact_mod_cast hpos.ne'
  have hdiv : ∀ a b : ℚ, b ≠ 0 →
      Double.div (.finite a : RoundedDouble) (.finite b) = .finite (a / b) :=
    fun a b hb => if_neg hb
  unfold FeatureEngine.priceOf
  rw [hbid, hask, hsum, int64_of_inInt64 hbidFits, int64_of_inInt64 haskFits]
  have hnumerator : (bbo.bestBidPrice * askQuantity
        + bbo.bestAskPrice * bidQuantity : ℚ)
      + roundingError (bbo.bestBidPrice * askQuantity)
        (bbo.bestAskPrice * bidQuantity)
      = Rounding.nearest 53 (toDouble (bbo.bestBidPrice * askQuantity)
        + toDouble (bbo.bestAskPrice * bidQuantity)) := by
    unfold roundingError
    push_cast
    ring
  rw [hnumerator, ← hdivisor]
  exact hdiv _ _ (by rw [hdivisor]; exact hne)

/-- Above 2^53 the sum is a multiple of 4, and here it is rounded down by
more than there is between the bid and the average. -/
example : ¬ RoundsWithin 5000001 5000002 1 4294967200 := by
  have hbid : toDouble (5000001 * (4294967200 : Nat)) = 21474840294967200 := by
    refine (Rounding.nearest_of_multiple (n := 5368710073741800) ?_).trans
      (by norm_num)
    rw [Rounding.unit_eq (e := 54) (by norm_num) (by norm_num)]
    norm_num
  have hask : toDouble (5000002 * (1 : Nat)) = 5000002 :=
    Rounding.nearest_intCast (by decide)
  have hsum : Rounding.nearest 53 21474840299967202 = 21474840299967200 := by
    unfold Rounding.nearest
    rw [Rounding.unit_eq (e := 54) (by norm_num) (by norm_num)]
    norm_num [Rounding.roundEven]
  intro h
  obtain ⟨hlow, -⟩ := h
  unfold roundingError at hlow
  rw [hbid, hask] at hlow
  norm_num [hsum] at hlow

/-- A bid at 10 and an ask at 11. -/
def quoted (isBuy : Bool) (quantity : Quantity) : MatchingEngineMarketUpdate where
  type := .add
  orderId := if isBuy then 1 else 2
  tickerId := 0
  side := sideOf isBuy
  price := if isBuy then 10 else 11
  quantity := quantity
  priority := 1

/-- A book of one bid and one ask. -/
theorem exists_quoted (bidQuantity askQuantity : Quantity) :
    ∃ s lay, Mirror s lay ∧ s.book true = [added (quoted true bidQuantity)]
      ∧ s.book false = [added (quoted false askQuantity)] := by
  have hbid : Change (quoted true bidQuantity) (fun _ => [])
      (setSide (fun _ => []) true [added (quoted true bidQuantity)]) := by
    apply Change.add true rfl rfl
    · show (1 : UInt64).toNat < _
      decide
    · nofun
    · nofun
    · unfold Ladder.Full
      simp [PriceTime.levelsOf, matchingEngineMaxOrderIds,
        matchingEngineMaxPriceLevels]
  have honly : ∀ c, ∀ x ∈ setSide (fun _ => []) true
      [added (quoted true bidQuantity)] c,
      x = added (quoted true bidQuantity) := by
    intro c x hx
    cases c with
    | true => exact List.mem_singleton.1 hx
    | false => cases hx
  have hask : Change (quoted false askQuantity)
      (setSide (fun _ => []) true [added (quoted true bidQuantity)])
      (setSide (setSide (fun _ => []) true [added (quoted true bidQuantity)])
        false [added (quoted false askQuantity)]) := by
    apply Change.add false rfl rfl
    · show (2 : UInt64).toNat < _
      decide
    · intro c x hx
      rw [honly c x hx]
      exact (by decide : (1 : OrderID) < 2)
    · intro c x hx hindex
      rw [honly c x hx] at hindex
      exact absurd (show priceToIndex 10 = priceToIndex 11 from hindex)
        (by decide)
    · intro hfull
      rcases hfull with hfull | ⟨hfull, -⟩
      · exact absurd (show 1024 * 1024 ≤ 1 + 0 + 1 from hfull) (by decide)
      · exact absurd (show 256 ≤ 1 + 0 + 1 from hfull) (by decide)
  obtain ⟨s, lay, -, hholds⟩ := Changes.leads (hbid.changes.append hask.changes)
    new .empty ⟨mirror_new, fun b => by rw [book_new]⟩
  exact ⟨s, lay, hholds.mirror, hholds.book true, hholds.book false⟩

theorem positive_quoted {s : MarketOrderBook} {bidQuantity askQuantity : Quantity}
    (hbids : s.book true = [added (quoted true bidQuantity)])
    (hasks : s.book false = [added (quoted false askQuantity)])
    (hbid : 0 < bidQuantity) (hask : 0 < askQuantity) :
    ∀ b, ∀ r ∈ s.book b, 0 < r.quantity := by
  intro b r hr
  cases b with
  | true =>
      rw [hbids] at hr
      rw [List.mem_singleton.1 hr]
      exact hbid
  | false =>
      rw [hasks] at hr
      rw [List.mem_singleton.1 hr]
      exact hask

end MarketOrderBook

end ElectronicTrading
