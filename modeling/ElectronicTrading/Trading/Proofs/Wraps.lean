/-
Where the positions leave `int32_t`: in the test of a new order against
the limits, and in the signs of a position before and after a fill.

Both compute with exact integers up to a bound and say something else
beyond it. The bound is found by reading the computation from the inside
out: an intermediate value is the exact one if and only if the exact one
is in range (`int32_eq_iff`).
-/
import ElectronicTrading.Trading.RiskManager

namespace ElectronicTrading

/-- `n` is a value of `int32_t`. -/
def InInt32 (n : Int) : Prop := -2 ^ 31 ≤ n ∧ n < 2 ^ 31

instance (n : Int) : Decidable (InInt32 n) :=
  inferInstanceAs (Decidable (_ ∧ _))

theorem int32_eq_iff {n : Int} : int32 n = n ↔ InInt32 n := by
  unfold int32 InInt32
  rw [Int.bmod_def]
  split
  · omega
  · omega

/-- `q` cast to `int32_t` is `q` below 2^31. -/
theorem int32_quantity_iff (q : Quantity) :
    int32 q.toNat = q.toNat ↔ q.toNat < 2 ^ 31 := by
  rw [int32_eq_iff]
  unfold InInt32
  omega

-- ====================================================== the pre-trade check

namespace RiskInfo

variable {r : RiskInfo} {side : Side} {quantity : Quantity}

/-- The position that the whole order leads to. -/
def positionAfter (r : RiskInfo) (side : Side) (quantity : Quantity) : Int :=
  if side = .buy then r.positionInfo.position + quantity.toNat
  else r.positionInfo.position - quantity.toNat

/-- `checkPreTradeRisk` gets past its first two tests. -/
def PassesLimits (r : RiskInfo) (side : Side) (quantity : Quantity) : Prop :=
  r.checkPreTradeRisk side quantity ≠ .orderLimitExceeded
    ∧ r.checkPreTradeRisk side quantity ≠ .positionLimitExceeded

instance (r : RiskInfo) (side : Side) (quantity : Quantity) :
    Decidable (r.PassesLimits side quantity) :=
  inferInstanceAs (Decidable (_ ∧ _))

/-- No step of the second test leaves `int32_t`. -/
structure Unwrapped (r : RiskInfo) (side : Side) (quantity : Quantity) :
    Prop where
  cast : int32 quantity.toNat = quantity.toNat
  castLimit : int32 r.riskConfig.maxPosition.toNat
    = r.riskConfig.maxPosition.toNat
  product : int32 (sideToValue side * int32 quantity.toNat)
    = sideToValue side * int32 quantity.toNat
  sum : int32 (r.positionInfo.position
      + sideToValue side * int32 quantity.toNat)
    = r.positionInfo.position + sideToValue side * int32 quantity.toNat
  abs : int32 |r.positionInfo.position
      + sideToValue side * int32 quantity.toNat|
    = |r.positionInfo.position + sideToValue side * int32 quantity.toNat|

/-- The two tests are the limits, and the second one, where it is made,
does not wrap. -/
structure LimitsExact (r : RiskInfo) (side : Side) (quantity : Quantity) :
    Prop where
  passes_iff : r.PassesLimits side quantity
    ↔ quantity.toNat ≤ r.riskConfig.maxOrderSize.toNat
      ∧ |r.positionAfter side quantity| ≤ r.riskConfig.maxPosition.toNat
  unwrapped : ¬ r.ExceedsOrderLimit quantity → r.Unwrapped side quantity

theorem passesLimits_iff : r.PassesLimits side quantity
    ↔ ¬ r.ExceedsOrderLimit quantity
      ∧ ¬ r.ExceedsPositionLimit side quantity := by
  unfold PassesLimits checkPreTradeRisk
  split
  · next horder => simp [horder]
  · next horder =>
    split
    · next hposition => simp [hposition]
    · next hposition =>
      split
      · simp [horder, hposition]
      · simp [horder, hposition]

theorem exceedsOrderLimit_iff : r.ExceedsOrderLimit quantity
    ↔ r.riskConfig.maxOrderSize.toNat < quantity.toNat :=
  UInt32.lt_iff_toNat_lt

/-- The exact position is the computed one without its casts. -/
theorem positionAfter_eq (hside : side = .buy ∨ side = .sell) :
    r.positionAfter side quantity
      = r.positionInfo.position + sideToValue side * quantity.toNat := by
  unfold positionAfter
  rcases hside with hside | hside
  · rw [if_pos hside, hside, show sideToValue .buy = 1 from rfl, one_mul]
  · rw [if_neg (by rw [hside]; decide), hside,
      show sideToValue .sell = -1 from rfl]
    omega

/-- No step wraps if and only if the quantity, the limit and the resulting
position are in range. -/
theorem unwrapped_iff (hside : side = .buy ∨ side = .sell) :
    r.Unwrapped side quantity
      ↔ quantity.toNat < 2 ^ 31 ∧ r.riskConfig.maxPosition.toNat < 2 ^ 31
        ∧ |r.positionAfter side quantity| < 2 ^ 31 := by
  rw [positionAfter_eq hside]
  constructor
  · intro h
    have habs := int32_eq_iff.1 h.abs
    rw [h.cast] at habs
    exact ⟨(int32_quantity_iff _).1 h.cast,
      (int32_quantity_iff _).1 h.castLimit, habs.2⟩
  · intro ⟨hquantity, hmax, hafter⟩
    have hq := (int32_quantity_iff quantity).2 hquantity
    have hbounds := abs_lt.1 hafter
    refine ⟨hq, (int32_quantity_iff _).2 hmax, ?_, ?_, ?_⟩
    · rw [hq, int32_eq_iff]
      unfold InInt32
      rcases hside with hside | hside
      · rw [hside, show sideToValue .buy = 1 from rfl]
        omega
      · rw [hside, show sideToValue .sell = -1 from rfl]
        omega
    · rw [hq]
      exact int32_eq hafter
    · rw [hq]
      apply int32_eq
      rw [abs_abs]
      exact hafter

/-- The pre-trade check is exact if the order is too large anyway, or else
if and only if its quantity, the position limit and the position it leads
to are below 2^31. -/
theorem limitsExact_iff (hside : side = .buy ∨ side = .sell) :
    r.LimitsExact side quantity
      ↔ r.riskConfig.maxOrderSize.toNat < quantity.toNat
        ∨ quantity.toNat < 2 ^ 31 ∧ r.riskConfig.maxPosition.toNat < 2 ^ 31
          ∧ |r.positionAfter side quantity| < 2 ^ 31 := by
  by_cases horder : r.ExceedsOrderLimit quantity
  · have hlarge := exceedsOrderLimit_iff.1 horder
    refine iff_of_true ⟨?_, fun hno => absurd horder hno⟩ (Or.inl hlarge)
    rw [passesLimits_iff]
    exact iff_of_false (fun hpasses => hpasses.1 horder)
      fun hlimits => absurd hlimits.1 (Nat.not_le.2 hlarge)
  · have hsmall := fun hlarge => horder (exceedsOrderLimit_iff.2 hlarge)
    constructor
    · intro h
      exact Or.inr ((unwrapped_iff hside).1 (h.unwrapped horder))
    · intro h
      have hrange := h.resolve_left hsmall
      refine ⟨?_, fun _ => (unwrapped_iff hside).2 hrange⟩
      obtain ⟨hquantity, hmax, hafter⟩ := hrange
      rw [positionAfter_eq hside] at hafter ⊢
      rw [passesLimits_iff,
        not_exceedsPositionLimit_iff hquantity hmax hafter]
      exact and_congr (iff_of_true horder (Nat.not_lt.1 hsmall)) Iff.rfl

/-- A position of 60, at most 100, and an order for 40. -/
theorem limitsExact_forty : LimitsExact
    { positionInfo := { position := 60 }
      riskConfig := { maxOrderSize := 50, maxPosition := 100 } } .buy 40 :=
  (limitsExact_iff (Or.inl rfl)).2 (Or.inr (by decide))

/-- An order for 2^32 - 6 passes a position limit of 10. -/
theorem not_limitsExact_huge : ¬ LimitsExact
    { positionInfo := { position := 0 }
      riskConfig := { maxOrderSize := 0xFFFFFFFA, maxPosition := 10 } } .buy
    0xFFFFFFFA := by
  intro h
  have hpasses := h.passes_iff.1 (by decide)
  revert hpasses
  decide

end RiskInfo

-- ====================================================== the signs of a fill

namespace PositionInfo

variable {p : PositionInfo} {f : MatchingEngineClientResponse}

/-- How `addFill` books a fill. -/
inductive FillBranch where
  | sameSide
  | reduced
  | flipped
deriving DecidableEq

/-- The branch that the two tests of `addFill` choose. -/
def fillBranch (p : PositionInfo) (f : MatchingEngineClientResponse) :
    FillBranch :=
  if int32 (p.position * sideToValue f.side) ≥ 0 then .sameSide
  else if int32 ((p.moved f).position * p.position) < 0 then .flipped
  else .reduced

/-- What a branch does to the books, for `p` moved already. -/
def bookedIn (p : PositionInfo) (oldPosition : Int)
    (f : MatchingEngineClientResponse) (branch : FillBranch) : PositionInfo :=
  let oppSideIndex := sideToIndex (if f.side = .buy then .sell else .buy)
  let realized : PositionInfo := { p with
    realPnl := p.realPnl
      + (min (int32 f.execQuantity.toNat) (abs32 oldPosition) : ℤ)
        * (p.openVwap oppSideIndex / (abs32 oldPosition : ℤ) - f.price)
        * sideToValue f.side }
  match branch with
  | .sameSide => p.setOpenVwap (sideToIndex f.side)
      (p.openVwap (sideToIndex f.side)
        + int64 (f.price * f.execQuantity.toNat))
  | .reduced => realized
  | .flipped => (realized.setOpenVwap (sideToIndex f.side)
      (int64 (f.price * abs32 p.position))).setOpenVwap oppSideIndex 0

theorem addFill_eq_bookedIn (p : PositionInfo)
    (f : MatchingEngineClientResponse) :
    p.addFill f = ((p.moved f).bookedIn p.position f (p.fillBranch f)).marked
      f.price := by
  unfold addFill booked fillBranch
  dsimp only
  split
  · rfl
  · split
    · rfl
    · rfl

/-- The position that the fill leads to. -/
def positionAfter (p : PositionInfo) (f : MatchingEngineClientResponse) :
    Int :=
  if f.side = .buy then p.position + f.execQuantity.toNat
  else p.position - f.execQuantity.toNat

/-- The branches are those of the signs, the products of their tests are
exact where they are computed, and so is the position. -/
structure SignsExact (p : PositionInfo) (f : MatchingEngineClientResponse) :
    Prop where
  flipped_iff : p.fillBranch f = .flipped
    ↔ p.position < 0 ∧ 0 < p.positionAfter f
      ∨ 0 < p.position ∧ p.positionAfter f < 0
  sameSide_iff : p.fillBranch f = .sameSide
    ↔ p.position = 0 ∨ 0 < p.position ∧ f.side = .buy
      ∨ p.position < 0 ∧ f.side = .sell
  sideProduct : int32 (p.position * sideToValue f.side)
    = p.position * sideToValue f.side
  product : p.fillBranch f ≠ .sameSide →
    int32 ((p.moved f).position * p.position)
      = (p.moved f).position * p.position
  position : (p.addFill f).position = p.positionAfter f

section

variable (hside : f.side = .buy ∨ f.side = .sell)

include hside

theorem moved_position (hafter : InInt32 (p.positionAfter f)) :
    (p.moved f).position = p.positionAfter f := by
  rw [← int32_eq_iff.2 hafter]
  show int32 (p.position + f.execQuantity.toNat * sideToValue f.side) = _
  unfold positionAfter
  rcases hside with hside | hside
  · rw [if_pos hside, hside, show sideToValue .buy = 1 from rfl, mul_one]
  · rw [if_neg (by rw [hside]; decide), hside,
      show sideToValue .sell = -1 from rfl, mul_neg_one, sub_eq_add_neg]

/-- The sign of the first product. -/
theorem side_product_nonneg_iff :
    p.position * sideToValue f.side ≥ 0
      ↔ p.position = 0 ∨ 0 < p.position ∧ f.side = .buy
        ∨ p.position < 0 ∧ f.side = .sell := by
  rcases hside with hside | hside
  · simp only [hside, show sideToValue .buy = 1 from rfl, mul_one]
    simp
    omega
  · simp only [hside, show sideToValue .sell = -1 from rfl, mul_neg_one]
    simp
    omega

/-- A fill on the position's own side leaves the position its sign. -/
theorem side_product_neg_of_flip
    (hflip : p.position < 0 ∧ 0 < p.positionAfter f
      ∨ 0 < p.position ∧ p.positionAfter f < 0) :
    ¬ p.position * sideToValue f.side ≥ 0 := by
  rw [side_product_nonneg_iff hside]
  unfold positionAfter at hflip
  rcases hside with hside | hside
  · rw [if_pos hside] at hflip
    simp only [hside]
    simp
    omega
  · rw [if_neg (by rw [hside]; decide)] at hflip
    simp only [hside]
    simp
    omega

theorem inInt32_side_product (hold : InInt32 p.position) :
    InInt32 (p.position * sideToValue f.side)
      ↔ (p.position = -2 ^ 31 → f.side = .buy) := by
  unfold InInt32 at hold ⊢
  rcases hside with hside | hside
  · simp only [hside, show sideToValue .buy = 1 from rfl, mul_one]
    simp
    exact hold
  · simp only [hside, show sideToValue .sell = -1 from rfl, mul_neg_one]
    simp
    omega

/-- The tests of `addFill` read the signs right if and only if the product
of the two positions, where it is computed, is in range; but for a SELL
that finds the position at -2^31. -/
theorem signsExact_iff (hold : InInt32 p.position)
    (hafter : InInt32 (p.positionAfter f)) :
    p.addFill f = ((p.moved f).bookedIn p.position f (p.fillBranch f)).marked
        f.price
      ∧ (p.SignsExact f
        ↔ (p.position = -2 ^ 31 → f.side = .buy)
          ∧ (p.position * sideToValue f.side < 0 →
            InInt32 (p.positionAfter f * p.position))) := by
  refine ⟨addFill_eq_bookedIn p f, ?_⟩
  have hmoved := moved_position hside hafter
  rw [← inInt32_side_product hside hold]
  constructor
  · intro h
    refine ⟨int32_eq_iff.1 h.sideProduct, fun hneg => ?_⟩
    rw [← hmoved]
    refine int32_eq_iff.1 (h.product fun hsame => ?_)
    have hnonneg := (side_product_nonneg_iff hside).2 (h.sameSide_iff.1 hsame)
    omega
  · intro ⟨hrange, hproduct⟩
    have hsideProduct := int32_eq_iff.2 hrange
    have hsame : p.fillBranch f = .sameSide
        ↔ p.position * sideToValue f.side ≥ 0 := by
      unfold fillBranch
      rw [hsideProduct]
      split
      · next hge => exact iff_of_true rfl hge
      · next hlt =>
        refine iff_of_false ?_ hlt
        split
        · nofun
        · nofun
    have hexact : p.fillBranch f ≠ .sameSide →
        int32 ((p.moved f).position * p.position)
          = (p.moved f).position * p.position := by
      intro hother
      rw [int32_eq_iff, hmoved]
      exact hproduct (Int.not_le.1 fun hge => hother (hsame.2 hge))
    have hflipped : p.fillBranch f = .flipped
        ↔ p.position < 0 ∧ 0 < p.positionAfter f
          ∨ 0 < p.position ∧ p.positionAfter f < 0 := by
      by_cases hown : p.position * sideToValue f.side ≥ 0
      · refine iff_of_false ?_ fun hflip =>
          side_product_neg_of_flip hside hflip hown
        rw [hsame.2 hown]
        nofun
      · have hproductExact := hexact fun heq => hown (hsame.1 heq)
        unfold fillBranch
        rw [hsideProduct, if_neg hown, hproductExact, hmoved]
        have hsigns : p.positionAfter f * p.position < 0
            ↔ p.position < 0 ∧ 0 < p.positionAfter f
              ∨ 0 < p.position ∧ p.positionAfter f < 0 := by
          rw [mul_neg_iff, and_comm, and_comm (a := p.positionAfter f < 0)]
        rw [← hsigns]
        split
        · next hneg => exact iff_of_true rfl hneg
        · next hge => exact iff_of_false nofun hge
    exact
      { flipped_iff := hflipped
        sameSide_iff := hsame.trans (side_product_nonneg_iff hside)
        sideProduct := hsideProduct
        product := hexact
        position := by
          rw [addFill, position_marked, position_booked, hmoved] }

end

/-- Four sold of ten. -/
theorem signsExact_soldFour : SignsExact { position := 10 }
    { side := .sell, price := 100, execQuantity := 4 } :=
  (signsExact_iff (Or.inr rfl) (by decide) (by decide)).2.2 (by decide)

/-- One sold of 50000: the product of 50000 and 49999 wraps, and the fill
is booked as a flip. -/
theorem not_signsExact_soldOne : ∃ (p : PositionInfo)
    (f : MatchingEngineClientResponse), f.side = .sell
      ∧ InInt32 p.position ∧ InInt32 (p.positionAfter f)
      ∧ ¬ (p.fillBranch f = .flipped
        ↔ p.position < 0 ∧ 0 < p.positionAfter f
          ∨ 0 < p.position ∧ p.positionAfter f < 0)
      ∧ ¬ SignsExact p f := by
  have hbranch : ¬ (fillBranch { position := 50000 }
      { side := .sell, price := 100, execQuantity := 1 } = .flipped
      ↔ (50000 : Int) < 0 ∧ 0 < (49999 : Int)
        ∨ 0 < (50000 : Int) ∧ (49999 : Int) < 0) := by
    decide
  exact ⟨{ position := 50000 },
    { side := .sell, price := 100, execQuantity := 1 }, rfl, by decide,
    by decide, hbranch, fun h => hbranch h.flipped_iff⟩

end PositionInfo

end ElectronicTrading
