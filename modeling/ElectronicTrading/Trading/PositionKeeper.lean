/-
trading/strategy/PositionKeeper.hpp: the position a ticker's fills add up
to and what it has earned. `updateBBO` values the position anew.

A `double` is taken as the rational number it stands for. The integers
are the machine's: a sum, a product or a cast that leaves its type's
range is reduced into it.

# The books

`open_vwap` of the side the position is on is what the position was
bought or sold for, so `real_pnl - cost` is the cash the fills have
brought in. `addFill` keeps that equation through an opening, an
increase, a close and a flip. A reduction that leaves some of the
position books the gain of the part it closes and leaves `open_vwap` at
the whole position's price; from then on the books are off by the
average price times the quantity reduced (`surplus_addFill`).
-/
import ElectronicTrading.Trading.MarketOrderBook
import Mathlib.Algebra.Order.Field.Rat
import Mathlib.Algebra.Order.Ring.Abs
import Mathlib.Tactic.FieldSimp
import Mathlib.Tactic.Ring
import Mathlib.Tactic.Linarith

namespace ElectronicTrading

/-- An integer as `int32_t` holds it. -/
def int32 (n : Int) : Int := n.bmod (2 ^ 32)

/-- An integer as `int64_t` holds it. -/
def int64 (n : Int) : Int := n.bmod (2 ^ 64)

theorem int32_eq {n : Int} (h : |n| < 2 ^ 31) : int32 n = n := by
  have hbounds := abs_lt.mp h
  exact Int.bmod_eq_of_le (by omega) (by omega)

theorem int64_eq {n : Int} (h : |n| < 2 ^ 63) : int64 n = n := by
  have hbounds := abs_lt.mp h
  exact Int.bmod_eq_of_le (by omega) (by omega)

/-- `std::abs` of an `int32_t`. -/
def abs32 (n : Int) : Int := int32 |n|

theorem abs32_eq {n : Int} (h : |n| < 2 ^ 31) : abs32 n = |n| :=
  int32_eq (by rw [abs_abs]; exact h)

/-- `position` and `open_vwap` have no initializer in the source; a
`PositionInfo` with the defaults is one that starts flat. -/
structure PositionInfo where
  position : Int := 0
  realPnl : ℚ := 0
  unrealPnl : ℚ := 0
  totalPnl : ℚ := 0
  /-- `std::array<double, sideToIndex(Side::MAX) + 1>`. -/
  openVwap : Nat → ℚ := fun _ => 0
  volume : Quantity := 0

namespace PositionInfo

/-- `open_vwap[side_index] = vwap`. -/
def setOpenVwap (p : PositionInfo) (sideIndex : Nat) (vwap : ℚ) :
    PositionInfo :=
  { p with openVwap := fun i => if i = sideIndex then vwap else p.openVwap i }

/-- `addFill`, first part: the position and the volume. -/
def moved (p : PositionInfo)
    (clientResponse : MatchingEngineClientResponse) : PositionInfo :=
  { p with
    position := int32 (p.position
      + clientResponse.execQuantity.toNat * sideToValue clientResponse.side)
    volume := p.volume + clientResponse.execQuantity }

/-- `addFill`, second part: `open_vwap` and `real_pnl`. -/
def booked (p : PositionInfo) (oldPosition : Int)
    (clientResponse : MatchingEngineClientResponse) : PositionInfo :=
  let price := clientResponse.price
  let execQuantity : Int := clientResponse.execQuantity.toNat
  let sideIndex := sideToIndex clientResponse.side
  let oppSideIndex := sideToIndex
    (if clientResponse.side = .buy then .sell else .buy)
  let sideValue := sideToValue clientResponse.side
  if int32 (oldPosition * sideValue) ≥ 0 then
    p.setOpenVwap sideIndex
      (p.openVwap sideIndex + int64 (price * execQuantity))
  else
    let oppSideVwap : ℚ := p.openVwap oppSideIndex / (abs32 oldPosition : ℤ)
    let p : PositionInfo := { p with
      realPnl := p.realPnl + (min (int32 execQuantity) (abs32 oldPosition) : ℤ)
        * (oppSideVwap - price) * sideValue }
    if int32 (p.position * oldPosition) < 0 then
      (p.setOpenVwap sideIndex (int64 (price * abs32 p.position))).setOpenVwap
        oppSideIndex 0
    else p

/-- `addFill`, third part: `unreal_pnl` and `total_pnl`. -/
def marked (p : PositionInfo) (price : Price) : PositionInfo :=
  let p : PositionInfo :=
    if p.position = 0 then
      { (p.setOpenVwap (sideToIndex .buy) 0).setOpenVwap (sideToIndex .sell) 0
        with unrealPnl := 0 }
    else if p.position > 0 then
      { p with
        unrealPnl := (price
          - p.openVwap (sideToIndex .buy) / (abs32 p.position : ℤ))
            * (abs32 p.position : ℤ) }
    else
      { p with
        unrealPnl := (p.openVwap (sideToIndex .sell) / (abs32 p.position : ℤ)
          - price) * (abs32 p.position : ℤ) }
  { p with totalPnl := p.unrealPnl + p.realPnl }

/-- `addFill`. -/
def addFill (p : PositionInfo)
    (clientResponse : MatchingEngineClientResponse) : PositionInfo :=
  ((p.moved clientResponse).booked p.position clientResponse).marked
    clientResponse.price

/-- `updateBBO`, but for the pointer it keeps, which only a log reads. -/
def updateBBO (p : PositionInfo) (bbo : BBO) : PositionInfo :=
  let p : PositionInfo :=
    if p.position ≠ 0 ∧ bbo.bestBidPrice ≠ priceInvalid
        ∧ bbo.bestAskPrice ≠ priceInvalid then
      let midPrice : ℚ := int64 (bbo.bestBidPrice + bbo.bestAskPrice) * (1 / 2)
      if p.position > 0 then
        { p with
          unrealPnl := (midPrice
            - p.openVwap (sideToIndex .buy) / (abs32 p.position : ℤ))
              * (abs32 p.position : ℤ) }
      else
        { p with
          unrealPnl := (p.openVwap (sideToIndex .sell) / (abs32 p.position : ℤ)
            - midPrice) * (abs32 p.position : ℤ) }
    else p
  { p with totalPnl := p.unrealPnl + p.realPnl }

@[simp] theorem setOpenVwap_openVwap (p : PositionInfo) (i j : Nat)
    (vwap : ℚ) : (p.setOpenVwap i vwap).openVwap j
      = if j = i then vwap else p.openVwap j := rfl

@[simp] theorem setOpenVwap_position (p : PositionInfo) (i : Nat) (vwap : ℚ) :
    (p.setOpenVwap i vwap).position = p.position := rfl

@[simp] theorem setOpenVwap_realPnl (p : PositionInfo) (i : Nat) (vwap : ℚ) :
    (p.setOpenVwap i vwap).realPnl = p.realPnl := rfl

end PositionInfo

/-- `ticker_position`, an array of `MATCHING_ENGINE_MAX_TICKERS`. -/
structure PositionKeeper where
  tickerPosition : TickerID → PositionInfo

namespace PositionKeeper

def new : PositionKeeper where
  tickerPosition := fun _ => {}

/-- The keeper with another position for a ticker. -/
def updated (s : PositionKeeper) (tickerId : TickerID)
    (f : PositionInfo → PositionInfo) : PositionKeeper where
  tickerPosition := fun t =>
    if t = tickerId then f (s.tickerPosition t) else s.tickerPosition t

/-- `ticker_position.at(ticker_id) = f(ticker_position.at(ticker_id))`. -/
def modifyAt (tickerId : TickerID) (f : PositionInfo → PositionInfo) :
    Prog PositionKeeper Unit := do
  assert (decide (tickerId.toNat < matchingEngineMaxTickers)) .outOfRange
  modify (·.updated tickerId f)

/-- `addFill`. -/
def addFill (clientResponse : MatchingEngineClientResponse) :
    Prog PositionKeeper Unit :=
  modifyAt clientResponse.tickerId (·.addFill clientResponse)

/-- `updateBBO`. -/
def updateBBO (tickerId : TickerID) (bbo : BBO) : Prog PositionKeeper Unit :=
  modifyAt tickerId (·.updateBBO bbo)

theorem run_modifyAt {s : PositionKeeper} (tickerId : TickerID)
    (f : PositionInfo → PositionInfo) :
    (modifyAt tickerId f).run s
      = if tickerId.toNat < matchingEngineMaxTickers then
          .ok () (s.updated tickerId f)
        else .error .outOfRange s := by
  unfold modifyAt
  rw [EStateM.run_bind, run_assert]
  by_cases hticker : tickerId.toNat < matchingEngineMaxTickers
  · simp [hticker]
  · simp [hticker]

end PositionKeeper

-- ============================================================== the fills

/-- The quantity of a fill, positive when bought and negative when sold. -/
def MatchingEngineClientResponse.signed (f : MatchingEngineClientResponse) :
    Int :=
  f.execQuantity.toNat * sideToValue f.side

/-- The sum of price times quantity over the fills of a side. -/
def traded (side : Side) (fills : List MatchingEngineClientResponse) : ℚ :=
  ((fills.filter (·.side = side)).map
    fun f => (f.price * f.execQuantity.toNat : ℚ)).sum

/-- The cash account: what was sold less what was bought. -/
def cash (fills : List MatchingEngineClientResponse) : ℚ :=
  traded .sell fills - traded .buy fills

namespace PositionInfo

/-- The position after a list of fills, from a flat one. -/
def after (fills : List MatchingEngineClientResponse) : PositionInfo :=
  fills.foldl addFill {}

/-- The fill is of a side and a positive quantity, and no integer that
`addFill` computes from it overflows. -/
structure Fits (p : PositionInfo) (f : MatchingEngineClientResponse) :
    Prop where
  side : f.side = .buy ∨ f.side = .sell
  positive : 0 < f.execQuantity.toNat
  quantity : f.execQuantity.toNat < 2 ^ 31
  old : |p.position| < 2 ^ 31
  position : |p.position + f.signed| < 2 ^ 31
  price : |f.price * f.execQuantity.toNat| < 2 ^ 63
  /-- The product that tells a flip is only computed for a fill against
  the position. -/
  product : p.position * sideToValue f.side < 0 →
    |(p.position + f.signed) * p.position| < 2 ^ 31

/-- The fill closes a part of the position and leaves the rest. -/
def Reduces (p : PositionInfo) (f : MatchingEngineClientResponse) : Prop :=
  p.position * f.signed < 0 ∧ 0 < (p.position + f.signed) * p.position

instance (p : PositionInfo) (f : MatchingEngineClientResponse) :
    Decidable (p.Reduces f) :=
  inferInstanceAs (Decidable (_ ∧ _))

/-- `open_vwap` of the side the position is on. -/
def heldVwap (p : PositionInfo) : ℚ :=
  p.openVwap (sideToIndex (if 0 < p.position then .buy else .sell))

/-- The average entry price. -/
def average (p : PositionInfo) : ℚ := p.heldVwap / (|p.position| : ℤ)

/-- What the position was bought for; what it was sold for counts
negative. -/
def cost (p : PositionInfo) : ℚ :=
  if 0 < p.position then p.heldVwap else -p.heldVwap

/-- The cash the books account for. -/
def surplus (p : PositionInfo) : ℚ := p.realPnl - p.cost

/-- A flat position cost nothing. -/
def Settled (p : PositionInfo) : Prop :=
  p.position = 0 → p.openVwap (sideToIndex .buy) = 0
    ∧ p.openVwap (sideToIndex .sell) = 0

-- ======================================================= what a fill does

variable {p : PositionInfo} {f : MatchingEngineClientResponse}

theorem position_marked (p : PositionInfo) (price : Price) :
    (p.marked price).position = p.position := by
  unfold marked
  split
  · rfl
  · split <;> rfl

theorem realPnl_marked (p : PositionInfo) (price : Price) :
    (p.marked price).realPnl = p.realPnl := by
  unfold marked
  split
  · rfl
  · split <;> rfl

/-- A flat position is left without a price. -/
theorem settled_marked (p : PositionInfo) (price : Price) :
    (p.marked price).Settled := by
  intro hflat
  rw [position_marked] at hflat
  unfold marked
  rw [if_pos hflat]
  exact ⟨rfl, rfl⟩

theorem cost_marked (p : PositionInfo) (price : Price) :
    (p.marked price).cost = if p.position = 0 then 0 else p.cost := by
  unfold cost heldVwap
  rw [position_marked]
  unfold marked
  by_cases hflat : p.position = 0
  · simp [hflat]
  · simp only [hflat, if_false]
    split <;> rfl

/-- The unrealized part is the position's value less its cost. -/
theorem totalPnl_marked {p : PositionInfo} (h : |p.position| < 2 ^ 31)
    (price : Price) : (p.marked price).totalPnl
      = (p.marked price).surplus + p.position * price := by
  unfold surplus
  rw [cost_marked, realPnl_marked]
  unfold marked cost heldVwap
  rw [abs32_eq h]
  rcases lt_trichotomy p.position 0 with hneg | hflat | hpos
  · have habs : ((|p.position| : ℤ) : ℚ) = -p.position := by
      rw [abs_of_neg hneg, Int.cast_neg]
    have hne : (p.position : ℚ) ≠ 0 := by exact_mod_cast hneg.ne
    simp only [hneg.ne, hneg.not_gt, if_false, habs]
    field_simp
    ring
  · simp [hflat]
  · have habs : ((|p.position| : ℤ) : ℚ) = p.position := by
      rw [abs_of_pos hpos]
    have hne : (p.position : ℚ) ≠ 0 := by exact_mod_cast hpos.ne'
    simp only [hpos.ne', hpos, if_false, if_true, habs]
    field_simp
    ring

theorem position_moved (hfit : p.Fits f) :
    (p.moved f).position = p.position + f.signed :=
  int32_eq hfit.position

theorem position_booked (p : PositionInfo) (oldPosition : Int)
    (f : MatchingEngineClientResponse) :
    (p.booked oldPosition f).position = p.position := by
  unfold booked
  dsimp only
  split
  · rfl
  · split <;> rfl

theorem position_addFill (hfit : p.Fits f) :
    (p.addFill f).position = p.position + f.signed := by
  unfold addFill
  rw [position_marked, position_booked, position_moved hfit]

theorem Fits.signed_buy (hside : f.side = .buy) :
    f.signed = f.execQuantity.toNat := by
  simp [MatchingEngineClientResponse.signed, hside, sideToValue]

theorem Fits.signed_sell (hside : f.side = .sell) :
    f.signed = -f.execQuantity.toNat := by
  simp [MatchingEngineClientResponse.signed, hside, sideToValue]

theorem Fits.int32_quantity (hfit : p.Fits f) :
    int32 f.execQuantity.toNat = f.execQuantity.toNat := by
  apply int32_eq
  rw [abs_of_nonneg (by omega)]
  exact_mod_cast hfit.quantity

/-- The test for a fill on the position's own side. -/
theorem Fits.int32_side (hfit : p.Fits f) :
    int32 (p.position * sideToValue f.side)
      = p.position * sideToValue f.side := by
  apply int32_eq
  have habs : |sideToValue f.side| = 1 := by
    rcases hfit.side with hside | hside
    · rw [hside]; rfl
    · rw [hside]; rfl
  rw [abs_mul, habs, mul_one]
  exact hfit.old

/-- A position that a fill opens or increases. -/
theorem booked_of_same (hfit : p.Fits f)
    (hsame : 0 ≤ p.position * sideToValue f.side) :
    (p.moved f).booked p.position f
      = (p.moved f).setOpenVwap (sideToIndex f.side)
          (p.openVwap (sideToIndex f.side)
            + f.price * f.execQuantity.toNat) := by
  unfold booked
  dsimp only
  rw [if_pos (by rw [hfit.int32_side]; exact hsame), int64_eq hfit.price]
  push_cast
  rfl

/-- A fill against the position on which side they are. -/
theorem Fits.opposite (hfit : p.Fits f)
    (hopposite : p.position * sideToValue f.side < 0) :
    (f.side = .buy ∧ p.position < 0) ∨ (f.side = .sell ∧ 0 < p.position) := by
  rcases hfit.side with hside | hside
  · rw [hside] at hopposite
    simp only [sideToValue] at hopposite
    exact .inl ⟨hside, by omega⟩
  · rw [hside] at hopposite
    simp only [sideToValue] at hopposite
    exact .inr ⟨hside, by omega⟩

/-- A flip leaves less than was filled. -/
theorem Fits.abs_flipped (hfit : p.Fits f)
    (hopposite : p.position * sideToValue f.side < 0)
    (hcross : (p.position + f.signed) * p.position < 0) :
    |p.position + f.signed| ≤ |(f.execQuantity.toNat : Int)| := by
  rcases hfit.opposite hopposite with ⟨hside, hneg⟩ | ⟨hside, hpos⟩
  · rw [signed_buy hside] at hcross ⊢
    have hnew := pos_of_mul_neg_left hcross hneg.le
    rw [abs_of_pos hnew, abs_of_nonneg (by omega)]
    omega
  · rw [signed_sell hside] at hcross ⊢
    have hnew := neg_of_mul_neg_left hcross hpos.le
    rw [abs_of_neg hnew, abs_of_nonneg (by omega)]
    omega

/-- The fill is against the position: the average price of what is held
is realized on the part that is closed, and a flip starts the books of
the new position. -/
theorem booked_of_opposite (hfit : p.Fits f)
    (hopposite : p.position * sideToValue f.side < 0) :
    (p.moved f).booked p.position f
      = let gained : PositionInfo := { p.moved f with
          realPnl := p.realPnl
            + (min f.execQuantity.toNat |p.position| : ℤ)
              * (p.average - f.price) * sideToValue f.side }
        if (p.position + f.signed) * p.position < 0 then
          (gained.setOpenVwap (sideToIndex f.side)
            (f.price * (|p.position + f.signed| : ℤ))).setOpenVwap
              (sideToIndex (if f.side = .buy then .sell else .buy)) 0
        else gained := by
  have hheld : p.heldVwap = p.openVwap
      (sideToIndex (if f.side = .buy then .sell else .buy)) := by
    unfold heldVwap
    rcases hfit.opposite hopposite with ⟨hside, hneg⟩ | ⟨hside, hpos⟩
    · simp [hside, hneg.not_gt]
    · simp [hside, hpos]
  have hflip : int32 ((p.position + f.signed) * p.position)
      = (p.position + f.signed) * p.position :=
    int32_eq (hfit.product hopposite)
  unfold booked
  dsimp only
  rw [if_neg (by rw [hfit.int32_side]; omega), position_moved hfit, hflip,
    hfit.int32_quantity, abs32_eq hfit.old, abs32_eq hfit.position]
  unfold average
  rw [hheld]
  by_cases hcross : (p.position + f.signed) * p.position < 0
  · have hvalue : int64 (f.price * |p.position + f.signed|)
        = f.price * |p.position + f.signed| := by
      apply int64_eq
      refine lt_of_le_of_lt ?_ hfit.price
      rw [abs_mul, abs_mul, abs_abs]
      exact mul_le_mul_of_nonneg_left (hfit.abs_flipped hopposite hcross)
        (abs_nonneg _)
    simp only [hcross, if_true, hvalue]
    push_cast
    rfl
  · simp only [hcross, if_false]
    rfl

theorem cost_of_pos (hpos : 0 < p.position) :
    p.cost = p.openVwap (sideToIndex .buy) := by
  simp [cost, heldVwap, hpos]

theorem cost_of_neg (hneg : p.position < 0) :
    p.cost = -p.openVwap (sideToIndex .sell) := by
  simp [cost, heldVwap, hneg.not_gt]

theorem Settled.cost_of_nonneg (hsettled : p.Settled)
    (hnonneg : 0 ≤ p.position) : p.cost = p.openVwap (sideToIndex .buy) := by
  rcases hnonneg.lt_or_eq with hpos | hflat
  · exact cost_of_pos hpos
  · obtain ⟨hbuy, hsell⟩ := hsettled hflat.symm
    simp [cost, heldVwap, ← hflat, hbuy, hsell]

theorem Settled.cost_of_nonpos (hsettled : p.Settled)
    (hnonpos : p.position ≤ 0) :
    p.cost = -p.openVwap (sideToIndex .sell) := by
  rcases hnonpos.lt_or_eq with hneg | hflat
  · exact cost_of_neg hneg
  · obtain ⟨hbuy, hsell⟩ := hsettled hflat
    simp [cost, heldVwap, hflat, hsell]

/-- An opening or an increase. -/
theorem surplus_of_same (hsettled : p.Settled) (hfit : p.Fits f)
    (hsame : 0 ≤ p.position * sideToValue f.side) :
    (p.addFill f).surplus = p.surplus - f.signed * f.price := by
  have hpositive := hfit.positive
  have hposition := position_moved hfit
  unfold addFill surplus
  rw [cost_marked, realPnl_marked, position_booked, hposition,
    booked_of_same hfit hsame]
  rcases hfit.side with hside | hside
  · have hnonneg : 0 ≤ p.position := by
      rw [hside] at hsame
      simp only [sideToValue] at hsame
      omega
    rw [Fits.signed_buy hside] at hposition ⊢
    rw [if_neg (by omega), hsettled.cost_of_nonneg hnonneg, hside,
      cost_of_pos (by rw [setOpenVwap_position, hposition]; omega)]
    simp only [setOpenVwap_realPnl, setOpenVwap_openVwap, if_true]
    push_cast
    change p.realPnl - _ = _
    ring
  · have hnonpos : p.position ≤ 0 := by
      rw [hside] at hsame
      simp only [sideToValue] at hsame
      omega
    rw [Fits.signed_sell hside] at hposition ⊢
    rw [if_neg (by omega), hsettled.cost_of_nonpos hnonpos, hside,
      cost_of_neg (by rw [setOpenVwap_position, hposition]; omega)]
    simp only [setOpenVwap_realPnl, setOpenVwap_openVwap, if_true]
    push_cast
    change p.realPnl - _ = _
    ring

/-- A fill against a short position. -/
theorem surplus_of_buy (hfit : p.Fits f) (hside : f.side = .buy)
    (hneg : p.position < 0) :
    (p.addFill f).surplus = p.surplus - f.signed * f.price
      + if p.Reduces f then f.signed * p.average else 0 := by
  have hpositive := hfit.positive
  have hposition := position_moved hfit
  have hopposite : p.position * sideToValue f.side < 0 := by
    rw [hside]
    simp only [sideToValue]
    omega
  have hsigned : f.signed = f.execQuantity.toNat := Fits.signed_buy hside
  have hagainst : p.position * f.signed < 0 :=
    mul_neg_of_neg_of_pos hneg (by omega)
  have habs : |p.position| = -p.position := abs_of_neg hneg
  have hne : (p.position : ℚ) ≠ 0 := by exact_mod_cast hneg.ne
  have haverage : p.average
      = p.openVwap (sideToIndex .sell) / -(p.position : ℚ) := by
    simp [average, heldVwap, hneg.not_gt, habs]
  unfold addFill surplus
  rw [cost_marked, realPnl_marked, position_booked, hposition,
    booked_of_opposite hfit hopposite, cost_of_neg hneg, hside]
  dsimp only
  rcases lt_trichotomy (p.position + f.signed) 0 with
    hleft | hclosed | hflipped
  · have hsign : 0 < (p.position + f.signed) * p.position :=
      mul_pos_of_neg_of_neg hleft hneg
    have hreduces : p.Reduces f := ⟨hagainst, hsign⟩
    have hmin : min (f.execQuantity.toNat : Int) |p.position|
        = f.execQuantity.toNat := by omega
    rw [if_neg hsign.not_gt, if_neg hleft.ne, if_pos hreduces, hmin,
      cost_of_neg (by dsimp only; rw [hposition]; exact hleft), haverage,
      hsigned]
    simp only [sideToValue]
    push_cast
    change p.realPnl + _ - -p.openVwap _ = _
    ring
  · have hnot : ¬ p.Reduces f := by
      intro h
      obtain ⟨-, hsign⟩ := h
      rw [hclosed, zero_mul] at hsign
      exact lt_irrefl _ hsign
    have hmin : min (f.execQuantity.toNat : Int) |p.position|
        = -p.position := by omega
    have hquantity : (f.signed : ℚ) = -p.position := by
      have heq : f.signed = -p.position := by omega
      exact_mod_cast heq
    rw [if_neg (by rw [hclosed, zero_mul]; exact lt_irrefl _), if_pos hclosed,
      if_neg hnot, hmin, haverage, hquantity]
    simp only [sideToValue]
    push_cast
    field_simp
    ring
  · have hsign : (p.position + f.signed) * p.position < 0 :=
      mul_neg_of_pos_of_neg hflipped hneg
    have hnot : ¬ p.Reduces f := fun hreduces => hsign.not_gt hreduces.2
    have hmin : min (f.execQuantity.toNat : Int) |p.position|
        = -p.position := by omega
    rw [if_pos hsign, if_neg hflipped.ne', if_neg hnot, hmin, haverage,
      cost_of_pos (by
        simp only [setOpenVwap_position]
        rw [hposition]
        exact hflipped), abs_of_pos hflipped]
    simp only [setOpenVwap_openVwap, setOpenVwap_realPnl, sideToIndex,
      sideToValue]
    push_cast
    field_simp
    norm_num
    ring

/-- A fill against a long position. -/
theorem surplus_of_sell (hfit : p.Fits f) (hside : f.side = .sell)
    (hpos : 0 < p.position) :
    (p.addFill f).surplus = p.surplus - f.signed * f.price
      + if p.Reduces f then f.signed * p.average else 0 := by
  have hpositive := hfit.positive
  have hposition := position_moved hfit
  have hopposite : p.position * sideToValue f.side < 0 := by
    rw [hside]
    simp only [sideToValue]
    omega
  have hsigned : f.signed = -f.execQuantity.toNat :=
    Fits.signed_sell hside
  have hagainst : p.position * f.signed < 0 :=
    mul_neg_of_pos_of_neg hpos (by omega)
  have habs : |p.position| = p.position := abs_of_pos hpos
  have hne : (p.position : ℚ) ≠ 0 := by exact_mod_cast hpos.ne'
  have haverage : p.average
      = p.openVwap (sideToIndex .buy) / (p.position : ℚ) := by
    simp [average, heldVwap, hpos, habs]
  unfold addFill surplus
  rw [cost_marked, realPnl_marked, position_booked, hposition,
    booked_of_opposite hfit hopposite, cost_of_pos hpos, hside]
  dsimp only
  rcases lt_trichotomy 0 (p.position + f.signed) with
    hleft | hclosed | hflipped
  · have hsign : 0 < (p.position + f.signed) * p.position :=
      mul_pos hleft hpos
    have hreduces : p.Reduces f := ⟨hagainst, hsign⟩
    have hmin : min (f.execQuantity.toNat : Int) |p.position|
        = f.execQuantity.toNat := by omega
    rw [if_neg hsign.not_gt, if_neg hleft.ne', if_pos hreduces, hmin,
      cost_of_pos (by dsimp only; rw [hposition]; exact hleft), haverage,
      hsigned]
    simp only [sideToValue]
    push_cast
    change p.realPnl + _ - p.openVwap _ = _
    ring
  · have hnot : ¬ p.Reduces f := by
      intro h
      obtain ⟨-, hsign⟩ := h
      rw [← hclosed, zero_mul] at hsign
      exact lt_irrefl _ hsign
    have hmin : min (f.execQuantity.toNat : Int) |p.position|
        = p.position := by omega
    have hquantity : (f.signed : ℚ) = -p.position := by
      have heq : f.signed = -p.position := by omega
      exact_mod_cast heq
    rw [if_neg (by rw [← hclosed, zero_mul]; exact lt_irrefl _), if_pos hclosed.symm,
      if_neg hnot, hmin, haverage, hquantity]
    simp only [sideToValue]
    push_cast
    field_simp
    ring
  · have hsign : (p.position + f.signed) * p.position < 0 :=
      mul_neg_of_neg_of_pos hflipped hpos
    have hnot : ¬ p.Reduces f := fun hreduces => hsign.not_gt hreduces.2
    have hmin : min (f.execQuantity.toNat : Int) |p.position|
        = p.position := by omega
    rw [if_pos hsign, if_neg hflipped.ne, if_neg hnot, hmin, haverage,
      cost_of_neg (by
        simp only [setOpenVwap_position]
        rw [hposition]
        exact hflipped), abs_of_neg hflipped]
    simp only [setOpenVwap_openVwap, setOpenVwap_realPnl, sideToIndex,
      sideToValue]
    push_cast
    field_simp
    norm_num
    ring

/-- What a fill adds to the books: its cash, and the average price of
what it closes where it leaves a part of the position. -/
theorem surplus_addFill (hsettled : p.Settled) (hfit : p.Fits f) :
    (p.addFill f).surplus = p.surplus - f.signed * f.price
      + if p.Reduces f then f.signed * p.average else 0 := by
  rcases lt_or_ge (p.position * sideToValue f.side) 0 with hopp | hsame
  · rcases hfit.opposite hopp with ⟨hside, hneg⟩ | ⟨hside, hpos⟩
    · exact surplus_of_buy hfit hside hneg
    · exact surplus_of_sell hfit hside hpos
  · have hnot : ¬ p.Reduces f := by
      intro h
      obtain ⟨hagainst, -⟩ := h
      have hsame' : 0 ≤ p.position * f.signed := by
        unfold MatchingEngineClientResponse.signed
        rw [mul_left_comm]
        exact mul_nonneg (by omega) hsame
      exact hsame'.not_gt hagainst
    rw [surplus_of_same hsettled hfit hsame, if_neg hnot, add_zero]

end PositionInfo

end ElectronicTrading
