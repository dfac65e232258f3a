/-
The profit that a run of fills reports.

Marked at the last fill's price, what was sold less what was bought plus
the position at that price is what the position has earned. `total_pnl`
is that figure after every fill exactly when no fill leaves a part of a
position that was entered at an average price other than zero.

The run lemma is on `surplus - cash`: `surplus_addFill` says a fill
changes it only where it leaves a part, by the average price of the part
it closes, and `totalPnl` is off by that difference.
-/
import ElectronicTrading.Trading.PositionKeeper
import Mathlib.Data.List.Induction

namespace ElectronicTrading

variable {p : PositionInfo} {f : MatchingEngineClientResponse}
  {fills : List MatchingEngineClientResponse}

-- =============================================================== the cash

theorem traded_snoc (side : Side) (fills : List MatchingEngineClientResponse)
    (f : MatchingEngineClientResponse) :
    traded side (fills ++ [f]) = traded side fills
      + if f.side = side then (f.price * f.execQuantity.toNat : ℚ) else 0 := by
  unfold traded
  rw [List.filter_append, List.map_append, List.sum_append]
  by_cases hside : f.side = side
  · simp [hside]
  · simp [hside]

theorem cash_snoc (hside : f.side = .buy ∨ f.side = .sell) :
    cash (fills ++ [f]) = cash fills - f.signed * f.price := by
  unfold cash MatchingEngineClientResponse.signed
  rw [traded_snoc, traded_snoc]
  rcases hside with hside | hside
  · simp only [hside, sideToValue]
    push_cast
    norm_num
    ring
  · simp only [hside, sideToValue]
    push_cast
    norm_num
    ring

namespace PositionInfo

theorem after_snoc (fills : List MatchingEngineClientResponse)
    (f : MatchingEngineClientResponse) :
    after (fills ++ [f]) = (after fills).addFill f := by
  unfold after
  rw [List.foldl_append]
  rfl

theorem settled_after (fills : List MatchingEngineClientResponse) :
    (after fills).Settled := by
  induction fills using List.reverseRecOn with
  | nil => exact fun _ => ⟨rfl, rfl⟩
  | append_singleton fills f ih =>
    rw [after_snoc]
    exact settled_marked _ _

/-- How far the books are off. -/
def error (fills : List MatchingEngineClientResponse) : ℚ :=
  (after fills).surplus - cash fills

theorem error_nil : error [] = 0 := by
  simp [error, after, surplus, cost, heldVwap, cash, traded]

theorem error_snoc (hfit : (after fills).Fits f) :
    error (fills ++ [f]) = error fills
      + if (after fills).Reduces f then f.signed * (after fills).average
        else 0 := by
  unfold error
  rw [after_snoc, cash_snoc hfit.side,
    surplus_addFill (settled_after fills) hfit]
  ring

-- ============================================================= the result

/-- After the fill `total_pnl` is the cash account marked at its price. -/
def MarkedToFill (fills : List MatchingEngineClientResponse)
    (f : MatchingEngineClientResponse) : Prop :=
  (after (fills ++ [f])).totalPnl
    = cash (fills ++ [f]) + (after (fills ++ [f])).position * f.price

/-- A fill that leaves a part leaves its average entry price. -/
def KeepsAverage (fills : List MatchingEngineClientResponse)
    (f : MatchingEngineClientResponse) : Prop :=
  (after fills).Reduces f →
    (after (fills ++ [f])).average = (after fills).average

theorem markedToFill_iff (hfit : (after fills).Fits f) :
    MarkedToFill fills f ↔ error (fills ++ [f]) = 0 := by
  have hposition : |(((after fills).moved f).booked
      (after fills).position f).position| < 2 ^ 31 := by
    rw [position_booked, position_moved hfit]
    exact hfit.position
  have htotal : (after (fills ++ [f])).totalPnl
      = (after (fills ++ [f])).surplus
        + (after (fills ++ [f])).position * f.price := by
    rw [after_snoc]
    unfold addFill
    rw [totalPnl_marked hposition, position_marked]
  unfold MarkedToFill error
  rw [htotal]
  constructor
  · intro h
    linarith
  · intro h
    linarith

/-- `open_vwap` of the held side survives a reduction. -/
theorem heldVwap_of_reduces (hfit : p.Fits f) (hreduces : p.Reduces f) :
    (p.addFill f).heldVwap = p.heldVwap := by
  obtain ⟨hagainst, hleft⟩ := hreduces
  have hopposite : p.position * sideToValue f.side < 0 := by
    have hpositive := hfit.positive
    unfold MatchingEngineClientResponse.signed at hagainst
    rw [mul_left_comm] at hagainst
    exact neg_of_mul_neg_right hagainst (by omega)
  have hsign : 0 < p.position + f.signed ↔ 0 < p.position := by
    constructor
    · intro hnew
      exact pos_of_mul_pos_right hleft hnew.le
    · intro hold
      exact pos_of_mul_pos_left hleft hold.le
  have hposition : (p.addFill f).position = p.position + f.signed :=
    position_addFill hfit
  have hne : p.position + f.signed ≠ 0 := by
    intro hflat
    rw [hflat, zero_mul] at hleft
    exact lt_irrefl _ hleft
  have hvwap : (p.addFill f).openVwap = p.openVwap := by
    unfold addFill
    rw [booked_of_opposite hfit hopposite]
    dsimp only
    rw [if_neg hleft.not_gt]
    unfold marked
    dsimp only
    rw [position_moved hfit, if_neg hne]
    split <;> rfl
  unfold heldVwap
  rw [hposition, hvwap]
  simp only [hsign]

/-- A partial reduction from an average price other than zero. -/
def Misbooks (p : PositionInfo) (f : MatchingEngineClientResponse) : Prop :=
  p.Reduces f ∧ p.average ≠ 0

theorem error_eq_zero
    (hfits : ∀ pre f post, fills = pre ++ f :: post → (after pre).Fits f)
    (hnone : ∀ pre f post, fills = pre ++ f :: post →
      ¬ (after pre).Misbooks f) :
    ∀ pre post, fills = pre ++ post → error pre = 0 := by
  intro pre
  induction pre using List.reverseRecOn with
  | nil => exact fun _ _ => error_nil
  | append_singleton pre f ih =>
    intro post heq
    rw [List.append_assoc, List.singleton_append] at heq
    rw [error_snoc (hfits pre f post heq), ih _ heq, zero_add]
    by_cases hreduces : (after pre).Reduces f
    · have hzero : (after pre).average = 0 := by
        by_contra hne
        exact hnone pre f post heq ⟨hreduces, hne⟩
      rw [if_pos hreduces, hzero, mul_zero]
    · rw [if_neg hreduces]

/-- After every fill the total is the marked cash account, and a partial
reduction keeps the average entry price, exactly when no fill is a partial
reduction of a position entered at an average price other than zero. -/
theorem totalPnl_eq_marked_cash_iff
    (fills : List MatchingEngineClientResponse)
    (hfits : ∀ pre f post, fills = pre ++ f :: post → (after pre).Fits f) :
    (∀ pre f post, fills = pre ++ f :: post →
        MarkedToFill pre f ∧ KeepsAverage pre f)
      ↔ ∀ pre f post, fills = pre ++ f :: post →
          ¬ (after pre).Misbooks f := by
  constructor
  · intro hmarked pre f post heq h
    obtain ⟨hreduces, hne⟩ := h
    have hfit := hfits pre f post heq
    have hbefore : error pre = 0 := by
      rcases List.eq_nil_or_concat pre with rfl | ⟨pre', g, rfl⟩
      · exact error_nil
      · rw [List.concat_eq_append] at heq ⊢
        rw [List.append_assoc, List.singleton_append] at heq
        exact (markedToFill_iff (hfits pre' g _ heq)).mp (hmarked pre' g _ heq).1
    have hafter := (markedToFill_iff hfit).mp (hmarked pre f post heq).1
    rw [error_snoc hfit, hbefore, if_pos hreduces, zero_add] at hafter
    rcases mul_eq_zero.mp hafter with hsigned | havg
    · have hagainst := hreduces.1
      have hzero : f.signed = 0 := by exact_mod_cast hsigned
      rw [hzero, mul_zero] at hagainst
      exact lt_irrefl _ hagainst
    · exact hne havg
  · intro hnone pre f post heq
    refine ⟨(markedToFill_iff (hfits pre f post heq)).mpr ?_,
      fun hreduces => ?_⟩
    · refine error_eq_zero hfits hnone (pre ++ [f]) post ?_
      rw [List.append_assoc, List.singleton_append]
      exact heq
    · have hzero : (after pre).average = 0 := by
        by_contra hne
        exact hnone pre f post heq ⟨hreduces, hne⟩
      have hposition : (after pre).position ≠ 0 := by
        intro hflat
        have hagainst := hreduces.1
        rw [hflat, zero_mul] at hagainst
        exact lt_irrefl _ hagainst
      have hheld : (after pre).heldVwap = 0 := by
        unfold average at hzero
        rcases div_eq_zero_iff.mp hzero with h | h
        · exact h
        · exact absurd (abs_eq_zero.mp (by exact_mod_cast h)) hposition
      rw [hzero, after_snoc]
      unfold average
      rw [heldVwap_of_reduces (hfits pre f post heq) hreduces, hheld,
        zero_div]

/-- Ten bought at 100. -/
def boughtTen : MatchingEngineClientResponse :=
  { type := .filled, side := .buy, price := 100, execQuantity := 10,
    leavesQuantity := 0 }

/-- Five sold at 110. -/
def soldFive : MatchingEngineClientResponse :=
  { type := .filled, side := .sell, price := 110, execQuantity := 5,
    leavesQuantity := 0 }

theorem fits_boughtTen : (after []).Fits boughtTen where
  side := .inl rfl
  positive := by decide
  quantity := by decide
  old := by decide
  position := by decide
  price := by decide
  product := by decide

theorem fits_soldFive : (after [boughtTen]).Fits soldFive where
  side := .inr rfl
  positive := by decide
  quantity := by decide
  old := by decide
  position := by decide
  price := by decide
  product := by decide

instance (p : PositionInfo) (f : MatchingEngineClientResponse) :
    Decidable (p.Fits f) :=
  decidable_of_iff ((f.side = .buy ∨ f.side = .sell)
      ∧ 0 < f.execQuantity.toNat ∧ f.execQuantity.toNat < 2 ^ 31
      ∧ |p.position| < 2 ^ 31 ∧ |p.position + f.signed| < 2 ^ 31
      ∧ |f.price * f.execQuantity.toNat| < 2 ^ 63
      ∧ (p.position * sideToValue f.side < 0 →
        |(p.position + f.signed) * p.position| < 2 ^ 31))
    ⟨fun ⟨hside, hpositive, hquantity, hold, hposition, hprice, hproduct⟩ =>
      ⟨hside, hpositive, hquantity, hold, hposition, hprice, hproduct⟩,
    fun h => ⟨h.side, h.positive, h.quantity, h.old, h.position, h.price,
      h.product⟩⟩

instance (p : PositionInfo) (f : MatchingEngineClientResponse) :
    Decidable (p.Misbooks f) :=
  inferInstanceAs (Decidable (_ ∧ _))

/-- What holds at each place of a list of fills holds wherever it is cut. -/
theorem of_places {P : List MatchingEngineClientResponse →
      MatchingEngineClientResponse → Prop}
    (h : ∀ i : Fin fills.length, P (fills.take i) fills[i]) :
    ∀ pre f post, fills = pre ++ f :: post → P pre f := by
  rintro pre f post rfl
  have hplace := h ⟨pre.length, by simp⟩
  simpa using hplace

/-- Ten bought at 100, five more at 120, all sold, ten sold short at 90, and
fifteen bought back at 80. -/
def fiveFills : List MatchingEngineClientResponse :=
  [boughtTen, { boughtTen with price := 120, execQuantity := 5 },
    { soldFive with execQuantity := 15 },
    { soldFive with price := 90, execQuantity := 10 },
    { boughtTen with price := 80, execQuantity := 15 }]

/-- An increase, a close and a flip are booked right. -/
theorem totalPnl_eq_marked_cash_iff_fiveFills :
    (after fiveFills).totalPnl = 150 ∧ (after fiveFills).position = 5
      ∧ ∀ pre f post, fiveFills = pre ++ f :: post →
        MarkedToFill pre f ∧ KeepsAverage pre f := by
  refine ⟨by decide +kernel, by decide +kernel,
    (totalPnl_eq_marked_cash_iff fiveFills ?_).2 ?_⟩
  · exact of_places (by decide +kernel)
  · exact of_places (P := fun pre f => ¬ (after pre).Misbooks f)
      (by decide +kernel)

/-- Ten bought at 100 and five of them sold at 110 have earned 100; the
total says -400, and the average entry price has gone from 100 to 200. -/
theorem totalPnl_ne_marked_cash :
    (after []).Fits boughtTen ∧ (after [boughtTen]).Fits soldFive
      ∧ (after ([boughtTen] ++ [soldFive])).totalPnl = -400
      ∧ ¬ MarkedToFill [boughtTen] soldFive
      ∧ ¬ KeepsAverage [boughtTen] soldFive := by
  refine ⟨fits_boughtTen, fits_soldFive, by decide +kernel, ?_, ?_⟩
  · unfold MarkedToFill
    decide +kernel
  · unfold KeepsAverage
    decide +kernel

end PositionInfo

end ElectronicTrading
