import Equilibrium.Proofs.Binary64.Rounding
import Equilibrium.Proofs.Decimal.Normal

/-!
# Shortest decimals

The shortest decimal of a finite number is normal (`Binary64.isNormal_shortest`) and rounds back to
that number (`Binary64.toBinary64?_shortest`). The candidates on the decimal grids are tried before
they are taken; what is left to prove is that the exact decimal, which is taken when none of
them fits, rounds to the number it was made from.
-/

namespace Equilibrium

namespace Decimal

theorem quotient_ratio (d : Decimal) : quotient d.ratio = d.value := by
  rw [ratio, quotient_timesPower (by decide), Nat.cast_ofNat, value]

theorem ratio_snd_ne_zero (d : Decimal) : d.ratio.2 ≠ 0 :=
  (timesPower_snd_pos (by decide) _ _).ne'

/-- Rounding a decimal with another sign gives the number with that sign. -/
theorem toBinary64?_of_toBinary64? {d : Decimal} {negative : Bool} {x : Binary64}
    (h : d.toBinary64? negative = some x) (negative' : Bool) :
    d.toBinary64? negative' = some (.ofMagnitude negative' x.magnitude) := by
  unfold toBinary64? at h ⊢
  split at h
  · rw [if_pos (by assumption)]
    cases h
    rw [Binary64.magnitude_ofMagnitude _ (by decide)]
  · rw [if_neg (by assumption)]
    split at h
    · cases h
    · rw [if_neg (by assumption)]
      unfold Binary64.ofRatio? at h ⊢
      dsimp only at h ⊢
      split at h
      · rename_i hlt
        rw [if_pos hlt]
        cases h
        rw [Binary64.magnitude_ofMagnitude _ (hlt.trans Binary64.infinityMagnitude_lt)]
      · cases h

end Decimal

namespace Binary64

variable {x : Binary64}

/-! ### The range of finite numbers -/

theorem two_pow_le_ten_pow {m k : Nat} (h : m ≤ 3 * k) : (2 : ℚ) ^ m ≤ (10 : ℚ) ^ k :=
  calc (2 : ℚ) ^ m ≤ 2 ^ (3 * k) := pow_le_pow_right₀ (by norm_num) h
    _ = 8 ^ k := by rw [pow_mul]; norm_num
    _ ≤ 10 ^ k := by gcongr; norm_num

theorem quotient_ratio_lt (h : x.isFinite = true) : quotient x.ratio < (10 : ℚ) ^ (400 : Nat) := by
  have hs := isScaled_of_isFinite h
  have hscale : x.scale ≤ (971 : Nat) := by
    rw [isFinite_iff] at h
    unfold infinityMagnitude at h
    have hdiv : x.magnitude / exponentUnit < 2047 :=
      (Nat.div_lt_iff_lt_mul (by decide)).mpr h
    unfold scale
    split <;> omega
  have hm : (x.significand : ℚ) < 2 ^ 53 := by
    have := hs.lt
    unfold exponentUnit at this
    norm_num
    exact_mod_cast this
  have hpow : (2 : ℚ) ^ x.scale ≤ (2 : ℚ) ^ (971 : Nat) := by
    rw [← zpow_natCast]
    exact zpow_le_zpow_right₀ (by norm_num) hscale
  calc quotient x.ratio = x.significand * (2 : ℚ) ^ x.scale := quotient_ratio x
    _ ≤ x.significand * (2 : ℚ) ^ (971 : Nat) :=
        mul_le_mul_of_nonneg_left hpow (Nat.cast_nonneg _)
    _ < (2 : ℚ) ^ 53 * (2 : ℚ) ^ (971 : Nat) := mul_lt_mul_of_pos_right hm (pow_pos two_pos _)
    _ = (2 : ℚ) ^ (53 + 971 : Nat) := by rw [pow_add]
    _ ≤ (10 : ℚ) ^ (400 : Nat) := two_pow_le_ten_pow (by norm_num)

theorem lt_quotient_ratio (hfin : x.isFinite = true) (hzero : x.isZero = false) :
    (10 : ℚ) ^ (-401 : Int) < quotient x.ratio := by
  have hm : (1 : ℚ) ≤ x.significand := by
    exact_mod_cast Nat.one_le_iff_ne_zero.mpr (significand_ne_zero hzero)
  have hpow : (2 : ℚ) ^ (-(1074 : Nat) : Int) ≤ (2 : ℚ) ^ x.scale :=
    zpow_le_zpow_right₀ (by norm_num) (isScaled_of_isFinite hfin).least
  calc (10 : ℚ) ^ (-401 : Int) < (10 : ℚ) ^ (-(400 : Nat) : Int) :=
        zpow_lt_zpow_right₀ (by norm_num) (by norm_num)
    _ = ((10 : ℚ) ^ (400 : Nat))⁻¹ := by rw [zpow_neg, zpow_natCast]
    _ ≤ ((2 : ℚ) ^ (1074 : Nat))⁻¹ :=
        inv_anti₀ (pow_pos two_pos _) (two_pow_le_ten_pow (by norm_num))
    _ = 1 * (2 : ℚ) ^ (-(1074 : Nat) : Int) := by rw [zpow_neg, zpow_natCast, one_mul]
    _ ≤ x.significand * (2 : ℚ) ^ x.scale := by gcongr
    _ = quotient x.ratio := (quotient_ratio x).symm

/-- A decimal with the value of a finite number rounds to that number. -/
theorem toBinary64?_of_value {d : Decimal} (hfin : x.isFinite = true) (hzero : x.isZero = false)
    (h : d.value = quotient x.ratio) : d.toBinary64? x.isNegative = some x := by
  have hc : d.coefficient ≠ 0 := by
    intro hc
    have := quotient_ratio_pos hzero
    rw [← h, Decimal.value, hc] at this
    simp at this
  have hlow : -401 < d.wholeDigits := by
    have := (lt_quotient_ratio hfin hzero).trans_eq h.symm |>.trans d.value_lt
    exact (zpow_lt_zpow_iff_right₀ (by norm_num)).mp this
  have hhigh : d.wholeDigits - 1 < (400 : Nat) := by
    have := (Decimal.le_value hc).trans_lt (h.trans_lt (quotient_ratio_lt hfin))
    rw [← zpow_natCast] at this
    exact (zpow_lt_zpow_iff_right₀ (by norm_num)).mp this
  rw [Decimal.toBinary64?, if_neg (by rintro (h | h) <;> omega), if_neg (by omega)]
  exact ofRatio?_ratio hfin hzero d.ratio_snd_ne_zero (d.quotient_ratio.trans h)

/-! ### The shortest decimal -/

theorem value_exactDecimal (x : Binary64) : x.exactDecimal.value = quotient x.ratio := by
  rw [quotient_ratio]
  unfold exactDecimal
  split
  · rename_i q hq
    rw [Decimal.value_normal, hq]
    simp [Decimal.value]
  · rename_i q hq
    rw [Decimal.value_normal, hq]
    simp only [Decimal.value, zpow_negSucc, Nat.cast_mul, Nat.pow_eq, Nat.cast_pow, Nat.cast_ofNat]
    rw [show (10 : ℚ) = 5 * 2 by norm_num, mul_pow]
    field_simp

theorem isNormal_exactDecimal (x : Binary64) : x.exactDecimal.IsNormal := by
  unfold exactDecimal
  split <;> exact Decimal.isNormal_normal _

theorem isNormal_of_mem_neighbours {tie : Tie} {num den : Nat} {g : Int} {d : Decimal}
    (h : d ∈ neighbours tie num den g) : d.IsNormal := by
  simp only [neighbours, List.mem_map] at h
  obtain ⟨c, -, rfl⟩ := h
  exact Decimal.isNormal_normal _

/-- The shortest decimal of a number other than zero: one that was tried, or the exact one. -/
theorem shortest_cases (tie : Tie) (hzero : x.isZero = false) :
    (x.readsBack (x.shortest tie) = true ∧ (x.shortest tie).IsNormal) ∨
      x.shortest tie = x.exactDecimal := by
  unfold shortest
  rw [if_neg (by simp [hzero])]
  dsimp only
  cases hfind : (List.range 17).findSome? fun i : Nat =>
      (neighbours tie x.ratio.1 x.ratio.2
        (decimalScale x.ratio.1 x.ratio.2 - ((i : Int) + 1))).find? x.readsBack with
  | none => exact .inr rfl
  | some d =>
      obtain ⟨i, -, hi⟩ := List.exists_of_findSome?_eq_some hfind
      exact .inl ⟨List.find?_some hi, isNormal_of_mem_neighbours (List.mem_of_find?_eq_some hi)⟩

theorem isNormal_shortest (tie : Tie) (x : Binary64) : (x.shortest tie).IsNormal := by
  cases hzero : x.isZero with
  | true =>
      rw [shortest, if_pos hzero]
      exact .inr rfl
  | false =>
      rcases shortest_cases tie hzero with ⟨-, h⟩ | h
      · exact h
      · exact h ▸ isNormal_exactDecimal x

/-- The shortest decimal of a finite number rounds back to it. -/
theorem toBinary64?_shortest (tie : Tie) (hfin : x.isFinite = true) :
    (x.shortest tie).toBinary64? x.isNegative = some x := by
  cases hzero : x.isZero with
  | true =>
      have hmag : x.magnitude = 0 := of_decide_eq_true hzero
      rw [shortest, if_pos hzero, Decimal.toBinary64?, if_pos (.inl rfl), ← hmag,
        ofMagnitude_magnitude]
  | false =>
      rcases shortest_cases tie hzero with ⟨h, -⟩ | h
      · exact eq_of_beq h
      · rw [h]
        exact toBinary64?_of_value hfin hzero (value_exactDecimal x)

end Binary64

end Equilibrium
