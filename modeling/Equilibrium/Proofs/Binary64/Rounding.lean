import Mathlib.Algebra.Order.Field.Power
import Mathlib.Tactic
import Equilibrium.Binary64

/-!
# Rounding to 64 bits

A quotient of naturals is read as a rational number. `Binary64.scaleOf` finds the exponent at
which its significand has 53 bits (`Binary64.scaleOf_bounds`), so a quotient that is a finite
number already is rounded to that number (`Binary64.ofRatio?_of_eq`), and a natural number below
2^64 is never rounded out of range (`Binary64.isFinite_ofInt`).
-/

namespace Equilibrium

/-- A pair of naturals as a rational number. -/
def quotient (p : Nat × Nat) : ℚ := (p.1 : ℚ) / p.2

/-! ### Powers -/

theorem quotient_timesPower {base : Nat} (hb : 0 < base) (m : Nat) (e : Int) :
    quotient (timesPower base m e) = m * (base : ℚ) ^ e := by
  have hb' : (base : ℚ) ≠ 0 := by positivity
  cases e with
  | ofNat e => simp [quotient, timesPower]
  | negSucc e => simp [quotient, timesPower, zpow_negSucc, div_eq_mul_inv]

theorem timesPower_snd_pos {base : Nat} (hb : 0 < base) (m : Nat) (e : Int) :
    0 < (timesPower base m e).2 := by
  cases e with
  | ofNat e => exact Nat.one_pos
  | negSucc e => exact Nat.pow_pos hb

theorem quotient_overPower {base : Nat} (hb : 0 < base) (num den : Nat) (e : Int) :
    quotient (overPower base num den e) = quotient (num, den) / (base : ℚ) ^ e := by
  cases e with
  | ofNat e => simp [quotient, overPower, div_div]
  | negSucc e =>
      simp only [quotient, overPower, zpow_negSucc, Nat.cast_mul, Nat.pow_eq, Nat.cast_pow]
      field_simp

theorem overPower_snd_pos {base : Nat} (hb : 0 < base) (num : Nat) {den : Nat} (hd : 0 < den)
    (e : Int) : 0 < (overPower base num den e).2 := by
  cases e with
  | ofNat e => exact Nat.mul_pos hd (Nat.pow_pos hb)
  | negSucc e => exact hd

theorem div_lt_iff_quotient_lt {n d : Nat} (hd : 0 < d) (k : Nat) :
    n / d < k ↔ quotient (n, d) < k := by
  have hd' : (0 : ℚ) < d := by exact_mod_cast hd
  rw [Nat.div_lt_iff_lt_mul hd, quotient, div_lt_iff₀ hd']
  exact_mod_cast Iff.rfl

/-! ### Rounding a quotient -/

theorem roundQuotient_of_eq {n d m : Nat} (hd : 0 < d) (h : quotient (n, d) = m) :
    roundQuotient n d = m := by
  have hd' : (d : ℚ) ≠ 0 := by positivity
  have hn : n = m * d := by
    rw [quotient, div_eq_iff hd'] at h
    exact_mod_cast h
  subst hn
  have hq : m * d / d = m := Nat.mul_div_cancel m hd
  have hr : m * d % d = 0 := Nat.mul_mod_left m d
  simp only [roundQuotient, hq, hr]
  rw [if_neg (by omega)]

theorem roundQuotient_le (n d : Nat) : roundQuotient n d ≤ n / d + 1 := by
  simp only [roundQuotient]
  split <;> omega

namespace Binary64

/-! ### The scale of a quotient -/

theorem quotient_log2_bounds {num den : Nat} (hn : num ≠ 0) (hd : den ≠ 0) :
    (2 : ℚ) ^ ((num.log2 : Int) - den.log2 - 1) < quotient (num, den) ∧
      quotient (num, den) < (2 : ℚ) ^ ((num.log2 : Int) - den.log2 + 1) := by
  have hden : (0 : ℚ) < den := by positivity
  have n1 : (2 : ℚ) ^ (num.log2 : Int) ≤ num := by exact_mod_cast Nat.log2_self_le hn
  have n2 : (num : ℚ) < 2 ^ ((num.log2 : Int) + 1) := by exact_mod_cast Nat.lt_log2_self (n := num)
  have d1 : (2 : ℚ) ^ (den.log2 : Int) ≤ den := by exact_mod_cast Nat.log2_self_le hd
  have d2 : (den : ℚ) < 2 ^ ((den.log2 : Int) + 1) := by exact_mod_cast Nat.lt_log2_self (n := den)
  constructor
  · rw [quotient, lt_div_iff₀ hden]
    calc (2 : ℚ) ^ ((num.log2 : Int) - den.log2 - 1) * den
        < 2 ^ ((num.log2 : Int) - den.log2 - 1) * 2 ^ ((den.log2 : Int) + 1) := by gcongr
      _ = 2 ^ (num.log2 : Int) := by rw [← zpow_add₀ two_ne_zero]; congr 1; ring
      _ ≤ num := n1
  · rw [quotient, div_lt_iff₀ hden]
    calc (num : ℚ) < 2 ^ ((num.log2 : Int) + 1) := n2
      _ = 2 ^ ((num.log2 : Int) - den.log2 + 1) * 2 ^ (den.log2 : Int) := by
        rw [← zpow_add₀ two_ne_zero]; congr 1; ring
      _ ≤ 2 ^ ((num.log2 : Int) - den.log2 + 1) * den := by gcongr

/-- At its scale a quotient lies between 2^52 and 2^53, unless that scale is below the least. -/
theorem scaleOf_bounds {num den : Nat} (hn : num ≠ 0) (hd : den ≠ 0) :
    ∃ s : Int, scaleOf num den = max s (-1074) ∧ (2 : ℚ) ^ (52 + s) ≤ quotient (num, den) ∧
      quotient (num, den) < (2 : ℚ) ^ (53 + s) := by
  obtain ⟨hlow, hhigh⟩ := quotient_log2_bounds hn hd
  have hdpos := overPower_snd_pos Nat.two_pos num (Nat.pos_of_ne_zero hd)
    ((num.log2 : Int) - den.log2 - 53)
  have hsmall := div_lt_iff_quotient_lt
    (n := (overPower 2 num den ((num.log2 : Int) - den.log2 - 53)).1) hdpos (2 * exponentUnit)
  rw [Prod.mk.eta, quotient_overPower Nat.two_pos, div_lt_iff₀ (by positivity)] at hsmall
  have hpow : ((2 * exponentUnit : Nat) : ℚ) * ((2 : Nat) : ℚ) ^ ((num.log2 : Int) - den.log2 - 53) =
      2 ^ ((num.log2 : Int) - den.log2) := by
    have h53 : ((2 * exponentUnit : Nat) : ℚ) = (2 : ℚ) ^ (53 : Int) := by
      norm_num [exponentUnit]
    rw [h53, Nat.cast_ofNat, ← zpow_add₀ two_ne_zero]
    congr 1; ring
  rw [hpow] at hsmall
  unfold scaleOf
  dsimp only
  by_cases h : quotient (num, den) < (2 : ℚ) ^ ((num.log2 : Int) - den.log2)
  · rw [if_pos (hsmall.mpr h)]
    refine ⟨_, rfl, ?_, ?_⟩
    · rw [show (52 : Int) + ((num.log2 : Int) - den.log2 - 53) = (num.log2 : Int) - den.log2 - 1 by ring]
      exact hlow.le
    · rw [show (53 : Int) + ((num.log2 : Int) - den.log2 - 53) = (num.log2 : Int) - den.log2 by ring]
      exact h
  · rw [if_neg fun hlt => h (hsmall.mp hlt)]
    refine ⟨_, rfl, ?_, ?_⟩
    · rw [show (52 : Int) + ((num.log2 : Int) - den.log2 - 53 + 1) = (num.log2 : Int) - den.log2 by ring]
      exact not_lt.mp h
    · rw [show (53 : Int) + ((num.log2 : Int) - den.log2 - 53 + 1) =
        (num.log2 : Int) - den.log2 + 1 by ring]
      exact hhigh

/-- A significand and an exponent as a finite number has them: 53 bits, or the least exponent. -/
structure IsScaled (m : Nat) (q : Int) : Prop where
  lt : m < 2 * exponentUnit
  least : -1074 ≤ q
  full : exponentUnit ≤ m ∨ q = -1074

/-- The scale of a quotient that is a scaled significand is its exponent. -/
theorem scaleOf_of_eq {num den m : Nat} {q : Int} (hn : num ≠ 0) (hd : den ≠ 0)
    (hm : IsScaled m q) (h : quotient (num, den) = m * (2 : ℚ) ^ q) : scaleOf num den = q := by
  obtain ⟨s, hs, hlow, hhigh⟩ := scaleOf_bounds hn hd
  have hlt : (m : ℚ) < 2 ^ (53 : Int) := by
    have := hm.lt
    unfold exponentUnit at this
    norm_num
    exact_mod_cast this
  -- a quotient below 2^(53 + q) has its scale at most at q
  have hsq : s ≤ q := by
    have : (2 : ℚ) ^ (52 + s) < 2 ^ (53 + q) :=
      calc (2 : ℚ) ^ (52 + s) ≤ m * 2 ^ q := h ▸ hlow
        _ < 2 ^ (53 : Int) * 2 ^ q := by gcongr
        _ = 2 ^ (53 + q) := by rw [← zpow_add₀ two_ne_zero]
    have := (zpow_lt_zpow_iff_right₀ (by norm_num : (1 : ℚ) < 2)).mp this
    omega
  rcases hm.full with hfull | hleast
  · have hge : (2 : ℚ) ^ (52 : Int) ≤ m := by
      unfold exponentUnit at hfull
      norm_num
      exact_mod_cast hfull
    have : (2 : ℚ) ^ (52 + q) < 2 ^ (53 + s) :=
      calc (2 : ℚ) ^ (52 + q) = 2 ^ (52 : Int) * 2 ^ q := by rw [← zpow_add₀ two_ne_zero]
        _ ≤ m * 2 ^ q := by gcongr
        _ < 2 ^ (53 + s) := h ▸ hhigh
    have := (zpow_lt_zpow_iff_right₀ (by norm_num : (1 : ℚ) < 2)).mp this
    have := hm.least
    rw [hs, max_eq_left (by omega)]
    omega
  · rw [hs, max_eq_right (by omega), hleast]

/-! ### Exact quotients -/

/-- A quotient that is a scaled significand is rounded to the number with that significand. -/
theorem ofRatio?_of_eq (negative : Bool) {num den m : Nat} {q : Int} (hn : num ≠ 0) (hd : den ≠ 0)
    (hm : IsScaled m q) (h : quotient (num, den) = m * (2 : ℚ) ^ q)
    (hfin : (q + 1074).toNat * exponentUnit + m < infinityMagnitude) :
    ofRatio? negative num den =
      some (ofMagnitude negative ((q + 1074).toNat * exponentUnit + m)) := by
  have hscale := scaleOf_of_eq hn hd hm h
  have hround : roundQuotient (overPower 2 num den q).1 (overPower 2 num den q).2 = m := by
    refine roundQuotient_of_eq (overPower_snd_pos Nat.two_pos num (Nat.pos_of_ne_zero hd) q) ?_
    rw [Prod.mk.eta, quotient_overPower Nat.two_pos, h, Nat.cast_ofNat,
      mul_div_cancel_right₀ _ (by positivity)]
  unfold ofRatio?
  dsimp only
  rw [hscale, hround, if_pos hfin]

/-! ### The fields of a finite number -/

variable {x : Binary64}

theorem magnitude_ofMagnitude (negative : Bool) {n : Nat} (h : n < signUnit) :
    (ofMagnitude negative n).magnitude = n := by
  unfold signUnit at h
  cases negative <;> simp [ofMagnitude, magnitude, signUnit] <;> omega

/-- A number is given by its sign and its magnitude. -/
@[simp] theorem ofMagnitude_magnitude (x : Binary64) : ofMagnitude x.isNegative x.magnitude = x := by
  obtain ⟨b⟩ := x
  have hb : b.toNat < 2 ^ 64 := b.toNat_lt
  have hbits : (if signUnit ≤ b.toNat then b.toNat % signUnit + signUnit
      else b.toNat % signUnit) = b.toNat := by
    unfold signUnit
    split <;> omega
  simp only [ofMagnitude, isNegative, magnitude, decide_eq_true_eq, hbits, UInt64.ofNat_toNat]

/-- The number without its sign. -/
def abs (x : Binary64) : Binary64 := ofMagnitude false x.magnitude

theorem abs_of_not_isNegative (h : x.isNegative = false) : x.abs = x := by
  rw [abs, ← h, ofMagnitude_magnitude]

theorem isFinite_iff : x.isFinite = true ↔ x.magnitude < infinityMagnitude := decide_eq_true_iff

theorem infinityMagnitude_lt : infinityMagnitude < signUnit := by decide

theorem isScaled_of_isFinite (h : x.isFinite = true) : IsScaled x.significand x.scale := by
  rw [isFinite_iff] at h
  unfold infinityMagnitude at h
  have hmod : x.magnitude % exponentUnit < exponentUnit := Nat.mod_lt _ (by decide)
  unfold significand scale
  split
  · exact ⟨by omega, by omega, .inr rfl⟩
  · rename_i hge
    have hdiv : 1 ≤ x.magnitude / exponentUnit :=
      (Nat.one_le_div_iff (by decide)).mpr (not_lt.mp hge)
    exact ⟨by omega, by omega, .inl (by omega)⟩

/-- The pattern of a number is put together from its exponent and its significand. -/
theorem scale_significand (x : Binary64) :
    (x.scale + 1074).toNat * exponentUnit + x.significand = x.magnitude := by
  unfold significand scale
  split
  · simp
  · rename_i hge
    have hdiv : 1 ≤ x.magnitude / exponentUnit :=
      (Nat.one_le_div_iff (by decide)).mpr (not_lt.mp hge)
    have hexp : ((x.magnitude / exponentUnit : Nat) - 1075 + 1074 : Int).toNat =
        x.magnitude / exponentUnit - 1 := by omega
    have hsplit := Nat.div_add_mod x.magnitude exponentUnit
    have hunit : (x.magnitude / exponentUnit - 1) * exponentUnit + exponentUnit =
        exponentUnit * (x.magnitude / exponentUnit) := by
      rw [← Nat.succ_mul, Nat.succ_eq_add_one, Nat.sub_add_cancel hdiv, Nat.mul_comm]
    rw [hexp]
    omega

theorem quotient_ratio (x : Binary64) :
    quotient x.ratio = x.significand * (2 : ℚ) ^ x.scale := by
  rw [ratio, quotient_timesPower Nat.two_pos, Nat.cast_ofNat]

theorem significand_ne_zero (h : x.isZero = false) : x.significand ≠ 0 := by
  have hne : x.magnitude ≠ 0 := by simpa [isZero] using h
  unfold significand
  split
  · exact hne
  · have : 0 < exponentUnit := by decide
    omega

theorem quotient_ratio_pos (h : x.isZero = false) : 0 < quotient x.ratio := by
  have := Nat.pos_of_ne_zero (significand_ne_zero h)
  rw [quotient_ratio]
  positivity

/-- A quotient with the value of a finite number is rounded to that number. -/
theorem ofRatio?_ratio {num den : Nat} (hfin : x.isFinite = true) (hzero : x.isZero = false)
    (hd : den ≠ 0) (h : quotient (num, den) = quotient x.ratio) :
    ofRatio? x.isNegative num den = some x := by
  have hn : num ≠ 0 := by
    rintro rfl
    have := quotient_ratio_pos hzero
    rw [← h] at this
    simp [quotient] at this
  have hmag := scale_significand x
  have hlt := isFinite_iff.mp hfin
  rw [ofRatio?_of_eq x.isNegative hn hd (isScaled_of_isFinite hfin) (h.trans (quotient_ratio x))
    (by omega), hmag, ofMagnitude_magnitude]

/-! ### Results are finite -/

theorem isFinite_of_ofRatio? {negative : Bool} {num den : Nat}
    (h : ofRatio? negative num den = some x) : x.isFinite = true := by
  unfold ofRatio? at h
  dsimp only at h
  split at h
  · rename_i hlt
    cases h
    rw [isFinite_iff, magnitude_ofMagnitude _ (hlt.trans infinityMagnitude_lt)]
    exact hlt
  · cases h

/-- No quotient below 2^64 is rounded out of range. -/
theorem isSome_ofRatio?_of_lt (negative : Bool) {n : Nat} (hn : n ≠ 0) (hlt : n < 2 ^ 64) :
    (ofRatio? negative n 1).isSome := by
  obtain ⟨s, hs, hlow, hhigh⟩ := scaleOf_bounds hn one_ne_zero
  have hval : quotient (n, 1) < (2 : ℚ) ^ (64 : Int) := by
    simp only [quotient, Nat.cast_one, div_one]
    exact_mod_cast hlt
  have hs12 : s < 12 := by
    have := (zpow_lt_zpow_iff_right₀ (by norm_num : (1 : ℚ) < 2)).mp (hlow.trans_lt hval)
    omega
  have hsig : (overPower 2 n 1 (scaleOf n 1)).1 / (overPower 2 n 1 (scaleOf n 1)).2 <
      2 * exponentUnit := by
    rw [div_lt_iff_quotient_lt (overPower_snd_pos Nat.two_pos n Nat.one_pos _), Prod.mk.eta,
      quotient_overPower Nat.two_pos, div_lt_iff₀ (by positivity)]
    have h53 : ((2 * exponentUnit : Nat) : ℚ) = (2 : ℚ) ^ (53 : Int) := by norm_num [exponentUnit]
    rw [h53, Nat.cast_ofNat, ← zpow_add₀ two_ne_zero]
    refine hhigh.trans_le (zpow_le_zpow_right₀ (by norm_num) ?_)
    omega
  have hround := roundQuotient_le (overPower 2 n 1 (scaleOf n 1)).1 (overPower 2 n 1 (scaleOf n 1)).2
  unfold ofRatio?
  dsimp only
  rw [if_pos]
  · rfl
  · unfold infinityMagnitude
    have hexp : (scaleOf n 1 + 1074).toNat ≤ 1086 := by omega
    have hprod := Nat.mul_le_mul_right exponentUnit hexp
    have hunit : 0 < exponentUnit := by decide
    omega

theorem isFinite_ofInt {z : Int} (h : z.natAbs < 2 ^ 64) : (ofInt z).isFinite = true := by
  unfold ofInt
  split
  · rfl
  · rename_i hz
    have hsome := isSome_ofRatio?_of_lt (decide (z < 0)) (Int.natAbs_ne_zero.mpr hz) h
    obtain ⟨y, hy⟩ := Option.isSome_iff_exists.mp hsome
    rw [hy]
    exact isFinite_of_ofRatio? hy

end Binary64

end Equilibrium
