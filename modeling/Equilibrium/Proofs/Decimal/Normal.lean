import Mathlib.Tactic
import Equilibrium.Numeral

/-!
# Normal decimals and their digits

A decimal is normal when its coefficient does not end in zero, or when it is the zero
`0 * 10 ^ 0`. `Decimal.normal` gives the normal decimal of the same value
(`Decimal.normal_mul_pow`, `Decimal.normal_eq_self`), and reading the digits of a coefficient, with
zeros before or behind them, gives the coefficient back (`Decimal.digitsValue_append`).
-/

namespace Equilibrium

namespace Decimal

/-! ### Digits -/

theorem decimalDigits_ne_nil (n : Nat) : decimalDigits n ≠ [] := Nat.toDigits_ne_nil

theorem isDigit_of_mem_decimalDigits {n : Nat} {c : Char} (h : c ∈ decimalDigits n) :
    c.isDigit = true :=
  Nat.isDigit_of_mem_toDigits (by decide) (by decide) h

theorem isDigit_of_mem_zeros {n : Nat} {c : Char} (h : c ∈ zeros n) : c.isDigit = true := by
  rw [List.eq_of_mem_replicate h]
  rfl

@[simp] theorem length_zeros (n : Nat) : (zeros n).length = n := List.length_replicate

theorem digitsValue_append (ds es : List Char) :
    digitsValue (ds ++ es) = digitsValue ds * 10 ^ es.length + digitsValue es := by
  have happ : Nat.ofDigitChars 10 (ds ++ es) 0 = Nat.ofDigitChars 10 es (Nat.ofDigitChars 10 ds 0) :=
    Nat.ofDigitChars_append 0
  have hes : Nat.ofDigitChars 10 es (Nat.ofDigitChars 10 ds 0) =
      10 ^ es.length * Nat.ofDigitChars 10 ds 0 + Nat.ofDigitChars 10 es 0 :=
    Nat.ofDigitChars_eq_ofDigitChars_zero
  rw [Nat.mul_comm (digitsValue ds)]
  exact happ.trans hes

@[simp] theorem digitsValue_decimalDigits (n : Nat) : digitsValue (decimalDigits n) = n :=
  Nat.ofDigitChars_ten_toDigits

@[simp] theorem digitsValue_zeros (n : Nat) : digitsValue (zeros n) = 0 := by
  have h : Nat.ofDigitChars 10 (List.replicate n '0') 0 = 10 ^ n * 0 :=
    Nat.ofDigitChars_replicate_zero
  exact h

theorem length_decimalDigits_le_iff {n k : Nat} (hk : 0 < k) :
    (decimalDigits n).length ≤ k ↔ n < 10 ^ k :=
  Nat.length_toDigits_le_iff (by decide) hk

theorem lt_pow_length_decimalDigits (n : Nat) : n < 10 ^ (decimalDigits n).length :=
  (length_decimalDigits_le_iff Nat.length_toDigits_pos).mp le_rfl

theorem pow_length_decimalDigits_le {n : Nat} (hn : n ≠ 0) :
    10 ^ ((decimalDigits n).length - 1) ≤ n := by
  by_cases h : (decimalDigits n).length - 1 = 0
  · rw [h]
    omega
  · by_contra hlt
    have := (length_decimalDigits_le_iff (Nat.pos_of_ne_zero h)).mpr (not_le.mp hlt)
    omega

/-- The digits of a number do not begin with a zero, unless that is all there is. -/
theorem head?_decimalDigits_ne {n : Nat} (hn : n ≠ 0) : (decimalDigits n).head? ≠ some '0' := by
  induction n using Nat.strong_induction_on with
  | _ n ih =>
      by_cases h : n < 10
      · rw [decimalDigits, Nat.toDigits_of_lt_base h]
        interval_cases n <;> first | exact absurd rfl hn | decide
      · rw [decimalDigits, Nat.toDigits_of_base_le (by decide) (not_lt.mp h),
          List.head?_append_of_ne_nil _ Nat.toDigits_ne_nil]
        exact ih (n / 10) (by omega) (by omega)

/-! ### Normal decimals -/

/-- The coefficient does not end in zero, unless the decimal is `0 * 10 ^ 0`. -/
def IsNormal (d : Decimal) : Prop := d.coefficient % 10 ≠ 0 ∨ d = ⟨0, 0⟩

/-- The only normal decimal with the coefficient zero. -/
theorem IsNormal.exponent_eq_zero {d : Decimal} (h : d.IsNormal) (hc : d.coefficient = 0) :
    d.exponent = 0 := by
  rcases h with h | rfl
  · exact absurd (by rw [hc]) h
  · rfl

theorem strip_mul_pow {c : Nat} (hc : c % 10 ≠ 0) :
    ∀ {fuel k : Nat} (e : Int), k ≤ fuel → strip fuel ⟨c * 10 ^ k, e⟩ = ⟨c, e + k⟩
  | 0, k, e, hk => by
      obtain rfl : k = 0 := by omega
      simp [strip]
  | fuel + 1, 0, e, _ => by simp [strip, hc]
  | fuel + 1, k + 1, e, hk => by
      have hmod : c * 10 ^ (k + 1) % 10 = 0 := by rw [pow_succ, ← mul_assoc, Nat.mul_mod_left]
      have hdiv : c * 10 ^ (k + 1) / 10 = c * 10 ^ k := by
        rw [pow_succ, ← mul_assoc, Nat.mul_div_cancel _ (by decide)]
      rw [strip, if_pos hmod]
      dsimp only
      rw [hdiv, strip_mul_pow hc (e + 1) (by omega)]
      congr 1
      push_cast
      ring

/-- Zeros at the end of a coefficient go into the exponent. -/
theorem normal_mul_pow {c : Nat} (hc : c % 10 ≠ 0) (k : Nat) (e : Int) :
    normal ⟨c * 10 ^ k, e⟩ = ⟨c, e + k⟩ := by
  have hpos : 0 < c := Nat.pos_of_ne_zero fun h => hc (by rw [h])
  have hne : c * 10 ^ k ≠ 0 := by positivity
  have hlen : k ≤ (decimalDigits (c * 10 ^ k)).length := by
    have hlt := lt_pow_length_decimalDigits (c * 10 ^ k)
    have hle : 10 ^ k ≤ c * 10 ^ k := Nat.le_mul_of_pos_left _ hpos
    exact ((Nat.pow_lt_pow_iff_right (by decide)).mp (hle.trans_lt hlt)).le
  rw [normal, if_neg hne, strip_mul_pow hc e hlen]

@[simp] theorem normal_zero (e : Int) : normal ⟨0, e⟩ = ⟨0, 0⟩ := rfl

/-- Every coefficient but zero is one that does not end in zero, with zeros behind it. -/
theorem exists_mul_pow {c : Nat} (hc : c ≠ 0) : ∃ c' k, c' % 10 ≠ 0 ∧ c = c' * 10 ^ k := by
  obtain ⟨k, c', hdvd, rfl⟩ := Nat.exists_eq_pow_mul_and_not_dvd hc 10 (by decide)
  exact ⟨c', k, fun h => hdvd (Nat.dvd_of_mod_eq_zero h), Nat.mul_comm _ _⟩

theorem isNormal_normal (d : Decimal) : (normal d).IsNormal := by
  obtain ⟨c, e⟩ := d
  by_cases hc : c = 0
  · subst hc
    exact .inr (normal_zero e)
  · obtain ⟨c', k, hc', rfl⟩ := exists_mul_pow hc
    rw [normal_mul_pow hc']
    exact .inl hc'

/-- A normal decimal is found again from its coefficient with zeros behind it. -/
theorem IsNormal.normal_mul_pow {d : Decimal} (h : d.IsNormal) (k : Nat) :
    normal ⟨d.coefficient * 10 ^ k, d.exponent - k⟩ = d := by
  rcases h with h | rfl
  · rw [Decimal.normal_mul_pow h, Int.sub_add_cancel]
  · simp

/-! ### Values -/

/-- The value of a decimal. -/
def value (d : Decimal) : ℚ := d.coefficient * (10 : ℚ) ^ d.exponent

@[simp] theorem value_normal (d : Decimal) : (normal d).value = d.value := by
  obtain ⟨c, e⟩ := d
  by_cases hc : c = 0
  · subst hc
    simp [value]
  · obtain ⟨c', k, hc', rfl⟩ := exists_mul_pow hc
    rw [Decimal.normal_mul_pow hc']
    simp only [value, Nat.cast_mul, Nat.cast_pow, Nat.cast_ofNat]
    rw [zpow_add₀ (by norm_num), zpow_natCast]
    ring

/-- A decimal lies below the power of ten that its digits before the point allow. -/
theorem value_lt (d : Decimal) : d.value < (10 : ℚ) ^ d.wholeDigits := by
  have hlt : (d.coefficient : ℚ) < (10 : ℚ) ^ ((decimalDigits d.coefficient).length : Int) := by
    exact_mod_cast lt_pow_length_decimalDigits d.coefficient
  rw [value, wholeDigits, zpow_add₀ (by norm_num)]
  gcongr

theorem le_value {d : Decimal} (h : d.coefficient ≠ 0) :
    (10 : ℚ) ^ (d.wholeDigits - 1) ≤ d.value := by
  have hlen : 0 < (decimalDigits d.coefficient).length := Nat.length_toDigits_pos
  have hle : (10 : ℚ) ^ (((decimalDigits d.coefficient).length - 1 : Nat) : Int) ≤ d.coefficient := by
    exact_mod_cast pow_length_decimalDigits_le h
  have hexp : d.wholeDigits - 1 =
      (((decimalDigits d.coefficient).length - 1 : Nat) : Int) + d.exponent := by
    unfold wholeDigits
    omega
  rw [value, hexp, zpow_add₀ (by norm_num)]
  gcongr

end Decimal

end Equilibrium
