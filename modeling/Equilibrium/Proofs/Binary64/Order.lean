import Equilibrium.Proofs.Binary64.Rounding

/-!
# The total order of numbers

`Binary64.compare` goes by `Binary64.rank`, which counts negative patterns downwards. The same order
is found on the bits alone: where the sign is set all other bits are inverted, and the patterns are
then compared as signed numbers (`Binary64.compare_eq_compare_orderKey`). Different patterns have
different keys (`Binary64.orderKey_inj`), not-a-numbers and the two zeros among them.
-/

namespace Equilibrium

/-! ### Inverted bits -/

section inverted

variable {m k : Nat}

theorem xor_two_pow_sub_one (h : m < 2 ^ k) : m ^^^ (2 ^ k - 1) = 2 ^ k - 1 - m := by
  have hnot := congrArg BitVec.toNat (BitVec.xor_allOnes (x := BitVec.ofNat k m))
  rwa [BitVec.toNat_xor, BitVec.toNat_not, BitVec.toNat_allOnes, BitVec.toNat_ofNat,
    Nat.mod_eq_of_lt h] at hnot

/-- Inverting the lower bits leaves the upper one alone. -/
theorem add_two_pow_xor (h : m < 2 ^ k) :
    (2 ^ k + m) ^^^ (2 ^ k - 1) = 2 ^ k + (2 ^ k - 1 - m) := by
  have hpos := Nat.two_pow_pos k
  have hmod : ((2 ^ k + m) ^^^ (2 ^ k - 1)) % 2 ^ k = 2 ^ k - 1 - m := by
    rw [Nat.xor_mod_two_pow, Nat.add_mod_left, Nat.mod_eq_of_lt h, Nat.mod_eq_of_lt (by omega),
      xor_two_pow_sub_one h]
  have hdiv : ((2 ^ k + m) ^^^ (2 ^ k - 1)) / 2 ^ k = 1 := by
    rw [Nat.xor_div_two_pow, Nat.add_div_left _ hpos, Nat.div_eq_of_lt h,
      Nat.div_eq_of_lt (by omega)]
    rfl
  rw [← Nat.div_add_mod ((2 ^ k + m) ^^^ (2 ^ k - 1)) (2 ^ k), hmod, hdiv, Nat.mul_one]

theorem ushiftRight_of_msb_eq_false {v : BitVec 64} (h : v.msb = false) : v >>> 63 = 0#64 := by
  have hlt : v.toNat < 2 ^ 63 := by simpa [BitVec.msb_eq_decide] using h
  apply BitVec.eq_of_toNat_eq
  rw [BitVec.toNat_ushiftRight, Nat.shiftRight_eq_div_pow, Nat.div_eq_of_lt hlt]
  rfl

end inverted

namespace Binary64

variable {x y : Binary64}

/-! ### Places in the order -/

theorem isNegative_iff_rank_neg : x.isNegative = true ↔ x.rank < 0 := by
  unfold rank
  cases x.isNegative with
  | true =>
      simp only [if_true, true_iff]
      omega
  | false => simp

theorem rank_inj : x.rank = y.rank ↔ x = y := by
  refine ⟨fun h => ?_, congrArg rank⟩
  have hsign : x.isNegative = y.isNegative := by
    rw [Bool.eq_iff_iff, isNegative_iff_rank_neg, isNegative_iff_rank_neg, h]
  have hmagnitude : x.magnitude = y.magnitude := by
    unfold rank at h
    rw [hsign] at h
    split at h <;> omega
  rw [← ofMagnitude_magnitude x, hsign, hmagnitude, ofMagnitude_magnitude]

/-! ### Signed keys -/

/-- The pattern as a signed number, all bits but the sign inverted if that is set. Shifting copies
the sign into every place, and once more to the right out of its own. -/
def orderKey (x : Binary64) : Int64 :=
  let s := x.bits.toInt64
  s ^^^ ((s >>> 63).toUInt64 >>> 1).toInt64

theorem toBitVec_orderKey (x : Binary64) :
    x.orderKey.toBitVec =
      if x.isNegative then x.bits.toBitVec ^^^ BitVec.ofNat 64 (2 ^ 63 - 1)
      else x.bits.toBitVec := by
  have hkey : x.orderKey.toBitVec =
      x.bits.toBitVec ^^^ (x.bits.toBitVec.sshiftRight 63 >>> 1) := rfl
  have hmsb : x.bits.toBitVec.msb = x.isNegative := by
    rw [BitVec.msb_eq_decide]
    rfl
  rw [hkey]
  cases h : x.isNegative with
  | true =>
      have hnot : (~~~x.bits.toBitVec).msb = false := by
        rw [BitVec.msb_not, hmsb, h]
        rfl
      rw [BitVec.sshiftRight_eq_of_msb_true (hmsb.trans h), ushiftRight_of_msb_eq_false hnot,
        if_pos rfl]
      rfl
  | false =>
      rw [BitVec.sshiftRight_eq_of_msb_false (hmsb.trans h),
        ushiftRight_of_msb_eq_false (hmsb.trans h)]
      exact BitVec.xor_zero

theorem toInt_orderKey (x : Binary64) : x.orderKey.toInt = x.rank := by
  have hunit : signUnit = 2 ^ 63 := rfl
  have hbits : x.bits.toBitVec.toNat = x.bits.toNat := rfl
  have hlt : x.bits.toNat < 2 ^ 64 := x.bits.toNat_lt
  unfold Int64.toInt rank magnitude
  rw [toBitVec_orderKey, BitVec.toInt_eq_toNat_cond]
  cases h : x.isNegative with
  | true =>
      have hsign : signUnit ≤ x.bits.toNat := of_decide_eq_true h
      obtain ⟨m, hm⟩ := Nat.exists_eq_add_of_le hsign
      have hmask : (BitVec.ofNat 64 (2 ^ 63 - 1)).toNat = 2 ^ 63 - 1 := rfl
      rw [if_pos rfl, if_pos rfl, BitVec.toNat_xor, hmask, hbits, hm, hunit,
        add_two_pow_xor (m := m) (k := 63) (by omega), if_neg (by omega), Nat.add_mod_left,
        Nat.mod_eq_of_lt (by omega)]
      omega
  | false =>
      have hsign : ¬ signUnit ≤ x.bits.toNat := of_decide_eq_false h
      rw [if_neg Bool.false_ne_true, if_neg Bool.false_ne_true, hbits, if_pos (by omega),
        Nat.mod_eq_of_lt (by omega)]

theorem orderKey_inj : x.orderKey = y.orderKey ↔ x = y := by
  rw [← Int64.toInt_inj, toInt_orderKey, toInt_orderKey, rank_inj]

theorem compare_eq_compare_orderKey (x y : Binary64) :
    x.compare y = Ord.compare x.orderKey y.orderKey := by
  rw [Binary64.compare, ← toInt_orderKey, ← toInt_orderKey]
  simp only [Ord.compare, compareOfLessAndEq, Int64.lt_iff_toInt_lt, Int64.toInt_inj]

end Binary64

end Equilibrium
