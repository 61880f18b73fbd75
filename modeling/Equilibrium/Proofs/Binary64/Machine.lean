import Mathlib
import Equilibrium.Binary64
import Equilibrium.Quantity

/-!
# The arithmetic of the machine

An operation of the machine unpacks its operands, computes and packs the result. Packing may round,
but it keeps infinities and not-a-numbers and makes no new not-a-number
(`repacked_eq_notANumber_iff`), so what the operations do to these can be read off the unpacked
numbers. Whether a number of 64 bits is finite does not depend on who looks at it
(`Binary64.isFinite_toFloat`). -/

open Float.Model (UnpackedFloat)
open Float.Model.Format (binary64)
open Float.Model.UnpackedFloat (infinity notANumber)

namespace Equilibrium

namespace Machine

/-! ### Packing -/

/-- What is left of an unpacked number once it is packed. -/
def repacked (u : UnpackedFloat) : UnpackedFloat :=
  UnpackedFloat.unpack binary64 (u.pack binary64)

theorem unpack_eq_notANumber_iff (b : BitVec binary64.numBits) :
    UnpackedFloat.unpack binary64 b = notANumber ↔ UnpackedFloat.isNaNBits b = true := by
  rw [UnpackedFloat.isNaNBits, decide_eq_true_iff, UnpackedFloat.unpack]
  dsimp only
  split
  next hexponent =>
    split
    next hmantissa => exact iff_of_false nofun fun h => h.2 hmantissa
    next hmantissa => exact iff_of_true rfl ⟨hexponent, hmantissa⟩
  next hexponent =>
    refine iff_of_false ?_ fun h => hexponent h.1
    split
    · split <;> nofun
    · nofun

/-- A number of the machine is packed already. -/
theorem repacked_unpack (b : BitVec binary64.numBits) :
    repacked (UnpackedFloat.unpack binary64 b) = UnpackedFloat.unpack binary64 b := by
  rw [repacked, UnpackedFloat.pack_unpack]
  split
  next h => rw [UnpackedFloat.unpack_packedNaN, (unpack_eq_notANumber_iff b).mpr h]
  next => rfl

theorem repacked_notANumber : repacked notANumber = notANumber :=
  UnpackedFloat.unpack_packedNaN

theorem unpack_packedInfinity (s : UnpackedFloat.Sign) :
    UnpackedFloat.unpack binary64 (UnpackedFloat.packedInfinity binary64 s) = infinity s := by
  simp [UnpackedFloat.unpack, UnpackedFloat.packedInfinity]

theorem repacked_infinity (s : UnpackedFloat.Sign) : repacked (infinity s) = infinity s :=
  unpack_packedInfinity s

/-- An exponent that is not all ones is that of a number. -/
theorem unpack_packComponents_ne {s : UnpackedFloat.Sign} {e : BitVec 11} {m : BitVec 52}
    (h : e ≠ -1#11) :
    UnpackedFloat.unpack binary64 (UnpackedFloat.packComponents binary64 s e m) ≠ notANumber := by
  rw [ne_eq, unpack_eq_notANumber_iff, UnpackedFloat.isNaNBits, decide_eq_true_iff,
    UnpackedFloat.unpackExponent_packComponents]
  exact fun hNaN => h hNaN.1

/-- Packing makes no not-a-number of a number. -/
theorem repacked_eq_notANumber_iff {u : UnpackedFloat} :
    repacked u = notANumber ↔ u = notANumber := by
  cases u with
  | notANumber => exact iff_of_true repacked_notANumber rfl
  | infinity s => rw [repacked_infinity]
  | zero s => exact iff_of_false (unpack_packComponents_ne (by decide)) nofun
  | finite s m e hm =>
      refine iff_of_false ?_ nofun
      rw [repacked, UnpackedFloat.pack]
      dsimp only
      split
      · rw [unpack_packedInfinity]
        nofun
      next hlt =>
        split
        · refine unpack_packComponents_ne fun h => ?_
          have hexponent := congrArg BitVec.toNat h
          have hones : (-1#11).toNat = 2047 := rfl
          rw [BitVec.toNat_ofNat, Nat.mod_eq_of_lt (by omega)] at hexponent
          omega
        · exact unpack_packComponents_ne (by decide)

/-! ### Operations -/

variable {a b : Float}

theorem unpack_sub (a b : Float) : (a - b).toModel.unpack =
    repacked (UnpackedFloat.sub binary64 a.toModel.unpack b.toModel.unpack) := rfl

theorem unpack_mul (a b : Float) : (a * b).toModel.unpack =
    repacked (UnpackedFloat.mul binary64 a.toModel.unpack b.toModel.unpack) := rfl

theorem unpack_abs (a : Float) : a.abs.toModel.unpack = repacked a.toModel.unpack.abs := rfl

theorem le_iff : a ≤ b ↔ a.toModel.unpack.le b.toModel.unpack = true := decide_eq_true_iff

theorem isNaN_iff : a.isNaN = true ↔ a.toModel.unpack = notANumber := UnpackedFloat.isNaN_iff

theorem isInf_iff : a.isInf = true ↔ ∃ s, a.toModel.unpack = infinity s := by
  rw [Float.isInf, Float.Model.isInf]
  cases a.toModel.unpack <;> simp [UnpackedFloat.isInf]

theorem unpack_inj : a.toModel.unpack = b.toModel.unpack ↔ a = b := by
  refine ⟨fun h => ?_, fun h => congrArg (·.toModel.unpack) h⟩
  have hbits := (UnpackedFloat.unpack_inj_of_valid a.toModel.valid b.toModel.valid).mp h
  obtain ⟨⟨⟨x⟩, hx⟩⟩ := a
  obtain ⟨⟨⟨y⟩, hy⟩⟩ := b
  cases hbits
  rfl

theorem not_le_of_isNaN (h : a.toModel.unpack = notANumber) : ¬ a ≤ b := by
  rw [le_iff, h]
  exact Bool.false_ne_true

/-- Only positive infinity is as large as positive infinity. -/
theorem infinity_le_iff (h : a.toModel.unpack = infinity .positive) :
    a ≤ b ↔ b.toModel.unpack = infinity .positive := by
  rw [le_iff, h]
  cases b.toModel.unpack with
  | infinity s => cases s <;> simp [UnpackedFloat.le, UnpackedFloat.compare] <;> decide
  | _ => simp [UnpackedFloat.le, UnpackedFloat.compare]

theorem unpack_sub_of_isNaN (h : a.toModel.unpack = notANumber ∨ b.toModel.unpack = notANumber) :
    (a - b).toModel.unpack = notANumber := by
  rw [unpack_sub, repacked_eq_notANumber_iff]
  obtain h | h := h
  · rw [h]
    rfl
  · rw [h]
    cases a.toModel.unpack <;> rfl

theorem unpack_abs_eq_notANumber_iff :
    a.abs.toModel.unpack = notANumber ↔ a.toModel.unpack = notANumber := by
  rw [unpack_abs, repacked_eq_notANumber_iff]
  cases a.toModel.unpack <;> simp [UnpackedFloat.abs]

theorem zero_lt_iff : 0.0 < a ↔ a.toModel.unpack = infinity .positive ∨
    ∃ m e hm, a.toModel.unpack = .finite .positive m e hm := by
  have hlt : 0.0 < a ↔ (0.0 : Float).toModel.unpack.lt a.toModel.unpack = true :=
    decide_eq_true_iff
  have hzero : (0.0 : Float).toModel.unpack = .zero .positive := by rfl
  rw [hlt, hzero]
  cases a.toModel.unpack with
  | infinity s => cases s <;> simp [UnpackedFloat.lt, UnpackedFloat.compare]
  | finite s m e hm => cases s <;> simp [UnpackedFloat.lt, UnpackedFloat.compare, hm]
  | _ => simp [UnpackedFloat.lt, UnpackedFloat.compare]

/-- A finite number times infinity is infinity if the number is positive. -/
theorem unpack_mul_infinity (hfinite : a.isFinite = true)
    (h : b.toModel.unpack = infinity .positive) :
    (a * b).toModel.unpack = infinity .positive ↔ 0.0 < a := by
  rw [zero_lt_iff, unpack_mul, h]
  have hfinite : a.toModel.unpack.isFinite = true := hfinite
  cases hu : a.toModel.unpack with
  | notANumber | infinity s =>
      rw [hu] at hfinite
      cases hfinite
  | zero s =>
      have hmul : UnpackedFloat.mul binary64 (.zero s) (infinity .positive) = notANumber := rfl
      simp [hmul, repacked_notANumber]
  | finite s m e hm =>
      have hmul : UnpackedFloat.mul binary64 (.finite s m e hm) (infinity .positive) =
        infinity (s * .positive) := rfl
      rw [hmul, repacked_infinity]
      cases s with
      | positive => exact iff_of_true rfl (.inr ⟨m, e, hm, rfl⟩)
      | negative => exact iff_of_false nofun nofun

theorem unpack_larger (ha : a.toModel.unpack = infinity .positive)
    (hb : b.toModel.unpack ≠ notANumber) :
    (Quantity.larger a b).toModel.unpack = infinity .positive := by
  have haNaN : ¬ a.isNaN = true := by
    rw [isNaN_iff, ha]
    nofun
  have hbNaN : ¬ b.isNaN = true := fun h => hb (isNaN_iff.mp h)
  have hlarger : Quantity.larger a b = if a ≤ b then b else a := by
    change (if _ then _ else if _ then _ else _) = _
    rw [if_neg haNaN, if_neg hbNaN]
  rw [hlarger]
  split
  next h => exact (infinity_le_iff ha).mp h
  next => exact ha

theorem unpack_ne_infinity (h : a.isFinite = true) (s : UnpackedFloat.Sign) :
    a.toModel.unpack ≠ infinity s := by
  intro hs
  have hfinite : a.toModel.unpack.isFinite = true := h
  rw [hs] at hfinite
  cases hfinite

theorem unpack_abs_infinity {s : UnpackedFloat.Sign} (h : a.toModel.unpack = infinity s) :
    a.abs.toModel.unpack = infinity .positive := by
  rw [unpack_abs, h]
  exact repacked_infinity .positive

/-- An infinity has no distance from itself. -/
theorem unpack_distance_self {s : UnpackedFloat.Sign} (ha : a.toModel.unpack = infinity s)
    (hb : b.toModel.unpack = infinity s) : (a - b).abs.toModel.unpack = notANumber := by
  have hsub : UnpackedFloat.sub binary64 (infinity s) (infinity s) = notANumber := by
    cases s <;> rfl
  rw [unpack_abs_eq_notANumber_iff, unpack_sub, ha, hb, hsub, repacked_notANumber]

/-- An infinity is infinitely far from any other number. -/
theorem unpack_distance_infinity {s : UnpackedFloat.Sign} (ha : a.toModel.unpack = infinity s)
    (hb : b.toModel.unpack ≠ notANumber) (hne : b.toModel.unpack ≠ infinity s) :
    (a - b).abs.toModel.unpack = infinity .positive := by
  have hsub : UnpackedFloat.sub binary64 (infinity s) b.toModel.unpack = infinity s := by
    cases hu : b.toModel.unpack with
    | notANumber => exact absurd hu hb
    | infinity t =>
        rw [hu] at hne
        cases s with
        | positive =>
            cases t with
            | positive => exact absurd rfl hne
            | negative => rfl
        | negative =>
            cases t with
            | positive => rfl
            | negative => exact absurd rfl hne
    | zero | finite => rfl
  refine unpack_abs_infinity (s := s) ?_
  rw [unpack_sub, ha, hsub, repacked_infinity]

/-! ### Finite numbers -/

theorem isFinite_unpack_iff (b : BitVec binary64.numBits) :
    (UnpackedFloat.unpack binary64 b).isFinite = true ↔ UnpackedFloat.unpackExponent b ≠ -1#11 := by
  rw [UnpackedFloat.unpack]
  dsimp only
  split
  next hones =>
    refine iff_of_false ?_ (absurd hones)
    split <;> exact Bool.false_ne_true
  next hones =>
    refine iff_of_true ?_ hones
    split
    · split <;> rfl
    · rfl

theorem toNat_unpackExponent (b : BitVec binary64.numBits) :
    (UnpackedFloat.unpackExponent b).toNat = b.toNat / 2 ^ 52 % 2 ^ 11 := by
  rw [UnpackedFloat.unpackExponent_def, BitVec.extractLsb'_toNat, Nat.shiftRight_eq_div_pow]

end Machine

/-- The machine takes the same numbers for finite. -/
theorem Binary64.isFinite_toFloat (x : Binary64) : x.toFloat.isFinite = x.isFinite := by
  have hfloat : x.toFloat.isFinite = (UnpackedFloat.unpack binary64 x.bits.toBitVec).isFinite :=
    congrArg UnpackedFloat.isFinite (Machine.repacked_unpack x.bits.toBitVec)
  have hones : (-1#11).toNat = 2047 := rfl
  rw [hfloat, Bool.eq_iff_iff, Machine.isFinite_unpack_iff, ne_eq, ← BitVec.toNat_inj,
    Machine.toNat_unpackExponent, hones, UInt64.toNat_toBitVec, isFinite, decide_eq_true_iff,
    magnitude, infinityMagnitude, signUnit, exponentUnit]
  omega

end Equilibrium
