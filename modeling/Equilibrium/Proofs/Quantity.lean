import Mathlib.Algebra.Order.Ring.Rat
import Mathlib.Algebra.Order.Group.Unbundled.Abs
import Mathlib.Tactic.NormNum
import Equilibrium.Proofs.Binary64.Machine

/-!
# Amounts that are no numbers

`Extended` is exact arithmetic with the two infinities and a not-a-number. Over it `nearlyEqual` is
told for all amounts (`nearlyEqual_extended`): a not-a-number is near nothing, but an infinity is
near every other amount as soon as the relative tolerance is positive, since it lies infinitely far
away and infinitely much is tolerated. It is the same in the arithmetic of the machine
(`nearlyEqual_of_isNaN`, `nearlyEqual_of_isInf_iff`). Whoever calls `nearlyEqual` has to see to it
that amounts are finite, as `isBalanced` does. -/

namespace Equilibrium

/-- An exact number, an infinity, or not a number. -/
inductive Extended
  | finite (q : ℚ)
  | infinite (negative : Bool)
  | nan
deriving DecidableEq

namespace Extended

protected def neg : Extended → Extended
  | finite q => finite (-q)
  | infinite negative => infinite !negative
  | nan => nan

/-- Infinities of both signs have no sum. -/
protected def add : Extended → Extended → Extended
  | finite p, finite q => finite (p + q)
  | finite _, infinite t => infinite t
  | infinite s, finite _ => infinite s
  | infinite s, infinite t => if s = t then infinite s else nan
  | nan, _ => nan
  | _, nan => nan

protected def sub (a b : Extended) : Extended := a.add b.neg

/-- Zero and an infinity have no product. -/
protected def mul : Extended → Extended → Extended
  | finite p, finite q => finite (p * q)
  | finite p, infinite t => if p = 0 then nan else infinite (decide (p < 0) != t)
  | infinite s, finite q => if q = 0 then nan else infinite (s != decide (q < 0))
  | infinite s, infinite t => infinite (s != t)
  | nan, _ => nan
  | _, nan => nan

protected def abs : Extended → Extended
  | finite q => finite |q|
  | infinite _ => infinite false
  | nan => nan

/-- Whether both are numbers and the first is at most the second. -/
protected def le : Extended → Extended → Bool
  | finite p, finite q => p ≤ q
  | finite _, infinite t => !t
  | infinite s, finite _ => s
  | infinite s, infinite t => s || !t
  | nan, _ => false
  | _, nan => false

protected def larger (a b : Extended) : Extended :=
  if a = nan then b else if b = nan then a else if a.le b then b else a

instance : Quantity Extended where
  zero := finite 0
  emptySum := finite 0
  add := Extended.add
  sub := Extended.sub
  mul := Extended.mul
  abs := Extended.abs
  larger := Extended.larger
  le := Extended.le
  isFinite
    | finite _ => true
    | _ => false

variable {a b : Extended}

/-! ### Distances -/

theorem larger_finite (p q : ℚ) : (finite p).larger (finite q) = finite (max p q) := by
  rw [max_def, apply_ite finite]
  simp [Extended.larger, Extended.le]

theorem larger_comm (a b : Extended) : a.larger b = b.larger a := by
  cases a with
  | finite p =>
      cases b with
      | finite q => rw [larger_finite, larger_finite, max_comm]
      | infinite t => cases t <;> rfl
      | nan => rfl
  | infinite s =>
      cases b with
      | finite q => cases s <;> rfl
      | infinite t => cases s <;> cases t <;> rfl
      | nan => rfl
  | nan => cases b <;> rfl

/-- An amount is as far from another as that one is from it. -/
theorem distance_comm (a b : Extended) : (a.sub b).abs = (b.sub a).abs := by
  cases a with
  | finite p =>
      cases b with
      | finite q =>
          refine congrArg finite ?_
          rw [← sub_eq_add_neg, ← sub_eq_add_neg, abs_sub_comm]
      | infinite _ | nan => rfl
  | infinite s =>
      cases b with
      | infinite t => cases s <;> cases t <;> rfl
      | finite _ | nan => rfl
  | nan => cases b <;> rfl

/-- An infinity is infinitely far from all numbers but itself. -/
theorem distance_infinite {s : Bool} :
    ((infinite s).sub b).abs = if b = nan ∨ b = infinite s then nan else infinite false := by
  cases b with
  | infinite t => cases s <;> cases t <;> rfl
  | finite _ | nan => rfl

end Extended

open Extended

/-- Exact tolerances. -/
def Tolerance.exact (abs rel : ℚ) : Tolerance Extended := ⟨finite abs, finite rel⟩

section tolerance

variable {tol : Tolerance Extended} {abs rel : ℚ} {b : Extended}

theorem nearlyEqual_eq (tol : Tolerance Extended) (a b : Extended) :
    nearlyEqual tol a b =
      ((a.sub b).abs.le tol.abs || (a.sub b).abs.le (tol.rel.mul (a.abs.larger b.abs))) := rfl

theorem nearlyEqual_comm (a b : Extended) : nearlyEqual tol a b = nearlyEqual tol b a := by
  rw [nearlyEqual_eq, distance_comm, larger_comm, ← nearlyEqual_eq]

theorem nearlyEqual_finite_iff {p q : ℚ} :
    nearlyEqual (.exact abs rel) (finite p) (finite q) = true ↔
      |p - q| ≤ abs ∨ |p - q| ≤ rel * max |p| |q| := by
  have hdistance : ((finite p).sub (finite q)).abs = finite |p - q| := by
    rw [sub_eq_add_neg]
    rfl
  have hlarger : (finite p).abs.larger (finite q).abs = finite (max |p| |q|) := larger_finite _ _
  rw [nearlyEqual_eq, hdistance, hlarger, Bool.or_eq_true]
  exact or_congr decide_eq_true_iff decide_eq_true_iff

theorem nearlyEqual_nan : nearlyEqual tol nan b = false := rfl

/-- An infinity is near another amount if anything relative is tolerated. -/
theorem nearlyEqual_infinite_iff {s : Bool} :
    nearlyEqual (.exact abs rel) (infinite s) b = true ↔ 0 < rel ∧ b ≠ nan ∧ b ≠ infinite s := by
  rw [nearlyEqual_eq, distance_infinite]
  split
  next h =>
    refine iff_of_false Bool.false_ne_true fun hother => ?_
    exact h.elim hother.2.1 hother.2.2
  next h =>
    have hother : b ≠ nan ∧ b ≠ infinite s := not_or.mp h
    have hlarger : (infinite s).abs.larger b.abs = infinite false := by
      cases b with
      | finite _ | infinite _ => rfl
      | nan => exact absurd rfl hother.1
    have hbound : (Tolerance.exact abs rel).rel.mul (infinite false) =
        if rel = 0 then nan else infinite (decide (rel < 0)) := by
      simp [Tolerance.exact, Extended.mul]
    rw [hlarger, hbound, and_iff_left hother]
    obtain hneg | rfl | hpos := lt_trichotomy rel 0
    · simp [Tolerance.exact, Extended.le, hneg, hneg.ne, hneg.le]
    · simp [Tolerance.exact, Extended.le]
    · simp [Tolerance.exact, Extended.le, hpos, hpos.ne', hpos.le]

end tolerance

/-! ### The arithmetic of the machine -/

section machine

open Float.Model.UnpackedFloat (infinity notANumber)
open Machine

variable {tol : Tolerance Float} {a b : Float}

theorem nearlyEqual_iff : nearlyEqual tol a b = true ↔
    (a - b).abs ≤ tol.abs ∨ (a - b).abs ≤ tol.rel * Quantity.larger a.abs b.abs := by
  rw [nearlyEqual, Bool.or_eq_true]
  exact or_congr decide_eq_true_iff decide_eq_true_iff

/-- A not-a-number is near nothing. -/
theorem nearlyEqual_of_isNaN (h : a.isNaN = true ∨ b.isNaN = true) :
    nearlyEqual tol a b = false := by
  rw [isNaN_iff, isNaN_iff] at h
  have hdistance : (a - b).abs.toModel.unpack = notANumber :=
    unpack_abs_eq_notANumber_iff.mpr (unpack_sub_of_isNaN h)
  rw [Bool.eq_false_iff, ne_eq, nearlyEqual_iff, not_or]
  exact ⟨not_le_of_isNaN hdistance, not_le_of_isNaN hdistance⟩

/-- An infinity is near every other number if anything relative is tolerated. -/
theorem nearlyEqual_of_isInf_iff (habs : tol.abs.isFinite = true) (hrel : tol.rel.isFinite = true)
    (ha : a.isInf = true) :
    nearlyEqual tol a b = true ↔ 0.0 < tol.rel ∧ b.isNaN = false ∧ a ≠ b := by
  obtain ⟨s, hs⟩ := isInf_iff.mp ha
  by_cases hNaN : b.toModel.unpack = notANumber
  · have hb : b.isNaN = true := isNaN_iff.mpr hNaN
    refine iff_of_false ?_ fun h => Bool.false_ne_true (h.2.1.symm.trans hb)
    rw [nearlyEqual_of_isNaN (.inr hb)]
    exact Bool.false_ne_true
  by_cases hself : b.toModel.unpack = infinity s
  · have heq : a = b := unpack_inj.mp (hs.trans hself.symm)
    have hdistance := unpack_distance_self hs hself
    rw [nearlyEqual_iff]
    refine iff_of_false ?_ fun h => h.2.2 heq
    exact not_or.mpr ⟨not_le_of_isNaN hdistance, not_le_of_isNaN hdistance⟩
  have hdistance := unpack_distance_infinity hs hNaN hself
  have hb : b.isNaN = false := by
    rw [Bool.eq_false_iff, ne_eq, isNaN_iff]
    exact hNaN
  have hne : a ≠ b := by
    rintro rfl
    exact hself hs
  have hlarger : (Quantity.larger a.abs b.abs).toModel.unpack = infinity .positive :=
    unpack_larger (unpack_abs_infinity hs) (mt unpack_abs_eq_notANumber_iff.mp hNaN)
  rw [nearlyEqual_iff, infinity_le_iff hdistance, infinity_le_iff hdistance,
    unpack_mul_infinity hrel hlarger, or_iff_right (unpack_ne_infinity habs .positive),
    and_iff_left ⟨hb, hne⟩]

end machine

/-- **Near amounts, infinities and not-a-numbers among them.** Being near is symmetric; of two
numbers it is what its definition says; a not-a-number is near nothing; and an infinity is near
everything but itself and a not-a-number if the relative tolerance is positive, and near nothing if
it is not. -/
theorem nearlyEqual_extended (abs rel : ℚ) :
    (∀ a b, nearlyEqual (.exact abs rel) a b = nearlyEqual (.exact abs rel) b a) ∧
    (∀ p q, nearlyEqual (.exact abs rel) (finite p) (finite q) = true ↔
      |p - q| ≤ abs ∨ |p - q| ≤ rel * max |p| |q|) ∧
    (∀ b, nearlyEqual (.exact abs rel) nan b = false) ∧
    ∀ s b, nearlyEqual (.exact abs rel) (infinite s) b = true ↔
      0 < rel ∧ b ≠ nan ∧ b ≠ infinite s :=
  ⟨nearlyEqual_comm, fun _ _ => nearlyEqual_finite_iff, fun _ => nearlyEqual_nan,
    fun _ _ => nearlyEqual_infinite_iff⟩

/-- An infinity passes for the number one, exactly and in the arithmetic of the machine. -/
theorem nearlyEqual_infinite_one :
    nearlyEqual (.exact (1 / 10 ^ 9) (1 / 10 ^ 9)) (infinite false) (finite 1) = true ∧
      nearlyEqual .standard (1.0 / 0.0) 1.0 = true :=
  ⟨nearlyEqual_infinite_iff.mpr ⟨by norm_num, nofun, nofun⟩, rfl⟩

end Equilibrium
