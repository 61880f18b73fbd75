import Equilibrium.Binary64

/-!
# Decimals

A decimal is `coefficient * 10 ^ exponent`, written without trailing zeros in the coefficient.

* `Decimal.toBinary64?` rounds a decimal to the nearest 64-bit number.
* `Binary64.shortest` is the decimal with the fewest digits that rounds back to a number, and of
  those the one nearest to it. It reads back by construction: every candidate is tried.
-/

namespace Equilibrium

/-- The number `coefficient * 10 ^ exponent`. -/
structure Decimal where
  coefficient : Nat
  exponent : Int
deriving DecidableEq, Inhabited

/-- Which of two equally near decimals of the same length is taken. -/
inductive Tie
  /-- The one further from zero. -/
  | away
  /-- The one whose last digit is even. -/
  | even
deriving DecidableEq

/-- The decimal digits of a natural number, most significant first. -/
def decimalDigits (n : Nat) : List Char := Nat.toDigits 10 n

namespace Decimal

/-- Move trailing zeros of the coefficient into the exponent, at most `fuel` of them. -/
def strip : Nat → Decimal → Decimal
  | 0, d => d
  | fuel + 1, d =>
    if d.coefficient % 10 = 0 then strip fuel ⟨d.coefficient / 10, d.exponent + 1⟩ else d

/-- The decimal of the same value whose coefficient does not end in zero; zero is `0 * 10 ^ 0`. -/
def normal (d : Decimal) : Decimal :=
  if d.coefficient = 0 then ⟨0, 0⟩ else d.strip (decimalDigits d.coefficient).length

/-- The number of digits before the point: the least `k` with `d < 10 ^ k`, unless `d` is zero. -/
def wholeDigits (d : Decimal) : Int := (decimalDigits d.coefficient).length + d.exponent

/-- The value as a quotient of naturals. -/
def ratio (d : Decimal) : Nat × Nat := timesPower 10 d.coefficient d.exponent

/-- The nearest 64-bit number with the given sign; none when it would be infinite. Decimals
below `10 ^ (-400)` are zero and those from `10 ^ 400` on are out of range, whatever their
digits. -/
def toBinary64? (negative : Bool) (d : Decimal) : Option Binary64 :=
  if d.coefficient = 0 ∨ d.wholeDigits < -400 then some (.ofMagnitude negative 0)
  else if 400 < d.wholeDigits then none
  else Binary64.ofRatio? negative d.ratio.1 d.ratio.2

end Decimal

namespace Binary64

/-- The least `k` with `num / den < 10 ^ k`, for a quotient that is no negative power of ten. -/
def decimalScale (num den : Nat) : Int :=
  if den ≤ num then (decimalDigits (num / den)).length
  else 1 - ((decimalDigits (den / num)).length : Int)

/-- Whether a decimal rounds to the size of `x`. -/
def readsBack (x : Binary64) (d : Decimal) : Bool :=
  d.toBinary64? x.isNegative == some x

/-- The two neighbours of `num / den` among the multiples of `10 ^ g`, the preferred one first:
the nearer one, and of two at the same distance the one that `tie` names. -/
def neighbours (tie : Tie) (num den : Nat) (g : Int) : List Decimal :=
  let (n, d) := overPower 10 num den g
  let low := n / d
  let twice := 2 * (n % d)
  let downwards := twice < d ∨ (twice = d ∧ tie = .even ∧ low % 2 = 0)
  (if downwards then [low, low + 1] else [low + 1, low]).map fun c => Decimal.normal ⟨c, g⟩

/-- The value of a finite number as a decimal, with all its digits. -/
def exactDecimal (x : Binary64) : Decimal :=
  match x.scale with
  | .ofNat q => Decimal.normal ⟨x.significand * Nat.pow 2 q, 0⟩
  | .negSucc q => Decimal.normal ⟨x.significand * Nat.pow 5 (q + 1), .negSucc q⟩

/-- The decimal with the fewest digits that rounds to a finite number, up to its sign. -/
def shortest (tie : Tie) (x : Binary64) : Decimal :=
  if x.isZero then ⟨0, 0⟩
  else
    let (num, den) := x.ratio
    let k := decimalScale num den
    let grids := List.range 17
    (grids.findSome? fun (i : Nat) =>
      (neighbours tie num den (k - (i + 1))).find? x.readsBack).getD x.exactDecimal

end Binary64

end Equilibrium
