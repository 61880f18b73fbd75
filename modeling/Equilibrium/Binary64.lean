/-!
# Numbers of 64 bits

A binary floating-point number is its 64 bits: a sign, eleven bits of exponent and 52 of
significand. Two numbers are equal when their bits are, so a not-a-number equals itself and the
two zeros differ; `Binary64.compare` is the total order that goes with it.

`Binary64.ofRatio?` gives the number nearest to an exact quotient, a tie going to the even
significand.
-/

namespace Equilibrium

/-- `m * base ^ e` as a quotient of naturals. -/
def timesPower (base m : Nat) : Int → Nat × Nat
  | .ofNat e => (m * Nat.pow base e, 1)
  | .negSucc e => (m, Nat.pow base (e + 1))

/-- `num / (den * base ^ e)` as a quotient of naturals. -/
def overPower (base num den : Nat) : Int → Nat × Nat
  | .ofNat e => (num, den * Nat.pow base e)
  | .negSucc e => (num * Nat.pow base (e + 1), den)

/-- A quotient rounded to the nearest natural, a tie to the even one. -/
def roundQuotient (num den : Nat) : Nat :=
  let q := num / den
  let twice := 2 * (num % den)
  if den < twice ∨ (twice = den ∧ q % 2 = 1) then q + 1 else q

/-- A binary floating-point number, given by its bits. -/
structure Binary64 where
  bits : UInt64
deriving DecidableEq, Hashable, Inhabited

namespace Binary64

/-- The number of the machine arithmetic with these bits. -/
def toFloat (x : Binary64) : Float := Float.ofBits x.bits

/-- The bits of a number of the machine arithmetic. -/
def ofFloat (f : Float) : Binary64 := ⟨f.toBits⟩

/-- The value of the sign bit, 2^63. -/
def signUnit : Nat := 0x8000000000000000

/-- The value of the lowest bit of the exponent, 2^52: the least significand of 53 bits. -/
def exponentUnit : Nat := 0x10000000000000

/-- The pattern without its sign. -/
def magnitude (x : Binary64) : Nat := x.bits.toNat % signUnit

/-- Whether the sign bit is set. -/
def isNegative (x : Binary64) : Bool := signUnit ≤ x.bits.toNat

/-- The magnitude of the infinities; every finite number is below it, every not-a-number above. -/
def infinityMagnitude : Nat := 0x7FF * exponentUnit

/-- Neither infinite nor a not-a-number. -/
def isFinite (x : Binary64) : Bool := x.magnitude < infinityMagnitude

/-- A not-a-number, of either sign and with any payload. -/
def isNaN (x : Binary64) : Bool := infinityMagnitude < x.magnitude

/-- One of the two zeros. -/
def isZero (x : Binary64) : Bool := x.magnitude = 0

/-- The number with a given sign and magnitude. -/
def ofMagnitude (negative : Bool) (magnitude : Nat) : Binary64 :=
  ⟨UInt64.ofNat (if negative then magnitude + signUnit else magnitude)⟩

def zero : Binary64 := ⟨0⟩
def infinity : Binary64 := ofMagnitude false infinityMagnitude
def negativeInfinity : Binary64 := ofMagnitude true infinityMagnitude

/-- The not-a-number without sign and payload. -/
def quietNaN : Binary64 := ⟨0x7FF8000000000000⟩

/-- The place in the total order: negative patterns count downwards from -1. -/
def rank (x : Binary64) : Int :=
  if x.isNegative then -(x.magnitude : Int) - 1 else x.magnitude

/-- The total order: negative not-a-numbers, the reals with -0 before 0, positive
not-a-numbers; among not-a-numbers by payload. -/
protected def compare (x y : Binary64) : Ordering := compareOfLessAndEq x.rank y.rank

instance : Ord Binary64 := ⟨Binary64.compare⟩

/-- The exponent `q` of a finite number `m * 2 ^ q`. -/
def scale (x : Binary64) : Int :=
  if x.magnitude < exponentUnit then -1074 else (x.magnitude / exponentUnit : Nat) - 1075

/-- The significand `m` of a finite number `m * 2 ^ q`. -/
def significand (x : Binary64) : Nat :=
  if x.magnitude < exponentUnit then x.magnitude
  else x.magnitude % exponentUnit + exponentUnit

/-- The size of a finite number as a quotient of naturals. -/
def ratio (x : Binary64) : Nat × Nat := timesPower 2 x.significand x.scale

/-- Equality of values: the two zeros are the same, a not-a-number is nothing's equal. -/
def sameValue (x y : Binary64) : Bool :=
  !x.isNaN && !y.isNaN && (x == y || (x.isZero && y.isZero))

/-- The exponent at which a quotient has a significand of 53 bits, or the least exponent there
is. -/
def scaleOf (num den : Nat) : Int :=
  let low : Int := (num.log2 : Int) - den.log2 - 53
  let (n, d) := overPower 2 num den low
  max (if n / d < 2 * exponentUnit then low else low + 1) (-1074)

/-- The finite number nearest to `num / den` with the given sign; none when the quotient lies
beyond the finite numbers. The pattern of `m * 2 ^ q` is `(q + 1074) * 2 ^ 52 + m`, also where
rounding carries `m` to the next power of two. -/
def ofRatio? (negative : Bool) (num den : Nat) : Option Binary64 :=
  let q := scaleOf num den
  let (n, d) := overPower 2 num den q
  let magnitude := (q + 1074).toNat * exponentUnit + roundQuotient n d
  if magnitude < infinityMagnitude then some (ofMagnitude negative magnitude) else none

/-- The number nearest to an integer. -/
def ofInt (z : Int) : Binary64 :=
  if z = 0 then zero
  else (ofRatio? (z < 0) z.natAbs 1).getD (if z < 0 then negativeInfinity else infinity)

end Binary64

end Equilibrium
