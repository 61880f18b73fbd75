import Equilibrium.Decimal

/-!
# Numerals

The written forms of numbers. A `NumeralStyle` holds the decisions a format takes: up to which
exponent a number is written positionally, whether a whole number shows a fraction, how an
exponent is signed. `Binary64.numeral` writes a finite number in a style; `Decimal.ofNumeral?`
reads the common form, digits with an optional point and an optional exponent.
-/

namespace Equilibrium

/-- How a format writes numbers. -/
structure NumeralStyle where
  /-- The least and the greatest exponent (of `d.ddd` times a power of ten) written positionally;
  none when every number is. -/
  positional : Option (Int × Int)
  /-- Whether a whole number ends in `.0`. -/
  wholeMark : Bool
  /-- Whether an exponent that is not negative has a plus sign. -/
  plusSign : Bool
  /-- Which of two equally near shortest decimals is written. -/
  tie : Tie

namespace NumeralStyle

/-- The style of reports: positional throughout, whole numbers without a fraction. -/
def plain : NumeralStyle := ⟨none, false, false, .away⟩

/-- The style of traces: whole numbers end in `.0`, positional from 0.0001 to below 10^16. -/
def trace : NumeralStyle := ⟨some (-4, 15), true, false, .away⟩

/-- The style of data files: whole numbers end in `.0`, positional from 0.00001 to below 10^16.
The formats differ in the plus sign. -/
def data (plusSign : Bool) : NumeralStyle := ⟨some (-5, 15), true, plusSign, .even⟩

/-- Whether a number of this exponent is written positionally. -/
def isPositional (s : NumeralStyle) (e : Int) : Bool :=
  match s.positional with
  | none => true
  | some (least, greatest) => least ≤ e && e ≤ greatest

end NumeralStyle

/-- So many zeros. -/
def zeros (n : Nat) : List Char := List.replicate n '0'

namespace Decimal

/-- The exponent of the leading digit. -/
def leadingExponent (d : Decimal) : Int := d.wholeDigits - 1

/-- Digits with the point where the exponent puts it. -/
def writePositional (wholeMark : Bool) (d : Decimal) : List Char :=
  let digits := decimalDigits d.coefficient
  match d.exponent with
  | .ofNat e => digits ++ zeros e ++ if wholeMark then ['.', '0'] else []
  | .negSucc e =>
    let padded := zeros (e + 2 - digits.length) ++ digits
    padded.take (padded.length - (e + 1)) ++ '.' :: padded.drop (padded.length - (e + 1))

/-- One digit, the others behind a point, and the exponent. -/
def writeScientific (plusSign : Bool) (d : Decimal) : List Char :=
  let digits := decimalDigits d.coefficient
  let fraction := if digits.length ≤ 1 then [] else '.' :: digits.drop 1
  let sign := if d.leadingExponent < 0 then ['-'] else if plusSign then ['+'] else []
  digits.take 1 ++ fraction ++ 'e' :: sign ++ decimalDigits d.leadingExponent.natAbs

/-- A decimal in a style. -/
def write (s : NumeralStyle) (d : Decimal) : List Char :=
  if d.coefficient = 0 || s.isPositional d.leadingExponent then d.writePositional s.wholeMark
  else d.writeScientific s.plusSign

/-- The value of a list of decimal digits. -/
def digitsValue (digits : List Char) : Nat :=
  digits.foldl (fun n c => 10 * n + (c.toNat - '0'.toNat)) 0

/-- The decimal with these digits before and behind the point and this exponent. -/
def ofParts (whole fraction : List Char) (exponent : Int) : Decimal :=
  normal ⟨digitsValue (whole ++ fraction), exponent - fraction.length⟩

/-- The fraction of a numeral: the digits behind the point, if there is a point, and the rest. -/
def spanFraction : List Char → List Char × List Char
  | '.' :: cs => cs.span Char.isDigit
  | cs => ([], cs)

/-- The exponent of a numeral, which takes all that is left; no exponent is zero. -/
def exponentOf? : List Char → Option Int
  | [] => some 0
  | e :: cs =>
    if e ≠ 'e' ∧ e ≠ 'E' then none
    else
      let (negative, digits) : Bool × List Char :=
        match cs with
        | '-' :: ds => (true, ds)
        | '+' :: ds => (false, ds)
        | ds => (false, ds)
      if digits ≠ [] ∧ digits.all Char.isDigit then
        some (if negative then -(digitsValue digits : Int) else digitsValue digits)
      else none

/-- The decimal of a numeral without a sign: digits with at most one point somewhere among or
beside them, then perhaps an exponent. -/
def ofNumeral? (cs : List Char) : Option Decimal :=
  let (whole, afterWhole) := cs.span Char.isDigit
  let (fraction, afterFraction) := spanFraction afterWhole
  if whole = [] ∧ fraction = [] then none
  else (exponentOf? afterFraction).map (ofParts whole fraction)

end Decimal

namespace Binary64

/-- The text of a finite number in a style. -/
def numeral (s : NumeralStyle) (x : Binary64) : String :=
  String.ofList ((if x.isNegative then ['-'] else []) ++ (x.shortest s.tie).write s)

/-- The text of any number in a style; a not-a-number has no sign. -/
def text (s : NumeralStyle) (x : Binary64) : String :=
  if x.isFinite then x.numeral s
  else if x.isNaN then "NaN"
  else if x.isNegative then "-inf"
  else "inf"

/-- The number nearest to a numeral with an optional sign; none when it is out of range. -/
def ofNumeral? (cs : List Char) : Option Binary64 :=
  let (negative, unsigned) : Bool × List Char :=
    match cs with
    | '-' :: ds => (true, ds)
    | '+' :: ds => (false, ds)
    | ds => (false, ds)
  (Decimal.ofNumeral? unsigned).bind (Decimal.toBinary64? negative)

end Binary64

end Equilibrium
