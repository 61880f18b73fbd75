import Equilibrium.Document

/-!
# Plain scalars

A plain scalar of a YAML text has no type of its own; its characters decide what it stands for.
`Yaml.resolve` says which: null, a truth value, an integer, a number, or else the text itself.
Integers may be signed and may be given in base sixteen, eight or two; digits that begin with a
needless zero are a text.
-/

namespace Equilibrium.Yaml

/-- The texts that stand for null. -/
def nullWords : List String := ["", "~", "null", "Null", "NULL"]

/-- The texts that stand for true and for false. -/
def trueWords : List String := ["true", "True", "TRUE"]
def falseWords : List String := ["false", "False", "FALSE"]

/-- The value of a digit in a base of at most sixteen. -/
def digitIn? (base : Nat) (c : Char) : Option Nat :=
  let value :=
    if '0' ≤ c ∧ c ≤ '9' then c.toNat - '0'.toNat
    else if 'a' ≤ c ∧ c ≤ 'f' then c.toNat - 'a'.toNat + 10
    else if 'A' ≤ c ∧ c ≤ 'F' then c.toNat - 'A'.toNat + 10
    else base
  if value < base then some value else none

/-- The natural number that digits in a base stand for; there has to be one. -/
def naturalIn? (base : Nat) : List Char → Option Nat
  | [] => none
  | cs => cs.foldlM (fun n c => (digitIn? base c).map (base * n + ·)) 0

/-- A text without its sign, and whether the sign is a minus. -/
def splitSign : List Char → Bool × List Char
  | '-' :: cs => (true, cs)
  | '+' :: cs => (false, cs)
  | cs => (false, cs)

/-- Digits of which the first is a needless zero, with or without a sign. -/
def isZeroPadded (cs : List Char) : Bool :=
  match (splitSign cs).2 with
  | '0' :: c :: more => (c :: more).all Char.isDigit
  | _ => false

/-- The integer of a text, of any size. -/
def integer? (cs : List Char) : Option Int :=
  let (negative, size) := splitSign cs
  let natural? : Option Nat :=
    match size with
    | '0' :: 'x' :: digits => naturalIn? 16 digits
    | '0' :: 'o' :: digits => naturalIn? 8 digits
    | '0' :: 'b' :: digits => naturalIn? 2 digits
    | digits => if isZeroPadded cs then none else naturalIn? 10 digits
  natural?.map fun n => if negative then -(n : Int) else n

/-- The number of a text: an infinity, not a number, or a numeral in range. -/
def real? (cs : List Char) : Option Binary64 :=
  let text := String.ofList cs
  if text ∈ [".inf", ".Inf", ".INF", "+.inf", "+.Inf", "+.INF"] then some .infinity
  else if text ∈ ["-.inf", "-.Inf", "-.INF"] then some .negativeInfinity
  else if text ∈ [".nan", ".NaN", ".NAN"] then some .quietNaN
  else Binary64.ofNumeral? cs

/-- Whether an integer fits into 128 bits, with or without a sign. -/
def fitsIn128Bits : Int → Bool
  | .ofNat n => n < Nat.pow 2 128
  | .negSucc k => k < Nat.pow 2 127

/-- What a plain scalar stands for. Integers beyond 64 bits that have at most 128 stand for
nothing; larger ones are numbers. -/
def resolve (s : String) : Option Document :=
  let cs := s.toList
  let otherwise : Document :=
    match if isZeroPadded cs then none else real? cs with
    | some x => .number (.real x)
    | none => .text s
  if s ∈ nullWords then some .null
  else if s ∈ trueWords then some (.bool true)
  else if s ∈ falseWords then some (.bool false)
  else
    match integer? cs with
    | none => some otherwise
    | some z =>
      match Number.ofInt? z with
      | some n => some (.number n)
      | none => if fitsIn128Bits z then none else some otherwise

/-- Whether a text stands for itself as a plain scalar. -/
def isSelf (s : String) : Bool :=
  match resolve s with
  | some (.text _) => !isZeroPadded s.toList
  | _ => false

end Equilibrium.Yaml
