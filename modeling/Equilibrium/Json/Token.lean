import Equilibrium.Document

/-!
# Tokens of a JSON text

A text is cut into brackets, marks, words, numbers and quoted texts; blanks between them are
dropped. At the first place where no token can be read stands the token `bad`, and nothing after
it. A number too large for any value and a text with half a surrogate pair are tokens without a
value: their form is right, so they may stand where nobody looks at them.

A number with a point or an exponent is read as the nearest value. A reader that takes its digits
times or divided by a power of ten, rounding twice, may end in a neighbour of that.
-/

namespace Equilibrium.Json

/-- A token of a JSON text. -/
inductive Token
  | openList
  | closeList
  | openRecord
  | closeRecord
  | comma
  | colon
  | null
  | bool (b : Bool)
  | number (value : Option Number)
  | text (value : Option String)
  | bad

/-- The blanks of a JSON text. -/
def isBlank (c : Char) : Bool := c == ' ' || c == '\t' || c == '\n' || c == '\r'

/-- The value of a digit in base sixteen. -/
def hexValue? (c : Char) : Option Nat :=
  if '0' ≤ c ∧ c ≤ '9' then some (c.toNat - '0'.toNat)
  else if 'a' ≤ c ∧ c ≤ 'f' then some (c.toNat - 'a'.toNat + 10)
  else if 'A' ≤ c ∧ c ≤ 'F' then some (c.toNat - 'A'.toNat + 10)
  else none

/-- The unit of 16 bits that four digits stand for. -/
def hexUnit? (a b c d : Char) : Option Nat := do
  return ((← hexValue? a) * 16 + (← hexValue? b)) * 256 + (← hexValue? c) * 16 + (← hexValue? d)

/-- The character of a one-letter escape. -/
def escaped? : Char → Option Char
  | '"' => some '"'
  | '\\' => some '\\'
  | '/' => some '/'
  | 'b' => some '\x08'
  | 'f' => some '\x0c'
  | 'n' => some '\n'
  | 'r' => some '\r'
  | 't' => some '\t'
  | _ => none

/-- The code points and halves of surrogate pairs of a quoted text, from behind its opening quote
on, and what follows the closing quote. -/
def spanUnits : List Char → Option (List Nat × List Char)
  | '"' :: cs => some ([], cs)
  | '\\' :: 'u' :: a :: b :: c :: d :: cs => do
    let u ← hexUnit? a b c d
    let (us, rest) ← spanUnits cs
    return (u :: us, rest)
  | '\\' :: e :: cs => do
    let c ← escaped? e
    let (us, rest) ← spanUnits cs
    return (c.toNat :: us, rest)
  | c :: cs =>
    if c.toNat < 0x20 ∨ c = '\\' then none
    else do
      let (us, rest) ← spanUnits cs
      return (c.toNat :: us, rest)
  | [] => none

/-- The characters of a list of code points in which two halves of a surrogate pair stand for one
character; none if a half stands alone. -/
def joinUnits : List Nat → Option (List Char)
  | [] => some []
  | u :: us =>
    if u < 0xD800 ∨ 0xE000 ≤ u then (joinUnits us).map (Char.ofNat u :: ·)
    else
      match us with
      | v :: vs =>
        if u < 0xDC00 ∧ 0xDC00 ≤ v ∧ v < 0xE000 then
          (joinUnits vs).map (Char.ofNat (0x10000 + (u - 0xD800) * 1024 + (v - 0xDC00)) :: ·)
        else none
      | [] => none

/-- The whole part of a number: one zero, or digits that do not begin with one. -/
def spanWhole : List Char → Option (List Char × List Char)
  | '0' :: cs => if (cs.head?.map Char.isDigit).getD false then none else some (['0'], cs)
  | cs =>
    let (digits, rest) := cs.span Char.isDigit
    if digits = [] then none else some (digits, rest)

/-- The digits behind a point; a point has to have some. -/
def spanPoint : List Char → Option (List Char × List Char)
  | '.' :: cs =>
    let (digits, rest) := cs.span Char.isDigit
    if digits = [] then none else some (digits, rest)
  | cs => some ([], cs)

/-- The exponent, if there is one; its mark has to be followed by digits. -/
def spanExponent : List Char → Option (Option Int × List Char)
  | [] => some (none, [])
  | e :: cs =>
    if e ≠ 'e' ∧ e ≠ 'E' then some (none, e :: cs)
    else
      let (negative, unsigned) : Bool × List Char :=
        match cs with
        | '-' :: ds => (true, ds)
        | '+' :: ds => (false, ds)
        | ds => (false, ds)
      let (digits, rest) := unsigned.span Char.isDigit
      let size : Int := Decimal.digitsValue digits
      if digits = [] then none else some (some (if negative then -size else size), rest)

/-- The value of a number: an integer if it has neither point nor exponent, fits into 64 bits and
is not a negative zero. -/
def numberOf (negative : Bool) (whole fraction : List Char) (exponent : Option Int) :
    Option Number :=
  let size := Decimal.digitsValue whole
  let real := ((Decimal.ofParts whole fraction (exponent.getD 0)).toBinary64? negative).map
    Number.real
  if fraction ≠ [] ∨ exponent.isSome ∨ (negative ∧ size = 0) then real
  else (Number.ofInt? (if negative then -(size : Int) else size)).or real

/-- A number at the start of a text, and what follows it. -/
def spanNumber (cs : List Char) : Option (Option Number × List Char) := do
  let (negative, unsigned) : Bool × List Char :=
    match cs with
    | '-' :: ds => (true, ds)
    | ds => (false, ds)
  let (whole, afterWhole) ← spanWhole unsigned
  let (fraction, afterFraction) ← spanPoint afterWhole
  let (exponent, rest) ← spanExponent afterFraction
  return (numberOf negative whole fraction exponent, rest)

/-- The token at the start of a text that does not begin with a blank, and what follows it;
nothing follows a bad token. -/
def nextToken : List Char → Token × List Char
  | '[' :: cs => (.openList, cs)
  | ']' :: cs => (.closeList, cs)
  | '\x7b' :: cs => (.openRecord, cs)
  | '\x7d' :: cs => (.closeRecord, cs)
  | ',' :: cs => (.comma, cs)
  | ':' :: cs => (.colon, cs)
  | 'n' :: 'u' :: 'l' :: 'l' :: cs => (.null, cs)
  | 't' :: 'r' :: 'u' :: 'e' :: cs => (.bool true, cs)
  | 'f' :: 'a' :: 'l' :: 's' :: 'e' :: cs => (.bool false, cs)
  | '"' :: cs =>
    match spanUnits cs with
    | some (us, rest) => (.text ((joinUnits us).map String.ofList), rest)
    | none => (.bad, [])
  | cs =>
    match spanNumber cs with
    | some (n, rest) => (.number n, rest)
    | none => (.bad, [])

/-- The tokens of a text of at most `fuel` characters. -/
def tokensOf : (fuel : Nat) → List Char → List Token
  | 0, _ => []
  | _, [] => []
  | fuel + 1, c :: cs =>
    if isBlank c then tokensOf fuel cs
    else
      let (t, rest) := nextToken (c :: cs)
      t :: tokensOf fuel rest

/-- The tokens of a text. -/
def tokens (s : String) : List Token :=
  let cs := s.toList
  tokensOf cs.length cs

end Equilibrium.Json
