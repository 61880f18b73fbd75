import Equilibrium.Document

/-!
# Documents as JSON text

`Json.compact` writes a document without any space, `Json.pretty` with one item or field a line
and two spaces for each level. Both are `Json.write`, which takes the level as a parameter.
Numbers that are not finite are written as null.
-/

namespace Equilibrium.Json

/-- A natural number below 256 as two digits in base sixteen. -/
def hexPair (n : Nat) : List Char := [Nat.digitChar (n / 16), Nat.digitChar (n % 16)]

/-- How a character stands in a quoted text: quotes, backslashes and control characters are
escaped, all others stand for themselves. -/
def escape (c : Char) : List Char :=
  match c with
  | '"' => ['\\', '"']
  | '\\' => ['\\', '\\']
  | '\x08' => ['\\', 'b']
  | '\t' => ['\\', 't']
  | '\n' => ['\\', 'n']
  | '\x0c' => ['\\', 'f']
  | '\r' => ['\\', 'r']
  | c => if c.toNat < 0x20 then ['\\', 'u', '0', '0'] ++ hexPair c.toNat else [c]

/-- A text between quotes. -/
def quote (s : String) : List Char := '"' :: (s.toList.flatMap escape ++ ['"'])

/-- A number. -/
def writeNumber : Number → List Char
  | .natural n => decimalDigits n.toNat
  | .negative k => '-' :: decimalDigits (k + 1)
  | .real x => if x.isFinite then (x.numeral (.data true)).toList else "null".toList

/-- The break before an item: none in a compact text, a line break and the indentation of its
level in a pretty one. -/
def lineBreak : Option Nat → List Char
  | none => []
  | some level => '\n' :: List.replicate (2 * level) ' '

/-- The mark between a key and its value. -/
def colonMark : Option Nat → List Char
  | none => [':']
  | some _ => [':', ' ']

mutual

/-- The text of a document: compact without a level, pretty with one. -/
def write (level : Option Nat) : Document → List Char
  | .null => "null".toList
  | .bool true => "true".toList
  | .bool false => "false".toList
  | .number n => writeNumber n
  | .text s => quote s
  | .list [] => ['[', ']']
  | .list (d :: ds) =>
    '[' :: lineBreak (level.map (· + 1)) ++ write (level.map (· + 1)) d ++
      writeItems (level.map (· + 1)) ds ++ lineBreak level ++ [']']
  | .record [] => ['\x7b', '\x7d']
  | .record ((k, d) :: fs) =>
    '\x7b' :: lineBreak (level.map (· + 1)) ++ quote k ++ colonMark level ++
      write (level.map (· + 1)) d ++ writeFields (level.map (· + 1)) fs ++
      lineBreak level ++ ['\x7d']

/-- The items of a list after the first. -/
def writeItems (level : Option Nat) : List Document → List Char
  | [] => []
  | d :: ds => ',' :: lineBreak level ++ write level d ++ writeItems level ds

/-- The fields of a record after the first. -/
def writeFields (level : Option Nat) : List (String × Document) → List Char
  | [] => []
  | (k, d) :: fs =>
    ',' :: lineBreak level ++ quote k ++ colonMark level ++ write level d ++ writeFields level fs

end

/-- The text of a document without spaces. -/
def compact (d : Document) : String := String.ofList (write none d)

/-- The text of a document with one item or field a line. -/
def pretty (d : Document) : String := String.ofList (write (some 0) d)

end Equilibrium.Json
