import Equilibrium.Yaml.Token

/-!
# Documents as YAML text

`Yaml.text` writes a document in block style, two spaces for each level. A list that is the value
of a key stands below the key without being indented. Texts are written plainly where that reads
back as the same text, else quoted; a text of several lines is a literal block.
-/

namespace Equilibrium.Yaml

/-! ### Scalars -/

/-- Characters that can be written as they are. -/
def isPrintable (c : Char) : Bool :=
  let n := c.toNat
  n == 0x0A || (0x20 ≤ n && n ≤ 0x7E) || (0xA0 ≤ n && n ≤ 0xFFFD && n != 0xFEFF) || 0x10000 ≤ n

/-- The last character of a text. -/
def last? (cs : List Char) : Option Char := cs.getLast?

/-- Whether a text ends with a line break. -/
def endsWithBreak (cs : List Char) : Bool := (last? cs).any isBreak

/-- Whether two neighbouring characters of a text satisfy two conditions. -/
def hasPair (p q : Char → Bool) : List Char → Bool
  | c :: d :: cs => (p c && q d) || hasPair p q (d :: cs)
  | _ => false

/-- Whether a text has a character that has to be escaped, or a space before a line break; only
double quotes can hold such a text. -/
def needsEscapes (cs : List Char) : Bool :=
  cs.any (!isPrintable ·) || hasPair (· == ' ') isBreak cs

/-- Whether a text begins with an indicator. Dashes, question marks and colons are indicators
only before a blank or at the end. -/
def beginsWithIndicator (cs : List Char) : Bool :=
  beginsWith [',', '[', ']', '\x7b', '\x7d', '#', '&', '*', '!', '|', '>', '\'', '"', '%', '@',
    '\x60'] cs ||
  (beginsWith ['-', '?', ':'] cs && endsWord (cs.drop 1))

/-- Whether a text would end inside: at a colon before a blank or at the end, or at a number sign
behind a blank. -/
def hasIndicatorInside : List Char → Bool
  | [] => false
  | c :: cs =>
    (c == ':' && endsWord cs) || ((isBlank c || isBreak c) && beginsWith ['#'] cs) ||
      hasIndicatorInside cs

/-- Whether a text of one line can be written without quotes. -/
def isPlainSafe (cs : List Char) : Bool :=
  !(cs.head? == some ' ' || last? cs == some ' ' || cs.any isBreak ||
    ['-', '-', '-'].isPrefixOf cs || ['.', '.', '.'].isPrefixOf cs ||
    beginsWithIndicator cs || hasIndicatorInside (cs.drop 1))

/-- How a text is written. -/
inductive Style
  | plain
  | single
  | double
  /-- A block that keeps its line breaks. -/
  | literal
deriving DecidableEq

/-- The style of a text. -/
def styleOf (s : String) : Style :=
  let cs := s.toList
  let escapes := needsEscapes cs
  if '\n' ∈ cs then
    if escapes || last? cs == some ' ' then .double else .literal
  else if escapes || hasPair isBreak (· == ' ') cs then .double
  else if isSelf s && isPlainSafe cs then .plain
  else .single

/-- A character of a double-quoted text. -/
def escapeDouble (c : Char) : List Char :=
  match c with
  | '\x00' => ['\\', '0']
  | '\x07' => ['\\', 'a']
  | '\x08' => ['\\', 'b']
  | '\t' => ['\\', 't']
  | '\n' => ['\\', 'n']
  | '\x0b' => ['\\', 'v']
  | '\x0c' => ['\\', 'f']
  | '\r' => ['\\', 'r']
  | '\x1b' => ['\\', 'e']
  | '"' => ['\\', '"']
  | '\\' => ['\\', '\\']
  | '\u0085' => ['\\', 'N']
  | '\u2028' => ['\\', 'L']
  | '\u2029' => ['\\', 'P']
  | c =>
    if isPrintable c then [c]
    else
      let digits := (Nat.toDigits 16 c.toNat).map Char.toUpper
      let padded (n : Nat) : List Char := List.replicate (n - digits.length) '0' ++ digits
      if c.toNat ≤ 0xFF then '\\' :: 'x' :: padded 2
      else if c.toNat ≤ 0xFFFF then '\\' :: 'u' :: padded 4
      else '\\' :: 'U' :: padded 8

/-- So many spaces. -/
def spaces (n : Nat) : List Char := List.replicate n ' '

/-- A text of which every line but the first is indented; the breaks here are separators of lines
or paragraphs. -/
def indentLines (indent : Nat) : (afterBreak : Bool) → List Char → List Char
  | _, [] => []
  | afterBreak, c :: cs =>
    if isBreak c then c :: indentLines indent true cs
    else (if afterBreak then spaces indent else []) ++ c :: indentLines indent false cs

/-- The header of a literal block: the indentation if the text begins with a blank or a break, and
what becomes of its last line breaks. -/
def literalHeader (cs : List Char) : List Char :=
  let indentation := if cs.head?.any (fun c => c == ' ' || isBreak c) then ['2'] else []
  let chomping :=
    match cs.reverse with
    | c :: d :: _ => if !isBreak c then ['-'] else if isBreak d then ['+'] else []
    | [c] => if isBreak c then ['+'] else ['-']
    | [] => ['-']
  '|' :: indentation ++ chomping

/-- A text, with its further lines indented. -/
def writeText (indent : Nat) (s : String) : List Char :=
  let cs := s.toList
  match styleOf s with
  | .plain => cs
  | .single =>
    let doubled := cs.flatMap fun c => if c = '\'' then ['\'', '\''] else [c]
    let lastLine := if endsWithBreak cs then spaces indent else []
    '\'' :: indentLines indent false doubled ++ lastLine ++ ['\'']
  | .double => '"' :: cs.flatMap escapeDouble ++ ['"']
  | .literal => literalHeader cs ++ '\n' :: indentLines indent true cs

/-- A number. -/
def writeNumber : Number → List Char
  | .natural n => decimalDigits n.toNat
  | .negative k => '-' :: decimalDigits (k + 1)
  | .real x =>
    if x.isFinite then (x.numeral (.data false)).toList
    else if x.isNaN then ".nan".toList
    else if x.isNegative then "-.inf".toList
    else ".inf".toList

/-! ### Keys -/

/-- Whether a key is too long, or has too many lines, to stand before its colon. -/
def isLongKey (k : String) : Bool :=
  128 < k.utf8ByteSize || k.toList.any fun c => isBreak c || c == '\r' || c == '\u0085'

/-- The line break before a line at a column, unless the text so far ends with one. -/
def newLine (column : Nat) (before : List Char) : List Char :=
  if endsWithBreak before then spaces column else '\n' :: spaces column

/-- A key behind its question mark, and the colon of its value in the next line. -/
def writeLongKey (column : Nat) (k : String) : List Char :=
  let key := '?' :: ' ' :: writeText (column + 2) k
  key ++ newLine column key ++ [':']

/-! ### Documents -/

/-- What a node stands behind. -/
inductive Indicator
  /-- A key and its colon: lists and records begin in the next line. -/
  | key
  /-- A dash, or the colon of a long key: lists and records begin in the same line. -/
  | dash
deriving DecidableEq

/-- What stands between an indicator at `column` and a list or record at `inner`. -/
def blockStart (i : Indicator) (inner : Nat) : List Char :=
  match i with
  | .key => '\n' :: spaces inner
  | .dash => [' ']

mutual

/-- A document behind an indicator at a column. -/
def writeNode (i : Indicator) (column : Nat) : Document → List Char
  | .null => " null".toList
  | .bool true => " true".toList
  | .bool false => " false".toList
  | .number n => ' ' :: writeNumber n
  | .text s => ' ' :: writeText (column + 2) s
  | .list items =>
    let inner := if i = .key then column else column + 2
    if items.isEmpty then [' ', '[', ']'] else blockStart i inner ++ writeItems inner items
  | .record fields =>
    if fields.isEmpty then [' ', '\x7b', '\x7d']
    else blockStart i (column + 2) ++ writeFields (column + 2) fields

/-- The items of a list at a column. -/
def writeItems (column : Nat) : List Document → List Char
  | [] => []
  | d :: ds =>
    let item := '-' :: writeNode .dash column d
    if ds.isEmpty then item else item ++ newLine column item ++ writeItems column ds

/-- The fields of a record at a column. -/
def writeFields (column : Nat) : List (String × Document) → List Char
  | [] => []
  | (k, d) :: fs =>
    let field :=
      if isLongKey k then writeLongKey column k ++ writeNode .dash column d
      else writeText (column + 2) k ++ ':' :: writeNode .key column d
    if fs.isEmpty then field else field ++ newLine column field ++ writeFields column fs

end

/-- The text of a document that is a record; it ends with a line break. -/
def text (d : Document) : String :=
  let written :=
    match d with
    | .record (f :: fs) => writeFields 0 (f :: fs)
    | .list (d :: ds) => writeItems 0 (d :: ds)
    | d => (writeNode .dash 0 d).drop 1
  String.ofList (if endsWithBreak written then written else written ++ ['\n'])

end Equilibrium.Yaml
