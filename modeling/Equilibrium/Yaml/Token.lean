import Equilibrium.Yaml.Scalar

/-!
# Tokens of a YAML text

The tokens of a text show its structure: where lists and mappings begin and end, by brackets or by
indentation, and which scalars are keys. That a scalar is a key shows only at the colon behind it,
so a place where a key may begin gets a `mark`, and the colon turns the mark into a key.

Line breaks are made alike before anything else; two separators of lines and paragraphs stay what
they are.

This is YAML without anchors, aliases and tags: a text in which one of these or a directive for tags
stands is refused, though other readers of YAML accept it.
-/

namespace Equilibrium.Yaml

/-- A token of a YAML text. -/
inductive Token
  /-- The directive that names the version of YAML. -/
  | version
  | documentStart
  | documentEnd
  | listStart
  | mappingStart
  /-- The end of a list or mapping by indentation. -/
  | blockEnd
  | openList
  | closeList
  | openMapping
  | closeMapping
  | comma
  /-- The dash before an item. -/
  | dash
  | key
  | value
  | scalar (text : String) (plain : Bool)
  /-- A place where a key may begin. -/
  | mark (place : Nat)
deriving DecidableEq

/-! ### Characters -/

/-- Characters that may stand in a YAML text. -/
def isAllowed (c : Char) : Bool :=
  let n := c.toNat
  n == 0x09 || n == 0x0A || n == 0x0D || (0x20 ≤ n && n ≤ 0x7E) || n == 0x85 ||
    (0xA0 ≤ n && n ≤ 0xFFFD && n != 0xFEFF) || 0x10000 ≤ n

/-- A text in which every usual line break is a line feed. -/
def unifyBreaks : List Char → List Char
  | '\r' :: '\n' :: cs => '\n' :: unifyBreaks cs
  | '\r' :: cs => '\n' :: unifyBreaks cs
  | '\u0085' :: cs => '\n' :: unifyBreaks cs
  | c :: cs => c :: unifyBreaks cs
  | [] => []

/-- Line breaks of a text whose breaks have been unified. -/
def isBreak (c : Char) : Bool := c == '\n' || c == '\u2028' || c == '\u2029'

/-- Blanks within a line. -/
def isBlank (c : Char) : Bool := c == ' ' || c == '\t'

/-- Whether a text begins with a blank or a line break, or is at its end. -/
def endsWord : List Char → Bool
  | [] => true
  | c :: _ => isBlank c || isBreak c

/-- Whether a text begins with a mark of the start or end of a document. -/
def atDocumentMark : List Char → Bool
  | '-' :: '-' :: '-' :: cs => endsWord cs
  | '.' :: '.' :: '.' :: cs => endsWord cs
  | _ => false

/-- Whether a text begins with one of some characters. -/
def beginsWith (chars : List Char) (cs : List Char) : Bool :=
  match cs with
  | c :: _ => c ∈ chars
  | [] => false

/-! ### Gaps and folding -/

/-- Blanks and line breaks in a row. -/
structure Gap where
  /-- The blanks before the first line break. -/
  blanks : List Char
  breaks : List Char
  /-- The number of blanks after the last line break. -/
  column : Nat
  /-- The least column of a tab after a line break. -/
  tab : Option Nat

/-- One more blank or line break of a gap. -/
def Gap.push (g : Gap) (c : Char) : Gap :=
  if isBreak c then { g with breaks := g.breaks ++ [c], column := 0 }
  else if g.breaks = [] then { g with blanks := g.blanks ++ [c] }
  else
    let tab := if c = '\t' then some (min g.column (g.tab.getD g.column)) else g.tab
    { g with column := g.column + 1, tab := tab }

/-- The gap at the start of a text, and the text behind it. -/
def spanGap (cs : List Char) : Gap × List Char :=
  let inGap (c : Char) : Bool := isBlank c || isBreak c
  ((cs.takeWhile inGap).foldl Gap.push ⟨[], [], 0, none⟩, cs.dropWhile inGap)

/-- What line breaks between words stand for: one line feed is a space, more are one fewer. -/
def foldBreaks : List Char → List Char
  | ['\n'] => [' ']
  | '\n' :: more => more
  | breaks => breaks

/-- What a gap between words stands for. -/
def Gap.folded (g : Gap) : List Char := if g.breaks = [] then g.blanks else foldBreaks g.breaks

/-- Whether a line begins right behind a gap. -/
def Gap.endsAtLineStart (g : Gap) : Bool := !g.breaks.isEmpty && g.column == 0

/-! ### Plain scalars -/

/-- The characters up to the next blank, or to an indicator that ends a plain scalar. -/
def spanWord (inFlow : Bool) : List Char → Option (List Char × List Char)
  | [] => some ([], [])
  | c :: cs =>
    if isBlank c || isBreak c || (c == ':' && endsWord cs) then some ([], c :: cs)
    else if inFlow && c == ':' && beginsWith [',', '?', '[', ']', '\x7b', '\x7d'] cs then none
    else if inFlow && c ∈ [',', '[', ']', '\x7b', '\x7d'] then some ([], c :: cs)
    else do
      let (word, rest) ← spanWord inFlow cs
      return (c :: word, rest)

/-- The text of a plain scalar, whether a line ended behind it, and what follows. Its lines have to
be indented by `indent` columns at least, unless brackets enclose it. -/
def spanPlain (inFlow : Bool) (indent : Nat) :
    (fuel : Nat) → (lineStart : Bool) → List Char → Option (List Char × Bool × List Char)
  | 0, _, cs => some ([], false, cs)
  | fuel + 1, lineStart, cs =>
    if (lineStart && atDocumentMark cs) || beginsWith ['#'] cs then some ([], false, cs)
    else do
      let (word, rest) ← spanWord inFlow cs
      if word = [] then return ([], false, cs)
      let (gap, rest) := spanGap rest
      let broken := !gap.breaks.isEmpty
      if gap.tab.any (· < indent) then none
      else if !inFlow && broken && gap.column < indent then return (word, true, rest)
      else
        let (more, brokenLater, last) ← spanPlain inFlow indent fuel gap.endsAtLineStart rest
        if more = [] then return (word, broken, last)
        else return (word ++ gap.folded ++ more, brokenLater, last)

/-! ### Quoted scalars -/

/-- The character of a one-letter escape. -/
def escaped? : Char → Option Char
  | '0' => some '\x00'
  | 'a' => some '\x07'
  | 'b' => some '\x08'
  | 't' => some '\t'
  | '\t' => some '\t'
  | 'n' => some '\n'
  | 'v' => some '\x0b'
  | 'f' => some '\x0c'
  | 'r' => some '\r'
  | 'e' => some '\x1b'
  | ' ' => some ' '
  | '"' => some '"'
  | '/' => some '/'
  | '\\' => some '\\'
  | 'N' => some '\u0085'
  | '_' => some '\u00a0'
  | 'L' => some '\u2028'
  | 'P' => some '\u2029'
  | _ => none

/-- The number of digits behind an escape by code point. -/
def escapeLength? : Char → Option Nat
  | 'x' => some 2
  | 'u' => some 4
  | 'U' => some 8
  | _ => none

/-- The character of an escape, from behind its backslash on, and what follows. -/
def spanEscape : List Char → Option (Char × List Char)
  | [] => none
  | e :: cs =>
    match escapeLength? e with
    | none => (escaped? e).map fun c => (c, cs)
    | some n => do
      let code ← if (cs.take n).length = n then naturalIn? 16 (cs.take n) else none
      if code < 0xD800 ∨ (0xE000 ≤ code ∧ code ≤ 0x10FFFF) then
        return (Char.ofNat code, cs.drop n)
      else none

/-- The text of a quoted scalar, from behind its opening quote on, and what follows its closing
quote. Between double quotes a backslash escapes. -/
def spanQuoted (double : Bool) :
    (fuel : Nat) → (lineStart : Bool) → List Char → Option (List Char × List Char)
  | 0, _, _ => none
  | _, _, [] => none
  | fuel + 1, lineStart, c :: cs =>
    if lineStart && atDocumentMark (c :: cs) then none
    else if isBlank c || isBreak c then do
      let (gap, rest) := spanGap (c :: cs)
      let (more, last) ← spanQuoted double fuel gap.endsAtLineStart rest
      return (gap.folded ++ more, last)
    else if double then
      if c = '"' then some ([], cs)
      else if c = '\\' then
        if (cs.head?.map isBreak).getD false then do
          let (gap, rest) := spanGap cs
          let (more, last) ← spanQuoted double fuel gap.endsAtLineStart rest
          return (gap.breaks.drop 1 ++ more, last)
        else do
          let (e, rest) ← spanEscape cs
          let (more, last) ← spanQuoted double fuel false rest
          return (e :: more, last)
      else do
        let (more, last) ← spanQuoted double fuel false cs
        return (c :: more, last)
    else if c = '\'' then
      match cs with
      | '\'' :: rest => do
        let (more, last) ← spanQuoted double fuel false rest
        return ('\'' :: more, last)
      | _ => some ([], cs)
    else do
      let (more, last) ← spanQuoted double fuel false cs
      return (c :: more, last)

/-! ### Block scalars -/

/-- What becomes of the line breaks at the end of a block scalar. -/
inductive Chomping
  | strip | clip | keep
deriving DecidableEq

/-- The chomping that a character of the header asks for. -/
def chomping? : Char → Option Chomping
  | '-' => some .strip
  | '+' => some .keep
  | _ => none

/-- The indentation that a character of the header gives. -/
def increment? (c : Char) : Option Nat :=
  if '1' ≤ c ∧ c ≤ '9' then some (c.toNat - '0'.toNat) else none

/-- The header of a block scalar: chomping and indentation in either order. -/
def spanHeader (cs : List Char) : Chomping × Option Nat × List Char :=
  match cs with
  | [] => (.clip, none, [])
  | c :: rest =>
    match chomping? c, increment? c with
    | some k, _ =>
      match rest with
      | d :: more =>
        match increment? d with
        | some n => (k, some n, more)
        | none => (k, none, rest)
      | [] => (k, none, [])
    | none, some n =>
      match rest with
      | d :: more =>
        match chomping? d with
        | some k => (k, some n, more)
        | none => (.clip, some n, rest)
      | [] => (.clip, some n, [])
    | none, none => (.clip, none, cs)

/-- The rest of the header line: blanks and perhaps a comment. -/
def dropHeaderEnd (cs : List Char) : Option (List Char) :=
  let cs := cs.dropWhile isBlank
  let cs := if beginsWith ['#'] cs then cs.dropWhile (!isBreak ·) else cs
  match cs with
  | [] => some []
  | c :: rest => if isBreak c then some rest else none

/-- Empty lines of a block scalar, and where the first line that is not empty begins. -/
structure EmptyLines where
  breaks : List Char
  /-- The number of spaces skipped in the last line. -/
  column : Nat
  /-- The greatest number of spaces skipped in a line. -/
  widest : Nat
  rest : List Char

/-- Skip empty lines and the indentation of the next line, of at most `indent` spaces if that is
known; a tab may not stand in the place of indentation. -/
def skipEmptyLines (indent : Option Nat) :
    (breaks : List Char) → (column widest : Nat) → List Char → Option EmptyLines
  | breaks, column, widest, [] => some ⟨breaks, column, max column widest, []⟩
  | breaks, column, widest, c :: cs =>
    let indenting := indent.all (column < ·)
    if indenting && c == ' ' then skipEmptyLines indent breaks (column + 1) widest cs
    else if indenting && c == '\t' then none
    else if isBreak c then skipEmptyLines indent (breaks ++ [c]) 0 (max column widest) cs
    else some ⟨breaks, column, max column widest, c :: cs⟩

/-- What is left over between the lines of a block scalar. -/
structure BlockLines where
  text : List Char
  /-- The line break of the last line. -/
  lastBreak : List Char
  /-- The line breaks of the empty lines behind it. -/
  trailing : List Char
  rest : List Char

/-- The lines of a block scalar. In a folded one the break between two lines that do not begin with
a blank is folded. -/
def spanBlockLines (literal : Bool) (indent : Nat) :
    (fuel : Nat) → (lastBreak : List Char) → (lastBlank : Bool) → EmptyLines → Option BlockLines
  | 0, _, _, _ => none
  | fuel + 1, lastBreak, lastBlank, before =>
    match before.rest with
    | [] => some ⟨[], lastBreak, before.breaks, []⟩
    | c :: cs =>
      if before.column ≠ indent then some ⟨[], lastBreak, before.breaks, c :: cs⟩
      else do
        let folds := !literal && lastBreak.head? == some '\n' && !lastBlank && !isBlank c
        let glue := if folds then (if before.breaks = [] then [' '] else []) else lastBreak
        let line := (c :: cs).takeWhile (!isBreak ·)
        let behind := (c :: cs).dropWhile (!isBreak ·)
        let next ← skipEmptyLines (some indent) [] 0 0 (behind.drop 1)
        let more ← spanBlockLines literal indent fuel (behind.take 1) (isBlank c) next
        return { more with text := glue ++ before.breaks ++ line ++ more.text }

/-- The text of a block scalar, from behind its indicator on, and what follows. -/
def spanBlock (literal : Bool) (parent : Int) (cs : List Char) :
    Option (List Char × List Char) := do
  let (chomping, increment, rest) := spanHeader cs
  let rest ← dropHeaderEnd rest
  let given := increment.map fun n => (max parent 0).toNat + n
  let first ← skipEmptyLines given [] 0 0 rest
  let indent := given.getD (max first.widest (max (parent + 1) 1).toNat)
  let lines ← spanBlockLines literal indent (rest.length + 1) [] false first
  let tail :=
    match chomping with
    | .strip => []
    | .clip => lines.lastBreak
    | .keep => lines.lastBreak ++ lines.trailing
  return (lines.text ++ tail, lines.rest)

/-! ### Directives -/

/-- The number at the start of a text, of at most nine digits, and what follows. -/
def spanVersionNumber (cs : List Char) : Option (Nat × List Char) :=
  let digits := cs.takeWhile Char.isDigit
  if digits.length ≤ 9 then
    (naturalIn? 10 digits).map fun n => (n, cs.drop digits.length)
  else none

/-- What follows the directive of a version, from behind its percent sign on. There are the
versions 1.1 and 1.2, and no other directives. -/
def dropVersion : List Char → Option (List Char)
  | 'Y' :: 'A' :: 'M' :: 'L' :: c :: cs =>
    if isBlank c then do
      let (major, rest) ← spanVersionNumber (cs.dropWhile isBlank)
      if beginsWith ['.'] rest then
        let (minor, rest) ← spanVersionNumber (rest.drop 1)
        if major = 1 ∧ (minor = 1 ∨ minor = 2) then dropHeaderEnd rest else none
      else none
    else none
  | _ => none

/-! ### The scanner -/

/-- A place where a key may begin. -/
structure Candidate where
  place : Nat
  line : Nat
  column : Nat
  /-- Whether nothing but a key can stand there. -/
  required : Bool

/-- The state of the scanner. -/
structure Scanner where
  rest : List Char
  /-- The number of bytes read, with one for every usual line break. -/
  place : Nat
  line : Nat
  column : Nat
  /-- How many brackets are open. -/
  flow : Nat
  /-- The columns of the lists and mappings that are open by indentation, the innermost first. -/
  indents : List Nat
  /-- Whether a key may begin here. -/
  keyAllowed : Bool
  /-- The last place where a key may have begun, for each open bracket and for none. -/
  candidates : List (Option Candidate)
  /-- The tokens, the latest first. -/
  tokens : List Token

namespace Scanner

/-- The scanner at the start of a text. -/
def start (cs : List Char) : Scanner := ⟨cs, 0, 0, 0, 0, [], true, [none], []⟩

/-- The column of the innermost list or mapping by indentation; -1 outside of all. -/
def indent (s : Scanner) : Int := (s.indents.head?.map Int.ofNat).getD (-1)

/-- Go past a character. -/
def pass (s : Scanner) (c : Char) : Scanner :=
  let place := s.place + c.utf8Size
  if isBreak c then { s with place := place, line := s.line + 1, column := 0 }
  else { s with place := place, column := s.column + 1 }

/-- Go on to a later place of the text. -/
def moveTo (s : Scanner) (rest : List Char) : Scanner :=
  { (s.rest.take (s.rest.length - rest.length)).foldl pass s with rest := rest }

/-- Add a token. -/
def emit (s : Scanner) (t : Token) : Scanner := { s with tokens := t :: s.tokens }

/-- Skip blanks, comments and line breaks. Behind a line break a key may begin, unless brackets are
open. A tab is no blank where a key may begin. -/
def skipBlanks (inFlow : Bool) : (keyAllowed comment : Bool) → List Char → Bool × List Char
  | keyAllowed, _, [] => (keyAllowed, [])
  | keyAllowed, comment, c :: cs =>
    if isBreak c then skipBlanks inFlow (keyAllowed || !inFlow) false cs
    else if comment || c == '#' then skipBlanks inFlow keyAllowed true cs
    else if c == ' ' || (c == '\t' && (inFlow || !keyAllowed)) then
      skipBlanks inFlow keyAllowed false cs
    else (keyAllowed, c :: cs)

/-- Go to the next token. -/
def toNextToken (s : Scanner) : Scanner :=
  let (keyAllowed, rest) := skipBlanks (0 < s.flow) s.keyAllowed false s.rest
  { s.moveTo rest with keyAllowed := keyAllowed }

/-- Give up the places whose line has ended or that lie too far back; none may be required. -/
def dropStale (s : Scanner) : Option Scanner := do
  let stale (c : Candidate) : Bool := c.line < s.line || c.place + 1024 < s.place
  if s.candidates.any fun c => c.any fun c => stale c && c.required then none
  else return { s with candidates := s.candidates.map fun c => c.filter (!stale ·) }

/-- Close lists and mappings that lie further to the right than a column. -/
def unroll (column : Int) (s : Scanner) : Scanner :=
  if 0 < s.flow then s
  else
    let closed := s.indents.takeWhile fun (i : Nat) => column < i
    { s with
      indents := s.indents.drop closed.length
      tokens := List.replicate closed.length Token.blockEnd ++ s.tokens }

/-- Whether a list or mapping at this column lies further to the right than the innermost one. -/
def opens (s : Scanner) (column : Nat) : Bool := s.flow == 0 && s.indent < column

/-- Give up the last place where a key may have begun; it may not be required. -/
def dropCandidate (s : Scanner) : Option Scanner :=
  match s.candidates with
  | some c :: more => if c.required then none else some { s with candidates := none :: more }
  | _ => some s

/-- Note that a key may begin here. -/
def noteCandidate (s : Scanner) : Option Scanner :=
  if !s.keyAllowed then some s
  else do
    let s ← s.dropCandidate
    let required := s.flow == 0 && s.indent == s.column
    let candidate : Candidate := ⟨s.place, s.line, s.column, required⟩
    return { s with candidates := some candidate :: s.candidates.drop 1 }.emit (.mark s.place)

/-- Go past some characters and add a token. -/
def take (s : Scanner) (n : Nat) (t : Token) : Scanner := (s.moveTo (s.rest.drop n)).emit t

/-- The start or end of a document. -/
def documentMark (s : Scanner) (t : Token) : Option Scanner := do
  let s ← (s.unroll (-1)).dropCandidate
  return { s with keyAllowed := false }.take 3 t

/-- The directive of a version. -/
def directive (s : Scanner) : Option Scanner := do
  let s ← (s.unroll (-1)).dropCandidate
  let rest ← dropVersion (s.rest.drop 1)
  return { s.moveTo rest with keyAllowed := false }.emit .version

/-- An opening bracket. -/
def openFlow (s : Scanner) (t : Token) : Option Scanner := do
  let s ← s.noteCandidate
  return { s with flow := s.flow + 1, candidates := none :: s.candidates, keyAllowed := true }.take
    1 t

/-- A closing bracket. -/
def closeFlow (s : Scanner) (t : Token) : Option Scanner := do
  let s ← s.dropCandidate
  let s := if s.flow = 0 then s
    else { s with flow := s.flow - 1, candidates := s.candidates.drop 1 }
  return { s with keyAllowed := false }.take 1 t

/-- A comma between brackets. -/
def comma (s : Scanner) : Option Scanner := do
  let s ← s.dropCandidate
  return { s with keyAllowed := true }.take 1 .comma

/-- Open a list or mapping by indentation at the place where the scanner is, if it lies further to
the right. -/
def roll (s : Scanner) (t : Token) : Scanner :=
  if s.opens s.column then { s with indents := s.column :: s.indents }.emit t else s

/-- The dash before an item. -/
def dash (s : Scanner) : Option Scanner := do
  if s.flow = 0 ∧ !s.keyAllowed then none
  else
    let s ← (s.roll .listStart).dropCandidate
    return { s with keyAllowed := true }.take 1 .dash

/-- The question mark before a key. -/
def question (s : Scanner) : Option Scanner := do
  if s.flow = 0 ∧ !s.keyAllowed then none
  else
    let s ← (s.roll .mappingStart).dropCandidate
    return { s with keyAllowed := s.flow == 0 }.take 1 .key

/-- Put tokens in the place of the latest mark of a place. -/
def replaceMark (place : Nat) (found : List Token) : List Token → List Token
  | [] => []
  | t :: ts => if t = .mark place then found ++ ts else t :: replaceMark place found ts

/-- The colon before a value. If a key may have begun, it did; else the key is empty or stands
behind a question mark. -/
def colon (s : Scanner) : Option Scanner :=
  match s.candidates with
  | some c :: more =>
    let opening := s.opens c.column
    let found : List Token := if opening then [.key, .mappingStart] else [.key]
    let indents := if opening then c.column :: s.indents else s.indents
    some ({ s with
      tokens := replaceMark c.place found s.tokens, indents := indents
      candidates := none :: more, keyAllowed := false }.take 1 .value)
  | _ =>
    if s.flow = 0 ∧ !s.keyAllowed then none
    else some ({ s.roll .mappingStart with keyAllowed := s.flow == 0 }.take 1 .value)

/-- A block scalar. -/
def block (s : Scanner) (literal : Bool) : Option Scanner := do
  let s ← s.dropCandidate
  let (text, rest) ← spanBlock literal s.indent (s.rest.drop 1)
  return { s.moveTo rest with keyAllowed := true }.emit (.scalar (String.ofList text) false)

/-- A quoted scalar. -/
def quoted (s : Scanner) (double : Bool) : Option Scanner := do
  let s ← s.noteCandidate
  let (text, rest) ← spanQuoted double s.rest.length false (s.rest.drop 1)
  return { s.moveTo rest with keyAllowed := false }.emit (.scalar (String.ofList text) false)

/-- A plain scalar. -/
def plain (s : Scanner) : Option Scanner := do
  let s ← s.noteCandidate
  let (text, broken, rest) ←
    spanPlain (0 < s.flow) (s.indent + 1).toNat s.rest.length false s.rest
  return { s.moveTo rest with keyAllowed := broken }.emit (.scalar (String.ofList text) true)

/-- Whether a plain scalar may begin with a character, given what follows it. -/
def beginsPlain (inFlow : Bool) (c : Char) (cs : List Char) : Bool :=
  if c == '-' then !(cs.head?.map isBlank).getD false
  else if c == '?' || c == ':' then !inFlow && !endsWord cs
  else
    !(isBlank c || isBreak c ||
      c ∈ [',', '[', ']', '\x7b', '\x7d', '#', '&', '*', '!', '|', '>', '\'', '"', '%', '@',
        '\x60'])

/-- Read the token that begins with a character. -/
def token (s : Scanner) (c : Char) (cs : List Char) : Option Scanner :=
  let inFlow : Bool := 0 < s.flow
  if s.column = 0 ∧ c = '%' then s.directive
  else if s.column = 0 ∧ atDocumentMark (c :: cs) then
    s.documentMark (if c = '-' then .documentStart else .documentEnd)
  else if c = '[' then s.openFlow .openList
  else if c = '\x7b' then s.openFlow .openMapping
  else if c = ']' then s.closeFlow .closeList
  else if c = '\x7d' then s.closeFlow .closeMapping
  else if c = ',' then s.comma
  else if c = '-' ∧ endsWord cs then s.dash
  else if c = '?' ∧ (inFlow ∨ endsWord cs) then s.question
  else if c = ':' ∧ (inFlow ∨ endsWord cs) then s.colon
  else if c = '|' ∧ !inFlow then s.block true
  else if c = '>' ∧ !inFlow then s.block false
  else if c = '\'' then s.quoted false
  else if c = '"' then s.quoted true
  else if beginsPlain inFlow c cs then s.plain
  else none -- among them the marks of anchors, aliases and tags

/-- The tokens of the rest of a text, the latest first. -/
def run : (fuel : Nat) → Scanner → Option (List Token)
  | 0, _ => none
  | fuel + 1, s => do
    let s ← s.toNextToken.dropStale
    let s := s.unroll s.column
    match s.rest with
    | [] =>
      let s ← (s.unroll (-1)).dropCandidate
      return s.tokens
    | c :: cs => run fuel (← s.token c cs)

end Scanner

/-- Whether a token is no mark of a place where a key may begin. -/
def Token.isReal : Token → Bool
  | .mark _ => false
  | _ => true

/-- The tokens of a text. -/
def tokens (s : String) : Option (List Token) := do
  let cs := s.toList
  if cs.all isAllowed then
    let found ← (Scanner.start (unifyBreaks cs)).run (cs.length + 1)
    return (found.filter Token.isReal).reverse
  else none

end Equilibrium.Yaml
