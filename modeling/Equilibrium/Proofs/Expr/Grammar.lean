import Mathlib.Data.List.SplitBy
import Equilibrium.Expr.Printed
import Equilibrium.Proofs.Numeral.Layout

/-!
# The grammar of printed expressions

A reader for what `Expr.print` writes, which knows nothing of how it is written. A text is cut into
lexemes, and each level of operators has a rule that reads the longest phrase of that level:

* an equation is a sum, or two sums with `=` between them;
* a sum is a product and any number of products behind `+` or `-`;
* a product is a negation and any number of negations behind `*` or `/`;
* a negation is a power behind any number of `-`;
* a power is an atom, perhaps with `^` and a power behind it;
* an atom is a number, a name, a name with indices in brackets, a reduction, or an equation in
  parentheses.

What is read is an `Expr.Normal`, the meaning of the text: the kind of a reference and the grouping
of sums of several terms cannot be seen in it. `Expr.norm` says which meaning an expression has. -/

namespace Equilibrium.Expr

/-! ### Meanings -/

/-- The two operators over a domain. -/
inductive Reduction
  | sum | prod
deriving DecidableEq

/-- The meaning of an expression. Sums and products have two operands, constants no sign, and all
references are of one kind. -/
inductive Normal
  | ref (name : Symbol) (indices : Option (List Normal))
  | const (size : Binary64)
  | raw (text : String)
  | neg (e : Normal)
  | add (a b : Normal)
  | mul (a b : Normal)
  | div (num den : Normal)
  | pow (base exponent : Normal)
  | reduce (r : Reduction) (index : Symbol) (domain : List Symbol) (body : Normal)
  | eq (lhs rhs : Normal)

mutual

/-- The meaning of an expression. -/
def norm : Expr → Normal
  | .index name | .var name none | .param name none => .ref name none
  | .var name (some indices) | .param name (some indices) => .ref name (some (norms indices))
  | .const x => if x.isNegative then .neg (.const x.abs) else .const x
  | .raw text => .raw text
  | .neg e => .neg (norm e)
  | .add [] => .const .zero
  | .add (e :: es) => (norms es).foldl .add (norm e)
  | .mul [] => .const (.ofInt 1)
  | .mul (e :: es) => (norms es).foldl .mul (norm e)
  | .div num den => .div (norm num) (norm den)
  | .pow base exponent => .pow (norm base) (norm exponent)
  | .sum i domain body => .reduce .sum i domain (norm body)
  | .prod i domain body => .reduce .prod i domain (norm body)
  | .eq lhs rhs => .eq (norm lhs) (norm rhs)

/-- The meanings of several expressions. -/
def norms : List Expr → List Normal
  | [] => []
  | e :: es => norm e :: norms es

end

/-! ### Lexemes -/

/-- What a text is made of: words, and single characters that are no part of a word. -/
inductive Lexeme
  | name (n : Symbol)
  | number (x : Binary64)
  /-- The word `sum` or the word `prod`. -/
  | reduction (r : Reduction)
  /-- The word `in`. -/
  | inside
  | mark (c : Char)
  /-- A word that is nothing of all that. -/
  | bad

/-- Letters, digits and the underscore; whatever lies beyond ASCII counts as a letter. -/
def isNameChar (c : Char) : Bool := c.isAlphanum || c == '_' || decide (0x80 ≤ c.toNat)

/-- The characters of names and numbers. -/
def isWordChar (c : Char) : Bool := isNameChar c || c == '.'

/-- A name of letters and digits that does not begin with a digit. -/
def isIdentifier (n : Symbol) : Bool :=
  match n.toList with
  | [] => false
  | c :: cs => !c.isDigit && (c :: cs).all isNameChar

/-- The words of the grammar. -/
def keyword? (n : Symbol) : Option Lexeme :=
  if n = "sum" then some (.reduction .sum)
  else if n = "prod" then some (.reduction .prod)
  else if n = "in" then some .inside
  else none

namespace Lexeme

/-- The lexeme of a word. -/
def ofWord (cs : List Char) : Lexeme :=
  match keyword? (String.ofList cs) with
  | some t => t
  | none =>
    if isIdentifier (String.ofList cs) then .name (String.ofList cs)
    else (Binary64.ofNumeral? cs).elim .bad .number

/-- The lexeme of a word or of a character outside words; blanks are none. -/
def ofRun? : List Char → Option Lexeme
  | [] => none
  | c :: cs =>
    if isWordChar c then some (ofWord (c :: cs)) else if c = ' ' then none else some (.mark c)

/-- The characters of one word stand together. -/
def joined (c d : Char) : Bool := isWordChar c && isWordChar d

end Lexeme

/-- The lexemes of a text. -/
def lexemes (cs : List Char) : List Lexeme := (cs.splitBy Lexeme.joined).filterMap Lexeme.ofRun?

/-! ### The rules of the grammar -/

namespace Grammar

/-- Names behind `[`, one at least, up to `]`. -/
def moreNames : List Lexeme → Option (List Symbol × List Lexeme)
  | .name n :: .mark ',' :: ts => (moreNames ts).map fun (ns, ts) => (n :: ns, ts)
  | .name n :: .mark ']' :: ts => some ([n], ts)
  | _ => none

/-- Names behind `[` up to `]`. -/
def names : List Lexeme → Option (List Symbol × List Lexeme)
  | .mark ']' :: ts => some ([], ts)
  | ts => moreNames ts

/-- What was read of a text, if it leaves no more than the text has. No rule leaves more (`Leaves`),
so nothing is lost by the bound; it is what the rules come to an end by. -/
def within {α : Type} (ts : List Lexeme) (read : Option (α × List Lexeme)) :
    Option (α × {rest : List Lexeme // rest.length ≤ ts.length}) := do
  let (a, rest) ← read
  if h : rest.length ≤ ts.length then some (a, ⟨rest, h⟩) else none

mutual

/-- Read an equation. A rule asks a rule of a higher level about the same text, and comes back to its
own level only behind a lexeme that was read. -/
def equation (ts : List Lexeme) : Option (Normal × List Lexeme) := do
  let (lhs, ⟨ts, _⟩) ← within ts (sum ts)
  match _h : ts with
  | .mark '=' :: ts => do
    let (rhs, ⟨ts, _⟩) ← within ts (sum ts)
    return (.eq lhs rhs, ts)
  | ts => return (lhs, ts)
termination_by (ts.length, 5)
decreasing_by all_goals grind

/-- Read a sum. -/
def sum (ts : List Lexeme) : Option (Normal × List Lexeme) := do
  let (a, ⟨ts, _⟩) ← within ts (product ts)
  terms a ts
termination_by (ts.length, 4)
decreasing_by all_goals grind

/-- Read the terms of a sum behind what was read of it. -/
def terms (a : Normal) (ts : List Lexeme) : Option (Normal × List Lexeme) :=
  match ts with
  | .mark '+' :: ts => do
    let (b, ⟨ts, _⟩) ← within ts (product ts)
    terms (.add a b) ts
  | .mark '-' :: ts => do
    let (b, ⟨ts, _⟩) ← within ts (product ts)
    terms (.add a (.neg b)) ts
  | ts => some (a, ts)
termination_by (ts.length, 0)

/-- Read a product. -/
def product (ts : List Lexeme) : Option (Normal × List Lexeme) := do
  let (a, ⟨ts, _⟩) ← within ts (negation ts)
  factors a ts
termination_by (ts.length, 3)
decreasing_by all_goals grind

/-- Read the factors and divisors of a product behind what was read of it. -/
def factors (a : Normal) (ts : List Lexeme) : Option (Normal × List Lexeme) :=
  match ts with
  | .mark '*' :: ts => do
    let (b, ⟨ts, _⟩) ← within ts (negation ts)
    factors (.mul a b) ts
  | .mark '/' :: ts => do
    let (b, ⟨ts, _⟩) ← within ts (negation ts)
    factors (.div a b) ts
  | ts => some (a, ts)
termination_by (ts.length, 0)

/-- Read a negation. -/
def negation (ts : List Lexeme) : Option (Normal × List Lexeme) :=
  match ts with
  | .mark '-' :: ts => do
    let (a, ⟨ts, _⟩) ← within ts (negation ts)
    return (.neg a, ts)
  | ts => power ts
termination_by (ts.length, 2)

/-- Read a power. -/
def power (ts : List Lexeme) : Option (Normal × List Lexeme) := do
  let (base, ⟨ts, _⟩) ← within ts (atom ts)
  match _h : ts with
  | .mark '^' :: ts => do
    let (exponent, ⟨ts, _⟩) ← within ts (power ts)
    return (.pow base exponent, ts)
  | ts => return (base, ts)
termination_by (ts.length, 1)

/-- Read an atom. -/
def atom (ts : List Lexeme) : Option (Normal × List Lexeme) :=
  match ts with
  | .number x :: ts => some (.const x, ts)
  | .name n :: .mark '[' :: ts => do
    let (indices, ⟨ts, _⟩) ← within ts (indices ts)
    return (.ref n (some indices), ts)
  | .name n :: ts => some (.ref n none, ts)
  | .reduction r :: .mark '(' :: .name i :: .inside :: .mark '[' :: ts => do
    let (domain, ⟨ts, _⟩) ← within ts (names ts)
    match _h : ts with
    | .mark ',' :: ts => do
      let (body, ⟨ts, _⟩) ← within ts (equation ts)
      match ts with
      | .mark ')' :: ts => return (.reduce r i domain body, ts)
      | _ => none
    | _ => none
  | .mark '(' :: ts => do
    let (a, ⟨ts, _⟩) ← within ts (equation ts)
    match ts with
    | .mark ')' :: ts => return (a, ts)
    | _ => none
  | _ => none
termination_by (ts.length, 0)
decreasing_by all_goals grind

/-- Read indices behind `[` up to `]`. -/
def indices (ts : List Lexeme) : Option (List Normal × List Lexeme) :=
  match ts with
  | .mark ']' :: ts => some ([], ts)
  | ts => moreIndices ts
termination_by (ts.length, 7)

/-- Read indices behind `[`, one at least, up to `]`. -/
def moreIndices (ts : List Lexeme) : Option (List Normal × List Lexeme) := do
  let (a, ⟨ts, _⟩) ← within ts (equation ts)
  match _h : ts with
  | .mark ',' :: ts => do
    let (as, ⟨ts, _⟩) ← within ts (moreIndices ts)
    return (a :: as, ts)
  | .mark ']' :: ts => return ([a], ts)
  | _ => none
termination_by (ts.length, 6)

end

/-! ### What rules leave -/

section

variable {α β : Type} {ts us rest : List Lexeme} {read : Option (α × List Lexeme)}

/-- What was read left no more than this text. -/
def Leaves (ts : List Lexeme) (read : Option (α × List Lexeme)) : Prop :=
  ∀ a rest, read = some (a, rest) → rest.length ≤ ts.length

theorem Leaves.mono (h : Leaves ts read) (hle : ts.length ≤ us.length) : Leaves us read :=
  fun a rest hread => (h a rest hread).trans hle

theorem leaves_none : Leaves ts (none : Option (α × List Lexeme)) :=
  fun _ _ h => nomatch h

theorem leaves_some (h : rest.length ≤ ts.length) (a : α) : Leaves ts (some (a, rest)) := by
  rintro _ _ ⟨⟩
  exact h

/-- Behind what was read within a text there is no more than the text. -/
theorem leaves_within {f : α × {rest : List Lexeme // rest.length ≤ us.length} →
      Option (β × List Lexeme)}
    (h : ∀ a rest, (hle : rest.length ≤ us.length) → Leaves ts (f (a, ⟨rest, hle⟩))) :
    Leaves ts (within us read >>= f) := by
  intro b last heq
  obtain ⟨⟨a, rest, hle⟩, -, hf⟩ := Option.bind_eq_some_iff.mp heq
  exact h a rest hle b last hf

theorem within_of_leaves {a : α} (h : Leaves ts read) (hread : read = some (a, rest)) :
    within ts read = some (a, ⟨rest, h a rest hread⟩) := by
  have hle := h a rest hread
  subst hread
  exact dif_pos hle

end

theorem leaves_moreNames (ts : List Lexeme) : Leaves ts (moreNames ts) := by
  intro ns rest h
  fun_induction moreNames ts generalizing ns with
  | case1 n ts ih =>
      obtain ⟨⟨ms, last⟩, hts, heq⟩ := Option.map_eq_some_iff.mp h
      cases heq
      have := ih _ hts
      simp only [List.length_cons]
      omega
  | case2 n ts =>
      cases h
      simp only [List.length_cons]
      omega
  | case3 => cases h

theorem leaves_names (ts : List Lexeme) : Leaves ts (names ts) := by
  unfold names
  split
  · exact leaves_some (Nat.le_succ _) _
  · exact leaves_moreNames _

theorem leaves_terms (a : Normal) (ts : List Lexeme) : Leaves ts (terms a ts) := by
  rw [terms.eq_def]
  split
  · exact leaves_within fun b rest h => (leaves_terms _ rest).mono (Nat.le_succ_of_le h)
  · exact leaves_within fun b rest h => (leaves_terms _ rest).mono (Nat.le_succ_of_le h)
  · exact leaves_some le_rfl _
termination_by ts.length
decreasing_by all_goals grind

theorem leaves_factors (a : Normal) (ts : List Lexeme) : Leaves ts (factors a ts) := by
  rw [factors.eq_def]
  split
  · exact leaves_within fun b rest h => (leaves_factors _ rest).mono (Nat.le_succ_of_le h)
  · exact leaves_within fun b rest h => (leaves_factors _ rest).mono (Nat.le_succ_of_le h)
  · exact leaves_some le_rfl _
termination_by ts.length
decreasing_by all_goals grind

theorem leaves_sum (ts : List Lexeme) : Leaves ts (sum ts) := by
  rw [sum]
  exact leaves_within fun a rest h => (leaves_terms a rest).mono h

theorem leaves_product (ts : List Lexeme) : Leaves ts (product ts) := by
  rw [product]
  exact leaves_within fun a rest h => (leaves_factors a rest).mono h

theorem leaves_equation (ts : List Lexeme) : Leaves ts (equation ts) := by
  rw [equation]
  refine leaves_within fun lhs rest h => ?_
  dsimp only
  split
  · exact leaves_within fun rhs last hlast =>
      leaves_some (hlast.trans (Nat.le_of_succ_le h)) _
  · exact leaves_some h _

theorem leaves_power (ts : List Lexeme) : Leaves ts (power ts) := by
  rw [power]
  refine leaves_within fun base rest h => ?_
  dsimp only
  split
  · exact leaves_within fun exponent last hlast =>
      leaves_some (hlast.trans (Nat.le_of_succ_le h)) _
  · exact leaves_some h _

theorem leaves_negation (ts : List Lexeme) : Leaves ts (negation ts) := by
  rw [negation.eq_def]
  split
  · exact leaves_within fun a rest h => leaves_some (Nat.le_succ_of_le h) _
  · exact leaves_power _

theorem leaves_moreIndices (ts : List Lexeme) : Leaves ts (moreIndices ts) := by
  rw [moreIndices]
  refine leaves_within fun a rest h => ?_
  dsimp only
  split
  · exact leaves_within fun as last hlast =>
      leaves_some (hlast.trans (Nat.le_of_succ_le h)) _
  · exact leaves_some (Nat.le_of_succ_le h) _
  · exact leaves_none

theorem leaves_indices (ts : List Lexeme) : Leaves ts (indices ts) := by
  rw [indices.eq_def]
  split
  · exact leaves_some (Nat.le_succ _) _
  · exact leaves_moreIndices _

theorem leaves_atom (ts : List Lexeme) : Leaves ts (atom ts) := by
  rw [atom.eq_def]
  split
  · exact leaves_some (Nat.le_succ _) _
  · exact leaves_within fun indices rest h => leaves_some (by simp only [List.length_cons]; omega) _
  · exact leaves_some (Nat.le_succ _) _
  · refine leaves_within fun domain rest h => ?_
    dsimp only
    split
    · refine leaves_within fun body last hlast => ?_
      dsimp only
      split
      · refine leaves_some ?_ _
        simp only [List.length_cons] at *
        omega
      · exact leaves_none
    · exact leaves_none
  · refine leaves_within fun a rest h => ?_
    dsimp only
    split
    · refine leaves_some ?_ _
      simp only [List.length_cons] at *
      omega
    · exact leaves_none
  · exact leaves_none

end Grammar

/-- The meaning of a text: the equation that it is from beginning to end. -/
def parse (s : String) : Option Normal :=
  match Grammar.equation (lexemes s.toList) with
  | some (e, []) => some e
  | _ => none

end Equilibrium.Expr
