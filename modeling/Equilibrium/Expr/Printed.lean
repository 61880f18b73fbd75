import Equilibrium.Expr.Basic
import Equilibrium.Numeral

/-!
# The printed form of expressions

Expressions are printed with as few parentheses as the levels of their operators allow: an
equation binds least, then sums and differences, products and quotients, negation, powers, and
last what stands for itself. Sums, products and quotients associate to the left, powers to the
right. Raw text may hold anything, so it counts as an equation.
-/

namespace Equilibrium.Expr

/-! ### Levels -/

namespace Level

def equation : Nat := 0
def sum : Nat := 1
def product : Nat := 2
def negation : Nat := 3
def power : Nat := 4
def atom : Nat := 5

end Level

/-- How tightly the printed form of an expression holds together. An empty sum or product is
printed as a number, a negative number as a negation. -/
def level : Expr → Nat
  | .eq _ _ | .raw _ => Level.equation
  | .add (_ :: _) => Level.sum
  | .mul (_ :: _) | .div _ _ => Level.product
  | .neg _ => Level.negation
  | .const x => if x.isNegative then Level.negation else Level.atom
  | .pow _ _ => Level.power
  | _ => Level.atom

/-- A text, in parentheses if need be. -/
def enclose (needed : Bool) (text : List Char) : List Char :=
  if needed then '(' :: text ++ [')'] else text

/-- The names of a domain, separated by commas. -/
def printNames (names : List Symbol) : List Char := (", ".intercalate names).toList

/-- What follows the opening parenthesis of a sum or product over a domain. -/
def printReduction (i : Symbol) (domain : List Symbol) (body : List Char) : List Char :=
  i.toList ++ " in [".toList ++ printNames domain ++ "], ".toList ++ body ++ [')']

/-! ### Printing -/

mutual

/-- The printed form of an expression. -/
def print : Expr → List Char
  | .index name | .var name none | .param name none => name.toList
  | .var name (some indices) | .param name (some indices) =>
    name.toList ++ '[' :: printIndices indices ++ [']']
  | .const x => (x.text .plain).toList
  | .raw text => text.toList
  | .neg e => '-' :: enclose (e.level < Level.power) (print e)
  | .add [] => ['0']
  | .add (e :: es) => enclose (e.level < Level.sum) (print e) ++ printTerms es
  | .mul [] => ['1']
  | .mul (e :: es) => enclose (e.level < Level.product) (print e) ++ printFactors es
  | .div num den =>
    enclose (num.level < Level.product) (print num) ++ " / ".toList ++
      enclose (den.level < Level.negation) (print den)
  | .pow base exponent =>
    enclose (base.level < Level.atom) (print base) ++ " ^ ".toList ++
      enclose (exponent.level < Level.power) (print exponent)
  | .sum i domain body => "sum(".toList ++ printReduction i domain (print body)
  | .prod i domain body => "prod(".toList ++ printReduction i domain (print body)
  | .eq lhs rhs =>
    enclose (lhs.level < Level.sum) (print lhs) ++ " = ".toList ++
      enclose (rhs.level < Level.sum) (print rhs)

/-- Indices, separated by commas. -/
def printIndices : List Expr → List Char
  | [] => []
  | [e] => print e
  | e :: es => print e ++ ", ".toList ++ printIndices es

/-- The terms of a sum after the first; a negation is subtracted. -/
def printTerms : List Expr → List Char
  | [] => []
  | .neg e :: es => " - ".toList ++ enclose (e.level < Level.product) (print e) ++ printTerms es
  | e :: es => " + ".toList ++ enclose (e.level < Level.product) (print e) ++ printTerms es

/-- The factors of a product after the first. -/
def printFactors : List Expr → List Char
  | [] => []
  | e :: es => " * ".toList ++ enclose (e.level < Level.negation) (print e) ++ printFactors es

end

/-- The printed form of an expression as a text. -/
def printed (e : Expr) : String := String.ofList e.print

instance : ToString Expr := ⟨printed⟩

end Equilibrium.Expr
