import Equilibrium.Expr.Basic

/-!
# The order of expressions

Expressions are ordered by kind, then field by field: names by code point, a missing list of
indices before any list, lists lexicographically, constants in the total order of their bits.
-/

namespace Equilibrium.Expr

/-- The lexicographic order of lists of symbols. -/
def compareNames : List Symbol → List Symbol → Ordering
  | [], [] => .eq
  | [], _ :: _ => .lt
  | _ :: _, [] => .gt
  | a :: as, b :: bs => (compare a b).then (compareNames as bs)

mutual

/-- The order of expressions. -/
protected def compare : Expr → Expr → Ordering
  | .index m, .index n => Ord.compare m n
  | .var m is, .var n js => (Ord.compare m n).then (compareIndices is js)
  | .param m is, .param n js => (Ord.compare m n).then (compareIndices is js)
  | .const x, .const y => x.compare y
  | .raw s, .raw t => Ord.compare s t
  | .neg d, .neg e => d.compare e
  | .add ds, .add es => compareLists ds es
  | .mul ds, .mul es => compareLists ds es
  | .div a b, .div c d => (a.compare c).then (b.compare d)
  | .pow a b, .pow c d => (a.compare c).then (b.compare d)
  | .sum i as d, .sum j bs e =>
    ((Ord.compare i j).then (compareNames as bs)).then (d.compare e)
  | .prod i as d, .prod j bs e =>
    ((Ord.compare i j).then (compareNames as bs)).then (d.compare e)
  | .eq a b, .eq c d => (a.compare c).then (b.compare d)
  | d, e => Ord.compare d.kind.rank e.kind.rank

/-- The order of lists of indices, where no list comes first. -/
def compareIndices : Option (List Expr) → Option (List Expr) → Ordering
  | none, none => .eq
  | none, some _ => .lt
  | some _, none => .gt
  | some is, some js => compareLists is js

/-- The lexicographic order of lists of expressions. -/
def compareLists : List Expr → List Expr → Ordering
  | [], [] => .eq
  | [], _ :: _ => .lt
  | _ :: _, [] => .gt
  | d :: ds, e :: es => (d.compare e).then (compareLists ds es)

end

instance : Ord Expr := ⟨Expr.compare⟩

/-- Whether two expressions are the same tree. -/
def same (d e : Expr) : Bool := d.compare e == .eq

end Equilibrium.Expr
