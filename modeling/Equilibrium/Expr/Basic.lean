import Equilibrium.SymbolMap
import Equilibrium.Binary64

/-!
# Expressions

The equations of a model are trees over variables, parameters, constants and indices, with sums
and products over a domain of set members. Two trees are equal exactly when they have the same
shape and the same leaves; the order of terms and factors counts, and so do the bits of a constant.
-/

namespace Equilibrium

/-- A node of a model equation. -/
inductive Expr
  /-- The place of a member of a domain, such as `i` in `sum(i in [a, b], x[i])`. -/
  | index (name : Symbol)
  /-- A quantity that the model determines. Without a list of indices it is a scalar; a scalar is
  not the same as a reference with no indices in its list. -/
  | var (name : Symbol) (indices : Option (List Expr))
  /-- A quantity that is given to the model. -/
  | param (name : Symbol) (indices : Option (List Expr))
  | const (value : Binary64)
  /-- Text that is passed on as it is. -/
  | raw (text : String)
  | neg (e : Expr)
  | add (terms : List Expr)
  | mul (factors : List Expr)
  | div (num den : Expr)
  | pow (base exponent : Expr)
  /-- The sum of the values of `body` with `index` standing for each member of `domain`. -/
  | sum (index : Symbol) (domain : List Symbol) (body : Expr)
  /-- The product of the values of `body` with `index` standing for each member of `domain`. -/
  | prod (index : Symbol) (domain : List Symbol) (body : Expr)
  | eq (lhs rhs : Expr)
deriving Inhabited

namespace Expr

/-- The kinds of nodes, in the order in which expressions are compared. -/
inductive Kind
  | index | var | param | const | raw | neg | add | mul | div | pow | sum | prod | eq
deriving DecidableEq

namespace Kind

/-- Every kind, in order. -/
def all : List Kind :=
  [.index, .var, .param, .const, .raw, .neg, .add, .mul, .div, .pow, .sum, .prod, .eq]

/-- The name of a kind. -/
def name : Kind → String
  | .index => "index"
  | .var => "var"
  | .param => "param"
  | .const => "const"
  | .raw => "raw"
  | .neg => "neg"
  | .add => "add"
  | .mul => "mul"
  | .div => "div"
  | .pow => "pow"
  | .sum => "sum"
  | .prod => "prod"
  | .eq => "eq"

/-- The place of a kind in the order. -/
def rank (k : Kind) : Nat := all.idxOf k

/-- The kind of a name. -/
def ofName? (name : String) : Option Kind := all.find? (·.name == name)

end Kind

/-- The kind of the root. -/
def kind : Expr → Kind
  | .index _ => .index
  | .var _ _ => .var
  | .param _ _ => .param
  | .const _ => .const
  | .raw _ => .raw
  | .neg _ => .neg
  | .add _ => .add
  | .mul _ => .mul
  | .div _ _ => .div
  | .pow _ _ => .pow
  | .sum _ _ _ => .sum
  | .prod _ _ _ => .prod
  | .eq _ _ => .eq

/-- The direct subexpressions, from left to right. -/
def children : Expr → List Expr
  | .index _ | .const _ | .raw _ => []
  | .var _ indices | .param _ indices => indices.getD []
  | .neg e => [e]
  | .add terms => terms
  | .mul factors => factors
  | .div num den => [num, den]
  | .pow base exponent => [base, exponent]
  | .sum _ _ body | .prod _ _ body => [body]
  | .eq lhs rhs => [lhs, rhs]

/-- Whether a node has no subexpressions. -/
def isLeaf (e : Expr) : Bool := e.children.isEmpty

/-- Whether an expression is an equation. -/
def isEquation : Expr → Bool
  | .eq _ _ => true
  | _ => false

/-- A scalar variable. -/
def scalar (name : Symbol) : Expr := .var name none

/-- A constant of the machine arithmetic. -/
def real (x : Float) : Expr := .const (.ofFloat x)

instance : Add Expr := ⟨fun a b => .add [a, b]⟩
instance : Mul Expr := ⟨fun a b => .mul [a, b]⟩
instance : Div Expr := ⟨.div⟩
instance : Neg Expr := ⟨.neg⟩

/-- There is no node for differences: `a - b` is the sum of `a` and `-b`. -/
instance : Sub Expr := ⟨fun a b => .add [a, .neg b]⟩

end Expr

end Equilibrium
