import Equilibrium.Expr.Basic

/-!
# Queries on expressions

All queries but depth and scope are read off `Expr.nodes`, the list of all nodes in pre-order.
`Expr.freeIndices` follows the scopes of sums and products.
-/

namespace Equilibrium.Expr

mutual

/-- Every node, each before the nodes below it, from left to right. -/
def nodes (e : Expr) : List Expr :=
  e :: match e with
    | .index _ | .const _ | .raw _ => []
    | .var _ none | .param _ none => []
    | .var _ (some indices) | .param _ (some indices) => nodesOf indices
    | .neg e => nodes e
    | .add terms => nodesOf terms
    | .mul factors => nodesOf factors
    | .div num den => nodes num ++ nodes den
    | .pow base exponent => nodes base ++ nodes exponent
    | .sum _ _ body | .prod _ _ body => nodes body
    | .eq lhs rhs => nodes lhs ++ nodes rhs

/-- The nodes of several expressions, one after the other. -/
def nodesOf : List Expr → List Expr
  | [] => []
  | e :: es => nodes e ++ nodesOf es

end

/-- The number of nodes. -/
def nodeCount (e : Expr) : Nat := e.nodes.length

mutual

/-- The number of nodes on the longest path from the root to a leaf. -/
def depth : Expr → Nat
  | .index _ | .const _ | .raw _ => 1
  | .var _ none | .param _ none => 1
  | .var _ (some indices) | .param _ (some indices) => 1 + depthOf indices
  | .neg e => 1 + depth e
  | .add terms => 1 + depthOf terms
  | .mul factors => 1 + depthOf factors
  | .div num den => 1 + max (depth num) (depth den)
  | .pow base exponent => 1 + max (depth base) (depth exponent)
  | .sum _ _ body | .prod _ _ body => 1 + depth body
  | .eq lhs rhs => 1 + max (depth lhs) (depth rhs)

/-- The greatest depth of several expressions. -/
def depthOf : List Expr → Nat
  | [] => 0
  | e :: es => max (depth e) (depthOf es)

end

/-- The name of the variable at the root. -/
def varName? : Expr → Option Symbol
  | .var name _ => some name
  | _ => none

/-- The name of the parameter at the root. -/
def paramName? : Expr → Option Symbol
  | .param name _ => some name
  | _ => none

/-- The index that the root binds. -/
def boundIndex? : Expr → Option Symbol
  | .sum i _ _ | .prod i _ _ => some i
  | _ => none

/-- The names of all variables, ascending. -/
def varNames (e : Expr) : List Symbol := sortedDistinct (e.nodes.filterMap varName?)

/-- The names of all parameters, ascending. -/
def paramNames (e : Expr) : List Symbol := sortedDistinct (e.nodes.filterMap paramName?)

/-- The indices that some sum or product binds, ascending. -/
def boundIndices (e : Expr) : List Symbol := sortedDistinct (e.nodes.filterMap boundIndex?)

mutual

/-- The indices that are neither in scope nor bound on the way to them, from left to right. -/
def unbound (scope : List Symbol) : Expr → List Symbol
  | .index i => if i ∈ scope then [] else [i]
  | .const _ | .raw _ => []
  | .var _ none | .param _ none => []
  | .var _ (some indices) | .param _ (some indices) => unboundOf scope indices
  | .neg e => unbound scope e
  | .add terms => unboundOf scope terms
  | .mul factors => unboundOf scope factors
  | .div num den => unbound scope num ++ unbound scope den
  | .pow base exponent => unbound scope base ++ unbound scope exponent
  | .sum i _ body | .prod i _ body => unbound (i :: scope) body
  | .eq lhs rhs => unbound scope lhs ++ unbound scope rhs

/-- The unbound indices of several expressions in one scope. -/
def unboundOf (scope : List Symbol) : List Expr → List Symbol
  | [] => []
  | e :: es => unbound scope e ++ unboundOf scope es

end

/-- The indices that no sum or product around them binds, ascending. -/
def freeIndices (e : Expr) : List Symbol := sortedDistinct (e.unbound [])

end Equilibrium.Expr
