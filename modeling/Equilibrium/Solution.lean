import Equilibrium.Symbol

/-!
# Solutions

The levels of a solved model: a number for each name and list of indices that was solved for.
-/

namespace Equilibrium

/-- A name with the members at its indices; scalars have none. -/
structure Place where
  name : Symbol
  indices : List Symbol
deriving DecidableEq

/-- The levels of a solved model, each place once. -/
structure Solution where
  levels : List (Place × Float)
deriving Inhabited

namespace Solution

instance : EmptyCollection Solution := ⟨⟨[]⟩⟩

/-- Set the level at a place; an earlier one is replaced. -/
def insert (s : Solution) (p : Place) (level : Float) : Solution :=
  ⟨s.levels.filter (·.1 ≠ p) ++ [(p, level)]⟩

/-- The level at a place, if it was solved. -/
def level? (s : Solution) (p : Place) : Option Float := s.levels.lookup p

/-- The number of places. -/
def size (s : Solution) : Nat := s.levels.length

/-- Whether nothing was solved. -/
def isEmpty (s : Solution) : Bool := s.levels.isEmpty

end Solution

end Equilibrium
