import Equilibrium.Sets

/-!
# Closures

The closure of a run names its numéraire, the price that all others are measured in.
-/

namespace Equilibrium

/-- How a run is closed. -/
structure Closure where
  numeraire : Symbol
deriving DecidableEq, Inhabited

namespace Closure

/-- The set that the numéraire belongs to: the commodities if it is one of them, else the
factors. -/
def numeraireKind? (c : Closure) (s : Sets) : Option SetKind :=
  [SetKind.commodities, .factors].find? fun k => s.contains k c.numeraire

/-- The document of a closure. -/
def codec : Codec Closure where
  shape := .record "ClosureSpec" [Shape.required "numeraire" .text]
  encode c := .record [("numeraire", .text c.numeraire)]
  decode? d := do return ⟨← (← d.field? "numeraire").text?⟩

end Closure

end Equilibrium
