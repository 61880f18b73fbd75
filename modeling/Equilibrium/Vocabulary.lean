/-!
# Vocabularies

Core sets and canonical sections have fixed names. A name outside such a vocabulary is refused
with an `UnknownName`.
-/

namespace Equilibrium

/-- A name outside a vocabulary. -/
inductive UnknownName
  /-- No core set has the name. -/
  | set (name : String)
  /-- No canonical section has the name. -/
  | section (name : String)
deriving DecidableEq

/-- The message about a name outside a vocabulary. -/
def UnknownName.message : UnknownName → String
  | .set n => "Unknown set name: " ++ n
  | .section n => "Unknown section name: " ++ n

end Equilibrium
