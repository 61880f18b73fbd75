import Equilibrium.Document.Shape
import Equilibrium.Vocabulary

/-!
# The core sets of a model

A model is written over four sets of symbols: its commodities, activities, factors and
institutions. Their members keep the order in which they are listed, and a member may be listed
more than once. A run needs all four to be non-empty.
-/

namespace Equilibrium

/-- The core sets, in their canonical order. -/
inductive SetKind
  | commodities | activities | factors | institutions
deriving DecidableEq

namespace SetKind

/-- Every kind, in canonical order. -/
def all : List SetKind := [.commodities, .activities, .factors, .institutions]

/-- The name of a set. -/
def name : SetKind → String
  | .commodities => "commodities"
  | .activities => "activities"
  | .factors => "factors"
  | .institutions => "institutions"

/-- The set of a name. -/
def ofName? (name : String) : Option SetKind := all.find? (·.name == name)

/-- The set of a name, or the refusal of the name. -/
def parse (name : String) : Except UnknownName SetKind :=
  (ofName? name).elim (.error (.set name)) .ok

instance : ToString SetKind := ⟨name⟩

/-- A set is written as its name. -/
def codec : Codec SetKind :=
  ⟨.choice (all.map name), fun k => .text k.name, fun d => d.text?.bind ofName?⟩

end SetKind

/-- The members of the core sets. -/
structure Sets where
  commodities : List Symbol
  activities : List Symbol
  factors : List Symbol
  institutions : List Symbol
deriving DecidableEq, Inhabited

namespace Sets

instance : EmptyCollection Sets := ⟨⟨[], [], [], []⟩⟩

/-- The members of one of the sets, as listed. -/
def members (s : Sets) : SetKind → List Symbol
  | .commodities => s.commodities
  | .activities => s.activities
  | .factors => s.factors
  | .institutions => s.institutions

/-- Whether a symbol is a member of one of the sets. -/
def contains (s : Sets) (k : SetKind) (member : Symbol) : Bool := (s.members k).contains member

/-- The first empty set in canonical order. -/
def firstEmpty? (s : Sets) : Option SetKind := SetKind.all.find? fun k => (s.members k).isEmpty

/-- The empty sets in canonical order. -/
def emptyKinds (s : Sets) : List SetKind := SetKind.all.filter fun k => (s.members k).isEmpty

/-- The members that a set lists more than once, in the order of their first repeats. -/
def duplicates (s : Sets) (k : SetKind) : List Symbol := repeated (s.members k)

/-- The document of the sets: one list of members for each. -/
def codec : Codec Sets where
  shape := .record "Sets" (SetKind.all.map fun k => Shape.optional k.name (.list .text) (.list []))
  encode s := .record (SetKind.all.map fun k => (k.name, .texts (s.members k)))
  decode? d := do
    return ⟨← (← d.field? "commodities").texts?, ← (← d.field? "activities").texts?,
      ← (← d.field? "factors").texts?, ← (← d.field? "institutions").texts?⟩

end Sets

/-- Why sets do not admit a run. -/
inductive ValidationError
  /-- A core set has no members. -/
  | emptySet (kind : SetKind)
deriving DecidableEq

/-- The message of a validation error. -/
def ValidationError.message : ValidationError → String
  | .emptySet k => "Core set '" ++ k.name ++ "' is empty"

/-- Refuse sets of which one is empty; the first in canonical order is named. -/
def Sets.validate (s : Sets) : Except ValidationError Unit :=
  match s.firstEmpty? with
  | some k => .error (.emptySet k)
  | none => .ok ()

end Equilibrium
