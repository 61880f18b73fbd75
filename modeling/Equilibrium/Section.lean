import Equilibrium.Block

/-!
# Sections

A section is a named, ordered list of blocks from which a run is put together. The canonical
vocabulary has twelve section names; `SectionRules` says which names a run needs and which it
admits.
-/

namespace Equilibrium

/-- A named list of blocks. -/
structure Section where
  name : Symbol
  blocks : List Block

/-- Whether a section has no blocks. -/
def Section.isEmpty (s : Section) : Bool := s.blocks.isEmpty

/-- The shared vocabulary of section names, in order. -/
inductive CanonicalSection
  | production | factors | government | savings | households | prices | external | trade
  | markets | objective | init | closure
deriving DecidableEq

namespace CanonicalSection

/-- Every canonical section, in order. -/
def all : List CanonicalSection :=
  [.production, .factors, .government, .savings, .households, .prices, .external, .trade,
    .markets, .objective, .init, .closure]

/-- The name of a canonical section. -/
def name : CanonicalSection → String
  | .production => "production"
  | .factors => "factors"
  | .government => "government"
  | .savings => "savings"
  | .households => "households"
  | .prices => "prices"
  | .external => "external"
  | .trade => "trade"
  | .markets => "markets"
  | .objective => "objective"
  | .init => "init"
  | .closure => "closure"

/-- The canonical section of a name. -/
def ofName? (name : String) : Option CanonicalSection := all.find? (·.name == name)

/-- The canonical section of a name, or the refusal of the name. -/
def parse (name : String) : Except UnknownName CanonicalSection :=
  (ofName? name).elim (.error (.section name)) .ok

instance : ToString CanonicalSection := ⟨name⟩

/-- The names of all canonical sections as symbols, in order. -/
def symbols : List Symbol := all.map name

/-- A canonical section is written as its name. -/
def codec : Codec CanonicalSection :=
  ⟨.choice (all.map name), fun c => .text c.name, fun d => d.text?.bind ofName?⟩

end CanonicalSection

/-- What a family of models asks of a run: its name and the sections it needs. -/
structure Template where
  name : Symbol
  requiredSections : List Symbol
deriving DecidableEq, Inhabited

/-- The document of a template. -/
def Template.codec : Codec Template where
  shape :=
    .record "RunSpecTemplate"
      [Shape.required "name" .text, Shape.optional "required_sections" (.list .text) (.list [])]
  encode t := .record [("name", .text t.name), ("required_sections", .texts t.requiredSections)]
  decode? d := do
    return ⟨← (← d.field? "name").text?, ← (← d.field? "required_sections").texts?⟩

/-- Constraints on the sections of a run. -/
structure SectionRules where
  /-- Names that have to be there. -/
  required : List Symbol
  /-- Names that may be there; if there are none, every name may. -/
  allowed : List Symbol
  /-- Names that have to be there, with at least one block. -/
  requiredNonempty : List Symbol
deriving DecidableEq, Inhabited

namespace SectionRules

instance : EmptyCollection SectionRules := ⟨⟨[], [], []⟩⟩

/-- The rules that ask for the sections of a template and nothing else. -/
def ofTemplate (t : Template) : SectionRules := ⟨t.requiredSections, [], []⟩

/-- The rules that admit the canonical names only. -/
def canonical : SectionRules := ⟨[], CanonicalSection.symbols, []⟩

/-- Whether every name is admitted. -/
def isUnrestricted (r : SectionRules) : Bool := r.allowed.isEmpty

/-- The document of section rules. -/
def codec : Codec SectionRules where
  shape :=
    .record "SectionRules"
      [Shape.optional "required" (.list .text) (.list []),
        Shape.optional "allowed" (.list .text) (.list []),
        Shape.optional "required_nonempty" (.list .text) (.list [])]
  encode r :=
    .record
      [("required", .texts r.required), ("allowed", .texts r.allowed),
        ("required_nonempty", .texts r.requiredNonempty)]
  decode? d := do
    return ⟨← (← d.field? "required").texts?, ← (← d.field? "allowed").texts?,
      ← (← d.field? "required_nonempty").texts?⟩

end SectionRules

end Equilibrium
