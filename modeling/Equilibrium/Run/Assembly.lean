import Equilibrium.Run.Basic

/-!
# Putting a run together

A run is assembled from sections. Their names are checked first: none may stand twice, each must
be admitted, the required ones must be there, and some of them with a block. Then the sections are
laid out one after the other, and the core sets are validated. The first rule that is violated
decides, and within a rule the first name.
-/

namespace Equilibrium

/-- Why no run can be assembled. -/
inductive AssemblyError
  | duplicateSection (name : Symbol)
  /-- A section whose name is not admitted. -/
  | unknownSection (name : Symbol)
  | missingRequiredSection (name : Symbol)
  /-- A section that has to have blocks has none. -/
  | emptyRequiredSection (name : Symbol)
  /-- Several sections have a name that one section has to have blocks under. -/
  | ambiguousSection (name : Symbol) (count : Nat)
  | validation (e : ValidationError)
deriving DecidableEq

/-- The message of an assembly error. -/
def AssemblyError.message : AssemblyError → String
  | .duplicateSection n => "Duplicate section: " ++ n
  | .unknownSection n => "Unknown section: " ++ n ++ " (not in the allowed list)"
  | .missingRequiredSection n => "Missing required section: " ++ n
  | .emptyRequiredSection n => "Section must be non-empty: " ++ n
  | .ambiguousSection n count =>
    "Section " ++ n ++ " appears " ++ toString count ++ " times; expected exactly one"
  | .validation e => "Validation error: " ++ e.message

/-! ### Checks on section names -/

/-- The names of some sections in order. -/
def sectionNames (sections : List Section) : List Symbol := sections.map (·.name)

/-- No two sections have the same name. -/
def checkUnique (sections : List Section) : Except AssemblyError Unit :=
  match repeated (sectionNames sections) with
  | [] => .ok ()
  | n :: _ => .error (.duplicateSection n)

/-- Every section has one of the allowed names; if none are given, any name will do. -/
def checkAllowed (sections : List Section) (allowed : List Symbol) : Except AssemblyError Unit :=
  if allowed.isEmpty then .ok ()
  else
    match (sectionNames sections).find? (· ∉ allowed) with
    | none => .ok ()
    | some n => .error (.unknownSection n)

/-- Every required name is the name of a section. -/
def checkRequired (sections : List Section) (required : List Symbol) :
    Except AssemblyError Unit :=
  match required.find? (· ∉ sectionNames sections) with
  | none => .ok ()
  | some n => .error (.missingRequiredSection n)

/-- A name is the name of exactly one section, and that section has a block. -/
def checkNonempty (sections : List Section) (name : Symbol) : Except AssemblyError Unit :=
  match sections.filter (·.name == name) with
  | [] => .error (.missingRequiredSection name)
  | [s] => if s.isEmpty then .error (.emptyRequiredSection name) else .ok ()
  | several => .error (.ambiguousSection name several.length)

/-- Each of some names is the name of exactly one section, and that section has a block. This does
not rely on names being distinct. -/
def checkRequiredNonempty (sections : List Section) (names : List Symbol) :
    Except AssemblyError Unit :=
  names.forM (checkNonempty sections)

/-- All checks on section names, in order. -/
def checkSections (sections : List Section) (rules : SectionRules) :
    Except AssemblyError Unit := do
  checkUnique sections
  checkAllowed sections rules.allowed
  checkRequired sections rules.required
  checkRequiredNonempty sections rules.requiredNonempty

/-! ### Assembly -/

/-- The blocks of some sections, one section after the other. -/
def flattenSections (sections : List Section) : List Block := sections.flatMap (·.blocks)

/-- What a run is assembled from. -/
structure Parts where
  name : Symbol
  sets : Sets
  mappings : Mappings
  sections : List Section
  closure : Closure
  scenario : Scenario
  rules : SectionRules

namespace Parts

/-- The model of the sections, one after the other. -/
def model (p : Parts) : Model := ⟨flattenSections p.sections, p.sets, p.mappings⟩

/-- Assemble a run. -/
def assemble (p : Parts) : Except AssemblyError Run := do
  checkSections p.sections p.rules
  (Run.ofModel p.name p.model p.closure p.scenario).mapError .validation

/-- The parts with the name and the required sections of a template; the other rules stay. -/
def withTemplate (p : Parts) (t : Template) : Parts :=
  { p with name := t.name, rules := { p.rules with required := t.requiredSections } }

end Parts

end Equilibrium
