import Equilibrium.Document.Shape

/-!
# Scenarios

A scenario is a name and its shocks. A shock has a name and any value that a data file can hold;
the scenario without shocks is the baseline, whatever its name.
-/

namespace Equilibrium

/-- The value of a shock: a document whose records have ascending, distinct fields and whose
numbers are finite. -/
structure Shock where
  value : Document
  settled : value.settled = value

namespace Shock

/-- The shock that a document stands for. -/
def ofDocument (d : Document) : Shock := ⟨d.settled, d.settled_settled⟩

/-- Equality of values: the integer 1 and the number 1.0 differ, the two zeros do not. -/
def same (s t : Shock) : Bool := s.value.same t.value

end Shock

/-- A named set of shocks. -/
structure Scenario where
  name : Symbol
  shocks : SymbolMap Shock

namespace Scenario

/-- The scenario of a name without shocks. -/
def named (name : Symbol) : Scenario := ⟨name, ∅⟩

/-- The scenario to which others are compared. -/
def baseline : Scenario := named "baseline"

instance : Inhabited Scenario := ⟨baseline⟩

/-- Set a shock. -/
def withShock (s : Scenario) (name : Symbol) (value : Shock) : Scenario :=
  { s with shocks := s.shocks.insert name value }

/-- The value of a shock. -/
def shock? (s : Scenario) (name : Symbol) : Option Shock := s.shocks.get? name

/-- Whether there are no shocks. -/
def isBaseline (s : Scenario) : Bool := s.shocks.isEmpty

/-- Whether two lists of shocks have the same names and the same values. -/
def sameShocks : List (Symbol × Shock) → List (Symbol × Shock) → Bool
  | [], [] => true
  | (m, s) :: ss, (n, t) :: ts => m == n && s.same t && sameShocks ss ts
  | _, _ => false

/-- Equality of scenarios, up to equality of the values of shocks. -/
def same (s t : Scenario) : Bool :=
  s.name == t.name && sameShocks s.shocks.entries t.shocks.entries

/-- The document of a scenario. -/
def codec : Codec Scenario where
  shape :=
    .record "ScenarioSpec"
      [Shape.required "name" .text, Shape.optional "shocks" (.map .any) (.record [])]
  encode s :=
    .record
      [("name", .text s.name),
        ("shocks", .record (s.shocks.entries.map fun e => (e.1, e.2.value)))]
  decode? d := do
    let name ← (← d.field? "name").text?
    let fields ← (← d.field? "shocks").record?
    return ⟨name, .ofList (fields.map fun f => (f.1, .ofDocument f.2))⟩

end Scenario

end Equilibrium
