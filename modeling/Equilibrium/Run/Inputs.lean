import Equilibrium.Run.Basic

/-!
# Run inputs

Everything a run needs except its blocks, as it stands in an input file.
-/

namespace Equilibrium

/-- The contents of an input file. -/
structure RunInputs where
  name : Symbol
  sets : Sets
  mappings : Mappings
  closure : Closure
  scenario : Scenario
  rules : SectionRules

namespace RunInputs

/-- Inputs with the name of a template that require its sections. -/
def ofTemplate (t : Template) (sets : Sets) (mappings : Mappings) (closure : Closure) :
    RunInputs :=
  ⟨t.name, sets, mappings, closure, .baseline, .ofTemplate t⟩

/-- Equality of inputs, up to equality of the values of shocks. -/
def same (a b : RunInputs) : Bool :=
  a.name == b.name && a.sets == b.sets &&
    a.mappings.activityOutput.entries == b.mappings.activityOutput.entries &&
    a.closure == b.closure && a.scenario.same b.scenario && a.rules == b.rules

/-- The document of run inputs. Mappings, scenario and rules may be missing; they are then empty,
and the scenario is the baseline. -/
def codec : Codec RunInputs where
  shape :=
    .record "RunInputs"
      [Shape.required "name" .text,
        Shape.required "sets" Sets.codec.shape,
        Shape.optional "mappings" Mappings.codec.shape (Mappings.codec.encode ∅),
        Shape.required "closure" Closure.codec.shape,
        Shape.optional "scenario" Scenario.codec.shape (Scenario.codec.encode .baseline),
        Shape.optional "rules" SectionRules.codec.shape (SectionRules.codec.encode ∅)]
  encode r :=
    .record
      [("name", .text r.name), ("sets", Sets.codec.encode r.sets),
        ("mappings", Mappings.codec.encode r.mappings),
        ("closure", Closure.codec.encode r.closure),
        ("scenario", Scenario.codec.encode r.scenario),
        ("rules", SectionRules.codec.encode r.rules)]
  decode? d := do
    return ⟨← (← d.field? "name").text?, ← Sets.codec.decode? (← d.field? "sets"),
      ← Mappings.codec.decode? (← d.field? "mappings"),
      ← Closure.codec.decode? (← d.field? "closure"),
      ← Scenario.codec.decode? (← d.field? "scenario"),
      ← SectionRules.codec.decode? (← d.field? "rules")⟩

end RunInputs

end Equilibrium
