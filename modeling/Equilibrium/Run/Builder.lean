import Equilibrium.Run.Assembly
import Equilibrium.Run.Inputs

/-!
# Building a run step by step

A builder holds the parts of a run: it starts from a name, a template or an input file and is
changed one part at a time. Nothing is checked before `Parts.build`, which hands the parts on to the
assembly, so the order of the changes matters only where one replaces another.
-/

namespace Equilibrium.Parts

/-- The start from nothing but what every run needs: the baseline, no sections and no rules. -/
def start (name : Symbol) (sets : Sets) (mappings : Mappings) (closure : Closure) : Parts :=
  ⟨name, sets, mappings, [], closure, .baseline, ∅⟩

/-- The start from a template. -/
def ofTemplate (t : Template) (sets : Sets) (mappings : Mappings) (closure : Closure) : Parts :=
  { start t.name sets mappings closure with rules := .ofTemplate t }

/-- The start from the contents of an input file. -/
def ofInputs (r : RunInputs) : Parts :=
  ⟨r.name, r.sets, r.mappings, [], r.closure, r.scenario, r.rules⟩

/-- A change to the parts of a run. -/
inductive Change
  | scenario (s : Scenario)
  /-- Add a section behind those that are there. -/
  | section (s : Section)
  /-- Add several sections behind those that are there. -/
  | sections (more : List Section)
  | rules (r : SectionRules)
  | required (names : List Symbol)
  | allowed (names : List Symbol)
  | requiredNonempty (names : List Symbol)

/-- The parts after a change. -/
def change (p : Parts) : Change → Parts
  | .scenario s => { p with scenario := s }
  | .section s => { p with sections := p.sections ++ [s] }
  | .sections more => { p with sections := p.sections ++ more }
  | .rules r => { p with rules := r }
  | .required names => { p with rules := { p.rules with required := names } }
  | .allowed names => { p with rules := { p.rules with allowed := names } }
  | .requiredNonempty names => { p with rules := { p.rules with requiredNonempty := names } }

/-- The parts after several changes. -/
def changes (p : Parts) (cs : List Change) : Parts := cs.foldl change p

/-- The run of the parts that a builder holds. -/
def build (p : Parts) : Except AssemblyError Run :=
  assemble ⟨p.name, p.sets, p.mappings, p.sections, p.closure, p.scenario, p.rules⟩

end Equilibrium.Parts
