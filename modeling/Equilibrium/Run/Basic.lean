import Equilibrium.Section

/-!
# Runs

A run is a model (blocks in order, sets and mappings) with a name, a closure and a scenario. The
core sets of a run are never empty: that is part of its type, so `Run.ofModel` is the only way to
one.
-/

namespace Equilibrium

/-- The blocks of a model in order, with the sets and mappings they share. -/
structure Model where
  blocks : List Block
  sets : Sets
  mappings : Mappings

/-- A named model run. -/
structure Run where
  name : Symbol
  model : Model
  closure : Closure
  scenario : Scenario
  /-- No core set is empty. -/
  complete : model.sets.firstEmpty? = none

namespace Run

/-- The run of a model, unless a core set is empty. -/
def ofModel (name : Symbol) (model : Model) (closure : Closure) (scenario : Scenario) :
    Except ValidationError Run :=
  match h : model.sets.firstEmpty? with
  | some k => .error (.emptySet k)
  | none => .ok ⟨name, model, closure, scenario, h⟩

/-- The blocks in order. -/
def blocks (r : Run) : List Block := r.model.blocks

/-- The core sets. -/
def sets (r : Run) : Sets := r.model.sets

/-- The mappings. -/
def mappings (r : Run) : Mappings := r.model.mappings

/-- What the blocks may look at when they build. -/
def setting (r : Run) : Setting := ⟨r.name, r.sets, r.mappings, r.closure, r.scenario⟩

/-- The names of the blocks in order. -/
def blockNames (r : Run) : List String := r.blocks.map (·.name)

/-- The first block of a name. -/
def findBlock? (r : Run) (name : String) : Option Block := r.blocks.find? (·.name == name)

/-- Refuse a run of which a core set is empty. -/
def validate (r : Run) : Except ValidationError Unit := r.sets.validate

/-- Build blocks in order into an equation system, up to the first one that fails. -/
def buildBlocks (setting : Setting) :
    List Block → EquationSystem → Except BlockError Unit × EquationSystem
  | [], system => (.ok (), system)
  | b :: bs, system =>
    match b.build setting system with
    | (.ok (), system) => buildBlocks setting bs system
    | (.error e, system) => (.error e, system)

/-- Build every block in order into an equation system, up to the first one that fails. What was
accepted before stays. -/
def buildAll (r : Run) (system : EquationSystem) : Except BlockError Unit × EquationSystem :=
  buildBlocks r.setting r.blocks system

/-- The reports of all blocks in order, each with the name of its block, or the first failure. -/
def reportAll (r : Run) (solution : Solution) :
    Except BlockError (List (String × BlockReport)) :=
  r.blocks.mapM fun b => do return (b.name, ← b.report solution)

end Run

end Equilibrium
