import Equilibrium.Benchmark
import Equilibrium.Closure
import Equilibrium.EquationSystem
import Equilibrium.Mappings
import Equilibrium.Scenario
import Equilibrium.Solution

/-!
# Blocks

A block is a component of a model, such as production, trade or households. It can be calibrated
against a benchmark, can build its part of the equation system, and can report on a solution.
Whatever a block does not provide is an error when asked for, never silently skipped.

What a block builds is a `Script`: statements to the equation system, where each next step may
depend on whether the last statement was accepted. `Script.ofSteps` is the script of a list of
steps that stops at the first one that fails.
-/

namespace Equilibrium

/-- What a block can be asked for. -/
inductive Operation
  | calibrate | build | report
deriving DecidableEq

/-- The name of an operation. -/
def Operation.name : Operation → String
  | .calibrate => "calibrate"
  | .build => "build"
  | .report => "report"

/-- Every operation, in the order in which a run asks for them. -/
def Operation.all : List Operation := [.calibrate, .build, .report]

/-- Why a block fails. -/
inductive BlockError
  | notImplemented (block : String) (operation : Operation)
  | invalidInput (block : String) (what : String)
  /-- The equation system refused a statement. -/
  | refused (r : Refusal)
deriving DecidableEq

/-- The message of a block error. -/
def BlockError.message : BlockError → String
  | .notImplemented b o => "Block '" ++ b ++ "' does not implement " ++ o.name
  | .invalidInput b what => "Block '" ++ b ++ "' received invalid input: " ++ what
  | .refused r => r.message

/-- What a block may look at when it builds. -/
structure Setting where
  name : Symbol
  sets : Sets
  mappings : Mappings
  closure : Closure
  scenario : Scenario

/-! ### Scripts -/

/-- A finite dialogue with an equation system. -/
inductive Script
  /-- The block is done, well or not. -/
  | done (result : Except BlockError Unit)
  /-- Make a statement and go on with the answer to it. -/
  | issue (s : Statement) (next : Except Refusal Unit → Script)

namespace Script

/-- Run a script on an equation system: how it ended, and the system it leaves. -/
def run : Script → EquationSystem → Except BlockError Unit × EquationSystem
  | .done result, system => (result, system)
  | .issue s next, system =>
    let (answer, system) := system.respond s
    (next answer).run system

/-- The script that makes the statements of a list in turn, up to the first step that fails or is
refused. -/
def ofSteps : List (Except BlockError Statement) → Script
  | [] => .done (.ok ())
  | .error e :: _ => .done (.error e)
  | .ok s :: steps =>
    .issue s fun
      | .ok () => ofSteps steps
      | .error r => .done (.error (.refused r))

end Script

/-! ### Emissions -/

/-- What an index of a declaration runs over. -/
inductive Domain
  | members (names : List Symbol)
  /-- The members of a core set of the run. -/
  | set (k : SetKind)

/-- One step of building a block. -/
inductive Emission
  | variable (name : Symbol) (domains : List Domain)
  | parameter (name : Symbol) (domains : List Domain)
  | equation (name : Symbol) (expr : Expr)
  /-- An equation that sets the price of the numéraire to one. -/
  | numeraire (name : Symbol)
  | fail (what : String)

/-- The members of a domain; outside a run the sets are empty. -/
def Domain.resolve (setting : Option Setting) : Domain → List Symbol
  | .members names => names
  | .set k => (setting.map fun s => s.sets.members k).getD []

/-- The equation that sets the price of the numéraire to one; outside a run its name is empty. -/
def numerairePrice (setting : Option Setting) : Expr :=
  let numeraire := (setting.map fun s => s.closure.numeraire).getD ""
  .eq (.var "PF" (some [.index numeraire])) (.real 1)

/-- The statement of an emission by a block, if it does not fail. -/
def Emission.statement (block : String) (setting : Option Setting) :
    Emission → Except BlockError Statement
  | .variable name domains => .ok (.variable ⟨name, domains.map (Domain.resolve setting)⟩)
  | .parameter name domains => .ok (.parameter ⟨name, domains.map (Domain.resolve setting)⟩)
  | .equation name expr => .ok (.equation name expr)
  | .numeraire name => .ok (.equation name (numerairePrice setting))
  | .fail what => .error (.invalidInput block what)

/-- The script of a list of emissions by a block. -/
def Emission.script (block : String) (emissions : List Emission) (setting : Setting) : Script :=
  .ofSteps (emissions.map (Emission.statement block (some setting)))

/-! ### Blocks -/

/-- The total that a block is calibrated to. -/
inductive Calibration
  /-- What an account receives. -/
  | row (account : Symbol)
  /-- What an account spends. -/
  | column (account : Symbol)

/-- The total of a calibration in a benchmark. -/
def Calibration.total (b : Benchmark Float) : Calibration → Float
  | .row account => b.rowTotal account
  | .column account => b.columnTotal account

/-- What a block reports: its scale, if it was calibrated, and the levels at its places. -/
structure BlockReport where
  values : List (Place × Option Float)
  scale : Option Float

/-- A component of a model. -/
structure Block where
  name : String
  /-- What it is calibrated to; none if it cannot be calibrated. -/
  calibration : Option Calibration
  /-- What it builds; none if it builds nothing. -/
  script : Option (Setting → Script)
  /-- The places it reports; none if it does not report. -/
  places : Option (List Place)
  /-- The scale from the last calibration. -/
  scale : Option Float

namespace Block

/-- The block that has only a name. -/
def bare (name : String) : Block := ⟨name, none, none, none, none⟩

/-- How a block is shown in traces. -/
def trace (b : Block) : String := "Block(" ++ b.name ++ ")"

/-- Calibrate a block with an elasticity: its scale is the total it is calibrated to times the
elasticity. -/
def calibrate (b : Block) (benchmark : Benchmark Float) (elasticity : Option Float) :
    Except BlockError Block :=
  match b.calibration with
  | none => .error (.notImplemented b.name .calibrate)
  | some c =>
    match elasticity with
    | none => .error (.invalidInput b.name "params must be a Real elasticity")
    | some e => .ok { b with scale := some (c.total benchmark * e) }

/-- Build a block into an equation system. -/
def build (b : Block) (setting : Setting) (system : EquationSystem) :
    Except BlockError Unit × EquationSystem :=
  match b.script with
  | none => (.error (.notImplemented b.name .build), system)
  | some script => (script setting).run system

/-- The report of a block on a solution. -/
def report (b : Block) (solution : Solution) : Except BlockError BlockReport :=
  match b.places with
  | none => .error (.notImplemented b.name .report)
  | some places => .ok ⟨places.map fun p => (p, solution.level? p), b.scale⟩

end Block

end Equilibrium
