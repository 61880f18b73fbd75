import Equilibrium.Expr.Document
import Equilibrium.Expr.Query

/-!
# Equation systems

An equation system collects what the blocks of a model state: declarations of variables and
parameters, which share one name space, and equations, which have another. Each statement is
accepted or refused as it comes, and the accepted ones keep their order.

Whatever is answered, there is a system to go on with (`EquationSystem.respond`): a name is taken
first and what goes with it is added after that, if the name was free.
-/

namespace Equilibrium

/-- A variable or parameter with the members that each of its indices runs over. -/
structure Declaration where
  name : Symbol
  /-- One list of members for each index; none for a scalar. -/
  domains : List (List Symbol)
deriving DecidableEq, Inhabited

namespace Declaration

/-- Whether there are no indices. -/
def isScalar (d : Declaration) : Bool := d.domains.isEmpty

/-- The document of a declaration. -/
def codec : Codec Declaration where
  shape :=
    .record "Declaration"
      [Shape.required "name" .text, Shape.optional "domains" (.list (.list .text)) (.list [])]
  encode d := .record [("name", .text d.name), ("domains", .list (d.domains.map .texts))]
  decode? d := do
    let domains ← (← d.field? "domains").list?
    return ⟨← (← d.field? "name").text?, ← domains.mapM Document.texts?⟩

end Declaration

/-- A model equation with its name. -/
structure NamedEquation where
  name : Symbol
  expr : Expr
deriving Inhabited

/-- The document of a named equation. -/
def NamedEquation.codec : Codec NamedEquation where
  shape :=
    .record "NamedEquation" [Shape.required "name" .text, Shape.required "expr" Expr.codec.shape]
  encode e := .record [("name", .text e.name), ("expr", Expr.codec.encode e.expr)]
  decode? d := do
    return ⟨← (← d.field? "name").text?, ← Expr.codec.decode? (← d.field? "expr")⟩

/-- What a block says to an equation system. -/
inductive Statement
  | variable (d : Declaration)
  | parameter (d : Declaration)
  | equation (name : Symbol) (expr : Expr)

/-- Why an equation system refuses a statement. -/
inductive Refusal
  /-- There is a variable or parameter of the name. -/
  | duplicateDeclaration (name : Symbol)
  /-- There is an equation of the name. -/
  | duplicateEquation (name : Symbol)
  /-- The expression of the equation is none. -/
  | notAnEquation (name : Symbol)
deriving DecidableEq

/-- The message of a refusal. -/
def Refusal.message : Refusal → String
  | .duplicateDeclaration n => "Duplicate declaration: " ++ n
  | .duplicateEquation n => "Duplicate equation: " ++ n
  | .notAnEquation n => "Equation '" ++ n ++ "' is not an equality expression"

/-- Declarations and equations in the order in which they were accepted, with an index of the
names that are taken. -/
structure EquationSystem where
  /-- The variables. -/
  vars : List Declaration
  /-- The parameters. -/
  params : List Declaration
  equations : List NamedEquation
  /-- The names of variables and parameters, the latest first. -/
  declared : List Symbol
  /-- The names of equations, the latest first. -/
  stated : List Symbol
deriving Inhabited

namespace EquationSystem

instance : EmptyCollection EquationSystem := ⟨⟨[], [], [], [], []⟩⟩

/-- Take a name for a declaration. A name that is taken already is refused. -/
def claim (s : EquationSystem) (name : Symbol) : Except Refusal Unit × EquationSystem :=
  let taken := { s with declared := s.declared.insert name }
  if name ∈ s.declared then (.error (.duplicateDeclaration name), taken) else (.ok (), taken)

/-- Declare a variable. -/
def declareVariable (s : EquationSystem) (d : Declaration) : Except Refusal Unit × EquationSystem :=
  match s.claim d.name with
  | (.ok (), s) => (.ok (), { s with vars := s.vars ++ [d] })
  | (.error r, s) => (.error r, s)

/-- Declare a parameter. -/
def declareParameter (s : EquationSystem) (d : Declaration) :
    Except Refusal Unit × EquationSystem :=
  match s.claim d.name with
  | (.ok (), s) => (.ok (), { s with params := s.params ++ [d] })
  | (.error r, s) => (.error r, s)

/-- Add an equation. An expression that is no equation is refused first, and its name stays
free. -/
def addEquation (s : EquationSystem) (name : Symbol) (expr : Expr) :
    Except Refusal Unit × EquationSystem :=
  if !expr.isEquation then (.error (.notAnEquation name), s)
  else
    let taken := { s with stated := s.stated.insert name }
    if name ∈ s.stated then (.error (.duplicateEquation name), taken)
    else (.ok (), { taken with equations := taken.equations ++ [⟨name, expr⟩] })

/-- The answer to a statement and the system after it. -/
def respond (s : EquationSystem) : Statement → Except Refusal Unit × EquationSystem
  | .variable d => s.declareVariable d
  | .parameter d => s.declareParameter d
  | .equation name expr => s.addEquation name expr

/-- The system after a statement, if it is accepted. -/
def accept (s : EquationSystem) (c : Statement) : Except Refusal EquationSystem :=
  (s.respond c).1.map fun _ => (s.respond c).2

/-- The expression of an equation. -/
def equation? (s : EquationSystem) (name : Symbol) : Option Expr :=
  (s.equations.find? (·.name == name)).map (·.expr)

/-- The names in an equation that are not declared: its variables that are no variables of the
system, then its parameters that are no parameters of it, both ascending. -/
def undeclaredIn (s : EquationSystem) (e : NamedEquation) : List (Symbol × Symbol) :=
  let missing := e.expr.varNames.filter (· ∉ s.vars.map (·.name)) ++
    e.expr.paramNames.filter (· ∉ s.params.map (·.name))
  missing.map fun n => (e.name, n)

/-- The undeclared names of every equation, each with the name of the equation, in the order of
the equations. -/
def undeclared (s : EquationSystem) : List (Symbol × Symbol) :=
  s.equations.flatMap s.undeclaredIn

end EquationSystem

end Equilibrium
