import Equilibrium.Run.Basic

/-!
# Diagnostics

A diagnosis lists what is wrong with a model without stopping at the first finding. Findings have
a category and a severity; a `Report` keeps the messages of each category and severity in the
order in which they were found. A model is in order if it has no errors.
-/

namespace Equilibrium

/-- What a finding is about. -/
inductive Category
  | structural | closure | accounting
deriving DecidableEq

namespace Category

/-- Every category, in order. -/
def all : List Category := [.structural, .closure, .accounting]

/-- The name of a category. -/
def name : Category → String
  | .structural => "structural"
  | .closure => "closure"
  | .accounting => "accounting"

/-- The category of a name. -/
def ofName? (name : String) : Option Category := all.find? (·.name == name)

/-- A category is written as its name. -/
def codec : Codec Category :=
  ⟨.choice (all.map name), fun c => .text c.name, fun d => d.text?.bind ofName?⟩

end Category

/-- How bad a finding is. -/
inductive Severity
  | error | warning | note
deriving DecidableEq

/-- A message about a model. -/
structure Finding where
  category : Category
  severity : Severity
  message : String
deriving DecidableEq

/-- The messages of one category. -/
structure CategoryReport where
  errors : List String
  warnings : List String
  notes : List String
deriving DecidableEq, Inhabited

namespace CategoryReport

/-- Whether there are neither errors nor warnings. -/
def isClean (r : CategoryReport) : Bool := r.errors.isEmpty && r.warnings.isEmpty

/-- Add a message at the end. -/
def add (r : CategoryReport) (severity : Severity) (message : String) : CategoryReport :=
  match severity with
  | .error => { r with errors := r.errors ++ [message] }
  | .warning => { r with warnings := r.warnings ++ [message] }
  | .note => { r with notes := r.notes ++ [message] }

/-- The document of the messages of a category. -/
def codec : Codec CategoryReport where
  shape :=
    .record "CategoryReport"
      [Shape.required "errors" (.list .text), Shape.required "warnings" (.list .text),
        Shape.required "notes" (.list .text)]
  encode r :=
    .record
      [("errors", .texts r.errors), ("warnings", .texts r.warnings), ("notes", .texts r.notes)]
  decode? d := do
    return ⟨← (← d.field? "errors").texts?, ← (← d.field? "warnings").texts?,
      ← (← d.field? "notes").texts?⟩

end CategoryReport

/-- The messages of all categories. -/
structure Report where
  structural : CategoryReport
  closure : CategoryReport
  accounting : CategoryReport
deriving DecidableEq, Inhabited

namespace Report

instance : EmptyCollection Report := ⟨⟨⟨[], [], []⟩, ⟨[], [], []⟩, ⟨[], [], []⟩⟩⟩

/-- The messages of a category. -/
def category (r : Report) : Category → CategoryReport
  | .structural => r.structural
  | .closure => r.closure
  | .accounting => r.accounting

/-- Add a finding at the end of its list. -/
def add (r : Report) (f : Finding) : Report :=
  match f.category with
  | .structural => { r with structural := r.structural.add f.severity f.message }
  | .closure => { r with closure := r.closure.add f.severity f.message }
  | .accounting => { r with accounting := r.accounting.add f.severity f.message }

/-- The report of some findings. -/
def ofFindings (findings : List Finding) : Report := findings.foldl add ∅

/-- The errors of all categories. -/
def errors (r : Report) : List String := Category.all.flatMap fun c => (r.category c).errors

/-- The warnings of all categories. -/
def warnings (r : Report) : List String := Category.all.flatMap fun c => (r.category c).warnings

/-- The notes of all categories. -/
def notes (r : Report) : List String := Category.all.flatMap fun c => (r.category c).notes

/-- The number of errors in all categories. -/
def errorCount (r : Report) : Nat := r.errors.length

/-- The number of warnings in all categories. -/
def warningCount (r : Report) : Nat := r.warnings.length

/-- The number of notes in all categories. -/
def noteCount (r : Report) : Nat := r.notes.length

/-- Whether no category has an error; warnings and notes do not count. -/
def isOk (r : Report) : Bool := r.errorCount == 0

/-- The document of a report. -/
def codec : Codec Report where
  shape :=
    .record "DiagnosticReport" (Category.all.map fun c =>
      Shape.required c.name CategoryReport.codec.shape)
  encode r :=
    .record (Category.all.map fun c => (c.name, CategoryReport.codec.encode (r.category c)))
  decode? d := do
    return ⟨← CategoryReport.codec.decode? (← d.field? "structural"),
      ← CategoryReport.codec.decode? (← d.field? "closure"),
      ← CategoryReport.codec.decode? (← d.field? "accounting")⟩

end Report

/-! ### Findings about a model -/

/-- A name between single quotes. -/
def named (s : String) : String := "'" ++ s ++ "'"

/-- Empty core sets, and a model without blocks. -/
def structuralErrors (m : Model) : List String :=
  (m.sets.emptyKinds.map fun k => "core set " ++ named k.name ++ " is empty") ++
    if m.blocks.isEmpty then ["model has no blocks"] else []

/-- Repeated members, activities without an output, and outputs that are no commodities. -/
def structuralWarnings (m : Model) : List String :=
  let repeats := SetKind.all.flatMap fun k =>
    (m.sets.duplicates k).map fun n => named n ++ " appears more than once in " ++ k.name
  let unmapped := (m.mappings.unmappedActivities m.sets).map fun a =>
    "activity " ++ named a ++ " has no output commodity mapping"
  let unknown := (m.mappings.unknownOutputs m.sets).map fun (a, c) =>
    "activity " ++ named a ++ " maps to " ++ named c ++ ", which is not a commodity"
  repeats ++ unmapped ++ unknown

/-- Whether the numéraire is a commodity or a factor. -/
def closureFinding (m : Model) (c : Closure) : Finding :=
  match c.numeraireKind? m.sets with
  | some k => ⟨.closure, .note, "numeraire " ++ named c.numeraire ++ " found in " ++ k.name⟩
  | none =>
    ⟨.closure, .warning, "numeraire " ++ named c.numeraire ++ " is not in commodities or factors"⟩

/-- Whether an account receives about as much as it spends, both being finite. -/
def isBalanced (b : Benchmark Float) (account : Symbol) : Bool :=
  let row := b.rowTotal account
  let column := b.columnTotal account
  row.isFinite && column.isFinite && nearlyEqual .standard row column

/-- The message about an account that is not balanced. -/
def unbalanced (b : Benchmark Float) (account : Symbol) : String :=
  let amount (x : Float) : String := (Binary64.ofFloat x).text .plain
  "account " ++ named account ++ " is unbalanced: receipts " ++ amount (b.rowTotal account) ++
    " vs expenditures " ++ amount (b.columnTotal account)

/-- Accounts that are not balanced, and how many were checked. -/
def accountingFindings : Option (Benchmark Float) → List Finding
  | none =>
    [⟨.accounting, .note, "no benchmark data supplied; accounting checks skipped"⟩]
  | some b =>
    ((b.accounts.filter fun a => !isBalanced b a).map fun a =>
      (⟨.accounting, .error, unbalanced b a⟩ : Finding)) ++
    [⟨.accounting, .note,
      "checked row/column balance for " ++ toString b.accounts.length ++ " accounts"⟩]

/-- Everything there is to say about a model with a closure and perhaps a benchmark. -/
def findings (m : Model) (c : Closure) (b : Option (Benchmark Float)) : List Finding :=
  (structuralErrors m).map (⟨.structural, .error, ·⟩) ++
    (structuralWarnings m).map (⟨.structural, .warning, ·⟩) ++
    closureFinding m c :: accountingFindings b

/-- The report on a model with a closure and perhaps a benchmark. -/
def diagnose (m : Model) (c : Closure) (b : Option (Benchmark Float)) : Report :=
  .ofFindings (findings m c b)

/-- The report on a run. -/
def Run.diagnose (r : Run) (b : Option (Benchmark Float)) : Report :=
  Equilibrium.diagnose r.model r.closure b

end Equilibrium
