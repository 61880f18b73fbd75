import Equilibrium.Document.Shape
import Equilibrium.Quantity

/-!
# Benchmarks

A benchmark is a table of flows between accounts. Checking and calibration only ask it for its
accounts and for what each account receives and spends; a `FlowMatrix` answers from a sparse table
of flows. Sums run in the order of the keys.
-/

namespace Equilibrium

/-- The accounts of a table of flows and their totals. -/
structure Benchmark (ρ : Type) where
  /-- The accounts, in the order in which they are checked. -/
  accounts : List Symbol
  /-- What an account receives. -/
  rowTotal : Symbol → ρ
  /-- What an account spends. -/
  columnTotal : Symbol → ρ

/-- The benchmark of totals that are given outright; of several entries for one account the first
counts. -/
def Benchmark.ofTotals {ρ : Type} [Quantity ρ] (totals : List (Symbol × ρ × ρ)) : Benchmark ρ where
  accounts := totals.map (·.1)
  rowTotal account := ((totals.lookup account).map (·.1)).getD Quantity.zero
  columnTotal account := ((totals.lookup account).map (·.2)).getD Quantity.zero

/-- A sparse table of flows. The flow from a column to a row is found under the row, then under
the column. -/
structure FlowMatrix (ρ : Type) where
  flows : SymbolMap (SymbolMap ρ)
deriving Inhabited

namespace FlowMatrix

variable {ρ : Type}

instance : EmptyCollection (FlowMatrix ρ) := ⟨⟨∅⟩⟩

/-- The flows of a row. -/
def row (m : FlowMatrix ρ) (r : Symbol) : SymbolMap ρ := (m.flows.get? r).getD ∅

variable [Quantity ρ]

/-- Set the flow from a column to a row: how it went, and the table afterwards. An amount that is
not finite is refused. -/
def put (m : FlowMatrix ρ) (r c : Symbol) (value : ρ) : Except (NonFinite ρ) Unit × FlowMatrix ρ :=
  match ensureFinite "benchmark flow" value with
  | .ok value => (.ok (), ⟨m.flows.insert r ((m.row r).insert c value)⟩)
  | .error e => (.error e, m)

/-- The table with a flow that is set, if it is accepted. -/
def insert (m : FlowMatrix ρ) (r c : Symbol) (value : ρ) :
    Except (NonFinite ρ) (FlowMatrix ρ) :=
  (m.put r c value).1.map fun _ => (m.put r c value).2

/-- The flow from a column to a row. -/
def get (m : FlowMatrix ρ) (r c : Symbol) : ρ := ((m.row r).get? c).getD Quantity.zero

/-- Every name of a row or column, ascending. -/
def accounts (m : FlowMatrix ρ) : List Symbol :=
  sortedDistinct (m.flows.entries.flatMap fun e => e.1 :: e.2.keys)

/-- The sum of the flows of a row; the amount of a flow that is not there, if there is no row. -/
def rowTotal (m : FlowMatrix ρ) (account : Symbol) : ρ :=
  match m.flows.get? account with
  | some r => Quantity.total r.values
  | none => Quantity.zero

/-- The sum of the flows of a column over the rows that have one. -/
def columnTotal (m : FlowMatrix ρ) (account : Symbol) : ρ :=
  Quantity.total (m.flows.values.filterMap fun r => r.get? account)

/-- A table of flows as a benchmark. -/
def toBenchmark (m : FlowMatrix ρ) : Benchmark ρ := ⟨m.accounts, m.rowTotal, m.columnTotal⟩

/-- The document of a table of flows. Reading does not look whether a flow is finite. -/
def codec : Codec (FlowMatrix Float) where
  shape := .record "FlowMatrix" [Shape.optional "flows" (.map (.map .real)) (.record [])]
  encode m :=
    let rowDocument (r : SymbolMap Float) : Document :=
      .record (r.entries.map fun e => (e.1, .number (.real (.ofFloat e.2))))
    .record [("flows", .record (m.flows.entries.map fun e => (e.1, rowDocument e.2)))]
  decode? d := do
    let flows ← d.field? "flows"
    return ⟨← flows.mapOf? (Document.mapOf? fun x => x.real?.map Binary64.toFloat)⟩

end FlowMatrix

end Equilibrium
