import Equilibrium.Symbol
import Equilibrium.SymbolMap
import Equilibrium.Binary64
import Equilibrium.Decimal
import Equilibrium.Numeral
import Equilibrium.Document
import Equilibrium.Text.Invisible
import Equilibrium.Text
import Equilibrium.Document.Shape
import Equilibrium.Json.Text
import Equilibrium.Json.Token
import Equilibrium.Json.Tree
import Equilibrium.Json.Reading
import Equilibrium.Expr.Basic
import Equilibrium.Expr.Query
import Equilibrium.Expr.Order
import Equilibrium.Expr.Printed
import Equilibrium.Expr.Document
import Equilibrium.Vocabulary
import Equilibrium.Sets
import Equilibrium.Mappings
import Equilibrium.Closure
import Equilibrium.Scenario
import Equilibrium.Quantity
import Equilibrium.EquationSystem
import Equilibrium.Benchmark
import Equilibrium.Solution
import Equilibrium.Block
import Equilibrium.Section
import Equilibrium.Run.Basic
import Equilibrium.Run.Assembly
import Equilibrium.Run.Inputs
import Equilibrium.Run.Builder
import Equilibrium.Diagnostics
import Equilibrium.Yaml.Scalar
import Equilibrium.Yaml.Token
import Equilibrium.Yaml.Node
import Equilibrium.Yaml.Reading
import Equilibrium.Yaml.Text
import Equilibrium.Run.Files
import Equilibrium.Proofs.Checks
import Equilibrium.Proofs.Repeats
import Equilibrium.Proofs.SymbolMap
import Equilibrium.Proofs.Benchmark
import Equilibrium.Proofs.Binary64.Rounding
import Equilibrium.Proofs.Binary64.Order
import Equilibrium.Proofs.Decimal.Normal
import Equilibrium.Proofs.Decimal.Shortest
import Equilibrium.Proofs.Numeral.Layout
import Equilibrium.Proofs.Document
import Equilibrium.Proofs.Json.Parsing
import Equilibrium.Proofs.Json.Scan
import Equilibrium.Proofs.Json.Quote
import Equilibrium.Proofs.Json.Numbers
import Equilibrium.Proofs.Json.Roundtrip
import Equilibrium.Proofs.Json.Nesting
import Equilibrium.Proofs.Json.Finite
import Equilibrium.Proofs.Json.Whole
import Equilibrium.Proofs.Json.Union
import Equilibrium.Proofs.Expr.Grammar
import Equilibrium.Proofs.Expr.Lexemes
import Equilibrium.Proofs.Expr.Phrases
import Equilibrium.Proofs.Expr.Nodes
import Equilibrium.Proofs.Expr.Order
import Equilibrium.Proofs.Expr.Scope
import Equilibrium.Proofs.Expr.Evaluation
import Equilibrium.Proofs.Expr.Positions
import Equilibrium.Proofs.Expr.Binding
import Equilibrium.Proofs.Expr.Readback
import Equilibrium.Proofs.Expr.Reading
import Equilibrium.Proofs.Expr.Codec
import Equilibrium.Proofs.EquationSystem.Statements
import Equilibrium.Proofs.EquationSystem.History
import Equilibrium.Proofs.EquationSystem.References
import Equilibrium.Proofs.Run.Sections
import Equilibrium.Proofs.Run.Assembly
import Equilibrium.Proofs.Diagnostics
import Equilibrium.Proofs.Diagnostics.Reference
import Equilibrium.Proofs.Run.Reordering
import Equilibrium.Proofs.Run.Changes
import Equilibrium.Proofs.Run.Dialogues
import Equilibrium.Proofs.Run.Building
import Equilibrium.Proofs.Document.Conforming
import Equilibrium.Proofs.Json.Shape
import Equilibrium.Proofs.Json.Records
import Equilibrium.Proofs.Run.Inputs
import Equilibrium.Proofs.Yaml.Gaps
import Equilibrium.Proofs.Yaml.Scanner
import Equilibrium.Proofs.Yaml.Plain
import Equilibrium.Proofs.Yaml.Quoted
import Equilibrium.Proofs.Yaml.Block
import Equilibrium.Proofs.Yaml.Tokens
import Equilibrium.Proofs.Yaml.Scalars
import Equilibrium.Proofs.Yaml.Numbers
import Equilibrium.Proofs.Yaml.Nodes
import Equilibrium.Proofs.Yaml.Scan
import Equilibrium.Proofs.Yaml.Tree
import Equilibrium.Proofs.Yaml.Shape
import Equilibrium.Proofs.Run.Files
import Equilibrium.Proofs.Run.Boundary
import Equilibrium.Proofs.Run.Sparse
import Equilibrium.Proofs.Benchmark.Circulation
import Equilibrium.Proofs.Mappings
import Equilibrium.Proofs.Run.Canonical
import Equilibrium.Proofs.Binary64.Machine
import Equilibrium.Proofs.Quantity
import Equilibrium.Proofs.Benchmark.Finite
