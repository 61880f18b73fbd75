import Equilibrium.Expr.Basic
import Equilibrium.Document.Shape

/-!
# Expressions as documents

The document of an expression is a record whose field `kind` names the node and whose other fields
are its parts. Reading accepts the fields in any order, passes over fields it does not know, and
also takes a list of the kind and the parts. A scalar reference has no field `indices`.

A document is read bottom-up: `Reading` is what one part says both as an expression and as a list
of expressions, so each part is visited once.
-/

namespace Equilibrium.Expr

/-! ### Writing -/

mutual

/-- The document of an expression. -/
def toDocument : Expr → Document
  | .index name => .record [("kind", .text "index"), ("name", .text name)]
  | .var name none => .record [("kind", .text "var"), ("name", .text name)]
  | .var name (some indices) =>
    .record [("kind", .text "var"), ("name", .text name), ("indices", .list (toDocuments indices))]
  | .param name none => .record [("kind", .text "param"), ("name", .text name)]
  | .param name (some indices) =>
    .record
      [("kind", .text "param"), ("name", .text name), ("indices", .list (toDocuments indices))]
  | .const value => .record [("kind", .text "const"), ("value", .number (.real value))]
  | .raw text => .record [("kind", .text "raw"), ("text", .text text)]
  | .neg e => .record [("kind", .text "neg"), ("expr", toDocument e)]
  | .add terms => .record [("kind", .text "add"), ("terms", .list (toDocuments terms))]
  | .mul factors => .record [("kind", .text "mul"), ("factors", .list (toDocuments factors))]
  | .div num den =>
    .record [("kind", .text "div"), ("num", toDocument num), ("den", toDocument den)]
  | .pow base exponent =>
    .record
      [("kind", .text "pow"), ("base", toDocument base), ("exponent", toDocument exponent)]
  | .sum i domain body =>
    .record
      [("kind", .text "sum"), ("index", .text i), ("domain", .texts domain),
        ("body", toDocument body)]
  | .prod i domain body =>
    .record
      [("kind", .text "prod"), ("index", .text i), ("domain", .texts domain),
        ("body", toDocument body)]
  | .eq lhs rhs =>
    .record [("kind", .text "eq"), ("lhs", toDocument lhs), ("rhs", toDocument rhs)]

/-- The documents of several expressions. -/
def toDocuments : List Expr → List Document
  | [] => []
  | e :: es => toDocument e :: toDocuments es

end

/-! ### Reading -/

/-- What a part of a document says. -/
structure Reading where
  /-- The part itself. -/
  source : Document
  /-- The part as an expression. -/
  expr : Except Mismatch Expr
  /-- The part as a list of expressions. -/
  exprs : Except Mismatch (List Expr)

/-- What a field of a node holds. -/
inductive Part
  | text
  | real
  | names
  | expr
  | exprs
  /-- A list of expressions, or null for a scalar; it may be missing. -/
  | indices
deriving DecidableEq

/-- The parts of a node, by name. -/
def Kind.parts : Kind → List (String × Part)
  | .index => [("name", .text)]
  | .var | .param => [("name", .text), ("indices", .indices)]
  | .const => [("value", .real)]
  | .raw => [("text", .text)]
  | .neg => [("expr", .expr)]
  | .add => [("terms", .exprs)]
  | .mul => [("factors", .exprs)]
  | .div => [("num", .expr), ("den", .expr)]
  | .pow => [("base", .expr), ("exponent", .expr)]
  | .sum | .prod => [("index", .text), ("domain", .names), ("body", .expr)]
  | .eq => [("lhs", .expr), ("rhs", .expr)]

namespace Reading

/-- A document in a place where something else is expected. -/
def refused {α : Type} (d : Document) (expected : String) : Except Mismatch α :=
  .error (.wrongType d.found expected)

/-- A document as a text. -/
def textOf : Document → Except Mismatch String
  | .text s => .ok s
  | d => refused d "a string"

/-- A part as a text. -/
def text (r : Reading) : Except Mismatch String := textOf r.source

/-- A part as a number. -/
def real (r : Reading) : Except Mismatch Binary64 :=
  match r.source with
  | .number n => .ok n.toBinary64
  | d => refused d "f64"

/-- A part as a list of names. -/
def names (r : Reading) : Except Mismatch (List String) :=
  match r.source with
  | .list items => items.mapM textOf
  | d => refused d "a sequence"

/-- A part as the indices of a reference. -/
def indices (r : Reading) : Except Mismatch (Option (List Expr)) :=
  match r.source with
  | .null => .ok none
  | _ => r.exprs.map some

/-- The first mismatch of a part. -/
def check (r : Reading) : Part → Except Mismatch Unit
  | .text => r.text.map fun _ => ()
  | .real => r.real.map fun _ => ()
  | .names => r.names.map fun _ => ()
  | .expr => r.expr.map fun _ => ()
  | .exprs => r.exprs.map fun _ => ()
  | .indices => r.indices.map fun _ => ()

end Reading

/-- The parts that were read for a node, by name. -/
abbrev Body := List (String × Reading)

namespace Body

/-- A part that has to be there. -/
def get (b : Body) (name : String) : Except Mismatch Reading :=
  match b.lookup name with
  | some r => .ok r
  | none => .error (.missingField name)

/-- The indices of a reference; none if the part is missing. -/
def indices (b : Body) : Except Mismatch (Option (List Expr)) :=
  match b.lookup "indices" with
  | some r => r.indices
  | none => .ok none

/-- The parts among some fields, each checked in the order of the fields. -/
def ofFields (parts : List (String × Part)) : (met : Body) → Body → Except Mismatch Body
  | met, [] => .ok met.reverse
  | met, (name, r) :: fields =>
    match parts.lookup name with
    | none => ofFields parts met fields
    | some part =>
      if (met.lookup name).isSome then .error (.duplicateField name)
      else do
        r.check part
        ofFields parts ((name, r) :: met) fields

/-- The first part that is missing though it has to be there. -/
def missing? (parts : List (String × Part)) (b : Body) : Option String :=
  (parts.find? fun p => p.2 ≠ .indices && (b.lookup p.1).isNone).map (·.1)

/-- The parts of a list of values, of which there may not be more; indices may be missing. -/
def ofItems (whole : String) (parts : List (String × Part)) (items : List Reading) :
    Except Mismatch Body := do
  let read ← (parts.zip items).mapM fun ((name, part), r) => do
    r.check part
    return (name, r)
  if (parts.drop items.length).any fun p => p.2 ≠ .indices then
    throw (.wrongLength items.length
      ("struct variant " ++ whole ++ " with " ++ counted parts.length "element"))
  else if parts.length < items.length then
    throw (.wrongLength items.length (counted parts.length "element" ++ " in sequence"))
  else return read

/-- The node of a kind with these parts. -/
def node (b : Body) : Kind → Except Mismatch Expr
  | .index => return .index (← (← b.get "name").text)
  | .var => return .var (← (← b.get "name").text) (← b.indices)
  | .param => return .param (← (← b.get "name").text) (← b.indices)
  | .const => return .const (← (← b.get "value").real)
  | .raw => return .raw (← (← b.get "text").text)
  | .neg => return .neg (← (← b.get "expr").expr)
  | .add => return .add (← (← b.get "terms").exprs)
  | .mul => return .mul (← (← b.get "factors").exprs)
  | .div => return .div (← (← b.get "num").expr) (← (← b.get "den").expr)
  | .pow => return .pow (← (← b.get "base").expr) (← (← b.get "exponent").expr)
  | .sum =>
    return .sum (← (← b.get "index").text) (← (← b.get "domain").names) (← (← b.get "body").expr)
  | .prod =>
    return .prod (← (← b.get "index").text) (← (← b.get "domain").names) (← (← b.get "body").expr)
  | .eq => return .eq (← (← b.get "lhs").expr) (← (← b.get "rhs").expr)

end Body

/-- The name of the type in messages. -/
def typeName : String := "EquationExpr"

/-- The name of a kind of node in messages: the type and the capitalized kind. -/
def Kind.fullName (k : Kind) : String := typeName ++ "::" ++ k.name.capitalize

/-- The node of a kind with some fields. -/
def ofFields (k : Kind) (fields : Body) : Except Mismatch Expr := do
  let b ← Body.ofFields k.parts [] fields
  match b.missing? k.parts with
  | some name => throw (.missingField name)
  | none => b.node k

/-- The node of a kind with a list of parts. -/
def ofItems (k : Kind) (items : List Reading) : Except Mismatch Expr := do
  let b ← Body.ofItems k.fullName k.parts items
  b.node k

/-- The kind that a document names, by its name or by its place among the kinds. -/
def Kind.ofDocument : Document → Except Mismatch Kind
  | .text s =>
    match ofName? s with
    | some k => .ok k
    | none => .error (.unknownVariant s (all.map name))
  | .number (.natural n) =>
    match all[n.toNat]? with
    | some k => .ok k
    | none =>
      .error (.wrongValue (.number (.natural n))
        ("variant index 0 <= i < " ++ toString all.length))
  | d => .error (.wrongType d.found "variant identifier")

/-- The kind that the fields of a record name, and the other fields. -/
def spanKind : (met : Option Kind) → Body → Except Mismatch (Kind × Body)
  | none, [] => .error (.missingField "kind")
  | some k, [] => .ok (k, [])
  | met, (name, r) :: fields =>
    if name = "kind" then
      if met.isSome then .error (.duplicateField "kind")
      else do
        let k ← Kind.ofDocument r.source
        spanKind (some k) fields
    else do
      let (k, others) ← spanKind met fields
      return (k, (name, r) :: others)

/-- The list of the expressions of some parts. -/
def exprsOf (items : List Reading) : Except Mismatch (List Expr) :=
  items.mapM Reading.expr

mutual

/-- What a document says as an expression and as a list of expressions. -/
def reading : Document → Reading
  | .list items =>
    let parts := readings items
    { source := .list items
      expr :=
        match parts with
        | [] => .error (.missingField "kind")
        | r :: rest => do ofItems (← Kind.ofDocument r.source) rest
      exprs := exprsOf parts }
  | .record fields =>
    let parts := fieldReadings fields
    { source := .record fields
      expr := do
        let (k, others) ← spanKind none parts
        ofFields k others
      exprs := Reading.refused (.record fields) "a sequence" }
  | d =>
    { source := d
      expr := Reading.refused d ("internally tagged enum " ++ typeName)
      exprs := Reading.refused d "a sequence" }

/-- The readings of the items of a list. -/
def readings : List Document → List Reading
  | [] => []
  | d :: ds => reading d :: readings ds

/-- The readings of the fields of a record. -/
def fieldReadings : List (String × Document) → Body
  | [] => []
  | (name, d) :: fs => (name, reading d) :: fieldReadings fs

end

/-- The expression of a document. -/
def ofDocument (d : Document) : Except Mismatch Expr := (reading d).expr

/-- The first mismatch of a node of a kind, given its other fields or the list of its parts. -/
def checkBody (variant : String) (body : Document) : Except Mismatch Unit := do
  let k ← Kind.ofDocument (.text variant)
  match body with
  | .record fields => (ofFields k (fieldReadings fields)).map fun _ => ()
  | .list items => (ofItems k (readings items)).map fun _ => ()
  | d => Reading.refused d ("internally tagged enum " ++ typeName)

/-- The names of the parts of a node, given the name of its kind. -/
def partNames (variant : String) : List String :=
  ((Kind.ofName? variant).map fun k => k.parts.map (·.1)).getD []

/-- Expressions as a union. -/
def union : Union := ⟨typeName, "kind", Kind.all.map Kind.name, partNames, checkBody⟩

/-- The documents of expressions. -/
def codec : Codec Expr := ⟨.union union, toDocument, fun d => (ofDocument d).toOption⟩

end Equilibrium.Expr
