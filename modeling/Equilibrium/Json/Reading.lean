import Equilibrium.Document.Shape
import Equilibrium.Json.Text
import Equilibrium.Json.Tree

/-!
# Reading JSON by shape

`Json.read` turns a text into the document that conforms to a shape. The text is read from left to
right, and the first thing wrong decides: a part that is malformed, or one that does not fit. A
value that does not fit is refused as soon as its kind is known, a list or record at its bracket.
Fields that the shape does not have are passed over; they only have to be well-formed.

At most 127 lists and records may be nested in what is kept.

The same walk reads a document that is already there as a whole (`Source.held`). Two faults are
described in other words then, since nothing is malformed in such a document.
-/

namespace Equilibrium.Json

/-- Why a text cannot be read. -/
inductive Error
  /-- It is not JSON, or nests too deeply, or has a number out of range. -/
  | malformed
  /-- It is JSON up to a value that does not fit. -/
  | mismatch (m : Mismatch)

/-- Where a tree comes from. -/
inductive Source
  /-- A text that is being read. -/
  | text
  /-- A document that is there as a whole. -/
  | held
deriving DecidableEq

/-- How many lists and records may be nested. -/
def nestingLimit : Nat := 127

/-- Enter a list or record when so many more may be nested. -/
def descend : Nat → Except Error Nat
  | 0 => .error .malformed
  | depth + 1 => .ok depth

namespace Tree

/-- What stands at the head of a tree; none if that much is malformed. -/
def found? : Tree → Option Found
  | .broken => none
  | .null => some .null
  | .bool b => some (.bool b)
  | .number n => n.map .number
  | .text s => s.map .text
  | .list _ _ => some .list
  | .record _ _ => some .record

/-- The error of a tree in a place where something else is expected. -/
def refused (t : Tree) (expected : String) : Error :=
  match t.found? with
  | none => .malformed
  | some f => .mismatch (.wrongType f expected)

/-- A text. -/
def readText (expected : String) : Tree → Except Error String
  | .text (some s) => .ok s
  | t => .error (t.refused expected)

/-- A key of a record. -/
def readKey : Tree → Except Error String
  | .text (some s) => .ok s
  | _ => .error .malformed

/-- A number of 64 bits; integers are rounded. -/
def readReal : Tree → Except Error Document
  | .number (some n) => .ok (.number (.real n.toBinary64))
  | t => .error (t.refused "f64")

/-- A text as one of some names. -/
def nameAmong (names : List String) (s : String) : Except Error String :=
  if s ∈ names then .ok s else .error (.mismatch (.unknownVariant s names))

/-- One of some names. -/
def readName (names : List String) (t : Tree) : Except Error String := do
  nameAmong names (← t.readText "variant identifier")

/-- Nothing but null. -/
def readNull : Tree → Except Error Unit
  | .null => .ok ()
  | t => .error (t.refused "unit")

/-- The end of a list or record. -/
def readEnd (closed : Bool) : Except Error Unit :=
  if closed then .ok () else .error .malformed

mutual

/-- The whole of a value, with its fields as they stand. -/
def readWhole (depth : Nat) : Tree → Except Error Document
  | .broken => .error .malformed
  | .null => .ok .null
  | .bool b => .ok (.bool b)
  | .number n => (n.map Document.number).elim (.error .malformed) .ok
  | .text s => (s.map Document.text).elim (.error .malformed) .ok
  | .list items closed => do
    let depth ← descend depth
    let items ← readWholeItems depth items
    readEnd closed
    return .list items
  | .record members closed => do
    let depth ← descend depth
    let fields ← readWholeMembers depth members
    readEnd closed
    return .record fields

/-- `readWhole` for the items of a list. -/
def readWholeItems (depth : Nat) : List Tree → Except Error (List Document)
  | [] => .ok []
  | t :: ts => do
    let d ← readWhole depth t
    return d :: (← readWholeItems depth ts)

/-- `readWhole` for the members of a record. -/
def readWholeMembers (depth : Nat) : List (Tree × Tree) → Except Error (List (String × Document))
  | [] => .ok []
  | (k, t) :: ms => do
    let key ← k.readKey
    let d ← readWhole depth t
    return (key, d) :: (← readWholeMembers depth ms)

end

/-- One of some names, standing alone or as the key of a record whose value is null. -/
def readChoice (src : Source) (names : List String) (depth : Nat) : Tree → Except Error String
  | .text (some s) => nameAmong names s
  | .record members closed => do
    let _ ← descend depth
    match src, members with
    | .text, [] => throw .malformed
    | .text, (k, v) :: more =>
      let name ← nameAmong names (← k.readKey)
      readNull v
      readEnd (closed && more.isEmpty)
      return name
    | .held, [(k, v)] =>
      let name ← nameAmong names (← k.readKey)
      readNull v
      return name
    | .held, _ => throw (.mismatch (.wrongValue .record "map with a single key"))
  | t =>
    match src with
    | .text => .error .malformed
    | .held => .error (t.refused "string or map")

/-- The tag of a union and the other fields so far. -/
structure UnionParts where
  tag : Option String
  others : List (String × Document)

/-- The members of a record that stands for a union: the tag is read where it stands, the other
fields are taken as they are. -/
def readUnionMembers (u : Union) (depth : Nat) (parts : UnionParts) :
    List (Tree × Tree) → Except Error UnionParts
  | [] => .ok parts
  | (k, t) :: ms => do
    let key ← k.readKey
    if key = u.tag then
      if parts.tag.isSome then throw (.mismatch (.duplicateField key))
      let v ← t.readName u.variants
      readUnionMembers u depth { parts with tag := some v } ms
    else
      let d ← t.readWhole depth
      readUnionMembers u depth { parts with others := parts.others ++ [(key, d)] } ms

/-- Pass on the result of checking the body of a union. -/
def checked (u : Union) (variant : String) (body : Document) : Except Error Unit :=
  match u.check variant body with
  | .ok () => .ok ()
  | .error m => .error (.mismatch m)

/-- A member of a union: a record with the tag anywhere in it, or a list that begins with it. -/
def readUnion (u : Union) (depth : Nat) : Tree → Except Error Document
  | .record members closed => do
    let depth ← descend depth
    let parts ← readUnionMembers u depth ⟨none, []⟩ members
    readEnd closed
    match parts.tag with
    | none => throw (.mismatch (.missingField u.tag))
    | some v =>
      checked u v (.record parts.others)
      return .record ((u.tag, .text v) :: parts.others)
  | .list [] closed => do
    let _ ← descend depth
    readEnd closed
    throw (.mismatch (.missingField u.tag))
  | .list (t :: ts) closed => do
    let depth ← descend depth
    let v ← t.readName u.variants
    let rest ← readWholeItems depth ts
    readEnd closed
    checked u v (.list rest)
    return .list (.text v :: rest)
  | t => .error (t.refused ("internally tagged enum " ++ u.name))

end Tree

/-- One more member of a record: a field that `readField` knows, or anything well-formed under
another name. -/
def readMember (readField : String → (seen : Bool) → Tree → Option (Except Error Document))
    (read : List (String × Document)) (key value : Tree) :
    Except Error (List (String × Document)) := do
  let name ← key.readKey
  match readField name (Document.fieldOf? name read).isSome value with
  | some result => return (name, ← result) :: read
  | none => if value.isWhole then return read else throw .malformed

mutual

/-- The document that a tree gives for a shape. -/
def readShape (src : Source) (depth : Nat) : Shape → Tree → Except Error Document
  | .text, t => return .text (← t.readText "a string")
  | .real, t => t.readReal
  | .any, t => return (← t.readWhole depth).settled
  | .choice names, t => return .text (← t.readChoice src names depth)
  | .union u, t => t.readUnion u depth
  | .list item, .list ts closed => do
    let depth ← descend depth
    let items ← ts.mapM fun t => readShape src depth item t
    Tree.readEnd closed
    return .list items
  | .list _, t => .error (t.refused "a sequence")
  | .map value, .record ms closed => do
    let depth ← descend depth
    let entries ← ms.mapM fun (k, t) => do return (← k.readKey, ← readShape src depth value t)
    Tree.readEnd closed
    return .record (settleEntries entries)
  | .map _, t => .error (t.refused "a map")
  | .record _ fields, .record ms closed => do
    let depth ← descend depth
    let read ← ms.foldlM (fun read (k, t) =>
      readMember (fun name seen value => readField src depth fields name seen value) read k t) []
    Tree.readEnd closed
    match Shape.completeFields read fields with
    | .ok complete => return .record complete
    | .error m => throw (.mismatch m)
  | .record name fields, .list ts closed => do
    let depth ← descend depth
    return .record (← readItems src depth (name, fields.length) 0 fields ts closed)
  | .record name _, t => .error (t.refused ("struct " ++ name))

/-- The value of a field of the declaration; none if there is no field of that name. -/
def readField (src : Source) (depth : Nat) :
    List (String × Shape × Option Document) → String → (seen : Bool) → Tree →
      Option (Except Error Document)
  | [], _, _, _ => none
  | (field, shape, _) :: fields, name, seen, value =>
    if field = name then
      if seen then some (.error (.mismatch (.duplicateField name)))
      else some (readShape src depth shape value)
    else readField src depth fields name seen value

/-- The fields of a record that is written as the list of their values. Fields at the end may be
missing if something stands for them. -/
def readItems (src : Source) (depth : Nat) (whole : String × Nat) (position : Nat) :
    List (String × Shape × Option Document) → List Tree → (closed : Bool) →
      Except Error (List (String × Document))
  | [], [], closed => do
    Tree.readEnd closed
    return []
  | [], more, _ =>
    match src with
    | .text => .error .malformed
    | .held =>
      .error (.mismatch (.wrongLength (position + more.length) "fewer elements in array"))
  | (name, shape, _) :: fields, t :: ts, closed => do
    let d ← readShape src depth shape t
    return (name, d) :: (← readItems src depth whole (position + 1) fields ts closed)
  | (name, _, default) :: fields, [], closed => do
    Tree.readEnd closed
    match default with
    | some d => return (name, d) :: (← readItems src depth whole (position + 1) fields [] closed)
    | none =>
      throw (.mismatch (.wrongLength position
        ("struct " ++ whole.1 ++ " with " ++ counted whole.2 "element")))

end

/-- The document of a text that conforms to a shape. -/
def read (shape : Shape) (s : String) : Except Error Document := do
  let (tree, more) := Tree.ofText s
  let d ← readShape .text nestingLimit shape tree
  if more then throw .malformed else return d

/-- The value that a text stands for. -/
def decode {α : Type} (c : Codec α) (s : String) : Except Error α := do
  let d ← read c.shape s
  match c.decode? d with
  | some a => return a
  | none => throw .malformed

/-- The value that a document stands for which is already there as a whole. -/
def decodeHeld {α : Type} (c : Codec α) (d : Document) : Except Error α := do
  let d ← readShape .held nestingLimit c.shape (Tree.ofDocument d)
  match c.decode? d with
  | some a => return a
  | none => throw .malformed

/-- The compact text of a value. -/
def encode {α : Type} (c : Codec α) (a : α) : String := compact (c.encode a)

end Equilibrium.Json
