import Equilibrium.Document.Shape
import Equilibrium.Yaml.Node

/-!
# Reading YAML by shape

`Yaml.read` turns a text into the document that conforms to a shape, or finds that it does not
fit; it does not say why. Where a text is expected, the characters of any scalar are taken as they
stand. Where a list, map or record is expected, nothing at all stands for an empty one. Fields that
the shape does not have are passed over. In a union everything but its tag is resolved, the keys
of mappings too.

At most 128 lists and mappings may be nested in what is kept.

Texts with anchors, aliases or tags have no tokens here and are not read.
-/

namespace Equilibrium.Yaml

/-- How many lists and mappings may be nested. -/
def nestingLimit : Nat := 128

/-- Enter a list or mapping when so many more may be nested. -/
def descend : Nat → Option Nat
  | 0 => none
  | depth + 1 => some depth

namespace Node

/-- The characters of a scalar. -/
def readText : Node → Option String
  | .scalar text _ => some text
  | _ => none

/-- A number. -/
def readReal : Node → Option Document
  | .scalar text true => (real? text.toList).map fun x => .number (.real x)
  | _ => none

/-- One of some names. -/
def readName (names : List String) (n : Node) : Option String :=
  n.readText.filter (· ∈ names)

/-- What a scalar stands for by itself: plain ones are resolved. -/
def readScalar (text : String) (plain : Bool) : Option Document :=
  if plain then resolve text else some (.text text)

mutual

/-- What a node stands for by itself, with the members of mappings under the characters of their
keys. -/
def readWhole (depth : Nat) : Node → Option Document
  | .scalar text plain => readScalar text plain
  | .list items => do return .list (← readWholeItems (← descend depth) items)
  | .mapping members => do return .record (← readWholeMembers (← descend depth) members)

/-- `readWhole` for the items of a list. -/
def readWholeItems (depth : Nat) : List Node → Option (List Document)
  | [] => some []
  | n :: ns => do
    let d ← readWhole depth n
    return d :: (← readWholeItems depth ns)

/-- `readWhole` for the members of a mapping. -/
def readWholeMembers (depth : Nat) : List (Node × Node) → Option (List (String × Document))
  | [] => some []
  | (k, n) :: ms => do
    let key ← k.readText
    let d ← readWhole depth n
    return (key, d) :: (← readWholeMembers depth ms)

end

/-! ### Unions -/

/-- What a scalar in a union stands for. A zero with a minus sign is a number, but not the place of
anything. -/
def readPartScalar (text : String) (plain : Bool) : Option Document :=
  (readScalar text plain).map fun d =>
    match d with
    | .number (.natural n) =>
      if text.toList.head? = some '-' then .number (.real .zero) else .number (.natural n)
    | d => d

/-- The name that a key stands for in a mapping with some fields: a text is a name, and a natural
number is the place of a field, or else a name that no field has. -/
def fieldName? (fields : List String) : Document → Option String
  | .text s => some s
  | .number (.natural n) => some (fields[n.toNat]?.getD (toString n.toNat))
  | _ => none

/-- The fields of a member of a union, if every key stands for a name. -/
def nameFields? (fields : List String) (members : List (Document × Document)) :
    Option (List (String × Document)) :=
  members.mapM fun (k, d) => do return (← fieldName? fields k, d)

/-- The record of a mapping in a union, where numbers name the fields of the member that the tag
names. A mapping with a key that is no name is no member, whatever else it holds, and stands for a
record without fields. -/
def partRecord (u : Union) (members : List (Document × Document)) : Document :=
  let tag? := members.findSome? fun (k, d) => if k.text? = some u.tag then some d else none
  .record ((nameFields? ((tag?.map u.fieldsOf).getD []) members).getD [])

mutual

/-- What a node in a union stands for: scalars are resolved, keys too. -/
def readPart (u : Union) (depth : Nat) : Node → Option Document
  | .scalar text plain => readPartScalar text plain
  | .list items => do return .list (← readParts u (← descend depth) items)
  | .mapping members => do return partRecord u (← readPartMembers u (← descend depth) members)

/-- `readPart` for the items of a list. -/
def readParts (u : Union) (depth : Nat) : List Node → Option (List Document)
  | [] => some []
  | n :: ns => do
    let d ← readPart u depth n
    return d :: (← readParts u depth ns)

/-- `readPart` for the keys and values of a mapping. -/
def readPartMembers (u : Union) (depth : Nat) :
    List (Node × Node) → Option (List (Document × Document))
  | [] => some []
  | (k, n) :: ms => do
    let key ← readPart u depth k
    let d ← readPart u depth n
    return (key, d) :: (← readPartMembers u depth ms)

end

/-- The members of a mapping that stands for a union: its tag, which may not be repeated, and the
other fields. -/
def readUnionMembers (u : Union) (depth : Nat) (tag : Option String) :
    List (Node × Node) → Option (String × List (Document × Document))
  | [] => tag.map fun v => (v, [])
  | (k, n) :: ms =>
    if k.readText = some u.tag then
      if tag.isSome then none
      else do readUnionMembers u depth (some (← n.readName u.variants)) ms
    else do
      let key ← k.readPart u depth
      let d ← n.readPart u depth
      let (v, others) ← readUnionMembers u depth tag ms
      return (v, (key, d) :: others)

/-- A member of a union: a mapping with the tag anywhere in it, or a list that begins with it. -/
def readUnion (u : Union) (depth : Nat) : Node → Option Document
  | .mapping members => do
    let (v, others) ← readUnionMembers u (← descend depth) none members
    let fields ← nameFields? (u.fields v) others
    let _ ← (u.check v (.record fields)).toOption
    return .record ((u.tag, .text v) :: fields)
  | .list (n :: ns) => do
    let depth ← descend depth
    let v ← n.readName u.variants
    let rest ← readParts u depth ns
    let _ ← (u.check v (.list rest)).toOption
    return .list (.text v :: rest)
  | _ => none

/-! ### Lists and mappings -/

/-- The items of a list, or of what stands for an empty one. -/
def items? : Option Node → Option (List Node)
  | none => some []
  | some (.list items) => some items
  | some (.scalar "" true) => some []
  | some _ => none

/-- The members of a mapping, or of what stands for an empty one. -/
def members? : Option Node → Option (List (Node × Node))
  | none => some []
  | some (.mapping members) => some members
  | some (.scalar "" true) => some []
  | some _ => none

end Node

/-- One more member of a mapping: a field that `readField` knows, or anything under another
name. -/
def readMember (readField : String → Node → Option (Option Document))
    (read : List (String × Document)) (key value : Node) : Option (List (String × Document)) := do
  let name ← key.readText
  match readField name value with
  | some result =>
    if (Document.fieldOf? name read).isSome then none else return (name, ← result) :: read
  | none => return read

mutual

/-- The document that a node gives for a shape; there may be no node. -/
def readShape (depth : Nat) : Shape → Option Node → Option Document
  | .text, n => n.bind fun n => n.readText.map .text
  | .real, n => n.bind Node.readReal
  | .any, n =>
    match n with
    | some n => (n.readWhole depth).map Document.settled
    | none => some .null
  | .choice names, n => n.bind fun n => (n.readName names).map .text
  | .union u, n => n.bind (Node.readUnion u depth)
  | .list item, n => do
    let items ← Node.items? n
    let depth ← descend depth
    return .list (← items.mapM fun n => readShape depth item (some n))
  | .map value, n => do
    let members ← Node.members? n
    let depth ← descend depth
    let entries ← members.mapM fun (k, n) => do
      return (← k.readText, ← readShape depth value (some n))
    return .record (settleEntries entries)
  | .record _ fields, n => do
    let members ← Node.members? n
    let depth ← descend depth
    let read ← members.foldlM (fun read (k, n) =>
      readMember (fun name value => readField depth fields name value) read k n) []
    return .record (← (Shape.completeFields read fields).toOption)

/-- The value of a field of the declaration; none if there is no field of that name. -/
def readField (depth : Nat) :
    List (String × Shape × Option Document) → String → Node → Option (Option Document)
  | [], _, _ => none
  | (field, shape, _) :: fields, name, value =>
    if field = name then some (readShape depth shape (some value))
    else readField depth fields name value

end

/-- The document of a text that conforms to a shape. -/
def read (shape : Shape) (s : String) : Option Document := do
  readShape nestingLimit shape (← Node.ofText s)

/-- The value that a text stands for. -/
def decode? {α : Type} (c : Codec α) (s : String) : Option α := do
  c.decode? (← read c.shape s)

end Equilibrium.Yaml
