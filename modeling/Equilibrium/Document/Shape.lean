import Equilibrium.Document
import Equilibrium.Text

/-!
# Shapes of documents

A `Shape` says what a document has to look like to stand for a value of some type: which fields a
record has and which of them may be left out, which names a choice offers. Every data format reads
by shape, and hands over the *conforming* document: fields in the order of the declaration and all
present, keys of maps ascending, choices as texts. A `Codec` adds the passage between conforming
documents and the values of a type.

A `Mismatch` is the first place where a document does not fit its shape.
-/

namespace Equilibrium

/-- What stood in a place of a document. -/
inductive Found
  | null
  | bool (b : Bool)
  | number (n : Number)
  | text (s : String)
  | list
  | record

/-- How a document fails to fit a shape. -/
inductive Mismatch
  | missingField (name : String)
  | duplicateField (name : String)
  | unknownVariant (name : String) (known : List String)
  | wrongType (found : Found) (expected : String)
  | wrongValue (found : Found) (expected : String)
  | wrongLength (length : Nat) (expected : String)

/-- What stands at the head of a document. -/
def Document.found : Document → Found
  | .null => .null
  | .bool b => .bool b
  | .number n => .number n
  | .text s => .text s
  | .list _ => .list
  | .record _ => .record

/-- What was found, in the words of a message. -/
def Found.describe : Found → String
  | .null => "null"
  | .bool b => "boolean " ++ ticked (toString b)
  | .number (.natural n) => "integer " ++ ticked (toString n.toNat)
  | .number (.negative k) => "integer " ++ ticked (toString (Int.negSucc k))
  | .number (.real x) => "floating point " ++ ticked (x.text (.data true))
  | .text s => "string " ++ shown s
  | .list => "sequence"
  | .record => "map"

/-- The message of a mismatch. -/
def Mismatch.message : Mismatch → String
  | .missingField name => "missing field " ++ ticked name
  | .duplicateField name => "duplicate field " ++ ticked name
  | .unknownVariant name known =>
    "unknown variant " ++ ticked name ++ ", expected one of " ++
      ", ".intercalate (known.map ticked)
  | .wrongType found expected => "invalid type: " ++ found.describe ++ ", expected " ++ expected
  | .wrongValue found expected => "invalid value: " ++ found.describe ++ ", expected " ++ expected
  | .wrongLength length expected =>
    "invalid length " ++ toString length ++ ", expected " ++ expected

/-- A union whose members are told apart by one field. -/
structure Union where
  /-- The name of the union in messages. -/
  name : String
  /-- The field that names the member. -/
  tag : String
  /-- The names of the members. -/
  variants : List String
  /-- The names of the other fields of a member. -/
  fields : (variant : String) → List String
  /-- The first mismatch of the rest of a member: a record of its other fields, or the list of
  their values. -/
  check : (variant : String) → (body : Document) → Except Mismatch Unit

/-- The names of the other fields of the member that a document names, by its name or by its
place among the members. -/
def Union.fieldsOf (u : Union) : Document → List String
  | .text v => u.fields v
  | .number (.natural n) => (u.variants[n.toNat]?.map u.fields).getD []
  | _ => []

/-- What a document has to look like. -/
inductive Shape
  | text
  | real
  /-- Any document at all. -/
  | any
  /-- One of some names. -/
  | choice (names : List String)
  | list (item : Shape)
  /-- A map from names to documents of one shape. -/
  | map (value : Shape)
  /-- A record, with its name in messages. Each field has a name, a shape and perhaps a document
  to take if the field is missing. -/
  | record (name : String) (fields : List (String × Shape × Option Document))
  | union (u : Union)

/-- A field that has to be there. -/
def Shape.required (name : String) (shape : Shape) : String × Shape × Option Document :=
  (name, shape, none)

/-- A field that may be missing. -/
def Shape.optional (name : String) (shape : Shape) (default : Document) :
    String × Shape × Option Document :=
  (name, shape, some default)

/-- The fields of a record in the order of their declaration: those that were read, else what
stands for a missing one. -/
def Shape.completeFields (read : List (String × Document)) :
    List (String × Shape × Option Document) → Except Mismatch (List (String × Document))
  | [] => .ok []
  | (name, _, default) :: fields => do
    match (Document.fieldOf? name read).or default with
    | none => throw (.missingField name)
    | some d => return (name, d) :: (← completeFields read fields)

/-- The documents of the values of a type. -/
structure Codec (α : Type) where
  shape : Shape
  /-- The conforming document of a value. -/
  encode : α → Document
  /-- The value of a conforming document. -/
  decode? : Document → Option α

namespace Codec

/-- Texts stand for themselves. -/
def text : Codec String := ⟨.text, .text, Document.text?⟩

/-- Lists of texts. -/
def texts : Codec (List String) := ⟨.list .text, .texts, Document.texts?⟩

/-- Numbers of 64 bits. -/
def real : Codec Binary64 := ⟨.real, fun x => .number (.real x), Document.real?⟩

end Codec

end Equilibrium
