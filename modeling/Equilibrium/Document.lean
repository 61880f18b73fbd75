import Equilibrium.SymbolMap
import Equilibrium.Numeral

/-!
# Documents

What a data file says, apart from how it is written: null, truth values, numbers, texts, lists and
records. A record is a list of fields in the order of the file, so a reader can see a repeated
field; `Document.settled` gives the form in which every record has ascending, distinct fields.
-/

namespace Equilibrium

/-- A number of a data file: a natural number below 2^64, a negative integer counted downwards
from -1, or a binary floating-point number. The integer 1 and the number 1.0 are different. -/
inductive Number
  | natural (n : UInt64)
  /-- The integer `-(k + 1)`, down to -2^63. -/
  | negative (k : Fin 0x8000000000000000)
  | real (x : Binary64)
deriving DecidableEq

namespace Number

/-- The number of an integer that fits into 64 bits, with or without a sign. -/
def ofInt? : Int → Option Number
  | .ofNat n => if n < UInt64.size then some (.natural (UInt64.ofNat n)) else none
  | .negSucc k => if h : k < 0x8000000000000000 then some (.negative ⟨k, h⟩) else none

/-- The value, rounded if it is a large integer. -/
def toBinary64 : Number → Binary64
  | .natural n => .ofInt n.toNat
  | .negative k => .ofInt (Int.negSucc k)
  | .real x => x

/-- Two numbers of the same kind and value; the two zeros are the same value. -/
def same : Number → Number → Bool
  | .natural m, .natural n => m == n
  | .negative j, .negative k => j == k
  | .real x, .real y => x.sameValue y
  | _, _ => false

end Number

/-- What a data file says. -/
inductive Document
  | null
  | bool (b : Bool)
  | number (n : Number)
  | text (s : String)
  | list (items : List Document)
  | record (fields : List (String × Document))
deriving Inhabited

namespace Document

/-- The document of a natural number. -/
def ofNat (n : Nat) : Document := .number (.natural (UInt64.ofNat n))

/-- A list of texts. -/
def texts (names : List String) : Document := .list (names.map .text)

/-- The first field of a name in a list of fields. -/
def fieldOf? (name : String) : List (String × Document) → Option Document
  | [] => none
  | (k, v) :: fs => if k = name then some v else fieldOf? name fs

/-- The first field of a name in a record. -/
def field? (d : Document) (name : String) : Option Document :=
  match d with
  | .record fields => fieldOf? name fields
  | _ => none

def text? : Document → Option String
  | .text s => some s
  | _ => none

def bool? : Document → Option Bool
  | .bool b => some b
  | _ => none

def list? : Document → Option (List Document)
  | .list items => some items
  | _ => none

def record? : Document → Option (List (String × Document))
  | .record fields => some fields
  | _ => none

/-- The number of a document, as a floating-point number. -/
def real? : Document → Option Binary64
  | .number n => some n.toBinary64
  | _ => none

/-- The texts of a list of texts. -/
def texts? (d : Document) : Option (List String) := d.list?.bind fun items => items.mapM text?

/-- The map of a record whose values are all read alike; of several fields of one name the last
counts. -/
def mapOf? {α : Type} (read : Document → Option α) (d : Document) : Option (SymbolMap α) := do
  let entries ← (← d.record?).mapM fun f => do return (f.1, ← read f.2)
  return .ofList entries

mutual

/-- The same document with the fields of every record ascending and distinct, where the last of
several fields of one name stays, and with null for numbers that are not finite. -/
def settled : Document → Document
  | .null => .null
  | .bool b => .bool b
  | .number (.real x) => if x.isFinite then .number (.real x) else .null
  | .number n => .number n
  | .text s => .text s
  | .list items => .list (settledItems items)
  | .record fields => .record (settleEntries (settledFields fields))

/-- `settled` on the items of a list. -/
def settledItems : List Document → List Document
  | [] => []
  | d :: ds => d.settled :: settledItems ds

/-- `settled` on the fields of a record, in their order. -/
def settledFields : List (String × Document) → List (String × Document)
  | [] => []
  | (k, d) :: fs => (k, d.settled) :: settledFields fs

end

theorem settledFields_of_forall :
    ∀ {fs : List (String × Document)}, (∀ f ∈ fs, f.2.settled = f.2) → settledFields fs = fs
  | [], _ => rfl
  | (k, d) :: fs, h => by
      have hd : d.settled = d := h (k, d) List.mem_cons_self
      have hfs := settledFields_of_forall fun f hf => h f (List.mem_cons_of_mem _ hf)
      simp only [settledFields, hd, hfs]

mutual

/-- Settling a settled document changes nothing. -/
theorem settled_settled : ∀ d : Document, d.settled.settled = d.settled
  | .null | .bool _ | .text _ | .number (.natural _) | .number (.negative _) => by
      simp [settled]
  | .number (.real x) => by
      by_cases h : x.isFinite <;> simp [settled, h]
  | .list items => by
      simp only [settled, settledItems_settled items]
  | .record fields => by
      have hsettled : settledFields (settleEntries (settledFields fields)) =
          settleEntries (settledFields fields) :=
        settledFields_of_forall fun f hf =>
          settled_of_mem_settledFields fields f (mem_settleEntries hf)
      simp only [settled, hsettled]
      rw [settleEntries_of_ascending (ascending_settleEntries _)]

theorem settledItems_settled :
    ∀ ds : List Document, settledItems (settledItems ds) = settledItems ds
  | [] => rfl
  | d :: ds => by
      simp only [settledItems, settled_settled d, settledItems_settled ds]

theorem settled_of_mem_settledFields :
    ∀ (fs : List (String × Document)) (f : String × Document),
      f ∈ settledFields fs → f.2.settled = f.2
  | [], _, h => by simp [settledFields] at h
  | (k, d) :: fs, f, h => by
      simp only [settledFields, List.mem_cons] at h
      rcases h with rfl | h
      · exact settled_settled d
      · exact settled_of_mem_settledFields fs f h

end

mutual

/-- Equality of documents, where numbers are compared by `Number.same` and fields in order. -/
def same : Document → Document → Bool
  | .null, .null => true
  | .bool a, .bool b => a == b
  | .number m, .number n => m.same n
  | .text s, .text t => s == t
  | .list xs, .list ys => sameItems xs ys
  | .record fs, .record gs => sameFields fs gs
  | _, _ => false

/-- `same` on lists of equal length. -/
def sameItems : List Document → List Document → Bool
  | [], [] => true
  | x :: xs, y :: ys => x.same y && sameItems xs ys
  | _, _ => false

/-- `same` on fields of the same names. -/
def sameFields : List (String × Document) → List (String × Document) → Bool
  | [], [] => true
  | (j, x) :: fs, (k, y) :: gs => j == k && x.same y && sameFields fs gs
  | _, _ => false

end

end Document

end Equilibrium
