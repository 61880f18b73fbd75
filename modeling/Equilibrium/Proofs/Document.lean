import Equilibrium.Document
import Equilibrium.Proofs.Binary64.Rounding
import Equilibrium.Proofs.SymbolMap

/-!
# Members, nesting and writable documents

Statements about documents are proved from their members up (`Document.membersInduction`). A map
that is read from a record has at each name what the last field of the name is read as
(`Document.get?_of_mapOf?`). A data file has no place for a number that is not finite:
`Document.written` has null in their stead, and the documents that a file can hold are those that it
leaves as they are. -/

namespace Equilibrium

/-! ### Numbers -/

namespace Number

/-- The value of the number is finite. -/
def IsFinite (n : Number) : Prop := n.toBinary64.isFinite = true

theorem isFinite_natural (n : UInt64) : (natural n).IsFinite :=
  Binary64.isFinite_ofInt n.toNat_lt

theorem isFinite_negative (k : Fin 0x8000000000000000) : (negative k).IsFinite := by
  refine Binary64.isFinite_ofInt ?_
  have hk := k.isLt
  rw [Int.natAbs_negSucc]
  omega

end Number

namespace Document

theorem eq_record_of_record? {d : Document} {fields : List (String × Document)}
    (h : d.record? = some fields) : d = .record fields := by
  cases d with
  | record => exact congrArg _ (Option.some.inj h)
  | _ => cases h

theorem exists_number_of_real? {d : Document} {x : Binary64} (h : d.real? = some x) :
    ∃ number, d = .number number ∧ number.toBinary64 = x := by
  cases d with
  | number number => exact ⟨number, rfl, Option.some.inj h⟩
  | _ => cases h

/-! ### Maps -/

/-- What stands in a record under a name; of several fields of the name the last counts. -/
def lastField? (d : Document) (name : String) : Option Document := d.record?.bind (lastValue · name)

theorem mem_of_lastField? {d x : Document} {name : String} (h : d.lastField? name = some x) :
    ∃ fields, d = .record fields ∧ (name, x) ∈ fields := by
  obtain ⟨fields, hfields, hx⟩ := Option.bind_eq_some_iff.mp h
  exact ⟨fields, eq_record_of_record? hfields, mem_of_lastValue hx⟩

section mapOf

variable {α : Type} {read : Document → Option α} {d : Document} {m : SymbolMap α}

theorem map_lastField? (h : d.mapOf? read = some m) (name : String) :
    (d.lastField? name).map read = (m.get? name).map some := by
  simp only [mapOf?, Option.bind_eq_bind, Option.bind_eq_some_iff] at h
  obtain ⟨fields, hfields, entries, hentries, heq⟩ := h
  cases heq
  rw [lastField?, hfields, Option.bind_some, SymbolMap.get?_ofList]
  refine lastValue_of_mapM (fun e b hb => ?_) hentries name
  obtain ⟨v, hv, heq⟩ := Option.bind_eq_some_iff.mp hb
  cases heq
  exact ⟨rfl, hv⟩

/-- The value of a map at a name is read from what stands under the name. -/
theorem get?_of_mapOf? (h : d.mapOf? read = some m) (name : String) :
    m.get? name = (d.lastField? name).bind read := by
  have hname := map_lastField? h name
  cases hd : d.lastField? name with
  | none =>
      rw [hd] at hname
      exact Option.map_eq_none_iff.mp hname.symm
  | some x =>
      rw [hd] at hname
      obtain ⟨v, hv, hx⟩ := Option.map_eq_some_iff.mp hname.symm
      exact hv.trans hx

/-- In a map that is read, whatever counts can be read. -/
theorem exists_read_of_mapOf? (h : d.mapOf? read = some m) {name : String} {x : Document}
    (hx : d.lastField? name = some x) : ∃ v, read x = some v := by
  have hname := map_lastField? h name
  rw [hx] at hname
  obtain ⟨v, -, hv⟩ := Option.map_eq_some_iff.mp hname.symm
  exact ⟨v, hv.symm⟩

end mapOf

/-! ### Members -/

/-- The documents right below a document. -/
def members : Document → List Document
  | .list items => items
  | .record fields => fields.map (·.2)
  | _ => []

theorem sizeOf_lt_of_mem_members {d m : Document} (h : m ∈ d.members) : sizeOf m < sizeOf d := by
  cases d with
  | list items =>
      have hlt : sizeOf m < sizeOf items := List.sizeOf_lt_of_mem h
      rw [list.sizeOf_spec]
      omega
  | record fields =>
      obtain ⟨⟨k, d⟩, hf, rfl⟩ := List.mem_map.mp h
      have hlt : sizeOf (k, d) < sizeOf fields := List.sizeOf_lt_of_mem hf
      simp only [Prod.mk.sizeOf_spec] at hlt
      show sizeOf d < sizeOf (record fields)
      rw [record.sizeOf_spec]
      omega
  | _ => cases h

/-- A property holds of every document if it passes from the members to the document. -/
theorem membersInduction {P : Document → Prop} (step : ∀ d, (∀ m ∈ d.members, P m) → P d)
    (d : Document) : P d :=
  step d fun m _ => membersInduction step m
termination_by sizeOf d
decreasing_by exact sizeOf_lt_of_mem_members ‹_›

/-! ### Nesting -/

mutual

/-- How many lists and records stand one in another at most. -/
def nesting : Document → Nat
  | .list items => nestingOfItems items + 1
  | .record fields => nestingOfFields fields + 1
  | _ => 0

/-- The greatest nesting among the items of a list. -/
def nestingOfItems : List Document → Nat
  | [] => 0
  | d :: ds => max (nesting d) (nestingOfItems ds)

/-- The greatest nesting among the fields of a record. -/
def nestingOfFields : List (String × Document) → Nat
  | [] => 0
  | (_, d) :: fs => max (nesting d) (nestingOfFields fs)

end

@[simp] theorem nesting_text (s : String) : (Document.text s).nesting = 0 := rfl

@[simp] theorem nesting_number (n : Number) : (Document.number n).nesting = 0 := rfl

theorem nestingOfItems_le_iff {items : List Document} {n : Nat} :
    nestingOfItems items ≤ n ↔ ∀ d ∈ items, d.nesting ≤ n := by
  induction items with
  | nil => simp [nestingOfItems]
  | cons d ds ih => rw [nestingOfItems, Nat.max_le, ih, List.forall_mem_cons]

theorem nestingOfFields_le_iff {fields : List (String × Document)} {n : Nat} :
    nestingOfFields fields ≤ n ↔ ∀ f ∈ fields, f.2.nesting ≤ n := by
  induction fields with
  | nil => simp [nestingOfFields]
  | cons f fs ih => rw [nestingOfFields, Nat.max_le, ih, List.forall_mem_cons]

theorem nesting_record_le {fields : List (String × Document)} {n : Nat}
    (h : ∀ f ∈ fields, f.2.nesting ≤ n) : (record fields).nesting ≤ n + 1 := by
  rw [nesting]
  exact Nat.succ_le_succ (nestingOfFields_le_iff.mpr h)

theorem nesting_texts_le {n : Nat} (names : List String) : (texts names).nesting ≤ n + 1 := by
  rw [texts, nesting]
  refine Nat.succ_le_succ (nestingOfItems_le_iff.mpr fun d hd => ?_)
  obtain ⟨s, -, rfl⟩ := List.mem_map.mp hd
  exact Nat.zero_le n

/-! ### What a file can hold -/

mutual

/-- The document with null for numbers that are not finite. -/
def written : Document → Document
  | .number (.real x) => if x.isFinite then .number (.real x) else .null
  | .list items => .list (writtenItems items)
  | .record fields => .record (writtenFields fields)
  | d => d

/-- `written` on the items of a list. -/
def writtenItems : List Document → List Document
  | [] => []
  | d :: ds => written d :: writtenItems ds

/-- `written` on the fields of a record. -/
def writtenFields : List (String × Document) → List (String × Document)
  | [] => []
  | (k, d) :: fs => (k, written d) :: writtenFields fs

end

theorem writtenItems_eq_self_iff {items : List Document} :
    writtenItems items = items ↔ ∀ d ∈ items, d.written = d := by
  induction items with
  | nil => simp [writtenItems]
  | cons d ds ih => rw [writtenItems, List.cons.injEq, ih, List.forall_mem_cons]

theorem writtenFields_eq_self_iff {fields : List (String × Document)} :
    writtenFields fields = fields ↔ ∀ f ∈ fields, f.2.written = f.2 := by
  induction fields with
  | nil => simp [writtenFields]
  | cons f fs ih =>
      rw [writtenFields, List.cons.injEq, ih, List.forall_mem_cons]
      exact and_congr_left' (by rw [Prod.ext_iff]; simp)

/-- A number that stays as it is when it is written is finite. -/
theorem isFinite_of_written {n : Number} (h : (Document.number n).written = .number n) :
    n.IsFinite := by
  cases n with
  | natural n => exact Number.isFinite_natural n
  | negative k => exact Number.isFinite_negative k
  | real x =>
      rw [written] at h
      split at h
      next hx => exact hx
      next => cases h

theorem nestingOfItems_writtenItems {items : List Document}
    (h : ∀ d ∈ items, d.written.nesting = d.nesting) :
    nestingOfItems (writtenItems items) = nestingOfItems items := by
  induction items with
  | nil => rfl
  | cons d ds ih =>
      rw [writtenItems, nestingOfItems, nestingOfItems, h d List.mem_cons_self,
        ih fun e he => h e (List.mem_cons_of_mem d he)]

theorem nestingOfFields_writtenFields {fields : List (String × Document)}
    (h : ∀ f ∈ fields, f.2.written.nesting = f.2.nesting) :
    nestingOfFields (writtenFields fields) = nestingOfFields fields := by
  induction fields with
  | nil => rfl
  | cons f fs ih =>
      rw [writtenFields, nestingOfFields, nestingOfFields, h f List.mem_cons_self,
        ih fun g hg => h g (List.mem_cons_of_mem f hg)]

theorem nesting_written (d : Document) : d.written.nesting = d.nesting := by
  induction d using membersInduction with
  | step d ih =>
      cases d with
      | list items =>
          have hitems : ∀ d ∈ items, d.written.nesting = d.nesting := ih
          rw [written, nesting, nesting, nestingOfItems_writtenItems hitems]
      | record fields =>
          have hfields : ∀ f ∈ fields, f.2.written.nesting = f.2.nesting := fun f hf =>
            ih f.2 (List.mem_map_of_mem hf)
          rw [written, nesting, nesting, nestingOfFields_writtenFields hfields]
      | number n =>
          cases n with
          | real x =>
              rw [written]
              split <;> rfl
          | _ => rfl
      | _ => rfl

end Document

end Equilibrium
