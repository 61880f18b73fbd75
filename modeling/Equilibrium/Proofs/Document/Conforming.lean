import Mathlib.Data.List.Nodup
import Equilibrium.Document.Shape
import Equilibrium.Proofs.Document

/-!
# Conforming documents

A document conforms to a shape within a depth if it looks as the shape says and nests no deeper
(`Shape.Conforms`): its records have the fields of the declaration in their order, its maps have
ascending keys, and what may be anything is settled. Unions have their own readers and are left out
here. A lawful codec (`Codec.Lawful`) goes back and forth between values and conforming documents.
-/

namespace Equilibrium

/-! ### Settled documents -/

namespace Document

theorem settledItems_eq_self_iff {items : List Document} :
    settledItems items = items ↔ ∀ d ∈ items, d.settled = d := by
  induction items with
  | nil => simp [settledItems]
  | cons d ds ih => rw [settledItems, List.cons.injEq, ih, List.forall_mem_cons]

theorem written_of_settled {d : Document} (h : d.settled = d) : d.written = d := by
  induction d using membersInduction with
  | step d ih =>
      cases d with
      | number n =>
          cases n with
          | real x =>
              by_cases hx : x.isFinite = true
              · rw [written, if_pos hx]
              · rw [settled, if_neg hx] at h
                cases h
          | _ => rfl
      | list items =>
          have hitems := settledItems_eq_self_iff.mp (list.inj h)
          have hwritten : ∀ e ∈ items, e.written = e := fun e he => ih e he (hitems e he)
          rw [written, writtenItems_eq_self_iff.mpr hwritten]
      | record fields =>
          have hfields : settleEntries (settledFields fields) = fields := record.inj h
          rw [written, writtenFields_eq_self_iff.mpr fun f hf => ?_]
          refine ih f.2 (List.mem_map_of_mem hf) ?_
          refine settled_of_mem_settledFields fields f (mem_settleEntries ?_)
          rw [hfields]
          exact hf
      | _ => rfl

theorem exists_of_mem_settledFields {fields : List (String × Document)} {f : String × Document}
    (h : f ∈ settledFields fields) : ∃ g ∈ fields, f = (g.1, g.2.settled) := by
  induction fields with
  | nil => cases h
  | cons g gs ih =>
      obtain rfl | h := List.mem_cons.mp h
      · exact ⟨g, List.mem_cons_self, rfl⟩
      · obtain ⟨k, hk, rfl⟩ := ih h
        exact ⟨k, List.mem_cons_of_mem g hk, rfl⟩

/-- Settling a document does not nest it deeper. -/
theorem nesting_settled_le (d : Document) : d.settled.nesting ≤ d.nesting := by
  induction d using membersInduction with
  | step d ih =>
      cases d with
      | number n =>
          cases n with
          | real x =>
              rw [settled]
              split <;> exact Nat.zero_le _
          | _ => exact Nat.le_refl _
      | list items =>
          have hitems : ∀ d ∈ items, d.settled.nesting ≤ d.nesting := ih
          suffices h : nestingOfItems (settledItems items) ≤ nestingOfItems items by
            simpa [settled, nesting] using h
          clear ih
          induction items with
          | nil => exact Nat.le_refl _
          | cons e es ihe =>
              have he := hitems e List.mem_cons_self
              have hes := ihe fun f hf => hitems f (List.mem_cons_of_mem e hf)
              rw [settledItems, nestingOfItems, nestingOfItems]
              omega
      | record fields =>
          suffices h : nestingOfFields (settleEntries (settledFields fields)) ≤
              nestingOfFields fields by
            simpa [settled, nesting] using h
          rw [nestingOfFields_le_iff]
          intro f hf
          obtain ⟨g, hg, rfl⟩ := exists_of_mem_settledFields (mem_settleEntries hf)
          exact (ih g.2 (List.mem_map_of_mem hg)).trans
            (nestingOfFields_le_iff.mp (Nat.le_refl _) g hg)
      | _ => exact Nat.le_refl _

/-! ### Fields of a record -/

theorem mem_of_fieldOf? {name : String} {fs : List (String × Document)} {d : Document}
    (h : fieldOf? name fs = some d) : (name, d) ∈ fs := by
  induction fs with
  | nil => cases h
  | cons f fs ih =>
      rw [fieldOf?] at h
      split at h
      next hname =>
        cases h
        exact hname ▸ List.mem_cons_self
      next => exact List.mem_cons_of_mem f (ih h)

theorem fieldOf?_eq_none_iff {name : String} {fs : List (String × Document)} :
    fieldOf? name fs = none ↔ name ∉ fs.map (·.1) := by
  induction fs with
  | nil => exact ⟨fun _ => nofun, fun _ => rfl⟩
  | cons f fs ih =>
      rw [fieldOf?, List.map_cons, List.mem_cons, not_or, ← ih]
      split
      next hname => exact ⟨nofun, fun h => absurd hname.symm h.1⟩
      next hname => exact ⟨fun h => ⟨Ne.symm hname, h⟩, fun h => h.2⟩

/-- Of distinct fields each is found by its name. -/
theorem fieldOf?_eq_some {fs : List (String × Document)} (hdistinct : (fs.map (·.1)).Nodup)
    {f : String × Document} (h : f ∈ fs) : fieldOf? f.1 fs = some f.2 := by
  induction fs with
  | nil => cases h
  | cons g gs ih =>
      rw [List.map_cons, List.nodup_cons] at hdistinct
      rw [fieldOf?]
      obtain rfl | h := List.mem_cons.mp h
      · exact if_pos rfl
      · have hne : g.1 ≠ f.1 := by
          intro heq
          exact hdistinct.1 (heq ▸ List.mem_map_of_mem h)
        rw [if_neg hne, ih hdistinct.2 h]

end Document

/-! ### Conforming documents -/

namespace Shape

/-- A document looks as a shape says, with records and lists at most so deep. -/
inductive Conforms : (depth : Nat) → Shape → Document → Prop
  | text {n : Nat} (s : String) : Conforms n .text (.text s)
  | real {n : Nat} {x : Binary64} (finite : x.isFinite = true) :
      Conforms n .real (.number (.real x))
  | any {n : Nat} {d : Document} (settled : d.settled = d) (within : d.nesting ≤ n) :
      Conforms n .any d
  | choice {n : Nat} {names : List String} {s : String} (known : s ∈ names) :
      Conforms n (.choice names) (.text s)
  | list {n : Nat} {item : Shape} {items : List Document}
      (members : ∀ d ∈ items, Conforms n item d) : Conforms (n + 1) (.list item) (.list items)
  | map {n : Nat} {value : Shape} {entries : List (String × Document)}
      (ascending : Ascending entries) (members : ∀ e ∈ entries, Conforms n value e.2) :
      Conforms (n + 1) (.map value) (.record entries)
  | record {n : Nat} {name : String} {fields : List (String × Shape × Option Document)}
      {entries : List (String × Document)} (names : entries.map (·.1) = fields.map (·.1))
      (members : ∀ p ∈ fields.zip entries, Conforms n p.1.2.1 p.2.2) :
      Conforms (n + 1) (.record name fields) (.record entries)

/-- Fields of records have distinct names, and what stands for a missing field conforms itself. -/
inductive Sound : (depth : Nat) → Shape → Prop
  | text {n : Nat} : Sound n .text
  | real {n : Nat} : Sound n .real
  | any {n : Nat} : Sound n .any
  | choice {n : Nat} (names : List String) : Sound n (.choice names)
  | list {n : Nat} {item : Shape} (sound : Sound n item) : Sound (n + 1) (.list item)
  | map {n : Nat} {value : Shape} (sound : Sound n value) : Sound (n + 1) (.map value)
  | record {n : Nat} {name : String} {fields : List (String × Shape × Option Document)}
      (distinct : (fields.map (·.1)).Nodup) (sound : ∀ f ∈ fields, Sound n f.2.1)
      (defaults : ∀ f ∈ fields, ∀ d ∈ f.2.2, Conforms n f.2.1 d) :
      Sound (n + 1) (.record name fields)

variable {n : Nat} {shape : Shape} {d : Document}

/-- Every field of a record has its declaration. -/
theorem exists_mem_zip {fields : List (String × Shape × Option Document)}
    {entries : List (String × Document)} (names : entries.map (·.1) = fields.map (·.1))
    {e : String × Document} (he : e ∈ entries) :
    ∃ f ∈ fields, f.1 = e.1 ∧ (f, e) ∈ fields.zip entries := by
  induction entries generalizing fields with
  | nil => cases he
  | cons g gs ih =>
      cases fields with
      | nil => cases names
      | cons f fs =>
          rw [List.map_cons, List.map_cons, List.cons.injEq] at names
          obtain rfl | he := List.mem_cons.mp he
          · exact ⟨f, List.mem_cons_self, names.1.symm, List.mem_cons_self⟩
          · obtain ⟨k, hk, hname, hzip⟩ := ih names.2 he
            exact ⟨k, List.mem_cons_of_mem f hk, hname, List.mem_cons_of_mem _ hzip⟩

/-- Every declaration has its field. -/
theorem exists_field_mem_zip {fields : List (String × Shape × Option Document)}
    {entries : List (String × Document)} (names : entries.map (·.1) = fields.map (·.1))
    {f : String × Shape × Option Document} (hf : f ∈ fields) : ∃ e, (f, e) ∈ fields.zip entries := by
  have hlength : entries.length = fields.length := by simpa using congrArg List.length names
  obtain ⟨i, hi, rfl⟩ := List.getElem_of_mem hf
  refine ⟨entries[i], List.mem_iff_getElem.mpr ⟨i, ?_, List.getElem_zip⟩⟩
  rw [List.length_zip]
  omega

/-- A field and its declaration have one name. -/
theorem name_eq_of_mem_zip {fields : List (String × Shape × Option Document)}
    {entries : List (String × Document)} (names : entries.map (·.1) = fields.map (·.1))
    {p : (String × Shape × Option Document) × String × Document} (hp : p ∈ fields.zip entries) :
    p.2.1 = p.1.1 := by
  induction entries generalizing fields with
  | nil => simp at hp
  | cons e es ih =>
      cases fields with
      | nil => cases names
      | cons f fs =>
          rw [List.map_cons, List.map_cons, List.cons.injEq] at names
          obtain rfl | hp := List.mem_cons.mp hp
          · exact names.1
          · exact ih names.2 hp

/-- A conforming document is written as it is. -/
theorem Conforms.written_eq (h : Conforms n shape d) : d.written = d := by
  induction h with
  | text | choice => rfl
  | real hx => rw [Document.written, if_pos hx]
  | any hsettled => exact Document.written_of_settled hsettled
  | list _ ih => rw [Document.written, Document.writtenItems_eq_self_iff.mpr ih]
  | map _ _ ih => rw [Document.written, Document.writtenFields_eq_self_iff.mpr ih]
  | record names _ ih =>
      rw [Document.written, Document.writtenFields_eq_self_iff.mpr fun e he => ?_]
      obtain ⟨f, -, -, hzip⟩ := exists_mem_zip names he
      exact ih _ hzip

/-- A conforming document nests within the depth. -/
theorem Conforms.nesting_le (h : Conforms n shape d) : d.nesting ≤ n := by
  induction h with
  | text | real | choice => exact Nat.zero_le _
  | any _ hwithin => exact hwithin
  | list _ ih =>
      rw [Document.nesting]
      exact Nat.succ_le_succ (Document.nestingOfItems_le_iff.mpr ih)
  | map _ _ ih => exact Document.nesting_record_le ih
  | record names _ ih =>
      refine Document.nesting_record_le fun e he => ?_
      obtain ⟨f, -, -, hzip⟩ := exists_mem_zip names he
      exact ih _ hzip

/-- The fields that were read, in whatever order, are put into the order of the declaration, with
what stands for a missing one in its place. -/
theorem completeFields_eq {fields : List (String × Shape × Option Document)}
    {entries read : List (String × Document)} (names : entries.map (·.1) = fields.map (·.1))
    (hread : ∀ p ∈ fields.zip entries, (Document.fieldOf? p.1.1 read).or p.1.2.2 = some p.2.2) :
    completeFields read fields = .ok entries := by
  induction fields generalizing entries with
  | nil =>
      obtain rfl : entries = [] := by simpa using names
      rfl
  | cons f fields ih =>
      cases entries with
      | nil => cases names
      | cons e entries =>
          rw [List.map_cons, List.map_cons, List.cons.injEq] at names
          have he := hread (f, e) List.mem_cons_self
          have hentries := ih names.2 fun p hp => hread p (List.mem_cons_of_mem _ hp)
          unfold completeFields
          rw [he, hentries, ← names.1]
          rfl

/-- Fields that are completed have the names of the declaration, and each was read or stands for a
missing one. -/
theorem of_completeFields {fields : List (String × Shape × Option Document)}
    {entries read : List (String × Document)} (h : completeFields read fields = .ok entries) :
    entries.map (·.1) = fields.map (·.1) ∧
      ∀ p ∈ fields.zip entries, Document.fieldOf? p.1.1 read = some p.2.2 ∨ p.1.2.2 = some p.2.2 := by
  induction fields generalizing entries with
  | nil =>
      cases h
      exact ⟨rfl, nofun⟩
  | cons f fields ih =>
      obtain ⟨name, shape, default⟩ := f
      rw [completeFields] at h
      split at h
      · cases h
      next d hd =>
        cases hrest : completeFields read fields with
        | error e =>
            rw [hrest] at h
            cases h
        | ok rest =>
            rw [hrest] at h
            cases h
            obtain ⟨hnames, hfrom⟩ := ih hrest
            refine ⟨congrArg (name :: ·) hnames, ?_⟩
            intro p hp
            obtain rfl | hp := List.mem_cons.mp hp
            · obtain hread | ⟨-, hdefault⟩ := Option.or_eq_some_iff.mp hd
              · exact .inl hread
              · exact .inr hdefault
            · exact hfrom p hp

/-- A record conforms if its values conform to the fields of the declaration one by one. -/
theorem conforms_record_iff {name : String} {fields : List (String × Shape × Option Document)} :
    Conforms n (.record name fields) d ↔ ∃ m values, n = m + 1 ∧
      d = .record ((fields.map (·.1)).zip values) ∧
        List.Forall₂ (fun f v => Conforms m f.2.1 v) fields values := by
  constructor
  · intro h
    cases h with
    | @record m _ _ entries hnames hmembers =>
        refine ⟨m, entries.map (·.2), rfl, ?_, ?_⟩
        · rw [← hnames, List.zip_map', List.map_id'']
          exact fun _ => rfl
        · rw [List.forall₂_map_right_iff, List.forall₂_iff_zip]
          refine ⟨by simpa using (congrArg List.length hnames).symm, fun h => hmembers _ h⟩
  · rintro ⟨m, values, rfl, rfl, hvalues⟩
    refine .record (List.map_fst_zip (by simp [hvalues.length_eq])) ?_
    induction hvalues with
    | nil => exact nofun
    | cons hv _ ih =>
        intro p hp
        obtain rfl | hp := List.mem_cons.mp hp
        · exact hv
        · exact ih p hp

end Shape

/-! ### Lawful codecs -/

/-- A codec goes back and forth between values and conforming documents. Its shape is sound within
every depth from some height on. -/
structure Codec.Lawful {α : Type} (c : Codec α) (height : Nat) : Prop where
  sound : ∀ n, height ≤ n → c.shape.Sound n
  conforms : ∀ a n, (c.encode a).nesting ≤ n → c.shape.Conforms n (c.encode a)
  decode_encode : ∀ a, c.decode? (c.encode a) = some a
  encode_of_decode : ∀ n d a, c.shape.Conforms n d → c.decode? d = some a → c.encode a = d

namespace Codec

theorem lawful_text : text.Lawful 0 where
  sound _ _ := .text
  conforms s _ _ := .text s
  decode_encode _ := rfl
  encode_of_decode n d s hd hs := by
    cases hd
    cases hs
    rfl

theorem mapM_text? (names : List String) : (names.map Document.text).mapM Document.text? = some names := by
  induction names with
  | nil => rfl
  | cons name names ih =>
      rw [List.map_cons, List.mapM_cons, ih]
      rfl

theorem lawful_texts : texts.Lawful 1 where
  sound n hn := by
    obtain ⟨m, rfl⟩ : ∃ m, n = m + 1 := ⟨n - 1, by omega⟩
    exact .list .text
  conforms names n hn := by
    obtain ⟨m, rfl⟩ : ∃ m, n = m + 1 :=
      ⟨n - 1, by simp [texts, Document.texts, Document.nesting] at hn; omega⟩
    refine .list fun d hd => ?_
    obtain ⟨s, -, rfl⟩ := List.mem_map.mp hd
    exact .text s
  decode_encode names := mapM_text? names
  encode_of_decode n d names hd hnames := by
    cases hd with
    | @list n item items hitems =>
        have htexts : ∃ names : List String, items = names.map Document.text := by
          clear hnames
          induction items with
          | nil => exact ⟨[], rfl⟩
          | cons d ds ih =>
              obtain ⟨names, rfl⟩ := ih fun e he => hitems e (List.mem_cons_of_mem d he)
              cases hitems d List.mem_cons_self with
              | text s => exact ⟨s :: names, rfl⟩
        obtain ⟨names', rfl⟩ := htexts
        have hread : texts.decode? (.list (names'.map .text)) = some names' := mapM_text? names'
        cases hread.symm.trans hnames
        rfl

/-- A codec of records is lawful if it is so field by field. -/
theorem lawful_of_fields {α : Type} {c : Codec α} {name : String}
    {fields : List (String × Shape × Option Document)} (values : α → List Document) {height : Nat}
    (hshape : c.shape = .record name fields)
    (hencode : ∀ a, c.encode a = .record ((fields.map (·.1)).zip (values a)))
    (hdistinct : (fields.map (·.1)).Nodup)
    (hsound : ∀ n, height ≤ n → ∀ f ∈ fields, f.2.1.Sound n ∧ ∀ d ∈ f.2.2, f.2.1.Conforms n d)
    (hvalues : ∀ a n,
      List.Forall₂ (fun f v => v.nesting ≤ n → f.2.1.Conforms n v) fields (values a))
    (hdecode : ∀ a, c.decode? (c.encode a) = some a)
    (hback : ∀ n ds a, List.Forall₂ (fun f v => f.2.1.Conforms n v) fields ds →
      c.decode? (.record ((fields.map (·.1)).zip ds)) = some a → values a = ds) :
    c.Lawful (height + 1) where
  sound n hn := by
    obtain ⟨m, rfl⟩ : ∃ m, n = m + 1 := ⟨n - 1, by omega⟩
    rw [hshape]
    have hm := hsound m (by omega)
    exact .record hdistinct (fun f hf => (hm f hf).1) (fun f hf => (hm f hf).2)
  conforms a n hn := by
    rw [hencode, Document.nesting] at hn
    obtain ⟨m, rfl⟩ : ∃ m, n = m + 1 := ⟨n - 1, by omega⟩
    rw [hshape, hencode, Shape.conforms_record_iff]
    refine ⟨m, values a, rfl, rfl, ?_⟩
    have hwithin := Document.nestingOfFields_le_iff.mp (Nat.le_of_succ_le_succ hn)
    have hlength := (hvalues a m).length_eq
    refine List.forall₂_iff_zip.mpr ⟨hlength, fun {f v} hmem => ?_⟩
    refine (List.forall₂_iff_zip.mp (hvalues a m)).2 hmem (hwithin (f.1, v) ?_)
    rw [List.zip_map_left]
    exact List.mem_map.mpr ⟨(f, v), hmem, rfl⟩
  decode_encode := hdecode
  encode_of_decode n d a hd ha := by
    rw [hshape, Shape.conforms_record_iff] at hd
    obtain ⟨m, ds, rfl, rfl, hds⟩ := hd
    rw [hencode, hback m ds a hds ha]

end Codec

end Equilibrium
