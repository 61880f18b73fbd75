import Equilibrium.Yaml.Reading
import Equilibrium.Proofs.Document.Conforming
import Equilibrium.Proofs.Yaml.Tree

/-!
# Reading YAML by shape

A scalar that is written without quotes stands for itself (`Node.readScalar_of_styleOf`), so a
document is read back from its node (`Node.readWhole_ofDocument`), and a conforming document by its
shape (`readShape_ofDocument`). So the values of a lawful codec are read back from their texts
(`decode?_text`), as long as they nest within the limit. -/

namespace Equilibrium.Yaml

open Shape (Conforms Sound)

variable {n : Nat} {shape : Shape} {d : Document}

/-! ### Documents that are there as a whole -/

namespace Node

variable {depth : Nat}

theorem eq_of_real_or_text {s t : String} (x : Option Binary64)
    (h : some (match x with | some x => Document.number (.real x) | none => .text s) =
      some (.text t)) : t = s := by
  cases x with
  | some x => cases h
  | none => exact (Document.text.inj (Option.some.inj h)).symm

/-- A scalar that stands for a text stands for its own. -/
theorem eq_of_resolve {s t : String} (h : resolve s = some (.text t)) : t = s := by
  rw [resolve] at h
  split at h
  · cases h
  split at h
  · cases h
  split at h
  · cases h
  split at h
  · exact eq_of_real_or_text _ h
  · split at h
    · cases h
    · split at h
      · cases h
      · exact eq_of_real_or_text _ h

theorem resolve_of_isSelf {s : String} (h : isSelf s = true) : resolve s = some (.text s) := by
  rw [isSelf] at h
  split at h
  next t ht => rw [ht, eq_of_resolve ht]
  next => cases h

/-- A text without quotes stands for itself, and so does a text between quotes. -/
theorem readScalar_of_styleOf (s : String) :
    readScalar s (styleOf s = .plain) = some (.text s) := by
  by_cases hstyle : styleOf s = .plain
  · obtain ⟨-, hself, -⟩ | ⟨hother, -⟩ | hother | ⟨hother, -⟩ := styleOf_cases s
    · rw [readScalar, decide_eq_true hstyle, if_pos rfl, resolve_of_isSelf hself]
    all_goals
      rw [hother] at hstyle
      cases hstyle
  · rw [readScalar, decide_eq_false hstyle, if_neg Bool.false_ne_true]

/-- The words for null and the truth values stand for these. -/
theorem resolve_words : resolve "null" = some .null ∧ resolve "true" = some (.bool true) ∧
    resolve "false" = some (.bool false) := by
  simp [resolve, nullWords, trueWords, falseWords]

theorem readWholeItems_ofItems {items : List Document}
    (h : ∀ d ∈ items, readWhole depth (ofDocument d) = some d) :
    readWholeItems depth (ofItems items) = some items := by
  induction items with
  | nil => rfl
  | cons d ds ih =>
      have hds := ih fun e he => h e (List.mem_cons_of_mem d he)
      rw [ofItems, readWholeItems, h d List.mem_cons_self, hds]
      rfl

theorem readWholeMembers_ofFields {fields : List (String × Document)}
    (h : ∀ f ∈ fields, readWhole depth (ofDocument f.2) = some f.2) :
    readWholeMembers depth (ofFields fields) = some fields := by
  induction fields with
  | nil => rfl
  | cons f fs ih =>
      have hfs := ih fun g hg => h g (List.mem_cons_of_mem f hg)
      rw [ofFields, readWholeMembers, h f List.mem_cons_self, hfs]
      rfl

/-- A document that can be written as it is is read back from its node if its nesting fits. -/
theorem readWhole_ofDocument (d : Document) :
    ∀ depth, d.written = d → d.nesting ≤ depth → readWhole depth (ofDocument d) = some d := by
  induction d using Document.membersInduction with
  | step d ih =>
      intro depth hwritten hnesting
      cases d with
      | null => exact resolve_words.1
      | bool b =>
          cases b with
          | true => exact resolve_words.2.1
          | false => exact resolve_words.2.2
      | number n =>
          rw [ofDocument, readWhole, readScalar, if_pos rfl]
          exact resolve_writeNumber (Document.isFinite_of_written hwritten)
      | text s => exact readScalar_of_styleOf s
      | list items =>
          have hitems := Document.writtenItems_eq_self_iff.mp (Document.list.inj hwritten)
          rw [Document.nesting] at hnesting
          obtain ⟨depth, rfl⟩ : ∃ k, depth = k + 1 := ⟨depth - 1, by omega⟩
          have hwithin := Document.nestingOfItems_le_iff.mp (Nat.le_of_succ_le_succ hnesting)
          have hread := @readWholeItems_ofItems depth items fun e he => ih e he depth (hitems e he)
            (hwithin e he)
          rw [ofDocument, readWhole]
          simp only [descend, Option.bind_eq_bind, Option.bind_some, hread]
          rfl
      | record fields =>
          have hfields := Document.writtenFields_eq_self_iff.mp (Document.record.inj hwritten)
          rw [Document.nesting] at hnesting
          obtain ⟨depth, rfl⟩ : ∃ k, depth = k + 1 := ⟨depth - 1, by omega⟩
          have hwithin := Document.nestingOfFields_le_iff.mp (Nat.le_of_succ_le_succ hnesting)
          have hread := @readWholeMembers_ofFields depth fields fun f hf =>
            ih f.2 (List.mem_map_of_mem hf) depth (hfields f hf) (hwithin f hf)
          rw [ofDocument, readWhole]
          simp only [descend, Option.bind_eq_bind, Option.bind_some, hread]
          rfl

end Node

/-! ### Conforming documents -/

theorem mapM_ofItems {items : List Document} {f : Node → Option Document}
    (h : ∀ d ∈ items, f (Node.ofDocument d) = some d) :
    (Node.ofItems items).mapM f = some items := by
  induction items with
  | nil => rfl
  | cons d ds ih =>
      have hds := ih fun e he => h e (List.mem_cons_of_mem d he)
      rw [Node.ofItems, List.mapM_cons, h d List.mem_cons_self, hds]
      rfl

theorem mapM_ofFields {fields : List (String × Document)} {f : Node → Option Document}
    (h : ∀ e ∈ fields, f (Node.ofDocument e.2) = some e.2) :
    ((Node.ofFields fields).mapM fun (k, m) => do return (← k.readText, ← f m)) = some fields := by
  induction fields with
  | nil => rfl
  | cons e es ih =>
      have hes := ih fun g hg => h g (List.mem_cons_of_mem e hg)
      rw [Node.ofFields, List.mapM_cons, hes]
      simp only [Node.ofName, Node.readText, h e List.mem_cons_self]
      rfl

/-- A field of the declaration is read by its shape. -/
theorem readField_eq {fields : List (String × Shape × Option Document)}
    (hdistinct : (fields.map (·.1)).Nodup) {f : String × Shape × Option Document}
    (hf : f ∈ fields) (m : Node) :
    readField n fields f.1 m = some (readShape n f.2.1 (some m)) := by
  induction fields with
  | nil => cases hf
  | cons g gs ih =>
      obtain ⟨name, shape, default⟩ := g
      rw [List.map_cons, List.nodup_cons] at hdistinct
      rw [readField]
      obtain rfl | hmem := List.mem_cons.mp hf
      · exact if_pos rfl
      · have hne : name ≠ f.1 := by
          rintro rfl
          exact hdistinct.1 (List.mem_map.mpr ⟨f, hmem, rfl⟩)
        rw [if_neg hne]
        exact ih hdistinct.2 hmem

/-- The fields of a record are read in turn; the last one stands first. -/
theorem foldlM_readMember {fields : List (String × Shape × Option Document)}
    (hfields : (fields.map (·.1)).Nodup) {entries : List (String × Document)}
    (read : List (String × Document)) (hdistinct : ((entries ++ read).map (·.1)).Nodup)
    (hentries : ∀ e ∈ entries, ∃ f ∈ fields, f.1 = e.1 ∧
      readShape n f.2.1 (some (Node.ofDocument e.2)) = some e.2) :
    (Node.ofFields entries).foldlM (fun read (k, m) =>
      readMember (fun name value => readField n fields name value) read k m) read =
      some (entries.reverse ++ read) := by
  induction entries generalizing read with
  | nil => rfl
  | cons e es ih =>
      obtain ⟨k, d⟩ := e
      obtain ⟨f, hf, rfl, hread⟩ := hentries _ List.mem_cons_self
      have hseen : Document.fieldOf? f.1 read = none := by
        apply Document.fieldOf?_eq_none_iff.mpr
        intro hmem
        rw [List.cons_append, List.map_cons, List.nodup_cons] at hdistinct
        exact hdistinct.1 (by rw [List.map_append]; exact List.mem_append_right _ hmem)
      have hmember : readMember (fun name value => readField n fields name value) read
          (Node.ofName f.1) (Node.ofDocument d) = some ((f.1, d) :: read) := by
        rw [readMember, Node.ofName, Node.readText]
        simp only [Option.bind_eq_bind, Option.bind_some, readField_eq hfields hf, hseen, hread]
        rfl
      have hdistinct' : ((es ++ (f.1, d) :: read).map (·.1)).Nodup :=
        (List.perm_middle.map _).nodup_iff.mpr hdistinct
      have hes := ih ((f.1, d) :: read) hdistinct' fun g hg =>
        hentries g (List.mem_cons_of_mem _ hg)
      rw [Node.ofFields, List.foldlM_cons]
      dsimp only
      rw [hmember, Option.bind_eq_bind, Option.bind_some, hes, List.reverse_cons, List.append_assoc,
        List.singleton_append]

/-- A conforming document is read back from its node. -/
theorem readShape_ofDocument (h : Conforms n shape d) (hsound : shape.Sound n) :
    readShape n shape (some (Node.ofDocument d)) = some d := by
  induction h with
  | text s => rw [Node.ofDocument, readShape]; rfl
  | @real n x hx =>
      rw [Node.ofDocument, readShape, writeNumber, if_pos hx, String.ofList_toList, Option.bind_some,
        Node.readReal, real?_numeral hx]
      rfl
  | @any n d hsettled hwithin =>
      rw [readShape, Node.readWhole_ofDocument d n (Document.written_of_settled hsettled) hwithin]
      exact congrArg some hsettled
  | @choice n names s hknown =>
      have hname : (Node.ofName s).readName names = some s := by
        rw [Node.readName, Node.ofName, Node.readText, Option.filter_some, decide_eq_true hknown]
        rfl
      rw [Node.ofDocument, readShape, Option.bind_some, hname]
      rfl
  | @list n item items _ ih =>
      cases hsound with
      | list hitem =>
          have hitems := @mapM_ofItems items (fun m => readShape n item (some m)) fun d hd =>
            ih d hd hitem
          rw [Node.ofDocument, readShape]
          simp only [Node.items?, descend, Option.bind_eq_bind, Option.bind_some, hitems]
          rfl
  | @map n value entries hascending _ ih =>
      cases hsound with
      | map hvalue =>
          have hentries := @mapM_ofFields entries (fun m => readShape n value (some m)) fun e he =>
            ih e he hvalue
          rw [Node.ofDocument, readShape]
          simp only [Node.members?, descend, Option.bind_eq_bind, Option.bind_some]
          simp only [Option.bind_eq_bind] at hentries
          rw [hentries]
          exact congrArg (fun es => some (Document.record es))
            (settleEntries_of_ascending hascending)
  | @record n name fields entries hnames _ ih =>
      cases hsound with
      | record hdistinct hfields _ =>
          have hentries : ∀ e ∈ entries, ∃ f ∈ fields, f.1 = e.1 ∧
              readShape n f.2.1 (some (Node.ofDocument e.2)) = some e.2 := by
            intro e he
            obtain ⟨f, hf, hname, hzip⟩ := Shape.exists_mem_zip hnames he
            exact ⟨f, hf, hname, ih _ hzip (hfields f hf)⟩
          have hnodup : (entries.map (·.1)).Nodup := hnames ▸ hdistinct
          have hread := foldlM_readMember hdistinct [] (by rwa [List.append_nil]) hentries
          rw [List.append_nil] at hread
          have hcomplete : Shape.completeFields entries.reverse fields = .ok entries := by
            refine Shape.completeFields_eq hnames fun p hp => ?_
            have hread : Document.fieldOf? p.2.1 entries.reverse = some p.2.2 := by
              refine Document.fieldOf?_eq_some ?_ (List.mem_reverse.mpr (List.of_mem_zip hp).2)
              rw [List.map_reverse]
              exact List.nodup_reverse.mpr hnodup
            rw [← Shape.name_eq_of_mem_zip hnames hp, hread]
            rfl
          rw [Node.ofDocument, readShape]
          simp only [Node.members?, descend, Option.bind_eq_bind, Option.bind_some, hread,
            hcomplete]
          rfl

/-! ### Values -/

/-- A value whose document is a record is read back from its text if that nests within the limit. -/
theorem decode?_text {α : Type} {c : Codec α} {height : Nat} (hc : c.Lawful height)
    (hheight : height ≤ nestingLimit) (a : α) {fields : List (String × Document)}
    (hne : fields ≠ []) (hfields : c.encode a = .record fields)
    (h : (c.encode a).nesting ≤ nestingLimit) : decode? c (text (c.encode a)) = some a := by
  have hshape := readShape_ofDocument (hc.conforms a nestingLimit h) (hc.sound nestingLimit hheight)
  have hread : read c.shape (text (c.encode a)) = some (c.encode a) := by
    rw [read, hfields, Node.ofText_text hne, Option.bind_eq_bind, Option.bind_some, ← hfields]
    exact hshape
  rw [decode?, hread, Option.bind_eq_bind, Option.bind_some, hc.decode_encode]

end Equilibrium.Yaml
