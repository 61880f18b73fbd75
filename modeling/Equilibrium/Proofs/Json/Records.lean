import Mathlib.Data.List.Duplicate
import Equilibrium.Proofs.Json.Shape

/-!
# Records with fields left out, moved and added

A conforming document may be written in many ways: a field with its default value may be left out,
the fields of a record may stand in any order, and unknown fields may stand between them
(`StandsFor`). However it is written, it is read as the same document (`readShape_of_standsFor`). A
value in which some record lacks a field that has to be there, or repeats one (`Faulty`), is read as
nothing at all (`readShape_ne_ok_of_faulty`). -/

namespace Equilibrium.Json

open Shape (Conforms Sound)

/-- A value stands for a conforming document. -/
inductive StandsFor : Shape → Document → Tree → Prop
  | same {shape : Shape} (d : Document) : StandsFor shape d (.ofDocument d)
  /-- The members with known names stand for the fields of these names, and these names do not
  repeat. A field without a member has the value that its declaration has for it. -/
  | record {name : String} {fields : List (String × Shape × Option Document)}
      {entries : List (String × Document)} {members : List (String × Tree)}
      (names : entries.map (·.1) = fields.map (·.1))
      (distinct : ((members.map (·.1)).filter (· ∈ fields.map (·.1))).Nodup)
      (known : ∀ p ∈ fields.zip entries, ∀ t, (p.1.1, t) ∈ members → StandsFor p.1.2.1 p.2.2 t)
      (absent : ∀ p ∈ fields.zip entries, p.1.1 ∉ members.map (·.1) → p.1.2.2 = some p.2.2)
      (unknown : ∀ m ∈ members, m.1 ∉ fields.map (·.1) → m.2.IsProper) :
      StandsFor (.record name fields) (.record entries) (.record (Tree.ofMembers members) true)

/-- A record of the value lacks a field that has to be there, or repeats one. -/
inductive Faulty : Shape → Tree → Prop
  | missing {name : String} {fields : List (String × Shape × Option Document)}
      {members : List (String × Tree)} {f : String × Shape × Option Document} (declared : f ∈ fields)
      (required : f.2.2 = none) (absent : f.1 ∉ members.map (·.1)) :
      Faulty (.record name fields) (.record (Tree.ofMembers members) true)
  | repeated {name : String} {fields : List (String × Shape × Option Document)}
      {members : List (String × Tree)} {f : String × Shape × Option Document} (declared : f ∈ fields)
      (twice : (members.map (·.1)).Duplicate f.1) :
      Faulty (.record name fields) (.record (Tree.ofMembers members) true)
  | within {name : String} {fields : List (String × Shape × Option Document)}
      {members : List (String × Tree)} {f : String × Shape × Option Document} {t : Tree}
      (declared : f ∈ fields) (member : (f.1, t) ∈ members) (faulty : Faulty f.2.1 t) :
      Faulty (.record name fields) (.record (Tree.ofMembers members) true)

variable {src : Source} {n : Nat} {shape : Shape} {d : Document} {t : Tree}

/-! ### Values that stand for a document -/

theorem StandsFor.isProper (h : StandsFor shape d t) : t.IsProper := by
  induction h with
  | same d => exact Tree.isProper_ofDocument d
  | @record name fields entries members hnames _ _ _ hunknown ih =>
      refine .record (List.forall_mem_map.mpr fun m _ => ⟨some m.1, rfl⟩) ?_
      rw [Tree.ofMembers, List.forall_mem_map]
      intro m hm
      by_cases hknown : m.1 ∈ fields.map (·.1)
      · obtain ⟨f, hf, hname⟩ := List.mem_map.mp hknown
        obtain ⟨e, hzip⟩ := Shape.exists_field_mem_zip hnames hf
        exact ih (f, e) hzip m.2 (hname ▸ hm)
      · exact hunknown m hm hknown

/-- A record with distinct fields stands for another one if its fields with known names do. -/
theorem standsFor_record {name : String} {fields : List (String × Shape × Option Document)}
    {entries members : List (String × Document)} (hnames : entries.map (·.1) = fields.map (·.1))
    (hdistinct : (members.map (·.1)).Nodup)
    (h : ∀ p ∈ fields.zip entries,
      match Document.fieldOf? p.1.1 members with
      | some d => StandsFor p.1.2.1 p.2.2 (.ofDocument d)
      | none => p.1.2.2 = some p.2.2) :
    StandsFor (.record name fields) (.record entries) (.ofDocument (.record members)) := by
  rw [Tree.ofDocument, Tree.ofFields_eq_ofMembers]
  have hmembers : (members.map fun m => (m.1, Tree.ofDocument m.2)).map (·.1) =
      members.map (·.1) := by
    rw [List.map_map]
    rfl
  apply StandsFor.record hnames
  · rw [hmembers]
    exact hdistinct.filter _
  · intro p hp t ht
    obtain ⟨m, hm, heq⟩ := List.mem_map.mp ht
    obtain ⟨hname, rfl⟩ := Prod.mk.inj heq
    have hp := h p hp
    rwa [← hname, Document.fieldOf?_eq_some hdistinct hm] at hp
  · intro p hp habsent
    have hp := h p hp
    rw [hmembers] at habsent
    rwa [Document.fieldOf?_eq_none_iff.mpr habsent] at hp
  · rw [List.forall_mem_map]
    intro m _ _
    exact Tree.isProper_ofDocument m.2

/-- Whatever stands for a conforming document is read as the document. -/
theorem readShape_of_standsFor (h : StandsFor shape d t) (hconforms : Conforms n shape d)
    (hsound : shape.Sound n) : readShape src n shape t = .ok d := by
  induction h generalizing n with
  | same d => exact readShape_ofDocument src hconforms hsound
  | @record name fields entries members hnames hdistinct _ habsent hunknown ih =>
      cases hconforms with
      | record _ hmembers =>
          cases hsound with
          | record hfields hsounds _ =>
              apply readShape_record hfields hnames hdistinct
              · intro p hp t ht
                exact ih p hp t ht (hmembers p hp) (hsounds p.1 (List.of_mem_zip hp).1)
              · exact habsent
              · intro m hm hname
                exact (hunknown m hm hname).isWhole

/-! ### Values with a fault -/

section record

variable {fields : List (String × Shape × Option Document)} {members : List (String × Tree)}
  {read read' : List (String × Document)}

/-- A member that is read has an unknown name and is passed over, or a known one that was not read
before and is read by its shape. -/
theorem of_readMember {k : String}
    (h : readMember (fun name seen value => readField src n fields name seen value) read
      (.text (some k)) t = .ok read') :
    (k ∉ fields.map (·.1) ∧ read' = read) ∨
      (k ∉ read.map (·.1) ∧ ∃ f ∈ fields, f.1 = k ∧
        ∃ d, readShape src n f.2.1 t = .ok d ∧ read' = (k, d) :: read) := by
  unfold readMember Tree.readKey at h
  rw [ok_bind] at h
  split at h
  next result hresult =>
    obtain ⟨d, rfl, h⟩ := bind_eq_ok_iff.mp h
    cases h
    obtain ⟨hseen, f, hf, hname, hd⟩ := of_readField hresult
    right
    refine ⟨?_, f, hf, hname, d, hd, rfl⟩
    apply Document.fieldOf?_eq_none_iff.mp
    rwa [Option.isSome_eq_false_iff, Option.isNone_iff_eq_none] at hseen
  next hnone =>
    left
    refine ⟨readField_eq_none_iff.mp hnone, ?_⟩
    split at h <;> cases h
    rfl

/-- What is known of members that are read. -/
structure Accepted (src : Source) (n : Nat) (fields : List (String × Shape × Option Document))
    (members : List (String × Tree)) (read read' : List (String × Document)) : Prop where
  names : read'.map (·.1) =
    ((members.map (·.1)).filter (· ∈ fields.map (·.1))).reverse ++ read.map (·.1)
  distinct : (read.map (·.1)).Nodup → (read'.map (·.1)).Nodup
  gives : ∀ m ∈ members, m.1 ∈ fields.map (·.1) →
    ∃ f ∈ fields, f.1 = m.1 ∧ ∃ d, readShape src n f.2.1 m.2 = .ok d

theorem accepted_of_foldlM
    (h : (Tree.ofMembers members).foldlM (fun read (k, t) =>
      readMember (fun name seen value => readField src n fields name seen value) read k t) read =
        .ok read') : Accepted src n fields members read read' := by
  induction members generalizing read with
  | nil =>
      cases h
      exact ⟨rfl, id, nofun⟩
  | cons m ms ih =>
      unfold Tree.ofMembers at h
      rw [List.map_cons, List.foldlM_cons] at h
      obtain ⟨next, hnext, h⟩ := bind_eq_ok_iff.mp h
      have hrest := ih h
      obtain ⟨hunknown, rfl⟩ | ⟨hnew, f, hf, hname, d, hd, rfl⟩ := of_readMember hnext
      · constructor
        · rw [hrest.names]
          simp [hunknown]
        · exact hrest.distinct
        · rw [List.forall_mem_cons]
          exact ⟨fun hknown => absurd hknown hunknown, hrest.gives⟩
      · have hknown : m.1 ∈ fields.map (·.1) := hname ▸ List.mem_map_of_mem hf
        constructor
        · rw [hrest.names]
          simp [hknown]
        · intro hread
          exact hrest.distinct (List.nodup_cons.mpr ⟨hnew, hread⟩)
        · rw [List.forall_mem_cons]
          exact ⟨fun _ => ⟨f, hf, hname, d, hd⟩, hrest.gives⟩

/-- A record that is read has been accepted member by member, and was completed. -/
theorem of_readShape_record {name : String}
    (h : readShape src (n + 1) (.record name fields) (.record (Tree.ofMembers members) true) = .ok d) :
    ∃ read entries, Accepted src n fields members [] read ∧
      Shape.completeFields read fields = .ok entries := by
  unfold readShape at h
  simp only [descend, ok_bind] at h
  obtain ⟨read, hread, h⟩ := bind_eq_ok_iff.mp h
  obtain ⟨-, -, h⟩ := bind_eq_ok_iff.mp h
  split at h
  next entries hentries => exact ⟨read, entries, accepted_of_foldlM hread, hentries⟩
  next => cases h

end record

/-- A value with a fault is read as nothing at all. -/
theorem readShape_ne_ok_of_faulty (h : Faulty shape t) (hsound : shape.Sound n) (d : Document) :
    readShape src n shape t ≠ .ok d := by
  induction h generalizing n d with
  | @missing name fields members f hf hrequired habsent =>
      intro hread
      cases hsound
      obtain ⟨read, entries, haccepted, hcomplete⟩ := of_readShape_record hread
      obtain ⟨hnames, hfrom⟩ := Shape.of_completeFields hcomplete
      obtain ⟨e, hzip⟩ := Shape.exists_field_mem_zip hnames hf
      obtain hfound | hdefault := hfrom _ hzip
      · have hmem : f.1 ∈ read.map (·.1) :=
          List.mem_map_of_mem (Document.mem_of_fieldOf? hfound) (f := (·.1))
        rw [haccepted.names] at hmem
        simp only [List.map_nil, List.append_nil, List.mem_reverse, List.mem_filter] at hmem
        exact habsent hmem.1
      · rw [hrequired] at hdefault
        cases hdefault
  | @repeated name fields members f hf htwice =>
      intro hread
      cases hsound
      obtain ⟨read, entries, haccepted, -⟩ := of_readShape_record hread
      have hdistinct := haccepted.distinct List.nodup_nil
      rw [haccepted.names, List.map_nil, List.append_nil, List.nodup_reverse,
        List.nodup_iff_count_le_one] at hdistinct
      have hcount := List.duplicate_iff_two_le_count.mp htwice
      have hknown : decide (f.1 ∈ fields.map (·.1)) = true :=
        decide_eq_true (List.mem_map_of_mem hf)
      have hle := hdistinct f.1
      rw [List.count_filter (p := fun x => decide (x ∈ fields.map (·.1))) hknown] at hle
      omega
  | @within name fields members f t hf hmember _ ih =>
      intro hread
      cases hsound with
      | record hfields hsounds _ =>
          obtain ⟨read, entries, haccepted, -⟩ := of_readShape_record hread
          obtain ⟨g, hg, hname, e, he⟩ := haccepted.gives _ hmember (List.mem_map_of_mem hf)
          obtain rfl : g = f := List.inj_on_of_nodup_map hfields hg hf hname
          exact ih (hsounds g hg) e he

/-! ### Texts -/

section values

variable {α : Type} {c : Codec α} {height : Nat} {s : String}

/-- A text that stands for the document of a value is read as the value, as long as the value nests
within the limit. -/
theorem decode_of_standsFor (hc : c.Lawful height) (hheight : height ≤ nestingLimit) {a : α}
    (h : StandsFor c.shape (c.encode a) t) (hs : tokens s = treeTokens t)
    (hnesting : (c.encode a).nesting ≤ nestingLimit) : decode c s = .ok a := by
  apply decode_eq_ok hc (h.isProper.ofText_eq hs)
  exact readShape_of_standsFor h (hc.conforms a nestingLimit hnesting) (hc.sound nestingLimit hheight)

theorem exists_decode_eq_error_of_faulty (hc : c.Lawful height) (hheight : height ≤ nestingLimit)
    (h : Faulty c.shape t) (ht : t.IsProper) (hs : tokens s = treeTokens t) :
    ∃ e, decode c s = .error e := by
  cases hread : decode c s with
  | error e => exact ⟨e, rfl⟩
  | ok a =>
      obtain ⟨d, hd, -⟩ := bind_eq_ok_iff.mp hread
      unfold read at hd
      rw [ht.ofText_eq hs] at hd
      obtain ⟨d', hd', -⟩ := bind_eq_ok_iff.mp hd
      exact absurd hd' (readShape_ne_ok_of_faulty h (hc.sound nestingLimit hheight) d')

end values

end Equilibrium.Json
