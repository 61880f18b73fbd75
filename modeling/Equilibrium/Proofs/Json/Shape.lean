import Mathlib.Data.List.Nodup
import Equilibrium.Proofs.Document.Conforming
import Equilibrium.Proofs.Json.Nesting
import Equilibrium.Proofs.Json.Whole

/-!
# Reading JSON by shape

The members of a record are read by their names, in whatever order (`readShape_record`). So a
conforming document is read back from its tree (`readShape_ofDocument`), and whatever a text gives
for a sound shape is a conforming document (`readsConforming`). The values of a lawful codec are
read back from their texts (`decode_pretty`), as long as these nest within the limit; those that a
text gives do (`nesting_of_decode`).
-/

namespace Equilibrium.Json

open Shape (Conforms Sound)

variable {src : Source} {n : Nat} {shape : Shape} {d : Document}

/-! ### Conforming documents -/

theorem mapM_ofItems {items : List Document} {f : Tree → Except Error Document}
    (h : ∀ d ∈ items, f (Tree.ofDocument d) = .ok d) :
    (Tree.ofItems items).mapM f = .ok items := by
  induction items with
  | nil => rfl
  | cons d ds ih =>
      have hds := ih fun e he => h e (List.mem_cons_of_mem d he)
      rw [Tree.ofItems, List.mapM_cons, h d List.mem_cons_self, hds]
      rfl

theorem mapM_ofFields {fields : List (String × Document)} {f : Tree → Except Error Document}
    (h : ∀ e ∈ fields, f (Tree.ofDocument e.2) = .ok e.2) :
    ((Tree.ofFields fields).mapM fun (k, t) => do return (← k.readKey, ← f t)) = .ok fields := by
  induction fields with
  | nil => rfl
  | cons e es ih =>
      have hes := ih fun g hg => h g (List.mem_cons_of_mem e hg)
      rw [Tree.ofFields, List.mapM_cons, hes]
      simp only [Tree.readKey, h e List.mem_cons_self]
      rfl

/-- A field of the declaration is read by its shape. -/
theorem readField_eq {fields : List (String × Shape × Option Document)}
    (hdistinct : (fields.map (·.1)).Nodup) {f : String × Shape × Option Document} (hf : f ∈ fields)
    (t : Tree) : readField src n fields f.1 false t = some (readShape src n f.2.1 t) := by
  induction fields with
  | nil => cases hf
  | cons g gs ih =>
      obtain ⟨name, shape, default⟩ := g
      rw [List.map_cons, List.nodup_cons] at hdistinct
      rw [readField]
      obtain rfl | hmem := List.mem_cons.mp hf
      · exact if_pos rfl
      · have hne : name ≠ f.1 := by
          rintro rfl
          exact hdistinct.1 (List.mem_map.mpr ⟨f, hmem, rfl⟩)
        rw [if_neg hne]
        exact ih hdistinct.2 hmem

/-- A name that the declaration does not have is left to be passed over, and no other is. -/
theorem readField_eq_none_iff {fields : List (String × Shape × Option Document)} {name : String}
    {seen : Bool} {t : Tree} :
    readField src n fields name seen t = none ↔ name ∉ fields.map (·.1) := by
  induction fields with
  | nil => exact ⟨fun _ => nofun, fun _ => rfl⟩
  | cons g gs ih =>
      rw [readField, List.map_cons, List.mem_cons, not_or, ← ih]
      split
      next hname =>
        refine ⟨fun h => ?_, fun h => absurd hname.symm h.1⟩
        split at h <;> cases h
      next hname => exact ⟨fun h => ⟨Ne.symm hname, h⟩, fun h => h.2⟩

/-- The members of a record, given by their names. -/
def Tree.ofMembers (members : List (String × Tree)) : List (Tree × Tree) :=
  members.map fun m => (.text (some m.1), m.2)

theorem Tree.ofFields_eq_ofMembers (fields : List (String × Document)) :
    ofFields fields = ofMembers (fields.map fun f => (f.1, ofDocument f.2)) := by
  rw [ofFields_eq_map, ofMembers, List.map_map]
  rfl

section record

variable {fields : List (String × Shape × Option Document)} {entries : List (String × Document)}
  {members : List (String × Tree)}

/-- The members of a record whose names are known, with the documents that they stand for. -/
def keptMembers (entries : List (String × Document)) (members : List (String × Tree)) :
    List (String × Document) :=
  members.filterMap fun m => (Document.fieldOf? m.1 entries).map (m.1, ·)

theorem map_fst_keptMembers (entries : List (String × Document)) (members : List (String × Tree)) :
    (keptMembers entries members).map (·.1) =
      (members.map (·.1)).filter (· ∈ entries.map (·.1)) := by
  induction members with
  | nil => rfl
  | cons m ms ih =>
      unfold keptMembers at ih ⊢
      cases h : Document.fieldOf? m.1 entries with
      | none =>
          have hm : m.1 ∉ entries.map (·.1) := Document.fieldOf?_eq_none_iff.mp h
          simp only [List.filterMap_cons, h, Option.map_none, List.map_cons, List.filter_cons, hm,
            decide_false, Bool.false_eq_true, if_false, ih]
      | some d =>
          have hm : m.1 ∈ entries.map (·.1) :=
            List.mem_map_of_mem (Document.mem_of_fieldOf? h) (f := (·.1))
          simp only [List.filterMap_cons, h, Option.map_some, List.map_cons, List.filter_cons, hm,
            decide_true, if_true, ih]

/-- The members of a record are read in turn: those with a known name are kept, the last one first,
and the others are passed over. -/
theorem foldlM_readMember (hfields : (fields.map (·.1)).Nodup)
    (hnames : entries.map (·.1) = fields.map (·.1))
    (hknown : ∀ p ∈ fields.zip entries, ∀ t, (p.1.1, t) ∈ members →
      readShape src n p.1.2.1 t = .ok p.2.2)
    (hunknown : ∀ m ∈ members, m.1 ∉ fields.map (·.1) → m.2.isWhole = true)
    (read : List (String × Document))
    (hdistinct : ((keptMembers entries members ++ read).map (·.1)).Nodup) :
    (Tree.ofMembers members).foldlM (fun read (k, t) =>
      readMember (fun name seen value => readField src n fields name seen value) read k t) read =
      .ok ((keptMembers entries members).reverse ++ read) := by
  induction members generalizing read with
  | nil => rfl
  | cons m ms ih =>
      obtain ⟨k, t⟩ := m
      have hrest := ih (fun p hp t ht => hknown p hp t (List.mem_cons_of_mem _ ht))
        (fun m hm => hunknown m (List.mem_cons_of_mem _ hm))
      unfold Tree.ofMembers at hrest ⊢
      rw [List.map_cons, List.foldlM_cons]
      unfold keptMembers at hdistinct hrest ⊢
      dsimp only
      cases h : Document.fieldOf? k entries with
      | none =>
          have hk : k ∉ fields.map (·.1) := hnames ▸ Document.fieldOf?_eq_none_iff.mp h
          have hskip : readMember (fun name seen value => readField src n fields name seen value) read
              (.text (some k)) t = .ok read := by
            simp only [readMember, Tree.readKey, ok_bind, readField_eq_none_iff.mpr hk,
              hunknown (k, t) List.mem_cons_self hk, if_true]
            rfl
          rw [hskip, ok_bind]
          simp only [List.filterMap_cons, h, Option.map_none] at hdistinct ⊢
          exact hrest read hdistinct
      | some d =>
          obtain ⟨f, hf, rfl, hzip⟩ := Shape.exists_mem_zip hnames (Document.mem_of_fieldOf? h)
          have hread := hknown _ hzip t List.mem_cons_self
          simp only [List.filterMap_cons, h, Option.map_some] at hdistinct ⊢
          have hseen : Document.fieldOf? f.1 read = none := by
            apply Document.fieldOf?_eq_none_iff.mpr
            intro hmem
            rw [List.cons_append, List.map_cons, List.nodup_cons] at hdistinct
            exact hdistinct.1 (by rw [List.map_append]; exact List.mem_append_right _ hmem)
          have hkeep : readMember (fun name seen value => readField src n fields name seen value) read
              (.text (some f.1)) t = .ok ((f.1, d) :: read) := by
            simp only [readMember, Tree.readKey, ok_bind, hseen, Option.isSome_none,
              readField_eq hfields hf, hread]
            rfl
          rw [hkeep, ok_bind, hrest ((f.1, d) :: read) ((List.perm_middle.map _).nodup_iff.mpr hdistinct),
            List.reverse_cons, List.append_assoc, List.singleton_append]

/-- A record is read if its members have distinct known names, stand for the fields of these names,
and are well-formed otherwise, and if something stands for every field that is missing. -/
theorem readShape_record (hfields : (fields.map (·.1)).Nodup)
    (hnames : entries.map (·.1) = fields.map (·.1))
    (hdistinct : ((members.map (·.1)).filter (· ∈ fields.map (·.1))).Nodup)
    (hknown : ∀ p ∈ fields.zip entries, ∀ t, (p.1.1, t) ∈ members →
      readShape src n p.1.2.1 t = .ok p.2.2)
    (habsent : ∀ p ∈ fields.zip entries, p.1.1 ∉ members.map (·.1) → p.1.2.2 = some p.2.2)
    (hunknown : ∀ m ∈ members, m.1 ∉ fields.map (·.1) → m.2.isWhole = true) (name : String) :
    readShape src (n + 1) (.record name fields) (.record (Tree.ofMembers members) true) =
      .ok (.record entries) := by
  have hkept : ((keptMembers entries members).map (·.1)).Nodup := by
    rwa [map_fst_keptMembers, hnames]
  have hread := foldlM_readMember hfields hnames hknown hunknown [] (by rwa [List.append_nil])
  rw [List.append_nil] at hread
  have hcomplete : Shape.completeFields (keptMembers entries members).reverse fields =
      .ok entries := by
    apply Shape.completeFields_eq hnames
    intro p hp
    have hname := Shape.name_eq_of_mem_zip hnames hp
    have hentry : Document.fieldOf? p.1.1 entries = some p.2.2 :=
      hname ▸ Document.fieldOf?_eq_some (hnames ▸ hfields) (List.of_mem_zip hp).2
    by_cases hmem : p.1.1 ∈ members.map (·.1)
    · obtain ⟨m, hm, hmname⟩ := List.mem_map.mp hmem
      have hkeptMember : (p.1.1, p.2.2) ∈ (keptMembers entries members).reverse := by
        rw [List.mem_reverse, keptMembers, List.mem_filterMap]
        exact ⟨m, hm, by rw [hmname, hentry]; rfl⟩
      have hfound : Document.fieldOf? p.1.1 (keptMembers entries members).reverse = some p.2.2 := by
        refine Document.fieldOf?_eq_some ?_ hkeptMember
        rw [List.map_reverse]
        exact List.nodup_reverse.mpr hkept
      rw [hfound, Option.some_or]
    · have hnone : Document.fieldOf? p.1.1 (keptMembers entries members).reverse = none := by
        apply Document.fieldOf?_eq_none_iff.mpr
        rw [List.map_reverse, List.mem_reverse, map_fst_keptMembers]
        exact fun h => hmem (List.mem_filter.mp h).1
      rw [hnone, Option.none_or, habsent p hp hmem]
  unfold readShape
  simp only [descend, ok_bind, hread, Tree.readEnd, if_true, hcomplete]
  rfl

end record

/-- A conforming document is read back from its tree. -/
theorem readShape_ofDocument (src : Source) (h : Conforms n shape d) (hsound : shape.Sound n) :
    readShape src n shape (Tree.ofDocument d) = .ok d := by
  induction h with
  | text s => rw [Tree.ofDocument, readShape]; rfl
  | real _ => rw [Tree.ofDocument, readShape]; rfl
  | @any n d hsettled hwithin =>
      rw [readShape, (Tree.readWhole_ofDocument d n).1 hwithin]
      exact congrArg Except.ok hsettled
  | choice hknown =>
      rw [Tree.ofDocument, readShape, Tree.readChoice, Tree.nameAmong, if_pos hknown]
      rfl
  | list _ ih =>
      cases hsound with
      | list hitem =>
          have hitems := mapM_ofItems fun d hd => ih d hd hitem
          rw [Tree.ofDocument, readShape]
          simp only [descend, ok_bind, hitems]
          rfl
  | map hascending _ ih =>
      cases hsound with
      | map hvalue =>
          have hentries := mapM_ofFields fun e he => ih e he hvalue
          rw [Tree.ofDocument, readShape]
          simp only [descend, ok_bind, hentries]
          exact congrArg (fun es => Except.ok (Document.record es)) (settleEntries_of_ascending hascending)
  | @record n name fields entries hnames _ ih =>
      cases hsound with
      | record hdistinct hfields _ =>
          rw [Tree.ofDocument, Tree.ofFields_eq_ofMembers]
          have hmembers : (entries.map fun e => (e.1, Tree.ofDocument e.2)).map (·.1) =
              fields.map (·.1) := by
            rw [List.map_map, ← hnames]
            rfl
          apply readShape_record hdistinct hnames
          · rw [hmembers]
            exact hdistinct.filter _
          · intro p hp t ht
            obtain ⟨e, he, heq⟩ := List.mem_map.mp ht
            obtain ⟨hname, rfl⟩ := Prod.mk.inj heq
            have hpe : p.2 = e := by
              apply List.inj_on_of_nodup_map (f := (·.1)) (hnames ▸ hdistinct)
                (List.of_mem_zip hp).2 he
              rw [Shape.name_eq_of_mem_zip hnames hp, hname]
            exact hpe ▸ ih p hp (hfields p.1 (List.of_mem_zip hp).1)
          · intro p hp habsent
            exact absurd (hmembers ▸ List.mem_map_of_mem (List.of_mem_zip hp).1) habsent
          · intro m hm hunknown
            exact absurd (hmembers ▸ List.mem_map_of_mem hm) hunknown

/-! ### Whatever a text gives -/

theorem Tree.areFinite_iff {ts : List Tree} : Tree.AreFinite ts ↔ ∀ t ∈ ts, t.IsFinite := by
  induction ts with
  | nil => exact ⟨fun _ => nofun, fun _ => trivial⟩
  | cons t ts ih => rw [Tree.AreFinite, ih, List.forall_mem_cons]

theorem Tree.membersAreFinite_iff {ms : List (Tree × Tree)} :
    Tree.MembersAreFinite ms ↔ ∀ m ∈ ms, m.2.IsFinite := by
  induction ms with
  | nil => exact ⟨fun _ => nofun, fun _ => trivial⟩
  | cons m ms ih => rw [Tree.MembersAreFinite, ih, List.forall_mem_cons]

theorem ensures_nameAmong {names : List String} {s : String} :
    Ensures (Tree.nameAmong names s) (· ∈ names) := by
  intro name h
  unfold Tree.nameAmong at h
  split at h
  next hs =>
    cases h
    exact hs
  next => cases h

/-- Whatever is read as one of some names is one of them. -/
theorem ensures_readChoice {names : List String} {t : Tree} :
    Ensures (t.readChoice src names n) (· ∈ names) := by
  unfold Tree.readChoice
  split
  · exact ensures_nameAmong
  next members closed =>
    refine (ensures_true _).bind fun _ _ => ?_
    split
    · exact ensures_error _
    · refine (ensures_true _).bind fun key _ => ensures_nameAmong.bind fun name hname => ?_
      refine (ensures_true _).bind fun _ _ => (ensures_true _).bind fun _ _ => ?_
      exact ensures_ok hname
    · refine (ensures_true _).bind fun key _ => ensures_nameAmong.bind fun name hname => ?_
      exact (ensures_true _).bind fun _ _ => ensures_ok hname
    · exact ensures_error _
  · split <;> exact ensures_error _

/-- What a field of the declaration is read as conforms to it. -/
def ReadsConforming (src : Source) (n : Nat) (shape : Shape) : Prop :=
  ∀ t : Tree, t.IsFinite → Ensures (readShape src n shape t) (Conforms n shape)

/-- A result for a field is what its shape gives, unless it is an error; a field that is repeated
gives an error. -/
theorem of_readField {fields : List (String × Shape × Option Document)} {name : String} {seen : Bool}
    {t : Tree} {d : Document} (h : readField src n fields name seen t = some (.ok d)) :
    seen = false ∧ ∃ f ∈ fields, f.1 = name ∧ readShape src n f.2.1 t = .ok d := by
  induction fields with
  | nil => cases h
  | cons g gs ih =>
      obtain ⟨field, shape, default⟩ := g
      rw [readField] at h
      split at h
      next heq =>
        split at h
        · cases h
        next hseen =>
          exact ⟨Bool.eq_false_iff.mpr hseen, _, List.mem_cons_self, heq, Option.some.inj h⟩
      next =>
        obtain ⟨hseen, f, hf, hname, hread⟩ := ih h
        exact ⟨hseen, f, List.mem_cons_of_mem _ hf, hname, hread⟩

section fields

variable {fields : List (String × Shape × Option Document)}

/-- The fields that were read conform to their declarations. -/
def FieldsConform (n : Nat) (fields : List (String × Shape × Option Document))
    (read : List (String × Document)) : Prop :=
  ∀ e ∈ read, ∃ f ∈ fields, f.1 = e.1 ∧ Conforms n f.2.1 e.2

theorem ensures_readMember (hfields : ∀ f ∈ fields, ReadsConforming src n f.2.1)
    {read : List (String × Document)} (hread : FieldsConform n fields read) (key : Tree)
    {value : Tree} (hvalue : value.IsFinite) :
    Ensures (readMember (fun name seen value => readField src n fields name seen value) read key value)
      (FieldsConform n fields) := by
  unfold readMember
  refine (ensures_true _).bind fun name _ => ?_
  split
  next result hresult =>
    intro more hmore
    obtain ⟨d, rfl, hmore⟩ := bind_eq_ok_iff.mp hmore
    cases hmore
    obtain ⟨-, f, hf, hname, hd⟩ := of_readField hresult
    intro e he
    obtain rfl | he := List.mem_cons.mp he
    · exact ⟨f, hf, hname, hfields f hf value hvalue d hd⟩
    · exact hread e he
  next =>
    split
    · exact ensures_ok hread
    · exact ensures_error _

theorem ensures_foldlM_readMember (hfields : ∀ f ∈ fields, ReadsConforming src n f.2.1)
    {ms : List (Tree × Tree)} (hms : ∀ m ∈ ms, m.2.IsFinite) {read : List (String × Document)}
    (hread : FieldsConform n fields read) :
    Ensures (ms.foldlM (fun read (k, t) =>
      readMember (fun name seen value => readField src n fields name seen value) read k t) read)
      (FieldsConform n fields) := by
  induction ms generalizing read with
  | nil => exact ensures_ok hread
  | cons m ms ih =>
      rw [List.foldlM_cons]
      have hm := ensures_readMember hfields hread m.1 (hms m List.mem_cons_self)
      exact Ensures.bind hm fun next hnext => ih (fun k hk => hms k (List.mem_cons_of_mem m hk)) hnext

/-- A record is complete: its fields are those of the declaration, in their order, and conform. -/
def Complete (n : Nat) (fields : List (String × Shape × Option Document))
    (entries : List (String × Document)) : Prop :=
  entries.map (·.1) = fields.map (·.1) ∧ ∀ p ∈ fields.zip entries, Conforms n p.1.2.1 p.2.2

theorem Complete.cons {entries : List (String × Document)} (hentries : Complete n fields entries)
    (hd : Conforms n shape d) (name : String) (default : Option Document) :
    Complete n ((name, shape, default) :: fields) ((name, d) :: entries) := by
  refine ⟨congrArg (name :: ·) hentries.1, ?_⟩
  intro p hp
  obtain rfl | hp := List.mem_cons.mp hp
  · exact hd
  · exact hentries.2 p hp

/-- Whatever completes the fields that were read is a complete record. -/
theorem complete_of_completeFields (hdistinct : (fields.map (·.1)).Nodup)
    (hdefaults : ∀ f ∈ fields, ∀ d ∈ f.2.2, Conforms n f.2.1 d) {read entries : List (String × Document)}
    (hread : FieldsConform n fields read) (h : Shape.completeFields read fields = .ok entries) :
    Complete n fields entries := by
  obtain ⟨hnames, hfrom⟩ := Shape.of_completeFields h
  refine ⟨hnames, ?_⟩
  intro p hp
  have hf : p.1 ∈ fields := (List.of_mem_zip hp).1
  obtain hp | hp := hfrom p hp
  · obtain ⟨g, hg, hname, hconforms⟩ := hread _ (Document.mem_of_fieldOf? hp)
    have hgf : g = p.1 := List.inj_on_of_nodup_map hdistinct hg hf hname
    exact hgf ▸ hconforms
  · exact hdefaults _ hf _ hp

/-- Fields that are given by their values alone make a complete record. -/
theorem ensures_readItems (hfields : ∀ f ∈ fields, ReadsConforming src n f.2.1)
    (hdefaults : ∀ f ∈ fields, ∀ d ∈ f.2.2, Conforms n f.2.1 d) {ts : List Tree}
    (hts : ∀ t ∈ ts, t.IsFinite) (whole : String × Nat) (position : Nat) (closed : Bool) :
    Ensures (readItems src n whole position fields ts closed) (Complete n fields) := by
  induction fields generalizing ts position with
  | nil =>
      cases ts with
      | nil =>
          unfold readItems
          exact (ensures_true _).bind fun _ _ => ensures_ok ⟨rfl, nofun⟩
      | cons t ts =>
          unfold readItems
          split <;> exact ensures_error _
  | cons f fields ih =>
      obtain ⟨name, shape, default⟩ := f
      have hrest {ts : List Tree} (hts : ∀ t ∈ ts, t.IsFinite) := ih
        (fun g hg => hfields g (List.mem_cons_of_mem _ hg))
        (fun g hg => hdefaults g (List.mem_cons_of_mem _ hg)) hts (position + 1)
      cases ts with
      | cons t ts =>
          have ht := hfields _ List.mem_cons_self t (hts t List.mem_cons_self)
          unfold readItems
          refine Ensures.bind ht fun d hd => ?_
          refine (hrest fun u hu => hts u (List.mem_cons_of_mem t hu)).bind fun rest hrest => ?_
          exact ensures_ok (hrest.cons hd name default)
      | nil =>
          unfold readItems
          refine (ensures_true _).bind fun _ _ => ?_
          split
          next d =>
            refine (hrest hts).bind fun rest hrest => ?_
            exact ensures_ok (hrest.cons (hdefaults _ List.mem_cons_self d rfl) name _)
          next => exact ensures_error _

end fields

/-- Whatever a text gives for a sound shape is a conforming document. -/
theorem readsConforming (src : Source) (hsound : shape.Sound n) : ReadsConforming src n shape := by
  induction hsound with
  | text =>
      intro t _
      unfold readShape
      exact (ensures_true _).bind fun s _ => ensures_ok (.text s)
  | real =>
      intro t ht
      unfold readShape Tree.readReal
      split
      · exact ensures_ok (.real ht)
      · exact ensures_error _
  | any =>
      intro t ht d hd
      unfold readShape at hd
      obtain ⟨e, he, hd⟩ := bind_eq_ok_iff.mp hd
      cases hd
      obtain ⟨-, hnesting⟩ := Tree.written_of_readWhole ht he
      exact .any e.settled_settled ((Document.nesting_settled_le e).trans hnesting)
  | choice names =>
      intro t _
      unfold readShape
      exact ensures_readChoice.bind fun s hs => ensures_ok (.choice hs)
  | @list n item _ ih =>
      intro t ht
      cases t with
      | list ts closed =>
          have hts := Tree.areFinite_iff.mp ht
          rw [readShape, descend, ok_bind]
          refine (ensures_mapM fun t ht => ih t (hts t ht)).bind fun items hitems => ?_
          exact (ensures_true _).bind fun _ _ => ensures_ok (.list hitems)
      | _ => exact ensures_error _
  | @map n value _ ih =>
      intro t ht
      cases t with
      | record ms closed =>
          have hms := Tree.membersAreFinite_iff.mp ht
          have hread : ∀ m ∈ ms, Ensures (do return (← m.1.readKey, ← readShape src n value m.2))
              fun e : String × Document => Conforms n value e.2 := by
            intro m hm
            refine (ensures_true _).bind fun key _ => ?_
            exact (ih m.2 (hms m hm)).bind fun d hd => ensures_ok hd
          rw [readShape, descend, ok_bind]
          refine (ensures_mapM hread).bind fun entries hentries => ?_
          refine (ensures_true _).bind fun _ _ => ensures_ok ?_
          exact .map (ascending_settleEntries entries) fun e he => hentries e (mem_settleEntries he)
      | _ => exact ensures_error _
  | @record n name fields hdistinct _ hdefaults ih =>
      intro t ht
      cases t with
      | record ms closed =>
          have hms := Tree.membersAreFinite_iff.mp ht
          rw [readShape, descend, ok_bind]
          have hnone : FieldsConform n fields [] := fun e he => nomatch he
          refine (ensures_foldlM_readMember ih hms hnone).bind fun read hread => ?_
          refine (ensures_true _).bind fun _ _ => ?_
          split
          next complete hcomplete =>
            obtain ⟨hnames, hmembers⟩ := complete_of_completeFields hdistinct hdefaults hread hcomplete
            exact ensures_ok (.record hnames hmembers)
          next => exact ensures_error _
      | list ts closed =>
          have hts := Tree.areFinite_iff.mp ht
          rw [readShape, descend, ok_bind]
          refine (ensures_readItems ih hdefaults hts (name, fields.length) 0 closed).bind ?_
          rintro entries ⟨hnames, hmembers⟩
          exact ensures_ok (.record hnames hmembers)
      | _ => exact ensures_error _

/-! ### Values -/

section values

variable {α : Type} {c : Codec α} {height : Nat}

/-- A text is read as a value if its tree gives the document of the value and nothing follows. -/
theorem decode_eq_ok (hc : c.Lawful height) {s : String} {t : Tree} {a : α}
    (hs : Tree.ofText s = (t, false))
    (h : readShape .text nestingLimit c.shape t = .ok (c.encode a)) : decode c s = .ok a := by
  have hread : read c.shape s = .ok (c.encode a) := by
    unfold read
    rw [hs]
    dsimp only
    rw [h]
    rfl
  rw [decode, hread, ok_bind, hc.decode_encode]
  rfl

/-- A value is read back from its pretty text if that nests within the limit. -/
theorem decode_pretty (hc : c.Lawful height) (hheight : height ≤ nestingLimit) (a : α)
    (h : nesting (pretty (c.encode a)) ≤ nestingLimit) : decode c (pretty (c.encode a)) = .ok a := by
  have hnesting : (c.encode a).nesting ≤ nestingLimit := by
    rwa [pretty, nesting_write] at h
  have hconforms := hc.conforms a nestingLimit hnesting
  have htree : Tree.ofText (pretty (c.encode a)) = (Tree.ofDocument (c.encode a), false) := by
    rw [pretty, Tree.ofText_write, hconforms.written_eq]
  exact decode_eq_ok hc htree (readShape_ofDocument .text hconforms (hc.sound nestingLimit hheight))

/-- A value that a text gives is that of a conforming document. -/
theorem exists_conforms_of_decode (hsound : c.shape.Sound nestingLimit) {s : String} {a : α}
    (h : decode c s = .ok a) : ∃ d, Conforms nestingLimit c.shape d ∧ c.decode? d = some a := by
  obtain ⟨d, hd, ha⟩ := bind_eq_ok_iff.mp h
  refine ⟨d, ?_, ?_⟩
  · rw [read, bind_eq_ok_iff] at hd
    obtain ⟨e, he, hd⟩ := hd
    obtain rfl : e = d := by
      split at hd <;> cases hd
      rfl
    exact readsConforming .text hsound _ (Tree.isFinite_ofText s) e he
  · split at ha
    next b hb =>
      cases ha
      exact hb
    next => cases ha

/-- The pretty text of whatever value a text gives nests within the limit. -/
theorem nesting_of_decode (hc : c.Lawful height) (hheight : height ≤ nestingLimit) {s : String} {a : α}
    (h : decode c s = .ok a) : nesting (pretty (c.encode a)) ≤ nestingLimit := by
  obtain ⟨d, hconforms, hdecode⟩ := exists_conforms_of_decode (hc.sound nestingLimit hheight) h
  rw [hc.encode_of_decode nestingLimit d a hconforms hdecode, pretty, nesting_write]
  exact hconforms.nesting_le

end values

end Equilibrium.Json
