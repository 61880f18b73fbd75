import Equilibrium.Expr.Document
import Equilibrium.Proofs.Checks
import Equilibrium.Proofs.Document
import Equilibrium.Proofs.Expr.Nodes

/-!
# Expressions and their documents

The document of an expression says the expression again, unless a constant became null when it was
written (`isReread`). Whatever a document says as an expression has finite constants only, and the
document of that expression nests no deeper than the one that was read (`isSound_reading`). -/

namespace Equilibrium.Expr

/-! ### Fields of a node -/

/-- The fields of the document of an expression, without its kind. -/
def fields : Expr → List (String × Document)
  | .index name | .var name none | .param name none => [("name", .text name)]
  | .var name (some indices) | .param name (some indices) =>
    [("name", .text name), ("indices", .list (toDocuments indices))]
  | .const value => [("value", .number (.real value))]
  | .raw text => [("text", .text text)]
  | .neg e => [("expr", toDocument e)]
  | .add terms => [("terms", .list (toDocuments terms))]
  | .mul factors => [("factors", .list (toDocuments factors))]
  | .div num den => [("num", toDocument num), ("den", toDocument den)]
  | .pow base exponent => [("base", toDocument base), ("exponent", toDocument exponent)]
  | .sum i domain body | .prod i domain body =>
    [("index", .text i), ("domain", .texts domain), ("body", toDocument body)]
  | .eq lhs rhs => [("lhs", toDocument lhs), ("rhs", toDocument rhs)]

theorem toDocument_eq (e : Expr) :
    e.toDocument = .record (("kind", .text e.kind.name) :: e.fields) := by
  cases e with
  | var _ indices | param _ indices => cases indices <;> rfl
  | _ => rfl

theorem reading_toDocument (e : Expr) :
    (reading e.toDocument.written).expr =
      ofFields e.kind (fieldReadings (Document.writtenFields e.fields)) := by
  cases e with
  | var _ indices | param _ indices => cases indices <;> rfl
  | _ => rfl

/-! ### Reading what was written -/

section nodes

variable {α β : Type} {k : Kind} {b : Body} {p q : Prop} {x : Except Mismatch α}
  {y : Except Mismatch β} {u : α} {v : β}

theorem gives_node {e : Expr} (hbody : Gives p (Body.ofFields k.parts [] b) b)
    (hmissing : b.missing? k.parts = none) (hnode : Gives p (b.node k) e) :
    Gives p (ofFields k b) e := by
  refine (hbody.bind ?_).congr and_self_iff
  rwa [hmissing]

/-- A node with one part that may be refused. -/
theorem gives_node₁ {f : α → Expr} (hx : Gives p x u)
    (hbody : Body.ofFields k.parts [] b = x.map (fun _ => ()) >>= fun _ => .ok b)
    (hmissing : b.missing? k.parts = none) (hnode : b.node k = do return f (← x)) :
    Gives p (ofFields k b) (f u) := by
  refine gives_node ?_ hmissing ?_
  · rw [hbody]
    exact (hx.onResult fun _ => ()).map fun _ => b
  · rw [hnode]
    exact hx.map f

/-- A node with two parts that may be refused. -/
theorem gives_node₂ {f : α → β → Expr} (hx : Gives p x u) (hy : Gives q y v)
    (hbody : Body.ofFields k.parts [] b =
      x.map (fun _ => ()) >>= fun _ => y.map (fun _ => ()) >>= fun _ => .ok b)
    (hmissing : b.missing? k.parts = none) (hnode : b.node k = do return f (← x) (← y)) :
    Gives (p ∧ q) (ofFields k b) (f u v) := by
  refine gives_node ?_ hmissing ?_
  · rw [hbody]
    exact (hx.onResult fun _ => ()).map₂ (hy.onResult fun _ => ()) fun _ _ => b
  · rw [hnode]
    exact hx.map₂ hy f

end nodes

/-- The document of the expression, as it is written, says the expression again if all constants
are finite. -/
def IsReread (e : Expr) : Prop := Gives e.IsFinite (reading e.toDocument.written).expr e

theorem gives_exprs {es : List Expr} (h : ∀ e ∈ es, e.IsReread) :
    Gives (∀ e ∈ es, e.IsFinite) (reading (Document.list (toDocuments es)).written).exprs es := by
  induction es with
  | nil => exact (gives_ok []).congr (by simp)
  | cons e es ih =>
      have he := h e List.mem_cons_self
      have hes := ih fun f hf => h f (List.mem_cons_of_mem e hf)
      show Gives _ (exprsOf (reading e.toDocument.written ::
        readings (Document.writtenItems (toDocuments es)))) (e :: es)
      rw [List.forall_mem_cons, exprsOf, List.mapM_cons]
      exact he.map₂ hes List.cons

theorem mapM_textOf_texts (names : List String) :
    (names.map Document.text).mapM Reading.textOf = .ok names := by
  induction names with
  | nil => rfl
  | cons name names ih =>
      rw [List.map_cons, List.mapM_cons, ih]
      rfl

theorem gives_names (names : List String) :
    Gives True (reading (Document.texts names).written).names names := by
  have hitems : Document.writtenItems (names.map Document.text) = names.map Document.text := by
    rw [Document.writtenItems_eq_self_iff]
    simp [Document.written]
  rw [Document.texts, Document.written, hitems, reading]
  exact ⟨fun _ => mapM_textOf_texts names, fun h => absurd trivial h⟩

/-- A constant that is not finite is written as null. -/
theorem isReread_const (x : Binary64) : (Expr.const x).IsReread := by
  have hfinite : (Expr.const x).IsFinite ↔ x.isFinite = true := by
    rw [isFinite_iff]
    simp [children]
  have hreading : (reading (Expr.const x).toDocument.written).expr =
      ofFields .const [("value", reading (Document.number (.real x)).written)] := rfl
  rw [IsReread, hfinite, hreading, Document.written]
  split
  next h => exact ⟨fun _ => rfl, fun hx => absurd h hx⟩
  next h => exact ⟨fun hx => absurd hx h, fun _ => ⟨_, rfl⟩⟩

/-- The document of an expression, as it is written, says the expression again if all constants are
finite; otherwise it says none. -/
theorem isReread (e : Expr) : e.IsReread := by
  induction e using childrenInduction with
  | step e ih =>
      unfold IsReread
      rw [reading_toDocument, isFinite_iff]
      cases e with
      | index | raw => exact (gives_ok _).congr (by simp [children])
      | const x =>
          rw [← isFinite_iff, ← reading_toDocument]
          exact isReread_const x
      | var name indices =>
          cases indices with
          | none => exact (gives_ok _).congr (by simp [children])
          | some es =>
              have hall : ∀ e ∈ es, e.IsReread := ih
              have hes := (gives_exprs hall).onResult some
              refine (gives_node₁ (f := Expr.var name) hes rfl rfl rfl).congr ?_
              simp [children]
      | param name indices =>
          cases indices with
          | none => exact (gives_ok _).congr (by simp [children])
          | some es =>
              have hall : ∀ e ∈ es, e.IsReread := ih
              have hes := (gives_exprs hall).onResult some
              refine (gives_node₁ (f := Expr.param name) hes rfl rfl rfl).congr ?_
              simp [children]
      | neg a =>
          have ha := ih a (by simp [children])
          refine (gives_node₁ (f := Expr.neg) ha rfl rfl rfl).congr ?_
          simp [children]
      | add es =>
          have hall : ∀ e ∈ es, e.IsReread := ih
          have hes := gives_exprs hall
          refine (gives_node₁ (f := Expr.add) hes rfl rfl rfl).congr ?_
          simp [children]
      | mul es =>
          have hall : ∀ e ∈ es, e.IsReread := ih
          have hes := gives_exprs hall
          refine (gives_node₁ (f := Expr.mul) hes rfl rfl rfl).congr ?_
          simp [children]
      | div a b =>
          have ha := ih a (by simp [children])
          have hb := ih b (by simp [children])
          refine (gives_node₂ (f := Expr.div) ha hb rfl rfl rfl).congr ?_
          simp [children]
      | pow a b =>
          have ha := ih a (by simp [children])
          have hb := ih b (by simp [children])
          refine (gives_node₂ (f := Expr.pow) ha hb rfl rfl rfl).congr ?_
          simp [children]
      | eq a b =>
          have ha := ih a (by simp [children])
          have hb := ih b (by simp [children])
          refine (gives_node₂ (f := Expr.eq) ha hb rfl rfl rfl).congr ?_
          simp [children]
      | sum i domain a =>
          have ha := ih a (by simp [children])
          refine (gives_node₂ (f := Expr.sum i) (gives_names domain) ha rfl rfl rfl).congr ?_
          simp [children]
      | prod i domain a =>
          have ha := ih a (by simp [children])
          refine (gives_node₂ (f := Expr.prod i) (gives_names domain) ha rfl rfl rfl).congr ?_
          simp [children]

/-! ### What any document says -/

/-- All constants are finite, and the document nests so many lists and records at most. -/
def Fits (limit : Nat) (e : Expr) : Prop := e.IsFinite ∧ e.toDocument.nesting ≤ limit

/-- What is read from a part fits as far as the part itself. -/
structure Reading.IsSound (n : Nat) (r : Reading) : Prop where
  expr : Ensures r.expr (Fits n)
  exprs : Ensures r.exprs fun es =>
    (∀ e ∈ es, e.IsFinite) ∧ (Document.list (toDocuments es)).nesting ≤ n
  real : Ensures r.real fun x => x.isFinite = true
  names : Ensures r.names fun names => (Document.texts names).nesting ≤ n

/-- The parts of a node are sound. -/
def Body.IsSound (n : Nat) (b : Body) : Prop := ∀ f ∈ b, f.2.IsSound n

variable {n : Nat} {b : Body}

theorem nesting_toDocument_le_iff {e : Expr} :
    e.toDocument.nesting ≤ n + 1 ↔ ∀ f ∈ e.fields, f.2.nesting ≤ n := by
  rw [toDocument_eq, Document.nesting, Nat.add_le_add_iff_right, Document.nestingOfFields_le_iff,
    List.forall_mem_cons]
  exact and_iff_right (Nat.zero_le n)

/-- A node fits if its children are finite and its fields fit one level further in. -/
theorem fits_node {e : Expr} (hroot : ∀ x, e = .const x → x.isFinite = true)
    (hchildren : ∀ f ∈ e.children, f.IsFinite) (hfields : ∀ f ∈ e.fields, f.2.nesting ≤ n) :
    e.Fits (n + 1) :=
  ⟨isFinite_iff.mpr ⟨hroot, hchildren⟩, nesting_toDocument_le_iff.mpr hfields⟩

theorem Body.IsSound.of_lookup (hb : b.IsSound n) {name : String} {r : Reading}
    (h : b.lookup name = some r) : r.IsSound n := by
  obtain ⟨before, after, rfl, -⟩ := List.lookup_eq_some_iff.mp h
  exact hb (name, r) (List.mem_append_right before List.mem_cons_self)

/-- What is taken from one part of a node, and what follows from it. -/
theorem ensures_part {α β : Type} {name : String} {x : Reading → Except Mismatch α}
    {f : α → Except Mismatch β} {P : α → Prop} {Q : β → Prop} (hb : b.IsSound n)
    (hx : ∀ r : Reading, r.IsSound n → Ensures (x r) P) (hf : ∀ a, P a → Ensures (f a) Q) :
    Ensures (b.get name >>= fun r => x r >>= f) Q := by
  unfold Body.get
  split
  next r h => exact (hx r (hb.of_lookup h)).bind hf
  next => exact ensures_error _

theorem ensures_indices (hb : b.IsSound n) :
    Ensures b.indices fun indices => (∀ e ∈ indices.getD [], e.IsFinite) ∧
      ∀ es ∈ indices, (Document.list (toDocuments es)).nesting ≤ n := by
  have hnone : Ensures (.ok none : Except Mismatch (Option (List Expr))) fun indices =>
      (∀ e ∈ indices.getD [], e.IsFinite) ∧
        ∀ es ∈ indices, (Document.list (toDocuments es)).nesting ≤ n :=
    ensures_ok ⟨nofun, nofun⟩
  unfold Body.indices
  split
  next r h =>
    unfold Reading.indices
    split
    · exact hnone
    · refine (hb.of_lookup h).exprs.bind fun es hes => ensures_ok ⟨hes.1, ?_⟩
      rintro _ ⟨⟩
      exact hes.2
  next => exact hnone

/-- A node of sound parts nests one level more than its parts. -/
theorem ensures_node (hb : b.IsSound n) (k : Kind) : Ensures (b.node k) (Fits (n + 1)) := by
  cases k with
  | index | raw =>
      refine ensures_part hb (fun r _ => ensures_true r.text) fun text _ => ?_
      exact ensures_ok (fits_node (by simp) (by simp [children]) (by simp [fields]))
  | const =>
      refine ensures_part hb (fun r hr => hr.real) fun x hx => ?_
      refine ensures_ok (fits_node ?_ (by simp [children]) (by simp [fields]))
      rintro _ ⟨⟩
      exact hx
  | var | param =>
      refine ensures_part hb (fun r _ => ensures_true r.text) fun name _ => ?_
      refine (ensures_indices hb).bind fun indices hindices => ?_
      obtain ⟨hfinite, hnesting⟩ := hindices
      refine ensures_ok (fits_node (by simp) hfinite ?_)
      cases indices with
      | none => simp [fields]
      | some es => simpa [fields] using hnesting es rfl
  | neg =>
      refine ensures_part hb (fun r hr => hr.expr) fun a ha => ?_
      exact ensures_ok (fits_node (by simp) (by simp [children, ha.1]) (by simp [fields, ha.2]))
  | add | mul =>
      refine ensures_part hb (fun r hr => hr.exprs) fun es hes => ?_
      exact ensures_ok (fits_node (by simp) hes.1 (by simp [fields, hes.2]))
  | div | pow | eq =>
      refine ensures_part hb (fun r hr => hr.expr) fun a ha => ?_
      refine ensures_part hb (fun r hr => hr.expr) fun c hc => ?_
      refine ensures_ok (fits_node (by simp) ?_ ?_)
      · simp [children, ha.1, hc.1]
      · simp [fields, ha.2, hc.2]
  | sum | prod =>
      refine ensures_part hb (fun r _ => ensures_true r.text) fun i _ => ?_
      refine ensures_part hb (fun r hr => hr.names) fun domain hdomain => ?_
      refine ensures_part hb (fun r hr => hr.expr) fun a ha => ?_
      refine ensures_ok (fits_node (by simp) ?_ ?_)
      · simp [children, ha.1]
      · simp [fields, hdomain, ha.2]

theorem ensures_bodyOfFields {parts : List (String × Part)} {met fields : Body}
    (hmet : met.IsSound n) (hfields : fields.IsSound n) :
    Ensures (Body.ofFields parts met fields) (Body.IsSound n) := by
  induction fields generalizing met with
  | nil => exact ensures_ok fun f hf => hmet f (List.mem_reverse.mp hf)
  | cons f fields ih =>
      obtain ⟨hf, hfields⟩ := List.forall_mem_cons.mp hfields
      rw [Body.ofFields]
      split
      · exact ih hmet hfields
      · split
        · exact ensures_error _
        · refine (ensures_true _).bind fun _ _ => ?_
          exact ih (List.forall_mem_cons.mpr ⟨hf, hmet⟩) hfields

theorem ensures_ofFields {fields : Body} (h : fields.IsSound n) (k : Kind) :
    Ensures (ofFields k fields) (Fits (n + 1)) := by
  refine (ensures_bodyOfFields (List.forall_mem_nil _) h).bind fun b hb => ?_
  split
  · exact ensures_error _
  · exact ensures_node hb k

theorem ensures_checked {items : List Reading} (h : ∀ r ∈ items, r.IsSound n)
    (parts : List (String × Part)) :
    Ensures ((parts.zip items).mapM fun ((name, part), r) => do
      r.check part
      return (name, r)) (Body.IsSound n) :=
  ensures_mapM fun c hc => (ensures_true _).bind fun _ _ =>
    ensures_ok (h c.2 (List.of_mem_zip hc).2)

theorem ensures_ofItems {items : List Reading} (h : ∀ r ∈ items, r.IsSound n) (k : Kind) :
    Ensures (ofItems k items) (Fits (n + 1)) := by
  refine Ensures.bind ((ensures_checked h k.parts).bind fun b hb => ?_)
    fun b hb => ensures_node hb k
  split
  · exact ensures_error _
  · split
    · exact ensures_error _
    · exact ensures_ok hb

theorem ensures_spanKind {met : Option Kind} {fields : Body} (h : fields.IsSound n) :
    Ensures (spanKind met fields) fun parts => parts.2.IsSound n := by
  induction fields generalizing met with
  | nil =>
      cases met with
      | none => exact ensures_error _
      | some k => exact ensures_ok (List.forall_mem_nil _)
  | cons f fields ih =>
      obtain ⟨hf, hfields⟩ := List.forall_mem_cons.mp h
      rw [spanKind]
      split
      · split
        · exact ensures_error _
        · exact (ensures_true _).bind fun k _ => ih hfields
      · refine (ih hfields).bind fun parts hparts => ?_
        exact ensures_ok (List.forall_mem_cons.mpr ⟨hf, hparts⟩)

theorem Reading.IsSound.mono {m : Nat} {r : Reading} (h : r.IsSound m) (hmn : m ≤ n) :
    r.IsSound n where
  expr := h.expr.mono fun _ he => ⟨he.1, he.2.trans hmn⟩
  exprs := h.exprs.mono fun _ hes => ⟨hes.1, hes.2.trans hmn⟩
  real := h.real
  names := h.names.mono fun _ hnames => hnames.trans hmn

theorem isSound_of_mem_readings {items : List Document}
    (h : ∀ d ∈ items, (reading d).IsSound d.nesting) :
    ∀ r ∈ readings items, r.IsSound (Document.nestingOfItems items) := by
  induction items with
  | nil => exact List.forall_mem_nil _
  | cons d ds ih =>
      obtain ⟨hd, hds⟩ := List.forall_mem_cons.mp h
      refine List.forall_mem_cons.mpr ⟨hd.mono (Nat.le_max_left ..), fun r hr => ?_⟩
      exact (ih hds r hr).mono (Nat.le_max_right ..)

theorem isSound_fieldReadings {fields : List (String × Document)}
    (h : ∀ f ∈ fields, (reading f.2).IsSound f.2.nesting) :
    (fieldReadings fields).IsSound (Document.nestingOfFields fields) := by
  induction fields with
  | nil => exact List.forall_mem_nil _
  | cons f fs ih =>
      obtain ⟨hf, hfs⟩ := List.forall_mem_cons.mp h
      refine List.forall_mem_cons.mpr ⟨hf.mono (Nat.le_max_left ..), fun g hg => ?_⟩
      exact (ih hfs g hg).mono (Nat.le_max_right ..)

theorem nesting_toDocuments_le {es : List Expr} (h : ∀ e ∈ es, e.toDocument.nesting ≤ n) :
    (Document.list (toDocuments es)).nesting ≤ n + 1 := by
  rw [Document.nesting, Nat.add_le_add_iff_right]
  induction es with
  | nil => exact Nat.zero_le n
  | cons e es ih =>
      obtain ⟨he, hes⟩ := List.forall_mem_cons.mp h
      exact Nat.max_le.mpr ⟨he, ih hes⟩

/-- Whatever a document says has finite constants only and fits as far as the document. -/
theorem isSound_reading {d : Document} (hd : d.written = d) : (reading d).IsSound d.nesting := by
  induction d using Document.membersInduction with
  | step d ih =>
      cases d with
      | list items =>
          have hitems := Document.writtenItems_eq_self_iff.mp (Document.list.inj hd)
          have hsound := isSound_of_mem_readings fun d h => ih d h (hitems d h)
          rw [reading, Document.nesting]
          refine ⟨?_, ?_, ensures_error _, fun names _ => Document.nesting_texts_le names⟩
          · dsimp only
            split
            · exact ensures_error _
            next r rest heq =>
              refine (ensures_true _).bind fun k _ => ensures_ofItems (fun s hs => ?_) k
              exact hsound s (heq ▸ List.mem_cons_of_mem r hs)
          · refine (ensures_mapM fun r hr => (hsound r hr).expr).mono fun es hes => ?_
            exact ⟨fun e he => (hes e he).1, nesting_toDocuments_le fun e he => (hes e he).2⟩
      | record fields =>
          have hfields := Document.writtenFields_eq_self_iff.mp (Document.record.inj hd)
          have hsound := isSound_fieldReadings fun f hf =>
            ih f.2 (List.mem_map_of_mem hf) (hfields f hf)
          rw [reading, Document.nesting]
          refine ⟨?_, ensures_error _, ensures_error _, ensures_error _⟩
          exact (ensures_spanKind hsound).bind fun parts hparts => ensures_ofFields hparts parts.1
      | number x =>
          refine ⟨ensures_error _, ensures_error _, ensures_ok ?_, ensures_error _⟩
          exact Document.isFinite_of_written hd
      | _ => exact ⟨ensures_error _, ensures_error _, ensures_error _, ensures_error _⟩

end Equilibrium.Expr
