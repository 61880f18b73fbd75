import Equilibrium.Proofs.Expr.Reading
import Equilibrium.Proofs.Json.Nesting
import Equilibrium.Proofs.Json.Union

/-!
# Expressions in JSON texts

The text of an expression is read back if all constants are finite and the text nests within the
limit of the reader; otherwise it is refused. An expression that was itself read from a text is
always read back (`decode_encode`). -/

namespace Equilibrium.Expr

/-! ### Reading the text of an expression -/

theorem Kind.ofDocument_name (k : Kind) : ofDocument (.text k.name) = .ok k := by
  cases k <;> rfl

theorem checkBody_fields (e : Expr) :
    checkBody e.kind.name (.record (Document.writtenFields e.fields)) =
      (reading e.toDocument.written).expr.map fun _ => () := by
  rw [checkBody, Kind.ofDocument_name, reading_toDocument]
  rfl

theorem ne_kind_of_mem_fields (e : Expr) : ∀ f ∈ Document.writtenFields e.fields, f.1 ≠ "kind" := by
  cases e with
  | var _ indices | param _ indices => cases indices <;> simp [fields, Document.writtenFields]
  | _ => simp [fields, Document.writtenFields]

theorem name_mem_variants (e : Expr) : e.kind.name ∈ union.variants :=
  List.mem_map_of_mem (Kind.mem_all e.kind)

/-- The document of an expression is read from its text if the expression fits. -/
theorem gives_readUnion (e : Expr) :
    Gives (e.Fits Json.nestingLimit)
      (Json.Tree.readUnion union Json.nestingLimit (Json.Tree.ofDocument e.toDocument.written))
      e.toDocument.written := by
  have hwritten : e.toDocument.written =
      .record (("kind", .text e.kind.name) :: Document.writtenFields e.fields) := by
    rw [toDocument_eq]
    rfl
  have hbody : union.check e.kind.name (.record (Document.writtenFields e.fields)) = .ok () ↔
      e.IsFinite := by
    rw [← ((isReread e).onResult fun _ => ()).eq_ok_iff, ← checkBody_fields]
    rfl
  have hread := Json.Tree.readUnion_ofDocument (name_mem_variants e) (ne_kind_of_mem_fields e)
    Json.nestingLimit
  rw [hbody] at hread
  have hnesting := Document.nesting_written e.toDocument
  rw [hwritten] at hnesting ⊢
  refine hread.congr ?_
  rw [Fits, ← hnesting]
  exact and_comm

/-- The text of an expression is read back if the expression fits, and refused otherwise. -/
theorem gives_decode (e : Expr) :
    Gives (e.Fits Json.nestingLimit) (Json.decode codec (Json.encode codec e)) e := by
  have htext : Json.Tree.ofText (Json.encode codec e) =
      (Json.Tree.ofDocument e.toDocument.written, false) := Json.Tree.ofText_write none e.toDocument
  have hread : Json.read codec.shape (Json.encode codec e) =
      Json.Tree.readUnion union Json.nestingLimit (Json.Tree.ofDocument e.toDocument.written) >>=
        fun d => .ok d := by
    rw [Json.read, htext]
    rfl
  rw [Json.decode, hread]
  by_cases he : e.Fits Json.nestingLimit
  · have hdecode : codec.decode? e.toDocument.written = some e := by
      show (reading e.toDocument.written).expr.toOption = some e
      rw [(isReread e).1 he.1]
      rfl
    rw [(gives_readUnion e).1 he, ok_bind, ok_bind, hdecode]
    exact ⟨fun _ => rfl, fun h => absurd he h⟩
  · obtain ⟨err, herr⟩ := (gives_readUnion e).2 he
    rw [herr]
    exact ⟨fun h => absurd h he, fun _ => ⟨err, rfl⟩⟩

/-! ### Reading any text -/

theorem fits_of_decode {s : String} {e : Expr} (h : Json.decode codec s = .ok e) :
    e.Fits Json.nestingLimit := by
  rw [Json.decode, bind_eq_ok_iff] at h
  obtain ⟨d, hread, hdecode⟩ := h
  rw [Json.read, bind_eq_ok_iff] at hread
  obtain ⟨d', hunion, hd⟩ := hread
  obtain rfl : d' = d := by
    split at hd
    · cases hd
    · cases hd
      rfl
  obtain ⟨hwritten, hnesting⟩ := Json.Tree.written_of_readUnion (Json.Tree.isFinite_ofText s) hunion
  have hexpr : (reading d').expr = .ok e := by
    split at hdecode
    next e' he' =>
      cases hdecode
      exact toOption_eq_some_iff.mp he'
    next => cases hdecode
  obtain ⟨hfinite, hle⟩ := (isSound_reading hwritten).expr e hexpr
  exact ⟨hfinite, hle.trans hnesting⟩

theorem fits_iff_nesting_encode {e : Expr} {limit : Nat} :
    e.Fits limit ↔ e.IsFinite ∧ Json.nesting (Json.encode codec e) ≤ limit := by
  have h : Json.nesting (Json.encode codec e) = e.toDocument.nesting :=
    Json.nesting_write none e.toDocument
  rw [h, Fits]

/-- **The text of an expression is read back, with every constant bit for bit, exactly if all
constants are finite and the text nests at most 127 lists and records; otherwise it is refused. An
expression that a text gives, in whatever form, is always read back from its own text.** -/
theorem decode_encode (e : Expr) :
    (Json.decode codec (Json.encode codec e) = .ok e ↔
      e.IsFinite ∧ Json.nesting (Json.encode codec e) ≤ 127) ∧
    (¬ (e.IsFinite ∧ Json.nesting (Json.encode codec e) ≤ 127) →
      ∃ err, Json.decode codec (Json.encode codec e) = .error err) ∧
    ∀ s, Json.decode codec s = .ok e →
      (e.IsFinite ∧ Json.nesting (Json.encode codec e) ≤ 127) ∧
      Json.decode codec (Json.encode codec e) = .ok e := by
  have hgives := gives_decode e
  have hfits : e.Fits Json.nestingLimit ↔
      e.IsFinite ∧ Json.nesting (Json.encode codec e) ≤ 127 := fits_iff_nesting_encode
  rw [← hfits]
  exact ⟨hgives.eq_ok_iff, hgives.2, fun s hs =>
    ⟨fits_of_decode hs, hgives.1 (fits_of_decode hs)⟩⟩

/-- A record with its kind at the end, around a list of a kind and a name: the expression that it
gives is read back from its own text, which looks otherwise. -/
theorem decode_otherForm :
    Json.decode codec (Json.pretty (.record
      [("expr", .list [.text "var", .text "x"]), ("kind", .text "neg")])) =
        .ok (.neg (scalar "x")) ∧
    Json.decode codec (Json.encode codec (.neg (scalar "x"))) = .ok (.neg (scalar "x")) := by
  have htext := Json.Tree.ofText_write (some 0) (.record
    [("expr", .list [.text "var", .text "x"]), ("kind", .text "neg")])
  have hdecode : Json.decode codec (Json.pretty (.record
      [("expr", .list [.text "var", .text "x"]), ("kind", .text "neg")])) =
        .ok (.neg (scalar "x")) := by
    rw [Json.decode, Json.read, Json.pretty, htext]
    rfl
  exact ⟨hdecode, ((decode_encode (.neg (scalar "x"))).2.2 _ hdecode).2⟩

end Equilibrium.Expr
