import Equilibrium.Proofs.Json.Whole

/-!
# Members of a union

A member of a union with its tag in front is read back if its nesting is within the limit and its
body passes (`Tree.readUnion_ofDocument`). Whatever a text gives as a member can be written as it is,
and its nesting is within the limit (`Tree.written_of_readUnion`). -/

namespace Equilibrium.Json.Tree

variable {u : Union} {depth : Nat}

/-! ### A member with its tag in front -/

theorem nesting_tagged (tag v : String) (fields : List (String × Document)) :
    (Document.record ((tag, .text v) :: fields)).nesting = Document.nestingOfFields fields + 1 := by
  simp [Document.nesting, Document.nestingOfFields]

theorem readUnionMembers_ofFields {v : String} {fields : List (String × Document)}
    (h : ∀ f ∈ fields, f.1 ≠ u.tag) (others : List (String × Document)) :
    Gives (Document.nestingOfFields fields ≤ depth)
      (readUnionMembers u depth ⟨some v, others⟩ (ofFields fields))
      ⟨some v, others ++ fields⟩ := by
  induction fields generalizing others with
  | nil =>
      rw [List.append_nil]
      exact (gives_ok _).congr (by simp [Document.nestingOfFields])
  | cons f fs ih =>
      have hf := readWhole_ofDocument f.2 depth
      have hfs := ih (fun g hg => h g (List.mem_cons_of_mem f hg)) (others ++ [f])
      rw [List.append_assoc, List.singleton_append] at hfs
      rw [ofFields, readUnionMembers, readKey, ok_bind, if_neg (h f List.mem_cons_self)]
      exact (hf.bind hfs).congr Nat.max_le.symm

theorem gives_checked (v : String) (body : Document) :
    Gives (u.check v body = .ok ()) (checked u v body) () := by
  unfold checked
  cases u.check v body with
  | ok => exact ⟨fun _ => rfl, fun h => absurd rfl h⟩
  | error m => exact ⟨nofun, fun _ => ⟨.mismatch m, rfl⟩⟩

theorem readUnionMembers_tag {v : String} (hv : v ∈ u.variants) (ms : List (Tree × Tree)) :
    readUnionMembers u depth ⟨none, []⟩ ((.text (some u.tag), .text (some v)) :: ms) =
      readUnionMembers u depth ⟨some v, []⟩ ms := by
  rw [readUnionMembers, readKey, ok_bind, if_pos rfl, readName, readText, ok_bind, nameAmong,
    if_pos hv]
  rfl

/-- A member of a union is read back from its tree if its nesting fits and its body passes. -/
theorem readUnion_ofDocument {v : String} {fields : List (String × Document)} (hv : v ∈ u.variants)
    (h : ∀ f ∈ fields, f.1 ≠ u.tag) (depth : Nat) :
    Gives ((Document.record ((u.tag, .text v) :: fields)).nesting ≤ depth ∧
        u.check v (.record fields) = .ok ())
      (readUnion u depth (ofDocument (.record ((u.tag, .text v) :: fields))))
      (.record ((u.tag, .text v) :: fields)) := by
  rw [nesting_tagged, ofDocument, ofFields, readUnion]
  refine gives_descend_and (fun depth => ?_) depth
  rw [ofDocument, readUnionMembers_tag hv]
  refine (readUnionMembers_ofFields h []).bind ?_
  exact (gives_checked v (.record fields)).map fun _ => Document.record ((u.tag, .text v) :: fields)

/-! ### Any member of a text -/

theorem written_of_readUnionMembers {ms : List (Tree × Tree)} {parts result : UnionParts}
    (hfin : MembersAreFinite ms) (h : readUnionMembers u depth parts ms = .ok result)
    (hparts : ∀ f ∈ parts.others, f.2.written = f.2 ∧ f.2.nesting ≤ depth) :
    ∀ f ∈ result.others, f.2.written = f.2 ∧ f.2.nesting ≤ depth := by
  induction ms generalizing parts with
  | nil =>
      cases h
      exact hparts
  | cons m ms ih =>
      obtain ⟨k, t⟩ := m
      rw [readUnionMembers, bind_eq_ok_iff] at h
      obtain ⟨key, -, h⟩ := h
      split at h
      · split at h
        · cases h
        · obtain ⟨v, -, h⟩ := bind_eq_ok_iff.mp h
          exact ih hfin.2 h hparts
      · obtain ⟨d, hd, h⟩ := bind_eq_ok_iff.mp h
        refine ih hfin.2 h fun f hf => ?_
        obtain hf | hf := List.mem_append.mp hf
        · exact hparts f hf
        · obtain rfl := List.mem_singleton.mp hf
          exact written_of_readWhole hfin.1 hd

/-- Whatever is read as a member of a union can be written as it is, and its nesting is within the
limit. -/
theorem written_of_readUnion {t : Tree} {d : Document} (hfin : t.IsFinite)
    (h : readUnion u depth t = .ok d) : d.written = d ∧ d.nesting ≤ depth := by
  unfold readUnion at h
  split at h
  next members closed =>
    rw [bind_eq_ok_iff] at h
    obtain ⟨below, hdescend, h⟩ := h
    obtain rfl := descend_eq_ok_iff.mp hdescend
    obtain ⟨parts, hparts, h⟩ := bind_eq_ok_iff.mp h
    obtain ⟨-, -, h⟩ := bind_eq_ok_iff.mp h
    split at h
    · cases h
    · obtain ⟨-, -, h⟩ := bind_eq_ok_iff.mp h
      cases h
      have hothers := written_of_readUnionMembers hfin hparts nofun
      have hwritten := Document.writtenFields_eq_self_iff.mpr fun f hf => (hothers f hf).1
      refine ⟨?_, ?_⟩
      · rw [Document.written, Document.writtenFields, hwritten]
        rfl
      · rw [nesting_tagged, Nat.add_le_add_iff_right]
        exact Document.nestingOfFields_le_iff.mpr fun f hf => (hothers f hf).2
  next =>
    obtain ⟨-, -, h⟩ := bind_eq_ok_iff.mp h
    obtain ⟨-, -, h⟩ := bind_eq_ok_iff.mp h
    cases h
  next t ts closed =>
    rw [bind_eq_ok_iff] at h
    obtain ⟨below, hdescend, h⟩ := h
    obtain rfl := descend_eq_ok_iff.mp hdescend
    obtain ⟨v, -, h⟩ := bind_eq_ok_iff.mp h
    obtain ⟨ds, hds, h⟩ := bind_eq_ok_iff.mp h
    obtain ⟨-, -, h⟩ := bind_eq_ok_iff.mp h
    obtain ⟨-, -, h⟩ := bind_eq_ok_iff.mp h
    cases h
    obtain ⟨hwritten, hnesting⟩ := written_of_readWholeItems hfin.2 hds
    refine ⟨?_, ?_⟩
    · rw [Document.written, Document.writtenItems, hwritten]
      rfl
    · rw [Document.nesting, Document.nestingOfItems, Nat.add_le_add_iff_right]
      exact Nat.max_le.mpr ⟨Nat.zero_le below, hnesting⟩
  next => cases h

end Equilibrium.Json.Tree
