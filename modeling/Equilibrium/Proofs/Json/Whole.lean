import Equilibrium.Json.Reading
import Equilibrium.Proofs.Checks
import Equilibrium.Proofs.Document
import Equilibrium.Proofs.Json.Finite

/-!
# Values read as a whole

A document is read back from its tree if its nesting is within the limit
(`Tree.readWhole_ofDocument`). What is read as a whole from any text is such a document, and it can
be written as it is (`Tree.written_of_readWhole`). -/

namespace Equilibrium.Json

/-! ### Documents that are there as a whole -/

theorem descend_eq_ok_iff {depth below : Nat} : descend depth = .ok below ↔ depth = below + 1 := by
  cases depth with
  | zero => exact ⟨nofun, nofun⟩
  | succ depth => exact ⟨fun h => by cases h; rfl, fun h => by cases h; rfl⟩

section descend

variable {β : Type} {n : Nat} {p : Prop} {f : Nat → Except Error β} {b : β}

/-- A list or record takes one level for itself. -/
theorem gives_descend_and (h : ∀ depth, Gives (n ≤ depth ∧ p) (f depth) b) (depth : Nat) :
    Gives (n + 1 ≤ depth ∧ p) (descend depth >>= f) b := by
  cases depth with
  | zero => exact ⟨fun hle => absurd hle.1 (by omega), fun _ => ⟨.malformed, rfl⟩⟩
  | succ depth => exact (h depth).congr (by rw [Nat.add_le_add_iff_right])

theorem gives_descend (h : ∀ depth, Gives (n ≤ depth) (f depth) b) (depth : Nat) :
    Gives (n + 1 ≤ depth) (descend depth >>= f) b :=
  (gives_descend_and (fun depth => (h depth).congr (Iff.of_eq (and_true _)).symm) depth).congr
    (Iff.of_eq (and_true _))

end descend

namespace Tree

/-- A document is read as a whole if its nesting fits. -/
def IsReadWhole (d : Document) : Prop :=
  ∀ depth, Gives (d.nesting ≤ depth) (readWhole depth (ofDocument d)) d

theorem readWholeItems_ofItems {items : List Document} (h : ∀ d ∈ items, IsReadWhole d)
    (depth : Nat) :
    Gives (Document.nestingOfItems items ≤ depth) (readWholeItems depth (ofItems items)) items := by
  induction items with
  | nil => exact (gives_ok []).congr (by simp [Document.nestingOfItems])
  | cons d ds ih =>
      have hd := h d List.mem_cons_self depth
      have hds := ih fun e he => h e (List.mem_cons_of_mem d he)
      rw [ofItems, readWholeItems]
      exact (hd.map₂ hds List.cons).congr Nat.max_le.symm

theorem readWholeMembers_ofFields {fields : List (String × Document)}
    (h : ∀ f ∈ fields, IsReadWhole f.2) (depth : Nat) :
    Gives (Document.nestingOfFields fields ≤ depth) (readWholeMembers depth (ofFields fields))
      fields := by
  induction fields with
  | nil => exact (gives_ok []).congr (by simp [Document.nestingOfFields])
  | cons f fs ih =>
      have hf := h f List.mem_cons_self depth
      have hfs := ih fun g hg => h g (List.mem_cons_of_mem f hg)
      rw [ofFields, readWholeMembers]
      exact (hf.map₂ hfs fun d ds => (f.1, d) :: ds).congr Nat.max_le.symm

/-- A document is read back from its tree if its nesting fits. -/
theorem readWhole_ofDocument (d : Document) : IsReadWhole d := by
  induction d using Document.membersInduction with
  | step d ih =>
      intro depth
      cases d with
      | list items =>
          rw [ofDocument, readWhole, Document.nesting]
          exact gives_descend (fun depth => (readWholeItems_ofItems ih depth).map Document.list) depth
      | record fields =>
          have hfields : ∀ f ∈ fields, IsReadWhole f.2 := fun f hf => ih f.2 (List.mem_map_of_mem hf)
          rw [ofDocument, readWhole, Document.nesting]
          exact gives_descend (fun depth => (readWholeMembers_ofFields hfields depth).map Document.record)
            depth
      | _ => exact (gives_ok _).congr (by simp [Document.nesting])

/-! ### What is read as a whole -/

mutual

/-- What is read as a whole can be written as it is, and its nesting is within the limit. -/
theorem written_of_readWhole : ∀ {t : Tree} {depth : Nat} {d : Document}, t.IsFinite →
    readWhole depth t = .ok d → d.written = d ∧ d.nesting ≤ depth
  | .broken, _, _, _, h => by cases h
  | .null, _, _, _, h | .bool _, _, _, _, h | .text (some _), _, _, _, h => by
      cases h
      exact ⟨rfl, Nat.zero_le _⟩
  | .number (some n), _, _, hfin, h => by
      cases h
      refine ⟨?_, Nat.zero_le _⟩
      cases n with
      | real x => exact if_pos hfin
      | _ => rfl
  | .number none, _, _, _, h | .text none, _, _, _, h => by cases h
  | .list items closed, depth, d, hfin, h => by
      rw [readWhole, bind_eq_ok_iff] at h
      obtain ⟨below, hdescend, h⟩ := h
      obtain rfl := descend_eq_ok_iff.mp hdescend
      obtain ⟨ds, hds, h⟩ := bind_eq_ok_iff.mp h
      obtain ⟨-, -, h⟩ := bind_eq_ok_iff.mp h
      cases h
      obtain ⟨hwritten, hnesting⟩ := written_of_readWholeItems hfin hds
      exact ⟨congrArg Document.list hwritten, Nat.succ_le_succ hnesting⟩
  | .record members closed, depth, d, hfin, h => by
      rw [readWhole, bind_eq_ok_iff] at h
      obtain ⟨below, hdescend, h⟩ := h
      obtain rfl := descend_eq_ok_iff.mp hdescend
      obtain ⟨fs, hfs, h⟩ := bind_eq_ok_iff.mp h
      obtain ⟨-, -, h⟩ := bind_eq_ok_iff.mp h
      cases h
      obtain ⟨hwritten, hnesting⟩ := written_of_readWholeMembers hfin hfs
      exact ⟨congrArg Document.record hwritten, Nat.succ_le_succ hnesting⟩

theorem written_of_readWholeItems : ∀ {ts : List Tree} {depth : Nat} {ds : List Document},
    AreFinite ts → readWholeItems depth ts = .ok ds →
    Document.writtenItems ds = ds ∧ Document.nestingOfItems ds ≤ depth
  | [], _, _, _, h => by
      cases h
      exact ⟨rfl, Nat.zero_le _⟩
  | t :: ts, depth, _, hfin, h => by
      rw [readWholeItems, bind_eq_ok_iff] at h
      obtain ⟨d, hd, h⟩ := h
      obtain ⟨ds, hds, h⟩ := bind_eq_ok_iff.mp h
      cases h
      obtain ⟨hwritten, hnesting⟩ := written_of_readWhole hfin.1 hd
      obtain ⟨hwrittens, hnestings⟩ := written_of_readWholeItems hfin.2 hds
      rw [Document.writtenItems, hwritten, hwrittens]
      exact ⟨rfl, Nat.max_le.mpr ⟨hnesting, hnestings⟩⟩

theorem written_of_readWholeMembers : ∀ {ms : List (Tree × Tree)} {depth : Nat}
    {fs : List (String × Document)}, MembersAreFinite ms → readWholeMembers depth ms = .ok fs →
    Document.writtenFields fs = fs ∧ Document.nestingOfFields fs ≤ depth
  | [], _, _, _, h => by
      cases h
      exact ⟨rfl, Nat.zero_le _⟩
  | (k, t) :: ms, depth, _, hfin, h => by
      rw [readWholeMembers, bind_eq_ok_iff] at h
      obtain ⟨key, -, h⟩ := h
      obtain ⟨d, hd, h⟩ := bind_eq_ok_iff.mp h
      obtain ⟨fs, hfs, h⟩ := bind_eq_ok_iff.mp h
      cases h
      obtain ⟨hwritten, hnesting⟩ := written_of_readWhole hfin.1 hd
      obtain ⟨hwrittens, hnestings⟩ := written_of_readWholeMembers hfin.2 hfs
      rw [Document.writtenFields, hwritten, hwrittens]
      exact ⟨rfl, Nat.max_le.mpr ⟨hnesting, hnestings⟩⟩

end

end Tree

end Equilibrium.Json
