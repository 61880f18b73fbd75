import Equilibrium.Proofs.Json.Records
import Equilibrium.Proofs.Run.Files

/-!
# Sparse and extended input files

Run inputs may be written with default values left out, with the fields of records in any order and
with unknown fields between them, and are loaded the same; without a field that has to be there, or
with a repeated one, nothing is loaded (`RunInputs.load_standsFor`). The limit on nesting is one on
the inputs: unknown fields are passed over, however deep they nest.

That a text is one of a tree is said of its tokens (`tokens s = treeTokens t`). It implies that each
number of the tree is read back, as the same number, from the way in which it is written there. -/

namespace Equilibrium.RunInputs

open Json (StandsFor Faulty Tree tokens treeTokens)

variable {r : RunInputs} {t : Tree} {s : String}

theorem load_of_standsFor (hsets : ∀ k, r.sets.members k ≠ [])
    (ht : StandsFor codec.shape (codec.encode r) t) (hs : tokens s = treeTokens t)
    (hnesting : Json.nesting (r.render .json) ≤ Json.nestingLimit) :
    load .json (some s.toUTF8) = .ok r := by
  have hparse : parse .json s = .ok r := by
    unfold parse
    apply mapError_eq_ok_iff.mpr
    rw [nesting_render] at hnesting
    exact Json.decode_of_standsFor lawful_codec (by decide) ht hs hnesting
  exact load_eq_ok_iff.mpr ⟨s, textOfFile_toUTF8 s, hparse, hsets⟩

theorem load_of_faulty (h : Faulty codec.shape t) (ht : t.IsProper) (hs : tokens s = treeTokens t) :
    ∃ e, load .json (some s.toUTF8) = .error (.json e) := by
  obtain ⟨e, he⟩ := Json.exists_decode_eq_error_of_faulty lawful_codec (by decide) h ht hs
  refine ⟨e, ?_⟩
  unfold load loadWith parse
  rw [textOfFile_toUTF8, ok_bind]
  simp only [he]
  rfl

/-- **However run inputs without an empty core set are written, with defaults left out, fields moved
and unknown fields added to any of their records, and with numbers that are read back as what they
are, they are loaded the same if and only if they nest within the limit of the reader. A text in which a record lacks a field that has to be there, or
repeats one that is known, is not loaded.** What has to be there is the name, the sets and the
closure, the numéraire of the closure and the name of a scenario. -/
theorem load_standsFor :
    (∀ (r : RunInputs) (t : Tree) (s : String), (∀ k, r.sets.members k ≠ []) →
      StandsFor codec.shape (codec.encode r) t → tokens s = treeTokens t →
      (load .json (some s.toUTF8) = .ok r ↔ Json.nesting (r.render .json) ≤ 127)) ∧
    ∀ (t : Tree) (s : String), t.IsProper → Faulty codec.shape t → tokens s = treeTokens t →
      ∃ e, load .json (some s.toUTF8) = .error (.json e) := by
  constructor
  · intro r t s hsets ht hs
    constructor
    · intro hload
      exact (nesting_of_load hload).2
    · intro hnesting
      exact load_of_standsFor hsets ht hs hnesting
  · intro t s ht h hs
    exact load_of_faulty h ht hs

/-- Inputs that have a default value wherever there is one, but for one rule. -/
def plain : RunInputs where
  name := "standard"
  sets := ⟨["food"], ["farm"], ["labour"], ["household"]⟩
  mappings := ∅
  closure := ⟨"labour"⟩
  scenario := .baseline
  rules := ⟨["households"], [], []⟩

/-- The fields of the plain inputs from the last to the first, without those for default values, with
a version and with a comment on the rules. -/
def sparseFields (closure : Document) : List (String × Document) :=
  [("rules", .record [("comment", .null), ("required", .texts ["households"])]),
    ("version", .list [.ofNat 2]),
    ("closure", closure),
    ("sets", Sets.codec.encode plain.sets),
    ("name", .text "standard")]

theorem standsFor_sparseFields {closure : Document}
    (h : StandsFor Closure.codec.shape (Closure.codec.encode plain.closure) (.ofDocument closure)) :
    StandsFor codec.shape (codec.encode plain) (.ofDocument (.record (sparseFields closure))) := by
  have hrules : StandsFor SectionRules.codec.shape (SectionRules.codec.encode plain.rules)
      (.ofDocument (.record [("comment", .null), ("required", .texts ["households"])])) := by
    apply Json.standsFor_record rfl (by decide)
    simp only [List.zip_cons_cons, List.forall_mem_cons]
    exact ⟨.same _, rfl, rfl, nofun⟩
  apply Json.standsFor_record rfl
  · show ["rules", "version", "closure", "sets", "name"].Nodup
    decide
  · simp only [List.zip_cons_cons, List.forall_mem_cons]
    exact ⟨.same _, .same _, rfl, h, rfl, hrules, nofun⟩

/-- The plain inputs are loaded from a text without default values, with fields in another order and
with unknown ones. Without a numéraire, or with two names, nothing is loaded. -/
theorem load_sparseFields :
    load .json (some (Json.compact (.record (sparseFields (.record
      [("comment", .text "of account"), ("numeraire", .text "labour")])))).toUTF8) = .ok plain ∧
    (∃ e, load .json (some (Json.compact (.record (sparseFields (.record
      [("comment", .text "of account")])))).toUTF8) = .error (.json e)) ∧
    ∃ e, load .json (some (Json.compact (.record (("name", .text "other") ::
      sparseFields (Closure.codec.encode plain.closure)))).toUTF8) = .error (.json e) := by
  have htokens (d : Document) (h : d.written = d) :
      tokens (Json.compact d) = treeTokens (.ofDocument d) := by
    unfold Json.compact
    rw [Json.tokens_write, h]
  refine ⟨?_, ?_, ?_⟩
  · have hsets : ∀ k, plain.sets.members k ≠ [] := by
      intro k
      cases k <;> decide
    have hclosure : StandsFor Closure.codec.shape (Closure.codec.encode plain.closure)
        (.ofDocument (.record [("comment", .text "of account"), ("numeraire", .text "labour")])) := by
      apply Json.standsFor_record rfl (by decide)
      simp only [List.zip_cons_cons, List.forall_mem_cons]
      exact ⟨.same _, nofun⟩
    apply (load_standsFor.1 plain _ _ hsets (standsFor_sparseFields hclosure) (htokens _ rfl)).mpr
    rw [nesting_render]
    decide
  · have hclosure : Faulty Closure.codec.shape
        (.ofDocument (.record [("comment", .text "of account")])) := by
      rw [Tree.ofDocument, Tree.ofFields_eq_ofMembers]
      exact .missing (.head _) rfl (by decide)
    apply load_standsFor.2 _ _ (Tree.isProper_ofDocument _) ?_ (htokens _ rfl)
    rw [Tree.ofDocument, Tree.ofFields_eq_ofMembers]
    exact .within (.tail _ (.tail _ (.tail _ (.head _)))) (.tail _ (.tail _ (.head _))) hclosure
  · apply load_standsFor.2 _ _ (Tree.isProper_ofDocument _) ?_ (htokens _ rfl)
    rw [Tree.ofDocument, Tree.ofFields_eq_ofMembers]
    exact .repeated (.head _) (List.duplicate_iff_two_le_count.mpr (by decide))

/-- As many lists one in another. -/
def nestedLists : Nat → Document
  | 0 => .null
  | n + 1 => .list [nestedLists n]

/-- The plain inputs with a shock that nests too deep. -/
def deep : RunInputs :=
  { plain with scenario := Scenario.baseline.withShock "depth" (.ofDocument (nestedLists 128)) }

/-- Inputs without an empty core set may nest too deep to be loaded from their own text. -/
theorem load_deep :
    (∀ k, deep.sets.members k ≠ []) ∧
    StandsFor codec.shape (codec.encode deep) (.ofDocument (codec.encode deep)) ∧
    tokens (deep.render .json) = treeTokens (.ofDocument (codec.encode deep)) ∧
    load .json (some (deep.render .json).toUTF8) ≠ .ok deep := by
  refine ⟨fun k => ?_, .same _, ?_, fun hload => ?_⟩
  · cases k <;> decide
  · have hwritten := (lawful_codec.conforms deep _ (Nat.le_refl _)).written_eq
    rw [render, Json.pretty, Json.tokens_write, hwritten]
  · have hnesting := (nesting_of_load hload).2
    rw [nesting_render] at hnesting
    exact absurd hnesting (by decide +kernel)

end Equilibrium.RunInputs
