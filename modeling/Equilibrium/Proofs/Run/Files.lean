import Equilibrium.Run.Files
import Equilibrium.Proofs.Json.Shape
import Equilibrium.Proofs.Run.Assembly
import Equilibrium.Proofs.Run.Inputs
import Equilibrium.Proofs.Yaml.Shape

/-!
# Saving and loading

What is saved is loaded back, as JSON (`RunInputs.load_save_json`) and as YAML
(`RunInputs.load_save_yaml`), as long as it nests within the limit of the reader. -/

namespace Equilibrium

/-- The bytes of a text are read as the text. -/
theorem textOfFile_toUTF8 (s : String) : textOfFile (some s.toUTF8) = .ok s := by
  have hread : String.fromUTF8? s.toUTF8 = some s := by
    unfold String.fromUTF8?
    split
    · rfl
    next h => exact absurd s.isValidUTF8 h
  rw [textOfFile, hread]
  rfl

theorem mapError_eq_ok_iff {ε ε' α : Type} {f : ε → ε'} {x : Except ε α} {a : α} :
    x.mapError f = .ok a ↔ x = .ok a := by
  cases x with
  | error e => exact ⟨nofun, nofun⟩
  | ok b => exact ⟨fun h => congrArg Except.ok (Except.ok.inj h), fun h => by rw [h]; rfl⟩

namespace RunInputs

variable {r : RunInputs} {format : FileFormat}

/-- A file gives the inputs that its text is read as, unless a core set is empty. -/
theorem loadWith_eq_ok_iff {read : String → Except FileError RunInputs} {file : Option ByteArray} :
    loadWith read file = .ok r ↔
      ∃ text, textOfFile file = .ok text ∧ read text = .ok r ∧ ∀ k, r.sets.members k ≠ [] := by
  rw [loadWith, bind_eq_ok_iff]
  refine exists_congr fun text => and_congr_right fun _ => ?_
  rw [bind_eq_ok_iff]
  constructor
  · rintro ⟨r', hread, h⟩
    obtain ⟨hvalid, h⟩ := then_eq_ok_iff.mp h
    cases h
    exact ⟨hread, Sets.validate_eq_ok_iff.mp (mapError_eq_ok_iff.mp hvalid)⟩
  · rintro ⟨hread, hsets⟩
    refine ⟨r, hread, then_eq_ok_iff.mpr ⟨?_, rfl⟩⟩
    exact mapError_eq_ok_iff.mpr (Sets.validate_eq_ok_iff.mpr hsets)

/-- A file gives the inputs that its text stands for, unless a core set is empty. -/
theorem load_eq_ok_iff {file : Option ByteArray} :
    load format file = .ok r ↔
      ∃ text, textOfFile file = .ok text ∧ parse format text = .ok r ∧ ∀ k,
      r.sets.members k ≠ [] := loadWith_eq_ok_iff

/-- Inputs whose text is read back are loaded from the file that they are saved to. -/
theorem load_save (hsets : ∀ k, r.sets.members k ≠ []) (h : parse format (r.render format) = .ok r)
    (old : Option ByteArray) :
    (r.save format true old).1 = .ok () ∧ load format (r.save format true old).2 = .ok r := by
  have hsave : r.save format true old = (.ok (), some (r.render format).toUTF8) := by
    rw [save, Sets.validate_eq_ok_iff.mpr hsets]
    rfl
  rw [hsave]
  exact ⟨rfl, load_eq_ok_iff.mpr ⟨r.render format, textOfFile_toUTF8 _, h, hsets⟩⟩

/-! ### JSON -/

theorem nesting_render : Json.nesting (r.render .json) = (codec.encode r).nesting :=
  Json.nesting_write (some 0) (codec.encode r)

theorem parse_render_json (h : Json.nesting (r.render .json) ≤ Json.nestingLimit) :
    parse .json (r.render .json) = .ok r := by
  simp only [parse, mapError_eq_ok_iff]
  exact Json.decode_pretty lawful_codec (by decide) r h

theorem nesting_of_load {file : Option ByteArray} (h : load .json file = .ok r) :
    (∀ k, r.sets.members k ≠ []) ∧ Json.nesting (r.render .json) ≤ Json.nestingLimit := by
  obtain ⟨text, -, hparse, hsets⟩ := load_eq_ok_iff.mp h
  simp only [parse, mapError_eq_ok_iff] at hparse
  exact ⟨hsets, Json.nesting_of_decode lawful_codec (by decide) hparse⟩

/-- **Inputs without an empty core set whose text nests at most 127 lists and records are saved and
loaded back the same, with every shock number of the same kind and bit for bit. Whatever a file
gives is such inputs, so what is loaded, saved and loaded again is what was loaded first.** -/
theorem load_save_json (r : RunInputs) :
    ((∀ k, r.sets.members k ≠ []) → Json.nesting (r.render .json) ≤ 127 →
      ∀ old, (r.save .json true old).1 = .ok () ∧ load .json (r.save .json true old).2 = .ok r) ∧
    ∀ file, load .json file = .ok r →
      ((∀ k, r.sets.members k ≠ []) ∧ Json.nesting (r.render .json) ≤ 127) ∧
      ∀ old, (r.save .json true old).1 = .ok () ∧ load .json (r.save .json true old).2 = .ok r := by
  have hsaved (hsets : ∀ k, r.sets.members k ≠ []) (h : Json.nesting (r.render .json) ≤ 127) :=
    load_save hsets (parse_render_json h)
  refine ⟨hsaved, fun file hfile => ?_⟩
  obtain ⟨hsets, hnesting⟩ := nesting_of_load hfile
  exact ⟨⟨hsets, hnesting⟩, hsaved hsets hnesting⟩

/-- Inputs with the kinds of texts and numbers that a file may confuse: an empty name, a repeated
member, quotes and control characters, the integer 1 beside the number 1.0, and the number -0.0. -/
def oddities : RunInputs where
  name := ""
  sets := ⟨["wheat", "wheat"], ["null", "- x"], ["\"", "'"], ["\u0000", "a: b\n"]⟩
  mappings := .ofPairs [("null", "wheat"), ("", "# no comment")]
  closure := ⟨"~"⟩
  scenario := (Scenario.named "1.0").withShock "true" (.ofDocument (.list
    [.text "true", .bool true, .number (.natural 1), .number (.real (.ofInt 1)),
      .number (.real ⟨0x8000000000000000⟩), .list [], .record [], .text ""]))
  rules := ⟨[], ["yes", "0x1F"], [".inf"]⟩

/-- Inputs with an empty name, a repeated member, quotes and control characters, with the integer 1
beside the number 1.0 and with the number -0.0 are loaded back, and so again from there. -/
theorem load_save_json_oddities :
    load .json (oddities.save .json true none).2 = .ok oddities ∧
    load .json (oddities.save .json true (some ⟨#[]⟩)).2 = .ok oddities := by
  have hsets : ∀ k, oddities.sets.members k ≠ [] := by
    intro k
    cases k <;> decide
  have hnesting : Json.nesting (oddities.render .json) ≤ 127 := by
    rw [nesting_render]
    decide
  have hload := ((load_save_json oddities).1 hsets hnesting none).2
  exact ⟨hload, (((load_save_json oddities).2 _ hload).2 _).2⟩

/-! ### YAML -/

theorem parse_render_yaml
    (h : ∀ e ∈ r.scenario.shocks.entries, e.2.value.nesting + 3 ≤ Yaml.nestingLimit) :
    parse .yaml (r.render .yaml) = .ok r := by
  have hnesting : (codec.encode r).nesting ≤ Yaml.nestingLimit :=
    nesting_encode_le fun e he => (Nat.le_sub_of_add_le (h e he) : _ ≤ Yaml.nestingLimit - 3)
  have hdecode := Yaml.decode?_text lawful_codec (by decide) r (List.cons_ne_nil _ _) rfl hnesting
  rw [parse, render, hdecode]
  rfl

/-- **Inputs without an empty core set whose shocks nest within the limit of the reader are saved as
YAML and loaded back the same: every text is written so that it is read as that text, and every
null, truth value and number, of whatever kind, is read as itself.** -/
theorem load_save_yaml (r : RunInputs) (hsets : ∀ k, r.sets.members k ≠ [])
    (h : ∀ e ∈ r.scenario.shocks.entries, e.2.value.nesting + 3 ≤ Yaml.nestingLimit)
    (old : Option ByteArray) :
    (r.save .yaml true old).1 = .ok () ∧ load .yaml (r.save .yaml true old).2 = .ok r :=
  load_save hsets (parse_render_yaml h) old

/-- Inputs with names that look like null, numbers, items and comments, with the text "true" beside
the truth value, and with empty texts, lists and records are loaded back. -/
theorem load_save_yaml_oddities :
    (oddities.save .yaml true none).1 = .ok () ∧
      load .yaml (oddities.save .yaml true none).2 = .ok oddities := by
  refine load_save_yaml oddities (fun k => ?_) (fun e he => ?_) none
  · cases k <;> decide
  · obtain rfl := List.mem_singleton.mp he
    decide

end RunInputs

end Equilibrium
