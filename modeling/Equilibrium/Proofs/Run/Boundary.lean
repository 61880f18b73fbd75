import Equilibrium.Run.Builder
import Equilibrium.Proofs.Run.Changes
import Equilibrium.Proofs.Run.Files

/-!
# Core sets at the boundary

Inputs with an empty core set pass neither from a file nor into one. So whatever is loaded makes a
run or fails on its sections, however it is changed before (`RunInputs.load_guarded`). None of this
depends on how texts are read: it holds of loading with any reader (`RunInputs.loadWith_guarded`). -/

namespace Equilibrium

/-! ### Failing on sections -/

/-- With no empty core set, parts make a run or fail on their sections. -/
theorem Parts.build_of_inhabited {p : Parts} (h : ∀ k, p.sets.members k ≠ []) :
    (∃ run, p.build = .ok run) ∨ ∃ e, p.build = .error e ∧ e.IsAboutSection := by
  rw [build_eq_assemble]
  cases hp : p.assemble with
  | ok run => exact .inl ⟨run, rfl⟩
  | error e =>
      obtain he | ⟨-, k, hk, -⟩ := assemble_eq_error_iff.mp hp
      · exact .inr ⟨e, rfl, isAboutSection_of_checkSections he⟩
      · obtain ⟨-, -, -, hempty, -⟩ := hk
        exact absurd hempty (h k)

theorem Parts.sets_changes (p : Parts) (cs : List Change) : (p.changes cs).sets = p.sets := by
  rw [changes_eq]

/-! ### Loading and saving -/

namespace RunInputs

variable {format : FileFormat} {read : String → Except FileError RunInputs} {r : RunInputs}
  {file : Option ByteArray} {text : String} {k : SetKind}

/-- A file whose text is read as inputs gives them if they are valid. -/
theorem loadWith_of_read (htext : textOfFile file = .ok text) (h : read text = .ok r) :
    loadWith read file = (r.sets.validate.mapError .validation).map fun _ => r := by
  rw [loadWith, htext, ok_bind, h, ok_bind]
  cases r.sets.validate <;> rfl

theorem loadWith_of_empty (htext : textOfFile file = .ok text) (h : read text = .ok r)
    (hk : IsFirst (fun k => r.sets.members k = []) SetKind.all k) :
    loadWith read file = .error (.validation (.emptySet k)) := by
  rw [loadWith_of_read htext h, Sets.validate_eq_error_iff.mpr ⟨k, hk, rfl⟩]
  rfl

/-- **However texts are read, no empty core set comes out of a file.** Inputs that are loaded have
none, and what is built from them, whatever is changed on the way, is a run or fails on its sections.
A text that is read as inputs with an empty core set is refused with the first one in canonical
order. -/
theorem loadWith_guarded (read : String → Except FileError RunInputs) :
    (∀ file r, loadWith read file = .ok r →
      (∀ k, r.sets.members k ≠ []) ∧
      ∀ cs : List Parts.Change,
        (∃ run, ((Parts.ofInputs r).changes cs).build = .ok run) ∨
          ∃ e, ((Parts.ofInputs r).changes cs).build = .error e ∧ e.IsAboutSection) ∧
    ∀ file text r, textOfFile file = .ok text → read text = .ok r →
      (∃ k, r.sets.members k = []) →
      ∃ k, IsFirst (fun k => r.sets.members k = []) SetKind.all k ∧
        loadWith read file = .error (.validation (.emptySet k)) := by
  refine ⟨fun file r hload => ?_, fun file text r htext hread hempty => ?_⟩
  · obtain ⟨-, -, -, hsets⟩ := loadWith_eq_ok_iff.mp hload
    refine ⟨hsets, fun cs => Parts.build_of_inhabited ?_⟩
    rw [Parts.sets_changes]
    exact hsets
  · obtain ⟨k, hk⟩ := Sets.exists_isFirst_empty hempty
    exact ⟨k, hk, loadWith_of_empty htext hread hk⟩

theorem save_of_empty (hk : IsFirst (fun k => r.sets.members k = []) SetKind.all k)
    (directory : Bool) (file : Option ByteArray) :
    r.save format directory file = (.error (.validation (.emptySet k)), file) := by
  rw [save, Sets.validate_eq_error_iff.mpr ⟨k, hk, rfl⟩]

/-- **No empty core set crosses the boundary.** Loaded inputs have none, and a run that is built
from them, whatever is changed on the way, can fail only on its sections. A file that stands for
inputs with an empty core set is refused with the first one in canonical order, and so is saving
such inputs, which leaves the file as it was. -/
theorem load_guarded (format : FileFormat) :
    (∀ file r, load format file = .ok r →
      (∀ k, r.sets.members k ≠ []) ∧
      ∀ cs : List Parts.Change,
        (∃ run, ((Parts.ofInputs r).changes cs).assemble = .ok run) ∨
          ∃ e, ((Parts.ofInputs r).changes cs).assemble = .error e ∧ e.IsAboutSection) ∧
    (∀ file text r, textOfFile file = .ok text → parse format text = .ok r →
      (∃ k, r.sets.members k = []) →
      ∃ k, IsFirst (fun k => r.sets.members k = [])
          [.commodities, .activities, .factors, .institutions] k ∧
        load format file = .error (.validation (.emptySet k))) ∧
    ∀ r : RunInputs, (∃ k, r.sets.members k = []) →
      ∃ k, IsFirst (fun k => r.sets.members k = [])
          [.commodities, .activities, .factors, .institutions] k ∧
        ∀ directory file,
          r.save format directory file = (.error (.validation (.emptySet k)), file) := by
  obtain ⟨hloaded, hrefused⟩ := loadWith_guarded (parse format)
  refine ⟨hloaded, hrefused, fun r hempty => ?_⟩
  obtain ⟨k, hk⟩ := Sets.exists_isFirst_empty hempty
  exact ⟨k, hk, save_of_empty hk⟩

/-- Inputs of which two core sets are empty. -/
def lacking : RunInputs := { oddities with sets := ⟨["food"], [], [], ["household"]⟩ }

/-- The odd inputs are loaded, and with a section that is admitted they fail on one that is not
there. Inputs without activities and factors are neither loaded nor saved, for want of activities. -/
theorem load_guarded_lacking :
    load .json (some (oddities.render .json).toUTF8) = .ok oddities ∧
    (∃ e, ((Parts.ofInputs oddities).changes [.section ⟨"yes", []⟩]).assemble = .error e ∧
      e.IsAboutSection) ∧
    load .json (some (lacking.render .json).toUTF8) = .error (.validation (.emptySet .activities)) ∧
    lacking.save .yaml true (some ⟨#[]⟩) =
      (.error (.validation (.emptySet .activities)), some ⟨#[]⟩) := by
  have hparse (r : RunInputs) (h : (codec.encode r).nesting ≤ Json.nestingLimit) :
      parse .json (r.render .json) = .ok r := parse_render_json (by rwa [nesting_render])
  have hload : load .json (some (oddities.render .json).toUTF8) = .ok oddities := by
    refine load_eq_ok_iff.mpr ⟨_, textOfFile_toUTF8 _, hparse oddities (by decide), ?_⟩
    intro k
    cases k <;> decide
  have hempty : ∃ k, lacking.sets.members k = [] := ⟨.factors, rfl⟩
  have hactivities {k : SetKind} (h : IsFirst (fun k => lacking.sets.members k = [])
      [.commodities, .activities, .factors, .institutions] k) : k = .activities := by
    have hfind : some SetKind.activities = some k := Sets.firstEmpty?_eq_some_iff.mpr h
    exact (Option.some.inj hfind).symm
  refine ⟨hload, ?_, ?_, ?_⟩
  · obtain ⟨run, hrun⟩ | hfails := ((load_guarded .json).1 _ oddities hload).2 [.section ⟨"yes", []⟩]
    · cases hrun
    · exact hfails
  · obtain ⟨k, hk, h⟩ := (load_guarded .json).2.1 _ _ lacking (textOfFile_toUTF8 _)
      (hparse lacking (by decide)) hempty
    rwa [hactivities hk] at h
  · obtain ⟨k, hk, h⟩ := (load_guarded .yaml).2.2 lacking hempty
    rw [h, hactivities hk]

end RunInputs

end Equilibrium
