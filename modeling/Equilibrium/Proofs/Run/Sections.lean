import Equilibrium.Run.Assembly
import Equilibrium.Proofs.Checks
import Equilibrium.Proofs.Repeats

/-!
# Section checks

When each check of section names passes, and about which name it complains otherwise. The check for
blocks looks at the number of sections of a name (`checkRequiredNonempty_eq_error_iff_filledOnce`); with
distinct names, as it is reached in an assembly, there is at most one
(`checkRequiredNonempty_eq_error_iff`). -/

namespace Equilibrium

variable {sections : List Section} {names : List Symbol} {n : Symbol} {e : AssemblyError}

theorem mem_sectionNames : n ∈ sectionNames sections ↔ ∃ s ∈ sections, s.name = n := List.mem_map

/-! ### Distinct names -/

theorem checkUnique_eq_ok_iff : checkUnique sections = .ok () ↔ (sectionNames sections).Nodup := by
  rw [← repeated_eq_nil_iff]
  unfold checkUnique
  split
  next h => simp [h]
  next h => simp [h]

theorem checkUnique_eq_error_iff :
    checkUnique sections = .error e ↔
      ∃ n, IsFirstRepeat (sectionNames sections) n ∧ e = .duplicateSection n := by
  simp only [← head?_repeated_eq_some_iff]
  unfold checkUnique
  split
  next h => simp [h]
  next h => simp [h, eq_comm]

/-! ### Admitted names -/

theorem checkAllowed_eq_ok_iff :
    checkAllowed sections names = .ok () ↔ names = [] ∨ ∀ s ∈ sections, s.name ∈ names := by
  unfold checkAllowed
  split
  next h => simp [List.isEmpty_iff.mp h]
  next h =>
    have hne : names ≠ [] := fun hnil => h (List.isEmpty_iff.mpr hnil)
    split
    next hfind => simpa [hne, sectionNames] using hfind
    next m hfind =>
      obtain ⟨s, hs, rfl⟩ := mem_sectionNames.mp (List.mem_of_find?_eq_some hfind)
      have hm : s.name ∉ names := by simpa using List.find?_some hfind
      exact ⟨nofun, fun h => absurd (h.resolve_left hne s hs) hm⟩

theorem checkAllowed_eq_error_iff :
    checkAllowed sections names = .error e ↔
      names ≠ [] ∧ ∃ n, IsFirst (· ∉ names) (sectionNames sections) n ∧ e = .unknownSection n := by
  simp only [isFirst_iff_find?]
  unfold checkAllowed
  split
  next h => simp [List.isEmpty_iff.mp h]
  next h =>
    have hne : names ≠ [] := fun hnil => h (List.isEmpty_iff.mpr hnil)
    cases (sectionNames sections).find? fun n => decide (n ∉ names) with
    | none => simp
    | some m => simp [hne, eq_comm]

/-! ### Required names -/

theorem checkRequired_eq_ok_iff :
    checkRequired sections names = .ok () ↔ ∀ n ∈ names, n ∈ sectionNames sections := by
  unfold checkRequired
  split
  next h => simpa using h
  next m h =>
    have hm : m ∉ sectionNames sections := by simpa using List.find?_some h
    exact ⟨nofun, fun hall => absurd (hall m (List.mem_of_find?_eq_some h)) hm⟩

theorem checkRequired_eq_error_iff :
    checkRequired sections names = .error e ↔
      ∃ n, IsFirst (· ∉ sectionNames sections) names n ∧ e = .missingRequiredSection n := by
  simp only [isFirst_iff_find?]
  unfold checkRequired
  cases names.find? fun n => decide (n ∉ sectionNames sections) with
  | none => simp
  | some m => simp [eq_comm]

/-! ### Names that need blocks -/

/-- A section of the name has a block. -/
def HasBlocks (sections : List Section) (n : Symbol) : Prop :=
  ∃ s ∈ sections, s.name = n ∧ s.blocks ≠ []

/-- No section has the name, or one without blocks does. -/
def LacksBlocks (sections : List Section) (n : Symbol) : Prop :=
  n ∉ sectionNames sections ∨ ∃ s ∈ sections, s.name = n ∧ s.blocks = []

/-- Exactly one section has the name, and it has a block. -/
def FilledOnce (sections : List Section) (n : Symbol) : Prop :=
  (sectionNames sections).count n = 1 ∧ HasBlocks sections n

/-- The error about a name that is not the name of exactly one section with a block: by the number
of the sections of that name. -/
def fillingError (sections : List Section) (n : Symbol) : AssemblyError :=
  match (sectionNames sections).count n with
  | 0 => .missingRequiredSection n
  | 1 => .emptyRequiredSection n
  | several => .ambiguousSection n several

theorem length_filter_name (sections : List Section) (n : Symbol) :
    (sections.filter (·.name == n)).length = (sectionNames sections).count n := by
  rw [sectionNames, List.count, List.countP_map, List.countP_eq_length_filter]
  rfl

theorem hasBlocks_iff_filter :
    HasBlocks sections n ↔ ∃ s ∈ sections.filter (·.name == n), s.blocks ≠ [] := by
  simp only [HasBlocks, List.mem_filter, beq_iff_eq, and_assoc]

theorem checkNonempty_eq_ok_iff : checkNonempty sections n = .ok () ↔ FilledOnce sections n := by
  rw [FilledOnce, ← length_filter_name, hasBlocks_iff_filter, checkNonempty]
  generalize sections.filter (·.name == n) = found
  match found with
  | [] => simp
  | [s] => simp [Section.isEmpty]
  | s :: t :: more => simp

theorem checkNonempty_eq_error_iff :
    checkNonempty sections n = .error e ↔ ¬ FilledOnce sections n ∧ e = fillingError sections n := by
  rw [FilledOnce, fillingError, ← length_filter_name, hasBlocks_iff_filter, checkNonempty,
    eq_comm (a := e)]
  generalize sections.filter (·.name == n) = found
  match found with
  | [] => simp
  | [s] => by_cases hs : s.blocks = [] <;> simp [Section.isEmpty, hs]
  | s :: t :: more => simp

/-- All names pass that are the name of exactly one section with a block. -/
theorem checkRequiredNonempty_eq_ok_iff_filledOnce :
    checkRequiredNonempty sections names = .ok () ↔ ∀ n ∈ names, FilledOnce sections n := by
  simp only [checkRequiredNonempty, forM_eq_ok_iff, checkNonempty_eq_ok_iff]

/-- The first other name decides about the error. -/
theorem checkRequiredNonempty_eq_error_iff_filledOnce :
    checkRequiredNonempty sections names = .error e ↔
      ∃ n, IsFirst (fun n => ¬ FilledOnce sections n) names n ∧ e = fillingError sections n := by
  simp only [checkRequiredNonempty, forM_eq_error_iff, checkNonempty_eq_error_iff, ne_eq,
    checkNonempty_eq_ok_iff]
  constructor
  · rintro ⟨n, hn, -, rfl⟩
    exact ⟨n, hn, rfl⟩
  · rintro ⟨n, hn, rfl⟩
    exact ⟨n, hn, hn.property, rfl⟩

/-! ### Distinct names that need blocks -/

section distinct

variable (h : (sectionNames sections).Nodup)
include h

theorem eq_of_name_eq {s t : Section} (hs : s ∈ sections) (ht : t ∈ sections)
    (hname : s.name = t.name) : s = t :=
  List.inj_on_of_nodup_map h hs ht hname

theorem filledOnce_iff : FilledOnce sections n ↔ HasBlocks sections n := by
  refine ⟨And.right, fun hblocks => ⟨?_, hblocks⟩⟩
  obtain ⟨s, hs, hname, -⟩ := hblocks
  exact List.count_eq_one_of_mem h (mem_sectionNames.mpr ⟨s, hs, hname⟩)

theorem lacksBlocks_iff : LacksBlocks sections n ↔ ¬ HasBlocks sections n := by
  constructor
  · rintro (hn | ⟨s, hs, rfl, hempty⟩) ⟨t, ht, hname, hblocks⟩
    · exact hn (mem_sectionNames.mpr ⟨t, ht, hname⟩)
    · rw [eq_of_name_eq h ht hs hname] at hblocks
      exact hblocks hempty
  · intro hn
    by_cases hmem : n ∈ sectionNames sections
    · obtain ⟨s, hs, rfl⟩ := mem_sectionNames.mp hmem
      exact .inr ⟨s, hs, rfl, Classical.not_not.mp fun hblocks => hn ⟨s, hs, rfl, hblocks⟩⟩
    · exact .inl hmem

/-- A name without blocks is missing or the name of a section without blocks, and the error says
which. No error says that there are several. -/
theorem fillingError_of_lacksBlocks (hn : LacksBlocks sections n) :
    e = fillingError sections n ↔
      (n ∉ sectionNames sections ∧ e = .missingRequiredSection n) ∨
        ((∃ s ∈ sections, s.name = n ∧ s.blocks = []) ∧ e = .emptyRequiredSection n) := by
  by_cases hmem : n ∈ sectionNames sections
  · have hempty := hn.resolve_left (not_not_intro hmem)
    rw [fillingError, List.count_eq_one_of_mem h hmem]
    simp only [hmem, hempty, not_true_eq_false, false_and, true_and, false_or]
  · have hempty : ¬ ∃ s ∈ sections, s.name = n ∧ s.blocks = [] := by
      rintro ⟨s, hs, hname, -⟩
      exact hmem (mem_sectionNames.mpr ⟨s, hs, hname⟩)
    rw [fillingError, List.count_eq_zero_of_not_mem hmem]
    simp only [hmem, hempty, not_false_eq_true, true_and, false_and, or_false]

theorem checkRequiredNonempty_eq_ok_iff :
    checkRequiredNonempty sections names = .ok () ↔ ∀ n ∈ names, HasBlocks sections n := by
  simp only [checkRequiredNonempty_eq_ok_iff_filledOnce, filledOnce_iff h]

theorem checkRequiredNonempty_eq_error_iff :
    checkRequiredNonempty sections names = .error e ↔
      ∃ n, IsFirst (LacksBlocks sections) names n ∧
        ((n ∉ sectionNames sections ∧ e = .missingRequiredSection n) ∨
          ((∃ s ∈ sections, s.name = n ∧ s.blocks = []) ∧ e = .emptyRequiredSection n)) := by
  have hlacks : (fun n => ¬ FilledOnce sections n) = LacksBlocks sections := by
    funext n
    rw [filledOnce_iff h, lacksBlocks_iff h]
  rw [checkRequiredNonempty_eq_error_iff_filledOnce, hlacks]
  refine exists_congr fun n => and_congr_right fun hn => ?_
  exact fillingError_of_lacksBlocks h hn.property

end distinct

end Equilibrium
