import Equilibrium.Run.Builder
import Equilibrium.Proofs.Run.Sections
import Equilibrium.Proofs.Sets

/-!
# Assembly

Which parts make a run (`Parts.Admissible`), what run they make, and why the others are refused
(`Parts.Violation`). Every refusal but that for an empty core set is about one section
(`AssemblyError.IsAboutSection`), never about several. -/

namespace Equilibrium

/-! ### Runs of models -/

section ofModel

variable {name : Symbol} {model : Model} {closure : Closure} {scenario : Scenario}

/-- A model makes at most the one run that is put together from it. -/
theorem Run.ofModel_eq_ok_iff {r : Run} :
    ofModel name model closure scenario = .ok r ↔
      r.name = name ∧ r.model = model ∧ r.closure = closure ∧ r.scenario = scenario := by
  unfold ofModel
  split
  next k hempty =>
    refine ⟨nofun, ?_⟩
    rintro ⟨-, rfl, -, -⟩
    rw [r.complete] at hempty
    cases hempty
  next hempty =>
    constructor
    · intro h
      cases h
      exact ⟨rfl, rfl, rfl, rfl⟩
    · rintro ⟨rfl, rfl, rfl, rfl⟩
      rfl

theorem Run.exists_ofModel_eq_ok_iff :
    (∃ r, ofModel name model closure scenario = .ok r) ↔ ∀ k, model.sets.members k ≠ [] := by
  rw [← Sets.firstEmpty?_eq_none_iff]
  constructor
  · rintro ⟨r, h⟩
    obtain ⟨-, rfl, -, -⟩ := ofModel_eq_ok_iff.mp h
    exact r.complete
  · intro h
    exact ⟨⟨name, model, closure, scenario, h⟩, ofModel_eq_ok_iff.mpr ⟨rfl, rfl, rfl, rfl⟩⟩

theorem Run.ofModel_eq_error_iff {e : ValidationError} :
    ofModel name model closure scenario = .error e ↔
      ∃ k, IsFirst (fun k => model.sets.members k = []) SetKind.all k ∧ e = .emptySet k := by
  simp only [← Sets.firstEmpty?_eq_some_iff]
  unfold ofModel
  split
  next k hempty => simp [hempty, eq_comm]
  next hempty => simp [hempty]

end ofModel

namespace Parts

/-! ### Success -/

/-- What assembly asks of its parts. -/
structure Admissible (p : Parts) : Prop where
  distinct : (sectionNames p.sections).Nodup
  admitted : p.rules.allowed = [] ∨ ∀ s ∈ p.sections, s.name ∈ p.rules.allowed
  present : ∀ n ∈ p.rules.required, ∃ s ∈ p.sections, s.name = n
  filled : ∀ n ∈ p.rules.requiredNonempty, ∃ s ∈ p.sections, s.name = n ∧ s.blocks ≠ []
  inhabited : ∀ k, p.sets.members k ≠ []

theorem checkSections_eq_ok_iff {sections : List Section} {rules : SectionRules} :
    checkSections sections rules = .ok () ↔
      (sectionNames sections).Nodup ∧
      (rules.allowed = [] ∨ ∀ s ∈ sections, s.name ∈ rules.allowed) ∧
      (∀ n ∈ rules.required, n ∈ sectionNames sections) ∧
      ∀ n ∈ rules.requiredNonempty, HasBlocks sections n := by
  unfold checkSections
  rw [then_eq_ok_iff, then_eq_ok_iff, then_eq_ok_iff, checkUnique_eq_ok_iff, checkAllowed_eq_ok_iff,
    checkRequired_eq_ok_iff]
  constructor
  · rintro ⟨hdistinct, hadmitted, hpresent, hfilled⟩
    exact ⟨hdistinct, hadmitted, hpresent, (checkRequiredNonempty_eq_ok_iff hdistinct).mp hfilled⟩
  · rintro ⟨hdistinct, hadmitted, hpresent, hfilled⟩
    exact ⟨hdistinct, hadmitted, hpresent, (checkRequiredNonempty_eq_ok_iff hdistinct).mpr hfilled⟩

variable {p : Parts}

theorem assemble_eq_ok_iff {r : Run} :
    p.assemble = .ok r ↔ checkSections p.sections p.rules = .ok () ∧
      Run.ofModel p.name p.model p.closure p.scenario = .ok r := by
  unfold assemble
  rw [then_eq_ok_iff]
  cases Run.ofModel p.name p.model p.closure p.scenario <;> simp [Except.mapError]

theorem exists_assemble_eq_ok_iff : (∃ r, p.assemble = .ok r) ↔ p.Admissible := by
  simp only [assemble_eq_ok_iff, exists_and_left, Run.exists_ofModel_eq_ok_iff,
    checkSections_eq_ok_iff, mem_sectionNames]
  constructor
  · rintro ⟨⟨hdistinct, hadmitted, hpresent, hfilled⟩, hinhabited⟩
    exact ⟨hdistinct, hadmitted, hpresent, hfilled, hinhabited⟩
  · intro h
    exact ⟨⟨h.distinct, h.admitted, h.present, h.filled⟩, h.inhabited⟩

/-- **Assembly succeeds exactly on admissible parts and loses none of them.** The blocks of the run
are those of the sections, one section after the other, and a block is found by the first place
that has its name. -/
theorem assemble_admissible (p : Parts) :
    ((∃ r, p.assemble = .ok r) ↔ p.Admissible) ∧
      ∀ r, p.assemble = .ok r →
        r.name = p.name ∧ r.sets = p.sets ∧ r.mappings = p.mappings ∧ r.closure = p.closure ∧
        r.scenario = p.scenario ∧ r.blocks = (p.sections.map (·.blocks)).flatten ∧
        ∀ n : String,
          (∀ b, r.findBlock? n = some b ↔ IsFirst (fun b => b.name = n) r.blocks b) ∧
          (r.findBlock? n = none ↔ ∀ b ∈ r.blocks, b.name ≠ n) := by
  refine ⟨exists_assemble_eq_ok_iff, fun r h => ?_⟩
  obtain ⟨hname, hmodel, hclosure, hscenario⟩ := Run.ofModel_eq_ok_iff.mp (assemble_eq_ok_iff.mp h).2
  refine ⟨hname, ?_, ?_, hclosure, hscenario, ?_, fun n => ⟨fun b => ?_, ?_⟩⟩
  · rw [Run.sets, hmodel, model]
  · rw [Run.mappings, hmodel, model]
  · rw [Run.blocks, hmodel, model, flattenSections, List.flatMap_def]
  · rw [isFirst_iff_find?, Run.findBlock?]
    simp only [beq_eq_decide]
  · simp [Run.findBlock?]

/-- Three sections, one of them without blocks, with a block name that stands in two of them. -/
def threeSections : Parts where
  name := "base"
  sets := ⟨["food"], ["farming"], ["labour"], ["household"]⟩
  mappings := ∅
  sections := [⟨"production", [.bare "make"]⟩, ⟨"prices", []⟩, ⟨"trade", [.bare "make", .bare "ship"]⟩]
  closure := ⟨"labour"⟩
  scenario := .baseline
  rules := ⟨["prices"], [], ["trade"]⟩

theorem assemble_threeSections :
    ∃ r, threeSections.assemble = .ok r ∧
      r.blocks = [.bare "make", .bare "make", .bare "ship"] := by
  have hadmissible : threeSections.Admissible :=
    { distinct := by decide
      admitted := .inl rfl
      present := by simp [threeSections]
      filled := by simp [threeSections]
      inhabited := by intro k; cases k <;> decide }
  obtain ⟨r, hr⟩ := (assemble_admissible threeSections).1.mpr hadmissible
  exact ⟨r, hr, ((assemble_admissible threeSections).2 r hr).2.2.2.2.2.1⟩

/-! ### Failure -/

/-- Why parts are refused: the first rule in this order that they violate, with its first
offender. -/
inductive Violation (p : Parts) : AssemblyError → Prop
  | duplicate {n : Symbol} (offender : IsFirstRepeat (sectionNames p.sections) n) :
      Violation p (.duplicateSection n)
  | unknown {n : Symbol} (distinct : (sectionNames p.sections).Nodup)
      (restricted : p.rules.allowed ≠ [])
      (offender : IsFirst (· ∉ p.rules.allowed) (sectionNames p.sections) n) :
      Violation p (.unknownSection n)
  | missing {n : Symbol} (distinct : (sectionNames p.sections).Nodup)
      (admitted : p.rules.allowed = [] ∨ ∀ s ∈ p.sections, s.name ∈ p.rules.allowed)
      (offender : IsFirst (· ∉ sectionNames p.sections) p.rules.required n) :
      Violation p (.missingRequiredSection n)
  | missingFilled {n : Symbol} (distinct : (sectionNames p.sections).Nodup)
      (admitted : p.rules.allowed = [] ∨ ∀ s ∈ p.sections, s.name ∈ p.rules.allowed)
      (present : ∀ m ∈ p.rules.required, m ∈ sectionNames p.sections)
      (offender : IsFirst (LacksBlocks p.sections) p.rules.requiredNonempty n)
      (absent : n ∉ sectionNames p.sections) : Violation p (.missingRequiredSection n)
  | empty {n : Symbol} (distinct : (sectionNames p.sections).Nodup)
      (admitted : p.rules.allowed = [] ∨ ∀ s ∈ p.sections, s.name ∈ p.rules.allowed)
      (present : ∀ m ∈ p.rules.required, m ∈ sectionNames p.sections)
      (offender : IsFirst (LacksBlocks p.sections) p.rules.requiredNonempty n)
      (blockless : ∃ s ∈ p.sections, s.name = n ∧ s.blocks = []) :
      Violation p (.emptyRequiredSection n)
  | emptySet {k : SetKind} (distinct : (sectionNames p.sections).Nodup)
      (admitted : p.rules.allowed = [] ∨ ∀ s ∈ p.sections, s.name ∈ p.rules.allowed)
      (present : ∀ m ∈ p.rules.required, m ∈ sectionNames p.sections)
      (filled : ∀ m ∈ p.rules.requiredNonempty, HasBlocks p.sections m)
      (offender : IsFirst (fun k => p.sets.members k = [])
        [.commodities, .activities, .factors, .institutions] k) :
      Violation p (.validation (.emptySet k))

theorem assemble_eq_error_iff {e : AssemblyError} :
    p.assemble = .error e ↔ checkSections p.sections p.rules = .error e ∨
      checkSections p.sections p.rules = .ok () ∧
        ∃ k, IsFirst (fun k => p.sets.members k = []) SetKind.all k ∧
          e = .validation (.emptySet k) := by
  have hmap (x : Except ValidationError Run) : x.mapError AssemblyError.validation = .error e ↔
      ∃ v, x = .error v ∧ e = .validation v := by
    cases x <;> simp [Except.mapError, eq_comm]
  unfold assemble
  rw [then_eq_error_iff, hmap]
  simp only [Run.ofModel_eq_error_iff, model]
  refine or_congr_right (and_congr_right fun _ => ?_)
  constructor
  · rintro ⟨v, ⟨k, hk, rfl⟩, rfl⟩
    exact ⟨k, hk, rfl⟩
  · rintro ⟨k, hk, rfl⟩
    exact ⟨_, ⟨k, hk, rfl⟩, rfl⟩

theorem checkSections_eq_error_iff {sections : List Section} {rules : SectionRules}
    {e : AssemblyError} :
    checkSections sections rules = .error e ↔
      checkUnique sections = .error e ∨ checkUnique sections = .ok () ∧
        (checkAllowed sections rules.allowed = .error e ∨
          checkAllowed sections rules.allowed = .ok () ∧
            (checkRequired sections rules.required = .error e ∨
              checkRequired sections rules.required = .ok () ∧
                checkRequiredNonempty sections rules.requiredNonempty = .error e)) := by
  unfold checkSections
  rw [then_eq_error_iff, then_eq_error_iff, then_eq_error_iff]

/-- **A refusal names the first violated rule and its first offender.** There are no other
errors. -/
theorem assemble_violation (p : Parts) (e : AssemblyError) :
    p.assemble = .error e ↔ p.Violation e := by
  rw [assemble_eq_error_iff, checkSections_eq_error_iff, checkSections_eq_ok_iff,
    checkUnique_eq_error_iff, checkUnique_eq_ok_iff, checkAllowed_eq_error_iff,
    checkAllowed_eq_ok_iff, checkRequired_eq_error_iff, checkRequired_eq_ok_iff]
  constructor
  · rintro ((⟨n, hn, rfl⟩ | ⟨hdistinct, ⟨hne, n, hn, rfl⟩ | ⟨hadmitted, ⟨n, hn, rfl⟩ |
      ⟨hpresent, hfilled⟩⟩⟩) | ⟨⟨hdistinct, hadmitted, hpresent, hfilled⟩, k, hk, rfl⟩)
    · exact .duplicate hn
    · exact .unknown hdistinct hne hn
    · exact .missing hdistinct hadmitted hn
    · obtain ⟨n, hn, ⟨habsent, rfl⟩ | ⟨hempty, rfl⟩⟩ :=
        (checkRequiredNonempty_eq_error_iff hdistinct).mp hfilled
      · exact .missingFilled hdistinct hadmitted hpresent hn habsent
      · exact .empty hdistinct hadmitted hpresent hn hempty
    · exact .emptySet hdistinct hadmitted hpresent hfilled hk
  · intro h
    cases h with
    | duplicate hn => exact .inl (.inl ⟨_, hn, rfl⟩)
    | unknown hdistinct hne hn => exact .inl (.inr ⟨hdistinct, .inl ⟨hne, _, hn, rfl⟩⟩)
    | missing hdistinct hadmitted hn =>
        exact .inl (.inr ⟨hdistinct, .inr ⟨hadmitted, .inl ⟨_, hn, rfl⟩⟩⟩)
    | missingFilled hdistinct hadmitted hpresent hn habsent =>
        have herror := (checkRequiredNonempty_eq_error_iff hdistinct).mpr
          ⟨_, hn, .inl ⟨habsent, rfl⟩⟩
        exact .inl (.inr ⟨hdistinct, .inr ⟨hadmitted, .inr ⟨hpresent, herror⟩⟩⟩)
    | empty hdistinct hadmitted hpresent hn hempty =>
        have herror := (checkRequiredNonempty_eq_error_iff hdistinct).mpr
          ⟨_, hn, .inr ⟨hempty, rfl⟩⟩
        exact .inl (.inr ⟨hdistinct, .inr ⟨hadmitted, .inr ⟨hpresent, herror⟩⟩⟩)
    | emptySet hdistinct hadmitted hpresent hfilled hk =>
        exact .inr ⟨⟨hdistinct, hadmitted, hpresent, hfilled⟩, _, hk, rfl⟩

end Parts

/-! ### Errors about sections -/

/-- The error is about a section: a second one of its name, one that is not admitted, or a required
one that is missing or has no blocks. -/
inductive AssemblyError.IsAboutSection : AssemblyError → Prop
  | duplicate (n : Symbol) : IsAboutSection (.duplicateSection n)
  | unknown (n : Symbol) : IsAboutSection (.unknownSection n)
  | missing (n : Symbol) : IsAboutSection (.missingRequiredSection n)
  | empty (n : Symbol) : IsAboutSection (.emptyRequiredSection n)

theorem isAboutSection_of_checkSections {sections : List Section} {rules : SectionRules}
    {e : AssemblyError} (h : checkSections sections rules = .error e) : e.IsAboutSection := by
  rw [Parts.checkSections_eq_error_iff, checkUnique_eq_error_iff, checkUnique_eq_ok_iff,
    checkAllowed_eq_error_iff, checkRequired_eq_error_iff] at h
  obtain ⟨n, -, rfl⟩ | ⟨hdistinct, ⟨-, n, -, rfl⟩ | ⟨-, ⟨n, -, rfl⟩ | ⟨-, hfilled⟩⟩⟩ := h
  · exact .duplicate n
  · exact .unknown n
  · exact .missing n
  · obtain ⟨n, -, ⟨-, rfl⟩ | ⟨-, rfl⟩⟩ := (checkRequiredNonempty_eq_error_iff hdistinct).mp hfilled
    · exact .missing n
    · exact .empty n

namespace Parts

theorem assemble_ne_ambiguousSection (p : Parts) (n : Symbol) (count : Nat) :
    p.assemble ≠ .error (.ambiguousSection n count) := by
  intro h
  obtain hsections | ⟨-, k, -, hk⟩ := assemble_eq_error_iff.mp h
  · cases isAboutSection_of_checkSections hsections
  · cases hk

/-- **The check for blocks counts sections itself, and its complaint about several never leaves an
assembly.** Whether names are distinct or not, it passes exactly if each of the given names is the
name of one section, which has a block, and otherwise complains about the first that is not, by the
number of its sections. Since repeated names are refused before, no assembly fails with an ambiguous
section, be its parts given, taken from a template or changed one by one. -/
theorem ambiguity_confined (sections : List Section) (names : List Symbol) :
    (checkRequiredNonempty sections names = .ok () ↔ ∀ n ∈ names, FilledOnce sections n) ∧
    (∀ e, checkRequiredNonempty sections names = .error e ↔
      ∃ n, IsFirst (fun n => ¬ FilledOnce sections n) names n ∧ e = fillingError sections n) ∧
    (∀ rules n count, checkSections sections rules ≠ .error (.ambiguousSection n count)) ∧
    ∀ (p : Parts) (t : Template) (cs : List Change) n count,
      p.assemble ≠ .error (.ambiguousSection n count) ∧
      (p.withTemplate t).assemble ≠ .error (.ambiguousSection n count) ∧
      (p.changes cs).assemble ≠ .error (.ambiguousSection n count) := by
  refine ⟨checkRequiredNonempty_eq_ok_iff_filledOnce,
    fun e => checkRequiredNonempty_eq_error_iff_filledOnce, fun rules n count h => ?_,
    fun p t cs n count => ⟨?_, ?_, ?_⟩⟩
  · cases isAboutSection_of_checkSections h
  · exact p.assemble_ne_ambiguousSection n count
  · exact (p.withTemplate t).assemble_ne_ambiguousSection n count
  · exact (p.changes cs).assemble_ne_ambiguousSection n count

/-- Alone the check sees two sections, although one has a block; all checks together see the
repeated name first. -/
example :
    let sections : List Section := [⟨"trade", [.bare "ship"]⟩, ⟨"trade", []⟩]
    checkRequiredNonempty sections ["trade"] = .error (.ambiguousSection "trade" 2) ∧
      checkSections sections ⟨[], [], ["trade"]⟩ = .error (.duplicateSection "trade") :=
  ⟨rfl, rfl⟩

end Parts

end Equilibrium
