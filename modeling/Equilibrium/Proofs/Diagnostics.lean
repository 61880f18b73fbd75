import Mathlib.Data.List.Induction
import Equilibrium.Diagnostics
import Equilibrium.Run.Builder
import Equilibrium.Proofs.Run.Assembly

/-!
# Diagnosis and validation

A report holds the messages of its findings, category by category and severity by severity, in
order (`Report.messages_ofFindings`). What a diagnosis says about empty core sets is what validation
goes by: the first of its messages is the one that validation stops at
(`diagnosis_agrees_with_validation`). -/

namespace Equilibrium

/-! ### Messages of a report -/

/-- The messages of a severity. -/
def CategoryReport.messages (r : CategoryReport) : Severity → List String
  | .error => r.errors
  | .warning => r.warnings
  | .note => r.notes

@[simp] theorem CategoryReport.messages_add (r : CategoryReport) (s t : Severity)
    (message : String) :
    (r.add s message).messages t = r.messages t ++ if s = t then [message] else [] := by
  cases s <;> cases t <;> simp [add, messages]

namespace Report

theorem category_add (r : Report) (f : Finding) (c : Category) :
    (r.add f).category c =
      if f.category = c then (r.category c).add f.severity f.message else r.category c := by
  obtain ⟨d, s, message⟩ := f
  cases c <;> cases d <;> rfl

/-- A report holds the messages of the findings, in order. -/
theorem messages_ofFindings (fs : List Finding) (c : Category) (s : Severity) :
    ((ofFindings fs).category c).messages s =
      (fs.filter fun f => f.category = c ∧ f.severity = s).map (·.message) := by
  induction fs using List.reverseRecOn with
  | nil => cases c <;> cases s <;> rfl
  | append_singleton fs f ih =>
      have hstep : ofFindings (fs ++ [f]) = (ofFindings fs).add f := List.foldl_concat ..
      rw [hstep, category_add, List.filter_append, List.map_append, ← ih]
      by_cases hc : f.category = c
      · by_cases hs : f.severity = s <;> simp [hc, hs]
      · simp [hc]

/-- A report is in order if no category has an error. -/
theorem isOk_iff {r : Report} : r.isOk = true ↔ ∀ c, (r.category c).errors = [] := by
  have hall (c : Category) : c ∈ Category.all := by cases c <;> decide
  rw [isOk, errorCount, beq_iff_eq, List.length_eq_zero_iff, errors, List.flatMap_eq_nil_iff]
  exact ⟨fun h c => h c (hall c), fun h c _ => h c⟩

end Report

/-- Findings of one category and severity have their messages there and nowhere else. -/
theorem messages_map_mk (messages : List String) (c d : Category) (s t : Severity) :
    ((messages.map (Finding.mk c s)).filter fun f => f.category = d ∧ f.severity = t).map
      (·.message) = if c = d ∧ s = t then messages else [] := by
  by_cases h : c = d ∧ s = t
  · simp [h, List.filter_map, Function.comp_def]
  · simp [h, List.filter_map, Function.comp_def]

/-! ### Errors of a diagnosis -/

section diagnose

variable (m : Model) (c : Closure) (b : Option (Benchmark Float))

theorem closureFinding_severity : (closureFinding m c).severity ≠ .error := by
  unfold closureFinding
  split <;> nofun

theorem category_of_mem_accountingFindings {f : Finding} (h : f ∈ accountingFindings b) :
    f.category = .accounting := by
  unfold accountingFindings at h
  split at h
  · rw [List.mem_singleton.mp h]
  · obtain h | h := List.mem_append.mp h
    · obtain ⟨a, -, rfl⟩ := List.mem_map.mp h
      rfl
    · rw [List.mem_singleton.mp h]

/-- Errors are those about the structure and those about accounts. -/
theorem errors_diagnose (d : Category) :
    ((diagnose m c b).category d).errors =
      (if d = .structural then structuralErrors m else []) ++
        ((accountingFindings b).filter fun f => f.category = d ∧ f.severity = .error).map
          (·.message) := by
  have hmessages : ((diagnose m c b).category d).errors = ((findings m c b).filter
      fun f => f.category = d ∧ f.severity = .error).map (·.message) :=
    Report.messages_ofFindings (findings m c b) d .error
  rw [hmessages, findings, List.filter_append, List.filter_append, List.map_append,
    List.map_append, messages_map_mk, messages_map_mk, List.filter_cons]
  cases d <;> simp [closureFinding_severity]

/-- Accounts have a category of their own. -/
theorem errors_diagnose_of_ne {d : Category} (h : d ≠ .accounting) :
    ((diagnose m c b).category d).errors = if d = .structural then structuralErrors m else [] := by
  have hnone : ((accountingFindings b).filter fun f => f.category = d ∧ f.severity = .error) = [] := by
    rw [List.filter_eq_nil_iff]
    intro f hf
    simp [category_of_mem_accountingFindings b hf, h.symm]
  rw [errors_diagnose, hnone, List.map_nil, List.append_nil]

theorem structural_errors_diagnose : (diagnose m c b).structural.errors = structuralErrors m :=
  errors_diagnose_of_ne m c b (show Category.structural ≠ .accounting by decide)

theorem closure_errors_diagnose : (diagnose m c b).closure.errors = [] :=
  errors_diagnose_of_ne m c b (show Category.closure ≠ .accounting by decide)

/-- Without a benchmark there is nothing wrong with the accounts. -/
theorem isOk_diagnose_none_iff : (diagnose m c none).isOk = true ↔ structuralErrors m = [] := by
  have haccounting : (diagnose m c none).accounting.errors = [] := errors_diagnose m c none .accounting
  rw [Report.isOk_iff]
  constructor
  · intro h
    rw [← structural_errors_diagnose m c none]
    exact h .structural
  · intro h d
    cases d with
    | structural => exact (structural_errors_diagnose m c none).trans h
    | closure => exact closure_errors_diagnose m c none
    | accounting => exact haccounting

end diagnose

/-! ### Empty core sets -/

/-- The message about an empty core set. -/
def emptySetMessage (k : SetKind) : String := "core set " ++ named k.name ++ " is empty"

/-- The message about a model without blocks. -/
def noBlocksMessage : String := "model has no blocks"

theorem emptySetMessage_inj {j k : SetKind} (h : emptySetMessage j = emptySetMessage k) : j = k := by
  revert h
  cases j <;> cases k <;> decide

theorem emptySetMessage_ne_noBlocksMessage (k : SetKind) : emptySetMessage k ≠ noBlocksMessage := by
  cases k <;> decide

section structuralErrors

variable {m : Model} {k : SetKind}

theorem structuralErrors_eq (m : Model) :
    structuralErrors m = m.sets.emptyKinds.map emptySetMessage ++
      if m.blocks.isEmpty then [noBlocksMessage] else [] := rfl

/-- The first error is about the core set that validation stops at, if any is empty. -/
theorem head?_structuralErrors_eq_iff :
    (structuralErrors m).head? = some (emptySetMessage k) ↔ m.sets.firstEmpty? = some k := by
  rw [structuralErrors_eq, ← Sets.head?_emptyKinds]
  cases m.sets.emptyKinds with
  | nil =>
      cases m.blocks.isEmpty with
      | true => simpa using (emptySetMessage_ne_noBlocksMessage k).symm
      | false => simp
  | cons j js =>
      simp only [List.map_cons, List.cons_append, List.head?_cons, Option.some.injEq]
      exact ⟨emptySetMessage_inj, congrArg emptySetMessage⟩

theorem exists_emptySetMessage_mem_iff :
    (∃ j, emptySetMessage j ∈ structuralErrors m) ↔ m.sets.emptyKinds ≠ [] := by
  constructor
  · rintro ⟨j, hj⟩ hnil
    rw [structuralErrors_eq, hnil, List.map_nil, List.nil_append] at hj
    split at hj
    · exact emptySetMessage_ne_noBlocksMessage j (List.mem_singleton.mp hj)
    · cases hj
  · intro h
    obtain ⟨j, hj⟩ := List.exists_mem_of_ne_nil _ h
    exact ⟨j, List.mem_append_left _ (List.mem_map_of_mem hj)⟩

end structuralErrors

/-! ### Validation -/

/-- The ways to a run: from a model, from parts with rules of their own or with those of a template,
and from parts that were changed one by one. -/
inductive Run.Obtained (r : Run) : Prop
  | ofModel {name : Symbol} {model : Model} {closure : Closure} {scenario : Scenario}
      (h : Run.ofModel name model closure scenario = .ok r)
  | assembled {p : Parts} (h : p.assemble = .ok r)
  | ofTemplate {p : Parts} {t : Template} (h : (p.withTemplate t).assemble = .ok r)
  | changed {p : Parts} {cs : List Parts.Change} (h : (p.changes cs).assemble = .ok r)

/-- Every way to a run leads past validation. -/
theorem Run.Obtained.inhabited {r : Run} (h : r.Obtained) : ∀ k, r.sets.members k ≠ [] := by
  have hofModel {name : Symbol} {model : Model} {closure : Closure} {scenario : Scenario}
      (h : Run.ofModel name model closure scenario = .ok r) : ∀ k, r.sets.members k ≠ [] := by
    have hmodel := (Run.ofModel_eq_ok_iff.mp h).2.1
    rw [Run.sets, hmodel]
    exact Run.exists_ofModel_eq_ok_iff.mp ⟨r, h⟩
  cases h with
  | ofModel h => exact hofModel h
  | assembled h => exact hofModel (Parts.assemble_eq_ok_iff.mp h).2
  | ofTemplate h => exact hofModel (Parts.assemble_eq_ok_iff.mp h).2
  | changed h => exact hofModel (Parts.assemble_eq_ok_iff.mp h).2

/-- What can still be wrong with a run is that it has no blocks. -/
theorem Run.Obtained.structuralErrors_eq {r : Run} (h : r.Obtained) :
    structuralErrors r.model = if r.blocks.isEmpty then [noBlocksMessage] else [] := by
  have hkinds : r.model.sets.emptyKinds = [] := Sets.emptyKinds_eq_nil_iff.mpr h.inhabited
  rw [Equilibrium.structuralErrors_eq, hkinds]
  rfl

/-- **Validation and diagnosis never disagree.** A model is refused for a core set exactly if the
first structural error of its diagnosis is the one about that set, and it makes a run exactly if the
diagnosis has no error about a core set, with whatever benchmark. A run, however it was obtained,
passes validation; its only structural error is that it has no blocks, if it has none, there are no
errors about its closure, and without a benchmark it is in order exactly if it has a block. -/
theorem diagnosis_agrees_with_validation (name : Symbol) (model : Model) (closure : Closure)
    (scenario : Scenario) (b : Option (Benchmark Float)) :
    (∀ k, Run.ofModel name model closure scenario = .error (.emptySet k) ↔
      (∃ j, emptySetMessage j ∈ (diagnose model closure b).structural.errors) ∧
        (diagnose model closure b).structural.errors.head? = some (emptySetMessage k)) ∧
    ((∃ r, Run.ofModel name model closure scenario = .ok r) ↔
      ¬ ∃ j, emptySetMessage j ∈ (diagnose model closure b).structural.errors) ∧
    ∀ r : Run, r.Obtained →
      r.validate = .ok () ∧
      (∀ b, (r.diagnose b).structural.errors = if r.blocks.isEmpty then [noBlocksMessage] else []) ∧
      (∀ b, (r.diagnose b).closure.errors = []) ∧
      ((r.diagnose none).isOk = true ↔ r.blocks ≠ []) := by
  rw [structural_errors_diagnose, exists_emptySetMessage_mem_iff, Run.exists_ofModel_eq_ok_iff]
  refine ⟨fun k => ?_, ?_, fun r hr => ⟨?_, fun b => ?_, fun b => ?_, ?_⟩⟩
  · rw [head?_structuralErrors_eq_iff, Run.ofModel_eq_error_iff]
    simp only [← Sets.firstEmpty?_eq_some_iff, ValidationError.emptySet.injEq]
    constructor
    · rintro ⟨j, hj, rfl⟩
      refine ⟨fun hnil => ?_, hj⟩
      rw [← Sets.head?_emptyKinds, hnil] at hj
      cases hj
    · rintro ⟨-, hk⟩
      exact ⟨k, hk, rfl⟩
  · rw [Classical.not_not, Sets.emptyKinds_eq_nil_iff]
  · exact Sets.validate_eq_ok_iff.mpr hr.inhabited
  · rw [Run.diagnose, structural_errors_diagnose, hr.structuralErrors_eq]
  · exact closure_errors_diagnose r.model r.closure b
  · rw [Run.diagnose, isOk_diagnose_none_iff, hr.structuralErrors_eq]
    cases r.blocks <;> simp

/-- Parts whose only section has no blocks. -/
def blocklessParts : Parts :=
  (Parts.ofTemplate ⟨"base", ["production"]⟩ ⟨["food"], ["farming"], ["labour"], ["household"]⟩ ∅
    ⟨"labour"⟩).changes [.section ⟨"production", []⟩]

/-- A run without blocks is valid, and the diagnosis says what it lacks. -/
theorem diagnosis_blocklessParts :
    ∃ r, blocklessParts.assemble = .ok r ∧ r.validate = .ok () ∧
      (r.diagnose none).structural.errors = ["model has no blocks"] ∧
      (r.diagnose none).isOk = false := by
  have hrun : ∃ r, blocklessParts.assemble = .ok r ∧ r.blocks = [] := ⟨_, rfl, rfl⟩
  obtain ⟨r, hr, hblocks⟩ := hrun
  obtain ⟨hvalid, hstructural, -, hok⟩ :=
    (diagnosis_agrees_with_validation r.name r.model r.closure r.scenario none).2.2 r (.changed hr)
  refine ⟨r, hr, hvalid, ?_, ?_⟩
  · rw [hstructural, hblocks]
    rfl
  · rw [← Bool.not_eq_true, hok, hblocks]
    exact fun h => h rfl

end Equilibrium
