import Equilibrium.Proofs.Run.Assembly

/-!
# The order of sections and rules

Each section check passes or fails whatever the order of the sections, and only the errors about
repeated and about unknown names may then name another section (`AssemblyError.Alike`). The blocks
of the run follow the sections (`Run.Reordered`). Of the rules, neither the order of the allowed
names nor further copies of names matter (`Parts.assemble_reordered`). -/

namespace Equilibrium

/-! ### Alike outcomes -/

/-- Errors of one kind. Those about repeated and about unknown names may name different sections,
all others are the same. -/
inductive AssemblyError.Alike : AssemblyError → AssemblyError → Prop
  | same (e : AssemblyError) : Alike e e
  | duplicate (m n : Symbol) : Alike (.duplicateSection m) (.duplicateSection n)
  | unknown (m n : Symbol) : Alike (.unknownSection m) (.unknownSection n)

/-- Both succeed, with related results, or both fail, with alike errors. -/
inductive AlikeOutcome {α : Type} (R : α → α → Prop) :
    Except AssemblyError α → Except AssemblyError α → Prop
  | ok {a b : α} (related : R a b) : AlikeOutcome R (.ok a) (.ok b)
  | error {d e : AssemblyError} (alike : d.Alike e) : AlikeOutcome R (.error d) (.error e)

section outcome

variable {α : Type} {R : α → α → Prop} {x x' : Except AssemblyError Unit}
  {y y' : Except AssemblyError α}

/-- Checks have alike outcomes if they pass together and otherwise complain alike. -/
theorem alikeOutcome_of_iff (hok : x = .ok () ↔ x' = .ok ())
    (herror : ∀ d e, x = .error d → x' = .error e → d.Alike e) : AlikeOutcome Eq x x' := by
  cases x with
  | ok u =>
      rw [hok.mp rfl]
      exact .ok rfl
  | error d =>
      cases x' with
      | ok u => exact nomatch hok.mpr rfl
      | error e => exact .error (herror d e rfl rfl)

/-- What follows alike checks only has to be alike if they pass. -/
theorem AlikeOutcome.then (hx : AlikeOutcome Eq x x') (hy : x = .ok () → AlikeOutcome R y y') :
    AlikeOutcome R (x >>= fun _ => y) (x' >>= fun _ => y') := by
  cases hx with
  | ok _ => exact hy rfl
  | error alike => exact .error alike

theorem AlikeOutcome.of_eq (h : x = x') : AlikeOutcome Eq x x' := by
  subst h
  cases x with
  | ok u => exact .ok rfl
  | error e => exact .error (.same e)

end outcome

/-! ### Reordered sections -/

section sections

variable {sections sections' : List Section} (h : sections.Perm sections')
include h

theorem sectionNames_perm : (sectionNames sections).Perm (sectionNames sections') := h.map _

theorem mem_sectionNames_perm {n : Symbol} :
    n ∈ sectionNames sections ↔ n ∈ sectionNames sections' :=
  (sectionNames_perm h).mem_iff

theorem checkUnique_perm : AlikeOutcome Eq (checkUnique sections) (checkUnique sections') := by
  apply alikeOutcome_of_iff
  · rw [checkUnique_eq_ok_iff, checkUnique_eq_ok_iff]
    exact (sectionNames_perm h).nodup_iff
  · intro d e hd he
    obtain ⟨m, -, rfl⟩ := checkUnique_eq_error_iff.mp hd
    obtain ⟨n, -, rfl⟩ := checkUnique_eq_error_iff.mp he
    exact .duplicate m n

theorem checkAllowed_perm (names : List Symbol) :
    AlikeOutcome Eq (checkAllowed sections names) (checkAllowed sections' names) := by
  apply alikeOutcome_of_iff
  · rw [checkAllowed_eq_ok_iff, checkAllowed_eq_ok_iff]
    simp only [h.mem_iff]
  · intro d e hd he
    obtain ⟨-, m, -, rfl⟩ := checkAllowed_eq_error_iff.mp hd
    obtain ⟨-, n, -, rfl⟩ := checkAllowed_eq_error_iff.mp he
    exact .unknown m n

theorem checkRequired_perm (names : List Symbol) :
    checkRequired sections names = checkRequired sections' names := by
  unfold checkRequired
  simp only [mem_sectionNames_perm h]

theorem filledOnce_perm (n : Symbol) : FilledOnce sections n ↔ FilledOnce sections' n := by
  unfold FilledOnce HasBlocks
  rw [(sectionNames_perm h).count_eq n]
  simp only [h.mem_iff]

theorem fillingError_perm (n : Symbol) : fillingError sections n = fillingError sections' n := by
  unfold fillingError
  rw [(sectionNames_perm h).count_eq n]

theorem checkNonempty_perm (n : Symbol) :
    checkNonempty sections n = checkNonempty sections' n := by
  cases hresult : checkNonempty sections' n with
  | ok u => rwa [checkNonempty_eq_ok_iff, ← filledOnce_perm h, ← checkNonempty_eq_ok_iff] at hresult
  | error e =>
      rwa [checkNonempty_eq_error_iff, ← filledOnce_perm h, ← fillingError_perm h,
        ← checkNonempty_eq_error_iff] at hresult

theorem checkSections_perm (rules : SectionRules) :
    AlikeOutcome Eq (checkSections sections rules) (checkSections sections' rules) := by
  unfold checkSections
  apply (checkUnique_perm h).then
  intro _
  apply (checkAllowed_perm h rules.allowed).then
  intro _
  apply (AlikeOutcome.of_eq (checkRequired_perm h rules.required)).then
  intro _
  apply AlikeOutcome.of_eq
  unfold checkRequiredNonempty
  rw [funext (checkNonempty_perm h)]

end sections

/-- A run with the same blocks in another order. -/
structure Run.Reordered (r r' : Run) : Prop where
  blocks : r.blocks.Perm r'.blocks
  name : r.name = r'.name
  sets : r.sets = r'.sets
  mappings : r.mappings = r'.mappings
  closure : r.closure = r'.closure
  scenario : r.scenario = r'.scenario

theorem flattenSections_perm {sections sections' : List Section} (h : sections.Perm sections') :
    (flattenSections sections).Perm (flattenSections sections') :=
  h.flatMap_right _

/-- Whether a model makes a run is a matter of its sets. -/
theorem ofModel_perm {blocks blocks' : List Block} (h : blocks.Perm blocks') (name : Symbol)
    (sets : Sets) (mappings : Mappings) (closure : Closure) (scenario : Scenario) :
    AlikeOutcome Run.Reordered
      ((Run.ofModel name ⟨blocks, sets, mappings⟩ closure scenario).mapError .validation)
      ((Run.ofModel name ⟨blocks', sets, mappings⟩ closure scenario).mapError .validation) := by
  cases hr : Run.ofModel name ⟨blocks, sets, mappings⟩ closure scenario with
  | error e =>
      have he : Run.ofModel name ⟨blocks', sets, mappings⟩ closure scenario = .error e := by
        rw [Run.ofModel_eq_error_iff] at hr ⊢
        exact hr
      rw [he]
      exact .error (.same _)
  | ok r =>
      obtain ⟨rfl, hmodel, rfl, rfl⟩ := Run.ofModel_eq_ok_iff.mp hr
      have hinhabited := Run.exists_ofModel_eq_ok_iff.mp ⟨r, hr⟩
      obtain ⟨r', hr'⟩ :
          ∃ r', Run.ofModel r.name ⟨blocks', sets, mappings⟩ r.closure r.scenario = .ok r' :=
        Run.exists_ofModel_eq_ok_iff.mpr hinhabited
      obtain ⟨hname, hmodel', hclosure, hscenario⟩ := Run.ofModel_eq_ok_iff.mp hr'
      rw [hr']
      refine .ok ⟨?_, hname.symm, ?_, ?_, hclosure.symm, hscenario.symm⟩
      · rw [Run.blocks, Run.blocks, hmodel, hmodel']
        exact h
      · rw [Run.sets, Run.sets, hmodel, hmodel']
      · rw [Run.mappings, Run.mappings, hmodel, hmodel']

/-! ### Repeated rules -/

/-- Further copies of members, each somewhere behind the first one. -/
inductive Repeats {α : Type} (l : List α) : List α → Prop
  | refl : Repeats l l
  | again {before after : List α} {a : α} (given : Repeats l (before ++ after))
      (earlier : a ∈ before) : Repeats l (before ++ a :: after)

theorem forM_append {ε α : Type} (check : α → Except ε Unit) (l m : List α) :
    (l ++ m).forM check = l.forM check >>= fun _ => m.forM check := by
  induction l with
  | nil => rfl
  | cons a l ih =>
      rw [List.cons_append, forM_cons, forM_cons, ih]
      cases check a <;> rfl

/-- A check of a list is not changed by further copies: it has failed before they are met, or they
pass. -/
theorem forM_repeats {ε α : Type} {l m : List α} (h : Repeats l m) (check : α → Except ε Unit) :
    m.forM check = l.forM check := by
  induction h with
  | refl => rfl
  | @again before after a _ earlier ih =>
      rw [← ih, forM_append, forM_append, forM_cons]
      cases hbefore : before.forM check with
      | error e => rfl
      | ok u =>
          have ha : check a = .ok () := forM_eq_ok_iff.mp hbefore a earlier
          rw [ha]
          rfl

section rules

variable {sections : List Section} {names names' : List Symbol}

theorem checkAllowed_congr (h : ∀ n, n ∈ names' ↔ n ∈ names) :
    checkAllowed sections names' = checkAllowed sections names := by
  have hempty : names'.isEmpty = names.isEmpty := by
    rw [Bool.eq_iff_iff, List.isEmpty_iff, List.isEmpty_iff, List.eq_nil_iff_forall_not_mem,
      List.eq_nil_iff_forall_not_mem]
    simp only [h]
  unfold checkAllowed
  simp only [hempty, h]

/-- The check of required names asks for one name after the other. -/
theorem checkRequired_eq_forM (sections : List Section) (names : List Symbol) :
    checkRequired sections names = names.forM fun n =>
      if n ∈ sectionNames sections then .ok () else .error (.missingRequiredSection n) := by
  induction names with
  | nil => rfl
  | cons n names ih =>
      rw [forM_cons, ← ih]
      unfold checkRequired
      by_cases hn : n ∈ sectionNames sections
      · rw [if_pos hn, List.find?_cons_of_neg (by simpa using hn)]
        rfl
      · rw [if_neg hn, List.find?_cons_of_pos (by simpa using hn)]
        rfl

theorem checkRequired_repeats (h : Repeats names names') :
    checkRequired sections names' = checkRequired sections names := by
  rw [checkRequired_eq_forM, checkRequired_eq_forM, forM_repeats h]

theorem checkRequiredNonempty_repeats (h : Repeats names names') :
    checkRequiredNonempty sections names' = checkRequiredNonempty sections names :=
  forM_repeats h (checkNonempty sections)

end rules

/-! ### Assembly -/

namespace Parts

/-- **Whether a run is accepted does not depend on the order of its sections, nor on the order or
the copies of names in its rules.** With the sections in another order the blocks are, too, and an
error about repeated or unknown names may name another section; nothing else changes. Allowed names
may be listed in any order and any number of times, the other lists may repeat what they have. -/
theorem assemble_reordered (p : Parts) :
    (∀ sections, p.sections.Perm sections →
      AlikeOutcome Run.Reordered p.assemble { p with sections := sections }.assemble) ∧
    (∀ allowed, (∀ n, n ∈ allowed ↔ n ∈ p.rules.allowed) →
      { p with rules := { p.rules with allowed := allowed } }.assemble = p.assemble) ∧
    (∀ required, Repeats p.rules.required required →
      { p with rules := { p.rules with required := required } }.assemble = p.assemble) ∧
    (∀ nonempty, Repeats p.rules.requiredNonempty nonempty →
      { p with rules := { p.rules with requiredNonempty := nonempty } }.assemble = p.assemble) := by
  refine ⟨?_, ?_, ?_, ?_⟩
  · intro sections h
    unfold assemble
    apply (checkSections_perm h p.rules).then
    intro _
    exact ofModel_perm (flattenSections_perm h) p.name p.sets p.mappings p.closure p.scenario
  · intro allowed h
    unfold assemble checkSections
    dsimp only
    rw [checkAllowed_congr h]
    rfl
  · intro required h
    unfold assemble checkSections
    dsimp only
    rw [checkRequired_repeats h]
    rfl
  · intro nonempty h
    unfold assemble checkSections
    dsimp only
    rw [checkRequiredNonempty_repeats h]
    rfl

/-- Three sections under rules of every kind. -/
def ruledSections : Parts :=
  { threeSections with
    rules := ⟨["prices", "trade"], ["trade", "production", "prices"], ["trade"]⟩ }

theorem assemble_ruledSections :
    AlikeOutcome Run.Reordered ruledSections.assemble
      { ruledSections with sections := ruledSections.sections.reverse }.assemble ∧
    { ruledSections with rules :=
      ⟨["prices", "trade"], ["prices", "trade", "prices", "production"], ["trade"]⟩ }.assemble =
        ruledSections.assemble ∧
    { ruledSections with rules :=
      ⟨["prices", "trade", "prices"], ["trade", "production", "prices"], ["trade"]⟩ }.assemble =
        ruledSections.assemble ∧
    { ruledSections with rules :=
      ⟨["prices", "trade"], ["trade", "production", "prices"], ["trade", "trade"]⟩ }.assemble =
        ruledSections.assemble := by
  obtain ⟨hsections, hallowed, hrequired, hnonempty⟩ := assemble_reordered ruledSections
  refine ⟨hsections _ (List.reverse_perm _).symm, hallowed _ ?_, hrequired _ ?_, hnonempty _ ?_⟩
  · intro n
    simp only [ruledSections, List.mem_cons, List.not_mem_nil, or_false]
    tauto
  · exact @Repeats.again _ _ ["prices", "trade"] [] "prices" .refl List.mem_cons_self
  · exact @Repeats.again _ _ ["trade"] [] "trade" .refl List.mem_cons_self

end Parts

end Equilibrium
