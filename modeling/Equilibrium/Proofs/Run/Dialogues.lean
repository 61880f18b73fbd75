import Equilibrium.Proofs.EquationSystem.History
import Equilibrium.Run.Basic

/-!
# What blocks leave behind

A block talks to the system as it likes: it may go on after a refusal, or fail without one. Whatever
it does, it leaves the system after the statements that it made (`Script.run_snd`), and so do blocks
in a row (`Run.exists_buildBlocks_eq`). What holds after every history thus holds after every run: a
well-formed system stays one, and its lists grow at the end only (`Run.wellFormed_kept`).
-/

namespace Equilibrium

open EquationSystem

/-! ### Scripts -/

namespace Script

/-- The statements that a script makes to a system, refused ones included. -/
def issued : Script → EquationSystem → List Statement
  | .done _, _ => []
  | .issue c next, s => c :: (next (s.answer c)).issued (s.after c)

/-- A script hears the answer to a statement and goes on with the system after it. -/
theorem run_issue (c : Statement) (next : Except Refusal Unit → Script) (s : EquationSystem) :
    (issue c next).run s = (next (s.answer c)).run (s.after c) := rfl

/-- A script leaves the system after its statements, however it ends. -/
theorem run_snd (script : Script) (s : EquationSystem) :
    (script.run s).2 = s.afterAll (script.issued s) := by
  induction script generalizing s with
  | done result => rfl
  | issue c next ih =>
      rw [run_issue, ih, issued]
      rfl

end Script

/-! ### Blocks -/

theorem Block.exists_build_eq (b : Block) (setting : Setting) (s : EquationSystem) :
    ∃ cs, (b.build setting s).2 = s.afterAll cs := by
  unfold build
  split
  · exact ⟨[], rfl⟩
  next script _ => exact ⟨_, (script setting).run_snd s⟩

/-- Blocks in a row leave the system after some statements, whether one of them fails or not. -/
theorem Run.exists_buildBlocks_eq (setting : Setting) (bs : List Block) (s : EquationSystem) :
    ∃ cs, (buildBlocks setting bs s).2 = s.afterAll cs := by
  induction bs generalizing s with
  | nil => exact ⟨[], rfl⟩
  | cons b bs ih =>
      obtain ⟨cs, hcs⟩ := b.exists_build_eq setting s
      rw [buildBlocks]
      cases hb : b.build setting s with
      | mk result t =>
          rw [hb] at hcs
          cases result with
          | error e => exact ⟨cs, hcs⟩
          | ok u =>
              obtain ⟨ds, hds⟩ := ih t
              refine ⟨cs ++ ds, hds.trans ?_⟩
              rw [show t = s.afterAll cs from hcs, afterAll, afterAll, afterAll, List.foldl_append]

/-! ### Systems that grow -/

namespace EquationSystem

/-- Every list of a system begins with that of another one. -/
structure Extends (t s : EquationSystem) : Prop where
  vars : s.vars <+: t.vars
  params : s.params <+: t.params
  equations : s.equations <+: t.equations

/-- A history adds to the lists at their ends. -/
theorem extends_afterAll (s : EquationSystem) (cs : List Statement) : (s.afterAll cs).Extends s := by
  rw [afterAll_eq]
  exact ⟨List.prefix_append _ _, List.prefix_append _ _, List.prefix_append _ _⟩

end EquationSystem

namespace Run

/-- **A system is well-formed from the start, and nothing that blocks do changes that.** An accepted
statement keeps it so, a refused one leaves the system as it was, also for the rest of a script, and
a run that ends well or badly leaves a well-formed system whose lists begin with what was there
before. -/
theorem wellFormed_kept :
    (∅ : EquationSystem).WellFormed ∧
    (∀ (s t : EquationSystem) (c : Statement), s.WellFormed → s.accept c = .ok t → t.WellFormed) ∧
    (∀ (s : EquationSystem) (c : Statement) (e : Refusal), s.accept c = .error e →
      s.after c = s ∧ ∀ next, (Script.issue c next).run s = (next (.error e)).run s) ∧
    ∀ (r : Run) (s : EquationSystem), s.WellFormed →
      (r.buildAll s).2.WellFormed ∧ (r.buildAll s).2.Extends s := by
  refine ⟨wellFormed_empty, fun s t c hs h => ?_, fun s c e h => ?_, fun r s hs => ?_⟩
  · obtain ⟨hc, rfl⟩ := accept_eq_ok_iff.mp h
    exact hs.extend hc
  · have hrefused := accept_eq_error_iff.mp h
    refine ⟨after_of_refused hrefused, fun next => ?_⟩
    rw [Script.run_issue, answer_eq, after_of_refused hrefused, hrefused]
    rfl
  · obtain ⟨cs, hcs⟩ := exists_buildBlocks_eq r.setting r.blocks s
    rw [buildAll, hcs]
    exact ⟨hs.afterAll cs, s.extends_afterAll cs⟩

/-- A script that takes no refusal for an answer and gives up in the end. -/
def stubbornScript : Script :=
  .issue (.parameter ⟨"PD", []⟩) fun _ =>
    .issue (.equation "balance" (.scalar "PD")) fun _ =>
      .issue (.equation "balance" (.eq (.scalar "PD") (.scalar "PF"))) fun _ =>
        .done (.error (.invalidInput "make" "no benchmark"))

/-- A run of one block with the stubborn script. -/
def stubbornRun : Run where
  name := "base"
  model :=
    { blocks := [{ Block.bare "make" with script := some fun _ => stubbornScript }]
      sets := ⟨["food"], ["farming"], ["labour"], ["household"]⟩
      mappings := ∅ }
  closure := ⟨"labour"⟩
  scenario := .baseline
  complete := rfl

/-- Of the three statements two are refused, and the run fails; the third one stays behind what was
declared before. -/
theorem wellFormed_stubbornRun :
    let s := (∅ : EquationSystem).after (.variable ⟨"PD", []⟩)
    s.WellFormed ∧
    s.after (.parameter ⟨"PD", []⟩) = s ∧
    (stubbornRun.buildAll s).1 = .error (.invalidInput "make" "no benchmark") ∧
    (stubbornRun.buildAll s).2.equations = [⟨"balance", .eq (.scalar "PD") (.scalar "PF")⟩] ∧
    (stubbornRun.buildAll s).2.WellFormed ∧ (stubbornRun.buildAll s).2.Extends s := by
  obtain ⟨hempty, haccepted, hrefused, hrun⟩ := wellFormed_kept
  have hs : ((∅ : EquationSystem).after (.variable ⟨"PD", []⟩)).WellFormed :=
    haccepted ∅ _ (.variable ⟨"PD", []⟩) hempty rfl
  exact ⟨hs, (hrefused _ (.parameter ⟨"PD", []⟩) (.duplicateDeclaration "PD") rfl).1, rfl, rfl,
    hrun stubbornRun _ hs⟩

end Run

end Equilibrium
