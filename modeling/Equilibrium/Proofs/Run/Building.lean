import Equilibrium.Proofs.Run.Assembly
import Equilibrium.Proofs.Run.Dialogues

/-!
# Building a run

A run whose blocks make lists of statements builds what one block with all these statements in a row
would build: all of it, or what stands before the first statement that is refused
(`Run.buildAll_issued`).
-/

namespace Equilibrium

open Statement EquationSystem

/-! ### Lists of statements up to the first refusal -/

/-- Make the statements of a list up to the first one that is refused. -/
def issue (cs : List Statement) (s : EquationSystem) : Except BlockError Unit × EquationSystem :=
  (Script.ofSteps (cs.map .ok)).run s

section issue

variable {s t : EquationSystem} {c : Statement} {cs before : List Statement}

theorem issue_nil (s : EquationSystem) : issue [] s = (.ok (), s) := rfl

theorem issue_cons_of_ok (h : s.answer c = .ok ()) (cs : List Statement) :
    issue (c :: cs) s = issue cs (s.after c) := by
  rw [issue, List.map_cons, Script.ofSteps, Script.run_issue, h]
  rfl

theorem issue_cons_of_error {r : Refusal} (h : s.answer c = .error r) (cs : List Statement) :
    issue (c :: cs) s = (.error (.refused r), s) := by
  rw [issue, List.map_cons, Script.ofSteps, Script.run_issue, h, after_of_answer_eq_error h]
  rfl

/-- What follows a list goes on from the system that the list leaves, if no statement of it is
refused. -/
theorem issue_append_of_ok (h : issue before s = (.ok (), t)) (cs : List Statement) :
    issue (before ++ cs) s = issue cs t := by
  induction before generalizing s with
  | nil =>
      rw [issue_nil] at h
      cases h
      rfl
  | cons b before ih =>
      cases hb : s.answer b with
      | ok u =>
          rw [issue_cons_of_ok hb] at h
          rw [List.cons_append, issue_cons_of_ok hb, ih h]
      | error r =>
          rw [issue_cons_of_error hb] at h
          cases h

/-- What follows a list counts for nothing if a statement of the list is refused. -/
theorem issue_append_of_error {e : BlockError} (h : issue before s = (.error e, t))
    (cs : List Statement) : issue (before ++ cs) s = (.error e, t) := by
  induction before generalizing s with
  | nil => cases h
  | cons b before ih =>
      cases hb : s.answer b with
      | ok u =>
          rw [issue_cons_of_ok hb] at h
          rw [List.cons_append, issue_cons_of_ok hb, ih h]
      | error r =>
          rw [issue_cons_of_error hb] at h
          rw [List.cons_append, issue_cons_of_error hb, h]

end issue

/-! ### Statements that agree -/

/-- No two declarations have the same name, no two equations have the same name, and every
expression is an equation. -/
structure Consistent (cs : List Statement) : Prop where
  declarations : (cs.filterMap declaredName?).Nodup
  equations : ((cs.filterMap newEquation?).map (·.name)).Nodup
  isEquation : ∀ e ∈ cs.filterMap newEquation?, e.expr.isEquation = true

section consistent

variable {c : Statement} {cs before : List Statement}

theorem consistent_nil : Consistent [] := ⟨List.nodup_nil, List.nodup_nil, nofun⟩

/-- Among equations that are ones the stated names are the names of all. -/
theorem Consistent.exists_statedName?_iff (h : Consistent cs) {n : Symbol} :
    (∃ c ∈ cs, c.statedName? = some n) ↔ n ∈ (cs.filterMap newEquation?).map (·.name) := by
  constructor
  · rintro ⟨c, hc, hn⟩
    cases c with
    | equation name expr =>
        have hname : name = n := by
          rw [statedName?] at hn
          split at hn
          · exact Option.some.inj hn
          · cases hn
        subst hname
        exact List.mem_map.mpr ⟨⟨name, expr⟩, List.mem_filterMap.mpr ⟨_, hc, rfl⟩, rfl⟩
    | _ => cases hn
  · intro hn
    obtain ⟨e, he, rfl⟩ := List.mem_map.mp hn
    have hexpr := h.isEquation e he
    obtain ⟨c, hc, heq⟩ := List.mem_filterMap.mp he
    cases c with
    | equation name expr =>
        cases heq
        exact ⟨_, hc, by rw [statedName?, if_pos hexpr]⟩
    | _ => cases heq

/-- One more statement agrees with the others if it would be accepted after them. -/
theorem consistent_concat :
    Consistent (cs ++ [c]) ↔ Consistent cs ∧ c.verdict cs = .ok () := by
  have hsplit : Consistent (cs ++ [c]) ↔ Consistent cs ∧
      (∀ n ∈ c.declaredName?, n ∉ cs.filterMap declaredName?) ∧
      ∀ e ∈ c.newEquation?, e.name ∉ (cs.filterMap newEquation?).map (·.name) ∧
        e.expr.isEquation = true := by
    constructor
    · rintro ⟨hdeclarations, hequations, hexprs⟩
      rw [List.filterMap_append] at hdeclarations hequations hexprs
      rw [List.map_append] at hequations
      refine ⟨⟨(List.nodup_append.mp hdeclarations).1, (List.nodup_append.mp hequations).1,
        fun e he => hexprs e (List.mem_append_left _ he)⟩, fun n hn hmem => ?_, fun e he => ⟨fun hmem => ?_, ?_⟩⟩
      · exact (List.nodup_append.mp hdeclarations).2.2 n hmem n (by simp_all) rfl
      · exact (List.nodup_append.mp hequations).2.2 e.name hmem e.name (by simp_all) rfl
      · exact hexprs e (List.mem_append_right _ (by simp_all))
    · rintro ⟨h, hname, hequation⟩
      refine ⟨?_, ?_, fun e he => ?_⟩
      · rw [List.filterMap_append]
        cases hc : c.declaredName? with
        | none => simpa [hc] using h.declarations
        | some n =>
            have hn := hname n hc
            simpa [hc] using List.nodup_append_comm.mpr (List.nodup_cons.mpr ⟨hn, h.declarations⟩)
      · rw [List.filterMap_append, List.map_append]
        cases hc : c.newEquation? with
        | none => simpa [hc] using h.equations
        | some e =>
            have he := (hequation e hc).1
            simpa [hc] using List.nodup_append_comm.mpr (List.nodup_cons.mpr ⟨he, h.equations⟩)
      · rw [List.filterMap_append, List.mem_append] at he
        obtain he | he := he
        · exact h.isEquation e he
        · exact (hequation e (by simpa using he)).2
  rw [hsplit]
  refine and_congr_right fun h => ?_
  cases c with
  | «variable» d | parameter d =>
      rw [verdict]
      split <;> rename_i hd <;> simpa [declaredName?, newEquation?] using hd
  | equation name expr =>
      have hdeclared : (equation name expr).declaredName? = none := rfl
      have hnew : (equation name expr).newEquation? = some ⟨name, expr⟩ := rfl
      rw [verdict, hdeclared, hnew]
      simp only [h.exists_statedName?_iff]
      generalize (cs.filterMap newEquation?).map (·.name) = names
      cases hexpr : expr.isEquation with
      | false => simp [hexpr]
      | true => by_cases hn : name ∈ names <;> simp [hexpr, hn]

/-- Statements that agree are all accepted. -/
theorem Consistent.accepted_eq (h : Consistent cs) : accepted ∅ cs = cs := by
  induction cs using List.reverseRecOn with
  | nil => rfl
  | append_singleton cs c ih =>
      obtain ⟨hcs, hc⟩ := consistent_concat.mp h
      have hlast : accepted ((∅ : EquationSystem).afterAll cs) [c] = [c] := by
        rw [accepted, replies, answer_afterAll, hc]
        rfl
      rw [accepted, replies_append, List.filterMap_append]
      exact congrArg₂ (· ++ ·) (ih hcs) hlast

/-- Statements that agree are made one and all. -/
theorem Consistent.issue_eq (h : Consistent cs) : issue cs ∅ = (.ok (), (∅ : EquationSystem).afterAll cs) := by
  induction cs using List.reverseRecOn with
  | nil => rfl
  | append_singleton cs c ih =>
      obtain ⟨hcs, hc⟩ := consistent_concat.mp h
      rw [issue_append_of_ok (ih hcs), issue_cons_of_ok ((answer_afterAll cs c).trans hc), issue_nil,
        afterAll, afterAll, List.foldl_concat]

/-- Statements that do not agree have a first one that would be refused after those before it. -/
theorem exists_first_refused (h : ¬ Consistent cs) :
    ∃ before c after r, cs = before ++ c :: after ∧ Consistent before ∧ c.verdict before = .error r := by
  induction cs using List.reverseRecOn with
  | nil => exact absurd consistent_nil h
  | append_singleton cs c ih =>
      by_cases hcs : Consistent cs
      · cases hc : c.verdict cs with
        | ok u => exact absurd (consistent_concat.mpr ⟨hcs, hc⟩) h
        | error r => exact ⟨cs, c, [], r, rfl, hcs, hc⟩
      · obtain ⟨before, d, after, r, rfl, hbefore, hd⟩ := ih hcs
        exact ⟨before, d, after ++ [c], r, by simp, hbefore, hd⟩

/-- A refused statement ends the list, and what was made before it stays. -/
theorem issue_refused {r : Refusal} (hbefore : Consistent before) (hc : c.verdict before = .error r)
    (after : List Statement) :
    issue (before ++ c :: after) ∅ = (.error (.refused r), (∅ : EquationSystem).afterAll before) := by
  rw [issue_append_of_ok hbefore.issue_eq, issue_cons_of_error ((answer_afterAll before c).trans hc)]

end consistent

/-! ### Blocks that make lists of statements -/

/-- A block makes the statements of a list, up to the first one that is refused. -/
def Block.Issues (b : Block) (setting : Setting) (cs : List Statement) : Prop :=
  ∃ script, b.script = some script ∧ script setting = .ofSteps (cs.map .ok)

theorem Block.Issues.build_eq {b : Block} {setting : Setting} {cs : List Statement}
    (h : b.Issues setting cs) (s : EquationSystem) : b.build setting s = issue cs s := by
  obtain ⟨script, hscript, hcs⟩ := h
  rw [build, hscript]
  exact congrArg (fun script : Script => script.run s) hcs

namespace Run

variable {setting : Setting} {calls : Block → List Statement} {bs done : List Block}
  {s t : EquationSystem}

/-- Blocks in a row make their statements in a row. -/
theorem buildBlocks_eq_issue (h : ∀ b ∈ bs, b.Issues setting (calls b)) (s : EquationSystem) :
    buildBlocks setting bs s = issue (bs.flatMap calls) s := by
  induction bs generalizing s with
  | nil => rfl
  | cons b bs ih =>
      have hbs := ih fun c hc => h c (List.mem_cons_of_mem b hc)
      rw [buildBlocks, (h b List.mem_cons_self).build_eq, List.flatMap_cons]
      cases hb : issue (calls b) s with
      | mk result t =>
          cases result with
          | ok u => rw [issue_append_of_ok hb, ← hbs t]
          | error e => rw [issue_append_of_error hb]

/-- No block is asked behind one that fails. -/
theorem buildBlocks_append_of_error {e : BlockError} (h : buildBlocks setting done s = (.error e, t))
    (others : List Block) : buildBlocks setting (done ++ others) s = (.error e, t) := by
  induction done generalizing s with
  | nil => cases h
  | cons b done ih =>
      rw [List.cons_append, buildBlocks]
      rw [buildBlocks] at h
      cases hb : b.build setting s with
      | mk result u =>
          rw [hb] at h
          cases result with
          | ok v => exact ih h
          | error f => exact h

/-- A statement of blocks in a row is one of a block. -/
theorem flatMap_eq_append_cons {before after : List Statement} {c : Statement}
    (h : bs.flatMap calls = before ++ c :: after) :
    ∃ done b rest first last, bs = done ++ b :: rest ∧ calls b = first ++ c :: last ∧
      before = done.flatMap calls ++ first := by
  induction bs generalizing before with
  | nil => exact absurd h (by simp)
  | cons b bs ih =>
      rw [List.flatMap_cons] at h
      obtain ⟨mid, hb, hrest⟩ | ⟨mid, hbefore, hmid⟩ := List.append_eq_append_iff.mp h
      · obtain ⟨done, d, rest, first, last, hbs, hd, hmid⟩ := ih hrest
        exact ⟨b :: done, d, rest, first, last, by rw [hbs]; rfl, hd, by
          rw [hb, hmid, List.flatMap_cons, List.append_assoc]⟩
      · cases mid with
        | nil =>
            obtain ⟨done, d, rest, first, last, hbs, hd, hmid'⟩ := @ih [] hmid.symm
            refine ⟨b :: done, d, rest, first, last, by rw [hbs]; rfl, hd, ?_⟩
            rw [List.flatMap_cons, List.append_assoc, ← hmid', hbefore, List.append_nil, List.append_nil]
        | cons d mid =>
            obtain ⟨rfl, -⟩ := List.cons_eq_cons.mp hmid
            exact ⟨[], b, bs, before, mid, rfl, hbefore, rfl⟩

/-- **Blocks that make lists of statements build what one list of all these statements builds,
section by section and block by block.** If the statements agree, all of them are made; else the
first one that is refused ends the run, what was said before it stays, and whatever blocks come
behind count for nothing. -/
theorem buildAll_issued (p : Parts) (r : Run) (calls : Block → List Statement)
    (hp : p.assemble = .ok r)
    (hcalls : ∀ sec ∈ p.sections, ∀ b ∈ sec.blocks, b.Issues r.setting (calls b)) :
    let issued := p.sections.flatMap fun sec => sec.blocks.flatMap calls
    r.buildAll ∅ = (Script.ofSteps (issued.map .ok)).run ∅ ∧
    (Consistent issued →
      (r.buildAll ∅).1 = .ok () ∧
      (r.buildAll ∅).2.vars = issued.filterMap newVariable? ∧
      (r.buildAll ∅).2.params = issued.filterMap newParameter? ∧
      (r.buildAll ∅).2.equations = issued.filterMap newEquation?) ∧
    (¬ Consistent issued →
      ∃ before c after e, issued = before ++ c :: after ∧ Consistent before ∧
        c.verdict before = .error e ∧
        (r.buildAll ∅).1 = .error (.refused e) ∧
        (r.buildAll ∅).2.vars = before.filterMap newVariable? ∧
        (r.buildAll ∅).2.params = before.filterMap newParameter? ∧
        (r.buildAll ∅).2.equations = before.filterMap newEquation? ∧
        ∃ done b rest first last, r.blocks = done ++ b :: rest ∧ calls b = first ++ c :: last ∧
          before = done.flatMap calls ++ first ∧
          ∀ others, buildBlocks r.setting (done ++ b :: others) ∅ = r.buildAll ∅) := by
  intro issued
  have hblocks : r.blocks = p.sections.flatMap (·.blocks) := by
    obtain ⟨-, hmodel, -, -⟩ := Run.ofModel_eq_ok_iff.mp (Parts.assemble_eq_ok_iff.mp hp).2
    rw [blocks, hmodel]
    rfl
  have hissued : r.blocks.flatMap calls = issued := by
    rw [hblocks, List.flatMap_assoc]
  have hissues : ∀ b ∈ r.blocks, b.Issues r.setting (calls b) := by
    intro b hb
    rw [hblocks] at hb
    obtain ⟨sec, hsec, hb⟩ := List.mem_flatMap.mp hb
    exact hcalls sec hsec b hb
  have hbuild : r.buildAll ∅ = issue issued ∅ := by
    rw [buildAll, buildBlocks_eq_issue hissues, hissued]
  have hlists {cs : List Statement} (h : Consistent cs) :
      ((∅ : EquationSystem).afterAll cs).vars = cs.filterMap newVariable? ∧
      ((∅ : EquationSystem).afterAll cs).params = cs.filterMap newParameter? ∧
      ((∅ : EquationSystem).afterAll cs).equations = cs.filterMap newEquation? := by
    rw [afterAll_eq, h.accepted_eq]
    exact ⟨rfl, rfl, rfl⟩
  refine ⟨hbuild, fun h => ?_, fun h => ?_⟩
  · rw [hbuild, h.issue_eq]
    exact ⟨rfl, hlists h⟩
  · obtain ⟨before, c, after, e, hsplit, hbefore, hc⟩ := exists_first_refused h
    have hresult : r.buildAll ∅ = (.error (.refused e), (∅ : EquationSystem).afterAll before) := by
      rw [hbuild, hsplit, issue_refused hbefore hc]
    obtain ⟨done, b, rest, first, last, hrun, hb, hfirst⟩ :=
      flatMap_eq_append_cons (hissued.trans hsplit)
    have hdone : buildBlocks r.setting (done ++ [b]) ∅ =
        (.error (.refused e), (∅ : EquationSystem).afterAll before) := by
      have hissues' : ∀ d ∈ done ++ [b], d.Issues r.setting (calls d) := fun d hd =>
        hissues d (by rw [hrun]; simp at hd ⊢; tauto)
      rw [buildBlocks_eq_issue hissues', List.flatMap_append, List.flatMap_singleton, hb,
        ← List.append_assoc, ← hfirst, issue_refused hbefore hc]
    obtain ⟨hvars, hparams, hequations⟩ := hlists hbefore
    rw [hresult]
    refine ⟨before, c, after, e, hsplit, hbefore, hc, rfl, hvars, hparams, hequations, done, b, rest,
      first, last, hrun, hb, hfirst, fun others => ?_⟩
    rw [← List.singleton_append, ← List.append_assoc]
    exact buildBlocks_append_of_error hdone others

/-- A block that makes the statements of a list. -/
def issuer (name : String) (cs : List Statement) : Block :=
  { Block.bare name with script := some fun _ => .ofSteps (cs.map .ok) }

/-- Two sections, of which the second declares a name of the first once more and has another block
behind that. -/
def clashingParts : Parts where
  name := "base"
  sets := ⟨["food"], ["farming"], ["labour"], ["household"]⟩
  mappings := ∅
  sections :=
    [⟨"production", [issuer "make" [.variable ⟨"PD", []⟩,
        .equation "balance" (.eq (.scalar "PD") (.scalar "PF"))]]⟩,
      ⟨"trade", [issuer "ship" [.variable ⟨"PF", []⟩, .parameter ⟨"PD", []⟩],
        issuer "sell" [.equation "rest" (.scalar "PF")]]⟩]
  closure := ⟨"labour"⟩
  scenario := .baseline
  rules := ∅

/-- What the blocks of `clashingParts` say, by their names. -/
def clashingCalls (b : Block) : List Statement :=
  if b.name = "make" then
    [.variable ⟨"PD", []⟩, .equation "balance" (.eq (.scalar "PD") (.scalar "PF"))]
  else if b.name = "ship" then [.variable ⟨"PF", []⟩, .parameter ⟨"PD", []⟩]
  else [.equation "rest" (.scalar "PF")]

theorem buildAll_clashingParts :
    ∃ r, clashingParts.assemble = .ok r ∧
      (∀ sec ∈ clashingParts.sections, ∀ b ∈ sec.blocks, b.Issues r.setting (clashingCalls b)) ∧
      (r.buildAll ∅).1 = .error (.refused (.duplicateDeclaration "PD")) ∧
      (r.buildAll ∅).2.vars = [⟨"PD", []⟩, ⟨"PF", []⟩] := by
  have hp : ∃ r, clashingParts.assemble = .ok r := by
    refine Parts.exists_assemble_eq_ok_iff.mpr
      { distinct := by decide
        admitted := .inl rfl
        present := nofun
        filled := nofun
        inhabited := ?_ }
    intro k
    cases k <;> decide
  obtain ⟨r, hr⟩ := hp
  have hcalls : ∀ sec ∈ clashingParts.sections, ∀ b ∈ sec.blocks,
      b.Issues r.setting (clashingCalls b) := by
    simp only [clashingParts, List.forall_mem_cons, List.not_mem_nil, false_imp_iff, implies_true,
      and_true]
    exact ⟨⟨_, rfl, rfl⟩, ⟨_, rfl, rfl⟩, ⟨_, rfl, rfl⟩⟩
  have hrun := (buildAll_issued clashingParts r clashingCalls hr hcalls).1
  refine ⟨r, hr, hcalls, ?_, ?_⟩
  · rw [hrun]
    rfl
  · rw [hrun]
    rfl

end Run

end Equilibrium
