import Equilibrium.Proofs.EquationSystem.Statements

/-!
# Histories of an equation system

Statements are made to a system one after the other, whatever is answered to them. The answer to
each is fixed by the statements made before, also the refused ones (`Statement.verdict`), and the
system that a history leaves is the accepted statements in their order (`determined_by_history`).
-/

namespace Equilibrium

/-- The answer to a statement after others were made, whatever was answered to those. -/
def Statement.verdict (before : List Statement) : Statement → Except Refusal Unit
  | .variable d | .parameter d =>
    if ∃ b ∈ before, b.declaredName? = some d.name then .error (.duplicateDeclaration d.name)
    else .ok ()
  | .equation name expr =>
    if !expr.isEquation then .error (.notAnEquation name)
    else if ∃ b ∈ before, b.statedName? = some name then .error (.duplicateEquation name)
    else .ok ()

namespace EquationSystem

open Statement

variable {s t : EquationSystem} {c : Statement} {cs ds before : List Statement} {n : Symbol}

/-- The answer to a statement. -/
def answer (s : EquationSystem) (c : Statement) : Except Refusal Unit := (s.respond c).1

/-- The system after a statement, be it accepted or refused. -/
def after (s : EquationSystem) (c : Statement) : EquationSystem := (s.respond c).2

/-- The system after several statements. -/
def afterAll (s : EquationSystem) (cs : List Statement) : EquationSystem := cs.foldl after s

/-- Several statements, each with the answer to it. -/
def replies (s : EquationSystem) : List Statement → List (Statement × Except Refusal Unit)
  | [] => []
  | c :: cs => (c, s.answer c) :: replies (s.after c) cs

/-- The accepted ones of several statements. -/
def accepted (s : EquationSystem) (cs : List Statement) : List Statement :=
  (s.replies cs).filterMap fun r => r.2.toOption.map fun _ => r.1

/-! ### One statement of a history -/

theorem answer_eq (s : EquationSystem) (c : Statement) :
    s.answer c = (s.refusal? c).elim (.ok ()) .error := by
  rw [answer, respond_eq]
  cases s.refusal? c <;> rfl

theorem after_of_refusal? (h : s.refusal? c = none) : s.after c = s.extend c := by
  rw [after, respond_eq, h]
  rfl

theorem after_of_refused {r : Refusal} (h : s.refusal? c = some r) : s.after c = s := by
  rw [after, respond_eq, h]
  rfl

/-- A refused statement leaves the system as it was. -/
theorem after_of_answer_eq_error {r : Refusal} (h : s.answer c = .error r) : s.after c = s := by
  rw [answer_eq] at h
  cases hc : s.refusal? c with
  | some q => exact after_of_refused hc
  | none =>
      rw [hc] at h
      cases h

/-- A name is taken among declarations once a declaration of it was made, accepted or not. -/
theorem mem_declared_after : n ∈ (s.after c).declared ↔ n ∈ s.declared ∨ c.declaredName? = some n := by
  cases h : s.refusal? c with
  | none => simp [after_of_refusal? h, extend, or_comm]
  | some r =>
      rw [after_of_refused h]
      exact ⟨.inl, fun hn => hn.elim id (mem_declared_of_refusal? h)⟩

/-- A name is taken among equations once an equation of it was made, accepted or not. -/
theorem mem_stated_after : n ∈ (s.after c).stated ↔ n ∈ s.stated ∨ c.statedName? = some n := by
  cases h : s.refusal? c with
  | none => simp [after_of_refusal? h, extend, or_comm]
  | some r =>
      rw [after_of_refused h]
      exact ⟨.inl, fun hn => hn.elim id (mem_stated_of_refusal? h)⟩

theorem WellFormed.after (hs : s.WellFormed) (c : Statement) : (s.after c).WellFormed := by
  cases h : s.refusal? c with
  | none =>
      rw [after_of_refusal? h]
      exact hs.extend h
  | some r =>
      rw [after_of_refused h]
      exact hs

/-! ### Whole histories -/

theorem mem_declared_afterAll :
    n ∈ (s.afterAll cs).declared ↔ n ∈ s.declared ∨ ∃ c ∈ cs, c.declaredName? = some n := by
  induction cs generalizing s with
  | nil => simp [afterAll]
  | cons c cs ih =>
      have hcs := ih (s := s.after c)
      rw [mem_declared_after] at hcs
      simpa [afterAll, or_assoc] using hcs

theorem mem_stated_afterAll :
    n ∈ (s.afterAll cs).stated ↔ n ∈ s.stated ∨ ∃ c ∈ cs, c.statedName? = some n := by
  induction cs generalizing s with
  | nil => simp [afterAll]
  | cons c cs ih =>
      have hcs := ih (s := s.after c)
      rw [mem_stated_after] at hcs
      simpa [afterAll, or_assoc] using hcs

theorem WellFormed.afterAll (hs : s.WellFormed) (cs : List Statement) :
    (s.afterAll cs).WellFormed := by
  induction cs generalizing s with
  | nil => exact hs
  | cons c cs ih => exact ih (hs.after c)

/-- The answer to a statement is the verdict on what was said before. -/
theorem answer_afterAll (before : List Statement) (c : Statement) :
    ((∅ : EquationSystem).afterAll before).answer c = c.verdict before := by
  have hdeclared (n : Symbol) : n ∈ (afterAll ∅ before).declared ↔ _ := mem_declared_afterAll
  have hstated (n : Symbol) : n ∈ (afterAll ∅ before).stated ↔ _ := mem_stated_afterAll
  have hnone (n : Symbol) : n ∉ (∅ : EquationSystem).declared ∧ n ∉ (∅ : EquationSystem).stated := by
    constructor <;> exact List.not_mem_nil
  simp only [hnone, false_or] at hdeclared hstated
  rw [answer_eq]
  cases c with
  | «variable» d | parameter d =>
      rw [refusal?, verdict]
      simp only [hdeclared]
      split <;> rfl
  | equation name expr =>
      rw [refusal?, verdict]
      simp only [hstated]
      split
      · rfl
      · split <;> rfl

theorem replies_append (s : EquationSystem) (cs ds : List Statement) :
    s.replies (cs ++ ds) = s.replies cs ++ (s.afterAll cs).replies ds := by
  induction cs generalizing s with
  | nil => rfl
  | cons c cs ih =>
      rw [List.cons_append, replies, replies, ih]
      rfl

theorem length_replies (s : EquationSystem) (cs : List Statement) :
    (s.replies cs).length = cs.length := by
  induction cs generalizing s with
  | nil => rfl
  | cons c cs ih => rw [replies, List.length_cons, ih, List.length_cons]

theorem accepted_cons_of_refusal? (h : s.refusal? c = none) (cs : List Statement) :
    s.accepted (c :: cs) = c :: (s.extend c).accepted cs := by
  rw [accepted, replies, answer_eq, h, after_of_refusal? h]
  rfl

theorem accepted_cons_of_refused {r : Refusal} (h : s.refusal? c = some r) (cs : List Statement) :
    s.accepted (c :: cs) = s.accepted cs := by
  rw [accepted, replies, answer_eq, h, after_of_refused h]
  rfl

/-- The system after several statements is extended by the accepted ones, in their order. -/
theorem afterAll_eq (s : EquationSystem) (cs : List Statement) :
    s.afterAll cs =
      { vars := s.vars ++ (s.accepted cs).filterMap newVariable?
        params := s.params ++ (s.accepted cs).filterMap newParameter?
        equations := s.equations ++ (s.accepted cs).filterMap newEquation?
        declared := ((s.accepted cs).filterMap declaredName?).reverse ++ s.declared
        stated := ((s.accepted cs).filterMap statedName?).reverse ++ s.stated } := by
  induction cs generalizing s with
  | nil => simp [afterAll, accepted, replies]
  | cons c cs ih =>
      have hcs := ih (s.after c)
      cases h : s.refusal? c with
      | some r =>
          rw [after_of_refused h] at hcs
          rw [accepted_cons_of_refused h, ← hcs, afterAll, List.foldl_cons, after_of_refused h]
          rfl
      | none =>
          have hlist {α : Type} (f : Statement → Option α) (ds : List Statement) :
              (c :: ds).filterMap f = (f c).toList ++ ds.filterMap f := by
            rw [List.filterMap_cons]
            cases f c <;> rfl
          have hrev {α : Type} (o : Option α) : o.toList.reverse = o.toList := by
            cases o <;> rfl
          rw [after_of_refusal? h] at hcs
          rw [accepted_cons_of_refusal? h, afterAll, List.foldl_cons, after_of_refusal? h]
          refine hcs.trans ?_
          simp [hlist, hrev, extend]

/-! ### Declarations and equations are apart -/

theorem declared_after_of_not_isDeclaration (h : c.isDeclaration = false) :
    (s.after c).declared = s.declared := by
  cases hr : s.refusal? c with
  | some r => rw [after_of_refused hr]
  | none =>
      rw [after_of_refusal? hr, extend]
      cases hc : c.declaredName? <;> simp_all [isDeclaration]

theorem stated_after_of_isDeclaration (h : c.isDeclaration = true) :
    (s.after c).stated = s.stated := by
  cases hr : s.refusal? c with
  | some r => rw [after_of_refused hr]
  | none =>
      rw [after_of_refusal? hr, extend]
      cases c <;> simp_all [isDeclaration, declaredName?, statedName?]

theorem refusal?_congr_declaration (hst : s.declared = t.declared) (h : c.isDeclaration = true) :
    s.refusal? c = t.refusal? c := by
  cases c <;> simp_all [refusal?, isDeclaration, declaredName?]

theorem refusal?_congr_equation (hst : s.stated = t.stated) (h : c.isDeclaration = false) :
    s.refusal? c = t.refusal? c := by
  cases c <;> simp_all [refusal?, isDeclaration, declaredName?]

theorem declared_after_congr (hst : s.declared = t.declared) (h : c.isDeclaration = true) :
    (s.after c).declared = (t.after c).declared := by
  have hrefusal := refusal?_congr_declaration hst h
  cases ht : t.refusal? c with
  | some r => rw [after_of_refused ht, after_of_refused (hrefusal.trans ht), hst]
  | none => rw [after_of_refusal? ht, after_of_refusal? (hrefusal.trans ht), extend, extend, hst]

theorem stated_after_congr (hst : s.stated = t.stated) (h : c.isDeclaration = false) :
    (s.after c).stated = (t.after c).stated := by
  have hrefusal := refusal?_congr_equation hst h
  cases ht : t.refusal? c with
  | some r => rw [after_of_refused ht, after_of_refused (hrefusal.trans ht), hst]
  | none => rw [after_of_refusal? ht, after_of_refusal? (hrefusal.trans ht), extend, extend, hst]

/-- The answers to declarations are what they are without the equations between them. -/
theorem replies_filter_isDeclaration (hst : s.declared = t.declared) (cs : List Statement) :
    (s.replies cs).filter (fun r => r.1.isDeclaration) =
      t.replies (cs.filter (fun c => c.isDeclaration)) := by
  induction cs generalizing s t with
  | nil => rfl
  | cons c cs ih =>
      cases hc : c.isDeclaration with
      | true =>
          have hcs := ih (declared_after_congr hst hc)
          have hanswer : s.answer c = t.answer c := by
            rw [answer_eq, answer_eq, refusal?_congr_declaration hst hc]
          simp only [replies, List.filter_cons, hc, if_true, hcs, hanswer]
      | false =>
          have hcs := ih ((declared_after_of_not_isDeclaration hc).trans hst)
          simp [replies, hc, hcs]

/-- The answers to equations are what they are without the declarations between them. -/
theorem replies_filter_not_isDeclaration (hst : s.stated = t.stated) (cs : List Statement) :
    (s.replies cs).filter (fun r => !r.1.isDeclaration) =
      t.replies (cs.filter (fun c => !c.isDeclaration)) := by
  induction cs generalizing s t with
  | nil => rfl
  | cons c cs ih =>
      cases hc : c.isDeclaration with
      | false =>
          have hcs := ih (stated_after_congr hst hc)
          have hanswer : s.answer c = t.answer c := by
            rw [answer_eq, answer_eq, refusal?_congr_equation hst hc]
          simp [replies, hc, hcs, hanswer]
      | true =>
          have hcs := ih ((stated_after_of_isDeclaration hc).trans hst)
          simp [replies, hc, hcs]

/-- A list that looks only at some statements sees the accepted ones among these. -/
theorem filterMap_accepted {α : Type} {f : Statement → Option α} {p : Statement → Bool}
    (hf : ∀ c, p c = false → f c = none) (s : EquationSystem) (cs : List Statement) :
    (s.accepted cs).filterMap f =
      (((s.replies cs).filter fun r => p r.1).filterMap fun r =>
        r.2.toOption.map fun _ => r.1).filterMap f := by
  rw [accepted]
  induction s.replies cs with
  | nil => rfl
  | cons r rs ih =>
      cases hr : p r.1 with
      | true =>
          rw [List.filter_cons_of_pos (by simpa using hr), List.filterMap_cons, List.filterMap_cons]
          cases r.2.toOption with
          | none => exact ih
          | some u => simp only [Option.map_some, List.filterMap_cons, ih]
      | false =>
          rw [List.filter_cons_of_neg (by simpa using hr), List.filterMap_cons]
          cases r.2.toOption with
          | none => exact ih
          | some u => simp only [Option.map_some, List.filterMap_cons, hf r.1 hr, ih]

/-- Two histories with the same declarations and the same equations leave the same system, however
the two are interleaved. -/
theorem afterAll_congr
    (hdeclarations : cs.filter (fun c => c.isDeclaration) = ds.filter (fun c => c.isDeclaration))
    (hequations : cs.filter (fun c => !c.isDeclaration) = ds.filter (fun c => !c.isDeclaration)) :
    s.afterAll cs = s.afterAll ds := by
  have hdeclared {α : Type} {f : Statement → Option α}
      (hf : ∀ c : Statement, c.isDeclaration = false → f c = none) :
      (s.accepted cs).filterMap f = (s.accepted ds).filterMap f := by
    rw [filterMap_accepted hf, filterMap_accepted hf, replies_filter_isDeclaration rfl,
      replies_filter_isDeclaration rfl, hdeclarations]
  have hstated {α : Type} {f : Statement → Option α}
      (hf : ∀ c : Statement, (!c.isDeclaration) = false → f c = none) :
      (s.accepted cs).filterMap f = (s.accepted ds).filterMap f := by
    rw [filterMap_accepted hf, filterMap_accepted hf, replies_filter_not_isDeclaration rfl,
      replies_filter_not_isDeclaration rfl, hequations]
  have hvars : ∀ c : Statement, c.isDeclaration = false → c.newVariable? = none := by
    intro c hc
    cases c <;> simp_all [isDeclaration, declaredName?, newVariable?]
  have hparams : ∀ c : Statement, c.isDeclaration = false → c.newParameter? = none := by
    intro c hc
    cases c <;> simp_all [isDeclaration, declaredName?, newParameter?]
  have hnames : ∀ c : Statement, c.isDeclaration = false → c.declaredName? = none := by
    intro c hc
    simpa [isDeclaration] using hc
  have hexprs : ∀ c : Statement, (!c.isDeclaration) = false → c.newEquation? = none := by
    intro c hc
    cases c <;> simp_all [isDeclaration, declaredName?, newEquation?]
  have hstatements : ∀ c : Statement, (!c.isDeclaration) = false → c.statedName? = none := by
    intro c hc
    cases c <;> simp_all [isDeclaration, declaredName?, statedName?]
  rw [afterAll_eq, afterAll_eq, hdeclared hvars, hdeclared hparams, hdeclared hnames,
    hstated hexprs, hstated hstatements]

/-- **A system is determined by the history of the statements made to it, refused ones included.**
Every answer is the verdict on what was said before; the lists are the accepted statements of each
kind in order, and an equation is found by its name; without a refused statement everything else
goes as it goes with it; and it does not matter how declarations and equations are interleaved. -/
theorem determined_by_history (cs : List Statement) :
    (∀ before c after, cs = before ++ c :: after →
      (replies ∅ cs)[before.length]? = some (c, c.verdict before)) ∧
    ((afterAll ∅ cs).vars = (accepted ∅ cs).filterMap newVariable? ∧
      (afterAll ∅ cs).params = (accepted ∅ cs).filterMap newParameter? ∧
      (afterAll ∅ cs).equations = (accepted ∅ cs).filterMap newEquation?) ∧
    (∀ n e, (afterAll ∅ cs).equation? n = some e ↔ .equation n e ∈ accepted ∅ cs) ∧
    (∀ before c after r, cs = before ++ c :: after → c.verdict before = .error r →
      afterAll ∅ cs = afterAll ∅ (before ++ after) ∧
      replies ∅ cs = replies ∅ before ++ (c, .error r) :: (afterAll ∅ before).replies after ∧
      replies ∅ (before ++ after) = replies ∅ before ++ (afterAll ∅ before).replies after) ∧
    ∀ ds, cs.filter (fun c => c.isDeclaration) = ds.filter (fun c => c.isDeclaration) →
      cs.filter (fun c => !c.isDeclaration) = ds.filter (fun c => !c.isDeclaration) →
      afterAll ∅ cs = afterAll ∅ ds ∧
      (replies ∅ cs).filter (fun r => r.1.isDeclaration) =
        (replies ∅ ds).filter (fun r => r.1.isDeclaration) ∧
      (replies ∅ cs).filter (fun r => !r.1.isDeclaration) =
        (replies ∅ ds).filter (fun r => !r.1.isDeclaration) := by
  have hlists := afterAll_eq ∅ cs
  refine ⟨?_, ⟨?_, ?_, ?_⟩, ?_, ?_, ?_⟩
  · rintro before c after rfl
    rw [replies_append, ← length_replies ∅ before, List.getElem?_append_right (Nat.le_refl _), Nat.sub_self,
      replies, answer_afterAll]
    rfl
  · rw [hlists]
    rfl
  · rw [hlists]
    rfl
  · rw [hlists]
    rfl
  · intro n e
    have hequations : (afterAll ∅ cs).equations = (accepted ∅ cs).filterMap newEquation? := by
      rw [hlists]
      rfl
    rw [(wellFormed_empty.afterAll cs).equation?_eq_some_iff, hequations, List.mem_filterMap]
    constructor
    · rintro ⟨c, hc, heq⟩
      cases c with
      | equation name expr =>
          cases heq
          exact hc
      | _ => cases heq
    · intro h
      exact ⟨_, h, rfl⟩
  · rintro before c after r rfl hverdict
    rw [← answer_afterAll, answer_eq] at hverdict
    have hrefused : ((∅ : EquationSystem).afterAll before).refusal? c = some r := by
      cases h : ((∅ : EquationSystem).afterAll before).refusal? c <;> simp_all
    have hafter := after_of_refused hrefused
    refine ⟨?_, ?_, replies_append ∅ before after⟩
    · simp only [afterAll, List.foldl_append, List.foldl_cons] at hafter ⊢
      rw [hafter]
    · rw [replies_append, replies, answer_eq, hrefused, hafter]
      rfl
  · intro ds hdeclarations hequations
    refine ⟨afterAll_congr hdeclarations hequations, ?_, ?_⟩
    · rw [replies_filter_isDeclaration rfl, replies_filter_isDeclaration rfl, hdeclarations]
    · rw [replies_filter_not_isDeclaration rfl, replies_filter_not_isDeclaration rfl, hequations]

/-- A bare expression under a name that stays free, a name declared as two kinds, and three more
expressions under the name of the first, the second of them bare. -/
def mixedHistory : List Statement :=
  [.variable ⟨"PD", []⟩, .equation "balance" (.scalar "PD"), .parameter ⟨"PD", [["food"]]⟩,
    .equation "balance" (.eq (.scalar "PD") (.scalar "PF")), .equation "balance" (.scalar "PF"),
    .variable ⟨"PF", []⟩, .equation "balance" (.eq (.scalar "PF") (.scalar "PD"))]

/-- The declarations of `mixedHistory`, then its equations. -/
def sortedHistory : List Statement :=
  mixedHistory.filter (fun c => c.isDeclaration) ++
    mixedHistory.filter (fun c => !c.isDeclaration)

theorem determined_by_mixedHistory :
    (replies ∅ mixedHistory)[4]? =
      some (.equation "balance" (.scalar "PF"), .error (.notAnEquation "balance")) ∧
    (replies ∅ mixedHistory)[6]? =
      some (.equation "balance" (.eq (.scalar "PF") (.scalar "PD")),
        .error (.duplicateEquation "balance")) ∧
    (afterAll ∅ mixedHistory).equation? "balance" = some (.eq (.scalar "PD") (.scalar "PF")) ∧
    afterAll ∅ mixedHistory = afterAll ∅ (mixedHistory.take 2 ++ mixedHistory.drop 3) ∧
    afterAll ∅ mixedHistory = afterAll ∅ sortedHistory := by
  obtain ⟨hreplies, -, hfound, hrefused, hsorted⟩ := determined_by_history mixedHistory
  refine ⟨?_, ?_, ?_, ?_, ?_⟩
  · exact hreplies (mixedHistory.take 4) _ (mixedHistory.drop 5) rfl
  · exact hreplies (mixedHistory.take 6) _ (mixedHistory.drop 7) rfl
  · refine (hfound "balance" _).mpr ?_
    show _ ∈ [Statement.variable ⟨"PD", []⟩,
      .equation "balance" (.eq (.scalar "PD") (.scalar "PF")), .variable ⟨"PF", []⟩]
    simp
  · exact (hrefused (mixedHistory.take 2) (.parameter ⟨"PD", [["food"]]⟩) (mixedHistory.drop 3)
      (.duplicateDeclaration "PD") rfl rfl).1
  · exact (hsorted sortedHistory rfl rfl).1

end EquationSystem

end Equilibrium
