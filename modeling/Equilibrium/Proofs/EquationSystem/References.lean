import Mathlib.Data.List.Flatten
import Equilibrium.Proofs.EquationSystem.History
import Equilibrium.Proofs.Expr.Positions

/-!
# Undeclared references

The undeclared names of a system are told by the statements that it accepted: for each equation in
order, the names of its variables that no accepted statement declares as variables, then those of
its parameters that none declares as parameters (`EquationSystem.undeclared_by_history`). -/

namespace Equilibrium

/-! ### Names with a property -/

/-- The list has the names with the property, in strictly ascending order. -/
structure Enumerates (names : List Symbol) (P : Symbol → Prop) : Prop where
  ascending : names.Pairwise (· < ·)
  mem_iff : ∀ n, n ∈ names ↔ P n

/-- What is not declared of some names is listed in their order. -/
theorem Enumerates.filter_not_mem {names : List Symbol} {P : Symbol → Prop}
    (h : Enumerates names P) (declared : List Symbol) :
    Enumerates (names.filter (· ∉ declared)) fun n => P n ∧ n ∉ declared where
  ascending := h.ascending.filter _
  mem_iff n := by rw [List.mem_filter, decide_eq_true_iff, h.mem_iff]

theorem Expr.enumerates_varNames (e : Expr) : Enumerates e.varNames fun n => ∃ p, e.HasVarAt n p :=
  ⟨pairwise_sortedDistinct _, fun _ => mem_varNames_iff⟩

theorem Expr.enumerates_paramNames (e : Expr) :
    Enumerates e.paramNames fun n => ∃ p, e.HasParamAt n p :=
  ⟨pairwise_sortedDistinct _, fun _ => mem_paramNames_iff⟩

/-! ### Declarations among statements -/

namespace Statement

/-- One of the statements makes a declaration of the kind and the name. -/
def Declares (kind : Declaration → Statement) (cs : List Statement) (n : Symbol) : Prop :=
  ∃ d, kind d ∈ cs ∧ d.name = n

theorem newVariable?_eq_some_iff {c : Statement} {d : Declaration} :
    c.newVariable? = some d ↔ c = .variable d := by
  cases c <;> simp [newVariable?]

theorem newParameter?_eq_some_iff {c : Statement} {d : Declaration} :
    c.newParameter? = some d ↔ c = .parameter d := by
  cases c <;> simp [newParameter?]

/-- What the statements of one kind declare are the declarations of that kind. -/
theorem mem_map_name_iff {new? : Statement → Option Declaration}
    {kind : Declaration → Statement} (h : ∀ c d, new? c = some d ↔ c = kind d)
    {cs : List Statement} {n : Symbol} :
    n ∈ (cs.filterMap new?).map (·.name) ↔ Declares kind cs n := by
  simp only [List.mem_map, List.mem_filterMap, h, exists_eq_right, Declares]

end Statement

namespace EquationSystem

open Statement

variable {s t : EquationSystem} {c : Statement} {cs : List Statement} {n : Symbol}

theorem mem_undeclaredIn_iff {e : NamedEquation} {m : Symbol} :
    (m, n) ∈ s.undeclaredIn e ↔ e.name = m ∧
      ((∃ p, e.expr.HasVarAt n p) ∧ n ∉ s.vars.map (·.name) ∨
        (∃ p, e.expr.HasParamAt n p) ∧ n ∉ s.params.map (·.name)) := by
  have hvars := (e.expr.enumerates_varNames.filter_not_mem (s.vars.map (·.name))).mem_iff
  have hparams := (e.expr.enumerates_paramNames.filter_not_mem (s.params.map (·.name))).mem_iff
  rw [undeclaredIn, List.mem_map, ← hvars, ← hparams, ← List.mem_append]
  constructor
  · rintro ⟨k, hk, heq⟩
    obtain ⟨rfl, rfl⟩ := Prod.mk.inj heq
    exact ⟨rfl, hk⟩
  · rintro ⟨rfl, hn⟩
    exact ⟨n, hn, rfl⟩

theorem mem_undeclared_iff {x : Symbol × Symbol} :
    x ∈ s.undeclared ↔ ∃ e ∈ s.equations, x ∈ s.undeclaredIn e := List.mem_flatMap

/-! ### One more statement -/

/-- More declarations take undeclared names away. -/
theorem undeclared_sublist (hequations : t.equations = s.equations)
    (hvars : s.vars.map (·.name) ⊆ t.vars.map (·.name))
    (hparams : s.params.map (·.name) ⊆ t.params.map (·.name)) :
    t.undeclared.Sublist s.undeclared := by
  have hfilter {declared more : List Symbol} (h : declared ⊆ more) (names : List Symbol) :
      (names.filter (· ∉ more)).Sublist (names.filter (· ∉ declared)) := by
    apply List.monotone_filter_right
    intro n hn
    rw [decide_eq_true_iff] at hn ⊢
    exact fun hmem => hn (h hmem)
  rw [undeclared, undeclared, hequations]
  apply List.Sublist.flatMap_right
  intro e _
  exact ((hfilter hvars _).append (hfilter hparams _)).map _

/-- More equations leave the undeclared names of the ones before. -/
theorem undeclared_prefix {es : List NamedEquation} (hequations : t.equations = s.equations ++ es)
    (hvars : t.vars = s.vars) (hparams : t.params = s.params) : s.undeclared <+: t.undeclared := by
  have hin : t.undeclaredIn = s.undeclaredIn := by
    funext e
    rw [undeclaredIn, undeclaredIn, hvars, hparams]
  rw [undeclared, undeclared, hequations, hin, List.flatMap_append]
  exact List.prefix_append _ _

theorem undeclared_after_of_isDeclaration (h : c.isDeclaration = true) :
    (s.after c).undeclared.Sublist s.undeclared := by
  cases hr : s.refusal? c with
  | some r => rw [after_of_refused hr]
  | none =>
      rw [after_of_refusal? hr]
      have hnone : c.newEquation? = none := by
        cases c <;> simp_all [isDeclaration, declaredName?, newEquation?]
      apply undeclared_sublist
      · simp [extend, hnone]
      · simp [extend]
      · simp [extend]

theorem undeclared_after_of_not_isDeclaration (h : c.isDeclaration = false) :
    s.undeclared <+: (s.after c).undeclared := by
  cases hr : s.refusal? c with
  | some r => exact ⟨[], by rw [after_of_refused hr, List.append_nil]⟩
  | none =>
      rw [after_of_refusal? hr]
      have hnone : c.newVariable? = none ∧ c.newParameter? = none := by
        cases c <;> simp_all [isDeclaration, declaredName?, newVariable?, newParameter?]
      apply undeclared_prefix
      · rfl
      · simp [extend, hnone]
      · simp [extend, hnone]

/-! ### By history -/

theorem equations_afterAll (cs : List Statement) :
    (afterAll ∅ cs).equations = (accepted ∅ cs).filterMap newEquation? := by
  rw [afterAll_eq]
  rfl

theorem mem_vars_afterAll_iff :
    n ∈ (afterAll ∅ cs).vars.map (·.name) ↔ Declares .variable (accepted ∅ cs) n := by
  rw [afterAll_eq]
  exact mem_map_name_iff fun _ _ => newVariable?_eq_some_iff

theorem mem_params_afterAll_iff :
    n ∈ (afterAll ∅ cs).params.map (·.name) ↔ Declares .parameter (accepted ∅ cs) n := by
  rw [afterAll_eq]
  exact mem_map_name_iff fun _ _ => newParameter?_eq_some_iff

/-- No name is declared as both. -/
theorem not_declares_both :
    ¬ (Declares .variable (accepted ∅ cs) n ∧ Declares .parameter (accepted ∅ cs) n) := by
  have hdistinct := (wellFormed_empty.afterAll cs).nodup_declarations
  rw [List.map_append] at hdistinct
  rw [← mem_vars_afterAll_iff, ← mem_params_afterAll_iff]
  rintro ⟨hvar, hparam⟩
  exact List.disjoint_of_nodup_append hdistinct hvar hparam

theorem mem_undeclared_afterAll_iff {m : Symbol} :
    (m, n) ∈ (afterAll ∅ cs).undeclared ↔
      ∃ e ∈ (accepted ∅ cs).filterMap newEquation?, e.name = m ∧
        ((∃ p, e.expr.HasVarAt n p) ∧ ¬ Declares .variable (accepted ∅ cs) n ∨
          (∃ p, e.expr.HasParamAt n p) ∧ ¬ Declares .parameter (accepted ∅ cs) n) := by
  simp only [mem_undeclared_iff, mem_undeclaredIn_iff, mem_vars_afterAll_iff,
    mem_params_afterAll_iff, equations_afterAll]

/-- Nothing is undeclared if every reference is declared in its own kind. -/
theorem undeclared_afterAll_eq_nil_iff :
    (afterAll ∅ cs).undeclared = [] ↔ ∀ e ∈ (accepted ∅ cs).filterMap newEquation?,
      ∀ n p, (e.expr.HasVarAt n p → Declares .variable (accepted ∅ cs) n) ∧
        (e.expr.HasParamAt n p → Declares .parameter (accepted ∅ cs) n) := by
  rw [List.eq_nil_iff_forall_not_mem]
  constructor
  · intro h e he n p
    have hnot := h (e.name, n)
    rw [mem_undeclared_afterAll_iff] at hnot
    refine ⟨fun hvar => ?_, fun hparam => ?_⟩
    · by_contra hdeclared
      exact hnot ⟨e, he, rfl, .inl ⟨⟨p, hvar⟩, hdeclared⟩⟩
    · by_contra hdeclared
      exact hnot ⟨e, he, rfl, .inr ⟨⟨p, hparam⟩, hdeclared⟩⟩
  · rintro h ⟨m, n⟩ hmem
    obtain ⟨e, he, -, ⟨⟨p, hp⟩, hdeclared⟩ | ⟨⟨p, hp⟩, hdeclared⟩⟩ :=
      mem_undeclared_afterAll_iff.mp hmem
    · exact hdeclared ((h e he n p).1 hp)
    · exact hdeclared ((h e he n p).2 hp)

theorem afterAll_concat (s : EquationSystem) (cs : List Statement) (c : Statement) :
    s.afterAll (cs ++ [c]) = (s.afterAll cs).after c := List.foldl_concat ..

/-- **The undeclared names are exactly the references without a declaration, in order.** They come
equation by equation as the equations were accepted: first the variables of the equation, at whatever
position, that no accepted statement declares as variables, then its parameters that none declares as
parameters, each ascending. A reference to a name that is declared as the other kind is among them;
there are none exactly if every reference is declared in its own kind; one more declaration only
takes some away, and one more equation only adds some at the end. -/
theorem undeclared_by_history (cs : List Statement) :
    (∃ vars params : NamedEquation → List Symbol,
      (∀ e, Enumerates (vars e) (fun n =>
          (∃ p, e.expr.HasVarAt n p) ∧ ¬ Declares .variable (accepted ∅ cs) n) ∧
        Enumerates (params e) (fun n =>
          (∃ p, e.expr.HasParamAt n p) ∧ ¬ Declares .parameter (accepted ∅ cs) n)) ∧
      (afterAll ∅ cs).undeclared = ((accepted ∅ cs).filterMap newEquation?).flatMap fun e =>
        (vars e ++ params e).map fun n => (e.name, n)) ∧
    (∀ e ∈ (accepted ∅ cs).filterMap newEquation?, ∀ n p,
      (e.expr.HasVarAt n p → Declares .parameter (accepted ∅ cs) n →
        (e.name, n) ∈ (afterAll ∅ cs).undeclared) ∧
      (e.expr.HasParamAt n p → Declares .variable (accepted ∅ cs) n →
        (e.name, n) ∈ (afterAll ∅ cs).undeclared)) ∧
    ((afterAll ∅ cs).undeclared = [] ↔ ∀ e ∈ (accepted ∅ cs).filterMap newEquation?,
      ∀ n p, (e.expr.HasVarAt n p → Declares .variable (accepted ∅ cs) n) ∧
        (e.expr.HasParamAt n p → Declares .parameter (accepted ∅ cs) n)) ∧
    ∀ c : Statement,
      (c.isDeclaration = true →
        (afterAll ∅ (cs ++ [c])).undeclared.Sublist (afterAll ∅ cs).undeclared) ∧
      (c.isDeclaration = false →
        (afterAll ∅ cs).undeclared <+: (afterAll ∅ (cs ++ [c])).undeclared) := by
  refine ⟨⟨fun e => e.expr.varNames.filter (· ∉ (afterAll ∅ cs).vars.map (·.name)),
    fun e => e.expr.paramNames.filter (· ∉ (afterAll ∅ cs).params.map (·.name)),
    fun e => ⟨?_, ?_⟩, ?_⟩, fun e he n p => ⟨fun hp hother => ?_, fun hp hother => ?_⟩,
    undeclared_afterAll_eq_nil_iff, fun c => ⟨fun hc => ?_, fun hc => ?_⟩⟩
  · simp only [← mem_vars_afterAll_iff]
    exact e.expr.enumerates_varNames.filter_not_mem _
  · simp only [← mem_params_afterAll_iff]
    exact e.expr.enumerates_paramNames.filter_not_mem _
  · rw [← equations_afterAll]
    rfl
  · have hdeclared : ¬ Declares .variable (accepted ∅ cs) n := fun h => not_declares_both ⟨h, hother⟩
    exact mem_undeclared_afterAll_iff.mpr ⟨e, he, rfl, .inl ⟨⟨p, hp⟩, hdeclared⟩⟩
  · have hdeclared : ¬ Declares .parameter (accepted ∅ cs) n := fun h => not_declares_both ⟨hother, h⟩
    exact mem_undeclared_afterAll_iff.mpr ⟨e, he, rfl, .inr ⟨⟨p, hp⟩, hdeclared⟩⟩
  · rw [afterAll_concat]
    exact undeclared_after_of_isDeclaration hc
  · rw [afterAll_concat]
    exact undeclared_after_of_not_isDeclaration hc

example : (afterAll ∅
    [.equation "income" (.eq (.scalar "Y") (.mul [.param "w" none, .scalar "L"])),
      .parameter ⟨"L", []⟩]).undeclared =
    [("income", "L"), ("income", "Y"), ("income", "w")] := by decide

/-- The equation comes first. `L` is its variable and declared as a parameter, and another try to
declare it is refused; `Y` is both its variable and its parameter, and `w` is declared nowhere. -/
def crossedHistory : List Statement :=
  [.equation "income" (.eq (.scalar "Y")
      (.mul [.param "w" none, .sum "h" ["rural"] (.param "Y" (some [.scalar "L"]))])),
    .parameter ⟨"L", []⟩, .variable ⟨"Y", []⟩, .variable ⟨"L", []⟩]

theorem undeclared_crossedHistory :
    ("income", "L") ∈ (afterAll ∅ crossedHistory).undeclared ∧
      ("income", "Y") ∈ (afterAll ∅ crossedHistory).undeclared ∧
      (afterAll ∅ (crossedHistory ++ [.parameter ⟨"w", []⟩])).undeclared.Sublist
        (afterAll ∅ crossedHistory).undeclared := by
  obtain ⟨-, hcrossed, -, hmore⟩ := undeclared_by_history crossedHistory
  have hequation : _ ∈ (accepted ∅ crossedHistory).filterMap newEquation? := List.mem_cons_self
  have hparameter : .parameter ⟨"L", []⟩ ∈ accepted ∅ crossedHistory :=
    List.mem_cons_of_mem _ List.mem_cons_self
  have hvariable : .variable ⟨"Y", []⟩ ∈ accepted ∅ crossedHistory :=
    List.mem_cons_of_mem _ (List.mem_cons_of_mem _ List.mem_cons_self)
  refine ⟨?_, ?_, (hmore _).1 rfl⟩
  · exact (hcrossed _ hequation "L" [1, 1, 0, 0]).1 ⟨none, rfl⟩ ⟨_, hparameter, rfl⟩
  · exact (hcrossed _ hequation "Y" [1, 1, 0]).2 ⟨_, rfl⟩ ⟨_, hvariable, rfl⟩

end EquationSystem

end Equilibrium
