import Mathlib.Data.List.Nodup
import Equilibrium.EquationSystem

/-!
# Statements to an equation system

A system either refuses a statement and stays as it is, or is extended by it. `refusal?` says which,
`extend` says how, and `respond_eq` puts them together; what holds of every system is proved from
these two. The index of taken names agrees with the lists (`WellFormed`), so an equation is found by
its name (`WellFormed.equation?_eq_some_iff`).
-/

namespace Equilibrium

/-! ### Parts of a statement -/

namespace Statement

/-- The variable that a statement declares. -/
def newVariable? : Statement → Option Declaration
  | .variable d => some d
  | _ => none

/-- The parameter that a statement declares. -/
def newParameter? : Statement → Option Declaration
  | .parameter d => some d
  | _ => none

/-- The equation that a statement makes, be it one or a bare expression. -/
def newEquation? : Statement → Option NamedEquation
  | .equation name expr => some ⟨name, expr⟩
  | _ => none

/-- The name of the variable or parameter that a statement declares. -/
def declaredName? : Statement → Option Symbol
  | .variable d | .parameter d => some d.name
  | .equation _ _ => none

/-- The name under which a statement states an equation; a bare expression takes no name. -/
def statedName? : Statement → Option Symbol
  | .equation name expr => if expr.isEquation then some name else none
  | _ => none

/-- Whether a statement declares a variable or parameter; the others are about equations. -/
def isDeclaration (c : Statement) : Bool := c.declaredName?.isSome

end Statement

namespace EquationSystem

open Statement

variable {s t : EquationSystem} {c : Statement} {n : Symbol}

/-! ### One statement -/

/-- Why a system refuses a statement; none if it does not. -/
def refusal? (s : EquationSystem) : Statement → Option Refusal
  | .variable d | .parameter d =>
    if d.name ∈ s.declared then some (.duplicateDeclaration d.name) else none
  | .equation name expr =>
    if !expr.isEquation then some (.notAnEquation name)
    else if name ∈ s.stated then some (.duplicateEquation name)
    else none

/-- The system with what a statement says at the end of its lists. -/
def extend (s : EquationSystem) (c : Statement) : EquationSystem where
  vars := s.vars ++ c.newVariable?.toList
  params := s.params ++ c.newParameter?.toList
  equations := s.equations ++ c.newEquation?.toList
  declared := c.declaredName?.toList ++ s.declared
  stated := c.statedName?.toList ++ s.stated

/-- A statement is refused and leaves the system as it was, or the system is extended by it. -/
theorem respond_eq (s : EquationSystem) (c : Statement) :
    s.respond c = (s.refusal? c).elim (.ok (), s.extend c) fun r => (.error r, s) := by
  cases c with
  | «variable» d =>
      by_cases h : d.name ∈ s.declared <;>
        simp [respond, declareVariable, claim, refusal?, extend, newVariable?, newParameter?,
          newEquation?, declaredName?, statedName?, h]
  | parameter d =>
      by_cases h : d.name ∈ s.declared <;>
        simp [respond, declareParameter, claim, refusal?, extend, newVariable?, newParameter?,
          newEquation?, declaredName?, statedName?, h]
  | equation name expr =>
      cases he : expr.isEquation with
      | false => simp [respond, addEquation, refusal?, he]
      | true =>
          by_cases h : name ∈ s.stated <;>
            simp [respond, addEquation, refusal?, extend, newVariable?, newParameter?,
              newEquation?, declaredName?, statedName?, h, he]

theorem accept_eq (s : EquationSystem) (c : Statement) :
    s.accept c = (s.refusal? c).elim (.ok (s.extend c)) .error := by
  rw [accept, respond_eq]
  cases s.refusal? c <;> rfl

theorem accept_eq_ok_iff : s.accept c = .ok t ↔ s.refusal? c = none ∧ t = s.extend c := by
  rw [accept_eq]
  cases s.refusal? c <;> simp [eq_comm]

theorem accept_eq_error_iff {r : Refusal} : s.accept c = .error r ↔ s.refusal? c = some r := by
  rw [accept_eq]
  cases s.refusal? c <;> simp

/-- A declaration that is accepted takes a new name. -/
theorem not_mem_declared_of_refusal? (h : s.refusal? c = none) (hc : c.declaredName? = some n) :
    n ∉ s.declared := by
  cases c <;> simp_all [refusal?, declaredName?]

/-- A declaration is refused only because its name is taken. -/
theorem mem_declared_of_refusal? {r : Refusal} (h : s.refusal? c = some r)
    (hc : c.declaredName? = some n) : n ∈ s.declared := by
  cases c <;> simp_all [refusal?, declaredName?]

/-- An equation that is accepted is one, and takes a new name. -/
theorem isEquation_of_refusal? {e : NamedEquation} (h : s.refusal? c = none)
    (hc : c.newEquation? = some e) :
    e.expr.isEquation = true ∧ e.name ∉ s.stated ∧ c.statedName? = some e.name := by
  cases c with
  | equation name expr =>
      cases hc
      cases hexpr : expr.isEquation <;> simp_all [refusal?, statedName?]
  | _ => cases hc

/-- A statement that is an equation is refused only because its name is taken. -/
theorem mem_stated_of_refusal? {r : Refusal} (h : s.refusal? c = some r)
    (hc : c.statedName? = some n) : n ∈ s.stated := by
  cases c with
  | equation name expr => cases hexpr : expr.isEquation <;> simp_all [refusal?, statedName?]
  | _ => cases hc

/-! ### Names and lists agree -/

/-- The names that are taken are those of the lists, no two members of a name space have the same
name, and every equation is one. -/
structure WellFormed (s : EquationSystem) : Prop where
  mem_declared_iff : ∀ n, n ∈ s.declared ↔ n ∈ (s.vars ++ s.params).map (·.name)
  nodup_declarations : ((s.vars ++ s.params).map (·.name)).Nodup
  mem_stated_iff : ∀ n, n ∈ s.stated ↔ n ∈ s.equations.map (·.name)
  nodup_equations : (s.equations.map (·.name)).Nodup
  isEquation : ∀ e ∈ s.equations, e.expr.isEquation = true

theorem wellFormed_empty : (∅ : EquationSystem).WellFormed :=
  ⟨by simp [EmptyCollection.emptyCollection], List.nodup_nil,
    by simp [EmptyCollection.emptyCollection], List.nodup_nil, nofun⟩

theorem extend_declarations (s : EquationSystem) (c : Statement) :
    (((s.extend c).vars ++ (s.extend c).params).map (·.name)).Perm
      (c.declaredName?.toList ++ (s.vars ++ s.params).map (·.name)) := by
  cases c with
  | «variable» d =>
      simp only [extend, newVariable?, newParameter?, declaredName?, Option.toList, List.append_nil,
        List.append_assoc, List.map_append, List.singleton_append, List.map_cons]
      exact List.perm_middle
  | parameter d =>
      simp only [extend, newVariable?, newParameter?, declaredName?, Option.toList, List.append_nil,
        List.map_append, List.singleton_append, List.map_cons, List.map_nil]
      rw [← List.append_assoc]
      exact List.perm_append_singleton _ _
  | equation name expr =>
      simp [extend, newVariable?, newParameter?, declaredName?]

theorem extend_equations (h : s.refusal? c = none) :
    (s.extend c).equations.map (·.name) = s.equations.map (·.name) ++ c.statedName?.toList := by
  cases hc : c.newEquation? with
  | none => cases c <;> simp_all [extend, newEquation?, statedName?]
  | some e =>
      obtain ⟨-, -, hname⟩ := isEquation_of_refusal? h hc
      simp [extend, hc, hname]

/-- An accepted statement keeps a system well-formed. -/
theorem WellFormed.extend (hs : s.WellFormed) (h : s.refusal? c = none) :
    (s.extend c).WellFormed := by
  have hperm := extend_declarations s c
  have hequations := extend_equations h
  refine ⟨fun n => ?_, ?_, fun n => ?_, ?_, ?_⟩
  · rw [hperm.mem_iff, List.mem_append, ← hs.mem_declared_iff]
    simp [EquationSystem.extend]
  · rw [hperm.nodup_iff]
    cases hc : c.declaredName? with
    | none => simpa using hs.nodup_declarations
    | some m =>
        have hm : m ∉ s.declared := not_mem_declared_of_refusal? h hc
        rw [hs.mem_declared_iff] at hm
        exact List.nodup_cons.mpr ⟨hm, hs.nodup_declarations⟩
  · rw [hequations, List.mem_append, ← hs.mem_stated_iff]
    simp [EquationSystem.extend, or_comm]
  · rw [hequations]
    cases hc : c.statedName? with
    | none => simpa using hs.nodup_equations
    | some m =>
        have hm : m ∉ s.equations.map (·.name) := by
          rw [← hs.mem_stated_iff]
          intro hmem
          cases c with
          | equation name expr =>
              obtain ⟨-, hnew, hname⟩ := isEquation_of_refusal? h rfl
              rw [hc] at hname
              cases hname
              exact hnew hmem
          | _ => cases hc
        exact List.nodup_append_comm.mpr (List.nodup_cons.mpr ⟨hm, hs.nodup_equations⟩)
  · intro e he
    obtain he | he := List.mem_append.mp he
    · exact hs.isEquation e he
    · exact (isEquation_of_refusal? h (Option.mem_toList.mp he)).1

/-- The equation of a name is found. -/
theorem WellFormed.equation?_eq_some_iff (hs : s.WellFormed) {e : Expr} :
    s.equation? n = some e ↔ ⟨n, e⟩ ∈ s.equations := by
  have hdistinct := hs.nodup_equations
  unfold EquationSystem.equation?
  constructor
  · intro h
    obtain ⟨f, hf, rfl⟩ := Option.map_eq_some_iff.mp h
    have hname : f.name = n := by simpa using List.find?_some hf
    subst hname
    exact List.mem_of_find?_eq_some hf
  · intro h
    obtain ⟨f, hf⟩ : ∃ f, s.equations.find? (·.name == n) = some f := by
      apply Option.isSome_iff_exists.mp
      rw [List.find?_isSome]
      exact ⟨⟨n, e⟩, h, by simp⟩
    have hname : f.name = n := by simpa using List.find?_some hf
    have heq : f = ⟨n, e⟩ :=
      List.inj_on_of_nodup_map hdistinct (List.mem_of_find?_eq_some hf) h hname
    rw [hf, heq]
    rfl

end EquationSystem

end Equilibrium
