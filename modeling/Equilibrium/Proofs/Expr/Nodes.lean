import Equilibrium.Expr.Query

/-!
# Nodes and children

Statements about expressions are proved from the children up (`childrenInduction`), and statements
about all nodes of an expression come from the root and the nodes of the children. -/

namespace Equilibrium.Expr

theorem Kind.mem_all (k : Kind) : k ∈ all := by
  cases k <;> decide

theorem sizeOf_lt_of_mem_children {e f : Expr} (h : f ∈ e.children) : sizeOf f < sizeOf e := by
  cases e with
  | var _ indices | param _ indices =>
      cases indices with
      | none => cases h
      | some es =>
          have hlt : sizeOf f < sizeOf es := List.sizeOf_lt_of_mem h
          simp only [var.sizeOf_spec, param.sizeOf_spec, Option.some.sizeOf_spec]
          omega
  | add es | mul es =>
      have hlt : sizeOf f < sizeOf es := List.sizeOf_lt_of_mem h
      simp only [add.sizeOf_spec, mul.sizeOf_spec]
      omega
  | div a b | pow a b | eq a b =>
      have hf : f = a ∨ f = b := by simpa [children] using h
      simp only [div.sizeOf_spec, pow.sizeOf_spec, eq.sizeOf_spec]
      obtain rfl | rfl := hf
      · omega
      · omega
  | sum _ _ a | prod _ _ a =>
      obtain rfl : f = a := by simpa [children] using h
      simp only [sum.sizeOf_spec, prod.sizeOf_spec]
      omega
  | neg a =>
      obtain rfl : f = a := by simpa [children] using h
      simp only [neg.sizeOf_spec]
      omega
  | index | const | raw => cases h

/-- A property holds of every expression if it passes from the children to the node above them. -/
theorem childrenInduction {P : Expr → Prop} (step : ∀ e, (∀ f ∈ e.children, P f) → P e) (e : Expr) :
    P e :=
  step e fun f _ => childrenInduction step f
termination_by sizeOf e
decreasing_by exact sizeOf_lt_of_mem_children ‹_›

theorem nodes_eq (e : Expr) : e.nodes = e :: nodesOf e.children := by
  cases e with
  | var _ indices | param _ indices => cases indices <;> simp [nodes, nodesOf, children]
  | _ => simp [nodes, nodesOf, children]

theorem mem_nodesOf {e : Expr} {es : List Expr} : e ∈ nodesOf es ↔ ∃ f ∈ es, e ∈ f.nodes := by
  induction es with
  | nil => simp [nodesOf]
  | cons g gs ih => simp [nodesOf, ih]

/-! ### Constants -/

/-- The number at the root. -/
def constant? : Expr → Option Binary64
  | .const x => some x
  | _ => none

/-- All constants, from left to right. -/
def constants (e : Expr) : List Binary64 := e.nodes.filterMap constant?

/-- All constants are finite. -/
def IsFinite (e : Expr) : Prop := ∀ x ∈ e.constants, x.isFinite = true

instance (e : Expr) : Decidable e.IsFinite :=
  inferInstanceAs (Decidable (∀ x ∈ e.constants, x.isFinite = true))

/-- Constants stand at the root and in the children. -/
theorem isFinite_iff {e : Expr} :
    e.IsFinite ↔ (∀ x, e = .const x → x.isFinite = true) ∧ ∀ f ∈ e.children, f.IsFinite := by
  have hroot (x : Binary64) : e.constant? = some x ↔ e = .const x := by
    cases e <;> simp [constant?]
  simp only [IsFinite, constants, nodes_eq e, List.mem_filterMap, List.mem_cons, mem_nodesOf]
  constructor
  · intro h
    refine ⟨fun x hx => h x ⟨e, .inl rfl, (hroot x).mpr hx⟩, fun f hf x hmem => ?_⟩
    obtain ⟨g, hg, hx⟩ := hmem
    exact h x ⟨g, .inr ⟨f, hf, hg⟩, hx⟩
  · rintro ⟨he, hchildren⟩ x ⟨g, rfl | ⟨f, hf, hg⟩, hx⟩
    · exact he x ((hroot x).mp hx)
    · exact hchildren f hf x ⟨g, hg, hx⟩

end Equilibrium.Expr
