import Equilibrium.Proofs.Expr.Nodes
import Equilibrium.Proofs.Repeats

/-!
# Names and scopes

The names in an expression come from its root and from the names in its children. An index is free
in an expression if it is the expression, or free in a child while the root does not bind it
(`Expr.mem_freeIndices_iff`). -/

namespace Equilibrium.Expr

variable {e f : Expr} {n : Symbol} {scope : List Symbol}

/-! ### Names -/

theorem mem_nodes_of_mem_children (hf : f ∈ e.children) {g : Expr} (hg : g ∈ f.nodes) :
    g ∈ e.nodes := by
  rw [nodes_eq]
  exact List.mem_cons_of_mem e (mem_nodesOf.mpr ⟨f, hf, hg⟩)

theorem mem_varNames : n ∈ e.varNames ↔ ∃ g ∈ e.nodes, g.varName? = some n := by
  rw [varNames, mem_sortedDistinct, List.mem_filterMap]

theorem mem_paramNames : n ∈ e.paramNames ↔ ∃ g ∈ e.nodes, g.paramName? = some n := by
  rw [paramNames, mem_sortedDistinct, List.mem_filterMap]

theorem mem_varNames_var (n : Symbol) (indices : Option (List Expr)) :
    n ∈ (Expr.var n indices).varNames := by
  rw [mem_varNames, nodes_eq]
  exact ⟨_, List.mem_cons_self, rfl⟩

theorem mem_paramNames_param (n : Symbol) (indices : Option (List Expr)) :
    n ∈ (Expr.param n indices).paramNames := by
  rw [mem_paramNames, nodes_eq]
  exact ⟨_, List.mem_cons_self, rfl⟩

theorem varNames_subset (hf : f ∈ e.children) : f.varNames ⊆ e.varNames := by
  intro n hn
  obtain ⟨g, hg, hname⟩ := mem_varNames.mp hn
  exact mem_varNames.mpr ⟨g, mem_nodes_of_mem_children hf hg, hname⟩

theorem paramNames_subset (hf : f ∈ e.children) : f.paramNames ⊆ e.paramNames := by
  intro n hn
  obtain ⟨g, hg, hname⟩ := mem_paramNames.mp hn
  exact mem_paramNames.mpr ⟨g, mem_nodes_of_mem_children hf hg, hname⟩

/-! ### Free indices -/

theorem mem_unboundOf {es : List Expr} :
    n ∈ unboundOf scope es ↔ ∃ f ∈ es, n ∈ f.unbound scope := by
  induction es with
  | nil => simp [unboundOf]
  | cons g gs ih => simp [unboundOf, ih]

/-- The root puts the index that it binds into the scope of the children. -/
theorem mem_unbound_iff :
    n ∈ e.unbound scope ↔ (e = .index n ∧ n ∉ scope) ∨
      ∃ f ∈ e.children, n ∈ f.unbound (e.boundIndex?.toList ++ scope) := by
  cases e with
  | index i =>
      have hroot : Expr.index i = .index n ∧ n ∉ scope ↔ n = i ∧ i ∉ scope := by
        rw [index.injEq]
        constructor
        · rintro ⟨rfl, hscope⟩
          exact ⟨rfl, hscope⟩
        · rintro ⟨rfl, hscope⟩
          exact ⟨rfl, hscope⟩
      rw [hroot]
      unfold unbound
      split
      · simp [children, *]
      · simp [children, *]
  | var _ indices | param _ indices =>
      cases indices with
      | none => simp [unbound, children]
      | some es => simp [unbound, children, mem_unboundOf, boundIndex?]
  | _ => simp [unbound, children, mem_unboundOf, boundIndex?]

/-- A scope takes its own indices out of those that are unbound without it. -/
theorem mem_unbound_scope (e : Expr) :
    ∀ scope, n ∈ e.unbound scope ↔ n ∈ e.unbound [] ∧ n ∉ scope := by
  induction e using childrenInduction with
  | step e ih =>
      have hchildren (scope : List Symbol) :
          (∃ f ∈ e.children, n ∈ f.unbound (e.boundIndex?.toList ++ scope)) ↔
            (∃ f ∈ e.children, n ∈ f.unbound []) ∧ n ∉ e.boundIndex?.toList ∧ n ∉ scope := by
        constructor
        · rintro ⟨f, hf, hn⟩
          obtain ⟨hn, hscope⟩ := (ih f hf _).mp hn
          rw [List.mem_append, not_or] at hscope
          exact ⟨⟨f, hf, hn⟩, hscope⟩
        · rintro ⟨⟨f, hf, hn⟩, hscope⟩
          refine ⟨f, hf, (ih f hf _).mpr ⟨hn, ?_⟩⟩
          rw [List.mem_append, not_or]
          exact hscope
      intro scope
      have hnil : n ∉ ([] : List Symbol) := List.not_mem_nil
      rw [mem_unbound_iff, mem_unbound_iff, hchildren, hchildren]
      tauto

/-- An index is free where it stands, and in every node above it up to the first one that binds
it. -/
theorem mem_freeIndices_iff :
    n ∈ e.freeIndices ↔
      e = .index n ∨ ∃ f ∈ e.children, n ∈ f.freeIndices ∧ e.boundIndex? ≠ some n := by
  have hchild (f : Expr) : n ∈ f.unbound (e.boundIndex?.toList ++ []) ↔
      n ∈ f.unbound [] ∧ e.boundIndex? ≠ some n := by
    rw [mem_unbound_scope, List.append_nil, Option.mem_toList]
  have hroot : (e = .index n ∧ n ∉ ([] : List Symbol)) ↔ e = .index n :=
    and_iff_left List.not_mem_nil
  simp only [freeIndices, mem_sortedDistinct]
  rw [mem_unbound_iff, hroot]
  simp only [hchild]

end Equilibrium.Expr
