import Mathlib.Logic.Relation
import Equilibrium.Proofs.Expr.Scope

/-!
# Positions

A position is the way from the root down to a node, as a list of child numbers (`Expr.subexpr?`).
`Expr.positions` lists the positions of an expression in lexicographic order, and the nodes are the
subexpressions there, one for each (`Expr.nodes_at_positions`). -/

namespace Equilibrium.Expr

/-- The subexpression at a position; none if there is no such position. -/
def subexpr? (e : Expr) : List Nat → Option Expr
  | [] => some e
  | i :: p => e.children[i]?.bind fun f => f.subexpr? p

/-- The positions, each before its extensions, and those in a child before those in the next. -/
def positions (e : Expr) : List (List Nat) :=
  [] :: (e.children.attach.mapIdx fun i f => f.1.positions.map (i :: ·)).flatten
termination_by sizeOf e
decreasing_by exact sizeOf_lt_of_mem_children f.2

variable {e f : Expr} {n : Symbol} {i : Nat} {p : List Nat}

/-! ### Subexpressions -/

@[simp] theorem subexpr?_nil (e : Expr) : e.subexpr? [] = some e := rfl

@[simp] theorem subexpr?_cons (e : Expr) (i : Nat) (p : List Nat) :
    e.subexpr? (i :: p) = e.children[i]?.bind fun f => f.subexpr? p := rfl

theorem subexpr?_cons_eq_some_iff :
    e.subexpr? (i :: p) = some f ↔ ∃ g, e.children[i]? = some g ∧ g.subexpr? p = some f := by
  rw [subexpr?_cons, Option.bind_eq_some_iff]

/-! ### The list of positions -/

theorem positions_eq (e : Expr) :
    e.positions = [] :: (e.children.mapIdx fun i f => f.positions.map (i :: ·)).flatten := by
  rw [positions]
  congr 2
  apply List.ext_getElem
  · simp
  · simp

theorem nil_mem_positions (e : Expr) : [] ∈ e.positions := by
  rw [positions_eq]
  exact List.mem_cons_self

theorem cons_mem_positions_iff :
    i :: p ∈ e.positions ↔ ∃ g, e.children[i]? = some g ∧ p ∈ g.positions := by
  rw [positions_eq, List.mem_cons, List.mem_flatten]
  constructor
  · rintro (h | ⟨l, hl, hp⟩)
    · cases h
    · obtain ⟨j, hj, rfl⟩ := List.mem_mapIdx.mp hl
      obtain ⟨q, hq, heq⟩ := List.mem_map.mp hp
      obtain ⟨rfl, rfl⟩ := List.cons.inj heq
      exact ⟨_, List.getElem?_eq_getElem hj, hq⟩
  · rintro ⟨g, hg, hp⟩
    obtain ⟨hi, rfl⟩ := List.getElem?_eq_some_iff.mp hg
    exact .inr ⟨_, List.mem_mapIdx.mpr ⟨i, hi, rfl⟩, List.mem_map_of_mem hp⟩

/-- The positions are the ways that lead to a node. -/
theorem mem_positions_iff : p ∈ e.positions ↔ ∃ f, e.subexpr? p = some f := by
  induction p generalizing e with
  | nil => exact iff_of_true (nil_mem_positions e) ⟨e, rfl⟩
  | cons i p ih =>
      simp only [cons_mem_positions_iff, subexpr?_cons_eq_some_iff, ih]
      constructor
      · rintro ⟨g, hg, f, hf⟩
        exact ⟨f, g, hg, hf⟩
      · rintro ⟨f, g, hg, hf⟩
        exact ⟨g, hg, f, hf⟩

/-- Each position comes once, in lexicographic order. -/
theorem pairwise_positions (e : Expr) : e.positions.Pairwise (· < ·) := by
  induction e using childrenInduction with
  | step e ih =>
      rw [positions_eq, List.pairwise_cons, List.pairwise_flatten]
      refine ⟨fun p hp => ?_, fun l hl => ?_, ?_⟩
      · obtain ⟨l, hl, hp⟩ := List.mem_flatten.mp hp
        obtain ⟨i, hi, rfl⟩ := List.mem_mapIdx.mp hl
        obtain ⟨q, -, rfl⟩ := List.mem_map.mp hp
        exact List.nil_lt_cons i q
      · obtain ⟨i, hi, rfl⟩ := List.mem_mapIdx.mp hl
        rw [List.pairwise_map]
        refine (ih _ (List.getElem_mem hi)).imp fun h => ?_
        exact List.cons_lt_cons_iff.mpr (.inr ⟨rfl, h⟩)
      · rw [List.pairwise_iff_getElem]
        intro i j hi hj hij p hp q hq
        rw [List.getElem_mapIdx] at hp hq
        obtain ⟨p, -, rfl⟩ := List.mem_map.mp hp
        obtain ⟨q, -, rfl⟩ := List.mem_map.mp hq
        exact List.cons_lt_cons_iff.mpr (.inl hij)

theorem nodesOf_eq_flatten (es : List Expr) : nodesOf es = (es.map nodes).flatten := by
  induction es with
  | nil => rfl
  | cons e es ih => rw [nodesOf, ih, List.map_cons, List.flatten_cons]

/-- The nodes are the subexpressions at the positions, in order. -/
theorem map_subexpr?_positions (e : Expr) : e.positions.map e.subexpr? = e.nodes.map some := by
  induction e using childrenInduction with
  | step e ih =>
      have hchildren : (e.children.mapIdx fun i f => f.positions.map (i :: ·)).map
          (List.map e.subexpr?) = (e.children.map nodes).map (List.map some) := by
        apply List.ext_getElem
        · simp
        · intro i hi _
          have hi : i < e.children.length := by simpa using hi
          have hcons : (e.subexpr? ∘ fun p => i :: p) = (e.children[i]).subexpr? := by
            funext p
            simp [hi]
          simp only [List.getElem_map, List.getElem_mapIdx, List.map_map, hcons]
          exact ih _ (List.getElem_mem hi)
      rw [positions_eq, nodes_eq, nodesOf_eq_flatten, List.map_cons, List.map_cons,
        List.map_flatten, List.map_flatten, hchildren, subexpr?_nil]

theorem length_positions (e : Expr) : e.positions.length = e.nodeCount := by
  rw [nodeCount, ← List.length_map e.subexpr?, map_subexpr?_positions, List.length_map]

theorem mem_nodes_iff : f ∈ e.nodes ↔ ∃ p, e.subexpr? p = some f := by
  have hmap : some f ∈ e.nodes.map some ↔ f ∈ e.nodes :=
    List.mem_map_of_injective fun _ _ => Option.some.inj
  rw [← hmap, ← map_subexpr?_positions, List.mem_map]
  constructor
  · rintro ⟨p, -, hp⟩
    exact ⟨p, hp⟩
  · rintro ⟨p, hp⟩
    exact ⟨p, mem_positions_iff.mpr ⟨f, hp⟩, hp⟩

/-! ### Depth -/

theorem depth_eq (e : Expr) : e.depth = 1 + depthOf e.children := by
  cases e with
  | var _ indices | param _ indices => cases indices <;> simp [depth, depthOf, children]
  | _ => simp [depth, depthOf, children]

theorem depth_le_depthOf {es : List Expr} (hf : f ∈ es) : f.depth ≤ depthOf es := by
  induction es with
  | nil => cases hf
  | cons g gs ih =>
      rw [depthOf]
      obtain rfl | hf := List.mem_cons.mp hf
      · exact Nat.le_max_left ..
      · exact Nat.le_trans (ih hf) (Nat.le_max_right ..)

theorem exists_depth_eq_depthOf {es : List Expr} (h : es ≠ []) : ∃ f ∈ es, f.depth = depthOf es := by
  induction es with
  | nil => exact absurd rfl h
  | cons g gs ih =>
      rw [depthOf]
      by_cases hgs : depthOf gs ≤ g.depth
      · exact ⟨g, List.mem_cons_self, (Nat.max_eq_left hgs).symm⟩
      · have hne : gs ≠ [] := by
          rintro rfl
          exact hgs (Nat.zero_le _)
        obtain ⟨f, hf, hdepth⟩ := ih hne
        refine ⟨f, List.mem_cons_of_mem g hf, ?_⟩
        rw [hdepth, Nat.max_eq_right (Nat.le_of_not_le hgs)]

theorem length_lt_depth (h : p ∈ e.positions) : p.length < e.depth := by
  induction p generalizing e with
  | nil =>
      rw [depth_eq]
      exact Nat.lt_add_right _ Nat.one_pos
  | cons i p ih =>
      obtain ⟨g, hg, hp⟩ := cons_mem_positions_iff.mp h
      have hlength := ih hp
      have hchild := depth_le_depthOf (List.mem_of_getElem? hg)
      rw [List.length_cons, depth_eq]
      omega

/-- Some position is as long as the depth allows. -/
theorem exists_length_add_one_eq_depth (e : Expr) :
    ∃ p ∈ e.positions, p.length + 1 = e.depth := by
  induction e using childrenInduction with
  | step e ih =>
      rw [depth_eq]
      by_cases hleaf : e.children = []
      · refine ⟨[], nil_mem_positions e, ?_⟩
        rw [hleaf]
        rfl
      · obtain ⟨f, hf, hdepth⟩ := exists_depth_eq_depthOf hleaf
        obtain ⟨p, hp, hlength⟩ := ih f hf
        obtain ⟨i, hi⟩ := List.mem_iff_getElem?.mp hf
        refine ⟨i :: p, cons_mem_positions_iff.mpr ⟨f, hi, hp⟩, ?_⟩
        rw [List.length_cons, hlength, hdepth, Nat.add_comm]

/-- Every node adds at most one to the depth. -/
theorem depth_le_nodeCount (e : Expr) : e.depth ≤ e.nodeCount := by
  induction e using childrenInduction with
  | step e ih =>
      have hchildren (es : List Expr) (h : ∀ f ∈ es, f.depth ≤ f.nodeCount) :
          depthOf es ≤ (nodesOf es).length := by
        induction es with
        | nil => exact Nat.le_refl 0
        | cons f fs ihs =>
            obtain ⟨hf, hfs⟩ := List.forall_mem_cons.mp h
            have hfs := ihs hfs
            rw [nodeCount] at hf
            rw [depthOf, nodesOf, List.length_append]
            omega
      have hsum := hchildren e.children ih
      rw [depth_eq, nodeCount, nodes_eq, List.length_cons]
      omega

/-! ### Fields -/

/-- An expression stands in a field of a node: it is one of the indices of a reference, an operand,
or the body of a sum or product. -/
inductive IsField : Expr → Expr → Prop
  | varIndex {n : Symbol} {indices : List Expr} {f : Expr} (h : f ∈ indices) :
    IsField f (.var n (some indices))
  | paramIndex {n : Symbol} {indices : List Expr} {f : Expr} (h : f ∈ indices) :
    IsField f (.param n (some indices))
  | negated (e : Expr) : IsField e (.neg e)
  | term {terms : List Expr} {f : Expr} (h : f ∈ terms) : IsField f (.add terms)
  | factor {factors : List Expr} {f : Expr} (h : f ∈ factors) : IsField f (.mul factors)
  | num (num den : Expr) : IsField num (.div num den)
  | den (num den : Expr) : IsField den (.div num den)
  | base (base exponent : Expr) : IsField base (.pow base exponent)
  | exponent (base exponent : Expr) : IsField exponent (.pow base exponent)
  | summand (i : Symbol) (domain : List Symbol) (body : Expr) : IsField body (.sum i domain body)
  | multiplied (i : Symbol) (domain : List Symbol) (body : Expr) : IsField body (.prod i domain body)
  | lhs (lhs rhs : Expr) : IsField lhs (.eq lhs rhs)
  | rhs (lhs rhs : Expr) : IsField rhs (.eq lhs rhs)

/-- The children are what stands in the fields. -/
theorem isField_iff_mem_children : IsField f e ↔ f ∈ e.children := by
  constructor
  · intro h
    cases h with
    | varIndex h | paramIndex h | term h | factor h => exact h
    | negated | num | base | summand | multiplied | lhs => exact List.mem_cons_self
    | den | exponent | rhs => exact List.mem_cons_of_mem _ List.mem_cons_self
  · intro h
    cases e with
    | var n indices =>
        cases indices with
        | none => cases h
        | some es => exact .varIndex h
    | param n indices =>
        cases indices with
        | none => cases h
        | some es => exact .paramIndex h
    | neg a =>
        obtain rfl : f = a := List.mem_singleton.mp h
        exact .negated f
    | add es => exact .term h
    | mul es => exact .factor h
    | div a b =>
        obtain rfl | rfl : f = a ∨ f = b := by simpa [children] using h
        · exact .num f b
        · exact .den a f
    | pow a b =>
        obtain rfl | rfl : f = a ∨ f = b := by simpa [children] using h
        · exact .base f b
        · exact .exponent a f
    | sum i domain body =>
        obtain rfl : f = body := List.mem_singleton.mp h
        exact .summand i domain f
    | prod i domain body =>
        obtain rfl : f = body := List.mem_singleton.mp h
        exact .multiplied i domain f
    | eq a b =>
        obtain rfl | rfl : f = a ∨ f = b := by simpa [children] using h
        · exact .lhs f b
        · exact .rhs a f
    | index | const | raw => cases h

/-- What stands in fields, or in fields of what does, is what stands below the root. -/
theorem transGen_isField_iff :
    Relation.TransGen IsField f e ↔ ∃ p, p ≠ [] ∧ e.subexpr? p = some f := by
  constructor
  · intro h
    induction h with
    | single h =>
        obtain ⟨i, hi⟩ := List.mem_iff_getElem?.mp (isField_iff_mem_children.mp h)
        exact ⟨[i], by simp, by simp [hi]⟩
    | tail _ h ih =>
        obtain ⟨p, -, hp⟩ := ih
        obtain ⟨i, hi⟩ := List.mem_iff_getElem?.mp (isField_iff_mem_children.mp h)
        exact ⟨i :: p, by simp, subexpr?_cons_eq_some_iff.mpr ⟨_, hi, hp⟩⟩
  · rintro ⟨p, hne, hp⟩
    induction p generalizing e with
    | nil => exact absurd rfl hne
    | cons i p ih =>
        obtain ⟨g, hg, hp⟩ := subexpr?_cons_eq_some_iff.mp hp
        have hfield : IsField g e := isField_iff_mem_children.mpr (List.mem_of_getElem? hg)
        by_cases hnil : p = []
        · subst hnil
          obtain rfl : g = f := Option.some.inj hp
          exact .single hfield
        · exact (ih hnil hp).tail hfield

/-! ### Names -/

/-- A variable of the name stands at the position. -/
def HasVarAt (e : Expr) (n : Symbol) (p : List Nat) : Prop :=
  ∃ indices, e.subexpr? p = some (.var n indices)

/-- A parameter of the name stands at the position. -/
def HasParamAt (e : Expr) (n : Symbol) (p : List Nat) : Prop :=
  ∃ indices, e.subexpr? p = some (.param n indices)

/-- A sum or product that binds the index stands at the position. -/
def BindsAt (e : Expr) (n : Symbol) (p : List Nat) : Prop :=
  ∃ domain body, e.subexpr? p = some (.sum n domain body) ∨ e.subexpr? p = some (.prod n domain body)

theorem varName?_eq_some_iff : e.varName? = some n ↔ ∃ indices, e = .var n indices := by
  cases e <;> simp [varName?]

theorem paramName?_eq_some_iff : e.paramName? = some n ↔ ∃ indices, e = .param n indices := by
  cases e <;> simp [paramName?]

theorem boundIndex?_eq_some_iff :
    e.boundIndex? = some n ↔ ∃ domain body, e = .sum n domain body ∨ e = .prod n domain body := by
  cases e <;> simp [boundIndex?]

theorem hasVarAt_iff : e.HasVarAt n p ↔ ∃ f, e.subexpr? p = some f ∧ f.varName? = some n := by
  simp only [HasVarAt, varName?_eq_some_iff]
  grind

theorem hasParamAt_iff :
    e.HasParamAt n p ↔ ∃ f, e.subexpr? p = some f ∧ f.paramName? = some n := by
  simp only [HasParamAt, paramName?_eq_some_iff]
  grind

theorem bindsAt_iff : e.BindsAt n p ↔ ∃ f, e.subexpr? p = some f ∧ f.boundIndex? = some n := by
  simp only [BindsAt, boundIndex?_eq_some_iff]
  grind

/-- The names that the nodes have in one way are those at the positions. -/
theorem mem_names_iff {name? : Expr → Option Symbol} :
    n ∈ sortedDistinct (e.nodes.filterMap name?) ↔
      ∃ p f, e.subexpr? p = some f ∧ name? f = some n := by
  simp only [mem_sortedDistinct, List.mem_filterMap, mem_nodes_iff]
  constructor
  · rintro ⟨f, ⟨p, hp⟩, hf⟩
    exact ⟨p, f, hp, hf⟩
  · rintro ⟨p, f, hp, hf⟩
    exact ⟨f, ⟨p, hp⟩, hf⟩

theorem mem_varNames_iff : n ∈ e.varNames ↔ ∃ p, e.HasVarAt n p := by
  simp only [hasVarAt_iff]
  exact mem_names_iff

theorem mem_paramNames_iff : n ∈ e.paramNames ↔ ∃ p, e.HasParamAt n p := by
  simp only [hasParamAt_iff]
  exact mem_names_iff

theorem mem_boundIndices_iff : n ∈ e.boundIndices ↔ ∃ p, e.BindsAt n p := by
  simp only [bindsAt_iff]
  exact mem_names_iff

/-- **The nodes are visited at the positions, each once, in lexicographic order.** So there are as
many nodes as positions, the depth is the length of the longest position and one, and it is at most
the number of nodes. A name is reported exactly if a node of its kind stands at some position, and
everything below the root that stands in a field, or in a field of what does, stands at a position. -/
theorem nodes_at_positions (e : Expr) :
    (e.positions.Pairwise (· < ·) ∧ ∀ p, p ∈ e.positions ↔ ∃ f, e.subexpr? p = some f) ∧
    e.nodes.map some = e.positions.map e.subexpr? ∧
    e.nodeCount = e.positions.length ∧
    ((∃ p ∈ e.positions, e.depth = p.length + 1) ∧ ∀ p ∈ e.positions, p.length + 1 ≤ e.depth) ∧
    e.depth ≤ e.nodeCount ∧
    (∀ n, (n ∈ e.varNames ↔ ∃ p, e.HasVarAt n p) ∧ (n ∈ e.paramNames ↔ ∃ p, e.HasParamAt n p) ∧
      (n ∈ e.boundIndices ↔ ∃ p, e.BindsAt n p)) ∧
    ∀ f, Relation.TransGen IsField f e ↔ ∃ p, p ≠ [] ∧ e.subexpr? p = some f := by
  obtain ⟨p, hp, hdeepest⟩ := exists_length_add_one_eq_depth e
  exact ⟨⟨pairwise_positions e, fun p => mem_positions_iff⟩, (map_subexpr?_positions e).symm,
    (length_positions e).symm, ⟨⟨p, hp, hdeepest.symm⟩, fun p hp => length_lt_depth hp⟩,
    depth_le_nodeCount e, fun n => ⟨mem_varNames_iff, mem_paramNames_iff, mem_boundIndices_iff⟩,
    fun f => transGen_isField_iff⟩

end Equilibrium.Expr
