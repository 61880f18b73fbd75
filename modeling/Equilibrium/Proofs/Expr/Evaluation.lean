import Equilibrium.Proofs.Expr.Scope

/-!
# Values of expressions

A compositional evaluation has a function for each kind of node (`Expr.Algebra`) and looks up
references and indices in an environment; a sum and a product evaluate their body once for each
member of the domain, with the index bound to the member. The references and the free indices that
an expression reports are all it looks up (`Expr.value_eq_of_agreeOn`). -/

namespace Equilibrium.Expr

/-! ### Evaluation -/

section evaluation

variable {β ν : Type*}

/-- What references and indices stand for: the former have values in `ν`, which may depend on the
values of their indices, the latter bindings in `β`. -/
structure Environment (β ν : Type*) where
  var : Symbol → Option (List ν) → ν
  param : Symbol → Option (List ν) → ν
  index : Symbol → β

/-- The environment with one index bound anew. -/
def Environment.rebind (ρ : Environment β ν) (i : Symbol) (b : β) : Environment β ν :=
  { ρ with index := fun j => if j = i then b else ρ.index j }

/-- What the nodes of each kind make of the values of their children. -/
structure Algebra (β ν : Type*) where
  /-- The value of an index with this binding. -/
  index : β → ν
  /-- The binding to a member of a domain. -/
  member : Symbol → β
  const : Binary64 → ν
  raw : String → ν
  neg : ν → ν
  add : List ν → ν
  mul : List ν → ν
  div : ν → ν → ν
  pow : ν → ν → ν
  /-- The values are those of the body, one for each member of the domain. -/
  sum : (index : Symbol) → (domain : List Symbol) → (values : List ν) → ν
  prod : (index : Symbol) → (domain : List Symbol) → (values : List ν) → ν
  eq : ν → ν → ν

mutual

/-- The value of an expression in an environment. -/
def value (A : Algebra β ν) (ρ : Environment β ν) : Expr → ν
  | .index i => A.index (ρ.index i)
  | .var n none => ρ.var n none
  | .var n (some indices) => ρ.var n (some (values A ρ indices))
  | .param n none => ρ.param n none
  | .param n (some indices) => ρ.param n (some (values A ρ indices))
  | .const x => A.const x
  | .raw t => A.raw t
  | .neg e => A.neg (value A ρ e)
  | .add terms => A.add (values A ρ terms)
  | .mul factors => A.mul (values A ρ factors)
  | .div num den => A.div (value A ρ num) (value A ρ den)
  | .pow base exponent => A.pow (value A ρ base) (value A ρ exponent)
  | .sum i domain body =>
    A.sum i domain (domain.map fun m => value A (ρ.rebind i (A.member m)) body)
  | .prod i domain body =>
    A.prod i domain (domain.map fun m => value A (ρ.rebind i (A.member m)) body)
  | .eq lhs rhs => A.eq (value A ρ lhs) (value A ρ rhs)

/-- The values of several expressions in one environment. -/
def values (A : Algebra β ν) (ρ : Environment β ν) : List Expr → List ν
  | [] => []
  | e :: es => value A ρ e :: values A ρ es

end

variable {A : Algebra β ν} {ρ σ : Environment β ν} {e f : Expr}

theorem values_eq_map (A : Algebra β ν) (ρ : Environment β ν) (es : List Expr) :
    values A ρ es = es.map (value A ρ) := by
  induction es with
  | nil => rfl
  | cons e es ih => rw [values, ih, List.map_cons]

/-! ### Agreement -/

/-- Two environments agree on the variables, on the parameters and on the free indices that an
expression reports. -/
structure AgreeOn (e : Expr) (ρ σ : Environment β ν) : Prop where
  var : ∀ n ∈ e.varNames, ∀ indices, ρ.var n indices = σ.var n indices
  param : ∀ n ∈ e.paramNames, ∀ indices, ρ.param n indices = σ.param n indices
  index : ∀ i ∈ e.freeIndices, ρ.index i = σ.index i

/-- Where the root binds nothing, the environments agree on the children. -/
theorem AgreeOn.child (h : AgreeOn e ρ σ) (he : e.boundIndex? = none) (hf : f ∈ e.children) :
    AgreeOn f ρ σ where
  var n hn := h.var n (varNames_subset hf hn)
  param n hn := h.param n (paramNames_subset hf hn)
  index i hi := by
    apply h.index
    rw [mem_freeIndices_iff, he]
    exact .inr ⟨f, hf, hi, nofun⟩

/-- Where the root binds an index, they agree on the children once both have bound it alike. -/
theorem AgreeOn.rebind (h : AgreeOn e ρ σ) {i : Symbol} (he : e.boundIndex? = some i)
    (hf : f ∈ e.children) (b : β) : AgreeOn f (ρ.rebind i b) (σ.rebind i b) where
  var n hn := h.var n (varNames_subset hf hn)
  param n hn := h.param n (paramNames_subset hf hn)
  index j hj := by
    unfold Environment.rebind
    by_cases hij : j = i
    · simp only [hij, if_true]
    · simp only [hij, if_false]
      apply h.index
      rw [mem_freeIndices_iff, he]
      refine .inr ⟨f, hf, hj, ?_⟩
      intro heq
      exact hij (Option.some.inj heq).symm

/-- **An expression looks up nothing but what it reports.** In two environments that agree on its
variables, its parameters and its free indices it has the same value, whatever else they hold. -/
theorem value_eq_of_agreeOn (A : Algebra β ν) (e : Expr) :
    ∀ ρ σ : Environment β ν, AgreeOn e ρ σ → value A ρ e = value A σ e := by
  induction e using childrenInduction with
  | step e ih =>
      intro ρ σ h
      have hchild (he : e.boundIndex? = none) (f : Expr) (hf : f ∈ e.children) :
          value A ρ f = value A σ f :=
        ih f hf ρ σ (h.child he hf)
      have hvalues (he : e.boundIndex? = none) :
          values A ρ e.children = values A σ e.children := by
        rw [values_eq_map, values_eq_map]
        exact List.map_congr_left (hchild he)
      have hbody {i : Symbol} (he : e.boundIndex? = some i) (f : Expr) (hf : f ∈ e.children)
          (domain : List Symbol) :
          (domain.map fun m => value A (ρ.rebind i (A.member m)) f) =
            domain.map fun m => value A (σ.rebind i (A.member m)) f :=
        List.map_congr_left fun m _ => ih f hf _ _ (h.rebind he hf (A.member m))
      cases e with
      | index i =>
          have hi : ρ.index i = σ.index i := h.index i (mem_freeIndices_iff.mpr (.inl rfl))
          rw [value, value, hi]
      | var n indices =>
          have hn (vs : Option (List ν)) : ρ.var n vs = σ.var n vs :=
            h.var n (mem_varNames_var n indices) vs
          cases indices with
          | none => rw [value, value, hn]
          | some es =>
              have hes : values A ρ es = values A σ es := hvalues rfl
              rw [value, value, hn, hes]
      | param n indices =>
          have hn (vs : Option (List ν)) : ρ.param n vs = σ.param n vs :=
            h.param n (mem_paramNames_param n indices) vs
          cases indices with
          | none => rw [value, value, hn]
          | some es =>
              have hes : values A ρ es = values A σ es := hvalues rfl
              rw [value, value, hn, hes]
      | const | raw => rw [value, value]
      | neg a => rw [value, value, hchild rfl a List.mem_cons_self]
      | add terms =>
          have hterms : values A ρ terms = values A σ terms := hvalues rfl
          rw [value, value, hterms]
      | mul factors =>
          have hfactors : values A ρ factors = values A σ factors := hvalues rfl
          rw [value, value, hfactors]
      | div a b | pow a b | eq a b =>
          have ha : value A ρ a = value A σ a := hchild rfl a List.mem_cons_self
          have hb : value A ρ b = value A σ b :=
            hchild rfl b (List.mem_cons_of_mem a List.mem_cons_self)
          rw [value, value, ha, hb]
      | sum i domain body | prod i domain body =>
          rw [value, value, hbody rfl body List.mem_cons_self]

end evaluation

/-! ### Example -/

/-- Naturals, with indices bound to symbols that count by their lengths. -/
def naturals : Algebra Symbol Nat where
  index := String.length
  member m := m
  const x := x.significand
  raw := String.length
  neg n := n
  add := List.foldr Nat.add 0
  mul := List.foldr Nat.mul 1
  div := Nat.div
  pow := Nat.pow
  sum _ _ := List.foldr Nat.add 0
  prod _ _ := List.foldr Nat.mul 1
  eq m n := if m = n then 1 else 0

/-- `c` is bound in the first factor and free in the second, and `d` is a domain member as well. -/
def shadowed : Expr :=
  .mul [.sum "c" ["agr", "d"] (.pow (.var "x" (some [.index "c"])) (.prod "d" ["c"] (.index "d"))),
    .param "x" (some [.index "c"])]

/-- `d`, which is bound wherever it stands, is bound to `binding`, and `y` has no place. -/
def surroundings (binding : Symbol) (y : Nat) : Environment Symbol Nat where
  var n indices := if n = "x" then (indices.getD []).foldr Nat.add 0 else y
  param n indices := if n = "x" then (indices.getD []).foldr Nat.add 1 else y
  index i := if i = "c" then "steel" else binding

theorem value_shadowed :
    AgreeOn shadowed (surroundings "agr" 0) (surroundings "" 7) ∧
    value naturals (surroundings "agr" 0) shadowed =
      value naturals (surroundings "" 7) shadowed := by
  have hvars : shadowed.varNames = ["x"] := by decide
  have hparams : shadowed.paramNames = ["x"] := by decide
  have hindices : shadowed.freeIndices = ["c"] := by decide
  have hagree : AgreeOn shadowed (surroundings "agr" 0) (surroundings "" 7) :=
    { var := by simp [hvars, surroundings]
      param := by simp [hparams, surroundings]
      index := by simp [hindices, surroundings] }
  exact ⟨hagree, value_eq_of_agreeOn naturals shadowed _ _ hagree⟩

end Equilibrium.Expr
