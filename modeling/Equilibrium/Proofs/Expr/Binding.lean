import Equilibrium.Proofs.Expr.Positions

/-!
# Lexical scoping

An index is free at a position if it stands there and nothing above the position binds it. The free
indices of an expression are those that are free at some position (`Expr.freeIndices_lexical`). -/

namespace Equilibrium.Expr

variable {e : Expr} {n : Symbol} {i : Nat} {p : List Nat}

/-- The index stands at the position, and nothing on the way there binds it. -/
def IsFreeAt (e : Expr) (n : Symbol) (p : List Nat) : Prop :=
  e.subexpr? p = some (.index n) ∧ ∀ q, q <+: p → q ≠ p → ¬ e.BindsAt n q

/-! ### From the root down -/

theorem bindsAt_nil : e.BindsAt n [] ↔ e.boundIndex? = some n := by
  rw [bindsAt_iff]
  exact ⟨fun ⟨_, hf, hn⟩ => Option.some.inj hf ▸ hn, fun hn => ⟨e, rfl, hn⟩⟩

theorem bindsAt_cons {f : Expr} (hf : e.children[i]? = some f) :
    e.BindsAt n (i :: p) ↔ f.BindsAt n p := by
  simp only [bindsAt_iff, subexpr?_cons, hf, Option.bind_some]

theorem isFreeAt_nil : e.IsFreeAt n [] ↔ e = .index n := by
  constructor
  · rintro ⟨h, -⟩
    exact Option.some.inj h
  · rintro rfl
    refine ⟨rfl, fun q hq hne => ?_⟩
    exact absurd (List.prefix_nil.mp hq) hne

/-- A free index of a child is free in the node above it unless that binds it. -/
theorem isFreeAt_cons_iff :
    e.IsFreeAt n (i :: p) ↔
      ∃ f, e.children[i]? = some f ∧ f.IsFreeAt n p ∧ e.boundIndex? ≠ some n := by
  constructor
  · rintro ⟨h, hbinds⟩
    obtain ⟨f, hf, hp⟩ := subexpr?_cons_eq_some_iff.mp h
    refine ⟨f, hf, ⟨hp, fun q hq hne => ?_⟩, ?_⟩
    · rw [← bindsAt_cons hf]
      exact hbinds (i :: q) (List.cons_prefix_cons.mpr ⟨rfl, hq⟩) fun heq => hne (List.cons.inj heq).2
    · rw [ne_eq, ← bindsAt_nil]
      exact hbinds [] List.nil_prefix (List.cons_ne_nil i p).symm
  · rintro ⟨f, hf, ⟨hp, hbinds⟩, hroot⟩
    refine ⟨subexpr?_cons_eq_some_iff.mpr ⟨f, hf, hp⟩, fun q hq hne => ?_⟩
    cases q with
    | nil => rwa [bindsAt_nil]
    | cons j q =>
        obtain ⟨rfl, htail⟩ := List.cons_prefix_cons.mp hq
        rw [bindsAt_cons hf]
        exact hbinds q htail fun heq => hne (heq ▸ rfl)

/-! ### Free indices -/

theorem mem_freeIndices_iff_exists : n ∈ e.freeIndices ↔ ∃ p, e.IsFreeAt n p := by
  induction e using childrenInduction with
  | step e ih =>
      rw [mem_freeIndices_iff]
      constructor
      · rintro (h | ⟨f, hf, hn, hroot⟩)
        · exact ⟨[], isFreeAt_nil.mpr h⟩
        · obtain ⟨p, hp⟩ := (ih f hf).mp hn
          obtain ⟨i, hi⟩ := List.mem_iff_getElem?.mp hf
          exact ⟨i :: p, isFreeAt_cons_iff.mpr ⟨f, hi, hp, hroot⟩⟩
      · rintro ⟨_ | ⟨i, p⟩, hp⟩
        · exact .inl (isFreeAt_nil.mp hp)
        · obtain ⟨f, hf, hp, hroot⟩ := isFreeAt_cons_iff.mp hp
          have hmem := List.mem_of_getElem? hf
          exact .inr ⟨f, hmem, (ih f hmem).mpr ⟨p, hp⟩, hroot⟩

/-- **Scoping is lexical.** An index is free in an expression exactly if it stands at some position
and no sum or product above that position binds it. So a name that is only bound, or only a member
of domains, is not free, and an index that stands somewhere is free or bound. -/
theorem freeIndices_lexical (e : Expr) (n : Symbol) :
    (n ∈ e.freeIndices ↔ ∃ p, e.subexpr? p = some (.index n) ∧
      ∀ q, q <+: p → q ≠ p → ¬ e.BindsAt n q) ∧
    ((∀ p, e.subexpr? p ≠ some (.index n)) → n ∉ e.freeIndices) ∧
    ∀ p, e.subexpr? p = some (.index n) → n ∉ e.freeIndices → n ∈ e.boundIndices := by
  refine ⟨mem_freeIndices_iff_exists, fun habsent hfree => ?_, fun p hp hfree => ?_⟩
  · obtain ⟨p, hp, -⟩ := mem_freeIndices_iff_exists.mp hfree
    exact habsent p hp
  · rw [mem_boundIndices_iff]
    by_contra hbound
    refine hfree (mem_freeIndices_iff_exists.mpr ⟨p, hp, fun q _ _ hq => hbound ⟨q, hq⟩⟩)

/-- `c` is bound twice on the way to its first place, and nowhere above its last one; `d` is bound
where it stands, and `h` is a member of a domain. -/
def nestedScopes : Expr :=
  .add [.sum "c" ["agr"] (.prod "c" ["h"] (.var "QD" (some [.index "c"]))),
    .sum "d" ["h"] (.param "a" (some [.index "c", .index "d"]))]

theorem freeIndices_nestedScopes :
    "c" ∈ nestedScopes.freeIndices ∧ "d" ∈ nestedScopes.boundIndices ∧
      "d" ∉ nestedScopes.freeIndices ∧ "h" ∉ nestedScopes.freeIndices := by
  have hd : "d" ∉ nestedScopes.freeIndices := by decide
  have hc : nestedScopes.IsFreeAt "c" [1, 0, 0] := by
    refine isFreeAt_cons_iff.mpr ⟨_, rfl, isFreeAt_cons_iff.mpr ⟨_, rfl, ?_, by decide⟩, by decide⟩
    exact isFreeAt_cons_iff.mpr ⟨_, rfl, isFreeAt_nil.mpr rfl, by decide⟩
  refine ⟨(freeIndices_lexical nestedScopes "c").1.mpr ⟨_, hc⟩,
    (freeIndices_lexical nestedScopes "d").2.2 [1, 0, 1] rfl hd, hd,
    (freeIndices_lexical nestedScopes "h").2.1 fun p hp => ?_⟩
  have hmem : Expr.index "h" ∈ nestedScopes.nodes := mem_nodes_iff.mpr ⟨p, hp⟩
  simp [nestedScopes, nodes, nodesOf] at hmem

end Equilibrium.Expr
