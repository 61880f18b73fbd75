import Mathlib.Data.List.Basic

/-!
# Results and errors

A chain of checks fails with the error of the first check that fails, and a check of a list with the
error about its first offending member. `IsFirst` names that member; `Gives` says under which
condition there is a result at all. -/

namespace Equilibrium

/-! ### First members -/

section first

variable {α : Type} {P : α → Prop} {l : List α} {a b : α}

/-- `a` stands somewhere in the list, has the property, and nothing before it there has. -/
def IsFirst (P : α → Prop) (l : List α) (a : α) : Prop :=
  ∃ before after, l = before ++ a :: after ∧ P a ∧ ∀ b ∈ before, ¬ P b

theorem IsFirst.mem (h : IsFirst P l a) : a ∈ l := by
  obtain ⟨before, after, rfl, -, -⟩ := h
  exact List.mem_append_right before List.mem_cons_self

theorem IsFirst.property (h : IsFirst P l a) : P a := by
  obtain ⟨before, after, rfl, ha, -⟩ := h
  exact ha

theorem isFirst_iff_find? [DecidablePred P] :
    IsFirst P l a ↔ l.find? (fun b => decide (P b)) = some a := by
  rw [List.find?_eq_some_iff_append]
  constructor
  · rintro ⟨before, after, rfl, ha, hbefore⟩
    exact ⟨decide_eq_true ha, before, after, rfl, fun b hb => by simpa using hbefore b hb⟩
  · rintro ⟨ha, before, after, rfl, hbefore⟩
    exact ⟨before, after, rfl, of_decide_eq_true ha, fun b hb => by simpa using hbefore b hb⟩

theorem isFirst_map {β : Type} {f : α → β} {P : β → Prop} {b : β} :
    IsFirst P (l.map f) b ↔ ∃ a, IsFirst (fun a => P (f a)) l a ∧ f a = b := by
  constructor
  · rintro ⟨before, after, hsplit, hb, hbefore⟩
    obtain ⟨before, others, rfl, rfl, hothers⟩ := List.map_eq_append_iff.mp hsplit
    obtain ⟨a, after, rfl, rfl, rfl⟩ := List.map_eq_cons_iff.mp hothers
    exact ⟨a, ⟨before, after, rfl, hb, fun c hc => hbefore (f c) (List.mem_map_of_mem hc)⟩, rfl⟩
  · rintro ⟨a, ⟨before, after, rfl, ha, hbefore⟩, rfl⟩
    exact ⟨before.map f, after.map f, List.map_append, ha, List.forall_mem_map.mpr hbefore⟩

end first

/-! ### Chains of checks -/

section except

variable {ε α β γ : Type}

theorem ok_bind (a : α) (f : α → Except ε β) : Except.ok a >>= f = f a := rfl

theorem bind_eq_ok_iff {x : Except ε α} {f : α → Except ε β} {b : β} :
    x >>= f = .ok b ↔ ∃ a, x = .ok a ∧ f a = .ok b := by
  cases x with
  | error e => exact ⟨nofun, fun ⟨_, h, _⟩ => nomatch h⟩
  | ok a => exact ⟨fun h => ⟨a, rfl, h⟩, fun ⟨_, h, hb⟩ => by cases h; exact hb⟩

theorem toOption_eq_some_iff {x : Except ε α} {a : α} : x.toOption = some a ↔ x = .ok a := by
  cases x with
  | error e => exact ⟨nofun, nofun⟩
  | ok b => exact ⟨fun h => congrArg Except.ok (Option.some.inj h), fun h => by rw [h]; rfl⟩

/-- What follows a check decides if the check passes. -/
theorem then_eq_ok_iff {x : Except ε Unit} {y : Except ε β} {b : β} :
    (x >>= fun _ => y) = .ok b ↔ x = .ok () ∧ y = .ok b := by
  cases x with
  | error e => exact ⟨nofun, fun h => nomatch h.1⟩
  | ok u => exact ⟨fun h => ⟨rfl, h⟩, fun h => h.2⟩

theorem then_eq_error_iff {x : Except ε Unit} {y : Except ε β} {e : ε} :
    (x >>= fun _ => y) = .error e ↔ x = .error e ∨ x = .ok () ∧ y = .error e := by
  cases x with
  | error e' =>
      refine ⟨fun h => .inl (by cases h; rfl), ?_⟩
      rintro (h | ⟨h, -⟩)
      · cases h
        rfl
      · cases h
  | ok u => exact ⟨fun h => .inr ⟨rfl, h⟩, fun h => h.elim nofun And.right⟩

variable {check : α → Except ε Unit} {l : List α}

theorem forM_cons (a : α) (l : List α) :
    (a :: l).forM check = check a >>= fun _ => l.forM check := rfl

/-- A check passes a list if it passes every member. -/
theorem forM_eq_ok_iff : l.forM check = .ok () ↔ ∀ a ∈ l, check a = .ok () := by
  induction l with
  | nil => exact ⟨nofun, fun _ => rfl⟩
  | cons a l ih =>
      rw [forM_cons, then_eq_ok_iff, List.forall_mem_cons, ih]

/-- A check of a list fails with the error about the first member that it does not pass. -/
theorem forM_eq_error_iff {e : ε} :
    l.forM check = .error e ↔ ∃ a, IsFirst (fun b => check b ≠ .ok ()) l a ∧ check a = .error e := by
  induction l with
  | nil => exact ⟨nofun, fun ⟨a, h, _⟩ => nomatch h.mem⟩
  | cons a l ih =>
      rw [forM_cons, then_eq_error_iff]
      constructor
      · rintro (ha | ⟨ha, hl⟩)
        · exact ⟨a, ⟨[], l, rfl, by simp [ha], by simp⟩, ha⟩
        · obtain ⟨b, ⟨before, after, rfl, hb, hbefore⟩, he⟩ := ih.mp hl
          refine ⟨b, ⟨a :: before, after, rfl, hb, ?_⟩, he⟩
          intro c hc
          obtain rfl | hc := List.mem_cons.mp hc
          · exact fun h => h ha
          · exact hbefore c hc
      · rintro ⟨b, ⟨before, after, hl, hb, hbefore⟩, he⟩
        cases before with
        | nil =>
            obtain ⟨rfl, rfl⟩ := List.cons_eq_cons.mp hl
            exact .inl he
        | cons c before =>
            obtain ⟨rfl, rfl⟩ := List.cons_eq_cons.mp hl
            have ha : check a = .ok () := Classical.not_not.mp (hbefore a List.mem_cons_self)
            refine .inr ⟨ha, ih.mpr ⟨b, ⟨before, after, rfl, hb, ?_⟩, he⟩⟩
            exact fun c hc => hbefore c (List.mem_cons_of_mem a hc)

/-! ### Conditional results -/

/-- There is the result `a` under a condition, and an error otherwise. -/
def Gives (p : Prop) (x : Except ε α) (a : α) : Prop :=
  (p → x = .ok a) ∧ (¬ p → ∃ e, x = .error e)

variable {p q : Prop} {x : Except ε α} {y : Except ε β} {a : α} {b : β}

theorem gives_ok (a : α) : Gives True (.ok a : Except ε α) a :=
  ⟨fun _ => rfl, fun h => absurd trivial h⟩

theorem Gives.congr (h : Gives p x a) (hpq : p ↔ q) : Gives q x a := by
  rwa [← propext hpq]

theorem Gives.eq_ok_iff (h : Gives p x a) : x = .ok a ↔ p := by
  refine ⟨fun hx => Classical.byContradiction fun hp => ?_, h.1⟩
  obtain ⟨e, he⟩ := h.2 hp
  rw [hx] at he
  cases he

theorem Gives.bind {f : α → Except ε β} (hx : Gives p x a) (hf : Gives q (f a) b) :
    Gives (p ∧ q) (x >>= f) b := by
  by_cases hp : p
  · rw [hx.1 hp]
    exact ⟨fun h => hf.1 h.2, fun h => hf.2 fun hq => h ⟨hp, hq⟩⟩
  · obtain ⟨e, he⟩ := hx.2 hp
    rw [he]
    exact ⟨fun h => absurd h.1 hp, fun _ => ⟨e, rfl⟩⟩

theorem Gives.map (hx : Gives p x a) (f : α → β) : Gives p (x >>= fun a => .ok (f a)) (f a) :=
  (hx.bind (gives_ok (f a))).congr (Iff.of_eq (and_true p))

/-- `Gives.map` for a function on results. -/
theorem Gives.onResult (hx : Gives p x a) (f : α → β) : Gives p (x.map f) (f a) := hx.map f

theorem Gives.map₂ (hx : Gives p x a) (hy : Gives q y b) (f : α → β → γ) :
    Gives (p ∧ q) (x >>= fun a => y >>= fun b => .ok (f a b)) (f a b) :=
  hx.bind (hy.map (f a))

/-! ### Properties of results -/

/-- Every result has the property. -/
def Ensures (x : Except ε α) (P : α → Prop) : Prop := ∀ a, x = .ok a → P a

section ensures

variable {P : α → Prop} {Q : β → Prop}

theorem ensures_ok {a : α} (h : P a) : Ensures (.ok a : Except ε α) P := by
  intro b hb
  cases hb
  exact h

theorem ensures_error (e : ε) : Ensures (.error e : Except ε α) P := nofun

theorem ensures_true (x : Except ε α) : Ensures x fun _ => True := fun _ _ => trivial

theorem Ensures.mono {P' : α → Prop} (h : Ensures x P) (hP : ∀ a, P a → P' a) : Ensures x P' :=
  fun a ha => hP a (h a ha)

theorem Ensures.bind {f : α → Except ε β} (hx : Ensures x P) (hf : ∀ a, P a → Ensures (f a) Q) :
    Ensures (x >>= f) Q := by
  intro b hb
  obtain ⟨a, ha, hb⟩ := bind_eq_ok_iff.mp hb
  exact hf a (hx a ha) b hb

theorem ensures_mapM {l : List γ} {f : γ → Except ε α} (h : ∀ c ∈ l, Ensures (f c) P) :
    Ensures (l.mapM f) fun as => ∀ a ∈ as, P a := by
  induction l with
  | nil => exact ensures_ok nofun
  | cons c l ih =>
      rw [List.mapM_cons]
      refine (h c List.mem_cons_self).bind fun a ha => ?_
      refine (ih fun d hd => h d (List.mem_cons_of_mem c hd)).bind fun as has => ?_
      exact ensures_ok (List.forall_mem_cons.mpr ⟨ha, has⟩)

end ensures

end except

end Equilibrium
