import Equilibrium.Sets
import Equilibrium.Proofs.Checks
import Equilibrium.Proofs.Repeats

/-!
# Core sets and their members

Validation stops at the first empty core set in canonical order, if there is one
(`Sets.validate_eq_error_iff`). What a core set lists more than once is given by the second places
of its members, in order (`Sets.duplicates_by_second_place`). -/

namespace Equilibrium.Sets

variable {s : Sets} {k : SetKind} {n : Symbol}

theorem contains_eq_true_iff : s.contains k n = true ↔ n ∈ s.members k := List.contains_iff_mem

/-! ### Empty sets -/

theorem firstEmpty?_eq_some_iff :
    s.firstEmpty? = some k ↔ IsFirst (fun k => s.members k = []) SetKind.all k := by
  have hempty (k : SetKind) : (s.members k).isEmpty = decide (s.members k = []) := by
    cases s.members k <;> rfl
  simp only [isFirst_iff_find?, firstEmpty?, hempty]

theorem firstEmpty?_eq_none_iff : s.firstEmpty? = none ↔ ∀ k, s.members k ≠ [] := by
  have hall (k : SetKind) : k ∈ SetKind.all := by cases k <;> decide
  simp [firstEmpty?, hall]

theorem validate_eq_ok_iff : s.validate = .ok () ↔ ∀ k, s.members k ≠ [] := by
  rw [← firstEmpty?_eq_none_iff, validate]
  cases s.firstEmpty? with
  | none => simp
  | some k => simp

theorem validate_eq_error_iff {e : ValidationError} :
    s.validate = .error e ↔ ∃ k, IsFirst (fun k => s.members k = []) SetKind.all k ∧ e = .emptySet k := by
  simp only [← firstEmpty?_eq_some_iff, validate]
  cases s.firstEmpty? with
  | none => simp
  | some k => simp [eq_comm]

/-- If a core set is empty, one of them is the first. -/
theorem exists_isFirst_empty (h : ∃ k, s.members k = []) :
    ∃ k, IsFirst (fun k => s.members k = []) SetKind.all k := by
  obtain ⟨k, hk⟩ := h
  have hne : s.firstEmpty? ≠ none := fun hnone => firstEmpty?_eq_none_iff.mp hnone k hk
  obtain ⟨j, hj⟩ := Option.ne_none_iff_exists'.mp hne
  exact ⟨j, firstEmpty?_eq_some_iff.mp hj⟩

theorem head?_emptyKinds (s : Sets) : s.emptyKinds.head? = s.firstEmpty? := List.head?_filter

theorem emptyKinds_eq_nil_iff : s.emptyKinds = [] ↔ ∀ k, s.members k ≠ [] := by
  rw [← List.head?_eq_none_iff, head?_emptyKinds, firstEmpty?_eq_none_iff]

/-! ### Repeated members -/

/-- **The repeats of a core set are the members with a second place, in the order of those places.**
These are the members that stand at least twice, each of them has just one second place, and each is
listed once; there are none exactly if the members are distinct. -/
theorem duplicates_by_second_place (s : Sets) (k : SetKind) :
    (∀ n, n ∈ s.duplicates k ↔ 2 ≤ (s.members k).count n) ∧
    (∀ n, n ∈ s.duplicates k ↔ ∃! i, IsSecond (s.members k) n i) ∧
    (s.duplicates k).Nodup ∧
    ((s.duplicates k).Pairwise fun a b =>
      ∃ i j, IsSecond (s.members k) a i ∧ IsSecond (s.members k) b j ∧ i < j) ∧
    (s.duplicates k = [] ↔ (s.members k).Nodup) :=
  ⟨fun _ => mem_repeated_iff, fun _ => mem_repeated_iff_existsUnique, nodup_repeated (s.members k),
    pairwise_repeated (s.members k), repeated_eq_nil_iff⟩

/-- The second place counts, not the first one. -/
example : duplicates ⟨["food", "wood", "wood", "food", "wood"], [], [], []⟩ .commodities =
    ["wood", "food"] := by decide

end Equilibrium.Sets
