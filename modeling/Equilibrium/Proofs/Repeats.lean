import Mathlib.Data.List.Induction
import Mathlib.Data.List.Nodup
import Equilibrium.SymbolMap

/-!
# Repeated members

`repeated` goes through a list once. A further member at the end is added to the repeats if it
stands in the list already and is no repeat yet (`repeated_concat`), and everything else about
repeats is proved by induction from the end. Each repeat has one second place
(`mem_repeated_iff_existsUnique`), and the repeats are in the order of these
(`pairwise_repeated`). `sortedDistinct` drops repeats and nothing else
(`mem_sortedDistinct`), and what it keeps ascends (`pairwise_sortedDistinct`). -/

namespace Equilibrium

variable {names : List Symbol} {n : Symbol}

/-! ### Members without repeats -/

theorem mem_insertName {m : Symbol} (ms : List Symbol) :
    n ∈ sortedDistinct.insertName m ms ↔ n = m ∨ n ∈ ms := by
  induction ms with
  | nil => exact List.mem_cons
  | cons k ks ih =>
      unfold sortedDistinct.insertName
      split
      · exact List.mem_cons
      · split
        · rename_i hmk
          rw [hmk, List.mem_cons, ← or_assoc, or_self]
        · rw [List.mem_cons, ih, List.mem_cons, or_left_comm]

@[simp] theorem mem_sortedDistinct : n ∈ sortedDistinct names ↔ n ∈ names := by
  induction names with
  | nil => exact Iff.rfl
  | cons m ms ih =>
      show n ∈ sortedDistinct.insertName m (sortedDistinct ms) ↔ n ∈ m :: ms
      rw [mem_insertName, ih, List.mem_cons]

theorem pairwise_insertName (n : Symbol) {ms : List Symbol} (h : ms.Pairwise (· < ·)) :
    (sortedDistinct.insertName n ms).Pairwise (· < ·) := by
  induction ms with
  | nil => exact List.pairwise_singleton ..
  | cons k ks ih =>
      obtain ⟨hk, hks⟩ := List.pairwise_cons.mp h
      unfold sortedDistinct.insertName
      split
      next hnk =>
        refine List.pairwise_cons.mpr ⟨fun m hm => ?_, h⟩
        obtain rfl | hm := List.mem_cons.mp hm
        · exact hnk
        · exact String.lt_trans hnk (hk m hm)
      next hnk =>
        split
        · exact h
        next hne =>
          refine List.pairwise_cons.mpr ⟨fun m hm => ?_, ih hks⟩
          obtain rfl | hm := (mem_insertName ks).mp hm
          · exact symbol_lt_of_not_lt hnk hne
          · exact hk m hm

/-- Members without repeats ascend strictly. -/
theorem pairwise_sortedDistinct (names : List Symbol) : (sortedDistinct names).Pairwise (· < ·) := by
  induction names with
  | nil => exact List.Pairwise.nil
  | cons n ns ih => exact pairwise_insertName n ih

theorem nodup_sortedDistinct (names : List Symbol) : (sortedDistinct names).Nodup := by
  refine List.Pairwise.imp (fun {m n} hmn heq => ?_) (pairwise_sortedDistinct names)
  rw [heq] at hmn
  exact String.lt_irrefl n hmn

/-! ### Repeats -/

theorem step_fst (p : List Symbol × List Symbol) (n : Symbol) :
    (repeated.step p n).1 = if n ∉ p.1 then n :: p.1 else p.1 := by
  unfold repeated.step
  dsimp only
  split
  · rfl
  · split <;> rfl

theorem step_snd (p : List Symbol × List Symbol) (n : Symbol) :
    (repeated.step p n).2 = if n ∈ p.1 ∧ n ∉ p.2 then p.2 ++ [n] else p.2 := by
  unfold repeated.step
  dsimp only
  split <;> rename_i hseen
  · rw [if_neg fun h => hseen h.1]
  · rw [Classical.not_not] at hseen
    split <;> rename_i hfound
    · rw [if_neg fun h => h.2 hfound]
    · rw [if_pos ⟨hseen, hfound⟩]

theorem mem_seen_iff (names : List Symbol) :
    ∀ n, n ∈ (names.foldl repeated.step ([], [])).1 ↔ n ∈ names := by
  induction names using List.reverseRecOn with
  | nil => exact fun n => Iff.rfl
  | append_singleton names m ih =>
      intro n
      rw [List.foldl_concat, step_fst, List.mem_append, List.mem_singleton]
      simp only [ih]
      split <;> rename_i hm
      · rw [List.mem_cons, ih, or_comm]
      · rw [ih, or_iff_left_of_imp]
        rintro rfl
        exact Classical.not_not.mp hm

/-- What one more member at the end adds to the repeats. -/
theorem repeated_concat (names : List Symbol) (n : Symbol) :
    repeated (names ++ [n]) =
      if n ∈ names ∧ n ∉ repeated names then repeated names ++ [n] else repeated names := by
  rw [repeated, List.foldl_concat, step_snd]
  simp only [mem_seen_iff]
  rfl

theorem nodup_concat (names : List Symbol) (n : Symbol) :
    (names ++ [n]).Nodup ↔ names.Nodup ∧ n ∉ names := by
  rw [List.nodup_append_comm, List.singleton_append, List.nodup_cons, and_comm]

/-- Nothing is repeated exactly when the members are distinct. -/
theorem repeated_eq_nil_iff : repeated names = [] ↔ names.Nodup := by
  induction names using List.reverseRecOn with
  | nil => exact ⟨fun _ => List.nodup_nil, fun _ => rfl⟩
  | append_singleton names m ih =>
      rw [repeated_concat, nodup_concat]
      split <;> rename_i hm
      · exact ⟨fun h => absurd h (by simp), fun h => absurd hm.1 h.2⟩
      · rw [ih]
        refine ⟨fun h => ⟨h, fun hmem => hm ⟨hmem, ?_⟩⟩, And.left⟩
        rw [ih.mpr h]
        exact List.not_mem_nil

/-- A repeat stands at least twice. -/
theorem mem_repeated_iff : n ∈ repeated names ↔ 2 ≤ names.count n := by
  induction names using List.reverseRecOn with
  | nil => simp [repeated]
  | append_singleton names m ih =>
      have hmem : 0 < names.count n ↔ n ∈ names := List.count_pos_iff
      rw [repeated_concat, List.count_append, List.count_singleton]
      by_cases hmn : m = n
      · subst hmn
        rw [beq_self_eq_true, if_pos rfl]
        split <;> rename_i hm
        · simp only [List.mem_append, List.mem_singleton, or_true, true_iff]
          have hpos := hmem.mpr hm.1
          omega
        · rw [← hmem, ih] at hm
          rw [ih]
          omega
      · rw [beq_false_of_ne hmn, if_neg Bool.false_ne_true, Nat.add_zero, ← ih]
        split
        · rw [List.mem_append, List.mem_singleton, or_iff_left (Ne.symm hmn)]
        · exact Iff.rfl

/-- Each repeat comes once. -/
theorem nodup_repeated (names : List Symbol) : (repeated names).Nodup := by
  induction names using List.reverseRecOn with
  | nil => exact List.nodup_nil
  | append_singleton names m ih =>
      rw [repeated_concat]
      split <;> rename_i hm
      · exact (nodup_concat _ _).mpr ⟨ih, hm.2⟩
      · exact ih

/-! ### Second places -/

/-- `n` stands at the place, behind exactly one like it. -/
def IsSecond (names : List Symbol) (n : Symbol) (i : Nat) : Prop :=
  names[i]? = some n ∧ (names.take i).count n = 1

theorem IsSecond.lt_length {i : Nat} (h : IsSecond names n i) : i < names.length :=
  (List.getElem?_eq_some_iff.mp h.1).1

theorem IsSecond.concat {i : Nat} (h : IsSecond names n i) (m : Symbol) :
    IsSecond (names ++ [m]) n i := by
  have hi := h.lt_length
  refine ⟨?_, ?_⟩
  · rw [List.getElem?_append_left hi, h.1]
  · rw [List.take_append_of_le_length (Nat.le_of_lt hi), h.2]

theorem isSecond_length (h : names.count n = 1) : IsSecond (names ++ [n]) n names.length := by
  refine ⟨List.getElem?_concat_length, ?_⟩
  rw [List.take_left, h]

/-- Behind its second place a member stands at least twice. -/
theorem IsSecond.two_le_count_take {i j : Nat} (h : IsSecond names n i) (hij : i < j) :
    2 ≤ (names.take j).count n := by
  have htwo : (names.take (i + 1)).count n = 2 := by
    rw [List.take_add_one, List.count_append, h.2, h.1]
    simp
  have hprefix : names.take (i + 1) <+: names.take j := List.take_prefix_take_left hij
  calc
    2 = (names.take (i + 1)).count n := htwo.symm
    _ ≤ (names.take j).count n := hprefix.sublist.count_le n

theorem IsSecond.unique {i j : Nat} (hi : IsSecond names n i) (hj : IsSecond names n j) :
    i = j := by
  obtain hlt | heq | hlt := Nat.lt_trichotomy i j
  · have htwo := hi.two_le_count_take hlt
    rw [hj.2] at htwo
    omega
  · exact heq
  · have htwo := hj.two_le_count_take hlt
    rw [hi.2] at htwo
    omega

/-- What becomes a repeat with the last member stands there for the second time. -/
theorem isSecond_of_not_mem_repeated (hmem : n ∈ names) (hnew : n ∉ repeated names) :
    IsSecond (names ++ [n]) n names.length := by
  have hpos : 0 < names.count n := List.count_pos_iff.mpr hmem
  rw [mem_repeated_iff] at hnew
  exact isSecond_length (by omega)

/-- Each repeat has a second place. -/
theorem exists_isSecond (h : n ∈ repeated names) : ∃ i, IsSecond names n i := by
  induction names using List.reverseRecOn with
  | nil => exact absurd h List.not_mem_nil
  | append_singleton names m ih =>
      rw [repeated_concat] at h
      split at h <;> rename_i hm
      · obtain h | h := List.mem_append.mp h
        · obtain ⟨i, hi⟩ := ih h
          exact ⟨i, hi.concat m⟩
        · obtain rfl := List.mem_singleton.mp h
          exact ⟨names.length, isSecond_of_not_mem_repeated hm.1 hm.2⟩
      · obtain ⟨i, hi⟩ := ih h
        exact ⟨i, hi.concat m⟩

/-- A repeat has just one second place, and nothing else has one. -/
theorem mem_repeated_iff_existsUnique : n ∈ repeated names ↔ ∃! i, IsSecond names n i := by
  constructor
  · intro h
    obtain ⟨i, hi⟩ := exists_isSecond h
    exact ⟨i, hi, fun j hj => hj.unique hi⟩
  · rintro ⟨i, hi, -⟩
    have htwo := hi.two_le_count_take hi.lt_length
    rwa [List.take_length, ← mem_repeated_iff] at htwo

/-- The repeats are in the order of their second places. -/
theorem pairwise_repeated (names : List Symbol) :
    (repeated names).Pairwise fun a b => ∃ i j, IsSecond names a i ∧ IsSecond names b j ∧ i < j := by
  induction names using List.reverseRecOn with
  | nil => exact List.Pairwise.nil
  | append_singleton names m ih =>
      have hrepeats : (repeated names).Pairwise fun a b =>
          ∃ i j, IsSecond (names ++ [m]) a i ∧ IsSecond (names ++ [m]) b j ∧ i < j := by
        refine ih.imp ?_
        rintro a b ⟨i, j, ha, hb, hij⟩
        exact ⟨i, j, ha.concat m, hb.concat m, hij⟩
      rw [repeated_concat]
      split <;> rename_i hm
      · refine List.pairwise_append.mpr ⟨hrepeats, List.pairwise_singleton .., ?_⟩
        intro a ha b hb
        obtain rfl := List.mem_singleton.mp hb
        obtain ⟨i, hi⟩ := exists_isSecond ha
        exact ⟨i, names.length, hi.concat b, isSecond_of_not_mem_repeated hm.1 hm.2, hi.lt_length⟩
      · exact hrepeats

/-! ### The first repeat -/

/-- `n` stands behind an `n`, and before that place no member stands behind its like. -/
def IsFirstRepeat (names : List Symbol) (n : Symbol) : Prop :=
  ∃ before after, names = before ++ n :: after ∧ n ∈ before ∧ before.Nodup

theorem IsFirstRepeat.concat (h : IsFirstRepeat names n) (m : Symbol) :
    IsFirstRepeat (names ++ [m]) n := by
  obtain ⟨before, after, rfl, hn, hbefore⟩ := h
  exact ⟨before, after ++ [m], by simp, hn, hbefore⟩

/-- The first of the repeats is the first member that stands behind its like. -/
theorem head?_repeated_eq_some_iff : (repeated names).head? = some n ↔ IsFirstRepeat names n := by
  induction names using List.reverseRecOn with
  | nil =>
      refine ⟨nofun, ?_⟩
      rintro ⟨before, after, h, -⟩
      exact absurd h (by simp)
  | append_singleton names m ih =>
      rw [repeated_concat]
      constructor
      · intro h
        split at h
        next hm =>
          cases hrep : repeated names with
          | nil =>
              obtain rfl : m = n := by simpa [hrep] using h
              exact ⟨names, [], rfl, hm.1, repeated_eq_nil_iff.mp hrep⟩
          | cons k ks =>
              obtain rfl : k = n := by simpa [hrep] using h
              exact (ih.mp (by rw [hrep]; rfl)).concat m
        next => exact (ih.mp h).concat m
      · rintro ⟨before, after, heq, hn, hbefore⟩
        induction after using List.reverseRecOn with
        | nil =>
            obtain ⟨rfl, hm⟩ := List.append_inj' heq rfl
            obtain rfl : m = n := by simpa using hm
            have hrep := repeated_eq_nil_iff.mpr hbefore
            rw [if_pos ⟨hn, by rw [hrep]; exact List.not_mem_nil⟩, hrep]
            rfl
        | append_singleton after k _ =>
            rw [← List.cons_append, ← List.append_assoc] at heq
            obtain ⟨rfl, -⟩ := List.append_inj' heq rfl
            have hhead := ih.mpr ⟨before, after, rfl, hn, hbefore⟩
            split
            · rw [List.head?_append, hhead]
              rfl
            · exact hhead

end Equilibrium
