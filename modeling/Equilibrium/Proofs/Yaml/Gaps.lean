import Mathlib.Tactic
import Equilibrium.Yaml.Text
import Equilibrium.Proofs.Numeral.Layout

/-!
# Characters and gaps of written YAML

What is written consists of printable characters (`isAllowed_of_isPrintable`), so its line breaks
are unified already (`unifyBreaks_of_isPrintable`). Between its words stand gaps of two kinds:
blanks within a line (`spanGap_blanks`), or breaks and the indentation of the next line
(`spanGap_breaks`). -/

namespace Equilibrium.Yaml

variable {c : Char} {cs rest : List Char}

/-! ### Printable characters -/

theorem isAllowed_of_isPrintable (h : isPrintable c = true) : isAllowed c = true := by
  simp only [isPrintable, isAllowed, Bool.or_eq_true, Bool.and_eq_true] at h ⊢
  tauto

/-- Printable characters are the usual ones of a line, the line feed and all that lies beyond the
controls. -/
theorem isPrintable_iff : isPrintable c = true ↔
    c.toNat = 0x0A ∨ (0x20 ≤ c.toNat ∧ c.toNat ≤ 0x7E) ∨
      (0xA0 ≤ c.toNat ∧ c.toNat ≤ 0xFFFD ∧ c.toNat ≠ 0xFEFF) ∨ 0x10000 ≤ c.toNat := by
  simp [isPrintable, or_assoc, and_assoc]

theorem unifyBreaks_of_isPrintable (h : ∀ c ∈ cs, isPrintable c = true) : unifyBreaks cs = cs := by
  induction cs with
  | nil => rfl
  | cons c cs ih =>
      have hc := h c List.mem_cons_self
      have hcs := ih fun d hd => h d (List.mem_cons_of_mem c hd)
      unfold unifyBreaks
      split
      next heq =>
        cases heq
        exact absurd hc (by decide)
      next heq =>
        cases heq
        exact absurd hc (by decide)
      next heq =>
        cases heq
        exact absurd hc (by decide)
      next heq =>
        cases heq
        rw [hcs]
      next heq => cases heq

/-! ### Blanks and breaks -/

theorem not_isBreak_of_isBlank (h : isBlank c = true) : isBreak c = false := by
  obtain rfl | rfl : c = ' ' ∨ c = '\t' := by simpa [isBlank] using h
  all_goals decide

theorem not_isBlank_of_isBreak (h : isBreak c = true) : isBlank c = false := by
  by_contra hc
  rw [not_isBreak_of_isBlank (by simpa using hc)] at h
  cases h

/-- A printable blank is a space. -/
theorem eq_space_of_isBlank (hc : isPrintable c = true) (h : isBlank c = true) : c = ' ' := by
  obtain rfl | rfl : c = ' ' ∨ c = '\t' := by simpa [isBlank] using h
  · rfl
  · exact absurd hc (by decide)

/-- Blanks and line breaks stand in gaps. -/
def isGap (c : Char) : Bool := isBlank c || isBreak c

theorem isGap_of_isBlank (h : isBlank c = true) : isGap c = true := by simp [isGap, h]

theorem isGap_of_isBreak (h : isBreak c = true) : isGap c = true := by simp [isGap, h]

theorem not_isBlank_of_not_isGap (h : isGap c = false) : isBlank c = false := by
  simp [isGap] at h
  simp [h.1]

theorem not_isBreak_of_not_isGap (h : isGap c = false) : isBreak c = false := by
  simp [isGap] at h
  simp [h.2]

theorem isGap_of_mem_spaces {n : Nat} (h : c ∈ spaces n) : isGap c = true := by
  rw [List.eq_of_mem_replicate h]
  rfl

theorem endsWord_append {cs rest : List Char} (hcs : cs ≠ []) :
    endsWord (cs ++ rest) = endsWord cs := by
  cases cs with
  | nil => exact absurd rfl hcs
  | cons c cs => rfl

theorem beginsWith_append {chars cs rest : List Char} (hcs : cs ≠ []) :
    beginsWith chars (cs ++ rest) = beginsWith chars cs := by
  cases cs with
  | nil => exact absurd rfl hcs
  | cons c cs => rfl

/-! ### Gaps -/

theorem spanGap_append {gap : List Char} (hgap : ∀ c ∈ gap, isGap c = true)
    (hrest : StopsAt isGap rest) :
    spanGap (gap ++ rest) = (gap.foldl Gap.push ⟨[], [], 0, none⟩, rest) := by
  have hspan : ((gap ++ rest).takeWhile isGap, (gap ++ rest).dropWhile isGap) = (gap, rest) := by
    rw [← List.span_eq_takeWhile_dropWhile, span_append hgap hrest]
  obtain ⟨htake, hdrop⟩ := Prod.mk.inj hspan
  show (((gap ++ rest).takeWhile isGap).foldl Gap.push _, (gap ++ rest).dropWhile isGap) = _
  rw [htake, hdrop]

theorem foldl_push_blanks {blanks : List Char} (h : ∀ c ∈ blanks, isBlank c = true)
    (before : List Char) :
    blanks.foldl Gap.push ⟨before, [], 0, none⟩ = ⟨before ++ blanks, [], 0, none⟩ := by
  induction blanks generalizing before with
  | nil => simp
  | cons c cs ih =>
      have hc : isBreak c = false := not_isBreak_of_isBlank (h c List.mem_cons_self)
      rw [List.foldl_cons, Gap.push, hc, if_neg (by simp), if_pos rfl,
        ih fun d hd => h d (List.mem_cons_of_mem c hd)]
      simp

theorem foldl_push_breaks {breaks : List Char} (h : ∀ c ∈ breaks, isBreak c = true)
    (before : List Char) :
    breaks.foldl Gap.push ⟨[], before, 0, none⟩ = ⟨[], before ++ breaks, 0, none⟩ := by
  induction breaks generalizing before with
  | nil => simp
  | cons c cs ih =>
      rw [List.foldl_cons, Gap.push, if_pos (h c List.mem_cons_self),
        ih fun d hd => h d (List.mem_cons_of_mem c hd)]
      simp

theorem foldl_push_spaces {breaks : List Char} (h : breaks ≠ []) (column n : Nat) :
    (spaces n).foldl Gap.push ⟨[], breaks, column, none⟩ = ⟨[], breaks, column + n, none⟩ := by
  induction n generalizing column with
  | zero => rfl
  | succ n ih =>
      rw [spaces, List.replicate_succ, List.foldl_cons, Gap.push, if_neg (by decide), if_neg h,
        if_neg (by decide)]
      refine (ih (column + 1)).trans ?_
      rw [Nat.add_right_comm, Nat.add_assoc]

/-- Blanks within a line. -/
theorem spanGap_blanks {blanks : List Char} (h : ∀ c ∈ blanks, isBlank c = true)
    (hrest : StopsAt isGap rest) : spanGap (blanks ++ rest) = (⟨blanks, [], 0, none⟩, rest) := by
  rw [spanGap_append (fun c hc => isGap_of_isBlank (h c hc)) hrest, foldl_push_blanks h]
  rfl

/-- No gap at all. -/
theorem spanGap_nil (hrest : StopsAt isGap rest) : spanGap rest = (⟨[], [], 0, none⟩, rest) := by
  have hnone : ∀ c ∈ ([] : List Char), isBlank c = true := by simp
  exact spanGap_blanks hnone hrest

/-- Line breaks and the indentation behind them. -/
theorem spanGap_breaks {breaks : List Char} (hne : breaks ≠ []) (h : ∀ c ∈ breaks, isBreak c = true)
    (n : Nat) (hrest : StopsAt isGap rest) :
    spanGap (breaks ++ (spaces n ++ rest)) = (⟨[], breaks, n, none⟩, rest) := by
  have hgap : ∀ c ∈ breaks ++ spaces n, isGap c = true := by
    intro c hc
    obtain hc | hc := List.mem_append.mp hc
    · exact isGap_of_isBreak (h c hc)
    · exact isGap_of_mem_spaces hc
  rw [← List.append_assoc, spanGap_append hgap hrest, List.foldl_append, foldl_push_breaks h,
    foldl_push_spaces (by simpa using hne)]
  simp

/-- The gap before the next line at a column. -/
theorem spanGap_newLine (n : Nat) (hrest : StopsAt isGap rest) :
    spanGap ('\n' :: (spaces n ++ rest)) = (⟨[], ['\n'], n, none⟩, rest) :=
  spanGap_breaks (List.cons_ne_nil '\n' []) (List.forall_mem_singleton.mpr rfl) n hrest

/-- Separators of lines and paragraphs are not folded. -/
theorem foldBreaks_of_forall_ne {breaks : List Char} (h : ∀ c ∈ breaks, c ≠ '\n') :
    foldBreaks breaks = breaks := by
  unfold foldBreaks
  split
  · exact absurd rfl (h _ List.mem_cons_self)
  · exact absurd rfl (h _ List.mem_cons_self)
  · rfl

/-- What follows a run of characters of a class at the start of a text. -/
theorem exists_run (p : Char → Bool) (cs : List Char) :
    ∃ run rest, cs = run ++ rest ∧ (∀ c ∈ run, p c = true) ∧ StopsAt p rest := by
  refine ⟨cs.takeWhile p, cs.dropWhile p, (List.takeWhile_append_dropWhile).symm, ?_, ?_⟩
  · exact List.all_eq_true.mp List.all_takeWhile
  · intro c hc
    have h := List.head?_dropWhile_not p cs
    rw [Option.mem_def.mp hc] at h
    exact h

end Equilibrium.Yaml
