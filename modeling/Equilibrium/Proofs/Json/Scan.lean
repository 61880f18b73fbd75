import Equilibrium.Json.Text
import Equilibrium.Json.Token
import Equilibrium.Proofs.Numeral.Layout

/-!
# Scanning a text

`Json.scan` is the list of tokens of a text. Every token takes at least one character, so scanning
goes on behind a token as it would at the beginning of a text (`scan_cons`), whatever the fuel. -/

namespace Equilibrium.Json

/-! ### A token takes a character -/

theorem length_span (p : Char → Bool) (cs : List Char) :
    (cs.span p).1.length + (cs.span p).2.length = cs.length := by
  rw [List.span_eq_takeWhile_dropWhile, ← List.length_append, List.takeWhile_append_dropWhile]

theorem length_span_snd_le (p : Char → Bool) (cs : List Char) :
    (cs.span p).2.length ≤ cs.length := by
  have := length_span p cs
  omega

theorem length_lt_of_spanUnits {cs rest : List Char} {us : List Nat}
    (h : spanUnits cs = some (us, rest)) : rest.length < cs.length := by
  fun_induction spanUnits cs generalizing us rest with
  | case1 cs =>
      cases h
      simp
  | case2 a b c d cs ih =>
      simp only [Option.bind_eq_bind, Option.bind_eq_some_iff] at h
      obtain ⟨u, -, ⟨us', rest'⟩, hrest, heq⟩ := h
      cases heq
      have := ih hrest
      simp only [List.length_cons]
      omega
  | case3 e cs _ ih =>
      simp only [Option.bind_eq_bind, Option.bind_eq_some_iff] at h
      obtain ⟨u, -, ⟨us', rest'⟩, hrest, heq⟩ := h
      cases heq
      have := ih hrest
      simp only [List.length_cons]
      omega
  | case4 => cases h
  | case5 c cs _ _ _ _ ih =>
      simp only [Option.bind_eq_bind, Option.bind_eq_some_iff] at h
      obtain ⟨⟨us', rest'⟩, hrest, heq⟩ := h
      cases heq
      have := ih hrest
      simp only [List.length_cons]
      omega
  | case6 => cases h

theorem length_lt_of_spanWhole {cs digits rest : List Char}
    (h : spanWhole cs = some (digits, rest)) : rest.length < cs.length := by
  unfold spanWhole at h
  split at h
  · split at h <;> cases h
    simp
  · have hspan := length_span Char.isDigit cs
    dsimp only at h
    split at h <;> rename_i hdigits <;> cases h
    have hpos := List.length_pos_iff.mpr hdigits
    omega

theorem length_le_of_spanPoint {cs digits rest : List Char}
    (h : spanPoint cs = some (digits, rest)) : rest.length ≤ cs.length := by
  unfold spanPoint at h
  split at h
  · dsimp only at h
    split at h <;> cases h
    exact (length_span_snd_le _ _).trans (by simp)
  · cases h
    rfl

theorem length_le_of_spanExponent {cs rest : List Char} {e : Option Int}
    (h : spanExponent cs = some (e, rest)) : rest.length ≤ cs.length := by
  unfold spanExponent at h
  split at h
  next =>
    cases h
    rfl
  next c cs =>
    split at h
    · cases h
      rfl
    · split at h
      next negative unsigned hsign =>
        have hunsigned : unsigned.length ≤ cs.length := by
          split at hsign <;> cases hsign <;> simp
        have hdigits := length_span_snd_le Char.isDigit unsigned
        split at h
        next digits rest hspan =>
          split at h <;> cases h
          rw [hspan] at hdigits
          rw [List.length_cons]
          exact Nat.le_succ_of_le (hdigits.trans hunsigned)

theorem length_lt_of_spanNumber {cs rest : List Char} {n : Option Number}
    (h : spanNumber cs = some (n, rest)) : rest.length < cs.length := by
  unfold spanNumber at h
  simp only [Option.bind_eq_bind, Option.bind_eq_some_iff] at h
  obtain ⟨⟨whole, afterWhole⟩, hwhole, ⟨fraction, afterFraction⟩, hpoint, ⟨e, rest'⟩, hexp, heq⟩ := h
  cases heq
  have hlt := length_lt_of_spanWhole hwhole
  have hle := length_le_of_spanPoint hpoint
  have hle' := length_le_of_spanExponent hexp
  split at hlt
  all_goals
    simp only [List.length_cons] at *
    omega

/-- What follows a token is shorter than what the token begins. -/
theorem length_nextToken_lt (c : Char) (cs : List Char) :
    (nextToken (c :: cs)).2.length < (c :: cs).length := by
  generalize hl : c :: cs = l
  have hpos : 0 < l.length := by simp [← hl]
  clear hl
  unfold nextToken
  split
  case h_10 cs =>
    split
    next us rest h =>
      have := length_lt_of_spanUnits h
      simp only [List.length_cons]
      omega
    next => exact hpos
  case h_11 =>
    split
    next n rest h => exact length_lt_of_spanNumber h
    next => exact hpos
  all_goals
    simp only [List.length_cons]
    omega

/-! ### The tokens of a text -/

/-- The tokens of a text. -/
def scan (cs : List Char) : List Token := tokensOf cs.length cs

theorem tokens_eq_scan (s : String) : tokens s = scan s.toList := rfl

theorem tokensOf_cons (fuel : Nat) (c : Char) (cs : List Char) :
    tokensOf (fuel + 1) (c :: cs) =
      if isBlank c then tokensOf fuel cs
      else (nextToken (c :: cs)).1 :: tokensOf fuel (nextToken (c :: cs)).2 := rfl

/-- Fuel for every character is enough. -/
theorem tokensOf_eq_scan {fuel : Nat} {cs : List Char} (h : cs.length ≤ fuel) :
    tokensOf fuel cs = scan cs := by
  induction hn : cs.length using Nat.strong_induction_on generalizing fuel cs with
  | _ n ih =>
      cases cs with
      | nil => cases fuel <;> rfl
      | cons c cs =>
          have hlt := length_nextToken_lt c cs
          simp only [List.length_cons] at h hn hlt
          obtain ⟨fuel, rfl⟩ : ∃ f, fuel = f + 1 := ⟨fuel - 1, by omega⟩
          have hrest (f : Nat) (hf : cs.length ≤ f) : tokensOf f cs = scan cs :=
            ih cs.length (by omega) hf rfl
          have hnext (f : Nat) (hf : cs.length ≤ f) :
              tokensOf f (nextToken (c :: cs)).2 = scan (nextToken (c :: cs)).2 :=
            ih _ (by omega) (by omega) rfl
          rw [scan, List.length_cons, tokensOf_cons, tokensOf_cons, hrest fuel (by omega),
            hrest cs.length le_rfl, hnext fuel (by omega), hnext cs.length le_rfl]

theorem scan_nil : scan [] = [] := rfl

theorem scan_cons_of_isBlank {c : Char} (h : isBlank c = true) (cs : List Char) :
    scan (c :: cs) = scan cs := by
  rw [scan, List.length_cons, tokensOf_cons, if_pos h]
  rfl

/-- Behind a token the text goes on as at its beginning. -/
theorem scan_cons {c : Char} (h : isBlank c = false) (cs : List Char) :
    scan (c :: cs) = (nextToken (c :: cs)).1 :: scan (nextToken (c :: cs)).2 := by
  have hlt := length_nextToken_lt c cs
  rw [List.length_cons] at hlt
  rw [scan, List.length_cons, tokensOf_cons, if_neg (by simp [h]), tokensOf_eq_scan (by omega)]

end Equilibrium.Json
