import Equilibrium.Json.Text
import Equilibrium.Json.Token
import Equilibrium.Proofs.Numeral.Layout

/-!
# Written numbers

A number that is written in a JSON text is read back as the same number, kind and bits included
(`nextToken_writeNumber`), if no character follows that a number may go on with. -/

namespace Equilibrium.Json

open Decimal

/-- A character that a number may go on with. -/
def isNumberChar (c : Char) : Bool := c.isDigit || c == '.' || c == 'e' || c == 'E'

/-! ### The parts of a number -/

section parts

variable {digits rest : List Char}

theorem stopsAt_isDigit (h : StopsAt isNumberChar rest) : StopsAt Char.isDigit rest := by
  intro c hc
  have hnot := h c hc
  simp only [isNumberChar, Bool.or_eq_false_iff] at hnot
  exact hnot.1.1.1

theorem spanWhole_append (hne : digits ≠ []) (hdigits : ∀ c ∈ digits, c.isDigit = true)
    (hlead : digits.head? = some '0' → digits = ['0']) (hrest : StopsAt Char.isDigit rest) :
    spanWhole (digits ++ rest) = some (digits, rest) := by
  obtain ⟨c, cs, rfl⟩ := List.exists_cons_of_ne_nil hne
  by_cases hzero : c = '0'
  · obtain rfl : cs = [] := by simpa [hzero] using hlead (by rw [hzero]; rfl)
    have hnext : (rest.head?.map Char.isDigit).getD false = false := by
      cases rest with
      | nil => rfl
      | cons d ds => exact hrest d rfl
    rw [hzero, List.singleton_append, spanWhole, hnext]
    rfl
  · rw [List.cons_append, spanWhole, ← List.cons_append, span_append hdigits hrest]
    · simp
    · simp [hzero]

theorem spanPoint_pointed (hdigits : ∀ c ∈ digits, c.isDigit = true)
    (hrest : StopsAt (fun c => c.isDigit || c == '.') rest) :
    spanPoint (Layout.pointed digits ++ rest) = some (digits, rest) := by
  cases digits with
  | nil =>
      rw [Layout.pointed, List.nil_append, spanPoint]
      rintro cs rfl
      exact absurd (hrest '.' rfl) (by decide)
  | cons d ds =>
      have hstop : StopsAt Char.isDigit rest := fun c hc =>
        (Bool.or_eq_false_iff.mp (hrest c hc)).1
      rw [Layout.pointed, List.cons_append, spanPoint, span_append hdigits hstop]
      simp

theorem spanExponent_minus (hspan : (digits ++ rest).span Char.isDigit = (digits, rest))
    (hne : digits ≠ []) :
    spanExponent ('e' :: '-' :: (digits ++ rest)) =
      some (some (-(digitsValue digits : Int)), rest) := by
  simp only [spanExponent, hspan, hne, ne_eq, not_true_eq_false, false_and, if_false, if_true]

theorem spanExponent_plus (hspan : (digits ++ rest).span Char.isDigit = (digits, rest))
    (hne : digits ≠ []) :
    spanExponent ('e' :: '+' :: (digits ++ rest)) = some (some (digitsValue digits : Int), rest) := by
  simp only [spanExponent, hspan, hne, ne_eq, not_true_eq_false, false_and, if_false,
    Bool.false_eq_true]

theorem spanExponent_unsigned {c : Char} (hc : c.isDigit = true)
    (hspan : (c :: digits ++ rest).span Char.isDigit = (c :: digits, rest)) :
    spanExponent ('e' :: (c :: digits ++ rest)) =
      some (some (digitsValue (c :: digits) : Int), rest) := by
  obtain ⟨hminus, hplus, -⟩ := isDigit_ne hc
  rw [List.cons_append] at hspan ⊢
  rw [spanExponent]
  · simp only [hspan, ne_eq, not_true_eq_false, false_and, if_false, reduceCtorEq, Bool.false_eq_true]
  · simp [hminus]
  · simp [hplus]

theorem spanExponent_exponentText (plusSign : Bool) (e : Option Int)
    (hrest : StopsAt isNumberChar rest) :
    spanExponent (Layout.exponentText plusSign e ++ rest) = some (e, rest) := by
  cases e with
  | none =>
      cases rest with
      | nil => rfl
      | cons c cs =>
          have hc := hrest c rfl
          simp only [isNumberChar, Bool.or_eq_false_iff, beq_eq_false_iff_ne] at hc
          simp [Layout.exponentText, spanExponent, hc.1.2, hc.2]
  | some e =>
      have hspan : (decimalDigits e.natAbs ++ rest).span Char.isDigit =
          (decimalDigits e.natAbs, rest) :=
        span_append (fun _ => isDigit_of_mem_decimalDigits) (stopsAt_isDigit hrest)
      have hne := decimalDigits_ne_nil e.natAbs
      have hval := digitsValue_decimalDigits e.natAbs
      unfold Layout.exponentText
      dsimp only
      split
      next hneg =>
        have hsize : -((e.natAbs : Nat) : Int) = e := by omega
        exact (spanExponent_minus hspan hne).trans (by rw [hval, hsize])
      next hneg =>
        have hsize : ((e.natAbs : Nat) : Int) = e := by omega
        cases plusSign with
        | true => exact (spanExponent_plus hspan hne).trans (by rw [hval, hsize])
        | false =>
            obtain ⟨c, cs, hcs, hc⟩ := decimalDigits_cases e.natAbs
            rw [hcs] at hspan hval ⊢
            exact (spanExponent_unsigned hc hspan).trans (by rw [hval, hsize])

theorem stopsAt_text_rest {p : Char → Bool} (plusSign : Bool) (e : Option Int) (he : p 'e' = false)
    (hrest : StopsAt p rest) : StopsAt p (Layout.exponentText plusSign e ++ rest) := by
  cases e with
  | none => exact hrest
  | some e => exact stopsAt_cons he _

/-- The parts of a numeral are found behind its sign. -/
theorem spanNumber_text (negative plusSign : Bool) {l : Layout} (h : l.IsNumeral)
    (hrest : StopsAt isNumberChar rest) :
    spanNumber ((if negative then ['-'] else []) ++ (l.text plusSign ++ rest)) =
      some (numberOf negative l.whole l.fraction l.exponent, rest) := by
  have hdigit := stopsAt_isDigit hrest
  have hpoint : StopsAt (fun c => c.isDigit || c == '.') rest := by
    intro c hc
    have hnot := hrest c hc
    simp only [isNumberChar, Bool.or_eq_false_iff] at hnot
    exact Bool.or_eq_false_iff.mpr hnot.1.1
  have htail : StopsAt Char.isDigit
      (Layout.pointed l.fraction ++ (Layout.exponentText plusSign l.exponent ++ rest)) :=
    stopsAt_pointed _ (stopsAt_text_rest plusSign l.exponent rfl hdigit)
  have hwhole := spanWhole_append h.whole_ne_nil h.whole_isDigit h.leading htail
  have hfraction := spanPoint_pointed h.fraction_isDigit
    (stopsAt_text_rest plusSign l.exponent rfl hpoint)
  have hexponent := spanExponent_exponentText plusSign l.exponent hrest
  have htext : l.text plusSign ++ rest = l.whole ++
      (Layout.pointed l.fraction ++ (Layout.exponentText plusSign l.exponent ++ rest)) := by
    rw [Layout.text, List.append_assoc, List.append_assoc]
  obtain ⟨c, cs, hcs⟩ := List.exists_cons_of_ne_nil h.whole_ne_nil
  have hc : c.isDigit = true := h.whole_isDigit c (hcs ▸ List.mem_cons_self)
  cases negative with
  | true =>
      rw [htext]
      simp [spanNumber, hwhole, hfraction, hexponent]
  | false =>
      have hminus : c ≠ '-' := (isDigit_ne hc).1
      rw [htext]
      rw [hcs, List.cons_append] at hwhole ⊢
      simp [spanNumber, hminus, hwhole, hfraction, hexponent]

end parts

/-! ### Their value -/

theorem numberOf_natural (n : UInt64) :
    numberOf false (decimalDigits n.toNat) [] none = some (.natural n) := by
  have hlt : n.toNat < UInt64.size := n.toNat_lt
  simp [numberOf, digitsValue_decimalDigits, Number.ofInt?, hlt]

theorem numberOf_negative (k : Fin 0x8000000000000000) :
    numberOf true (decimalDigits (k + 1)) [] none = some (.negative k) := by
  have hint : Number.ofInt? (-((k.val + 1 : Nat) : Int)) = some (.negative k) := by
    have hsize : -((k.val + 1 : Nat) : Int) = Int.negSucc k.val := rfl
    rw [hsize, Number.ofInt?, dif_pos k.isLt]
  unfold numberOf
  dsimp only
  rw [digitsValue_decimalDigits, if_neg (by simp), if_pos rfl, hint]
  rfl

theorem numberOf_real {x : Binary64} (p : Bool) (h : x.isFinite = true) :
    numberOf x.isNegative (x.layout (.data p)).whole (x.layout (.data p)).fraction
      (x.layout (.data p)).exponent = some (.real x) := by
  have hdecimal : ofParts (x.layout (.data p)).whole (x.layout (.data p)).fraction
      ((x.layout (.data p)).exponent.getD 0) = x.shortest .even := Binary64.decimal_layout _ x
  unfold numberOf
  dsimp only
  rw [hdecimal, Binary64.toBinary64?_shortest .even h, if_pos ((Binary64.layout_data_marked p x).imp_right .inl)]
  rfl

/-! ### Their token -/

/-- A digit or a minus begins a number. -/
theorem nextToken_of_spanNumber {c : Char} {cs rest : List Char} {n : Option Number}
    (hc : c.isDigit = true ∨ c = '-') (h : spanNumber (c :: cs) = some (n, rest)) :
    nextToken (c :: cs) = (.number n, rest) := by
  unfold nextToken
  split
  case h_11 => rw [h]
  all_goals
    rename_i heq
    obtain ⟨rfl, -⟩ := List.cons_eq_cons.mp heq
    exact absurd hc (by decide)

/-- The token of a written number. -/
def numberToken : Number → Token
  | .real x => if x.isFinite then .number (some (.real x)) else .null
  | n => .number (some n)

theorem nextToken_layout (negative plusSign : Bool) {l : Layout} (h : l.IsNumeral)
    {rest : List Char} (hrest : StopsAt isNumberChar rest) :
    nextToken ((if negative then ['-'] else []) ++ (l.text plusSign ++ rest)) =
      (.number (numberOf negative l.whole l.fraction l.exponent), rest) := by
  have hspan := spanNumber_text negative plusSign h hrest
  obtain ⟨c, cs, hcs⟩ := List.exists_cons_of_ne_nil h.whole_ne_nil
  have hc : c.isDigit = true := h.whole_isDigit c (hcs ▸ List.mem_cons_self)
  have htext : l.text plusSign ++ rest = c :: (cs ++ (Layout.pointed l.fraction ++
      Layout.exponentText plusSign l.exponent) ++ rest) := by
    rw [Layout.text, hcs, List.cons_append, List.cons_append]
  rw [htext] at hspan ⊢
  cases negative with
  | true => exact nextToken_of_spanNumber (.inr rfl) hspan
  | false => exact nextToken_of_spanNumber (.inl hc) hspan

/-- A written number is read back, unless it is not finite and null is written for it. -/
theorem nextToken_writeNumber (n : Number) {rest : List Char} (hrest : StopsAt isNumberChar rest) :
    nextToken (writeNumber n ++ rest) = (numberToken n, rest) := by
  cases n with
  | natural n =>
      have h := nextToken_layout false true (isNumeral_decimalDigits n.toNat) hrest
      simpa [Layout.text, Layout.pointed, Layout.exponentText, numberOf_natural, writeNumber,
        numberToken] using h
  | negative k =>
      have h := nextToken_layout true true (isNumeral_decimalDigits (k + 1)) hrest
      simpa [Layout.text, Layout.pointed, Layout.exponentText, numberOf_negative, writeNumber,
        numberToken] using h
  | real x =>
      by_cases hfin : x.isFinite = true
      · have h := nextToken_layout x.isNegative true (Binary64.isNumeral_layout (.data true) x) hrest
        rw [numberOf_real true hfin] at h
        rw [writeNumber, if_pos hfin, Binary64.toList_numeral, numberToken, if_pos hfin,
          List.append_assoc]
        exact h
      · rw [writeNumber, if_neg hfin, numberToken, if_neg hfin]
        rfl

theorem not_isBlank_of_isDigit {c : Char} (h : c.isDigit = true) : isBlank c = false := by
  have hne : c ≠ ' ' ∧ c ≠ '\t' ∧ c ≠ '\n' ∧ c ≠ '\r' := by
    refine ⟨?_, ?_, ?_, ?_⟩ <;> (rintro rfl; revert h; decide)
  simp [isBlank, hne]

/-- A written number begins with no blank. -/
theorem writeNumber_cases (n : Number) :
    ∃ c cs, writeNumber n = c :: cs ∧ isBlank c = false := by
  cases n with
  | natural n =>
      obtain ⟨c, cs, hcs, hc⟩ := decimalDigits_cases n.toNat
      exact ⟨c, cs, hcs, not_isBlank_of_isDigit hc⟩
  | negative k => exact ⟨'-', _, rfl, rfl⟩
  | real x =>
      rw [writeNumber]
      split
      · obtain ⟨c, cs, hcs, hc⟩ := Binary64.text_layout_cases (.data true) x
        rw [Binary64.toList_numeral, hcs]
        cases x.isNegative with
        | true => exact ⟨'-', _, rfl, rfl⟩
        | false => exact ⟨c, _, rfl, not_isBlank_of_isDigit hc⟩
      · exact ⟨'n', _, rfl, rfl⟩

end Equilibrium.Json
