import Mathlib.Data.Bool.AllAny
import Equilibrium.Proofs.Document
import Equilibrium.Proofs.Yaml.Plain

/-!
# Written numbers

A number is written without quotes (`isPlain_writeNumber`), and its digits stand for it again
(`resolve_writeNumber`): an integer for an integer and, as its point or exponent shows, a number for
a number. -/

namespace Equilibrium.Yaml

open Decimal

variable {c : Char} {cs : List Char}

/-! ### Characters of numbers -/

/-- The characters of written numbers. -/
def numeralChars : List Char := "0123456789.e-+".toList

theorem mem_digits_of_isDigit (h : c.isDigit = true) : c ∈ "0123456789".toList := by
  have hchar : c = Char.ofNat c.toNat := (Char.ofNat_toNat c).symm
  rw [Char.isDigit, Bool.and_eq_true, decide_eq_true_eq, decide_eq_true_eq] at h
  have hlow : 48 ≤ c.toNat := UInt32.le_iff_toNat_le.mp h.1
  have hhigh : c.toNat ≤ 57 := UInt32.le_iff_toNat_le.mp h.2
  rw [hchar]
  generalize c.toNat = n at hlow hhigh
  interval_cases n <;> decide

theorem mem_numeralChars_of_isDigit (h : c.isDigit = true) : c ∈ numeralChars :=
  List.mem_append_left ".e-+".toList (mem_digits_of_isDigit h)

theorem numeralChars_cases : ∀ c ∈ numeralChars,
    isPrintable c = true ∧ isGap c = false ∧ c ≠ ':' ∧ c ≠ '#' ∧ c ∉ ['x', 'o', 'b'] ∧
      c ∉ ['n', 'N'] :=
  List.all_iff_forall_prop.mp (by decide)

/-- The characters of the parts of a numeral. -/
theorem mem_numeralChars_of_mem_text {plusSign : Bool} {l : Layout} (h : l.IsNumeral)
    (hc : c ∈ l.text plusSign) : c ∈ numeralChars := by
  simp only [Layout.text, List.mem_append] at hc
  obtain hc | hc | hc := hc
  · exact mem_numeralChars_of_isDigit (h.whole_isDigit c hc)
  · have hfraction := h.fraction_isDigit
    cases hf : l.fraction with
    | nil =>
        rw [hf] at hc
        cases hc
    | cons d ds =>
        rw [hf, Layout.pointed, List.mem_cons] at hc
        obtain rfl | hc := hc
        · decide
        · exact mem_numeralChars_of_isDigit (hfraction c (hf ▸ hc))
  · cases he : l.exponent with
    | none =>
        rw [he] at hc
        cases hc
    | some e =>
        rw [he, Layout.exponentText, List.cons_append, List.mem_cons, List.mem_append] at hc
        obtain rfl | hc | hc := hc
        · decide
        · split at hc
          · rw [List.mem_singleton.mp hc]
            decide
          split at hc
          · rw [List.mem_singleton.mp hc]
            decide
          · cases hc
        · exact mem_numeralChars_of_isDigit (isDigit_of_mem_decimalDigits hc)

/-! ### Numbers without quotes -/

theorem not_hasIndicatorInside (h : ∀ c ∈ cs, c ≠ ':' ∧ c ≠ '#') :
    hasIndicatorInside cs = false := by
  induction cs with
  | nil => rfl
  | cons c cs ih =>
      have hsign : beginsWith ['#'] cs = false := by
        cases cs with
        | nil => rfl
        | cons d cs => simpa [beginsWith] using (h d (by simp)).2
      have hcolon : (c == ':') = false := by simpa using (h c List.mem_cons_self).1
      rw [hasIndicatorInside, hsign, hcolon, ih fun d hd => h d (List.mem_cons_of_mem c hd)]
      simp

theorem digits_cases : ∀ c ∈ "0123456789".toList, c ≠ '-' ∧ c ≠ '.' ∧ isGap c = false ∧
    ∀ tail, beginsWithIndicator (c :: tail) = false ∧
      beginsWithIndicator ('-' :: c :: tail) = false := by
  have hchars : ∀ c ∈ "0123456789".toList, c ≠ '-' ∧ c ≠ '.' ∧ isGap c = false ∧
      c ∉ [',', '[', ']', '\x7b', '\x7d', '#', '&', '*', '!', '|',
        '>', '\'', '"', '%', '@', '\x60'] ∧ c ∉ ['-', '?', ':'] :=
    List.all_iff_forall_prop.mp (by decide)
  intro c hc
  obtain ⟨hminus, hpoint, hgap, hfirst, hword⟩ := hchars c hc
  have hends (tail : List Char) : endsWord (c :: tail) = false := hgap
  refine ⟨hminus, hpoint, hgap, fun tail => ⟨?_, ?_⟩⟩
  · rw [beginsWithIndicator, beginsWith, beginsWith, decide_eq_false hfirst, decide_eq_false hword]
    rfl
  · rw [beginsWithIndicator, List.drop_succ_cons, List.drop_zero, hends, Bool.and_false]
    rfl

/-- A word of characters of numbers needs no quotes if its beginning does not ask for them. -/
theorem isPlain_word (hne : cs ≠ []) (hcs : ∀ d ∈ cs, d ∈ numeralChars)
    (hindicator : beginsWithIndicator cs = false) (hdashes : ['-', '-', '-'].isPrefixOf cs = false)
    (hdots : ['.', '.', '.'].isPrefixOf cs = false) : IsPlain cs := by
  have hgap : ∀ d ∈ cs, isGap d = false := fun d hd => (numeralChars_cases d (hcs d hd)).2.1
  have hspace : ∀ d ∈ cs, d ≠ ' ' := by
    rintro d hd rfl
    cases hgap _ hd
  have hbreak : cs.any isBreak = false := by
    rw [List.any_eq_false]
    intro d hd
    simp [not_isBreak_of_not_isGap (hgap d hd)]
  have hinside : hasIndicatorInside (cs.drop 1) = false := by
    refine not_hasIndicatorInside fun d hd => ?_
    obtain ⟨-, -, hcolon, hsign, -⟩ := numeralChars_cases d (hcs d (List.mem_of_mem_drop hd))
    exact ⟨hcolon, hsign⟩
  have hhead : (cs.head? == some ' ') = false := by
    rw [beq_eq_false_iff_ne]
    exact fun h => hspace _ (List.mem_of_mem_head? h) rfl
  have hlast : (last? cs == some ' ') = false := by
    rw [beq_eq_false_iff_ne]
    exact fun h => hspace _ (List.mem_of_mem_getLast? h) rfl
  refine ⟨hne, fun d hd => (numeralChars_cases d (hcs d hd)).1, ?_⟩
  rw [isPlainSafe, hhead, hlast, hbreak, hdashes, hdots, hindicator, hinside]
  rfl

/-- Digits, with or without a minus, are written without quotes. -/
theorem isPlain_numeral (negative : Bool) (hc : c.isDigit = true)
    (hcs : ∀ d ∈ cs, d ∈ numeralChars) :
    IsPlain ((if negative then ['-'] else []) ++ c :: cs) := by
  obtain ⟨hminus, hpoint, -, hindicator⟩ := digits_cases c (mem_digits_of_isDigit hc)
  have hchars : ∀ d ∈ c :: cs, d ∈ numeralChars :=
    List.forall_mem_cons.mpr ⟨mem_numeralChars_of_isDigit hc, hcs⟩
  have hfirst (d : Char) (ds : List Char) (hd : c ≠ d) :
      (d :: ds).isPrefixOf (c :: cs) = false := by
    rw [List.isPrefixOf_cons_cons, beq_eq_false_iff_ne.mpr hd.symm, Bool.false_and]
  cases negative with
  | false =>
      exact isPlain_word (List.cons_ne_nil _ _) hchars (hindicator cs).1 (hfirst _ _ hminus)
        (hfirst _ _ hpoint)
  | true =>
      have hall : ∀ d ∈ '-' :: c :: cs, d ∈ numeralChars :=
        List.forall_mem_cons.mpr ⟨by decide, hchars⟩
      refine @isPlain_word ('-' :: c :: cs) (List.cons_ne_nil _ _) hall (hindicator cs).2 ?_ ?_
      · rw [List.isPrefixOf_cons_cons, hfirst _ _ hminus, Bool.and_false]
      · rw [List.isPrefixOf_cons_cons]
        rfl

/-- The point or the exponent shows that a number is no integer. -/
theorem exists_mark (x : Binary64) :
    ∃ d ∈ (x.layout (.data false)).text false, d.isDigit = false := by
  obtain hfraction | hexponent := Binary64.layout_data_marked false x
  · obtain ⟨d, ds, hds⟩ := List.exists_cons_of_ne_nil hfraction
    refine ⟨'.', ?_, rfl⟩
    simp [Layout.text, Layout.pointed, hds]
  · obtain ⟨e, he⟩ := Option.isSome_iff_exists.mp hexponent
    refine ⟨'e', ?_, rfl⟩
    simp [Layout.text, Layout.exponentText, he]

/-- The numeral of a number: behind its sign digits, among them a point or an exponent. -/
theorem numeral_cases (x : Binary64) : ∃ c cs, c.isDigit = true ∧ (∀ d ∈ cs, d ∈ numeralChars) ∧
    (∃ d ∈ cs, d.isDigit = false) ∧
      (x.numeral (.data false)).toList = (if x.isNegative then ['-'] else []) ++ c :: cs := by
  obtain ⟨c, cs, hcs, hc⟩ := Binary64.text_layout_cases (.data false) x
  refine ⟨c, cs, hc, fun d hd => ?_, ?_, ?_⟩
  · exact mem_numeralChars_of_mem_text (Binary64.isNumeral_layout (.data false) x)
      (hcs ▸ List.mem_cons_of_mem c hd)
  · obtain ⟨d, hd, hmark⟩ := exists_mark x
    have hmem : d ∈ c :: cs := hcs ▸ hd
    obtain rfl | hmem := List.mem_cons.mp hmem
    · rw [hc] at hmark
      cases hmark
    · exact ⟨d, hmem, hmark⟩
  · rw [Binary64.toList_numeral, hcs]

/-- A finite number is written in digits behind its sign. -/
theorem writeNumber_cases {n : Number} (h : n.IsFinite) :
    ∃ (negative : Bool) (c : Char) (cs : List Char),
      c.isDigit = true ∧ (∀ d ∈ cs, d ∈ numeralChars) ∧
        writeNumber n = (if negative then ['-'] else []) ++ c :: cs := by
  have hdigits (k : Nat) :
      ∃ c cs, decimalDigits k = c :: cs ∧ c.isDigit = true ∧ ∀ d ∈ cs, d ∈ numeralChars := by
    obtain ⟨c, cs, hcs, hc⟩ := decimalDigits_cases k
    refine ⟨c, cs, hcs, hc, fun d hd => mem_numeralChars_of_isDigit ?_⟩
    exact isDigit_of_mem_decimalDigits (hcs ▸ List.mem_cons_of_mem c hd)
  cases n with
  | natural n =>
      obtain ⟨c, cs, hcs, hc, hchars⟩ := hdigits n.toNat
      exact ⟨false, c, cs, hc, hchars, hcs⟩
  | negative k =>
      obtain ⟨c, cs, hcs, hc, hchars⟩ := hdigits (k + 1)
      exact ⟨true, c, cs, hc, hchars, congrArg ('-' :: ·) hcs⟩
  | real x =>
      obtain ⟨c, cs, hc, hchars, -, hcs⟩ := numeral_cases x
      refine ⟨x.isNegative, c, cs, hc, hchars, ?_⟩
      rw [writeNumber, if_pos (show x.isFinite = true from h), hcs]

/-- A number is written without quotes. -/
theorem isPlain_writeNumber (n : Number) : IsPlain (writeNumber n) := by
  by_cases hfin : n.IsFinite
  · obtain ⟨negative, c, cs, hc, hcs, hwritten⟩ := writeNumber_cases hfin
    rw [hwritten]
    exact isPlain_numeral negative hc hcs
  · have hwords : ∀ cs ∈ [".nan".toList, "-.inf".toList, ".inf".toList],
        cs ≠ [] ∧ cs.all isPrintable = true ∧ isPlainSafe cs = true := by decide
    have hword : writeNumber n ∈ [".nan".toList, "-.inf".toList, ".inf".toList] := by
      cases n with
      | natural n => exact absurd (Number.isFinite_natural n) hfin
      | negative k => exact absurd (Number.isFinite_negative k) hfin
      | real x =>
          rw [writeNumber, if_neg (show ¬ x.isFinite = true from hfin)]
          split
          · simp
          · split <;> simp
    obtain ⟨hne, hprint, hsafe⟩ := hwords _ hword
    exact ⟨hne, List.all_eq_true.mp hprint, hsafe⟩

/-! ### Numbers read back -/

theorem digitIn?_digit :
    ∀ c ∈ "0123456789".toList, digitIn? 10 c = some (c.toNat - '0'.toNat) :=
  List.all_iff_forall_prop.mp (by decide)

theorem naturalIn?_digits {ds : List Char} (hne : ds ≠ []) (h : ∀ c ∈ ds, c.isDigit = true) :
    naturalIn? 10 ds = some (digitsValue ds) := by
  have hfold : ∀ n, ds.foldlM (fun n c => (digitIn? 10 c).map (10 * n + ·)) n =
      some (ds.foldl (fun n c => 10 * n + (c.toNat - '0'.toNat)) n) := by
    clear hne
    induction ds with
    | nil => exact fun n => rfl
    | cons c ds ih =>
        intro n
        rw [List.foldlM_cons, digitIn?_digit c (mem_digits_of_isDigit (h c List.mem_cons_self))]
        exact ih (fun d hd => h d (List.mem_cons_of_mem c hd)) _
  obtain ⟨c, cs, rfl⟩ := List.exists_cons_of_ne_nil hne
  exact hfold 0

theorem naturalIn?_mark (hcs : ∀ d ∈ cs, d ∈ numeralChars) (h : ∃ d ∈ cs, d.isDigit = false) :
    naturalIn? 10 cs = none := by
  have hmarks : ∀ d ∈ numeralChars, d.isDigit = false → digitIn? 10 d = none :=
    List.all_iff_forall_prop.mp (by decide)
  have hfold : ∀ n, cs.foldlM (fun n c => (digitIn? 10 c).map (10 * n + ·)) n = none := by
    induction cs with
    | nil => exact absurd h (by simp)
    | cons c cs ih =>
        intro n
        rw [List.foldlM_cons]
        cases hc : digitIn? 10 c with
        | none => rfl
        | some k =>
            obtain ⟨d, hd, hmark⟩ := h
            obtain rfl | hd := List.mem_cons.mp hd
            · rw [hmarks d (hcs d List.mem_cons_self) hmark] at hc
              cases hc
            · exact ih (fun e he => hcs e (List.mem_cons_of_mem c he)) ⟨d, hd, hmark⟩ _
  obtain ⟨c, more, rfl⟩ := List.exists_cons_of_ne_nil (List.ne_nil_of_mem h.choose_spec.1)
  exact hfold 0

section numeral

variable {negative : Bool}

theorem splitSign_numeral (hc : c.isDigit = true) :
    splitSign ((if negative then ['-'] else []) ++ c :: cs) = (negative, c :: cs) := by
  obtain ⟨hminus, hplus, -⟩ := isDigit_ne hc
  cases negative with
  | true => rfl
  | false =>
      show splitSign (c :: cs) = _
      unfold splitSign
      split
      next heq => exact absurd (List.cons.inj heq).1 hminus
      next heq => exact absurd (List.cons.inj heq).1 hplus
      next => rfl

/-- Digits are an integer to the base ten. -/
theorem integer?_numeral (hc : c.isDigit = true) (hcs : ∀ d ∈ cs, d ∈ numeralChars) :
    integer? ((if negative then ['-'] else []) ++ c :: cs) =
      (if isZeroPadded ((if negative then ['-'] else []) ++ c :: cs) then none
        else naturalIn? 10 (c :: cs)).map fun n => if negative then -(n : Int) else n := by
  have hbase : ∀ d, d ∈ ['x', 'o', 'b'] → ∀ tail, c :: cs ≠ '0' :: d :: tail := by
    rintro d hd tail heq
    obtain ⟨-, rfl⟩ := List.cons.inj heq
    exact (numeralChars_cases d (hcs d List.mem_cons_self)).2.2.2.2.1 hd
  unfold integer?
  rw [splitSign_numeral hc]
  dsimp only
  refine congrArg (Option.map _) ?_
  generalize c :: cs = size at hbase
  split
  next tail => exact absurd rfl (hbase 'x' (by simp) tail)
  next tail => exact absurd rfl (hbase 'o' (by simp) tail)
  next tail => exact absurd rfl (hbase 'b' (by simp) tail)
  next => rfl

/-- Digits are no word for null or a truth value. -/
theorem not_mem_words (hc : c.isDigit = true) :
    String.ofList ((if negative then ['-'] else []) ++ c :: cs) ∉ nullWords ∧
      String.ofList ((if negative then ['-'] else []) ++ c :: cs) ∉ trueWords ∧
        String.ofList ((if negative then ['-'] else []) ++ c :: cs) ∉ falseWords := by
  have hwords : ∀ w ∈ nullWords ++ (trueWords ++ falseWords),
      w.toList.head?.any (fun d => d.isDigit || d == '-') = false := by decide
  have hnot :
      String.ofList ((if negative then ['-'] else []) ++ c :: cs) ∉
        nullWords ++ (trueWords ++ falseWords) := by
    intro hmem
    have hhead := hwords _ hmem
    rw [String.toList_ofList] at hhead
    cases negative with
    | true => cases hhead
    | false =>
        have hany : ((if false then ['-'] else []) ++ c :: cs).head?.any
              (fun d => d.isDigit || d == '-') = true := by
          simp [hc]
        rw [hany] at hhead
        cases hhead
  simpa [List.mem_append, not_or] using hnot

end numeral

/-- An integer stands for itself. -/
theorem resolve_integer {n : Number} {z : Int} {cs : List Char}
    (hnull : String.ofList cs ∉ nullWords) (htrue : String.ofList cs ∉ trueWords)
    (hfalse : String.ofList cs ∉ falseWords) (hz : integer? cs = some z)
    (hn : Number.ofInt? z = some n) : resolve (String.ofList cs) = some (.number n) := by
  rw [resolve]
  simp only [hnull, htrue, hfalse, if_false, String.toList_ofList, hz, hn]

/-- What is no integer stands for the number of its numeral. -/
theorem resolve_real {x : Binary64} {cs : List Char} (hnull : String.ofList cs ∉ nullWords)
    (htrue : String.ofList cs ∉ trueWords) (hfalse : String.ofList cs ∉ falseWords)
    (hz : integer? cs = none) (hpadded : isZeroPadded cs = false) (hx : Yaml.real? cs = some x) :
    resolve (String.ofList cs) = some (.number (.real x)) := by
  rw [resolve]
  simp only [hnull, htrue, hfalse, if_false, String.toList_ofList, hz, hpadded, hx,
    Bool.false_eq_true]

theorem isZeroPadded_mark {negative : Bool} (hc : c.isDigit = true)
    (h : ∃ d ∈ cs, d.isDigit = false) :
    isZeroPadded ((if negative then ['-'] else []) ++ c :: cs) = false := by
  rw [isZeroPadded, splitSign_numeral hc]
  dsimp only
  split
  next d more heq =>
    obtain ⟨-, rfl⟩ := List.cons.inj heq
    rw [List.all_eq_false]
    simpa using h
  next => rfl

theorem isZeroPadded_decimalDigits (negative : Bool) (n : Nat) :
    isZeroPadded ((if negative then ['-'] else []) ++ decimalDigits n) = false := by
  obtain ⟨c, cs, hcs, hc⟩ := decimalDigits_cases n
  rw [hcs, isZeroPadded, splitSign_numeral hc]
  dsimp only
  split
  next d more heq =>
    have hhead : (decimalDigits n).head? = some '0' := by rw [hcs, heq]; rfl
    have hn : n = 0 := by
      by_contra hn
      exact head?_decimalDigits_ne hn hhead
    rw [hn] at hcs
    rw [heq] at hcs
    exact absurd hcs (by simp [decimalDigits])
  next => rfl

theorem integer?_decimalDigits (negative : Bool) (n : Nat) :
    integer? ((if negative then ['-'] else []) ++ decimalDigits n) =
      some (if negative then -(n : Int) else n) := by
  have hpadded := isZeroPadded_decimalDigits negative n
  have hvalue := naturalIn?_digits (decimalDigits_ne_nil n) fun c => isDigit_of_mem_decimalDigits
  obtain ⟨c, cs, hcs, hc⟩ := decimalDigits_cases n
  have hchars : ∀ d ∈ cs, d ∈ numeralChars := fun d hd =>
    mem_numeralChars_of_isDigit (isDigit_of_mem_decimalDigits (hcs ▸ List.mem_cons_of_mem c hd))
  rw [digitsValue_decimalDigits] at hvalue
  rw [hcs] at hpadded hvalue ⊢
  rw [integer?_numeral hc hchars, hpadded, hvalue]
  rfl

/-- The numbers that are given by words. -/
def numberWords : List String :=
  [".inf", ".Inf", ".INF", "+.inf", "+.Inf", "+.INF", "-.inf", "-.Inf", "-.INF", ".nan", ".NaN",
    ".NAN"]

theorem real?_of_not_mem (h : String.ofList cs ∉ numberWords) :
    Yaml.real? cs = Binary64.ofNumeral? cs := by
  simp only [numberWords, List.mem_cons, List.not_mem_nil, or_false, not_or] at h
  rw [Yaml.real?]
  simp only [List.mem_cons, List.not_mem_nil, or_false, h, if_false]

/-- No word of a number is made of the characters of a numeral. -/
theorem real?_of_numeralChars (h : ∀ d ∈ cs, d ∈ numeralChars) :
    Yaml.real? cs = Binary64.ofNumeral? cs := by
  have hwords : ∀ w ∈ numberWords, w.toList.any (· ∈ ['n', 'N']) = true := by decide
  refine real?_of_not_mem fun hw => ?_
  obtain ⟨d, hd, hletter⟩ := List.any_eq_true.mp (hwords _ hw)
  rw [String.toList_ofList] at hd
  exact (numeralChars_cases d (h d hd)).2.2.2.2.2 (of_decide_eq_true hletter)

theorem real?_numeral {x : Binary64} (h : x.isFinite = true) :
    Yaml.real? (x.numeral (.data false)).toList = some x := by
  obtain ⟨c, cs, hc, hcs, -, hnumeral⟩ := numeral_cases x
  have hsign : ∀ d ∈ (if x.isNegative then ['-'] else []), d ∈ numeralChars := by
    split
    · exact List.forall_mem_singleton.mpr (by decide)
    · exact nofun
  have hchars : ∀ d ∈ (x.numeral (.data false)).toList, d ∈ numeralChars := by
    rw [hnumeral, List.forall_mem_append, List.forall_mem_cons]
    exact ⟨hsign, mem_numeralChars_of_isDigit hc, hcs⟩
  rw [real?_of_numeralChars hchars, Binary64.ofNumeral?_numeral (.data false) h]

theorem resolve_numeral {x : Binary64} (h : x.isFinite = true) :
    resolve (x.numeral (.data false)) = some (.number (.real x)) := by
  have hreal := real?_numeral h
  obtain ⟨c, cs, hc, hcs, hmark, hnumeral⟩ := numeral_cases x
  obtain ⟨hnull, htrue, hfalse⟩ := @not_mem_words c cs x.isNegative hc
  have hpadded := @isZeroPadded_mark c cs x.isNegative hc hmark
  have hinteger := @integer?_numeral c cs x.isNegative hc hcs
  have hnatural : naturalIn? 10 (c :: cs) = none := by
    obtain ⟨d, hd, hmark⟩ := hmark
    refine naturalIn?_mark ?_ ⟨d, List.mem_cons_of_mem c hd, hmark⟩
    exact List.forall_mem_cons.mpr ⟨mem_numeralChars_of_isDigit hc, hcs⟩
  rw [hpadded, hnatural] at hinteger
  rw [← hnumeral] at hnull htrue hfalse hpadded hinteger
  have hresolve := resolve_real hnull htrue hfalse hinteger hpadded hreal
  rwa [String.ofList_toList] at hresolve

/-- A number that is written is read back. -/
theorem resolve_writeNumber {n : Number} (h : n.IsFinite) :
    resolve (String.ofList (writeNumber n)) = some (.number n) := by
  obtain ⟨negative, c, cs, hc, -, hwritten⟩ := writeNumber_cases h
  obtain ⟨hnull, htrue, hfalse⟩ := @not_mem_words c cs negative hc
  rw [← hwritten] at hnull htrue hfalse
  cases n with
  | natural n =>
      have hlt : n.toNat < UInt64.size := n.toNat_lt
      refine resolve_integer hnull htrue hfalse (integer?_decimalDigits false n.toNat) ?_
      simp [Number.ofInt?, hlt]
  | negative k =>
      have hint : Number.ofInt? (-((k.val + 1 : Nat) : Int)) = some (.negative k) := by
        have hsize : -((k.val + 1 : Nat) : Int) = Int.negSucc k.val := rfl
        rw [hsize, Number.ofInt?, dif_pos k.isLt]
      exact resolve_integer hnull htrue hfalse (integer?_decimalDigits true (k + 1)) hint
  | real x =>
      rw [writeNumber, if_pos (show x.isFinite = true from h), String.ofList_toList]
      exact resolve_numeral h

end Equilibrium.Yaml
