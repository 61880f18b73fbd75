import Equilibrium.Proofs.Expr.Grammar

/-!
# The lexemes of printed texts

A text may be cut at every character outside words (`lexemes_append_cons`), so the lexemes of a
printed expression are those of its parts with the marks between them. The parts that are one word
are names (`lexemes_name`) and numbers (`lexemes_number`). -/

namespace Equilibrium.Expr

/-! ### Cutting a text -/

theorem lexemes_nil : lexemes [] = [] := rfl

theorem lexemes_append {l r : List Char}
    (h : ∀ c ∈ l.getLast?, ∀ d ∈ r.head?, Lexeme.joined c d = false) :
    lexemes (l ++ r) = lexemes l ++ lexemes r := by
  unfold lexemes
  rw [List.splitBy_append h, List.filterMap_append]

theorem lexemes_singleton (c : Char) : lexemes [c] = (Lexeme.ofRun? [c]).toList := by
  show List.filterMap Lexeme.ofRun? [[c]] = _
  cases h : Lexeme.ofRun? [c] <;> simp [h]

/-- A text may be cut before and behind a character outside words. -/
theorem lexemes_append_cons (l r : List Char) {c : Char} (hc : isWordChar c = false) :
    lexemes (l ++ c :: r) = lexemes l ++ ((Lexeme.ofRun? [c]).toList ++ lexemes r) := by
  have hright : lexemes ([c] ++ r) = lexemes [c] ++ lexemes r :=
    lexemes_append (by simp [Lexeme.joined, hc])
  have hleft : lexemes (l ++ ([c] ++ r)) = lexemes l ++ lexemes ([c] ++ r) :=
    lexemes_append (by simp [Lexeme.joined, hc])
  rw [← List.singleton_append, hleft, hright, lexemes_singleton]

theorem lexemes_append_blank (l r : List Char) : lexemes (l ++ ' ' :: r) = lexemes l ++ lexemes r := by
  rw [lexemes_append_cons l r rfl]
  rfl

theorem lexemes_append_mark (l r : List Char) {c : Char} (hc : isWordChar c = false)
    (hblank : c ≠ ' ') : lexemes (l ++ c :: r) = lexemes l ++ .mark c :: lexemes r := by
  rw [lexemes_append_cons l r hc, Lexeme.ofRun?, hc, if_neg Bool.false_ne_true, if_neg hblank]
  rfl

theorem lexemes_mark (r : List Char) {c : Char} (hc : isWordChar c = false) (hblank : c ≠ ' ') :
    lexemes (c :: r) = .mark c :: lexemes r :=
  lexemes_append_mark [] r hc hblank

theorem lexemes_append_of_stopsAt (l : List Char) {r : List Char} (h : StopsAt isWordChar r) :
    lexemes (l ++ r) = lexemes l ++ lexemes r :=
  lexemes_append fun c _ d hd => by rw [Lexeme.joined, h d hd, Bool.and_false]

section operators

variable {s : List Char} {c : Char}

/-- An operator between blanks. -/
theorem lexemes_operator (hs : s = [' ', c, ' ']) (hc : isWordChar c = false) (hblank : c ≠ ' ')
    (l r : List Char) : lexemes (l ++ s ++ r) = lexemes l ++ .mark c :: lexemes r := by
  have hright : lexemes (' ' :: r) = lexemes r := lexemes_append_blank [] r
  rw [hs, List.append_assoc]
  show lexemes (l ++ ' ' :: c :: ' ' :: r) = _
  rw [lexemes_append_blank, lexemes_mark _ hc hblank, hright]

/-- An operator and its right operand, with more behind it that begins no word. -/
theorem lexemes_operator_append (hs : s = [' ', c, ' ']) (hc : isWordChar c = false)
    (hblank : c ≠ ' ') (operand : List Char) {r : List Char} (hr : StopsAt isWordChar r) :
    lexemes (s ++ operand ++ r) = .mark c :: (lexemes operand ++ lexemes r) := by
  rw [lexemes_append_of_stopsAt _ hr]
  exact congrArg (· ++ lexemes r) (lexemes_operator hs hc hblank [] operand)

end operators

/-- A comma with a blank behind it. -/
theorem lexemes_comma (l r : List Char) :
    lexemes (l ++ (", ".toList ++ r)) = lexemes l ++ .mark ',' :: lexemes r := by
  show lexemes (l ++ ',' :: ' ' :: r) = _
  rw [lexemes_append_mark _ _ rfl (by decide)]
  exact congrArg _ (congrArg _ (lexemes_append_blank [] r))

/-- Lexemes in parentheses if need be. -/
def grouped (needed : Bool) (ts : List Lexeme) : List Lexeme :=
  if needed then .mark '(' :: (ts ++ [.mark ')']) else ts

theorem lexemes_enclose (needed : Bool) (text : List Char) :
    lexemes (enclose needed text) = grouped needed (lexemes text) := by
  cases needed with
  | false => rfl
  | true =>
      show lexemes ('(' :: (text ++ [')'])) = _
      rw [lexemes_mark _ rfl (by decide), lexemes_append_mark _ _ rfl (by decide)]
      rfl

/-! ### Words -/

theorem lexemes_word {w : List Char} (hne : w ≠ []) (hw : ∀ c ∈ w, isWordChar c = true) :
    lexemes w = [.ofWord w] := by
  have hjoined : w.IsChain fun c d => Lexeme.joined c d = true := by
    refine (List.pairwise_of_forall_mem_list fun c hc d hd => ?_).isChain
    rw [Lexeme.joined, hw c hc, hw d hd]
    rfl
  obtain ⟨c, cs, rfl⟩ := List.exists_cons_of_ne_nil hne
  unfold lexemes
  rw [List.splitBy_of_isChain hne hjoined]
  simp [Lexeme.ofRun?, hw]

/-- The words of the grammar are shaped like names. -/
theorem keyword?_eq_none {n : Symbol} (h : isIdentifier n = false) : keyword? n = none := by
  unfold keyword?
  have hsum : n ≠ "sum" := by rintro rfl; exact absurd h (by decide)
  have hprod : n ≠ "prod" := by rintro rfl; exact absurd h (by decide)
  have hin : n ≠ "in" := by rintro rfl; exact absurd h (by decide)
  rw [if_neg hsum, if_neg hprod, if_neg hin]

/-- Whether a name is read as a name: it is shaped like one and has no other meaning. -/
def isPlainName (n : Symbol) : Bool := isIdentifier n && (keyword? n).isNone

theorem ofWord_name {n : Symbol} (h : isPlainName n = true) : Lexeme.ofWord n.toList = .name n := by
  obtain ⟨hn, hk⟩ := Bool.and_eq_true_iff.mp h
  rw [Option.isNone_iff_eq_none] at hk
  simp [Lexeme.ofWord, hk, hn]

/-- A name is one lexeme. -/
theorem lexemes_name {n : Symbol} (h : isPlainName n = true) : lexemes n.toList = [.name n] := by
  have hn : isIdentifier n = true := (Bool.and_eq_true_iff.mp h).1
  rw [← ofWord_name h]
  unfold isIdentifier at hn
  split at hn
  · cases hn
  next c cs hcs =>
    rw [hcs]
    refine lexemes_word (by simp) fun d hd => ?_
    rw [isWordChar, List.all_eq_true.mp (Bool.and_eq_true_iff.mp hn).2 d hd]
    rfl

/-- Names with commas between them. -/
theorem lexemes_printNames {ns : List Symbol} (h : ∀ n ∈ ns, isPlainName n = true) :
    lexemes (printNames ns) = (ns.map Lexeme.name).intersperse (.mark ',') := by
  induction ns with
  | nil => rfl
  | cons n ns ih =>
      have hn := lexemes_name (h n List.mem_cons_self)
      have ih := ih fun m hm => h m (List.mem_cons_of_mem n hm)
      cases ns with
      | nil => simpa [printNames] using hn
      | cons m ns =>
          have htext : printNames (n :: m :: ns) = n.toList ++ (", ".toList ++ printNames (m :: ns)) := by
            simp [printNames, String.intercalate_cons_cons]
          rw [htext, lexemes_comma, hn, ih]
          rfl

/-! ### Numbers -/

section numbers

variable {x : Binary64}

theorem exponent_layout_plain (x : Binary64) : (x.layout .plain).exponent = none := by
  unfold Binary64.layout Decimal.layout
  rw [if_pos (by simp [NumeralStyle.isPositional, NumeralStyle.plain])]
  unfold Decimal.positionalLayout
  dsimp only
  split <;> rfl

theorem isWordChar_of_isDigit {c : Char} (h : c.isDigit = true) : isWordChar c = true := by
  simp [isWordChar, isNameChar, Char.isAlphanum, h]

theorem isWordChar_of_mem_text {c : Char} (h : c ∈ (x.layout .plain).text NumeralStyle.plain.plusSign) :
    isWordChar c = true := by
  have hx := Binary64.isNumeral_layout .plain x
  rw [Decimal.Layout.text, exponent_layout_plain, Decimal.Layout.exponentText, List.append_nil,
    List.mem_append] at h
  obtain h | h := h
  · exact isWordChar_of_isDigit (hx.whole_isDigit c h)
  · cases hf : (x.layout .plain).fraction with
    | nil => rw [hf] at h; cases h
    | cons d ds =>
        rw [hf] at h
        obtain rfl | h := List.mem_cons.mp h
        · rfl
        · exact isWordChar_of_isDigit (hx.fraction_isDigit c (hf ▸ h))

theorem ofWord_text (h : x.isFinite = true) :
    Lexeme.ofWord ((x.layout .plain).text NumeralStyle.plain.plusSign) = .number x.abs := by
  have hread := Binary64.ofNumeral?_text_layout .plain h
  obtain ⟨c, cs, hcs, hc⟩ := Binary64.text_layout_cases .plain x
  rw [hcs] at hread ⊢
  have hid : isIdentifier (String.ofList (c :: cs)) = false := by simp [isIdentifier, hc]
  unfold Lexeme.ofWord
  simp only [keyword?_eq_none hid, hid, hread, Bool.false_eq_true, if_false, Option.elim_some]

/-- A finite number is one lexeme, behind a minus if it has one. -/
theorem lexemes_number (h : x.isFinite = true) :
    lexemes (x.text .plain).toList =
      (if x.isNegative then [.mark '-'] else []) ++ [.number x.abs] := by
  have hword : lexemes ((x.layout .plain).text NumeralStyle.plain.plusSign) = [.number x.abs] := by
    obtain ⟨c, cs, hcs, -⟩ := Binary64.text_layout_cases .plain x
    rw [lexemes_word (by rw [hcs]; exact List.cons_ne_nil c cs) fun c => isWordChar_of_mem_text,
      ofWord_text h]
  rw [Binary64.text, if_pos h, Binary64.toList_numeral]
  cases x.isNegative with
  | false => exact hword
  | true =>
      rw [if_pos rfl, List.singleton_append, lexemes_mark _ rfl (by decide), hword]
      rfl

end numbers

end Equilibrium.Expr
