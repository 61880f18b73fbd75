import Mathlib.Data.String.Basic
import Equilibrium.Proofs.Yaml.Gaps

/-!
# Reading quoted scalars

What is written between quotes is read back: between double quotes any text
(`spanQuoted_double`), between single quotes a text without characters to escape
(`spanQuoted_single`). -/

namespace Equilibrium.Yaml

variable {cs rest next : List Char} {c : Char} {fuel : Nat}

/-! ### Steps -/

/-- A gap between quotes. -/
theorem spanQuoted_gap (double : Bool) (fuel : Nat) (hc : isGap c = true)
    {gap : Gap} {after : List Char} (hgap : spanGap (c :: cs) = (gap, after))
    (hline : gap.endsAtLineStart = false) :
    spanQuoted double (fuel + 1) false (c :: cs) =
      (spanQuoted double fuel false after).map fun (more, last) => (gap.folded ++ more, last) := by
  rw [isGap] at hc
  rw [spanQuoted.eq_def]
  dsimp only
  rw [Bool.false_and, if_neg Bool.false_ne_true, if_pos hc]
  simp only [hgap, hline]
  cases spanQuoted double fuel false after <;> rfl

/-- A character that stands for itself. -/
theorem spanQuoted_char (double : Bool) (fuel : Nat) (hgap : isGap c = false)
    (hquote : c ≠ (if double then '"' else '\'')) (hback : double = true → c ≠ '\\')
    (cs : List Char) :
    spanQuoted double (fuel + 1) false (c :: cs) =
      (spanQuoted double fuel false cs).map fun (more, last) => (c :: more, last) := by
  rw [isGap] at hgap
  rw [spanQuoted.eq_def]
  dsimp only
  rw [Bool.false_and, if_neg Bool.false_ne_true, hgap, if_neg Bool.false_ne_true]
  cases double with
  | true =>
      have hquote' : c ≠ '"' := hquote
      rw [if_pos rfl, if_neg hquote', if_neg (hback rfl)]
      cases spanQuoted true fuel false cs <;> rfl
  | false =>
      have hquote' : c ≠ '\'' := hquote
      rw [if_neg Bool.false_ne_true, if_neg hquote']
      cases spanQuoted false fuel false cs <;> rfl

/-! ### Double quotes -/

/-- An escape is read in the same way whatever follows it. -/
theorem spanEscape_append {more : List Char} (h : spanEscape cs = some (c, more))
    (rest : List Char) :
    spanEscape (cs ++ rest) = some (c, more ++ rest) := by
  cases cs with
  | nil => cases h
  | cons e cs =>
      rw [List.cons_append]
      unfold spanEscape at h ⊢
      dsimp only at h ⊢
      split at h
      next =>
        obtain ⟨d, hd, heq⟩ := Option.map_eq_some_iff.mp h
        cases heq
        rw [hd]
        rfl
      next n _ =>
        by_cases htake : (cs.take n).length = n
        · have hle : n ≤ cs.length := by
            rw [List.length_take] at htake
            omega
          simp only [List.take_append_of_le_length hle, List.drop_append_of_le_length hle]
          rw [if_pos htake] at h ⊢
          cases hcode : naturalIn? 16 (cs.take n) with
          | none => simp [hcode] at h
          | some code =>
              simp only [hcode, Option.bind_eq_bind, Option.bind_some] at h ⊢
              split at h
              next hvalid =>
                cases h
                rw [if_pos hvalid]
                rfl
              next => cases h
        · rw [if_neg htake] at h
          cases h

/-- A character is written as an escape that stands for it, in a few characters of a line. -/
def IsEscaped (c : Char) : Prop :=
  (escapeDouble c).head? = some '\\' ∧
    (escapeDouble c).all (fun d => isPrintable d && !isBreak d) = true ∧
    String.utf8Len (escapeDouble c) ≤ 6 ∧ spanEscape ((escapeDouble c).drop 1) = some (c, [])

instance (c : Char) : Decidable (IsEscaped c) := inferInstanceAs (Decidable (_ ∧ _ ∧ _ ∧ _))

theorem IsEscaped.line (h : IsEscaped c) :
    ∀ d ∈ escapeDouble c, isPrintable d = true ∧ isBreak d = false := by
  intro d hd
  have hline := List.all_eq_true.mp h.2.1 d hd
  rw [Bool.and_eq_true, Bool.not_eq_true'] at hline
  exact hline

theorem IsEscaped.cases (h : IsEscaped c) :
    ∃ e es, escapeDouble c = '\\' :: e :: es ∧ isBreak e = false ∧
      spanEscape (e :: es) = some (c, []) := by
  have hline := h.line
  obtain ⟨hhead, -, -, hspan⟩ := h
  obtain ⟨es, hes⟩ := List.head?_eq_some_iff.mp hhead
  rw [hes, List.drop_succ_cons, List.drop_zero] at hspan
  cases es with
  | nil => cases hspan
  | cons e es => exact ⟨e, es, hes, (hline e (by simp [hes])).2, hspan⟩

theorem isEscaped_of_lt : ∀ n < 0xA0, isPrintable (Char.ofNat n) = false ∨ n ∈ [0x0A, 0x22, 0x5C] →
    IsEscaped (Char.ofNat n) := by
  decide +kernel

/-- A character that is not printable is below the printable ones or one of three. -/
theorem lt_or_mem_of_not_isPrintable (h : isPrintable c = false) :
    c.toNat < 0xA0 ∨ c.toNat ∈ [0xFEFF, 0xFFFE, 0xFFFF] := by
  have hnot : ¬ isPrintable c = true := by simp [h]
  rw [isPrintable_iff] at hnot
  simp only [List.mem_cons, List.not_mem_nil, or_false]
  omega

/-- Any character but the space is written as itself or as an escape. -/
theorem escapeDouble_cases (hc : c ≠ ' ') :
    (escapeDouble c = [c] ∧ isPrintable c = true ∧ isGap c = false ∧ c ≠ '"' ∧ c ≠ '\\') ∨
      IsEscaped c := by
  have hchar : c = Char.ofNat c.toNat := (Char.ofNat_toNat c).symm
  by_cases hprint : isPrintable c = true
  · by_cases hspecial : c ∈ ['\n', '"', '\\', '\u2028', '\u2029']
    · right
      simp only [List.mem_cons, List.not_mem_nil, or_false] at hspecial
      obtain rfl | rfl | rfl | rfl | rfl := hspecial <;> decide +kernel
    · left
      simp only [List.mem_cons, List.not_mem_nil, or_false, not_or] at hspecial
      obtain ⟨hfeed, hquote, hback, hline, hparagraph⟩ := hspecial
      have hblank : isBlank c = false := by
        by_contra hblank
        exact hc (eq_space_of_isBlank hprint (by simpa using hblank))
      refine ⟨?_, hprint, by simp [isGap, hblank, isBreak, hfeed, hline, hparagraph], hquote, hback⟩
      unfold escapeDouble
      split
      all_goals first | exact absurd hprint (by decide) | contradiction | exact if_pos hprint
  · right
    rw [hchar]
    obtain hlt | hmem := lt_or_mem_of_not_isPrintable (by simpa using hprint)
    · exact isEscaped_of_lt c.toNat hlt (.inl (by rw [← hchar]; simpa using hprint))
    · simp only [List.mem_cons, List.not_mem_nil, or_false] at hmem
      obtain h | h | h := hmem <;> (rw [h]; decide +kernel)

/-- A character that is written as an escape. -/
theorem spanQuoted_escape (h : IsEscaped c) (fuel : Nat) (cs : List Char) :
    spanQuoted true (fuel + 1) false (escapeDouble c ++ cs) =
      (spanQuoted true fuel false cs).map fun (more, last) => (c :: more, last) := by
  obtain ⟨e, es, hescape, hbreak, hspan⟩ := h.cases
  have hspan' := spanEscape_append hspan cs
  rw [List.nil_append, List.cons_append] at hspan'
  rw [hescape, List.cons_append, List.cons_append, spanQuoted.eq_def]
  dsimp only
  rw [Bool.false_and, if_neg Bool.false_ne_true, if_neg (by decide), if_pos rfl, if_neg (by decide),
    if_pos rfl, if_neg (by simp [hbreak]), hspan']
  simp only [Option.bind_eq_bind, Option.bind_some]
  cases spanQuoted true fuel false cs <;> rfl

theorem stopsAt_flatMap_escapeDouble (h : StopsAt (· == ' ') cs) (rest : List Char) :
    StopsAt isGap (cs.flatMap escapeDouble ++ '"' :: rest) := by
  cases cs with
  | nil => exact stopsAt_cons rfl rest
  | cons c cs =>
      have hc : c ≠ ' ' := by simpa using h c rfl
      rw [List.flatMap_cons, List.append_assoc]
      obtain ⟨heq, -, hgap, -⟩ | hescaped := escapeDouble_cases hc
      · rw [heq]
        exact stopsAt_cons hgap _
      · obtain ⟨e, es, heq, -⟩ := hescaped.cases
        rw [heq]
        exact stopsAt_cons rfl _

theorem flatMap_escapeDouble_spaces {blanks : List Char} (h : ∀ c ∈ blanks, (c == ' ') = true) :
    blanks.flatMap escapeDouble = blanks := by
  induction blanks with
  | nil => rfl
  | cons c cs ih =>
      obtain rfl : c = ' ' := by simpa using h c List.mem_cons_self
      rw [List.flatMap_cons, ih fun d hd => h d (List.mem_cons_of_mem _ hd)]
      rfl

theorem length_escapeDouble_pos (c : Char) : 0 < (escapeDouble c).length := by
  by_cases hc : c = ' '
  · rw [hc]
    decide
  · obtain ⟨heq, -⟩ | hescaped := escapeDouble_cases hc
    · simp [heq]
    · obtain ⟨e, es, heq, -⟩ := hescaped.cases
      simp [heq]

/-- A text between double quotes stands in one line and is not much longer than the text. -/
theorem escapeDouble_line (c : Char) :
    (∀ d ∈ escapeDouble c, isPrintable d = true ∧ isBreak d = false) ∧
      String.utf8Len (escapeDouble c) ≤ 6 * c.utf8Size := by
  have hpos := c.utf8Size_pos
  by_cases hc : c = ' '
  · rw [hc]
    exact ⟨List.forall_mem_singleton.mpr ⟨rfl, rfl⟩, by decide⟩
  · obtain ⟨heq, hprint, hgap, -⟩ | hescaped := escapeDouble_cases hc
    · rw [heq]
      refine ⟨by simpa using ⟨hprint, not_isBreak_of_not_isGap hgap⟩, ?_⟩
      simp only [String.utf8Len_cons, String.utf8Len_nil]
      omega
    · have hbytes := hescaped.2.2.1
      exact ⟨hescaped.line, by omega⟩

/-- Any text is read back from between double quotes. -/
theorem spanQuoted_double (hfuel : (cs.flatMap escapeDouble).length < fuel) :
    spanQuoted true fuel false (cs.flatMap escapeDouble ++ '"' :: rest) = some (cs, rest) := by
  induction fuel generalizing cs with
  | zero => omega
  | succ fuel ih =>
      cases cs with
      | nil => simp [spanQuoted, isBlank, isBreak]
      | cons c cs =>
          by_cases hc : c = ' '
          · obtain ⟨blanks, next, hrun, hblanks, hnext⟩ := exists_run (· == ' ') cs
            have hall : ∀ d ∈ c :: blanks, (d == ' ') = true := by
              rintro d (⟨⟩ | ⟨_, hd⟩)
              · simp [hc]
              · exact hblanks d hd
            have hblank : ∀ d ∈ c :: blanks, isBlank d = true := fun d hd => by
              simp [isBlank, show d = ' ' by simpa using hall d hd]
            have hgap := spanGap_blanks hblank (stopsAt_flatMap_escapeDouble hnext rest)
            have hbody : (c :: cs).flatMap escapeDouble =
                c :: blanks ++ next.flatMap escapeDouble := by
              rw [hrun, ← List.cons_append, List.flatMap_append, flatMap_escapeDouble_spaces hall]
            rw [hbody, List.length_append, List.length_cons] at hfuel
            have hlater := @ih next (by omega)
            rw [hbody, List.append_assoc, List.cons_append]
            rw [List.cons_append] at hgap
            rw [spanQuoted_gap true fuel (by rw [hc]; rfl) hgap rfl, hlater, hrun]
            rfl
          · rw [List.flatMap_cons, List.length_append] at hfuel
            have hpos := length_escapeDouble_pos c
            have hlater := @ih cs (by omega)
            rw [List.flatMap_cons, List.append_assoc]
            obtain ⟨heq, -, hgap, hquote, hback⟩ | hescaped := escapeDouble_cases hc
            · rw [heq, List.singleton_append,
                spanQuoted_char true fuel hgap hquote (fun _ => hback), hlater]
              rfl
            · rw [spanQuoted_escape hescaped, hlater]
              rfl

/-! ### Single quotes -/

theorem hasPair_cons (p q : Char → Bool) (c : Char) (cs : List Char) :
    hasPair p q (c :: cs) = ((p c && cs.head?.any q) || hasPair p q cs) := by
  cases cs with
  | nil => simp [hasPair]
  | cons d cs => rfl

theorem not_hasPair_of_append {p q : Char → Bool} (before : List Char)
    (h : hasPair p q (before ++ cs) = false) : hasPair p q cs = false := by
  induction before with
  | nil => exact h
  | cons c before ih =>
      rw [List.cons_append, hasPair_cons, Bool.or_eq_false_iff] at h
      exact ih h.2

/-- Behind characters of one class stands none of the other. -/
theorem stopsAt_of_not_hasPair {p q : Char → Bool} {run : List Char} (hne : run ≠ [])
    (hrun : ∀ c ∈ run, p c = true) (h : hasPair p q (run ++ cs) = false) : StopsAt q cs := by
  obtain ⟨before, b, rfl⟩ := List.eq_nil_or_concat run |>.resolve_left hne
  rw [List.concat_append] at h
  have hsuffix := not_hasPair_of_append before h
  rw [hasPair_cons, hrun b (by simp), Bool.true_and, Bool.or_eq_false_iff] at hsuffix
  intro c hc
  rw [Option.mem_def.mp hc] at hsuffix
  exact hsuffix.1

/-- A text whose quotes are doubled. -/
def doubled (cs : List Char) : List Char :=
  cs.flatMap fun c => if c = '\'' then ['\'', '\''] else [c]

/-- What stands between the single quotes of a text. -/
def singleBody (indent : Nat) (cs : List Char) : List Char :=
  indentLines indent false (doubled cs) ++ if endsWithBreak cs then spaces indent else []

theorem indentLines_true_breaks {breaks : List Char} (h : ∀ c ∈ breaks, isBreak c = true)
    (indent : Nat) (cs : List Char) :
    indentLines indent true (breaks ++ cs) = breaks ++ indentLines indent true cs := by
  induction breaks with
  | nil => rfl
  | cons c breaks ih =>
      rw [List.cons_append, indentLines, if_pos (h c List.mem_cons_self),
        ih fun d hd => h d (List.mem_cons_of_mem c hd)]
      rfl

theorem indentLines_breaks {breaks : List Char} (hne : breaks ≠ [])
    (h : ∀ c ∈ breaks, isBreak c = true) (indent : Nat) (cs : List Char) :
    indentLines indent false (breaks ++ cs) = breaks ++ indentLines indent true cs := by
  obtain ⟨c, more, rfl⟩ := List.exists_cons_of_ne_nil hne
  rw [List.cons_append, indentLines, if_pos (h c List.mem_cons_self),
    indentLines_true_breaks fun d hd => h d (List.mem_cons_of_mem c hd)]
  rfl

theorem indentLines_char (hc : isBreak c = false) (indent : Nat) (cs : List Char) :
    indentLines indent false (c :: cs) = c :: indentLines indent false cs := by
  rw [indentLines, hc]
  rfl

/-- A line behind a break is indented. -/
theorem indentLines_line (hc : isBreak c = false) (indent : Nat) (cs : List Char) :
    indentLines indent true (c :: cs) = spaces indent ++ indentLines indent false (c :: cs) := by
  rw [indentLines, indentLines_char hc, hc]
  rfl

theorem endsWithBreak_append (before : List Char) (hne : cs ≠ []) :
    endsWithBreak (before ++ cs) = endsWithBreak cs := by
  rw [endsWithBreak, last?, List.getLast?_append_of_ne_nil _ hne, endsWithBreak, last?]

theorem endsWithBreak_cons (hc : isBreak c = false) (cs : List Char) :
    endsWithBreak (c :: cs) = endsWithBreak cs := by
  cases cs with
  | nil => simp [endsWithBreak, last?, hc]
  | cons d cs => exact endsWithBreak_append [c] (List.cons_ne_nil d cs)

theorem endsWithBreak_breaks {breaks : List Char} (hne : breaks ≠ [])
    (h : ∀ c ∈ breaks, isBreak c = true) :
    endsWithBreak breaks = true := by
  rw [endsWithBreak, last?, List.getLast?_eq_getLast_of_ne_nil hne]
  exact h _ (List.getLast_mem hne)

theorem singleBody_char (hc : isBreak c = false) (indent : Nat) (cs : List Char) :
    singleBody indent (c :: cs) =
      (if c = '\'' then ['\'', '\''] else [c]) ++ singleBody indent cs := by
  rw [singleBody, doubled, List.flatMap_cons, endsWithBreak_cons hc]
  split
  · rw [List.cons_append, List.singleton_append, indentLines_char rfl, indentLines_char rfl]
    rfl
  · rw [List.singleton_append, indentLines_char hc]
    rfl

theorem singleBody_blanks {blanks : List Char} (h : ∀ c ∈ blanks, isBlank c = true) (indent : Nat)
    (cs : List Char) : singleBody indent (blanks ++ cs) = blanks ++ singleBody indent cs := by
  induction blanks with
  | nil => rfl
  | cons c blanks ih =>
      have hc := h c List.mem_cons_self
      have hquote : c ≠ '\'' := by
        rintro rfl
        cases hc
      rw [List.cons_append, singleBody_char (not_isBreak_of_isBlank hc), if_neg hquote,
        ih fun d hd => h d (List.mem_cons_of_mem c hd)]
      rfl

theorem doubled_breaks {breaks : List Char} (h : ∀ c ∈ breaks, isBreak c = true) :
    doubled breaks = breaks := by
  induction breaks with
  | nil => rfl
  | cons c breaks ih =>
      have hquote : c ≠ '\'' := by
        rintro rfl
        cases h _ List.mem_cons_self
      rw [doubled, List.flatMap_cons, if_neg hquote]
      exact congrArg (c :: ·) (ih fun d hd => h d (List.mem_cons_of_mem c hd))

/-- Behind breaks the next line is indented, be it empty. -/
theorem singleBody_breaks {breaks : List Char} (hne : breaks ≠ [])
    (h : ∀ c ∈ breaks, isBreak c = true) (indent : Nat) (hcs : StopsAt isBreak cs) :
    singleBody indent (breaks ++ cs) = breaks ++ (spaces indent ++ singleBody indent cs) := by
  have hdoubled : doubled (breaks ++ cs) = breaks ++ doubled cs := by
    rw [doubled, List.flatMap_append, ← doubled, doubled_breaks h]
    rfl
  rw [singleBody, hdoubled, indentLines_breaks hne h]
  cases cs with
  | nil =>
      rw [List.append_nil, endsWithBreak_breaks hne h]
      simp [doubled, indentLines, singleBody, endsWithBreak, last?]
  | cons c cs =>
      have hc := hcs c rfl
      rw [endsWithBreak_append _ (List.cons_ne_nil c cs), singleBody, doubled, List.flatMap_cons]
      split
      · rw [List.cons_append, indentLines_line rfl]
        simp
      · rw [List.singleton_append, indentLines_line hc]
        simp

/-- A text that can stand between single quotes: printable, without line feeds, and without a space
beside a break. -/
structure IsSingle (cs : List Char) : Prop where
  printable : ∀ c ∈ cs, isPrintable c = true
  noFeed : ∀ c ∈ cs, c ≠ '\n'
  spaceBreak : hasPair (· == ' ') isBreak cs = false
  breakSpace : hasPair isBreak (· == ' ') cs = false

theorem IsSingle.of_append (before : List Char) (h : IsSingle (before ++ cs)) : IsSingle cs where
  printable c hc := h.printable c (List.mem_append_right before hc)
  noFeed c hc := h.noFeed c (List.mem_append_right before hc)
  spaceBreak := not_hasPair_of_append before h.spaceBreak
  breakSpace := not_hasPair_of_append before h.breakSpace

theorem stopsAt_singleBody (h : StopsAt isGap cs) (indent : Nat) (rest : List Char) :
    StopsAt isGap (singleBody indent cs ++ '\'' :: rest) := by
  cases cs with
  | nil => exact stopsAt_cons rfl rest
  | cons c cs =>
      rw [singleBody_char (not_isBreak_of_not_isGap (h c rfl))]
      split
      · exact stopsAt_cons rfl _
      · exact stopsAt_cons (h c rfl) _

/-- Such a text begins with blanks, with breaks, or with a character of a word. -/
theorem IsSingle.cases (h : IsSingle cs) (hne : cs ≠ []) :
    (∃ blanks next, blanks ≠ [] ∧ cs = blanks ++ next ∧ (∀ c ∈ blanks, isBlank c = true) ∧
      StopsAt isGap next) ∨
    (∃ breaks next, breaks ≠ [] ∧ cs = breaks ++ next ∧ (∀ c ∈ breaks, isBreak c = true) ∧
      StopsAt isGap next) ∨
    ∃ c next, cs = c :: next ∧ isGap c = false := by
  obtain ⟨c, cs, rfl⟩ := List.exists_cons_of_ne_nil hne
  by_cases hblank : isBlank c = true
  · obtain ⟨blanks, next, rfl, hblanks, hnext⟩ := exists_run isBlank cs
    have hall : ∀ d ∈ c :: blanks, isBlank d = true := List.forall_mem_cons.mpr ⟨hblank, hblanks⟩
    refine .inl ⟨c :: blanks, next, List.cons_ne_nil c blanks, rfl, hall, ?_⟩
    have hspaces : ∀ d ∈ c :: blanks, (d == ' ') = true := by
      intro d hd
      have hprint := h.printable d (List.mem_append_left next hd)
      simp [eq_space_of_isBlank hprint (hall d hd)]
    have hbreak : StopsAt isBreak next :=
      stopsAt_of_not_hasPair (List.cons_ne_nil c blanks) hspaces h.spaceBreak
    intro d hd
    simp [isGap, hnext d hd, hbreak d hd]
  by_cases hbreak : isBreak c = true
  · obtain ⟨breaks, next, rfl, hbreaks, hnext⟩ := exists_run isBreak cs
    have hall : ∀ d ∈ c :: breaks, isBreak d = true := List.forall_mem_cons.mpr ⟨hbreak, hbreaks⟩
    refine .inr (.inl ⟨c :: breaks, next, List.cons_ne_nil c breaks, rfl, hall, ?_⟩)
    have hspace : StopsAt (· == ' ') next :=
      stopsAt_of_not_hasPair (List.cons_ne_nil c breaks) hall h.breakSpace
    intro d hd
    have hprint := h.printable d (List.mem_append_right (c :: breaks) (List.mem_of_mem_head? hd))
    have hblank : isBlank d = false := by
      by_contra hblank
      have heq := eq_space_of_isBlank hprint (by simpa using hblank)
      simpa [heq] using hspace d hd
    simp [isGap, hblank, hnext d hd]
  · exact .inr (.inr ⟨c, cs, rfl, by simp [isGap, hblank, hbreak]⟩)

/-- The closing quote. -/
theorem spanQuoted_close (fuel : Nat) (hrest : StopsAt (· == '\'') rest) :
    spanQuoted false (fuel + 1) false ('\'' :: rest) = some ([], rest) := by
  rw [spanQuoted.eq_def]
  dsimp only
  rw [Bool.false_and, if_neg Bool.false_ne_true, if_neg (by decide), if_neg Bool.false_ne_true,
    if_pos rfl]
  split
  · cases hrest '\'' rfl
  · rfl

/-- Two quotes stand for one. -/
theorem spanQuoted_quotes (fuel : Nat) (cs : List Char) :
    spanQuoted false (fuel + 1) false ('\'' :: '\'' :: cs) =
      (spanQuoted false fuel false cs).map fun (more, last) => ('\'' :: more, last) := by
  rw [spanQuoted.eq_def]
  dsimp only
  rw [Bool.false_and, if_neg Bool.false_ne_true, if_neg (by decide), if_neg Bool.false_ne_true,
    if_pos rfl]
  show (spanQuoted false fuel false cs >>= fun (more, last) => some ('\'' :: more, last)) = _
  cases spanQuoted false fuel false cs <;> rfl

/-- A text without characters to escape is read back from between single quotes. -/
theorem spanQuoted_single {indent : Nat} (hindent : 0 < indent) (h : IsSingle cs)
    (hrest : StopsAt (· == '\'') rest) (hfuel : (singleBody indent cs).length < fuel) :
    spanQuoted false fuel false (singleBody indent cs ++ '\'' :: rest) = some (cs, rest) := by
  induction fuel generalizing cs with
  | zero => omega
  | succ fuel ih =>
      by_cases hnil : cs = []
      · subst hnil
        exact spanQuoted_close fuel hrest
      obtain ⟨blanks, next, hne, rfl, hall, hnext⟩ | ⟨breaks, next, hne, rfl, hall, hnext⟩ |
        ⟨c, next, rfl, hgap⟩ := h.cases hnil
      · have hgap := spanGap_blanks hall (stopsAt_singleBody hnext indent rest)
        rw [singleBody_blanks hall, List.length_append] at hfuel
        have hpos := List.length_pos_iff.mpr hne
        have hlater := @ih next (h.of_append blanks) (by omega)
        obtain ⟨c, more, rfl⟩ := List.exists_cons_of_ne_nil hne
        have hc := isGap_of_isBlank (hall c List.mem_cons_self)
        rw [List.cons_append] at hgap
        rw [singleBody_blanks hall, List.append_assoc, List.cons_append,
          spanQuoted_gap false fuel hc hgap rfl, hlater]
        rfl
      · have hbreak : StopsAt isBreak next := fun d hd => not_isBreak_of_not_isGap (hnext d hd)
        have hgap := spanGap_breaks hne hall indent (stopsAt_singleBody hnext indent rest)
        have hline : Gap.endsAtLineStart ⟨[], breaks, indent, none⟩ = false := by
          have hzero : (indent == 0) = false := by simp; omega
          rw [Gap.endsAtLineStart, hzero, Bool.and_false]
        have hfold : foldBreaks breaks = breaks :=
          foldBreaks_of_forall_ne fun d hd => h.noFeed d (List.mem_append_left next hd)
        rw [singleBody_breaks hne hall indent hbreak, List.length_append, List.length_append]
          at hfuel
        have hpos := List.length_pos_iff.mpr hne
        have hlater := @ih next (h.of_append breaks) (by omega)
        obtain ⟨c, more, rfl⟩ := List.exists_cons_of_ne_nil hne
        have hc := isGap_of_isBreak (hall c List.mem_cons_self)
        rw [List.cons_append] at hgap
        rw [singleBody_breaks hne hall indent hbreak, List.append_assoc, List.append_assoc,
          List.cons_append, spanQuoted_gap false fuel hc hgap hline, hlater]
        simp [Gap.folded, hfold]
      · have hbreak := not_isBreak_of_not_isGap hgap
        have hnext : IsSingle next := IsSingle.of_append [c] h
        rw [singleBody_char hbreak, List.length_append] at hfuel
        rw [singleBody_char hbreak, List.append_assoc]
        by_cases hquote : c = '\''
        · rw [if_pos hquote, List.length_cons, List.length_singleton] at hfuel
          have hlater := @ih next hnext (by omega)
          rw [if_pos hquote, List.cons_append, List.singleton_append, spanQuoted_quotes, hlater,
            hquote]
          rfl
        · rw [if_neg hquote, List.length_singleton] at hfuel
          have hlater := @ih next hnext (by omega)
          rw [if_neg hquote, List.singleton_append, spanQuoted_char false fuel hgap hquote nofun,
            hlater]
          rfl

end Equilibrium.Yaml
