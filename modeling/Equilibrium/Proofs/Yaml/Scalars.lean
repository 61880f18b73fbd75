import Equilibrium.Proofs.Yaml.Tokens

/-!
# Written texts as scalars

A text is read back as a scalar in whatever style it is written: as a value, in the line behind its
indicator or as a block (`leads_text`), and as a key before its colon (`leads_writtenKey`). -/

namespace Equilibrium.Yaml

open Scanner
open String (utf8Len utf8Len_cons utf8Len_append utf8ByteSize_ofList)

variable {cs rest last : List Char} {c : Char} {n indent column : Nat} {broken : Bool}

/-! ### Single scalars -/

namespace Scanner

variable {s u : Scanner}

theorem noteCandidate_fields (h : s.noteCandidate = some u) :
    u.rest = s.rest ∧ u.flow = s.flow ∧ u.indent = s.indent := by
  rw [noteCandidate] at h
  split at h
  · cases h
    exact ⟨rfl, rfl, rfl⟩
  · obtain ⟨v, hv, hu⟩ := Option.bind_eq_some_iff.mp h
    cases hu
    unfold dropCandidate at hv
    split at hv
    · split at hv <;> cases hv
      exact ⟨rfl, rfl, rfl⟩
    · cases hv
      exact ⟨rfl, rfl, rfl⟩

theorem quoted_eq {double : Bool}
    (h : spanQuoted double s.rest.length false (s.rest.drop 1) = some (cs, last)) :
    s.quoted double = s.noteCandidate.map fun s =>
      ({ s.moveTo last with keyAllowed := false }.emit (.scalar (String.ofList cs) false)) := by
  rw [quoted]
  cases hu : s.noteCandidate with
  | none => rfl
  | some u =>
      rw [← (noteCandidate_fields hu).1] at h
      simp only [Option.bind_eq_bind, Option.bind_some, h, Option.map_some]
      rfl

theorem plain_eq (hflow : s.flow = 0)
    (h : spanPlain false (s.indent + 1).toNat s.rest.length false s.rest =
      some (cs, broken, last)) :
    s.plain = s.noteCandidate.map fun s =>
      ({ s.moveTo last with keyAllowed := broken }.emit (.scalar (String.ofList cs) true)) := by
  rw [plain]
  cases hu : s.noteCandidate with
  | none => rfl
  | some u =>
      obtain ⟨hrest, huflow, hindent⟩ := noteCandidate_fields hu
      have hflow' : decide (0 < u.flow) = false := by simp [huflow, hflow]
      rw [← hrest, ← hindent] at h
      simp only [Option.bind_eq_bind, Option.bind_some, hflow', h, Option.map_some]
      rfl

end Scanner

/-- A text that is read back from between its quotes is a scalar. -/
theorem isScalar_quoted {q : Char} {double : Bool} {body : List Char}
    (hq : isGap q = false ∧ q ≠ '#') (htoken : ∀ (s : Scanner) cs, s.token q cs = s.quoted double)
    (h : ∀ fuel, body.length < fuel →
      spanQuoted double fuel false (body ++ q :: rest) = some (cs, rest)) (outer : Int) :
    IsScalar outer (q :: (body ++ [q])) rest (.scalar (String.ofList cs) false) false rest := by
  have hwritten : q :: (body ++ [q]) ++ rest = q :: (body ++ q :: rest) := by simp
  refine ⟨List.cons_ne_nil _ _, stopsAt_cons (by simp [hq]) _, ?_⟩
  intro s hs _ _ c more hmore
  rw [hwritten] at hs hmore
  cases hmore
  rw [htoken]
  refine quoted_eq ?_
  have hfuel : body.length < s.rest.length := by
    rw [hs]
    simp only [List.length_cons, List.length_append]
    omega
  have hspan := h s.rest.length hfuel
  rw [hs] at hspan ⊢
  exact hspan

/-- A text between double quotes. -/
theorem isScalar_double (outer : Int) (cs rest : List Char) :
    IsScalar outer ('"' :: (cs.flatMap escapeDouble ++ ['"'])) rest
      (.scalar (String.ofList cs) false) false rest := by
  refine isScalar_quoted (by decide) (fun s cs => ?_) (fun fuel hfuel => spanQuoted_double hfuel)
    outer
  simp [token, atDocumentMark]

/-- A text between single quotes. -/
theorem isScalar_single (hindent : 0 < indent) (h : IsSingle cs) (hrest : StopsAt (· == '\'') rest)
    (outer : Int) :
    IsScalar outer ('\'' :: (singleBody indent cs ++ ['\''])) rest
      (.scalar (String.ofList cs) false) false rest := by
  refine isScalar_quoted (by decide) (fun s cs => ?_)
    (fun fuel hfuel => spanQuoted_single hindent h hrest hfuel) outer
  simp [token, atDocumentMark]

/-- The first character of a text without quotes is no indicator. -/
theorem IsPlain.head_cases {tail : List Char} (h : IsPlain (c :: tail)) :
    isGap c = false ∧
      c ∉ [',', '[', ']', '\x7b', '\x7d', '#', '&', '*', '!', '|', '>', '\'', '"', '%', '@',
        '\x60'] ∧
      (c ∈ ['-', '?', ':'] → tail ≠ [] ∧ endsWord tail = false) := by
  obtain ⟨-, -, hbreak, -, -, hindicator, -⟩ := h.safe_cases
  have hblank : isBlank c = false := by
    have hbegins := h.flows.begins c rfl
    rw [Bool.or_eq_false_iff] at hbegins
    exact hbegins.1
  rw [beginsWithIndicator, Bool.or_eq_false_iff] at hindicator
  refine ⟨?_, by simpa [beginsWith] using hindicator.1, fun hc => ?_⟩
  · rw [isGap, hblank, hbreak c List.mem_cons_self]
    rfl
  · have hbegins : beginsWith ['-', '?', ':'] (c :: tail) = true := by simpa [beginsWith] using hc
    have hends : endsWord tail = false := by simpa [hbegins] using hindicator.2
    refine ⟨?_, hends⟩
    rintro rfl
    cases hends

theorem IsPlain.begins (h : IsPlain cs) (rest : List Char) : Begins (cs ++ rest) := by
  obtain ⟨d, tail, rfl⟩ := List.exists_cons_of_ne_nil h.ne_nil
  obtain ⟨hgap, hne, -⟩ := h.head_cases
  simp only [List.mem_cons, List.not_mem_nil, or_false, not_or] at hne
  exact stopsAt_cons (by simp [hgap, hne]) _

theorem IsPlain.not_atDocumentMark (h : IsPlain cs)
    (hrest : StopsAt (fun d => d == '-' || d == '.') rest) :
    atDocumentMark (cs ++ rest) = false := by
  obtain ⟨-, -, -, hdashes, hdots, -, -⟩ := h.safe_cases
  -- three equal characters would stand in the text itself
  have hthree : ∀ d, d = '-' ∨ d = '.' → ∀ more, cs ++ rest = d :: d :: d :: more →
      [d, d, d].isPrefixOf cs = true := by
    intro d hd more hmore
    have hstop : ∀ tail, rest ≠ d :: tail := by
      rintro tail rfl
      have hstops := hrest d rfl
      obtain rfl | rfl := hd <;> cases hstops
    match cs, h.ne_nil, hmore with
    | [a], _, hmore => exact absurd (List.cons.inj hmore).2 (hstop _)
    | [a, b], _, hmore => exact absurd (List.cons.inj (List.cons.inj hmore).2).2 (hstop _)
    | a :: b :: e :: tail, _, hmore =>
        simp only [List.cons_append, List.cons.injEq] at hmore
        obtain ⟨rfl, rfl, rfl, -⟩ := hmore
        simp
  unfold atDocumentMark
  split
  next more hmore => rw [hthree '-' (.inl rfl) more hmore] at hdashes; cases hdashes
  next more hmore => rw [hthree '.' (.inr rfl) more hmore] at hdots; cases hdots
  next => rfl

/-- A text without quotes is not taken for anything else. -/
theorem IsPlain.token_eq (h : IsPlain cs) (hrest : StopsAt (fun d => d == '-' || d == '.') rest)
    {s : Scanner} (hflow : s.flow = 0) {more : List Char} (hmore : cs ++ rest = c :: more) :
    s.token c more = s.plain := by
  obtain ⟨d, tail, rfl⟩ := List.exists_cons_of_ne_nil h.ne_nil
  obtain ⟨rfl, rfl⟩ := List.cons.inj hmore
  have hmark := h.not_atDocumentMark hrest
  obtain ⟨hgap, hne, hword⟩ := h.head_cases
  have hends : d ∈ ['-', '?', ':'] → endsWord (tail ++ rest) = false := fun hd => by
    rw [endsWord_append (hword hd).1]
    exact (hword hd).2
  have hplain : beginsPlain false d (tail ++ rest) = true := by
    rw [isGap, Bool.or_eq_false_iff] at hgap
    rw [beginsPlain]
    split
    next hd =>
      have hdash := hends (by simp_all)
      cases htail : tail ++ rest with
      | nil => rfl
      | cons e more =>
          rw [htail, endsWord, Bool.or_eq_false_iff] at hdash
          simp [hdash.1]
    next =>
      split
      next hd => simp [hends (by simp_all)]
      next =>
        have hmem := decide_eq_false hne
        rw [hgap.1, hgap.2, hmem]
        rfl
  have hindicator : ∀ e, e ∈ ['-', '?', ':'] → ¬ (d = e ∧ endsWord (tail ++ rest) = true) := by
    rintro e he ⟨rfl, hend⟩
    rw [hends he] at hend
    cases hend
  have hdash := hindicator '-' (by simp)
  have hquestion := hindicator '?' (by simp)
  have hcolon := hindicator ':' (by simp)
  rw [List.cons_append] at hmark
  simp only [List.mem_cons, List.not_mem_nil, or_false, not_or] at hne
  show s.token d (tail ++ rest) = s.plain
  simp only [token, hflow, hmark, hne, hplain, hdash, hquestion, hcolon, Nat.lt_irrefl,
    decide_false, false_and, and_false, Bool.false_eq_true, if_false, if_true, false_or]

/-- A text without quotes. -/
theorem isScalar_plain (h : IsPlain cs) {outer : Int}
    (hend : EndsPlain (outer + 1).toNat rest broken last) :
    IsScalar outer cs rest (.scalar (String.ofList cs) true) broken last := by
  have hrest : StopsAt (fun d => d == '-' || d == '.') rest ∧ 0 < rest.length := by
    cases hend with
    | colon => exact ⟨stopsAt_cons rfl _, Nat.succ_pos _⟩
    | line => exact ⟨stopsAt_cons rfl _, Nat.succ_pos _⟩
  refine ⟨h.ne_nil, h.begins rest, ?_⟩
  intro s hs hflow hindent c more hmore
  rw [h.token_eq hrest.1 hflow hmore]
  have hfuel : cs.length < s.rest.length := by
    rw [hs, List.length_append]
    omega
  have hspan := h.spanPlain_append hend hfuel
  rw [← hs, ← hindent] at hspan
  exact plain_eq hflow hspan

/-! ### Styles -/

variable {s : String} {col : Nat} {key : Bool} {outer : List Nat} {tokens : List Token}

theorem not_needsEscapes_iff : needsEscapes cs = false ↔
    (∀ c ∈ cs, isPrintable c = true) ∧ hasPair (· == ' ') isBreak cs = false := by
  simp [needsEscapes]

theorem isPlain_of_isSelf (hself : isSelf s = true) (hsafe : isPlainSafe s.toList = true)
    (hprint : ∀ c ∈ s.toList, isPrintable c = true) : IsPlain s.toList := by
  refine ⟨?_, hprint, hsafe⟩
  intro hempty
  obtain rfl : s = "" := String.ext hempty
  exact absurd hself (by decide +kernel)

/-- What the style of a text says of the text. -/
theorem styleOf_cases (s : String) :
    (styleOf s = .plain ∧ isSelf s = true ∧ IsPlain s.toList) ∨
      (styleOf s = .single ∧ IsSingle s.toList) ∨
      styleOf s = .double ∨
      (styleOf s = .literal ∧ '\n' ∈ s.toList ∧ ∀ c ∈ s.toList, isPrintable c = true) := by
  unfold styleOf
  dsimp only
  by_cases hfeed : '\n' ∈ s.toList
  · rw [if_pos hfeed]
    by_cases hdouble : (needsEscapes s.toList || last? s.toList == some ' ') = true
    · rw [if_pos hdouble]
      exact .inr (.inr (.inl rfl))
    · rw [if_neg hdouble]
      rw [Bool.or_eq_true, not_or, Bool.not_eq_true, not_needsEscapes_iff] at hdouble
      exact .inr (.inr (.inr ⟨rfl, hfeed, hdouble.1.1⟩))
  · rw [if_neg hfeed]
    by_cases hdouble : (needsEscapes s.toList || hasPair isBreak (· == ' ') s.toList) = true
    · rw [if_pos hdouble]
      exact .inr (.inr (.inl rfl))
    · rw [if_neg hdouble]
      rw [Bool.or_eq_true, not_or, Bool.not_eq_true, Bool.not_eq_true, not_needsEscapes_iff]
        at hdouble
      obtain ⟨⟨hprint, hspaceBreak⟩, hbreakSpace⟩ := hdouble
      split
      next hplain =>
        rw [Bool.and_eq_true] at hplain
        exact .inl ⟨rfl, hplain.1, isPlain_of_isSelf hplain.1 hplain.2 hprint⟩
      next =>
        have hne : ∀ c ∈ s.toList, c ≠ '\n' := fun c hc hcn => hfeed (hcn ▸ hc)
        exact .inr (.inl ⟨rfl, hprint, hne, hspaceBreak, hbreakSpace⟩)

/-- The scalar that a written text is read as. -/
def scalarOf (s : String) : Token := .scalar s (styleOf s = .plain)

theorem writeText_plain (h : styleOf s = .plain) (indent : Nat) :
    writeText indent s = s.toList := by
  rw [writeText, h]

theorem writeText_single (h : styleOf s = .single) (indent : Nat) :
    writeText indent s = '\'' :: (singleBody indent s.toList ++ ['\'']) := by
  rw [writeText, h]
  show '\'' :: indentLines indent false (doubled s.toList) ++
    (if endsWithBreak s.toList then spaces indent else []) ++ ['\''] = _
  rw [singleBody]
  simp

theorem writeText_double (h : styleOf s = .double) (indent : Nat) :
    writeText indent s = '"' :: (s.toList.flatMap escapeDouble ++ ['"']) := by
  rw [writeText, h]
  rfl

theorem writeText_literal (h : styleOf s = .literal) (indent : Nat) :
    writeText indent s = literalHeader s.toList ++ '\n' :: indentLines indent true s.toList := by
  rw [writeText, h]

/-- A written text begins a token. -/
theorem begins_writeText (indent : Nat) (s : String) (rest : List Char) :
    Begins (writeText indent s ++ rest) := by
  obtain ⟨hstyle, -, hplain⟩ | ⟨hstyle, -⟩ | hstyle | ⟨hstyle, -⟩ := styleOf_cases s
  · rw [writeText_plain hstyle]
    exact hplain.begins rest
  · rw [writeText_single hstyle]
    exact stopsAt_cons rfl _
  · rw [writeText_double hstyle]
    exact stopsAt_cons rfl _
  · rw [writeText_literal hstyle, literalHeader_eq]
    exact stopsAt_cons rfl _

theorem writeText_ne_nil (indent : Nat) (s : String) : writeText indent s ≠ [] := by
  obtain ⟨hstyle, -, hplain⟩ | ⟨hstyle, -⟩ | hstyle | ⟨hstyle, -⟩ := styleOf_cases s
  · rw [writeText_plain hstyle]
    exact hplain.ne_nil
  · rw [writeText_single hstyle]
    exact List.cons_ne_nil _ _
  · rw [writeText_double hstyle]
    exact List.cons_ne_nil _ _
  · rw [writeText_literal hstyle]
    simp

/-! ### Values -/

theorem newLine_of_concat (written : List Char) (hc : isBreak c = false) (n : Nat) :
    newLine n (written ++ [c]) = '\n' :: spaces n := by
  have hend : endsWithBreak (written ++ [c]) = false := by
    rw [endsWithBreak_append _ (List.cons_ne_nil c []), endsWithBreak, last?]
    simpa using hc
  rw [newLine_eq, hend]
  rfl

theorem newLine_append (before : List Char) (hne : cs ≠ []) (n : Nat) :
    newLine n (before ++ cs) = newLine n cs := by
  rw [newLine_eq, newLine_eq, endsWithBreak_append _ hne]

theorem newLine_quoted {q : Char} (hq : isBreak q = false) (body : List Char) (n : Nat) :
    newLine n (q :: (body ++ [q])) = '\n' :: spaces n := newLine_of_concat (q :: body) hq n

theorem endsWithBreak_indentLines (indent : Nat) (behind : Bool) (cs : List Char) :
    endsWithBreak (indentLines indent behind cs) = endsWithBreak cs := by
  have hlast : (indentLines indent behind cs).getLast? = cs.getLast? := by
    induction cs generalizing behind with
    | nil => rfl
    | cons c cs ih =>
        rw [indentLines]
        split
        · rw [List.getLast?_cons, List.getLast?_cons, ih]
        · rw [List.getLast?_append_of_ne_nil _ (List.cons_ne_nil _ _), List.getLast?_cons,
            List.getLast?_cons, ih]
  rw [endsWithBreak, last?, hlast, endsWithBreak, last?]

/-- A value without quotes. -/
theorem leads_plain (h : IsPlain cs) (hcol : column < col) (hn : n ≤ column) (hrest : Begins rest) :
    Leads ⟨' ' :: (cs ++ (newLine n cs ++ rest)), col, key, column :: outer, tokens⟩
      (Config.closed
        ⟨rest, n, true, column :: outer, .scalar (String.ofList cs) true :: tokens⟩) := by
  obtain ⟨before, c, rfl⟩ := List.eq_nil_or_concat' cs |>.resolve_left h.ne_nil
  have hlast : isBreak c = false := h.flows.oneLine c (by simp)
  have hless : n < ((column : Int) + 1).toNat := by omega
  rw [newLine_of_concat before hlast, List.cons_append (a := '\n')]
  exact leads_value (isScalar_plain h (.line hless hrest.stopsAt_isGap)) rfl rfl hcol hrest

/-- A text is a value, in whatever style it is written. -/
theorem leads_text (s : String) (hcol : column < col) (hn : n ≤ column) (hrest : Begins rest) :
    Leads
      ⟨' ' :: (writeText (column + 2) s ++ (newLine n (writeText (column + 2) s) ++ rest)), col, key,
        column :: outer, tokens⟩
      (Config.closed ⟨rest, n, true, column :: outer, scalarOf s :: tokens⟩) := by
  obtain ⟨hstyle, -, hplain⟩ | ⟨hstyle, hsingle⟩ | hstyle | ⟨hstyle, hfeed, hprint⟩ :=
    styleOf_cases s
  · have hleads := @leads_plain _ rest n column col key outer tokens hplain hcol hn hrest
    rw [String.ofList_toList] at hleads
    rw [writeText_plain hstyle, scalarOf, hstyle]
    exact hleads
  · have hscalar := isScalar_single (Nat.succ_pos (column + 1)) hsingle
      (stopsAt_cons rfl (spaces n ++ rest) : StopsAt (· == '\'') ('\n' :: (spaces n ++ rest)))
      column
    rw [String.ofList_toList] at hscalar
    rw [writeText_single hstyle, scalarOf, hstyle, newLine_quoted rfl, List.cons_append (a := '\n')]
    exact leads_value hscalar rfl rfl hcol hrest
  · have hscalar := isScalar_double column s.toList ('\n' :: (spaces n ++ rest))
    rw [String.ofList_toList] at hscalar
    rw [writeText_double hstyle, scalarOf, hstyle, newLine_quoted rfl, List.cons_append (a := '\n')]
    exact leads_value hscalar rfl rfl hcol hrest
  · have hne := List.ne_nil_of_mem hfeed
    have hleads := @leads_literal rest outer n column col key tokens s.toList hne hprint hcol hn
      hrest
    have hlines : indentLines (column + 2) true s.toList ≠ [] := by
      intro hnil
      have hlength := length_le_indentLines (column + 2) true s.toList
      rw [hnil] at hlength
      exact hne (List.eq_nil_of_length_eq_zero (Nat.le_zero.mp hlength))
    have hnewLine :
        newLine n (literalHeader s.toList ++ '\n' :: indentLines (column + 2) true s.toList) =
          newLine n s.toList := by
      rw [List.append_cons, newLine_append _ hlines, newLine_eq, newLine_eq,
        endsWithBreak_indentLines]
    rw [String.ofList_toList] at hleads
    rw [writeText_literal hstyle, scalarOf, hstyle, hnewLine, List.append_assoc,
      List.cons_append (a := '\n')]
    exact hleads

/-! ### Keys -/

theorem utf8Len_flatMap_le {f : Char → List Char} {k : Nat}
    (h : ∀ c, utf8Len (f c) ≤ k * c.utf8Size) (cs : List Char) :
    utf8Len (cs.flatMap f) ≤ k * utf8Len cs := by
  induction cs with
  | nil => exact Nat.zero_le _
  | cons c cs ih =>
      have hc := h c
      rw [List.flatMap_cons, utf8Len_append, utf8Len_cons, Nat.mul_add]
      omega

theorem utf8Len_toList (s : String) : utf8Len s.toList = s.utf8ByteSize := by
  rw [← utf8ByteSize_ofList, String.ofList_toList]

theorem mem_of_mem_doubled (h : c ∈ doubled cs) : c ∈ cs := by
  obtain ⟨d, hd, hc⟩ := List.mem_flatMap.mp h
  obtain rfl : c = d := by
    split at hc
    next hquote => simpa [hquote] using hc
    next => simpa using hc
  exact hd

/-- In one line there is nothing to indent. -/
theorem singleBody_line (hline : ∀ c ∈ cs, isBreak c = false) (indent : Nat) :
    singleBody indent cs = doubled cs := by
  have hend : endsWithBreak cs = false := by
    rw [endsWithBreak, last?, Option.any_eq_false]
    intro c hc
    simp [hline c (List.mem_of_mem_getLast? hc)]
  have hlines := @indentLines_false_line (doubled cs) (fun c hc => hline c (mem_of_mem_doubled hc))
    indent []
  rw [List.append_nil, indentLines, List.append_nil] at hlines
  rw [singleBody, hlines, hend]
  exact List.append_nil _

/-- A text of one line stays in one line, and does not become much longer. -/
theorem writeText_line (hline : ∀ c ∈ s.toList, isBreak c = false) (indent : Nat) :
    (∀ c ∈ writeText indent s, isBreak c = false) ∧
      utf8Len (writeText indent s) ≤ 6 * s.utf8ByteSize + 2 := by
  have hquoted : ∀ {q : Char} {body : List Char}, isBreak q = false → q.utf8Size = 1 →
      (∀ c ∈ body, isBreak c = false) → utf8Len body ≤ 6 * s.utf8ByteSize →
        (∀ c ∈ q :: (body ++ [q]), isBreak c = false) ∧
          utf8Len (q :: (body ++ [q])) ≤ 6 * s.utf8ByteSize + 2 := by
    intro q body hq hsize hbody hlength
    refine ⟨?_, ?_⟩
    · simpa [or_imp, forall_and, hq] using hbody
    · simp only [utf8Len_cons, utf8Len_append, String.utf8Len_nil, hsize]
      omega
  obtain ⟨hstyle, -, hplain⟩ | ⟨hstyle, hsingle⟩ | hstyle | ⟨hstyle, hfeed, -⟩ := styleOf_cases s
  · rw [writeText_plain hstyle, utf8Len_toList]
    exact ⟨hline, by omega⟩
  · have hlength : utf8Len (doubled s.toList) ≤ 6 * utf8Len s.toList := by
      refine utf8Len_flatMap_le (fun c => ?_) _
      split
      next hquote =>
        rw [hquote]
        decide
      next =>
        simp only [utf8Len_cons, String.utf8Len_nil]
        omega
    rw [utf8Len_toList] at hlength
    rw [writeText_single hstyle, singleBody_line hline]
    exact hquoted rfl rfl (fun c hc => hline c (mem_of_mem_doubled hc)) hlength
  · have hlength := utf8Len_flatMap_le (fun c => (escapeDouble_line c).2) s.toList
    rw [utf8Len_toList] at hlength
    rw [writeText_double hstyle]
    refine hquoted rfl rfl (fun c hc => ?_) hlength
    obtain ⟨d, -, hc⟩ := List.mem_flatMap.mp hc
    exact ((escapeDouble_line d).1 c hc).2
  · exact absurd (hline '\n' hfeed) (by decide)

/-- A text that is not too long is a key before its colon. -/
theorem leads_writtenKey {k : Config} {found : List Token} (hlong : isLongKey s = false)
    (hk : k.rest = writeText (indent + 1) s ++ ':' :: cs) (hcs : endsWord cs = true)
    (hkey : k.keyAllowed = true)
    (hrolls : Rolls .mappingStart k.column k.indents k.tokens outer found) :
    Leads k ⟨cs, k.column + (writeText (indent + 1) s).length + 1, false, k.column :: outer,
      .value :: scalarOf s :: .key :: found⟩ := by
  rw [isLongKey, Bool.or_eq_false_iff, decide_eq_false_iff_not, List.any_eq_false] at hlong
  obtain ⟨hshort, hchars⟩ := hlong
  have hline : ∀ c ∈ s.toList, isBreak c = false := by
    intro c hc
    have hnot := hchars c hc
    simp only [Bool.or_eq_true, not_or, Bool.not_eq_true] at hnot
    exact hnot.1.1
  obtain ⟨hbreaks, hbytes⟩ := writeText_line hline (indent + 1)
  refine leads_key hk hcs hkey (fun around => ?_) hbreaks (by omega) rfl hrolls
  obtain ⟨hstyle, -, hplain⟩ | ⟨hstyle, hsingle⟩ | hstyle | ⟨hstyle, hfeed, -⟩ := styleOf_cases s
  · have hscalar := isScalar_plain hplain (.colon hcs : EndsPlain (around + 1).toNat _ _ _)
    rw [String.ofList_toList] at hscalar
    rw [writeText_plain hstyle, scalarOf, hstyle]
    exact hscalar
  · have hscalar := isScalar_single (Nat.succ_pos indent) hsingle
      (stopsAt_cons rfl cs : StopsAt (· == '\'') (':' :: cs)) around
    rw [String.ofList_toList] at hscalar
    rw [writeText_single hstyle, scalarOf, hstyle]
    exact hscalar
  · have hscalar := isScalar_double around s.toList (':' :: cs)
    rw [String.ofList_toList] at hscalar
    rw [writeText_double hstyle, scalarOf, hstyle]
    exact hscalar
  · exact absurd (hline '\n' hfeed) (by decide)

/-! ### Characters -/

theorem mem_indentLines (behind : Bool) (h : c ∈ indentLines indent behind cs) :
    c ∈ cs ∨ c = ' ' := by
  induction cs generalizing behind with
  | nil => cases h
  | cons d cs ih =>
      rw [indentLines] at h
      split at h
      · obtain rfl | h := List.mem_cons.mp h
        · exact .inl List.mem_cons_self
        · exact (ih true h).imp_left (List.mem_cons_of_mem d)
      · obtain h | h := List.mem_append.mp h
        · split at h
          · exact .inr (List.eq_of_mem_replicate h)
          · cases h
        · obtain rfl | h := List.mem_cons.mp h
          · exact .inl List.mem_cons_self
          · exact (ih false h).imp_left (List.mem_cons_of_mem d)

/-- Only printable characters are written. -/
theorem isPrintable_of_mem_writeText (s : String) (h : c ∈ writeText indent s) :
    isPrintable c = true := by
  have hquoted : ∀ {q : Char} {body : List Char}, isPrintable q = true →
      (∀ c ∈ body, isPrintable c = true) → ∀ c ∈ q :: (body ++ [q]), isPrintable c = true := by
    intro q body hq hbody
    simpa [or_imp, forall_and, hq] using hbody
  obtain ⟨hstyle, -, hplain⟩ | ⟨hstyle, hsingle⟩ | hstyle | ⟨hstyle, -, hprint⟩ := styleOf_cases s
  · rw [writeText_plain hstyle] at h
    exact hplain.printable c h
  · rw [writeText_single hstyle] at h
    refine hquoted rfl (fun d hd => ?_) c h
    rw [singleBody, List.mem_append] at hd
    obtain hd | hd := hd
    · obtain hd | rfl := mem_indentLines false hd
      · exact hsingle.printable d (mem_of_mem_doubled hd)
      · rfl
    · split at hd
      · rw [List.eq_of_mem_replicate hd]
        rfl
      · cases hd
  · rw [writeText_double hstyle] at h
    refine hquoted rfl (fun d hd => ?_) c h
    obtain ⟨e, -, hd⟩ := List.mem_flatMap.mp hd
    exact ((escapeDouble_line e).1 d hd).1
  · have hheader : (literalHeader s.toList).all isPrintable = true := by
      rw [literalHeader_eq]
      cases givesIndent s.toList <;> cases chompingOf s.toList <;> decide
    rw [writeText_literal hstyle] at h
    obtain h | h := List.mem_append.mp h
    · exact List.all_eq_true.mp hheader c h
    · obtain rfl | h := List.mem_cons.mp h
      · rfl
      · obtain h | rfl := mem_indentLines true h
        · exact hprint c h
        · rfl

end Equilibrium.Yaml
