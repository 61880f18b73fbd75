import Equilibrium.Proofs.Yaml.Gaps

/-!
# Reading plain scalars

A text that can be written without quotes (`IsPlain`) is read back as a plain scalar, whether it is
a key and its colon follows or a value and the next line follows (`IsPlain.spanPlain_append`). -/

namespace Equilibrium.Yaml

variable {cs rest last word more : List Char}

/-! ### Indicators inside -/

theorem not_hasIndicatorInside_of_append (before : List Char)
    (h : hasIndicatorInside (before ++ cs) = false) : hasIndicatorInside cs = false := by
  induction before with
  | nil => exact h
  | cons c before ih =>
      rw [List.cons_append, hasIndicatorInside, Bool.or_eq_false_iff] at h
      exact ih h.2

/-- No number sign stands behind blanks. -/
theorem not_beginsWith_sign {blanks : List Char} (hne : blanks ≠ [])
    (hblanks : ∀ c ∈ blanks, isBlank c = true) (h : hasIndicatorInside (blanks ++ more) = false) :
    beginsWith ['#'] more = false := by
  obtain ⟨before, b, rfl⟩ := List.eq_nil_or_concat blanks |>.resolve_left hne
  have hb : isBlank b = true := hblanks b (by simp)
  rw [List.concat_append] at h
  have hsuffix := not_hasIndicatorInside_of_append before h
  simp only [hasIndicatorInside, hb, Bool.true_or, Bool.true_and,
    Bool.or_eq_false_iff] at hsuffix
  exact hsuffix.1.2

/-! ### Words -/

/-- A word ends where a blank, a line break or the colon of a key stands. -/
def EndsWord (cs : List Char) : Prop := spanWord false cs = some ([], cs)

theorem endsWord_gap {c : Char} (h : isGap c = true) (cs : List Char) : EndsWord (c :: cs) := by
  simp only [isGap, Bool.or_eq_true] at h
  rw [EndsWord, spanWord, if_pos (by simp [h])]

theorem endsWord_colon (h : endsWord cs = true) : EndsWord (':' :: cs) := by
  rw [EndsWord, spanWord, if_pos (by simp [h])]

/-- The characters of a word up to its end. -/
theorem spanWord_append (hword : ∀ c ∈ word, isGap c = false)
    (hinside : hasIndicatorInside (word ++ more) = false) (hend : EndsWord (more ++ rest)) :
    spanWord false (word ++ (more ++ rest)) = some (word, more ++ rest) := by
  induction word with
  | nil => exact hend
  | cons c cs ih =>
      rw [List.cons_append, hasIndicatorInside, Bool.or_eq_false_iff, Bool.or_eq_false_iff]
        at hinside
      have hcolon : (c == ':' && endsWord (cs ++ (more ++ rest))) = false := by
        by_cases hnil : cs ++ more = []
        · have hne : (c == ':') = false := by simpa [hnil, endsWord] using hinside.1.1
          rw [hne, Bool.false_and]
        · rw [← List.append_assoc, endsWord_append hnil]
          exact hinside.1.1
      have hgap := hword c List.mem_cons_self
      have hcs := ih (fun d hd => hword d (List.mem_cons_of_mem c hd)) hinside.2
      rw [List.cons_append, spanWord, not_isBlank_of_not_isGap hgap, not_isBreak_of_not_isGap hgap,
        hcolon, hcs]
      rfl

/-! ### Plain scalars -/

/-- What follows a plain scalar, whether that begins a line, and where reading goes on: the colon of
a key, or the next line, which is indented by fewer columns. -/
inductive EndsPlain (indent : Nat) : List Char → Bool → List Char → Prop
  | colon {cs : List Char} (ends : endsWord cs = true) :
      EndsPlain indent (':' :: cs) false (':' :: cs)
  | line {n : Nat} {rest : List Char} (less : n < indent) (stops : StopsAt isGap rest) :
      EndsPlain indent ('\n' :: (spaces n ++ rest)) true rest

/-- A text of one line without indicators, from its first character on that is no blank. -/
structure Flows (cs : List Char) : Prop where
  inside : hasIndicatorInside cs = false
  oneLine : ∀ c ∈ cs, isBreak c = false
  begins : StopsAt (fun c => isBlank c || c == '#') cs
  ends : ∀ c ∈ cs.getLast?, isBlank c = false

/-- A text without indicators is a word, or a word, blanks and such a text again. -/
theorem Flows.cases (h : Flows cs) (hne : cs ≠ []) :
    ∃ word more, word ≠ [] ∧ (∀ c ∈ word, isGap c = false) ∧ cs = word ++ more ∧
      (more = [] ∨ ∃ blanks next, blanks ≠ [] ∧ (∀ c ∈ blanks, isBlank c = true) ∧
        more = blanks ++ next ∧ next ≠ [] ∧ StopsAt isGap next ∧ Flows next) := by
  obtain ⟨word, more, rfl, hword, hmore⟩ := exists_run (fun c => !isGap c) cs
  obtain ⟨blanks, next, rfl, hblanks, hnext⟩ := exists_run isBlank more
  have hword' : ∀ c ∈ word, isGap c = false := fun c hc => by simpa using hword c hc
  refine ⟨word, blanks ++ next, ?_, hword', rfl, ?_⟩
  · rintro rfl
    obtain ⟨c, more, hcs⟩ := List.exists_cons_of_ne_nil hne
    rw [List.nil_append] at hcs h
    have hblank := h.begins c (by rw [hcs]; rfl)
    have hbreak := h.oneLine c (by rw [hcs]; exact List.mem_cons_self)
    have hgap := hmore c (by rw [hcs]; rfl)
    simp_all [isGap]
  · by_cases hnil : next = []
    · subst hnil
      refine .inl ?_
      rw [List.append_nil] at h ⊢
      by_contra hne
      have hlast : (word ++ blanks).getLast? = some (blanks.getLast hne) := by
        rw [List.getLast?_append_of_ne_nil _ hne, List.getLast?_eq_getLast_of_ne_nil hne]
      have hblank := h.ends _ hlast
      rw [hblanks _ (List.getLast_mem hne)] at hblank
      cases hblank
    · have hne' : blanks ≠ [] := by
        rintro rfl
        obtain ⟨c, more, rfl⟩ := List.exists_cons_of_ne_nil hnil
        have hgap := hmore c rfl
        have hblank := hnext c rfl
        have hbreak := h.oneLine c (by simp)
        simp_all [isGap]
      have hstops : StopsAt isGap next := by
        intro c hc
        have hbreak := h.oneLine c (by simp [List.mem_of_mem_head? hc])
        simp [isGap, hnext c hc, hbreak]
      have hinside := not_hasIndicatorInside_of_append word h.inside
      refine .inr ⟨blanks, next, hne', hblanks, rfl, hnil, hstops, ?_, ?_, ?_, ?_⟩
      · exact not_hasIndicatorInside_of_append blanks hinside
      · exact fun c hc => h.oneLine c (by simp [hc])
      · intro c hc
        have hsign := not_beginsWith_sign hne' hblanks hinside
        obtain ⟨more, rfl⟩ := List.head?_eq_some_iff.mp hc
        simpa [hnext c rfl, beginsWith] using hsign
      · intro c hc
        refine h.ends c ?_
        rw [← List.append_assoc, List.getLast?_append_of_ne_nil _ hnil]
        exact hc

/-- One word of a plain scalar, and what the gap behind it means. -/
theorem spanPlain_word {indent : Nat} (hsign : beginsWith ['#'] cs = false)
    (hword : spanWord false cs = some (word, rest)) (hne : word ≠ [])
    {gap : Gap} {after : List Char} (hgap : spanGap rest = (gap, after)) (htab : gap.tab = none)
    (fuel : Nat) :
    spanPlain false indent (fuel + 1) false cs =
      if gap.breaks ≠ [] ∧ gap.column < indent then some (word, true, after)
      else (spanPlain false indent fuel gap.endsAtLineStart after).bind fun (more, later, last) =>
        if more = [] then some (word, !gap.breaks.isEmpty, last)
        else some (word ++ gap.folded ++ more, later, last) := by
  rw [spanPlain, hsign, hword]
  simp only [Option.bind_eq_bind, Option.bind_some, hne, hgap, htab]
  simp

/-- A text without indicators is read up to its end. -/
theorem Flows.spanPlain_append (h : Flows cs) (hne : cs ≠ []) {indent fuel : Nat} {broken : Bool}
    (hend : EndsPlain indent rest broken last) (hfuel : cs.length < fuel) :
    spanPlain false indent fuel false (cs ++ rest) = some (cs, broken, last) := by
  induction fuel generalizing cs with
  | zero => omega
  | succ fuel ih =>
      have hsign : beginsWith ['#'] (cs ++ rest) = false := by
        rw [beginsWith_append hne]
        obtain ⟨c, more, rfl⟩ := List.exists_cons_of_ne_nil hne
        have hc := h.begins c rfl
        simp [beginsWith] at hc ⊢
        exact hc.2
      have hinside := h.inside
      obtain ⟨word, more, hword, hgaps, rfl, hmore⟩ := h.cases hne
      have hlength : 0 < word.length := List.length_pos_iff.mpr hword
      rw [List.length_append] at hfuel
      rw [List.append_assoc] at hsign ⊢
      obtain rfl | ⟨blanks, next, hblanks, hall, rfl, hnext, hstops, hflows⟩ := hmore
      · have hends : EndsWord ([] ++ rest) := by
          cases hend with
          | colon hends => exact endsWord_colon hends
          | line => exact endsWord_gap rfl _
        have hspan := spanWord_append hgaps hinside hends
        rw [List.nil_append] at hspan hsign ⊢
        cases hend with
        | @colon cs hkey =>
            have hgap : spanGap (':' :: cs) = (⟨[], [], 0, none⟩, ':' :: cs) :=
              spanGap_nil (stopsAt_cons rfl cs)
            have hcolon : spanPlain false indent fuel false (':' :: cs) =
                some ([], false, ':' :: cs) := by
              obtain ⟨n, rfl⟩ : ∃ n, fuel = n + 1 := ⟨fuel - 1, by omega⟩
              have hword' := endsWord_colon hkey
              rw [EndsWord] at hword'
              simp [spanPlain, hword', beginsWith]
            rw [spanPlain_word hsign hspan hword hgap rfl, if_neg (by simp)]
            simp only [Gap.endsAtLineStart, List.isEmpty_nil, Bool.not_true, Bool.false_and, hcolon,
              Option.bind_some, if_true, List.append_nil]
        | @line n rest hless hstops =>
            have hgap := spanGap_newLine n hstops
            rw [spanPlain_word hsign hspan hword hgap rfl, if_pos ⟨List.cons_ne_nil _ _, hless⟩,
              List.append_nil]
      · obtain ⟨b, bs, hb⟩ := List.exists_cons_of_ne_nil hblanks
        have hends : EndsWord (blanks ++ next ++ rest) := by
          rw [hb]
          exact endsWord_gap (isGap_of_isBlank (hall b (hb ▸ List.mem_cons_self))) _
        have hspan := spanWord_append hgaps hinside hends
        have hstops' : StopsAt isGap (next ++ rest) := by
          intro c hc
          rw [List.head?_append_of_ne_nil _ hnext] at hc
          exact hstops c hc
        have hgap : spanGap (blanks ++ next ++ rest) = (⟨blanks, [], 0, none⟩, next ++ rest) := by
          rw [List.append_assoc, spanGap_blanks hall hstops']
        have hlater := ih hflows hnext (by simp at hfuel; omega)
        rw [spanPlain_word hsign hspan hword hgap rfl, if_neg (by simp)]
        simp only [Gap.endsAtLineStart, List.isEmpty_nil, Bool.not_true, Bool.false_and, hlater,
          Option.bind_some, hnext, if_false, Gap.folded, if_true, List.append_assoc]

/-! ### Texts without quotes -/

/-- A text that is written without quotes. -/
structure IsPlain (cs : List Char) : Prop where
  ne_nil : cs ≠ []
  printable : ∀ c ∈ cs, isPrintable c = true
  safe : isPlainSafe cs = true

namespace IsPlain

/-- The conditions on a text without quotes one by one. -/
theorem safe_cases (h : IsPlain cs) :
    cs.head? ≠ some ' ' ∧ last? cs ≠ some ' ' ∧ (∀ c ∈ cs, isBreak c = false) ∧
      ['-', '-', '-'].isPrefixOf cs = false ∧ ['.', '.', '.'].isPrefixOf cs = false ∧
      beginsWithIndicator cs = false ∧ hasIndicatorInside (cs.drop 1) = false := by
  have hsafe := h.safe
  simp only [isPlainSafe, Bool.not_eq_true', Bool.or_eq_false_iff, beq_eq_false_iff_ne,
    List.any_eq_false, Bool.not_eq_true] at hsafe
  tauto

theorem flows (h : IsPlain cs) : Flows cs := by
  obtain ⟨hhead, hlast, hbreak, -, -, hindicator, hinside⟩ := h.safe_cases
  obtain ⟨c, more, rfl⟩ := List.exists_cons_of_ne_nil h.ne_nil
  have hblank : isBlank c = false := by
    by_contra hc
    have hspace := eq_space_of_isBlank (h.printable c List.mem_cons_self) (by simpa using hc)
    exact hhead (by rw [hspace]; rfl)
  simp only [beginsWithIndicator, beginsWith, Bool.or_eq_false_iff, List.drop_succ_cons,
    List.drop_zero] at hindicator
  refine ⟨?_, hbreak, ?_, ?_⟩
  · have hcolon : (c == ':' && endsWord more) = false := by
      by_cases hc : c = ':'
      · subst hc
        simpa using hindicator.2
      · simp [hc]
    rw [hasIndicatorInside, hcolon, hblank, hbreak c List.mem_cons_self]
    simpa using hinside
  · refine stopsAt_cons ?_ more
    have hsign : c ≠ '#' := by
      rintro rfl
      simp at hindicator
    simp [hblank, hsign]
  · intro d hd
    by_contra hblank
    have hmem := List.mem_of_mem_getLast? hd
    have hspace := eq_space_of_isBlank (h.printable d hmem) (by simpa using hblank)
    exact hlast (hspace ▸ hd)

/-- A text without quotes is read back as a plain scalar. -/
theorem spanPlain_append (h : IsPlain cs) {indent fuel : Nat} {broken : Bool}
    (hend : EndsPlain indent rest broken last) (hfuel : cs.length < fuel) :
    spanPlain false indent fuel false (cs ++ rest) = some (cs, broken, last) :=
  h.flows.spanPlain_append h.ne_nil hend hfuel

end IsPlain

end Equilibrium.Yaml
