import Equilibrium.Proofs.Yaml.Quoted

/-!
# Reading literal blocks

A text of several lines is written as a literal block: a header, and the lines indented. Read back,
it is the same text with the same line breaks at its end (`spanBlock_literal`). The block ends where
a line is indented by fewer columns. -/

namespace Equilibrium.Yaml

variable {cs rest breaks more : List Char} {c : Char} {indent n fuel : Nat}

/-! ### Empty lines -/

theorem skipEmptyLines_breaks (h : ∀ c ∈ breaks, isBreak c = true) (given : Option Nat)
    (before : List Char) (cs : List Char) :
    skipEmptyLines given before 0 0 (breaks ++ cs) =
      skipEmptyLines given (before ++ breaks) 0 0 cs := by
  induction breaks generalizing before with
  | nil => simp
  | cons c breaks ih =>
      have hc := h c List.mem_cons_self
      have hblank := not_isBlank_of_isBreak hc
      rw [isBlank, Bool.or_eq_false_iff] at hblank
      rw [List.cons_append, skipEmptyLines, hblank.1, hblank.2]
      simp only [Bool.and_false, Bool.false_eq_true, if_false, if_pos hc, Nat.max_self]
      rw [ih fun d hd => h d (List.mem_cons_of_mem c hd), List.append_assoc, List.singleton_append]

theorem skipEmptyLines_spaces (given : Option Nat) (before : List Char) (column : Nat)
    (h : given.all (column + n ≤ ·) = true) (cs : List Char) :
    skipEmptyLines given before column 0 (spaces n ++ cs) =
      skipEmptyLines given before (column + n) 0 cs := by
  induction n generalizing column with
  | zero => rfl
  | succ n ih =>
      have hspaces : spaces (n + 1) ++ cs = ' ' :: (spaces n ++ cs) := rfl
      have hindenting : given.all (column < ·) = true := by
        cases given with
        | none => rfl
        | some indent =>
            simp at h ⊢
            omega
      rw [hspaces, skipEmptyLines, hindenting]
      simp only [beq_self_eq_true, Bool.and_true, if_true]
      rw [ih (column + 1) (by rwa [Nat.add_right_comm]), Nat.add_right_comm, Nat.add_assoc]

theorem skipEmptyLines_nil (given : Option Nat) (before : List Char) (column : Nat) :
    skipEmptyLines given before column 0 [] = some ⟨before, column, column, []⟩ := by
  rw [skipEmptyLines, Nat.max_zero]

/-- The next line begins at a character that is no break. -/
theorem skipEmptyLines_stop (given : Option Nat) (before : List Char) (column : Nat)
    (hc : isBreak c = false) (h : given.all (column < ·) = true → isBlank c = false)
    (cs : List Char) :
    skipEmptyLines given before column 0 (c :: cs) = some ⟨before, column, column, c :: cs⟩ := by
  rw [skipEmptyLines, hc, Nat.max_zero]
  by_cases hindenting : given.all (column < ·) = true
  · have hblank := h hindenting
    rw [isBlank, Bool.or_eq_false_iff] at hblank
    simp [hblank.1, hblank.2]
  · simp [hindenting]

/-! ### Lines -/

/-- What follows the block: a line that is indented by fewer columns, or nothing. -/
theorem skipEmptyLines_end (hbreaks : ∀ c ∈ breaks, isBreak c = true) (hn : n < indent)
    (hrest : StopsAt isGap rest) :
    skipEmptyLines (some indent) [] 0 0 (breaks ++ (spaces n ++ rest)) =
      some ⟨breaks, n, n, rest⟩ := by
  have hle : (some indent).all (0 + n ≤ ·) = true := by
    simp
    omega
  rw [skipEmptyLines_breaks hbreaks, skipEmptyLines_spaces _ _ _ hle, Nat.zero_add, List.nil_append]
  cases rest with
  | nil => exact skipEmptyLines_nil _ _ _
  | cons c rest =>
      have hc := hrest c rfl
      exact skipEmptyLines_stop _ _ _ (not_isBreak_of_not_isGap hc)
        (fun _ => not_isBlank_of_not_isGap hc) rest

/-- Line breaks alone are those behind the last line. -/
theorem spanBlockLines_breaks (hbreaks : ∀ c ∈ breaks, isBreak c = true) (hn : n < indent)
    (hrest : StopsAt isGap rest) (hfuel : 0 < fuel) (lastBreak : List Char) (lastBlank : Bool) :
    (skipEmptyLines (some indent) [] 0 0 (breaks ++ (spaces n ++ rest))).bind
      (spanBlockLines true indent fuel lastBreak lastBlank) =
      some ⟨[], lastBreak, breaks, rest⟩ := by
  obtain ⟨fuel, rfl⟩ : ∃ k, fuel = k + 1 := ⟨fuel - 1, by omega⟩
  rw [skipEmptyLines_end hbreaks hn hrest, Option.bind_some]
  cases rest with
  | nil => rfl
  | cons c rest =>
      have hne : n ≠ indent := by omega
      rw [spanBlockLines.eq_def]
      exact if_pos hne

/-- A text begins with breaks, then a line. -/
theorem exists_line (h : ∃ c ∈ cs, isBreak c = false) :
    ∃ breaks line more, cs = breaks ++ (line ++ more) ∧ (∀ c ∈ breaks, isBreak c = true) ∧
      line ≠ [] ∧ (∀ c ∈ line, isBreak c = false) ∧
      (more = [] ∨ ∃ b next, more = b :: next ∧ isBreak b = true) := by
  obtain ⟨breaks, next, rfl, hbreaks, hnext⟩ := exists_run isBreak cs
  obtain ⟨line, more, rfl, hline, hmore⟩ := exists_run (fun c => !isBreak c) next
  refine ⟨breaks, line, more, rfl, hbreaks, ?_, fun c hc => by simpa using hline c hc, ?_⟩
  · rintro rfl
    cases more with
    | nil =>
        obtain ⟨c, hc, hnot⟩ := h
        rw [hbreaks c (by simpa using hc)] at hnot
        cases hnot
    | cons c more =>
        have hbreak := hnext c rfl
        have hnot := hmore c rfl
        simp [hbreak] at hnot
  · cases more with
    | nil => exact .inl rfl
    | cons c more => exact .inr ⟨c, more, rfl, by simpa using hmore c rfl⟩

theorem indentLines_false_line {line : List Char} (h : ∀ c ∈ line, isBreak c = false) (indent : Nat)
    (cs : List Char) :
    indentLines indent false (line ++ cs) = line ++ indentLines indent false cs := by
  induction line with
  | nil => rfl
  | cons c line ih =>
      rw [List.cons_append, indentLines_char (h c List.mem_cons_self),
        ih fun d hd => h d (List.mem_cons_of_mem c hd)]
      rfl

/-- One line of a literal block, with the break before it and the empty lines between. -/
theorem spanBlockLines_line {line behind lastBreak : List Char}
    (hbreaks : ∀ c ∈ breaks, isBreak c = true) (hne : line ≠ [])
    (hline : ∀ c ∈ line, isBreak c = false) {b : Char} (hb : isBreak b = true)
    (lastBlank : Bool) :
    ∃ blank, (skipEmptyLines (some indent) [] 0 0
        (breaks ++ (spaces indent ++ (line ++ b :: behind)))).bind
          (spanBlockLines true indent (fuel + 1) lastBreak lastBlank) =
      ((skipEmptyLines (some indent) [] 0 0 behind).bind
        (spanBlockLines true indent fuel [b] blank)).map fun lines =>
          { lines with text := lastBreak ++ breaks ++ line ++ lines.text } := by
  obtain ⟨c, line, rfl⟩ := List.exists_cons_of_ne_nil hne
  have hc := hline c List.mem_cons_self
  have hle : (some indent).all (0 + indent ≤ ·) = true := by simp
  have hskip :
      skipEmptyLines (some indent) [] 0 0
          (breaks ++ (spaces indent ++ (c :: line ++ b :: behind))) =
        some ⟨breaks, indent, indent, c :: line ++ b :: behind⟩ := by
    rw [skipEmptyLines_breaks hbreaks, skipEmptyLines_spaces _ _ _ hle, Nat.zero_add,
      List.nil_append, List.cons_append]
    exact skipEmptyLines_stop _ _ _ hc (by simp) _
  have hspan : (c :: line ++ b :: behind).span (!isBreak ·) = (c :: line, b :: behind) :=
    span_append (fun d hd => by simp [hline d hd]) (stopsAt_cons (by simp [hb]) behind)
  rw [List.span_eq_takeWhile_dropWhile, Prod.mk.injEq] at hspan
  obtain ⟨htake, hdrop⟩ := hspan
  refine ⟨isBlank c, ?_⟩
  rw [hskip, Option.bind_some, spanBlockLines.eq_def]
  rw [List.cons_append] at htake hdrop ⊢
  dsimp only
  rw [if_neg (by simp), htake, hdrop]
  simp only [Bool.not_true, Bool.false_and, Bool.false_eq_true, if_false, List.drop_succ_cons,
    List.drop_zero, List.take_succ_cons, List.take_zero, Option.bind_eq_bind]
  cases skipEmptyLines (some indent) [] 0 0 behind with
  | none => rfl
  | some next => exact Option.map_eq_bind.symm

theorem indentLines_core {line : List Char} (hbreaks : ∀ c ∈ breaks, isBreak c = true)
    (hne : line ≠ []) (hline : ∀ c ∈ line, isBreak c = false) {b : Char} (hb : isBreak b = true)
    (indent : Nat) (next : List Char) :
    indentLines indent true (breaks ++ (line ++ b :: next)) =
      breaks ++ (spaces indent ++ (line ++ b :: indentLines indent true next)) := by
  obtain ⟨c, line, rfl⟩ := List.exists_cons_of_ne_nil hne
  have hbreak : indentLines indent false (b :: next) = b :: indentLines indent true next :=
    indentLines_breaks (List.cons_ne_nil b []) (by simpa using hb) indent next
  rw [indentLines_true_breaks hbreaks, List.cons_append,
    indentLines_line (hline c List.mem_cons_self), ← List.cons_append, indentLines_false_line hline,
    hbreak]

/-- The lines of a text that ends with a line, the break behind it and further breaks. -/
theorem spanBlockLines_core {core trail : List Char} {b : Char}
    (hcore : ∃ c ∈ core, isBreak c = false) (hlast : ∀ c ∈ core.getLast?, isBreak c = false)
    (hb : isBreak b = true)
    (htrail : ∀ c ∈ trail, isBreak c = true) (hn : n < indent) (hrest : StopsAt isGap rest)
    (hfuel : core.length < fuel) (lastBreak : List Char) (lastBlank : Bool) :
    (skipEmptyLines (some indent) [] 0 0
      (indentLines indent true (core ++ b :: trail) ++ (spaces n ++ rest))).bind
        (spanBlockLines true indent fuel lastBreak lastBlank) =
      some ⟨lastBreak ++ core, [b], trail, rest⟩ := by
  induction fuel generalizing core lastBreak lastBlank with
  | zero => omega
  | succ fuel ih =>
      obtain ⟨breaks, line, more, rfl, hbreaks, hne, hline, hmore⟩ := exists_line hcore
      have hpos := List.length_pos_iff.mpr hne
      rw [List.length_append, List.length_append] at hfuel
      obtain rfl | ⟨b', next, rfl, hb'⟩ := hmore
      · have hfuel' : 0 < fuel := by omega
        obtain ⟨blank, hstep⟩ := @spanBlockLines_line breaks indent fuel line
          (indentLines indent true trail ++ (spaces n ++ rest)) lastBreak hbreaks hne hline b hb
          lastBlank
        have htail := spanBlockLines_breaks htrail hn hrest hfuel' [b] blank
        have hindent : indentLines indent true trail = trail := by
          simpa [indentLines] using indentLines_true_breaks htrail indent []
        rw [List.append_nil, List.append_assoc, indentLines_core hbreaks hne hline hb,
          List.append_assoc, List.append_assoc, List.append_assoc, List.cons_append, hstep, hindent,
          htail]
        simp
      · obtain ⟨blank, hstep⟩ := @spanBlockLines_line breaks indent fuel line
          (indentLines indent true (next ++ b :: trail) ++ (spaces n ++ rest)) lastBreak hbreaks
          hne hline b' hb' lastBlank
        have hnext : next ≠ [] := by
          rintro rfl
          have hlast' := hlast b' (by simp)
          rw [hb'] at hlast'
          cases hlast'
        have hlast' : ∀ c ∈ next.getLast?, isBreak c = false := by
          intro c hc
          refine hlast c ?_
          rw [← List.append_assoc, List.getLast?_append_of_ne_nil _ (List.cons_ne_nil b' next),
            ← List.singleton_append, List.getLast?_append_of_ne_nil _ hnext]
          exact hc
        have hcore' : ∃ c ∈ next, isBreak c = false :=
          ⟨next.getLast hnext, List.getLast_mem hnext,
            hlast' _ (List.getLast?_eq_getLast_of_ne_nil hnext)⟩
        have hlater := ih hcore' hlast' (by simp at hfuel; omega) [b'] blank
        rw [List.append_assoc, List.append_assoc, List.cons_append,
          indentLines_core hbreaks hne hline hb', List.append_assoc, List.append_assoc,
          List.append_assoc, List.cons_append, hstep, hlater]
        simp

/-! ### The header -/

/-- Whether the header gives the indentation. -/
def givesIndent (cs : List Char) : Bool := cs.head?.any fun c => c == ' ' || isBreak c

/-- What the header says of the last line breaks. -/
def chompingOf (cs : List Char) : Chomping :=
  match cs.reverse with
  | c :: d :: _ => if !isBreak c then .strip else if isBreak d then .keep else .clip
  | [c] => if isBreak c then .keep else .strip
  | [] => .strip

/-- The character for a chomping. -/
def chompingMark : Chomping → List Char
  | .strip => ['-']
  | .clip => []
  | .keep => ['+']

theorem literalHeader_eq (cs : List Char) :
    literalHeader cs =
      '|' :: ((if givesIndent cs then ['2'] else []) ++ chompingMark (chompingOf cs)) := by
  unfold literalHeader chompingOf
  rw [← givesIndent]
  cases cs.reverse with
  | nil => cases givesIndent cs <;> rfl
  | cons c more =>
      cases more with
      | nil =>
          dsimp only
          cases givesIndent cs <;> cases isBreak c <;> rfl
      | cons d more =>
          dsimp only
          cases givesIndent cs <;> cases isBreak c <;> cases isBreak d <;> rfl

theorem spanHeader_eq (given : Bool) (k : Chomping) (rest : List Char) :
    spanHeader ((if given then ['2'] else []) ++ chompingMark k ++ '\n' :: rest) =
      (k, if given then some 2 else none, '\n' :: rest) := by
  cases given <;> cases k <;> rfl

/-! ### Blocks -/

/-- A text of several lines as far as it decides how its block ends: breaks alone, or a core that
ends with a line, and breaks behind it. -/
theorem exists_core (cs : List Char) :
    ∃ core trail, cs = core ++ trail ∧ (∀ c ∈ trail, isBreak c = true) ∧
      (core = [] ∨ ((∃ c ∈ core, isBreak c = false) ∧ ∀ c ∈ core.getLast?, isBreak c = false)) := by
  obtain ⟨run, rest, hrun, hbreaks, hrest⟩ := exists_run isBreak cs.reverse
  refine ⟨rest.reverse, run.reverse, ?_, ?_, ?_⟩
  · rw [← List.reverse_append, ← hrun, List.reverse_reverse]
  · exact fun c hc => hbreaks c (List.mem_reverse.mp hc)
  · cases rest with
    | nil => exact .inl rfl
    | cons c rest =>
        have hc := hrest c rfl
        refine .inr ⟨⟨c, by simp, hc⟩, ?_⟩
        intro d hd
        obtain rfl : c = d := by simpa using hd
        exact hc

theorem chompingOf_line (before : List Char) (hc : isBreak c = false) :
    chompingOf (before ++ [c]) = .strip := by
  rw [chompingOf, List.reverse_append, List.reverse_singleton, List.singleton_append]
  cases before.reverse <;> simp [hc]

theorem chompingOf_break (before : List Char) (hc : isBreak c = false) {b : Char}
    (hb : isBreak b = true) : chompingOf (before ++ [c, b]) = .clip := by
  simp [chompingOf, hc, hb]

theorem chompingOf_breaks (before : List Char) {trail : List Char}
    (htrail : ∀ c ∈ trail, isBreak c = true)
    (h : trail ≠ [] ∧ before = [] ∨ 2 ≤ trail.length) : chompingOf (before ++ trail) = .keep := by
  rw [chompingOf, List.reverse_append]
  have hmem : ∀ c ∈ trail.reverse, isBreak c = true := fun c hc => htrail c (List.mem_reverse.mp hc)
  have hlength : trail.reverse.length = trail.length := List.length_reverse
  cases hreverse : trail.reverse with
  | nil =>
      rw [hreverse] at hlength
      obtain ⟨hne, -⟩ | hle := h
      · exact absurd (List.length_eq_zero_iff.mp hlength.symm) hne
      · simp at hlength
        omega
  | cons c more =>
      rw [hreverse] at hmem hlength
      have hc := hmem c List.mem_cons_self
      cases more with
      | nil =>
          obtain ⟨-, rfl⟩ | hle := h
          · simp [hc]
          · simp at hlength
            omega
      | cons d more => simp [hc, hmem d (by simp)]

/-- What a chomping leaves of the lines of a block. -/
def BlockLines.chomped (lines : BlockLines) : Chomping → List Char
  | .strip => lines.text
  | .clip => lines.text ++ lines.lastBreak
  | .keep => lines.text ++ (lines.lastBreak ++ lines.trailing)

theorem newLine_eq (n : Nat) (before : List Char) :
    newLine n before = (if endsWithBreak before then [] else ['\n']) ++ spaces n := by
  rw [newLine]
  split <;> rfl

theorem indentLines_concat_break {b : Char} (hb : isBreak b = true) (indent : Nat) (behind : Bool)
    (cs : List Char) :
    indentLines indent behind (cs ++ [b]) = indentLines indent behind cs ++ [b] := by
  induction cs generalizing behind with
  | nil => simp [indentLines, hb]
  | cons c cs ih =>
      rw [List.cons_append, indentLines, indentLines]
      split
      · rw [ih, List.cons_append]
      · rw [ih, List.append_assoc, List.cons_append]

/-- The lines of a text give the text, chomped as its header says. -/
theorem exists_spanBlockLines (hne : cs ≠ []) (hn : n < indent) (hrest : StopsAt isGap rest)
    (hfuel : cs.length < fuel) :
    ∃ lines : BlockLines, lines.chomped (chompingOf cs) = cs ∧ lines.rest = rest ∧
      (skipEmptyLines (some indent) [] 0 0
        (indentLines indent true cs ++ (newLine n cs ++ rest))).bind
          (spanBlockLines true indent fuel [] false) = some lines := by
  obtain ⟨core, trail, rfl, htrail, rfl | ⟨hcore, hlast⟩⟩ := exists_core cs
  · rw [List.nil_append] at hne ⊢
    have hindent : indentLines indent true trail = trail := by
      simpa [indentLines] using indentLines_true_breaks htrail indent []
    have hread := spanBlockLines_breaks htrail hn hrest (Nat.zero_lt_of_lt hfuel) [] false
    have hkeep : chompingOf trail = .keep := chompingOf_breaks [] htrail (.inl ⟨hne, rfl⟩)
    refine ⟨⟨[], [], trail, rest⟩, by rw [hkeep]; rfl, rfl, ?_⟩
    rw [newLine_eq, endsWithBreak_breaks hne htrail, hindent]
    exact hread
  · have hcorene : core ≠ [] := by
      rintro rfl
      obtain ⟨c, hc, -⟩ := hcore
      cases hc
    obtain ⟨before, d, hd⟩ := List.eq_nil_or_concat core |>.resolve_left hcorene
    rw [List.concat_eq_append] at hd
    have hdbreak : isBreak d = false := hlast d (by rw [hd]; simp)
    cases trail with
    | nil =>
        rw [List.append_nil] at hfuel ⊢
        have hread := spanBlockLines_core hcore hlast (show isBreak '\n' = true from rfl)
          htrail hn hrest hfuel [] false
        have hnoBreak : endsWithBreak core = false := by
          rw [hd, endsWithBreak_append _ (List.cons_ne_nil d [])]
          simp [endsWithBreak, last?, hdbreak]
        have hstrip : chompingOf core = .strip := by
          rw [hd]
          exact chompingOf_line before hdbreak
        refine ⟨⟨core, ['\n'], [], rest⟩, by rw [hstrip]; rfl, rfl, ?_⟩
        rw [indentLines_concat_break rfl, List.append_assoc] at hread
        rw [newLine_eq, hnoBreak, if_neg Bool.false_ne_true, List.append_assoc]
        exact hread
    | cons b trail =>
        obtain ⟨hb, htrail'⟩ := List.forall_mem_cons.mp htrail
        have hfuel' : core.length < fuel := by
          rw [List.length_append] at hfuel
          omega
        have hread := spanBlockLines_core hcore hlast hb htrail' hn hrest hfuel' [] false
        refine ⟨⟨core, [b], trail, rest⟩, ?_, rfl, ?_⟩
        · cases trail with
          | nil =>
              have hclip : chompingOf (core ++ [b]) = .clip := by
                rw [hd, List.append_assoc]
                exact chompingOf_break before hdbreak hb
              rw [hclip]
              rfl
          | cons b' trail =>
              have hkeep : chompingOf (core ++ b :: b' :: trail) = .keep :=
                chompingOf_breaks core htrail (.inr (by simp))
              rw [hkeep]
              rfl
        · have hends : endsWithBreak (core ++ b :: trail) = true := by
            rw [endsWithBreak_append _ (List.cons_ne_nil b trail)]
            exact endsWithBreak_breaks (List.cons_ne_nil b trail) htrail
          rw [newLine_eq, hends, if_pos rfl, List.nil_append]
          exact hread

theorem length_le_indentLines (indent : Nat) (behind : Bool) (cs : List Char) :
    cs.length ≤ (indentLines indent behind cs).length := by
  induction cs generalizing behind with
  | nil => exact Nat.zero_le _
  | cons c cs ih =>
      rw [indentLines]
      split
      · have hcs := ih true
        simp only [List.length_cons]
        omega
      · have hcs := ih false
        simp only [List.length_append, List.length_cons]
        omega

/-- The first line of a text that does not begin with a blank or break shows the indentation. -/
theorem skipEmptyLines_first (hc : isGap c = false) (given : Option Nat)
    (hgiven : given.all (indent ≤ ·) = true) (indented : List Char) :
    skipEmptyLines given [] 0 0 (spaces indent ++ (c :: indented)) =
      some ⟨[], indent, indent, c :: indented⟩ := by
  rw [skipEmptyLines_spaces _ _ _ (by rwa [Nat.zero_add]), Nat.zero_add]
  exact skipEmptyLines_stop _ _ _ (not_isBreak_of_not_isGap hc)
    (fun _ => not_isBlank_of_not_isGap hc) _

/-- The indentation is found, whether the header gives it or the first line shows it. -/
theorem exists_given {column : Nat} {tail : List Char} {first : EmptyLines} (hne : cs ≠ [])
    (hprint : ∀ c ∈ cs, isPrintable c = true)
    (hfirst :
      skipEmptyLines (some (column + 2)) [] 0 0 (indentLines (column + 2) true cs ++ tail) =
        some first) :
    ∃ given : Option Nat,
      ((if givesIndent cs then some 2 else none).map fun k => (max (column : Int) 0).toNat + k) =
          given ∧
        skipEmptyLines given [] 0 0 (indentLines (column + 2) true cs ++ tail) = some first ∧
        given.getD (max first.widest (max ((column : Int) + 1) 1).toNat) = column + 2 := by
  cases hgives : givesIndent cs with
  | true => exact ⟨some (column + 2), by simp, hfirst, rfl⟩
  | false =>
      refine ⟨none, rfl, ?_⟩
      obtain ⟨c, more, rfl⟩ := List.exists_cons_of_ne_nil hne
      have hc : isGap c = false := by
        simp only [givesIndent, List.head?_cons, Option.any_some, Bool.or_eq_false_iff] at hgives
        have hblank : isBlank c = false := by
          by_contra hblank
          have hspace := eq_space_of_isBlank (hprint c List.mem_cons_self) (by simpa using hblank)
          simp [hspace] at hgives
        simp [isGap, hblank, hgives.2]
      have hline := indentLines_line (not_isBreak_of_not_isGap hc) (column + 2) more
      rw [indentLines_char (not_isBreak_of_not_isGap hc)] at hline
      rw [hline, List.append_assoc, List.cons_append] at hfirst ⊢
      have hskip := fun given h => @skipEmptyLines_first c (column + 2) hc given h
        (indentLines (column + 2) false more ++ tail)
      cases (hskip (some (column + 2)) (by simp)).symm.trans hfirst
      refine ⟨hskip none rfl, ?_⟩
      simp only [Option.getD_none]
      omega

/-- A text of several lines is read back from its literal block, whose lines are indented by two
more columns than the list or mapping around it. -/
theorem spanBlock_literal {column : Nat} (hne : cs ≠ []) (hprint : ∀ c ∈ cs, isPrintable c = true)
    (hn : n ≤ column) (hrest : StopsAt isGap rest) :
    ∃ header, literalHeader cs = '|' :: header ∧
      spanBlock true column
        (header ++ '\n' :: (indentLines (column + 2) true cs ++ (newLine n cs ++ rest))) =
        some (cs, rest) := by
  refine ⟨_, literalHeader_eq cs, ?_⟩
  have hfuel :
      cs.length < (indentLines (column + 2) true cs ++ (newLine n cs ++ rest)).length + 1 := by
    have hle := length_le_indentLines (column + 2) true cs
    rw [List.length_append]
    omega
  have hindent : n < column + 2 := by omega
  obtain ⟨lines, hchomped, rfl, hread⟩ := exists_spanBlockLines hne hindent hrest hfuel
  obtain ⟨first, hfirst, hlines⟩ := Option.bind_eq_some_iff.mp hread
  obtain ⟨given, hgiven, hskip, hwidth⟩ := exists_given hne hprint hfirst
  have hheader (written : List Char) : dropHeaderEnd ('\n' :: written) = some written := rfl
  have htail (k : Chomping) : lines.chomped k = lines.text ++
      (match k with
        | .strip => []
        | .clip => lines.lastBreak
        | .keep => lines.lastBreak ++ lines.trailing) := by
    cases k with
    | strip => exact (List.append_nil _).symm
    | clip => rfl
    | keep => rfl
  rw [spanBlock, spanHeader_eq]
  simp only [hheader, hgiven, hskip, hwidth, hlines, Option.bind_eq_bind, Option.bind_some]
  exact congrArg (fun text => some (text, lines.rest)) ((htail _).symm.trans hchomped)

end Equilibrium.Yaml
