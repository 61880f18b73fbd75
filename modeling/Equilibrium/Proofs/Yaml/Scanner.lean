import Mathlib.Data.String.Basic
import Equilibrium.Proofs.Yaml.Gaps

/-!
# Runs of the scanner

A run of the scanner goes from token to token. Between two tokens it skips a gap, gives up places
where a key may have begun and closes lists and mappings (`Scanner.prepare`). One state of the
scanner reaches another if both lead to the same result (`Scanner.Reaches`); here that is said of
settled states (`Config`), which have no place left where a key may have begun. -/

namespace Equilibrium.Yaml.Scanner

open String (utf8Len utf8Len_cons)

variable {s t u : Scanner} {cs gap rest : List Char} {c : Char}

/-! ### Going on -/

/-- The column behind a text. -/
def columnBehind (column : Nat) (cs : List Char) : Nat :=
  cs.foldl (fun column c => if isBreak c then 0 else column + 1) column

theorem foldl_pass (s : Scanner) (cs : List Char) :
    cs.foldl pass s =
      { s with
        place := s.place + utf8Len cs, line := s.line + cs.countP isBreak
        column := columnBehind s.column cs } := by
  induction cs generalizing s with
  | nil => rfl
  | cons c cs ih =>
      rw [List.foldl_cons, ih, pass]
      split
      next h =>
        rw [columnBehind, columnBehind, List.foldl_cons, if_pos h, List.countP_cons_of_pos h,
          utf8Len_cons]
        simp only [Scanner.mk.injEq, true_and, and_true]
        omega
      next h =>
        rw [columnBehind, columnBehind, List.foldl_cons, if_neg h, List.countP_cons_of_neg h,
          utf8Len_cons]
        simp only [Scanner.mk.injEq, true_and, and_true]
        omega

theorem moveTo_eq (h : s.rest = cs ++ rest) :
    s.moveTo rest =
      { s with
        rest := rest, place := s.place + utf8Len cs, line := s.line + cs.countP isBreak
        column := columnBehind s.column cs } := by
  have htake : s.rest.take (s.rest.length - rest.length) = cs := by
    rw [h, List.length_append, Nat.add_sub_cancel, List.take_left]
  rw [moveTo, htake, foldl_pass]

theorem moveTo_self (s : Scanner) : s.moveTo s.rest = s := by
  rw [@moveTo_eq s [] s.rest rfl]
  rfl

theorem columnBehind_line (h : ∀ c ∈ cs, isBreak c = false) (column : Nat) :
    columnBehind column cs = column + cs.length := by
  induction cs generalizing column with
  | nil => rfl
  | cons c cs ih =>
      have hcs := ih (fun d hd => h d (List.mem_cons_of_mem c hd)) (column + 1)
      rw [columnBehind, List.foldl_cons, h c List.mem_cons_self, ← columnBehind]
      simp only [Bool.false_eq_true, if_false, hcs, List.length_cons]
      omega

theorem not_isBreak_of_mem_spaces {n : Nat} (h : c ∈ spaces n) : isBreak c = false := by
  rw [List.eq_of_mem_replicate h]
  rfl

/-- A line break and an indentation lead to its column. -/
theorem columnBehind_newLine {b : Char} (hb : isBreak b = true) (column n : Nat)
    (before : List Char) :
    columnBehind column (before ++ b :: spaces n) = n := by
  have hline := columnBehind_line (fun c => @not_isBreak_of_mem_spaces c n) 0
  rw [spaces, List.length_replicate, Nat.zero_add] at hline
  rw [columnBehind, List.foldl_append, List.foldl_cons, if_pos hb]
  exact hline

/-! ### Between two tokens -/

theorem length_skipBlanks_le (inFlow keyAllowed comment : Bool) (cs : List Char) :
    (skipBlanks inFlow keyAllowed comment cs).2.length ≤ cs.length := by
  induction cs generalizing keyAllowed comment with
  | nil => exact Nat.le_refl _
  | cons c cs ih =>
      rw [skipBlanks]
      split
      · exact Nat.le_succ_of_le (ih _ _)
      split
      · exact Nat.le_succ_of_le (ih _ _)
      split
      · exact Nat.le_succ_of_le (ih _ _)
      · exact Nat.le_refl _

/-- Behind the blanks that were skipped there are none left to skip. -/
theorem skipBlanks_skipBlanks (inFlow keyAllowed comment : Bool) (cs : List Char) :
    skipBlanks inFlow (skipBlanks inFlow keyAllowed comment cs).1 false
      (skipBlanks inFlow keyAllowed comment cs).2 = skipBlanks inFlow keyAllowed comment cs := by
  induction cs generalizing keyAllowed comment with
  | nil => rfl
  | cons c cs ih =>
      by_cases hbreak : isBreak c = true
      · rw [skipBlanks, if_pos hbreak]
        exact ih _ _
      by_cases hcomment : (comment || c == '#') = true
      · rw [skipBlanks, if_neg hbreak, if_pos hcomment]
        exact ih _ _
      by_cases hblank : (c == ' ' || (c == '\t' && (inFlow || !keyAllowed))) = true
      · rw [skipBlanks, if_neg hbreak, if_neg hcomment, if_pos hblank]
        exact ih _ _
      · have hsign : ¬ (false || c == '#') = true := by simp_all
        rw [skipBlanks, if_neg hbreak, if_neg hcomment, if_neg hblank]
        dsimp only
        rw [skipBlanks, if_neg hbreak, if_neg hsign, if_neg hblank]

/-- What happens between two tokens. -/
def prepare (s : Scanner) : Option Scanner := s.toNextToken.dropStale.map fun s => s.unroll s.column

theorem run_succ (fuel : Nat) (s : Scanner) :
    s.run (fuel + 1) = s.prepare.bind fun s =>
      match s.rest with
      | [] => (s.unroll (-1)).dropCandidate.map Scanner.tokens
      | c :: cs => (s.token c cs).bind (run fuel) := by
  rw [run, prepare]
  cases s.toNextToken.dropStale with
  | none => rfl
  | some s =>
      simp only [Option.bind_eq_bind, Option.bind_some, Option.map_some]
      cases (s.unroll s.column).rest with
      | nil => cases ((s.unroll s.column).unroll (-1)).dropCandidate <;> rfl
      | cons c cs => rfl

theorem unroll_eq (hflow : s.flow = 0) (column : Int) :
    s.unroll column =
      { s with
        indents := s.indents.dropWhile fun (i : Nat) => column < i
        tokens :=
          List.replicate (s.indents.takeWhile fun (i : Nat) => column < i).length Token.blockEnd ++
            s.tokens } := by
  have hdrop : s.indents.drop (s.indents.takeWhile fun (i : Nat) => decide (column < i)).length =
      s.indents.dropWhile fun (i : Nat) => decide (column < i) := by
    rw [← @List.drop_left _ (s.indents.takeWhile fun (i : Nat) => decide (column < i))
      (s.indents.dropWhile fun (i : Nat) => decide (column < i)), List.takeWhile_append_dropWhile]
  rw [unroll, if_neg (by omega)]
  simp only [hdrop]

/-- Whether a place where a key may have begun lies too far back. -/
def isStale (s : Scanner) (c : Candidate) : Bool := c.line < s.line || c.place + 1024 < s.place

theorem dropStale_eq_some_iff :
    s.dropStale = some t ↔ (∀ o ∈ s.candidates, ∀ c ∈ o, s.isStale c = true → c.required = false) ∧
      t = { s with candidates := s.candidates.map fun c => c.filter fun c => !s.isStale c } := by
  have hany : (s.candidates.any fun o => o.any fun c => s.isStale c && c.required) = true ↔
      ¬ ∀ o ∈ s.candidates, ∀ c ∈ o, s.isStale c = true → c.required = false := by
    simp [List.any_eq_true, Option.any_eq_true]
  by_cases h : ∀ o ∈ s.candidates, ∀ c ∈ o, s.isStale c = true → c.required = false
  · have hdrop : s.dropStale =
        some { s with candidates := s.candidates.map fun c => c.filter fun c => !s.isStale c } :=
      if_neg (mt hany.mp (not_not.mpr h))
    rw [hdrop, Option.some.injEq]
    exact ⟨fun heq => ⟨h, heq.symm⟩, fun heq => heq.2.symm⟩
  · have hdrop : s.dropStale = none := if_pos (hany.mpr h)
    rw [hdrop]
    exact ⟨nofun, fun heq => absurd heq.1 h⟩

theorem unroll_fields (column : Int) (s : Scanner) :
    (s.unroll column).rest = s.rest ∧ (s.unroll column).place = s.place ∧
      (s.unroll column).line = s.line ∧ (s.unroll column).column = s.column ∧
      (s.unroll column).flow = s.flow ∧ (s.unroll column).keyAllowed = s.keyAllowed ∧
      (s.unroll column).candidates = s.candidates := by
  unfold unroll
  split <;> exact ⟨rfl, rfl, rfl, rfl, rfl, rfl, rfl⟩

theorem unroll_unroll (column : Int) (s : Scanner) :
    (s.unroll column).unroll column = s.unroll column := by
  by_cases hflow : s.flow = 0
  · have hflow' : (s.unroll column).flow = 0 := (unroll_fields column s).2.2.2.2.1.trans hflow
    rw [unroll_eq hflow', unroll_eq hflow]
    have hhead := List.head?_dropWhile_not (fun (i : Nat) => decide (column < i)) s.indents
    cases hindents : s.indents.dropWhile fun (i : Nat) => decide (column < i) with
    | nil => rfl
    | cons i more =>
        rw [hindents] at hhead
        have hi : decide (column < (i : Int)) = false := hhead
        simp only [List.dropWhile_cons, List.takeWhile_cons, hi]
        rfl
  · have hsame : s.unroll column = s := if_pos (by omega)
    rw [hsame, hsame]

theorem toNextToken_eq_self
    (h : skipBlanks (0 < s.flow) s.keyAllowed false s.rest = (s.keyAllowed, s.rest)) :
    s.toNextToken = s := by
  rw [toNextToken, h]
  simp only [moveTo_self]

/-- A state between two tokens is prepared already. -/
theorem prepare_prepare (h : s.prepare = some t) : t.prepare = some t := by
  obtain ⟨v, hv, rfl⟩ := Option.map_eq_some_iff.mp h
  obtain ⟨-, rfl⟩ := dropStale_eq_some_iff.mp hv
  generalize hu : s.toNextToken = u
  have hskip : skipBlanks (0 < u.flow) u.keyAllowed false u.rest = (u.keyAllowed, u.rest) := by
    have hflow : u.flow = s.flow := by
      rw [← hu, toNextToken]
      simp only [moveTo, foldl_pass]
    rw [hflow, ← hu]
    exact skipBlanks_skipBlanks (0 < s.flow) s.keyAllowed false s.rest
  generalize hv :
    ({ u with candidates := u.candidates.map fun c => c.filter fun c => !u.isStale c } : Scanner) =
      v
  have hcolumn : v.column = u.column := by rw [← hv]
  obtain ⟨hrest, hplace, hline, hcol, hflow, hkey, hcandidates⟩ := unroll_fields v.column v
  have hnext : (v.unroll v.column).toNextToken = v.unroll v.column := by
    refine toNextToken_eq_self ?_
    rw [hrest, hflow, hkey, ← hv]
    exact hskip
  have hstale : (v.unroll v.column).isStale = u.isStale := by
    funext c
    rw [isStale, isStale, hline, hplace, ← hv]
  have hdrop : (v.unroll v.column).dropStale = some (v.unroll v.column) := by
    refine dropStale_eq_some_iff.mpr ⟨?_, ?_⟩
    · intro o ho c hc hstale'
      rw [hcandidates, ← hv] at ho
      obtain ⟨o', -, rfl⟩ := List.mem_map.mp ho
      rw [hstale] at hstale'
      have hnot := (Option.mem_filter_iff.mp hc).2
      simp [hstale'] at hnot
    · have hfilter : (v.unroll v.column).candidates.map (fun c => c.filter fun c => !u.isStale c) =
          (v.unroll v.column).candidates := by
        rw [hcandidates, ← hv]
        simp [List.map_map, Function.comp_def, Option.filter_filter]
      rw [hstale, hfilter]
  rw [prepare, hnext, hdrop, Option.map_some, hcol, unroll_unroll]

theorem length_rest_prepare_le (h : s.prepare = some t) : t.rest.length ≤ s.rest.length := by
  obtain ⟨v, hv, rfl⟩ := Option.map_eq_some_iff.mp h
  obtain ⟨-, rfl⟩ := dropStale_eq_some_iff.mp hv
  rw [(unroll_fields _ _).1]
  exact length_skipBlanks_le _ _ _ _

/-! ### Runs -/

/-- One state leads to the same result as another, which has no more left to read. -/
def Reaches (s t : Scanner) : Prop :=
  ∀ fuel, s.rest.length < fuel → ∃ fuel', t.rest.length < fuel' ∧ s.run fuel = t.run fuel'

theorem Reaches.refl (s : Scanner) : Reaches s s := fun fuel hfuel => ⟨fuel, hfuel, rfl⟩

theorem Reaches.trans (hst : Reaches s t) (htu : Reaches t u) : Reaches s u := by
  intro fuel hfuel
  obtain ⟨fuel', hfuel', hst⟩ := hst fuel hfuel
  obtain ⟨fuel'', hfuel'', htu⟩ := htu fuel' hfuel'
  exact ⟨fuel'', hfuel'', hst.trans htu⟩

theorem reaches_of_prepare (h : s.prepare = some t) : Reaches s t := by
  intro fuel hfuel
  have hle := length_rest_prepare_le h
  obtain ⟨fuel, rfl⟩ : ∃ n, fuel = n + 1 := ⟨fuel - 1, by omega⟩
  refine ⟨fuel + 1, by omega, ?_⟩
  rw [run_succ, run_succ, h, prepare_prepare h]

theorem reaches_of_token (h : s.prepare = some t) (hrest : t.rest = c :: cs)
    (htoken : t.token c cs = some u) (hlength : u.rest.length < t.rest.length) : Reaches s u := by
  intro fuel hfuel
  have hle := length_rest_prepare_le h
  obtain ⟨fuel, rfl⟩ : ∃ n, fuel = n + 1 := ⟨fuel - 1, by omega⟩
  refine ⟨fuel, by omega, ?_⟩
  rw [run_succ, h, Option.bind_some, hrest]
  simp only [htoken, Option.bind_some]

/-! ### Settled states -/

/-- What a settled state of the scanner looks like: outside of brackets, with no place left where a
key may have begun. -/
structure Config where
  rest : List Char
  column : Nat
  keyAllowed : Bool
  indents : List Nat
  /-- The tokens without the marks, the latest first. -/
  tokens : List Token

/-- The scanner is in a settled state. -/
structure Describes (k : Config) (s : Scanner) : Prop where
  rest : s.rest = k.rest
  column : s.column = k.column
  flow : s.flow = 0
  keyAllowed : s.keyAllowed = k.keyAllowed
  indents : s.indents = k.indents
  candidates : s.candidates = [none]
  tokens : s.tokens.filter Token.isReal = k.tokens

/-- Every state of one description reaches one of another. -/
def Leads (k l : Config) : Prop := ∀ s, Describes k s → ∃ t, Describes l t ∧ Reaches s t

variable {k l m : Config} {n : Nat}

theorem Leads.trans (hkl : Leads k l) (hlm : Leads l m) : Leads k m := by
  intro s hs
  obtain ⟨t, ht, hst⟩ := hkl s hs
  obtain ⟨u, hu, htu⟩ := hlm t ht
  exact ⟨u, hu, hst.trans htu⟩

/-- A token begins here: no blank, break or comment. -/
def Begins (cs : List Char) : Prop := StopsAt (fun c => isGap c || c == '#') cs

theorem Begins.stopsAt_isGap (h : Begins cs) : StopsAt isGap cs := by
  intro c hc
  have hgap := h c hc
  rw [Bool.or_eq_false_iff] at hgap
  exact hgap.1

theorem skipBlanks_begins (h : Begins cs) (inFlow keyAllowed : Bool) :
    skipBlanks inFlow keyAllowed false cs = (keyAllowed, cs) := by
  cases cs with
  | nil => rfl
  | cons c cs =>
      have hc := h c rfl
      simp only [isGap, isBlank, Bool.or_eq_false_iff] at hc
      simp [skipBlanks, hc]

/-- Where a token begins right away, nothing happens before it. -/
theorem prepare_eq_self (hbegins : Begins s.rest)
    (hfresh : ∀ o ∈ s.candidates, ∀ c ∈ o, s.isStale c = false)
    (hindents : s.flow = 0 → ∀ i ∈ s.indents.head?, i ≤ s.column) : s.prepare = some s := by
  have hdrop : s.dropStale = some s := by
    refine dropStale_eq_some_iff.mpr ⟨fun o ho c hc hstale => ?_, ?_⟩
    · rw [hfresh o ho c hc] at hstale
      cases hstale
    · have hsame :
          s.candidates.map (fun o => o.filter fun c => !s.isStale c) = s.candidates.map id := by
        refine List.map_congr_left fun o ho => ?_
        cases o with
        | none => rfl
        | some c => exact Option.filter_some_pos (by simp [hfresh _ ho c rfl])
      rw [hsame, List.map_id]
  have hunroll : s.unroll s.column = s := by
    by_cases hflow : s.flow = 0
    · rw [unroll_eq hflow]
      obtain ⟨rest, place, line, column, flow, indents, keyAllowed, candidates, tokens⟩ := s
      cases indents with
      | nil => rfl
      | cons i indents =>
          have hi : ¬ column < i := Nat.not_lt.mpr (hindents hflow i rfl)
          simp [hi]
    · exact if_pos (Nat.pos_of_ne_zero hflow)
  rw [prepare, toNextToken_eq_self (skipBlanks_begins hbegins _ _), hdrop, Option.map_some, hunroll]

/-- The lists and mappings that are closed before a column, and the tokens for that. -/
def Config.closed (k : Config) : Config :=
  { k with
    indents := k.indents.dropWhile (k.column < ·)
    tokens :=
      List.replicate (k.indents.takeWhile (k.column < ·)).length Token.blockEnd ++ k.tokens }

theorem skipBlanks_gap (hgap : ∀ c ∈ gap, c = ' ' ∨ isBreak c = true) (hrest : Begins rest)
    (keyAllowed : Bool) :
    skipBlanks false keyAllowed false (gap ++ rest) = (keyAllowed || gap.any isBreak, rest) := by
  induction gap generalizing keyAllowed with
  | nil =>
      rw [List.nil_append, List.any_nil, Bool.or_false, skipBlanks_begins hrest]
  | cons c gap ih =>
      have hgap' := ih fun d hd => hgap d (List.mem_cons_of_mem c hd)
      rw [List.cons_append]
      by_cases hbreak : isBreak c = true
      · rw [skipBlanks, if_pos hbreak, hgap']
        simp [hbreak]
      · obtain rfl := (hgap c List.mem_cons_self).resolve_right hbreak
        rw [skipBlanks, if_neg hbreak, if_neg (by decide), beq_self_eq_true, Bool.true_or,
          if_pos rfl, hgap']
        rfl

theorem prepare_of_dropStale (h : s.toNextToken.dropStale = some t) :
    s.prepare = some (t.unroll t.column) := by
  rw [prepare, h, Option.map_some]

/-- Lists and mappings are closed at the column of the next token. -/
theorem describes_unroll (hflow : s.flow = 0) (hcandidates : s.candidates = [none]) :
    Describes (Config.closed
      { rest := s.rest, column := s.column, keyAllowed := s.keyAllowed, indents := s.indents,
        tokens := s.tokens.filter Token.isReal }) (s.unroll s.column) := by
  rw [unroll_eq hflow]
  refine ⟨rfl, rfl, hflow, rfl, ?_, hcandidates, ?_⟩
  · simp [Config.closed]
  · rw [List.filter_append, List.filter_replicate_of_pos rfl]
    simp [Config.closed]

/-- A gap settles a state in which a key may have begun, but need not, in a line that the gap
ends. -/
theorem prepare_gap {o : Option Candidate} (hflow : s.flow = 0) (hs : s.rest = gap ++ rest)
    (hgap : ∀ c ∈ gap, c = ' ' ∨ isBreak c = true) (hrest : Begins rest)
    (hcandidates : s.candidates = [o])
    (ho : ∀ c ∈ o, c.required = false ∧ c.line < s.line + gap.countP isBreak) :
    ∃ t, s.prepare = some t ∧ Describes (Config.closed
      { rest := rest, column := columnBehind s.column gap,
        keyAllowed := s.keyAllowed || gap.any isBreak, indents := s.indents,
        tokens := s.tokens.filter Token.isReal }) t := by
  have hnext : s.toNextToken =
      { s with
        rest := rest, place := s.place + utf8Len gap, line := s.line + gap.countP isBreak
        column := columnBehind s.column gap, keyAllowed := s.keyAllowed || gap.any isBreak } := by
    have hflow' : decide (0 < s.flow) = false := by simp [hflow]
    rw [toNextToken, hflow', hs, skipBlanks_gap hgap hrest]
    simp only [moveTo_eq hs]
  have hdrop : s.toNextToken.dropStale = some
      { s with
        rest := rest, place := s.place + utf8Len gap, line := s.line + gap.countP isBreak
        column := columnBehind s.column gap, keyAllowed := s.keyAllowed || gap.any isBreak
        candidates := [none] } := by
    have hcandidates' : s.toNextToken.candidates = [o] := by
      rw [hnext]
      exact hcandidates
    refine dropStale_eq_some_iff.mpr ⟨?_, ?_⟩
    · intro o' ho' c hc _
      rw [hcandidates', List.mem_singleton] at ho'
      exact (ho c (ho' ▸ hc)).1
    · have hnone : (o.filter fun c => !s.toNextToken.isStale c) = none := by
        rw [Option.filter_eq_none_iff]
        intro c hc
        have hline := (ho c hc).2
        have hstale : s.toNextToken.isStale c = true := by
          rw [hnext, isStale]
          simp [hline]
        simp [hstale]
      rw [hcandidates', List.map_singleton, hnone, hnext]
  exact ⟨_, prepare_of_dropStale hdrop, @describes_unroll (Scanner.mk ..) hflow rfl⟩

theorem Config.closed_eq_self (h : ∀ i ∈ k.indents.head?, i ≤ k.column) : k.closed = k := by
  obtain ⟨rest, column, keyAllowed, indents, tokens⟩ := k
  cases indents with
  | nil => rfl
  | cons i indents =>
      have hi : ¬ column < i := Nat.not_lt.mpr (h i rfl)
      simp [Config.closed, hi]

/-- The gap before a token. -/
theorem leads_gap (hk : k.rest = gap ++ rest) (hgap : ∀ c ∈ gap, c = ' ' ∨ isBreak c = true)
    (hrest : Begins rest) :
    Leads k (Config.closed
      { k with
        rest := rest, column := columnBehind k.column gap,
        keyAllowed := k.keyAllowed || gap.any isBreak }) := by
  intro s hs
  obtain ⟨t, ht, hdescribes⟩ := prepare_gap hs.flow (hs.rest.trans hk) hgap hrest hs.candidates
    nofun
  rw [hs.column, hs.keyAllowed, hs.indents, hs.tokens] at hdescribes
  exact ⟨t, hdescribes, reaches_of_prepare ht⟩

/-- A space before a token of the same line. -/
theorem leads_space (hk : k.rest = ' ' :: rest) (hrest : Begins rest)
    (hindents : ∀ i ∈ k.indents.head?, i ≤ k.column) :
    Leads k { k with rest := rest, column := k.column + 1 } := by
  have hgap : ∀ c ∈ [' '], c = ' ' ∨ isBreak c = true := by simp
  have hleads := leads_gap (hk.trans (@List.singleton_append _ ' ' rest).symm) hgap hrest
  have hkey : (k.keyAllowed || [' '].any isBreak) = k.keyAllowed := Bool.or_false _
  have hcolumn : columnBehind k.column [' '] = k.column + 1 := columnBehind_line (List.forall_mem_singleton.mpr rfl) _
  have hclosed : Config.closed { k with rest := rest, column := k.column + 1 } =
      { k with rest := rest, column := k.column + 1 } :=
    Config.closed_eq_self fun i hi => Nat.le_succ_of_le (hindents i hi)
  rw [hkey, hcolumn, hclosed] at hleads
  exact hleads

theorem eq_space_or_isBreak_of_mem_newLine (n : Nat) :
    ∀ c ∈ '\n' :: spaces n, c = ' ' ∨ isBreak c = true := by
  refine List.forall_mem_cons.mpr ⟨.inr rfl, fun c hc => .inl ?_⟩
  exact List.eq_of_mem_replicate hc

/-- A line break before a token at a column. -/
theorem leads_newLine (hk : k.rest = '\n' :: (spaces n ++ rest)) (hrest : Begins rest) :
    Leads k (Config.closed { k with rest := rest, column := n, keyAllowed := true }) := by
  have hleads := leads_gap (hk.trans List.cons_append.symm) (eq_space_or_isBreak_of_mem_newLine n)
    hrest
  have hkey : (k.keyAllowed || ('\n' :: spaces n).any isBreak) = true := by simp [isBreak]
  rw [hkey, ← List.nil_append ('\n' :: spaces n), columnBehind_newLine rfl] at hleads
  exact hleads

/-- One token, and perhaps what follows it, from the place where it begins. -/
theorem leads_token (hk : k.rest = c :: cs) (hrest : Begins (c :: cs))
    (hindents : ∀ i ∈ k.indents.head?, i ≤ k.column)
    (h : ∀ s, Describes k s → ∃ t u,
      s.token c cs = some t ∧ t.rest.length < k.rest.length ∧ Reaches t u ∧ Describes l u) :
    Leads k l := by
  intro s hs
  have hnone : ∀ c ∈ ([] : List Char), c = ' ' ∨ isBreak c = true := by simp
  obtain ⟨s', hs', hdescribes⟩ :=
    prepare_gap hs.flow (hs.rest.trans hk) hnone hrest hs.candidates nofun
  rw [hs.column, hs.keyAllowed, hs.indents, hs.tokens, List.any_nil, Bool.or_false, ← hk]
    at hdescribes
  have hk' : Describes k s' := by
    rw [← Config.closed_eq_self hindents]
    exact hdescribes
  obtain ⟨t, u, htoken, hlength, htu, hu⟩ := h s' hk'
  refine ⟨u, hu, (reaches_of_token hs' (hk'.rest.trans hk) htoken ?_).trans htu⟩
  rw [hk'.rest]
  exact hlength

end Equilibrium.Yaml.Scanner
