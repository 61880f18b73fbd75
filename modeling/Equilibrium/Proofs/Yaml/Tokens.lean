import Equilibrium.Proofs.Yaml.Block
import Equilibrium.Proofs.Yaml.Plain
import Equilibrium.Proofs.Yaml.Scanner

/-!
# Tokens of written YAML

What the scanner does at each thing that is written: at the indicators of items and of long keys, at
an empty list or mapping between brackets, and at a scalar, which is a value that ends with its
line (`leads_value`) or a key before its colon (`leads_key`). -/

namespace Equilibrium.Yaml.Scanner

open String (utf8Len)

variable {k : Config} {s t : Scanner} {cs rest : List Char} {c : Char} {outer : List Nat} {n : Nat}
  {found : List Token}

/-! ### Single steps -/

theorem dropCandidate_of_describes (hs : Describes k s) : s.dropCandidate = some s := by
  rw [dropCandidate, hs.candidates]

/-- One character is taken for a token. -/
theorem take_one (hs : s.rest = c :: cs) (hc : isBreak c = false) (x : Token) :
    s.take 1 x =
      { s with
        rest := cs, place := s.place + c.utf8Size, column := s.column + 1,
        tokens := x :: s.tokens } := by
  have hdrop : s.rest.drop 1 = cs := by
    rw [hs]
    rfl
  have hcount : [c].countP isBreak = 0 := List.countP_eq_zero.mpr (by simpa using hc)
  have hcolumn : columnBehind s.column [c] = s.column + 1 := columnBehind_line (by simpa using hc) _
  have hsize : utf8Len [c] = c.utf8Size := Nat.zero_add _
  rw [take, hdrop, @moveTo_eq s [c] cs hs, hcount, hcolumn, hsize]
  rfl

theorem describes_take (hs : Describes k s) (hk : k.rest = c :: cs) (hc : isBreak c = false)
    {x : Token} (hx : x.isReal = true) :
    Describes { k with rest := cs, column := k.column + 1, tokens := x :: k.tokens }
      (s.take 1 x) := by
  have hcolumn : s.column + 1 = k.column + 1 := by rw [hs.column]
  have htokens : (x :: s.tokens).filter Token.isReal = x :: k.tokens := by
    rw [List.filter_cons_of_pos hx, hs.tokens]
  rw [take_one (hs.rest.trans hk) hc]
  exact ⟨rfl, hcolumn, hs.flow, hs.keyAllowed, hs.indents, hs.candidates, htokens⟩

/-- A list or mapping at a column opens, or it is the innermost one already. -/
inductive Rolls (x : Token) (column : Nat) (indents : List Nat) (tokens : List Token) :
    (outer : List Nat) → List Token → Prop
  | opens (less : ∀ i ∈ indents.head?, i < column) :
      Rolls x column indents tokens indents (x :: tokens)
  | stays {outer : List Nat} (same : indents = column :: outer) :
      Rolls x column indents tokens outer tokens

theorem opens_eq (hs : Describes k s) (column : Nat) :
    s.opens column = decide (∀ i ∈ k.indents.head?, i < column) := by
  rw [opens, hs.flow, indent, hs.indents]
  cases k.indents with
  | nil =>
      have hless : (-1 : Int) < column := by omega
      simp [hless]
  | cons i indents => simp

theorem Rolls.head_le {x : Token} (h : Rolls x n k.indents k.tokens outer found) :
    ∀ i ∈ k.indents.head?, i ≤ n := by
  intro i hi
  cases h with
  | opens less => exact Nat.le_of_lt (less i hi)
  | stays same =>
      rw [same] at hi
      cases hi
      exact Nat.le_refl _

theorem describes_roll (hs : Describes k s) {x : Token} (hx : x.isReal = true)
    (h : Rolls x k.column k.indents k.tokens outer found) :
    Describes { k with indents := k.column :: outer, tokens := found } (s.roll x) := by
  have hopens : s.opens s.column = decide (∀ i ∈ k.indents.head?, i < k.column) := by
    rw [hs.column, opens_eq hs]
  rw [roll]
  cases h with
  | opens less =>
      rw [hopens, decide_eq_true less, if_pos rfl, emit]
      refine ⟨hs.rest, hs.column, hs.flow, hs.keyAllowed, ?_, hs.candidates, ?_⟩
      · show s.column :: s.indents = k.column :: k.indents
        rw [hs.column, hs.indents]
      · show (x :: s.tokens).filter Token.isReal = x :: k.tokens
        rw [List.filter_cons_of_pos hx, hs.tokens]
  | stays same =>
      have hnot : ¬ ∀ i ∈ k.indents.head?, i < k.column := by
        intro hless
        rw [same] at hless
        exact Nat.lt_irrefl _ (hless k.column rfl)
      rw [hopens, decide_eq_false hnot, if_neg Bool.false_ne_true]
      exact ⟨hs.rest, hs.column, hs.flow, hs.keyAllowed, hs.indents.trans same, hs.candidates,
        hs.tokens⟩

/-! ### Indicators -/

/-- Behind an indicator, which is one character, a key may begin. -/
theorem leads_indicator {x : Token} (hk : k.rest = c :: cs) (hbegins : Begins (c :: cs))
    (hx : x.isReal = true) (hkey : k.keyAllowed = true)
    (hindents : ∀ i ∈ k.indents.head?, i ≤ k.column)
    (h : ∀ s, Describes k s → ∃ t,
      Describes { k with indents := k.column :: outer, tokens := found } t ∧
        s.token c cs = some (t.take 1 x)) :
    Leads k ⟨cs, k.column + 1, true, k.column :: outer, x :: found⟩ := by
  refine leads_token hk hbegins hindents fun s hs => ?_
  obtain ⟨t, ht, htoken⟩ := h s hs
  have hc : isBreak c = false := not_isBreak_of_not_isGap (hbegins.stopsAt_isGap c rfl)
  have hnext := describes_take ht hk hc hx
  refine ⟨_, _, htoken, ?_, Reaches.refl _, ?_⟩
  · rw [hnext.rest, hk]
    exact Nat.lt_succ_self _
  · rw [← hkey]
    exact hnext

/-- The dash before an item. -/
theorem leads_dash (hk : k.rest = '-' :: ' ' :: rest) (hkey : k.keyAllowed = true)
    (h : Rolls .listStart k.column k.indents k.tokens outer found) :
    Leads k ⟨' ' :: rest, k.column + 1, true, k.column :: outer, .dash :: found⟩ := by
  refine leads_indicator hk (stopsAt_cons rfl _) rfl hkey h.head_le fun s hs => ?_
  have hroll := describes_roll hs rfl h
  have htoken : s.token '-' (' ' :: rest) = s.dash := by
    simp [token, atDocumentMark, endsWord, isBlank]
  have hallowed : ({ s.roll .listStart with keyAllowed := true } : Scanner) =
      s.roll .listStart := by
    rw [← hkey, ← hroll.keyAllowed]
  have hdash : s.dash = some ((s.roll .listStart).take 1 .dash) := by
    rw [dash, if_neg (by simp [hs.keyAllowed, hkey]), dropCandidate_of_describes hroll]
    exact congrArg (fun u => some (take u 1 .dash)) hallowed
  exact ⟨_, hroll, htoken.trans hdash⟩

/-- The question mark before a long key. -/
theorem leads_question (hk : k.rest = '?' :: ' ' :: rest) (hkey : k.keyAllowed = true)
    (h : Rolls .mappingStart k.column k.indents k.tokens outer found) :
    Leads k ⟨' ' :: rest, k.column + 1, true, k.column :: outer, .key :: found⟩ := by
  refine leads_indicator hk (stopsAt_cons rfl _) rfl hkey h.head_le fun s hs => ?_
  have hroll := describes_roll hs rfl h
  have htoken : s.token '?' (' ' :: rest) = s.question := by
    simp [token, atDocumentMark, endsWord, isBlank]
  have hallowed :
      ({ s.roll .mappingStart with keyAllowed := (s.roll .mappingStart).flow == 0 } : Scanner) =
        s.roll .mappingStart := by
    have hflow : ((s.roll .mappingStart).flow == 0) = (s.roll .mappingStart).keyAllowed := by
      rw [hroll.flow, hroll.keyAllowed, hkey]
      rfl
    rw [hflow]
  have hquestion : s.question = some ((s.roll .mappingStart).take 1 .key) := by
    rw [question, if_neg (by simp [hs.keyAllowed, hkey]), dropCandidate_of_describes hroll]
    exact congrArg (fun u => some (take u 1 .key)) hallowed
  exact ⟨_, hroll, htoken.trans hquestion⟩

/-- The colon before the value of a long key. -/
theorem leads_colon (hk : k.rest = ':' :: cs) (hcs : endsWord cs = true)
    (hkey : k.keyAllowed = true) (hindents : k.indents = k.column :: outer) :
    Leads k ⟨cs, k.column + 1, true, k.column :: outer, .value :: k.tokens⟩ := by
  have hrolls : Rolls .mappingStart k.column k.indents k.tokens outer k.tokens := .stays hindents
  refine leads_indicator hk (stopsAt_cons rfl _) rfl hkey hrolls.head_le fun s hs => ?_
  have hroll := describes_roll hs rfl hrolls
  have htoken : s.token ':' cs = s.colon := by
    simp [token, atDocumentMark, hcs]
  have hallowed : ({ s.roll .mappingStart with keyAllowed := s.flow == 0 } : Scanner) =
      s.roll .mappingStart := by
    have hflow : (s.flow == 0) = (s.roll .mappingStart).keyAllowed := by
      rw [hs.flow, hroll.keyAllowed, hkey]
      rfl
    rw [hflow]
  have hcolon : s.colon = some ((s.roll .mappingStart).take 1 .value) := by
    rw [colon, hs.candidates]
    dsimp only
    rw [if_neg (by simp [hs.keyAllowed, hkey]), hallowed]
  exact ⟨_, hroll, htoken.trans hcolon⟩

/-! ### Places where a key may begin -/

/-- The place of the scanner, as one where a key may begin. -/
def here (s : Scanner) : Candidate :=
  ⟨s.place, s.line, s.column, s.flow == 0 && s.indent == s.column⟩

/-- The scanner with a mark where it is. -/
def marked (s : Scanner) : Scanner :=
  { s with candidates := [some s.here], tokens := .mark s.place :: s.tokens }

/-- A place where a key may begin gets a mark. -/
theorem noteCandidate_of_keyAllowed (hs : Describes k s) (hkey : k.keyAllowed = true) :
    s.noteCandidate = some s.marked := by
  have hallowed : (!s.keyAllowed) = false := by
    rw [hs.keyAllowed, hkey]
    rfl
  rw [noteCandidate, hallowed, dropCandidate_of_describes hs]
  simp only [Bool.false_eq_true, if_false, Option.bind_eq_bind, Option.bind_some, hs.candidates,
    List.drop_succ_cons, List.drop_zero]
  rfl

theorem noteCandidate_of_not_keyAllowed (hs : Describes k s) (hkey : k.keyAllowed = false) :
    s.noteCandidate = some s := by
  rw [noteCandidate, hs.keyAllowed, hkey]
  rfl

/-- Further to the right than the innermost list or mapping a key may begin, but need not. -/
theorem exists_noteCandidate (hs : Describes k s) (hindents : ∀ i ∈ k.indents.head?, i < k.column) :
    ∃ o ts, s.noteCandidate = some { s with candidates := [o], tokens := ts } ∧
      (∀ c ∈ o, c = s.here ∧ c.required = false) ∧ ts.filter Token.isReal = k.tokens := by
  cases hkey : k.keyAllowed with
  | true =>
      have hrequired : s.here.required = false := by
        rw [here, indent, hs.indents, hs.column]
        cases hi : k.indents.head? with
        | none =>
            have hne : ¬ (-1 : Int) = k.column := by omega
            simp [hne]
        | some i =>
            have hless := hindents i hi
            have hne : ¬ i = k.column := by omega
            simp [hne]
      refine ⟨_, _, noteCandidate_of_keyAllowed hs hkey, ?_, ?_⟩
      · rintro c ⟨⟩
        exact ⟨rfl, hrequired⟩
      · exact (List.filter_cons_of_neg (by simp [Token.isReal])).trans hs.tokens
  | false =>
      refine ⟨none, s.tokens, ?_, nofun, hs.tokens⟩
      rw [noteCandidate_of_not_keyAllowed hs hkey, ← hs.candidates]

/-! ### Scalars -/

variable {written taken gap before last : List Char} {x : Token} {broken : Bool} {b : Char}

theorem emit_moveTo (h : s.rest = taken ++ last) (key : Bool) (x : Token) :
    ({ s.moveTo last with keyAllowed := key } : Scanner).emit x =
      { s with
        rest := last, place := s.place + utf8Len taken, line := s.line + taken.countP isBreak
        column := columnBehind s.column taken, keyAllowed := key, tokens := x :: s.tokens } := by
  rw [moveTo_eq h]
  rfl

/-- The next line settles the state behind a scalar. -/
theorem leads_scalar (hk : k.rest = taken ++ (gap ++ rest)) (hne : taken ≠ [])
    (hbegins : Begins k.rest) (hindents : ∀ i ∈ k.indents.head?, i < k.column)
    (hline : taken ++ gap = before ++ b :: spaces n) (hb : isBreak b = true)
    (hgap : ∀ c ∈ gap, c = ' ' ∨ isBreak c = true) (hkey : (broken || gap.any isBreak) = true)
    (hx : x.isReal = true) (hrest : Begins rest)
    (hread : ∀ s, Describes k s → ∀ c cs, k.rest = c :: cs → ∃ o ts,
      (∀ c ∈ o, c = s.here ∧ c.required = false) ∧ ts.filter Token.isReal = k.tokens ∧
        s.token c cs = some (({ { s with candidates := [o], tokens := ts }.moveTo (gap ++ rest) with
          keyAllowed := broken } : Scanner).emit x)) :
    Leads k (Config.closed ⟨rest, n, true, k.indents, x :: k.tokens⟩) := by
  obtain ⟨c, cs, hcs⟩ := List.exists_cons_of_ne_nil
    (hk ▸ List.append_ne_nil_of_left_ne_nil hne (gap ++ rest) : k.rest ≠ [])
  refine leads_token hcs (hcs ▸ hbegins) (fun i hi => Nat.le_of_lt (hindents i hi)) fun s hs => ?_
  obtain ⟨o, ts, ho, hts, htoken⟩ := hread s hs c cs hcs
  rw [@emit_moveTo { s with candidates := [o], tokens := ts } taken (gap ++ rest)
    (hs.rest.trans hk)] at htoken
  have hcolumn : columnBehind (columnBehind s.column taken) gap = n := by
    rw [columnBehind, columnBehind, ← List.foldl_append, hline]
    exact columnBehind_newLine hb s.column n before
  have hcount : 0 < taken.countP isBreak + gap.countP isBreak := by
    rw [← List.countP_append, hline, List.countP_append, List.countP_cons_of_pos hb]
    omega
  have ho' : ∀ c ∈ o, c.required = false ∧
      c.line < s.line + taken.countP isBreak + gap.countP isBreak := by
    intro c hc
    obtain ⟨rfl, hrequired⟩ := ho c hc
    refine ⟨hrequired, ?_⟩
    show s.line < s.line + taken.countP isBreak + gap.countP isBreak
    omega
  obtain ⟨u, hprepare, hu⟩ := @prepare_gap
    { s with
      rest := gap ++ rest, place := s.place + utf8Len taken, line := s.line + taken.countP isBreak
      column := columnBehind s.column taken, keyAllowed := broken, candidates := [o]
      tokens := x :: ts }
    gap rest o hs.flow rfl hgap hrest rfl ho'
  have hfilter : (x :: ts).filter Token.isReal = x :: k.tokens :=
    (List.filter_cons_of_pos hx).trans (congrArg (x :: ·) hts)
  rw [hcolumn, hkey, hs.indents, hfilter] at hu
  refine ⟨_, u, htoken, ?_, reaches_of_prepare hprepare, hu⟩
  have hpos := List.length_pos_iff.mpr hne
  simp only [hk, List.length_append]
  omega

/-- The characters `written` are read as a scalar if `rest` follows them, in the block of a list or
mapping at `indent`; reading goes on at `last`, behind the line if it is `broken`. -/
def IsScalar (indent : Int) (written rest : List Char) (x : Token) (broken : Bool)
    (last : List Char) : Prop :=
  written ≠ [] ∧ Begins (written ++ rest) ∧ ∀ s : Scanner, s.rest = written ++ rest → s.flow = 0 →
    s.indent = indent → ∀ c cs, written ++ rest = c :: cs →
      s.token c cs = s.noteCandidate.map fun s =>
        ({ s.moveTo last with keyAllowed := broken }.emit x)

/-- Behind an indicator the list or mapping around it is still open. -/
theorem head_le {column col : Nat} (hcol : column ≤ col) :
    ∀ i ∈ (column :: outer).head?, i ≤ col := by
  rintro i ⟨⟩
  exact hcol

theorem head_lt {column col : Nat} (hcol : column < col) :
    ∀ i ∈ (column :: outer).head?, i < col + 1 :=
  fun i hi => Nat.lt_succ_of_le (head_le (Nat.le_of_lt hcol) i hi)

theorem indent_of_describes {column : Nat} (hs : Describes k s)
    (hindents : k.indents = column :: outer) : s.indent = column := by
  rw [indent, hs.indents, hindents]
  rfl

/-- A scalar that is a value ends with its line. -/
theorem leads_value {column col : Nat} {key : Bool} {tokens : List Token}
    (h : IsScalar column written ('\n' :: (spaces n ++ rest)) x broken last)
    (hlast : last = if broken then rest else '\n' :: (spaces n ++ rest)) (hx : x.isReal = true)
    (hcol : column < col) (hrest : Begins rest) :
    Leads ⟨' ' :: (written ++ '\n' :: (spaces n ++ rest)), col, key, column :: outer, tokens⟩
      (Config.closed ⟨rest, n, true, column :: outer, x :: tokens⟩) := by
  obtain ⟨hne, hbegins, htoken⟩ := h
  have hlt := @head_lt outer column col hcol
  refine (leads_space rfl hbegins (head_le (Nat.le_of_lt hcol))).trans ?_
  have hread : ∀ s,
      Describes
        ⟨written ++ '\n' :: (spaces n ++ rest), col + 1, key, column :: outer, tokens⟩ s →
      ∀ c cs, written ++ '\n' :: (spaces n ++ rest) = c :: cs → ∃ o ts,
        (∀ c ∈ o, c = s.here ∧ c.required = false) ∧ ts.filter Token.isReal = tokens ∧
          s.token c cs = some (({ { s with candidates := [o], tokens := ts }.moveTo last with
            keyAllowed := broken } : Scanner).emit x) := by
    intro s hs c cs hcs
    obtain ⟨o, ts, hnote, ho, hts⟩ := exists_noteCandidate hs hlt
    refine ⟨o, ts, ho, hts, ?_⟩
    rw [htoken s hs.rest hs.flow (indent_of_describes hs rfl) c cs hcs, hnote, Option.map_some]
  cases broken with
  | true =>
      subst hlast
      have hk : written ++ '\n' :: (spaces n ++ last) =
          (written ++ '\n' :: spaces n) ++ ([] ++ last) := by simp
      have hline : (written ++ '\n' :: spaces n) ++ [] = written ++ '\n' :: spaces n :=
        List.append_nil _
      exact leads_scalar hk (by simp) hbegins hlt hline rfl (by simp) rfl hx hrest hread
  | false =>
      subst hlast
      have hk : written ++ '\n' :: (spaces n ++ rest) = written ++ ('\n' :: spaces n ++ rest) := rfl
      have hgap := eq_space_or_isBreak_of_mem_newLine n
      exact leads_scalar hk hne hbegins hlt rfl rfl hgap (by simp [isBreak]) hx hrest hread

/-- The mark of a key is the latest mark, so the key takes its place. -/
theorem replaceMark_scalar (hx : x.isReal = true) (place : Nat) (ts : List Token)
    (found : List Token) :
    replaceMark place found (x :: .mark place :: ts) = x :: (found ++ ts) := by
  have hne : x ≠ .mark place := by
    rintro rfl
    cases hx
  rw [replaceMark, if_neg hne, replaceMark, if_pos rfl]

/-- The state behind a scalar that stands where a key may begin. -/
def behindScalar (s : Scanner) (written last : List Char) (x : Token) : Scanner :=
  { s with
    rest := last, place := s.place + utf8Len written, column := s.column + written.length
    keyAllowed := false
    candidates := [some s.here], tokens := x :: .mark s.place :: s.tokens }

theorem token_eq_behindScalar (hs : Describes k s) (hk : k.rest = written ++ last)
    (hkey : k.keyAllowed = true) (h : IsScalar s.indent written last x false last)
    (hline : ∀ c ∈ written, isBreak c = false) (hcs : k.rest = c :: cs) :
    s.token c cs = some (s.behindScalar written last x) := by
  have hcount : written.countP isBreak = 0 :=
    List.countP_eq_zero.mpr fun c hc => by simp [hline c hc]
  have hmarked : s.marked.rest = written ++ last := hs.rest.trans hk
  rw [h.2.2 s (hs.rest.trans hk) hs.flow rfl c cs (hk ▸ hcs), noteCandidate_of_keyAllowed hs hkey,
    Option.map_some, emit_moveTo hmarked]
  simp only [hcount, columnBehind_line hline, Nat.add_zero]
  rfl

/-- The place of a key is not given up before its colon. -/
theorem prepare_behindScalar (hs : Describes k s) (hindents : ∀ i ∈ k.indents.head?, i ≤ k.column)
    (hbytes : utf8Len written ≤ 1024) (hlast : Begins last) :
    (s.behindScalar written last x).prepare = some (s.behindScalar written last x) := by
  refine prepare_eq_self hlast ?_ fun _ i hi => ?_
  · rintro o (⟨⟩ | ⟨_, ⟨⟩⟩) c ⟨⟩
    have hplace : ¬ s.place + 1024 < s.place + utf8Len written := by omega
    simp [isStale, behindScalar, here, hplace]
  · have hle := hindents i (hs.indents ▸ hi)
    show i ≤ s.column + written.length
    rw [hs.column]
    omega

/-- What a key puts in the place of its mark: the key, and the mapping that it may open. -/
def keyTokens (s : Scanner) : List Token :=
  if s.opens s.column then [.key, .mappingStart] else [.key]

theorem rolls_key (h : Rolls .mappingStart k.column k.indents k.tokens outer found)
    (hs : Describes k s) :
    (if s.opens s.column then s.column :: s.indents else s.indents) = k.column :: outer ∧
      (s.keyTokens ++ s.tokens).filter Token.isReal = .key :: found := by
  have hopens : s.opens s.column = decide (∀ i ∈ k.indents.head?, i < k.column) := by
    rw [hs.column, opens_eq hs]
  cases h with
  | opens less =>
      rw [keyTokens, hopens, decide_eq_true less, if_pos rfl, if_pos rfl, hs.column, hs.indents,
        List.filter_append, hs.tokens]
      exact ⟨rfl, rfl⟩
  | stays same =>
      have hnot : ¬ ∀ i ∈ k.indents.head?, i < k.column := by
        rw [same]
        exact fun hless => Nat.lt_irrefl _ (hless _ rfl)
      rw [keyTokens, hopens, decide_eq_false hnot, if_neg Bool.false_ne_true,
        if_neg Bool.false_ne_true, hs.indents, List.filter_append, hs.tokens]
      exact ⟨same, rfl⟩

/-- The colon turns the place into a key. -/
theorem exists_colon_behindScalar (hs : Describes k s) (hx : x.isReal = true)
    (h : Rolls .mappingStart k.column k.indents k.tokens outer found) :
    ∃ t, (s.behindScalar written (':' :: cs) x).colon = some t ∧
      Describes
        ⟨cs, k.column + written.length + 1, false, k.column :: outer,
          .value :: x :: .key :: found⟩ t := by
  obtain ⟨hindents, htokens⟩ := rolls_key h hs
  have hcolumn : s.column + written.length = k.column + written.length := by rw [hs.column]
  have hfilter : (x :: (s.keyTokens ++ s.tokens)).filter Token.isReal = x :: .key :: found :=
    (List.filter_cons_of_pos hx).trans (congrArg (x :: ·) htokens)
  have ht := @describes_take
    ⟨':' :: cs, k.column + written.length, false, k.column :: outer, x :: .key :: found⟩
    { s.behindScalar written (':' :: cs) x with
      tokens := x :: (s.keyTokens ++ s.tokens)
      indents := if s.opens s.column then s.column :: s.indents else s.indents
      candidates := [none], keyAllowed := false }
    cs ':' ⟨rfl, hcolumn, hs.flow, rfl, hindents, rfl, hfilter⟩ rfl rfl .value rfl
  refine ⟨_, ?_, ht⟩
  show some (take { s.behindScalar written (':' :: cs) x with
    tokens := replaceMark s.place s.keyTokens (x :: .mark s.place :: s.tokens)
    indents := if s.opens s.column then s.column :: s.indents else s.indents
    candidates := [none], keyAllowed := false } 1 .value) = _
  rw [replaceMark_scalar hx]

/-- A scalar and the colon behind it are a key. -/
theorem leads_key (hk : k.rest = written ++ ':' :: cs) (hcs : endsWord cs = true)
    (hkey : k.keyAllowed = true)
    (h : ∀ indent, IsScalar indent written (':' :: cs) x false (':' :: cs))
    (hline : ∀ c ∈ written, isBreak c = false) (hbytes : utf8Len written ≤ 1024)
    (hx : x.isReal = true) (hrolls : Rolls .mappingStart k.column k.indents k.tokens outer found) :
    Leads k
      ⟨cs, k.column + written.length + 1, false, k.column :: outer,
        .value :: x :: .key :: found⟩ := by
  obtain ⟨hne, hbegins, -⟩ := h 0
  obtain ⟨c, more, hmore⟩ := List.exists_cons_of_ne_nil
    (hk ▸ List.append_ne_nil_of_left_ne_nil hne (':' :: cs) : k.rest ≠ [])
  refine leads_token hmore (hmore ▸ hk ▸ hbegins) hrolls.head_le fun s hs => ?_
  have htoken := token_eq_behindScalar hs hk hkey (h s.indent) hline hmore
  have hprepare : (s.behindScalar written (':' :: cs) x).prepare =
      some (s.behindScalar written (':' :: cs) x) :=
    prepare_behindScalar hs hrolls.head_le hbytes (stopsAt_cons rfl cs)
  have hcolon : (s.behindScalar written (':' :: cs) x).token ':' cs =
      (s.behindScalar written (':' :: cs) x).colon := by
    simp [token, atDocumentMark, hcs]
  obtain ⟨t, ht, hdescribes⟩ := exists_colon_behindScalar hs hx hrolls
  have hpos := List.length_pos_iff.mpr hne
  refine ⟨_, t, htoken, ?_, reaches_of_token hprepare rfl (hcolon.trans ht) ?_, hdescribes⟩
  · simp only [hk, behindScalar, List.length_append]
    omega
  · rw [hdescribes.rest]
    exact Nat.lt_succ_self _

/-! ### Brackets and blocks -/

/-- An empty list or mapping between brackets is a value. -/
theorem leads_brackets {column col : Nat} {key : Bool} {tokens : List Token} {o c : Char}
    {x y : Token} (hopen : ∀ (s : Scanner) cs, s.token o cs = s.openFlow x)
    (hclose : ∀ (s : Scanner) cs, s.token c cs = s.closeFlow y)
    (ho : isGap o = false ∧ o ≠ '#' ∧ isBreak o = false) (hc : isGap c = false ∧ c ≠ '#')
    (hx : x.isReal = true) (hy : y.isReal = true) (hcol : column < col) (hrest : Begins rest) :
    Leads ⟨' ' :: o :: c :: '\n' :: (spaces n ++ rest), col, key, column :: outer, tokens⟩
      (Config.closed ⟨rest, n, true, column :: outer, y :: x :: tokens⟩) := by
  have hlt := @head_lt outer column col hcol
  have hbegins : Begins (o :: c :: '\n' :: (spaces n ++ rest)) := stopsAt_cons (by simp [ho]) _
  refine (leads_space rfl hbegins (head_le (Nat.le_of_lt hcol))).trans ?_
  refine leads_token rfl hbegins (fun i hi => Nat.le_of_lt (hlt i hi)) fun s hs => ?_
  obtain ⟨p, ts, hnote, hp, hts⟩ := exists_noteCandidate hs hlt
  -- between the brackets and behind them
  let inside : Scanner :=
    ⟨c :: '\n' :: (spaces n ++ rest), s.place + o.utf8Size, s.line, s.column + 1, s.flow + 1,
      s.indents, true, [none, p], x :: ts⟩
  let behind : Scanner :=
    ⟨'\n' :: (spaces n ++ rest), s.place + o.utf8Size + c.utf8Size, s.line, s.column + 2, s.flow,
      s.indents, false, [p], y :: x :: ts⟩
  have hinside : s.token o (c :: '\n' :: (spaces n ++ rest)) = some inside := by
    rw [hopen, openFlow, hnote]
    have htake := @take_one
      { s with flow := s.flow + 1, candidates := [none, p], keyAllowed := true, tokens := ts }
      _ o hs.rest ho.2.2 x
    exact congrArg some htake
  have hprepare : inside.prepare = some inside := by
    refine prepare_eq_self (stopsAt_cons (by simp [hc]) _) ?_ fun hflow =>
      absurd hflow (Nat.succ_ne_zero _)
    intro q hq d hd
    obtain rfl | rfl : q = none ∨ q = p := by simpa [inside] using hq
    · cases hd
    · obtain ⟨rfl, -⟩ := hp d hd
      have hsize : ¬ s.place + 1024 < s.place + o.utf8Size := by
        have := o.utf8Size_le_four
        omega
      simp [isStale, inside, here, hsize]
  have hbehind : inside.token c ('\n' :: (spaces n ++ rest)) = some behind := by
    rw [hclose, closeFlow]
    exact congrArg some (@take_one (Scanner.mk ..) _ c rfl (by simp_all [isGap]) y)
  have hcount : 0 < ('\n' :: spaces n).countP isBreak := by
    rw [List.countP_cons_of_pos rfl]
    exact Nat.succ_pos _
  have hp' : ∀ d ∈ p, d.required = false ∧
      d.line < behind.line + ('\n' :: spaces n).countP isBreak := by
    intro d hd
    obtain ⟨rfl, hrequired⟩ := hp d hd
    exact ⟨hrequired, Nat.lt_add_of_pos_right hcount⟩
  obtain ⟨u, hu, hdescribes⟩ :=
    prepare_gap (s := behind) hs.flow rfl (eq_space_or_isBreak_of_mem_newLine n) hrest rfl hp'
  have hfilter : (y :: x :: ts).filter Token.isReal = y :: x :: tokens := by
    rw [List.filter_cons_of_pos hy, List.filter_cons_of_pos hx, hts]
  have hkey : (behind.keyAllowed || ('\n' :: spaces n).any isBreak) = true := by simp [isBreak]
  have hindents : behind.indents = column :: outer := hs.indents
  rw [hkey, ← List.nil_append ('\n' :: spaces n), columnBehind_newLine rfl, hfilter, hindents]
    at hdescribes
  refine ⟨inside, u, hinside, Nat.lt_succ_self _, ?_, hdescribes⟩
  exact (reaches_of_token hprepare rfl hbehind (Nat.lt_succ_self _)).trans (reaches_of_prepare hu)

/-- The last line of a block ends with a break. -/
theorem exists_break (indent n : Nat) (text : List Char) :
    ∃ before b, isBreak b = true ∧
      indentLines indent true text ++ newLine n text = before ++ b :: spaces n := by
  rw [newLine_eq]
  by_cases hend : endsWithBreak text = true
  · obtain ⟨b, hlast, hb⟩ := (@Option.any_eq_true _ isBreak text.getLast?).mp hend
    obtain ⟨lines, rfl⟩ := List.getLast?_eq_some_iff.mp hlast
    refine ⟨indentLines indent true lines, b, hb, ?_⟩
    rw [if_pos hend, indentLines_concat_break hb, List.nil_append, List.append_assoc]
    rfl
  · refine ⟨indentLines indent true text, '\n', rfl, ?_⟩
    rw [if_neg hend]
    rfl

/-- A literal block is a value. -/
theorem leads_literal {column col : Nat} {key : Bool} {tokens : List Token} {text : List Char}
    (hne : text ≠ []) (hprint : ∀ c ∈ text, isPrintable c = true) (hcol : column < col)
    (hn : n ≤ column) (hrest : Begins rest) :
    Leads
      ⟨' ' :: (literalHeader text ++
        '\n' :: (indentLines (column + 2) true text ++ (newLine n text ++ rest))), col,
        key, column :: outer, tokens⟩
      (Config.closed
        ⟨rest, n, true, column :: outer, .scalar (String.ofList text) false :: tokens⟩) := by
  obtain ⟨header, hheader, hread⟩ := spanBlock_literal hne hprint hn hrest.stopsAt_isGap
  obtain ⟨before, b, hb, hline⟩ := exists_break (column + 2) n text
  have hlt := @head_lt outer column col hcol
  have hbegins (cs : List Char) : Begins ('|' :: cs) := stopsAt_cons rfl cs
  rw [hheader, List.cons_append]
  refine (leads_space rfl (hbegins _) (head_le (Nat.le_of_lt hcol))).trans ?_
  have hlines :
      '|' :: (header ++ '\n' :: (indentLines (column + 2) true text ++ newLine n text)) ++ [] =
        '|' :: (header ++ '\n' :: before) ++ b :: spaces n := by
    rw [hline]
    simp
  have hscalar : ∀ s,
      Describes
        ⟨'|' :: (header ++ '\n' :: (indentLines (column + 2) true text ++ (newLine n text ++ rest))),
          col + 1, key, column :: outer, tokens⟩ s →
      ∀ c cs,
        '|' :: (header ++ '\n' :: (indentLines (column + 2) true text ++ (newLine n text ++ rest))) =
          c :: cs →
        ∃ o ts, (∀ c ∈ o, c = s.here ∧ c.required = false) ∧ ts.filter Token.isReal = tokens ∧
          s.token c cs = some (({ { s with candidates := [o], tokens := ts }.moveTo
            ([] ++ rest) with keyAllowed := true } : Scanner).emit
              (.scalar (String.ofList text) false)) := by
    rintro s hs c cs ⟨⟩
    have hmarks : ({ s with candidates := [none], tokens := s.tokens } : Scanner) = s := by
      rw [← hs.candidates]
    have hindent := indent_of_describes hs rfl
    have htoken : s.token '|'
        (header ++ '\n' :: (indentLines (column + 2) true text ++ (newLine n text ++ rest))) =
          s.block true := by
      simp [token, atDocumentMark, hs.flow]
    refine ⟨none, s.tokens, nofun, hs.tokens, ?_⟩
    rw [htoken, hmarks, block, dropCandidate_of_describes hs, Option.bind_eq_bind, Option.bind_some,
      hs.rest, hindent, List.drop_succ_cons, List.drop_zero, hread]
    rfl
  have hkey : (true || ([] : List Char).any isBreak) = true := rfl
  exact leads_scalar (by simp) (List.cons_ne_nil _ _) (hbegins _) hlt hlines hb (by simp)
    hkey rfl hrest hscalar

end Equilibrium.Yaml.Scanner
