import Equilibrium.Proofs.Decimal.Shortest

/-!
# The layout of numerals

A written decimal has digits before the point, digits behind it and perhaps an exponent: its
`Decimal.Layout`. Every style lays a normal decimal out as a numeral (`Decimal.isNumeral_layout`)
whose parts give the decimal back (`Decimal.decimal_layout`). A reader of numerals therefore only
has to find the three parts; `Decimal.ofNumeral?_text` and `Binary64.ofNumeral?_numeral` say so of
the common one.
-/

namespace Equilibrium

/-! ### Runs of characters -/

/-- A text does not go on with a character of a class. -/
def StopsAt (p : Char → Bool) (cs : List Char) : Prop := ∀ c ∈ cs.head?, p c = false

theorem stopsAt_nil (p : Char → Bool) : StopsAt p [] := by simp [StopsAt]

theorem stopsAt_cons {p : Char → Bool} {c : Char} (h : p c = false) (cs : List Char) :
    StopsAt p (c :: cs) := by simpa [StopsAt] using h

theorem span_append {p : Char → Bool} {ds cs : List Char} (hds : ∀ c ∈ ds, p c = true)
    (hcs : StopsAt p cs) : (ds ++ cs).span p = (ds, cs) := by
  have hdrop : cs.dropWhile p = cs := by
    cases cs with
    | nil => rfl
    | cons c cs => simp [List.dropWhile, hcs c rfl]
  have htake : cs.takeWhile p = [] := by
    cases cs with
    | nil => rfl
    | cons c cs => simp [List.takeWhile, hcs c rfl]
  rw [List.span_eq_takeWhile_dropWhile, List.takeWhile_append_of_pos hds,
    List.dropWhile_append_of_pos hds, hdrop, htake, List.append_nil]

namespace Decimal

/-! ### Layouts -/

/-- The parts of a written decimal. -/
structure Layout where
  /-- The digits before the point. -/
  whole : List Char
  /-- The digits behind the point; there is no point if there are none. -/
  fraction : List Char
  /-- The exponent, if one is written. -/
  exponent : Option Int

namespace Layout

/-- The digits behind the point with the point before them. -/
def pointed : List Char → List Char
  | [] => []
  | d :: ds => '.' :: d :: ds

/-- An exponent with its mark. -/
def exponentText (plusSign : Bool) : Option Int → List Char
  | none => []
  | some e =>
    'e' :: (if e < 0 then ['-'] else if plusSign then ['+'] else []) ++ decimalDigits e.natAbs

/-- The parts one after the other. -/
def text (plusSign : Bool) (l : Layout) : List Char :=
  l.whole ++ (pointed l.fraction ++ exponentText plusSign l.exponent)

/-- The decimal of the parts. -/
def decimal (l : Layout) : Decimal := ofParts l.whole l.fraction (l.exponent.getD 0)

/-- The parts are digits, some before the point, and no zero stands before other digits. -/
structure IsNumeral (l : Layout) : Prop where
  whole_ne_nil : l.whole ≠ []
  whole_isDigit : ∀ c ∈ l.whole, c.isDigit = true
  fraction_isDigit : ∀ c ∈ l.fraction, c.isDigit = true
  leading : l.whole.head? = some '0' → l.whole = ['0']

end Layout

/-- The layout with the point where the exponent puts it. -/
def positionalLayout (wholeMark : Bool) (d : Decimal) : Layout :=
  let digits := decimalDigits d.coefficient
  match d.exponent with
  | .ofNat e => ⟨digits ++ zeros e, if wholeMark then ['0'] else [], none⟩
  | .negSucc e =>
    let padded := zeros (e + 2 - digits.length) ++ digits
    ⟨padded.take (padded.length - (e + 1)), padded.drop (padded.length - (e + 1)), none⟩

/-- The layout with one digit before the point. -/
def scientificLayout (d : Decimal) : Layout :=
  let digits := decimalDigits d.coefficient
  ⟨digits.take 1, digits.drop 1, some d.leadingExponent⟩

/-- The layout of a decimal in a style. -/
def layout (s : NumeralStyle) (d : Decimal) : Layout :=
  if d.coefficient = 0 || s.isPositional d.leadingExponent then d.positionalLayout s.wholeMark
  else d.scientificLayout

theorem writePositional_eq (wholeMark plusSign : Bool) (d : Decimal) :
    d.writePositional wholeMark = (d.positionalLayout wholeMark).text plusSign := by
  unfold writePositional positionalLayout
  cases d.exponent with
  | ofNat e => cases wholeMark <;> simp [Layout.text, Layout.pointed, Layout.exponentText]
  | negSucc e =>
      dsimp only
      generalize hp : zeros (e + 2 - (decimalDigits d.coefficient).length) ++
        decimalDigits d.coefficient = padded
      have hlen : e + 2 ≤ padded.length := by
        rw [← hp, List.length_append, length_zeros]
        omega
      have hdrop : padded.drop (padded.length - (e + 1)) ≠ [] := by
        rw [ne_eq, List.drop_eq_nil_iff]
        omega
      obtain ⟨c, cs, hcs⟩ := List.exists_cons_of_ne_nil hdrop
      simp [Layout.text, Layout.pointed, Layout.exponentText, hcs]

theorem writeScientific_eq (plusSign : Bool) (d : Decimal) :
    d.writeScientific plusSign = d.scientificLayout.text plusSign := by
  unfold writeScientific scientificLayout
  cases hds : decimalDigits d.coefficient with
  | nil => exact absurd hds (decimalDigits_ne_nil _)
  | cons c cs =>
      cases cs <;> simp [Layout.text, Layout.pointed, Layout.exponentText]

/-- A written decimal is the text of its layout. -/
theorem write_eq (s : NumeralStyle) (d : Decimal) : d.write s = (d.layout s).text s.plusSign := by
  unfold write layout
  split
  · exact writePositional_eq _ _ d
  · exact writeScientific_eq _ d

/-! ### Every layout is a numeral -/

theorem isDigit_append {ds es : List Char} (hds : ∀ c ∈ ds, c.isDigit = true)
    (hes : ∀ c ∈ es, c.isDigit = true) : ∀ c ∈ ds ++ es, c.isDigit = true := by
  intro c hc
  rcases List.mem_append.mp hc with hc | hc
  · exact hds c hc
  · exact hes c hc

theorem isNumeral_positionalLayout (wholeMark : Bool) {d : Decimal} (h : d.IsNormal) :
    (d.positionalLayout wholeMark).IsNumeral := by
  obtain ⟨c, e⟩ := d
  unfold positionalLayout
  cases e with
  | ofNat e =>
      have hwhole : ∀ k ∈ decimalDigits c ++ zeros e, k.isDigit = true :=
        isDigit_append (fun _ => isDigit_of_mem_decimalDigits) fun _ => isDigit_of_mem_zeros
      refine ⟨by simp [decimalDigits_ne_nil], hwhole, ?_, ?_⟩
      · intro k hk
        cases wholeMark with
        | true => rw [List.mem_singleton.mp hk]; rfl
        | false => cases hk
      · intro hhead
        by_cases hc : c = 0
        · obtain rfl : e = 0 := by simpa using h.exponent_eq_zero hc
          rw [hc]
          rfl
        · rw [List.head?_append_of_ne_nil _ (decimalDigits_ne_nil c)] at hhead
          exact absurd hhead (head?_decimalDigits_ne hc)
  | negSucc e =>
      have hc : c ≠ 0 := fun hc => Int.negSucc_ne_zero e (h.exponent_eq_zero hc)
      have hpadded : ∀ k ∈ zeros (e + 2 - (decimalDigits c).length) ++ decimalDigits c,
          k.isDigit = true :=
        isDigit_append (fun _ => isDigit_of_mem_zeros) fun _ => isDigit_of_mem_decimalDigits
      have hlen : (zeros (e + 2 - (decimalDigits c).length) ++ decimalDigits c).length =
          max (e + 2) (decimalDigits c).length := by
        rw [List.length_append, length_zeros]
        omega
      dsimp only
      refine ⟨?_, fun k hk => hpadded k (List.mem_of_mem_take hk),
        fun k hk => hpadded k (List.mem_of_mem_drop hk), ?_⟩
      · rw [ne_eq, List.take_eq_nil_iff, hlen]
        rintro (h | h)
        · omega
        · exact decimalDigits_ne_nil c (List.append_eq_nil_iff.mp h).2
      · intro hhead
        rw [hlen] at hhead ⊢
        by_cases hlong : e + 2 ≤ (decimalDigits c).length
        · -- no zeros are put before the digits, and these do not begin with one
          rw [Nat.sub_eq_zero_of_le hlong, max_eq_right hlong, List.head?_take,
            if_neg (by omega)] at hhead
          exact absurd hhead (head?_decimalDigits_ne hc)
        · rw [max_eq_left (by omega), show e + 2 - (e + 1) = 1 by omega]
          rw [show e + 2 - (decimalDigits c).length =
            (e + 1 - (decimalDigits c).length) + 1 by omega]
          rfl

theorem isNumeral_scientificLayout (d : Decimal) : d.scientificLayout.IsNumeral := by
  unfold scientificLayout
  cases hds : decimalDigits d.coefficient with
  | nil => exact absurd hds (decimalDigits_ne_nil _)
  | cons c cs =>
      have hdigit : ∀ k ∈ c :: cs, k.isDigit = true := fun k hk =>
        isDigit_of_mem_decimalDigits (hds ▸ hk)
      refine ⟨by simp, fun k hk => hdigit k (List.mem_of_mem_take hk),
        fun k hk => hdigit k (List.mem_of_mem_drop hk), ?_⟩
      simp

/-- A normal decimal is laid out as a numeral. -/
theorem isNumeral_layout (s : NumeralStyle) {d : Decimal} (h : d.IsNormal) :
    (d.layout s).IsNumeral := by
  unfold layout
  split
  · exact isNumeral_positionalLayout _ h
  · exact isNumeral_scientificLayout d

/-- The digits of a natural number are a numeral. -/
theorem isNumeral_decimalDigits (n : Nat) : (⟨decimalDigits n, [], none⟩ : Layout).IsNumeral := by
  refine ⟨decimalDigits_ne_nil n, fun _ => isDigit_of_mem_decimalDigits, nofun, fun hhead => ?_⟩
  by_cases hn : n = 0
  · rw [hn]
    rfl
  · exact absurd hhead (head?_decimalDigits_ne hn)

/-! ### Every layout has the value of its decimal -/

theorem decimal_positionalLayout (wholeMark : Bool) {d : Decimal} (h : d.IsNormal) :
    (d.positionalLayout wholeMark).decimal = d := by
  obtain ⟨c, e⟩ := d
  unfold positionalLayout Layout.decimal ofParts
  cases e with
  | ofNat e =>
      have hzeros : digitsValue (decimalDigits c ++ zeros e ++ if wholeMark then ['0'] else []) =
          c * 10 ^ (e + (if wholeMark then ['0'] else []).length) := by
        have hmark : digitsValue (if wholeMark then ['0'] else []) = 0 := by cases wholeMark <;> rfl
        rw [digitsValue_append, digitsValue_append, hmark, digitsValue_zeros,
          digitsValue_decimalDigits, length_zeros, pow_add, Nat.add_zero, Nat.add_zero, mul_assoc]
      have hnormal := h.normal_mul_pow (e + (if wholeMark then ['0'] else []).length)
      dsimp only [Option.getD_none]
      rw [hzeros]
      convert hnormal using 3
      simp
  | negSucc e =>
      dsimp only [Option.getD_none]
      rw [List.take_append_drop, digitsValue_append, digitsValue_zeros, digitsValue_decimalDigits,
        Nat.zero_mul, Nat.zero_add, List.length_drop]
      have hlen : (zeros (e + 2 - (decimalDigits c).length) ++ decimalDigits c).length =
          max (e + 2) (decimalDigits c).length := by
        rw [List.length_append, length_zeros]
        omega
      have hexp : (0 : Int) - ((zeros (e + 2 - (decimalDigits c).length) ++ decimalDigits c).length -
          ((zeros (e + 2 - (decimalDigits c).length) ++ decimalDigits c).length - (e + 1)) : Nat) =
          Int.negSucc e := by
        rw [hlen]
        omega
      have hnormal := h.normal_mul_pow 0
      rw [hexp]
      simpa using hnormal

theorem decimal_scientificLayout {d : Decimal} (h : d.IsNormal) :
    d.scientificLayout.decimal = d := by
  have hlen : 0 < (decimalDigits d.coefficient).length := Nat.length_toDigits_pos
  have hexp : d.leadingExponent - ((decimalDigits d.coefficient).drop 1).length = d.exponent := by
    rw [List.length_drop, leadingExponent, wholeDigits]
    omega
  unfold scientificLayout Layout.decimal ofParts
  dsimp only [Option.getD_some]
  rw [List.take_append_drop, digitsValue_decimalDigits, hexp]
  simpa using h.normal_mul_pow 0

/-- A normal decimal is the decimal of its layout. -/
theorem decimal_layout (s : NumeralStyle) {d : Decimal} (h : d.IsNormal) :
    (d.layout s).decimal = d := by
  unfold layout
  split
  · exact decimal_positionalLayout _ h
  · exact decimal_scientificLayout h

/-! ### Reading a layout back -/

theorem all_isDigit_decimalDigits (n : Nat) : (decimalDigits n).all Char.isDigit = true :=
  List.all_eq_true.mpr fun _ => isDigit_of_mem_decimalDigits

theorem decimalDigits_cases (n : Nat) : ∃ c cs, decimalDigits n = c :: cs ∧ c.isDigit = true := by
  obtain ⟨c, cs, h⟩ := List.exists_cons_of_ne_nil (decimalDigits_ne_nil n)
  exact ⟨c, cs, h, isDigit_of_mem_decimalDigits (h ▸ List.mem_cons_self)⟩

theorem isDigit_ne {c : Char} (h : c.isDigit = true) :
    c ≠ '-' ∧ c ≠ '+' ∧ c ≠ '.' ∧ c ≠ 'e' ∧ c ≠ 'E' := by
  refine ⟨?_, ?_, ?_, ?_, ?_⟩ <;> (rintro rfl; revert h; decide)

theorem exponentOf?_exponentText (plusSign : Bool) (e : Option Int) :
    exponentOf? (Layout.exponentText plusSign e) = some (e.getD 0) := by
  cases e with
  | none => rfl
  | some e =>
      obtain ⟨c, cs, hcs, hc⟩ := decimalDigits_cases e.natAbs
      have hval := digitsValue_decimalDigits e.natAbs
      have hall := all_isDigit_decimalDigits e.natAbs
      obtain ⟨hminus, hplus, -⟩ := isDigit_ne hc
      rw [hcs] at hval hall
      by_cases hneg : e < 0
      · simp [-Nat.cast_natAbs, Layout.exponentText, exponentOf?, hneg, hcs, hval, hall]
        omega
      · cases plusSign
        · simp [-Nat.cast_natAbs, Layout.exponentText, exponentOf?, hneg, hcs, hval, hall, hminus, hplus]
          omega
        · simp [-Nat.cast_natAbs, Layout.exponentText, exponentOf?, hneg, hcs, hval, hall]
          omega

theorem stopsAt_exponentText (plusSign : Bool) (e : Option Int) :
    StopsAt Char.isDigit (Layout.exponentText plusSign e) := by
  cases e with
  | none => exact stopsAt_nil _
  | some e => exact stopsAt_cons rfl _

theorem stopsAt_pointed {cs : List Char} (ds : List Char) (h : StopsAt Char.isDigit cs) :
    StopsAt Char.isDigit (Layout.pointed ds ++ cs) := by
  cases ds with
  | nil => exact h
  | cons d ds => exact stopsAt_cons rfl _

theorem spanFraction_pointed {plusSign : Bool} {ds : List Char} (e : Option Int)
    (hds : ∀ c ∈ ds, c.isDigit = true) :
    spanFraction (Layout.pointed ds ++ Layout.exponentText plusSign e) =
      (ds, Layout.exponentText plusSign e) := by
  cases ds with
  | nil => cases e <;> simp [Layout.pointed, Layout.exponentText, spanFraction]
  | cons d ds => exact span_append hds (stopsAt_exponentText plusSign e)

/-- The common reader finds the parts of a numeral. -/
theorem ofNumeral?_text (plusSign : Bool) {l : Layout} (h : l.IsNumeral) :
    ofNumeral? (l.text plusSign) = some l.decimal := by
  have hwhole : (l.text plusSign).span Char.isDigit =
      (l.whole, Layout.pointed l.fraction ++ Layout.exponentText plusSign l.exponent) :=
    span_append h.whole_isDigit (stopsAt_pointed _ (stopsAt_exponentText plusSign l.exponent))
  unfold ofNumeral?
  simp only [hwhole, spanFraction_pointed l.exponent h.fraction_isDigit,
    exponentOf?_exponentText, h.whole_ne_nil, false_and, if_false, Option.map_some]
  rfl

end Decimal

namespace Binary64

variable {x : Binary64}

/-- The layout of a number without its sign. -/
def layout (s : NumeralStyle) (x : Binary64) : Decimal.Layout := (x.shortest s.tie).layout s

theorem isNumeral_layout (s : NumeralStyle) (x : Binary64) : (x.layout s).IsNumeral :=
  Decimal.isNumeral_layout s (isNormal_shortest s.tie x)

theorem decimal_layout (s : NumeralStyle) (x : Binary64) :
    (x.layout s).decimal = x.shortest s.tie :=
  Decimal.decimal_layout s (isNormal_shortest s.tie x)

theorem toList_numeral (s : NumeralStyle) (x : Binary64) :
    (x.numeral s).toList =
      (if x.isNegative then ['-'] else []) ++ (x.layout s).text s.plusSign := by
  rw [numeral, String.toList_ofList, Decimal.write_eq, layout]

/-- The text of a numeral begins with a digit. -/
theorem text_layout_cases (s : NumeralStyle) (x : Binary64) :
    ∃ c cs, (x.layout s).text s.plusSign = c :: cs ∧ c.isDigit = true := by
  have h := isNumeral_layout s x
  obtain ⟨c, cs, hcs⟩ := List.exists_cons_of_ne_nil h.whole_ne_nil
  exact ⟨c, _, by rw [Decimal.Layout.text, hcs, List.cons_append],
    h.whole_isDigit c (hcs ▸ List.mem_cons_self)⟩

theorem ofNumeral?_unsigned {c : Char} (hminus : c ≠ '-') (hplus : c ≠ '+') (cs : List Char) :
    ofNumeral? (c :: cs) =
      (Decimal.ofNumeral? (c :: cs)).bind (Decimal.toBinary64? false) := by
  unfold ofNumeral?
  split
  next negative unsigned heq =>
    split at heq
    next hcs => exact absurd (List.cons.inj hcs).1 hminus
    next hcs => exact absurd (List.cons.inj hcs).1 hplus
    next =>
      cases heq
      rfl

/-- What is written of a finite number without its sign reads back as its size. -/
theorem ofNumeral?_text_layout (s : NumeralStyle) (h : x.isFinite = true) :
    ofNumeral? ((x.layout s).text s.plusSign) = some x.abs := by
  obtain ⟨c, cs, hcs, hc⟩ := text_layout_cases s x
  obtain ⟨hminus, hplus, -⟩ := Decimal.isDigit_ne hc
  have hread := Decimal.ofNumeral?_text s.plusSign (isNumeral_layout s x)
  have hback : (x.shortest s.tie).toBinary64? false = some x.abs :=
    Decimal.toBinary64?_of_toBinary64? (toBinary64?_shortest s.tie h) false
  rw [decimal_layout, hcs] at hread
  rw [hcs, ofNumeral?_unsigned hminus hplus, hread]
  exact hback

/-- What is written of a finite number reads back as the number. -/
theorem ofNumeral?_numeral (s : NumeralStyle) (h : x.isFinite = true) :
    ofNumeral? (x.numeral s).toList = some x := by
  rw [toList_numeral]
  cases hneg : x.isNegative with
  | false =>
      have hread := ofNumeral?_text_layout s h
      rw [abs_of_not_isNegative hneg] at hread
      exact hread
  | true =>
      have hread := Decimal.ofNumeral?_text s.plusSign (isNumeral_layout s x)
      have hback := toBinary64?_shortest s.tie h
      rw [decimal_layout] at hread
      rw [hneg] at hback
      show (Decimal.ofNumeral? ((x.layout s).text s.plusSign)).bind (Decimal.toBinary64? true) = some x
      rw [hread]
      exact hback

/-- A number of the data style shows that it is no integer. -/
theorem layout_data_marked (p : Bool) (x : Binary64) :
    (x.layout (.data p)).fraction ≠ [] ∨ (x.layout (.data p)).exponent.isSome = true := by
  unfold layout Decimal.layout
  split
  · refine .inl ?_
    unfold Decimal.positionalLayout
    generalize (x.shortest (NumeralStyle.data p).tie).exponent = e
    cases e with
    | ofNat e => simp [NumeralStyle.data]
    | negSucc e =>
        rw [ne_eq, List.drop_eq_nil_iff]
        simp only [List.length_append, Decimal.length_zeros]
        omega
  · exact .inr rfl

end Binary64

end Equilibrium
