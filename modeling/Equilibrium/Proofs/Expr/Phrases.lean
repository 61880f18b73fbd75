import Equilibrium.Proofs.Expr.Grammar

/-!
# Phrases

A phrase of a level is what the rule of the level reads up to a lexeme that cannot go on with it
(`Grammar.Reads`). A phrase of a higher level is one of every lower level (`Reads.mono`), and each
production of the grammar makes a phrase out of phrases. -/

namespace Equilibrium.Expr

/-- The level that a phrase needs to be the left operand of what begins with this lexeme; zero for
lexemes that no phrase goes on with. -/
def Lexeme.grip : Lexeme → Nat
  | .mark '=' | .mark '+' | .mark '-' => 1
  | .mark '*' | .mark '/' => 2
  | .mark '^' => 5
  | .mark '[' => 6
  | _ => 0

namespace Grammar

/-! ### What phrases are -/

/-- No phrase of a higher level than this goes on here. -/
def Stops (l : Nat) (ts : List Lexeme) : Prop := ∀ t ∈ ts.head?, t.grip ≤ l

/-- The rule of a level. -/
def rule : Nat → List Lexeme → Option (Normal × List Lexeme)
  | 0 => equation
  | 1 => sum
  | 2 => product
  | 3 => negation
  | 4 => power
  | _ => atom

/-- What the rule of a level does behind the first phrase: sums and products go on with operators of
their own level. -/
def goOn : Nat → Normal → List Lexeme → Option (Normal × List Lexeme)
  | 1 => terms
  | 2 => factors
  | _ => fun x ts => some (x, ts)

/-- The lexemes are a phrase of a level that means `x`. -/
def Reads (l : Nat) (ts : List Lexeme) (x : Normal) : Prop :=
  ∀ rest, Stops l rest → rule l (ts ++ rest) = goOn l x rest

variable {l m : Nat} {ts us rest : List Lexeme} {x y : Normal}

theorem stops_nil (l : Nat) : Stops l [] := by simp [Stops]

theorem stops_cons {t : Lexeme} (h : t.grip ≤ l) (ts : List Lexeme) : Stops l (t :: ts) := by
  simpa [Stops] using h

theorem Stops.grip_le {t : Lexeme} (h : Stops l (t :: ts)) : t.grip ≤ l := h t rfl

theorem Stops.mono (hl : l ≤ m) (h : Stops l ts) : Stops m ts :=
  fun t ht => le_trans (h t ht) hl

theorem terms_of_stops (h : Stops 0 rest) : terms x rest = some (x, rest) := by
  rw [terms.eq_def]
  split
  · exact absurd h.grip_le (by decide)
  · exact absurd h.grip_le (by decide)
  · rfl

theorem factors_of_stops (h : Stops 1 rest) : factors x rest = some (x, rest) := by
  rw [factors.eq_def]
  split
  · exact absurd h.grip_le (by decide)
  · exact absurd h.grip_le (by decide)
  · rfl

/-! ### Phrases of a higher level -/

theorem equation_of_sum (hts : sum ts = some (x, rest)) (h : Stops 0 rest) :
    equation ts = some (x, rest) := by
  rw [equation, within_of_leaves (leaves_sum ts) hts, Option.bind_eq_bind, Option.bind_some]
  dsimp only
  split
  · exact absurd h.grip_le (by decide)
  · rfl

theorem sum_of_product (hts : product ts = some (x, rest)) : sum ts = terms x rest := by
  rw [sum, within_of_leaves (leaves_product ts) hts]
  rfl

theorem product_of_negation (hts : negation ts = some (x, rest)) : product ts = factors x rest := by
  rw [product, within_of_leaves (leaves_negation ts) hts]
  rfl

theorem power_mark_minus (ts : List Lexeme) : power (.mark '-' :: ts) = none := by
  rw [power, atom.eq_def]
  rfl

/-- No power begins with a minus. -/
theorem negation_of_power (hts : power ts = some (x, rest)) : negation ts = some (x, rest) := by
  rw [negation.eq_def]
  split
  · rw [power_mark_minus] at hts
    cases hts
  · exact hts

theorem power_of_atom (hts : atom ts = some (x, rest)) (h : Stops 4 rest) :
    power ts = some (x, rest) := by
  rw [power, within_of_leaves (leaves_atom ts) hts, Option.bind_eq_bind, Option.bind_some]
  dsimp only
  split
  · exact absurd h.grip_le (by decide)
  · rfl

theorem Reads.of_succ (h : Reads (l + 1) ts x) : Reads l ts x := by
  intro rest hrest
  have hnext := h rest (hrest.mono (Nat.le_succ l))
  match l with
  | 0 => exact equation_of_sum (hnext.trans (terms_of_stops hrest)) hrest
  | 1 => exact sum_of_product (hnext.trans (factors_of_stops hrest))
  | 2 => exact product_of_negation hnext
  | 3 => exact negation_of_power hnext
  | 4 => exact power_of_atom hnext hrest
  | _ + 5 => exact hnext

/-- A phrase of a level is one of every lower level. -/
theorem Reads.mono (hl : l ≤ m) (h : Reads m ts x) : Reads l ts x := by
  induction hl with
  | refl => exact h
  | step _ ih => exact ih h.of_succ

/-! ### Productions -/

theorem reads_number (x : Binary64) : Reads 5 [.number x] (.const x) := by
  intro rest _
  show atom (.number x :: rest) = some (.const x, rest)
  rw [atom]

theorem reads_name (n : Symbol) : Reads 5 [.name n] (.ref n none) := by
  intro rest hrest
  show atom (.name n :: rest) = some (.ref n none, rest)
  rw [atom]
  rintro us rfl
  exact absurd hrest.grip_le (by decide)

theorem reads_group (h : Reads 0 ts x) : Reads 5 (.mark '(' :: (ts ++ [.mark ')'])) x := by
  intro rest _
  show atom (.mark '(' :: ((ts ++ [.mark ')']) ++ rest)) = some (x, rest)
  have hts : equation (ts ++ .mark ')' :: rest) = some (x, .mark ')' :: rest) :=
    h _ (stops_cons (by decide) rest)
  rw [List.append_assoc, List.singleton_append, atom, within_of_leaves (leaves_equation _) hts]
  rfl

theorem reads_pow (hx : Reads 5 ts x) (hy : Reads 4 us y) :
    Reads 4 (ts ++ .mark '^' :: us) (.pow x y) := by
  intro rest hrest
  show power ((ts ++ .mark '^' :: us) ++ rest) = some (.pow x y, rest)
  have hts : atom (ts ++ .mark '^' :: (us ++ rest)) = some (x, .mark '^' :: (us ++ rest)) :=
    hx _ (stops_cons (by decide) _)
  have hus : power (us ++ rest) = some (y, rest) := hy rest hrest
  rw [List.append_assoc, List.cons_append, power, within_of_leaves (leaves_atom _) hts,
    Option.bind_eq_bind, Option.bind_some]
  show (within (us ++ rest) (power (us ++ rest))).bind _ = _
  rw [within_of_leaves (leaves_power _) hus]
  rfl

theorem reads_neg (h : Reads 3 ts x) : Reads 3 (.mark '-' :: ts) (.neg x) := by
  intro rest hrest
  show negation (.mark '-' :: (ts ++ rest)) = some (.neg x, rest)
  have hts : negation (ts ++ rest) = some (x, rest) := h rest hrest
  rw [negation, within_of_leaves (leaves_negation _) hts]
  rfl

theorem factors_times (hy : Reads 3 us y) (hrest : Stops 3 rest) (x : Normal) :
    factors x (.mark '*' :: (us ++ rest)) = factors (.mul x y) rest := by
  have hus : negation (us ++ rest) = some (y, rest) := hy rest hrest
  rw [factors, within_of_leaves (leaves_negation _) hus]
  rfl

theorem factors_over (hy : Reads 3 us y) (hrest : Stops 3 rest) (x : Normal) :
    factors x (.mark '/' :: (us ++ rest)) = factors (.div x y) rest := by
  have hus : negation (us ++ rest) = some (y, rest) := hy rest hrest
  rw [factors, within_of_leaves (leaves_negation _) hus]
  rfl

theorem product_of_reads (hy : Reads 2 us y) (hrest : Stops 1 rest) :
    product (us ++ rest) = some (y, rest) :=
  (hy rest (hrest.mono (by decide))).trans (factors_of_stops hrest)

theorem terms_plus (hy : Reads 2 us y) (hrest : Stops 1 rest) (x : Normal) :
    terms x (.mark '+' :: (us ++ rest)) = terms (.add x y) rest := by
  rw [terms, within_of_leaves (leaves_product _) (product_of_reads hy hrest)]
  rfl

theorem terms_minus (hy : Reads 2 us y) (hrest : Stops 1 rest) (x : Normal) :
    terms x (.mark '-' :: (us ++ rest)) = terms (.add x (.neg y)) rest := by
  rw [terms, within_of_leaves (leaves_product _) (product_of_reads hy hrest)]
  rfl

theorem reads_div (hx : Reads 2 ts x) (hy : Reads 3 us y) :
    Reads 2 (ts ++ .mark '/' :: us) (.div x y) := by
  intro rest hrest
  show product ((ts ++ .mark '/' :: us) ++ rest) = factors (.div x y) rest
  rw [List.append_assoc, List.cons_append, ← factors_over hy (hrest.mono (by decide))]
  exact hx _ (stops_cons (by decide) _)

theorem reads_eq (hx : Reads 1 ts x) (hy : Reads 1 us y) :
    Reads 0 (ts ++ .mark '=' :: us) (.eq x y) := by
  intro rest hrest
  show equation ((ts ++ .mark '=' :: us) ++ rest) = some (.eq x y, rest)
  have hts : sum (ts ++ .mark '=' :: (us ++ rest)) = terms x (.mark '=' :: (us ++ rest)) :=
    hx _ (stops_cons (by decide) _)
  have hus : sum (us ++ rest) = some (y, rest) :=
    (hy rest (hrest.mono (by decide))).trans (terms_of_stops hrest)
  have hend : terms x (.mark '=' :: (us ++ rest)) = some (x, .mark '=' :: (us ++ rest)) := by
    rw [terms.eq_def]
    rfl
  rw [List.append_assoc, List.cons_append, equation,
    within_of_leaves (leaves_sum _) (hts.trans hend), Option.bind_eq_bind, Option.bind_some]
  show (within (us ++ rest) (sum (us ++ rest))).bind _ = _
  rw [within_of_leaves (leaves_sum _) hus]
  rfl

/-! ### Names and indices in brackets -/

theorem moreNames_intersperse (n : Symbol) (ns : List Symbol) (rest : List Lexeme) :
    moreNames (((n :: ns).map Lexeme.name).intersperse (.mark ',') ++ .mark ']' :: rest) =
      some (n :: ns, rest) := by
  induction ns generalizing n with
  | nil => rfl
  | cons m ns ih =>
      show (moreNames (((m :: ns).map Lexeme.name).intersperse (.mark ',') ++ .mark ']' :: rest)).map _ = _
      rw [ih m]
      rfl

theorem names_intersperse (ns : List Symbol) (rest : List Lexeme) :
    names ((ns.map Lexeme.name).intersperse (.mark ',') ++ .mark ']' :: rest) = some (ns, rest) := by
  cases ns with
  | nil => rfl
  | cons n ns =>
      have h := moreNames_intersperse n ns rest
      cases ns <;> exact h

theorem reads_reduction (r : Reduction) (i : Symbol) (ns : List Symbol) (h : Reads 0 ts x) :
    Reads 5 (.reduction r :: .mark '(' :: .name i :: .inside :: .mark '[' ::
      ((ns.map Lexeme.name).intersperse (.mark ',') ++ .mark ']' :: .mark ',' ::
        (ts ++ [.mark ')']))) (.reduce r i ns x) := by
  intro rest _
  have hts : equation (ts ++ .mark ')' :: rest) = some (x, .mark ')' :: rest) :=
    h _ (stops_cons (by decide) rest)
  show atom _ = some (.reduce r i ns x, rest)
  simp only [List.cons_append, List.append_assoc, List.nil_append]
  rw [atom, within_of_leaves (leaves_names _) (names_intersperse ns _), Option.bind_eq_bind,
    Option.bind_some]
  show (within _ (equation (ts ++ .mark ')' :: rest))).bind _ = _
  rw [within_of_leaves (leaves_equation _) hts]
  rfl

theorem moreIndices_bracket (ts : List Lexeme) : moreIndices (.mark ']' :: ts) = none := by
  have hnegation : negation (.mark ']' :: ts) = none := by
    rw [negation.eq_def]
    show power (.mark ']' :: ts) = none
    rw [power, atom.eq_def]
    rfl
  rw [moreIndices, equation, sum, product, hnegation]
  rfl

/-- No index begins with a bracket. -/
theorem indices_of_moreIndices {xs : List Normal} (h : moreIndices ts = some (xs, rest)) :
    indices ts = some (xs, rest) := by
  rw [indices.eq_def]
  split
  · rw [moreIndices_bracket] at h
    cases h
  · exact h

theorem moreIndices_last (h : Reads 0 ts x) (rest : List Lexeme) :
    moreIndices (ts ++ .mark ']' :: rest) = some ([x], rest) := by
  have hts : equation (ts ++ .mark ']' :: rest) = some (x, .mark ']' :: rest) :=
    h _ (stops_cons (by decide) rest)
  rw [moreIndices, within_of_leaves (leaves_equation _) hts]
  rfl

theorem moreIndices_comma {xs : List Normal} (h : Reads 0 ts x)
    (hmore : moreIndices us = some (xs, rest)) :
    moreIndices (ts ++ .mark ',' :: us) = some (x :: xs, rest) := by
  have hts : equation (ts ++ .mark ',' :: us) = some (x, .mark ',' :: us) :=
    h _ (stops_cons (by decide) us)
  rw [moreIndices, within_of_leaves (leaves_equation _) hts, Option.bind_eq_bind, Option.bind_some]
  show (within us (moreIndices us)).bind _ = _
  rw [within_of_leaves (leaves_moreIndices _) hmore]
  rfl

theorem reads_reference (n : Symbol) {xs : List Normal}
    (h : ∀ rest, indices (ts ++ .mark ']' :: rest) = some (xs, rest)) :
    Reads 5 (.name n :: .mark '[' :: (ts ++ [.mark ']'])) (.ref n (some xs)) := by
  intro rest _
  show atom (.name n :: .mark '[' :: ((ts ++ [.mark ']']) ++ rest)) = some (.ref n (some xs), rest)
  rw [List.append_assoc, List.singleton_append, atom, within_of_leaves (leaves_indices _) (h rest)]
  rfl

end Grammar

end Equilibrium.Expr
