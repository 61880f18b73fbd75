import Equilibrium.Proofs.Expr.Nodes
import Equilibrium.Proofs.Expr.Lexemes
import Equilibrium.Proofs.Expr.Phrases

/-!
# Printed expressions are read back

The printed form of a plain expression is a phrase of its level that means what the expression
means (`isTerm_of_isPlain`), so reading the whole text gives `Expr.norm` (`parse_printed`). -/

namespace Equilibrium.Expr

open Grammar

/-! ### Plain expressions -/

/-- The names that a node itself has. -/
def ownNames : Expr → List Symbol
  | .index n | .var n _ | .param n _ => [n]
  | .sum i domain _ | .prod i domain _ => i :: domain
  | _ => []

/-- Whether a node is printed in the words of the grammar. -/
def isPlainNode : Expr → Bool
  | .raw _ => false
  | .const x => x.isFinite
  | e => e.ownNames.all isPlainName

/-- Whether all nodes are printed in the words of the grammar: there is no raw text, constants are
finite and names are identifiers that are no keywords. -/
def isPlain (e : Expr) : Bool := e.nodes.all isPlainNode

theorem isPlainNode_of_isPlain {e : Expr} (h : e.isPlain = true) : e.isPlainNode = true := by
  rw [isPlain, nodes_eq, List.all_cons, Bool.and_eq_true] at h
  exact h.1

theorem isPlain_of_mem_children {e f : Expr} (h : e.isPlain = true) (hf : f ∈ e.children) :
    f.isPlain = true := by
  rw [isPlain, nodes_eq, List.all_cons, Bool.and_eq_true] at h
  exact List.all_eq_true.mpr fun g hg => List.all_eq_true.mp h.2 g (mem_nodesOf.mpr ⟨f, hf, hg⟩)

/-! ### Operands -/

/-- The printed form of an expression is a phrase of its level with its meaning. -/
def IsReadBack (e : Expr) : Prop := Reads e.level (lexemes e.print) e.norm

/-- An operand is enclosed exactly when its own level is too low for its place. -/
theorem IsReadBack.reads_enclose {e : Expr} (h : e.IsReadBack) {l : Nat} (hl : l ≤ 5) :
    Reads l (lexemes (enclose (e.level < l) e.print)) e.norm := by
  rw [lexemes_enclose]
  by_cases hlow : e.level < l
  · rw [decide_eq_true hlow]
    exact (reads_group (h.mono (Nat.zero_le _))).mono hl
  · rw [decide_eq_false hlow]
    exact h.mono (Nat.not_lt.mp hlow)

/-! ### Products -/

theorem stopsAt_printFactors (es : List Expr) : StopsAt isWordChar (printFactors es) := by
  cases es with
  | nil => exact stopsAt_nil _
  | cons e es => exact stopsAt_cons rfl _

theorem lexemes_printFactors_cons (e : Expr) (es : List Expr) :
    lexemes (printFactors (e :: es)) =
      .mark '*' :: (lexemes (enclose (e.level < Level.negation) e.print) ++
        lexemes (printFactors es)) := by
  rw [printFactors]
  exact lexemes_operator_append rfl rfl (by decide) _ (stopsAt_printFactors es)

theorem stops_printFactors (es : List Expr) {rest : List Lexeme} (h : Stops 2 rest) :
    Stops 2 (lexemes (printFactors es) ++ rest) := by
  cases es with
  | nil => exact h
  | cons e es =>
      rw [lexemes_printFactors_cons]
      exact stops_cons (by decide) _

theorem factors_printFactors {es : List Expr} (hes : ∀ e ∈ es, e.IsReadBack) (x : Normal)
    {rest : List Lexeme} (hrest : Stops 2 rest) :
    factors x (lexemes (printFactors es) ++ rest) = factors ((norms es).foldl .mul x) rest := by
  induction es generalizing x with
  | nil => rfl
  | cons e es ih =>
      have he : Reads 3 _ e.norm :=
        (hes e List.mem_cons_self).reads_enclose (l := Level.negation) (by decide)
      rw [lexemes_printFactors_cons, List.cons_append, List.append_assoc,
        factors_times he ((stops_printFactors es hrest).mono (by decide)),
        ih (fun f hf => hes f (List.mem_cons_of_mem e hf)), norms, List.foldl_cons]

theorem reads_product {e : Expr} {es : List Expr} (he : e.IsReadBack)
    (hes : ∀ f ∈ es, f.IsReadBack) : (Expr.mul (e :: es)).IsReadBack := by
  intro rest hrest
  have hfirst : Reads 2 _ e.norm := he.reads_enclose (l := Level.product) (by decide)
  show product (lexemes (print (.mul (e :: es))) ++ rest) = factors (norm (.mul (e :: es))) rest
  rw [print, norm, lexemes_append_of_stopsAt _ (stopsAt_printFactors es), List.append_assoc,
    ← factors_printFactors hes _ hrest]
  exact hfirst _ (stops_printFactors es hrest)

/-! ### Sums -/

theorem stopsAt_printTerms (es : List Expr) : StopsAt isWordChar (printTerms es) := by
  unfold printTerms
  split
  · exact stopsAt_nil _
  · exact stopsAt_cons rfl _
  · exact stopsAt_cons rfl _

theorem lexemes_printTerms_neg (e : Expr) (es : List Expr) :
    lexemes (printTerms (.neg e :: es)) =
      .mark '-' :: (lexemes (enclose (e.level < Level.product) e.print) ++
        lexemes (printTerms es)) := by
  rw [printTerms]
  exact lexemes_operator_append rfl rfl (by decide) _ (stopsAt_printTerms es)

theorem lexemes_printTerms_cons {e : Expr} (h : ∀ f, e ≠ .neg f) (es : List Expr) :
    lexemes (printTerms (e :: es)) =
      .mark '+' :: (lexemes (enclose (e.level < Level.product) e.print) ++
        lexemes (printTerms es)) := by
  rw [printTerms]
  · exact lexemes_operator_append rfl rfl (by decide) _ (stopsAt_printTerms es)
  · exact h

theorem stops_printTerms (es : List Expr) {rest : List Lexeme} (h : Stops 1 rest) :
    Stops 1 (lexemes (printTerms es) ++ rest) := by
  cases es with
  | nil => exact h
  | cons e es =>
      by_cases hneg : ∃ f, e = .neg f
      · obtain ⟨f, rfl⟩ := hneg
        rw [lexemes_printTerms_neg]
        exact stops_cons (by decide) _
      · rw [lexemes_printTerms_cons (fun f hf => hneg ⟨f, hf⟩)]
        exact stops_cons (by decide) _

/-- A negation in a sum is printed as a difference, so what it negates is an operand as well. -/
def IsTerm (e : Expr) : Prop := e.IsReadBack ∧ ∀ f, e = .neg f → f.IsReadBack

theorem terms_printTerms {es : List Expr} (hes : ∀ e ∈ es, e.IsTerm) (x : Normal)
    {rest : List Lexeme} (hrest : Stops 1 rest) :
    terms x (lexemes (printTerms es) ++ rest) = terms ((norms es).foldl .add x) rest := by
  induction es generalizing x with
  | nil => rfl
  | cons e es ih =>
      obtain ⟨hread, hoperand⟩ := hes e List.mem_cons_self
      have ih := ih fun f hf => hes f (List.mem_cons_of_mem e hf)
      by_cases hneg : ∃ f, e = .neg f
      · obtain ⟨f, rfl⟩ := hneg
        have hf : Reads 2 _ f.norm :=
          (hoperand f rfl).reads_enclose (l := Level.product) (by decide)
        rw [lexemes_printTerms_neg, List.cons_append, List.append_assoc,
          terms_minus hf (stops_printTerms es hrest), ih, norms, norm, List.foldl_cons]
      · have he : Reads 2 _ e.norm := hread.reads_enclose (l := Level.product) (by decide)
        rw [lexemes_printTerms_cons (fun f hf => hneg ⟨f, hf⟩), List.cons_append,
          List.append_assoc, terms_plus he (stops_printTerms es hrest), ih, norms, List.foldl_cons]

theorem reads_sum {e : Expr} {es : List Expr} (he : e.IsReadBack) (hes : ∀ f ∈ es, f.IsTerm) :
    (Expr.add (e :: es)).IsReadBack := by
  intro rest hrest
  have hfirst : Reads 1 _ e.norm := he.reads_enclose (l := Level.sum) (by decide)
  show Grammar.sum (lexemes (print (.add (e :: es))) ++ rest) = terms (norm (.add (e :: es))) rest
  rw [print, norm, lexemes_append_of_stopsAt _ (stopsAt_printTerms es), List.append_assoc,
    ← terms_printTerms hes _ hrest]
  exact hfirst _ (stops_printTerms es hrest)

/-! ### Indices -/

theorem lexemes_printIndices_cons (e f : Expr) (es : List Expr) :
    lexemes (printIndices (e :: f :: es)) =
      lexemes e.print ++ .mark ',' :: lexemes (printIndices (f :: es)) := by
  rw [printIndices, List.append_assoc, lexemes_comma]
  exact List.cons_ne_nil f es

theorem moreIndices_printIndices {e : Expr} {es : List Expr} (hes : ∀ f ∈ e :: es, f.IsReadBack)
    (rest : List Lexeme) :
    moreIndices (lexemes (printIndices (e :: es)) ++ .mark ']' :: rest) =
      some (norms (e :: es), rest) := by
  induction es generalizing e with
  | nil =>
      have he : Reads 0 _ e.norm := (hes e List.mem_cons_self).mono (Nat.zero_le _)
      exact moreIndices_last he rest
  | cons f es ih =>
      have he : Reads 0 _ e.norm := (hes e List.mem_cons_self).mono (Nat.zero_le _)
      rw [lexemes_printIndices_cons, List.append_assoc, List.cons_append,
        moreIndices_comma he (ih fun g hg => hes g (List.mem_cons_of_mem e hg))]
      rfl

theorem indices_printIndices {es : List Expr} (hes : ∀ e ∈ es, e.IsReadBack)
    (rest : List Lexeme) :
    indices (lexemes (printIndices es) ++ .mark ']' :: rest) = some (norms es, rest) := by
  cases es with
  | nil => exact indices.eq_def _
  | cons e es => exact indices_of_moreIndices (moreIndices_printIndices hes rest)

theorem reads_indexed {n : Symbol} {es : List Expr} (hn : isPlainName n = true)
    (hes : ∀ e ∈ es, e.IsReadBack) :
    Reads 5 (lexemes (n.toList ++ '[' :: printIndices es ++ [']'])) (.ref n (some (norms es))) := by
  rw [lexemes_append_mark _ _ rfl (by decide), lexemes_append_mark _ _ rfl (by decide),
    lexemes_name hn, lexemes_nil]
  simpa using reads_reference n (indices_printIndices hes)

/-! ### Sums and products over a domain -/

theorem reads_printReduction {w : String} {r : Reduction} {i : Symbol} {domain : List Symbol}
    {body : Expr} (hw : lexemes w.toList = [.reduction r]) (hi : isPlainName i = true)
    (hdomain : ∀ n ∈ domain, isPlainName n = true) (hbody : body.IsReadBack) :
    Reads 5 (lexemes (w.toList ++ '(' :: printReduction i domain body.print))
      (.reduce r i domain body.norm) := by
  have htext : printReduction i domain body.print = i.toList ++ ' ' :: ("in".toList ++ ' ' :: '[' ::
      (printNames domain ++ ']' :: ([] ++ (", ".toList ++ (body.print ++ [')']))))) := by
    simp [printReduction]
  have hin : lexemes "in".toList = [.inside] := rfl
  rw [lexemes_append_mark _ _ rfl (by decide), hw, htext, lexemes_append_blank,
    lexemes_append_blank, lexemes_mark _ rfl (by decide), lexemes_append_mark _ _ rfl (by decide),
    lexemes_comma, lexemes_append_mark _ _ rfl (by decide), lexemes_name hi, hin,
    lexemes_printNames hdomain]
  exact reads_reduction r i domain (hbody.mono (Nat.zero_le _))

/-! ### All expressions -/

theorem reads_reference_scalar {n : Symbol} (hn : isPlainName n = true) :
    Reads 5 (lexemes n.toList) (.ref n none) := by
  rw [lexemes_name hn]
  exact reads_name n

theorem isReadBack_const {x : Binary64} (hx : x.isFinite = true) : (Expr.const x).IsReadBack := by
  have hlevel : (Expr.const x).level = if x.isNegative then Level.negation else Level.atom := rfl
  unfold IsReadBack norm print
  rw [hlevel, lexemes_number hx]
  cases hneg : x.isNegative with
  | false =>
      rw [Binary64.abs_of_not_isNegative hneg]
      exact reads_number x
  | true => exact reads_neg ((reads_number x.abs).mono (by decide))

theorem isReadBack_neg {e : Expr} (he : e.IsReadBack) : (Expr.neg e).IsReadBack := by
  have hoperand : Reads 3 _ e.norm :=
    (he.reads_enclose (l := Level.power) (by decide)).mono (by decide)
  unfold IsReadBack norm print
  rw [lexemes_mark _ rfl (by decide)]
  exact reads_neg hoperand

theorem isReadBack_div {a b : Expr} (ha : a.IsReadBack) (hb : b.IsReadBack) :
    (Expr.div a b).IsReadBack := by
  unfold IsReadBack norm print
  rw [lexemes_operator (s := " / ".toList) rfl rfl (by decide)]
  exact reads_div (ha.reads_enclose (by decide)) (hb.reads_enclose (by decide))

theorem isReadBack_pow {a b : Expr} (ha : a.IsReadBack) (hb : b.IsReadBack) :
    (Expr.pow a b).IsReadBack := by
  unfold IsReadBack norm print
  rw [lexemes_operator (s := " ^ ".toList) rfl rfl (by decide)]
  exact reads_pow (ha.reads_enclose (by decide)) (hb.reads_enclose (by decide))

theorem isReadBack_eq {a b : Expr} (ha : a.IsReadBack) (hb : b.IsReadBack) :
    (Expr.eq a b).IsReadBack := by
  unfold IsReadBack norm print
  rw [lexemes_operator (s := " = ".toList) rfl rfl (by decide)]
  exact reads_eq (ha.reads_enclose (by decide)) (hb.reads_enclose (by decide))

/-- A plain expression is read back from its printed form. -/
theorem isTerm_of_isPlain (e : Expr) : e.isPlain = true → e.IsTerm := by
  induction e using childrenInduction with
  | step e ih =>
      intro h
      have hnode := isPlainNode_of_isPlain h
      have hterm : ∀ f ∈ e.children, f.IsTerm := fun f hf => ih f hf (isPlain_of_mem_children h hf)
      have hread : ∀ f ∈ e.children, f.IsReadBack := fun f hf => (hterm f hf).1
      refine ⟨?_, fun f hf => hread f (by rw [hf]; exact List.mem_singleton_self f)⟩
      clear ih h
      cases e with
      | raw text => cases hnode
      | const x => exact isReadBack_const hnode
      | index n => exact reads_reference_scalar (by simpa [isPlainNode, ownNames] using hnode)
      | var n indices | param n indices =>
          have hn : isPlainName n = true := by simpa [isPlainNode, ownNames] using hnode
          cases indices with
          | none => exact reads_reference_scalar hn
          | some es => exact reads_indexed hn hread
      | neg e => exact isReadBack_neg (hread e (by simp [children]))
      | add es =>
          cases es with
          | nil => exact reads_number .zero
          | cons e es =>
              exact reads_sum (hread e List.mem_cons_self) fun f hf =>
                hterm f (List.mem_cons_of_mem e hf)
      | mul es =>
          cases es with
          | nil => exact reads_number (.ofInt 1)
          | cons e es =>
              exact reads_product (hread e List.mem_cons_self) fun f hf =>
                hread f (List.mem_cons_of_mem e hf)
      | div a b => exact isReadBack_div (hread a (by simp [children])) (hread b (by simp [children]))
      | pow a b => exact isReadBack_pow (hread a (by simp [children])) (hread b (by simp [children]))
      | eq a b => exact isReadBack_eq (hread a (by simp [children])) (hread b (by simp [children]))
      | sum i domain body =>
          have hnames : isPlainName i = true ∧ ∀ n ∈ domain, isPlainName n = true := by
            simpa [isPlainNode, ownNames] using hnode
          exact reads_printReduction (w := "sum") rfl hnames.1 hnames.2
            (hread body List.mem_cons_self)
      | prod i domain body =>
          have hnames : isPlainName i = true ∧ ∀ n ∈ domain, isPlainName n = true := by
            simpa [isPlainNode, ownNames] using hnode
          exact reads_printReduction (w := "prod") rfl hnames.1 hnames.2
            (hread body List.mem_cons_self)

/-- Reading what is printed of a plain expression gives its meaning. -/
theorem parse_printed (e : Expr) (h : e.isPlain = true) : parse e.printed = some e.norm := by
  have he : Reads 0 (lexemes e.print) e.norm := (isTerm_of_isPlain e h).1.mono (Nat.zero_le _)
  have hend : equation (lexemes e.print ++ []) = some (e.norm, []) := he [] (stops_nil 0)
  rw [List.append_nil] at hend
  unfold parse
  rw [printed, String.toList_ofList, hend]

/-- **The printed form identifies the meaning.** It is read back as the meaning of the expression, so
plain expressions that are printed alike mean the same. -/
theorem printed_identifies_norm (e : Expr) (h : e.isPlain = true) :
    parse e.printed = some e.norm ∧
      ∀ f : Expr, f.isPlain = true → e.printed = f.printed → e.norm = f.norm := by
  refine ⟨parse_printed e h, fun f hf heq => Option.some.inj ?_⟩
  rw [← parse_printed e h, heq, parse_printed f hf]

/-- A difference of a product, with operands that need parentheses. -/
def difference : Expr :=
  .eq
    (.add [scalar "a", .neg (.mul [.const (.ofInt (-2)),
      .pow (.add [scalar "b", .add []]) (.var "x" (some [.index "i"]))])])
    (.sum "i" ["s", "t"] (.param "p" none))

theorem parse_difference :
    parse "a - -2 * (b + 0) ^ x[i] = sum(i in [s, t], p)" =
      some (.eq
        (.add (.ref "a" none) (.neg (.mul (.neg (.const (.ofInt 2)))
          (.pow (.add (.ref "b" none) (.const .zero)) (.ref "x" (some [.ref "i" none]))))))
        (.reduce .sum "i" ["s", "t"] (.ref "p" none))) := by
  have htext : difference.printed = "a - -2 * (b + 0) ^ x[i] = sum(i in [s, t], p)" := by
    decide +kernel
  rw [← htext]
  exact (printed_identifies_norm difference (by decide)).1

end Equilibrium.Expr
