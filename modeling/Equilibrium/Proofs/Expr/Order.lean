import Equilibrium.Expr.Order
import Equilibrium.Proofs.Binary64.Order
import Equilibrium.Proofs.Expr.Nodes

/-!
# The linear order of expressions

Two expressions are compared by what their roots hold besides children (`Expr.Label`) and then by
their children, from left to right (`Expr.compare_eq`). Labels are in a linear order, so the laws
of a linear order pass from the children to the node above them, and all expressions obey them
(`Expr.compare_linear`). -/

namespace Equilibrium

/-! ### Lexicographic order

What a list inherits from its members. Of a comparison with other lists nothing is assumed about
the members of those: where the first members do not decide they are equal. -/

section lexicographic

variable {α β : Type} {f : α → α → Ordering} {g : β → β → Ordering}

/-- Of two steps upwards the first decisive one decides where both lead. -/
theorem then_lt_trans {a b c : α} {x y z : β} (hab : f a b = .eq → a = b)
    (hbc : f b c = .eq → b = c) (hf : f a b = .lt → f b c = .lt → f a c = .lt)
    (hg : g x y = .lt → g y z = .lt → g x z = .lt) (h : (f a b).then (g x y) = .lt)
    (h' : (f b c).then (g y z) = .lt) : (f a c).then (g x z) = .lt := by
  rw [Ordering.then_eq_lt] at h h' ⊢
  obtain h | ⟨heq, h⟩ := h
  · obtain h' | ⟨heq', -⟩ := h'
    · exact .inl (hf h h')
    · obtain rfl := hbc heq'
      exact .inl h
  · obtain rfl := hab heq
    obtain h' | ⟨heq', h'⟩ := h'
    · exact .inl h'
    · exact .inr ⟨heq', hg h h'⟩

variable {l m n : List α}

theorem compareLex_eq_iff (h : ∀ a ∈ l, ∀ b, f a b = .eq ↔ a = b) :
    l.compareLex f m = .eq ↔ l = m := by
  induction l generalizing m with
  | nil => cases m <;> simp [List.compareLex]
  | cons a l ih =>
      cases m with
      | nil => simp [List.compareLex]
      | cons b m =>
          rw [List.compareLex_cons_cons, Ordering.then_eq_eq, h a List.mem_cons_self,
            ih fun c hc => h c (List.mem_cons_of_mem a hc), List.cons_eq_cons]

theorem compareLex_swap (h : ∀ a ∈ l, ∀ b, f b a = (f a b).swap) :
    m.compareLex f l = (l.compareLex f m).swap := by
  induction l generalizing m with
  | nil => cases m <;> rfl
  | cons a l ih =>
      cases m with
      | nil => rfl
      | cons b m =>
          rw [List.compareLex_cons_cons, List.compareLex_cons_cons, Ordering.swap_then,
            h a List.mem_cons_self, ih fun c hc => h c (List.mem_cons_of_mem a hc)]

theorem compareLex_lt_trans (heq : ∀ a b, f a b = .eq → a = b)
    (h : ∀ a ∈ l, ∀ b c, f a b = .lt → f b c = .lt → f a c = .lt)
    (hlm : l.compareLex f m = .lt) (hmn : m.compareLex f n = .lt) : l.compareLex f n = .lt := by
  induction l generalizing m n with
  | nil =>
      cases n with
      | nil => cases m <;> simp [List.compareLex] at hlm hmn
      | cons c n => rfl
  | cons a l ih =>
      cases m with
      | nil => simp [List.compareLex] at hlm
      | cons b m =>
          cases n with
          | nil => simp [List.compareLex] at hmn
          | cons c n =>
              rw [List.compareLex_cons_cons] at hlm hmn ⊢
              exact then_lt_trans (heq a b) (heq b c) (h a List.mem_cons_self b c)
                (ih fun d hd => h d (List.mem_cons_of_mem a hd)) hlm hmn

end lexicographic

namespace Expr

/-! ### Labels -/

/-- What a node holds besides its children, in the order in which it counts. -/
structure Label where
  /-- The place of the kind. -/
  kind : Nat
  /-- The name, or the index and its domain, or the raw text. -/
  names : List Symbol
  /-- Whether there is a list of indices. -/
  isListed : Bool
  /-- The constant. -/
  number : Int64

namespace Label

instance : Ord Label where
  compare a b := (compare a.kind b.kind).then ((compare a.names b.names).then
    ((compare a.isListed b.isListed).then (compare a.number b.number)))

instance : Std.TransOrd Label :=
  inferInstanceAs (Std.TransCmp (compareLex (compareOn Label.kind)
    (compareLex (compareOn Label.names)
      (compareLex (compareOn Label.isListed) (compareOn Label.number)))))

theorem compare_eq_then (a b : Label) :
    compare a b = (compare a.kind b.kind).then ((compare a.names b.names).then
      ((compare a.isListed b.isListed).then (compare a.number b.number))) :=
  rfl

theorem compare_eq_eq_iff {a b : Label} : compare a b = .eq ↔ a = b := by
  obtain ⟨kind, names, isListed, number⟩ := a
  obtain ⟨kind', names', isListed', number'⟩ := b
  simp [compare_eq_then, Ordering.then_eq_eq]

end Label

/-- The label of the root. -/
def label (e : Expr) : Label :=
  match e with
  | .index n => ⟨e.kind.rank, [n], false, 0⟩
  | .var n indices | .param n indices => ⟨e.kind.rank, [n], indices.isSome, 0⟩
  | .const x => ⟨e.kind.rank, [], false, x.orderKey⟩
  | .raw t => ⟨e.kind.rank, [t], false, 0⟩
  | .sum i domain _ | .prod i domain _ => ⟨e.kind.rank, i :: domain, false, 0⟩
  | .neg _ | .add _ | .mul _ | .div _ _ | .pow _ _ | .eq _ _ => ⟨e.kind.rank, [], false, 0⟩

theorem Kind.rank_inj {k l : Kind} : k.rank = l.rank ↔ k = l := List.idxOf_inj (Kind.mem_all k)

theorem label_kind (e : Expr) : e.label.kind = e.kind.rank := by
  cases e <;> rfl

/-- A tree is its label and its children. -/
theorem eq_of_label_of_children {d e : Expr} (hlabel : d.label = e.label)
    (hchildren : d.children = e.children) : d = e := by
  have hkind : d.kind = e.kind := by
    rw [← Kind.rank_inj, ← label_kind, hlabel, label_kind]
  have hindices {is js : Option (List Expr)} (hsome : is.isSome = js.isSome)
      (hgetD : is.getD [] = js.getD []) : is = js := by
    cases is <;> cases js <;> simp_all
  cases d <;> cases e <;> cases hkind
  all_goals simp_all [label, children, Binary64.orderKey_inj]
  · exact hindices hlabel.2.2 hchildren
  · exact hindices hlabel.2.2 hchildren

/-! ### Labels first, then children -/

theorem compareNames_eq (as bs : List Symbol) : compareNames as bs = compare as bs := by
  induction as generalizing bs with
  | nil => cases bs <;> rfl
  | cons a as ih =>
      cases bs with
      | nil => rfl
      | cons b bs => rw [compareNames, ih, List.compare_cons_cons]

theorem compareLists_eq (ds es : List Expr) :
    compareLists ds es = ds.compareLex Expr.compare es := by
  induction ds generalizing es with
  | nil => cases es <;> rfl
  | cons d ds ih =>
      cases es with
      | nil => rfl
      | cons e es => rw [compareLists, ih, List.compareLex_cons_cons]

theorem compareIndices_eq (is js : Option (List Expr)) :
    compareIndices is js =
      (Ord.compare is.isSome js.isSome).then (compareLists (is.getD []) (js.getD [])) := by
  cases is <;> cases js <;> simp [compareIndices, compareLists] <;> rfl

/-- The kinds decide if they differ. -/
theorem compare_of_kind_ne {d e : Expr} (h : d.kind ≠ e.kind) :
    d.compare e = Ord.compare d.kind.rank e.kind.rank := by
  fun_cases Expr.compare d e
  case case14 => rfl
  all_goals exact absurd rfl h

/-- Expressions are compared by their labels, then by their children from left to right. -/
theorem compare_eq (d e : Expr) :
    d.compare e =
      (Ord.compare d.label e.label).then (d.children.compareLex Expr.compare e.children) := by
  rw [← compareLists_eq, Label.compare_eq_then]
  by_cases hkind : d.kind = e.kind
  · cases d <;> cases e <;> cases hkind
    all_goals simp [Expr.compare, kind, label, children, compareLists, compareIndices_eq,
      compareNames_eq, Ordering.then_assoc, Binary64.compare_eq_compare_orderKey]
  · have hrank : Ord.compare d.kind.rank e.kind.rank ≠ .eq := by
      rw [ne_eq, Std.LawfulEqOrd.compare_eq_iff_eq, Kind.rank_inj]
      exact hkind
    rw [compare_of_kind_ne hkind, label_kind, label_kind]
    cases h : Ord.compare d.kind.rank e.kind.rank with
    | lt => rfl
    | eq => exact absurd h hrank
    | gt => rfl

/-! ### The laws -/

theorem compare_eq_eq_iff (a : Expr) : ∀ b : Expr, a.compare b = .eq ↔ a = b := by
  induction a using childrenInduction with
  | step a ih =>
      intro b
      rw [compare_eq, Ordering.then_eq_eq, Label.compare_eq_eq_iff, compareLex_eq_iff ih]
      constructor
      · rintro ⟨hlabel, hchildren⟩
        exact eq_of_label_of_children hlabel hchildren
      · rintro rfl
        exact ⟨rfl, rfl⟩

theorem compare_swap (a : Expr) : ∀ b : Expr, b.compare a = (a.compare b).swap := by
  induction a using childrenInduction with
  | step a ih =>
      intro b
      have hlabel : Ord.compare b.label a.label = (Ord.compare a.label b.label).swap :=
        Std.OrientedCmp.eq_swap
      rw [compare_eq b, compare_eq a, Ordering.swap_then, compareLex_swap ih, hlabel]

theorem compare_lt_trans (a : Expr) :
    ∀ b c : Expr, a.compare b = .lt → b.compare c = .lt → a.compare c = .lt := by
  induction a using childrenInduction with
  | step a ih =>
      intro b c hab hbc
      rw [compare_eq] at hab hbc ⊢
      have hlists := compareLex_lt_trans (l := a.children) (m := b.children) (n := c.children)
        (fun d e => (compare_eq_eq_iff d e).mp) ih
      exact then_lt_trans Label.compare_eq_eq_iff.mp Label.compare_eq_eq_iff.mp
        Std.TransCmp.lt_trans hlists hab hbc

theorem compare_isLE_trans {a b c : Expr} (hab : (a.compare b).isLE = true)
    (hbc : (b.compare c).isLE = true) : (a.compare c).isLE = true := by
  rw [Ordering.isLE_iff_eq_lt_or_eq_eq, compare_eq_eq_iff] at hab hbc
  obtain hab | rfl := hab
  · obtain hbc | rfl := hbc
    · exact Ordering.isLE_of_eq_lt (compare_lt_trans a b c hab hbc)
    · exact Ordering.isLE_of_eq_lt hab
  · rwa [Ordering.isLE_iff_eq_lt_or_eq_eq, compare_eq_eq_iff]

/-- **The order of expressions is linear, and only equal trees compare as equal.** The labels of
the roots count first, then the children from left to right. -/
theorem compare_linear (a b c : Expr) :
    (a.compare b = .eq ↔ a = b) ∧
    b.compare a = (a.compare b).swap ∧
    ((a.compare b).isLE = true → (b.compare c).isLE = true → (a.compare c).isLE = true) ∧
    ((a.compare b).isLE = true ∨ (b.compare a).isLE = true) ∧
    a.compare b =
      (Ord.compare a.label b.label).then (a.children.compareLex Expr.compare b.children) := by
  refine ⟨compare_eq_eq_iff a b, compare_swap a b, compare_isLE_trans, ?_, compare_eq a b⟩
  rw [compare_swap a b]
  cases a.compare b <;> decide

/-- A sum that begins with a constant of the given bits. -/
def oddSum (bits : UInt64) : Expr := .add [.const ⟨bits⟩, .var "x" (some []), .param "x" none]

/-- A negative not-a-number with a payload, then the two zeros. -/
theorem compare_linear_oddSums :
    ((oddSum 0xFFF8000000000007).compare (oddSum 0x8000000000000000)).isLE = true ∧
    ((oddSum 0x8000000000000000).compare (oddSum 0)).isLE = true ∧
    ((oddSum 0xFFF8000000000007).compare (oddSum 0)).isLE = true ∧
    (oddSum 0x8000000000000000).compare (oddSum 0) ≠ .eq := by
  have hfirst : ((oddSum 0xFFF8000000000007).compare (oddSum 0x8000000000000000)).isLE = true := by
    decide
  have hsecond : ((oddSum 0x8000000000000000).compare (oddSum 0)).isLE = true := by
    decide
  obtain ⟨-, -, htrans, -⟩ :=
    compare_linear (oddSum 0xFFF8000000000007) (oddSum 0x8000000000000000) (oddSum 0)
  exact ⟨hfirst, hsecond, htrans hfirst hsecond, by decide⟩

end Expr

end Equilibrium
