import Mathlib.Algebra.BigOperators.Group.List.Basic
import Equilibrium.Proofs.Benchmark
import Equilibrium.Proofs.Binary64.Rounding

/-!
# Receipts and expenditures

In exact arithmetic a sum over names that include all keys of a map meets each value once
(`SymbolMap.sum_map_get?`). Both totals of a table are such sums, by rows and by columns, so over all
accounts they come to the same: all flows that there are
(`FlowMatrix.receipts_eq_expenditures`). -/

namespace Equilibrium

/-- Exact arithmetic. -/
instance : Quantity ℚ where
  zero := 0
  emptySum := 0
  add := (· + ·)
  sub := (· - ·)
  mul := (· * ·)
  abs := abs
  larger := max
  le a b := a ≤ b
  isFinite _ := true

theorem total_eq_sum (amounts : List ℚ) : Quantity.total amounts = amounts.sum :=
  List.sum_eq_foldl.symm

/-! ### Sums over names -/

section sums

variable {α : Type} {names : List Symbol}

theorem sum_map_lookup {es : List (Symbol × α)} (hes : Ascending es) (hnodup : names.Nodup)
    (hkeys : ∀ e ∈ es, e.1 ∈ names) (f : α → ℚ) :
    (names.map fun k => (es.lookup k).elim 0 f).sum = (es.map fun e => f e.2).sum := by
  induction es with
  | nil => simp
  | cons e es ih =>
      -- The first entry is met at its own key, where nothing else stands, and only there.
      obtain ⟨he, hes⟩ := List.pairwise_cons.mp hes
      have hnone : es.lookup e.1 = none := by
        rw [List.lookup_eq_none_iff]
        intro d hd
        exact bne_iff_ne.mpr fun heq => String.lt_irrefl e.1 (heq ▸ he d hd)
      have hsplit (k : Symbol) : ((e :: es).lookup k).elim 0 f =
          if k = e.1 then f e.2 else (es.lookup k).elim 0 f := by
        rw [lookup_cons_eq]
        split <;> rfl
      have hcount : names.count e.1 = 1 :=
        List.count_eq_one_of_mem hnodup (hkeys e List.mem_cons_self)
      simp only [hsplit]
      rw [List.sum_map_ite_eq, hcount, hnone, ih hes fun d hd => hkeys d (List.mem_cons_of_mem e hd),
        List.map_cons, List.sum_cons, one_smul, Option.elim_none, sub_zero]

/-- A sum over names that include the keys of a map meets each value once. -/
theorem SymbolMap.sum_map_get? (m : SymbolMap α) (hnodup : names.Nodup)
    (hkeys : ∀ k ∈ m.keys, k ∈ names) (f : α → ℚ) :
    (names.map fun k => (m.get? k).elim 0 f).sum = (m.values.map f).sum := by
  have hentries : ∀ e ∈ m.entries, e.1 ∈ names := fun e he => hkeys e.1 (List.mem_map_of_mem he)
  rw [values, List.map_map]
  exact sum_map_lookup m.ascending hnodup hentries f

/-- If amounts cancel out, more than one of them is not 0, or none. -/
theorem length_filter_ne_one {l : List α} {f : α → ℚ} (h : (l.map f).sum = 0) :
    (l.filter fun a => f a ≠ 0).length ≠ 1 := by
  intro hone
  obtain ⟨a, ha⟩ := List.length_eq_one_iff.mp hone
  have hrest : ((l.filter fun a => ¬ f a ≠ 0).map f).sum = 0 := by
    apply List.sum_eq_zero
    intro x hx
    obtain ⟨b, hb, rfl⟩ := List.mem_map.mp hx
    simpa using (List.mem_filter.mp hb).2
  have hzero : f a = 0 := by
    rw [← List.sum_map_filter_add_sum_map_filter_not (fun a => f a ≠ 0), hrest, ha] at h
    simpa using h
  have hmem : a ∈ l.filter fun a => f a ≠ 0 := ha ▸ List.mem_cons_self
  simp [hzero] at hmem

end sums

/-! ### Totals -/

namespace FlowMatrix

/-- All flows that there are, row by row. -/
def amounts {ρ : Type} (m : FlowMatrix ρ) : List ρ := m.flows.values.flatMap (·.values)

section accounts

variable {ρ : Type} (m : FlowMatrix ρ)

theorem nodup_accounts : m.accounts.Nodup := nodup_sortedDistinct _

theorem row_mem_accounts : ∀ r ∈ m.flows.keys, r ∈ m.accounts := by
  intro r hr
  obtain ⟨e, he, rfl⟩ := List.mem_map.mp hr
  exact mem_sortedDistinct.mpr (List.mem_flatMap.mpr ⟨e, he, List.mem_cons_self⟩)

theorem column_mem_accounts : ∀ row ∈ m.flows.values, ∀ c ∈ row.keys, c ∈ m.accounts := by
  intro row hrow c hc
  obtain ⟨e, he, rfl⟩ := List.mem_map.mp hrow
  exact mem_sortedDistinct.mpr (List.mem_flatMap.mpr ⟨e, he, List.mem_cons_of_mem e.1 hc⟩)

end accounts

variable (m : FlowMatrix ℚ)

theorem sum_amounts : m.amounts.sum = (m.flows.values.map fun row => row.values.sum).sum := by
  rw [amounts, List.flatMap_def, List.sum_flatten, List.map_map]
  rfl

theorem rowTotal_eq (account : Symbol) :
    m.rowTotal account = (m.flows.get? account).elim 0 fun row => row.values.sum := by
  unfold rowTotal
  cases m.flows.get? account with
  | none => rfl
  | some row => exact total_eq_sum row.values

theorem columnTotal_eq (account : Symbol) :
    m.columnTotal account = (m.flows.values.filterMap fun row => row.get? account).sum :=
  total_eq_sum _

/-- What all accounts receive is all that flows. -/
theorem sum_rowTotal : (m.accounts.map m.rowTotal).sum = m.amounts.sum := by
  rw [sum_amounts, ← m.flows.sum_map_get? m.nodup_accounts m.row_mem_accounts,
    funext m.rowTotal_eq]

/-- The sum of columns, row by row. -/
theorem sum_columns {names : List Symbol} (hnodup : names.Nodup) {rows : List (SymbolMap ℚ)}
    (hkeys : ∀ row ∈ rows, ∀ c ∈ row.keys, c ∈ names) :
    (names.map fun c => (rows.filterMap fun row => row.get? c).sum).sum =
      (rows.map fun row => row.values.sum).sum := by
  induction rows with
  | nil => simp
  | cons row rows ih =>
      obtain ⟨hrow, hrows⟩ := List.forall_mem_cons.mp hkeys
      have hsplit (c : Symbol) : ((row :: rows).filterMap fun row => row.get? c).sum =
          (row.get? c).elim 0 id + (rows.filterMap fun row => row.get? c).sum := by
        rw [List.filterMap_cons]
        cases row.get? c <;> simp
      simp only [hsplit]
      rw [List.sum_map_add, row.sum_map_get? hnodup hrow, ih hrows, List.map_id, List.map_cons,
        List.sum_cons]

/-- What all accounts spend is all that flows. -/
theorem sum_columnTotal : (m.accounts.map m.columnTotal).sum = m.amounts.sum := by
  rw [sum_amounts, ← sum_columns m.nodup_accounts m.column_mem_accounts,
    funext m.columnTotal_eq]

/-- Over all accounts, what is received and what is spent cancel out. -/
theorem sum_rowTotal_sub_columnTotal :
    (m.accounts.map fun a => m.rowTotal a - m.columnTotal a).sum = 0 := by
  have hadd : (m.accounts.map fun a => m.rowTotal a - m.columnTotal a).sum + m.amounts.sum =
      m.amounts.sum := by
    rw [← m.sum_columnTotal, ← List.sum_map_add]
    simp only [sub_add_cancel]
    rw [m.sum_columnTotal, ← m.sum_rowTotal]
  simpa using hadd

/-- One account alone cannot be out of balance. -/
theorem length_unbalanced_ne_one :
    (m.accounts.filter fun a => m.rowTotal a ≠ m.columnTotal a).length ≠ 1 := by
  have h := length_filter_ne_one m.sum_rowTotal_sub_columnTotal
  simpa only [ne_eq, sub_eq_zero] using h

/-! ### Exact tables -/

/-- The exact number that a finite amount is. -/
def exactAmount (x : Float) : ℚ :=
  let b := Binary64.ofFloat x
  if b.isNegative then -quotient b.ratio else quotient b.ratio

/-- The table of the exact amounts. -/
def toExact (m : FlowMatrix Float) : FlowMatrix ℚ :=
  ⟨m.flows.mapValues (·.mapValues exactAmount)⟩

section toExact

variable (m : FlowMatrix Float)

theorem accounts_toExact : m.toExact.accounts = m.accounts := by
  simp [accounts, toExact, SymbolMap.mapValues, SymbolMap.keys, List.flatMap_map, Function.comp_def]

theorem amounts_toExact : m.toExact.amounts = m.amounts.map exactAmount := by
  simp [amounts, toExact, List.flatMap_map, List.map_flatMap]

theorem exactAmount_zero : exactAmount 0.0 = 0 := by
  have hnegative : (Binary64.ofFloat 0.0).isNegative = false := by decide
  have hratio : (Binary64.ofFloat 0.0).ratio.1 = 0 := by decide
  rw [exactAmount, hnegative, if_neg Bool.false_ne_true, quotient, hratio, Nat.cast_zero, zero_div]

theorem row_toExact (r : Symbol) : m.toExact.row r = (m.row r).mapValues exactAmount := by
  rw [row, row, toExact, SymbolMap.get?_mapValues]
  cases m.flows.get? r <;> rfl

theorem get_toExact (r c : Symbol) : m.toExact.get r c = exactAmount (m.get r c) := by
  rw [get, get, row_toExact, SymbolMap.get?_mapValues]
  cases (m.row r).get? c with
  | none => exact exactAmount_zero.symm
  | some x => rfl

end toExact

/-- **Over all accounts, receipts equal expenditures.** In exact arithmetic both come to the sum of
all flows of the table, whatever its rows, so a single account is never the only one out of balance.
The exact table of machine numbers has the same accounts and, number by number, the same flows. -/
theorem receipts_eq_expenditures :
    (∀ m : FlowMatrix ℚ,
      (m.accounts.map m.rowTotal).sum = (m.accounts.map m.columnTotal).sum ∧
      (m.accounts.map m.rowTotal).sum = m.amounts.sum ∧
      (m.accounts.map m.columnTotal).sum = m.amounts.sum ∧
      (m.accounts.filter fun a => m.rowTotal a ≠ m.columnTotal a).length ≠ 1) ∧
    ∀ m : FlowMatrix Float,
      m.toExact.accounts = m.accounts ∧ m.toExact.amounts = m.amounts.map exactAmount ∧
      ∀ r c, m.toExact.get r c = exactAmount (m.get r c) := by
  refine ⟨fun m => ⟨?_, m.sum_rowTotal, m.sum_columnTotal, m.length_unbalanced_ne_one⟩,
    fun m => ⟨m.accounts_toExact, m.amounts_toExact, m.get_toExact⟩⟩
  rw [m.sum_rowTotal, m.sum_columnTotal]

end FlowMatrix

end Equilibrium
