import Mathlib.Data.List.Induction
import Equilibrium.Diagnostics
import Equilibrium.Proofs.Repeats
import Equilibrium.Proofs.SymbolMap

/-!
# Flows by their last accepted values

A call sets the flow of one cell or is refused. After any calls a cell holds the value of the last
accepted call for it (`FlowMatrix.cell?_afterAll`), and since no row is ever empty, the cells are all
there is to a matrix (`FlowMatrix.ext_cell?`). -/

namespace Equilibrium.FlowMatrix

variable {ρ : Type}

/-! ### Cells -/

/-- What stands in a cell. -/
def cell? (m : FlowMatrix ρ) (r c : Symbol) : Option ρ := (m.row r).get? c

/-- Every row has a cell. -/
def NoEmptyRow (m : FlowMatrix ρ) : Prop :=
  ∀ r cells, m.flows.get? r = some cells → ∃ c v, cells.get? c = some v

theorem noEmptyRow_empty : (∅ : FlowMatrix ρ).NoEmptyRow := nofun

variable {m n : FlowMatrix ρ} {r c : Symbol}

theorem row_of_get? {cells : SymbolMap ρ} (h : m.flows.get? r = some cells) : m.row r = cells := by
  rw [row, h, Option.getD_some]

theorem exists_row_of_cell? {v : ρ} (h : m.cell? r c = some v) :
    ∃ cells, m.flows.get? r = some cells ∧ cells.get? c = some v := by
  cases hr : m.flows.get? r with
  | some cells => exact ⟨cells, rfl, by rwa [cell?, row_of_get? hr] at h⟩
  | none =>
      rw [cell?, row, hr] at h
      cases h

/-- Without empty rows, the row of a name is told by its cells. -/
theorem NoEmptyRow.get?_eq_some_iff (hm : m.NoEmptyRow) {cells : SymbolMap ρ} :
    m.flows.get? r = some cells ↔
      (∃ c v, cells.get? c = some v) ∧ ∀ c, m.cell? r c = cells.get? c := by
  constructor
  · intro h
    exact ⟨hm r cells h, fun c => by rw [cell?, row_of_get? h]⟩
  · rintro ⟨⟨c, v, hc⟩, hcells⟩
    obtain ⟨cells', hr, -⟩ := exists_row_of_cell? ((hcells c).trans hc)
    have heq : cells' = cells := by
      refine SymbolMap.ext_get? fun j => ?_
      rw [← hcells, cell?, row_of_get? hr]
    rw [hr, heq]

/-- Without empty rows the cells are all there is to a matrix. -/
theorem ext_cell? (hm : m.NoEmptyRow) (hn : n.NoEmptyRow) (h : ∀ r c, m.cell? r c = n.cell? r c) :
    m = n := by
  have hflows : m.flows = n.flows := by
    refine SymbolMap.ext_get? fun r => Option.ext fun cells => ?_
    rw [hm.get?_eq_some_iff, hn.get?_eq_some_iff]
    simp only [h]
  cases m
  cases n
  exact congrArg FlowMatrix.mk hflows

/-- Accounts are the names of rows and columns of cells, ascending. -/
theorem mem_accounts_iff (hm : m.NoEmptyRow) {name : Symbol} :
    name ∈ m.accounts ↔ ∃ r c v, m.cell? r c = some v ∧ (name = r ∨ name = c) := by
  simp only [accounts, mem_sortedDistinct, List.mem_flatMap, List.mem_cons, SymbolMap.mem_keys_iff]
  constructor
  · rintro ⟨⟨r, cells⟩, he, h⟩
    have hr : m.flows.get? r = some cells := SymbolMap.get?_eq_some_iff.mpr he
    have hcells := (hm.get?_eq_some_iff.mp hr).2
    obtain rfl | ⟨v, hv⟩ := h
    · obtain ⟨c, v, hc⟩ := hm _ cells hr
      exact ⟨_, c, v, (hcells c).trans hc, .inl rfl⟩
    · exact ⟨r, name, v, (hcells name).trans hv, .inr rfl⟩
  · rintro ⟨r, c, v, hcell, hname⟩
    obtain ⟨cells, hr, hc⟩ := exists_row_of_cell? hcell
    refine ⟨(r, cells), SymbolMap.get?_eq_some_iff.mp hr, ?_⟩
    obtain rfl | rfl := hname
    · exact .inl rfl
    · exact .inr ⟨v, hc⟩

/-! ### Calls -/

/-- A call to set the flow from a column to a row. -/
structure Call (ρ : Type) where
  row : Symbol
  column : Symbol
  value : ρ

variable [Quantity ρ]

/-- The matrix behind a call, be it accepted or refused. -/
def after (m : FlowMatrix ρ) (f : Call ρ) : FlowMatrix ρ := (m.put f.row f.column f.value).2

/-- The matrix behind some calls. -/
def afterAll (m : FlowMatrix ρ) (fs : List (Call ρ)) : FlowMatrix ρ := fs.foldl after m

/-- A call is accepted if its value is finite. -/
def Call.isAccepted (f : Call ρ) : Bool := Quantity.isFinite f.value

/-- The value of the last accepted call for a cell. -/
def lastAccepted (fs : List (Call ρ)) (r c : Symbol) : Option ρ :=
  (fs.filter fun f => f.isAccepted ∧ f.row = r ∧ f.column = c).getLast?.map (·.value)

variable {f : Call ρ} {fs : List (Call ρ)}

/-- Refused calls are passed over before the cell is looked at. -/
theorem lastAccepted_eq (fs : List (Call ρ)) (r c : Symbol) :
    lastAccepted fs r c =
      ((fs.filter (·.isAccepted)).filter fun f => f.row = r ∧ f.column = c).getLast?.map
        (·.value) := by
  rw [lastAccepted, List.filter_filter]
  congr 3
  grind

theorem put_of_not_isFinite {v : ρ} (h : Quantity.isFinite v = false) (m : FlowMatrix ρ)
    (r c : Symbol) : m.put r c v = (.error ⟨"benchmark flow", v⟩, m) := by
  rw [put, ensureFinite, if_neg (Bool.eq_false_iff.mp h)]

theorem put_of_isFinite {v : ρ} (h : Quantity.isFinite v = true) (m : FlowMatrix ρ)
    (r c : Symbol) : m.put r c v = (.ok (), ⟨m.flows.insert r ((m.row r).insert c v)⟩) := by
  rw [put, ensureFinite, if_pos h]

theorem insert_of_not_isFinite {v : ρ} (h : Quantity.isFinite v = false) (m : FlowMatrix ρ)
    (r c : Symbol) : m.insert r c v = .error ⟨"benchmark flow", v⟩ := by
  rw [insert, put_of_not_isFinite h]
  rfl

/-- A refused call leaves the matrix as it was. -/
theorem after_of_refused (h : f.isAccepted = false) (m : FlowMatrix ρ) : m.after f = m := by
  rw [after, put_of_not_isFinite h]

theorem after_of_accepted (h : f.isAccepted = true) (m : FlowMatrix ρ) :
    m.after f = ⟨m.flows.insert f.row ((m.row f.row).insert f.column f.value)⟩ := by
  rw [after, put_of_isFinite h]

/-- A call sets its own cell if it is accepted, and no other. -/
theorem cell?_after (m : FlowMatrix ρ) (f : Call ρ) (r c : Symbol) :
    (m.after f).cell? r c =
      if f.isAccepted ∧ f.row = r ∧ f.column = c then some f.value else m.cell? r c := by
  cases h : f.isAccepted with
  | false => simp [after_of_refused h]
  | true =>
      rw [after_of_accepted h, cell?, row, SymbolMap.get?_insert]
      by_cases hr : r = f.row
      · subst hr
        simp [cell?, eq_comm]
      · simp [cell?, row, hr, Ne.symm hr]

theorem NoEmptyRow.after (hm : m.NoEmptyRow) (f : Call ρ) : (m.after f).NoEmptyRow := by
  cases h : f.isAccepted with
  | false => rwa [after_of_refused h]
  | true =>
      rw [after_of_accepted h]
      intro r cells hr
      rw [SymbolMap.get?_insert] at hr
      split at hr
      · cases hr
        exact ⟨f.column, f.value, by simp⟩
      · exact hm r cells hr

theorem lastAccepted_concat (fs : List (Call ρ)) (f : Call ρ) (r c : Symbol) :
    lastAccepted (fs ++ [f]) r c =
      if f.isAccepted ∧ f.row = r ∧ f.column = c then some f.value else lastAccepted fs r c := by
  unfold lastAccepted
  rw [List.filter_append]
  by_cases h : f.isAccepted ∧ f.row = r ∧ f.column = c
  · simp [h]
  · simp [h]

/-- After any calls a cell holds the value of the last accepted call for it, or what was there
before. -/
theorem cell?_afterAll_from (m : FlowMatrix ρ) (fs : List (Call ρ)) (r c : Symbol) :
    (m.afterAll fs).cell? r c = (lastAccepted fs r c).or (m.cell? r c) := by
  induction fs using List.reverseRecOn with
  | nil => rfl
  | append_singleton fs f ih =>
      rw [afterAll, List.foldl_concat, ← afterAll, cell?_after, lastAccepted_concat, ih]
      split <;> rfl

/-- After any calls a cell holds the value of the last accepted call for it. -/
theorem cell?_afterAll (fs : List (Call ρ)) (r c : Symbol) :
    (afterAll ∅ fs).cell? r c = lastAccepted fs r c :=
  (cell?_afterAll_from ∅ fs r c).trans Option.or_none

theorem noEmptyRow_afterAll (fs : List (Call ρ)) : (afterAll ∅ fs).NoEmptyRow := by
  induction fs using List.reverseRecOn with
  | nil => exact noEmptyRow_empty
  | append_singleton fs f ih =>
      rw [afterAll, List.foldl_concat, ← afterAll]
      exact ih.after f

theorem exists_lastAccepted_iff {r c : Symbol} :
    (∃ v, lastAccepted fs r c = some v) ↔
      ∃ f ∈ fs, f.isAccepted = true ∧ f.row = r ∧ f.column = c := by
  unfold lastAccepted
  rw [← Option.isSome_iff_exists, Option.isSome_map, List.getLast?_isSome, ne_eq,
    List.filter_eq_nil_iff]
  simp

/-- Accounts are the names of rows and columns of accepted calls. -/
theorem mem_accounts_afterAll_iff {name : Symbol} :
    name ∈ (afterAll ∅ fs).accounts ↔
      ∃ f ∈ fs, f.isAccepted = true ∧ (f.row = name ∨ f.column = name) := by
  rw [mem_accounts_iff (noEmptyRow_afterAll fs)]
  simp only [cell?_afterAll]
  constructor
  · rintro ⟨r, c, v, hv, hname⟩
    obtain ⟨f, hf, haccepted, rfl, rfl⟩ := exists_lastAccepted_iff.mp ⟨v, hv⟩
    exact ⟨f, hf, haccepted, hname.imp Eq.symm Eq.symm⟩
  · rintro ⟨f, hf, haccepted, hname⟩
    obtain ⟨v, hv⟩ := exists_lastAccepted_iff.mpr ⟨f, hf, haccepted, rfl, rfl⟩
    exact ⟨f.row, f.column, v, hv, hname.imp Eq.symm Eq.symm⟩

theorem afterAll_eq_of_lastAccepted {gs : List (Call ρ)}
    (h : ∀ r c, lastAccepted fs r c = lastAccepted gs r c) : afterAll ∅ fs = afterAll ∅ gs := by
  refine ext_cell? (noEmptyRow_afterAll fs) (noEmptyRow_afterAll gs) fun r c => ?_
  rw [cell?_afterAll, cell?_afterAll, h]

/-- **A flow matrix is what its last accepted calls make it.** A cell holds the value of the last
accepted call for it, or 0 without one; a refused call makes no difference to anything; the accounts
are the names in accepted calls, strictly ascending. Calls with the same last accepted value for
every cell, in whatever order, lead to equal matrices, so to the same totals, bit for bit, and to the
same findings about the accounts. -/
theorem afterAll_determined (fs : List (Call Float)) :
    (∀ r c, (afterAll ∅ fs).get r c = (lastAccepted fs r c).getD 0.0) ∧
    (∀ (m : FlowMatrix Float) (f : Call Float), f.value.isFinite = false →
      m.insert f.row f.column f.value = .error ⟨"benchmark flow", f.value⟩ ∧
      ∀ before behind, m.afterAll (before ++ f :: behind) = m.afterAll (before ++ behind)) ∧
    (afterAll ∅ fs).accounts.Pairwise (· < ·) ∧
    (∀ name, name ∈ (afterAll ∅ fs).accounts ↔
      ∃ f ∈ fs, f.value.isFinite = true ∧ (f.row = name ∨ f.column = name)) ∧
    ∀ gs : List (Call Float), (∀ r c, lastAccepted fs r c = lastAccepted gs r c) →
      afterAll ∅ fs = afterAll ∅ gs ∧
      (∀ account, (afterAll ∅ fs).rowTotal account = (afterAll ∅ gs).rowTotal account ∧
        (afterAll ∅ fs).columnTotal account = (afterAll ∅ gs).columnTotal account) ∧
      ∀ model closure,
        (diagnose model closure (some (afterAll ∅ fs).toBenchmark)).accounting =
          (diagnose model closure (some (afterAll ∅ gs).toBenchmark)).accounting := by
  refine ⟨fun r c => ?_, fun m f hf => ⟨insert_of_not_isFinite hf m _ _, fun before behind => ?_⟩,
    pairwise_sortedDistinct _, fun name => mem_accounts_afterAll_iff, fun gs h => ?_⟩
  · exact congrArg (Option.getD · 0.0) (cell?_afterAll fs r c)
  · have hrefused : f.isAccepted = false := hf
    simp only [afterAll, List.foldl_append, List.foldl_cons, after_of_refused hrefused]
  · have heq := afterAll_eq_of_lastAccepted h
    rw [heq]
    exact ⟨rfl, fun account => ⟨rfl, rfl⟩, fun model closure => rfl⟩

/-- Calls for two cells, with a value that is overwritten and one that is not a number. -/
def overwritingCalls : List (Call Float) :=
  [⟨"food", "labour", 4.0⟩, ⟨"labour", "food", 2.5⟩, ⟨"labour", "food", 0.0 / 0.0⟩,
    ⟨"food", "labour", 1.5⟩]

/-- Calls for the same cells the other way round, with a refused one for a third account. -/
def refusingCalls : List (Call Float) :=
  [⟨"food", "labour", 1.5⟩, ⟨"capital", "food", 1.0 / 0.0⟩, ⟨"labour", "food", 2.5⟩]

theorem afterAll_overwritingCalls :
    (∀ r c, lastAccepted overwritingCalls r c = lastAccepted refusingCalls r c) ∧
      afterAll ∅ overwritingCalls = afterAll ∅ refusingCalls := by
  have hfst : overwritingCalls.filter (·.isAccepted) =
      [⟨"food", "labour", 4.0⟩, ⟨"labour", "food", 2.5⟩, ⟨"food", "labour", 1.5⟩] := rfl
  have hsnd : refusingCalls.filter (·.isAccepted) =
      [⟨"food", "labour", 1.5⟩, ⟨"labour", "food", 2.5⟩] := rfl
  have h : ∀ r c, lastAccepted overwritingCalls r c = lastAccepted refusingCalls r c := by
    intro r c
    rw [lastAccepted_eq, lastAccepted_eq, hfst, hsnd]
    by_cases hr : "food" = r
    · subst hr
      by_cases hc : "labour" = c
      · subst hc
        simp
      · simp [hc]
    · simp [hr]
  exact ⟨h, ((afterAll_determined overwritingCalls).2.2.2.2 refusingCalls h).1⟩

end Equilibrium.FlowMatrix
