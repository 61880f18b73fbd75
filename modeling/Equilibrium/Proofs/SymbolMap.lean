import Mathlib.Data.List.Induction
import Mathlib.Data.List.Nodup
import Equilibrium.SymbolMap

/-!
# Looking up entries

What stands at a key after an entry was set (`SymbolMap.get?_insert`) and in the map of a list of
entries (`SymbolMap.get?_ofList`). A map is given by what stands at its keys (`SymbolMap.ext_get?`),
since its entries have an order. -/

namespace Equilibrium

variable {α : Type} {es fs : List (Symbol × α)} {k : Symbol} {v : α}

/-! ### Entries -/

theorem lookup_cons_eq (e : Symbol × α) (es : List (Symbol × α)) (j : Symbol) :
    (e :: es).lookup j = if j = e.1 then some e.2 else es.lookup j := by
  rw [List.lookup_cons]
  by_cases h : j = e.1
  · simp [h]
  · rw [beq_false_of_ne h, if_neg h]

theorem lookup_insertEntry (k : Symbol) (v : α) (es : List (Symbol × α)) (j : Symbol) :
    (insertEntry k v es).lookup j = if j = k then some v else es.lookup j := by
  induction es with
  | nil => exact lookup_cons_eq (k, v) [] j
  | cons e es ih =>
      unfold insertEntry
      split
      · exact lookup_cons_eq (k, v) (e :: es) j
      · split
        next heq =>
          rw [lookup_cons_eq, lookup_cons_eq]
          by_cases hj : j = k
          · rw [if_pos hj, if_pos hj]
          · rw [if_neg hj, if_neg hj, if_neg (heq ▸ hj)]
        next hne =>
          rw [lookup_cons_eq, lookup_cons_eq, ih]
          by_cases hj : j = e.1
          · rw [if_pos hj, if_pos hj, if_neg fun hk => hne (hk.symm.trans hj)]
          · rw [if_neg hj, if_neg hj]

/-- The value of the last entry of a key. -/
def lastValue (entries : List (Symbol × α)) (k : Symbol) : Option α :=
  (entries.filter fun e => e.1 = k).getLast?.map (·.2)

theorem lastValue_concat (entries : List (Symbol × α)) (e : Symbol × α) (k : Symbol) :
    lastValue (entries ++ [e]) k = if k = e.1 then some e.2 else lastValue entries k := by
  unfold lastValue
  rw [List.filter_append]
  by_cases h : k = e.1
  · simp [h]
  · simp [h, Ne.symm h]

theorem lastValue_eq_none_iff {entries : List (Symbol × α)} :
    lastValue entries k = none ↔ ∀ e ∈ entries, e.1 ≠ k := by
  rw [lastValue, Option.map_eq_none_iff, List.getLast?_eq_none_iff, List.filter_eq_nil_iff]
  simp only [decide_eq_true_eq]

theorem mem_of_lastValue {entries : List (Symbol × α)} (h : lastValue entries k = some v) :
    (k, v) ∈ entries := by
  obtain ⟨e, he, rfl⟩ := Option.map_eq_some_iff.mp h
  obtain ⟨hmem, hkey⟩ := List.mem_filter.mp (List.mem_of_getLast? he)
  exact of_decide_eq_true hkey ▸ hmem

/-- If entries are read one by one, each under its key, the last value of a key is what the last one
there is read as. -/
theorem lastValue_of_mapM {β : Type} {f : Symbol × α → Option (Symbol × β)} {g : α → Option β}
    (hf : ∀ e b, f e = some b → b.1 = e.1 ∧ g e.2 = some b.2) {entries : List (Symbol × α)}
    {read : List (Symbol × β)} (h : entries.mapM f = some read) (k : Symbol) :
    (lastValue entries k).map g = (lastValue read k).map some := by
  induction entries using List.reverseRecOn generalizing read with
  | nil =>
      cases h
      rfl
  | append_singleton entries e ih =>
      rw [List.mapM_append] at h
      simp only [List.mapM_cons, List.mapM_nil, Option.bind_eq_bind, Option.bind_eq_some_iff] at h
      obtain ⟨before, hbefore, last, ⟨b, hb, rest, hrest, hlast⟩, hread⟩ := h
      cases hrest
      cases hlast
      cases hread
      obtain ⟨hkey, hvalue⟩ := hf e b hb
      rw [lastValue_concat, lastValue_concat, hkey]
      split
      · exact congrArg some hvalue
      · exact ih hbefore

theorem lookup_settleEntries (entries : List (Symbol × α)) (k : Symbol) :
    (settleEntries entries).lookup k = lastValue entries k := by
  induction entries using List.reverseRecOn with
  | nil => rfl
  | append_singleton entries e ih =>
      rw [settleEntries, List.foldl_concat, ← settleEntries, lookup_insertEntry, ih,
        lastValue_concat]

theorem Ascending.nodup (h : Ascending es) : es.Nodup := by
  refine List.Pairwise.imp (fun {a b} hab heq => ?_) h
  rw [heq] at hab
  exact String.lt_irrefl _ hab

theorem Ascending.lookup_eq_some_iff (h : Ascending es) :
    es.lookup k = some v ↔ (k, v) ∈ es := by
  induction es with
  | nil => exact ⟨nofun, nofun⟩
  | cons e es ih =>
      obtain ⟨he, hes⟩ := List.pairwise_cons.mp h
      rw [lookup_cons_eq, List.mem_cons, Prod.ext_iff]
      by_cases hk : k = e.1
      · have hnot : (k, v) ∉ es := fun hmem => String.lt_irrefl k (hk ▸ he (k, v) hmem)
        simp [hk, hk ▸ hnot, eq_comm]
      · rw [if_neg hk, ih hes]
        exact ⟨.inr, fun hor => hor.resolve_left fun heq => hk heq.1⟩

theorem Ascending.mapValues {β : Type} (h : Ascending es) (f : α → β) :
    Ascending (es.map fun e => (e.1, f e.2)) := by
  unfold Ascending
  rw [List.pairwise_map]
  exact h

/-- Ascending entries are given by what stands at the keys. -/
theorem Ascending.eq_of_lookup (hes : Ascending es) (hfs : Ascending fs)
    (h : ∀ k, es.lookup k = fs.lookup k) : es = fs := by
  have hmem : ∀ e, e ∈ es ↔ e ∈ fs := by
    intro e
    rw [← hes.lookup_eq_some_iff (k := e.1), ← hfs.lookup_eq_some_iff, h]
  refine List.Perm.eq_of_pairwise (fun a b _ _ hab hba => ?_) hes hfs
    ((List.perm_ext_iff_of_nodup hes.nodup hfs.nodup).mpr hmem)
  exact absurd (String.lt_trans hab hba) (String.lt_irrefl _)

/-! ### Maps -/

namespace SymbolMap

variable {m n : SymbolMap α} {j : Symbol}

@[simp] theorem get?_empty (k : Symbol) : (∅ : SymbolMap α).get? k = none := rfl

@[simp] theorem get?_insert (m : SymbolMap α) (k : Symbol) (v : α) (j : Symbol) :
    (m.insert k v).get? j = if j = k then some v else m.get? j :=
  lookup_insertEntry k v m.entries j

@[simp] theorem get?_ofList (entries : List (Symbol × α)) (k : Symbol) :
    (ofList entries).get? k = lastValue entries k := lookup_settleEntries entries k

/-- Maps with the same at every key are equal. -/
theorem ext_get? (h : ∀ k, m.get? k = n.get? k) : m = n :=
  SymbolMap.ext (m.ascending.eq_of_lookup n.ascending h)

theorem get?_eq_some_iff : m.get? k = some v ↔ (k, v) ∈ m.entries := m.ascending.lookup_eq_some_iff

theorem mem_keys_iff : k ∈ m.keys ↔ ∃ v, m.get? k = some v := by
  simp only [keys, List.mem_map, get?_eq_some_iff, Prod.exists, exists_eq_right, exists_and_right]

/-! ### Maps of other values -/

section mapValues

variable {β : Type} (f : α → β)

/-- The map with the same keys and with every value replaced. -/
def mapValues (m : SymbolMap α) : SymbolMap β :=
  ⟨m.entries.map fun e => (e.1, f e.2), m.ascending.mapValues f⟩

@[simp] theorem keys_mapValues (m : SymbolMap α) : (m.mapValues f).keys = m.keys := by
  simp [keys, mapValues]

@[simp] theorem values_mapValues (m : SymbolMap α) :
    (m.mapValues f).values = m.values.map f := by
  simp [values, mapValues]

@[simp] theorem get?_mapValues (m : SymbolMap α) (k : Symbol) :
    (m.mapValues f).get? k = (m.get? k).map f := by
  refine Option.ext fun w => ?_
  rw [get?_eq_some_iff, Option.map_eq_some_iff]
  simp only [get?_eq_some_iff, mapValues, List.mem_map, Prod.mk.injEq]
  constructor
  · rintro ⟨⟨j, v⟩, he, rfl, rfl⟩
    exact ⟨v, he, rfl⟩
  · rintro ⟨v, he, rfl⟩
    exact ⟨(k, v), he, rfl, rfl⟩

end mapValues

end SymbolMap

end Equilibrium
