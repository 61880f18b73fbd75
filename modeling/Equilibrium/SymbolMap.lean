import Equilibrium.Symbol

/-!
# Maps from symbols

A finite map is the list of its entries in strictly ascending order of the keys, so two maps with
the same entries are equal, and every listing of a map is in key order. The order is part of the
type; `insertEntry` keeps it.
-/

namespace Equilibrium

variable {α : Type}

/-- The keys of the entries ascend strictly. -/
def Ascending (entries : List (Symbol × α)) : Prop :=
  entries.Pairwise (fun a b => a.1 < b.1)

/-- Put an entry into its place in an ascending list; an entry of the same key is replaced. -/
def insertEntry (k : Symbol) (v : α) : List (Symbol × α) → List (Symbol × α)
  | [] => [(k, v)]
  | e :: es =>
    if k < e.1 then (k, v) :: e :: es
    else if k = e.1 then (k, v) :: es
    else e :: insertEntry k v es

/-- The entries in ascending order of the keys; of two entries of one key the later one stays. -/
def settleEntries (entries : List (Symbol × α)) : List (Symbol × α) :=
  entries.foldl (fun es e => insertEntry e.1 e.2 es) []

theorem mem_insertEntry {k : Symbol} {v : α} {e : Symbol × α} :
    ∀ {es : List (Symbol × α)}, e ∈ insertEntry k v es → e = (k, v) ∨ e ∈ es
  | [], h => .inl (List.mem_singleton.1 h)
  | d :: ds, h => by
      unfold insertEntry at h
      split at h
      · exact List.mem_cons.1 h
      · split at h
        · rcases List.mem_cons.1 h with h | h
          · exact .inl h
          · exact .inr (List.mem_cons_of_mem _ h)
        · rcases List.mem_cons.1 h with h | h
          · exact .inr (h ▸ List.mem_cons_self)
          · exact (mem_insertEntry h).imp_right (List.mem_cons_of_mem _)

/-- Of two different symbols the one that is not smaller is greater. -/
theorem symbol_lt_of_not_lt {a b : Symbol} (h : ¬ a < b) (hne : a ≠ b) : b < a := by
  have hba : b ≤ a := String.not_lt.1 h
  by_cases hlt : b < a
  · exact hlt
  · exact absurd (String.le_antisymm (String.not_lt.1 hlt) hba) hne

theorem ascending_insertEntry (k : Symbol) (v : α) :
    ∀ {es : List (Symbol × α)}, Ascending es → Ascending (insertEntry k v es)
  | [], _ => by simp [insertEntry, Ascending]
  | d :: ds, h => by
      obtain ⟨hd, hds⟩ := List.pairwise_cons.1 h
      unfold insertEntry
      split
      · rename_i hlt
        refine List.pairwise_cons.2 ⟨?_, h⟩
        intro e he
        rcases List.mem_cons.1 he with rfl | he
        · exact hlt
        · exact String.lt_trans hlt (hd e he)
      · split
        · rename_i _ heq
          refine List.pairwise_cons.2 ⟨?_, hds⟩
          intro e he
          exact heq ▸ hd e he
        · rename_i hlt hne
          refine List.pairwise_cons.2 ⟨?_, ascending_insertEntry k v hds⟩
          intro e he
          rcases mem_insertEntry he with rfl | he
          · exact symbol_lt_of_not_lt hlt hne
          · exact hd e he

theorem ascending_settleEntries (entries : List (Symbol × α)) :
    Ascending (settleEntries entries) := by
  unfold settleEntries
  suffices h : ∀ acc : List (Symbol × α), Ascending acc →
      Ascending (entries.foldl (fun es e => insertEntry e.1 e.2 es) acc) from
    h [] List.Pairwise.nil
  induction entries with
  | nil => exact fun _ h => h
  | cons e es ih => exact fun acc h => ih _ (ascending_insertEntry e.1 e.2 h)

theorem mem_settleEntries {e : Symbol × α} {entries : List (Symbol × α)}
    (h : e ∈ settleEntries entries) : e ∈ entries := by
  suffices hacc : ∀ acc : List (Symbol × α),
      e ∈ entries.foldl (fun es e => insertEntry e.1 e.2 es) acc → e ∈ acc ∨ e ∈ entries by
    simpa using hacc [] h
  clear h
  induction entries with
  | nil => exact fun acc h => .inl h
  | cons d ds ih =>
    intro acc h
    rcases ih _ h with h | h
    · rcases mem_insertEntry h with rfl | h
      · exact .inr List.mem_cons_self
      · exact .inl h
    · exact .inr (List.mem_cons_of_mem _ h)

theorem insertEntry_of_forall_lt (k : Symbol) (v : α) :
    ∀ {es : List (Symbol × α)}, (∀ e ∈ es, e.1 < k) → insertEntry k v es = es ++ [(k, v)]
  | [], _ => rfl
  | e :: es, h => by
      have hlt : e.1 < k := h e List.mem_cons_self
      have hne : k ≠ e.1 := fun heq => String.lt_irrefl k (heq ▸ hlt)
      have hnot : ¬ k < e.1 := fun hgt => String.lt_irrefl k (String.lt_trans hgt hlt)
      have hes := insertEntry_of_forall_lt k v fun d hd => h d (List.mem_cons_of_mem _ hd)
      simp [insertEntry, hnot, hne, hes]

/-- Entries in ascending order are settled already. -/
theorem settleEntries_of_ascending {entries : List (Symbol × α)} (h : Ascending entries) :
    settleEntries entries = entries := by
  suffices hacc : ∀ acc : List (Symbol × α), Ascending (acc ++ entries) →
      entries.foldl (fun es e => insertEntry e.1 e.2 es) acc = acc ++ entries from hacc [] h
  clear h
  induction entries with
  | nil => intro acc _; simp
  | cons e es ih =>
    intro acc hasc
    have hlt : ∀ d ∈ acc, d.1 < e.1 := fun d hd =>
      (List.pairwise_append.1 hasc).2.2 d hd e List.mem_cons_self
    rw [List.foldl_cons, insertEntry_of_forall_lt e.1 e.2 hlt, ih _ (by simpa using hasc)]
    simp

/-- A finite map from symbols to `α`. -/
structure SymbolMap (α : Type) where
  /-- The entries, in ascending order of the keys. -/
  entries : List (Symbol × α)
  /-- No key stands twice, and the keys ascend. -/
  ascending : Ascending entries

namespace SymbolMap

instance : EmptyCollection (SymbolMap α) := ⟨⟨[], List.Pairwise.nil⟩⟩
instance : Inhabited (SymbolMap α) := ⟨∅⟩

@[ext] theorem ext {m n : SymbolMap α} (h : m.entries = n.entries) : m = n := by
  cases m; cases n; cases h; rfl

/-- Set the value at a key. -/
def insert (m : SymbolMap α) (k : Symbol) (v : α) : SymbolMap α :=
  ⟨insertEntry k v m.entries, ascending_insertEntry k v m.ascending⟩

/-- The map of a list of entries; of two entries of one key the later one stays. -/
def ofList (entries : List (Symbol × α)) : SymbolMap α :=
  ⟨settleEntries entries, ascending_settleEntries entries⟩

/-- The value at a key. -/
def get? (m : SymbolMap α) (k : Symbol) : Option α := m.entries.lookup k

/-- The keys, ascending. -/
def keys (m : SymbolMap α) : List Symbol := m.entries.map (·.1)

/-- The values, in the order of their keys. -/
def values (m : SymbolMap α) : List α := m.entries.map (·.2)

/-- Whether the map has an entry at a key. -/
def contains (m : SymbolMap α) (k : Symbol) : Bool := (m.get? k).isSome

/-- Whether the map has no entries. -/
def isEmpty (m : SymbolMap α) : Bool := m.entries.isEmpty

end SymbolMap

end Equilibrium
