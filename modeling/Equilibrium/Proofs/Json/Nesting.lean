import Equilibrium.Proofs.Json.Roundtrip

/-!
# Nesting of a text

The brackets of a text say how many lists and records stand one in another (`nesting`). For the text
of a document, compact or pretty, that is the nesting of the document (`nesting_write`). -/

namespace Equilibrium.Json

/-- How many lists and records are open behind a token if so many are open in front of it. -/
def openBehind (opened : Nat) : Token → Nat
  | .openList | .openRecord => opened + 1
  | .closeList | .closeRecord => opened - 1
  | _ => opened

/-- The greatest number of lists and records that are open at once. -/
def mostOpen (opened : Nat) : List Token → Nat
  | [] => opened
  | t :: ts => max opened (mostOpen (openBehind opened t) ts)

/-- How many lists and records stand one in another at most in a text. -/
def nesting (s : String) : Nat := mostOpen 0 (tokens s)

variable {n : Nat}

theorem le_mostOpen (ts : List Token) : n ≤ mostOpen n ts := by
  cases ts with
  | nil => exact Nat.le_refl n
  | cons t ts => exact Nat.le_max_left ..

/-- A token that is no bracket counts for nothing. -/
theorem mostOpen_mark {t : Token} (h : openBehind n t = n) (ts : List Token) :
    mostOpen n (t :: ts) = mostOpen n ts := by
  rw [mostOpen, h]
  exact Nat.max_eq_right (le_mostOpen ts)

/-- The tokens of a document, wherever they stand, take their nesting and nothing else. -/
def IsNested (d : Document) : Prop :=
  ∀ n ts, mostOpen n (documentTokens d ++ ts) = max (n + d.nesting) (mostOpen n ts)

theorem mostOpen_itemTokens {ds : List Document} (hds : ∀ d ∈ ds, IsNested d) (ts : List Token) :
    mostOpen n (itemTokens ds ++ ts) = max (n + Document.nestingOfItems ds) (mostOpen n ts) := by
  induction ds with
  | nil => exact (Nat.max_eq_right (le_mostOpen ts)).symm
  | cons d ds ih =>
      have hd := hds d List.mem_cons_self
      have hrest := ih fun e he => hds e (List.mem_cons_of_mem d he)
      rw [itemTokens, List.cons_append, List.append_assoc, mostOpen_mark rfl, hd, hrest,
        Document.nestingOfItems]
      omega

theorem mostOpen_fieldTokens {fs : List (String × Document)} (hfs : ∀ f ∈ fs, IsNested f.2)
    (ts : List Token) :
    mostOpen n (fieldTokens fs ++ ts) =
      max (n + Document.nestingOfFields fs) (mostOpen n ts) := by
  induction fs with
  | nil => exact (Nat.max_eq_right (le_mostOpen ts)).symm
  | cons f fs ih =>
      have hf := hfs f List.mem_cons_self
      have hrest := ih fun g hg => hfs g (List.mem_cons_of_mem f hg)
      rw [fieldTokens, List.cons_append, List.cons_append, List.cons_append, List.append_assoc,
        mostOpen_mark rfl, mostOpen_mark rfl, mostOpen_mark rfl, hf, hrest,
        Document.nestingOfFields]
      omega

theorem openBehind_numberToken (x : Number) : openBehind n (numberToken x) = n := by
  cases x with
  | real x =>
      rw [numberToken]
      split <;> rfl
  | _ => rfl

/-- The tokens of a document take its nesting. -/
theorem isNested (d : Document) : IsNested d := by
  induction d using Document.membersInduction with
  | step d ih =>
      intro n ts
      have hle := le_mostOpen (n := n) ts
      have hleaf {t : Token} (ht : openBehind n t = n) :
          mostOpen n ([t] ++ ts) = max (n + 0) (mostOpen n ts) :=
        (mostOpen_mark ht ts).trans (Nat.max_eq_right hle).symm
      cases d with
      | null | bool | text => exact hleaf rfl
      | number x => exact hleaf (openBehind_numberToken x)
      | list items =>
          cases items with
          | nil =>
              show max n (max (n + 1) (mostOpen n ts)) = max (n + 1) (mostOpen n ts)
              omega
          | cons d ds =>
              have hd := ih d List.mem_cons_self (n + 1)
              have hds := mostOpen_itemTokens (n := n + 1)
                (fun e he => ih e (List.mem_cons_of_mem d he)) (.closeList :: ts)
              have hend : mostOpen (n + 1) (.closeList :: ts) = max (n + 1) (mostOpen n ts) := rfl
              rw [documentTokens, List.cons_append, List.append_assoc, List.append_assoc,
                List.singleton_append, mostOpen, openBehind, hd, hds, hend, Document.nesting,
                Document.nestingOfItems]
              omega
      | record fields =>
          cases fields with
          | nil =>
              show max n (max (n + 1) (mostOpen n ts)) = max (n + 1) (mostOpen n ts)
              omega
          | cons f fs =>
              have hf := ih f.2 List.mem_cons_self (n + 1)
              have hfs := mostOpen_fieldTokens (n := n + 1)
                (fun g hg => ih g.2 (List.mem_cons_of_mem f.2 (List.mem_map_of_mem hg)))
                (.closeRecord :: ts)
              have hend : mostOpen (n + 1) (.closeRecord :: ts) =
                  max (n + 1) (mostOpen n ts) := rfl
              rw [documentTokens, List.cons_append, List.cons_append, List.cons_append,
                List.append_assoc, List.append_assoc, List.singleton_append, mostOpen, openBehind,
                mostOpen_mark rfl, mostOpen_mark rfl, hf, hfs, hend, Document.nesting,
                Document.nestingOfFields]
              omega

/-- The text of a document nests as the document does. -/
theorem nesting_write (level : Option Nat) (d : Document) :
    nesting (String.ofList (write level d)) = d.nesting := by
  have hscan := isScanned d level [] (stopsAt_nil _)
  rw [List.append_nil, scan_nil] at hscan
  rw [nesting, tokens_eq_scan, String.toList_ofList, hscan, isNested d 0 []]
  simp [mostOpen]

end Equilibrium.Json
