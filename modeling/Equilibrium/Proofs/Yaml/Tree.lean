import Equilibrium.Yaml.Node
import Equilibrium.Proofs.Yaml.Scan

/-!
# The node of a written document

The tokens of a document are the tokens of one node (`Node.parse_nodeTokens`), so a written text
stands for the node of its document (`Node.ofText_text`). -/

namespace Equilibrium.Yaml.Node

variable {d : Document} {fuel : Nat} {rest : List Token}

/-! ### The node of a document -/

/-- The node of a text. -/
def ofName (s : String) : Node := .scalar s (styleOf s = .plain)

mutual

/-- The node of a document. -/
def ofDocument : Document → Node
  | .null => .scalar "null" true
  | .bool true => .scalar "true" true
  | .bool false => .scalar "false" true
  | .number n => .scalar (String.ofList (writeNumber n)) true
  | .text s => ofName s
  | .list items => .list (ofItems items)
  | .record fields => .mapping (ofFields fields)

/-- The nodes of the items of a list. -/
def ofItems : List Document → List Node
  | [] => []
  | d :: ds => ofDocument d :: ofItems ds

/-- The nodes of the fields of a record. -/
def ofFields : List (String × Document) → List (Node × Node)
  | [] => []
  | (k, d) :: fs => (ofName k, ofDocument d) :: ofFields fs

end

/-! ### Tokens of one node -/

/-- A node begins with no token that ends one; the dash of a list behind a key is the exception. -/
theorem nodeTokens_cases (i : Indicator) (d : Document) :
    ∃ t ts, nodeTokens i d = t :: ts ∧ t ∉ [.key, .value, .blockEnd] ∧ (i = .dash → t ≠ .dash) := by
  cases d with
  | bool b => cases b <;> exact ⟨_, _, rfl, by simp, by simp⟩
  | list items =>
      rw [nodeTokens]
      split
      · exact ⟨_, _, rfl, by simp, by simp⟩
      next hne =>
        split
        next hi =>
          cases items with
          | nil => exact absurd rfl hne
          | cons d ds => exact ⟨_, _, rfl, by simp, fun hdash => by rw [hi] at hdash; cases hdash⟩
        next => exact ⟨_, _, rfl, by simp, by simp⟩
  | record fields =>
      rw [nodeTokens]
      split
      · exact ⟨_, _, rfl, by simp, by simp⟩
      · exact ⟨_, _, rfl, by simp, by simp⟩
  | null | number | text => exact ⟨_, _, rfl, by simp [scalarOf], by simp [scalarOf]⟩

theorem length_nodeTokens_pos (i : Indicator) (d : Document) : 0 < (nodeTokens i d).length := by
  obtain ⟨t, ts, h, -⟩ := nodeTokens_cases i d
  rw [h]
  exact Nat.succ_pos _

/-- The tokens of a document are read as its node. -/
def Parses (d : Document) : Prop :=
  ∀ (i : Indicator) (place : Place) (fuel : Nat) (rest : List Token),
    3 * (nodeTokens i d).length ≤ fuel →
    place ≠ .flow → (i = .key → place = .member ∧ atToken [.dash] rest = false) →
      parse fuel place (nodeTokens i d ++ rest) = some (ofDocument d, rest)

/-- A node is read where it might be left out. -/
theorem parseOr_nodeTokens (hd : Parses d) {i : Indicator} {place : Place} {ends : List Token}
    (hends : ∀ t ∈ ends, t ∈ [.key, .value, .blockEnd] ∨ i = .dash ∧ t = .dash)
    (hfuel : 3 * (nodeTokens i d).length < fuel) (hplace : place ≠ .flow)
    (hi : i = .key → place = .member ∧ atToken [.dash] rest = false) :
    parseOr fuel ends place (nodeTokens i d ++ rest) = some (ofDocument d, rest) := by
  obtain ⟨fuel, rfl⟩ : ∃ k, fuel = k + 1 := ⟨fuel - 1, by omega⟩
  have hat : atToken ends (nodeTokens i d ++ rest) = false := by
    obtain ⟨t, ts, h, hend, hdash⟩ := nodeTokens_cases i d
    rw [h]
    refine decide_eq_false fun hmem => ?_
    obtain ht | ⟨hi, rfl⟩ := hends t hmem
    · exact hend ht
    · exact hdash hi rfl
  rw [parseOr, hat]
  exact hd i place fuel rest (Nat.le_of_lt_succ hfuel) hplace hi

/-- An item is read where it might be left out. -/
theorem parseOr_item (hd : Parses d) {ends : List Token}
    (hends : ∀ t ∈ ends, t ∈ [.key, .value, .blockEnd] ∨ t = .dash)
    (hfuel : 3 * (nodeTokens .dash d).length < fuel) :
    parseOr fuel ends .item (nodeTokens .dash d ++ rest) = some (ofDocument d, rest) :=
  parseOr_nodeTokens hd (fun t ht => (hends t ht).imp_right fun h => ⟨rfl, h⟩) hfuel nofun nofun

theorem parseItems_itemTokens {items : List Document} (hitems : ∀ d ∈ items, Parses d)
    (hfuel : 3 * (itemTokens items).length ≤ fuel + 1) (hpos : 0 < fuel) :
    parseItems fuel (itemTokens items ++ .blockEnd :: rest) = some (ofItems items, rest) := by
  induction items generalizing fuel with
  | nil =>
      obtain ⟨fuel, rfl⟩ : ∃ k, fuel = k + 1 := ⟨fuel - 1, by omega⟩
      rfl
  | cons d ds ih =>
      obtain ⟨fuel, rfl⟩ : ∃ k, fuel = k + 1 := ⟨fuel - 1, by omega⟩
      have hlength := length_nodeTokens_pos .dash d
      simp only [itemTokens, List.length_cons, List.length_append] at hfuel
      have hd := @parseOr_item d fuel (itemTokens ds ++ .blockEnd :: rest)
        (hitems d List.mem_cons_self) [.dash, .blockEnd] (by simp) (by omega)
      have hds := @ih fuel (fun e he => hitems e (List.mem_cons_of_mem d he)) (by omega) (by omega)
      rw [itemTokens, List.cons_append, List.append_assoc, parseItems, hd]
      simp only [Option.bind_eq_bind, Option.bind_some, hds]
      rfl

theorem parseLooseItems_itemTokens {items : List Document} (hitems : ∀ d ∈ items, Parses d)
    (hfuel : 3 * (itemTokens items).length ≤ fuel + 1) (hpos : 0 < fuel)
    (hrest : atToken [.dash] rest = false) :
    parseLooseItems fuel (itemTokens items ++ rest) = some (ofItems items, rest) := by
  induction items generalizing fuel with
  | nil =>
      obtain ⟨fuel, rfl⟩ : ∃ k, fuel = k + 1 := ⟨fuel - 1, by omega⟩
      rw [itemTokens, List.nil_append, parseLooseItems, ofItems]
      rintro ts rfl
      cases hrest
  | cons d ds ih =>
      obtain ⟨fuel, rfl⟩ : ∃ k, fuel = k + 1 := ⟨fuel - 1, by omega⟩
      have hlength := length_nodeTokens_pos .dash d
      simp only [itemTokens, List.length_cons, List.length_append] at hfuel
      have hd := @parseOr_item d fuel (itemTokens ds ++ rest) (hitems d List.mem_cons_self)
        [.dash, .key, .value, .blockEnd] (by simp) (by omega)
      have hds := @ih fuel (fun e he => hitems e (List.mem_cons_of_mem d he)) (by omega) (by omega)
      rw [itemTokens, List.cons_append, List.append_assoc, parseLooseItems, hd]
      simp only [Option.bind_eq_bind, Option.bind_some, hds]
      rfl

/-- The key, the colon and the value of a field. -/
theorem parseMembers_fieldTokens {fields : List (String × Document)}
    (hfields : ∀ f ∈ fields, Parses f.2) (hfuel : 3 * (fieldTokens fields).length ≤ fuel + 1)
    (hpos : 0 < fuel) :
    parseMembers fuel (fieldTokens fields ++ .blockEnd :: rest) = some (ofFields fields, rest) := by
  induction fields generalizing fuel with
  | nil =>
      obtain ⟨fuel, rfl⟩ : ∃ k, fuel = k + 1 := ⟨fuel - 1, by omega⟩
      rfl
  | cons f fs ih =>
      obtain ⟨k, d⟩ := f
      simp only [fieldTokens, List.length_cons, List.length_append] at hfuel
      generalize hi : (if isLongKey k then Indicator.dash else Indicator.key) = i at hfuel
      obtain ⟨fuel, rfl⟩ : ∃ m, fuel = m + 3 := ⟨fuel - 3, by omega⟩
      have hafter : atToken [.dash] (fieldTokens fs ++ .blockEnd :: rest) = false := by
        cases fs <;> rfl
      have hkey (ts : List Token) :
          parseOr (fuel + 2) [.key, .value, .blockEnd] .member (scalarOf k :: ts) =
            some (ofName k, ts) := by
        rw [parseOr, scalarOf]
        rfl
      have hd := @parseOr_nodeTokens d (fuel + 1) (fieldTokens fs ++ .blockEnd :: rest)
        (hfields _ List.mem_cons_self) i .member [.key, .value, .blockEnd] (fun t ht => .inl ht)
        (by omega) (by simp) fun _ => ⟨rfl, hafter⟩
      have hfs := @ih (fuel + 2) (fun g hg => hfields g (List.mem_cons_of_mem _ hg)) (by omega)
        (by omega)
      rw [fieldTokens, hi, List.cons_append, List.cons_append, List.cons_append, List.append_assoc,
        parseMembers, hkey]
      simp only [Option.bind_eq_bind, Option.bind_some, parseValue, hd, hfs]
      rfl

/-- The tokens of a document are read as its node. -/
theorem parse_nodeTokens (d : Document) : Parses d := by
  induction d using Document.membersInduction with
  | step d ih =>
      intro i place fuel rest hfuel hplace hi
      have hpos := length_nodeTokens_pos i d
      obtain ⟨fuel, rfl⟩ : ∃ m, fuel = m + 3 := ⟨fuel - 3, by omega⟩
      cases d with
      | bool b => cases b <;> rfl
      | list items =>
          have hitems : ∀ d ∈ items, Parses d := ih
          cases items with
          | nil =>
              rw [nodeTokens, ofDocument]
              rfl
          | cons d ds =>
              cases i with
              | key =>
                  obtain ⟨rfl, hrest⟩ := hi rfl
                  have htokens : nodeTokens .key (.list (d :: ds)) = itemTokens (d :: ds) := by
                    rw [nodeTokens]
                    rfl
                  rw [htokens] at hfuel ⊢
                  have hloose := @parseLooseItems_itemTokens (fuel + 2) rest (d :: ds)
                    hitems (by omega) (by omega) hrest
                  rw [itemTokens, List.cons_append] at hloose ⊢
                  rw [parse, if_pos rfl, hloose]
                  rfl
              | dash =>
                  have htokens : nodeTokens .dash (.list (d :: ds)) =
                      .listStart :: (itemTokens (d :: ds) ++ [.blockEnd]) := by
                    rw [nodeTokens]
                    rfl
                  rw [htokens] at hfuel ⊢
                  simp only [List.length_cons, List.length_append, List.length_nil] at hfuel
                  have hlist := @parseItems_itemTokens (fuel + 2) rest (d :: ds) hitems (by omega)
                    (by omega)
                  rw [List.cons_append, List.append_assoc, List.singleton_append, parse,
                    if_neg hplace, hlist]
                  rfl
      | record fields =>
          have hfields : ∀ f ∈ fields, Parses f.2 := fun f hf => ih f.2 (List.mem_map_of_mem hf)
          cases fields with
          | nil =>
              rw [nodeTokens, ofDocument]
              rfl
          | cons f fs =>
              have htokens : nodeTokens i (.record (f :: fs)) =
                  .mappingStart :: (fieldTokens (f :: fs) ++ [.blockEnd]) := by
                rw [nodeTokens]
                rfl
              rw [htokens] at hfuel ⊢
              simp only [List.length_cons, List.length_append, List.length_nil] at hfuel
              have hmembers := @parseMembers_fieldTokens (fuel + 2) rest (f :: fs)
                hfields (by omega) (by omega)
              rw [List.cons_append, List.append_assoc, List.singleton_append, parse, if_neg hplace,
                hmembers]
              rfl
      | null | number | text => rfl

/-! ### The whole text -/

/-- A written record is read as its node. -/
theorem ofText_text {fields : List (String × Document)} (hne : fields ≠ []) :
    ofText (text (.record fields)) = some (some (ofDocument (.record fields))) := by
  have htokens : nodeTokens .dash (.record fields) =
      .mappingStart :: (fieldTokens fields ++ [.blockEnd]) := by
    rw [nodeTokens]
    simp [hne]
  have hparse := parse_nodeTokens (.record fields)
    .dash .item (3 * (nodeTokens .dash (.record fields)).length + 3) []
    (Nat.le_add_right _ _) (by simp) (by simp)
  rw [List.append_nil, htokens] at hparse
  rw [ofText, tokens_text hne, Option.bind_some, htokens, ofTokens]
  · rw [hparse]
    rfl
  all_goals simp

end Equilibrium.Yaml.Node
