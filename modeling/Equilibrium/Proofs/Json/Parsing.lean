import Equilibrium.Json.Tree
import Equilibrium.Proofs.Document

/-!
# Trees are parsed from their tokens

A tree is well-formed if every list and record in it is closed and every key is a text
(`Tree.IsProper`). A number may be too large and a text may have half a surrogate pair. The tokens of
such a tree are parsed to the tree, whatever stands behind them (`Tree.IsProper.isParsed`), so a text
with these tokens and no others has this tree (`Tree.IsProper.ofText_eq`). -/

namespace Equilibrium.Json

mutual

/-- The tokens of a tree. -/
def treeTokens : Tree → List Token
  | .broken => []
  | .null => [.null]
  | .bool b => [.bool b]
  | .number n => [.number n]
  | .text s => [.text s]
  | .list [] _ => [.openList, .closeList]
  | .list (t :: ts) _ => .openList :: (treeTokens t ++ (treeItemTokens ts ++ [.closeList]))
  | .record [] _ => [.openRecord, .closeRecord]
  | .record ((k, t) :: ms) _ =>
    .openRecord :: (treeTokens k ++ .colon ::
      (treeTokens t ++ (treeMemberTokens ms ++ [.closeRecord])))

/-- The tokens of the items of a list after the first. -/
def treeItemTokens : List Tree → List Token
  | [] => []
  | t :: ts => .comma :: (treeTokens t ++ treeItemTokens ts)

/-- The tokens of the members of a record after the first. -/
def treeMemberTokens : List (Tree × Tree) → List Token
  | [] => []
  | (k, t) :: ms =>
    .comma :: (treeTokens k ++ .colon :: (treeTokens t ++ treeMemberTokens ms))

end

namespace Tree

/-- The tree of a well-formed value. -/
inductive IsProper : Tree → Prop
  | null : IsProper .null
  | bool (b : Bool) : IsProper (.bool b)
  | number (n : Option Number) : IsProper (.number n)
  | text (s : Option String) : IsProper (.text s)
  | list {items : List Tree} (values : ∀ t ∈ items, IsProper t) : IsProper (.list items true)
  | record {members : List (Tree × Tree)} (keys : ∀ m ∈ members, ∃ k, m.1 = .text k)
      (values : ∀ m ∈ members, IsProper m.2) : IsProper (.record members true)

variable {t : Tree}

/-! ### Well-formed values can be passed over -/

theorem areWhole_iff {ts : List Tree} : areWhole ts = true ↔ ∀ t ∈ ts, t.isWhole = true := by
  induction ts with
  | nil => exact ⟨fun _ => nofun, fun _ => rfl⟩
  | cons t ts ih => rw [areWhole, Bool.and_eq_true, ih, List.forall_mem_cons]

theorem membersAreWhole_iff {ms : List (Tree × Tree)} :
    membersAreWhole ms = true ↔ ∀ m ∈ ms, m.1.isWhole = true ∧ m.2.isWhole = true := by
  induction ms with
  | nil => exact ⟨fun _ => nofun, fun _ => rfl⟩
  | cons m ms ih => rw [membersAreWhole, Bool.and_eq_true, Bool.and_eq_true, ih, List.forall_mem_cons]

/-- Well-formed values can be passed over. -/
theorem IsProper.isWhole (h : t.IsProper) : t.isWhole = true := by
  induction h with
  | list _ ih => rw [Tree.isWhole, areWhole_iff.mpr ih]; rfl
  | record keys _ ih =>
      have hmembers := membersAreWhole_iff.mpr fun m hm => by
        obtain ⟨k, hk⟩ := keys m hm
        exact ⟨hk ▸ rfl, ih m hm⟩
      rw [Tree.isWhole, hmembers]
      rfl
  | _ => rfl

/-! ### Trees of documents -/

theorem mem_ofItems {items : List Document} (h : t ∈ ofItems items) :
    ∃ d ∈ items, t = ofDocument d := by
  induction items with
  | nil => cases h
  | cons d ds ih =>
      obtain rfl | h := List.mem_cons.mp h
      · exact ⟨d, List.mem_cons_self, rfl⟩
      · obtain ⟨e, he, rfl⟩ := ih h
        exact ⟨e, List.mem_cons_of_mem d he, rfl⟩

theorem ofFields_eq_map (fields : List (String × Document)) :
    ofFields fields = fields.map fun f => (.text (some f.1), ofDocument f.2) := by
  induction fields with
  | nil => rfl
  | cons f fs ih => rw [ofFields, ih]; rfl

theorem isProper_ofDocument (d : Document) : (ofDocument d).IsProper := by
  induction d using Document.membersInduction with
  | step d ih =>
      cases d with
      | null => exact .null
      | bool b => exact .bool b
      | number n => exact .number n
      | text s => exact .text s
      | list items =>
          refine .list fun t ht => ?_
          obtain ⟨d, hd, rfl⟩ := mem_ofItems ht
          exact ih d hd
      | record fields =>
          rw [ofDocument, ofFields_eq_map]
          refine .record (List.forall_mem_map.mpr fun f _ => ⟨f.1, rfl⟩) ?_
          exact List.forall_mem_map.mpr fun f hf => ih f.2 (List.mem_map_of_mem hf)

/-! ### Parsing -/

/-- The tokens of a tree are parsed to the tree, whatever stands behind them. -/
def IsParsed (t : Tree) : Prop :=
  ∀ fuel rest, 2 * (treeTokens t).length ≤ fuel → parse fuel (treeTokens t ++ rest) = (t, rest)

variable {fuel : Nat}

/-- Two steps of fuel for a token are enough: one to go along a list and one to go into it. -/
theorem parseItems_tokens {ts : List Tree} (h : ∀ u ∈ t :: ts, IsParsed u) (rest : List Token)
    (hfuel : 2 * ((treeTokens t).length + (treeItemTokens ts).length) + 1 ≤ fuel) :
    parseItems fuel (treeTokens t ++ (treeItemTokens ts ++ .closeList :: rest)) =
      (t :: ts, true, rest) := by
  induction ts generalizing t fuel with
  | nil =>
      obtain ⟨fuel, rfl⟩ : ∃ f, fuel = f + 1 := ⟨fuel - 1, by omega⟩
      have ht := h t List.mem_cons_self fuel (.closeList :: rest) (by omega)
      rw [treeItemTokens, List.nil_append, parseItems, ht]
  | cons u us ih =>
      obtain ⟨fuel, rfl⟩ : ∃ f, fuel = f + 1 := ⟨fuel - 1, by omega⟩
      rw [treeItemTokens, List.length_cons, List.length_append] at hfuel
      have ht := h t List.mem_cons_self fuel
        (treeItemTokens (u :: us) ++ .closeList :: rest) (by omega)
      have hfuel' : 2 * ((treeTokens u).length + (treeItemTokens us).length) + 1 ≤ fuel := by omega
      have hus := ih (fun v hv => h v (List.mem_cons_of_mem t hv)) hfuel'
      rw [parseItems, ht, treeItemTokens]
      simp only [List.cons_append, List.append_assoc]
      rw [hus]

theorem parseMembers_tokens {k : Option String} {ms : List (Tree × Tree)}
    (hkeys : ∀ m ∈ ms, ∃ k, m.1 = .text k) (h : ∀ m ∈ (.text k, t) :: ms, IsParsed m.2)
    (rest : List Token)
    (hfuel : 2 * ((treeTokens t).length + (treeMemberTokens ms).length) + 1 ≤ fuel) :
    parseMembers fuel (.text k :: .colon ::
      (treeTokens t ++ (treeMemberTokens ms ++ .closeRecord :: rest))) =
      ((.text k, t) :: ms, true, rest) := by
  induction ms generalizing k t fuel with
  | nil =>
      obtain ⟨fuel, rfl⟩ : ∃ f, fuel = f + 1 := ⟨fuel - 1, by omega⟩
      have ht : IsParsed t := h (.text k, t) List.mem_cons_self
      rw [treeMemberTokens, List.nil_append, parseMembers, ht fuel _ (by omega)]
  | cons m ms ih =>
      obtain ⟨_, u⟩ := m
      obtain ⟨⟨j, rfl⟩, hmore⟩ := List.forall_mem_cons.mp hkeys
      obtain ⟨fuel, rfl⟩ : ∃ f, fuel = f + 1 := ⟨fuel - 1, by omega⟩
      simp only [treeMemberTokens, List.length_cons, List.length_append] at hfuel
      have ht : IsParsed t := h (.text k, t) List.mem_cons_self
      have hfuel' : 2 * ((treeTokens u).length + (treeMemberTokens ms).length) + 1 ≤ fuel := by omega
      have hms := ih hmore (fun m hm => h m (List.mem_cons_of_mem _ hm)) hfuel'
      rw [parseMembers, ht fuel _ (by omega), treeMemberTokens, treeTokens]
      simp only [List.cons_append, List.nil_append, List.append_assoc]
      rw [hms]

/-- No well-formed value begins with the end of a list. -/
theorem IsProper.tokens_ne_closeList (h : t.IsProper) :
    ∃ u us, treeTokens t = u :: us ∧ u ≠ .closeList := by
  cases h with
  | @list items => cases items <;> exact ⟨_, _, rfl, nofun⟩
  | @record members => cases members <;> exact ⟨_, _, rfl, nofun⟩
  | _ => exact ⟨_, _, rfl, nofun⟩

theorem parse_openList {u : Token} (h : u ≠ .closeList) (us : List Token) :
    parse (fuel + 1) (.openList :: u :: us) =
      (.list (parseItems fuel (u :: us)).1 (parseItems fuel (u :: us)).2.1,
        (parseItems fuel (u :: us)).2.2) := by
  cases u with
  | closeList => exact absurd rfl h
  | _ => rfl

/-- The tokens of a well-formed tree are parsed to the tree. -/
theorem IsProper.isParsed (h : t.IsProper) : IsParsed t := by
  induction h with
  | @list items hitems ih =>
      intro fuel rest hfuel
      cases items with
      | nil =>
          obtain ⟨fuel, rfl⟩ : ∃ f, fuel = f + 1 := ⟨fuel - 1, by simp [treeTokens] at hfuel; omega⟩
          rfl
      | cons t ts =>
          rw [treeTokens, List.length_cons, List.length_append, List.length_append,
            List.length_singleton] at hfuel
          obtain ⟨fuel, rfl⟩ : ∃ f, fuel = f + 1 := ⟨fuel - 1, by omega⟩
          have hfuel' : 2 * ((treeTokens t).length + (treeItemTokens ts).length) + 1 ≤ fuel := by
            omega
          have hparse := parseItems_tokens ih rest hfuel'
          obtain ⟨u, us, hus, hne⟩ := (hitems t List.mem_cons_self).tokens_ne_closeList
          rw [treeTokens, List.cons_append, List.append_assoc, List.append_assoc,
            List.singleton_append]
          rw [hus, List.cons_append] at hparse ⊢
          rw [parse_openList hne, hparse]
  | @record members hkeys _ ih =>
      intro fuel rest hfuel
      cases members with
      | nil =>
          obtain ⟨fuel, rfl⟩ : ∃ f, fuel = f + 1 := ⟨fuel - 1, by simp [treeTokens] at hfuel; omega⟩
          rfl
      | cons m ms =>
          obtain ⟨_, t⟩ := m
          obtain ⟨⟨k, rfl⟩, hmore⟩ := List.forall_mem_cons.mp hkeys
          simp only [treeTokens, List.length_cons, List.length_append] at hfuel
          obtain ⟨fuel, rfl⟩ : ∃ f, fuel = f + 1 := ⟨fuel - 1, by omega⟩
          have hfuel' : 2 * ((treeTokens t).length + (treeMemberTokens ms).length) + 1 ≤ fuel := by
            omega
          have hparse := parseMembers_tokens hmore ih rest hfuel'
          rw [treeTokens, treeTokens]
          simp only [List.cons_append, List.nil_append, List.append_assoc]
          rw [parse, hparse]
          simp
  | _ =>
      intro fuel rest hfuel
      obtain ⟨fuel, rfl⟩ : ∃ f, fuel = f + 1 := ⟨fuel - 1, by simp [treeTokens] at hfuel; omega⟩
      rfl

/-- A text with the tokens of a well-formed value has the tree of the value. -/
theorem IsProper.ofText_eq (h : t.IsProper) {s : String} (hs : tokens s = treeTokens t) :
    ofText s = (t, false) := by
  have hparse := h.isParsed (2 * (treeTokens t).length + 2) [] (by omega)
  rw [List.append_nil] at hparse
  rw [ofText, hs, hparse]
  rfl

end Tree

end Equilibrium.Json
