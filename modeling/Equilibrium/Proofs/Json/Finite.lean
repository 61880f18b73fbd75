import Equilibrium.Json.Tree
import Equilibrium.Proofs.Document

/-!
# Numbers of a text

A number that is too large is a number without a value, so every value that a text gives is finite:
those of its tokens (`isFinite_of_mem_tokensOf`) and those of its tree (`Tree.isFinite_ofText`). -/

namespace Equilibrium

theorem Decimal.isFinite_of_toBinary64? {negative : Bool} {d : Decimal} {x : Binary64}
    (h : d.toBinary64? negative = some x) : x.isFinite = true := by
  unfold toBinary64? at h
  split at h
  · cases h
    cases negative <;> decide
  · split at h
    · cases h
    · exact Binary64.isFinite_of_ofRatio? h

theorem Number.isFinite_of_ofInt? {z : Int} {n : Number} (h : ofInt? z = some n) : n.IsFinite := by
  unfold ofInt? at h
  split at h
  · split at h <;> cases h
    exact isFinite_natural _
  · split at h <;> cases h
    exact isFinite_negative _

namespace Json

/-! ### Tokens -/

/-- A number that the token may have is finite. -/
def Token.IsFinite : Token → Prop
  | .number (some n) => n.IsFinite
  | _ => True

theorem isFinite_of_numberOf {negative : Bool} {whole fraction : List Char} {e : Option Int}
    {n : Number} (h : numberOf negative whole fraction e = some n) : n.IsFinite := by
  have hreal {d : Decimal} (h : (d.toBinary64? negative).map Number.real = some n) : n.IsFinite := by
    obtain ⟨x, hx, rfl⟩ := Option.map_eq_some_iff.mp h
    exact Decimal.isFinite_of_toBinary64? hx
  unfold numberOf at h
  dsimp only at h
  split at h
  · exact hreal h
  · obtain h | ⟨-, h⟩ := Option.or_eq_some_iff.mp h
    · exact Number.isFinite_of_ofInt? h
    · exact hreal h

theorem isFinite_of_spanNumber {cs rest : List Char} {n : Number}
    (h : spanNumber cs = some (some n, rest)) : n.IsFinite := by
  unfold spanNumber at h
  simp only [Option.bind_eq_bind, Option.bind_eq_some_iff] at h
  obtain ⟨_, -, _, -, ⟨e, rest'⟩, -, heq⟩ := h
  exact isFinite_of_numberOf (Prod.mk.inj (Option.some.inj heq)).1

theorem isFinite_nextToken (cs : List Char) : (nextToken cs).1.IsFinite := by
  unfold nextToken
  split
  case h_11 =>
    split
    next n rest h =>
      cases n with
      | none => trivial
      | some n => exact isFinite_of_spanNumber h
    next => trivial
  case h_10 => split <;> trivial
  all_goals trivial

/-- All numbers of a text are finite. -/
theorem isFinite_of_mem_tokensOf {fuel : Nat} {cs : List Char} {t : Token}
    (h : t ∈ tokensOf fuel cs) : t.IsFinite := by
  fun_induction tokensOf fuel cs with
  | case1 | case2 => cases h
  | case3 fuel c cs _ ih => exact ih h
  | case4 fuel c cs _ t' rest hnext ih =>
      obtain rfl | h := List.mem_cons.mp h
      · have := isFinite_nextToken (c :: cs)
        rwa [hnext] at this
      · exact ih h

/-! ### Trees -/

mutual

/-- All numbers in the tree are finite. -/
def Tree.IsFinite : Tree → Prop
  | .number (some n) => n.IsFinite
  | .list items _ => Tree.AreFinite items
  | .record members _ => Tree.MembersAreFinite members
  | _ => True

/-- All numbers in several trees are finite. -/
def Tree.AreFinite : List Tree → Prop
  | [] => True
  | t :: ts => t.IsFinite ∧ Tree.AreFinite ts

/-- All numbers in the values of several members are finite. -/
def Tree.MembersAreFinite : List (Tree × Tree) → Prop
  | [] => True
  | (_, v) :: ms => v.IsFinite ∧ Tree.MembersAreFinite ms

end

namespace Tree

mutual

theorem isFinite_parse : ∀ (fuel : Nat) {ts : List Token}, (∀ t ∈ ts, t.IsFinite) →
    (parse fuel ts).1.IsFinite ∧ ∀ t ∈ (parse fuel ts).2, t.IsFinite
  | 0, _, _ => ⟨trivial, nofun⟩
  | _ + 1, [], _ => ⟨trivial, nofun⟩
  | fuel + 1, t :: ts, h => by
      have hts : ∀ u ∈ ts, u.IsFinite := fun u hu => h u (List.mem_cons_of_mem t hu)
      cases t with
      | number n =>
          refine ⟨?_, hts⟩
          cases n with
          | none => trivial
          | some n => exact h (.number (some n)) List.mem_cons_self
      | openList =>
          have hitems := isFinite_parseItems fuel hts
          unfold parse
          dsimp only
          split
          · exact ⟨trivial, fun u hu => hts u (List.mem_cons_of_mem _ hu)⟩
          · exact hitems
      | openRecord =>
          have hmembers := isFinite_parseMembers fuel hts
          unfold parse
          dsimp only
          split
          · exact ⟨trivial, fun u hu => hts u (List.mem_cons_of_mem _ hu)⟩
          · exact hmembers
      | closeList | closeRecord | comma | colon | bad => exact ⟨trivial, nofun⟩
      | null | bool | text => exact ⟨trivial, hts⟩

theorem isFinite_parseItems : ∀ (fuel : Nat) {ts : List Token}, (∀ t ∈ ts, t.IsFinite) →
    AreFinite (parseItems fuel ts).1 ∧ ∀ t ∈ (parseItems fuel ts).2.2, t.IsFinite
  | 0, _, _ => ⟨⟨trivial, trivial⟩, nofun⟩
  | fuel + 1, ts, h => by
      obtain ⟨hitem, hrest⟩ := isFinite_parse fuel h
      unfold parseItems
      dsimp only
      split
      next rest heq =>
        rw [heq] at hrest
        obtain ⟨hitems, hafter⟩ := isFinite_parseItems fuel fun t ht =>
          hrest t (List.mem_cons_of_mem _ ht)
        exact ⟨⟨hitem, hitems⟩, hafter⟩
      next rest heq =>
        rw [heq] at hrest
        exact ⟨⟨hitem, trivial⟩, fun t ht => hrest t (List.mem_cons_of_mem _ ht)⟩
      next => exact ⟨⟨hitem, trivial⟩, nofun⟩

theorem isFinite_parseMembers : ∀ (fuel : Nat) {ts : List Token}, (∀ t ∈ ts, t.IsFinite) →
    MembersAreFinite (parseMembers fuel ts).1 ∧ ∀ t ∈ (parseMembers fuel ts).2.2, t.IsFinite
  | 0, _, _ => ⟨⟨trivial, trivial⟩, nofun⟩
  | fuel + 1, ts, h => by
      unfold parseMembers
      split
      next => exact ⟨⟨trivial, trivial⟩, nofun⟩
      next k ts heq =>
        cases heq
        obtain ⟨hvalue, hrest⟩ := isFinite_parse fuel fun t (ht : t ∈ ts) =>
          h t (List.mem_cons_of_mem _ (List.mem_cons_of_mem _ ht))
        dsimp only
        split
        next rest heq =>
          rw [heq] at hrest
          obtain ⟨hmembers, hafter⟩ := isFinite_parseMembers fuel fun t ht =>
            hrest t (List.mem_cons_of_mem _ ht)
          exact ⟨⟨hvalue, hmembers⟩, hafter⟩
        next rest heq =>
          rw [heq] at hrest
          exact ⟨⟨hvalue, trivial⟩, fun t ht => hrest t (List.mem_cons_of_mem _ ht)⟩
        next => exact ⟨⟨hvalue, trivial⟩, nofun⟩
      next => exact ⟨⟨trivial, trivial⟩, nofun⟩
      next => exact ⟨⟨trivial, trivial⟩, nofun⟩

end

/-- All numbers in the tree of a text are finite. -/
theorem isFinite_ofText (s : String) : (ofText s).1.IsFinite :=
  (isFinite_parse (2 * (tokens s).length + 2) fun _ ht => isFinite_of_mem_tokensOf ht).1

end Tree

end Json

end Equilibrium
