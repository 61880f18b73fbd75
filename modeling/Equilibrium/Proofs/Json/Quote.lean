import Equilibrium.Json.Text
import Equilibrium.Json.Token

/-!
# Quoted texts

What `Json.quote` writes is read back as the text (`spanUnits_quoted`, `joinUnits_toNat`): every
escape stands for the character that it was written for. -/

namespace Equilibrium.Json

theorem hexUnit?_hexPair {n : Nat} (h : n < 0x20) :
    hexUnit? '0' '0' (Nat.digitChar (n / 16)) (Nat.digitChar (n % 16)) = some n := by
  have hall : ∀ n < 0x20,
      hexUnit? '0' '0' (Nat.digitChar (n / 16)) (Nat.digitChar (n % 16)) = some n := by decide
  exact hall n h

theorem bind_units (n : Nat) (cs : List Char) :
    (do
      let (us, rest) ← spanUnits cs
      return (n :: us, rest)) = (spanUnits cs).map fun p => (n :: p.1, p.2) := by
  cases spanUnits cs <;> rfl

theorem spanUnits_cons {c : Char} (hquote : c ≠ '"') (hback : c ≠ '\\') (hcontrol : ¬ c.toNat < 0x20)
    (cs : List Char) : spanUnits (c :: cs) = (spanUnits cs).map fun p => (c.toNat :: p.1, p.2) := by
  rw [spanUnits, if_neg (not_or.mpr ⟨hcontrol, hback⟩)]
  · exact bind_units c.toNat cs
  · simp [hquote]
  · simp [hback]
  · simp [hback]

/-- An escape is read as its character. -/
theorem spanUnits_escape (c : Char) (cs : List Char) :
    spanUnits (escape c ++ cs) = (spanUnits cs).map fun p => (c.toNat :: p.1, p.2) := by
  unfold escape
  split
  case h_8 hquote hback _ _ _ _ _ =>
    split <;> rename_i hcontrol
    · simp only [hexPair, List.cons_append, List.nil_append]
      rw [spanUnits, hexUnit?_hexPair hcontrol]
      exact bind_units _ cs
    · exact spanUnits_cons hquote hback hcontrol cs
  all_goals
    simp only [List.cons_append, List.nil_append]
    rw [spanUnits]
    · exact bind_units _ cs
    · simp

theorem spanUnits_flatMap (cs rest : List Char) :
    spanUnits (cs.flatMap escape ++ '"' :: rest) = some (cs.map Char.toNat, rest) := by
  induction cs with
  | nil => rw [List.flatMap_nil, List.nil_append, spanUnits, List.map_nil]
  | cons c cs ih => rw [List.flatMap_cons, List.append_assoc, spanUnits_escape, ih]; rfl

/-- No character is half of a surrogate pair. -/
theorem joinUnits_toNat (cs : List Char) : joinUnits (cs.map Char.toNat) = some cs := by
  induction cs with
  | nil => rfl
  | cons c cs ih =>
      have hscalar : c.toNat < 0xD800 ∨ 0xE000 ≤ c.toNat := by
        rcases c.valid with h | h
        · exact .inl h
        · exact .inr (by have := h.1; simp only [Char.toNat]; omega)
      rw [List.map_cons, joinUnits.eq_def]
      simp only [if_pos hscalar, ih, Option.map_some, Char.ofNat_toNat]

/-- The token of a quoted text is the text. -/
theorem nextToken_quote (s : String) (rest : List Char) :
    nextToken (quote s ++ rest) = (.text (some s), rest) := by
  rw [quote, List.cons_append, List.append_assoc, List.singleton_append, nextToken,
    spanUnits_flatMap]
  simp only [joinUnits_toNat, Option.map_some, String.ofList_toList]

end Equilibrium.Json
