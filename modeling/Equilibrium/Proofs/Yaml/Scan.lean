import Equilibrium.Proofs.Yaml.Nodes

/-!
# Scanning a written text

Only printable characters are written, so nothing is changed before the scanner begins; it begins
where a mapping may open, and at the end of the text closes what is open. So the tokens of a text
are those of its document (`tokens_text`). -/

namespace Equilibrium.Yaml

open Scanner

variable {c : Char} {column : Nat} {fields : List (String × Document)}

/-! ### Characters -/

theorem isPrintable_of_mem_newLine {n : Nat} {before : List Char} (h : c ∈ newLine n before) :
    isPrintable c = true := by
  rw [newLine_eq, List.mem_append] at h
  obtain h | h := h
  · split at h
    · cases h
    · rw [List.mem_singleton.mp h]
      rfl
  · rw [List.eq_of_mem_replicate h]
    rfl

theorem isPrintable_of_mem_writeLines {lines : List (List Char)}
    (hlines : ∀ line ∈ lines, ∀ c ∈ line, isPrintable c = true) (h : c ∈ writeLines column lines) :
    isPrintable c = true := by
  induction lines with
  | nil => cases h
  | cons line lines ih =>
      have hline := hlines line List.mem_cons_self c
      rw [writeLines] at h
      split at h
      · exact hline h
      · simp only [List.mem_append] at h
        obtain (h | h) | h := h
        · exact hline h
        · exact isPrintable_of_mem_newLine h
        · exact ih (fun l hl => hlines l (List.mem_cons_of_mem line hl)) h

theorem isPrintable_of_mem_blockStart {i : Indicator} {inner : Nat} (h : c ∈ blockStart i inner) :
    isPrintable c = true := by
  cases i with
  | key =>
      obtain rfl | h := List.mem_cons.mp h
      · rfl
      · rw [List.eq_of_mem_replicate h]
        rfl
  | dash =>
      rw [List.mem_singleton.mp h]
      rfl

theorem isPrintable_of_mem_writeField {f : String × Document}
    (hf : ∀ (i : Indicator) (column : Nat), ∀ c ∈ writeNode i column f.2, isPrintable c = true)
    (h : c ∈ writeField column f) : isPrintable c = true := by
  rw [writeField] at h
  split at h
  · rw [writeLongKey] at h
    simp only [List.mem_append, List.mem_cons, List.not_mem_nil, or_false] at h
    obtain (((rfl | rfl | h) | h) | rfl) | h := h
    · rfl
    · rfl
    · exact isPrintable_of_mem_writeText f.1 h
    · exact isPrintable_of_mem_newLine h
    · rfl
    · exact hf _ _ c h
  · simp only [List.mem_append, List.mem_cons] at h
    obtain h | rfl | h := h
    · exact isPrintable_of_mem_writeText f.1 h
    · rfl
    · exact hf _ _ c h

/-- Only printable characters are written. -/
theorem isPrintable_of_mem_writeNode (d : Document) :
    ∀ (i : Indicator) (column : Nat), ∀ c ∈ writeNode i column d, isPrintable c = true := by
  have hword : ∀ {cs : List Char}, (∀ c ∈ cs, isPrintable c = true) →
      ∀ c ∈ ' ' :: cs, isPrintable c = true :=
    fun hcs => List.forall_mem_cons.mpr ⟨rfl, hcs⟩
  induction d using Document.membersInduction with
  | step d ih =>
      intro i column
      cases d with
      | null => exact hword (isPlain_words "null" (by simp)).printable
      | bool b =>
          cases b with
          | true => exact hword (isPlain_words "true" (by simp)).printable
          | false => exact hword (isPlain_words "false" (by simp)).printable
      | number n => exact hword (isPlain_writeNumber n).printable
      | text s => exact hword fun c hc => isPrintable_of_mem_writeText s hc
      | list items =>
          have hitems : ∀ d ∈ items, ∀ (i : Indicator) (column : Nat),
              ∀ c ∈ writeNode i column d, isPrintable c = true := ih
          intro c hc
          rw [writeNode] at hc
          split at hc
          · have hbrackets : [' ', '[', ']'].all isPrintable = true := rfl
            exact List.all_eq_true.mp hbrackets c hc
          · rw [List.mem_append, writeItems_eq] at hc
            obtain hc | hc := hc
            · exact isPrintable_of_mem_blockStart hc
            · refine isPrintable_of_mem_writeLines (fun line hline => ?_) hc
              obtain ⟨d, hd, rfl⟩ := List.mem_map.mp hline
              exact List.forall_mem_cons.mpr ⟨rfl, hitems d hd _ _⟩
      | record fields =>
          have hfields : ∀ f ∈ fields, ∀ (i : Indicator) (column : Nat),
              ∀ c ∈ writeNode i column f.2, isPrintable c = true :=
            fun f hf => ih f.2 (List.mem_map_of_mem hf)
          intro c hc
          rw [writeNode] at hc
          split at hc
          · have hbraces : [' ', '\x7b', '\x7d'].all isPrintable = true := rfl
            exact List.all_eq_true.mp hbraces c hc
          · rw [List.mem_append, writeFields_eq] at hc
            obtain hc | hc := hc
            · exact isPrintable_of_mem_blockStart hc
            · refine isPrintable_of_mem_writeLines (fun line hline => ?_) hc
              obtain ⟨f, hf, rfl⟩ := List.mem_map.mp hline
              exact fun c hc => isPrintable_of_mem_writeField (hfields f hf) hc

/-! ### The whole text -/

theorem toList_text (hne : fields ≠ []) :
    (text (.record fields)).toList = writeFields 0 fields ++ newLine 0 (writeFields 0 fields) := by
  obtain ⟨f, fs, rfl⟩ := List.exists_cons_of_ne_nil hne
  rw [text, newLine, String.toList_ofList]
  split
  · exact (List.append_nil _).symm
  · rfl

/-- At the end of a text the mapping around everything is closed. -/
theorem run_end {s : Scanner} {found : List Token} (hs : Describes ⟨[], 0, true, [0], found⟩ s)
    (fuel : Nat) :
    ∃ ts, s.run (fuel + 1) = some ts ∧ ts.filter Token.isReal = .blockEnd :: found := by
  have hprepare : s.prepare = some s := by
    refine prepare_eq_self ?_ ?_ ?_
    · rw [hs.rest]
      exact stopsAt_nil _
    · rw [hs.candidates]
      rintro o (⟨⟩ | ⟨_, ⟨⟩⟩) c ⟨⟩
    · rw [hs.indents, hs.column]
      exact fun _ => head_le (Nat.le_refl 0)
  have hunroll : (s.unroll (-1)).candidates = [none] ∧
      (s.unroll (-1)).tokens = .blockEnd :: s.tokens := by
    rw [unroll_eq hs.flow, hs.indents, hs.candidates]
    exact ⟨rfl, rfl⟩
  refine ⟨.blockEnd :: s.tokens, ?_, ?_⟩
  · rw [run_succ, hprepare, Option.bind_some, hs.rest]
    dsimp only
    rw [dropCandidate, hunroll.1]
    exact congrArg some hunroll.2
  · rw [List.filter_cons_of_pos rfl, hs.tokens]

/-- The tokens of a written record are those of the record. -/
theorem tokens_text (hne : fields ≠ []) :
    tokens (text (.record fields)) = some (nodeTokens .dash (.record fields)) := by
  have hprint : ∀ c ∈ (text (.record fields)).toList, isPrintable c = true := by
    rw [toList_text hne]
    intro c hc
    obtain hc | hc := List.mem_append.mp hc
    · rw [writeFields_eq] at hc
      refine isPrintable_of_mem_writeLines (fun line hline => ?_) hc
      obtain ⟨f, hf, rfl⟩ := List.mem_map.mp hline
      exact fun c hc => isPrintable_of_mem_writeField (isPrintable_of_mem_writeNode f.2) hc
    · exact isPrintable_of_mem_newLine hc
  have hallowed : (text (.record fields)).toList.all isAllowed = true :=
    List.all_eq_true.mpr fun c hc => isAllowed_of_isPrintable (hprint c hc)
  have hlines : LeadsLine .mappingStart 0 (writeFields 0 fields) (fieldTokens fields) := by
    rw [writeFields_eq, fieldTokens_eq]
    exact leads_lines hne fun f hf => leads_field (leadsNode f.2) 0
  have hleads := (hlines.2 []).2 0 [] [] [] [.mappingStart] (.opens nofun) (Nat.le_refl 0)
    (stopsAt_nil _)
  have hstart : Describes
      ⟨writeFields 0 fields ++ (newLine 0 (writeFields 0 fields) ++ []), 0, true, [], []⟩
      (start (text (.record fields)).toList) := by
    rw [List.append_nil, ← toList_text hne]
    exact ⟨rfl, rfl, rfl, rfl, rfl, rfl, rfl⟩
  rw [Config.closed_eq_self (head_le (Nat.le_refl 0))] at hleads
  obtain ⟨t, ht, hreaches⟩ := hleads _ hstart
  obtain ⟨fuel, hfuel, hrun⟩ := hreaches ((text (.record fields)).toList.length + 1)
    (Nat.lt_succ_self _)
  obtain ⟨fuel, rfl⟩ : ∃ k, fuel = k + 1 := ⟨fuel - 1, by omega⟩
  obtain ⟨ts, hts, hfound⟩ := run_end ht fuel
  have hisEmpty : fields.isEmpty = false := by simpa using hne
  rw [tokens, if_pos hallowed, unifyBreaks_of_isPrintable hprint, hrun, hts, nodeTokens, hisEmpty]
  simp [hfound]

end Equilibrium.Yaml
