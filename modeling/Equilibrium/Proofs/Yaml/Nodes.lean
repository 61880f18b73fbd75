import Equilibrium.Proofs.Yaml.Numbers
import Equilibrium.Proofs.Yaml.Scalars

/-!
# The tokens of a written document

What is written of a document is scanned into the tokens of the document (`nodeTokens`), whatever it
stands behind and however deep it is indented (`leadsNode`). A list or mapping that is written in
lines of its own ends where a line is less indented. -/

namespace Equilibrium.Yaml

open Scanner

variable {rest : List Char} {outer : List Nat} {tokens found : List Token}
  {n column col : Nat} {i : Indicator}

/-! ### Tokens of a document -/

mutual

/-- The tokens of a document behind an indicator. A list behind a key has no tokens for its
beginning and its end. -/
def nodeTokens (i : Indicator) : Document → List Token
  | .null => [.scalar "null" true]
  | .bool true => [.scalar "true" true]
  | .bool false => [.scalar "false" true]
  | .number n => [.scalar (String.ofList (writeNumber n)) true]
  | .text s => [scalarOf s]
  | .list items =>
    if items.isEmpty then [.openList, .closeList]
    else if i = .key then itemTokens items
    else .listStart :: (itemTokens items ++ [.blockEnd])
  | .record fields =>
    if fields.isEmpty then [.openMapping, .closeMapping]
    else .mappingStart :: (fieldTokens fields ++ [.blockEnd])

/-- The tokens of the items of a list. -/
def itemTokens : List Document → List Token
  | [] => []
  | d :: ds => .dash :: (nodeTokens .dash d ++ itemTokens ds)

/-- The tokens of the fields of a record. -/
def fieldTokens : List (String × Document) → List Token
  | [] => []
  | (k, d) :: fs =>
    .key :: scalarOf k :: .value ::
      (nodeTokens (if isLongKey k then .dash else .key) d ++ fieldTokens fs)

end

/-! ### One node -/

/-- What is written behind an indicator at a column is scanned into some tokens and leads to the
next line, which is not further to the right. -/
def LeadsBehind (i : Indicator) (column : Nat) (written : List Char) (found : List Token) : Prop :=
  ∀ (col n : Nat) (outer : List Nat) (tokens : List Token) (rest : List Char),
    (i = .dash → col = column + 1) → column < col → n ≤ column → Begins rest →
      Leads ⟨written ++ (newLine n written ++ rest), col, i = .dash, column :: outer, tokens⟩
        (Config.closed ⟨rest, n, true, column :: outer, found.reverse ++ tokens⟩)

/-- What is written of a document is scanned into its tokens. -/
def LeadsNode (d : Document) : Prop :=
  ∀ i column, LeadsBehind i column (writeNode i column d) (nodeTokens i d)

/-- Behind a key there is a space or the end of the line, behind a dash there is a space. -/
theorem writeNode_cases (i : Indicator) (column : Nat) (d : Document) :
    ∃ c more, writeNode i column d = c :: more ∧ (c = ' ' ∨ i = .key ∧ c = '\n') := by
  have hblock (inner : Nat) (lines : List Char) :
      ∃ c more, blockStart i inner ++ lines = c :: more ∧ (c = ' ' ∨ i = .key ∧ c = '\n') := by
    cases i with
    | key => exact ⟨'\n', _, rfl, .inr ⟨rfl, rfl⟩⟩
    | dash => exact ⟨' ', _, rfl, .inl rfl⟩
  cases d with
  | bool b => cases b <;> exact ⟨' ', _, rfl, .inl rfl⟩
  | list items =>
      rw [writeNode]
      split
      · exact ⟨' ', _, rfl, .inl rfl⟩
      · exact hblock _ _
  | record fields =>
      rw [writeNode]
      split
      · exact ⟨' ', _, rfl, .inl rfl⟩
      · exact hblock _ _
  | null | number | text => exact ⟨' ', _, rfl, .inl rfl⟩

theorem writeNode_ne_nil (i : Indicator) (column : Nat) (d : Document) :
    writeNode i column d ≠ [] := by
  obtain ⟨c, more, hmore, -⟩ := writeNode_cases i column d
  rw [hmore]
  exact List.cons_ne_nil _ _

/-- A list or mapping that is further to the right than the next line ends there. -/
theorem closed_cons {inner : Nat} (h : n < inner) (key : Bool) (indents : List Nat) :
    Config.closed ⟨rest, n, key, inner :: indents, tokens⟩ =
      Config.closed ⟨rest, n, key, indents, .blockEnd :: tokens⟩ := by
  simp only [Config.closed, List.dropWhile_cons, List.takeWhile_cons, h, decide_true, if_true,
    List.length_cons, List.replicate_succ', List.append_assoc, List.singleton_append]

/-! ### One line after the other -/

/-- The lines of a list or mapping at a column, each with the lines below it. -/
def writeLines (column : Nat) : List (List Char) → List Char
  | [] => []
  | line :: more =>
    if more.isEmpty then line else line ++ newLine column line ++ writeLines column more

/-- A line at a column leads to the next one; the list or mapping opens there, or it is open
already. -/
def LeadsLine (opening : Token) (column : Nat) (line : List Char) (found : List Token) : Prop :=
  line ≠ [] ∧ ∀ rest, Begins (line ++ rest) ∧
    ∀ (n : Nat) (indents outer : List Nat) (tokens before : List Token),
      Rolls opening column indents tokens outer before → n ≤ column → Begins rest →
        Leads ⟨line ++ (newLine n line ++ rest), column, true, indents, tokens⟩
          (Config.closed ⟨rest, n, true, column :: outer, found.reverse ++ before⟩)

/-- Lines lead to the next one in turn. -/
theorem leads_lines {α : Type} {opening : Token} {line : α → List Char} {found : α → List Token}
    {as : List α} (hne : as ≠ []) (h : ∀ a ∈ as, LeadsLine opening column (line a) (found a)) :
    LeadsLine opening column (writeLines column (as.map line)) (as.flatMap found) := by
  induction as with
  | nil => exact absurd rfl hne
  | cons a as ih =>
      obtain ⟨hline, hleads⟩ := h a List.mem_cons_self
      by_cases has : as = []
      · have hwritten : writeLines column ((a :: as).map line) = line a := by
          rw [has]
          rfl
        have hfound : (a :: as).flatMap found = found a := by simp [has]
        rw [hwritten, hfound]
        exact ⟨hline, hleads⟩
      · obtain ⟨hmore, hleadsMore⟩ := ih has fun b hb => h b (List.mem_cons_of_mem a hb)
        have hwritten : writeLines column ((a :: as).map line) =
            line a ++ (newLine column (line a) ++ writeLines column (as.map line)) := by
          rw [List.map_cons, writeLines]
          simp [has]
        rw [hwritten]
        refine ⟨List.append_ne_nil_of_left_ne_nil hline _, fun rest => ⟨?_, ?_⟩⟩
        · rw [List.append_assoc]
          exact (hleads _).1
        · intro n indents outer tokens before hrolls hn hrest
          have hfirst := (hleads (writeLines column (as.map line) ++
              (newLine n (writeLines column (as.map line)) ++ rest))).2
            column indents outer tokens before hrolls (Nat.le_refl _) (hleadsMore _).1
          rw [Config.closed_eq_self (head_le (Nat.le_refl column))] at hfirst
          have hlater := (hleadsMore rest).2 n (column :: outer) outer ((found a).reverse ++ before)
            _ (Rolls.stays rfl) hn hrest
          have hlast : newLine n
              (line a ++ (newLine column (line a) ++ writeLines column (as.map line))) =
                newLine n (writeLines column (as.map line)) := by
            rw [← List.append_assoc, newLine_append _ hmore]
          have hfound : ((a :: as).flatMap found).reverse ++ before =
              (as.flatMap found).reverse ++ ((found a).reverse ++ before) := by simp
          rw [hlast, hfound, List.append_assoc, List.append_assoc]
          exact hfirst.trans hlater

/-! ### Items and fields -/

theorem writeItems_eq (column : Nat) (items : List Document) :
    writeItems column items =
      writeLines column (items.map fun d => '-' :: writeNode .dash column d) := by
  induction items with
  | nil => rfl
  | cons d ds ih =>
      rw [writeItems, List.map_cons, writeLines, ih]
      cases ds <;> rfl

theorem itemTokens_eq (items : List Document) :
    itemTokens items = items.flatMap fun d => .dash :: nodeTokens .dash d := by
  induction items with
  | nil => rfl
  | cons d ds ih => rw [itemTokens, List.flatMap_cons, ih, List.cons_append]

/-- The dash of an item and the item. -/
theorem leads_item (hd : LeadsNode d) (column : Nat) :
    LeadsLine .listStart column ('-' :: writeNode .dash column d)
      (.dash :: nodeTokens .dash d) := by
  refine ⟨List.cons_ne_nil _ _, fun rest => ⟨stopsAt_cons rfl _, ?_⟩⟩
  intro n indents outer tokens before hrolls hn hrest
  obtain ⟨c, more, hmore, hspace⟩ := writeNode_cases .dash column d
  obtain rfl : c = ' ' := hspace.resolve_right nofun
  have hnode := hd .dash column (column + 1) n outer (.dash :: before) rest (fun _ => rfl)
    (Nat.lt_succ_self column) hn hrest
  have hnewLine : newLine n ('-' :: writeNode .dash column d) =
      newLine n (writeNode .dash column d) :=
    newLine_append ['-'] (writeNode_ne_nil .dash column d) n
  have hfound : (.dash :: nodeTokens .dash d).reverse ++ before =
      (nodeTokens .dash d).reverse ++ .dash :: before := by
    simp
  rw [hnewLine, hfound]
  rw [hmore] at hnode ⊢
  exact (leads_dash rfl rfl hrolls).trans hnode

/-- A field of a record at a column. -/
def writeField (column : Nat) (f : String × Document) : List Char :=
  if isLongKey f.1 then writeLongKey column f.1 ++ writeNode .dash column f.2
  else writeText (column + 2) f.1 ++ ':' :: writeNode .key column f.2

theorem writeFields_eq (column : Nat) (fields : List (String × Document)) :
    writeFields column fields = writeLines column (fields.map (writeField column)) := by
  induction fields with
  | nil => rfl
  | cons f fs ih =>
      rw [writeFields, List.map_cons, writeLines, ih]
      cases fs <;> rfl

/-- The tokens of a field. -/
def tokensOfField (f : String × Document) : List Token :=
  .key :: scalarOf f.1 :: .value :: nodeTokens (if isLongKey f.1 then .dash else .key) f.2

theorem fieldTokens_eq (fields : List (String × Document)) :
    fieldTokens fields = fields.flatMap tokensOfField := by
  induction fields with
  | nil => rfl
  | cons f fs ih =>
      rw [fieldTokens, List.flatMap_cons, ih]
      rfl

theorem endsWord_writeNode (i : Indicator) (column : Nat) (d : Document) (rest : List Char) :
    endsWord (writeNode i column d ++ rest) = true := by
  obtain ⟨c, more, hmore, hc⟩ := writeNode_cases i column d
  rw [hmore, List.cons_append, endsWord]
  obtain rfl | ⟨-, rfl⟩ := hc <;> rfl

/-- A long key behind its question mark, and the value. -/
theorem leads_longField {f : String × Document} (hf : LeadsNode f.2) (hlong : isLongKey f.1 = true)
    (column : Nat) :
    LeadsLine .mappingStart column (writeField column f) (tokensOfField f) := by
  have hwritten (rest : List Char) : writeField column f ++ rest =
      '?' :: ' ' :: (writeText (column + 2) f.1 ++
        (newLine column (writeText (column + 2) f.1) ++
          ':' :: (writeNode .dash column f.2 ++ rest))) := by
    have hnewLine : newLine column ('?' :: ' ' :: writeText (column + 2) f.1) =
        newLine column (writeText (column + 2) f.1) :=
      newLine_append ['?', ' '] (writeText_ne_nil (column + 2) f.1) column
    rw [writeField, if_pos hlong, writeLongKey, hnewLine]
    simp
  have hne : writeField column f ≠ [] := by
    have hcons := hwritten []
    rw [List.append_nil] at hcons
    rw [hcons]
    exact List.cons_ne_nil _ _
  refine ⟨hne, fun rest => ⟨?_, ?_⟩⟩
  · rw [hwritten]
    exact stopsAt_cons rfl _
  intro n indents outer tokens before hrolls hn hrest
  have hnewLine : newLine n (writeField column f) = newLine n (writeNode .dash column f.2) := by
    rw [writeField, if_pos hlong, newLine_append _ (writeNode_ne_nil .dash column f.2)]
  have hfound : (tokensOfField f).reverse ++ before =
      (nodeTokens .dash f.2).reverse ++ .value :: scalarOf f.1 :: .key :: before := by
    simp [tokensOfField, hlong]
  rw [hwritten, hnewLine, hfound]
  have hbegins : Begins
      (':' :: (writeNode .dash column f.2 ++ (newLine n (writeNode .dash column f.2) ++ rest))) :=
    stopsAt_cons rfl _
  have hkey := @leads_text _ column column (column + 1) true outer (.key :: before) f.1
    (Nat.lt_succ_self column) (Nat.le_refl column) hbegins
  have hvalue := hf .dash column (column + 1) n outer (.value :: scalarOf f.1 :: .key :: before)
    rest (fun _ => rfl) (Nat.lt_succ_self column) hn hrest
  rw [Config.closed_eq_self (head_le (Nat.le_refl column))] at hkey
  exact ((leads_question rfl rfl hrolls).trans hkey).trans
    ((leads_colon rfl (endsWord_writeNode _ _ _ _) rfl rfl).trans hvalue)

/-- A short key before its colon, and the value. -/
theorem leads_shortField {f : String × Document} (hf : LeadsNode f.2)
    (hlong : isLongKey f.1 = false) (column : Nat) :
    LeadsLine .mappingStart column (writeField column f) (tokensOfField f) := by
  have hwritten (rest : List Char) : writeField column f ++ rest =
      writeText (column + 2) f.1 ++ ':' :: (writeNode .key column f.2 ++ rest) := by
    rw [writeField, hlong]
    simp
  have hne : writeField column f ≠ [] := by
    have hcons := hwritten []
    rw [List.append_nil] at hcons
    rw [hcons]
    exact List.append_ne_nil_of_left_ne_nil (writeText_ne_nil _ _) _
  refine ⟨hne, fun rest => ⟨?_, ?_⟩⟩
  · rw [hwritten]
    exact begins_writeText _ _ _
  intro n indents outer tokens before hrolls hn hrest
  have hnewLine : newLine n (writeField column f) = newLine n (writeNode .key column f.2) := by
    have hcons := hwritten []
    rw [List.append_nil, List.append_nil] at hcons
    rw [hcons, List.append_cons, newLine_append _ (writeNode_ne_nil .key column f.2)]
  have hfound : (tokensOfField f).reverse ++ before =
      (nodeTokens .key f.2).reverse ++ .value :: scalarOf f.1 :: .key :: before := by
    simp [tokensOfField, hlong]
  rw [hwritten, hnewLine, hfound]
  have hvalue := hf .key column (column + (writeText (column + 2) f.1).length + 1) n outer
    (.value :: scalarOf f.1 :: .key :: before) rest nofun (by omega) hn hrest
  exact (@leads_writtenKey _ (column + 1) f.1 outer ⟨_, column, true, indents, tokens⟩ before
    hlong rfl (endsWord_writeNode _ _ _ _) rfl hrolls).trans hvalue

/-! ### Documents -/

variable {lines : List Char} {opening : Token} {inner : Nat}

/-- A list or mapping begins in its own line or behind its dash. -/
theorem leads_blockStart (hinner : column ≤ inner) (hcol : column < col)
    (hi : i = .dash → inner = col + 1) (hbegins : Begins lines) :
    Leads ⟨blockStart i inner ++ lines, col, i = .dash, column :: outer, tokens⟩
      ⟨lines, inner, true, column :: outer, tokens⟩ := by
  cases i with
  | key =>
      have hleads := @leads_newLine lines
        ⟨'\n' :: (spaces inner ++ lines), col, false, column :: outer, tokens⟩ inner rfl hbegins
      rw [Config.closed_eq_self (head_le hinner)] at hleads
      exact hleads
  | dash =>
      obtain rfl := hi rfl
      exact leads_space rfl hbegins (head_le (Nat.le_of_lt hcol))

/-- A list or mapping that is further to the right than the one around it. -/
theorem leads_indented (h : LeadsLine opening (column + 2) lines found) :
    LeadsBehind i column (blockStart i (column + 2) ++ lines)
      (opening :: (found ++ [.blockEnd])) := by
  intro col n outer tokens rest hi hcol hn hrest
  obtain ⟨hne, hleads⟩ := h
  have hrolls : Rolls opening (column + 2) (column :: outer) tokens (column :: outer)
      (opening :: tokens) := .opens (head_lt (Nat.lt_succ_self column))
  have hstart := @leads_blockStart outer tokens column col i (lines ++ (newLine n lines ++ rest))
    (column + 2) (Nat.le_add_right _ _) hcol (fun hdash => by rw [hi hdash]) (hleads _).1
  have hlines := (hleads rest).2 n (column :: outer) (column :: outer) tokens _ hrolls (by omega)
    hrest
  rw [closed_cons (by omega)] at hlines
  have hfound : (opening :: (found ++ [.blockEnd])).reverse ++ tokens =
      .blockEnd :: (found.reverse ++ opening :: tokens) := by
    simp
  rw [newLine_append _ hne, List.append_assoc, hfound]
  exact hstart.trans hlines

/-- A list behind a key is not further to the right than the key. -/
theorem leads_loose (h : LeadsLine .listStart column lines found) :
    LeadsBehind .key column (blockStart .key column ++ lines) found := by
  intro col n outer tokens rest _ hcol hn hrest
  obtain ⟨hne, hleads⟩ := h
  have hstart := @leads_blockStart outer tokens column col .key (lines ++ (newLine n lines ++ rest))
    column (Nat.le_refl column) hcol nofun (hleads _).1
  have hlines := (hleads rest).2 n (column :: outer) outer tokens tokens (Rolls.stays rfl) hn hrest
  rw [newLine_append _ hne, List.append_assoc]
  exact hstart.trans hlines

/-- A word that stands for a value by itself. -/
theorem leads_word {word : List Char} (h : IsPlain word) :
    LeadsBehind i column (' ' :: word) [.scalar (String.ofList word) true] := by
  intro col n outer tokens rest _ hcol hn hrest
  have hnewLine : newLine n (' ' :: word) = newLine n word := newLine_append [' '] h.ne_nil n
  rw [hnewLine]
  exact leads_plain h hcol hn hrest

theorem leads_textNode (s : String) :
    LeadsBehind i column (' ' :: writeText (column + 2) s) [scalarOf s] := by
  intro col n outer tokens rest _ hcol hn hrest
  have hnewLine : newLine n (' ' :: writeText (column + 2) s) =
      newLine n (writeText (column + 2) s) :=
    newLine_append [' '] (writeText_ne_nil (column + 2) s) n
  rw [hnewLine]
  exact leads_text s hcol hn hrest

theorem isPlain_words : ∀ word ∈ ["null", "true", "false"], IsPlain word.toList := by
  have hwords : ∀ word ∈ ["null", "true", "false"], word.toList ≠ [] ∧
      word.toList.all isPrintable = true ∧ isPlainSafe word.toList = true := by decide
  intro word hword
  obtain ⟨hne, hprint, hsafe⟩ := hwords word hword
  exact ⟨hne, List.all_eq_true.mp hprint, hsafe⟩

theorem leads_emptyList : LeadsBehind i column [' ', '[', ']'] [.openList, .closeList] := by
  intro col n outer tokens rest _ hcol _ hrest
  have hnewLine : newLine n [' ', '[', ']'] = '\n' :: spaces n :=
    newLine_of_concat [' ', '['] rfl n
  rw [hnewLine]
  refine leads_brackets (fun s cs => ?_) (fun s cs => ?_) (by decide) (by decide) rfl rfl hcol hrest
  · simp [token, atDocumentMark]
  · simp [token, atDocumentMark]

theorem leads_emptyRecord :
    LeadsBehind i column [' ', '\x7b', '\x7d'] [.openMapping, .closeMapping] := by
  intro col n outer tokens rest _ hcol _ hrest
  have hnewLine : newLine n [' ', '\x7b', '\x7d'] = '\n' :: spaces n :=
    newLine_of_concat [' ', '\x7b'] rfl n
  rw [hnewLine]
  refine leads_brackets (fun s cs => ?_) (fun s cs => ?_) (by decide) (by decide) rfl rfl hcol hrest
  · simp [token, atDocumentMark]
  · simp [token, atDocumentMark]

/-- A key and its value. -/
theorem leads_field {f : String × Document} (hf : LeadsNode f.2) (column : Nat) :
    LeadsLine .mappingStart column (writeField column f) (tokensOfField f) := by
  cases hlong : isLongKey f.1 with
  | true => exact leads_longField hf hlong column
  | false => exact leads_shortField hf hlong column

/-- Whatever a document stands behind, what is written of it is scanned into its tokens. -/
theorem leadsNode (d : Document) : LeadsNode d := by
  induction d using Document.membersInduction with
  | step d ih =>
      intro i column
      cases d with
      | null => exact leads_word (isPlain_words "null" (by simp))
      | bool b =>
          cases b with
          | true => exact leads_word (isPlain_words "true" (by simp))
          | false => exact leads_word (isPlain_words "false" (by simp))
      | number k => exact leads_word (isPlain_writeNumber k)
      | text s => exact leads_textNode s
      | list items =>
          have hitems : ∀ d ∈ items, LeadsNode d := ih
          by_cases hempty : items = []
          · rw [hempty, writeNode, nodeTokens]
            exact leads_emptyList
          · have hlines (inner : Nat) :
                LeadsLine .listStart inner (writeItems inner items) (itemTokens items) := by
              rw [writeItems_eq, itemTokens_eq]
              exact leads_lines hempty fun d hd => leads_item (hitems d hd) inner
            have hisEmpty : items.isEmpty = false := by simpa using hempty
            rw [writeNode, nodeTokens, hisEmpty]
            cases i with
            | key => exact leads_loose (hlines column)
            | dash => exact leads_indented (hlines (column + 2))
      | record fields =>
          have hfields : ∀ f ∈ fields, LeadsNode f.2 := fun f hf => ih f.2 (List.mem_map_of_mem hf)
          by_cases hempty : fields = []
          · rw [hempty, writeNode, nodeTokens]
            exact leads_emptyRecord
          · have hlines :
                LeadsLine .mappingStart (column + 2) (writeFields (column + 2) fields)
                  (fieldTokens fields) := by
              rw [writeFields_eq, fieldTokens_eq]
              exact leads_lines hempty fun f hf => leads_field (hfields f hf) (column + 2)
            have hisEmpty : fields.isEmpty = false := by simpa using hempty
            rw [writeNode, nodeTokens, hisEmpty]
            exact leads_indented hlines

end Equilibrium.Yaml
