import Equilibrium.Proofs.Json.Parsing
import Equilibrium.Proofs.Json.Scan
import Equilibrium.Proofs.Json.Quote
import Equilibrium.Proofs.Json.Numbers

/-!
# Written documents are read back

The text of a document, compact or pretty, has the tokens of the document (`scan_write`), and these
are those of the tree of what is written of it (`hasTreeTokens`). -/

namespace Equilibrium.Json

/-! ### The tokens of a document -/

mutual

/-- The tokens of a document. -/
def documentTokens : Document → List Token
  | .null => [.null]
  | .bool b => [.bool b]
  | .number n => [numberToken n]
  | .text s => [.text (some s)]
  | .list [] => [.openList, .closeList]
  | .list (d :: ds) => .openList :: (documentTokens d ++ (itemTokens ds ++ [.closeList]))
  | .record [] => [.openRecord, .closeRecord]
  | .record ((k, d) :: fs) =>
    .openRecord :: .text (some k) :: .colon ::
      (documentTokens d ++ (fieldTokens fs ++ [.closeRecord]))

/-- The tokens of the items of a list after the first. -/
def itemTokens : List Document → List Token
  | [] => []
  | d :: ds => .comma :: (documentTokens d ++ itemTokens ds)

/-- The tokens of the fields of a record after the first. -/
def fieldTokens : List (String × Document) → List Token
  | [] => []
  | (k, d) :: fs => .comma :: .text (some k) :: .colon :: (documentTokens d ++ fieldTokens fs)

end

/-! ### Scanning a written document -/

section scanning

variable {rest : List Char}

theorem scan_of_nextToken {w : List Char} {t : Token} (hw : ∃ c cs, w = c :: cs ∧ isBlank c = false)
    (h : nextToken (w ++ rest) = (t, rest)) : scan (w ++ rest) = t :: scan rest := by
  obtain ⟨c, cs, rfl, hc⟩ := hw
  rw [List.cons_append] at h ⊢
  rw [scan_cons hc, h]

theorem scan_lineBreak (level : Option Nat) (rest : List Char) :
    scan (lineBreak level ++ rest) = scan rest := by
  have hblanks (n : Nat) : scan (List.replicate n ' ' ++ rest) = scan rest := by
    induction n with
    | zero => rfl
    | succ n ih => rw [List.replicate_succ, List.cons_append, scan_cons_of_isBlank rfl, ih]
  cases level with
  | none => rfl
  | some level => rw [lineBreak, List.cons_append, scan_cons_of_isBlank rfl, hblanks]

theorem scan_colonMark (level : Option Nat) (rest : List Char) :
    scan (colonMark level ++ rest) = .colon :: scan rest := by
  have hcolon (cs : List Char) : scan (':' :: cs) = .colon :: scan cs := scan_cons rfl cs
  cases level with
  | none => exact hcolon rest
  | some level =>
      rw [colonMark, List.cons_append, hcolon, List.cons_append, scan_cons_of_isBlank rfl,
        List.nil_append]

theorem scan_quote (s : String) (rest : List Char) :
    scan (quote s ++ rest) = .text (some s) :: scan rest :=
  scan_of_nextToken ⟨'"', _, rfl, rfl⟩ (nextToken_quote s rest)

theorem stopsAt_lineBreak (level : Option Nat) (h : StopsAt isNumberChar rest) :
    StopsAt isNumberChar (lineBreak level ++ rest) := by
  cases level with
  | none => exact h
  | some level => exact stopsAt_cons rfl _

theorem stopsAt_writeItems (level : Option Nat) (ds : List Document)
    (h : StopsAt isNumberChar rest) : StopsAt isNumberChar (writeItems level ds ++ rest) := by
  cases ds with
  | nil => exact h
  | cons d ds => exact stopsAt_cons rfl _

theorem stopsAt_writeFields (level : Option Nat) (fs : List (String × Document))
    (h : StopsAt isNumberChar rest) : StopsAt isNumberChar (writeFields level fs ++ rest) := by
  cases fs with
  | nil => exact h
  | cons f fs => exact stopsAt_cons rfl _

/-- The text of a document has its tokens, whatever stands behind it. -/
def IsScanned (d : Document) : Prop :=
  ∀ level rest, StopsAt isNumberChar rest →
    scan (write level d ++ rest) = documentTokens d ++ scan rest

theorem scan_writeItems {ds : List Document} (hds : ∀ d ∈ ds, IsScanned d) (level : Option Nat)
    (h : StopsAt isNumberChar rest) :
    scan (writeItems level ds ++ rest) = itemTokens ds ++ scan rest := by
  induction ds with
  | nil => rfl
  | cons d ds ih =>
      have hcomma (cs : List Char) : scan (',' :: cs) = .comma :: scan cs := scan_cons rfl cs
      have hd := hds d List.mem_cons_self level _ (stopsAt_writeItems level ds h)
      rw [writeItems, itemTokens]
      simp only [List.cons_append, List.append_assoc]
      rw [hcomma, scan_lineBreak, hd, ih fun e he => hds e (List.mem_cons_of_mem d he)]

theorem scan_writeFields {fs : List (String × Document)} (hfs : ∀ f ∈ fs, IsScanned f.2)
    (level : Option Nat) (h : StopsAt isNumberChar rest) :
    scan (writeFields level fs ++ rest) = fieldTokens fs ++ scan rest := by
  induction fs with
  | nil => rfl
  | cons f fs ih =>
      have hcomma (cs : List Char) : scan (',' :: cs) = .comma :: scan cs := scan_cons rfl cs
      have hf := hfs f List.mem_cons_self level _ (stopsAt_writeFields level fs h)
      rw [writeFields, fieldTokens]
      simp only [List.cons_append, List.append_assoc]
      rw [hcomma, scan_lineBreak, scan_quote, scan_colonMark, hf,
        ih fun g hg => hfs g (List.mem_cons_of_mem f hg)]

/-- The text of a document, compact or pretty, has the tokens of the document. -/
theorem isScanned (d : Document) : IsScanned d := by
  induction d using Document.membersInduction with
  | step d ih =>
      intro level rest hrest
      cases d with
      | null => exact scan_of_nextToken ⟨'n', _, rfl, rfl⟩ rfl
      | bool b =>
          cases b with
          | true => exact scan_of_nextToken ⟨'t', _, rfl, rfl⟩ rfl
          | false => exact scan_of_nextToken ⟨'f', _, rfl, rfl⟩ rfl
      | number n => exact scan_of_nextToken (writeNumber_cases n) (nextToken_writeNumber n hrest)
      | text s => exact scan_quote s rest
      | list items =>
          have hopen (cs : List Char) : scan ('[' :: cs) = .openList :: scan cs := scan_cons rfl cs
          have hclose (cs : List Char) : scan (']' :: cs) = .closeList :: scan cs := scan_cons rfl cs
          cases items with
          | nil =>
              show scan ('[' :: ']' :: rest) = _
              rw [hopen, hclose, documentTokens]
              rfl
          | cons d ds =>
              have hend : StopsAt isNumberChar (lineBreak level ++ ']' :: rest) :=
                stopsAt_lineBreak level (stopsAt_cons rfl rest)
              have hd := ih d List.mem_cons_self (level.map (· + 1)) _
                (stopsAt_writeItems (level.map (· + 1)) ds hend)
              have hds := scan_writeItems (fun e he => ih e (List.mem_cons_of_mem d he))
                (level.map (· + 1)) hend
              rw [write, documentTokens]
              simp only [List.cons_append, List.append_assoc, List.nil_append]
              rw [hopen, scan_lineBreak, hd, hds, scan_lineBreak, hclose]
      | record fields =>
          have hopen (cs : List Char) : scan ('\x7b' :: cs) = .openRecord :: scan cs :=
            scan_cons rfl cs
          have hclose (cs : List Char) : scan ('\x7d' :: cs) = .closeRecord :: scan cs :=
            scan_cons rfl cs
          cases fields with
          | nil =>
              show scan ('\x7b' :: '\x7d' :: rest) = _
              rw [hopen, hclose, documentTokens]
              rfl
          | cons f fs =>
              have hend : StopsAt isNumberChar (lineBreak level ++ '\x7d' :: rest) :=
                stopsAt_lineBreak level (stopsAt_cons rfl rest)
              have hf := ih f.2 List.mem_cons_self (level.map (· + 1)) _
                (stopsAt_writeFields (level.map (· + 1)) fs hend)
              have hfs := scan_writeFields
                (fun g hg => ih g.2 (List.mem_cons_of_mem f.2 (List.mem_map_of_mem hg)))
                (level.map (· + 1)) hend
              rw [write, documentTokens]
              simp only [List.cons_append, List.append_assoc, List.nil_append]
              rw [hopen, scan_lineBreak, scan_quote, scan_colonMark, hf, hfs, scan_lineBreak,
                hclose]

end scanning

/-! ### The tree of a written document -/

/-- The tokens of a document are those of the tree of what is written of it. -/
def HasTreeTokens (d : Document) : Prop :=
  documentTokens d = treeTokens (Tree.ofDocument d.written)

theorem itemTokens_eq {ds : List Document} (h : ∀ d ∈ ds, HasTreeTokens d) :
    itemTokens ds = treeItemTokens (Tree.ofItems (Document.writtenItems ds)) := by
  induction ds with
  | nil => rfl
  | cons d ds ih =>
      have hd : HasTreeTokens d := h d List.mem_cons_self
      rw [itemTokens, Document.writtenItems, Tree.ofItems, treeItemTokens, ← hd,
        ih fun e he => h e (List.mem_cons_of_mem d he)]

theorem fieldTokens_eq {fs : List (String × Document)} (h : ∀ f ∈ fs, HasTreeTokens f.2) :
    fieldTokens fs = treeMemberTokens (Tree.ofFields (Document.writtenFields fs)) := by
  induction fs with
  | nil => rfl
  | cons f fs ih =>
      have hf : HasTreeTokens f.2 := h f List.mem_cons_self
      rw [fieldTokens, Document.writtenFields, Tree.ofFields, treeMemberTokens, treeTokens, ← hf,
        ih fun g hg => h g (List.mem_cons_of_mem f hg)]
      rfl

theorem hasTreeTokens (d : Document) : HasTreeTokens d := by
  induction d using Document.membersInduction with
  | step d ih =>
      cases d with
      | number n =>
          cases n with
          | real x =>
              rw [HasTreeTokens, documentTokens, numberToken, Document.written]
              cases x.isFinite <;> rfl
          | _ => rfl
      | list items =>
          cases items with
          | nil => rfl
          | cons d ds =>
              have hd : HasTreeTokens d := ih d List.mem_cons_self
              rw [HasTreeTokens, documentTokens, Document.written, Document.writtenItems,
                Tree.ofDocument, Tree.ofItems, treeTokens, ← hd,
                itemTokens_eq fun e he => ih e (List.mem_cons_of_mem d he)]
      | record fields =>
          cases fields with
          | nil => rfl
          | cons f fs =>
              have hf : HasTreeTokens f.2 := ih f.2 List.mem_cons_self
              rw [HasTreeTokens, documentTokens, Document.written, Document.writtenFields,
                Tree.ofDocument, Tree.ofFields, treeTokens, treeTokens, ← hf,
                fieldTokens_eq fun g hg => ih g.2 (List.mem_cons_of_mem f.2 (List.mem_map_of_mem hg))]
              rfl
      | _ => rfl

/-- The text of a document, compact or pretty, has the tokens of what is written of it. -/
theorem tokens_write (level : Option Nat) (d : Document) :
    tokens (String.ofList (write level d)) = treeTokens (Tree.ofDocument d.written) := by
  have hscan := isScanned d level [] (stopsAt_nil _)
  rw [List.append_nil, scan_nil, List.append_nil] at hscan
  rw [tokens_eq_scan, String.toList_ofList, hscan, hasTreeTokens d]

/-- **The text of a document, compact or pretty, is read as the tree of what is written of it, and
nothing is left of the text.** -/
theorem Tree.ofText_write (level : Option Nat) (d : Document) :
    ofText (String.ofList (write level d)) = (ofDocument d.written, false) :=
  (isProper_ofDocument d.written).ofText_eq (tokens_write level d)

end Equilibrium.Json
