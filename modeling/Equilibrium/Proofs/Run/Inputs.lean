import Equilibrium.Run.Inputs
import Equilibrium.Proofs.Document.Conforming

/-!
# Codecs of the parts of an input file

The codec of run inputs is lawful (`RunInputs.lawful_codec`), part by part. -/

namespace Equilibrium

open Document (nesting_record_le nesting_texts_le)
open Shape (Conforms Sound)

/-! ### Lists of texts -/

namespace Codec

theorem texts?_texts (names : List String) : (Document.texts names).texts? = some names :=
  lawful_texts.decode_encode names

theorem conforms_texts {n : Nat} (names : List String) (h : (Document.texts names).nesting ≤ n) :
    Conforms n (.list .text) (.texts names) := lawful_texts.conforms names n h

theorem eq_texts {n : Nat} {d : Document} {names : List String} (hd : Conforms n (.list .text) d)
    (h : d.texts? = some names) : .texts names = d := lawful_texts.encode_of_decode n d names hd h

theorem eq_text {n : Nat} {d : Document} {s : String} (hd : Conforms n .text d)
    (h : d.text? = some s) : .text s = d := lawful_text.encode_of_decode n d s hd h

theorem sound_texts {n : Nat} (h : 1 ≤ n) : Sound n (.list .text) := lawful_texts.sound n h

theorem conforms_nil {n : Nat} (h : 1 ≤ n) : Conforms n (.list .text) (.list []) :=
  conforms_texts [] h

end Codec

open Codec

/-! ### Sets -/

theorem Sets.decode?_record (c a f i : Document) :
    codec.decode? (.record [("commodities", c), ("activities", a), ("factors", f),
      ("institutions", i)]) = do
        return ⟨← c.texts?, ← a.texts?, ← f.texts?, ← i.texts?⟩ := rfl

theorem Sets.lawful_codec : Sets.codec.Lawful 2 := by
  refine lawful_of_fields (fun s => SetKind.all.map fun k => .texts (s.members k)) rfl
    (fun s => rfl) (by decide) (fun n hn f hf => ?_) (fun s n => ?_) (fun s => ?_)
    fun n ds s hds hs => ?_
  · obtain ⟨k, -, rfl⟩ := List.mem_map.mp hf
    refine ⟨sound_texts hn, ?_⟩
    rintro d ⟨⟩
    exact conforms_nil hn
  · rw [List.forall₂_map_left_iff, List.forall₂_map_right_iff, List.forall₂_same]
    exact fun k _ => conforms_texts (s.members k)
  · refine (Sets.decode?_record _ _ _ _).trans ?_
    simp only [texts?_texts]
    rfl
  · simp only [SetKind.all, List.map_cons, List.map_nil, List.forall₂_cons_left_iff,
      List.forall₂_nil_left_iff] at hds
    obtain ⟨d₁, _, h₁, ⟨d₂, _, h₂, ⟨d₃, _, h₃, ⟨d₄, _, h₄, rfl, rfl⟩, rfl⟩, rfl⟩, rfl⟩ := hds
    replace hs := (Sets.decode?_record d₁ d₂ d₃ d₄).symm.trans hs
    simp only [Option.bind_eq_bind, Option.bind_eq_some_iff] at hs
    obtain ⟨cs, hcs, as, has, fs, hfs, is, his, ⟨⟩⟩ := hs
    simp [SetKind.all, Sets.members, eq_texts h₁ hcs, eq_texts h₂ has, eq_texts h₃ hfs,
      eq_texts h₄ his]

theorem Sets.nesting_encode_le (s : Sets) : (codec.encode s).nesting ≤ 2 := by
  refine nesting_record_le fun f hf => ?_
  obtain ⟨k, -, rfl⟩ := List.mem_map.mp hf
  exact nesting_texts_le (s.members k)

/-! ### Mappings -/

namespace Mappings

/-- The entries of a mapping as fields of its document. -/
def fields (pairs : List (Symbol × Symbol)) : List (String × Document) :=
  pairs.map fun e => (e.1, .text e.2)

theorem mapM_fields (pairs : List (Symbol × Symbol)) :
    (fields pairs).mapM (fun f => do return (f.1, ← f.2.text?)) = some pairs := by
  induction pairs with
  | nil => rfl
  | cons e es ih =>
      have hcons : fields (e :: es) = (e.1, .text e.2) :: fields es := rfl
      rw [hcons, List.mapM_cons, ih]
      rfl

theorem decode?_fields (pairs : List (Symbol × Symbol)) :
    codec.decode? (.record [("activity_output", .record (fields pairs))]) = some (ofPairs pairs) := by
  have houtputs : (Document.record (fields pairs)).mapOf? Document.text? = some (.ofList pairs) := by
    rw [Document.mapOf?, Document.record?, Option.bind_eq_bind, Option.bind_some, mapM_fields]
    rfl
  have hdecode : codec.decode? (.record [("activity_output", .record (fields pairs))]) = do
      return ⟨← (Document.record (fields pairs)).mapOf? Document.text?⟩ := rfl
  rw [hdecode, houtputs]
  rfl

theorem ascending_fields {pairs : List (Symbol × Symbol)} :
    Ascending (fields pairs) ↔ Ascending pairs := List.pairwise_map

theorem exists_fields {n : Nat} {entries : List (String × Document)}
    (h : ∀ e ∈ entries, Conforms n .text e.2) : ∃ pairs, entries = fields pairs := by
  induction entries with
  | nil => exact ⟨[], rfl⟩
  | cons e es ih =>
      obtain ⟨pairs, rfl⟩ := ih fun f hf => h f (List.mem_cons_of_mem e hf)
      obtain ⟨k, d⟩ := e
      cases h (k, d) List.mem_cons_self with
      | text s => exact ⟨(k, s) :: pairs, rfl⟩

theorem ofPairs_entries (m : Mappings) : ofPairs m.activityOutput.entries = m :=
  congrArg Mappings.mk (SymbolMap.ext (settleEntries_of_ascending m.activityOutput.ascending))

theorem lawful_codec : codec.Lawful 2 := by
  refine lawful_of_fields (fun m => [.record (fields m.activityOutput.entries)]) rfl
    (fun m => rfl) (by decide) (fun n hn f hf => ?_) (fun m n => ?_) (fun m => ?_)
    fun n ds m hds hm => ?_
  · obtain ⟨k, rfl⟩ : ∃ k, n = k + 1 := ⟨n - 1, by omega⟩
    obtain rfl := List.mem_singleton.mp hf
    refine ⟨.map .text, ?_⟩
    rintro d ⟨⟩
    exact .map List.Pairwise.nil nofun
  · refine .cons (fun hn => ?_) .nil
    rw [Document.nesting] at hn
    obtain ⟨k, rfl⟩ : ∃ k, n = k + 1 := ⟨n - 1, by omega⟩
    refine .map (ascending_fields.mpr m.activityOutput.ascending) fun e he => ?_
    obtain ⟨p, -, rfl⟩ := List.mem_map.mp he
    exact .text p.2
  · exact (decode?_fields m.activityOutput.entries).trans (congrArg some m.ofPairs_entries)
  · simp only [List.forall₂_cons_left_iff, List.forall₂_nil_left_iff] at hds
    obtain ⟨d, _, hd, rfl, rfl⟩ := hds
    cases hd with
    | @map k _ entries hascending hmembers =>
        obtain ⟨pairs, rfl⟩ := exists_fields hmembers
        obtain rfl : ofPairs pairs = m := Option.some.inj ((decode?_fields pairs).symm.trans hm)
        have hentries : (ofPairs pairs).activityOutput.entries = pairs :=
          settleEntries_of_ascending (ascending_fields.mp hascending)
        rw [hentries]

theorem nesting_encode_le (m : Mappings) : (codec.encode m).nesting ≤ 2 := by
  refine nesting_record_le fun f hf => ?_
  obtain rfl := List.mem_singleton.mp hf
  refine nesting_record_le fun f hf => ?_
  obtain ⟨e, -, rfl⟩ := List.mem_map.mp hf
  exact Nat.zero_le 0

end Mappings

/-! ### Closures -/

theorem Closure.lawful_codec : Closure.codec.Lawful 1 := by
  refine lawful_of_fields (fun c => [.text c.numeraire]) rfl (fun c => rfl) (by decide)
    (fun n hn f hf => ?_) (fun c n => ?_) (fun c => rfl) fun n ds c hds hc => ?_
  · obtain rfl := List.mem_singleton.mp hf
    exact ⟨.text, nofun⟩
  · exact .cons (fun _ => .text c.numeraire) .nil
  · simp only [List.forall₂_cons_left_iff, List.forall₂_nil_left_iff] at hds
    obtain ⟨d, _, hd, rfl, rfl⟩ := hds
    cases hd with
    | text s =>
        obtain rfl : ⟨s⟩ = c := Option.some.inj hc
        rfl

theorem Closure.nesting_encode_le (c : Closure) : (codec.encode c).nesting ≤ 1 := by
  refine nesting_record_le fun f hf => ?_
  obtain rfl := List.mem_singleton.mp hf
  exact Nat.zero_le 0

/-! ### Scenarios -/

namespace Scenario

/-- The shocks of a scenario as fields of its document. -/
def fields (shocks : List (Symbol × Shock)) : List (String × Document) :=
  shocks.map fun e => (e.1, e.2.value)

theorem ascending_fields {shocks : List (Symbol × Shock)} :
    Ascending (fields shocks) ↔ Ascending shocks := List.pairwise_map

theorem shocks_fields (shocks : List (Symbol × Shock)) :
    (fields shocks).map (fun f => (f.1, Shock.ofDocument f.2)) = shocks := by
  rw [fields, List.map_map]
  refine List.map_id'' (fun e => ?_) shocks
  obtain ⟨k, d, hd⟩ := e
  simp [Shock.ofDocument, hd]

/-- Settled values are those of the shocks that they stand for. -/
theorem fields_shocks {entries : List (String × Document)} (h : ∀ e ∈ entries, e.2.settled = e.2) :
    fields (entries.map fun f => (f.1, Shock.ofDocument f.2)) = entries := by
  rw [fields, List.map_map]
  refine (List.map_congr_left fun e he => ?_).trans (List.map_id entries)
  exact Prod.ext rfl (h e he)

theorem lawful_codec : codec.Lawful 2 := by
  refine lawful_of_fields
    (fun s => [.text s.name, .record (fields s.shocks.entries)]) rfl
    (fun s => rfl) (by decide) (fun n hn f hf => ?_) (fun s n => ?_) (fun s => ?_)
    fun n ds s hds hs => ?_
  · obtain ⟨k, rfl⟩ : ∃ k, n = k + 1 := ⟨n - 1, by omega⟩
    obtain rfl | hf := List.mem_cons.mp hf
    · exact ⟨.text, nofun⟩
    · obtain rfl := List.mem_singleton.mp hf
      refine ⟨.map .any, ?_⟩
      rintro d ⟨⟩
      exact .map List.Pairwise.nil nofun
  · refine .cons (fun _ => .text s.name) (.cons (fun hn => ?_) .nil)
    rw [Document.nesting] at hn
    obtain ⟨k, rfl⟩ : ∃ k, n = k + 1 := ⟨n - 1, by omega⟩
    have hwithin := Document.nestingOfFields_le_iff.mp (Nat.le_of_succ_le_succ hn)
    refine .map (ascending_fields.mpr s.shocks.ascending) fun e he => ?_
    have hsettled : e.2.settled = e.2 := by
      obtain ⟨p, -, rfl⟩ := List.mem_map.mp he
      exact p.2.settled
    exact .any hsettled (hwithin e he)
  · have hdecode : codec.decode? (codec.encode s) = some ⟨s.name,
        .ofList ((fields s.shocks.entries).map fun f => (f.1, .ofDocument f.2))⟩ := rfl
    have hshocks : SymbolMap.ofList s.shocks.entries = s.shocks :=
      SymbolMap.ext (settleEntries_of_ascending s.shocks.ascending)
    rw [hdecode, shocks_fields, hshocks]
  · simp only [List.forall₂_cons_left_iff, List.forall₂_nil_left_iff] at hds
    obtain ⟨_, _, hname, ⟨_, _, hshocks, rfl, rfl⟩, rfl⟩ := hds
    cases hname with
    | text name =>
        cases hshocks with
        | @map k _ entries hascending hmembers =>
            have hsettled : ∀ e ∈ entries, e.2.settled = e.2 := by
              intro e he
              cases hmembers e he with
              | any hsettled _ => exact hsettled
            have hentries := fields_shocks hsettled
            obtain rfl : ⟨name, .ofList (entries.map fun f => (f.1, .ofDocument f.2))⟩ = s :=
              Option.some.inj hs
            have hshocks : (SymbolMap.ofList
                (entries.map fun f => (f.1, Shock.ofDocument f.2))).entries =
                  entries.map fun f => (f.1, Shock.ofDocument f.2) :=
              settleEntries_of_ascending (ascending_fields.mp (hentries.symm ▸ hascending))
            rw [hshocks, hentries]

theorem nesting_encode_le {s : Scenario} {n : Nat}
    (h : ∀ e ∈ s.shocks.entries, e.2.value.nesting ≤ n) : (codec.encode s).nesting ≤ n + 2 := by
  refine nesting_record_le ?_
  simp only [List.forall_mem_cons, List.not_mem_nil, false_imp_iff, implies_true, and_true]
  refine ⟨Nat.zero_le _, nesting_record_le fun f hf => ?_⟩
  obtain ⟨e, he, rfl⟩ := List.mem_map.mp hf
  exact h e he

end Scenario

/-! ### Rules -/

theorem SectionRules.decode?_record (r a e : Document) :
    codec.decode? (.record [("required", r), ("allowed", a), ("required_nonempty", e)]) = do
      return ⟨← r.texts?, ← a.texts?, ← e.texts?⟩ := rfl

theorem SectionRules.lawful_codec : SectionRules.codec.Lawful 2 := by
  refine lawful_of_fields
    (fun r => [.texts r.required, .texts r.allowed, .texts r.requiredNonempty]) rfl
    (fun r => rfl) (by decide) (fun n hn f hf => ?_) (fun r n => ?_) (fun r => ?_)
    fun n ds r hds hr => ?_
  · simp only [List.mem_cons, List.not_mem_nil, or_false] at hf
    obtain rfl | rfl | rfl := hf
    all_goals exact ⟨sound_texts hn, fun d hd => Option.some.inj hd ▸ conforms_nil hn⟩
  · exact .cons (conforms_texts r.required)
      (.cons (conforms_texts r.allowed) (.cons (conforms_texts r.requiredNonempty) .nil))
  · refine (SectionRules.decode?_record _ _ _).trans ?_
    simp only [texts?_texts]
    rfl
  · simp only [List.forall₂_cons_left_iff, List.forall₂_nil_left_iff] at hds
    obtain ⟨d₁, _, h₁, ⟨d₂, _, h₂, ⟨d₃, _, h₃, rfl, rfl⟩, rfl⟩, rfl⟩ := hds
    replace hr := (SectionRules.decode?_record d₁ d₂ d₃).symm.trans hr
    simp only [Option.bind_eq_bind, Option.bind_eq_some_iff] at hr
    obtain ⟨rs, hrs, as, has, es, hes, ⟨⟩⟩ := hr
    rw [eq_texts h₁ hrs, eq_texts h₂ has, eq_texts h₃ hes]

theorem SectionRules.nesting_encode_le (r : SectionRules) : (codec.encode r).nesting ≤ 2 := by
  refine nesting_record_le ?_
  simp only [List.forall_mem_cons, List.not_mem_nil, false_imp_iff, implies_true, and_true]
  exact ⟨nesting_texts_le _, nesting_texts_le _, nesting_texts_le _⟩

/-! ### Run inputs -/

namespace RunInputs

/-- The documents of the parts of run inputs. -/
def values (r : RunInputs) : List Document :=
  [.text r.name, Sets.codec.encode r.sets, Mappings.codec.encode r.mappings,
    Closure.codec.encode r.closure, Scenario.codec.encode r.scenario,
    SectionRules.codec.encode r.rules]

theorem decode?_record (name sets mappings closure scenario rules : Document) :
    codec.decode? (.record [("name", name), ("sets", sets), ("mappings", mappings),
      ("closure", closure), ("scenario", scenario), ("rules", rules)]) = do
        return ⟨← name.text?, ← Sets.codec.decode? sets, ← Mappings.codec.decode? mappings,
          ← Closure.codec.decode? closure, ← Scenario.codec.decode? scenario,
          ← SectionRules.codec.decode? rules⟩ := rfl

/-- The codec of run inputs is lawful. -/
theorem lawful_codec : codec.Lawful 3 := by
  refine lawful_of_fields values rfl (fun r => rfl) (by decide) (fun n hn f hf => ?_)
    (fun r n => ?_) (fun r => ?_) fun n ds r hds hr => ?_
  · have hmappings := Mappings.lawful_codec.conforms ∅ n (Nat.le_trans (by decide) hn)
    have hscenario := Scenario.lawful_codec.conforms .baseline n (Nat.le_trans (by decide) hn)
    have hrules := SectionRules.lawful_codec.conforms ∅ n (Nat.le_trans (by decide) hn)
    simp only [List.mem_cons, List.not_mem_nil, or_false] at hf
    obtain rfl | rfl | rfl | rfl | rfl | rfl := hf
    · exact ⟨.text, fun d hd => by cases hd⟩
    · exact ⟨Sets.lawful_codec.sound n hn, fun d hd => by cases hd⟩
    · exact ⟨Mappings.lawful_codec.sound n hn, fun d hd => Option.some.inj hd ▸ hmappings⟩
    · exact ⟨Closure.lawful_codec.sound n (by omega), fun d hd => by cases hd⟩
    · exact ⟨Scenario.lawful_codec.sound n hn, fun d hd => Option.some.inj hd ▸ hscenario⟩
    · exact ⟨SectionRules.lawful_codec.sound n hn, fun d hd => Option.some.inj hd ▸ hrules⟩
  · exact .cons (fun _ => .text r.name) (.cons (Sets.lawful_codec.conforms r.sets n)
      (.cons (Mappings.lawful_codec.conforms r.mappings n)
        (.cons (Closure.lawful_codec.conforms r.closure n)
          (.cons (Scenario.lawful_codec.conforms r.scenario n)
            (.cons (SectionRules.lawful_codec.conforms r.rules n) .nil)))))
  · refine (decode?_record _ _ _ _ _ _).trans ?_
    simp only [Sets.lawful_codec.decode_encode, Mappings.lawful_codec.decode_encode,
      Closure.lawful_codec.decode_encode, Scenario.lawful_codec.decode_encode,
      SectionRules.lawful_codec.decode_encode]
    rfl
  · simp only [List.forall₂_cons_left_iff, List.forall₂_nil_left_iff] at hds
    obtain ⟨d₁, _, h₁, ⟨d₂, _, h₂, ⟨d₃, _, h₃, ⟨d₄, _, h₄, ⟨d₅, _, h₅, ⟨d₆, _, h₆, rfl, rfl⟩, rfl⟩,
      rfl⟩, rfl⟩, rfl⟩, rfl⟩ := hds
    replace hr := (decode?_record d₁ d₂ d₃ d₄ d₅ d₆).symm.trans hr
    simp only [Option.bind_eq_bind, Option.bind_eq_some_iff] at hr
    obtain ⟨name, hname, sets, hsets, mappings, hmappings, closure, hclosure, scenario, hscenario,
      rules, hrules, ⟨⟩⟩ := hr
    rw [values, eq_text h₁ hname, Sets.lawful_codec.encode_of_decode n d₂ sets h₂ hsets,
      Mappings.lawful_codec.encode_of_decode n d₃ mappings h₃ hmappings,
      Closure.lawful_codec.encode_of_decode n d₄ closure h₄ hclosure,
      Scenario.lawful_codec.encode_of_decode n d₅ scenario h₅ hscenario,
      SectionRules.lawful_codec.encode_of_decode n d₆ rules h₆ hrules]

/-- Shocks stand three levels down, and nothing else nests deeper than the core sets. -/
theorem nesting_encode_le {r : RunInputs} {n : Nat}
    (h : ∀ e ∈ r.scenario.shocks.entries, e.2.value.nesting ≤ n) :
    (codec.encode r).nesting ≤ n + 3 := by
  have htwo : 2 ≤ n + 2 := Nat.le_add_left 2 n
  refine nesting_record_le ?_
  simp only [List.forall_mem_cons, List.not_mem_nil, false_imp_iff, implies_true, and_true]
  exact ⟨Nat.zero_le _, r.sets.nesting_encode_le.trans htwo,
    r.mappings.nesting_encode_le.trans htwo, r.closure.nesting_encode_le.trans (by omega),
    Scenario.nesting_encode_le h, r.rules.nesting_encode_le.trans htwo⟩

end RunInputs

end Equilibrium
