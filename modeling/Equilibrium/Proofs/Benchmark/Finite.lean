import Equilibrium.Proofs.Benchmark
import Equilibrium.Proofs.Binary64.Machine
import Equilibrium.Proofs.Json.Shape
import Equilibrium.Yaml.Reading

/-!
# Flows that are not finite

No call puts an amount that is not finite into a matrix (`cell?_afterAll_of_not_isFinite`), and no
JSON text does, since it has no such numbers (`allFinite_of_json`). But a document may have them, as
that of a YAML text does, and reading one does not go through `FlowMatrix.put`: every flow is taken
as it stands (`cell?_of_decode?`), and one that is not finite stays until a call for its
cell is accepted (`allFinite_afterAll_iff`). -/

namespace Equilibrium.FlowMatrix

/-! ### Calls -/

section calls

variable {ρ : Type} [Quantity ρ] {m : FlowMatrix ρ}

/-- Every flow is finite. -/
def AllFinite (m : FlowMatrix ρ) : Prop :=
  ∀ r c v, m.cell? r c = some v → Quantity.isFinite v = true

theorem allFinite_empty : (∅ : FlowMatrix ρ).AllFinite := by
  rintro r c v ⟨⟩

theorem isFinite_of_lastAccepted {fs : List (Call ρ)} {r c : Symbol} {v : ρ}
    (h : lastAccepted fs r c = some v) : Quantity.isFinite v = true := by
  obtain ⟨f, hf, rfl⟩ := Option.map_eq_some_iff.mp h
  exact (of_decide_eq_true (List.mem_filter.mp (List.mem_of_getLast? hf)).2).1

/-- A cell that is not finite was so before the calls, and no call for it was accepted. -/
theorem cell?_afterAll_of_not_isFinite {fs : List (Call ρ)} {r c : Symbol} {v : ρ}
    (hv : Quantity.isFinite v = false) :
    (m.afterAll fs).cell? r c = some v ↔ m.cell? r c = some v ∧ lastAccepted fs r c = none := by
  rw [cell?_afterAll_from]
  cases h : lastAccepted fs r c with
  | none => simp
  | some w =>
      have hw := isFinite_of_lastAccepted h
      refine iff_of_false ?_ fun hnone => nomatch hnone.2
      rintro ⟨⟩
      exact Bool.false_ne_true (hv.symm.trans hw)

/-- All flows are finite if no cell holds an amount that is not. -/
theorem allFinite_iff :
    m.AllFinite ↔ ∀ r c v, Quantity.isFinite v = false → m.cell? r c ≠ some v := by
  refine forall₃_congr fun r c v => ?_
  rw [← Bool.not_eq_true]
  exact not_imp_not.symm

end calls

/-- All flows are finite if no cell is infinite or not a number. -/
theorem allFinite_iff_get {m : FlowMatrix Float} :
    m.AllFinite ↔ ∀ r c, (m.get r c).isFinite = true := by
  refine forall₂_congr fun r c => ?_
  have hget : m.get r c = (m.cell? r c).getD 0.0 := rfl
  rw [hget]
  cases m.cell? r c with
  | none => exact iff_of_true nofun rfl
  | some v => simp [Quantity.isFinite]

/-- All flows are finite behind some calls if and only if one was accepted for every flow that was
not finite before. -/
theorem allFinite_afterAll_iff_accepted {m : FlowMatrix Float} {fs : List (Call Float)} :
    (m.afterAll fs).AllFinite ↔ ∀ r c v, m.cell? r c = some v → v.isFinite = false →
      ∃ f ∈ fs, f.isAccepted = true ∧ f.row = r ∧ f.column = c := by
  rw [allFinite_iff]
  refine forall₃_congr fun r c v => ?_
  rw [← exists_lastAccepted_iff, ← Option.isSome_iff_exists, Option.isSome_iff_ne_none]
  constructor
  · exact fun h hv hfinite hnone =>
      h hfinite ((cell?_afterAll_of_not_isFinite hfinite).mpr ⟨hv, hnone⟩)
  · intro h hfinite hv
    obtain ⟨hv, hnone⟩ := (cell?_afterAll_of_not_isFinite hfinite).mp hv
    exact h hv hfinite hnone

/-- Calls leave finite flows finite. -/
theorem AllFinite.afterAll {m : FlowMatrix Float} (hm : m.AllFinite) (fs : List (Call Float)) :
    (m.afterAll fs).AllFinite := by
  refine allFinite_afterAll_iff_accepted.mpr fun r c v hv hfinite => ?_
  have htrue : v.isFinite = true := hm r c v hv
  exact absurd (hfinite.symm.trans htrue) Bool.false_ne_true

/-! ### Documents -/

/-- What stands in a document as the flow from a column to a row. -/
def flow? (d : Document) (r c : Symbol) : Option Document := do
  (← (← d.field? "flows").lastField? r).lastField? c

/-- A flow that is read from a document is the number that stands there. -/
theorem cell?_of_decode? {d : Document} {m : FlowMatrix Float} (h : codec.decode? d = some m)
    (r c : Symbol) : m.cell? r c = (flow? d r c).bind fun x => x.real?.map Binary64.toFloat := by
  simp only [codec, Option.bind_eq_bind, Option.bind_eq_some_iff] at h
  obtain ⟨document, hdocument, flows, hflows, heq⟩ := h
  cases heq
  rw [cell?, row, Document.get?_of_mapOf? hflows, flow?, hdocument, Option.bind_eq_bind,
    Option.bind_some]
  cases hr : document.lastField? r with
  | none => rfl
  | some row =>
      obtain ⟨cells, hcells⟩ := Document.exists_read_of_mapOf? hflows hr
      rw [Option.bind_some, hcells, Option.getD_some, Document.get?_of_mapOf? hcells]
      rfl

theorem sound_codec {n : Nat} : codec.shape.Sound (n + 3) := by
  refine .record (List.nodup_singleton _) ?_ ?_
  · rw [List.forall_mem_singleton]
    exact .map (.map .real)
  · rw [List.forall_mem_singleton]
    rintro d ⟨⟩
    exact .map .nil nofun

/-! ### Texts -/

/-- A JSON text gives finite flows only. -/
theorem allFinite_of_json {s : String} {m : FlowMatrix Float} (h : Json.decode codec s = .ok m) :
    m.AllFinite := by
  intro r c v hv
  obtain ⟨d, hconforms, hdecode⟩ := Json.exists_conforms_of_decode sound_codec h
  rw [cell?_of_decode? hdecode] at hv
  obtain ⟨x, hx, hv⟩ := Option.bind_eq_some_iff.mp hv
  obtain ⟨y, hy, rfl⟩ := Option.map_eq_some_iff.mp hv
  simp only [flow?, Option.bind_eq_bind, Option.bind_eq_some_iff] at hx
  obtain ⟨flows, hflows, row, hrow, hcell⟩ := hx
  obtain ⟨rows, rfl, hrowMem⟩ := Document.mem_of_lastField? hrow
  obtain ⟨cells, rfl, hcellMem⟩ := Document.mem_of_lastField? hcell
  obtain ⟨x, rfl, rfl⟩ := Document.exists_number_of_real? hy
  obtain ⟨n, fields, -, rfl, hfields⟩ := Shape.conforms_record_iff.mp hconforms
  cases hfields with
  | cons hrows hnil =>
      cases hnil
      cases hflows
      cases hrows with
      | map _ hmembers =>
          cases hmembers _ hrowMem with
          | map _ hmembers =>
              cases hmembers _ hcellMem with
              | real hfinite => exact (Binary64.isFinite_toFloat _).trans hfinite

/-- **When all flows are finite.** Behind any calls all flows are finite, so that no cell is infinite
or not a number, if and only if a call has been accepted for every flow that was not finite at the
start. Nothing is amiss from the empty matrix or from a JSON text. But a matrix that is read from a
document has its flows as the numbers that stand there, finite or not. -/
theorem allFinite_afterAll_iff (m : FlowMatrix Float) (fs : List (Call Float)) :
    ((m.afterAll fs).AllFinite ↔ ∀ r c, ((m.afterAll fs).get r c).isFinite = true) ∧
    ((m.afterAll fs).AllFinite ↔ ∀ r c v, m.cell? r c = some v → v.isFinite = false →
      ∃ f ∈ fs, f.isAccepted = true ∧ f.row = r ∧ f.column = c) ∧
    ((m = ∅ ∨ ∃ s, Json.decode codec s = .ok m) → (m.afterAll fs).AllFinite) ∧
    ∀ d, codec.decode? d = some m → ∀ r c,
      m.cell? r c = (flow? d r c).bind fun x => x.real?.map Binary64.toFloat := by
  refine ⟨allFinite_iff_get, allFinite_afterAll_iff_accepted, ?_, fun d => cell?_of_decode?⟩
  rintro (rfl | ⟨s, hs⟩)
  · exact allFinite_empty.afterAll fs
  · exact (allFinite_of_json hs).afterAll fs

/-- An infinite flow in a YAML text. -/
def infiniteFlow : String := "flows:\n  a:\n    b: .inf\n"

theorem decode?_infiniteFlow : ∃ m, Yaml.decode? codec infiniteFlow = some m ∧
    ∃ v, m.cell? "a" "b" = some v ∧ v.isFinite = false := by
  have h : ((Yaml.decode? codec infiniteFlow).bind (·.cell? "a" "b")).map Float.isFinite =
      some false := by decide +kernel
  obtain ⟨v, hv, hfinite⟩ := Option.map_eq_some_iff.mp h
  obtain ⟨m, hm, hv⟩ := Option.bind_eq_some_iff.mp hv
  exact ⟨m, hm, v, hv, hfinite⟩

/-- A YAML text may give a flow that no call could have set. -/
theorem not_allFinite_infiniteFlow :
    ∃ m, Yaml.decode? codec infiniteFlow = some m ∧ ¬ m.AllFinite ∧
      (m.get "a" "b").isFinite = false := by
  obtain ⟨m, hm, v, hv, hfinite⟩ := decode?_infiniteFlow
  have hget : m.get "a" "b" = v := congrArg (Option.getD · 0.0) hv
  refine ⟨m, hm, fun h => ?_, hget ▸ hfinite⟩
  exact Bool.false_ne_true (hfinite.symm.trans (h "a" "b" v hv))

/-- A finite flow in a JSON text. -/
def finiteFlow : String := "\x7b\"flows\":\x7b\"a\":\x7b\"b\":2.5\x7d\x7d\x7d"

/-- A call that is refused leaves flows from a JSON text finite, and leaves the infinite flow from the
YAML text. -/
theorem allFinite_afterAll_infiniteFlow :
    (∃ m, Json.decode codec finiteFlow = .ok m ∧ (m.afterAll [⟨"a", "b", 0.0 / 0.0⟩]).AllFinite) ∧
    ∃ m, Yaml.decode? codec infiniteFlow = some m ∧
      ¬ (m.afterAll [⟨"a", "b", 0.0 / 0.0⟩]).AllFinite := by
  constructor
  · have h : (Json.decode codec finiteFlow).toOption.isSome = true := by decide +kernel
    obtain ⟨m, hm⟩ := Option.isSome_iff_exists.mp h
    have hm := toOption_eq_some_iff.mp hm
    exact ⟨m, hm, (allFinite_afterAll_iff m _).2.2.1 (.inr ⟨finiteFlow, hm⟩)⟩
  · obtain ⟨m, hm, v, hv, hfinite⟩ := decode?_infiniteFlow
    refine ⟨m, hm, fun h => ?_⟩
    obtain ⟨f, hf, haccepted, -⟩ := (allFinite_afterAll_iff m _).2.1.mp h "a" "b" v hv hfinite
    obtain rfl := List.mem_singleton.mp hf
    exact Bool.false_ne_true haccepted

end Equilibrium.FlowMatrix
