import Equilibrium.Mappings
import Equilibrium.Proofs.Sets
import Equilibrium.Proofs.SymbolMap

/-!
# Outputs of activities

The output of an activity is the one in its last pair (`Mappings.outputOf?_ofPairs`). The gaps of a
mapping are told by the outputs alone: activities without one, and outputs that are no commodities
(`Mappings.outputs_and_gaps`). -/

namespace Equilibrium.Mappings

variable {m : Mappings} {s : Sets} {pairs more : List (Symbol × Symbol)} {a c : Symbol}

/-! ### Pairs -/

theorem outputOf?_ofPairs (pairs : List (Symbol × Symbol)) (a : Symbol) :
    (ofPairs pairs).outputOf? a = lastValue pairs a := SymbolMap.get?_ofList pairs a

/-- Mappings with the same outputs are equal. -/
theorem ext_outputOf? {n : Mappings} (h : ∀ a, m.outputOf? a = n.outputOf? a) : m = n := by
  cases m
  cases n
  exact congrArg Mappings.mk (SymbolMap.ext_get? h)

/-- Pairs make the same mapping exactly if the last pairs of all activities agree. -/
theorem ofPairs_eq_iff : ofPairs pairs = ofPairs more ↔ ∀ a, lastValue pairs a = lastValue more a := by
  simp only [← outputOf?_ofPairs]
  constructor
  · intro h a
    rw [h]
  · exact ext_outputOf?

/-! ### Gaps -/

theorem unmappedActivities_eq (m : Mappings) (s : Sets) :
    m.unmappedActivities s = s.activities.filter fun a => m.outputOf? a = none := by
  have hunmapped (a : Symbol) :
      (!m.activityOutput.contains a) = decide (m.outputOf? a = none) := by
    rw [SymbolMap.contains, outputOf?, Option.not_isSome, Bool.eq_iff_iff,
      Option.isNone_iff_eq_none, decide_eq_true_iff]
  rw [unmappedActivities]
  simp only [hunmapped]

theorem unmappedActivities_eq_nil_iff :
    m.unmappedActivities s = [] ↔ ∀ a ∈ s.activities, ∃ c, m.outputOf? a = some c := by
  rw [unmappedActivities_eq, List.filter_eq_nil_iff]
  simp only [decide_eq_true_eq, ← ne_eq, Option.ne_none_iff_exists']

/-- Outputs that are no commodities are listed in ascending order of their activities. -/
theorem pairwise_unknownOutputs (m : Mappings) (s : Sets) :
    (m.unknownOutputs s).Pairwise fun e f => e.1 < f.1 :=
  m.activityOutput.ascending.filter _

theorem mem_unknownOutputs_iff :
    (a, c) ∈ m.unknownOutputs s ↔ m.outputOf? a = some c ∧ c ∉ s.commodities := by
  rw [unknownOutputs, List.mem_filter, outputOf?, SymbolMap.get?_eq_some_iff, Bool.not_eq_true',
    ← Bool.not_eq_true, Sets.contains_eq_true_iff]
  rfl

theorem unknownOutputs_eq_nil_iff :
    m.unknownOutputs s = [] ↔ ∀ a c, m.outputOf? a = some c → c ∈ s.commodities := by
  simp only [List.eq_nil_iff_forall_not_mem, Prod.forall, mem_unknownOutputs_iff, not_and,
    Classical.not_not]

/-- **Outputs are given by last pairs, and gaps by outputs.** An activity has the output of its last
pair, or none without a pair, and that is all there is to the mapping of some pairs. The listed
activities without an output are reported as they are listed, the outputs that are no commodities in
ascending order of all their activities, listed or not; nothing is reported exactly if every listed
activity has an output and every output is a commodity. -/
theorem outputs_and_gaps (pairs : List (Symbol × Symbol)) :
    (∀ a, (ofPairs pairs).outputOf? a = lastValue pairs a) ∧
    (∀ a, (ofPairs pairs).outputOf? a = none ↔ ∀ p ∈ pairs, p.1 ≠ a) ∧
    (∀ more, ofPairs pairs = ofPairs more ↔ ∀ a, lastValue pairs a = lastValue more a) ∧
    ∀ (m : Mappings) (s : Sets),
      m.unmappedActivities s = (s.activities.filter fun a => m.outputOf? a = none) ∧
      ((m.unknownOutputs s).Pairwise fun e f => e.1 < f.1) ∧
      (∀ a c, (a, c) ∈ m.unknownOutputs s ↔ m.outputOf? a = some c ∧ c ∉ s.commodities) ∧
      (m.unmappedActivities s = [] ∧ m.unknownOutputs s = [] ↔
        (∀ a ∈ s.activities, ∃ c, m.outputOf? a = some c) ∧
          ∀ a c, m.outputOf? a = some c → c ∈ s.commodities) := by
  refine ⟨outputOf?_ofPairs pairs, fun a => ?_, fun more => ofPairs_eq_iff, fun m s =>
    ⟨m.unmappedActivities_eq s, m.pairwise_unknownOutputs s, fun a c => mem_unknownOutputs_iff, ?_⟩⟩
  · rw [outputOf?_ofPairs, lastValue_eq_none_iff]
  · rw [unmappedActivities_eq_nil_iff, unknownOutputs_eq_nil_iff]

/-- Of two pairs for one activity the later one counts, and an activity that is not listed is
reported for its output. -/
example :
    let m := ofPairs [("mining", "ore"), ("baking", "flour"), ("baking", "bread")]
    let s : Sets := ⟨["bread"], ["fishing", "baking", "fishing"], [], []⟩
    m.unmappedActivities s = ["fishing", "fishing"] ∧ m.unknownOutputs s = [("mining", "ore")] := by
  decide

end Equilibrium.Mappings
