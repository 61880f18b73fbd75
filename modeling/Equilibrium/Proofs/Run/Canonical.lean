import Mathlib.Data.List.Perm.Subperm
import Equilibrium.Proofs.Run.Assembly

/-!
# Canonical sections

The canonical rules admit a name exactly if it can be read as a canonical section
(`CanonicalSection.mem_symbols_iff`), and two names that are read as the same one are the same. So a
list of sections passes these rules if and only if its names are read as different canonical sections
(`checkSections_canonical`), of which there are twelve.
-/

namespace Equilibrium

/-! ### Names of canonical sections -/

namespace CanonicalSection

variable {c : CanonicalSection} {n : String}

theorem mem_all (c : CanonicalSection) : c ∈ all := by cases c <;> decide

theorem ofName?_name (c : CanonicalSection) : ofName? c.name = some c := by cases c <;> decide

theorem ofName?_eq_some_iff : ofName? n = some c ↔ n = c.name := by
  constructor
  · intro h
    unfold ofName? at h
    have hname := List.find?_some h
    exact (beq_iff_eq.mp hname).symm
  · rintro rfl
    exact ofName?_name c

/-- A name is read as the one canonical section that has it. -/
theorem parse_eq_ok_iff : parse n = .ok c ↔ n = c.name := by
  rw [← ofName?_eq_some_iff, parse]
  cases ofName? n <;> simp

/-- A name that no canonical section has is refused. -/
theorem parse_eq_error_iff : parse n = .error (.section n) ↔ ∀ c : CanonicalSection, n ≠ c.name := by
  simp only [ne_eq, ← ofName?_eq_some_iff, parse]
  cases ofName? n <;> simp

theorem mem_symbols_iff : n ∈ symbols ↔ ∃ c, parse n = .ok c := by
  simp only [parse_eq_ok_iff, symbols, List.mem_map, mem_all, true_and, eq_comm (a := n)]

theorem not_mem_symbols_iff : n ∉ symbols ↔ parse n = .error (.section n) := by
  simp only [mem_symbols_iff, parse_eq_error_iff, parse_eq_ok_iff, not_exists, ne_eq]

theorem symbols_ne_nil : symbols ≠ [] := List.cons_ne_nil _ _

end CanonicalSection

open CanonicalSection

/-! ### The canonical rules -/

variable {sections : List Section} {e : AssemblyError}

theorem checkSections_canonical_eq_ok_iff :
    checkSections sections .canonical = .ok () ↔
      (sectionNames sections).Nodup ∧ ∀ s ∈ sections, s.name ∈ symbols := by
  have hallowed : SectionRules.canonical.allowed ≠ [] := symbols_ne_nil
  rw [Parts.checkSections_eq_ok_iff]
  simp only [hallowed, false_or]
  constructor
  · rintro ⟨hdistinct, hadmitted, -, -⟩
    exact ⟨hdistinct, hadmitted⟩
  · rintro ⟨hdistinct, hadmitted⟩
    exact ⟨hdistinct, hadmitted, nofun, nofun⟩

/-- The error is about the first repeated name, or else about the first section whose name is not
canonical. -/
theorem checkSections_canonical_eq_error_iff :
    checkSections sections .canonical = .error e ↔
      (∃ n, IsFirstRepeat (sectionNames sections) n ∧ e = .duplicateSection n) ∨
        (sectionNames sections).Nodup ∧
          ∃ s, IsFirst (fun s => s.name ∉ symbols) sections s ∧ e = .unknownSection s.name := by
  have hallowed : SectionRules.canonical.allowed ≠ [] := symbols_ne_nil
  have hrequired : checkRequired sections SectionRules.canonical.required = .ok () := rfl
  have hfilled : checkRequiredNonempty sections SectionRules.canonical.requiredNonempty = .ok () := rfl
  rw [Parts.checkSections_eq_error_iff, checkUnique_eq_error_iff, checkUnique_eq_ok_iff,
    checkAllowed_eq_error_iff, hrequired, hfilled]
  simp only [hallowed, ne_eq, not_false_eq_true, true_and, reduceCtorEq, and_false, or_false,
    sectionNames, isFirst_map]
  refine or_congr_right (and_congr_right fun _ => ?_)
  constructor
  · rintro ⟨-, ⟨s, hs, rfl⟩, rfl⟩
    exact ⟨s, hs, rfl⟩
  · rintro ⟨s, hs, rfl⟩
    exact ⟨s.name, ⟨s, hs, rfl⟩, rfl⟩

/-- Canonical names differ if and only if they are read as different canonical sections. -/
theorem nodup_sectionNames_iff (h : ∀ s ∈ sections, s.name ∈ symbols) :
    (sectionNames sections).Nodup ↔
      sections.Pairwise fun s t => ∀ c, parse s.name = .ok c → parse t.name ≠ .ok c := by
  rw [sectionNames, List.Nodup, List.pairwise_map]
  apply List.Pairwise.iff_of_mem
  intro s t hs _
  obtain ⟨c, hc⟩ := mem_symbols_iff.mp (h s hs)
  constructor
  · intro hne d hs ht
    exact hne ((parse_eq_ok_iff.mp hs).trans (parse_eq_ok_iff.mp ht).symm)
  · intro hdiffer heq
    exact hdiffer c hc (heq ▸ hc)

/-- Distinct canonical names are no more than there are canonical sections. -/
theorem length_le_of_mem_symbols (hdistinct : (sectionNames sections).Nodup)
    (h : ∀ s ∈ sections, s.name ∈ symbols) : sections.length ≤ all.length := by
  have hsubset : sectionNames sections ⊆ symbols := by
    intro n hn
    obtain ⟨s, hs, rfl⟩ := mem_sectionNames.mp hn
    exact h s hs
  have hlength := (List.subperm_of_subset hdistinct hsubset).length_le
  rwa [sectionNames, symbols, List.length_map, List.length_map] at hlength

/-- **The canonical rules and the reader of section names have the same vocabulary.** A list of
sections passes the rules if and only if each of its names is read as a canonical section, and no two
as the same one, so it has at most twelve sections. It fails with the first repeated name, or else
with the first section whose name cannot be read. -/
theorem checkSections_canonical (sections : List Section) :
    (checkSections sections .canonical = .ok () ↔
      (∀ s ∈ sections, ∃ c, parse s.name = .ok c) ∧
        sections.Pairwise fun s t => ∀ c, parse s.name = .ok c → parse t.name ≠ .ok c) ∧
    (∀ e, checkSections sections .canonical = .error e ↔
      (∃ n, IsFirstRepeat (sectionNames sections) n ∧ e = .duplicateSection n) ∨
        (sectionNames sections).Nodup ∧
          ∃ s, IsFirst (fun s => parse s.name = .error (.section s.name)) sections s ∧
            e = .unknownSection s.name) ∧
    (checkSections sections .canonical = .ok () → sections.length ≤ 12) := by
  refine ⟨?_, fun e => ?_, fun h => ?_⟩
  · rw [checkSections_canonical_eq_ok_iff]
    simp only [← mem_symbols_iff]
    constructor
    · rintro ⟨hdistinct, hadmitted⟩
      exact ⟨hadmitted, (nodup_sectionNames_iff hadmitted).mp hdistinct⟩
    · rintro ⟨hadmitted, hdiffer⟩
      exact ⟨(nodup_sectionNames_iff hadmitted).mpr hdiffer, hadmitted⟩
  · rw [checkSections_canonical_eq_error_iff]
    simp only [not_mem_symbols_iff]
  · obtain ⟨hdistinct, hadmitted⟩ := checkSections_canonical_eq_ok_iff.mp h
    exact length_le_of_mem_symbols hdistinct hadmitted

/-- Sections without blocks under some names. -/
def bareSections (names : List Symbol) : List Section := names.map fun n => ⟨n, []⟩

/-- All twelve sections pass together, here from the last to the first. With others behind them it is
the first one of these that is reported. -/
theorem checkSections_canonical_twelve :
    checkSections (bareSections symbols.reverse) .canonical = .ok () ∧
    (bareSections symbols.reverse).length ≤ 12 ∧
    checkSections (bareSections (symbols ++ ["regions", "firms"])) .canonical =
      .error (.unknownSection "regions") := by
  have hpass : checkSections (bareSections symbols.reverse) .canonical = .ok () := rfl
  have hfirst : IsFirst (fun s : Section => parse s.name = .error (.section s.name))
      (bareSections (symbols ++ ["regions", "firms"])) ⟨"regions", []⟩ := by
    refine ⟨bareSections symbols, bareSections ["firms"], rfl, rfl, fun s hs => ?_⟩
    obtain ⟨n, hn, rfl⟩ := List.mem_map.mp hs
    exact fun h => not_mem_symbols_iff.mpr h hn
  refine ⟨hpass, (checkSections_canonical _).2.2 hpass, ((checkSections_canonical _).2.1 _).mpr ?_⟩
  exact .inr ⟨by decide, _, hfirst, rfl⟩

end Equilibrium
