import Equilibrium.Proofs.Diagnostics
import Equilibrium.Proofs.Mappings

/-!
# The report of a diagnosis

A diagnosis collects its findings one by one. Its report is the one that lists, for each category and
severity, the messages about all that is wrong there, in order (`Gaps.report`,
`diagnose_eq_reference`). -/

namespace Equilibrium

/-! ### Messages -/

/-- The message about a member that a core set lists more than once. -/
def repeatMessage (k : SetKind) (n : Symbol) : String :=
  named n ++ " appears more than once in " ++ k.name

/-- The message about an activity without an output. -/
def unmappedMessage (a : Symbol) : String :=
  "activity " ++ named a ++ " has no output commodity mapping"

/-- The message about an activity whose output is no commodity. -/
def unknownMessage (e : Symbol × Symbol) : String :=
  "activity " ++ named e.1 ++ " maps to " ++ named e.2 ++ ", which is not a commodity"

/-- The message about a numéraire that belongs to a core set. -/
def foundMessage (n : Symbol) (k : SetKind) : String :=
  "numeraire " ++ named n ++ " found in " ++ k.name

/-- The message about a numéraire that is neither a commodity nor a factor. -/
def strayMessage (n : Symbol) : String :=
  "numeraire " ++ named n ++ " is not in commodities or factors"

/-- The message about accounts that were not checked. -/
def skippedMessage : String := "no benchmark data supplied; accounting checks skipped"

/-- The message about the number of accounts that were checked. -/
def checkedMessage (count : Nat) : String :=
  "checked row/column balance for " ++ toString count ++ " accounts"

/-! ### The reference -/

/-- The lists of what a model repeats and of what it maps to no commodity. -/
structure Gaps (m : Model) where
  /-- The members that a core set lists more than once, in the order of their second places. -/
  repeats : SetKind → List Symbol
  nodup_repeats : ∀ k, (repeats k).Nodup
  mem_repeats_iff : ∀ k n, n ∈ repeats k ↔ 2 ≤ (m.sets.members k).count n
  ordered_repeats : ∀ k, (repeats k).Pairwise fun a b =>
    ∃ i j, IsSecond (m.sets.members k) a i ∧ IsSecond (m.sets.members k) b j ∧ i < j
  /-- The pairs of an activity and its output that is no commodity. -/
  unknown : List (Symbol × Symbol)
  ascending_unknown : unknown.Pairwise fun e f => e.1 < f.1
  mem_unknown_iff :
    ∀ a n, (a, n) ∈ unknown ↔ m.mappings.outputOf? a = some n ∧ n ∉ m.sets.commodities

/-- An account receives and spends finite amounts, and about as much. -/
def Benchmark.Balances (b : Benchmark Float) (account : Symbol) : Prop :=
  (b.rowTotal account).isFinite = true ∧ (b.columnTotal account).isFinite = true ∧
    nearlyEqual .standard (b.rowTotal account) (b.columnTotal account) = true

instance (b : Benchmark Float) (account : Symbol) : Decidable (b.Balances account) :=
  inferInstanceAs (Decidable (_ ∧ _ ∧ _))

/-- The messages about the structure of a model with these gaps. -/
def Gaps.structural {m : Model} (g : Gaps m) : CategoryReport where
  errors := (SetKind.all.filter fun k => m.sets.members k = []).map emptySetMessage ++
    if m.blocks.isEmpty then [noBlocksMessage] else []
  warnings := (SetKind.all.flatMap fun k => (g.repeats k).map (repeatMessage k)) ++
    (m.sets.activities.filter fun a => m.mappings.outputOf? a = none).map unmappedMessage ++
    g.unknown.map unknownMessage
  notes := []

/-- The message about the numéraire. -/
def closureReport (s : Sets) (c : Closure) : CategoryReport :=
  if c.numeraire ∈ s.commodities then ⟨[], [], [foundMessage c.numeraire .commodities]⟩
  else if c.numeraire ∈ s.factors then ⟨[], [], [foundMessage c.numeraire .factors]⟩
  else ⟨[], [strayMessage c.numeraire], []⟩

/-- The messages about the accounts. -/
def accountingReport : Option (Benchmark Float) → CategoryReport
  | none => ⟨[], [], [skippedMessage]⟩
  | some b =>
    ⟨(b.accounts.filter fun a => ¬ b.Balances a).map (unbalanced b), [],
      [checkedMessage b.accounts.length]⟩

/-- The report on a model with these gaps, with a closure and perhaps a benchmark. -/
def Gaps.report {m : Model} (g : Gaps m) (c : Closure) (b : Option (Benchmark Float)) : Report :=
  ⟨g.structural, closureReport m.sets c, accountingReport b⟩

variable (m : Model) (c : Closure) (b : Option (Benchmark Float))

/-- The gaps that a diagnosis finds. -/
def Gaps.found : Gaps m where
  repeats := m.sets.duplicates
  nodup_repeats k := nodup_repeated (m.sets.members k)
  mem_repeats_iff _ _ := mem_repeated_iff
  ordered_repeats k := pairwise_repeated (m.sets.members k)
  unknown := m.mappings.unknownOutputs m.sets
  ascending_unknown := m.mappings.pairwise_unknownOutputs m.sets
  mem_unknown_iff _ _ := Mappings.mem_unknownOutputs_iff

/-! ### What is collected -/

theorem CategoryReport.ext_messages {r t : CategoryReport} (h : ∀ s, r.messages s = t.messages s) :
    r = t := by
  cases r
  cases t
  rw [CategoryReport.mk.injEq]
  exact ⟨h .error, h .warning, h .note⟩

theorem Report.ext_category {r t : Report} (h : ∀ d, r.category d = t.category d) : r = t := by
  cases r
  cases t
  rw [Report.mk.injEq]
  exact ⟨h .structural, h .closure, h .accounting⟩

theorem structuralErrors_eq_errors (g : Gaps m) : structuralErrors m = g.structural.errors := by
  have hempty (k : SetKind) : (m.sets.members k).isEmpty = decide (m.sets.members k = []) := by
    rw [Bool.eq_iff_iff, List.isEmpty_iff, decide_eq_true_iff]
  rw [structuralErrors_eq, Sets.emptyKinds]
  simp only [hempty]
  rfl

theorem structuralWarnings_eq_warnings :
    structuralWarnings m = (Gaps.found m).structural.warnings := by
  rw [structuralWarnings, Mappings.unmappedActivities_eq]
  rfl

theorem closureFinding_eq :
    closureFinding m c =
      if c.numeraire ∈ m.sets.commodities then
        ⟨.closure, .note, foundMessage c.numeraire .commodities⟩
      else if c.numeraire ∈ m.sets.factors then
        ⟨.closure, .note, foundMessage c.numeraire .factors⟩
      else ⟨.closure, .warning, strayMessage c.numeraire⟩ := by
  have hcommodities : m.sets.contains .commodities c.numeraire = true ↔
      c.numeraire ∈ m.sets.commodities := Sets.contains_eq_true_iff
  have hfactors : m.sets.contains .factors c.numeraire = true ↔ c.numeraire ∈ m.sets.factors :=
    Sets.contains_eq_true_iff
  unfold closureFinding Closure.numeraireKind?
  simp only [← hcommodities, ← hfactors, List.find?_cons, List.find?_nil]
  cases m.sets.contains .commodities c.numeraire with
  | true => rfl
  | false => cases m.sets.contains .factors c.numeraire <;> rfl

theorem isBalanced_eq (t : Benchmark Float) (a : Symbol) : isBalanced t a = decide (t.Balances a) := by
  rw [Bool.eq_iff_iff, decide_eq_true_iff]
  simp [isBalanced, Benchmark.Balances, and_assoc]

theorem accountingFindings_some (t : Benchmark Float) :
    accountingFindings (some t) =
      (accountingReport (some t)).errors.map (Finding.mk .accounting .error) ++
        (accountingReport (some t)).notes.map (Finding.mk .accounting .note) := by
  have hbalances (a : Symbol) : (!isBalanced t a) = decide ¬ t.Balances a := by
    rw [decide_not, isBalanced_eq]
  rw [accountingFindings]
  simp only [hbalances, accountingReport, List.map_map]
  rfl

/-- The messages of the findings of a category and severity. -/
def messagesOf (fs : List Finding) (d : Category) (s : Severity) : List String :=
  (fs.filter fun f => f.category = d ∧ f.severity = s).map (·.message)

variable (d : Category) (s : Severity)

theorem messagesOf_append (fs gs : List Finding) :
    messagesOf (fs ++ gs) d s = messagesOf fs d s ++ messagesOf gs d s := by
  rw [messagesOf, List.filter_append, List.map_append]
  rfl

theorem messagesOf_closureFinding :
    messagesOf [closureFinding m c] d s =
      if d = .closure then (closureReport m.sets c).messages s else [] := by
  rw [closureFinding_eq, closureReport]
  split
  · cases d <;> cases s <;> rfl
  · split
    · cases d <;> cases s <;> rfl
    · cases d <;> cases s <;> rfl

theorem messagesOf_accountingFindings :
    messagesOf (accountingFindings b) d s =
      if d = .accounting then (accountingReport b).messages s else [] := by
  cases b with
  | none => cases d <;> cases s <;> rfl
  | some t =>
      rw [accountingFindings_some, messagesOf_append, messagesOf, messagesOf, messages_map_mk,
        messages_map_mk]
      cases d <;> cases s <;> simp [CategoryReport.messages, accountingReport]

/-- Each message stands in its place. -/
theorem diagnose_eq_report : diagnose m c b = (Gaps.found m).report c b := by
  apply Report.ext_category
  intro d
  apply CategoryReport.ext_messages
  intro s
  have hmessages : ((diagnose m c b).category d).messages s = messagesOf (findings m c b) d s :=
    Report.messages_ofFindings (findings m c b) d s
  have hfindings : findings m c b = (structuralErrors m).map (Finding.mk .structural .error) ++
      (structuralWarnings m).map (Finding.mk .structural .warning) ++ [closureFinding m c] ++
        accountingFindings b := by
    rw [findings, List.append_assoc _ [_], List.singleton_append]
  rw [hmessages, hfindings, messagesOf_append, messagesOf_append, messagesOf_append,
    messagesOf_closureFinding, messagesOf_accountingFindings, messagesOf, messagesOf,
    messages_map_mk, messages_map_mk, structuralErrors_eq_errors m (Gaps.found m),
    structuralWarnings_eq_warnings]
  cases d <;> cases s <;> simp [CategoryReport.messages, Report.category, Gaps.report, Gaps.structural]

/-- A report without an error is about a model with members in every core set and with a block, and
about accounts that balance. -/
theorem isOk_report_iff (g : Gaps m) :
    (g.report c b).isOk = true ↔ (∀ k, m.sets.members k ≠ []) ∧ m.blocks ≠ [] ∧
      ∀ t, b = some t → ∀ a ∈ t.accounts, t.Balances a := by
  have hstructural : g.structural.errors = [] ↔
      (∀ k, m.sets.members k ≠ []) ∧ m.blocks ≠ [] := by
    rw [← structuralErrors_eq_errors, structuralErrors_eq, List.append_eq_nil_iff,
      List.map_eq_nil_iff, Sets.emptyKinds_eq_nil_iff]
    cases m.blocks <;> simp
  have hclosure : (closureReport m.sets c).errors = [] := by
    unfold closureReport
    split
    · rfl
    · split <;> rfl
  have haccounting : (accountingReport b).errors = [] ↔
      ∀ t, b = some t → ∀ a ∈ t.accounts, t.Balances a := by
    cases b with
    | none => exact iff_of_true rfl nofun
    | some t => simp [accountingReport]
  rw [Report.isOk_iff, ← and_assoc, ← hstructural, ← haccounting]
  constructor
  · intro h
    exact ⟨h .structural, h .accounting⟩
  · rintro ⟨herrors, hunbalanced⟩ d
    cases d with
    | structural => exact herrors
    | closure => exact hclosure
    | accounting => exact hunbalanced

/-- **A diagnosis reports all that is wrong with a model, and nothing else.** It gives the report
that lists the empty core sets and the lack of blocks as errors; then as warnings the repeated members
of each core set, each once, the activities without an output, and the outputs that are no commodities;
what the numéraire is; and every account that does not balance. The report is in order exactly if every
core set has a member, there is a block, and all accounts of the benchmark, if there is one, balance. -/
theorem diagnose_eq_reference :
    (∃ g : Gaps m, diagnose m c b = g.report c b) ∧
      ((diagnose m c b).isOk = true ↔ (∀ k, m.sets.members k ≠ []) ∧ m.blocks ≠ [] ∧
        ∀ t, b = some t → ∀ a ∈ t.accounts, t.Balances a) := by
  have hreport := diagnose_eq_report m c b
  refine ⟨⟨Gaps.found m, hreport⟩, ?_⟩
  rw [hreport]
  exact isOk_report_iff m c b (Gaps.found m)

end Equilibrium
