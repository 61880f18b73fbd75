import Equilibrium.Sets

/-!
# Mappings

Which commodity each activity produces. The mapping may leave activities out and may name
activities and commodities that the sets do not have; both gaps can be listed.
-/

namespace Equilibrium

/-- The output commodity of activities. -/
structure Mappings where
  activityOutput : SymbolMap Symbol
deriving Inhabited

namespace Mappings

instance : EmptyCollection Mappings := ⟨⟨∅⟩⟩

/-- The mapping of a list of pairs of an activity and its output; of two pairs for one activity
the later one counts. -/
def ofPairs (pairs : List (Symbol × Symbol)) : Mappings := ⟨.ofList pairs⟩

/-- The output of an activity. -/
def outputOf? (m : Mappings) (activity : Symbol) : Option Symbol := m.activityOutput.get? activity

/-- The listed activities without an output, in the order of the list and with its repeats. -/
def unmappedActivities (m : Mappings) (s : Sets) : List Symbol :=
  s.activities.filter fun a => !m.activityOutput.contains a

/-- The pairs whose output is not a commodity, in ascending order of the activities. -/
def unknownOutputs (m : Mappings) (s : Sets) : List (Symbol × Symbol) :=
  m.activityOutput.entries.filter fun e => !s.contains .commodities e.2

/-- The document of the mappings. -/
def codec : Codec Mappings where
  shape := .record "Mappings" [Shape.optional "activity_output" (.map .text) (.record [])]
  encode m :=
    .record
      [("activity_output", .record (m.activityOutput.entries.map fun e => (e.1, .text e.2)))]
  decode? d := do
    let outputs ← d.field? "activity_output"
    return ⟨← outputs.mapOf? Document.text?⟩

end Mappings

end Equilibrium
