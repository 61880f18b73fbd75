/-!
# Symbols

The names of set members, variables, parameters, equations, sections and runs. A symbol is its
text: two symbols are the same exactly when their texts are, character by character, and they are
ordered by code point, which is also the order of their encoded bytes. Nothing is trimmed, folded
or normalised.
-/

namespace Equilibrium

/-- A name in a model. -/
abbrev Symbol := String

/-- The form of a symbol in traces: its text behind a colon. -/
def Symbol.trace (s : Symbol) : String := ":" ++ s

/-- The members of a list in ascending order, each once. -/
def sortedDistinct (names : List Symbol) : List Symbol :=
  names.foldr insertName []
where
  /-- Put a name into its place in an ascending list, unless it is there. -/
  insertName (n : Symbol) : List Symbol → List Symbol
    | [] => [n]
    | m :: ms => if n < m then n :: m :: ms else if n = m then m :: ms else m :: insertName n ms

/-- The members that a list repeats, each once, in the order of their first repeats. -/
def repeated (names : List Symbol) : List Symbol :=
  (names.foldl step ([], [])).2
where
  /-- The names met so far, and the repeats found so far. -/
  step : List Symbol × List Symbol → Symbol → List Symbol × List Symbol
    | (seen, found), n =>
      if n ∉ seen then (n :: seen, found)
      else if n ∈ found then (seen, found)
      else (seen, found ++ [n])

end Equilibrium
