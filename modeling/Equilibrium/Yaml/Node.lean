import Equilibrium.Yaml.Token

/-!
# Nodes of a YAML text

The one document of a text as a tree of scalars, lists and mappings. An item, key or value that is
left out is an empty plain scalar; a text without any document has no node at all. Nodes have no
anchors and no tags, and none is an alias of another.
-/

namespace Equilibrium.Yaml

/-- The structure of a YAML document. -/
inductive Node
  | scalar (text : String) (plain : Bool)
  | list (items : List Node)
  | mapping (members : List (Node × Node))
deriving Inhabited

namespace Node

/-- A node that is left out. -/
def omitted : Node := .scalar "" true

/-- Where a node stands. -/
inductive Place
  /-- In a list by indentation, or at the top of the document. -/
  | item
  /-- As a key or value of a mapping by indentation; a list may stand there without being
  indented. -/
  | member
  /-- Between brackets. -/
  | flow
deriving DecidableEq

/-- Whether a list of tokens begins with one of some tokens. -/
def atToken (ends : List Token) : List Token → Bool
  | [] => false
  | t :: _ => t ∈ ends

mutual

/-- The node at the start of some tokens, and the tokens behind it. -/
def parse : (fuel : Nat) → Place → List Token → Option (Node × List Token)
  | 0, _, _ => none
  | _, _, [] => none
  | fuel + 1, place, t :: ts =>
    match t with
    | .scalar text plain => some (.scalar text plain, ts)
    | .openList => do
      let (items, rest) ← parseFlowItems fuel true ts
      return (.list items, rest)
    | .openMapping => do
      let (members, rest) ← parseFlowMembers fuel true ts
      return (.mapping members, rest)
    | .listStart =>
      if place = .flow then none
      else do
        let (items, rest) ← parseItems fuel ts
        return (.list items, rest)
    | .mappingStart =>
      if place = .flow then none
      else do
        let (members, rest) ← parseMembers fuel ts
        return (.mapping members, rest)
    | .dash =>
      if place = .member then do
        let (items, rest) ← parseLooseItems fuel (t :: ts)
        return (.list items, rest)
      else none
    | _ => none

/-- A node, unless one of some tokens stands in its place. -/
def parseOr : (fuel : Nat) → (ends : List Token) → Place → List Token →
    Option (Node × List Token)
  | 0, _, _, _ => none
  | fuel + 1, ends, place, ts =>
    if atToken ends ts then some (omitted, ts) else parse fuel place ts

/-- The items of a list by indentation, up to its end. -/
def parseItems : (fuel : Nat) → List Token → Option (List Node × List Token)
  | fuel + 1, .dash :: ts => do
    let (item, rest) ← parseOr fuel [.dash, .blockEnd] .item ts
    let (items, rest) ← parseItems fuel rest
    return (item :: items, rest)
  | _ + 1, .blockEnd :: ts => some ([], ts)
  | _, _ => none

/-- The items of a list that is not indented, up to the next other token. -/
def parseLooseItems : (fuel : Nat) → List Token → Option (List Node × List Token)
  | fuel + 1, .dash :: ts => do
    let (item, rest) ← parseOr fuel [.dash, .key, .value, .blockEnd] .item ts
    let (items, rest) ← parseLooseItems fuel rest
    return (item :: items, rest)
  | _ + 1, ts => some ([], ts)
  | 0, _ => none

/-- The members of a mapping by indentation, up to its end. -/
def parseMembers : (fuel : Nat) → List Token → Option (List (Node × Node) × List Token)
  | fuel + 1, .key :: ts => do
    let (key, rest) ← parseOr fuel [.key, .value, .blockEnd] .member ts
    let (value, rest) ← parseValue fuel [.key, .value, .blockEnd] .member rest
    let (members, rest) ← parseMembers fuel rest
    return ((key, value) :: members, rest)
  | _ + 1, .blockEnd :: ts => some ([], ts)
  | _, _ => none

/-- The value behind a colon; without a colon it is left out. -/
def parseValue : (fuel : Nat) → (ends : List Token) → Place → List Token →
    Option (Node × List Token)
  | fuel + 1, ends, place, .value :: ts => parseOr fuel ends place ts
  | _, _, _, ts => some (omitted, ts)

/-- The items of a list between brackets, up to the closing one. An item may be a single member of
a mapping. -/
def parseFlowItems : (fuel : Nat) → (first : Bool) → List Token →
    Option (List Node × List Token)
  | 0, _, _ => none
  | fuel + 1, first, ts =>
    match first, ts with
    | _, .closeList :: rest => some ([], rest)
    | false, .comma :: .closeList :: rest => some ([], rest)
    | false, .comma :: rest => parseFlowItem fuel rest
    | true, rest => parseFlowItem fuel rest
    | false, _ => none

/-- An item of a list between brackets, and the items behind it. A question mark without a key
takes the next mark away with it. -/
def parseFlowItem : (fuel : Nat) → List Token → Option (List Node × List Token)
  | 0, _ => none
  | fuel + 1, .key :: ts => do
    let (key, rest) ←
      if atToken [.value, .comma, .closeList] ts then some (omitted, ts.drop 1)
      else parse fuel .flow ts
    let (value, rest) ← parseValue fuel [.comma, .closeList] .flow rest
    let (items, rest) ← parseFlowItems fuel false rest
    return (.mapping [(key, value)] :: items, rest)
  | fuel + 1, ts => do
    let (item, rest) ← parse fuel .flow ts
    let (items, rest) ← parseFlowItems fuel false rest
    return (item :: items, rest)

/-- The members of a mapping between brackets, up to the closing one. -/
def parseFlowMembers : (fuel : Nat) → (first : Bool) → List Token →
    Option (List (Node × Node) × List Token)
  | 0, _, _ => none
  | fuel + 1, first, ts =>
    match first, ts with
    | _, .closeMapping :: rest => some ([], rest)
    | false, .comma :: .closeMapping :: rest => some ([], rest)
    | false, .comma :: rest => parseFlowMember fuel rest
    | true, rest => parseFlowMember fuel rest
    | false, _ => none

/-- A member of a mapping between brackets, and the members behind it. A key without a mark has no
value. -/
def parseFlowMember : (fuel : Nat) → List Token → Option (List (Node × Node) × List Token)
  | 0, _ => none
  | fuel + 1, .key :: ts => do
    let (key, rest) ← parseOr fuel [.value, .comma, .closeMapping] .flow ts
    let (value, rest) ← parseValue fuel [.comma, .closeMapping] .flow rest
    let (members, rest) ← parseFlowMembers fuel false rest
    return ((key, value) :: members, rest)
  | fuel + 1, ts => do
    let (key, rest) ← parse fuel .flow ts
    let (members, rest) ← parseFlowMembers fuel false rest
    return ((key, omitted) :: members, rest)

end

/-- The document of some tokens: a node, perhaps between marks of its start and end. A directive
needs the mark of the start. -/
def ofTokens (ts : List Token) : Option (Option Node) :=
  let fuel := 3 * ts.length + 3
  let close : Node × List Token → Option (Option Node)
    | (node, rest) => if rest.all (· == .documentEnd) then some (some node) else none
  let begun (rest : List Token) : Option (Option Node) :=
    if rest = [] then some (some omitted)
    else (parseOr fuel [.documentStart, .documentEnd] .item rest).bind close
  match ts with
  | [] => some none
  | .version :: .documentStart :: rest => begun rest
  | .documentStart :: rest => begun rest
  | rest => (parse fuel .item rest).bind close

/-- The document of a text, if there is one. -/
def ofText (s : String) : Option (Option Node) := (tokens s).bind ofTokens

end Node

end Equilibrium.Yaml
