import Equilibrium.Json.Token

/-!
# Trees of a JSON text

A `Tree` is what can be seen of a value up to the first place where the text is malformed. A list
or record says whether its end was reached; after a broken part nothing follows. A reader that
walks the tree from left to right therefore meets what is wrong in the order of the text.
-/

namespace Equilibrium.Json

/-- What can be seen of a value in a text. -/
inductive Tree
  /-- No value, or one whose first token is malformed. -/
  | broken
  | null
  | bool (b : Bool)
  | number (value : Option Number)
  | text (value : Option String)
  | list (items : List Tree) (closed : Bool)
  /-- Keys that are not texts can only stand last, with a broken value. -/
  | record (members : List (Tree × Tree)) (closed : Bool)

namespace Tree

/-- The tree of a token in the place of a key. -/
def ofKey : Token → Tree
  | .null => .null
  | .bool b => .bool b
  | .number n => .number n
  | .text s => .text s
  | .openList => .list [] false
  | .openRecord => .record [] false
  | _ => .broken

mutual

/-- The value at the start of a list of tokens, and the tokens behind it; none are behind a broken
value. -/
def parse : (fuel : Nat) → List Token → Tree × List Token
  | 0, _ => (.broken, [])
  | _, [] => (.broken, [])
  | fuel + 1, t :: ts =>
    match t with
    | .null => (.null, ts)
    | .bool b => (.bool b, ts)
    | .number n => (.number n, ts)
    | .text s => (.text s, ts)
    | .openList =>
      match ts with
      | .closeList :: rest => (.list [] true, rest)
      | _ =>
        let (items, closed, rest) := parseItems fuel ts
        (.list items closed, rest)
    | .openRecord =>
      match ts with
      | .closeRecord :: rest => (.record [] true, rest)
      | _ =>
        let (members, closed, rest) := parseMembers fuel ts
        (.record members closed, rest)
    | _ => (.broken, [])

/-- The items of a list that is not empty, whether its end was reached, and the tokens behind. -/
def parseItems : (fuel : Nat) → List Token → List Tree × Bool × List Token
  | 0, _ => ([.broken], false, [])
  | fuel + 1, ts =>
    let (item, rest) := parse fuel ts
    match rest with
    | .comma :: rest =>
      let (items, closed, rest) := parseItems fuel rest
      (item :: items, closed, rest)
    | .closeList :: rest => ([item], true, rest)
    | _ => ([item], false, [])

/-- The members of a record that is not empty, whether its end was reached, and the tokens
behind. -/
def parseMembers : (fuel : Nat) → List Token → List (Tree × Tree) × Bool × List Token
  | 0, _ => ([(.broken, .broken)], false, [])
  | fuel + 1, .text k :: .colon :: ts =>
    let (value, rest) := parse fuel ts
    match rest with
    | .comma :: rest =>
      let (members, closed, rest) := parseMembers fuel rest
      ((.text k, value) :: members, closed, rest)
    | .closeRecord :: rest => ([(.text k, value)], true, rest)
    | _ => ([(.text k, value)], false, [])
  | _ + 1, t :: _ => ([(ofKey t, .broken)], false, [])
  | _ + 1, [] => ([(.broken, .broken)], false, [])

end

/-- The first value of a text, and whether anything follows it. -/
def ofText (s : String) : Tree × Bool :=
  let ts := tokens s
  let (tree, rest) := parse (2 * ts.length + 2) ts
  (tree, !rest.isEmpty)

mutual

/-- Whether a value is well-formed throughout, so that it can be passed over. -/
def isWhole : Tree → Bool
  | .broken => false
  | .list items closed => areWhole items && closed
  | .record members closed => membersAreWhole members && closed
  | _ => true

/-- `isWhole` for every item of a list. -/
def areWhole : List Tree → Bool
  | [] => true
  | t :: ts => t.isWhole && areWhole ts

/-- `isWhole` for every key and value of a record. -/
def membersAreWhole : List (Tree × Tree) → Bool
  | [] => true
  | (k, v) :: ms => k.isWhole && v.isWhole && membersAreWhole ms

end

mutual

/-- The tree of a document that is there as a whole. -/
def ofDocument : Document → Tree
  | .null => .null
  | .bool b => .bool b
  | .number n => .number (some n)
  | .text s => .text (some s)
  | .list items => .list (ofItems items) true
  | .record fields => .record (ofFields fields) true

/-- The trees of the items of a list. -/
def ofItems : List Document → List Tree
  | [] => []
  | d :: ds => ofDocument d :: ofItems ds

/-- The keys and trees of the fields of a record. -/
def ofFields : List (String × Document) → List (Tree × Tree)
  | [] => []
  | (k, d) :: fs => (.text (some k), ofDocument d) :: ofFields fs

end

end Tree

end Equilibrium.Json
