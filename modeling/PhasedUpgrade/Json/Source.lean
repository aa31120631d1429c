import PhasedUpgrade.Json.Token
import PhasedUpgrade.Json.Value

/-!
# JSON texts as trees

A `Source` is what a JSON text says before anybody has asked for a type: numerals as spelled, the
fields of objects in order and with repetitions. Readers of records walk it with a budget of nested
arrays and objects; what they pass over costs nothing.
-/

namespace PhasedUpgrade.Json

/--
The tree of a JSON text. A string without a text holds half of a surrogate pair, or bytes that
belong to no character.
-/
inductive Source where
  | null
  | boolean (value : Bool)
  | numeral (value : Numeral)
  | string (value : Option String)
  | array (items : List Source)
  | object (fields : List (Option String × Source))
deriving Inhabited

namespace Source

/-- An array or object whose end has not been seen yet; gathered parts are in reverse. -/
inductive Frame where
  | items (before : List Source)
  | fields (before : List (Option String × Source)) (name : Option String)

def ofToken? : Token → Option Source
  | .null => some .null
  | .boolean value => some (.boolean value)
  | .numeral value => some (.numeral value)
  | .string value => some (.string value)
  | _ => none

mutual

def readValue (frames : List Frame) : List Token → Option Source
  | .openBracket :: .closeBracket :: rest => readAfter (.array []) frames rest
  | .openBracket :: rest => readValue (.items [] :: frames) rest
  | .openBrace :: .closeBrace :: rest => readAfter (.object []) frames rest
  | .openBrace :: .string name :: .colon :: rest => readValue (.fields [] name :: frames) rest
  | token :: rest =>
      match ofToken? token with
      | some value => readAfter value frames rest
      | none => none
  | [] => none

def readAfter (value : Source) (frames : List Frame) (tokens : List Token) : Option Source :=
  match frames, tokens with
  | [], [] => some value
  | .items before :: frames, .comma :: rest => readValue (.items (value :: before) :: frames) rest
  | .items before :: frames, .closeBracket :: rest =>
      readAfter (.array (before.reverse ++ [value])) frames rest
  | .fields before name :: frames, .comma :: .string next :: .colon :: rest =>
      readValue (.fields ((name, value) :: before) next :: frames) rest
  | .fields before name :: frames, .closeBrace :: rest =>
      readAfter (.object (before.reverse ++ [(name, value)])) frames rest
  | _, _ => none

end

/-- The tree of a text that is one JSON value with blanks around it. -/
def ofText? (text : String) : Option Source := do
  readValue [] (← tokens text)

def ofBytes? (bytes : ByteArray) : Option Source := do
  readValue [] (← tokensOfBytes bytes)

/-- Spend one level of a budget of nested arrays and objects. -/
def enter (budget : Nat) : Option Nat :=
  if budget ≤ 1 then none else some (budget - 1)

/-- The budget that reading a whole text begins with. -/
def fullBudget : Nat := 128

end Source

mutual

/-- The value of a tree; of several fields of one name the last counts. -/
def ofSource? (budget : Nat) : Source → Option Json
  | .null => some .null
  | .boolean value => some (.boolean value)
  | .numeral value =>
      match value.integer? with
      | some whole => some (.integer whole)
      | none => value.float?.map Json.float
  | .string value => value.map Json.string
  | .array items => do
      let budget ← Source.enter budget
      return .array (← ofItems? budget items)
  | .object fields => do
      let budget ← Source.enter budget
      return .ofMap (.ofList (← ofFields? budget fields))

def ofItems? (budget : Nat) : List Source → Option (List Json)
  | [] => some []
  | item :: rest => do return (← ofSource? budget item) :: (← ofItems? budget rest)

def ofFields? (budget : Nat) : List (Option String × Source) → Option (List (String × Json))
  | [] => some []
  | (name, value) :: rest => do
      return (← name, ← ofSource? budget value) :: (← ofFields? budget rest)

end

def ofText (text : String) : Option Json := do
  ofSource? Source.fullBudget (← Source.ofText? text)

end PhasedUpgrade.Json
