import PhasedUpgrade.Json.Source

/-!
# Records from JSON texts

A record in a text is an object or the sequence of its fields. Keys that are not its own are passed
over, whatever stands under them; its own keys may stand only once.
-/

namespace PhasedUpgrade.Json

/-- The fields of a record that a text gives, with the budget left for what is nested in them. -/
structure Record where
  /-- Whether the fields were given by name rather than by place. -/
  named : Bool
  given : List (String × Source)
  budget : Nat

namespace Source

/-- The fields of an object that a record knows, unless one is repeated or some key has no text. -/
def knownFields? (names : List String) :
    List (Option String × Source) → Option (List (String × Source))
  | [] => some []
  | (none, _) :: _ => none
  | (some name, value) :: rest => do
      let known ← knownFields? names rest
      if name ∈ names then
        if (known.lookup name).isSome then none else some ((name, value) :: known)
      else some known

/-- The fields of a record with the given names, in the order of its declaration. -/
def record? (names : List String) (budget : Nat) : Source → Option Record
  | .object fields => do
      let budget ← enter budget
      return ⟨true, ← knownFields? names fields, budget⟩
  | .array items => do
      let budget ← enter budget
      if names.length < items.length then none else some ⟨false, names.zip items, budget⟩
  | _ => none

def string? : Source → Option String
  | .string value => value
  | _ => none

def boolean? : Source → Option Bool
  | .boolean value => some value
  | _ => none

/-- A whole number of 64 bits without a sign. -/
def natural? : Source → Option Nat
  | .numeral value => value.natural?
  | _ => none

/-- A sequence whose items are read with what is left of the budget. -/
def list? {α : Type} (item : Nat → Source → Option α) (budget : Nat) : Source → Option (List α)
  | .array items => do
      let budget ← enter budget
      items.mapM (item budget)
  | _ => none

/-- A map from names to texts; of several bindings of a name the last counts. -/
def textMap? (budget : Nat) : Source → Option (NameMap String)
  | .object fields => do
      let _ ← enter budget
      return .ofList (← fields.mapM fun (name, value) => do return (← name, ← value.string?))
  | _ => none

/-- One of several named choices, given by its name or as a map from its name to null. -/
def choice? {α : Type} (choices : List (String × α)) (budget : Nat) : Source → Option α
  | .string (some name) => choices.lookup name
  | .object [(some name, .null)] => do
      let _ ← enter budget
      choices.lookup name
  | _ => none

end Source

namespace Record

variable {α : Type}

def required (record : Record) (name : String) (value : Source → Option α) : Option α := do
  value (← record.given.lookup name)

/-- A field that may be null, or be left out where fields are given by name. -/
def optional (record : Record) (name : String) (value : Source → Option α) :
    Option (Option α) :=
  match record.given.lookup name with
  | none => if record.named then some none else none
  | some .null => some none
  | some source => (value source).map some

def defaulted (record : Record) (name : String) (default : α) (value : Source → Option α) :
    Option α :=
  match record.given.lookup name with
  | none => some default
  | some source => value source

end Record

end PhasedUpgrade.Json
