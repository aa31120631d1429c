import PhasedUpgrade.Proofs.Json.Numeral
import PhasedUpgrade.Json.Source

/-!
# Spellings of JSON values

The tokens and the tree that the text of a value stands for. Floats are left out of account: a value
with none of them is `Floatless`.
-/

namespace PhasedUpgrade.Json

inductive Floatless : Json → Prop
  | null : Floatless .null
  | boolean (value : Bool) : Floatless (.boolean value)
  | integer (value : Int) : Floatless (.integer value)
  | string (value : String) : Floatless (.string value)
  | array {items : List Json} (each : ∀ item ∈ items, Floatless item) : Floatless (.array items)
  | object {fields : List (String × Json)} (each : ∀ field ∈ fields, Floatless field.2) :
      Floatless (.object fields)

/-! ## Nesting -/

mutual

/-- How deep arrays and objects are nested in a value; a value that holds no others has none. -/
def depth : Json → Nat
  | .array items => depthOfItems items + 1
  | .object fields => depthOfFields fields + 1
  | .null | .boolean _ | .integer _ | .float _ | .string _ => 0

def depthOfItems : List Json → Nat
  | [] => 0
  | item :: rest => max (depth item) (depthOfItems rest)

def depthOfFields : List (String × Json) → Nat
  | [] => 0
  | (_, value) :: rest => max (depth value) (depthOfFields rest)

end

/-! ## Trees -/

mutual

def source : Json → Source
  | .null | .float _ => .null
  | .boolean value => .boolean value
  | .integer value => .numeral (.ofInt value)
  | .string value => .string (some value)
  | .array items => .array (sourceItems items)
  | .object fields => .object (sourceFields fields)

def sourceItems : List Json → List Source
  | [] => []
  | item :: rest => source item :: sourceItems rest

def sourceFields : List (String × Json) → List (Option String × Source)
  | [] => []
  | (name, value) :: rest => (some name, source value) :: sourceFields rest

end

theorem source_string (value : String) : source (.string value) = .string (some value) :=
  rfl

theorem sourceItems_eq_map (items : List Json) : sourceItems items = items.map source := by
  induction items with
  | nil => rfl
  | cons item rest ih => rw [sourceItems, ih, List.map_cons]

/-! ## Tokens -/

mutual

def spelled : Json → List Token
  | .null | .float _ => [.null]
  | .boolean value => [.boolean value]
  | .integer value => [.numeral (.ofInt value)]
  | .string value => [.string (some value)]
  | .array [] => [.openBracket, .closeBracket]
  | .array (item :: rest) => .openBracket :: (spelled item ++ spelledItems rest)
  | .object [] => [.openBrace, .closeBrace]
  | .object ((name, value) :: rest) =>
      .openBrace :: .string (some name) :: .colon :: (spelled value ++ spelledFields rest)

/-- The tokens from behind an item of an array on. -/
def spelledItems : List Json → List Token
  | [] => [.closeBracket]
  | item :: rest => .comma :: (spelled item ++ spelledItems rest)

/-- The tokens from behind a field of an object on. -/
def spelledFields : List (String × Json) → List Token
  | [] => [.closeBrace]
  | (name, value) :: rest =>
      .comma :: .string (some name) :: .colon :: (spelled value ++ spelledFields rest)

end

/-! ## Trees from tokens -/

namespace Source

open Json (source sourceItems sourceFields spelled spelledItems spelledFields)

/-- The tokens of a value are read as its tree, whatever is open around it. -/
def Reads (value : Json) : Prop :=
  ∀ frames rest, readValue frames (spelled value ++ rest) = readAfter (source value) frames rest

theorem exists_first_token (value : Json) :
    ∃ token rest, spelled value = token :: rest ∧ token ≠ .closeBracket := by
  cases value with
  | array items => cases items <;> simp [spelled]
  | object fields =>
      cases fields with
      | nil => simp [spelled]
      | cons field rest => simp [spelled]
  | _ => simp [spelled]

theorem readValue_openBracket {token : Token} (h : token ≠ .closeBracket) (frames : List Frame)
    (rest : List Token) : readValue frames (.openBracket :: token :: rest) =
      readValue (.items [] :: frames) (token :: rest) := by
  cases token with
  | closeBracket => exact absurd rfl h
  | _ => rfl

theorem readAfter_items {items : List Json} (each : ∀ item ∈ items, Reads item) (last : Source)
    (before : List Source) (frames : List Frame) (rest : List Token) :
    readAfter last (.items before :: frames) (spelledItems items ++ rest) =
      readAfter (.array (before.reverse ++ last :: sourceItems items)) frames rest := by
  induction items generalizing last before with
  | nil => simp [spelledItems, readAfter, sourceItems]
  | cons item others ih =>
      obtain ⟨here, later⟩ := List.forall_mem_cons.mp each
      simp only [spelledItems, List.cons_append, List.append_assoc]
      rw [readAfter, here, ih later]
      simp [sourceItems]

theorem readAfter_fields {fields : List (String × Json)} (each : ∀ field ∈ fields, Reads field.2)
    (name : Option String) (last : Source) (before : List (Option String × Source))
    (frames : List Frame) (rest : List Token) :
    readAfter last (.fields before name :: frames) (spelledFields fields ++ rest) =
      readAfter (.object (before.reverse ++ (name, last) :: sourceFields fields)) frames rest := by
  induction fields generalizing name last before with
  | nil => simp [spelledFields, readAfter, sourceFields]
  | cons field others ih =>
      obtain ⟨key, value⟩ := field
      obtain ⟨here, later⟩ := List.forall_mem_cons.mp each
      simp only [spelledFields, List.cons_append, List.append_assoc]
      rw [readAfter, here, ih later]
      simp [sourceFields]

theorem reads_of_floatless {value : Json} (h : Floatless value) : Reads value := by
  intro frames rest
  induction h generalizing frames rest with
  | null => rfl
  | boolean value => rfl
  | integer value => rfl
  | string value => rfl
  | @array items _ ih =>
      cases items with
      | nil => rfl
      | cons item others =>
          obtain ⟨here, later⟩ := List.forall_mem_cons.mp ih
          obtain ⟨token, more, first, opens⟩ := exists_first_token item
          have enters : readValue frames (.openBracket ::
              (spelled item ++ (spelledItems others ++ rest))) =
              readValue (.items [] :: frames) (spelled item ++ (spelledItems others ++ rest)) := by
            rw [first]
            exact readValue_openBracket opens frames _
          simp only [spelled, List.cons_append, List.append_assoc]
          rw [enters, here, readAfter_items later]
          rfl
  | @object fields _ ih =>
      cases fields with
      | nil => rfl
      | cons field others =>
          obtain ⟨name, value⟩ := field
          obtain ⟨here, later⟩ := List.forall_mem_cons.mp ih
          simp only [spelled, List.cons_append, List.append_assoc]
          rw [readValue, here, readAfter_fields later]
          rfl

end Source

end PhasedUpgrade.Json
