import PhasedUpgrade.Json.Typed
import PhasedUpgrade.Proofs.Collections.Fallible

/-!
# What the readers of typed values accept

Each reader is told by the values that it finds: a choice in one of its two spellings, a list item
by item, and a record by its fields.
-/

namespace PhasedUpgrade.Json

open Reading

variable {α β : Type}

/-- The two spellings of a choice: its name, or a map from its name to null. -/
def Spells (json : Json) (name : String) : Prop :=
  json = .string name ∨ json = .object [(name, .null)]

theorem named_eq_ok_iff {choices : List (String × α)} {name : String} {choice : α} :
    readChoice.named choices name = .ok choice ↔ choices.lookup name = some choice := by
  unfold readChoice.named
  cases choices.lookup name with
  | none => exact ⟨nofun, nofun⟩
  | some other =>
      constructor
      · exact fun h => congrArg some (Except.ok.inj h)
      · exact fun h => congrArg Except.ok (Option.some.inj h)

theorem readChoice_eq_ok_iff {choices : List (String × α)} {json : Json} {choice : α} :
    readChoice choices json = .ok choice ↔
      ∃ name, json.Spells name ∧ choices.lookup name = some choice := by
  constructor
  · intro h
    unfold readChoice at h
    split at h
    · rename_i name
      exact ⟨name, .inl rfl, named_eq_ok_iff.mp h⟩
    · rename_i name value
      obtain ⟨other, known, h⟩ := Except.exists_of_bind_eq_ok h
      cases value <;> cases h
      exact ⟨name, .inr rfl, named_eq_ok_iff.mp known⟩
    · cases h
    · cases h
  · rintro ⟨name, rfl | rfl, known⟩
    · exact named_eq_ok_iff.mpr known
    · unfold readChoice
      simp only
      rw [named_eq_ok_iff.mpr known]
      rfl

namespace Fields

variable {given : String → Option Json}

theorem map_eq_ok_iff {f : α → β} {fields : Fields α} {value : β} :
    (f <$> fields) given = .ok value ↔ ∃ part, fields given = .ok part ∧ f part = value := by
  show (fields given).map f = .ok value ↔ _
  cases fields given with
  | error faults => simp [Except.map]
  | ok part => simp [Except.map]

theorem seq_eq_ok_iff {first : Fields (α → β)} {second : Fields α} {value : β} :
    (first <*> second) given = .ok value ↔
      ∃ f part, first given = .ok f ∧ second given = .ok part ∧ f part = value := by
  simp only [Seq.seq]
  cases first given <;> cases second given <;> simp

theorem required_eq_ok_iff {name : String} {read : Json → Except Misfit α} {value : α} :
    required name read given = .ok value ↔
      ∃ json, given name = some json ∧ read json = .ok value := by
  unfold required
  cases given name with
  | none => simp
  | some json =>
      cases result : read json with
      | error cause => simp [result]
      | ok other => simp [result]

theorem optional_eq_ok_iff {name : String} {read : Json → Except Misfit α} {value : Option α} :
    optional name read given = .ok value ↔
      (given name = none ∧ value = none) ∨
        ∃ json, given name = some json ∧ readOptional read json = .ok value := by
  unfold optional
  cases given name with
  | none => simp [eq_comm]
  | some json =>
      cases result : readOptional read json with
      | error cause => simp [result]
      | ok other => simp [result]

theorem read_object_eq_ok_iff {record : String} {names : List String} {fields : Fields α}
    {object : List (String × Json)} {value : α} :
    fields.read record names (.object object) = .ok value ↔
      (fields fun name => object.lookup name) = .ok value := by
  show (fields fun name => object.lookup name).mapError objectMisfit = .ok value ↔ _
  cases fields fun name => object.lookup name with
  | error faults => simp [Except.mapError]
  | ok other => simp [Except.mapError]

end Fields

end PhasedUpgrade.Json
