import PhasedUpgrade.Message.Schema
import PhasedUpgrade.Proofs.Collections.Fallible

/-!
# What payloads are accepted and refused for

A payload is accepted exactly if it is an object whose values fit the declared fields, each field
looked at by itself: nothing but the values under the declared names matters. A payload that is
refused is refused for the first field that is not satisfied.
-/

namespace PhasedUpgrade

/-! ## Accepted payloads -/

namespace FieldKind

theorem exists_string_of_accepts {json : Json} (h : string.accepts json = true) :
    ∃ text, json = .string text := by
  cases json <;> simp [accepts] at h ⊢

theorem exists_array_of_accepts {json : Json} (h : list.accepts json = true) :
    ∃ items, json = .array items := by
  cases json <;> simp [accepts] at h ⊢

end FieldKind

namespace Schema

variable {schema : Schema} {field : Field}

theorem checkField_eq_ok_iff {value : Option Json} :
    schema.checkField field value = .ok () ↔
      (field.required = false ∧ (value = none ∨ value = some .null)) ∨
        ∃ json, value = some json ∧ json ≠ .null ∧ field.kind.accepts json = true := by
  unfold checkField
  split
  · cases field.required <;> simp
  · cases field.required <;> simp
  · rename_i json present
    cases accepted : field.kind.accepts json <;> simp_all

theorem checkFields_eq_ok_iff {given : List (String × Json)} {fields : List Field} :
    schema.checkFields given fields = .ok () ↔
      ∀ field ∈ fields, schema.checkField field (given.lookup field.name) = .ok () := by
  induction fields with
  | nil => exact ⟨fun _ => nofun, fun _ => rfl⟩
  | cons field rest ih =>
      rw [List.forall_mem_cons, ← ih, checkFields]
      constructor
      · intro h
        obtain ⟨⟨⟩, first, later⟩ := Except.exists_of_bind_eq_ok h
        exact ⟨first, later⟩
      · rintro ⟨first, later⟩
        rw [first]
        exact later

theorem validate_eq_ok_iff {payload : Json} :
    schema.validate payload = .ok () ↔
      ∃ given, payload = .object given ∧
        ∀ field ∈ schema.fields, schema.checkField field (given.lookup field.name) = .ok () := by
  cases payload with
  | object given =>
      rw [validate, checkFields_eq_ok_iff]
      exact ⟨fun h => ⟨given, rfl, h⟩, fun ⟨_, same, h⟩ => Json.object.inj same ▸ h⟩
  | null | boolean _ | integer _ | float _ | string _ | array _ => exact ⟨nofun, nofun⟩

end Schema

/-! ## Kinds of values -/

/-- The kind that a value is of; null is of none. -/
inductive Json.IsKind : Json → FieldKind → Prop
  | string (text : String) : IsKind (.string text) .string
  | integer (value : Int) : IsKind (.integer value) .integer
  | float (value : Float) : IsKind (.float value) .float
  | boolean (value : Bool) : IsKind (.boolean value) .boolean
  | list (items : List Json) : IsKind (.array items) .list
  | map (fields : List (String × Json)) : IsKind (.object fields) .map

theorem Json.exists_isKind {json : Json} (h : json ≠ .null) : ∃ kind, json.IsKind kind := by
  cases json with
  | null => exact absurd rfl h
  | string text => exact ⟨_, .string text⟩
  | integer value => exact ⟨_, .integer value⟩
  | float value => exact ⟨_, .float value⟩
  | boolean value => exact ⟨_, .boolean value⟩
  | array items => exact ⟨_, .list items⟩
  | object fields => exact ⟨_, .map fields⟩

theorem Json.IsKind.kindName_eq {json : Json} {kind : FieldKind} (h : json.IsKind kind) :
    json.kindName = kind.name := by
  cases h <;> rfl

theorem Json.IsKind.unique {json : Json} {kind other : FieldKind} (h : json.IsKind kind)
    (h' : json.IsKind other) : kind = other := by
  cases h <;> cases h' <;> rfl

/-- Whether a field of a kind may hold a value: a value of this kind, an integer for a float, and
whatever there is if the kind is any. -/
def FieldKind.Takes (kind : FieldKind) (json : Json) : Prop :=
  kind = .any ∨ json.IsKind kind ∨ kind = .float ∧ json.IsKind .integer

namespace FieldKind

variable {kind actual : FieldKind} {json : Json}

theorem takes_iff_of_isKind (own : json.IsKind actual) :
    kind.Takes json ↔ kind = .any ∨ kind = actual ∨ kind = .float ∧ actual = .integer := by
  refine or_congr_right (or_congr ⟨fun h => h.unique own, ?_⟩ (and_congr_right fun _ => ?_))
  · rintro rfl
    exact own
  · constructor
    · exact fun h => own.unique h
    · rintro rfl
      exact own

theorem accepts_iff : kind.accepts json = true ↔ kind.Takes json := by
  by_cases null : json = .null
  · subst null
    constructor
    · intro accepted
      cases kind with
      | any => exact .inl rfl
      | _ => cases accepted
    · rintro (rfl | ⟨⟨⟩⟩ | ⟨_, ⟨⟩⟩)
      rfl
  · obtain ⟨actual, own⟩ := Json.exists_isKind null
    rw [takes_iff_of_isKind own]
    cases own <;> cases kind <;> simp [accepts]

end FieldKind

/-! ## Single fields -/

/-- Whether a field is satisfied by what a payload has under its name. -/
inductive Field.SatisfiedBy (field : Field) : Option Json → Prop
  | absent (optional : field.required = false) : SatisfiedBy field none
  | null (optional : field.required = false) : SatisfiedBy field (some .null)
  | present {json : Json} (there : json ≠ .null) (takes : field.kind.Takes json) :
      SatisfiedBy field (some json)

namespace Schema

/-- What a field that is not satisfied is reported as. -/
inductive Blames (schema : Schema) (field : Field) : Option Json → MessageError → Prop
  | absent (required : field.required = true) :
      Blames schema field none (.missingField schema.name field.name)
  | null (required : field.required = true) :
      Blames schema field (some .null) (.missingField schema.name field.name)
  | unfit {json : Json} {actual : FieldKind} (own : json.IsKind actual)
      (other : ¬ field.kind.Takes json) :
      Blames schema field (some json)
        (.wrongKind schema.name field.name field.kind.name actual.name)

variable {schema : Schema} {field : Field} {value : Option Json} {cause : MessageError}

theorem checkField_eq_ok_iff_satisfied :
    schema.checkField field value = .ok () ↔ field.SatisfiedBy value := by
  rw [checkField_eq_ok_iff]
  constructor
  · rintro (⟨optional, rfl | rfl⟩ | ⟨json, rfl, there, accepted⟩)
    · exact .absent optional
    · exact .null optional
    · exact .present there (FieldKind.accepts_iff.mp accepted)
  · intro satisfied
    cases satisfied with
    | absent optional => exact .inl ⟨optional, .inl rfl⟩
    | null optional => exact .inl ⟨optional, .inr rfl⟩
    | present there takes => exact .inr ⟨_, rfl, there, FieldKind.accepts_iff.mpr takes⟩

theorem checkField_of_blames (h : schema.Blames field value cause) :
    schema.checkField field value = .error cause := by
  cases h with
  | absent required => exact if_pos required
  | null required => exact if_pos required
  | @unfit json actual own other =>
      have refused : ¬ field.kind.accepts json = true := mt FieldKind.accepts_iff.mp other
      have named := own.kindName_eq
      -- what is of a kind is not null, so that its kind is looked at
      cases own <;> exact (if_neg refused).trans (by rw [named])

theorem exists_blames (h : ¬ field.SatisfiedBy value) :
    ∃ cause, schema.Blames field value cause := by
  have required (missing : field.required = false → field.SatisfiedBy value) :
      field.required = true := by
    cases needed : field.required with
    | true => rfl
    | false => exact absurd (missing needed) h
  cases value with
  | none => exact ⟨_, .absent (required .absent)⟩
  | some json =>
      by_cases null : json = .null
      · subst null
        exact ⟨_, .null (required .null)⟩
      · obtain ⟨actual, own⟩ := Json.exists_isKind null
        exact ⟨_, .unfit own fun takes => h (.present null takes)⟩

theorem checkField_eq_error_iff :
    schema.checkField field value = .error cause ↔ schema.Blames field value cause := by
  constructor
  · intro failed
    have unsatisfied : ¬ field.SatisfiedBy value := fun satisfied => by
      cases (checkField_eq_ok_iff_satisfied.mpr satisfied).symm.trans failed
    have blamed : ∃ other, schema.Blames field value other := exists_blames unsatisfied
    obtain ⟨other, blames⟩ := blamed
    cases (checkField_of_blames blames).symm.trans failed
    exact blames
  · exact checkField_of_blames

/-! ## All fields -/

/-- The fields behind the first one that is not satisfied are not looked at. -/
theorem checkFields_eq_error_iff {given : List (String × Json)} {fields : List Field} :
    schema.checkFields given fields = .error cause ↔
      ∃ before field behind, fields = before ++ field :: behind ∧
        (∀ earlier ∈ before, earlier.SatisfiedBy (given.lookup earlier.name)) ∧
        schema.Blames field (given.lookup field.name) cause := by
  constructor
  · intro failed
    induction fields with
    | nil => cases failed
    | cons first rest ih =>
        rw [checkFields] at failed
        rcases Except.error_cases_of_bind failed with here | ⟨_, passed, later⟩
        · exact ⟨[], first, rest, rfl, List.forall_mem_nil _, checkField_eq_error_iff.mp here⟩
        · obtain ⟨before, field, behind, rfl, satisfied, blames⟩ := ih later
          have fits := checkField_eq_ok_iff_satisfied.mp passed
          exact ⟨first :: before, field, behind, rfl,
            List.forall_mem_cons.mpr ⟨fits, satisfied⟩, blames⟩
  · rintro ⟨before, field, behind, rfl, satisfied, blames⟩
    induction before with
    | nil =>
        rw [List.nil_append, checkFields, checkField_of_blames blames]
        rfl
    | cons first before ih =>
        obtain ⟨here, others⟩ := List.forall_mem_cons.mp satisfied
        rw [List.cons_append, checkFields, checkField_eq_ok_iff_satisfied.mpr here]
        exact ih others

theorem checkFields_congr {given other : List (String × Json)} {fields : List Field}
    (same : ∀ field ∈ fields, given.lookup field.name = other.lookup field.name) :
    schema.checkFields given fields = schema.checkFields other fields := by
  induction fields with
  | nil => rfl
  | cons first rest ih =>
      obtain ⟨here, others⟩ := List.forall_mem_cons.mp same
      rw [checkFields, checkFields, here, ih others]

/--
A payload passes just if it is an object that satisfies every declared field. An object that does
not pass is refused for the first field that it does not satisfy, and anything else for not being an
object. What an object holds under other names does not matter.
-/
theorem validate_exact (schema : Schema) :
    (∀ payload, schema.validate payload = .ok () ↔
      ∃ given, payload = .object given ∧
        ∀ field ∈ schema.fields, field.SatisfiedBy (given.lookup field.name)) ∧
    (∀ payload, schema.validate payload = .error (.notAnObject schema.name) ↔
      ∀ given, payload ≠ .object given) ∧
    (∀ given cause, schema.validate (.object given) = .error cause ↔
      ∃ before field behind, schema.fields = before ++ field :: behind ∧
        (∀ earlier ∈ before, earlier.SatisfiedBy (given.lookup earlier.name)) ∧
        schema.Blames field (given.lookup field.name) cause) ∧
    ∀ given other : List (String × Json),
      (∀ field ∈ schema.fields, given.lookup field.name = other.lookup field.name) →
      schema.validate (.object given) = schema.validate (.object other) := by
  refine ⟨fun payload => ?_, fun payload => ?_, fun given cause => checkFields_eq_error_iff,
    fun given other => checkFields_congr⟩
  · simp only [validate_eq_ok_iff, checkField_eq_ok_iff_satisfied]
  · constructor
    · rintro refused given rfl
      obtain ⟨_, field, _, _, _, blames⟩ := checkFields_eq_error_iff.mp refused
      generalize given.lookup field.name = value at blames
      cases blames
    · intro other
      cases payload with
      | object given => exact absurd rfl (other given)
      | null | boolean _ | integer _ | float _ | string _ | array _ => rfl

/-- Of two fields of one name each is looked at. -/
example : (⟨"Count", "T", [⟨"n", .float, true⟩, ⟨"n", .string, false⟩]⟩ : Schema).validate
    (.object [("n", .integer 3)]) = .error (.wrongKind "Count" "n" "string" "integer") := rfl

end Schema

end PhasedUpgrade
