import PhasedUpgrade.Proofs.Message.Report

/-!
# Values on the bus

A model conveys a value if the payload that it makes of it passes its own schema and is read back as
the value. What is put on the bus in this way is what those who consume it find there, in its order
and whatever else is on the bus.
-/

namespace PhasedUpgrade

variable {α β : Type}

structure Model.Conveys (model : Model α) (value : α) : Prop where
  valid : model.schema.validate (model.encode value) = .ok ()
  decoded : model.decode (model.encode value) = .ok value

theorem Model.Conveys.read {model : Model α} {value : α} (h : model.Conveys value)
    {message : Message} (typed : message.typeName = model.name)
    (payload : message.payload = model.encode value) : model.read message = .ok value := by
  rw [Model.read, if_pos typed, payload, h.decoded]
  rfl

namespace Bus

variable {bus : Bus} {model : Model α} {other : Model β} {values : List α} {value : α}

/-- Whether the messages of a model's type carry some values, each of them one. -/
def Carries (bus : Bus) (model : Model α) (values : List α) : Prop :=
  (bus.messagesOf model.name).mapM model.read = .ok values

def told (bus : Bus) (actor : Contract) (phase : String) (draft : Message) (time : Time.Instant) :
    Bus :=
  { bus with log := bus.log ++ [bus.stamp actor phase draft time] }

theorem carries_nil (catalog : Catalog) (model : Model α) :
    (⟨catalog, []⟩ : Bus).Carries model [] :=
  rfl

/-- A value that is conveyed is accepted from an actor that may produce it. -/
theorem produce_draft (known : bus.catalog.get? model.name = some model.schema)
    (conveys : model.Conveys value) {actor : Contract} (declared : model.name ∈ actor.produces)
    (phase : String) (time : Time.Instant) :
    bus.produce actor phase (model.draft value) time =
      .ok (bus.told actor phase (model.draft value) time) := by
  have valid : bus.catalog.validate (model.draft value) = .ok () := by
    have typed : (model.draft value).typeName = model.name := rfl
    rw [Catalog.validate, typed, known]
    exact (if_pos rfl).trans conveys.valid
  have allowed : actor.produces.contains (model.draft value).typeName = true :=
    NameSet.contains_iff.mpr declared
  rw [produce, if_pos allowed, valid]
  rfl

theorem Carries.told (h : bus.Carries model values) (conveys : model.Conveys value)
    (actor : Contract) (phase : String) (time : Time.Instant) :
    (bus.told actor phase (model.draft value) time).Carries model (values ++ [value]) := by
  have read : model.read (bus.stamp actor phase (model.draft value) time) = .ok value :=
    conveys.read rfl rfl
  have last : [bus.stamp actor phase (model.draft value) time].filter (·.typeName = model.name) =
      [bus.stamp actor phase (model.draft value) time] :=
    List.filter_cons_of_pos (decide_eq_true rfl)
  unfold Carries messagesOf at h ⊢
  rw [Bus.told, List.filter_append, last, List.mapM_append, h, List.mapM_cons, read]
  rfl

theorem Carries.told_other (h : bus.Carries model values) (apart : other.name ≠ model.name)
    (actor : Contract) (phase : String) (value : β) (time : Time.Instant) :
    (bus.told actor phase (other.draft value) time).Carries model values := by
  have none : [bus.stamp actor phase (other.draft value) time].filter (·.typeName = model.name) =
      [] :=
    List.filter_cons_of_neg fun same => apart (of_decide_eq_true same)
  unfold Carries messagesOf at h ⊢
  rw [Bus.told, List.filter_append, none, List.append_nil, h]

theorem Carries.consume (h : bus.Carries model values) {actor : Contract}
    (declared : model.name ∈ actor.consumes) :
    ∃ messages, bus.consume actor model.name = .ok messages ∧
      List.Forall₂ (fun message value => model.read message = .ok value) messages values :=
  ⟨_, if_pos (NameSet.contains_iff.mpr declared), Except.mapM_eq_ok_iff.mp h⟩

theorem Carries.reports_eq {reports : List Report} (h : bus.Carries Report.model reports) :
    bus.reports = reports := by
  have each := Except.mapM_eq_ok_iff.mp h
  unfold Bus.reports Message.reports
  change List.Forall₂ _ (bus.log.filter (·.typeName = Report.model.name)) reports at each
  generalize bus.log.filter (·.typeName = Report.model.name) = messages at each
  clear h
  induction each with
  | nil => rfl
  | cons read _ ih =>
      rw [List.filterMap_cons, read]
      exact congrArg _ ih

end Bus

namespace Report

theorem accepted_encode (report : Report) :
    ∃ given, report.encode = .object given ∧
      Accepted given report.title report.summary report.severity.name
        (report.groups.map fun group => .string group.name) report.remediation report.key := by
  obtain ⟨title, summary, severity, groups, remediation, key⟩ := report
  refine ⟨_, rfl, ?_⟩
  cases key with
  | none =>
      cases remediation with
      | none => exact ⟨rfl, rfl, rfl, rfl, .inl rfl, .inl rfl⟩
      | some hint => exact ⟨rfl, rfl, rfl, rfl, rfl, .inl rfl⟩
  | some key =>
      cases remediation with
      | none => exact ⟨rfl, rfl, rfl, rfl, .inl rfl, rfl⟩
      | some hint => exact ⟨rfl, rfl, rfl, rfl, rfl, rfl⟩

theorem Accepted.valid {given : List (String × Json)} {title summary severity : String}
    {items : List Json} {remediation key : Option String}
    (h : Accepted given title summary severity items remediation key) :
    model.schema.validate (.object given) = .ok () := by
  have optional {name : String} {text : Option String} (held : Holds (given.lookup name) text) :
      model.schema.checkField ⟨name, .string, false⟩ (given.lookup name) = .ok () := by
    cases text with
    | none => exact Schema.checkField_eq_ok_iff.mpr (.inl ⟨rfl, held⟩)
    | some text => exact Schema.checkField_eq_ok_iff.mpr (.inr ⟨_, held, by simp, rfl⟩)
  have required {name : String} {kind : FieldKind} {value : Json}
      (held : given.lookup name = some value) (ne : value ≠ .null)
      (fits : kind.accepts value = true) :
      model.schema.checkField ⟨name, kind, true⟩ (given.lookup name) = .ok () :=
    Schema.checkField_eq_ok_iff.mpr (.inr ⟨value, held, ne, fits⟩)
  refine Schema.validate_eq_ok_iff.mpr ⟨given, rfl, ?_⟩
  simp only [model, Model.schema, fields, List.forall_mem_cons]
  exact ⟨required h.title_eq (by simp) rfl, required h.summary_eq (by simp) rfl,
    required h.severity_eq (by simp) rfl, required h.groups_eq (by simp) rfl,
    optional h.remediation_eq, optional h.key_eq, List.forall_mem_nil _⟩

theorem conveys (report : Report) : model.Conveys report := by
  obtain ⟨given, encoded, accepted⟩ := accepted_encode report
  have spelt : List.Forall₂ Json.SpellsGroup
      (report.groups.map fun group => .string group.name) report.groups :=
    List.forall₂_map_left_iff.mpr (List.forall₂_same.mpr fun group _ => .inl rfl)
  constructor
  · show model.schema.validate report.encode = _
    rw [encoded]
    exact accepted.valid
  · show decode report.encode = _
    rw [encoded]
    exact accepted.decode_eq_ok_iff.mpr ⟨rfl, rfl, rfl, spelt, rfl, rfl⟩

end Report

end PhasedUpgrade
