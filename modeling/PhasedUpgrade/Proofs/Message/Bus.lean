import PhasedUpgrade.Message.Bus
import PhasedUpgrade.Proofs.Collections.Lookup

/-!
# What the bus takes up

A draft that is accepted goes to the end of the log; a catalog keeps the schemas that it has.
-/

namespace PhasedUpgrade

namespace Catalog

variable {catalog later : Catalog} {name : String} {known : Schema}

theorem get?_register {schema : Schema} (h : catalog.register schema = .ok later)
    (there : catalog.get? name = some known) : later.get? name = some known := by
  unfold register at h
  cases found : catalog.get? schema.name with
  | none =>
      rw [found] at h
      obtain rfl := Except.ok.inj h
      have other : name ≠ schema.name := by
        rintro rfl
        rw [found] at there
        cases there
      show (catalog.schemas.insert schema.name schema).get? name = some known
      rw [NameMap.get?_insert, if_neg other]
      exact there
  | some same =>
      simp only [found] at h
      split at h
      · exact Except.ok.inj h ▸ there
      · cases h

theorem get?_registerAll {schemas : List Schema} (h : catalog.registerAll schemas = .ok later)
    (there : catalog.get? name = some known) : later.get? name = some known := by
  unfold registerAll at h
  induction schemas generalizing catalog with
  | nil => exact Except.ok.inj h ▸ there
  | cons schema rest ih =>
      rw [List.foldlM_cons] at h
      cases first : catalog.register schema with
      | error cause =>
          rw [first] at h
          cases h
      | ok next =>
          rw [first] at h
          exact ih h (get?_register first there)

end Catalog

theorem Bus.produce_spec {bus later : Bus} {actor : Contract} {phase : String} {draft : Message}
    {time : Time.Instant} (h : bus.produce actor phase draft time = .ok later) :
    actor.produces.contains draft.typeName = true ∧ bus.catalog.validate draft = .ok () ∧
      later = { bus with log := bus.log ++ [bus.stamp actor phase draft time] } := by
  unfold produce at h
  by_cases declared : actor.produces.contains draft.typeName = true
  · rw [if_pos declared] at h
    cases valid : bus.catalog.validate draft with
    | error cause =>
        rw [valid] at h
        cases h
    | ok checked =>
        rw [valid] at h
        exact ⟨declared, rfl, (Except.ok.inj h).symm⟩
  · rw [if_neg declared] at h
    cases h

namespace Message

theorem reports_append (first second : List Message) :
    reports (first ++ second) = reports first ++ reports second := by
  simp [reports, List.filter_append, List.filterMap_append]

theorem reports_singleton {message : Message} (typed : message.typeName = Report.model.name) :
    reports [message] = (Report.decode message.payload).toOption.toList := by
  have read : (Report.model.read message).toOption = (Report.decode message.payload).toOption := by
    unfold Model.read
    rw [if_pos typed]
    show ((Report.decode message.payload).mapError _).toOption = _
    cases Report.decode message.payload <;> rfl
  unfold reports
  rw [List.filter_cons_of_pos (by simpa using typed), List.filter_nil, List.filterMap_cons, read]
  cases (Report.decode message.payload).toOption <;> rfl

end Message

namespace Bus

variable {bus later : Bus} {actor : Contract} {phase : String} {draft : Message}
  {time : Time.Instant}

/-- A report that has been accepted adds itself to the reports if it can be read. -/
theorem reports_of_produce (typed : draft.typeName = Report.model.name)
    (h : bus.produce actor phase draft time = .ok later) :
    later.reports = bus.reports ++ (Report.decode draft.payload).toOption.toList := by
  obtain ⟨_, _, rfl⟩ := produce_spec h
  have stamped : (bus.stamp actor phase draft time).typeName = Report.model.name := typed
  show Message.reports (bus.log ++ [bus.stamp actor phase draft time]) = _
  rw [Message.reports_append, Message.reports_singleton stamped]
  rfl

theorem validate_of_produce {schemas : List Schema}
    (built : Catalog.builtin.registerAll schemas = .ok bus.catalog)
    (typed : draft.typeName = Report.model.name)
    (h : bus.produce actor phase draft time = .ok later) :
    Report.model.schema.validate draft.payload = .ok () := by
  have valid := (produce_spec h).2.1
  have start : Catalog.builtin.get? Report.model.name = some Report.model.schema := rfl
  unfold Catalog.validate at valid
  rw [typed, Catalog.get?_registerAll built start] at valid
  simp only at valid
  split at valid
  · exact valid
  · cases valid

end Bus

end PhasedUpgrade
