import PhasedUpgrade.Proofs.Upgrade.Actors

/-!
# The models of the upgrade

Whatever value of one of its models an actor of the upgrade tells the others, the bus accepts it,
and those who read it as what it is get the value back. Read as a value of another model it is
refused.
-/

namespace PhasedUpgrade

namespace Catalog

theorem get?_registerAll_append {catalog between later : Catalog} {first second : List Schema}
    (start : catalog.registerAll first = .ok between)
    (h : catalog.registerAll (first ++ second) = .ok later) {name : String} {known : Schema}
    (there : between.get? name = some known) : later.get? name = some known := by
  unfold registerAll at start h
  rw [List.foldlM_append, start] at h
  exact get?_registerAll h there

end Catalog

/-- A report that is told is the last of the reports then, and it inhibits if it is an inhibitor. -/
theorem Bus.reports_of_told {bus later : Bus} {actor : Contract} {phase : String} {report : Report}
    {time : Time.Instant}
    (h : bus.produce actor phase (Report.model.draft report) time = .ok later) :
    later.reports = bus.reports ++ [report] ∧
      later.hasInhibitors = (bus.hasInhibitors || report.isInhibitor) := by
  have decoded : Report.decode (Report.model.draft report).payload = .ok report :=
    report.conveys.decoded
  have reports := reports_of_produce rfl h
  rw [decoded] at reports
  refine ⟨reports, ?_⟩
  unfold hasInhibitors
  rw [reports, List.any_append]
  simp [Except.toOption]

namespace Upgrade

inductive ShippedModel where
  | report
  | facts
  | targetRepositories
deriving DecidableEq

namespace ShippedModel

def Value : ShippedModel → Type
  | report => Report
  | facts => Facts
  | targetRepositories => TargetRepositories

def model : (shipped : ShippedModel) → Model shipped.Value
  | report => Report.model
  | facts => Facts.model
  | targetRepositories => TargetRepositories.model

variable {shipped other : ShippedModel}

theorem name_inj (h : shipped.model.name = other.model.name) : shipped = other := by
  revert h
  cases shipped <;> cases other <;> decide

theorem conveys (shipped : ShippedModel) (value : shipped.Value) : shipped.model.Conveys value := by
  cases shipped with
  | report => exact Report.conveys value
  | facts => exact Facts.conveys value
  | targetRepositories => exact TargetRepositories.conveys value

theorem known {more : List Schema} {catalog : Catalog}
    (built : Catalog.builtin.registerAll (schemas ++ more) = .ok catalog)
    (shipped : ShippedModel) :
    catalog.get? shipped.model.name = some shipped.model.schema := by
  have start : Catalog.builtin.registerAll schemas =
      .ok (Upgrade.catalog.toOption.getD .builtin) := rfl
  refine Catalog.get?_registerAll_append start built ?_
  cases shipped <;> rfl

theorem read_of_other (apart : other ≠ shipped) {message : Message}
    (typed : message.typeName = shipped.model.name) :
    other.model.read message =
      .error (.unknownType ("expected " ++ other.model.name ++ ", found " ++
        shipped.model.name)) := by
  have differ : message.typeName ≠ other.model.name := fun same =>
    apart (name_inj (same.symm.trans typed))
  rw [Model.read, if_neg differ, typed]

/--
Every value of a shipped model passes the schema of its model. Any actor that declares the model can
produce it on any bus that knows the models; what the bus keeps is read as the value, and refused by
whoever takes it for a value of another model. A report that is told counts as one at once.
-/
theorem told_and_read {more : List Schema} {catalog : Catalog}
    (built : Catalog.builtin.registerAll (schemas ++ more) = .ok catalog)
    (shipped : ShippedModel) (value : shipped.Value) :
    catalog.validate (shipped.model.draft value) = .ok () ∧
    (∀ (bus : Bus) (actor : Contract) phase time, bus.catalog = catalog →
      shipped.model.name ∈ actor.produces →
      ∃ message, bus.produce actor phase (shipped.model.draft value) time =
          .ok ⟨catalog, bus.log ++ [message]⟩ ∧
        shipped.model.read message = .ok value ∧
        ∀ other ≠ shipped, other.model.read message = .error
          (.unknownType ("expected " ++ other.model.name ++ ", found " ++ shipped.model.name))) ∧
    ∀ (bus later : Bus) (actor : Contract) phase (told : Report) time,
      bus.produce actor phase (Report.model.draft told) time = .ok later →
      later.reports = bus.reports ++ [told] ∧
        later.hasInhibitors = (bus.hasInhibitors || told.isInhibitor) := by
  have there := known built shipped
  have conveys := shipped.conveys value
  refine ⟨?_, ?_, fun bus later actor phase told time => Bus.reports_of_told⟩
  · have typed : (shipped.model.draft value).typeName = shipped.model.name := rfl
    rw [Catalog.validate, typed, there]
    exact (if_pos rfl).trans conveys.valid
  · rintro bus actor phase time rfl declared
    have accepted := Bus.produce_draft there conveys declared phase time
    exact ⟨bus.stamp actor phase (shipped.model.draft value) time, accepted,
      conveys.read rfl rfl, fun other apart => read_of_other apart rfl⟩

/-- An inhibitor with a key and without a hint is read as it was told, and not as facts. -/
theorem told_and_read_inhibitor :
    let told := (Report.inhibitor "No space" "/boot is full").withKey "boot.full"
    ∃ message, (⟨catalog.toOption.getD .builtin, []⟩ : Bus).produce .reporter "checks"
        (Report.model.draft told) .epoch =
          .ok ⟨catalog.toOption.getD .builtin, [message]⟩ ∧
      Report.model.read message = .ok told ∧
      Facts.model.read message = .error (.unknownType "expected IPUConfig, found Report") := by
  intro told
  have built : Catalog.builtin.registerAll (schemas ++ []) =
      .ok (catalog.toOption.getD .builtin) := rfl
  obtain ⟨_, tells, _⟩ := told_and_read built .report told
  obtain ⟨message, accepted, read, others⟩ :=
    tells ⟨catalog.toOption.getD .builtin, []⟩ .reporter "checks" .epoch rfl (by decide)
  exact ⟨message, accepted, read, others .facts (by decide)⟩

end ShippedModel

end Upgrade

end PhasedUpgrade
