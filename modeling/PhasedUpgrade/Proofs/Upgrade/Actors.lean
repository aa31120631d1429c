import PhasedUpgrade.Proofs.Dispatch.Leading
import PhasedUpgrade.Upgrade.Actors

/-!
# What the actors of the upgrade do

Each actor of the upgrade leads quietly from a bus with the facts and some reports to one with the
same facts and the reports that the facts call for.
-/

namespace PhasedUpgrade.Upgrade

/-! ## What they tell each other -/

theorem readList_textsJson (texts : List String) :
    Json.readList Json.readString (textsJson texts) = .ok texts :=
  Except.mapM_eq_ok_iff.mpr (List.forall₂_map_left_iff.mpr (List.forall₂_same.mpr fun _ _ => rfl))

theorem Facts.conveys (facts : Facts) : model.Conveys facts where
  valid := rfl
  decoded := by
    show reader.read "IpuConfigFacts" (fields.map Field.name) facts.encode = .ok facts
    apply Json.Fields.read_object_eq_ok_iff.mpr
    apply Json.Fields.seq_eq_ok_iff.mpr
    refine ⟨_, facts.enabledRepositories, rfl, ?_, rfl⟩
    exact Json.Fields.required_eq_ok_iff.mpr ⟨_, rfl, readList_textsJson _⟩

theorem TargetRepositories.conveys (target : TargetRepositories) : model.Conveys target where
  valid := rfl
  decoded := by
    show reader.read "TargetRepositories" (fields.map Field.name) target.encode = .ok target
    apply Json.Fields.read_object_eq_ok_iff.mpr
    apply Json.Fields.map_eq_ok_iff.mpr
    refine ⟨target.repositories, ?_, rfl⟩
    exact Json.Fields.required_eq_ok_iff.mpr ⟨_, rfl, readList_textsJson _⟩

/-- What is on the bus of an upgrade: facts and reports, over the catalog of the upgrade. -/
structure OnBus (facts : List Facts) (reports : List Report) (bus : Bus) : Prop where
  catalog_eq : bus.catalog = catalog.toOption.getD .builtin
  facts : bus.Carries Facts.model facts
  reports : bus.Carries Report.model reports

section

variable {facts : List Facts} {reports : List Report} {bus : Bus}

theorem OnBus.knows_facts (h : OnBus facts reports bus) :
    bus.catalog.get? Facts.model.name = some Facts.model.schema := by
  rw [h.catalog_eq]
  rfl

theorem OnBus.knows_repositories (h : OnBus facts reports bus) :
    bus.catalog.get? TargetRepositories.model.name = some TargetRepositories.model.schema := by
  rw [h.catalog_eq]
  rfl

theorem OnBus.knows_reports (h : OnBus facts reports bus) :
    bus.catalog.get? Report.model.name = some Report.model.schema := by
  rw [h.catalog_eq]
  rfl

variable (h : OnBus facts reports bus) (actor : Contract) (phase : String) (time : Time.Instant)
include h

theorem OnBus.told_facts (told : Facts) :
    OnBus (facts ++ [told]) reports (bus.told actor phase (Facts.model.draft told) time) :=
  ⟨h.catalog_eq, h.facts.told told.conveys actor phase time,
    h.reports.told_other (by decide) actor phase told time⟩

theorem OnBus.told_report (told : Report) :
    OnBus facts (reports ++ [told]) (bus.told actor phase (Report.model.draft told) time) :=
  ⟨h.catalog_eq, h.facts.told_other (by decide) actor phase told time,
    h.reports.told told.conveys actor phase time⟩

theorem OnBus.told_repositories (told : TargetRepositories) :
    OnBus facts reports (bus.told actor phase (TargetRepositories.model.draft told) time) :=
  ⟨h.catalog_eq, h.facts.told_other (by decide) actor phase told time,
    h.reports.told_other (by decide) actor phase told time⟩

end

/-! ## What each of them leads to -/

def factsOf (configuration : Configuration) : Facts :=
  resolve ⟨"", "", .create default .upgrade "" configuration .epoch⟩

section

variable {configuration : Configuration} {facts : Facts} {reports : List Report}
  {contract : Contract}

/-- What looks for the facts first goes on with those that are on the bus. -/
theorem meets_requiredFacts_bind {view : View} {next : Facts → Task Unit}
    {after : Except Stop Unit → Bus → Prop} (declared : Facts.model.name ∈ contract.consumes)
    (h : (next facts).Meets contract (OnBus [facts] reports) after) :
    (requiredFacts view >>= next).Meets contract (OnBus [facts] reports) after := by
  have found : (requiredFacts view).Gives contract (OnBus [facts] reports) fun found bus =>
      found = facts ∧ OnBus [facts] reports bus := by
    refine (Task.gives_consumeOne declared fun bus holds => holds.facts).bind fun found => ?_
    rintro supply phase bench ⟨rfl, holds⟩
    exact ⟨facts, rfl, rfl, holds⟩
  refine found.bind fun found => ?_
  rintro supply phase bench ⟨rfl, holds⟩
  exact h supply phase bench holds

theorem gives_report (declared : Report.model.name ∈ contract.produces) (report : Report) :
    (Task.report report).Gives contract (OnBus [facts] reports) fun _ =>
      OnBus [facts] (reports ++ [report]) :=
  Task.gives_produceModel declared report.conveys (fun _ holds => holds.knows_reports)
    fun _ phase time holds => holds.told_report contract phase time report

/-- Whoever files a report if there is something to tell leads to that report. -/
theorem gives_filing (declared : Report.model.name ∈ contract.produces) (report? : Option Report) :
    Task.Gives contract (OnBus [facts] reports)
      (do if let some report := report? then Task.report report)
      fun _ => OnBus [facts] (reports ++ report?.toList) := by
  cases report? with
  | none => exact Task.gives_pure fun _ holds => by simpa using holds
  | some report => exact gives_report declared report

theorem factsActor_leads :
    factsActor.Leads configuration (OnBus [] []) (OnBus [factsOf configuration] []) := by
  intro view configured
  have resolved : resolve view = factsOf configuration := by
    rw [← configured]
    rfl
  apply Task.Gives.quiet
  show (Task.produceModel Facts.model (resolve view)).Gives _ _ _
  rw [resolved]
  exact Task.gives_produceModel (by decide) (Facts.conveys _) (fun _ holds => holds.knows_facts)
    fun _ phase time holds => holds.told_facts _ phase time _

theorem architectureCheck_leads : architectureCheck.Leads configuration (OnBus [facts] reports)
    (OnBus [facts] (reports ++ (architectureReport? facts).toList)) := fun view _ =>
  meets_requiredFacts_bind (by decide) (gives_filing (by decide) (architectureReport? facts)).quiet

theorem pathCheck_leads (paths : Paths) : (pathCheck paths).Leads configuration
    (OnBus [facts] reports) (OnBus [facts] (reports ++ (pathReport? paths facts).toList)) := by
  have consumes : Facts.model.name ∈ (pathCheck paths).consumes :=
    NameSet.mem_ofList.mpr List.mem_cons_self
  have produces : Report.model.name ∈ (pathCheck paths).produces :=
    NameSet.mem_ofList.mpr List.mem_cons_self
  exact fun view _ => meets_requiredFacts_bind consumes
    (gives_filing produces (pathReport? paths facts)).quiet

def subscriptionReport? (facts : Facts) : Option Report :=
  if facts.skipSubscription then some subscriptionReport else none

theorem subscriptionCheck_leads : subscriptionCheck.Leads configuration (OnBus [facts] reports)
    (OnBus [facts] (reports ++ (subscriptionReport? facts).toList)) := by
  intro view _
  refine meets_requiredFacts_bind (by decide) ?_
  unfold subscriptionReport?
  cases facts.skipSubscription with
  | true => exact (gives_report (by decide) subscriptionReport).quiet
  | false => exact Task.meets_stop fun _ holds => ⟨trivial, by simpa using holds⟩

def repositoriesReport? (facts : Facts) : Option Report :=
  if targetRepositories facts = [] then some repositoriesReport else none

theorem repositoriesActor_leads : repositoriesActor.Leads configuration (OnBus [facts] reports)
    (OnBus [facts] (reports ++ (repositoriesReport? facts).toList)) := by
  intro view _
  refine meets_requiredFacts_bind (by decide) ?_
  unfold repositoriesReport?
  cases targetRepositories facts with
  | nil => exact (gives_report (by decide) repositoriesReport).quiet
  | cons first rest =>
      apply Task.Gives.quiet
      exact Task.gives_produceModel (by decide) (TargetRepositories.conveys _)
        (fun _ holds => holds.knows_repositories) fun _ phase time holds => by
          simpa using holds.told_repositories _ phase time _

theorem summaryActor_leads : summaryActor.Leads configuration (OnBus [facts] reports)
    (OnBus [facts] reports) := by
  intro view _
  apply Task.Gives.quiet
  refine (Task.gives_consume (by decide) fun bus holds => holds.reports).bind fun messages => ?_
  rintro supply phase bench ⟨holds, each⟩
  have readable (message : Message) (mem : message ∈ messages) :
      ∃ report, Report.model.read message = .ok report := by
    obtain ⟨place, inside, rfl⟩ := List.mem_iff_getElem.mp mem
    exact ⟨_, List.Forall₂.get each inside (each.length_eq ▸ inside)⟩
  exact (Task.gives_forIn_read readable).bind (fun _ => Task.gives_pure fun _ held => held) supply
    phase bench holds

end

end PhasedUpgrade.Upgrade
