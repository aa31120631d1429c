import PhasedUpgrade.Proofs.Run.Undertaking

/-!
# Journeys of executions

An execution is begun by one call and taken up by others, wherever its store failed and wherever it
was cut off. Between the calls anything may happen to the store but to what it holds of the
execution. With deterministic actors all journeys of an undertaking that get to an end get to the
same one (`Journey.same_end`), those on stores that never fail among them.
-/

namespace PhasedUpgrade

open LawfulStore (holdings)

/-! ## Calls for one execution -/

namespace Call

/-- Whether a call is made with the actors and the options of an undertaking. -/
structure Serves (call : Call) (u : Undertaking) : Prop where
  registry_eq : call.registry = u.setting.registry
  options_eq : call.options = u.options

def TakesUp {σ : Type} [Store σ] (call : Call) (id : ExecutionId) (store : σ) : Prop :=
  ∃ kind, call.request = .resume kind (some id) ∨
    call.request = .resume kind none ∧
      ∀ execution, (Store.mostRecent kind store).1 = .ok (some execution) → execution.id = id

theorem Serves.setting_eq {call : Call} {u : Undertaking} (h : call.Serves u) :
    call.setting u.setting.workflow = u.setting := by
  unfold setting
  rw [h.registry_eq]

end Call

/-- The calls that have been made for the execution of a name, with what has become of a store. -/
inductive Journey (u : Undertaking) (id : ExecutionId) {σ : Type} [LawfulStore σ] :
    List Episode → σ → Prop
  | begin {store : σ} {call : Call} {kind : ExecutionKind}
      (serves : call.Serves u) (request : call.request = .fresh kind u.configuration)
      (named : call.supply.executionId = id)
      (unknown : (holdings store).execution? id = none)
      (empty : (holdings store).journal id = .empty) :
      Journey u id [(call.make u.setting.workflow store).1] (call.make u.setting.workflow store).2
  | resume {episodes : List Episode} {store : σ} {call : Call} (serves : call.Serves u)
      (journey : Journey u id episodes store) (takesUp : call.TakesUp id store) :
      Journey u id (episodes ++ [(call.make u.setting.workflow store).1])
        (call.make u.setting.workflow store).2
  | idle {episodes : List Episode} {store other : σ} (journey : Journey u id episodes store)
      (same : (holdings other).execution? id = (holdings store).execution? id)
      (kept : (holdings other).journal id = (holdings store).journal id) :
      Journey u id episodes other

section

variable {workflow : Workflow} {u : Undertaking} {id : ExecutionId} {σ : Type} [LawfulStore σ]
  {log : List RunStep} {store : σ} {call : Call}

/-- The entry of a call for an execution is one of this execution. -/
structure Entry.Furthers (entry : Entry) (u : Undertaking) (id : ExecutionId)
    (log : List RunStep) : Prop where
  enters : Enters u.setting.workflow log entry
  id_eq : entry.execution.id = id
  begun : entry.resumes = false → entry.execution.configuration = u.configuration

theorem Call.TakesUp.furthers (takesUp : call.TakesUp id store) (held : StoresOf id log store)
    {entry : Entry}
    (entered : ((call.setting u.setting.workflow).entry call.supply call.request store).1 =
      .ok entry) : entry.Furthers u id log := by
  unfold Setting.entry at entered
  obtain ⟨kind, request | ⟨request, recent⟩⟩ := takesUp <;> rw [request] at entered
  · obtain ⟨execution, _, _, _, _, answer, _, _, rfl⟩ := Entry.resume_eq_ok entered
    have stored := LawfulStore.eq_of_load (Entry.load_of_sought (congrArg Prod.fst answer))
    have own : execution.id = id := Chronicle.id_eq_of_stored (held.1.symm.trans stored)
    have named (name : ExecutionId) (asked : some id = some name) : StoresOf name log store :=
      Option.some.inj asked ▸ held
    exact ⟨Entry.enters_of_resume named (own ▸ held) entered, own, nofun⟩
  · obtain ⟨execution, _, _, _, _, answer, _, _, rfl⟩ := Entry.resume_eq_ok entered
    have own : execution.id = id :=
      recent execution (Entry.mostRecent_of_sought (congrArg Prod.fst answer))
    have named (name : ExecutionId) (asked : none = some name) : StoresOf name log store :=
      nomatch asked
    exact ⟨Entry.enters_of_resume named (own ▸ held) entered, own, nofun⟩

/-! ## What a journey comes to -/

theorem StoresOf.persisted {record : Execution} {journal : Journal} (own : record.id = id)
    (h : StoresOf id (log ++ [.saveJournal record.id journal, .save record]) store) :
    (holdings store).execution? id = some record ∧ (holdings store).journal id = journal := by
  subst own
  have both : log ++ [.saveJournal record.id journal, .save record] =
      log ++ ([.saveJournal record.id journal] ++ [.save record]) := rfl
  rw [both, StoresOf, Chronicle.ofSteps_append_concat, Chronicle.ofSteps_concat,
    Chronicle.note_save rfl, Chronicle.note_saveJournal] at h
  exact h

/-- What a store holds where an execution has come to its end. -/
def Undertaking.Landed (u : Undertaking) (id : ExecutionId) (store : σ) (outcome : RunOutcome) :
    Prop :=
  ∃ stop place log record, u.setting.workflow.stopPlace u.options.untilPhase = .ok stop ∧
    u.Reaches stop place log ∧ (holdings store).execution? id = some record ∧
    u.EndsAt stop place log outcome record.gist ((holdings store).journal id).messages

/-- What is true of a journey wherever it is. -/
structure Undertaking.Tracks (u : Undertaking) (id : ExecutionId) (episodes : List Episode)
    (store : σ) : Prop where
  held : StoresOf id (Episode.allSteps episodes) store
  runs : Runs u.setting.workflow (episodes.map Episode.steps)
  onTrack : ∀ stop, u.setting.workflow.stopPlace u.options.untilPhase = .ok stop →
    (Chronicle.ofSteps id (Episode.allSteps episodes)).OnTrack u stop
  landed : ∀ outcome, episodes.getLast?.bind Episode.outcome? = some outcome →
    (∃ phase required, outcome = .awaitingReboot phase required) ∨ u.Landed id store outcome

variable {episodes : List Episode} {stop : Nat} {entry : Entry} {account : Account RunResult}

/-- A run that ends well leaves what the execution comes to, unless it waits for a reboot. -/
theorem Undertaking.LetsIn.landed (h : u.LetsIn stop log entry) {supply : Supply}
    {answers : Answers} (planned : u.setting.account supply u.options answers entry = .ok account)
    {result : RunResult} (ended : account.ended = .ok result)
    (held : StoresOf entry.execution.id (log ++ account.steps) store) :
    (∃ phase required, result.outcome = .awaitingReboot phase required) ∨
      u.Landed entry.execution.id store result.outcome := by
  obtain ⟨standing, progress⟩ := Setting.account_progress planned List.prefix_rfl
  rcases h.account_ended planned with
    ⟨bindings, error, rfl⟩ | ⟨bindings, written, steps, result', record, messages, rfl, comes⟩
  · cases ended
  obtain rfl := Except.ok.inj ended
  refine comes.ends.imp_right ?_
  rintro ⟨place, log, reached, endsAt⟩
  obtain ⟨earlier, name, journal, rfl, rfl, rfl⟩ := comes.written
  have own : record.id = entry.execution.id := progress.own (.save record) (by simp) record.id rfl
  rw [← List.append_assoc, ← List.append_assoc] at held
  obtain ⟨stored, kept⟩ := held.persisted own
  refine ⟨stop, place, log, record, h.stopped, reached, stored, ?_⟩
  rw [kept]
  exact endsAt

namespace Undertaking.Tracks

theorem last_outcome (episodes : List Episode) (episode : Episode) :
    (episodes ++ [episode]).getLast?.bind Episode.outcome? = episode.outcome? := by
  rw [List.getLast?_concat]
  rfl

theorem refused (h : u.Tracks id episodes store) {after : σ}
    (held : StoresOf id (Episode.allSteps episodes) after) (error : RunError) :
    u.Tracks id (episodes ++ [⟨call, [], some (.error error)⟩]) after where
  held := by
    rw [History.allSteps_concat, List.append_nil]
    exact held
  runs := by
    rw [List.map_append]
    exact h.runs.idle
  onTrack := by
    rw [History.allSteps_concat, List.append_nil]
    exact h.onTrack
  landed outcome ended := by
    rw [last_outcome] at ended
    cases ended

theorem letsIn (h : u.Tracks id episodes store)
    (furthers : entry.Furthers u id (Episode.allSteps episodes))
    (stopped : u.setting.workflow.stopPlace u.options.untilPhase = .ok stop) :
    u.LetsIn stop (Episode.allSteps episodes) entry := by
  obtain ⟨enters, rfl, begun⟩ := furthers
  have sound := h.runs.sound entry.execution.id
  obtain ⟨reached, resumed⟩ := enters.reaches sound (h.onTrack stop stopped)
  refine ⟨enters, stopped, sound, ?_, reached⟩
  cases resumes : entry.resumes with
  | true => exact resumed resumes
  | false => exact begun resumes

/-- A run for an execution keeps it on its way however far it is carried out. -/
theorem carried (h : u.Tracks id episodes store) {after : σ}
    (held : StoresOf id (Episode.allSteps episodes) after)
    (furthers : entry.Furthers u id (Episode.allSteps episodes))
    (planned : u.setting.account call.supply u.options call.answers entry = .ok account) :
    u.Tracks id (episodes ++ [(call.carryOut account after).1])
      (call.carryOut account after).2 := by
  have letsIn {stop : Nat}
      (stopped : u.setting.workflow.stopPlace u.options.untilPhase = .ok stop) :=
    h.letsIn furthers stopped
  obtain ⟨enters, rfl, _⟩ := furthers
  have first := call.carryOut_prefix account after
  have stored := call.carryOut_storesOf account held
  obtain ⟨standing, progress⟩ := Setting.account_progress planned first
  refine ⟨?_, ?_, fun stop stopped => ?_, fun outcome ended => ?_⟩
  · rw [History.allSteps_concat]
    exact stored
  · rw [List.map_append]
    exact h.runs.run enters progress
  · obtain ⟨others, steps⟩ := first
    have keeps := (letsIn stopped).account_keeps planned
    rw [← steps] at keeps
    rw [History.allSteps_concat]
    exact progress.onTrack (letsIn stopped) (h.onTrack stop stopped)
      (List.isChain_append.mp keeps).1
  · rw [last_outcome] at ended
    obtain ⟨result, answer, rfl⟩ := Episode.outcome?_eq_some_iff.mp ended
    obtain ⟨right, all⟩ := (call.carryOut_whole account after).1 result answer
    obtain ⟨stop, plan, stopped, _, _⟩ := Setting.exists_plan planned
    rw [all] at stored
    exact (letsIn stopped).landed planned right stored

theorem called (h : u.Tracks id episodes store) (serves : call.Serves u)
    (furthers : ∀ entry,
      ((call.setting u.setting.workflow).entry call.supply call.request store).1 = .ok entry →
      entry.Furthers u id (Episode.allSteps episodes)) :
    u.Tracks id (episodes ++ [(call.make u.setting.workflow store).1])
      (call.make u.setting.workflow store).2 := by
  have same :=
    Setting.holdings_entry (call.setting u.setting.workflow) call.supply call.request store
  have held := h.held
  unfold StoresOf at held
  rw [← same] at held
  rcases call.make_eq u.setting.workflow store with
    ⟨error, out, _⟩ | ⟨entry, account, after, entered, planned, made⟩
  · rw [out]
    exact h.refused held error
  · rw [entered] at held furthers
    rw [serves.setting_eq, serves.options_eq] at planned
    rw [made]
    exact h.carried held (furthers entry rfl) planned

end Undertaking.Tracks

namespace Journey

theorem furthers_of_fresh {kind : ExecutionKind} {entry : Entry}
    (request : call.request = .fresh kind u.configuration) (named : call.supply.executionId = id)
    (entered : ((call.setting u.setting.workflow).entry call.supply call.request store).1 =
      .ok entry) : entry.Furthers u id [] := by
  rw [request] at entered
  obtain rfl := Except.ok.inj entered
  exact ⟨.fresh rfl kind u.configuration _, named, fun _ => rfl⟩

theorem tracks (journey : Journey u id episodes store) : u.Tracks id episodes store := by
  induction journey with
  | begin serves request named unknown empty =>
      have nothing (stop : Nat) : Chronicle.empty.OnTrack u stop := fun _ none => nomatch none
      have start : u.Tracks id [] _ :=
        ⟨⟨unknown, empty⟩, .none, fun stop _ => nothing stop, fun _ ended => (nomatch ended)⟩
      exact start.called serves fun _ entered => furthers_of_fresh request named entered
  | resume serves _ takesUp ih =>
      exact ih.called serves fun _ entered => takesUp.furthers ih.held entered
  | idle _ same kept ih =>
      refine ⟨⟨same.trans ih.held.1, kept.trans ih.held.2⟩, ih.runs, ih.onTrack, ?_⟩
      intro outcome ended
      refine (ih.landed outcome ended).imp_right fun landed => ?_
      unfold Undertaking.Landed
      rw [same, kept]
      exact landed

/--
Wherever two journeys of an undertaking were cut off, if they get to an end they get to the same
one: the outcome is the same, the records say the same of the way, and the journals hold the same
messages up to times.
-/
theorem same_end {τ : Type} [LawfulStore τ] {id' : ExecutionId} {episodes' : List Episode}
    {store' : τ} {outcome outcome' : RunOutcome}
    (deterministic : ∀ actor ∈ u.setting.registry.actors, actor.Deterministic)
    (journey : Journey u id episodes store) (journey' : Journey u id' episodes' store')
    (ended : episodes.getLast?.bind Episode.outcome? = some outcome)
    (ended' : episodes'.getLast?.bind Episode.outcome? = some outcome')
    (final : ∀ phase required, outcome ≠ .awaitingReboot phase required)
    (final' : ∀ phase required, outcome' ≠ .awaitingReboot phase required) :
    outcome = outcome' ∧
    ∃ record record', (holdings store).execution? id = some record ∧
      (holdings store').execution? id' = some record' ∧ record.gist = record'.gist ∧
      Message.Alike ((holdings store).journal id).messages
        ((holdings store').journal id').messages := by
  have landed : u.Landed id store outcome := by
    rcases journey.tracks.landed outcome ended with ⟨phase, required, waits⟩ | landed
    · exact absurd waits (final phase required)
    · exact landed
  have landed' : u.Landed id' store' outcome' := by
    rcases journey'.tracks.landed outcome' ended' with ⟨phase, required, waits⟩ | landed
    · exact absurd waits (final' phase required)
    · exact landed
  obtain ⟨stop, place, log, record, stopped, reached, stored, comes⟩ := landed
  obtain ⟨stop', place', log', record', stopped', reached', stored', comes'⟩ := landed'
  obtain rfl := Except.ok.inj (stopped.symm.trans stopped')
  obtain ⟨same, gists, messages⟩ := comes.unique deterministic reached comes' reached'
  exact ⟨same, record, record', stored, stored', gists, messages⟩

/-- An execution whose first commit cannot be written ends as one on a store that never fails. -/
theorem same_end_past_failed_write :
    let file : View → Task Unit := fun _ => Task.report (.inhibitor "old" "too old")
    let fresh := Call.probing file (.fresh .upgrade default) none
    let again := Call.probing file (.resume .upgrade (some default)) none
    let begun := fresh.make .rebooting MemoryStore.empty
    let ended := again.make .rebooting begun.2
    let faulty : Watched MemoryStore := ⟨.empty, [], some ⟨"save", 2⟩⟩
    let cut := fresh.make .rebooting faulty
    let taken := again.make .rebooting cut.2
    let last := again.make .rebooting taken.2
    cut.1.outcome? = none ∧ ended.1.outcome? = some .completed ∧
      last.1.outcome? = some .completed ∧
      Message.Alike ((holdings ended.2).journal default).messages
        ((holdings last.2).journal default).messages := by
  intro file fresh again begun ended faulty cut taken last
  have failed : cut.1.outcome? = none := by decide +revert
  have first : ended.1.outcome? = some .completed := by decide +revert
  have second : last.1.outcome? = some .completed := by decide +revert
  let u : Undertaking := ⟨⟨.rebooting, fresh.registry⟩, default, .none⟩
  have files : ∀ actor ∈ u.setting.registry.actors, actor.Deterministic := by
    intro actor mem
    obtain rfl := List.mem_singleton.mp mem
    exact fun _ _ _ _ => .produce rfl fun _ => .done _
  have starts : fresh.Serves u := ⟨rfl, rfl⟩
  have goesOn : again.Serves u := ⟨rfl, rfl⟩
  have journey : Journey u default [begun.1, ended.1] ended.2 :=
    .resume goesOn (.begin starts rfl rfl rfl rfl) ⟨.upgrade, .inl rfl⟩
  have journey' : Journey u default [cut.1, taken.1, last.1] last.2 :=
    .resume goesOn (.resume goesOn (.begin starts rfl rfl rfl rfl) ⟨.upgrade, .inl rfl⟩)
      ⟨.upgrade, .inl rfl⟩
  have final (phase : String) (required : Bool) :
      RunOutcome.completed ≠ .awaitingReboot phase required := nofun
  obtain ⟨_, _, _, _, _, _, messages⟩ := journey.same_end files journey' (by simpa using first)
    (by simpa using second) final final
  exact ⟨failed, first, second, messages⟩

end Journey

end

end PhasedUpgrade
