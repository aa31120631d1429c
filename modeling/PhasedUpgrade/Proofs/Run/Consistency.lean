import PhasedUpgrade.Proofs.Run.Ending
import PhasedUpgrade.Proofs.Run.Visits

/-!
# Journals and buses

The log of a run begins with what has been committed and goes on with what the run itself produces,
so no actor reads what an earlier attempt has left behind. What is in the journal behind the
committed messages is left out when the execution is taken up again.
-/

namespace PhasedUpgrade

open LawfulStore (holdings)

/-! ## The log of a run -/

/-- What a run has in hand where it stands: what it has started with, and what it has produced. -/
def Standing.Holds (start whole : List Message) : Standing → Prop
  | .outside => whole = start
  | .trying attempt => attempt.log ++ attempt.produced = whole
  | .deciding attempt _ _ _ => attempt.log ++ attempt.produced = whole
  | .over => True

namespace Progress

variable {workflow : Workflow} {entry : Entry} {log done : List RunStep} {standing : Standing}

theorem holds (h : Progress workflow entry done standing) :
    standing.Holds entry.journal.messages (entry.journal.messages ++ RunStep.produced done) := by
  induction h with
  | start => exact List.append_nil _
  | binding name value _ ih =>
      rw [RunStep.produced_append]
      exact (congrArg (entry.journal.messages ++ ·) (List.append_nil _)).trans ih
  | enter _ _ ih =>
      rw [RunStep.produced_append]
      have found : entry.journal.messages ++ RunStep.produced _ = entry.journal.messages := ih
      simp [Standing.Holds, Attempt.produced, RunStep.produced] at found ⊢
      exact found
  | @visit _ attempt _ turn _ _ _ ih =>
      have whole : attempt.log ++ attempt.produced = _ := ih
      rw [RunStep.produced_append, ← List.append_assoc, ← whole]
      simp [Standing.Holds, Attempt.produced, Attempt.extended, RunStep.produced]
  | journal _ _ ih =>
      rw [RunStep.produced_append]
      exact ih.trans (congrArg (entry.journal.messages ++ ·) (List.append_nil _)).symm
  | @record _ attempt next _ goesOn _ ih =>
      have whole : attempt.log ++ attempt.produced = _ := ih
      cases goesOn with
      | false => trivial
      | true =>
          rw [RunStep.produced_append]
          simp [Standing.afterRecord, Standing.Holds, Attempt.next, Attempt.produced,
            RunStep.produced] at whole ⊢
          exact whole

theorem of_visit {turn : Visit} (h : Progress workflow entry (done ++ [.visit turn]) standing) :
    ∃ attempt phase, Progress workflow entry done (.trying attempt) ∧
      workflow.phases[attempt.place]? = some phase ∧
      turn.OfPhase attempt.written.id phase.name := by
  generalize steps : done ++ [.visit turn] = taken at h
  cases h with
  | start => simp at steps
  | visit before found made =>
      obtain ⟨rfl, last⟩ := List.append_inj' steps rfl
      cases last
      exact ⟨_, _, before, found, made⟩
  | binding _ _ _ => exact nomatch (List.append_inj' steps rfl).2
  | enter _ _ => exact nomatch (List.append_inj' steps rfl).2
  | journal _ _ => exact nomatch (List.append_inj' steps rfl).2
  | record _ => exact nomatch (List.append_inj' steps rfl).2

theorem of_deciding {attempt : Attempt} {next : Execution} {kept : List Message} {goesOn : Bool}
    (h : Progress workflow entry done (.deciding attempt next kept goesOn)) :
    ∃ before id journal, done = before ++ [.saveJournal id journal] ∧ journal.messages = kept := by
  generalize there : Standing.deciding attempt next kept goesOn = standing at h
  cases h with
  | journal _ _ =>
      cases there
      exact ⟨_, _, _, rfl, rfl⟩
  | @record _ _ _ _ goesOn _ => cases goesOn <;> cases there
  | start => cases there
  | binding _ _ _ => cases there
  | enter _ _ => cases there
  | visit _ _ _ => cases there

theorem of_over (h : Progress workflow entry done .over) :
    ∃ before attempt next kept, done = before ++ [.save next] ∧
      Progress workflow entry before (.deciding attempt next kept false) := by
  generalize last : Standing.over = standing at h
  cases h with
  | @record _ _ _ _ goesOn deciding =>
      cases goesOn with
      | false => exact ⟨_, _, _, _, rfl, deciding⟩
      | true => cases last
  | start => cases last
  | binding _ _ _ => cases last
  | enter _ _ => cases last
  | visit _ _ _ => cases last
  | journal _ _ => cases last

end Progress

theorem Chronicle.Tries.committed_saved {workflow : Workflow} {chronicle : Chronicle}
    {attempt : Attempt} (h : chronicle.Tries workflow attempt) (sound : chronicle.Sound workflow)
    {next : Execution} {kept : List Message} {goesOn : Bool}
    (ends : attempt.Ends workflow next kept goesOn) : (chronicle.saved next).committed = kept := by
  unfold committed
  rcases h.commits_saved sound ends with ⟨_, commits, rfl⟩ | ⟨phase, _, _, commits, rfl⟩
  · rw [commits]
    exact h.log_eq.symm
  · rw [commits, List.flatMap_append, List.flatMap_singleton, ← h.attempt_eq, h.log_eq]
    rfl

theorem Attempt.Ends.kept_prefix {workflow : Workflow} {attempt : Attempt} {next : Execution}
    {kept : List Message} {goesOn : Bool} (h : attempt.Ends workflow next kept goesOn) :
    kept <+: attempt.log ++ attempt.produced := by
  cases h with
  | failed _ _ _ _ => exact List.prefix_append _ _
  | committed _ _ _ _ _ => exact List.prefix_rfl
  | closed _ _ => exact List.prefix_append _ _

section

variable {workflow : Workflow} {entry : Entry} {log done : List RunStep} {standing : Standing}

/-- Where an actor may act, the chronicle has what the run started with and what it has produced. -/
theorem Progress.log_of_trying {attempt : Attempt}
    (h : Progress workflow entry done (.trying attempt)) (enters : Enters workflow log entry)
    (before : (Chronicle.ofSteps entry.execution.id log).Sound workflow) :
    (Chronicle.ofSteps entry.execution.id (log ++ done)).committed ++
        (Chronicle.ofSteps entry.execution.id (log ++ done)).attempt =
      entry.journal.messages ++ RunStep.produced done := by
  have tries : (Chronicle.ofSteps entry.execution.id (log ++ done)).Tries workflow attempt :=
    (h.sound enters before).2
  rw [← tries.log_eq, tries.attempt_eq]
  exact h.holds

/-- A visit is made in the phase behind the last commit, whose attempt is the one that goes on. -/
theorem Progress.attempt_of_visit {turn : Visit}
    (h : Progress workflow entry (done ++ [.visit turn]) standing)
    (enters : Enters workflow log entry)
    (before : (Chronicle.ofSteps entry.execution.id log).Sound workflow) :
    let chronicle := Chronicle.ofSteps entry.execution.id (log ++ done)
    turn.execution = entry.execution.id ∧
    workflow.phases[chronicle.commits.length]?.map Phase.name = some turn.phase ∧
    (∀ message ∈ chronicle.attempt, message.phase = turn.phase) ∧
    chronicle.committed ++ chronicle.attempt =
      entry.journal.messages ++ RunStep.produced done := by
  intro chronicle
  obtain ⟨attempt, phase, trying, found, own⟩ := h.of_visit
  have tries : chronicle.Tries workflow attempt := (trying.sound enters before).2
  refine ⟨own.execution_eq.trans trying.standing_of, ?_, fun message mem => ?_,
    trying.log_of_trying enters before⟩
  · rw [← tries.place_eq, found]
    exact congrArg some own.phase_eq.symm
  · have stamp := tries.stamped message (tries.attempt_eq ▸ mem)
    rw [found] at stamp
    exact (Option.some.inj stamp).symm.trans own.phase_eq.symm

/-- What has been committed behind a run is what it started with and some of what it produced. -/
theorem Progress.committed_prefix (h : Progress workflow entry done standing)
    (enters : Enters workflow log entry)
    (before : (Chronicle.ofSteps entry.execution.id log).Sound workflow) :
    (Chronicle.ofSteps entry.execution.id (log ++ done)).committed <+:
      entry.journal.messages ++ RunStep.produced done := by
  cases standing with
  | outside =>
      have found : Chronicle.ofSteps entry.execution.id (log ++ done) = _ :=
        (h.sound enters before).2
      rw [found, ← (enters.behind before).2]
      exact List.prefix_append _ _
  | trying attempt =>
      rw [← h.log_of_trying enters before]
      exact List.prefix_append _ _
  | deciding attempt next kept goesOn =>
      obtain ⟨tries, _⟩ := (h.sound enters before).2
      rw [← tries.log_eq, ← show attempt.log ++ attempt.produced = _ from h.holds]
      exact List.prefix_append _ _
  | «over» =>
      obtain ⟨earlier, attempt, next, kept, rfl, deciding⟩ := h.of_over
      obtain ⟨sound, tries, ends, _⟩ := deciding.sound enters before
      have whole : attempt.log ++ attempt.produced = _ := deciding.holds
      rw [Chronicle.ofSteps_append_concat, Chronicle.note_save deciding.standing_of.2,
        tries.committed_saved sound ends, RunStep.produced_append, ← List.append_assoc, ← whole]
      exact ends.kept_prefix.trans (List.prefix_append _ _)

end

/-! ## Numbers on all buses -/

/-- In numbered surroundings an actor keeps to numbered buses and reads only what is on the last. -/
theorem Visit.MadeIn.reads {registry : Registry} {supply : Supply} {found : Surroundings}
    {turn : Visit} (h : turn.MadeIn registry supply found)
    (numbered : Message.Numbered found.bus.log) :
    Message.Numbered (found.bus.log ++ turn.produced) ∧
      ∃ actor ∈ registry.actors, ∃ execution bench,
        turn = (Visit.make supply execution turn.phase actor bench).1 ∧
        bench.surroundings = found ∧
        (∀ bus ∈ Visit.buses supply execution turn.phase actor bench,
          bus.Extends found.bus ∧ Message.Numbered bus.log) ∧
        ∀ message ∈ Visit.consumed supply execution turn.phase actor bench,
          message ∈ found.bus.log ++ turn.produced := by
  obtain ⟨actor, known, execution, bench, rfl, same⟩ := h
  obtain ⟨next, buses, consumed⟩ :=
    Visit.reads_spec supply execution turn.phase actor bench numbered
  rw [← same] at next consumed
  exact ⟨next, actor, known, execution, bench, same, rfl, buses, consumed⟩

theorem RunStep.MadeFrom.numbered {registry : Registry} {supply : Supply} {found : Surroundings}
    {steps : List RunStep} (h : RunStep.MadeFrom registry supply found steps)
    (start : Message.Numbered found.bus.log) :
    Message.Numbered (found.bus.log ++ RunStep.produced steps) := by
  induction steps generalizing found with
  | nil => simpa [RunStep.produced] using start
  | cons step rest ih =>
      cases step with
      | visit turn =>
          obtain ⟨made, later⟩ := h
          have next := (made.reads start).1
          simpa [RunStep.produced, Surroundings.after] using ih later next
      | setVariable name value => exact ih h start
      | save execution => exact ih h start
      | saveJournal id journal => exact ih h start

section

variable {workflow : Workflow} {σ : Type} [LawfulStore σ] {episodes : List Episode} {store : σ}
  {log : List RunStep} {call : Call}

def Call.surroundings (call : Call) (entry : Entry) : Surroundings :=
  ⟨⟨call.registry.catalog, entry.journal.messages⟩, call.answers⟩

theorem Call.make_madeFrom (held : holdings store = .ofSteps log) (new : call.NamesNew store) :
    (call.make workflow store).1.steps = [] ∨
      ∃ entry, ((call.setting workflow).entry call.supply call.request store).1 = .ok entry ∧
        Enters workflow log entry ∧
        Admitted workflow entry [] (call.make workflow store).1.steps ∧
        RunStep.MadeFrom call.registry call.supply (call.surroundings entry)
          (call.make workflow store).1.steps := by
  rcases call.make_eq workflow store with
    ⟨error, refused, _⟩ | ⟨entry, account, after, entered, planned, made⟩
  · exact .inl (congrArg (fun made => made.1.steps) refused)
  · obtain ⟨same, enters⟩ := Setting.entry_spec workflow held new
    rw [entered] at same enters
    have first := (call.carryOut_spec account same).1
    rw [← made] at first
    have visits := Setting.account_madeFrom call.supply planned
    refine .inr ⟨entry, congrArg Prod.fst entered, enters entry rfl, fun part initial => ?_,
      visits.of_prefix first⟩
    exact Setting.account_progress planned (initial.trans first)

theorem History.numbered (history : History workflow episodes store) (id : ExecutionId) :
    Message.Numbered (Chronicle.ofSteps id (Episode.allSteps episodes)).committed := by
  induction history with
  | empty _ => exact .nil
  | idle _ _ ih => exact ih
  | @call episodes store call history new ih =>
      rw [allSteps_concat]
      rcases Call.make_madeFrom history.holdings_eq new with
        nothing | ⟨entry, _, enters, admitted, made⟩
      · rw [nothing, List.append_nil]
        exact ih
      · obtain ⟨standing, progress⟩ := admitted _ List.prefix_rfl
        rw [List.nil_append] at progress
        by_cases own : id = entry.execution.id
        · subst own
          have sound := history.runs.sound entry.execution.id
          have start : Message.Numbered (call.surroundings entry).bus.log := by
            show Message.Numbered entry.journal.messages
            rw [(enters.behind sound).2]
            exact ih
          have whole := made.numbered start
          exact whole.of_prefix (progress.committed_prefix enters sound)
        · rw [progress.ofSteps_of_ne own]
          exact ih

/-- A run is let in with just what has been committed, each message in its place. -/
theorem History.entry_consistent (history : History workflow episodes store)
    (new : call.NamesNew store) {entry : Entry}
    (entered : ((call.setting workflow).entry call.supply call.request store).1 = .ok entry) :
    entry.journal.messages =
        (Chronicle.ofSteps entry.execution.id (Episode.allSteps episodes)).committed ∧
      Message.Numbered entry.journal.messages := by
  have enters := (Setting.entry_spec workflow history.holdings_eq new).2 entry entered
  have messages := (enters.behind (history.runs.sound entry.execution.id)).2
  refine ⟨messages, ?_⟩
  rw [messages]
  exact history.numbered entry.execution.id

/--
However the calls of a workflow went, the journal of an execution begins with what its committed
phases have produced, and there is at most something of the next phase behind that. The next call is
let in with just the committed messages. Each of its actors acts on a bus with these and with what
the attempt that it belongs to has produced so far; all messages bear their places there, and the
actor reads no others than these and its own.
-/
theorem History.journal_consistent (history : History workflow episodes store)
    (new : call.NamesNew store) :
    (∀ id record, (holdings store).execution? id = some record →
      let chronicle := Chronicle.ofSteps id (Episode.allSteps episodes)
      record.lastCompletedPhase = chronicle.commits.getLast?.map Commit.phase ∧
      chronicle.commits.map Commit.phase =
        (workflow.phases.take chronicle.commits.length).map Phase.name ∧
      ∃ tail, ((holdings store).journal id).messages = chronicle.committed ++ tail ∧
        ∀ message ∈ tail,
          workflow.phases[chronicle.commits.length]?.map Phase.name = some message.phase) ∧
    (∀ entry, ((call.setting workflow).entry call.supply call.request store).1 = .ok entry →
      entry.journal.messages =
        (Chronicle.ofSteps entry.execution.id (Episode.allSteps episodes)).committed ∧
      Message.Numbered entry.journal.messages) ∧
    ∀ before turn after,
      (call.make workflow store).1.steps = before ++ .visit turn :: after →
      let chronicle := Chronicle.ofSteps turn.execution (Episode.allSteps episodes ++ before)
      workflow.phases[chronicle.commits.length]?.map Phase.name = some turn.phase ∧
      (∀ message ∈ chronicle.attempt, message.phase = turn.phase) ∧
      ∃ entry, ((call.setting workflow).entry call.supply call.request store).1 = .ok entry ∧
      ∃ actor ∈ call.registry.actors, ∃ execution bench,
        turn = (Visit.make call.supply execution turn.phase actor bench).1 ∧
        bench.surroundings = (call.surroundings entry).behind before ∧
        bench.bus.log = chronicle.committed ++ chronicle.attempt ∧
        (∀ bus ∈ Visit.buses call.supply execution turn.phase actor bench,
          bus.Extends bench.bus ∧ Message.Numbered bus.log) ∧
        ∀ message ∈ Visit.consumed call.supply execution turn.phase actor bench,
          message ∈ chronicle.committed ∨ message ∈ chronicle.attempt ∨
            message ∈ turn.produced := by
  refine ⟨fun id record stored => ?_, fun entry entered => ?_, fun before turn after split => ?_⟩
  · have sound := history.runs.sound id
    rw [history.holdings_eq] at stored ⊢
    have last : (Chronicle.ofSteps id (Episode.allSteps episodes)).lastPhase =
        record.lastCompletedPhase := by
      rw [Chronicle.lastPhase, show (Chronicle.ofSteps id _).execution? = some record from stored]
      rfl
    exact ⟨last.symm.trans sound.last_eq, sound.phases_eq, sound.journal_eq⟩
  · exact history.entry_consistent new entered
  · rcases Call.make_madeFrom history.holdings_eq new with
      nothing | ⟨entry, entered, enters, admitted, made⟩
    · rw [nothing] at split
      simp at split
    rw [split] at admitted made
    obtain ⟨_, progress⟩ := admitted (before ++ [.visit turn]) (by simp)
    rw [List.nil_append] at progress
    have sound := history.runs.sound entry.execution.id
    obtain ⟨mine, place, stamped, whole⟩ := progress.attempt_of_visit enters sound
    have log := congrArg Bus.log (Surroundings.bus_behind (call.surroundings entry) before)
    have start : Message.Numbered ((call.surroundings entry).behind before).bus.log := by
      rw [log]
      have visits := made.of_prefix (List.prefix_append _ _)
      exact visits.numbered (history.entry_consistent new entered).2
    obtain ⟨_, actor, known, execution, bench, same, shared, buses, consumed⟩ :=
      made.at_visit.reads start
    rw [log, show (call.surroundings entry).bus.log = entry.journal.messages from rfl, ← whole]
      at consumed
    dsimp only
    rw [mine]
    refine ⟨place, stamped, entry, entered, actor, known, execution, bench, same, shared,
      ?_, ?_, ?_⟩
    · refine Eq.trans ?_ whole.symm
      exact (congrArg (fun found => found.bus.log) shared).trans log
    · intro bus mem
      rw [show bench.bus = _ from congrArg Surroundings.bus shared]
      exact buses bus mem
    · intro message mem
      simpa [or_assoc] using consumed message mem

/-- What a run has left in the journal that died before its record is not read by the next one. -/
theorem History.journal_past_stale_tail :
    let file : View → Task Unit := fun _ => Task.report (.inhibitor "old" "too old")
    let workflow := Workflow.single (.plain "apply" "upgrade")
    let first := (Call.probing file (.fresh .upgrade default) (some 3)).make workflow
      MemoryStore.empty
    let again := Call.probing file (.resume .upgrade none) none
    ((holdings first.2).journal default).messages.length = 1 ∧
      (again.make workflow first.2).1.outcome? = some .completed ∧
      ∀ entry, ((again.setting workflow).entry again.supply again.request first.2).1 = .ok entry →
        entry.execution.id = default → entry.journal.messages = [] := by
  intro file workflow first again
  have stale : ((holdings first.2).journal default).messages.length = 1 := by decide +revert
  have outcome : (again.make workflow first.2).1.outcome? = some .completed := by decide +revert
  have nothing : (Chronicle.ofSteps default (Episode.allSteps [first.1])).committed = [] := by
    decide +revert
  have begun : History workflow [first.1] first.2 :=
    (History.empty rfl).call _ (Call.namesNew_empty _)
  refine ⟨stale, outcome, fun entry entered own => ?_⟩
  have kept := (begun.journal_consistent (Call.namesNew_of_resume rfl first.2)).2.1 entry entered
  rw [kept.1, own]
  exact nothing

end

end PhasedUpgrade
