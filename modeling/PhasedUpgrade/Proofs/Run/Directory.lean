import PhasedUpgrade.Proofs.Run.History
import PhasedUpgrade.Proofs.Store.Reliable

/-!
# Histories in directories

A directory that starts out vacant goes through the same episodes as a store in memory, as long as
all records that are written are told wholly by their texts. So whatever holds of all histories
holds of what is done in a directory, and of what its files tell.
-/

namespace PhasedUpgrade

open LawfulStore (holdings)

/-! ## Stores that answer alike -/

namespace StoreCall

variable {σ : Type} [Store σ]

def failed (error : StoreError) : StoreCall → StoreAnswer
  | .save _ | .saveJournal _ _ => .written (.error error)
  | .load _ | .mostRecent _ => .execution (.error error)
  | .loadJournal _ => .journal (.error error)

theorem ask_watched (call : StoreCall) (watched : Watched σ) :
    call.ask watched =
      if watched.failsNext call then
        (call.failed (.unavailable "disk full"), { watched with calls := watched.calls ++ [call] })
      else
        ((call.ask watched.store).1,
          ⟨(call.ask watched.store).2, watched.calls ++ [call], watched.fault⟩) := by
  by_cases fails : watched.failsNext call
  · rw [if_pos fails]
    cases call <;>
      simp only [ask, Store.save, Store.load, Store.mostRecent, Store.saveJournal,
        Store.loadJournal, Watched.answer, if_pos fails, failed]
  · rw [if_neg fails]
    cases call <;>
      simp only [ask, Store.save, Store.load, Store.mostRecent, Store.saveJournal,
        Store.loadJournal, Watched.answer, if_neg fails]

end StoreCall

/-- Two stores say the same, and are related behind it. -/
def Store.SayAlike {α σ τ : Type} (R : σ → τ → Prop) (said : α × σ) (other : α × τ) : Prop :=
  said.1 = other.1 ∧ R said.2 other.2

theorem Store.SayAlike.exists_eq {α σ τ : Type} {R : σ → τ → Prop} {said : α × σ} {other : α × τ}
    (h : SayAlike R said other) :
    ∃ result after after', said = (result, after) ∧ other = (result, after') ∧ R after after' :=
  ⟨said.1, said.2, other.2, rfl, Prod.ext h.1.symm rfl, h.2⟩

/-- Related stores answer alike every call for lasting records, and stay related. -/
def Store.AnswerAlike {σ τ : Type} [Store σ] [Store τ] (R : σ → τ → Prop) : Prop :=
  ∀ (call : StoreCall) (store : σ) (other : τ), R store other → call.Lasting →
    SayAlike R (call.ask store) (call.ask other)

namespace Store.AnswerAlike

variable {σ τ : Type} [Store σ] [Store τ] {R : σ → τ → Prop} {store : σ} {other : τ}

theorem load (alike : AnswerAlike R) (related : R store other) (id : ExecutionId) :
    SayAlike R (Store.load id store) (Store.load id other) :=
  (alike (.load id) store other related trivial).imp_left StoreAnswer.execution.inj

theorem mostRecent (alike : AnswerAlike R) (related : R store other) (kind : ExecutionKind) :
    SayAlike R (Store.mostRecent kind store) (Store.mostRecent kind other) :=
  (alike (.mostRecent kind) store other related trivial).imp_left StoreAnswer.execution.inj

theorem loadJournal (alike : AnswerAlike R) (related : R store other) (id : ExecutionId) :
    SayAlike R (Store.loadJournal id store) (Store.loadJournal id other) :=
  (alike (.loadJournal id) store other related trivial).imp_left StoreAnswer.journal.inj

theorem save (alike : AnswerAlike R) (related : R store other) {execution : Execution}
    (lasting : execution.Lasting) :
    SayAlike R (Store.save execution store) (Store.save execution other) :=
  (alike (.save execution) store other related lasting).imp_left StoreAnswer.written.inj

theorem saveJournal (alike : AnswerAlike R) (related : R store other) (id : ExecutionId)
    {journal : Journal} (lasting : journal.Lasting) :
    SayAlike R (Store.saveJournal id journal store) (Store.saveJournal id journal other) :=
  (alike (.saveJournal id journal) store other related lasting).imp_left StoreAnswer.written.inj

end Store.AnswerAlike

/-! ## Watched pairs -/

/-- Watched stores that have got the same calls, of which the same one is to fail. -/
structure Watched.Paired {σ τ : Type} (R : σ → τ → Prop) (watched : Watched σ)
    (other : Watched τ) : Prop where
  store : R watched.store other.store
  calls_eq : watched.calls = other.calls
  fault_eq : watched.fault = other.fault

theorem Store.AnswerAlike.watched {σ τ : Type} [Store σ] [Store τ] {R : σ → τ → Prop}
    (alike : Store.AnswerAlike R) : Store.AnswerAlike (Watched.Paired R) := by
  intro call watched other paired lasting
  obtain ⟨same, kept⟩ := alike call watched.store other.store paired.store lasting
  have fails : watched.failsNext call = other.failsNext call := by
    unfold Watched.failsNext
    rw [paired.fault_eq, paired.calls_eq]
  rw [StoreCall.ask_watched, StoreCall.ask_watched, fails]
  split
  · exact ⟨rfl, paired.store, congrArg (· ++ [call]) paired.calls_eq, paired.fault_eq⟩
  · exact ⟨same, kept, congrArg (· ++ [call]) paired.calls_eq, paired.fault_eq⟩

/-! ## Directories and memory -/

/-- A directory keeps the texts of what a store in memory holds. -/
def DirectoryStore.Copies (store : DirectoryStore) (memory : MemoryStore) : Prop :=
  store.Mirrors (holdings memory)

theorem MemoryStore.Holds.holdings_eq {memory : MemoryStore} {held : Holdings}
    (holds : memory.Holds held) : holdings memory = held :=
  congrArg₂ Holdings.mk (funext holds.execution) (funext holds.journal)

theorem DirectoryStore.answerAlike_copies : Store.AnswerAlike DirectoryStore.Copies := by
  intro call store memory copies lasting
  have holds : memory.Holds (holdings memory) := ⟨fun _ => rfl, fun _ => rfl⟩
  obtain ⟨said, kept⟩ := copies.answered lasting
  obtain ⟨answered, remembered⟩ := holds.answered call
  refine ⟨said.unique answered, ?_⟩
  unfold Copies
  rw [remembered.holdings_eq]
  exact kept

/-! ## Calls on two stores -/

namespace Store.AnswerAlike

variable {σ τ : Type} [Store σ] [Store τ] {R : σ → τ → Prop} {store : σ} {other : τ}

theorem sought (alike : AnswerAlike R) (related : R store other) (kind : ExecutionKind)
    (id : Option ExecutionId) :
    SayAlike R (Entry.sought kind id store) (Entry.sought kind id other) := by
  cases id with
  | none =>
      obtain ⟨result, _, _, said, said', kept⟩ := (alike.mostRecent related kind).exists_eq
      simp only [Entry.sought, said, said']
      rcases result with error | _ | execution <;> exact ⟨rfl, kept⟩
  | some id =>
      obtain ⟨result, _, _, said, said', kept⟩ := (alike.load related id).exists_eq
      simp only [Entry.sought, said, said']
      rcases result with error | _ | execution <;> exact ⟨rfl, kept⟩

theorem entry (alike : AnswerAlike R) (related : R store other) (setting : Setting)
    (supply : Supply) (request : RunRequest) :
    SayAlike R (setting.entry supply request store) (setting.entry supply request other) := by
  cases request with
  | fresh kind configuration => exact ⟨rfl, related⟩
  | resume kind id =>
      obtain ⟨result, _, _, said, said', kept⟩ := (alike.sought related kind id).exists_eq
      simp only [Setting.entry, Entry.resume, said, said']
      cases result with
      | error error => exact ⟨rfl, kept⟩
      | ok execution =>
          dsimp only
          cases setting.workflow.resumePlace execution with
          | error error => exact ⟨rfl, kept⟩
          | ok place =>
              obtain ⟨result, _, _, read, read', last⟩ :=
                (alike.loadJournal kept execution.id).exists_eq
              simp only [read, read']
              cases result <;> exact ⟨rfl, last⟩

theorem perform (alike : AnswerAlike R) (related : R store other) {step : RunStep}
    (lasting : step.AcceptedBy DirectoryStore) :
    SayAlike R (step.perform store) (step.perform other) := by
  cases step with
  | setVariable name value => exact ⟨rfl, related⟩
  | visit turn => exact ⟨rfl, related⟩
  | save execution => exact alike.save related lasting
  | saveJournal id journal => exact alike.saveJournal related id lasting

/-- Steps are carried out on both stores up to the same one, and fail alike. -/
theorem performAll (alike : AnswerAlike R) (related : R store other) {steps : List RunStep}
    (lasting : ∀ step ∈ steps, step.AcceptedBy DirectoryStore) :
    ∃ done result after after', RunStep.performAll steps store = (done, result, after) ∧
      RunStep.performAll steps other = (done, result, after') ∧ R after after' := by
  induction steps generalizing store other with
  | nil => exact ⟨[], .ok (), store, other, rfl, rfl, related⟩
  | cons step rest ih =>
      obtain ⟨here, later⟩ := List.forall_mem_cons.mp lasting
      obtain ⟨result, _, _, said, said', kept⟩ := (alike.perform related here).exists_eq
      simp only [RunStep.performAll, said, said']
      cases result with
      | error error => exact ⟨[], .error error, _, _, rfl, rfl, kept⟩
      | ok _ =>
          obtain ⟨done, result, _, _, all, all', last⟩ := ih kept later
          simp only [all, all']
          exact ⟨step :: done, result, _, _, rfl, rfl, last⟩

end Store.AnswerAlike

namespace Call

variable {σ τ : Type} [Store σ] [Store τ] {R : σ → τ → Prop} {store : σ} {other : τ}

/-- All that a call writes for as long as it lives is told wholly by its text. -/
def WritesLasting (call : Call) (workflow : Workflow) (store : σ) : Prop :=
  ∀ entry account, ((call.setting workflow).entry call.supply call.request store).1 = .ok entry →
    (call.setting workflow).account call.supply call.options call.answers entry = .ok account →
      ∀ step ∈ call.living account.steps, step.AcceptedBy DirectoryStore

theorem carryOut_alike (alike : Store.AnswerAlike R) (related : R store other) {call : Call}
    {account : Account RunResult}
    (lasting : ∀ step ∈ call.living account.steps, step.AcceptedBy DirectoryStore) :
    Store.SayAlike R (call.carryOut account store) (call.carryOut account other) := by
  obtain ⟨done, result, _, _, all, all', kept⟩ := alike.performAll related lasting
  simp only [carryOut, all, all']
  cases result <;> exact ⟨rfl, kept⟩

/-- A call goes the same way on both stores. -/
theorem make_alike (alike : Store.AnswerAlike R) (related : R store other) {call : Call}
    {workflow : Workflow} (lasting : call.WritesLasting workflow store) :
    Store.SayAlike R (call.make workflow store) (call.make workflow other) := by
  obtain ⟨result, _, _, said, said', kept⟩ :=
    (alike.entry related (call.setting workflow) call.supply call.request).exists_eq
  unfold WritesLasting at lasting
  simp only [make, said, said'] at lasting ⊢
  cases result with
  | error error => exact ⟨rfl, kept⟩
  | ok entry =>
      dsimp only
      cases planned :
          (call.setting workflow).account call.supply call.options call.answers entry with
      | error error => exact ⟨rfl, kept⟩
      | ok account => exact carryOut_alike alike kept (lasting entry account rfl planned)

end Call

/-! ## Pasts of directories -/

/--
The calls that have been made of a workflow on a directory with nothing in it, where all that was
written is told wholly by its text. As in any history, writes may fail and processes may die.
-/
inductive DirectoryStore.Past (workflow : Workflow) : List Episode → Watched DirectoryStore → Prop
  | vacant {watched : Watched DirectoryStore} (nothing : watched.store.Vacant) :
      Past workflow [] watched
  | call {episodes : List Episode} {watched : Watched DirectoryStore} (call : Call)
      (past : Past workflow episodes watched)
      (new : ∀ kind configuration, call.request = .fresh kind configuration →
        (Store.load call.supply.executionId watched.store).1 = .ok none)
      (lasting : call.WritesLasting workflow watched) :
      Past workflow (episodes ++ [(call.make workflow watched).1]) (call.make workflow watched).2
  /-- Between calls another one may come to be the one that is to fail. -/
  | idle {episodes : List Episode} {watched other : Watched DirectoryStore}
      (past : Past workflow episodes watched) (same : other.store = watched.store) :
      Past workflow episodes other

namespace DirectoryStore.Past

variable {workflow : Workflow} {episodes : List Episode} {watched : Watched DirectoryStore}

/--
The same episodes make a history of a store in memory, and the directory keeps what that holds.
-/
theorem exists_history (past : Past workflow episodes watched) :
    ∃ memory : Watched MemoryStore, History workflow episodes memory ∧
      Watched.Paired Copies watched memory := by
  induction past with
  | @vacant watched nothing =>
      exact ⟨⟨.empty, watched.calls, watched.fault⟩, .empty rfl, nothing.mirrors, rfl, rfl⟩
  | @call episodes watched call _ new lasting ih =>
      obtain ⟨memory, history, paired⟩ := ih
      have unknown : call.NamesNew memory := by
        intro kind configuration request
        have absent := new kind configuration request
        rw [show (Store.load call.supply.executionId watched.store).1 = _ from
          paired.store.execution call.supply.executionId] at absent
        exact Except.ok.inj absent
      obtain ⟨same, later⟩ := Call.make_alike answerAlike_copies.watched paired lasting
      rw [same]
      exact ⟨_, history.call call unknown, later⟩
  | @idle episodes watched other _ same ih =>
      obtain ⟨memory, history, paired⟩ := ih
      exact ⟨⟨memory.store, other.calls, other.fault⟩, history.idle rfl,
        ⟨by rw [same]; exact paired.store, rfl, rfl⟩⟩

/--
What holds of all histories, by what they hold, holds of directories by what their files tell.
-/
theorem carries {P : List Episode → Holdings → Prop}
    (every : ∀ (memory : Watched MemoryStore) (episodes : List Episode),
      History workflow episodes memory → P episodes (holdings memory))
    (past : Past workflow episodes watched) :
    ∃ held, watched.store.Mirrors held ∧ P episodes held := by
  obtain ⟨memory, history, paired⟩ := past.exists_history
  exact ⟨holdings memory, paired.store, every memory episodes history⟩

/-- The files tell of each execution what the calls have written last. -/
theorem load_eq (past : Past workflow episodes watched) (id : ExecutionId) :
    (Store.load id watched.store).1 =
        .ok (Chronicle.ofSteps id (Episode.allSteps episodes)).execution? ∧
      (Store.loadJournal id watched.store).1 =
        .ok (Chronicle.ofSteps id (Episode.allSteps episodes)).journal := by
  obtain ⟨held, mirrors, rfl⟩ := past.carries
    (P := fun episodes held => held = .ofSteps (Episode.allSteps episodes))
    fun _ _ history => history.holdings_eq
  exact ⟨mirrors.execution id, mirrors.journal id⟩

end DirectoryStore.Past

/-- A step that writes no messages, and no times but such with years of four digits. -/
def RunStep.isPlain : RunStep → Bool
  | .save execution => execution.createdAt.InFourDigits && execution.updatedAt.InFourDigits
  | .saveJournal _ journal =>
      journal.messages.isEmpty && journal.audit.all fun event => event.time.InFourDigits
  | .setVariable _ _ | .visit _ => true

theorem RunStep.acceptedBy_of_isPlain {step : RunStep} (h : step.isPlain = true) :
    step.AcceptedBy DirectoryStore := by
  cases step with
  | setVariable name value => trivial
  | visit turn => trivial
  | save execution =>
      simp only [isPlain, Bool.and_eq_true, decide_eq_true_iff] at h
      exact ⟨h.1, h.2⟩
  | saveJournal id journal =>
      simp only [isPlain, Bool.and_eq_true, List.isEmpty_iff, List.all_eq_true,
        decide_eq_true_iff] at h
      exact ⟨by simp [h.1], h.2⟩

/-- An upgrade is begun in a missing directory, where its third record cannot be written. -/
theorem DirectoryStore.past_to_failed_write :
    let call := Call.probing (fun _ => pure ()) (.fresh .upgrade default) none
    let watched : Watched DirectoryStore := ⟨⟨.empty, "/var/lib/ipu"⟩, [], some ⟨"save", 3⟩⟩
    Past .rebooting [(call.make .rebooting watched).1] (call.make .rebooting watched).2 := by
  intro call watched
  have vacant : watched.store.Vacant := .inl (Files.Tree.find_empty (by decide))
  have begun : Past .rebooting [] watched := .vacant vacant
  refine begun.call call (fun _ _ _ => vacant.mirrors.execution _) ?_
  intro entry account entered planned step mem
  obtain rfl := Except.ok.inj entered
  have plain : (((call.setting .rebooting).account call.supply call.options call.answers
      (.fresh .rebooting call.supply.executionId .upgrade default
        (call.supply.time 0))).toOption.all
      fun account => account.steps.all RunStep.isPlain) = true := by decide +kernel
  rw [show (call.setting .rebooting).account call.supply call.options call.answers
    (.fresh .rebooting call.supply.executionId .upgrade default (call.supply.time 0)) =
      .ok account from planned] at plain
  exact RunStep.acceptedBy_of_isPlain (List.all_eq_true.mp plain step mem)

end PhasedUpgrade
