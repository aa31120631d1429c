import PhasedUpgrade.Proofs.Run.Chronicle
import PhasedUpgrade.Proofs.Run.Compliance

/-!
# Histories of calls

Any number of calls of one workflow on one store. A call may be made with any registry, options and
answers, any of its writes may fail, and its process may die between any two of its steps. Seen from
outside such a history is a list of runs that keep to the protocol (`History.runs`), each of them
entered by what the runs before it have left in the store.
-/

namespace PhasedUpgrade

open LawfulStore (holdings)

structure Call where
  registry : Registry
  supply : Supply
  request : RunRequest
  options : RunOptions
  answers : Answers
  /-- The number of steps after which its process dies, if it does. -/
  lifespan : Option Nat

/-- A call that has been made: the steps that were carried out, and its result if it gave one. -/
structure Episode where
  call : Call
  steps : List RunStep
  result : Option (Except RunError RunResult)

/-! ## Reads of stores -/

/-- A property of stores that stays whatever is read of them. -/
structure Store.ReadsKeep {σ : Type} [Store σ] (P : σ → Prop) : Prop where
  load (id : ExecutionId) {store : σ} : P store → P (Store.load id store).2
  mostRecent (kind : ExecutionKind) {store : σ} : P store → P (Store.mostRecent kind store).2
  loadJournal (id : ExecutionId) {store : σ} : P store → P (Store.loadJournal id store).2

namespace Store.ReadsKeep

variable {σ : Type} [Store σ] {P : σ → Prop} {store : σ}

theorem sought (reads : Store.ReadsKeep P) (kind : ExecutionKind) (id : Option ExecutionId)
    (h : P store) : P (Entry.sought kind id store).2 := by
  cases id with
  | none =>
      have kept := reads.mostRecent kind h
      rcases answer : Store.mostRecent kind store with ⟨_ | _ | execution, after⟩ <;>
        simpa [Entry.sought, answer] using kept
  | some id =>
      have kept := reads.load id h
      rcases answer : Store.load id store with ⟨_ | _ | execution, after⟩ <;>
        simpa [Entry.sought, answer] using kept

theorem entry (reads : Store.ReadsKeep P) (setting : Setting) (supply : Supply)
    (request : RunRequest) (h : P store) : P (setting.entry supply request store).2 := by
  cases request with
  | fresh kind configuration => exact h
  | resume kind id =>
      have kept := reads.sought kind id h
      unfold Setting.entry Entry.resume
      simp only
      rcases answer : Entry.sought kind id store with ⟨error | execution, after⟩ <;>
        rw [answer] at kept
      · exact kept
      · cases placed : setting.workflow.resumePlace execution with
        | error error => simpa [placed] using kept
        | ok place =>
            have last := reads.loadJournal execution.id kept
            rcases reading : Store.loadJournal execution.id after with ⟨error | journal, later⟩ <;>
              simpa [placed, reading] using last

end Store.ReadsKeep

theorem LawfulStore.readsKeep {σ : Type} [LawfulStore σ] (held : Holdings) :
    Store.ReadsKeep fun store : σ => holdings store = held where
  load id _ h := (holdings_load id _).trans h
  mostRecent kind _ h := (holdings_mostRecent kind _).trans h
  loadJournal id _ h := (holdings_loadJournal id _).trans h

/-! ## Single calls -/

namespace Call

def setting (call : Call) (workflow : Workflow) : Setting :=
  ⟨workflow, call.registry⟩

def living (call : Call) (steps : List RunStep) : List RunStep :=
  match call.lifespan with
  | none => steps
  | some count => steps.take count

def survives (call : Call) (steps : List RunStep) : Bool :=
  match call.lifespan with
  | none => true
  | some count => steps.length ≤ count

theorem living_prefix (call : Call) (steps : List RunStep) : call.living steps <+: steps := by
  unfold living
  cases call.lifespan with
  | none => exact List.prefix_rfl
  | some count => exact List.take_prefix count steps

theorem living_of_survives {call : Call} {steps : List RunStep} (h : call.survives steps = true) :
    call.living steps = steps := by
  unfold survives at h
  unfold living
  cases lifespan : call.lifespan with
  | none => rfl
  | some count =>
      rw [lifespan] at h
      exact List.take_of_length_le (by simpa using h)

variable {σ : Type} [Store σ]

/-- Carry out an account for as long as the process lives. -/
def carryOut (call : Call) (account : Account RunResult) (store : σ) : Episode × σ :=
  match RunStep.performAll (call.living account.steps) store with
  | (done, .error error, store) => (⟨call, done, some (.error (.store error))⟩, store)
  | (done, .ok (), store) =>
      (⟨call, done, if call.survives account.steps then some account.ended else none⟩, store)

def make (call : Call) (workflow : Workflow) (store : σ) : Episode × σ :=
  match (call.setting workflow).entry call.supply call.request store with
  | (.error error, store) => (⟨call, [], some (.error error)⟩, store)
  | (.ok entry, store) =>
      match (call.setting workflow).account call.supply call.options call.answers entry with
      | .error error => (⟨call, [], some (.error error)⟩, store)
      | .ok account => call.carryOut account store

theorem make_eq (call : Call) (workflow : Workflow) (store : σ) :
    (∃ error, call.make workflow store = (⟨call, [], some (.error error)⟩,
        ((call.setting workflow).entry call.supply call.request store).2) ∧
      (((call.setting workflow).entry call.supply call.request store).1 = .error error ∨
        ∃ entry, ((call.setting workflow).entry call.supply call.request store).1 = .ok entry ∧
          (call.setting workflow).account call.supply call.options call.answers entry =
            .error error)) ∨
    ∃ entry account after,
      (call.setting workflow).entry call.supply call.request store = (.ok entry, after) ∧
      (call.setting workflow).account call.supply call.options call.answers entry = .ok account ∧
      call.make workflow store = call.carryOut account after := by
  unfold make
  rcases entered : (call.setting workflow).entry call.supply call.request store with
    ⟨error | entry, after⟩
  · exact .inl ⟨error, rfl, .inl rfl⟩
  · cases planned : (call.setting workflow).account call.supply call.options call.answers entry with
    | error error => exact .inl ⟨error, by simp [planned], .inr ⟨entry, rfl, planned⟩⟩
    | ok account => exact .inr ⟨entry, account, after, rfl, planned, by simp [planned]⟩

end Call

def Call.NamesNew {σ : Type} [LawfulStore σ] (call : Call) (store : σ) : Prop :=
  ∀ kind configuration, call.request = .fresh kind configuration →
    (holdings store).execution? call.supply.executionId = none

/-! ## Histories -/

/-- The calls that have been made of a workflow on a store that was empty before. -/
inductive History (workflow : Workflow) {σ : Type} [LawfulStore σ] : List Episode → σ → Prop
  | empty {store : σ} : holdings store = .empty → History workflow [] store
  | call {episodes : List Episode} {store : σ} (call : Call) :
      History workflow episodes store → call.NamesNew store →
      History workflow (episodes ++ [(call.make workflow store).1]) (call.make workflow store).2
  /-- Between calls a store may change in anything but what it holds. -/
  | idle {episodes : List Episode} {store other : σ} :
      History workflow episodes store → holdings other = holdings store →
      History workflow episodes other

def Episode.allSteps (episodes : List Episode) : List RunStep :=
  (episodes.map Episode.steps).flatten

/-- How a run may be entered when some steps have been taken. -/
inductive Enters (workflow : Workflow) (log : List RunStep) : Entry → Prop
  | fresh {id : ExecutionId} (new : (Chronicle.ofSteps id log).execution? = none)
      (kind : ExecutionKind) (configuration : Configuration) (time : Time.Instant) :
      Enters workflow log (.fresh workflow id kind configuration time)
  | resumed {execution : Execution} {place : Nat}
      (stored : (Chronicle.ofSteps execution.id log).execution? = some execution)
      (placed : workflow.resumePlace execution = .ok place) :
      Enters workflow log ⟨execution, place, workflow.committedJournal place
        (Chronicle.ofSteps execution.id log).journal, true⟩

/-- Runs that keep to the protocol, one after the other, however far each is carried out. -/
inductive Runs (workflow : Workflow) : List (List RunStep) → Prop
  | none : Runs workflow []
  | idle {runs : List (List RunStep)} : Runs workflow runs → Runs workflow (runs ++ [[]])
  | run {runs : List (List RunStep)} {entry : Entry} {done : List RunStep} {standing : Standing} :
      Runs workflow runs → Enters workflow runs.flatten entry →
      Progress workflow entry done standing → Runs workflow (runs ++ [done])

section

variable {workflow : Workflow} {σ : Type} [LawfulStore σ] {log : List RunStep} {store : σ}

namespace Entry

variable {kind : ExecutionKind} {id : Option ExecutionId} {entry : Entry} {execution : Execution}

theorem load_of_sought {id : ExecutionId} (h : (sought kind (some id) store).1 = .ok execution) :
    (Store.load id store).1 = .ok (some execution) := by
  simp only [sought] at h
  rcases answer : Store.load id store with ⟨_ | _ | found, after⟩ <;> rw [answer] at h <;> cases h
  rfl

theorem mostRecent_of_sought (h : (sought kind none store).1 = .ok execution) :
    (Store.mostRecent kind store).1 = .ok (some execution) := by
  simp only [sought] at h
  rcases answer : Store.mostRecent kind store with ⟨_ | _ | found, after⟩ <;> rw [answer] at h <;>
    cases h
  rfl

theorem stored_of_sought (held : ∀ name, id = some name → StoresOf name log store)
    (h : (sought kind id store).1 = .ok execution) :
    (holdings store).execution? execution.id = some execution := by
  cases id with
  | none => exact LawfulStore.stored_of_mostRecent (mostRecent_of_sought h)
  | some id =>
      have stored := LawfulStore.eq_of_load (load_of_sought h)
      rw [Chronicle.id_eq_of_stored ((held id rfl).1.symm.trans stored)]
      exact stored

theorem holdings_sought (kind : ExecutionKind) (id : Option ExecutionId) (store : σ) :
    holdings (sought kind id store).2 = holdings store :=
  (LawfulStore.readsKeep (holdings store)).sought kind id rfl

theorem resume_eq_ok {σ : Type} [Store σ] {store : σ}
    (h : (resume workflow kind id store).1 = .ok entry) :
    ∃ execution place journal after later, sought kind id store = (.ok execution, after) ∧
      workflow.resumePlace execution = .ok place ∧
      Store.loadJournal execution.id after = (.ok journal, later) ∧
      entry = ⟨execution, place, workflow.committedJournal place journal, true⟩ := by
  unfold resume at h
  rcases answer : sought kind id store with ⟨error | execution, after⟩ <;> simp only [answer] at h
  · cases h
  · cases placed : workflow.resumePlace execution with
    | error error =>
        rw [placed] at h
        cases h
    | ok place =>
        rw [placed] at h
        rcases reading : Store.loadJournal execution.id after with ⟨error | journal, later⟩ <;>
          simp only [reading] at h
        · cases h
        · exact ⟨execution, place, journal, after, later, rfl, placed, reading,
            (Except.ok.inj h).symm⟩

theorem enters_of_resume (held : ∀ name, id = some name → StoresOf name log store)
    (known : StoresOf entry.execution.id log store)
    (h : (resume workflow kind id store).1 = .ok entry) : Enters workflow log entry := by
  obtain ⟨execution, place, journal, after, later, answer, placed, reading, rfl⟩ := resume_eq_ok h
  have stored := stored_of_sought held (congrArg Prod.fst answer)
  have same := holdings_sought kind id store
  have kept := LawfulStore.eq_of_loadJournal (congrArg Prod.fst reading)
  rw [answer] at same
  rw [show holdings after = holdings store from same, known.2] at kept
  rw [← kept]
  exact .resumed (known.1.symm.trans stored) placed

end Entry

theorem Setting.holdings_entry (setting : Setting) (supply : Supply) (request : RunRequest)
    (store : σ) : holdings (setting.entry supply request store).2 = holdings store :=
  (LawfulStore.readsKeep (holdings store)).entry setting supply request rfl

theorem Setting.entry_spec (workflow : Workflow) {call : Call}
    (held : holdings store = .ofSteps log) (new : call.NamesNew store) :
    holdings ((call.setting workflow).entry call.supply call.request store).2 = .ofSteps log ∧
      ∀ entry, ((call.setting workflow).entry call.supply call.request store).1 = .ok entry →
        Enters workflow log entry := by
  refine ⟨(Setting.holdings_entry _ call.supply call.request store).trans held, ?_⟩
  intro entry entered
  unfold Setting.entry at entered
  cases request : call.request with
  | fresh kind configuration =>
      rw [request] at entered
      obtain rfl := Except.ok.inj entered
      have absent := new kind configuration request
      rw [held] at absent
      exact .fresh absent kind configuration _
  | resume kind id =>
      rw [request] at entered
      have each := holdings_eq_iff.mp held
      exact Entry.enters_of_resume (fun name _ => each name) (each entry.execution.id) entered

end

/-! ## Histories as runs -/

section

variable {workflow : Workflow} {σ : Type} [LawfulStore σ] {log : List RunStep} {store : σ}
  {call : Call}

theorem Call.steps_carryOut {σ : Type} [Store σ] (call : Call) (account : Account RunResult)
    (store : σ) : (call.carryOut account store).1.steps =
      (RunStep.performAll (call.living account.steps) store).1 := by
  unfold carryOut
  rcases RunStep.performAll (call.living account.steps) store with
    ⟨done, error | ⟨⟨⟩⟩, last⟩ <;> rfl

theorem Call.store_carryOut {σ : Type} [Store σ] (call : Call) (account : Account RunResult)
    (store : σ) : (call.carryOut account store).2 =
      (RunStep.performAll (call.living account.steps) store).2.2 := by
  unfold carryOut
  rcases RunStep.performAll (call.living account.steps) store with
    ⟨done, error | ⟨⟨⟩⟩, last⟩ <;> rfl

theorem Call.carryOut_prefix {σ : Type} [Store σ] (call : Call) (account : Account RunResult)
    (store : σ) : (call.carryOut account store).1.steps <+: account.steps := by
  rw [steps_carryOut]
  exact (RunStep.performAll_prefix (call.living account.steps) store).1.trans
    (call.living_prefix account.steps)

theorem Call.carryOut_storesOf (call : Call) (account : Account RunResult) {id : ExecutionId}
    (held : StoresOf id log store) :
    StoresOf id (log ++ (call.carryOut account store).1.steps) (call.carryOut account store).2 := by
  rw [steps_carryOut, store_carryOut]
  exact RunStep.performAll_storesOf held (call.living account.steps)

theorem Call.carryOut_spec (call : Call) (account : Account RunResult)
    (held : holdings store = .ofSteps log) :
    (call.carryOut account store).1.steps <+: account.steps ∧
      holdings (call.carryOut account store).2 =
        .ofSteps (log ++ (call.carryOut account store).1.steps) :=
  ⟨call.carryOut_prefix account store,
    holdings_eq_iff.mpr fun id => call.carryOut_storesOf account (holdings_eq_iff.mp held id)⟩

/-- A call takes no steps, or such as keep to the protocol from a lawful entry on. -/
theorem Call.make_spec (workflow : Workflow) (held : holdings store = .ofSteps log)
    (new : call.NamesNew store) :
    holdings (call.make workflow store).2 = .ofSteps (log ++ (call.make workflow store).1.steps) ∧
      ((call.make workflow store).1.steps = [] ∨
        ∃ entry standing, Enters workflow log entry ∧
          Progress workflow entry (call.make workflow store).1.steps standing) := by
  obtain ⟨same, enters⟩ := Setting.entry_spec workflow held new
  rcases call.make_eq workflow store with
    ⟨error, out, _⟩ | ⟨entry, account, after, entered, planned, made⟩
  · rw [out]
    exact ⟨by simpa using same, .inl rfl⟩
  · rw [entered] at same enters
    obtain ⟨first, last⟩ := call.carryOut_spec account same
    obtain ⟨standing, progress⟩ := Setting.account_progress planned first
    rw [made]
    exact ⟨last, .inr ⟨entry, standing, enters entry rfl, progress⟩⟩

end

namespace History

variable {workflow : Workflow} {σ : Type} [LawfulStore σ] {episodes : List Episode} {store : σ}

theorem allSteps_concat (episodes : List Episode) (episode : Episode) :
    Episode.allSteps (episodes ++ [episode]) = Episode.allSteps episodes ++ episode.steps := by
  simp [Episode.allSteps]

/-- What a store holds are the records and journals that the calls have written last. -/
theorem holdings_eq (h : History workflow episodes store) :
    holdings store = .ofSteps (Episode.allSteps episodes) := by
  induction h with
  | empty nothing => exact nothing
  | call call _ new ih =>
      rw [allSteps_concat]
      exact (Call.make_spec workflow ih new).1
  | idle _ same ih => rw [same, ih]

theorem runs (h : History workflow episodes store) :
    Runs workflow (episodes.map Episode.steps) := by
  induction h with
  | empty _ => exact .none
  | call call history new ih =>
      rw [List.map_append, List.map_singleton]
      rcases (Call.make_spec workflow history.holdings_eq new).2 with
        nothing | ⟨entry, standing, enters, progress⟩
      · rw [nothing]
        exact ih.idle
      · exact ih.run enters progress
  | idle _ _ ih => exact ih

end History

/-! ## Small calls -/

def Workflow.single (phase : Phase) : Workflow :=
  ⟨"upgrade", "upgrade", [phase], List.cons_ne_nil phase [], by simp⟩

/-- A workflow of two phases with a reboot between them. -/
def Workflow.rebooting : Workflow where
  name := "upgrade"
  tag := "upgrade"
  phases := [{ Phase.plain "prepare" "upgrade" with restart := true }, .plain "apply" "upgrade"]
  phases_ne_nil := List.cons_ne_nil _ _
  nodup_names := by decide

/-- An actor that takes part in all phases with the tag and may file reports. -/
def Actor.probe (behave : View → Task Unit) : Actor where
  name := "probe"
  description := ""
  consumes := ∅
  produces := .ofList ["Report"]
  tags := .ofList ["upgrade"]
  experimental := false
  behave := behave

/-- A call with one actor, at a time that stands still. -/
def Call.probing (behave : View → Task Unit) (request : RunRequest) (lifespan : Option Nat) :
    Call where
  registry := ⟨.builtin, [.probe behave], by simp⟩
  supply := ⟨fun _ => .epoch, fun _ => default, default⟩
  request := request
  options := .none
  answers := .empty
  lifespan := lifespan

theorem Call.namesNew_of_resume {σ : Type} [LawfulStore σ] {call : Call} {kind : ExecutionKind}
    {id : Option ExecutionId} (h : call.request = .resume kind id) (store : σ) :
    call.NamesNew store := by
  intro other configuration fresh
  rw [h] at fresh
  cases fresh

theorem Call.namesNew_empty (call : Call) : call.NamesNew MemoryStore.empty :=
  fun _ _ _ => rfl

end PhasedUpgrade
