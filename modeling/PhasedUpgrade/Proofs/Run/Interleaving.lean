import PhasedUpgrade.Proofs.Run.Isolation

/-!
# Calls made between other calls

The calls for one execution, its first one and those that take it up by its name, on a store that
also gets calls for other executions. What they come to is told by these calls alone.
-/

namespace PhasedUpgrade

open ReliableStore (Mirrors)
open Account (EndAlike)

/-! ## Holdings of one execution -/

namespace Holdings

/-- What is held of an execution is the same, up to times and event names. -/
structure AlikeFor (id : ExecutionId) (first second : Holdings) : Prop where
  execution :
    (first.execution? id).map Execution.timeless = (second.execution? id).map Execution.timeless
  journal : (first.journal id).Alike (second.journal id)

/-- Every execution is held under its own name. -/
def Named (held : Holdings) : Prop :=
  ∀ id execution, held.execution? id = some execution → execution.id = id

theorem named_empty : empty.Named := by
  intro id execution stored
  cases stored

variable {id : ExecutionId} {held held' : Holdings}

theorem Named.applied (named : held.Named) (step : RunStep) : (step.applied held).Named := by
  cases step with
  | setVariable name value => exact named
  | visit turn => exact named
  | saveJournal name journal => exact named
  | save written =>
      intro id execution stored
      simp only [RunStep.applied, put] at stored
      by_cases here : id = written.id
      · rw [if_pos here] at stored
        rw [← Option.some.inj stored, here]
      · rw [if_neg here] at stored
        exact named id execution stored

theorem Named.behind (named : held.Named) (steps : List RunStep) :
    (steps.foldl RunStep.applied held).Named := by
  induction steps generalizing held with
  | nil => exact named
  | cons step rest ih => exact ih (named.applied step)

theorem AlikeFor.applied (alike : held.AlikeFor id held') {step step' : RunStep}
    (same : step.Alike step') : (step.applied held).AlikeFor id (step'.applied held') := by
  cases same with
  | setVariable name value => exact alike
  | visit turns => exact alike
  | @save first second same =>
      obtain ⟨created, updated, equal⟩ := Execution.exists_of_timeless same
      have own : second.id = first.id := by rw [equal]
      refine ⟨?_, alike.journal⟩
      simp only [RunStep.applied, put, own]
      by_cases here : id = first.id
      · rw [if_pos here, if_pos here, Option.map_some, Option.map_some, same]
      · rw [if_neg here, if_neg here]
        exact alike.execution
  | saveJournal name same =>
      refine ⟨alike.execution, ?_⟩
      simp only [RunStep.applied, putJournal]
      by_cases here : id = name
      · rw [if_pos here, if_pos here]
        exact same
      · rw [if_neg here, if_neg here]
        exact alike.journal

theorem AlikeFor.behind {steps steps' : List RunStep}
    (same : List.Forall₂ RunStep.Alike steps steps') (alike : held.AlikeFor id held') :
    (steps.foldl RunStep.applied held).AlikeFor id (steps'.foldl RunStep.applied held') := by
  induction same generalizing held held' with
  | nil => exact alike
  | cons here _ ih => exact ih (alike.applied here)

/-- Steps for other executions leave what is held of an execution as it is. -/
theorem behind_of_not_concerns (held : Holdings) {steps : List RunStep}
    (apart : ∀ step ∈ steps, ¬ step.concerns id) :
    (steps.foldl RunStep.applied held).execution? id = held.execution? id ∧
      (steps.foldl RunStep.applied held).journal id = held.journal id := by
  induction steps generalizing held with
  | nil => exact ⟨rfl, rfl⟩
  | cons step rest ih =>
      obtain ⟨here, later⟩ := List.forall_mem_cons.mp apart
      obtain ⟨execution, journal⟩ := ih (step.applied held) later
      rw [List.foldl_cons, execution, journal]
      cases step with
      | setVariable name value => exact ⟨rfl, rfl⟩
      | visit turn => exact ⟨rfl, rfl⟩
      | save written => exact ⟨if_neg (Ne.symm here), rfl⟩
      | saveJournal name written => exact ⟨rfl, if_neg (Ne.symm here)⟩

end Holdings

/-! ## Calls for one execution -/

theorem Execution.id_of_timeless {a b : Execution} (h : a.timeless = b.timeless) : a.id = b.id := by
  obtain ⟨created, updated, rfl⟩ := exists_of_timeless h
  rfl

theorem Workflow.resumePlace_of_timeless (workflow : Workflow) {a b : Execution}
    (h : a.timeless = b.timeless) : workflow.resumePlace a = workflow.resumePlace b := by
  obtain ⟨created, updated, rfl⟩ := Execution.exists_of_timeless h
  rfl

theorem Journal.Alike.committed {first second : Journal} (h : first.Alike second)
    (workflow : Workflow) (place : Nat) :
    (workflow.committedJournal place first).Alike (workflow.committedJournal place second) := by
  have kept (messages : List Message) (phases : List String) :
      (messages.filter fun message => phases.contains message.phase).map Message.timeless =
        (messages.map Message.timeless).filter fun message => phases.contains message.phase := by
    rw [List.filter_map]
    rfl
  refine ⟨?_, h.audit⟩
  unfold Message.Alike Workflow.committedJournal
  rw [kept, kept, h.messages]

def Holdings.entry (held : Holdings) (workflow : Workflow) (id : ExecutionId) :
    Except RunError Entry :=
  match held.execution? id with
  | none => .error (.refused (.unknownExecution id.text))
  | some execution => (workflow.resumePlace execution).map fun place =>
      ⟨execution, place, workflow.committedJournal place (held.journal id), true⟩

theorem Entry.resume_eq {σ : Type} [ReliableStore σ] {store : σ} {held : Holdings}
    (mirrors : Mirrors store held) {id : ExecutionId}
    (named : ∀ execution, held.execution? id = some execution → execution.id = id)
    (workflow : Workflow) (kind : ExecutionKind) :
    (resume workflow kind (some id) store).1 = held.entry workflow id := by
  obtain ⟨after, answer, kept⟩ := ReliableStore.load_eq mirrors id
  simp only [resume, sought, answer, Holdings.entry]
  cases stored : held.execution? id with
  | none => rfl
  | some execution =>
      obtain ⟨last, reading, _⟩ := ReliableStore.loadJournal_eq kept id
      have own : execution.id = id := named execution stored
      dsimp only
      cases workflow.resumePlace execution with
      | error error => rfl
      | ok place =>
          simp only [own, reading]
          rfl

theorem Holdings.AlikeFor.named {id : ExecutionId} {first second : Holdings}
    (alike : first.AlikeFor id second)
    (named : ∀ execution, first.execution? id = some execution → execution.id = id) :
    ∀ execution, second.execution? id = some execution → execution.id = id := by
  intro execution' stored'
  have executions := alike.execution
  rw [stored'] at executions
  obtain ⟨execution, stored, times⟩ := Option.map_eq_some_iff.mp executions
  exact (Execution.id_of_timeless times).symm.trans (named execution stored)

/-- What is held alike of an execution is taken up alike, or refused alike. -/
theorem Holdings.AlikeFor.entry {id : ExecutionId} {first second : Holdings}
    (alike : first.AlikeFor id second) (workflow : Workflow) :
    EndAlike Entry.Alike (first.entry workflow id) (second.entry workflow id) := by
  have executions := alike.execution
  unfold Holdings.entry
  cases stored : first.execution? id with
  | none =>
      rw [stored] at executions
      rw [Option.map_eq_none_iff.mp executions.symm]
      exact .error _
  | some execution =>
      rw [stored] at executions
      obtain ⟨execution', stored', times⟩ := Option.map_eq_some_iff.mp executions.symm
      rw [stored']
      dsimp only
      rw [Workflow.resumePlace_of_timeless workflow times]
      cases workflow.resumePlace execution with
      | error error => exact .error _
      | ok place => exact .ok ⟨times.symm, rfl, alike.journal.committed workflow place, rfl⟩

namespace Call

/-- A call begins an execution, or takes it up by its name if it is not the first for it. -/
inductive For (id : ExecutionId) : Bool → Call → Prop
  | begins {call : Call} {kind : ExecutionKind} {configuration : Configuration}
      (request : call.request = .fresh kind configuration) (named : call.supply.executionId = id) :
      For id true call
  | takesUp {call : Call} {kind : ExecutionKind} (request : call.request = .resume kind (some id)) :
      For id false call

structure SameAs (first second : Call) : Prop where
  registry_eq : first.registry = second.registry
  request_eq : first.request = second.request
  options_eq : first.options = second.options
  answers_eq : first.answers = second.answers
  lifespan_eq : first.lifespan = second.lifespan
  named : ∀ kind configuration, first.request = .fresh kind configuration →
    first.supply.executionId = second.supply.executionId

theorem SameAs.refl (call : Call) : call.SameAs call :=
  ⟨rfl, rfl, rfl, rfl, rfl, fun _ _ _ => rfl⟩

variable {id : ExecutionId} {call call' : Call} {first : Bool}

def AcceptedIn {σ : Type} [ReliableStore σ] (call : Call) (workflow : Workflow) (store : σ) :
    Prop :=
  ∀ entry account, ((call.setting workflow).entry call.supply call.request store).1 = .ok entry →
    (call.setting workflow).account call.supply call.options call.answers entry = .ok account →
      ∀ step ∈ account.steps, step.AcceptedBy σ

theorem living_alike (same : call.SameAs call') {steps steps' : List RunStep}
    (alike : List.Forall₂ RunStep.Alike steps steps') :
    List.Forall₂ RunStep.Alike (call.living steps) (call'.living steps') := by
  unfold living
  rw [← same.lifespan_eq]
  cases call.lifespan with
  | none => exact alike
  | some count => exact List.forall₂_take count alike

theorem survives_eq (same : call.SameAs call') {steps steps' : List RunStep}
    (alike : List.Forall₂ RunStep.Alike steps steps') :
    call.survives steps = call'.survives steps' := by
  unfold survives
  rw [← same.lifespan_eq, alike.length_eq]

section

variable {σ : Type} [ReliableStore σ] {store : σ} {held : Holdings} {workflow : Workflow}

theorem carryOut_eq (call : Call) {account : Account RunResult} (mirrors : Mirrors store held)
    (accepted : ∀ step ∈ account.steps, step.AcceptedBy σ) :
    (call.carryOut account store).1.result =
        (if call.survives account.steps then some account.ended else none) ∧
      Mirrors (call.carryOut account store).2
        ((call.living account.steps).foldl RunStep.applied held) := by
  obtain ⟨after, performed, kept⟩ := RunStep.performAll_eq mirrors fun step mem =>
    accepted step ((call.living_prefix account.steps).subset mem)
  unfold carryOut
  rw [performed]
  exact ⟨rfl, kept⟩

theorem reads_keep_mirrors (held : Holdings) :
    Store.ReadsKeep fun store : σ => Mirrors store held where
  load id store mirrors := by
    obtain ⟨after, answer, kept⟩ := ReliableStore.load_eq mirrors id
    rwa [answer]
  mostRecent kind store mirrors := by
    obtain ⟨found, after, answer, kept⟩ := ReliableStore.mostRecent_eq mirrors kind
    rwa [answer]
  loadJournal id store mirrors := by
    obtain ⟨after, answer, kept⟩ := ReliableStore.loadJournal_eq mirrors id
    rwa [answer]

/-- A call that leaves out an execution leaves what is held of it as it is. -/
theorem make_of_leavesOut (mirrors : Mirrors store held)
    (accepted : call.AcceptedIn workflow store) (leavesOut : call.LeavesOut id workflow store) :
    ∃ later, Mirrors (call.make workflow store).2 later ∧ (held.Named → later.Named) ∧
      later.execution? id = held.execution? id ∧ later.journal id = held.journal id := by
  have kept := (reads_keep_mirrors held).entry (call.setting workflow) call.supply call.request
    mirrors
  rcases call.make_eq workflow store with
    ⟨error, out, _⟩ | ⟨entry, account, after, enters, planned, made⟩
  · rw [out]
    exact ⟨held, kept, fun named => named, rfl, rfl⟩
  · rw [enters] at kept
    have entered := congrArg Prod.fst enters
    obtain ⟨standing, progress⟩ :=
      Setting.account_progress planned (call.living_prefix account.steps)
    have apart : ∀ step ∈ call.living account.steps, ¬ step.concerns id := fun step mem concerns =>
      leavesOut entry entered (progress.own step mem id concerns).symm
    obtain ⟨execution, journal⟩ := Holdings.behind_of_not_concerns held apart
    rw [made]
    exact ⟨_, (call.carryOut_eq kept (accepted entry account entered planned)).2,
      fun named => named.behind _, execution, journal⟩

end

/-! ## The same call on two stores -/

section

variable {σ σ' : Type} [ReliableStore σ] [ReliableStore σ'] {store : σ} {store' : σ'}
  {held held' : Holdings} {workflow : Workflow}

theorem For.entry_alike (own : call.For id first) (same : call.SameAs call')
    (mirrors : Mirrors store held) (mirrors' : Mirrors store' held')
    (alike : held.AlikeFor id held') (named : held.Named)
    (workflow : Workflow) :
    EndAlike Entry.Alike ((call.setting workflow).entry call.supply call.request store).1
      ((call'.setting workflow).entry call'.supply call'.request store').1 := by
  cases own with
  | @begins _ kind configuration request _ =>
      rw [← same.request_eq, request]
      refine .ok ⟨?_, rfl, ⟨rfl, rfl⟩, rfl⟩
      simp only [Entry.fresh, Execution.create, Execution.timeless,
        same.named kind configuration request]
      rfl
  | @takesUp _ kind request =>
      rw [← same.request_eq, request]
      show EndAlike Entry.Alike (Entry.resume workflow kind (some id) store).1
        (Entry.resume workflow kind (some id) store').1
      rw [Entry.resume_eq mirrors (named id), Entry.resume_eq mirrors' (alike.named (named id))]
      exact alike.entry workflow

/-- The same call for an execution comes to the same, and leaves the same of it. -/
theorem For.make_alike (own : call.For id first) (same : call.SameAs call')
    (settled : ∀ actor ∈ call.registry.actors, actor.Settled) (mirrors : Mirrors store held)
    (mirrors' : Mirrors store' held') (accepted : call.AcceptedIn workflow store)
    (accepted' : call'.AcceptedIn workflow store') (alike : held.AlikeFor id held')
    (named : held.Named) :
    (call.make workflow store).1.result = (call'.make workflow store').1.result ∧
      ∃ later later', Mirrors (call.make workflow store).2 later ∧
        Mirrors (call'.make workflow store').2 later' ∧ later.AlikeFor id later' ∧
        later.Named := by
  have entries := own.entry_alike same mirrors mirrors' alike named workflow
  have kept := (reads_keep_mirrors held).entry (call.setting workflow) call.supply call.request
    mirrors
  have kept' := (reads_keep_mirrors held').entry (call'.setting workflow) call'.supply
    call'.request mirrors'
  unfold AcceptedIn at accepted accepted'
  unfold make
  generalize (call.setting workflow).entry call.supply call.request store = answer
    at entries kept accepted ⊢
  generalize (call'.setting workflow).entry call'.supply call'.request store' = answer'
    at entries kept' accepted' ⊢
  obtain ⟨result, after⟩ := answer
  obtain ⟨result', after'⟩ := answer'
  cases entries with
  | error error => exact ⟨rfl, held, held', kept, kept', alike, named⟩
  | @ok entry entry' entered =>
      have accounts := (call.setting workflow).account_alike entered settled
        call.supply call'.supply call.options call.answers
      have setting : call'.setting workflow = call.setting workflow := by
        rw [Call.setting, Call.setting, same.registry_eq]
      have planned := accepted entry
      have planned' := accepted' entry'
      rw [setting, ← same.options_eq, ← same.answers_eq] at planned' ⊢
      dsimp only
      generalize (call.setting workflow).account call.supply call.options call.answers entry =
        account at accounts planned ⊢
      generalize (call.setting workflow).account call'.supply call.options call.answers entry' =
        account' at accounts planned' ⊢
      cases accounts with
      | error error => exact ⟨rfl, held, held', kept, kept', alike, named⟩
      | @ok account account' accounts =>
          obtain ⟨told, last⟩ := call.carryOut_eq kept (planned account rfl rfl)
          obtain ⟨told', last'⟩ := call'.carryOut_eq kept' (planned' account' rfl rfl)
          refine ⟨?_, _, _, last, last', alike.behind (living_alike same accounts.steps),
            named.behind _⟩
          simp only [told, told', survives_eq same accounts.steps]
          obtain ⟨steps, ended⟩ := account
          obtain ⟨steps', ended'⟩ := account'
          cases accounts.ended with
          | error error => rfl
          | ok equal => rw [equal]

end

end Call

/-! ## Moments -/

/-- A call for an execution, its result if it gave one, and what is stored of the execution then. -/
structure Moment where
  call : Call
  result : Option (Except RunError RunResult)
  record : Except StoreError (Option Execution)
  journal : Except StoreError Journal

structure Moment.Alike (first second : Moment) : Prop where
  result_eq : first.result = second.result
  record : ∃ kept kept', first.record = .ok kept ∧ second.record = .ok kept' ∧
    kept.map Execution.timeless = kept'.map Execution.timeless
  journal : ∃ kept kept', first.journal = .ok kept ∧ second.journal = .ok kept' ∧ kept.Alike kept'

theorem Moment.Alike.symm {first second : Moment} (h : first.Alike second) :
    second.Alike first := by
  obtain ⟨record, record', one, two, same⟩ := h.record
  obtain ⟨journal, journal', first, second, messages, audit⟩ := h.journal
  exact ⟨h.result_eq.symm, ⟨record', record, two, one, same.symm⟩,
    journal', journal, second, first, messages.symm, audit.symm⟩

theorem Moment.Alike.trans {first second third : Moment} (h : first.Alike second)
    (h' : second.Alike third) : first.Alike third := by
  obtain ⟨a, b, first, second, same⟩ := h.record
  obtain ⟨c, d, third, fourth, same'⟩ := h'.record
  obtain rfl : b = c := Except.ok.inj (second.symm.trans third)
  obtain ⟨e, f, one, two, alike⟩ := h.journal
  obtain ⟨g, i, three, four, alike'⟩ := h'.journal
  obtain rfl : f = g := Except.ok.inj (two.symm.trans three)
  exact ⟨h.result_eq.trans h'.result_eq, ⟨a, d, first, fourth, same.trans same'⟩, e, i, one, four,
    alike.messages.trans alike'.messages, alike.audit.trans alike'.audit⟩

def Call.moment {σ : Type} [Store σ] (call : Call) (workflow : Workflow) (id : ExecutionId)
    (store : σ) : Moment where
  call := call
  result := (call.make workflow store).1.result
  record := (Store.load id (call.make workflow store).2).1
  journal := (Store.loadJournal id (call.make workflow store).2).1

/--
The calls for an execution on a store that was empty before, with any calls of any workflows between
them that leave the execution out.
-/
inductive Timeline (workflow : Workflow) (id : ExecutionId) {σ : Type} [ReliableStore σ] :
    List Moment → σ → Prop
  | empty {store : σ} (nothing : Mirrors store .empty) : Timeline workflow id [] store
  | own {moments : List Moment} {store : σ} {call : Call}
      (timeline : Timeline workflow id moments store) (own : call.For id moments.isEmpty)
      (accepted : call.AcceptedIn workflow store) :
      Timeline workflow id (moments ++ [call.moment workflow id store])
        (call.make workflow store).2
  | other {moments : List Moment} {store : σ} {call : Call} {another : Workflow}
      (timeline : Timeline workflow id moments store) (leavesOut : call.LeavesOut id another store)
      (accepted : call.AcceptedIn another store) :
      Timeline workflow id moments (call.make another store).2

def Call.alone (workflow : Workflow) (id : ExecutionId) :
    List Call → MemoryStore → List Moment × MemoryStore
  | [], store => ([], store)
  | call :: rest, store =>
      let (moments, last) := alone workflow id rest (call.make workflow store).2
      (call.moment workflow id store :: moments, last)

theorem Call.alone_concat (workflow : Workflow) (id : ExecutionId) (calls : List Call) (call : Call)
    (store : MemoryStore) :
    alone workflow id (calls ++ [call]) store =
      ((alone workflow id calls store).1 ++
          [call.moment workflow id (alone workflow id calls store).2],
        (call.make workflow (alone workflow id calls store).2).2) := by
  induction calls generalizing store with
  | nil => rfl
  | cons head rest ih => simp only [List.cons_append, alone, ih]

theorem Call.acceptedIn_memory (call : Call) (workflow : Workflow) (store : MemoryStore) :
    call.AcceptedIn workflow store := by
  intro entry account _ _ step _
  cases step <;> trivial

theorem Call.moment_alike {σ σ' : Type} [ReliableStore σ] [ReliableStore σ'] {store : σ}
    {store' : σ'} {call call' : Call} {workflow : Workflow} {id : ExecutionId}
    {later later' : Holdings}
    (result : (call.make workflow store).1.result = (call'.make workflow store').1.result)
    (kept : Mirrors (call.make workflow store).2 later)
    (kept' : Mirrors (call'.make workflow store').2 later') (alike : later.AlikeFor id later') :
    (call.moment workflow id store).Alike (call'.moment workflow id store') := by
  obtain ⟨_, loaded, _⟩ := ReliableStore.load_eq kept id
  obtain ⟨_, loaded', _⟩ := ReliableStore.load_eq kept' id
  obtain ⟨_, listed, _⟩ := ReliableStore.loadJournal_eq kept id
  obtain ⟨_, listed', _⟩ := ReliableStore.loadJournal_eq kept' id
  exact ⟨result,
    ⟨_, _, congrArg Prod.fst loaded, congrArg Prod.fst loaded', alike.execution⟩,
    _, _, congrArg Prod.fst listed, congrArg Prod.fst listed', alike.journal⟩

theorem exists_of_forall₂_concat {α β : Type} {R : α → β → Prop} {front : List α} {last : α}
    {others : List β} (h : List.Forall₂ R (front ++ [last]) others) :
    ∃ start final, others = start ++ [final] ∧ List.Forall₂ R front start ∧ R last final := by
  induction front generalizing others with
  | nil =>
      cases h with
      | cons here rest =>
          cases rest
          exact ⟨[], _, rfl, .nil, here⟩
  | cons head front ih =>
      cases h with
      | cons here rest =>
          obtain ⟨start, final, rfl, before, final⟩ := ih rest
          exact ⟨_ :: start, _, rfl, .cons here before, final⟩

/-- What calls for an execution come to is what they would come to if they were made alone. -/
theorem Timeline.alike_alone {workflow : Workflow} {id : ExecutionId} {σ : Type} [ReliableStore σ]
    {moments : List Moment} {store : σ} (timeline : Timeline workflow id moments store)
    (settled : ∀ moment ∈ moments, ∀ actor ∈ moment.call.registry.actors, actor.Settled)
    {calls : List Call}
    (same : List.Forall₂ (fun moment call => moment.call.SameAs call) moments calls) :
    List.Forall₂ Moment.Alike moments (Call.alone workflow id calls .empty).1 ∧
      ∃ held held', Mirrors store held ∧
        Mirrors (Call.alone workflow id calls .empty).2 held' ∧ held.AlikeFor id held' ∧
        held.Named := by
  induction timeline generalizing calls with
  | empty nothing =>
      cases same
      exact ⟨.nil, Holdings.empty, Holdings.empty, nothing, MemoryStore.holds_empty,
        ⟨rfl, ⟨rfl, rfl⟩⟩, Holdings.named_empty⟩
  | @own moments store call _ own accepted ih =>
      obtain ⟨earlier, call', rfl, before, again⟩ := exists_of_forall₂_concat same
      obtain ⟨known, here⟩ := List.forall_mem_append.mp settled
      obtain ⟨all, held, held', mirrors, mirrors', alike, named⟩ := ih known before
      obtain ⟨result, later, later', kept, kept', still, stillNamed⟩ := own.make_alike again
        (here _ (List.mem_singleton.mpr rfl)) mirrors mirrors' accepted
        (call'.acceptedIn_memory workflow _) alike named
      rw [Call.alone_concat]
      exact ⟨List.rel_append all (.cons (Call.moment_alike result kept kept' still) .nil), later,
        later', kept, kept', still, stillNamed⟩
  | other _ leavesOut accepted ih =>
      obtain ⟨all, held, held', mirrors, mirrors', alike, named⟩ := ih settled same
      obtain ⟨later, kept, still, execution, journal⟩ :=
        Call.make_of_leavesOut mirrors accepted leavesOut
      refine ⟨all, later, held', kept, mirrors', ⟨?_, ?_⟩, still named⟩
      · rw [execution]
        exact alike.execution
      · rw [journal]
        exact alike.journal

theorem Moment.alike_of_common {moments moments' others : List Moment}
    (one : List.Forall₂ Alike moments others) (two : List.Forall₂ Alike moments' others) :
    List.Forall₂ Alike moments moments' := by
  induction one generalizing moments' with
  | nil =>
      cases two
      exact .nil
  | cons here _ ih =>
      cases two with
      | cons there rest => exact .cons (here.trans there.symm) (ih rest)

theorem Moment.settled_of_same {moments moments' : List Moment}
    (same : List.Forall₂ (fun moment moment' => moment.call.SameAs moment'.call) moments moments')
    (settled : ∀ moment ∈ moments, ∀ actor ∈ moment.call.registry.actors, actor.Settled) :
    ∀ moment ∈ moments', ∀ actor ∈ moment.call.registry.actors, actor.Settled := by
  induction same with
  | nil => exact settled
  | cons here _ ih =>
      obtain ⟨first, later⟩ := List.forall_mem_cons.mp settled
      rw [here.registry_eq] at first
      exact List.forall_mem_cons.mpr ⟨first, ih later⟩

/--
Executions are apart from each other. A call leaves what is stored of every execution alone that it
neither begins nor takes up, whatever it comes to: what a lawful store holds of it, and its files in
a directory. And if the actors are settled by what they are shown, the same calls for an execution
come to the same and leave the same behind on any two reliable stores, whatever calls for other
executions are made between them.
-/
theorem Call.isolated (id : ExecutionId) :
    (∀ {σ : Type} [LawfulStore σ] (call : Call) (workflow : Workflow) (store : σ),
      call.LeavesOut id workflow store →
        (LawfulStore.holdings (call.make workflow store).2).execution? id =
            (LawfulStore.holdings store).execution? id ∧
          (LawfulStore.holdings (call.make workflow store).2).journal id =
            (LawfulStore.holdings store).journal id) ∧
      (∀ (call : Call) (workflow : Workflow) (store : DirectoryStore),
        call.LeavesOut id workflow store → ∀ file,
          (call.make workflow store).2.tree.find
              ((call.make workflow store).2.path [id.text, file]) =
            store.tree.find (store.path [id.text, file])) ∧
      ∀ {σ σ' : Type} [ReliableStore σ] [ReliableStore σ'] (workflow : Workflow)
        (moments moments' : List Moment) (store : σ) (store' : σ'),
        Timeline workflow id moments store → Timeline workflow id moments' store' →
        List.Forall₂ (fun moment moment' => moment.call.SameAs moment'.call) moments moments' →
        (∀ moment ∈ moments, ∀ actor ∈ moment.call.registry.actors, actor.Settled) →
        List.Forall₂ Moment.Alike moments moments' := by
  refine ⟨?_, ?_, ?_⟩
  · intro σ _ call workflow store leavesOut
    have same := (LawfulStore.watches id).make leavesOut
    exact ⟨congrArg Prod.fst same, congrArg Prod.snd same⟩
  · intro call workflow store leavesOut file
    exact congrFun ((DirectoryStore.watches id).make leavesOut) file
  · intro σ σ' _ _ workflow moments moments' store store' one two same settled
    have calls : List.Forall₂ (fun moment call => Call.SameAs moment.call call) moments
        (moments'.map Moment.call) := List.forall₂_map_right_iff.mpr same
    have again : List.Forall₂ (fun moment call => Call.SameAs moment.call call) moments'
        (moments'.map Moment.call) :=
      List.forall₂_map_right_iff.mpr (List.forall₂_same.mpr fun moment _ => .refl moment.call)
    exact Moment.alike_of_common (one.alike_alone settled calls).1
      (two.alike_alone (Moment.settled_of_same same settled) again).1

/--
A first call and one that takes its execution up behind a reboot, made on two stores at different
times: on the second store another execution is begun before and a third one between them.
-/
theorem Call.isolated_behind_reboot :
    let configuration : Configuration := ⟨"7", "8", "x86_64", .none, ∅⟩
    let file : View → Task Unit := fun view =>
      if view.phase = "apply" then Task.report (.inhibitor "old" "too old") else pure ()
    let first := Call.probing file (.fresh .upgrade configuration) none
    let second := Call.probing file (.resume .upgrade (some default)) none
    let late (call : Call) (id : ExecutionId) : Call :=
      { call with supply := ⟨fun place => .ofNanos place 0, fun _ => ⟨1⟩, id⟩ }
    let one := (first.make .rebooting MemoryStore.empty).2
    let two := ((late first ⟨1⟩).make .rebooting MemoryStore.empty).2
    let three := ((late first default).make .rebooting two).2
    let four := ((late first ⟨2⟩).make .rebooting three).2
    List.Forall₂ Moment.Alike
      [first.moment .rebooting default MemoryStore.empty, second.moment .rebooting default one]
      [(late first default).moment .rebooting default two,
        (late second default).moment .rebooting default four] := by
  intro configuration file first second late one two three four
  have settled : (Actor.probe file).Settled := by
    intro phase execution execution' _
    by_cases last : phase = "apply"
    · simp only [Actor.probe, file, last, if_true]
      exact .produce rfl fun result => .done _
    · simp only [Actor.probe, file, last, if_false]
      exact .done _
  have begins (call : Call) (id : ExecutionId) (differ : id ≠ default)
      (fresh : call.request = .fresh .upgrade configuration) (store : MemoryStore) :
      (late call id).LeavesOut default .rebooting store := by
    intro entry entered
    have begun : entry = .fresh .rebooting id .upgrade configuration (.ofNanos 0 0) := by
      simp only [late, Setting.entry, fresh] at entered
      exact (Except.ok.inj entered).symm
    rw [begun]
    exact differ
  have nothing : Timeline .rebooting default [] MemoryStore.empty :=
    .empty MemoryStore.holds_empty
  have early := (nothing.own (.begins rfl rfl : first.For default true)
    (first.acceptedIn_memory _ _)).own (.takesUp rfl : second.For default false)
      (second.acceptedIn_memory _ _)
  have delayed := ((((nothing.other (begins first ⟨1⟩ (by decide) rfl _)
    (Call.acceptedIn_memory _ _ _)).own (.begins rfl rfl : (late first default).For default true)
      (Call.acceptedIn_memory _ _ _)).other (begins first ⟨2⟩ (by decide) rfl _)
        (Call.acceptedIn_memory _ _ _)).own
          (.takesUp rfl : (late second default).For default false)
            (Call.acceptedIn_memory _ _ _))
  refine (Call.isolated default).2.2 .rebooting _ _ _ _ early delayed ?_ ?_
  · exact .cons ⟨rfl, rfl, rfl, rfl, rfl, fun _ _ _ => rfl⟩
      (.cons ⟨rfl, rfl, rfl, rfl, rfl, fun _ _ _ => rfl⟩ .nil)
  · intro moment among actor known
    have called : moment.call.registry.actors = [.probe file] := by
      rcases List.mem_cons.mp among with rfl | among
      · rfl
      · rw [List.mem_singleton.mp among]
        rfl
    rw [called] at known
    exact List.mem_singleton.mp known ▸ settled

end PhasedUpgrade
