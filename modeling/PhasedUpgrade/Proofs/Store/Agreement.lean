import PhasedUpgrade.Proofs.Store.Survival
import PhasedUpgrade.Store.Watched

/-!
# Stores that cannot be told apart

A store in memory and one in a directory answer the same calls alike, and each answer is told by the
calls before it: the last write under a name is what is read under it.
-/

namespace PhasedUpgrade

inductive StoreAnswer where
  | written (result : Except StoreError Unit)
  | execution (result : Except StoreError (Option Execution))
  | journal (result : Except StoreError Journal)

namespace StoreCall

section

variable {σ : Type} [Store σ]

def ask (call : StoreCall) (store : σ) : StoreAnswer × σ :=
  match call with
  | .save execution =>
      let (result, store) := Store.save execution store
      (.written result, store)
  | .load id =>
      let (result, store) := Store.load id store
      (.execution result, store)
  | .mostRecent kind =>
      let (result, store) := Store.mostRecent kind store
      (.execution result, store)
  | .saveJournal id journal =>
      let (result, store) := Store.saveJournal id journal store
      (.written result, store)
  | .loadJournal id =>
      let (result, store) := Store.loadJournal id store
      (.journal result, store)

def askAll : List StoreCall → σ → List StoreAnswer × σ
  | [], store => ([], store)
  | call :: rest, store =>
      let (answer, store) := call.ask store
      let (answers, store) := askAll rest store
      (answer :: answers, store)

theorem askAll_append (before after : List StoreCall) (store : σ) :
    askAll (before ++ after) store =
      ((askAll before store).1 ++ (askAll after (askAll before store).2).1,
        (askAll after (askAll before store).2).2) := by
  induction before generalizing store with
  | nil => rfl
  | cons call rest ih => simp only [List.cons_append, askAll, ih]

theorem length_askAll (calls : List StoreCall) (store : σ) :
    (askAll calls store).1.length = calls.length := by
  induction calls generalizing store with
  | nil => rfl
  | cons call rest ih => simp only [askAll, List.length_cons, ih]

end

/-- A call whose records are told wholly by their texts. -/
def Lasting : StoreCall → Prop
  | .save execution => execution.Lasting
  | .saveJournal _ journal => journal.Lasting
  | .load _ | .mostRecent _ | .loadJournal _ => True

def applied (held : Holdings) : StoreCall → Holdings
  | .save execution => held.put execution
  | .saveJournal id journal => held.putJournal id journal
  | .load _ | .mostRecent _ | .loadJournal _ => held

/-- Whether an answer to a call is the one that what is held calls for. -/
inductive Answered (held : Holdings) : StoreCall → StoreAnswer → Prop
  | save (execution : Execution) : Answered held (.save execution) (.written (.ok ()))
  | load (id : ExecutionId) : Answered held (.load id) (.execution (.ok (held.execution? id)))
  | mostRecent {kind : ExecutionKind} {found : Option Execution}
      (newest : held.IsNewest kind found) :
      Answered held (.mostRecent kind) (.execution (.ok found))
  | saveJournal (id : ExecutionId) (journal : Journal) :
      Answered held (.saveJournal id journal) (.written (.ok ()))
  | loadJournal (id : ExecutionId) :
      Answered held (.loadJournal id) (.journal (.ok (held.journal id)))

theorem Answered.unique {held : Holdings} {call : StoreCall} {first second : StoreAnswer}
    (one : Answered held call first) (other : Answered held call second) : first = second := by
  cases one with
  | mostRecent newest =>
      cases other with
      | mostRecent also => rw [newest.unique also]
  | save | load | saveJournal | loadJournal =>
      cases other
      rfl

end StoreCall

def Holdings.ofCalls (calls : List StoreCall) : Holdings :=
  calls.foldl StoreCall.applied .empty

namespace MemoryStore

/-- A store in memory holds what is held, each execution under its name. -/
structure Holds (store : MemoryStore) (held : Holdings) : Prop where
  execution (id : ExecutionId) : store.find? id = held.execution? id
  journal (id : ExecutionId) : store.journal id = held.journal id

variable {store : MemoryStore} {held : Holdings}

theorem Holds.lists (holds : store.Holds held) (kind : ExecutionKind) :
    Execution.Lists (store.executions.filter (·.kind = kind)) held kind := by
  intro execution
  rw [List.mem_filter, ← holds.execution, decide_eq_true_iff]
  constructor
  · exact fun ⟨among, same⟩ => ⟨find?_eq_of_mem among, same⟩
  · exact fun ⟨stored, same⟩ => ⟨List.mem_of_find?_eq_some stored, same⟩

theorem Holds.answered (holds : store.Holds held) (call : StoreCall) :
    StoreCall.Answered held call (call.ask store).1 ∧
      (call.ask store).2.Holds (call.applied held) := by
  cases call with
  | save execution =>
      refine ⟨.save execution, ?_, holds.journal⟩
      intro id
      apply (find?_put store execution id).trans
      rw [holds.execution]
      rfl
  | load id =>
      refine ⟨?_, holds⟩
      have answer : StoreCall.Answered held _ _ := .load id
      rw [← holds.execution] at answer
      exact answer
  | mostRecent kind => exact ⟨.mostRecent (Execution.isNewest_newest? (holds.lists kind)), holds⟩
  | saveJournal id journal =>
      refine ⟨.saveJournal id journal, holds.execution, ?_⟩
      intro other
      apply (journal_putJournal store id other journal).trans
      rw [holds.journal]
      rfl
  | loadJournal id =>
      refine ⟨?_, holds⟩
      have answer : StoreCall.Answered held _ _ := .loadJournal id
      rw [← holds.journal] at answer
      exact answer

theorem holds_empty : empty.Holds .empty :=
  ⟨fun _ => rfl, fun _ => rfl⟩

end MemoryStore

namespace DirectoryStore

variable {store : DirectoryStore} {held : Holdings}

theorem Mirrors.answered (mirrors : store.Mirrors held) {call : StoreCall}
    (lasting : call.Lasting) :
    StoreCall.Answered held call (call.ask store).1 ∧
      (call.ask store).2.Mirrors (call.applied held) := by
  cases call with
  | save execution =>
      obtain ⟨after, written, _, kept⟩ := mirrors.save lasting
      rw [StoreCall.ask, written]
      exact ⟨.save execution, kept⟩
  | load id =>
      have answer : StoreCall.Answered held _ _ := .load id
      rw [← mirrors.execution] at answer
      exact ⟨answer, mirrors⟩
  | mostRecent kind =>
      obtain ⟨found, said, newest⟩ := mirrors.mostRecent kind
      rw [StoreCall.ask, said]
      exact ⟨.mostRecent newest, mirrors⟩
  | saveJournal id journal =>
      obtain ⟨after, written, _, kept⟩ := mirrors.saveJournal id lasting
      rw [StoreCall.ask, written]
      exact ⟨.saveJournal id journal, kept⟩
  | loadJournal id =>
      have answer : StoreCall.Answered held _ _ := .loadJournal id
      rw [← mirrors.journal] at answer
      exact ⟨answer, mirrors⟩

theorem Mirrors.askAll (mirrors : store.Mirrors held) {calls : List StoreCall}
    (lasting : ∀ call ∈ calls, call.Lasting) :
    (StoreCall.askAll calls store).2.Mirrors (calls.foldl StoreCall.applied held) := by
  induction calls generalizing store held with
  | nil => exact mirrors
  | cons call rest ih =>
      obtain ⟨here, later⟩ := List.forall_mem_cons.mp lasting
      exact ih (mirrors.answered here).2 later

theorem Mirrors.answers_eq (mirrors : store.Mirrors held) {memory : MemoryStore}
    (holds : memory.Holds held) {calls : List StoreCall}
    (lasting : ∀ call ∈ calls, call.Lasting) :
    (StoreCall.askAll calls store).1 = (StoreCall.askAll calls memory).1 := by
  induction calls generalizing store memory held with
  | nil => rfl
  | cons call rest ih =>
      obtain ⟨here, later⟩ := List.forall_mem_cons.mp lasting
      obtain ⟨said, kept⟩ := mirrors.answered here
      obtain ⟨answered, remembered⟩ := holds.answered call
      simp only [StoreCall.askAll, said.unique answered, ih kept remembered later]

/--
A store in an empty or missing directory gives to all calls the answers of a store in memory. Each
answer is the one that the calls before it ask for, and the root may be listed in any order.
-/
theorem answers_eq_memory (vacant : store.Vacant) {calls : List StoreCall}
    (lasting : ∀ call ∈ calls, call.Lasting) :
    (StoreCall.askAll calls store).1 = (StoreCall.askAll calls MemoryStore.empty).1 ∧
      ∀ before call after, calls = before ++ call :: after →
        ∃ answer, (StoreCall.askAll calls store).1[before.length]? = some answer ∧
          StoreCall.Answered (.ofCalls before) call answer ∧
          ∀ kind entries listing, call = .mostRecent kind →
            (StoreCall.askAll before store).2.tree.find
                ((StoreCall.askAll before store).2.path []) = .ok (.directory entries) →
            listing.Perm entries →
            answer = .execution
              (((StoreCall.askAll before store).2.candidates Execution.ofBytes? kind listing).map
                Execution.newest?) := by
  refine ⟨vacant.mirrors.answers_eq MemoryStore.holds_empty lasting, ?_⟩
  rintro before call after rfl
  have earlier : ∀ call ∈ before, call.Lasting := fun call among =>
    lasting call (List.mem_append_left _ among)
  have here : call.Lasting := lasting call (by simp)
  have mirrors := vacant.mirrors.askAll earlier
  have answered := (mirrors.answered here).1
  refine ⟨(call.ask (StoreCall.askAll before store).2).1, ?_, answered, ?_⟩
  · rw [StoreCall.askAll_append, List.getElem?_append_right (by simp [StoreCall.length_askAll])]
    simp [StoreCall.length_askAll, StoreCall.askAll]
  · rintro kind entries listing rfl root reordered
    obtain ⟨tidied, has, tidy⟩ := mirrors.tidy
    have same : tidied = entries := by
      have both := has.symm.trans (Files.Tree.place_of_find root)
      cases both
      rfl
    subst same
    obtain ⟨executions, gathered, newest⟩ := mirrors.exists_newest kind has tidy reordered
    rw [gathered]
    exact answered.unique (.mostRecent newest)

/--
An execution with only a journal is not seen, the second record of a name counts, and of two
executions of one moment the one of the greater name is the newest.
-/
theorem answers_of_overwritten :
    (StoreCall.askAll
        [.saveJournal ⟨7⟩ .intricate, .mostRecent .upgrade, .load ⟨7⟩, .loadJournal ⟨7⟩,
          .save .intricate, .save { Execution.intricate with failure := true },
          .save { Execution.intricate with id := ⟨3⟩ }, .mostRecent .upgrade,
          .mostRecent .preupgrade, .load ⟨3⟩, .loadJournal ⟨3⟩]
        (⟨.empty, "/var/lib/ipu"⟩ : DirectoryStore)).1 =
      [.written (.ok ()), .execution (.ok none), .execution (.ok none), .journal (.ok .intricate),
        .written (.ok ()), .written (.ok ()), .written (.ok ()),
        .execution (.ok (some { Execution.intricate with failure := true })),
        .execution (.ok none), .execution (.ok (some { Execution.intricate with id := ⟨3⟩ })),
        .journal (.ok .empty)] := by
  have vacant : Vacant ⟨.empty, "/var/lib/ipu"⟩ := .inl (Files.Tree.find_empty (by decide))
  rw [(answers_eq_memory vacant _).1]
  · rfl
  · simp only [List.forall_mem_cons, List.not_mem_nil, false_imp_iff, implies_true, and_true,
      StoreCall.Lasting, true_and]
    exact ⟨Journal.intricate_lasting, Execution.intricate_lasting,
      ⟨Execution.intricate_lasting.created, Execution.intricate_lasting.updated⟩,
      ⟨Execution.intricate_lasting.created, Execution.intricate_lasting.updated⟩⟩

end DirectoryStore

end PhasedUpgrade
