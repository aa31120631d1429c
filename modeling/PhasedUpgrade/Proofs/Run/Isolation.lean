import PhasedUpgrade.Proofs.Run.Likeness
import PhasedUpgrade.Proofs.Store.Reliable

/-!
# Executions apart from each other

A call changes what is stored of the execution that it begins or takes up, and of no other. So calls
for one execution come to the same whatever calls for others are made between them.
-/

namespace PhasedUpgrade

open LawfulStore (holdings)

/-! ## What is watched of a store -/

/-- An observation of a store that only a write for one execution can change. -/
structure Store.Watches {σ β : Type} [Store σ] (watch : σ → β) (id : ExecutionId) : Prop where
  save {execution : Execution} (other : execution.id ≠ id) (store : σ) :
    watch (Store.save execution store).2 = watch store
  saveJournal {name : ExecutionId} (other : name ≠ id) (journal : Journal) (store : σ) :
    watch (Store.saveJournal name journal store).2 = watch store
  load (name : ExecutionId) (store : σ) : watch (Store.load name store).2 = watch store
  mostRecent (kind : ExecutionKind) (store : σ) :
    watch (Store.mostRecent kind store).2 = watch store
  loadJournal (name : ExecutionId) (store : σ) :
    watch (Store.loadJournal name store).2 = watch store

/-- A call neither begins nor takes up an execution. -/
def Call.LeavesOut {σ : Type} [Store σ] (call : Call) (id : ExecutionId) (workflow : Workflow)
    (store : σ) : Prop :=
  ∀ entry, ((call.setting workflow).entry call.supply call.request store).1 = .ok entry →
    entry.execution.id ≠ id

namespace Store.Watches

variable {σ β : Type} [Store σ] {watch : σ → β} {id : ExecutionId}

theorem readsKeep (watches : Store.Watches watch id) (seen : β) :
    Store.ReadsKeep fun store => watch store = seen where
  load name _ h := (watches.load name _).trans h
  mostRecent kind _ h := (watches.mostRecent kind _).trans h
  loadJournal name _ h := (watches.loadJournal name _).trans h

theorem perform (watches : Store.Watches watch id) {step : RunStep} (apart : ¬ step.concerns id)
    (store : σ) : watch (step.perform store).2 = watch store := by
  cases step with
  | setVariable name value => rfl
  | visit turn => rfl
  | save execution => exact watches.save apart store
  | saveJournal name journal => exact watches.saveJournal apart journal store

theorem performAll (watches : Store.Watches watch id) {steps : List RunStep}
    (apart : ∀ step ∈ steps, ¬ step.concerns id) (store : σ) :
    watch (RunStep.performAll steps store).2.2 = watch store := by
  induction steps generalizing store with
  | nil => rfl
  | cons step rest ih =>
      obtain ⟨here, later⟩ := List.forall_mem_cons.mp apart
      have first := watches.perform here store
      unfold RunStep.performAll
      rcases result : step.perform store with ⟨error | ⟨⟨⟩⟩, next⟩
      · rw [result] at first
        exact first
      · rw [result] at first
        exact (ih later next).trans first

theorem make (watches : Store.Watches watch id) {call : Call} {workflow : Workflow} {store : σ}
    (leavesOut : call.LeavesOut id workflow store) :
    watch (call.make workflow store).2 = watch store := by
  have entered : watch ((call.setting workflow).entry call.supply call.request store).2 =
      watch store :=
    (watches.readsKeep (watch store)).entry (call.setting workflow) call.supply call.request rfl
  rcases call.make_eq workflow store with
    ⟨error, out, _⟩ | ⟨entry, account, after, enters, planned, made⟩
  · rw [out]
    exact entered
  · rw [enters] at entered
    have other := leavesOut entry (congrArg Prod.fst enters)
    have first : call.living account.steps <+: account.steps := call.living_prefix account.steps
    obtain ⟨standing, progress⟩ := Setting.account_progress planned first
    rw [made, Call.store_carryOut]
    refine (watches.performAll (fun step mem concerns => ?_) after).trans entered
    exact other (progress.own step mem id concerns).symm

end Store.Watches

theorem LawfulStore.watches {σ : Type} [LawfulStore σ] (id : ExecutionId) :
    Store.Watches (fun store : σ => ((holdings store).execution? id, (holdings store).journal id))
      id where
  save {execution} other store := by
    rw [LawfulStore.holdings_save]
    cases (Store.save execution store).1 with
    | error error => rfl
    | ok _ => simp [Holdings.settled, Holdings.put, Ne.symm other]
  saveJournal {name} other journal store := by
    rw [LawfulStore.holdings_saveJournal]
    cases (Store.saveJournal name journal store).1 with
    | error error => rfl
    | ok _ => simp [Holdings.settled, Holdings.putJournal, Ne.symm other]
  load name store := by rw [LawfulStore.holdings_load]
  mostRecent kind store := by rw [LawfulStore.holdings_mostRecent]
  loadJournal name store := by rw [LawfulStore.holdings_loadJournal]

theorem DirectoryStore.watches (id : ExecutionId) :
    Store.Watches (fun (store : DirectoryStore) (file : String) =>
      store.tree.find (store.path [id.text, file])) id where
  save {execution} other store := by
    funext file
    have differ : [id.text, file] ≠ [execution.id.text, executionFile] :=
      names_ne (Ne.symm other) file executionFile
    have deep : [id.text, file].length = [execution.id.text, executionFile].length := by simp
    exact find_of_write differ deep execution.toJson
  saveJournal {name} other journal store := by
    funext file
    have differ : [id.text, file] ≠ [name.text, journalFile] :=
      names_ne (Ne.symm other) file journalFile
    have deep : [id.text, file].length = [name.text, journalFile].length := by simp
    exact find_of_write differ deep journal.toJson
  load _ _ := rfl
  mostRecent _ _ := rfl
  loadJournal _ _ := rfl

end PhasedUpgrade
