import PhasedUpgrade.Proofs.Store.Agreement
import PhasedUpgrade.Run.Perform

/-!
# Stores that never fail

A reliable store takes up every record that it accepts and gives back what was written last. A store
in memory accepts all records, one in a directory those that are told wholly by their texts.
-/

namespace PhasedUpgrade

open StoreCall (Answered)

/-- A store that answers every call by what it holds, as long as it accepts what it is given. -/
class ReliableStore (σ : Type) extends Store σ where
  Accepts : StoreCall → Prop
  Mirrors : σ → Holdings → Prop
  accepts_load (id : ExecutionId) : Accepts (.load id)
  accepts_mostRecent (kind : ExecutionKind) : Accepts (.mostRecent kind)
  accepts_loadJournal (id : ExecutionId) : Accepts (.loadJournal id)
  answered {store : σ} {held : Holdings} {call : StoreCall} :
    Mirrors store held → Accepts call →
      Answered held call (call.ask store).1 ∧ Mirrors (call.ask store).2 (call.applied held)

instance : ReliableStore MemoryStore where
  Accepts _ := True
  Mirrors := MemoryStore.Holds
  accepts_load _ := trivial
  accepts_mostRecent _ := trivial
  accepts_loadJournal _ := trivial
  answered holds _ := holds.answered _

instance : ReliableStore DirectoryStore where
  Accepts := StoreCall.Lasting
  Mirrors := DirectoryStore.Mirrors
  accepts_load _ := trivial
  accepts_mostRecent _ := trivial
  accepts_loadJournal _ := trivial
  answered mirrors lasting := mirrors.answered lasting

namespace ReliableStore

variable {σ : Type} [ReliableStore σ] {store : σ} {held : Holdings}

theorem load_eq (mirrors : Mirrors store held) (id : ExecutionId) :
    ∃ after, Store.load id store = (.ok (held.execution? id), after) ∧ Mirrors after held := by
  obtain ⟨said, kept⟩ := answered mirrors (accepts_load id)
  rcases answer : Store.load id store with ⟨result, after⟩
  rw [StoreCall.ask, answer] at said kept
  cases said
  exact ⟨after, rfl, kept⟩

theorem loadJournal_eq (mirrors : Mirrors store held) (id : ExecutionId) :
    ∃ after, Store.loadJournal id store = (.ok (held.journal id), after) ∧ Mirrors after held := by
  obtain ⟨said, kept⟩ := answered mirrors (accepts_loadJournal id)
  rcases answer : Store.loadJournal id store with ⟨result, after⟩
  rw [StoreCall.ask, answer] at said kept
  cases said
  exact ⟨after, rfl, kept⟩

theorem mostRecent_eq (mirrors : Mirrors store held) (kind : ExecutionKind) :
    ∃ found after, Store.mostRecent kind store = (.ok found, after) ∧ Mirrors after held := by
  obtain ⟨said, kept⟩ := answered mirrors (accepts_mostRecent kind)
  rcases answer : Store.mostRecent kind store with ⟨result, after⟩
  rw [StoreCall.ask, answer] at said kept
  cases said
  exact ⟨_, after, rfl, kept⟩

theorem save_eq (mirrors : Mirrors store held) {execution : Execution}
    (accepted : Accepts σ (.save execution)) :
    ∃ after, Store.save execution store = (.ok (), after) ∧
      Mirrors after (held.put execution) := by
  obtain ⟨said, kept⟩ := answered mirrors accepted
  rcases answer : Store.save execution store with ⟨result, after⟩
  rw [StoreCall.ask, answer] at said kept
  cases said
  exact ⟨after, rfl, kept⟩

theorem saveJournal_eq (mirrors : Mirrors store held) {id : ExecutionId} {journal : Journal}
    (accepted : Accepts σ (.saveJournal id journal)) :
    ∃ after, Store.saveJournal id journal store = (.ok (), after) ∧
      Mirrors after (held.putJournal id journal) := by
  obtain ⟨said, kept⟩ := answered mirrors accepted
  rcases answer : Store.saveJournal id journal store with ⟨result, after⟩
  rw [StoreCall.ask, answer] at said kept
  cases said
  exact ⟨after, rfl, kept⟩

end ReliableStore

/-! ## Steps on reliable stores -/

namespace RunStep

def applied (held : Holdings) : RunStep → Holdings
  | .save execution => held.put execution
  | .saveJournal id journal => held.putJournal id journal
  | .setVariable _ _ | .visit _ => held

def AcceptedBy (σ : Type) [ReliableStore σ] : RunStep → Prop
  | .save execution => ReliableStore.Accepts σ (.save execution)
  | .saveJournal id journal => ReliableStore.Accepts σ (.saveJournal id journal)
  | .setVariable _ _ | .visit _ => True

variable {σ : Type} [ReliableStore σ] {store : σ} {held : Holdings}

theorem perform_eq (mirrors : ReliableStore.Mirrors store held) {step : RunStep}
    (accepted : step.AcceptedBy σ) :
    ∃ after, step.perform store = (.ok (), after) ∧
      ReliableStore.Mirrors after (step.applied held) := by
  cases step with
  | setVariable name value => exact ⟨store, rfl, mirrors⟩
  | visit turn => exact ⟨store, rfl, mirrors⟩
  | save execution => exact ReliableStore.save_eq mirrors accepted
  | saveJournal id journal => exact ReliableStore.saveJournal_eq mirrors accepted

theorem performAll_eq (mirrors : ReliableStore.Mirrors store held) {steps : List RunStep}
    (accepted : ∀ step ∈ steps, step.AcceptedBy σ) :
    ∃ after, performAll steps store = (steps, .ok (), after) ∧
      ReliableStore.Mirrors after (steps.foldl applied held) := by
  induction steps generalizing store held with
  | nil => exact ⟨store, rfl, mirrors⟩
  | cons step rest ih =>
      obtain ⟨here, later⟩ := List.forall_mem_cons.mp accepted
      obtain ⟨next, performed, kept⟩ := perform_eq mirrors here
      obtain ⟨after, all, last⟩ := ih kept later
      refine ⟨after, ?_, last⟩
      rw [performAll, performed]
      simp only [all]

end RunStep

end PhasedUpgrade
