import PhasedUpgrade.Proofs.Run.Durability
import PhasedUpgrade.Proofs.Store.Directory

/-!
# Directories that can be written

Where nothing is in the way of the two records of an execution, each of its steps is carried out and
nothing comes to be in their way. All that is apart from the records stays as it is.
-/

namespace PhasedUpgrade

open Files

namespace DirectoryStore

def recordFiles : List String := [executionFile, journalFile]

/-- Whether the records of an execution can be put where they belong. -/
def Admits (store : DirectoryStore) (id : ExecutionId) : Prop :=
  ∀ file ∈ recordFiles, store.tree.Admits (store.path [id.text, file])

/-- Whether a path leads neither to a record of an execution nor on the way to it or beyond. -/
def Avoids (store : DirectoryStore) (id : ExecutionId) (path : Path) : Prop :=
  ∀ file ∈ recordFiles, Tree.Apart (store.path [id.text, file]) path

variable {store : DirectoryStore} {id : ExecutionId}

/-- A record that is written, or cannot be, is not seen at a path that avoids the execution's. -/
theorem find_write_of_avoids {path : Path} (avoids : store.Avoids id path) {file : String}
    (known : file ∈ recordFiles) (record : Json) :
    (store.write [id.text, file] record).2.root = store.root ∧
      (store.write [id.text, file] record).2.tree.find path = store.tree.find path := by
  rcases store.write_cases [id.text, file] record with
    ⟨tree, put, written⟩ | ⟨_, failed⟩ | ⟨_, cause, failed⟩
  · rw [written]
    exact ⟨rfl, Tree.find_write_of_apart put (avoids file known)⟩
  · rw [failed]
    exact ⟨rfl, rfl⟩
  · rw [failed]
    exact ⟨rfl, rfl⟩

theorem find_perform {path : Path} {step : RunStep}
    (avoids : ∀ name, step.concerns name → store.Avoids name path) :
    (step.perform store).2.root = store.root ∧
      (step.perform store).2.tree.find path = store.tree.find path := by
  cases step with
  | setVariable name value => exact ⟨rfl, rfl⟩
  | visit turn => exact ⟨rfl, rfl⟩
  | save execution => exact find_write_of_avoids (avoids _ rfl) (by decide) execution.toJson
  | saveJournal name journal => exact find_write_of_avoids (avoids _ rfl) (by decide) journal.toJson

theorem find_performAll {path : Path} {steps : List RunStep}
    (avoids : ∀ step ∈ steps, ∀ name, step.concerns name → store.Avoids name path) :
    (RunStep.performAll steps store).2.2.tree.find path = store.tree.find path := by
  induction steps generalizing store with
  | nil => rfl
  | cons step rest ih =>
      obtain ⟨here, later⟩ := List.forall_mem_cons.mp avoids
      obtain ⟨root, first⟩ := find_perform here
      unfold RunStep.performAll
      rcases made : step.perform store with ⟨error | ⟨⟨⟩⟩, next⟩
      · rw [made] at first
        exact first
      · rw [made] at root first
        refine (ih fun step mem name concerns => ?_).trans first
        unfold Avoids DirectoryStore.path
        rw [root]
        exact later step mem name concerns

theorem write_of_admits (admits : store.Admits id) {file : String} (known : file ∈ recordFiles)
    (record : Json) :
    ∃ tree, store.write [id.text, file] record = (.ok (), { store with tree := tree }) ∧
      Admits { store with tree := tree } id := by
  obtain ⟨tree, put⟩ := Tree.exists_write_of_admits (admits file known) record.indented.toUTF8
  refine ⟨tree, by rw [write, put], fun other mem => ?_⟩
  by_cases same : other = file
  · subst same
    exact .inr ⟨_, Tree.find_write put⟩
  · have apart : Tree.Apart (store.path [id.text, file]) (store.path [id.text, other]) := by
      refine Tree.apart_of_ne (by simp [path]) fun equal => same ?_
      simpa using List.append_cancel_left equal
    show Tree.Admits tree (store.path [id.text, other])
    unfold Tree.Admits
    rw [Tree.find_write_of_apart put apart]
    exact admits other mem

theorem performAll_of_admits (admits : store.Admits id) {steps : List RunStep}
    (own : ∀ step ∈ steps, ∀ name, step.concerns name → name = id) :
    ∃ tree, RunStep.performAll steps store = (steps, .ok (), { store with tree := tree }) := by
  induction steps generalizing store with
  | nil => exact ⟨store.tree, rfl⟩
  | cons step rest ih =>
      obtain ⟨here, later⟩ := List.forall_mem_cons.mp own
      have one : ∃ tree, step.perform store = (.ok (), { store with tree := tree }) ∧
          Admits { store with tree := tree } id := by
        cases step with
        | setVariable name value => exact ⟨store.tree, rfl, admits⟩
        | visit visit => exact ⟨store.tree, rfl, admits⟩
        | save execution =>
            obtain rfl : execution.id = id := here _ rfl
            exact write_of_admits admits (by decide) execution.toJson
        | saveJournal name journal =>
            obtain rfl : name = id := here _ rfl
            exact write_of_admits admits (by decide) journal.toJson
      obtain ⟨between, made, still⟩ := one
      obtain ⟨tree, others⟩ := ih still later
      exact ⟨tree, RunStep.performAll_cons_eq_ok_iff.mpr ⟨_, made, others⟩⟩

theorem readsKeep (store : DirectoryStore) :
    Store.ReadsKeep fun later : DirectoryStore => later = store :=
  ⟨fun _ _ => id, fun _ _ => id, fun _ _ => id⟩

/-- A run is not seen at a path that the records of all executions avoid. -/
theorem find_run {path : Path} (avoids : ∀ id, store.Avoids id path) (setting : Setting)
    (supply : Supply) (request : RunRequest) (options : RunOptions) (answers : Answers) :
    (setting.run supply request options answers store).store.tree.find path =
      store.tree.find path := by
  have same := store.readsKeep.entry setting supply request rfl
  unfold Setting.run
  rcases entered : setting.entry supply request store with ⟨error | entry, after⟩ <;>
    rw [entered] at same <;> obtain rfl := same
  · rfl
  · cases planned : setting.account supply options answers entry with
    | error error => simp only [planned]
    | ok account =>
        have own : ∀ step ∈ account.steps, ∀ name, step.concerns name → after.Avoids name path :=
          fun _ _ name _ => avoids name
        have kept := find_performAll own
        simp only [planned, Account.perform]
        rcases carried : RunStep.performAll account.steps after with ⟨done, error | ⟨⟨⟩⟩, last⟩ <;>
          rw [carried] at kept <;> exact kept

end DirectoryStore

end PhasedUpgrade
