import PhasedUpgrade.Store.Basic

/-!
# Stores in memory

A store that keeps what it is given and forgets it with the process.
-/

namespace PhasedUpgrade

/-- The latest record and the latest journal of each execution. -/
structure MemoryStore where
  executions : List Execution
  journals : List (ExecutionId × Journal)
  distinct : (executions.map Execution.id).Nodup
deriving DecidableEq

namespace MemoryStore

def empty : MemoryStore := ⟨[], [], .nil⟩

instance : Inhabited MemoryStore := ⟨empty⟩

def find? (store : MemoryStore) (id : ExecutionId) : Option Execution :=
  store.executions.find? (·.id = id)

def journal (store : MemoryStore) (id : ExecutionId) : Journal :=
  (store.journals.lookup id).getD .empty

/-- The executions with another one in the place of the one of its name. -/
def replaced (executions : List Execution) (execution : Execution) : List Execution :=
  execution :: executions.filter (·.id ≠ execution.id)

theorem nodup_replaced {executions : List Execution} (h : (executions.map Execution.id).Nodup)
    (execution : Execution) : ((replaced executions execution).map Execution.id).Nodup := by
  refine List.nodup_cons.mpr ⟨?_, h.sublist (List.filter_sublist.map _)⟩
  simp

def put (store : MemoryStore) (execution : Execution) : MemoryStore :=
  { store with
    executions := replaced store.executions execution
    distinct := nodup_replaced store.distinct execution }

def putJournal (store : MemoryStore) (id : ExecutionId) (journal : Journal) : MemoryStore :=
  { store with journals := (id, journal) :: store.journals.filter (·.1 ≠ id) }

instance : Store MemoryStore where
  save execution store := (.ok (), store.put execution)
  load id store := (.ok (store.find? id), store)
  mostRecent kind store :=
    (.ok (Execution.newest? (store.executions.filter (·.kind = kind))), store)
  saveJournal id journal store := (.ok (), store.putJournal id journal)
  loadJournal id store := (.ok (store.journal id), store)

end MemoryStore

end PhasedUpgrade
