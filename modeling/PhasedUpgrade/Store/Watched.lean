import PhasedUpgrade.Store.Basic

/-!
# Watched stores

A watched store notes the calls it gets and may fail one of them.
-/

namespace PhasedUpgrade

inductive StoreCall where
  | save (execution : Execution)
  | load (id : ExecutionId)
  | mostRecent (kind : ExecutionKind)
  | saveJournal (id : ExecutionId) (journal : Journal)
  | loadJournal (id : ExecutionId)
deriving DecidableEq

namespace StoreCall

def name : StoreCall → String
  | save _ => "save"
  | load _ => "load"
  | mostRecent _ => "most_recent"
  | saveJournal _ _ => "save_journal"
  | loadJournal _ => "load_journal"

end StoreCall

/-- The call that is to fail: the one of a name with a given number, counted from one. -/
structure PlannedFault where
  call : String
  number : Nat
deriving DecidableEq

/-- A store with the calls it has got so far and the one that is to fail. -/
structure Watched (σ : Type) where
  store : σ
  calls : List StoreCall
  fault : Option PlannedFault

namespace Watched

variable {σ : Type}

def failsNext (watched : Watched σ) (call : StoreCall) : Bool :=
  match watched.fault with
  | none => false
  | some fault =>
      fault.call = call.name &&
        (watched.calls.filter (·.name = call.name)).length + 1 = fault.number

/-- Note a call and answer it, unless it is to fail. -/
def answer {α : Type} (call : StoreCall) (act : σ → StoreResult σ α) (watched : Watched σ) :
    StoreResult (Watched σ) α :=
  let calls := watched.calls ++ [call]
  if watched.failsNext call then
    (.error (.unavailable "disk full"), { watched with calls := calls })
  else
    let (result, store) := act watched.store
    (result, { watched with store := store, calls := calls })

instance [Store σ] : Store (Watched σ) where
  save execution := answer (.save execution) (Store.save execution)
  load id := answer (.load id) (Store.load id)
  mostRecent kind := answer (.mostRecent kind) (Store.mostRecent kind)
  saveJournal id journal := answer (.saveJournal id journal) (Store.saveJournal id journal)
  loadJournal id := answer (.loadJournal id) (Store.loadJournal id)

end Watched

end PhasedUpgrade
