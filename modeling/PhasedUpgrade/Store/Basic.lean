import PhasedUpgrade.Execution.Basic
import PhasedUpgrade.Store.Journal

/-!
# Stores

A store keeps executions and their journals over reboots. Each call gives its result, which may be
a failure, and the store as it is afterwards.
-/

namespace PhasedUpgrade

inductive StoreError where
  | io (path cause : String)
  | corrupt (path cause : String)
  | encode (what cause : String)
  | inconsistent (text : String)
  | unavailable (text : String)
deriving DecidableEq

namespace StoreError

def kind : StoreError → String
  | io _ _ => "Io"
  | corrupt _ _ => "Corrupt"
  | encode _ _ => "Encode"
  | inconsistent _ => "Inconsistent"
  | unavailable _ => "Unavailable"

def message : StoreError → String
  | io path cause => "i/o error on " ++ path ++ ": " ++ cause
  | corrupt path cause => "corrupt record " ++ path ++ ": " ++ cause
  | encode what cause => "failed to encode " ++ what ++ ": " ++ cause
  | inconsistent text => "inconsistent persisted state: " ++ text
  | unavailable text => "store unavailable: " ++ text

end StoreError

abbrev StoreResult (σ α : Type) : Type := Except StoreError α × σ

class Store (σ : Type) where
  save : Execution → σ → StoreResult σ Unit
  load : ExecutionId → σ → StoreResult σ (Option Execution)
  /-- The newest execution of a kind. -/
  mostRecent : ExecutionKind → σ → StoreResult σ (Option Execution)
  saveJournal : ExecutionId → Journal → σ → StoreResult σ Unit
  /-- The journal of an execution; an empty one if none was saved. -/
  loadJournal : ExecutionId → σ → StoreResult σ Journal

def Execution.newest? : List Execution → Option Execution
  | [] => none
  | execution :: rest =>
      match newest? rest with
      | none => some execution
      | some other => if execution.isNewer other then some execution else some other

end PhasedUpgrade
