import PhasedUpgrade.Execution.Record
import PhasedUpgrade.Files.Tree
import PhasedUpgrade.Store.Basic

/-!
# Stores in a directory

Below its root the store keeps a directory per execution, named for it, with the records of the
execution and of its journal. A file is replaced as a whole or not at all.
-/

namespace PhasedUpgrade

open Files

/-- A tree of files and the path of the store's root in it. -/
structure DirectoryStore where
  tree : Tree
  root : String

namespace DirectoryStore

def executionFile : String := "context.json"

def journalFile : String := "journal.json"

/-- The path of a directory or a file below the root. -/
def pathText (store : DirectoryStore) (below : Path) : String :=
  below.foldl join store.root

def path (store : DirectoryStore) (below : Path) : Path :=
  Path.ofText store.root ++ below

def failure (store : DirectoryStore) (below : Path) (fault : Fault) : StoreError :=
  .io (store.pathText below) fault.message

def write (store : DirectoryStore) (below : Path) (record : Json) :
    StoreResult DirectoryStore Unit :=
  match store.tree.write record.indented.toUTF8 (store.path below) with
  | .ok tree => (.ok (), { store with tree := tree })
  | .error fault =>
      let (told, cause) := store.tree.writeFailure (store.path below) (store.pathText below)
        (store.pathText below.dropLast) fault
      (.error (.io told cause.message), store)

/-- What a record is read as; nothing if there is no file. -/
def read {α : Type} (store : DirectoryStore) (below : Path) (decode : ByteArray → Option α) :
    Except StoreError (Option α) :=
  match store.tree.read (store.path below) with
  | .error .notFound => .ok none
  | .error fault => .error (store.failure below fault)
  | .ok bytes =>
      match decode bytes with
      | some record => .ok (some record)
      | none => .error (.corrupt (store.pathText below) "not a record of its kind")

section

variable (decode : ByteArray → Option Execution) (store : DirectoryStore) (kind : ExecutionKind)

/-- The executions of a kind in some entries of the root; other files are passed over. -/
def candidates : List (String × Tree) → Except StoreError (List Execution)
  | [] => .ok []
  | (_, .file _) :: rest => candidates rest
  | (name, .directory _) :: rest => do
      match ← store.read [name, executionFile] decode with
      | some execution =>
          let others ← candidates rest
          return if execution.kind = kind then execution :: others else others
      | none => candidates rest

/-- The newest execution of a kind; a record that cannot be read is reported, not passed over. -/
def newest : Except StoreError (Option Execution) :=
  match store.tree.find (store.path []) with
  | .error .notFound => .ok none
  | .error fault => .error (store.failure [] fault)
  | .ok (.file _) => .error (store.failure [] .notADirectory)
  | .ok (.directory entries) => return Execution.newest? (← candidates decode store kind entries)

end

instance : Store DirectoryStore where
  save execution store := store.write [execution.id.text, executionFile] execution.toJson
  load id store := (store.read [id.text, executionFile] Execution.ofBytes?, store)
  mostRecent kind store := (store.newest Execution.ofBytes? kind, store)
  saveJournal id journal store := store.write [id.text, journalFile] journal.toJson
  loadJournal id store :=
    ((store.read [id.text, journalFile] Journal.ofBytes?).map (·.getD .empty), store)

end DirectoryStore

end PhasedUpgrade
