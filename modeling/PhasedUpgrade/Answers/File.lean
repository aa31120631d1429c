import PhasedUpgrade.Answers.Basic
import PhasedUpgrade.Answers.Error
import PhasedUpgrade.Files.Tree
import PhasedUpgrade.Toml.Document
import PhasedUpgrade.Toml.Print

/-!
# Files of answers

Answers are kept in a file, as a TOML document with a table per section. A file that is not there
holds no answers.
-/

namespace PhasedUpgrade.Answers

/-- The entries of a value that stands for a section. -/
def sectionOf? (value : Toml.Value) : Option (NameMap Toml.Value) :=
  (value.entries?.bind Toml.Value.keptEntries?).map .ofList

def ofText? (text : String) (depth : Nat := Toml.maxDepth) : Option Answers := do
  let entries ← Toml.read? text depth
  let sections ← entries.mapM fun (heading, value) => do return (heading, ← sectionOf? value)
  return ⟨.ofList sections⟩

def text (answers : Answers) : String :=
  .ofList (Toml.documentChars (answers.sections.entries.map fun entry =>
    (entry.1, entry.2.entries)))

open Files

/-- The answers in a file, read by a reader that lets values be nested `depth` deep. -/
def load (tree : Tree) (path : String) (depth : Nat := Toml.maxDepth) :
    Except AnswerError Answers :=
  match tree.readText (Path.ofText path) with
  | .error .notFound => .ok .empty
  | .error fault => .error (.store (.io path fault.message))
  | .ok text =>
      match ofText? text depth with
      | some answers => .ok answers
      | none => .error (.unreadable path "not a document of answers")

def save (answers : Answers) (tree : Tree) (path : String) : Except AnswerError Tree :=
  (tree.write answers.text.toUTF8 (Path.ofText path)).mapError fun fault =>
    let (told, cause) := tree.writeFailure (Path.ofText path) path (Files.parent path) fault
    .store (.io told cause.message)

end PhasedUpgrade.Answers
