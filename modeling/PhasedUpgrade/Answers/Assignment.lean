import PhasedUpgrade.Answers.Basic
import PhasedUpgrade.Answers.Error
import PhasedUpgrade.Text.Split
import PhasedUpgrade.Toml.Document

/-!
# Assignments of answers

The operator records an answer by a text of the form `section.key=value`.
-/

namespace PhasedUpgrade.Answers

/-- The value that a text spells, or the text itself if it spells none. -/
def valueOf (raw : String) : Toml.Value :=
  match (Toml.read? ("v = " ++ raw)).bind Toml.Value.keptEntries? with
  | some entries => (entries.lookup "v").getD (.string raw)
  | none => .string raw

/-- The section, the key and the text of the value that an assignment names. -/
def splitAssignment? (assignment : String) : Option (String × String × String) := do
  let (path, raw) ← Text.cut '=' assignment
  let (heading, key) ← Text.cut '.' (Text.trim path)
  if heading = "" ∨ key = "" then none else some (heading, key, Text.trim raw)

def assign (answers : Answers) (assignment : String) : Except AnswerError Answers :=
  match splitAssignment? assignment with
  | some (heading, key, raw) => .ok (answers.set heading key (valueOf raw))
  | none => .error (.malformed assignment)

def assignAll (answers : Answers) (assignments : List String) : Except AnswerError Answers :=
  assignments.foldlM assign answers

end PhasedUpgrade.Answers
