import PhasedUpgrade.Collections.NameMap
import PhasedUpgrade.Toml.Value

/-!
# Answers

What the operator answered to the dialogs of actors, by section and key.
-/

namespace PhasedUpgrade

/-- Values by section and, in a section, by key. -/
structure Answers where
  sections : NameMap (NameMap Toml.Value)
deriving Inhabited

namespace Answers

def empty : Answers := ⟨∅⟩

def get? (answers : Answers) (heading key : String) : Option Toml.Value := do
  (← answers.sections.get? heading).get? key

/-- Record a value; a later one for the same section and key replaces it. -/
def set (answers : Answers) (heading key : String) (value : Toml.Value) : Answers :=
  let entries := (answers.sections.get? heading).getD ∅
  ⟨answers.sections.insert heading (entries.insert key value)⟩

def size (answers : Answers) : Nat :=
  answers.sections.size

/-- Whether the same sections hold the same keys with equal values. -/
def same (a b : Answers) : Bool :=
  let tables (answers : Answers) : List (String × Toml.Value) :=
    answers.sections.entries.map fun entry => (entry.1, .table entry.2.entries)
  Toml.Value.sameEntries (tables a) (tables b)

end Answers

end PhasedUpgrade
