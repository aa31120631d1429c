import PhasedUpgrade.Workflow.Phase

/-!
# Workflows

A workflow is a non-empty list of phases with distinct names.
-/

namespace PhasedUpgrade

/-- Phases in the order in which they run. -/
structure Workflow where
  name : String
  tag : String
  phases : List Phase
  phases_ne_nil : phases ≠ []
  nodup_names : (phases.map Phase.name).Nodup
deriving DecidableEq

inductive WorkflowError where
  | empty (workflow : String)
  | duplicatePhase (phase : String)
deriving DecidableEq

namespace WorkflowError

def kind : WorkflowError → String
  | empty _ => "Empty"
  | duplicatePhase _ => "DuplicatePhase"

def message : WorkflowError → String
  | empty workflow => "workflow '" ++ workflow ++ "' has no phases"
  | duplicatePhase phase => "duplicate phase '" ++ phase ++ "'"

end WorkflowError

/-- The first name that occurs among the names before it. -/
def firstRepeated (seen : List String) : List String → Option String
  | [] => none
  | name :: rest => if name ∈ seen then some name else firstRepeated (name :: seen) rest

theorem firstRepeated_eq_none {seen names : List String} (h : firstRepeated seen names = none) :
    names.Nodup ∧ ∀ name ∈ names, name ∉ seen := by
  induction names generalizing seen with
  | nil => simp
  | cons name rest ih =>
      simp only [firstRepeated] at h
      split at h
      · simp at h
      next fresh =>
        obtain ⟨nodup, apart⟩ := ih h
        refine ⟨List.nodup_cons.mpr ⟨fun mem => apart name mem (by simp), nodup⟩, ?_⟩
        intro other mem
        rcases List.mem_cons.mp mem with rfl | mem
        · exact fresh
        · exact fun seenOther => apart other mem (by simp [seenOther])

namespace Workflow

def ofPhases (name tag : String) (phases : List Phase) : Except WorkflowError Workflow :=
  if nonempty : phases = [] then .error (.empty name)
  else
    match repeated : firstRepeated [] (phases.map Phase.name) with
    | some phase => .error (.duplicatePhase phase)
    | none => .ok ⟨name, tag, phases, nonempty, (firstRepeated_eq_none repeated).1⟩

/-- The place of a phase, counted from zero. -/
def position? (workflow : Workflow) (phase : String) : Option Nat :=
  workflow.phases.findIdx? (·.name == phase)

def phase? (workflow : Workflow) (phase : String) : Option Phase :=
  workflow.phases.find? (·.name == phase)

end Workflow

end PhasedUpgrade
