import PhasedUpgrade.Dispatch.Visit
import PhasedUpgrade.Run.Error
import PhasedUpgrade.Store.Basic

/-!
# Accounts of runs

A run is told as the list of its steps in the order in which they happen. What the store has to say
about a step is no part of the account: it only decides how far the steps are carried out.
-/

namespace PhasedUpgrade

inductive RunStep where
  | setVariable (name value : String)
  | visit (visit : Visit)
  | save (execution : Execution)
  | saveJournal (id : ExecutionId) (journal : Journal)

/-- Steps, and the value they come to or the error that ends them. -/
structure Account (α : Type) where
  steps : List RunStep
  ended : Except RunError α

namespace Account

variable {α β : Type}

/-- Steps that come to nothing. -/
def does (steps : List RunStep) : Account Unit :=
  ⟨steps, .ok ()⟩

def ends (result : Except RunError α) : Account α :=
  ⟨[], result⟩

/-- Go on after some steps, unless they ended in an error. -/
def bind (account : Account α) (next : α → Account β) : Account β :=
  match account.ended with
  | .error error => ⟨account.steps, .error error⟩
  | .ok value => ⟨account.steps ++ (next value).steps, (next value).ended⟩

instance : Monad Account where
  pure value := ends (.ok value)
  bind := bind

end Account

end PhasedUpgrade
