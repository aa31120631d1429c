import PhasedUpgrade.Actor.Contract

/-!
# Ends of actors

How an actor may end early, and what its end is called in the record of a phase.
-/

namespace PhasedUpgrade

/-- Why an actor ended before it was done. -/
inductive Stop where
  /-- The actor has nothing to do here. -/
  | recoverable (reason : String)
  /-- The execution must not go on. -/
  | fatal (reason : String) (details : Option String)
  | contract (violation : ContractViolation)
  /-- An error with the contexts it came through: the outermost first, the cause last. -/
  | unexpected (chain : List String)
  /-- The actor broke down, perhaps with a message. -/
  | panicked (text : Option String)
deriving DecidableEq

namespace Stop

/-- Add details to a fatal stop; other stops have none. -/
def withDetails (stop : Stop) (details : String) : Stop :=
  match stop with
  | .fatal reason _ => .fatal reason (some details)
  | other => other

def panicText : Option String → String
  | none => "panicked"
  | some text => "panicked: " ++ text

def message : Stop → String
  | recoverable reason => "skipped: " ++ reason
  | fatal reason _ => "fatal: " ++ reason
  | contract violation => violation.message
  | unexpected chain => chain.headD ""
  | panicked text => panicText text

end Stop

inductive ActorResult where
  | completed
  | skipped (reason : String)
  | fatal (reason : String) (details : Option String)
  | violation (cause : ContractViolation)
  | failed (error : String)
deriving DecidableEq

namespace ActorResult

def label : ActorResult → String
  | completed => "completed"
  | skipped _ => "skipped"
  | fatal _ _ => "fatal"
  | violation _ => "contract_violation"
  | failed _ => "failed"

def ofStop : Stop → ActorResult
  | .recoverable reason => skipped reason
  | .fatal reason details => fatal reason details
  | .contract cause => violation cause
  | .unexpected chain => failed (": ".intercalate chain)
  | .panicked text => failed (Stop.panicText text)

/-- The result of an actor that ended by itself or stopped. -/
def ofEnd : Except Stop Unit → ActorResult
  | .ok () => completed
  | .error stop => ofStop stop

end ActorResult

end PhasedUpgrade
