import PhasedUpgrade.Actor.Stop
import PhasedUpgrade.Answers.Basic
import PhasedUpgrade.Execution.Basic
import PhasedUpgrade.Message.Bus

/-!
# Programs of actors

An actor's behaviour is a tree of the requests it makes to its surroundings: to produce and to
consume messages, and to look up and to record answers. What it may only read is handed to it at
the start.
-/

namespace PhasedUpgrade

open Time (Instant)

/-- What an actor sees of its surroundings when it starts. -/
structure View where
  actor : String
  phase : String
  execution : Execution

def View.env? (view : View) (name : String) : Option String :=
  view.execution.configuration.env.get? name

/-- A behaviour that asks for things step by step and ends with a value. -/
inductive Program (α : Type) where
  | done (value : α)
  | produce (draft : Message) (next : Except ContractViolation Unit → Program α)
  | consume (typeName : String) (next : Except ContractViolation (List Message) → Program α)
  | answer (heading key : String) (next : Option Toml.Value → Program α)
  | recordAnswer (heading key : String) (value : Toml.Value) (next : Program α)
  /-- A remark for those who watch the run; it changes nothing. -/
  | note (key : String) (value : Json) (next : Program α)

namespace Program

variable {α β : Type}

/-- Go on with another program where one ends. -/
def bind (program : Program α) (f : α → Program β) : Program β :=
  match program with
  | .done value => f value
  | .produce draft next => .produce draft fun result => (next result).bind f
  | .consume typeName next => .consume typeName fun result => (next result).bind f
  | .answer heading key next => .answer heading key fun value => (next value).bind f
  | .recordAnswer heading key value next => .recordAnswer heading key value (next.bind f)
  | .note key value next => .note key value (next.bind f)

instance : Monad Program where
  pure := .done
  bind := bind

end Program

/-- A behaviour that may stop early. -/
abbrev Task (α : Type) : Type := ExceptT Stop Program α

namespace Task

variable {α : Type}

def ofProgram (program : Program (Except Stop α)) : Task α := ExceptT.mk program

def stop (stop : Stop) : Task α := ofProgram (.done (.error stop))

/-- End early if a contract was violated. -/
def heed : Except ContractViolation α → Except Stop α
  | .ok value => .ok value
  | .error violation => .error (.contract violation)

def produce (draft : Message) : Task Unit :=
  ofProgram (.produce draft fun result => .done (heed result))

def consume (typeName : String) : Task (List Message) :=
  ofProgram (.consume typeName fun result => .done (heed result))

def answer (heading key : String) : Task (Option Toml.Value) :=
  ofProgram (.answer heading key fun value => .done (.ok value))

def recordAnswer (heading key : String) (value : Toml.Value) : Task Unit :=
  ofProgram (.recordAnswer heading key value (.done (.ok ())))

def note (key : String) (value : Json) : Task Unit :=
  ofProgram (.note key value (.done (.ok ())))

def produceModel (model : Model α) (value : α) : Task Unit :=
  produce (model.draft value)

def report (report : Report) : Task Unit :=
  produceModel Report.model report

def read (actor : String) (model : Model α) (message : Message) : Task α :=
  match model.read message with
  | .ok value => pure value
  | .error cause => stop (.contract (.invalidMessage actor cause))

/-- The first message of a model, if there is one. -/
def consumeOne (actor : String) (model : Model α) : Task (Option α) := do
  match ← consume model.name with
  | [] => return none
  | message :: _ => return some (← read actor model message)

end Task

/-- An actor: what it declares and what it does. -/
structure Actor extends Contract where
  behave : View → Task Unit

end PhasedUpgrade
