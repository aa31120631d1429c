import PhasedUpgrade.Actor.Registry
import PhasedUpgrade.Declaration.Answers
import PhasedUpgrade.Declaration.Model
import PhasedUpgrade.Display.Run

/-!
# Declared actors

Actors as JSON data. The behaviour of a declared actor is a script of steps, one after the other;
what a step finds out it leaves as a remark under the name of the step.
-/

namespace PhasedUpgrade.Declaration

def contract (json : Json) : Contract where
  name := text json "name"
  description := text json "description"
  consumes := .ofList (texts json "consumes")
  produces := .ofList (texts json "produces")
  tags := .ofList (texts json "tags")
  experimental := flag json "experimental"

/-- What a message carries as a model known by name, or the end of the actor. -/
def readOrStop (actor model : String) (message : Message) : Task Json :=
  match read model message with
  | .ok value => pure value
  | .error cause => Task.stop (.contract (.invalidMessage actor cause))

/-- A request whose refusal does not end the actor. -/
def attempt {α : Type} (request : (Except ContractViolation α → Program (Except Stop Json)) →
    Program (Except Stop Json)) (value : α → Json) : Task Json :=
  Task.ofProgram (request fun result =>
    .done (.ok (Display.result ContractViolation.toJson value result)))

def step (view : View) (json : Json) : Task Unit := do
  match json with
  | .object [("produce", draft)] => Task.produce (message draft)
  | .object [("try_produce", draft)] =>
      Task.note "try_produce"
        (← attempt (.produce (message draft)) fun _ => .string "ok")
  | .object [("report", finding)] => Task.report (report finding)
  | .object [("produce_model", declared)] =>
      if let some draft := draft? (text declared "model") (payload declared "value") then
        Task.produce draft
  | .object [("consume", .string name)] =>
      Task.note "consume" (Message.summariesJson (← Task.consume name))
  | .object [("try_consume", .string name)] =>
      Task.note "try_consume"
        (← attempt (.consume name) fun messages => .integer messages.length)
  | .object [("consume_model", .string model)] =>
      let messages ← Task.consume model
      Task.note "consume_model" (.integer messages.length)
      for message in messages do
        Task.note "item" (← readOrStop view.actor model message)
  | .object [("consume_one", .string model)] =>
      match ← Task.consume model with
      | [] => Task.note "consume_one" .null
      | message :: _ => Task.note "consume_one" (← readOrStop view.actor model message)
  | .object [("env", .string name)] => Task.note "env" (.ofText? (view.env? name))
  | .object [("answer", .array [.string heading, .string key])] =>
      Task.note "answer"
        (((← Task.answer heading key).map Toml.Value.toJson).getD .null)
  | .object [("record", .array [.string heading, .string key, answer])] =>
      Task.recordAnswer heading key (toml answer)
  | .object [("info", _)] =>
      Task.note "info" (.object [("phase", .string view.phase),
        ("kind", .string view.execution.kind.name), ("id", .string view.execution.id.text),
        ("configuration", view.execution.configuration.toJson)])
  | .object [("skip", .string reason)] => Task.stop (.recoverable reason)
  | .object [("fatal", .array [.string reason, details])] =>
      Task.stop (.fatal reason (textOf? details))
  | .object [("fail", .array chain)] => Task.stop (.unexpected (chain.map textOf))
  | .object [("panic", .string message)] => Task.stop (.panicked (some message))
  | .object [("panic_static", _)] => Task.stop (.panicked (some "static panic"))
  | .object [("panic_other", _)] => Task.stop (.panicked none)
  | _ => pure ()

/-- The behaviour that goes through a script, with a remark at its begin and at its end. -/
def script (steps : List Json) (view : View) : Task Unit := do
  Task.note "start" .null
  for json in steps do
    step view json
  Task.note "end" .null

def actor (json : Json) : Actor :=
  { contract json with behave := script (items json "script") }

end PhasedUpgrade.Declaration
