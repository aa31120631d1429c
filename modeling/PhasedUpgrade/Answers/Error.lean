import PhasedUpgrade.Store.Basic

/-!
# Errors of answers

Why answers could not be read or recorded.
-/

namespace PhasedUpgrade

inductive AnswerError where
  | unreadable (path cause : String)
  | malformed (assignment : String)
  | store (cause : StoreError)
deriving DecidableEq

namespace AnswerError

def kind : AnswerError → String
  | unreadable _ _ => "Parse"
  | malformed _ => "InvalidAssignment"
  | store cause => cause.kind

def message : AnswerError → String
  | unreadable path cause => "invalid answerfile " ++ path ++ ": " ++ cause
  | malformed assignment =>
      "invalid answer '" ++ assignment ++ "', expected <section>.<key>=<value>"
  | store cause => cause.message

def exitCode : AnswerError → Nat
  | unreadable _ _ | malformed _ => 2
  | store _ => 3

end AnswerError

end PhasedUpgrade
