/-!
# Phases

A phase is a step of a workflow. Its tag says which actors run in it, its policies what follows
from a failure, and its flags what follows from its end.
-/

namespace PhasedUpgrade

/-- What an unexpected failure of an actor means for its phase. -/
inductive ErrorPolicy where
  | failPhase
  | reportOnly
deriving DecidableEq, Inhabited

namespace ErrorPolicy

def name : ErrorPolicy → String
  | failPhase => "fail_phase"
  | reportOnly => "report_only"

end ErrorPolicy

/-- Whether a phase may be run again after it did not succeed. -/
inductive RetryPolicy where
  | retryPhase
  | disabled
deriving DecidableEq, Inhabited

namespace RetryPolicy

def name : RetryPolicy → String
  | retryPhase => "retry_phase"
  | disabled => "disabled"

end RetryPolicy

structure Phase where
  name : String
  tag : String
  errorPolicy : ErrorPolicy
  retryPolicy : RetryPolicy
  requestRestart : Bool
  restart : Bool
  stopIfInhibited : Bool
deriving DecidableEq, Inhabited

namespace Phase

/-- A phase that fails on any failure, may be retried and is followed by the next one. -/
def plain (name tag : String) : Phase where
  name := name
  tag := tag
  errorPolicy := .failPhase
  retryPolicy := .retryPhase
  requestRestart := false
  restart := false
  stopIfInhibited := false

/-- Whether a reboot should follow the phase, be it requested or required. -/
def wantsReboot (phase : Phase) : Bool :=
  phase.requestRestart || phase.restart

end Phase

end PhasedUpgrade
