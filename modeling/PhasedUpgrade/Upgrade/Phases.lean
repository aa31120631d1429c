import PhasedUpgrade.Workflow.Basic

/-!
# The phases of the system upgrade

Up to the reports the system is only analysed, and inhibitors stop the run. The download may be
repeated; from the preparation of the interim system on the machine is being changed, and a phase
that did not succeed is not run again.
-/

namespace PhasedUpgrade.Upgrade

def workflowTag : String := "IPUWorkflowTag"

def lastPhaseOfChecking : String := "Reports"

namespace PhaseTag

def facts : String := "FactsPhaseTag"
def checks : String := "ChecksPhaseTag"
def targetFacts : String := "TargetTransactionFactsPhaseTag"
def reports : String := "ReportsPhaseTag"
def download : String := "DownloadPhaseTag"
def interimPreparation : String := "InterimPreparationPhaseTag"
def packageUpgrade : String := "RPMUpgradePhaseTag"
def finalization : String := "FinalizationPhaseTag"
def firstBoot : String := "FirstBootPhaseTag"

end PhaseTag

def phases : List Phase :=
  [.plain "FactsCollection" PhaseTag.facts,
    { Phase.plain "Checks" PhaseTag.checks with stopIfInhibited := true },
    .plain "TargetTransactionFactsCollection" PhaseTag.targetFacts,
    { Phase.plain "Reports" PhaseTag.reports with
      errorPolicy := .reportOnly, stopIfInhibited := true },
    .plain "Download" PhaseTag.download,
    { Phase.plain "InterimPreparation" PhaseTag.interimPreparation with
      retryPolicy := .disabled, restart := true },
    { Phase.plain "RPMUpgrade" PhaseTag.packageUpgrade with retryPolicy := .disabled },
    { Phase.plain "Finalization" PhaseTag.finalization with
      retryPolicy := .disabled, requestRestart := true },
    .plain "FirstBoot" PhaseTag.firstBoot]

def workflow : Workflow where
  name := "IPUWorkflow"
  tag := workflowTag
  phases := phases
  phases_ne_nil := by simp [phases]
  nodup_names := by simp [phases, Phase.plain]

end PhasedUpgrade.Upgrade
