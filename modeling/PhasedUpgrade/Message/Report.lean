import PhasedUpgrade.Message.Model

/-!
# Reports

A report is a finding for the operator. One that is in the inhibitor group keeps the upgrade from
going on.
-/

namespace PhasedUpgrade

open Reading (Misfit)

inductive Severity where
  | info
  | low
  | medium
  | high
deriving DecidableEq

namespace Severity

def name : Severity → String
  | info => "info"
  | low => "low"
  | medium => "medium"
  | high => "high"

/-- From the least to the most severe. -/
def all : List Severity :=
  [info, low, medium, high]

def choices : List (String × Severity) :=
  all.map fun severity => (severity.name, severity)

def rank : Severity → Nat
  | info => 0
  | low => 1
  | medium => 2
  | high => 3

instance : LE Severity := ⟨fun a b => a.rank ≤ b.rank⟩

instance (a b : Severity) : Decidable (a ≤ b) :=
  inferInstanceAs (Decidable (a.rank ≤ b.rank))

end Severity

inductive Group where
  | inhibitor
  | error
  | boot
  | drivers
  | filesystem
  | kernel
  | network
  | osFacts
  | repository
  | sanity
  | security
  | selinux
  | services
  | tools
  | upgradeProcess
deriving DecidableEq

namespace Group

def name : Group → String
  | inhibitor => "inhibitor"
  | error => "error"
  | boot => "boot"
  | drivers => "drivers"
  | filesystem => "filesystem"
  | kernel => "kernel"
  | network => "network"
  | osFacts => "os_facts"
  | repository => "repository"
  | sanity => "sanity"
  | security => "security"
  | selinux => "selinux"
  | services => "services"
  | tools => "tools"
  | upgradeProcess => "upgrade_process"

def all : List Group :=
  [inhibitor, error, boot, drivers, filesystem, kernel, network, osFacts, repository, sanity,
    security, selinux, services, tools, upgradeProcess]

def choices : List (String × Group) :=
  all.map fun group => (group.name, group)

end Group

/-- A finding; the key identifies it when it is reported again. -/
structure Report where
  title : String
  summary : String
  severity : Severity
  groups : List Group
  remediation : Option String
  key : Option String
deriving DecidableEq

namespace Report

def informational (title summary : String) : Report where
  title := title
  summary := summary
  severity := .info
  groups := []
  remediation := none
  key := none

def withSeverity (report : Report) (severity : Severity) : Report :=
  { report with severity := severity }

/-- In one more group, unless it is in it already. -/
def withGroup (report : Report) (group : Group) : Report :=
  if group ∈ report.groups then report else { report with groups := report.groups ++ [group] }

def withRemediation (report : Report) (hint : String) : Report :=
  { report with remediation := some hint }

def withKey (report : Report) (key : String) : Report :=
  { report with key := some key }

/-- A report of high severity that keeps the upgrade from going on. -/
def inhibitor (title summary : String) : Report :=
  ((informational title summary).withSeverity .high).withGroup .inhibitor

def isInhibitor (report : Report) : Bool :=
  report.groups.contains .inhibitor

/-- A field that is left out when there is no text. -/
def textField (name : String) : Option String → List (String × Json)
  | none => []
  | some text => [(name, .string text)]

def encode (report : Report) : Json :=
  .object <|
    [("groups", .array (report.groups.map fun group => .string group.name))] ++
    textField "key" report.key ++
    textField "remediation" report.remediation ++
    [("severity", .string report.severity.name), ("summary", .string report.summary),
      ("title", .string report.title)]

def fields : List Field :=
  [⟨"title", .string, true⟩, ⟨"summary", .string, true⟩, ⟨"severity", .string, true⟩,
    ⟨"groups", .list, true⟩, ⟨"remediation", .string, false⟩, ⟨"key", .string, false⟩]

def reader : Json.Fields Report :=
  Report.mk <$> .required "title" Json.readString
    <*> .required "summary" Json.readString
    <*> .required "severity" (Json.readChoice Severity.choices)
    <*> .required "groups" (Json.readList (Json.readChoice Group.choices))
    <*> .optional "remediation" Json.readString
    <*> .optional "key" Json.readString

def decode : Json → Except Misfit Report :=
  reader.read "Report" (fields.map Field.name)

def model : Model Report where
  name := "Report"
  topic := "ReportTopic"
  fields := fields
  encode := encode
  decode := decode

end Report

/-- The catalog that every run starts from: reports alone. -/
def Catalog.builtin : Catalog :=
  ⟨(∅ : NameMap Schema).insert Report.model.name Report.model.schema⟩

/-- The reports among messages; one that cannot be read is passed over. -/
def Message.reports (messages : List Message) : List Report :=
  (messages.filter (·.typeName = Report.model.name)).filterMap fun message =>
    (Report.model.read message).toOption

end PhasedUpgrade
