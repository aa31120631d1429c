import PhasedUpgrade.Declaration.Basic
import PhasedUpgrade.Json.Source
import PhasedUpgrade.Upgrade.Facts

/-!
# Declared models

Schemas, messages and reports as JSON data, and the models that are known by name.
-/

namespace PhasedUpgrade.Declaration

/-- A payload, declared in place or by its text. -/
def payload (json : Json) (name : String) : Json :=
  match text? json (name ++ "_text") with
  | some text => (Json.ofText text).getD .null
  | none => value json name

def field (json : Json) : Field where
  name := text json "name"
  kind := (FieldKind.all.find? (·.name == text json "kind")).getD .any
  required := flag json "required"

def schema (json : Json) : Schema :=
  ⟨text json "name", text json "topic", (items json "fields").map field⟩

/-- A message with its stamp, except for the time. -/
def message (json : Json) : Message :=
  { Message.draft (text json "type") (text json "topic") (payload json "payload") with
    producer := text json "produced_by"
    phase := text json "phase"
    sequence := number json "sequence" }

def severity (name : String) : Severity :=
  (Severity.choices.lookup name).getD .info

def group (name : String) : Group :=
  (Group.choices.lookup name).getD .error

def report (json : Json) : Report where
  title := text json "title"
  summary := text json "summary"
  severity := severity (text json "severity")
  groups := (texts json "groups").map group
  remediation := text? json "remediation"
  key := text? json "key"

/-- The catalog of reports, of types without fields, of declared models and of the upgrade's own. -/
def catalog (json : Json) : Except MessageError Catalog :=
  let plain := (texts json "types").map fun name => (⟨name, "TestTopic", []⟩ : Schema)
  let own := if flag json "cli_models" then Upgrade.schemas else []
  Catalog.builtin.registerAll (plain ++ (items json "models").map schema ++ own)

def knownSchema (name : String) : Schema :=
  if name = Upgrade.Facts.model.name then Upgrade.Facts.model.schema
  else if name = Upgrade.TargetRepositories.model.name then
    Upgrade.TargetRepositories.model.schema
  else Report.model.schema

def read (name : String) (message : Message) : Except MessageError Json :=
  if name = Upgrade.Facts.model.name then
    (Upgrade.Facts.model.read message).map Upgrade.Facts.encode
  else if name = Upgrade.TargetRepositories.model.name then
    (Upgrade.TargetRepositories.model.read message).map Upgrade.TargetRepositories.encode
  else (Report.model.read message).map Report.encode

def draft? (name : String) (value : Json) : Option Message :=
  if name = Upgrade.Facts.model.name then
    (Upgrade.Facts.model.decode value).toOption.map Upgrade.Facts.model.draft
  else if name = Upgrade.TargetRepositories.model.name then
    (Upgrade.TargetRepositories.model.decode value).toOption.map
      Upgrade.TargetRepositories.model.draft
  else (Report.model.decode value).toOption.map Report.model.draft

end PhasedUpgrade.Declaration
