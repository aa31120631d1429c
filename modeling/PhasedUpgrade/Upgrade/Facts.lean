import PhasedUpgrade.Message.Report

/-!
# Models of the system upgrade

What the shipped actors tell each other: the upgrade as it was asked for, and the repositories that
its transaction will use.
-/

namespace PhasedUpgrade.Upgrade

/-- The upgrade as asked for, with flags and environment taken into account. -/
structure Facts where
  sourceVersion : String
  targetVersion : String
  architecture : String
  skipSubscription : Bool
  enabledRepositories : List String
deriving DecidableEq

structure TargetRepositories where
  repositories : List String
deriving DecidableEq

def textsJson (texts : List String) : Json :=
  .array (texts.map .string)

namespace Facts

def fields : List Field :=
  [⟨"source_version", .string, true⟩, ⟨"target_version", .string, true⟩,
    ⟨"architecture", .string, true⟩, ⟨"skip_rhsm", .boolean, true⟩,
    ⟨"enable_repos", .list, true⟩]

def encode (facts : Facts) : Json :=
  .object [("architecture", .string facts.architecture),
    ("enable_repos", textsJson facts.enabledRepositories),
    ("skip_rhsm", .boolean facts.skipSubscription),
    ("source_version", .string facts.sourceVersion),
    ("target_version", .string facts.targetVersion)]

def reader : Json.Fields Facts :=
  Facts.mk <$> .required "source_version" Json.readString
    <*> .required "target_version" Json.readString
    <*> .required "architecture" Json.readString
    <*> .required "skip_rhsm" Json.readBoolean
    <*> .required "enable_repos" (Json.readList Json.readString)

def model : Model Facts where
  name := "IPUConfig"
  topic := "SystemInfoTopic"
  fields := fields
  encode := encode
  decode := reader.read "IpuConfigFacts" (fields.map Field.name)

end Facts

namespace TargetRepositories

def fields : List Field :=
  [⟨"repos", .list, true⟩]

def encode (target : TargetRepositories) : Json :=
  .object [("repos", textsJson target.repositories)]

def reader : Json.Fields TargetRepositories :=
  TargetRepositories.mk <$> .required "repos" (Json.readList Json.readString)

def model : Model TargetRepositories where
  name := "TargetRepositories"
  topic := "TransactionTopic"
  fields := fields
  encode := encode
  decode := reader.read "TargetRepositories" (fields.map Field.name)

end TargetRepositories

/-- The schemas that the shipped actors need beside the built-in ones. -/
def schemas : List Schema :=
  [Facts.model.schema, TargetRepositories.model.schema]

end PhasedUpgrade.Upgrade
