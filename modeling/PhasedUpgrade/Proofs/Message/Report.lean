import PhasedUpgrade.Proofs.Json.Typed
import PhasedUpgrade.Proofs.Message.Bus
import PhasedUpgrade.Proofs.Message.Validation

/-!
# Reports that are accepted and reports that are read

The schema of reports only asks for texts and a list, so it lets payloads pass whose severity or
groups are not among the known ones. Such a report is on the bus but is passed over by all who look
for reports.
-/

namespace PhasedUpgrade

/-! ## Known names -/

theorem Severity.lookup_choices_iff {name : String} {severity : Severity} :
    choices.lookup name = some severity ↔ severity.name = name := by
  refine (lookup_keyed_iff (by decide)).trans (and_iff_right ?_)
  cases severity <;> decide

theorem Group.lookup_choices_iff {name : String} {group : Group} :
    choices.lookup name = some group ↔ group.name = name := by
  refine (lookup_keyed_iff (by decide)).trans (and_iff_right ?_)
  cases group <;> decide

/-- Whether an item of a report's list of groups is one of the spellings of a group. -/
def Json.SpellsGroup (item : Json) (group : Group) : Prop :=
  item.Spells group.name

theorem readGroup_eq_ok_iff {item : Json} {group : Group} :
    Json.readChoice Group.choices item = .ok group ↔ item.SpellsGroup group := by
  rw [Json.readChoice_eq_ok_iff]
  constructor
  · rintro ⟨name, spelt, known⟩
    obtain rfl := Group.lookup_choices_iff.mp known
    exact spelt
  · exact fun spelt => ⟨group.name, spelt, Group.lookup_choices_iff.mpr rfl⟩

/-! ## Payloads -/

namespace Report

def Holds (value : Option Json) : Option String → Prop
  | none => value = none ∨ value = some .null
  | some text => value = some (.string text)

/-- The payloads that are accepted as reports: some texts, and a list of any items. -/
structure Accepted (given : List (String × Json)) (title summary severity : String)
    (items : List Json) (remediation key : Option String) : Prop where
  title_eq : given.lookup "title" = some (.string title)
  summary_eq : given.lookup "summary" = some (.string summary)
  severity_eq : given.lookup "severity" = some (.string severity)
  groups_eq : given.lookup "groups" = some (.array items)
  remediation_eq : Holds (given.lookup "remediation") remediation
  key_eq : Holds (given.lookup "key") key

section

variable {given : List (String × Json)} {schema : Schema}

theorem exists_string_of_required {name : String}
    (h : schema.checkField ⟨name, .string, true⟩ (given.lookup name) = .ok ()) :
    ∃ text, given.lookup name = some (.string text) := by
  rcases Schema.checkField_eq_ok_iff.mp h with ⟨optional, _⟩ | ⟨json, found, _, fits⟩
  · cases optional
  · obtain ⟨text, rfl⟩ := FieldKind.exists_string_of_accepts fits
    exact ⟨text, found⟩

theorem exists_array_of_required {name : String}
    (h : schema.checkField ⟨name, .list, true⟩ (given.lookup name) = .ok ()) :
    ∃ items, given.lookup name = some (.array items) := by
  rcases Schema.checkField_eq_ok_iff.mp h with ⟨optional, _⟩ | ⟨json, found, _, fits⟩
  · cases optional
  · obtain ⟨items, rfl⟩ := FieldKind.exists_array_of_accepts fits
    exact ⟨items, found⟩

theorem exists_holds_of_optional {name : String}
    (h : schema.checkField ⟨name, .string, false⟩ (given.lookup name) = .ok ()) :
    ∃ text, Holds (given.lookup name) text := by
  rcases Schema.checkField_eq_ok_iff.mp h with ⟨_, absent⟩ | ⟨json, found, _, fits⟩
  · exact ⟨none, absent⟩
  · obtain ⟨text, rfl⟩ := FieldKind.exists_string_of_accepts fits
    exact ⟨some text, found⟩

end

theorem exists_accepted {payload : Json} (h : model.schema.validate payload = .ok ()) :
    ∃ given title summary severity items remediation key, payload = .object given ∧
      Accepted given title summary severity items remediation key := by
  obtain ⟨given, rfl, fits⟩ := Schema.validate_eq_ok_iff.mp h
  obtain ⟨title, title_eq⟩ := exists_string_of_required (fits ⟨"title", .string, true⟩ (by decide))
  obtain ⟨summary, summary_eq⟩ :=
    exists_string_of_required (fits ⟨"summary", .string, true⟩ (by decide))
  obtain ⟨severity, severity_eq⟩ :=
    exists_string_of_required (fits ⟨"severity", .string, true⟩ (by decide))
  obtain ⟨items, groups_eq⟩ := exists_array_of_required (fits ⟨"groups", .list, true⟩ (by decide))
  obtain ⟨remediation, remediation_eq⟩ :=
    exists_holds_of_optional (fits ⟨"remediation", .string, false⟩ (by decide))
  obtain ⟨key, key_eq⟩ := exists_holds_of_optional (fits ⟨"key", .string, false⟩ (by decide))
  exact ⟨given, title, summary, severity, items, remediation, key, rfl,
    title_eq, summary_eq, severity_eq, groups_eq, remediation_eq, key_eq⟩

/-! ## Reading them -/

section

variable {given : List (String × Json)} {name : String}

theorem required_text_iff {held text : String} (found : given.lookup name = some (.string held)) :
    Json.Fields.required name Json.readString (fun name => given.lookup name) = .ok text ↔
      text = held := by
  rw [Json.Fields.required_eq_ok_iff, found]
  simp [Json.readString, eq_comm]

theorem optional_text_iff {held text : Option String} (found : Holds (given.lookup name) held) :
    Json.Fields.optional name Json.readString (fun name => given.lookup name) = .ok text ↔
      text = held := by
  rw [Json.Fields.optional_eq_ok_iff]
  cases held with
  | none =>
      rcases found with absent | null
      · simp [absent]
      · simp [null, Json.readOptional, eq_comm]
  | some held =>
      have found : given.lookup name = some (.string held) := found
      simp [found, Json.readOptional, Json.readString, Except.map, eq_comm]

end

variable {given : List (String × Json)} {title summary severity : String} {items : List Json}
  {remediation key : Option String}

/-- An accepted payload is read exactly if its severity and all of its groups are known. -/
theorem Accepted.decode_eq_ok_iff (h : Accepted given title summary severity items remediation key)
    {report : Report} :
    decode (.object given) = .ok report ↔
      report.title = title ∧ report.summary = summary ∧ report.severity.name = severity ∧
        List.Forall₂ Json.SpellsGroup items report.groups ∧ report.remediation = remediation ∧
        report.key = key := by
  have severity_iff {level : Severity} : Json.Fields.required "severity"
      (Json.readChoice Severity.choices) (fun name => given.lookup name) = .ok level ↔
        level.name = severity := by
    rw [Json.Fields.required_eq_ok_iff, h.severity_eq]
    simp [Json.readChoice, Json.named_eq_ok_iff, Severity.lookup_choices_iff]
  have groups_iff {groups : List Group} : Json.Fields.required "groups"
      (Json.readList (Json.readChoice Group.choices)) (fun name => given.lookup name) = .ok groups ↔
        List.Forall₂ Json.SpellsGroup items groups := by
    rw [Json.Fields.required_eq_ok_iff, h.groups_eq]
    simp [Json.readList, Except.mapM_eq_ok_iff, readGroup_eq_ok_iff]
  unfold decode
  rw [Json.Fields.read_object_eq_ok_iff, reader]
  simp only [Json.Fields.seq_eq_ok_iff, Json.Fields.map_eq_ok_iff, required_text_iff h.title_eq,
    required_text_iff h.summary_eq, severity_iff, groups_iff, optional_text_iff h.remediation_eq,
    optional_text_iff h.key_eq]
  constructor
  -- The fields are nested with the last one outermost.
  · rintro ⟨_, _, ⟨_, _, ⟨_, _, ⟨_, _, ⟨_, _, ⟨_, rfl, rfl⟩, rfl, rfl⟩, known, rfl⟩, spelt, rfl⟩,
      rfl, rfl⟩, rfl, rfl⟩
    exact ⟨rfl, rfl, known, spelt, rfl, rfl⟩
  · rintro ⟨rfl, rfl, known, spelt, rfl, rfl⟩
    exact ⟨_, _, ⟨_, _, ⟨_, _, ⟨_, _, ⟨_, _, ⟨_, rfl, rfl⟩, rfl, rfl⟩, known, rfl⟩, spelt, rfl⟩,
      rfl, rfl⟩, rfl, rfl⟩

/-- Whether the severity and all groups of an accepted report are known. -/
def Legible (severity : String) (items : List Json) : Prop :=
  (∃ level : Severity, level.name = severity) ∧
    ∀ item ∈ items, ∃ group, item.SpellsGroup group

theorem Accepted.legible_iff (h : Accepted given title summary severity items remediation key) :
    Legible severity items ↔ ∃ report, decode (.object given) = .ok report := by
  constructor
  · rintro ⟨⟨level, named⟩, spelt⟩
    have each (item : Json) (mem : item ∈ items) :
        ∃ group, Json.readChoice Group.choices item = .ok group := by
      obtain ⟨group, spells⟩ := spelt item mem
      exact ⟨group, readGroup_eq_ok_iff.mpr spells⟩
    obtain ⟨groups, read⟩ := Except.exists_mapM_eq_ok_iff.mpr each
    have all := (Except.mapM_eq_ok_iff.mp read).imp fun _ _ => readGroup_eq_ok_iff.mp
    exact ⟨⟨title, summary, level, groups, remediation, key⟩,
      h.decode_eq_ok_iff.mpr ⟨rfl, rfl, named, all, rfl, rfl⟩⟩
  · rintro ⟨report, read⟩
    obtain ⟨_, _, named, all, _, _⟩ := h.decode_eq_ok_iff.mp read
    refine ⟨⟨report.severity, named⟩, fun item mem => ?_⟩
    obtain ⟨place, inside, rfl⟩ := List.mem_iff_getElem.mp mem
    exact ⟨_, List.Forall₂.get all inside (all.length_eq ▸ inside)⟩

theorem isInhibitor_of_spells {report : Report}
    (all : List.Forall₂ Json.SpellsGroup items report.groups) {item : Json} (mem : item ∈ items)
    (spells : item.SpellsGroup .inhibitor) : report.isInhibitor = true := by
  have read := Except.mapM_eq_ok_iff.mpr (all.imp fun _ _ => readGroup_eq_ok_iff.mpr)
  have among := Except.mem_of_mapM_eq_ok read mem (readGroup_eq_ok_iff.mpr spells)
  simpa [isInhibitor] using among

end Report

/-! ## Reports on the bus -/

/--
A draft of a report that the bus accepts is an object with texts and a list. It can be read, and is
among the reports then, exactly if its severity and all items of the list are known names; one that
names the inhibitor group inhibits. Otherwise it is passed over.
-/
theorem Bus.reports_of_accepted {schemas : List Schema} {bus later : Bus} {actor : Contract}
    {phase : String} {draft : Message} {time : Time.Instant}
    (built : Catalog.builtin.registerAll schemas = .ok bus.catalog)
    (typed : draft.typeName = Report.model.name)
    (accepted : bus.produce actor phase draft time = .ok later) :
    ∃ given title summary severity items remediation key,
      draft.payload = .object given ∧
      Report.Accepted given title summary severity items remediation key ∧
      (Report.Legible severity items →
        ∃ level groups, level.name = severity ∧ List.Forall₂ Json.SpellsGroup items groups ∧
          later.reports = bus.reports ++ [⟨title, summary, level, groups, remediation, key⟩] ∧
          ((∃ item ∈ items, item.SpellsGroup .inhibitor) → later.hasInhibitors = true)) ∧
      (¬ Report.Legible severity items →
        later.reports = bus.reports ∧ later.hasInhibitors = bus.hasInhibitors) := by
  have reports := reports_of_produce typed accepted
  obtain ⟨given, title, summary, severity, items, remediation, key, payload, fields⟩ :=
    Report.exists_accepted (validate_of_produce built typed accepted)
  rw [payload] at reports
  refine ⟨given, title, summary, severity, items, remediation, key, payload, fields, ?_, ?_⟩
  · intro legible
    obtain ⟨report, read⟩ := fields.legible_iff.mp legible
    obtain ⟨rfl, rfl, named, all, rfl, rfl⟩ := fields.decode_eq_ok_iff.mp read
    rw [read] at reports
    refine ⟨report.severity, report.groups, named, all, reports, ?_⟩
    rintro ⟨item, mem, spells⟩
    have inhibits := Report.isInhibitor_of_spells all mem spells
    unfold hasInhibitors
    rw [reports, List.any_append]
    simp [Except.toOption, inhibits]
  · intro illegible
    have unread : (Report.decode (.object given)).toOption = none := by
      cases read : Report.decode (.object given) with
      | error misfit => rfl
      | ok report => exact absurd (fields.legible_iff.mpr ⟨report, read⟩) illegible
    rw [unread, Option.toList_none, List.append_nil] at reports
    exact ⟨reports, congrArg (List.any · Report.isInhibitor) reports⟩

def Contract.reporter : Contract where
  name := "probe"
  description := ""
  consumes := ∅
  produces := .ofList ["Report"]
  tags := ∅
  experimental := false

/-- A report that names the inhibitor group is noticed if its severity is known. -/
theorem Bus.inhibitor_of_known_severity :
    ∃ later, (⟨.builtin, []⟩ : Bus).produce .reporter "facts"
        (.draft "Report" "ReportTopic" (.object [("groups", .array [.string "inhibitor"]),
          ("severity", .string "high"), ("summary", .string ""), ("title", .string "")]))
        .epoch = .ok later ∧
      later.hasInhibitors = true := by
  have built : Catalog.builtin.registerAll [] = .ok (⟨.builtin, []⟩ : Bus).catalog := rfl
  obtain ⟨later, accepted⟩ : ∃ later, (⟨.builtin, []⟩ : Bus).produce .reporter "facts"
      (.draft "Report" "ReportTopic" (.object [("groups", .array [.string "inhibitor"]),
        ("severity", .string "high"), ("summary", .string ""), ("title", .string "")]))
      .epoch = .ok later := ⟨_, rfl⟩
  refine ⟨later, accepted, ?_⟩
  obtain ⟨given, title, summary, severity, items, remediation, key, payload, fields, noticed, _⟩ :=
    Bus.reports_of_accepted built rfl accepted
  obtain rfl := Json.object.inj payload
  have severity_eq : some (Json.string "high") = some (.string severity) := fields.severity_eq
  have groups_eq : some (Json.array [.string "inhibitor"]) = some (.array items) := fields.groups_eq
  obtain rfl := Json.string.inj (Option.some.inj severity_eq)
  obtain rfl := Json.array.inj (Option.some.inj groups_eq)
  have spells : (Json.string "inhibitor").SpellsGroup .inhibitor := .inl rfl
  have legible : Report.Legible "high" [.string "inhibitor"] :=
    ⟨⟨.high, rfl⟩, List.forall_mem_singleton.mpr ⟨.inhibitor, spells⟩⟩
  obtain ⟨_, _, _, _, _, inhibits⟩ := noticed legible
  exact inhibits ⟨_, List.mem_singleton_self _, spells⟩

/-- One of a severity that is not known is not, though the bus has accepted it. -/
theorem Bus.not_inhibitor_of_unknown_severity :
    ∃ later, (⟨.builtin, []⟩ : Bus).produce .reporter "facts"
        (.draft "Report" "ReportTopic" (.object [("groups", .array [.string "inhibitor"]),
          ("severity", .string "critical"), ("summary", .string ""), ("title", .string "")]))
        .epoch = .ok later ∧
      later.log.length = 1 ∧ later.reports = [] ∧ later.hasInhibitors = false :=
  ⟨_, rfl, rfl, rfl, rfl⟩

end PhasedUpgrade
