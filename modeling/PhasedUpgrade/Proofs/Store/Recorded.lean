import PhasedUpgrade.Execution.Record
import PhasedUpgrade.Proofs.Identifier.Spelling
import PhasedUpgrade.Proofs.Json.Record
import PhasedUpgrade.Proofs.Json.Scanning
import PhasedUpgrade.Proofs.Time.Rfc3339
import PhasedUpgrade.Store.Journal

/-!
# Records that are written and read

The text of a record is read as the record: nothing of an execution, of its messages or of its audit
trail is lost or altered by being kept.
-/

namespace PhasedUpgrade

open Json (Source Floatless)
open Json.Record (record?_bind required_bind defaulted_bind optional_bind parsed_written)

theorem Json.floatless_ofText? (text : Option String) : Floatless (.ofText? text) := by
  cases text with
  | none => exact .null
  | some text => exact .string text

/-! ## Messages -/

/--
A message that its text tells wholly: the payload is one that a reader may give, has no floats and
is not nested too deep, the number has 64 bits, and the year has four digits.
-/
structure Message.Lasting (message : Message) : Prop where
  floatless : Floatless message.payload
  regular : message.payload.Regular
  nested : message.payload.depth ≤ 100
  numbered : message.sequence < 2 ^ 64
  dated : message.producedAt.InFourDigits

namespace Message

theorem floatless_toJson {message : Message} (h : message.Lasting) : Floatless message.toJson := by
  refine .object ?_
  simp only [List.forall_mem_cons, List.not_mem_nil, false_imp_iff, implies_true, and_true]
  exact ⟨.string _, .string _, h.floatless, .string _, .string _, .integer _, .string _⟩

theorem ofSource?_toJson {message : Message} (h : message.Lasting) {budget : Nat}
    (room : 100 < budget) : ofSource? (budget + 1) message.toJson.source = some message := by
  have payload := Json.isReadWithin h.floatless h.regular budget (Nat.lt_of_le_of_lt h.nested room)
  exact record?_bind rfl rfl (by decide) (Nat.zero_lt_of_lt room) <|
    required_bind rfl rfl <|
    required_bind rfl rfl <|
    required_bind rfl payload <|
    required_bind rfl rfl <|
    required_bind rfl rfl <|
    required_bind rfl (Json.Numeral.natural?_ofInt h.numbered) <|
    required_bind rfl (parsed_written (Time.Instant.ofText?_text h.dated)) rfl

end Message

/-! ## Audit events -/

namespace Audit.Event

theorem floatless_toJson (event : Event) : Floatless event.toJson := by
  refine .object ?_
  simp only [List.forall_mem_cons, List.not_mem_nil, false_imp_iff, implies_true, and_true]
  exact ⟨.string _, .string _, .string _, Json.floatless_ofText? _, Json.floatless_ofText? _,
    .string _, .string _, .string _, .string _⟩

theorem ofSource?_toJson {event : Event} (dated : event.time.InFourDigits) {budget : Nat}
    (room : 0 < budget) : ofSource? (budget + 1) event.toJson.source = some event :=
  record?_bind rfl rfl (by decide) room <|
    required_bind rfl (parsed_written (EventId.ofText?_text event.id)) <|
    required_bind rfl (parsed_written (Time.Instant.ofText?_text dated)) <|
    required_bind rfl (parsed_written (ExecutionId.ofText?_text event.execution)) <|
    optional_bind rfl <|
    optional_bind rfl <|
    required_bind rfl rfl <|
    required_bind rfl rfl <|
    required_bind rfl (parsed_written (Digest.ofText?_text event.previous)) <|
    required_bind rfl (parsed_written (Digest.ofText?_text event.hash)) rfl

end Audit.Event

/-! ## Journals -/

structure Journal.Lasting (journal : Journal) : Prop where
  messages : ∀ message ∈ journal.messages, message.Lasting
  audit : ∀ event ∈ journal.audit, event.time.InFourDigits

namespace Journal

theorem floatless_toJson {journal : Journal} (h : journal.Lasting) : Floatless journal.toJson := by
  refine .object ?_
  simp only [List.forall_mem_cons, List.not_mem_nil, false_imp_iff, implies_true, and_true]
  refine ⟨.array ?_, .array ?_⟩
  · intro item mem
    obtain ⟨message, among, rfl⟩ := List.mem_map.mp mem
    exact Message.floatless_toJson (h.messages message among)
  · intro item mem
    obtain ⟨event, _, rfl⟩ := List.mem_map.mp mem
    exact event.floatless_toJson

/-- A journal is read from its text as it was written. -/
theorem ofText?_indented {journal : Journal} (h : journal.Lasting) :
    ofText? journal.toJson.indented = some journal := by
  have messages : Source.list? Message.ofSource? (126 + 1)
      (Json.source (.array (journal.messages.map Message.toJson))) = some journal.messages :=
    Source.list?_source (by decide) fun message mem =>
      Message.ofSource?_toJson (h.messages message mem) (by decide)
  have audit : Source.list? Audit.Event.ofSource? (126 + 1)
      (Json.source (.array (journal.audit.map Audit.Event.toJson))) = some journal.audit :=
    Source.list?_source (by decide) fun event mem =>
      Audit.Event.ofSource?_toJson (h.audit event mem) (by decide)
  rw [ofText?, ofBytes?, Source.ofBytes?_toUTF8, Source.ofText?_indented (floatless_toJson h)]
  show ofSource? (127 + 1) journal.toJson.source = _
  exact record?_bind rfl rfl (by decide) (show 0 < 127 by decide) <|
    defaulted_bind rfl messages <|
    defaulted_bind rfl audit rfl

end Journal

/-! ## Executions -/

namespace Flags

theorem floatless_texts (texts : List String) : Floatless (.array (texts.map .string)) := by
  refine .array ?_
  intro item mem
  obtain ⟨text, _, rfl⟩ := List.mem_map.mp mem
  exact .string text

theorem floatless_toJson (flags : Flags) : Floatless flags.toJson := by
  refine .object ?_
  simp only [List.forall_mem_cons, List.not_mem_nil, false_imp_iff, implies_true, and_true]
  exact ⟨.boolean _, .boolean _, .boolean _, floatless_texts _, floatless_texts _⟩

theorem ofSource?_toJson (flags : Flags) {budget : Nat} (room : 0 < budget) :
    ofSource? (budget + 1 + 1) flags.toJson.source = some flags := by
  have texts (texts : List String) : Source.list? (fun _ => Source.string?) (budget + 1)
      (Json.source (.array (texts.map .string))) = some texts :=
    Source.list?_source room fun _ _ => rfl
  exact record?_bind rfl rfl (by decide) (Nat.succ_pos budget) <|
    defaulted_bind rfl rfl <|
    defaulted_bind rfl rfl <|
    defaulted_bind rfl rfl <|
    defaulted_bind rfl (texts flags.enabledRepositories) <|
    defaulted_bind rfl (texts flags.whitelist) rfl

end Flags

namespace Configuration

theorem floatless_toJson (configuration : Configuration) : Floatless configuration.toJson := by
  refine .object ?_
  simp only [List.forall_mem_cons, List.not_mem_nil, false_imp_iff, implies_true, and_true]
  refine ⟨.string _, .string _, .string _, configuration.flags.floatless_toJson, .object ?_⟩
  intro field mem
  obtain ⟨entry, _, rfl⟩ := List.mem_map.mp mem
  exact .string entry.2

theorem ofSource?_toJson (configuration : Configuration) {budget : Nat} (room : 0 < budget) :
    ofSource? (budget + 1 + 1 + 1) configuration.toJson.source = some configuration :=
  record?_bind rfl rfl (by decide) (Nat.succ_pos (budget + 1)) <|
    required_bind rfl rfl <|
    required_bind rfl rfl <|
    required_bind rfl rfl <|
    defaulted_bind rfl (configuration.flags.ofSource?_toJson room) <|
    defaulted_bind rfl (Source.textMap?_source configuration.env (Nat.succ_pos budget)) rfl

end Configuration

theorem ExecutionKind.choice?_name (kind : ExecutionKind) (budget : Nat) :
    Source.choice? ExecutionKind.choices budget (.string (some kind.name)) = some kind := by
  cases kind <;> rfl

theorem ExecutionState.choice?_name (state : ExecutionState) (budget : Nat) :
    Source.choice? ExecutionState.choices budget (.string (some state.name)) = some state := by
  cases state <;> rfl

/-- An execution that its text tells wholly: the years of its times have four digits. -/
structure Execution.Lasting (execution : Execution) : Prop where
  created : execution.createdAt.InFourDigits
  updated : execution.updatedAt.InFourDigits

namespace Execution

theorem floatless_toJson (execution : Execution) : Floatless execution.toJson := by
  refine .object ?_
  simp only [List.forall_mem_cons, List.not_mem_nil, false_imp_iff, implies_true, and_true]
  exact ⟨.string _, .string _, .string _, execution.configuration.floatless_toJson, .string _,
    Json.floatless_ofText? _, Json.floatless_ofText? _, .boolean _, .boolean _, .string _,
    .string _⟩

theorem ofSource?_toJson {execution : Execution} (h : execution.Lasting) {budget : Nat}
    (room : 0 < budget) :
    ofSource? (budget + 1 + 1 + 1 + 1) execution.toJson.source = some execution :=
  record?_bind rfl rfl (by decide) (Nat.succ_pos (budget + 1 + 1)) <|
    required_bind rfl (parsed_written (ExecutionId.ofText?_text execution.id)) <|
    required_bind rfl (ExecutionKind.choice?_name execution.kind _) <|
    required_bind rfl rfl <|
    required_bind rfl (execution.configuration.ofSource?_toJson room) <|
    required_bind rfl (ExecutionState.choice?_name execution.state _) <|
    optional_bind rfl <|
    optional_bind rfl <|
    required_bind rfl rfl <|
    defaulted_bind rfl rfl <|
    required_bind rfl (parsed_written (Time.Instant.ofText?_text h.created)) <|
    required_bind rfl (parsed_written (Time.Instant.ofText?_text h.updated)) rfl

theorem ofText?_indented {execution : Execution} (h : execution.Lasting) :
    ofText? execution.toJson.indented = some execution := by
  have read := ofSource?_toJson h (show 0 < 124 by decide)
  simp only [ofText?, ofBytes?, Source.ofBytes?_toUTF8,
    Source.ofText?_indented execution.floatless_toJson, Option.bind_eq_bind, Option.bind_some]
  exact read

end Execution

end PhasedUpgrade
