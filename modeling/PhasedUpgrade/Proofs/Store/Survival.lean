import PhasedUpgrade.Audit.Trail
import PhasedUpgrade.Proofs.Store.Directory
import PhasedUpgrade.Run.Entry

/-!
# Executions over a reboot

What a directory store has been given for an execution is what is there after the process has ended:
the record, the messages, the audit trail, and with them the entry of a resumed run.
-/

namespace PhasedUpgrade

open Files

namespace DirectoryStore

variable {store after : DirectoryStore} {α : Type} {decode : ByteArray → Option α}

theorem write_ok {below : Path} {record : Json} (written : (store.write below record).1 = .ok ()) :
    ∃ tree, store.write below record = (.ok (), { store with tree := tree }) ∧
      store.tree.write record.indented.toUTF8 (store.path below) = .ok tree := by
  rcases store.write_cases below record with
    ⟨tree, put, said⟩ | ⟨_, failed⟩ | ⟨_, cause, failed⟩
  · exact ⟨tree, said, put⟩
  · rw [failed] at written
    cases written
  · rw [failed] at written
    cases written

/-- A record that was written is read, and no other record of the same depth is touched. -/
theorem read_of_written {below : Path} {record : Json} {value : α}
    (written : (store.write below record).1 = .ok ())
    (decoded : decode record.indented.toUTF8 = some value) :
    (store.write below record).2.read below decode = .ok (some value) := by
  obtain ⟨tree, said, put⟩ := write_ok written
  rw [said]
  exact read_of_file (Tree.find_write put) decoded

theorem read_of_ne {below : Path} {record : Json}
    (written : (store.write below record).1 = .ok ()) (decode : ByteArray → Option α) {other : Path}
    (differ : other ≠ below) (deep : other.length = below.length) :
    (store.write below record).2.read other decode = store.read other decode := by
  obtain ⟨tree, said, put⟩ := write_ok written
  rw [said]
  apply read_congr
  refine Tree.find_write_of_apart put (Tree.apart_of_ne ?_ ?_)
  · simp [path, deep]
  · intro same
    exact differ (List.append_cancel_left same)

end DirectoryStore

/--
A record survives being written and read, whatever store it is written to: so does the answer of the
audit trail's check, and a resumed run enters where it would enter without a reboot, with the same
configuration and the same messages.
-/
theorem Execution.survives {execution : Execution} {journal : Journal}
    (lasting : execution.Lasting) (kept : journal.Lasting) :
    Execution.ofText? execution.toJson.indented = some execution ∧
      Journal.ofText? journal.toJson.indented = some journal ∧
      (Journal.ofText? journal.toJson.indented).map (fun read => Audit.verify read.audit) =
        some (Audit.verify journal.audit) ∧
      ∀ store first second : DirectoryStore,
        Store.save execution store = (.ok (), first) →
        Store.saveJournal execution.id journal first = (.ok (), second) →
        Store.load execution.id second = (.ok (some execution), second) ∧
          Store.loadJournal execution.id second = (.ok journal, second) ∧
          ∀ workflow kind, Entry.resume workflow kind (some execution.id) second =
            ((workflow.resumePlace execution).map fun place =>
              ⟨execution, place, workflow.committedJournal place journal, true⟩, second) := by
  have record : Execution.ofBytes? execution.toJson.indented.toUTF8 = some execution :=
    Execution.ofText?_indented lasting
  have trail : Journal.ofBytes? journal.toJson.indented.toUTF8 = some journal :=
    Journal.ofText?_indented kept
  refine ⟨record, trail, by rw [Journal.ofText?, trail]; rfl, ?_⟩
  intro store first second saved written
  have apart : [execution.id.text, DirectoryStore.executionFile] ≠
      [execution.id.text, DirectoryStore.journalFile] := by
    simp [DirectoryStore.executionFile, DirectoryStore.journalFile]
  have loaded : Store.load execution.id second = (.ok (some execution), second) := by
    have here := DirectoryStore.read_of_written (congrArg Prod.fst saved) record
    have still := DirectoryStore.read_of_ne (congrArg Prod.fst written) Execution.ofBytes? apart rfl
    rw [show store.write _ _ = _ from saved] at here
    rw [show first.write _ _ = _ from written, here] at still
    exact congrArg (·, second) still
  have listed : Store.loadJournal execution.id second = (.ok journal, second) := by
    have here := DirectoryStore.read_of_written (congrArg Prod.fst written) trail
    rw [show first.write _ _ = _ from written] at here
    exact congrArg (fun found => (found.map (·.getD .empty), second)) here
  refine ⟨loaded, listed, fun workflow kind => ?_⟩
  simp only [Entry.resume, Entry.sought, loaded]
  cases workflow.resumePlace execution with
  | error error => rfl
  | ok place =>
      simp only [listed]
      rfl

/-! An execution at the bounds of what its record can tell. -/

namespace Time.Instant

def first : Instant := ⟨-62167219200, 1, by decide, by decide⟩

/-- The last nanosecond of a leap second at the end of the year 9999. -/
def last : Instant := ⟨253402300799, 1999999999, by decide, by decide⟩

end Time.Instant

/-- Each kind of value but a float, with the least and the greatest whole number. -/
def Json.intricate : Json :=
  .object [("", .array [.null, .boolean true, .integer (-9223372036854775808), .object []]),
    ("\u0000\"\\é", .string "line\nfeed \u007f𝄞"), ("𝄞", .integer 18446744073709551615)]

theorem Json.intricate_floatless : Floatless intricate := by
  refine .object ?_
  simp only [List.forall_mem_cons, List.not_mem_nil, false_imp_iff, implies_true, and_true]
  refine ⟨.array ?_, .string _, .integer _⟩
  simp only [List.forall_mem_cons, List.not_mem_nil, false_imp_iff, implies_true, and_true]
  exact ⟨.null, .boolean _, .integer _, .object nofun⟩

theorem Json.intricate_regular : Regular intricate := by
  refine .object (by decide) ?_
  simp only [List.forall_mem_cons, List.not_mem_nil, false_imp_iff, implies_true, and_true]
  refine ⟨.array ?_, .string _, .integer (by decide)⟩
  simp only [List.forall_mem_cons, List.not_mem_nil, false_imp_iff, implies_true, and_true]
  exact ⟨.null, .boolean _, .integer (by decide), .object .nil nofun⟩

def Execution.intricate : Execution where
  id := ⟨BitVec.allOnes 128⟩
  kind := .upgrade
  workflow := "in-place \"upgrade\""
  configuration := ⟨"7.9", "8.10", "x86_64", ⟨true, false, true, ["a,b", ""], ["é"]⟩,
    .ofList [("IPU_B", "\t"), ("IPU_A", "")]⟩
  state := .awaitingReboot
  lastCompletedPhase := some "Checks"
  failedPhase := none
  failure := false
  fatalStop := true
  createdAt := .first
  updatedAt := .last

def Journal.intricate : Journal where
  messages := [⟨"Facts", "system_facts", .intricate, "scan", "Checks", 2 ^ 64 - 1, .last⟩]
  audit := [⟨⟨0⟩, .first, ⟨1⟩, none, none, "", "", .zero, ⟨List.replicate 32 0xff, rfl⟩⟩,
    ⟨⟨BitVec.allOnes 128⟩, .last, ⟨1⟩, some "", some "Ä\"", "actor_run", "ok",
      ⟨List.replicate 32 0xff, rfl⟩, .zero⟩]

theorem Execution.intricate_lasting : intricate.Lasting :=
  ⟨by decide, by decide⟩

theorem Journal.intricate_lasting : intricate.Lasting := by
  constructor
  · intro message among
    obtain rfl := List.mem_singleton.mp among
    exact ⟨Json.intricate_floatless, Json.intricate_regular, by decide, by decide, by decide⟩
  · decide

/-- A missing root becomes the place of the execution, and what is put there is found again. -/
theorem Execution.intricate_survives :
    ∃ first second : DirectoryStore,
      Store.save intricate ⟨.empty, "/var/lib/ipu"⟩ = (.ok (), first) ∧
      Store.saveJournal intricate.id .intricate first = (.ok (), second) ∧
      Store.load intricate.id second = (.ok (some intricate), second) ∧
      Store.loadJournal intricate.id second = (.ok .intricate, second) := by
  have vacant : DirectoryStore.Vacant ⟨.empty, "/var/lib/ipu"⟩ :=
    .inl (Tree.find_empty (by decide))
  obtain ⟨first, saved, _, held⟩ := vacant.mirrors.save intricate_lasting
  obtain ⟨second, written, _, _⟩ := held.saveJournal intricate.id Journal.intricate_lasting
  obtain ⟨_, _, _, kept⟩ := survives intricate_lasting Journal.intricate_lasting
  obtain ⟨loaded, listed, _⟩ := kept _ first second saved written
  exact ⟨first, second, saved, written, loaded, listed⟩

end PhasedUpgrade
