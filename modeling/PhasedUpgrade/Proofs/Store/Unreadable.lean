import PhasedUpgrade.Proofs.Run.History
import PhasedUpgrade.Proofs.Store.Survival

/-!
# Records that cannot be read

In the root of a store there may be anything. What is no directory and what has no record is passed
over when the newest execution is looked for, but a record that cannot be read is not, whatever else
there is and in whatever order it is looked through. So no older execution is taken for the newest.
-/

namespace PhasedUpgrade

open Files

namespace DirectoryStore

/-! ## What is in a root -/

/-- Whether a directory with a name is among entries, and its record has these bytes. -/
def Records (entries : List (String × Tree)) (name : String) (bytes : ByteArray) : Prop :=
  ∃ inner, (name, .directory inner) ∈ entries ∧ inner.lookup executionFile = some (.file bytes)

section

variable (decode : ByteArray → Option Execution) (entries : List (String × Tree))

/-- Whether the record in the directory with a name tells of no execution, be it of any kind. -/
def Unreadable (name : String) : Prop :=
  ∃ bytes, Records entries name bytes ∧ decode bytes = none

/-- Whether one of the records tells of an execution. -/
def Recorded (execution : Execution) : Prop :=
  ∃ name bytes, Records entries name bytes ∧ decode bytes = some execution

end

/-- Entries as a directory has them, with no name twice, whose records are files. -/
structure Proper (entries : List (String × Tree)) : Prop where
  distinct : (entries.map Prod.fst).Nodup
  files {name : String} {inner held : List (String × Tree)} :
    (name, .directory inner) ∈ entries → inner.lookup executionFile ≠ some (.directory held)

def unreadable (store : DirectoryStore) (name : String) : StoreError :=
  .corrupt (store.pathText [name, executionFile]) "not a record of its kind"

variable {decode : ByteArray → Option Execution} {store : DirectoryStore}
  {entries listing inner rest : List (String × Tree)} {entry : String × Tree} {name : String}
  {bytes : ByteArray} {kind : ExecutionKind}

theorem records_cons : Records (entry :: rest) name bytes ↔
    (∃ inner, entry = (name, .directory inner) ∧
      inner.lookup executionFile = some (.file bytes)) ∨ Records rest name bytes := by
  simp only [Records, List.mem_cons, or_and_right, exists_or, eq_comm]

theorem records_of_perm (reordered : listing.Perm entries) :
    Records listing name bytes ↔ Records entries name bytes := by
  simp only [Records, reordered.mem_iff]

theorem unreadable_of_perm (reordered : listing.Perm entries) :
    Unreadable decode listing name ↔ Unreadable decode entries name := by
  simp only [Unreadable, records_of_perm reordered]

theorem recorded_of_perm {execution : Execution} (reordered : listing.Perm entries) :
    Recorded decode listing execution ↔ Recorded decode entries execution := by
  simp only [Recorded, records_of_perm reordered]

/-! ## Single records -/

theorem find_record (has : store.HasEntries entries) (proper : Proper entries)
    (mem : (name, .directory inner) ∈ entries) :
    store.tree.find (store.path [name, executionFile]) =
      match inner.lookup executionFile with
      | none => .error .notFound
      | some tree => .ok tree := by
  rw [has.find_below (List.cons_ne_nil _ _), Tree.find, lookup_of_mem proper.distinct mem]
  cases found : inner.lookup executionFile <;> simp only [Tree.find, found]

theorem read_record (has : store.HasEntries entries) (proper : Proper entries)
    (mem : (name, .directory inner) ∈ entries)
    (held : inner.lookup executionFile = some (.file bytes)) :
    store.read [name, executionFile] decode =
      match decode bytes with
      | some execution => .ok (some execution)
      | none => .error (store.unreadable name) := by
  have there := find_record has proper mem
  rw [held] at there
  rw [read, Tree.read_of_file there]
  simp only
  cases decode bytes <;> rfl

theorem read_unrecorded (has : store.HasEntries entries) (proper : Proper entries)
    (mem : (name, .directory inner) ∈ entries) (missing : inner.lookup executionFile = none) :
    store.read [name, executionFile] decode = .ok none := by
  have there := find_record has proper mem
  rw [missing] at there
  exact read_of_missing there

/-! ## All records -/

/-- What comes of looking through a listing: one of its unreadable records is told of, if any. -/
def Gathers (decode : ByteArray → Option Execution) (store : DirectoryStore) (kind : ExecutionKind)
    (listing : List (String × Tree)) : Prop :=
  (∃ name, Unreadable decode listing name ∧
    store.candidates decode kind listing = .error (store.unreadable name)) ∨
  (∀ name, ¬ Unreadable decode listing name) ∧ ∃ executions,
    store.candidates decode kind listing = .ok executions ∧
      ∀ execution, execution ∈ executions ↔
        Recorded decode listing execution ∧ execution.kind = kind

theorem Gathers.pass (gathers : store.Gathers decode kind rest)
    (same : store.candidates decode kind (entry :: rest) = store.candidates decode kind rest)
    (silent : ∀ inner, entry.2 = .directory inner → inner.lookup executionFile = none) :
    store.Gathers decode kind (entry :: rest) := by
  have records (name : String) (bytes : ByteArray) :
      Records (entry :: rest) name bytes ↔ Records rest name bytes := by
    rw [records_cons]
    refine or_iff_right ?_
    rintro ⟨inner, rfl, held⟩
    cases (silent inner rfl).symm.trans held
  simpa only [Gathers, Unreadable, Recorded, same, records] using gathers

/-- The record of a directory that comes first is told of if it is unreadable, and counts if not. -/
theorem Gathers.take (gathers : store.Gathers decode kind rest) (has : store.HasEntries entries)
    (proper : Proper entries) (mem : (name, .directory inner) ∈ entries)
    (held : inner.lookup executionFile = some (.file bytes)) :
    store.Gathers decode kind ((name, .directory inner) :: rest) := by
  have records (other : String) (found : ByteArray) :
      Records ((name, .directory inner) :: rest) other found ↔
        (other = name ∧ found = bytes) ∨ Records rest other found := by
    rw [records_cons]
    refine or_congr_left ⟨?_, ?_⟩
    · rintro ⟨_, ⟨⟩, there⟩
      cases held.symm.trans there
      exact ⟨rfl, rfl⟩
    · rintro ⟨rfl, rfl⟩
      exact ⟨inner, rfl, held⟩
  have first := (records name bytes).mpr (.inl ⟨rfl, rfl⟩)
  cases told : decode bytes with
  | none =>
      refine .inl ⟨name, ⟨bytes, first, told⟩, ?_⟩
      rw [candidates, read_record has proper mem held, told]
      rfl
  | some found =>
      have further : store.candidates decode kind ((name, .directory inner) :: rest) =
          (store.candidates decode kind rest).map fun others =>
            if found.kind = kind then found :: others else others := by
        rw [candidates, read_record has proper mem held, told]
        simp only [bind, Except.bind]
        cases store.candidates decode kind rest <;> rfl
      have unreadable (other : String) :
          Unreadable decode ((name, .directory inner) :: rest) other ↔
            Unreadable decode rest other := by
        simp only [Unreadable, records, or_and_right, exists_or]
        refine or_iff_right ?_
        rintro ⟨_, ⟨_, rfl⟩, untold⟩
        cases told.symm.trans untold
      have recorded (execution : Execution) :
          Recorded decode ((name, .directory inner) :: rest) execution ↔
            execution = found ∨ Recorded decode rest execution := by
        simp only [Recorded, records, or_and_right, exists_or]
        refine or_congr_left ⟨?_, ?_⟩
        · rintro ⟨_, _, ⟨_, rfl⟩, same⟩
          exact (Option.some.inj (told.symm.trans same)).symm
        · rintro rfl
          exact ⟨name, bytes, ⟨rfl, rfl⟩, told⟩
      rcases gathers with ⟨other, untold, failed⟩ | ⟨readable, others, gathered, listed⟩
      · exact .inl ⟨other, (unreadable other).mpr untold, by rw [further, failed]; rfl⟩
      · refine .inr ⟨fun other => mt (unreadable other).mp (readable other), _,
          by rw [further, gathered]; rfl, fun execution => ?_⟩
        rw [recorded, or_and_right, ← listed]
        by_cases wanted : found.kind = kind
        · simp only [wanted, if_true, List.mem_cons]
          exact or_congr_left ⟨fun same => ⟨same, same ▸ wanted⟩, And.left⟩
        · simp only [wanted, if_false]
          have other : ¬ (execution = found ∧ execution.kind = kind) := by
            rintro ⟨rfl, alike⟩
            exact wanted alike
          exact (or_iff_right other).symm

theorem gathers (has : store.HasEntries entries) (proper : Proper entries) (kind : ExecutionKind)
    (within : ∀ entry ∈ listing, entry ∈ entries) : store.Gathers decode kind listing := by
  induction listing with
  | nil => exact .inr ⟨by simp [Unreadable, Records], [], rfl, by simp [Recorded, Records]⟩
  | cons entry rest ih =>
      obtain ⟨here, later⟩ := List.forall_mem_cons.mp within
      obtain ⟨name, bytes | inner⟩ := entry
      · exact (ih later).pass (by rw [candidates]) nofun
      · rcases held : inner.lookup executionFile with _ | bytes | sub
        · refine (ih later).pass ?_ ?_
          · rw [candidates, read_unrecorded has proper here held]
            rfl
          · rintro _ ⟨⟩
            exact held
        · exact (ih later).take has proper here held
        · exact absurd held (proper.files here)

/-! ## The newest of what is recorded -/

/-- What a store says of the newest execution of a kind if its root is listed in some order. -/
def newestIn (decode : ByteArray → Option Execution) (store : DirectoryStore) (kind : ExecutionKind)
    (listing : List (String × Tree)) : Except StoreError (Option Execution) :=
  (store.candidates decode kind listing).map Execution.newest?

/-- No two records tell of different executions of one moment and one name. -/
def Apart (decode : ByteArray → Option Execution) (entries : List (String × Tree)) : Prop :=
  ∀ a b, Recorded decode entries a → Recorded decode entries b → a.createdAt = b.createdAt →
    a.id = b.id → a = b

theorem newestIn_cases (has : store.HasEntries entries) (proper : Proper entries)
    (decode : ByteArray → Option Execution) (kind : ExecutionKind)
    (reordered : listing.Perm entries) :
    (∃ name, Unreadable decode entries name ∧
      store.newestIn decode kind listing = .error (store.unreadable name)) ∨
    (∀ name, ¬ Unreadable decode entries name) ∧
      ∃ found, store.newestIn decode kind listing = .ok found ∧
        (Apart decode entries → Execution.NewestOf
          (fun execution => Recorded decode entries execution ∧ execution.kind = kind) found) := by
  rcases gathers has proper kind fun entry => reordered.mem_iff.mp with
    ⟨name, untold, failed⟩ | ⟨readable, executions, gathered, listed⟩
  · refine .inl ⟨name, (unreadable_of_perm reordered).mp untold, ?_⟩
    rw [newestIn, failed]
    rfl
  · simp only [unreadable_of_perm reordered] at readable
    simp only [recorded_of_perm reordered] at listed
    refine .inr ⟨readable, Execution.newest? executions, ?_, fun apart => ?_⟩
    · rw [newestIn, gathered]
      rfl
    · refine Execution.newestOf_newest? listed fun a ha b hb => ?_
      exact apart a b ((listed a).mp ha).1 ((listed b).mp hb).1

/-! ## Resuming -/

/-- A run that is to resume the newest execution gets no further if the store fails to tell it. -/
theorem run_of_newest_error {cause : StoreError}
    (failed : store.newest Execution.ofBytes? kind = .error cause) (setting : Setting)
    (supply : Supply) (options : RunOptions) (answers : Answers) :
    setting.run supply (.resume kind none) options answers store =
      ⟨.error (.store cause), [], store⟩ := by
  unfold Setting.run Setting.entry Entry.resume Entry.sought
  simp only [Store.mostRecent, failed]

theorem newest_of_entry {setting : Setting} {supply : Supply} {entry : Entry}
    (entered : (setting.entry supply (.resume kind none) store).1 = .ok entry) :
    store.newest Execution.ofBytes? kind = .ok (some entry.execution) := by
  have entered : (Entry.resume setting.workflow kind none store).1 = .ok entry := entered
  unfold Entry.resume Entry.sought at entered
  simp only [Store.mostRecent] at entered
  rcases told : store.newest Execution.ofBytes? kind with cause | _ | execution
  · simp [told] at entered
  · simp [told] at entered
  · rw [told] at entered
    simp only at entered
    split at entered
    · cases entered
    · split at entered <;> cases entered
      rfl

/--
No record that cannot be read is passed over, whatever bytes are read as records. The store says
that it has a corrupt record just if one of the directories in its root has one, whatever kind it
was of; otherwise it tells the newest of the executions that are recorded, in whatever order the
root is listed. So a run that is to resume the newest execution starts nothing if there is a record
that cannot be read, and takes up no older execution in its place.
-/
theorem no_record_passed_over (has : store.HasEntries entries) (proper : Proper entries)
    (kind : ExecutionKind) :
    let wanted decode execution := Recorded decode entries execution ∧ execution.kind = kind
    (∀ decode, store.newest decode kind = store.newestIn decode kind entries ∧
      ∀ listing, listing.Perm entries →
        ((∃ path cause, store.newestIn decode kind listing = .error (.corrupt path cause)) ↔
          ∃ name, Unreadable decode entries name) ∧
        ((∀ name, ¬ Unreadable decode entries name) → Apart decode entries →
          ∃ found, store.newestIn decode kind listing = .ok found ∧
            Execution.NewestOf (wanted decode) found)) ∧
    ∀ (setting : Setting) (supply : Supply),
      let decode := Execution.ofBytes?
      ((∃ name, Unreadable decode entries name) →
        ∃ name, Unreadable decode entries name ∧ ∀ options answers,
          setting.run supply (.resume kind none) options answers store =
            ⟨.error (.store (store.unreadable name)), [], store⟩) ∧
      ∀ entry, (setting.entry supply (.resume kind none) store).1 = .ok entry →
        (∀ name, ¬ Unreadable decode entries name) ∧
          (Apart decode entries → Execution.NewestOf (wanted decode) (some entry.execution)) := by
  intro wanted
  refine ⟨fun decode => ⟨has.newest_eq decode kind, fun listing reordered => ?_⟩,
    fun setting supply => ?_⟩
  · rcases newestIn_cases has proper decode kind reordered with
      ⟨name, untold, failed⟩ | ⟨readable, found, told, isNewest⟩
    · exact ⟨⟨fun _ => ⟨name, untold⟩, fun _ => ⟨_, _, failed⟩⟩,
        fun readable => absurd untold (readable name)⟩
    · refine ⟨⟨?_, fun ⟨name, untold⟩ => absurd untold (readable name)⟩,
        fun _ apart => ⟨found, told, isNewest apart⟩⟩
      rintro ⟨path, cause, failed⟩
      cases told.symm.trans failed
  · intro decode
    have newest := has.newest_eq decode kind
    rcases newestIn_cases has proper decode kind (.refl entries) with
      ⟨name, untold, failed⟩ | ⟨readable, found, told, isNewest⟩
    · have failed := newest.trans failed
      refine ⟨fun _ => ⟨name, untold, run_of_newest_error failed setting supply⟩, ?_⟩
      intro entry entered
      cases failed.symm.trans (newest_of_entry entered)
    · refine ⟨fun ⟨name, untold⟩ => absurd untold (readable name), fun entry entered => ?_⟩
      have same : found = some entry.execution :=
        Except.ok.inj ((newest.trans told).symm.trans (newest_of_entry entered))
      exact ⟨readable, fun apart => same ▸ isNewest apart⟩

/-- A root with a record, beside it one that breaks off, a directory without one, and a file. -/
def littered (record : ByteArray) : List (String × Tree) :=
  [("broken", .directory [(executionFile, .file "\x7b".toUTF8)]), ("lost", .directory []),
    ("notes", .file .empty), ("whole", .directory [(executionFile, .file record)])]

theorem proper_littered (record : ByteArray) : Proper (littered record) where
  distinct := by
    show ["broken", "lost", "notes", "whole"].Nodup
    decide
  files {name inner held} mem := by
    simp only [littered, List.mem_cons, Prod.mk.injEq, Tree.directory.injEq, reduceCtorEq,
      and_false, List.not_mem_nil, or_false, false_or] at mem
    rcases mem with ⟨_, rfl⟩ | ⟨_, rfl⟩ | ⟨_, rfl⟩ <;> simp

/-- The execution with a whole record is not taken up where another one's record breaks off. -/
theorem no_record_passed_over_beside_whole :
    let entries := littered Execution.intricate.toJson.indented.toUTF8
    let store : DirectoryStore := ⟨.directory entries, ""⟩
    let call := Call.probing (fun _ => pure ()) (.resume .upgrade none) none
    let run := (call.setting .rebooting).run call.supply call.request .none .empty store
    Recorded Execution.ofBytes? entries .intricate ∧
      run.result = .error (.store (store.unreadable "broken")) ∧ run.steps = [] := by
  have whole : Execution.ofBytes? Execution.intricate.toJson.indented.toUTF8 = some .intricate :=
    Execution.ofText?_indented Execution.intricate_lasting
  have broken : Execution.ofBytes? "\x7b".toUTF8 = none := by
    rw [Execution.ofBytes?, Json.Source.ofBytes?_toUTF8]
    rfl
  generalize Execution.intricate.toJson.indented.toUTF8 = record at whole
  intro entries store call run
  have only (name : String) (untold : Unreadable Execution.ofBytes? entries name) :
      name = "broken" := by
    obtain ⟨bytes, ⟨inner, mem, held⟩, untold⟩ := untold
    simp only [entries, littered, List.mem_cons, Prod.mk.injEq, Tree.directory.injEq, reduceCtorEq,
      and_false, List.not_mem_nil, or_false, false_or] at mem
    rcases mem with ⟨rfl, _⟩ | ⟨_, rfl⟩ | ⟨_, rfl⟩
    · rfl
    · cases held
    · have same : some (Tree.file record) = some (.file bytes) := held
      cases same
      cases whole.symm.trans untold
  have recorded : Recorded Execution.ofBytes? entries .intricate :=
    ⟨"whole", record, ⟨[(executionFile, .file record)], by simp [entries, littered], rfl⟩, whole⟩
  have unread : Unreadable Execution.ofBytes? entries "broken" :=
    ⟨_, ⟨[(executionFile, .file "\x7b".toUTF8)], by simp [entries, littered], rfl⟩, broken⟩
  have has : store.HasEntries entries := rfl
  obtain ⟨_, resumed⟩ := no_record_passed_over has (proper_littered record) .upgrade
  obtain ⟨name, untold, ended⟩ := (resumed (call.setting .rebooting) call.supply).1 ⟨_, unread⟩
  obtain rfl := only name untold
  rw [show run = _ from ended .none .empty]
  exact ⟨recorded, rfl, rfl⟩

end DirectoryStore

end PhasedUpgrade
