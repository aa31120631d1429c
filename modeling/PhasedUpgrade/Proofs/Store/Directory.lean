import PhasedUpgrade.Proofs.Files.Tree
import PhasedUpgrade.Proofs.Store.Newest
import PhasedUpgrade.Proofs.Store.Recorded
import PhasedUpgrade.Store.Directory

/-!
# What a directory keeps

A directory store mirrors what was written to it: under the name of each execution stand the texts
of its latest record and of its latest journal, and nothing else.
-/

namespace PhasedUpgrade

open Files
open NameMap (insertEntry lookup_insertEntry eq_or_mem_of_mem_insertEntry)

/-! ## The newest of what is held -/

/-- Nothing if no execution of a kind is held, and otherwise the one that was created last. -/
structure Holdings.IsNewest (held : Holdings) (kind : ExecutionKind) (found : Option Execution) :
    Prop where
  none_iff : found = none ↔
    ∀ execution, held.execution? execution.id = some execution → execution.kind ≠ kind
  some_iff (execution : Execution) : found = some execution ↔
    held.execution? execution.id = some execution ∧ execution.kind = kind ∧
      ∀ other, held.execution? other.id = some other → other.kind = kind → other ≠ execution →
        other.createdAt < execution.createdAt ∨
          execution.createdAt = other.createdAt ∧ other.id < execution.id

theorem Holdings.IsNewest.unique {held : Holdings} {kind : ExecutionKind}
    {first second : Option Execution} (one : held.IsNewest kind first)
    (other : held.IsNewest kind second) : first = second := by
  cases first with
  | none => exact (other.none_iff.mpr (one.none_iff.mp rfl)).symm
  | some execution => exact ((other.some_iff execution).mpr ((one.some_iff execution).mp rfl)).symm

namespace Execution

/-- Some executions are those of a kind that are held, each any number of times. -/
def Lists (executions : List Execution) (held : Holdings) (kind : ExecutionKind) : Prop :=
  ∀ execution, execution ∈ executions ↔
    held.execution? execution.id = some execution ∧ execution.kind = kind

variable {executions : List Execution} {held : Holdings} {kind : ExecutionKind}

theorem isNewest_newest? (lists : Lists executions held kind) :
    held.IsNewest kind (newest? executions) := by
  have distinct : Distinct executions := by
    intro a ha b hb _ same
    have first := ((lists a).mp ha).1
    have second := ((lists b).mp hb).1
    rw [same, second] at first
    exact (Option.some.inj first).symm
  have newest := newestOf_newest? lists distinct
  constructor
  · rw [newest.none_iff]
    simp only [not_and]
  · intro execution
    rw [newest.some_iff]
    simp only [and_imp, and_assoc]

end Execution

/-! ## Reading and writing files -/

namespace DirectoryStore

variable {store : DirectoryStore} {α : Type} {decode : ByteArray → Option α}

theorem path_eq (store : DirectoryStore) (below : Path) :
    store.path below = store.path [] ++ below := by
  simp [path]

theorem read_of_missing {below : Path} (h : store.tree.find (store.path below) = .error .notFound) :
    store.read below decode = .ok none := by
  rw [read, Tree.read, h]
  rfl

theorem read_of_file {below : Path} {bytes : ByteArray} {record : α}
    (h : store.tree.find (store.path below) = .ok (.file bytes))
    (decoded : decode bytes = some record) : store.read below decode = .ok (some record) := by
  rw [read, Tree.read_of_file h]
  simp only [decoded]

theorem read_congr {below : Path} {tree : Tree}
    (h : tree.find (store.path below) = store.tree.find (store.path below)) :
    read { store with tree := tree } below decode = store.read below decode := by
  have same : tree.read (path { store with tree := tree } below) =
      store.tree.read (store.path below) := by
    rw [Tree.read, Tree.read]
    exact congrArg (Except.bind · _) h
  rw [read, read, same]
  rfl

/--
A write puts a record into its place, or fails and changes nothing. What it tells of then is a
directory in the place of the record, or else the record's own directory.
-/
theorem write_cases (store : DirectoryStore) (below : Path) (record : Json) :
    (∃ tree, store.tree.write record.indented.toUTF8 (store.path below) = .ok tree ∧
      store.write below record = (.ok (), { store with tree := tree })) ∨
    (∃ held, store.tree.find (store.path below) = .ok (.directory held)) ∧
      store.write below record = (.error (store.failure below .isADirectory), store) ∨
    (∀ held, store.tree.find (store.path below) ≠ .ok (.directory held)) ∧
      ∃ cause, store.write below record = (.error (store.failure below.dropLast cause), store) := by
  unfold write
  cases written : store.tree.write record.indented.toUTF8 (store.path below) with
  | ok tree => exact .inl ⟨tree, rfl, rfl⟩
  | error fault =>
      by_cases directory : fault = .isADirectory
      · subst directory
        exact .inr (.inl ⟨Tree.write_eq_isADirectory_iff.mp written, rfl⟩)
      · refine .inr (.inr ⟨fun held there => ?_, ?_⟩)
        · have refused : store.tree.write record.indented.toUTF8 (store.path below) = _ :=
            Tree.write_eq_isADirectory_iff.mpr ⟨held, there⟩
          rw [written] at refused
          exact directory (Except.error.inj refused)
        · obtain ⟨cause, told⟩ := Tree.exists_writeFailure directory store.tree (store.path below)
            (store.pathText below) (store.pathText below.dropLast)
          exact ⟨cause, by simp only [told, failure]⟩

/-- A write leaves all other files of the same depth as they are, whether it fails or not. -/
theorem find_of_write {below other : Path} (differ : other ≠ below)
    (deep : other.length = below.length) (record : Json) :
    (store.write below record).2.tree.find ((store.write below record).2.path other) =
      store.tree.find (store.path other) := by
  rcases store.write_cases below record with
    ⟨tree, put, written⟩ | ⟨_, failed⟩ | ⟨_, cause, failed⟩
  · rw [written]
    refine Tree.find_write_of_apart put (Tree.apart_of_ne ?_ ?_)
    · simp [path, deep]
    · exact fun same => differ (List.append_cancel_left same)
  · rw [failed]
  · rw [failed]

/-- The entries of a root in which every entry is a directory named for an execution. -/
def Tidy (entries : List (String × Tree)) : Prop :=
  ∀ entry ∈ entries, ∃ id : ExecutionId, ∃ inner, entry = (id.text, .directory inner)

/-- A file of an execution is put beside what is there, if it is not kept from being read. -/
theorem write_tidy {entries : List (String × Tree)} (tidy : Tidy entries) (id : ExecutionId)
    {file : String} (bytes : ByteArray)
    (free : ∀ held, (Tree.directory entries).find [id.text, file] ≠ .ok (.directory held)) :
    ∃ inner, (Tree.directory entries).write bytes [id.text, file] =
        .ok (.directory (insertEntry id.text (.directory inner) entries)) ∧
      inner.lookup file = some (.file bytes) := by
  cases found : entries.lookup id.text with
  | none =>
      refine ⟨insertEntry file (.file bytes) [], ?_, ?_⟩
      · simp [Tree.write, found, Tree.empty, bind, Except.bind, pure, Except.pure]
      · simp [lookup_insertEntry]
  | some tree =>
      obtain ⟨other, inner, same⟩ := tidy _ (mem_of_lookup found)
      have here : tree = .directory inner := congrArg Prod.snd same
      subst here
      refine ⟨insertEntry file (.file bytes) inner, ?_, ?_⟩
      · cases held : inner.lookup file with
        | none => simp [Tree.write, found, held, bind, Except.bind, pure, Except.pure]
        | some tree =>
            cases tree with
            | file => simp [Tree.write, found, held, bind, Except.bind, pure, Except.pure]
            | directory sub => exact absurd (by simp [Tree.find, found, held]) (free sub)
      · simp [lookup_insertEntry]

/-- Below its root a store holds these entries, or there is no root yet. -/
def HasEntries (store : DirectoryStore) (entries : List (String × Tree)) : Prop :=
  store.tree.place (store.path []) = .ok (.directory entries)

theorem HasEntries.find_below {entries : List (String × Tree)} (h : store.HasEntries entries)
    {below : Path} (ne : below ≠ []) :
    store.tree.find (store.path below) = (Tree.directory entries).find below := by
  rw [path_eq]
  exact Tree.find_below h ne

/-- A root that is missing is looked through like one without entries. -/
theorem HasEntries.newest_eq {entries : List (String × Tree)} (h : store.HasEntries entries)
    (decode : ByteArray → Option Execution) (kind : ExecutionKind) :
    store.newest decode kind = (store.candidates decode kind entries).map Execution.newest? := by
  unfold HasEntries Tree.place at h
  unfold newest
  split at h
  · rename_i missing
    cases h
    rw [missing]
    rfl
  · rw [h]
    simp only
    cases store.candidates decode kind entries <;> rfl

/-- What a write of a file that could be read does to the tree below the root. -/
theorem exists_write {entries : List (String × Tree)} (h : store.HasEntries entries)
    (tidy : Tidy entries) (id : ExecutionId) {file : String} (record : Json) {found : Option α}
    (readable : store.read [id.text, file] decode = .ok found) :
    ∃ tree, store.write [id.text, file] record = (.ok (), { store with tree := tree }) ∧
      tree.find (store.path [id.text, file]) = .ok (.file record.indented.toUTF8) ∧
      (∀ other : Path, other.length = 2 → other ≠ [id.text, file] →
        tree.find (store.path other) = store.tree.find (store.path other)) ∧
      ∃ entries, HasEntries { store with tree := tree } entries ∧ Tidy entries := by
  have ne : [id.text, file] ≠ [] := List.cons_ne_nil _ _
  have free : ∀ held, (Tree.directory entries).find [id.text, file] ≠ .ok (.directory held) := by
    intro held there
    have refused : store.tree.read (store.path [id.text, file]) = .error .isADirectory := by
      rw [Tree.read, h.find_below ne, there]
      rfl
    rw [read, refused] at readable
    cases readable
  obtain ⟨inner, written, held⟩ := write_tidy tidy id record.indented.toUTF8 free
  obtain ⟨tree, grown, root⟩ := Tree.exists_write_below h ne written
  rw [← path_eq] at grown
  refine ⟨tree, ?_, ?_, ?_, insertEntry id.text (.directory inner) entries, ?_, ?_⟩
  · rw [write, grown]
  · rw [path_eq, Tree.find_append, root]
    simp [Except.bind, Tree.find, lookup_insertEntry, held]
  · intro other two differ
    refine Tree.find_write_of_apart grown (Tree.apart_of_ne ?_ ?_)
    · rw [path_eq store other, path_eq store [id.text, file]]
      simp [two]
    · rw [path_eq store other, path_eq store [id.text, file]]
      exact fun same => differ (List.append_cancel_left same)
  · exact Tree.place_of_find root
  · intro entry among
    rcases eq_or_mem_of_mem_insertEntry among with rfl | among
    · exact ⟨id, inner, rfl⟩
    · exact tidy entry among

end DirectoryStore

/-! ## Mirrored holdings -/

/-- A directory store keeps the texts of what is held, and nothing else below its root. -/
structure DirectoryStore.Mirrors (store : DirectoryStore) (held : Holdings) : Prop where
  tidy : ∃ entries, store.HasEntries entries ∧ Tidy entries
  named {id : ExecutionId} {execution : Execution} :
    held.execution? id = some execution → execution.id = id
  execution (id : ExecutionId) :
    store.read [id.text, executionFile] Execution.ofBytes? = .ok (held.execution? id)
  journal (id : ExecutionId) :
    (store.read [id.text, journalFile] Journal.ofBytes?).map (·.getD .empty) =
      .ok (held.journal id)

namespace DirectoryStore

/-- There is no root, or nothing in it. -/
def Vacant (store : DirectoryStore) : Prop :=
  store.tree.find (store.path []) = .error .notFound ∨
    store.tree.find (store.path []) = .ok (.directory [])

variable {store : DirectoryStore} {held : Holdings}

theorem Vacant.mirrors (vacant : store.Vacant) : store.Mirrors .empty := by
  have entries : store.HasEntries [] := by
    rcases vacant with missing | there
    · simp [HasEntries, Tree.place, missing, Tree.empty]
    · exact Tree.place_of_find there
  have missing (id : ExecutionId) (file : String) :
      store.tree.find (store.path [id.text, file]) = .error .notFound :=
    entries.find_below (List.cons_ne_nil _ _)
  refine ⟨⟨[], entries, by simp [Tidy]⟩, ?_, ?_, ?_⟩
  · intro id execution h
    cases h
  · exact fun id => read_of_missing (missing id executionFile)
  · intro id
    rw [read_of_missing (missing id journalFile)]
    rfl

theorem names_ne {id other : ExecutionId} (differ : other ≠ id) (file another : String) :
    [other.text, file] ≠ [id.text, another] := by
  intro same
  exact differ (ExecutionId.text_inj.mp (List.cons.inj same).1)

theorem Mirrors.save (mirrors : store.Mirrors held) {execution : Execution}
    (lasting : execution.Lasting) :
    ∃ after, Store.save execution store = (.ok (), after) ∧ after.root = store.root ∧
      after.Mirrors (held.put execution) := by
  obtain ⟨entries, has, tidy⟩ := mirrors.tidy
  obtain ⟨tree, written, here, elsewhere, grown⟩ := exists_write has tidy execution.id
    execution.toJson (mirrors.execution execution.id)
  refine ⟨{ store with tree := tree }, written, rfl, grown, ?_, ?_, ?_⟩
  · intro id found h
    rw [Holdings.put] at h
    by_cases same : id = execution.id
    · simp only [same, if_true, Option.some.injEq] at h
      rw [← h, same]
    · simp only [same, if_false] at h
      exact mirrors.named h
  · intro id
    rw [Holdings.put]
    by_cases same : id = execution.id
    · simp only [same, if_true]
      exact read_of_file here (Execution.ofText?_indented lasting)
    · simp only [same, if_false]
      rw [read_congr (elsewhere _ rfl (names_ne same _ _))]
      exact mirrors.execution id
  · intro id
    have apart : [id.text, journalFile] ≠ [execution.id.text, executionFile] := by
      simp [journalFile, executionFile]
    rw [read_congr (elsewhere _ rfl apart)]
    exact mirrors.journal id

theorem Mirrors.saveJournal (mirrors : store.Mirrors held) (id : ExecutionId) {journal : Journal}
    (lasting : journal.Lasting) :
    ∃ after, Store.saveJournal id journal store = (.ok (), after) ∧ after.root = store.root ∧
      after.Mirrors (held.putJournal id journal) := by
  obtain ⟨entries, has, tidy⟩ := mirrors.tidy
  have readable : ∃ found, store.read [id.text, journalFile] Journal.ofBytes? = .ok found := by
    have there := mirrors.journal id
    cases h : store.read [id.text, journalFile] Journal.ofBytes? with
    | error error => simp [h, Except.map] at there
    | ok found => exact ⟨found, rfl⟩
  obtain ⟨found, readable⟩ := readable
  obtain ⟨tree, written, here, elsewhere, grown⟩ := exists_write has tidy id journal.toJson readable
  refine ⟨{ store with tree := tree }, written, rfl, grown, mirrors.named, ?_, ?_⟩
  · intro other
    have apart : [other.text, executionFile] ≠ [id.text, journalFile] := by
      simp [journalFile, executionFile]
    rw [read_congr (elsewhere _ rfl apart)]
    exact mirrors.execution other
  · intro other
    rw [Holdings.putJournal]
    by_cases same : other = id
    · simp only [same, if_true]
      rw [read_of_file here (Journal.ofText?_indented lasting)]
      rfl
    · simp only [same, if_false]
      rw [read_congr (elsewhere _ rfl (names_ne same _ _))]
      exact mirrors.journal other

/-! ## Looking for the newest -/

theorem Mirrors.execution?_eq_some_iff (mirrors : store.Mirrors held) {id : ExecutionId}
    {execution : Execution} :
    held.execution? id = some execution ↔
      held.execution? execution.id = some execution ∧ execution.id.text = id.text := by
  constructor
  · intro stored
    rw [mirrors.named stored]
    exact ⟨stored, rfl⟩
  · intro ⟨stored, same⟩
    rwa [← ExecutionId.text_inj.mp same]

section

variable {kind : ExecutionKind} {id : ExecutionId} {inner rest : List (String × Tree)}

theorem Mirrors.candidates_cons_of_none (mirrors : store.Mirrors held)
    (stored : held.execution? id = none) :
    store.candidates Execution.ofBytes? kind ((id.text, .directory inner) :: rest) =
      store.candidates Execution.ofBytes? kind rest := by
  rw [candidates, mirrors.execution id, stored]
  rfl

theorem Mirrors.candidates_cons_of_some (mirrors : store.Mirrors held) {found : Execution}
    (stored : held.execution? id = some found) {others : List Execution}
    (further : store.candidates Execution.ofBytes? kind rest = .ok others) :
    store.candidates Execution.ofBytes? kind ((id.text, .directory inner) :: rest) =
      .ok (if found.kind = kind then found :: others else others) := by
  rw [candidates, mirrors.execution id, stored, further]
  rfl

end

/-- What is found in a listing is what is held under the names in it. -/
theorem exists_candidates (mirrors : store.Mirrors held) (kind : ExecutionKind)
    {listing : List (String × Tree)} (tidy : Tidy listing) :
    ∃ executions, store.candidates Execution.ofBytes? kind listing = .ok executions ∧
      ∀ execution, execution ∈ executions ↔
        held.execution? execution.id = some execution ∧ execution.kind = kind ∧
          execution.id.text ∈ listing.map Prod.fst := by
  induction listing with
  | nil => exact ⟨[], rfl, by simp⟩
  | cons entry rest ih =>
      obtain ⟨here, later⟩ := List.forall_mem_cons.mp tidy
      obtain ⟨id, inner, rfl⟩ := here
      obtain ⟨others, further, listed⟩ := ih later
      have first (execution : Execution) : held.execution? id = some execution ↔
          held.execution? execution.id = some execution ∧ execution.id.text = id.text :=
        mirrors.execution?_eq_some_iff
      cases stored : held.execution? id with
      | none =>
          refine ⟨others, (mirrors.candidates_cons_of_none stored).trans further,
            fun execution => ?_⟩
          have apart := first execution
          rw [stored] at apart
          rw [listed, List.map_cons, List.mem_cons]
          grind
      | some found =>
          refine ⟨_, mirrors.candidates_cons_of_some stored further, fun execution => ?_⟩
          have heads := first execution
          rw [stored, Option.some.injEq] at heads
          rw [List.map_cons, List.mem_cons]
          by_cases wanted : found.kind = kind
          · rw [if_pos wanted, List.mem_cons, listed]
            grind
          · rw [if_neg wanted, listed]
            grind

theorem Mirrors.mem_names (mirrors : store.Mirrors held) {entries : List (String × Tree)}
    (has : store.HasEntries entries) {id : ExecutionId} {execution : Execution}
    (stored : held.execution? id = some execution) : id.text ∈ entries.map Prod.fst := by
  cases found : entries.lookup id.text with
  | none =>
      have missing : store.tree.find (store.path [id.text, executionFile]) = .error .notFound := by
        rw [has.find_below (List.cons_ne_nil _ _), Tree.find, found]
      have nothing := mirrors.execution id
      rw [read_of_missing missing, stored] at nothing
      cases nothing
  | some tree => exact List.mem_map.mpr ⟨(id.text, tree), mem_of_lookup found, rfl⟩

/-- In whatever order the root is listed, what is found is the newest of what is held. -/
theorem Mirrors.exists_newest (mirrors : store.Mirrors held) (kind : ExecutionKind)
    {entries listing : List (String × Tree)} (has : store.HasEntries entries)
    (tidy : Tidy entries) (reordered : listing.Perm entries) :
    ∃ executions, store.candidates Execution.ofBytes? kind listing = .ok executions ∧
      held.IsNewest kind (Execution.newest? executions) := by
  have listed : Tidy listing := fun entry among => tidy entry (reordered.mem_iff.mp among)
  obtain ⟨executions, gathered, mem⟩ := exists_candidates mirrors kind listed
  refine ⟨executions, gathered, Execution.isNewest_newest? fun execution => ?_⟩
  rw [mem]
  constructor
  · exact fun ⟨stored, same, _⟩ => ⟨stored, same⟩
  · intro ⟨stored, same⟩
    have among := mirrors.mem_names has stored
    exact ⟨stored, same, (reordered.map Prod.fst).mem_iff.mpr among⟩

theorem Mirrors.mostRecent (mirrors : store.Mirrors held) (kind : ExecutionKind) :
    ∃ found, Store.mostRecent kind store = (.ok found, store) ∧ held.IsNewest kind found := by
  obtain ⟨entries, has, tidy⟩ := mirrors.tidy
  obtain ⟨executions, gathered, newest⟩ := mirrors.exists_newest kind has tidy (.refl entries)
  refine ⟨Execution.newest? executions, ?_, newest⟩
  show (store.newest Execution.ofBytes? kind, store) = _
  rw [has.newest_eq, gathered]
  rfl

end DirectoryStore

end PhasedUpgrade
