import PhasedUpgrade.Proofs.Answers.Exchange
import PhasedUpgrade.Proofs.Answers.File
import PhasedUpgrade.Proofs.Identifier.Spelling
import PhasedUpgrade.Proofs.Store.Writable

/-!
# Answers from run to run

A file of answers is made by commands that record answers and by runs that are saved to it. What is
recorded and saved is what later runs are told, up to the next recording for the same key. A run
that ends in an error is not saved, so what its actors have recorded is lost with it.
-/

namespace PhasedUpgrade

/--
Whether a value is a string, an integer of 64 bits, a boolean or an array of such values, and no
arrays in it are nested deeper than a reader allows.
-/
def Toml.Value.Fits (depth : Nat) (value : Value) : Prop :=
  value.Plain ∧ value.nesting ≤ depth

namespace Exchange

def Records (sort : Toml.Value → Prop) : Exchange → Prop
  | .asked _ _ _ => True
  | .recorded _ _ value => sort value

def ofAssignment? (assignment : String) : Option Exchange :=
  (Answers.splitAssignment? assignment).map fun (heading, key, raw) =>
    .recorded heading key (Answers.valueOf raw)

end Exchange

namespace Answers

open Toml Files

variable {answers updated : Answers} {sort : Value → Prop} {depth : Nat} {path : String}

/-! ## Values of some sort -/

theorem every_iff : answers.Every sort ↔
    ∀ heading key value, answers.get? heading key = some value → sort value := by
  unfold Every get?
  simp only [Option.bind_eq_bind, Option.bind_eq_some_iff, NameMap.get?_eq_some_iff]
  constructor
  · rintro all heading key value ⟨entries, named, among⟩
    exact all _ named _ among
  · rintro all ⟨heading, entries⟩ named ⟨key, value⟩ among
    exact all heading key value ⟨entries, named, among⟩

theorem every_fits_iff :
    answers.Every (Value.Fits depth) ↔ answers.Plain ∧ answers.Within depth := by
  simp only [Plain, Within, every_iff, Value.Fits]
  exact ⟨fun all => ⟨fun _ _ _ held => (all _ _ _ held).1, fun _ _ _ held => (all _ _ _ held).2⟩,
    fun all _ _ _ held => ⟨all.1 _ _ _ held, all.2 _ _ _ held⟩⟩

theorem Every.set (h : answers.Every sort) {value : Value} (of_sort : sort value)
    (heading key : String) : (answers.set heading key value).Every sort := by
  rw [every_iff] at h ⊢
  intro other name held found
  rw [get?_set] at found
  split at found
  next same => exact Option.some.inj found ▸ of_sort
  next => exact h other name held found

theorem Every.after {made : List Exchange} (h : answers.Every sort)
    (records : ∀ exchange ∈ made, exchange.Records sort) : (answers.after made).Every sort := by
  induction made generalizing answers with
  | nil => exact h
  | cons exchange rest ih =>
      obtain ⟨here, later⟩ := List.forall_mem_cons.mp records
      cases exchange with
      | asked heading key told => exact ih h later
      | recorded heading key value => exact ih (h.set here heading key) later

theorem assignAll_eq_ok {assignments : List String}
    (h : answers.assignAll assignments = .ok updated) :
    updated = answers.after (assignments.filterMap Exchange.ofAssignment?) := by
  induction assignments generalizing answers with
  | nil => exact (Except.ok.inj h).symm
  | cons assignment rest ih =>
      obtain ⟨between, assigned, others⟩ := Except.exists_of_bind_eq_ok h
      unfold assign at assigned
      split at assigned
      next heading key raw split =>
          obtain rfl := Except.ok.inj assigned
          rw [List.filterMap_cons_some (by rw [Exchange.ofAssignment?, split]; rfl)]
          exact ih others
      next => cases assigned

/-! ## The life of a file -/

/--
What becomes of a file of answers, with the exchanges that have been saved to it. The operator
records answers in it, runs begin with what is in it and are saved to it when they have ended, and
whatever else is done leaves it as it is.
-/
inductive Life (depth : Nat) (path : String) (start : Tree) : List Exchange → Tree → Prop
  | begun : Life depth path start [] start
  | answered {made : List Exchange} {tree after : Tree} {old updated : Answers}
      {assignments : List String} (life : Life depth path start made tree)
      (loaded : load tree path depth = .ok old)
      (assigned : old.assignAll assignments = .ok updated)
      (saved : updated.save tree path = .ok after) :
      Life depth path start (made ++ assignments.filterMap Exchange.ofAssignment?) after
  | ran {made here : List Exchange} {tree between after : Tree} {old : Answers}
      {σ : Type} [Store σ] {setting : Setting} {supply : Supply} {request : RunRequest}
      {options : RunOptions} {store : σ} (life : Life depth path start made tree)
      (loaded : load tree path depth = .ok old)
      (exchanged : setting.Exchanges supply request options old store here)
      (saved : ((setting.run supply request options old store).answers old).save between path =
        .ok after) :
      Life depth path start (made ++ here) after
  | left {made : List Exchange} {tree after : Tree} (life : Life depth path start made tree)
      (kept : after.find (Path.ofText path) = tree.find (Path.ofText path)) :
      Life depth path start made after

theorem load_of_fits {tree after : Tree} (fits : answers.Every (Value.Fits depth))
    (saved : answers.save tree path = .ok after) : load after path depth = .ok answers := by
  obtain ⟨plain, within⟩ := every_fits_iff.mp fits
  rw [load_of_save plain saved, if_pos within]

variable {start tree : Tree} {first : Answers} {made : List Exchange}

/-- The file holds what it held at the start and what has been recorded since. -/
theorem Life.load_eq (life : Life depth path start made tree)
    (loaded : load start path depth = .ok first) (fits : first.Every (Value.Fits depth))
    (records : ∀ exchange ∈ made, exchange.Records (Value.Fits depth)) :
    load tree path depth = .ok (first.after made) := by
  induction life with
  | begun => exact loaded
  | answered life here assigned saved ih =>
      obtain ⟨earlier, later⟩ := List.forall_mem_append.mp records
      obtain rfl := Except.ok.inj (here.symm.trans (ih earlier))
      obtain rfl := assignAll_eq_ok assigned
      rw [after_append]
      exact load_of_fits ((fits.after earlier).after later) saved
  | ran life here exchanged saved ih =>
      obtain ⟨earlier, later⟩ := List.forall_mem_append.mp records
      obtain rfl := Except.ok.inj (here.symm.trans (ih earlier))
      rw [exchanged.spec.2] at saved
      rw [after_append]
      exact load_of_fits ((fits.after earlier).after later) saved
  | left life kept ih =>
      rw [← ih records]
      unfold load Tree.readText Tree.read
      rw [kept]

/-- Whoever asks in a later run is told what was recorded last, in that run or in those before. -/
theorem Life.told_eq {σ : Type} [Store σ] {setting : Setting} {supply : Supply}
    {request : RunRequest} {options : RunOptions} {store : σ} {before behind : List Exchange}
    {heading key : String} {told : Option Value}
    (exchanged : setting.Exchanges supply request options (first.after made) store
      (before ++ .asked heading key told :: behind)) :
    told = (Exchange.last? heading key (made ++ before)).or (first.get? heading key) := by
  rw [exchanged.spec.1.told_eq, ← get?_after, ← get?_after, after_append]

end Answers

/-! ## Commands -/

namespace Upgrade

open Files

/-- Whether neither logs nor records are kept where the answers are. -/
def Settings.KeepsApart (settings : Settings) : Prop :=
  (∀ kind, Tree.Apart (Path.ofText (Upgrade.logPath settings.logPath kind))
    (Path.ofText settings.answersPath)) ∧
  ∀ tree id, DirectoryStore.Avoids ⟨tree, settings.storePath⟩ id (Path.ofText settings.answersPath)

theorem Settings.keepsApart_shipped : Settings.shipped.KeepsApart := by
  constructor
  · intro kind
    unfold Tree.Apart
    cases kind <;> decide
  · intro tree id file known
    have named : "answerfile.toml" ≠ id.text := by
      intro same
      have read := ExecutionId.ofText?_text id
      rw [← same] at read
      cases read
    have path : Path.ofText Settings.shipped.answersPath =
      Path.ofText Settings.shipped.storePath ++ ["answerfile.toml"] := by decide
    rw [path]
    unfold Tree.Apart DirectoryStore.path
    simp [named]

namespace Machine

variable {machine : Machine} {settings : Settings} {supply : Supply} {kind : ExecutionKind}
  {arguments : Arguments}

/-- Whether a command saves given exchanges: its own, or none if it ends in an error. -/
def Saves (machine : Machine) (settings : Settings) (supply : Supply) :
    Command → List Exchange → Prop
  | .answer assignments, saved =>
      match machine.recordAnswers settings assignments with
      | .ok _ => saved = assignments.filterMap Exchange.ofAssignment?
      | .error _ => saved = []
  | .run kind arguments, saved =>
      let logging := machine.openLog settings kind
      match logging.undertaking settings kind arguments,
        (logging.execute settings supply kind arguments).result with
      | .ok undertaking, .ok _ => undertaking.setting.Exchanges supply undertaking.request
          undertaking.options undertaking.answers (logging.store settings) saved
      | _, _ => saved = []

theorem saves_answer_iff {assignments : List String} {tree : Tree}
    (recorded : machine.recordAnswers settings assignments = .ok tree) {saved : List Exchange} :
    machine.Saves settings supply (.answer assignments) saved ↔
      saved = assignments.filterMap Exchange.ofAssignment? := by
  simp only [Saves, recorded]

theorem tree_obey_answer {assignments : List String} {tree : Tree}
    (recorded : machine.recordAnswers settings assignments = .ok tree) :
    (machine.obey settings supply (.answer assignments)).2 = tree := by
  simp only [obey, recorded]

theorem exists_saves (machine : Machine) (settings : Settings) (supply : Supply)
    (command : Command) : ∃ saved, machine.Saves settings supply command saved := by
  cases command with
  | answer assignments =>
      simp only [Saves]
      cases machine.recordAnswers settings assignments <;> exact ⟨_, rfl⟩
  | run kind arguments =>
      simp only [Saves]
      cases (machine.openLog settings kind).undertaking settings kind arguments with
      | error error => exact ⟨_, rfl⟩
      | ok undertaking =>
          cases ((machine.openLog settings kind).execute settings supply kind arguments).result with
          | error error => exact ⟨_, rfl⟩
          | ok result => exact Setting.exists_exchanges _ _ _ _ _ _

theorem find_openLog (apart : settings.KeepsApart) (machine : Machine) (kind : ExecutionKind) :
    (machine.openLog settings kind).tree.find (Path.ofText settings.answersPath) =
      machine.tree.find (Path.ofText settings.answersPath) := by
  unfold openLog
  dsimp only
  split
  · rfl
  · split
    next written => exact Tree.find_write_of_apart written (apart.1 kind)
    next => rfl

theorem parts_of_undertaking {undertaking : Undertaking}
    (h : machine.undertaking settings kind arguments = .ok undertaking) :
    Answers.load machine.tree settings.answersPath = .ok undertaking.answers ∧
      undertaking.setting = ⟨workflow, registry settings.paths⟩ := by
  obtain ⟨answers, loaded, later⟩ := Except.exists_of_bind_eq_ok h
  have parts : undertaking.answers = answers ∧
      undertaking.setting = ⟨workflow, registry settings.paths⟩ := by
    dsimp only at later
    split at later
    · obtain rfl := Except.ok.inj later
      exact ⟨rfl, rfl⟩
    · obtain ⟨configuration, _, last⟩ := Except.exists_of_bind_eq_ok later
      obtain rfl := Except.ok.inj last
      exact ⟨rfl, rfl⟩
  exact ⟨parts.1 ▸ Except.eq_ok_of_mapError loaded, parts.2⟩

/-- A run is saved to the file as it has left the answers, or it leaves the file as it is. -/
theorem execute_cases (apart : settings.KeepsApart) (machine : Machine) (supply : Supply)
    (kind : ExecutionKind) (arguments : Arguments) :
    (∃ undertaking result, machine.undertaking settings kind arguments = .ok undertaking ∧
      (machine.execute settings supply kind arguments).result = .ok result ∧
      let ended := undertaking.setting.run supply undertaking.request undertaking.options
        undertaking.answers (machine.store settings)
      (ended.answers undertaking.answers).save ended.store.tree settings.answersPath =
        .ok (machine.execute settings supply kind arguments).tree) ∨
    (∃ error, (machine.execute settings supply kind arguments).result = .error error) ∧
      (machine.execute settings supply kind arguments).tree.find
          (Path.ofText settings.answersPath) =
        machine.tree.find (Path.ofText settings.answersPath) := by
  unfold execute
  cases undertaken : machine.undertaking settings kind arguments with
  | error error => exact .inr ⟨⟨error, rfl⟩, rfl⟩
  | ok undertaking =>
      have kept := DirectoryStore.find_run (apart.2 machine.tree) undertaking.setting supply
        undertaking.request undertaking.options undertaking.answers
      obtain ⟨setting, request, options, answers⟩ := undertaking
      dsimp only at kept ⊢
      split
      next error failed => exact .inr ⟨⟨_, rfl⟩, kept⟩
      next result came =>
          split
          next error failed => exact .inr ⟨⟨_, rfl⟩, kept⟩
          next tree saved => exact .inl ⟨_, result, rfl, rfl, saved⟩

/-- What a command does to the file of answers is a step of the life of the file. -/
theorem obey_life (apart : settings.KeepsApart) {start : Tree} {made saved : List Exchange}
    {command : Command}
    (life : Answers.Life Toml.maxDepth settings.answersPath start made machine.tree)
    (saves : machine.Saves settings supply command saved) :
    Answers.Life Toml.maxDepth settings.answersPath start (made ++ saved)
      (machine.obey settings supply command).2 := by
  cases command with
  | answer assignments =>
      cases recorded : machine.recordAnswers settings assignments with
      | error error =>
          simp only [Saves, recorded] at saves
          simp only [obey, recorded, saves, List.append_nil]
          exact life
      | ok tree =>
          obtain ⟨old, loaded, later⟩ := Except.exists_of_bind_eq_ok recorded
          obtain ⟨updated, assigned, written⟩ := Except.exists_of_bind_eq_ok later
          rw [(saves_answer_iff recorded).mp saves, tree_obey_answer recorded]
          exact .answered life loaded assigned written
  | run kind arguments =>
      have logged := life.left (find_openLog apart machine kind)
      unfold Saves at saves
      unfold obey
      dsimp only at saves ⊢
      rcases execute_cases apart (machine.openLog settings kind) supply kind arguments with
        ⟨undertaking, result, undertaken, came, saved⟩ | ⟨⟨error, failed⟩, kept⟩
      · rw [undertaken, came] at saves
        rw [came]
        exact .ran logged (parts_of_undertaking undertaken).1 saves saved
      · rw [failed]
        have none : saved = [] := by
          rw [failed] at saves
          split at saves
          next unfailed => cases unfailed
          next => exact saves
        rw [none, List.append_nil]
        exact logged.left kept

end Machine

end Upgrade

/-! ## Survival -/

namespace Answers

open Toml Files

/--
Answers survive the file. Plain answers can be saved wherever a file can be put, and what is then
loaded is the answers themselves, if the reader lets arrays be nested as deep as they are in them.
So through all that is done to a file of answers it keeps what has been recorded last for each key,
by the operator or by an actor, and an actor of any later run that asks for it is told just that,
unless a new value has been recorded in its own run before it asks. What a command of the program
does to the file is a step of such a life, in which a command that ends in an error saves nothing:
what its actors have recorded until then is lost.
-/
theorem survive :
    (∀ (answers : Answers) (tree : Tree) (path : String), answers.Plain →
      (tree.Admits (Path.ofText path) → ∃ after, answers.save tree path = .ok after) ∧
      ∀ after depth, answers.save tree path = .ok after →
        load after path depth = if answers.Within depth then .ok answers
          else .error (.unreadable path "not a document of answers")) ∧
    (∀ (depth : Nat) (path : String) (start tree : Tree) (first : Answers)
        (made : List Exchange), load start path depth = .ok first →
      first.Every (Value.Fits depth) → Life depth path start made tree →
      (∀ exchange ∈ made, exchange.Records (Value.Fits depth)) →
      ∃ answers, load tree path depth = .ok answers ∧
        (∀ heading key, answers.get? heading key =
          (Exchange.last? heading key made).or (first.get? heading key)) ∧
        ∀ (σ : Type) [Store σ] (setting : Setting) (supply : Supply) (request : RunRequest)
          (options : RunOptions) (store : σ),
          (∃ here, setting.Exchanges supply request options answers store here) ∧
          ∀ (before behind : List Exchange) (heading key : String) (told : Option Value),
            setting.Exchanges supply request options answers store
              (before ++ .asked heading key told :: behind) →
            told = (Exchange.last? heading key (made ++ before)).or (first.get? heading key)) ∧
    ∀ (machine : Upgrade.Machine) (settings : Upgrade.Settings) (supply : Supply)
      (command : Upgrade.Command) (start : Tree) (made : List Exchange),
      settings.KeepsApart → Life maxDepth settings.answersPath start made machine.tree →
      (∃ saved, machine.Saves settings supply command saved) ∧
      ∀ saved, machine.Saves settings supply command saved →
        Life maxDepth settings.answersPath start (made ++ saved)
          (machine.obey settings supply command).2 := by
  refine ⟨fun answers tree path plain => ⟨fun admits => exists_save_of_admits admits answers,
    fun after depth saved => load_of_save plain saved depth⟩, ?_,
    fun machine settings supply command start made apart life =>
      ⟨Upgrade.Machine.exists_saves machine settings supply command,
        fun saved saves => Upgrade.Machine.obey_life apart life saves⟩⟩
  intro depth path start tree first made loaded fits life records
  refine ⟨first.after made, life.load_eq loaded fits records, get?_after first made, ?_⟩
  intro σ _ setting supply request options store
  exact ⟨setting.exists_exchanges supply request options _ store,
    fun before behind heading key told exchanged => Life.told_eq exchanged⟩

/--
Names with dots, quotes and nothing in them come back; of two recordings the later one counts.
-/
theorem survive_odd_names :
    let machine : Upgrade.Machine := ⟨.empty, [], "x86_64"⟩
    let path := Upgrade.Settings.shipped.answersPath
    let supply : Supply := ⟨fun _ => .epoch, fun _ => default, default⟩
    let nested : Value := .array [.string "\"\r'''é", .array [.boolean true, .array []]]
    let odd := ((⟨.ofList [("bare", ∅)]⟩ : Answers).set "" "" (.integer (-9))).set "a.b"
      "say \"so\"\n" nested
    (∃ after, odd.save .empty path = .ok after ∧ load after path = .ok odd) ∧
    ∃ answers, load (machine.obey .shipped supply (.answer ["net.mode=fast", "net.mode=slow"])).2
        path = .ok answers ∧
      ∀ (setting : Setting) (request : RunRequest) (store : MemoryStore) (behind : List Exchange)
        (told : Option Value), setting.Exchanges supply request .none answers store
          (.asked "net" "mode" told :: behind) → told = some (.string "slow") := by
  intro machine path supply nested odd
  obtain ⟨saves, lives, obeys⟩ := survive
  have admits : Tree.empty.Admits (Path.ofText Upgrade.Settings.shipped.answersPath) := .inl rfl
  constructor
  · have deep : nested.Fits maxDepth := by
      refine ⟨.array ?_, by decide⟩
      simp only [List.forall_mem_cons]
      refine ⟨.string _, .array ?_, List.forall_mem_nil _⟩
      simp only [List.forall_mem_cons]
      exact ⟨.boolean _, .array (List.forall_mem_nil _), List.forall_mem_nil _⟩
    have bare : (⟨.ofList [("bare", ∅)]⟩ : Answers).Every (Value.Fits maxDepth) := by
      intro entry among
      obtain rfl := List.mem_singleton.mp among
      exact List.forall_mem_nil _
    have fits : odd.Every (Value.Fits maxDepth) :=
      (bare.set ⟨.integer (by decide) (by decide), by decide⟩ _ _).set deep _ _
    obtain ⟨plain, within⟩ := every_fits_iff.mp fits
    obtain ⟨exists_save, reads⟩ := saves odd .empty path plain
    obtain ⟨after, saved⟩ := exists_save admits
    exact ⟨after, saved, (reads after maxDepth saved).trans (if_pos within)⟩
  · have loaded : load .empty Upgrade.Settings.shipped.answersPath = .ok .empty := rfl
    obtain ⟨answered, recorded⟩ : ∃ answered,
        machine.recordAnswers .shipped ["net.mode=fast", "net.mode=slow"] = .ok answered := ⟨_, rfl⟩
    have none : Answers.empty.Every (Value.Fits maxDepth) := List.forall_mem_nil _
    have texts : ["net.mode=fast", "net.mode=slow"].filterMap Exchange.ofAssignment? =
      [.recorded "net" "mode" (.string "fast"), .recorded "net" "mode" (.string "slow")] := rfl
    have life := (obeys machine .shipped supply (.answer ["net.mode=fast", "net.mode=slow"]) .empty
      [] Upgrade.Settings.keepsApart_shipped .begun).2 _
      ((Upgrade.Machine.saves_answer_iff recorded).mpr rfl)
    rw [texts] at life
    obtain ⟨answers, there, _, runs⟩ := lives maxDepth path .empty _ .empty _ loaded none life (by
      simp only [List.nil_append, List.forall_mem_cons]
      exact ⟨⟨.string _, by decide⟩, ⟨.string _, by decide⟩, List.forall_mem_nil _⟩)
    refine ⟨answers, there, fun setting request store behind told exchanged => ?_⟩
    exact (runs MemoryStore setting supply request .none store).2 [] behind "net" "mode" told
      exchanged

end Answers

end PhasedUpgrade
