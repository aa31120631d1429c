import PhasedUpgrade.Proofs.Collections.Fallible
import PhasedUpgrade.Proofs.Collections.Lookup
import PhasedUpgrade.Proofs.Files.Tree
import PhasedUpgrade.Upgrade.Console

/-!
# Recording answers

The operator names a section, a key and a value in each text. If one of the texts is malformed
nothing is recorded at all, and otherwise the file holds what it held before, but for the keys that
were named: of several texts for one key the last counts.
-/

namespace PhasedUpgrade

namespace Answers

/-! ## Single texts -/

/--
Whether a text names a section, a key and the text of a value: in front of its first `=` stand,
between blanks, the section and the key with the first `.` between them.
-/
def Names (assignment heading key raw : String) : Prop :=
  ∃ path value : String, assignment.toList = path.toList ++ '=' :: value.toList ∧
    '=' ∉ path.toList ∧
    (Text.trim path).toList = heading.toList ++ '.' :: key.toList ∧ '.' ∉ heading.toList ∧
    heading ≠ "" ∧ key ≠ "" ∧ raw = Text.trim value

/--
Whether a text has no `=`, or what stands in front of the first one has, without the blanks around
it, no `.` or nothing in front of or behind the first one.
-/
def Malformed (assignment : String) : Prop :=
  '=' ∉ assignment.toList ∨ ∃ path value : String,
    assignment.toList = path.toList ++ '=' :: value.toList ∧ '=' ∉ path.toList ∧
    ('.' ∉ (Text.trim path).toList ∨ ∃ heading key : String,
      (Text.trim path).toList = heading.toList ++ '.' :: key.toList ∧ '.' ∉ heading.toList ∧
      (heading = "" ∨ key = ""))

variable {assignment heading key raw : String}

theorem splitAssignment?_eq_some_iff :
    splitAssignment? assignment = some (heading, key, raw) ↔ Names assignment heading key raw := by
  unfold splitAssignment? Names
  simp only [Option.bind_eq_bind, Option.bind_eq_some_iff, Prod.exists, Text.cut_eq_some_iff]
  constructor
  · rintro ⟨path, value, ⟨whole, first⟩, front, back, ⟨inner, dot⟩, given⟩
    split at given
    · cases given
    · rename_i present
      cases given
      exact ⟨path, value, whole, first, inner, dot, mt .inl present, mt .inr present, rfl⟩
  · rintro ⟨path, value, whole, first, inner, dot, headed, keyed, rfl⟩
    exact ⟨path, value, ⟨whole, first⟩, heading, key, ⟨inner, dot⟩, by simp [headed, keyed]⟩

theorem splitAssignment?_eq_none_iff :
    splitAssignment? assignment = none ↔ Malformed assignment := by
  have cuts : Malformed assignment ↔ Text.cut '=' assignment = none ∨
      ∃ path value, Text.cut '=' assignment = some (path, value) ∧
        (Text.cut '.' (Text.trim path) = none ∨ ∃ heading key,
          Text.cut '.' (Text.trim path) = some (heading, key) ∧ (heading = "" ∨ key = "")) := by
    simp only [Malformed, Text.cut_eq_none_iff, Text.cut_eq_some_iff, and_assoc]
  rw [cuts]
  unfold splitAssignment?
  rcases Text.cut '=' assignment with _ | ⟨path, value⟩
  · simp
  · rcases inner : Text.cut '.' (Text.trim path) with _ | ⟨heading, key⟩
    · simp [inner]
    · have given : (if heading = "" ∨ key = "" then none
          else some (heading, key, Text.trim value)) = none ↔ heading = "" ∨ key = "" := by
        split
        next missing => exact iff_of_true rfl missing
        next present => exact iff_of_false nofun present
      simp only [Option.bind_eq_bind, Option.bind_some, inner, given]
      constructor
      · exact fun missing => .inr ⟨path, value, rfl, .inr ⟨heading, key, inner, missing⟩⟩
      · rintro (⟨⟨⟩⟩ | ⟨_, _, same, uncut | ⟨_, _, cut, missing⟩⟩) <;> cases same
        · cases inner.symm.trans uncut
        · cases inner.symm.trans cut
          exact missing

theorem exists_names (proper : ¬ Malformed assignment) :
    ∃ heading key raw, Names assignment heading key raw := by
  obtain ⟨⟨heading, key, raw⟩, split⟩ :=
    Option.ne_none_iff_exists'.mp (mt splitAssignment?_eq_none_iff.mp proper)
  exact ⟨heading, key, raw, splitAssignment?_eq_some_iff.mp split⟩

theorem Names.unique {front back value : String} (one : Names assignment heading key raw)
    (other : Names assignment front back value) : front = heading ∧ back = key ∧ value = raw := by
  have split := splitAssignment?_eq_some_iff.mpr one
  rw [splitAssignment?_eq_some_iff.mpr other] at split
  simpa using split

theorem assign_of_malformed (malformed : Malformed assignment) (answers : Answers) :
    answers.assign assignment = .error (.malformed assignment) := by
  rw [assign, splitAssignment?_eq_none_iff.mpr malformed]

theorem assign_of_names (names : Names assignment heading key raw) (answers : Answers) :
    answers.assign assignment = .ok (answers.set heading key (valueOf raw)) := by
  rw [assign, splitAssignment?_eq_some_iff.mpr names]

/-! ## Recorded values -/

section

variable (answers : Answers) (heading key : String) (value : Toml.Value)

theorem sections_set (other : String) : (answers.set heading key value).sections.get? other =
    if other = heading then
      some (((answers.sections.get? heading).getD ∅).insert key value)
    else answers.sections.get? other :=
  NameMap.get?_insert answers.sections heading other _

theorem get?_set (other name : String) : (answers.set heading key value).get? other name =
    if other = heading ∧ name = key then some value else answers.get? other name := by
  unfold get?
  rw [sections_set]
  by_cases here : other = heading
  · subst here
    rw [if_pos rfl]
    show NameMap.get? _ name = _
    rw [NameMap.get?_insert]
    by_cases same : name = key
    · rw [if_pos same, if_pos ⟨rfl, same⟩]
    · rw [if_neg same, if_neg (mt And.right same)]
      cases answers.sections.get? other <;> rfl
  · rw [if_neg here, if_neg (mt And.left here)]

end

/-! ## Several texts -/

/-- How answers are related to those before some texts were recorded, each in turn. -/
structure Updates (assignments : List String) (old updated : Answers) : Prop where
  /-- Of several texts for a key the last one counts. -/
  last {before behind : List String} {text heading key raw : String} :
    assignments = before ++ text :: behind → Names text heading key raw →
    (∀ later ∈ behind, ∀ other, ¬ Names later heading key other) →
    updated.get? heading key = some (valueOf raw)
  other_key {heading key : String} :
    (∀ text ∈ assignments, ∀ raw, ¬ Names text heading key raw) →
    updated.get? heading key = old.get? heading key
  other_section {heading : String} :
    (∀ text ∈ assignments, ∀ key raw, ¬ Names text heading key raw) →
    updated.sections.get? heading = old.sections.get? heading

/-- What one text records is kept unless a later one is for the same key. -/
theorem Updates.cons {rest : List String} {old updated : Answers}
    (names : Names assignment heading key raw)
    (further : Updates rest (old.set heading key (valueOf raw)) updated) :
    Updates (assignment :: rest) old updated where
  last {before behind text front back value} split named later := by
    cases before with
    | nil =>
        obtain ⟨rfl, rfl⟩ := List.cons.inj split
        obtain ⟨rfl, rfl, rfl⟩ := names.unique named
        rw [further.other_key later, get?_set, if_pos ⟨rfl, rfl⟩]
    | cons first before => exact further.last (List.cons.inj split).2 named later
  other_key {front back} unnamed := by
    obtain ⟨here, others⟩ := List.forall_mem_cons.mp unnamed
    rw [further.other_key others, get?_set]
    refine if_neg ?_
    rintro ⟨rfl, rfl⟩
    exact here raw names
  other_section {front} unnamed := by
    obtain ⟨here, others⟩ := List.forall_mem_cons.mp unnamed
    rw [further.other_section others, sections_set]
    refine if_neg ?_
    rintro rfl
    exact here key raw names

variable {assignments before : List String}

/-- Texts behind a malformed one do not matter, nor what those in front of it would record. -/
theorem assignAll_of_malformed (proper : ∀ earlier ∈ before, ¬ Malformed earlier)
    (malformed : Malformed assignment) (answers : Answers) (behind : List String) :
    answers.assignAll (before ++ assignment :: behind) = .error (.malformed assignment) := by
  induction before generalizing answers with
  | nil =>
      show (answers.assign assignment >>= fun answers => answers.assignAll behind) = _
      rw [assign_of_malformed malformed]
      rfl
  | cons text rest ih =>
      obtain ⟨here, later⟩ := List.forall_mem_cons.mp proper
      obtain ⟨heading, key, raw, names⟩ := exists_names here
      show (answers.assign text >>= fun answers =>
        answers.assignAll (rest ++ assignment :: behind)) = _
      rw [assign_of_names names]
      exact ih later _

theorem exists_assignAll (proper : ∀ text ∈ assignments, ¬ Malformed text) (answers : Answers) :
    ∃ updated, answers.assignAll assignments = .ok updated ∧
      Updates assignments answers updated := by
  induction assignments generalizing answers with
  | nil => exact ⟨answers, rfl, by simp, fun _ => rfl, fun _ => rfl⟩
  | cons text rest ih =>
      obtain ⟨here, later⟩ := List.forall_mem_cons.mp proper
      obtain ⟨heading, key, raw, names⟩ := exists_names here
      obtain ⟨updated, assigned, further⟩ := ih later (answers.set heading key (valueOf raw))
      refine ⟨updated, ?_, further.cons names⟩
      show (answers.assign text >>= fun answers => answers.assignAll rest) = _
      rw [assign_of_names names]
      exact assigned

end Answers

/-! ## The command -/

namespace Upgrade.Machine

open Answers Files

variable {machine : Machine} {settings : Settings} {old : Answers}

/--
Either all texts are recorded or none. If one of them is malformed the command fails for the first
that is, and no file is changed. Otherwise what it writes is what was kept before, with the texts
recorded one after the other; and if that cannot be written, again no file is changed.
-/
theorem records_all_or_nothing (loaded : Answers.load machine.tree settings.answersPath = .ok old)
    (supply : Supply) (assignments : List String) :
    let ended := machine.obey settings supply (.answer assignments)
    (∀ before text behind, assignments = before ++ text :: behind →
      (∀ earlier ∈ before, ¬ Malformed earlier) → Malformed text →
      machine.recordAnswers settings assignments = .error (.malformed text) ∧
        ended = (.ofError (.answers (.malformed text)), machine.tree)) ∧
    ((∀ text ∈ assignments, ¬ Malformed text) → ∃ updated,
      Updates assignments old updated ∧
      machine.recordAnswers settings assignments =
        updated.save machine.tree settings.answersPath ∧
      (∀ tree, updated.save machine.tree settings.answersPath = .ok tree →
        ended.1.code = 0 ∧ ended.2 = tree ∧
          tree.read (Path.ofText settings.answersPath) = .ok updated.text.toUTF8) ∧
      ∀ error, updated.save machine.tree settings.answersPath = .error error →
        ended = (.ofError (.answers error), machine.tree)) := by
  intro ended
  have records : machine.recordAnswers settings assignments =
      (old.assignAll assignments >>= fun updated =>
        updated.save machine.tree settings.answersPath) := by
    unfold recordAnswers
    rw [loaded]
    rfl
  constructor
  · rintro before text behind rfl proper malformed
    have failed : machine.recordAnswers settings (before ++ text :: behind) =
        .error (.malformed text) := by
      rw [records, assignAll_of_malformed proper malformed]
      rfl
    refine ⟨failed, ?_⟩
    simp only [ended, obey, failed]
  · intro proper
    obtain ⟨updated, assigned, updates⟩ := exists_assignAll proper old
    have saves : machine.recordAnswers settings assignments =
        updated.save machine.tree settings.answersPath := by
      rw [records, assigned]
      rfl
    refine ⟨updated, updates, saves, fun tree saved => ?_, fun error failed => ?_⟩
    · have there := Tree.find_write (Except.eq_ok_of_mapError saved)
      simp only [ended, obey, saves, saved, Tree.read_of_file there, and_self]
    · simp only [ended, obey, saves, failed]

/-- A text without a key keeps those around it out; without it the later one for a key counts. -/
theorem records_nothing_beside_malformed :
    let machine : Machine := ⟨.empty, [], "x86_64"⟩
    let supply : Supply := ⟨fun _ => .epoch, fun _ => default, default⟩
    machine.obey .shipped supply (.answer ["net.delay=3", "net. =4", "net.delay=5"]) =
      (.ofError (.answers (.malformed "net. =4")), .empty) ∧
    ∃ updated : Answers, machine.recordAnswers .shipped ["net.delay=3", "net.delay=5"] =
        updated.save .empty Settings.shipped.answersPath ∧
      updated.get? "net" "delay" = some (valueOf "5") := by
  intro machine supply
  have loaded : Answers.load machine.tree Settings.shipped.answersPath = .ok .empty := rfl
  have last : Names "net.delay=5" "net" "delay" "5" := splitAssignment?_eq_some_iff.mp (by decide)
  have proper : ∀ text ∈ ["net.delay=3", "net.delay=5"], ¬ Malformed text := by
    simp only [← splitAssignment?_eq_none_iff]
    decide
  have malformed : Malformed "net. =4" := splitAssignment?_eq_none_iff.mp (by decide)
  constructor
  · obtain ⟨refused, _⟩ := records_all_or_nothing loaded supply
      ["net.delay=3", "net. =4", "net.delay=5"]
    refine (refused ["net.delay=3"] _ _ rfl (fun text mem => ?_) malformed).2
    exact proper text (List.mem_singleton.mp mem ▸ List.mem_cons_self)
  · obtain ⟨_, recorded⟩ := records_all_or_nothing loaded supply ["net.delay=3", "net.delay=5"]
    obtain ⟨updated, updates, saves, _⟩ := recorded proper
    have split : ["net.delay=3", "net.delay=5"] = ["net.delay=3"] ++ "net.delay=5" :: [] := rfl
    exact ⟨updated, saves, updates.last split last nofun⟩

end Upgrade.Machine

end PhasedUpgrade
