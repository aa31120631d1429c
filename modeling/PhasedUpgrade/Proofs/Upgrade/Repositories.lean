import PhasedUpgrade.Proofs.Upgrade.Outcome

/-!
# Enabled repositories

What an upgrade is told to enable is kept twice: as it was asked for, and as one text with a comma
between two of them, for the time after a reboot. Who resolves the upgrade reads both. What was
asked for comes first, whole and in its order; behind it come the items of its texts that are not
asked for themselves, of which there are none unless a text has a comma or blanks around it.
-/

namespace PhasedUpgrade

/-! ## Lists in one text -/

namespace Text

theorem piecesOfChars_append (separator : Char) (first second : List Char) :
    piecesOfChars separator (first ++ separator :: second) =
      piecesOfChars separator first ++ piecesOfChars separator second := by
  induction first with
  | nil => simp [piecesOfChars]
  | cons c rest ih =>
      rw [List.cons_append, piecesOfChars, piecesOfChars, ih]
      split
      · rfl
      · cases pieces : piecesOfChars separator rest with
        | nil => exact absurd pieces (piecesOfChars_ne_nil separator rest)
        | cons piece others => rfl

theorem piecesOfChars_eq_singleton {separator : Char} {chars : List Char}
    (none : separator ∉ chars) : piecesOfChars separator chars = [chars] := by
  induction chars with
  | nil => rfl
  | cons c rest ih =>
      have other : c ≠ separator := fun same => none (same ▸ List.mem_cons_self)
      rw [piecesOfChars, if_neg other, ih fun mem => none (List.mem_cons_of_mem c mem)]

theorem pieces_comma_append (first second : String) :
    pieces ',' (first ++ "," ++ second) = pieces ',' first ++ pieces ',' second := by
  have chars : (first ++ "," ++ second).toList = first.toList ++ ',' :: second.toList := by simp
  rw [pieces, chars, piecesOfChars_append, List.map_append]
  rfl

theorem commaItems_intercalate {texts : List String} (some : texts ≠ []) :
    commaItems (",".intercalate texts) = texts.flatMap commaItems := by
  induction texts with
  | nil => exact absurd rfl some
  | cons text rest ih =>
      cases rest with
      | nil => simp
      | cons next more =>
          have others := ih (List.cons_ne_nil next more)
          rw [List.flatMap_cons, ← others, String.intercalate_cons_cons]
          simp only [commaItems, pieces_comma_append, List.map_append, List.filter_append]

theorem commaItems_of_plain {text : String} (comma : ',' ∉ text.toList)
    (trimmed : trim text = text) : ∀ item ∈ commaItems text, item = text := by
  intro item mem
  have one : pieces ',' text = [text] := by
    rw [pieces, piecesOfChars_eq_singleton comma]
    simp
  rw [commaItems, one, List.map_singleton, trimmed] at mem
  exact List.mem_singleton.mp (List.mem_of_mem_filter mem)

end Text

namespace Upgrade

/-- A list is completed by what it does not have, in its order and each of it once. -/
theorem addMissing_spec (repositories more : List String) :
    ∃ added, addMissing repositories more = repositories ++ added ∧ added.Nodup ∧
      added.Sublist more ∧ ∀ name, name ∈ added ↔ name ∉ repositories ∧ name ∈ more := by
  unfold addMissing
  induction more generalizing repositories with
  | nil => exact ⟨[], by simp⟩
  | cons name rest ih =>
      rw [List.foldl_cons]
      by_cases known : repositories.contains name = true
      · obtain ⟨added, whole, distinct, sub, each⟩ := ih repositories
        rw [if_pos known]
        have mem : name ∈ repositories := by simpa using known
        refine ⟨added, whole, distinct, sub.cons name, fun other => ?_⟩
        rw [each, List.mem_cons]
        constructor
        · exact fun ⟨missing, later⟩ => ⟨missing, .inr later⟩
        · rintro ⟨missing, rfl | later⟩
          · exact absurd mem missing
          · exact ⟨missing, later⟩
      · obtain ⟨added, whole, distinct, sub, each⟩ := ih (repositories ++ [name])
        rw [if_neg known]
        have missing : name ∉ repositories := by simpa using known
        have apart : name ∉ added := fun mem => by simpa using ((each name).mp mem).1
        refine ⟨name :: added, by rw [whole, List.append_assoc]; rfl,
          List.nodup_cons.mpr ⟨apart, distinct⟩, sub.cons_cons name, fun other => ?_⟩
        rw [List.mem_cons, List.mem_cons, each]
        by_cases same : other = name
        · simp [same, missing]
        · simp [same]

theorem addMissing_eq_self_iff {repositories more : List String} :
    addMissing repositories more = repositories ↔ ∀ name ∈ more, name ∈ repositories := by
  obtain ⟨added, whole, _, _, each⟩ := addMissing_spec repositories more
  rw [whole, List.append_right_eq_self]
  constructor
  · rintro rfl name mem
    by_contra missing
    exact List.not_mem_nil ((each name).mpr ⟨missing, mem⟩)
  · intro known
    refine List.eq_nil_iff_forall_not_mem.mpr fun name mem => ?_
    obtain ⟨missing, further⟩ := (each name).mp mem
    exact missing (known name further)

end Upgrade

/-! ## Lists among the variables -/

namespace Upgrade

/-- Arguments that enable repositories bind the variable for them to nothing but their list. -/
theorem Arguments.implied_repositories {arguments : Arguments}
    (asked : arguments.enabledRepositories ≠ []) :
    let text := ",".intercalate arguments.enabledRepositories
    ("IPU_ENABLE_REPOS", text) ∈ arguments.impliedVariables ∧
      ∀ pair ∈ arguments.impliedVariables, pair.1 = "IPU_ENABLE_REPOS" → pair.2 = text := by
  have some : arguments.enabledRepositories.isEmpty = false := by simpa using asked
  refine ⟨by simp [impliedVariables, some], fun pair mem named => ?_⟩
  simp only [impliedVariables, List.mem_append, Option.mem_toList, Option.map_eq_some_iff] at mem
  rcases mem with (((debug | verbose) | skip) | repositories) | ⟨target, _, rfl⟩
  · split at debug <;> simp_all
  · split at verbose <;> simp_all
  · split at skip <;> simp_all
  · rw [some, if_neg Bool.false_ne_true, List.mem_singleton] at repositories
    rw [repositories]
  · have other : "IPU_TARGET_VERSION" ≠ "IPU_ENABLE_REPOS" := by decide
    exact absurd named other

variable {machine : Machine} {settings : Settings} {arguments : Arguments}
  {configuration : Configuration}

theorem Machine.env_asked (h : machine.configuration settings arguments = .ok configuration)
    (asked : arguments.enabledRepositories ≠ []) :
    configuration.env.get? "IPU_ENABLE_REPOS" =
      some (",".intercalate arguments.enabledRepositories) := by
  obtain ⟨mem, only⟩ := Arguments.implied_repositories asked
  rw [(Machine.configuration_eq_ok h).2.2, NameMap.get?_insert, if_neg (by decide)]
  exact NameMap.get?_insertAll_of_mem mem only _

/-- What is enabled in the end: what was asked for, and the items of its texts that are not. -/
theorem Machine.enabledRepositories_factsOf
    (h : machine.configuration settings arguments = .ok configuration)
    (asked : arguments.enabledRepositories ≠ []) :
    (factsOf configuration).enabledRepositories = addMissing arguments.enabledRepositories
      (arguments.enabledRepositories.flatMap Text.commaItems) := by
  have kept : configuration.flags.enabledRepositories = arguments.enabledRepositories := by
    rw [(Machine.configuration_eq_ok h).2.1]
    rfl
  show addMissing configuration.flags.enabledRepositories
    (((configuration.env.get? "IPU_ENABLE_REPOS").map Text.commaItems).getD []) = _
  rw [kept, Machine.env_asked h asked, Option.map_some, Text.commaItems_intercalate asked]
  rfl

/-! ## What is told of it -/

/-- Who resolves an upgrade tells of its facts, in one message, on every bus that knows of facts. -/
theorem factsActor_tells (supply : Supply) (execution : Execution) (phase : String)
    {bench : Workbench}
    (known : bench.bus.catalog.get? Facts.model.name = some Facts.model.schema) :
    (Visit.make supply execution phase factsActor bench).1.result = .completed ∧
      ∃ message, (Visit.make supply execution phase factsActor bench).1.produced = [message] ∧
        message.typeName = Facts.model.name ∧
        message.payload = Facts.model.encode (factsOf execution.configuration) := by
  let contract := factsActor.toContract
  let draft := Facts.model.draft (factsOf execution.configuration)
  have gives : (Task.produceModel Facts.model (factsOf execution.configuration)).Gives contract
      (fun bus => bus = bench.bus) fun _ bus =>
        ∃ phase time, bus = bench.bus.told contract phase draft time := by
    refine Task.gives_produceModel (by decide) (Facts.conveys _) ?_ ?_
    · rintro bus rfl
      exact known
    · rintro bus phase time rfl
      exact ⟨phase, time, rfl⟩
  -- The entries of the trail around the turn leave the bus alone.
  obtain ⟨_, ended, stamp, time, left⟩ := gives supply phase
    (bench.record supply (Visit.entry execution phase factsActor.name "actor_started" "")) rfl
  have log := (Visit.make_spec supply execution phase factsActor bench).2.1.log_eq
  refine ⟨congrArg ActorResult.ofEnd ended, bench.bus.stamp contract stamp draft time, ?_, rfl, rfl⟩
  have whole : (Visit.make supply execution phase factsActor bench).2.bus.log =
      bench.bus.log ++ [bench.bus.stamp contract stamp draft time] :=
    congrArg Bus.log left
  exact List.append_cancel_left (log.symm.trans whole)

/--
Repositories that are asked for are enabled in front of all others, whole and in their order. What
is enabled besides are the items between the commas of their texts that are not asked for
themselves, each once. So nothing but what was asked for is enabled exactly if every item of a text
is one of the texts, as it is where no text has a comma or blanks around it.
-/
theorem Machine.enables_asked (h : machine.configuration settings arguments = .ok configuration)
    (asked : arguments.enabledRepositories ≠ []) (supply : Supply) (execution : Execution)
    (configured : execution.configuration = configuration) (phase : String) {bench : Workbench}
    (known : bench.bus.catalog.get? Facts.model.name = some Facts.model.schema) :
    let turn := (Visit.make supply execution phase factsActor bench).1
    turn.result = .completed ∧ ∃ message facts added, turn.produced = [message] ∧
      message.typeName = Facts.model.name ∧ message.payload = Facts.model.encode facts ∧
      facts.enabledRepositories = arguments.enabledRepositories ++ added ∧
      added.Nodup ∧
      added.Sublist (arguments.enabledRepositories.flatMap Text.commaItems) ∧
      (∀ name, name ∈ added ↔ name ∉ arguments.enabledRepositories ∧
        ∃ text ∈ arguments.enabledRepositories, name ∈ Text.commaItems text) ∧
      (facts.enabledRepositories = arguments.enabledRepositories ↔
        ∀ text ∈ arguments.enabledRepositories, ∀ item ∈ Text.commaItems text,
          item ∈ arguments.enabledRepositories) ∧
      ((∀ text ∈ arguments.enabledRepositories, ',' ∉ text.toList ∧ Text.trim text = text) →
        facts.enabledRepositories = arguments.enabledRepositories) := by
  intro turn
  obtain ⟨result, message, produced, typed, payload⟩ :=
    factsActor_tells supply execution phase known
  rw [configured] at payload
  obtain ⟨added, whole, distinct, sub, each⟩ := addMissing_spec arguments.enabledRepositories
    (arguments.enabledRepositories.flatMap Text.commaItems)
  rw [← Machine.enabledRepositories_factsOf h asked] at whole
  have same : (factsOf configuration).enabledRepositories = arguments.enabledRepositories ↔
      ∀ text ∈ arguments.enabledRepositories, ∀ item ∈ Text.commaItems text,
        item ∈ arguments.enabledRepositories := by
    rw [Machine.enabledRepositories_factsOf h asked, addMissing_eq_self_iff,
      List.forall_mem_flatMap]
  refine ⟨result, message, factsOf configuration, added, produced, typed, payload, whole, distinct,
    sub, fun name => ?_, same, fun plain => ?_⟩
  · rw [each, List.mem_flatMap]
  · refine same.mpr fun text mem item among => ?_
    obtain ⟨comma, trimmed⟩ := plain text mem
    rw [Text.commaItems_of_plain comma trimmed item among]
    exact mem

def Arguments.enabling (repositories : List String) : Arguments :=
  { Arguments.plain with enabledRepositories := repositories }

namespace Machine

theorem exists_configuration {release : Release} {target : String}
    (released : machine.release settings.releasePath = .ok release)
    (default : settings.defaultTargets.get? release.version = some target)
    (arguments : Arguments) :
    ∃ configuration, machine.configuration settings arguments = .ok configuration := by
  have chosen (requested : Option String) :
      ∃ target, settings.targetFor release.version requested = .ok target := by
    unfold Settings.targetFor
    rw [default]
    cases requested <;> exact ⟨_, rfl⟩
  obtain ⟨found, same⟩ := chosen (arguments.target <|>
    ((Environment.capture machine.environment).insertAll arguments.impliedVariables).get?
      "IPU_TARGET_VERSION")
  unfold Machine.configuration
  rw [released]
  simp only [bind, Except.bind, same]
  exact ⟨_, rfl⟩

def freshBench : Workbench :=
  ⟨⟨catalog.toOption.getD .builtin, []⟩, .empty, [], 0⟩

theorem known_freshBench :
    freshBench.bus.catalog.get? Facts.model.name = some Facts.model.schema :=
  rfl

/-- Repositories with plain names are enabled just as they were asked for. -/
theorem enables_asked_plain :
    let supply : Supply := ⟨fun _ => .epoch, fun _ => default, default⟩
    ∃ configuration,
      withoutRepositories.configuration .shipped (.enabling ["extras", "crb"]) =
        .ok configuration ∧
      ∃ facts, (Visit.make supply (.create default .upgrade "" configuration .epoch) "" factsActor
          freshBench).1.produced.map Message.payload = [Facts.model.encode facts] ∧
        facts.enabledRepositories = ["extras", "crb"] := by
  intro supply
  obtain ⟨configuration, snapshot⟩ :=
    exists_configuration release_withoutRepositories rfl (.enabling ["extras", "crb"])
  obtain ⟨_, message, facts, _, produced, _, payload, _, _, _, _, _, plain⟩ :=
    enables_asked snapshot (List.cons_ne_nil _ _) supply
      (.create default .upgrade "" configuration .epoch) rfl "" known_freshBench
  refine ⟨configuration, snapshot, facts, ?_, plain (by decide)⟩
  rw [produced, List.map_singleton, payload]

/-- A repository whose name has a comma is enabled as it is, and so are both parts of its name. -/
theorem enables_parts_of_asked :
    let supply : Supply := ⟨fun _ => .epoch, fun _ => default, default⟩
    ∃ configuration,
      withoutRepositories.configuration .shipped (.enabling ["a,b"]) = .ok configuration ∧
      ∃ facts, (Visit.make supply (.create default .upgrade "" configuration .epoch) "" factsActor
          freshBench).1.produced.map Message.payload = [Facts.model.encode facts] ∧
        facts.enabledRepositories = ["a,b", "a", "b"] ∧
        facts.enabledRepositories ≠ ["a,b"] := by
  intro supply
  obtain ⟨configuration, snapshot⟩ :=
    exists_configuration release_withoutRepositories rfl (.enabling ["a,b"])
  obtain ⟨_, message, produced, _, payload⟩ := factsActor_tells supply
    (.create default .upgrade "" configuration .epoch) "" known_freshBench
  have enabled := enabledRepositories_factsOf snapshot (List.cons_ne_nil _ _)
  have parts : addMissing ["a,b"] (["a,b"].flatMap Text.commaItems) = ["a,b", "a", "b"] := by
    decide
  refine ⟨configuration, snapshot, factsOf configuration, ?_, enabled.trans parts, ?_⟩
  · rw [produced, List.map_singleton, payload]
    rfl
  · rw [enabled.trans parts]
    decide

end Machine

end Upgrade

end PhasedUpgrade
