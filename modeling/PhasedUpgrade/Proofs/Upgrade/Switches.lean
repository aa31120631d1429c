import PhasedUpgrade.Proofs.Run.Snapshot
import PhasedUpgrade.Proofs.Upgrade.Configuration
import PhasedUpgrade.Proofs.Upgrade.Outcome

/-!
# Switches of an upgrade

What an upgrade is asked for on the command line holds behind every reboot: the switches are
captured as variables with the execution that is begun, and whoever resumes it sets them again
first.
-/

namespace PhasedUpgrade

/-! ## Captured variables -/

namespace Environment

theorem get?_capture (bindings : List (String × String)) (name : String) :
    (capture bindings).get? name =
      if isCaptured name = true then bindings.reverse.lookup name else none := by
  have nothing : (NameMap.empty : NameMap String).get? name = none := rfl
  rw [capture, NameMap.ofList, NameMap.get?_insertAll, ← List.filter_reverse, lookup_filter,
    nothing, Option.or_none]

theorem Renamed.kept {table : List (String × String)} {env later : NameMap String}
    (renamed : Renamed table env later) {name value : String}
    (current : ∀ entry ∈ table, name ≠ entry.1) (held : env.get? name = some value) :
    later.get? name = some value := by
  by_cases replaces : ∃ entry ∈ table, name = entry.2
  · obtain ⟨entry, among, rfl⟩ := replaces
    rw [renamed.new entry among, held, Option.some_or]
  · have apart : ∀ entry ∈ table, name ≠ entry.1 ∧ name ≠ entry.2 := fun entry among =>
      ⟨current entry among, fun same => replaces ⟨entry, among, same⟩⟩
    rw [renamed.other name apart, held]

end Environment

namespace Upgrade

variable {machine : Machine} {settings : Settings} {arguments : Arguments}
  {configuration : Configuration}

/-! ## What the arguments imply -/

theorem Arguments.implied_names (arguments : Arguments) :
    (arguments.impliedVariables.map Prod.fst).Sublist
      ["IPU_DEBUG", "IPU_VERBOSE", "IPU_NO_RHSM", "IPU_ENABLE_REPOS", "IPU_TARGET_VERSION"] := by
  have switch (on : Bool) (name value : String) :
      ((if on then [(name, value)] else []).map Prod.fst).Sublist [name] := by
    cases on <;> simp
  have repositories (off : Bool) (name value : String) :
      ((if off then [] else [(name, value)]).map Prod.fst).Sublist [name] := by
    cases off <;> simp
  have target : ((arguments.target.map fun target =>
      ("IPU_TARGET_VERSION", target)).toList.map Prod.fst).Sublist ["IPU_TARGET_VERSION"] := by
    cases arguments.target <;> simp
  simp only [impliedVariables, List.map_append]
  exact ((((switch _ _ _).append (switch _ _ _)).append (switch _ _ _)).append
    (repositories _ _ _)).append target

/-- What the arguments imply is implied once, is captured, and goes by names that are in use. -/
theorem Arguments.implied_spec {arguments : Arguments} {pair : String × String}
    (mem : pair ∈ arguments.impliedVariables) :
    Environment.isCaptured pair.1 = true ∧ (∀ rename ∈ Environment.renames, pair.1 ≠ rename.1) ∧
      ∀ other ∈ arguments.impliedVariables, other.1 = pair.1 → other.2 = pair.2 := by
  have names := arguments.implied_names
  have among := names.subset (List.mem_map_of_mem mem)
  have all : ∀ name ∈ ["IPU_DEBUG", "IPU_VERBOSE", "IPU_NO_RHSM", "IPU_ENABLE_REPOS",
      "IPU_TARGET_VERSION"], Environment.isCaptured name = true ∧
        ∀ rename ∈ Environment.renames, name ≠ rename.1 := by
    decide
  have once : (arguments.impliedVariables.map Prod.fst).Nodup := names.nodup (by decide)
  refine ⟨(all _ among).1, (all _ among).2, fun other there same => ?_⟩
  rw [List.inj_on_of_nodup_map once there mem same]

theorem Arguments.target_of_implied {pair : String × String}
    (mem : pair ∈ arguments.impliedVariables) (named : pair.1 = "IPU_TARGET_VERSION") :
    arguments.target = some pair.2 := by
  simp only [impliedVariables, List.mem_append, Option.mem_toList, Option.map_eq_some_iff] at mem
  rcases mem with (((debug | verbose) | skip) | repositories) | ⟨target, asked, rfl⟩
  · split at debug <;> simp_all
  · split at verbose <;> simp_all
  · split at skip <;> simp_all
  · split at repositories <;> simp_all
  · exact asked

theorem Settings.targetFor_eq_ok {source target : String} {requested : Option String}
    (h : settings.targetFor source requested = .ok target) :
    (requested <|> settings.defaultTargets.get? source) = some target := by
  unfold targetFor at h
  split at h
  · cases h
    assumption
  · cases h

/-! ## What is captured with an execution -/

/--
What the configuration of a new execution has to say of what was asked for: which variables go with
it, and where its versions come from.
-/
structure Machine.Captures (machine : Machine) (settings : Settings) (arguments : Arguments)
    (configuration : Configuration) : Prop where
  names : ∀ name, configuration.env.contains name = true → Environment.isCaptured name = true
  source : (machine.release settings.releasePath).map Release.version =
    .ok configuration.sourceVersion
  /-- Arguments go before variables, of which the last counts, and these before the settings. -/
  target : (arguments.target <|> machine.environment.reverse.lookup "IPU_TARGET_VERSION" <|>
    settings.defaultTargets.get? configuration.sourceVersion) = some configuration.targetVersion
  target_bound : configuration.env.get? "IPU_TARGET_VERSION" = some configuration.targetVersion
  implied : ∀ pair ∈ arguments.impliedVariables, configuration.env.get? pair.1 = some pair.2
  other : ∀ name, Environment.isCaptured name = true → name ≠ "IPU_TARGET_VERSION" →
    (∀ pair ∈ arguments.impliedVariables, pair.1 ≠ name) →
    configuration.env.get? name = machine.environment.reverse.lookup name

namespace Machine

/-- Of two bindings that arguments imply none is for the same name, so each is kept. -/
theorem get?_implied {pair : String × String} (mem : pair ∈ arguments.impliedVariables)
    (env : NameMap String) :
    (env.insertAll arguments.impliedVariables).get? pair.1 = some pair.2 :=
  NameMap.get?_insertAll_of_mem mem (Arguments.implied_spec mem).2.2 env

theorem get?_target (machine : Machine) (arguments : Arguments) :
    ((Environment.capture machine.environment).insertAll arguments.impliedVariables).get?
        "IPU_TARGET_VERSION" =
      (arguments.target <|> machine.environment.reverse.lookup "IPU_TARGET_VERSION") := by
  cases asked : arguments.target with
  | some target =>
      have mem : ("IPU_TARGET_VERSION", target) ∈ arguments.impliedVariables := by
        simp [Arguments.impliedVariables, asked]
      exact get?_implied mem _
  | none =>
      have apart : ∀ pair ∈ arguments.impliedVariables, pair.1 ≠ "IPU_TARGET_VERSION" := by
        intro pair mem named
        rw [Arguments.target_of_implied mem named] at asked
        cases asked
      rw [NameMap.get?_insertAll_of_ne apart, Environment.get?_capture, if_pos (by decide)]
      rfl

theorem captures (h : machine.configuration settings arguments = .ok configuration) :
    machine.Captures settings arguments configuration := by
  unfold Machine.configuration at h
  obtain ⟨release, released, h⟩ := Except.exists_of_bind_eq_ok h
  obtain ⟨target, chosen, h⟩ := Except.exists_of_bind_eq_ok h
  have decided := Settings.targetFor_eq_ok chosen
  rw [get?_target] at decided
  cases h
  have found := NameMap.get?_insert ((Environment.capture machine.environment).insertAll
    arguments.impliedVariables) "IPU_TARGET_VERSION"
  refine { names := ?_, source := ?_, target := ?_, target_bound := ?_, implied := ?_, other := ?_ }
  · intro name held
    by_contra other
    have apart : ∀ pair ∈ arguments.impliedVariables, pair.1 ≠ name := fun pair mem same =>
      other (same ▸ (Arguments.implied_spec mem).1)
    have unnamed : name ≠ "IPU_TARGET_VERSION" := by
      rintro rfl
      exact other (by decide)
    rw [NameMap.contains, show NameMap.get? _ name = _ from found _ _, if_neg unnamed,
      NameMap.get?_insertAll_of_ne apart, Environment.get?_capture, if_neg other] at held
    cases held
  · simp only [released, Except.map]
  · cases asked : arguments.target <;> simpa [asked] using decided
  · exact (found _ _).trans (if_pos rfl)
  · intro pair mem
    by_cases named : pair.1 = "IPU_TARGET_VERSION"
    · have asked := Arguments.target_of_implied mem named
      rw [asked] at decided
      exact ((found _ _).trans (if_pos named)).trans decided.symm
    · exact ((found _ _).trans (if_neg named)).trans (get?_implied mem _)
  · intro name captured other apart
    rw [show NameMap.get? _ name = _ from found _ _, if_neg other,
      NameMap.get?_insertAll_of_ne apart,
      Environment.get?_capture, if_pos captured]

/-! ## What is set on a resume -/

/-- What is to be set of a captured configuration holds all that was asked for. -/
theorem restores_asked (captures : machine.Captures settings arguments configuration) :
    let restored := Environment.restorable configuration.env
    (∀ pair ∈ arguments.impliedVariables, pair ∈ restored.entries) ∧
      ("IPU_TARGET_VERSION", configuration.targetVersion) ∈ restored.entries := by
  intro restored
  have renamed := Environment.renamed_restorable configuration.env
  refine ⟨fun pair mem => ?_, ?_⟩
  · have current := (Arguments.implied_spec mem).2.1
    exact NameMap.get?_eq_some_iff.mp (renamed.kept current (captures.implied pair mem))
  · have current : ∀ rename ∈ Environment.renames, "IPU_TARGET_VERSION" ≠ rename.1 := by decide
    exact NameMap.get?_eq_some_iff.mp (renamed.kept current captures.target_bound)

/--
The switches of an upgrade survive the reboot. They are captured with the configuration of its
execution, along with all other variables that are to be captured. Whatever calls have come since,
each one that resumes the execution first sets what was captured, every variable once and under the
name that is in use, and then nothing more. A call that begins an execution sets nothing.
-/
theorem switches_survive (h : machine.configuration settings arguments = .ok configuration) :
    let restored := Environment.restorable configuration.env
    machine.Captures settings arguments configuration ∧
    Environment.Renamed Environment.renames configuration.env restored ∧
    restored.keys.Nodup ∧
    (∀ pair ∈ arguments.impliedVariables, pair ∈ restored.entries) ∧
    ("IPU_TARGET_VERSION", configuration.targetVersion) ∈ restored.entries ∧
    ∀ (workflow : Workflow) {σ : Type} [LawfulStore σ] {episodes : List Episode} {store : σ},
      History workflow episodes store → ∀ call : Call,
      (∀ kind other, call.request = .fresh kind other →
        (call.make workflow store).1.steps.filterMap RunStep.binding? = []) ∧
      ∀ begun ∈ episodes, ∀ id, begun.Begins id configuration →
      ∀ kind asked, call.request = .resume kind asked →
      ∀ (entry : Entry) (account : Account RunResult),
        ((call.setting workflow).entry call.supply call.request store).1 = .ok entry →
        entry.execution.id = id →
        (call.setting workflow).account call.supply call.options call.answers entry =
          .ok account →
        call.survives (Course.setting restored.entries) = true →
        ∃ later, (call.make workflow store).1.steps =
            Course.setting restored.entries ++ later ∧
          later.filterMap RunStep.binding? = [] := by
  intro restored
  have captured := captures h
  obtain ⟨implied, target⟩ := restores_asked captured
  refine ⟨captured, Environment.renamed_restorable _, restored.nodup_keys, implied, target, ?_⟩
  intro workflow σ _ episodes store history call
  refine ⟨fun kind other fresh => Call.make_sets_nothing fresh workflow store, ?_⟩
  intro begun among id begins kind asked resumes entry account entered named planned lives
  exact history.restores among begins resumes entered named planned lives

/--
A switch that is set is set again behind the reboot, whatever the old name of its variable says.
-/
theorem switches_survive_beside_old_name :
    let machine := { withoutRepositories with
      environment := [("PATH", "/bin"), ("IPU_DEVEL_SKIP_RHSM", "0")] }
    let arguments := { Arguments.plain with skipSubscription := true }
    let captured := [("IPU_DEVEL_SKIP_RHSM", "0"), ("IPU_NO_RHSM", "1"),
      ("IPU_TARGET_VERSION", "9.6")]
    let configuration : Configuration :=
      ⟨"8.10", "9.6", "x86_64", arguments.flags, .ofList captured⟩
    let idle : View → Task Unit := fun _ => pure ()
    let first := (Call.probing idle (.fresh .upgrade configuration) none).make .rebooting
      MemoryStore.empty
    let second := (Call.probing idle (.resume .upgrade none) none).make .rebooting first.2
    machine.configuration .shipped arguments = .ok configuration ∧
    ∃ later, second.1.steps =
        [.setVariable "IPU_NO_RHSM" "1", .setVariable "IPU_TARGET_VERSION" "9.6"] ++ later ∧
      later.filterMap RunStep.binding? = [] := by
  intro machine arguments captured configuration idle first second
  let resume : Call := .probing idle (.resume .upgrade none) none
  let entering := (resume.setting .rebooting).entry resume.supply resume.request first.2
  have ended : (second.1.result.bind Except.toOption).isSome = true := by decide +revert
  have own : entering.1.toOption.map (fun entry => entry.execution.id) = some default := by
    decide +revert
  have some : (RunStep.versions default first.1.steps).isEmpty = false := by decide +revert
  have set : (Environment.restorable configuration.env).entries =
      [("IPU_NO_RHSM", "1"), ("IPU_TARGET_VERSION", "9.6")] := by decide +revert
  have snapshot : machine.configuration .shipped arguments = .ok configuration := by
    unfold Machine.configuration
    rw [show machine.release Settings.shipped.releasePath = _ from release_withoutRepositories]
    rfl
  have begun : History .rebooting [first.1] first.2 :=
    (History.empty rfl).call _ (Call.namesNew_empty _)
  have made : first = (Call.probing idle (.fresh .upgrade configuration) none).make .rebooting
      MemoryStore.empty := rfl
  clear_value first
  have begins : first.1.Begins default configuration := by
    obtain ⟨version, mem⟩ := List.isEmpty_eq_false_iff_exists_mem.mp some
    have written := RunStep.mem_of_mem_versions mem
    rw [made] at written ⊢
    exact Call.begins rfl written
  obtain ⟨_, _, _, _, _, survive⟩ := switches_survive snapshot
  obtain ⟨_, resumed⟩ := survive .rebooting begun resume
  rw [set] at resumed
  refine ⟨snapshot, ?_⟩
  rcases resume.make_eq .rebooting first.2 with
    ⟨error, out, _⟩ | ⟨entry, account, after, entered, planned, _⟩
  · rw [show second.1 = _ from congrArg Prod.fst out] at ended
    cases ended
  · have entered : entering.1 = .ok entry := congrArg Prod.fst entered
    rw [entered] at own
    exact resumed first.1 List.mem_cons_self default begins .upgrade none rfl entry account entered
      (Option.some.inj own) planned rfl

end Machine

end Upgrade

end PhasedUpgrade
