import PhasedUpgrade.Proofs.Dispatch.Reading
import PhasedUpgrade.Proofs.Dispatch.Selection

/-!
# What consumers are provided with

Whoever comes behind an actor in a plan does not feed it, and an actor cannot produce what it has
not declared. So when an actor starts, all messages of the types that it consumes are on the bus,
but for those that it will produce itself.
-/

namespace PhasedUpgrade

namespace Visit

variable {supply : Supply} {execution : Execution} {phase : String}
  {goesOn : ActorResult → Bool} {actor : Actor} {actors : List Actor} {bench : Workbench}
  {before behind : List Visit} {turn : Visit}

/-- A request in a turn divides what is produced in it into the messages before and behind it. -/
theorem readings_spec {reading : Program.Reading}
    (mem : reading ∈ readings supply execution phase actor bench) :
    reading.bus.consume actor.toContract reading.typeName = .ok reading.messages ∧
      ∃ early late, (make supply execution phase actor bench).1.produced = early ++ late ∧
        reading.bus.log = bench.bus.log ++ early := by
  obtain ⟨among, granted⟩ := Program.readings_spec supply actor.toContract phase _ mem
  have between := (actor.behave ⟨actor.name, phase, execution⟩).buses_between supply
    actor.toContract phase (startOf supply execution phase actor bench)
  obtain ⟨⟨_, early, log⟩, ⟨_, late, log'⟩⟩ := between.2 _ among
  refine ⟨granted, early, late, ?_, log.symm⟩
  have whole := (make_spec supply execution phase actor bench).2.1.log_eq
  have left : (make supply execution phase actor bench).2.bus.log =
      bench.bus.log ++ (early ++ late) := by
    rw [← List.append_assoc]
    exact log'.symm.trans (log ▸ rfl)
  exact List.append_cancel_left (whole.symm.trans left)

theorem declared_of_makeAll (mem : turn ∈ (makeAll supply execution phase goesOn actors bench).1) :
    ∃ actor ∈ actors, ∀ message ∈ turn.produced, message.typeName ∈ actor.produces := by
  induction actors generalizing bench with
  | nil => cases mem
  | cons actor rest ih =>
      have here := (make_spec supply execution phase actor bench).2.2
      simp only [makeAll] at mem
      split at mem
      · rcases List.mem_cons.mp mem with rfl | later
        · exact ⟨actor, List.mem_cons_self, here⟩
        · obtain ⟨other, among, declared⟩ := ih later
          exact ⟨other, List.mem_cons_of_mem actor among, declared⟩
      · obtain rfl := List.mem_singleton.mp mem
        exact ⟨actor, List.mem_cons_self, here⟩

/-- Each visit is the turn of an actor on what the visits before it have left. -/
theorem makeAll_at (split : (makeAll supply execution phase goesOn actors bench).1 =
      before ++ turn :: behind) :
    ∃ earlier actor later, actors = earlier ++ actor :: later ∧
      (makeAll supply execution phase goesOn earlier bench).1 = before ∧
      turn = (make supply execution phase actor
        (makeAll supply execution phase goesOn earlier bench).2).1 ∧
      ∀ visit ∈ behind, ∃ other ∈ later, ∀ message ∈ visit.produced,
        message.typeName ∈ other.produces := by
  induction actors generalizing before bench with
  | nil => simp [makeAll] at split
  | cons actor rest ih =>
      simp only [makeAll] at split
      by_cases onward : goesOn (make supply execution phase actor bench).1.result = true
      · rw [if_pos onward] at split
        cases before with
        | nil =>
            obtain ⟨rfl, rfl⟩ := List.cons.inj split
            exact ⟨[], actor, rest, rfl, rfl, rfl, fun visit mem => declared_of_makeAll mem⟩
        | cons first before =>
            obtain ⟨rfl, rest_split⟩ := List.cons.inj split
            obtain ⟨earlier, consumer, later, rfl, visits, made, declared⟩ := ih rest_split
            have whole : makeAll supply execution phase goesOn (actor :: earlier) bench =
                ((make supply execution phase actor bench).1 :: before,
                  (makeAll supply execution phase goesOn earlier
                    (make supply execution phase actor bench).2).2) := by
              rw [← visits]
              simp only [makeAll, if_pos onward]
            refine ⟨actor :: earlier, consumer, later, rfl, ?_, ?_, declared⟩
            · rw [whole]
            · rw [whole]
              exact made
      · rw [if_neg onward] at split
        cases before with
        | nil =>
            obtain ⟨rfl, rfl⟩ := List.cons.inj split
            exact ⟨[], actor, rest, rfl, rfl, rfl, fun _ none => absurd none List.not_mem_nil⟩
        | cons first before => simp at split

end Visit

namespace Dispatch

variable {search : Search} {registry : Registry} {phase : Phase} {workflowTag : String}
  {filters : Filters} {ordered : List Actor}

theorem not_produces_of_plan (lawful : search.Lawful)
    (planned : planWith search registry phase workflowTag filters = .ok ordered)
    {earlier later : List Actor} {consumer producer : Actor}
    (split : ordered = earlier ++ consumer :: later) (mem : producer ∈ later) {typeName : String}
    (consumes : typeName ∈ consumer.consumes) : typeName ∉ producer.produces := by
  intro produces
  have distinct := distinct_eligible registry phase workflowTag filters
  obtain ⟨perm, forward⟩ := (isOrder_iff distinct).mp (isOrder_of_plan lawful planned)
  have names := (perm.map (·.name)).nodup_iff.mpr distinct
  rw [split, List.map_append, List.map_cons, List.nodup_append, List.nodup_cons] at names
  rw [split, List.pairwise_append, List.pairwise_cons] at forward
  have unfed := forward.2.1.1 producer mem
  have differ : producer.name ≠ consumer.name := fun same =>
    names.2.1.1 (same ▸ List.mem_map_of_mem mem)
  rw [feedsOther_iff.mpr ⟨differ, typeName, produces, consumes⟩] at unfed
  cases unfed

/--
Whichever of the actors of a plan are run, from the first on: when one of them has started, no other
one produces messages of a type that it consumes. Whenever it is given the messages of a type, these
are, in their order, all that there are in the end but those that it produces itself from then on.
-/
theorem plan_provides (lawful : search.Lawful)
    (planned : planWith search registry phase workflowTag filters = .ok ordered)
    {actors : List Actor} (part : actors <+: ordered) {supply : Supply} {execution : Execution}
    {goesOn : ActorResult → Bool} {bench : Workbench} {before behind : List Visit} {turn : Visit}
    (split : (Visit.makeAll supply execution phase.name goesOn actors bench).1 =
      before ++ turn :: behind) :
    ∃ earlier consumer later, actors = earlier ++ consumer :: later ∧
      (Visit.makeAll supply execution phase.name goesOn earlier bench).1 = before ∧
      let found := (Visit.makeAll supply execution phase.name goesOn earlier bench).2
      let left := (Visit.makeAll supply execution phase.name goesOn actors bench).2
      turn = (Visit.make supply execution phase.name consumer found).1 ∧
      (∀ typeName ∈ consumer.consumes, ∀ visit ∈ behind, ∀ message ∈ visit.produced,
        message.typeName ≠ typeName) ∧
      ∀ reading ∈ Visit.readings supply execution phase.name consumer found,
        ∃ early late, turn.produced = early ++ late ∧ reading.bus.log = found.bus.log ++ early ∧
          left.bus.messagesOf reading.typeName =
            reading.messages ++ late.filter (·.typeName = reading.typeName) := by
  obtain ⟨earlier, consumer, later, whole, visits, made, declared⟩ := Visit.makeAll_at split
  refine ⟨earlier, consumer, later, whole, visits, ?_⟩
  intro found left
  obtain ⟨rest, complete⟩ := part
  have apart : ∀ typeName ∈ consumer.consumes, ∀ visit ∈ behind, ∀ message ∈ visit.produced,
      message.typeName ≠ typeName := by
    rintro _ consumes visit mem message produced rfl
    obtain ⟨producer, among, declares⟩ := declared visit mem
    have shape : ordered = earlier ++ consumer :: (later ++ rest) := by
      rw [← complete, whole, List.append_assoc, List.cons_append]
    exact not_produces_of_plan lawful planned shape (List.mem_append_left rest among) consumes
      (declares message produced)
  refine ⟨made, apart, fun reading mem => ?_⟩
  obtain ⟨granted, early, late, produced, log⟩ := Visit.readings_spec mem
  obtain ⟨consumes, given⟩ := Bus.consume_eq_ok_iff.mp granted
  rw [← made] at produced
  refine ⟨early, late, produced, log, ?_⟩
  have start : found.bus.log = bench.bus.log ++ before.flatMap Visit.produced :=
    visits ▸ (Visit.makeAll_spec supply execution phase.name goesOn earlier bench).2.log_eq
  have finish := (Visit.makeAll_spec supply execution phase.name goesOn actors bench).2.log_eq
  have others : (behind.flatMap Visit.produced).filter (·.typeName = reading.typeName) = [] := by
    refine List.filter_eq_nil_iff.mpr fun message mem => ?_
    obtain ⟨visit, among, produced⟩ := List.mem_flatMap.mp mem
    simpa using apart reading.typeName consumes visit among message produced
  have last : left.bus.log =
      reading.bus.log ++ late ++ behind.flatMap Visit.produced := by
    rw [log, start, finish, split]
    simp [produced]
  unfold Bus.messagesOf at given ⊢
  rw [last, List.filter_append, List.filter_append, others, List.append_nil, given]

/--
An actor that reads the reports and then adds one has been given all that there are but its own.
-/
theorem plan_provides_reports :
    let file : View → Task Unit := fun _ => Task.report (.informational "found" "a fact")
    let writer : Actor := .tagged "writer" [] ["Report"] file
    let reader : Actor := .tagged "reader" ["Report"] ["Report"] fun view =>
      Task.consume "Report" >>= fun _ => file view
    let registry : Registry := ⟨.builtin, [reader, writer], by decide⟩
    let supply : Supply := ⟨fun _ => .epoch, fun _ => default, default⟩
    let execution : Execution := .create default .upgrade "rollout" default .epoch
    let bench : Workbench := ⟨⟨.builtin, []⟩, .empty, [], 0⟩
    let run := fun actors => Visit.makeAll supply execution "apply" (fun _ => true) actors bench
    let readings := Visit.readings supply execution "apply" reader (run [writer]).2
    plan registry (.plain "apply" "upgrade") "upgrade" .none = .ok [writer, reader] ∧
      readings.map (·.messages.length) = [1] ∧ (run [writer, reader]).2.bus.log.length = 2 ∧
      ∀ reading ∈ readings, ∃ late, (run [writer, reader]).2.bus.messagesOf reading.typeName =
        reading.messages ++ late := by
  intro file writer reader registry supply execution bench run readings
  have given : readings.map (·.messages.length) = [1] := by decide +revert
  have all : (run [writer, reader]).2.bus.log.length = 2 := by decide +revert
  have planned : plan registry (.plain "apply" "upgrade") "upgrade" .none = .ok [writer, reader] :=
    rfl
  have split : (run [writer, reader]).1 = (run [writer]).1 ++
      [(Visit.make supply execution "apply" reader (run [writer]).2).1] := rfl
  obtain ⟨earlier, consumer, later, whole, visits, _, _, provided⟩ :=
    plan_provides lawful_exhaustive planned List.prefix_rfl split
  refine ⟨planned, given, all, fun reading mem => ?_⟩
  rcases earlier with _ | ⟨first, _ | ⟨second, rest⟩⟩
  · exact absurd (congrArg List.length visits) (by decide)
  · obtain ⟨rfl, rest⟩ := List.cons.inj whole
    obtain ⟨rfl, _⟩ := List.cons.inj rest
    obtain ⟨_, late, _, _, provided⟩ := provided reading mem
    exact ⟨_, provided⟩
  · simp at whole

end Dispatch

end PhasedUpgrade
