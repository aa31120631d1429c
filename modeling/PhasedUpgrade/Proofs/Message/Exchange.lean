import PhasedUpgrade.Proofs.Dispatch.Reading

/-!
# Calls on the bus

Actors call on the bus one after the other, each in its own name and phase. Of all calls only an
accepted draft changes the log, and it is accepted just if the contract of the caller and the
catalog allow it. What a draft says about its producer, its phase and its number does not matter.
-/

namespace PhasedUpgrade

namespace Bus

open Time (Instant)

inductive Request where
  | produce (draft : Message)
  | consume (typeName : String)

structure Call where
  actor : Contract
  phase : String
  time : Instant
  request : Request

inductive Reply where
  | accepted
  | given (messages : List Message)
  | refused (violation : ContractViolation)

def answer (bus : Bus) (call : Call) : Reply × Bus :=
  match call.request with
  | .produce draft =>
      match bus.produce call.actor call.phase draft call.time with
      | .ok later => (.accepted, later)
      | .error violation => (.refused violation, bus)
  | .consume typeName =>
      match bus.consume call.actor typeName with
      | .ok messages => (.given messages, bus)
      | .error violation => (.refused violation, bus)

def after (bus : Bus) (calls : List Call) : Bus :=
  calls.foldl (fun bus call => (bus.answer call).2) bus

/-- What is demanded of a draft: its type is one that the actor declares and that the catalog knows,
its topic is the one of the type, and its payload fits. -/
structure Admits (bus : Bus) (actor : Contract) (draft : Message) : Prop where
  declared : draft.typeName ∈ actor.produces
  fits : ∃ schema, bus.catalog.get? draft.typeName = some schema ∧ schema.topic = draft.topic ∧
    schema.validate draft.payload = .ok ()

/-- The first demand that a draft does not meet, and the breach that it is reported as. -/
inductive Refuses (bus : Bus) (actor : Contract) (draft : Message) : ContractViolation → Prop where
  | undeclared (h : draft.typeName ∉ actor.produces) :
      Refuses bus actor draft (.undeclaredProduce actor.name draft.typeName)
  | unknown (declared : draft.typeName ∈ actor.produces)
      (h : bus.catalog.get? draft.typeName = none) :
      Refuses bus actor draft (.invalidMessage actor.name (.unknownType draft.typeName))
  | astray {schema : Schema} (declared : draft.typeName ∈ actor.produces)
      (known : bus.catalog.get? draft.typeName = some schema) (h : schema.topic ≠ draft.topic) :
      Refuses bus actor draft
        (.invalidMessage actor.name (.topicMismatch schema.name schema.topic draft.topic))
  | unfit {schema : Schema} {cause : MessageError} (declared : draft.typeName ∈ actor.produces)
      (known : bus.catalog.get? draft.typeName = some schema) (topic : schema.topic = draft.topic)
      (h : schema.validate draft.payload = .error cause) :
      Refuses bus actor draft (.invalidMessage actor.name cause)

section Step

variable {bus : Bus} {actor : Contract} {draft : Message} {violation : ContractViolation}

theorem Refuses.not_admits (refuses : bus.Refuses actor draft violation) :
    ¬ bus.Admits actor draft := by
  intro ⟨declared, schema, known, topic, valid⟩
  cases refuses with
  | undeclared h => exact h declared
  | unknown _ h =>
      rw [known] at h
      cases h
  | astray _ known' h =>
      cases known.symm.trans known'
      exact h topic
  | unfit _ known' _ h =>
      cases known.symm.trans known'
      rw [valid] at h
      cases h

/-- A draft that meets the demands is appended; of another, the first that it does not meet is
reported. -/
theorem produce_cases (bus : Bus) (actor : Contract) (phase : String) (draft : Message)
    (time : Instant) :
    (bus.Admits actor draft ∧ bus.produce actor phase draft time =
        .ok { bus with log := bus.log ++ [bus.stamp actor phase draft time] }) ∨
      ∃ violation, bus.Refuses actor draft violation ∧
        bus.produce actor phase draft time = .error violation := by
  by_cases declared : draft.typeName ∈ actor.produces
  · rw [produce, if_pos (NameSet.contains_iff.mpr declared), Catalog.validate]
    cases known : bus.catalog.get? draft.typeName with
    | none => exact .inr ⟨_, .unknown declared known, rfl⟩
    | some schema =>
        by_cases topic : schema.topic = draft.topic
        · simp only [if_pos topic]
          cases valid : schema.validate draft.payload with
          | ok => exact .inl ⟨⟨declared, schema, known, topic, valid⟩, rfl⟩
          | error cause => exact .inr ⟨_, .unfit declared known topic valid, rfl⟩
        · simp only [if_neg topic]
          exact .inr ⟨_, .astray declared known topic, rfl⟩
  · rw [produce, if_neg (mt NameSet.contains_iff.mp declared)]
    exact .inr ⟨_, .undeclared declared, rfl⟩

end Step

/-- What comes of a call: a draft is accepted, stamped and appended, or refused; messages are given
out or refused. Only in the first case the bus is another one. -/
inductive Serves (bus : Bus) : Call → Reply × Bus → Prop where
  | accepted {actor : Contract} {phase : String} {time : Instant} {draft message : Message}
      (admits : bus.Admits actor draft) (typeName : message.typeName = draft.typeName)
      (topic : message.topic = draft.topic) (payload : message.payload = draft.payload)
      (producer : message.producer = actor.name) (phase_eq : message.phase = phase)
      (sequence : message.sequence = (bus.log.getLast?.map Message.sequence).getD 0 + 1)
      (producedAt : message.producedAt = time) :
      Serves bus ⟨actor, phase, time, .produce draft⟩
        (.accepted, { bus with log := bus.log ++ [message] })
  | rejected {actor : Contract} {phase : String} {time : Instant} {draft : Message}
      {violation : ContractViolation} (admits : ¬ bus.Admits actor draft)
      (refuses : bus.Refuses actor draft violation) :
      Serves bus ⟨actor, phase, time, .produce draft⟩ (.refused violation, bus)
  | given {actor : Contract} {phase : String} {time : Instant} {typeName : String}
      (declared : typeName ∈ actor.consumes) :
      Serves bus ⟨actor, phase, time, .consume typeName⟩
        (.given (bus.log.filter (·.typeName = typeName)), bus)
  | withheld {actor : Contract} {phase : String} {time : Instant} {typeName : String}
      (undeclared : typeName ∉ actor.consumes) :
      Serves bus ⟨actor, phase, time, .consume typeName⟩
        (.refused (.undeclaredConsume actor.name typeName), bus)

theorem serves_answer (bus : Bus) (call : Call) : bus.Serves call (bus.answer call) := by
  obtain ⟨actor, phase, time, draft | typeName⟩ := call
  · rcases bus.produce_cases actor phase draft time with ⟨admits, same⟩ | ⟨_, refuses, same⟩
    · simp only [answer, same]
      exact .accepted admits rfl rfl rfl rfl rfl rfl rfl
    · simp only [answer, same]
      exact .rejected refuses.not_admits refuses
  · by_cases declared : typeName ∈ actor.consumes
    · simp only [answer, consume_eq_ok_iff.mpr ⟨declared, rfl⟩]
      exact .given declared
    · simp only [answer, consume, if_neg (mt NameSet.contains_iff.mp declared)]
      exact .withheld declared

/-- Who reads does not write. -/
theorem answer_consume (bus : Bus) (actor : Contract) (phase : String) (time : Instant)
    (typeName : String) : (bus.answer ⟨actor, phase, time, .consume typeName⟩).2 = bus := by
  simp only [answer]
  cases bus.consume actor typeName <;> rfl

/-! ## Calls in a row -/

section After

variable {bus : Bus} {call : Call} {reply : Reply × Bus}

@[simp]
theorem after_nil (bus : Bus) : bus.after [] = bus :=
  rfl

@[simp]
theorem after_cons (bus : Bus) (call : Call) (calls : List Call) :
    bus.after (call :: calls) = (bus.answer call).2.after calls :=
  rfl

theorem after_append (bus : Bus) (first second : List Call) :
    bus.after (first ++ second) = (bus.after first).after second :=
  List.foldl_append

/-- A call leaves the bus as it is, or puts one message of the next number behind the log. -/
theorem Serves.grows (serves : bus.Serves call reply) :
    reply.2 = bus ∨ ∃ message : Message, message.sequence = bus.nextSequence ∧
      reply.2 = { bus with log := bus.log ++ [message] } := by
  cases serves with
  | accepted _ _ _ _ _ _ sequence _ => exact .inr ⟨_, sequence, rfl⟩
  | rejected | given | withheld => exact .inl rfl

theorem Serves.extends (serves : bus.Serves call reply) : reply.2.Extends bus := by
  rcases serves.grows with same | ⟨message, -, same⟩
  · exact same ▸ .refl bus
  · exact same ▸ ⟨rfl, List.prefix_append _ _⟩

theorem after_extends (bus : Bus) (calls : List Call) : (bus.after calls).Extends bus := by
  induction calls generalizing bus with
  | nil => exact .refl bus
  | cons call calls ih => exact (ih _).trans (bus.serves_answer call).extends

/-- Whatever numbers a log has, those of the messages behind it follow the last of them. -/
theorem after_numbers (bus : Bus) (calls : List Call) :
    ∃ produced, (bus.after calls).log = bus.log ++ produced ∧
      produced.map Message.sequence = List.range' bus.nextSequence produced.length := by
  induction calls generalizing bus with
  | nil => exact ⟨[], by simp, rfl⟩
  | cons call calls ih =>
      obtain ⟨produced, log_eq, numbers⟩ := ih (bus.answer call).2
      rw [after_cons, log_eq]
      rcases (bus.serves_answer call).grows with same | ⟨message, number, same⟩
      · rw [same] at numbers ⊢
        exact ⟨produced, rfl, numbers⟩
      · have next : (bus.answer call).2.nextSequence = bus.nextSequence + 1 := by
          rw [same, nextSequence, List.getLast?_concat, Option.map_some, Option.getD_some, number]
        rw [next] at numbers
        refine ⟨message :: produced, by simp [same], ?_⟩
        rw [List.map_cons, numbers, number, List.length_cons, List.range'_succ]

end After

end Bus

/-! ## Calls of programs -/

section Program

variable (supply : Supply) (actor : Contract) (phase : String)

theorem Workbench.bus_produce (bench : Workbench) (draft : Message) :
    (bench.produce supply actor phase draft).2.bus =
      (bench.bus.answer ⟨actor, phase, supply.time bench.used, .produce draft⟩).2 := by
  simp only [Workbench.produce, Bus.answer]
  cases bench.bus.produce actor phase draft (supply.time bench.used) <;> rfl

def Program.calls {α : Type} : Program α → Workbench → List Bus.Call
  | .done _, _ => []
  | .produce draft next, bench =>
      let (result, after) := bench.produce supply actor phase draft
      ⟨actor, phase, supply.time bench.used, .produce draft⟩ :: (next result).calls after
  | .consume typeName next, bench =>
      ⟨actor, phase, supply.time bench.used, .consume typeName⟩ ::
        (next (bench.bus.consume actor typeName)).calls bench
  | .answer heading key next, bench => (next (bench.answers.get? heading key)).calls bench
  | .recordAnswer heading key value next, bench =>
      next.calls { bench with answers := bench.answers.set heading key value }
  | .note _ _ next, bench => next.calls bench

/-- A program calls in the name of its actor and in the phase of its turn, and it leaves the bus as
these calls do. -/
theorem Program.run_calls {α : Type} (program : Program α) (bench : Workbench) :
    (program.run supply actor phase bench).2.1.bus =
        bench.bus.after (program.calls supply actor phase bench) ∧
      ∀ call ∈ program.calls supply actor phase bench,
        call.actor = actor ∧ call.phase = phase := by
  induction program generalizing bench with
  | done value => exact ⟨rfl, nofun⟩
  | produce draft next ih =>
      obtain ⟨same, own⟩ := ih (bench.produce supply actor phase draft).1
        (bench.produce supply actor phase draft).2
      rw [Workbench.bus_produce] at same
      exact ⟨same, List.forall_mem_cons.mpr ⟨⟨rfl, rfl⟩, own⟩⟩
  | consume typeName next ih =>
      obtain ⟨same, own⟩ := ih (bench.bus.consume actor typeName) bench
      refine ⟨?_, List.forall_mem_cons.mpr ⟨⟨rfl, rfl⟩, own⟩⟩
      rw [Program.calls, Bus.after_cons, Bus.answer_consume]
      exact same
  | answer heading key next ih => exact ih _ bench
  | recordAnswer heading key value next ih => exact ih _
  | note key value next ih => exact ih bench

end Program

/-- The log only grows, whatever is called. A draft that is accepted is appended with the stamp of
its call, and just those are that meet the demands; the messages of a type are given as they are on
the log by then, to all whose contract names the type and to no one else; nothing else changes the
bus. Messages are numbered on from the last one of the log at the start. What an actor does to the
bus comes down to such calls in its name. -/
theorem Bus.exchange_spec (bus : Bus) :
    (∀ before call rest,
      (bus.after before).Extends bus ∧
      (bus.after before).Serves call ((bus.after before).answer call) ∧
      ((bus.after before).answer call).2.Extends (bus.after before) ∧
      (bus.after (before ++ call :: rest)).Extends ((bus.after before).answer call).2) ∧
    (∀ calls, ∃ produced, (bus.after calls).log = bus.log ++ produced ∧
      produced.map Message.sequence = List.range' bus.nextSequence produced.length) ∧
    ∀ (supply : Supply) (actor : Contract) (phase : String) (bench : Workbench)
      (program : Program (Except Stop Unit)), ∃ calls : List Call,
        (program.run supply actor phase { bench with bus := bus }).2.1.bus = bus.after calls ∧
          ∀ call ∈ calls, call.actor = actor ∧ call.phase = phase := by
  refine ⟨fun before call rest => ?_, bus.after_numbers, ?_⟩
  · have serves := (bus.after before).serves_answer call
    rw [after_append, after_cons]
    exact ⟨bus.after_extends before, serves, serves.extends, after_extends _ rest⟩
  · intro supply actor phase bench program
    exact ⟨_, program.run_calls supply actor phase { bench with bus := bus }⟩

end PhasedUpgrade
