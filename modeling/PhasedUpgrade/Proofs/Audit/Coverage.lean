import Mathlib.Data.Int.ModEq
import PhasedUpgrade.Audit.Trail
import PhasedUpgrade.Proofs.Audit.Bytes

/-!
# What a hash covers

The bytes that the hash of an event is taken over tell its identifiers, its time to the microsecond
and the hash before it. Of its phase, its actor, its action and its result they tell the texts one
after the other: not where a text ends if one has null characters, and not whether there is an
empty phase or none. A change to a trail is noticed where these bytes differ, or else shows two
messages of one digest.

A trail with links that hold keeps them when an event is recorded. What follows a trail is linked to
its last event, wherever the trail is cut.
-/

namespace PhasedUpgrade

/-! ## Trails that go on -/

namespace Audit

open Time (Instant)

theorem verifyFrom_append {previous : Digest} {index : Nat} {first : List Event}
    (intact : verifyFrom previous index first = .ok ()) (rest : List Event) :
    verifyFrom previous index (first ++ rest) =
      verifyFrom ((first.getLast?.map Event.hash).getD previous) (index + first.length) rest := by
  induction first generalizing previous index with
  | nil => rfl
  | cons event first ih =>
      rw [verifyFrom] at intact
      split at intact
      next linked =>
        rw [List.cons_append, verifyFrom, if_pos linked, ih intact, List.getLast?_cons,
          List.length_cons, Nat.add_right_comm, Nat.add_assoc]
        cases first.getLast? <;> rfl
      next => cases intact

theorem verifyFrom_of_append {previous : Digest} {index : Nat} {first rest : List Event}
    (intact : verifyFrom previous index (first ++ rest) = .ok ()) :
    verifyFrom previous index first = .ok () := by
  induction first generalizing previous index with
  | nil => rfl
  | cons event first ih =>
      rw [List.cons_append, verifyFrom] at intact
      rw [verifyFrom]
      split at intact
      next linked => rw [if_pos linked, ih intact]
      next => cases intact

/-- What follows a trail that is in order is checked against the last hash of the trail. -/
theorem verify_append {first : List Event} (intact : verify first = .ok ()) (rest : List Event) :
    verify (first ++ rest) = verifyFrom (lastHash first) first.length rest := by
  rw [verify, verifyFrom_append intact, Nat.zero_add, lastHash]

theorem verify_of_append {first rest : List Event} (intact : verify (first ++ rest) = .ok ()) :
    verify first = .ok () :=
  verifyFrom_of_append intact

theorem verify_record {events : List Event} (intact : verify events = .ok ()) (entry : Entry)
    (id : EventId) (time : Instant) : verify (record events entry id time) = .ok () := by
  rw [record, verify_append intact, verifyFrom, if_pos ⟨rfl, rfl⟩, verifyFrom]

/-- One trail goes on from another: it begins with it, and its links hold if those of the other
do. -/
structure Continues (events later : List Event) : Prop where
  kept : events <+: later
  verified : verify events = .ok () → verify later = .ok ()

namespace Continues

variable {first events later : List Event}

theorem refl (events : List Event) : Continues events events :=
  ⟨List.prefix_refl _, id⟩

theorem trans (one : Continues first events) (two : Continues events later) :
    Continues first later :=
  ⟨one.kept.trans two.kept, two.verified ∘ one.verified⟩

instance : Trans Continues Continues Continues := ⟨trans⟩

theorem record (events : List Event) (entry : Entry) (id : EventId) (time : Instant) :
    Continues events (Audit.record events entry id time) :=
  ⟨List.prefix_append _ _, fun intact => verify_record intact entry id time⟩

end Continues

end Audit

/-! ## What is covered -/

def Digest.Collide (a b : List UInt8) : Prop :=
  a ≠ b ∧ sha256 a = sha256 b

/-- A time of the calendar in whole microseconds that 64 bits can count, in no leap second. -/
structure Time.Instant.Counted (time : Instant) : Prop where
  nanos_lt : time.nanos < 1000000000
  whole : time.nanos % 1000 = 0
  lower : -2 ^ 63 ≤ time.micros
  upper : time.micros < 2 ^ 63

theorem Time.Instant.Counted.eq_of_micros {a b : Instant} (ha : a.Counted) (hb : b.Counted)
    (same : a.micros ≡ b.micros [ZMOD 2 ^ 64]) : a = b := by
  obtain ⟨seconds, nanos, lt, leap⟩ := a
  obtain ⟨seconds', nanos', lt', leap'⟩ := b
  obtain ⟨short, whole, lower, upper⟩ := ha
  obtain ⟨short', whole', lower', upper'⟩ := hb
  simp only [Int.ModEq, micros] at *
  have : seconds = seconds' ∧ nanos = nanos' := by omega
  simpa using this

namespace Audit

namespace Event

/-- The four texts of an event; the empty text stands for no phase or actor. -/
def texts (event : Event) : List String :=
  [event.phase.getD "", event.actor.getD "", event.action, event.result]

/-- Two events say the same as far as their hashes are concerned. -/
structure Agrees (a b : Event) : Prop where
  id : a.id = b.id
  time : a.time.micros ≡ b.time.micros [ZMOD 2 ^ 64]
  execution : a.execution = b.execution
  texts : closed a.texts = closed b.texts
  previous : a.previous = b.previous

/-- No text of an event has the null character. -/
def NullFree (event : Event) : Prop :=
  ∀ text ∈ event.texts, '\x00' ∉ text.toList

instance (event : Event) : Decidable event.NullFree :=
  inferInstanceAs (Decidable (∀ text ∈ event.texts, '\x00' ∉ text.toList))

def Named (event : Event) : Prop :=
  event.phase ≠ some "" ∧ event.actor ≠ some ""

variable {a b event changed : Event}

theorem hashInput_eq (event : Event) :
    event.hashInput = event.id.bytes ++ littleEndian64 event.time.micros ++
      textBytes (.ofList (event.execution.chars ++ closed event.texts)) ++
        event.previous.bytes := by
  have none : textBytes (.ofList (closed [])) = [] := by
    rw [textBytes_eq]
    rfl
  rw [String.ofList_append, textBytes_append, texts, textBytes_closed_cons, textBytes_closed_cons,
    textBytes_closed_cons, textBytes_closed_cons, none]
  simp only [hashInput, ExecutionId.text, List.append_assoc, List.append_nil]

/-- All but the texts have a fixed width; so they are cut off from either end. -/
theorem hashInput_eq_iff : a.hashInput = b.hashInput ↔ a.Agrees b := by
  constructor
  · intro same
    rw [hashInput_eq, hashInput_eq, List.append_assoc, List.append_assoc, List.append_assoc,
      List.append_assoc] at same
    obtain ⟨id, same⟩ := List.append_inj same (by simp [EventId.length_bytes])
    obtain ⟨time, same⟩ := List.append_inj same (by simp [length_littleEndian64])
    obtain ⟨texts, previous⟩ := List.append_inj' same
      (by rw [a.previous.length_bytes, b.previous.length_bytes])
    obtain ⟨execution, texts⟩ := List.append_inj (String.ofList_injective (textBytes_inj.mp texts))
      (by simp [ExecutionId.length_chars])
    exact {
      id := EventId.bytes_inj.mp id
      time := littleEndian64_eq_iff.mp time
      execution := ExecutionId.chars_inj.mp execution
      texts
      previous := by
        cases ha : a.previous
        cases hb : b.previous
        simpa [ha, hb] using previous }
  · intro ⟨id, time, execution, texts, previous⟩
    rw [hashInput_eq, hashInput_eq, id, littleEndian64_eq_iff.mpr time, execution, texts, previous]

theorem getD_inj {a b : Option String} (ha : a ≠ some "") (hb : b ≠ some "")
    (same : a.getD "" = b.getD "") : a = b := by
  cases a <;> cases b <;> simp_all

/-- Where a text of one event ends is told if none of its texts has a null character. -/
theorem agrees_iff_of_nullFree (free : event.NullFree) :
    changed.Agrees event ↔ changed.id = event.id ∧
      changed.time.micros ≡ event.time.micros [ZMOD 2 ^ 64] ∧
      changed.execution = event.execution ∧ changed.texts = event.texts ∧
      changed.previous = event.previous := by
  constructor
  · intro ⟨id, time, execution, texts, previous⟩
    have texts : event.texts = changed.texts := closed_inj free rfl texts.symm
    exact ⟨id, time, execution, texts.symm, previous⟩
  · intro ⟨id, time, execution, texts, previous⟩
    exact ⟨id, time, execution, congrArg closed texts, previous⟩

theorem agrees_iff_of_named (free : event.NullFree) (named : event.Named)
    (named' : changed.Named) :
    changed.Agrees event ↔ changed.time.micros ≡ event.time.micros [ZMOD 2 ^ 64] ∧
      changed = { event with time := changed.time, hash := changed.hash } := by
  rw [agrees_iff_of_nullFree free]
  constructor
  · intro ⟨id, time, execution, same, previous⟩
    refine ⟨time, ?_⟩
    simp only [texts, List.cons.injEq, and_true] at same
    obtain ⟨phase, actor, action, result⟩ := same
    have phase := getD_inj named'.1 named.1 phase
    have actor := getD_inj named'.2 named.2 actor
    cases changed
    simp_all
  · rintro ⟨time, same⟩
    rw [same]
    exact ⟨rfl, time, rfl, rfl, rfl⟩

theorem agrees_iff_of_counted (free : event.NullFree) (named : event.Named)
    (named' : changed.Named) (counted : event.time.Counted) (counted' : changed.time.Counted) :
    changed.Agrees event ↔ changed = { event with hash := changed.hash } := by
  rw [agrees_iff_of_named free named named']
  constructor
  · rintro ⟨time, same⟩
    rw [counted'.eq_of_micros counted time] at same
    exact same
  · intro same
    rw [same]
    exact ⟨.refl _, rfl⟩

end Event

section Change

variable {before after : List Event} {event changed : Event}

/-- If an event stands in the place of another with the hash of that one, it alone is to be checked
anew. -/
theorem verify_replaced (intact : verify (before ++ event :: after) = .ok ())
    (kept : changed.hash = event.hash) :
    verify (before ++ changed :: after) =
      if changed.previous = event.previous ∧ changed.properHash = event.properHash then .ok ()
      else .error ⟨before.length⟩ := by
  have start := verify_of_append intact
  rw [verify_append start, verifyFrom] at intact ⊢
  split at intact
  next linked =>
    obtain ⟨link, own⟩ := linked
    have sealed : event.hash = changed.properHash ↔ changed.properHash = event.properHash := by
      rw [own, eq_comm]
    rw [kept, ← link, intact]
    simp only [sealed]
  next => cases intact

theorem verify_of_agrees (intact : verify (before ++ event :: after) = .ok ())
    (kept : changed.hash = event.hash) (agree : changed.Agrees event) :
    verify (before ++ changed :: after) = .ok () := by
  have same : changed.properHash = event.properHash :=
    congrArg Digest.sha256 (Event.hashInput_eq_iff.mpr agree)
  rw [verify_replaced intact kept, if_pos ⟨agree.previous, same⟩]

theorem noticed_or_collide (intact : verify (before ++ event :: after) = .ok ())
    (kept : changed.hash = event.hash) (differ : ¬ changed.Agrees event) :
    verify (before ++ changed :: after) = .error ⟨before.length⟩ ∨
      Digest.Collide changed.hashInput event.hashInput := by
  rw [verify_replaced intact kept]
  split
  next same => exact .inr ⟨fun input => differ (Event.hashInput_eq_iff.mp input), same.2⟩
  next => exact .inl rfl

/-- Hash inputs are the same exactly for events that agree. An event without null characters agrees
only with those of the same texts; so, where phases and actors have names, with those that differ
at most in parts of a microsecond. An event in the place of another, with the hash of that one, is
passed if the two agree; if not, it is where the trail fails, or two messages have one digest. -/
theorem hash_covers (event changed : Event) :
    (changed.hashInput = event.hashInput ↔ changed.Agrees event) ∧
    (event.NullFree →
      (changed.Agrees event ↔ changed.id = event.id ∧
        changed.time.micros ≡ event.time.micros [ZMOD 2 ^ 64] ∧
        changed.execution = event.execution ∧ changed.texts = event.texts ∧
        changed.previous = event.previous) ∧
      (event.Named → changed.Named →
        (changed.Agrees event ↔ changed.time.micros ≡ event.time.micros [ZMOD 2 ^ 64] ∧
          changed = { event with time := changed.time, hash := changed.hash }) ∧
        (event.time.Counted → changed.time.Counted →
          (changed.Agrees event ↔ changed = { event with hash := changed.hash })))) ∧
    ∀ before after, verify (before ++ event :: after) = .ok () → changed.hash = event.hash →
      (changed.Agrees event → verify (before ++ changed :: after) = .ok ()) ∧
      (¬ changed.Agrees event →
        verify (before ++ changed :: after) = .error ⟨before.length⟩ ∨
          Digest.Collide changed.hashInput event.hashInput) :=
  ⟨Event.hashInput_eq_iff,
    fun free => ⟨Event.agrees_iff_of_nullFree free, fun named named' =>
      ⟨Event.agrees_iff_of_named free named named',
        Event.agrees_iff_of_counted free named named'⟩⟩,
    fun _ _ intact kept => ⟨verify_of_agrees intact kept, noticed_or_collide intact kept⟩⟩

/-- In a trail of three events a forged result of the second is noticed there. -/
theorem hash_covers_forged_result :
    let entry result : Entry := ⟨default, some "Facts", some "scan", "actor_finished", result⟩
    let first := (entry "0").event default .epoch .zero
    let second := (entry "1").event default .epoch first.hash
    let third := (entry "2").event default .epoch second.hash
    verify [first, second, third] = .ok () ∧
      verify [first, { second with result := "forged" }, third] = .error ⟨1⟩ := by
  intro entry first second third
  have one : verify [first] = .ok () :=
    verify_record (rfl : verify [] = .ok ()) (entry "0") default .epoch
  have two : verify [first, second] = .ok () := verify_record one (entry "1") default .epoch
  have intact : verify [first, second, third] = .ok () :=
    verify_record two (entry "2") default .epoch
  have free : second.NullFree := by decide
  have apart : Digest.sha256 { second with result := "forged" }.hashInput ≠
      Digest.sha256 second.hashInput := by
    decide +kernel
  obtain ⟨-, told, noticed⟩ := hash_covers second { second with result := "forged" }
  have differ : ¬ { second with result := "forged" }.Agrees second := by
    intro agree
    have texts := ((told free).1.mp agree).2.2.2.1
    revert texts
    decide
  exact ⟨intact, ((noticed [first] [third] intact rfl).2 differ).resolve_right
    fun collide => apart collide.2⟩

/-- Three changes that are not noticed: an empty phase in place of none, the end of a text moved to
a null character within it, and a nanosecond. -/
theorem unnoticed_changes :
    let entry : Entry := ⟨default, none, none, "state\x00changed", "running"⟩
    let event := entry.event default .epoch .zero
    ∀ changed ∈ [{ event with phase := some "" },
        { event with action := "state", result := "changed\x00running" },
        { event with time := ⟨0, 1, by decide, by decide⟩ }],
      changed.hash = event.hash ∧ changed.hashInput = event.hashInput ∧ changed ≠ event ∧
        verify [event] = .ok () ∧ verify [changed] = .ok () := by
  intro entry event changed among
  have intact : verify [event] = .ok () :=
    verify_record (rfl : verify [] = .ok ()) entry default .epoch
  have kept : changed.hash = event.hash := by
    rcases among with _ | ⟨_, _ | ⟨_, _ | ⟨_, ⟨⟩⟩⟩⟩ <;> rfl
  have agree : changed.Agrees event := by
    rcases among with _ | ⟨_, _ | ⟨_, _ | ⟨_, ⟨⟩⟩⟩⟩ <;>
      exact ⟨rfl, by decide, rfl, by decide, rfl⟩
  have differ : changed ≠ event := by
    rintro rfl
    revert among
    decide
  have passed : verify ([] ++ changed :: []) = .ok () := verify_of_agrees intact kept agree
  exact ⟨kept, Event.hashInput_eq_iff.mpr agree, differ, intact, passed⟩

end Change

end Audit

end PhasedUpgrade
