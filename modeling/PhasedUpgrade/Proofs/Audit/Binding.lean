import Mathlib.Data.List.Forall2
import Mathlib.Data.List.Induction
import Mathlib.Data.Nat.Find
import PhasedUpgrade.Proofs.Audit.Coverage

/-!
# What the last hash binds

The hash of an event is taken over the hash before it. So the last hash of a trail in order settles
all its hashes and all that they are taken over, as long as no two messages of one digest and no
message of the digest of zeros are at hand. Where a trail is not in order, the first link that does
not hold is the one reported.
-/

namespace PhasedUpgrade.Audit

/-- Two events have the same hashes, their own and that before them, and these are taken over the
same bytes. -/
structure Event.Matches (a b : Event) : Prop where
  hash : a.hash = b.hash
  previous : a.previous = b.previous
  input : a.hashInput = b.hashInput

/-- The link at a place of a trail does not hold: the event there is not linked to the hash before
it, or its own hash is not the one that it should hold. -/
def BrokenAt (events : List Event) (index : Nat) : Prop :=
  ∃ event, events[index]? = some event ∧
    (event.previous ≠ lastHash (events.take index) ∨ event.hash ≠ event.properHash)

section Links

variable {events trail other : List Event} {event : Event} {index bound : Nat}

@[simp]
theorem lastHash_nil : lastHash [] = .zero :=
  rfl

@[simp]
theorem lastHash_concat (events : List Event) (event : Event) :
    lastHash (events ++ [event]) = event.hash := by
  simp [lastHash]

theorem verify_concat_iff :
    verify (events ++ [event]) = .ok () ↔
      verify events = .ok () ∧ event.previous = lastHash events ∧
        event.hash = event.properHash := by
  constructor
  · intro intact
    have start := verify_of_append intact
    rw [verify_append start, verifyFrom] at intact
    split at intact
    next linked => exact ⟨start, linked⟩
    next => cases intact
  · rintro ⟨start, linked⟩
    rw [verify_append start, verifyFrom, if_pos linked, verifyFrom]

theorem brokenAt_take_iff (within : index < bound) :
    BrokenAt (events.take bound) index ↔ BrokenAt events index := by
  rw [BrokenAt, BrokenAt, List.getElem?_take_of_lt within, List.take_take,
    Nat.min_eq_left within.le]

theorem BrokenAt.lt_length (broken : BrokenAt events index) : index < events.length := by
  obtain ⟨event, found, -⟩ := broken
  exact (List.getElem?_eq_some_iff.mp found).1

theorem brokenAt_length_iff :
    BrokenAt (events ++ [event]) events.length ↔
      ¬ (event.previous = lastHash events ∧ event.hash = event.properHash) := by
  simp [BrokenAt, imp_iff_not_or]

theorem verify_eq_ok_iff : verify events = .ok () ↔ ∀ index, ¬ BrokenAt events index := by
  induction events using List.reverseRecOn with
  | nil => exact ⟨fun _ index broken => absurd broken.lt_length (Nat.not_lt_zero index),
      fun _ => rfl⟩
  | append_singleton events event ih =>
      rw [verify_concat_iff, ih]
      have before {index : Nat} (within : index < events.length) :
          BrokenAt (events ++ [event]) index ↔ BrokenAt events index := by
        rw [← brokenAt_take_iff within, List.take_left]
      constructor
      · intro ⟨start, linked⟩ index broken
        have within : index ≤ events.length := by simpa [Nat.lt_succ_iff] using broken.lt_length
        rcases within.eq_or_lt with rfl | within
        · exact brokenAt_length_iff.mp broken linked
        · exact start index ((before within).mp broken)
      · intro unbroken
        refine ⟨fun index broken => ?_, ?_⟩
        · exact unbroken index ((before broken.lt_length).mpr broken)
        · exact not_not.mp fun unlinked => unbroken _ (brokenAt_length_iff.mpr unlinked)

theorem verify_of_first_broken (broken : BrokenAt events index)
    (first : ∀ earlier < index, ¬ BrokenAt events earlier) :
    verify events = .error ⟨index⟩ := by
  have start : verify (events.take index) = .ok () := by
    refine verify_eq_ok_iff.mpr fun earlier broken' => ?_
    have within : earlier < index := by
      have within := broken'.lt_length
      rw [List.length_take, Nat.lt_min] at within
      exact within.1
    exact first earlier within ((brokenAt_take_iff within).mp broken')
  have within := broken.lt_length
  obtain ⟨event, found, unlinked⟩ := broken
  obtain ⟨_, rfl⟩ := List.getElem?_eq_some_iff.mp found
  rw [← not_and_or] at unlinked
  rw [← List.take_append_drop index events, verify_append start, List.drop_eq_getElem_cons within,
    verifyFrom, if_neg unlinked, List.length_take_of_le within.le]

/-- The place reported is the first whose link does not hold. -/
theorem verify_eq_error_iff :
    verify events = .error ⟨index⟩ ↔
      BrokenAt events index ∧ ∀ earlier < index, ¬ BrokenAt events earlier := by
  classical
  constructor
  · intro failed
    have broken : ∃ index, BrokenAt events index := by
      by_contra unbroken
      rw [verify_eq_ok_iff.mpr (not_exists.mp unbroken)] at failed
      cases failed
    have least := verify_of_first_broken (Nat.find_spec broken) fun _ => Nat.find_min broken
    cases failed.symm.trans least
    exact ⟨Nat.find_spec broken, fun _ => Nat.find_min broken⟩
  · intro ⟨broken, first⟩
    exact verify_of_first_broken broken first

/-- Two trails in order with the same last hash match. The induction is on the trails from their
ends: the hashes there settle those before them, and neither trail can end before the other, since
then a hash of the other would be the digest of zeros. -/
theorem matches_of_lastHash (proper : ∀ event ∈ trail ++ other, event.properHash ≠ .zero)
    (apart : ∀ a ∈ trail, ∀ b ∈ other, ¬ Digest.Collide a.hashInput b.hashInput)
    (intact : verify trail = .ok ()) (intact' : verify other = .ok ())
    (same : lastHash trail = lastHash other) : List.Forall₂ Event.Matches trail other := by
  induction trail using List.reverseRecOn generalizing other with
  | nil =>
      cases other using List.reverseRecOn with
      | nil => exact .nil
      | append_singleton other b =>
          obtain ⟨-, -, own⟩ := verify_concat_iff.mp intact'
          rw [lastHash_nil, lastHash_concat, own] at same
          exact absurd same.symm (proper b (by simp))
  | append_singleton trail a ih =>
      obtain ⟨start, link, own⟩ := verify_concat_iff.mp intact
      cases other using List.reverseRecOn with
      | nil =>
          rw [lastHash_nil, lastHash_concat, own] at same
          exact absurd same (proper a (by simp))
      | append_singleton other b =>
          obtain ⟨start', link', own'⟩ := verify_concat_iff.mp intact'
          rw [lastHash_concat, lastHash_concat] at same
          have input : a.hashInput = b.hashInput := by
            by_contra differ
            exact apart a (by simp) b (by simp) ⟨differ, own.symm.trans (same.trans own')⟩
          have previous : a.previous = b.previous := (Event.hashInput_eq_iff.mp input).previous
          have rest : List.Forall₂ Event.Matches trail other := by
            refine ih (fun event among => proper event ?_) (fun a ha b hb => ?_) start start' ?_
            · simp only [List.mem_append] at among ⊢
              exact among.imp .inl .inl
            · exact apart a (List.mem_append_left _ ha) b (List.mem_append_left _ hb)
            · rw [← link, ← link', previous]
          exact List.rel_append rest (.cons ⟨same, previous, input⟩ .nil)

theorem verifyFrom_of_matches (alike : List.Forall₂ Event.Matches trail other)
    (previous : Digest) (index : Nat) :
    verifyFrom previous index trail = verifyFrom previous index other := by
  induction alike generalizing previous index with
  | nil => rfl
  | @cons a b trail other matched _ ih =>
      have own : a.properHash = b.properHash := congrArg Digest.sha256 matched.input
      rw [verifyFrom, verifyFrom, matched.hash, matched.previous, own, ih]

theorem lastHash_of_matches (alike : List.Forall₂ Event.Matches trail other) :
    lastHash trail = lastHash other := by
  have hashes : trail.map Event.hash = other.map Event.hash := by
    induction alike with
    | nil => rfl
    | cons matched _ ih => rw [List.map_cons, List.map_cons, matched.hash, ih]
  rw [lastHash, lastHash, ← List.getLast?_map, ← List.getLast?_map, hashes]

end Links

/-- Among trails without two messages of one digest, and without a message of the digest of zeros,
one that is in order is known by its last hash: just the trails that match it event by event are in
order and have the same last hash. A trail that is not in order is reported at the first place where
it is broken. -/
theorem lastHash_binds :
    (∀ trail other : List Event,
      (∀ event ∈ trail ++ other, event.properHash ≠ .zero) →
      (∀ a ∈ trail, ∀ b ∈ other, ¬ Digest.Collide a.hashInput b.hashInput) →
      verify trail = .ok () →
      (verify other = .ok () ∧ lastHash trail = lastHash other ↔
        List.Forall₂ Event.Matches trail other)) ∧
    ∀ events,
      (verify events = .ok () ↔ ∀ index, ¬ BrokenAt events index) ∧
      ∀ index, verify events = .error ⟨index⟩ ↔
        BrokenAt events index ∧ ∀ earlier < index, ¬ BrokenAt events earlier := by
  refine ⟨fun trail other proper apart intact => ⟨fun ⟨intact', same⟩ => ?_, fun alike => ?_⟩,
    fun events => ⟨verify_eq_ok_iff, fun index => verify_eq_error_iff⟩⟩
  · exact matches_of_lastHash proper apart intact intact' same
  · exact ⟨(verifyFrom_of_matches alike _ _).symm.trans intact, lastHash_of_matches alike⟩

/-- A trail of two events cannot pass for one from which the first event is taken out, although the
second is linked anew. -/
theorem lastHash_binds_deletion :
    let entry result : Entry := ⟨default, some "Facts", some "scan", "actor_finished", result⟩
    let first := (entry "0").event default .epoch .zero
    let second := (entry "1").event default .epoch first.hash
    let relinked := (entry "1").event default .epoch .zero
    verify [first, second] = .ok () ∧ verify [relinked] = .ok () ∧
      lastHash [first, second] ≠ lastHash [relinked] := by
  intro entry first second relinked
  have one : verify [first] = .ok () :=
    verify_record (rfl : verify [] = .ok ()) (entry "0") default .epoch
  have intact : verify [first, second] = .ok () := verify_record one (entry "1") default .epoch
  have intact' : verify [relinked] = .ok () :=
    verify_record (rfl : verify [] = .ok ()) (entry "1") default .epoch
  have distinct : (∀ event ∈ [first, second] ++ [relinked], event.properHash ≠ .zero) ∧
      ∀ a ∈ [first, second], ∀ b ∈ [relinked], a.properHash ≠ b.properHash := by
    decide +kernel
  have bound := lastHash_binds.1 [first, second] [relinked] distinct.1
    (fun a ha b hb collide => distinct.2 a ha b hb collide.2) intact
  refine ⟨intact, intact', fun same => ?_⟩
  simpa using (bound.mp ⟨intact', same⟩).length_eq

end PhasedUpgrade.Audit
