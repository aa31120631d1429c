import PhasedUpgrade.Proofs.Store.Law

/-!
# The newest execution

Of executions no two of which have one moment and one name, one is the newest, whatever the order is
in which they are looked through.
-/

namespace PhasedUpgrade

namespace Time.Instant

variable {a b c : Instant}

theorem lt_iff : a < b ↔ a.seconds < b.seconds ∨ a.seconds = b.seconds ∧ a.nanos < b.nanos :=
  Iff.rfl

theorem lt_asymm (h : a < b) : ¬ b < a := by
  rw [lt_iff] at *
  omega

theorem lt_trans (hab : a < b) (hbc : b < c) : a < c := by
  rw [lt_iff] at *
  omega

theorem lt_trichotomy (a b : Instant) : a < b ∨ a = b ∨ b < a := by
  by_cases same : a.seconds = b.seconds ∧ a.nanos = b.nanos
  · cases a
    cases b
    exact .inr (.inl (by simpa using same))
  · rw [lt_iff, lt_iff]
    omega

end Time.Instant

namespace Execution

variable {a b c : Execution}

/--
Of two executions the one that was created later counts, of two of one moment the greater name.
-/
theorem isNewer_iff : a.isNewer b = true ↔
    b.createdAt < a.createdAt ∨ a.createdAt = b.createdAt ∧ b.id < a.id := by
  simp [isNewer]

theorem isNewer_trans (hab : a.isNewer b = true) (hbc : b.isNewer c = true) :
    a.isNewer c = true := by
  rw [isNewer_iff] at hab hbc ⊢
  rcases hab with later | ⟨same, greater⟩
  · rcases hbc with other | ⟨equal, _⟩
    · exact .inl (Time.Instant.lt_trans other later)
    · exact .inl (equal ▸ later)
  · rcases hbc with other | ⟨equal, smaller⟩
    · exact .inl (same ▸ other)
    · exact .inr ⟨same.trans equal, BitVec.lt_trans smaller greater⟩

theorem isNewer_asymm (h : a.isNewer b = true) : ¬ b.isNewer a = true := by
  rw [isNewer_iff] at *
  rintro (earlier | ⟨equal, smaller⟩)
  · rcases h with later | ⟨same, _⟩
    · exact Time.Instant.lt_asymm later earlier
    · rw [same] at earlier
      exact Time.Instant.lt_asymm earlier earlier
  · rcases h with later | ⟨_, greater⟩
    · rw [equal] at later
      exact Time.Instant.lt_asymm later later
    · exact BitVec.lt_asymm greater smaller

theorem isNewer_total (differ : a.createdAt = b.createdAt → a.id ≠ b.id) :
    a.isNewer b = true ∨ b.isNewer a = true := by
  rw [isNewer_iff, isNewer_iff]
  rcases Time.Instant.lt_trichotomy a.createdAt b.createdAt with earlier | same | later
  · exact .inr (.inl earlier)
  · have values : a.id.value.toNat ≠ b.id.value.toNat := fun equal =>
      differ same (congrArg ExecutionId.mk (BitVec.eq_of_toNat_eq equal))
    rcases Nat.lt_or_gt_of_ne values with smaller | greater
    · exact .inr (.inr ⟨same.symm, BitVec.lt_def.mpr smaller⟩)
    · exact .inl (.inr ⟨same, BitVec.lt_def.mpr greater⟩)
  · exact .inl (.inl later)

/-- No two of the executions have one moment and one name. -/
def Distinct (executions : List Execution) : Prop :=
  ∀ a ∈ executions, ∀ b ∈ executions, a.createdAt = b.createdAt → a.id = b.id → a = b

theorem newest?_eq_none {executions : List Execution} (h : newest? executions = none) :
    executions = [] := by
  cases executions with
  | nil => rfl
  | cons execution rest =>
      simp only [newest?] at h
      cases hr : newest? rest with
      | none => simp [hr] at h
      | some other =>
          rw [hr] at h
          by_cases newer : execution.isNewer other <;> simp [newer] at h

theorem isNewer_of_newest? {executions : List Execution} (distinct : Distinct executions)
    {found : Execution} (h : newest? executions = some found) {other : Execution}
    (among : other ∈ executions) (differ : other ≠ found) : found.isNewer other = true := by
  induction executions generalizing found other with
  | nil => cases among
  | cons execution rest ih =>
      have others : Distinct rest := fun a ha b hb =>
        distinct a (List.mem_cons_of_mem _ ha) b (List.mem_cons_of_mem _ hb)
      simp only [newest?] at h
      cases hr : newest? rest with
      | none =>
          rw [hr] at h
          have here : execution = found := Option.some.inj h
          simp [newest?_eq_none hr, here, differ] at among
      | some best =>
          have held : best ∈ rest := mem_of_newest? hr
          rw [hr] at h
          by_cases newer : execution.isNewer best
          · have here : execution = found := by simpa [newer] using h
            subst here
            have behind : other ∈ rest := (List.mem_cons.mp among).resolve_left differ
            by_cases same : other = best
            · exact same ▸ newer
            · exact isNewer_trans newer (ih others hr behind same)
          · have here : best = found := by simpa [newer] using h
            subst here
            rcases List.mem_cons.mp among with rfl | behind
            · have apart : best.createdAt = other.createdAt → best.id ≠ other.id :=
                fun moment same =>
                  differ (distinct best (List.mem_cons_of_mem _ held) other among moment same).symm
              exact (isNewer_total apart).resolve_right newer
            · exact ih others hr behind differ

/-- The newest execution is told by which executions there are, not by their order. -/
theorem newest?_eq_some_iff {executions : List Execution} (distinct : Distinct executions)
    {found : Execution} : newest? executions = some found ↔
      found ∈ executions ∧ ∀ other ∈ executions, other ≠ found → found.isNewer other = true := by
  constructor
  · intro h
    exact ⟨mem_of_newest? h, fun _ among differ => isNewer_of_newest? distinct h among differ⟩
  · rintro ⟨among, newest⟩
    cases h : newest? executions with
    | none => simp [newest?_eq_none h] at among
    | some other =>
        by_cases same : other = found
        · rw [same]
        · have newer := newest other (mem_of_newest? h) same
          have older := isNewer_of_newest? distinct h among (Ne.symm same)
          exact absurd older (isNewer_asymm newer)

/-- Nothing if no execution is wanted, and otherwise the wanted one that was created last. -/
structure NewestOf (wanted : Execution → Prop) (found : Option Execution) : Prop where
  none_iff : found = none ↔ ∀ execution, ¬ wanted execution
  some_iff (execution : Execution) : found = some execution ↔ wanted execution ∧
    ∀ other, wanted other → other ≠ execution →
      other.createdAt < execution.createdAt ∨
        execution.createdAt = other.createdAt ∧ other.id < execution.id

/-- Of the executions that are wanted, each listed any number of times, the newest is found. -/
theorem newestOf_newest? {wanted : Execution → Prop} {executions : List Execution}
    (lists : ∀ execution, execution ∈ executions ↔ wanted execution)
    (distinct : Distinct executions) : NewestOf wanted (newest? executions) where
  none_iff := by
    constructor
    · intro nothing execution
      simp [← lists, newest?_eq_none nothing]
    · intro others
      cases h : newest? executions with
      | none => rfl
      | some execution => exact absurd ((lists execution).mp (mem_of_newest? h)) (others execution)
  some_iff execution := by
    simp only [newest?_eq_some_iff distinct, lists, isNewer_iff]

end Execution

end PhasedUpgrade
