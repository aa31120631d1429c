import Mathlib.Data.List.Forall2

/-!
# Fallible computations

How a computation is taken apart: one that succeeded has succeeded in each of its parts, one that
failed has failed in one of them.
-/

namespace Except

variable {α β ε ε' : Type}

theorem exists_of_bind_eq_ok {first : Except ε α} {next : α → Except ε β} {value : β}
    (h : first >>= next = .ok value) : ∃ part, first = .ok part ∧ next part = .ok value := by
  cases first with
  | error error => cases h
  | ok part => exact ⟨part, rfl, h⟩

theorem error_cases_of_bind {first : Except ε α} {next : α → Except ε β} {error : ε}
    (h : first >>= next = .error error) :
    first = .error error ∨ ∃ part, first = .ok part ∧ next part = .error error := by
  cases first with
  | error other => exact .inl (congrArg _ (Except.error.inj h))
  | ok part => exact .inr ⟨part, rfl, h⟩

theorem eq_ok_of_mapError {computation : Except ε α} {f : ε → ε'} {value : α}
    (h : computation.mapError f = .ok value) : computation = .ok value := by
  cases computation with
  | error error => cases h
  | ok other => exact congrArg _ (Except.ok.inj h)

theorem exists_of_map_eq_ok {computation : Except ε α} {f : α → β} {value : β}
    (h : computation.map f = .ok value) : ∃ part, computation = .ok part ∧ f part = value := by
  cases computation with
  | error error => cases h
  | ok part => exact ⟨part, rfl, Except.ok.inj h⟩

theorem exists_of_mapError_eq_error {computation : Except ε α} {f : ε → ε'} {error : ε'}
    (h : computation.mapError f = .error error) :
    ∃ cause, computation = .error cause ∧ f cause = error := by
  cases computation with
  | error cause => exact ⟨cause, rfl, Except.error.inj h⟩
  | ok value => cases h

theorem mapM_eq_ok_iff {f : α → Except ε β} {items : List α} {values : List β} :
    items.mapM f = .ok values ↔
      List.Forall₂ (fun item value => f item = .ok value) items values := by
  induction items generalizing values with
  | nil =>
      rw [List.mapM_nil, List.forall₂_nil_left_iff]
      exact ⟨fun h => (Except.ok.inj h).symm, fun h => congrArg _ h.symm⟩
  | cons item rest ih =>
      rw [List.mapM_cons, List.forall₂_cons_left_iff]
      constructor
      · intro h
        obtain ⟨value, first, h⟩ := exists_of_bind_eq_ok h
        obtain ⟨others, later, h⟩ := exists_of_bind_eq_ok h
        exact ⟨value, others, first, ih.mp later, (Except.ok.inj h).symm⟩
      · rintro ⟨value, others, first, later, rfl⟩
        rw [first, ih.mpr later]
        rfl

theorem exists_mapM_eq_ok_iff {f : α → Except ε β} {items : List α} :
    (∃ values, items.mapM f = .ok values) ↔ ∀ item ∈ items, ∃ value, f item = .ok value := by
  induction items with
  | nil => exact ⟨fun _ => nofun, fun _ => ⟨[], rfl⟩⟩
  | cons item rest ih =>
      rw [List.forall_mem_cons, ← ih]
      constructor
      · rintro ⟨values, h⟩
        have each := mapM_eq_ok_iff.mp h
        obtain ⟨value, others, first, later, rfl⟩ := List.forall₂_cons_left_iff.mp each
        exact ⟨⟨value, first⟩, others, mapM_eq_ok_iff.mpr later⟩
      · rintro ⟨⟨value, first⟩, others, later⟩
        exact ⟨value :: others, mapM_eq_ok_iff.mpr (.cons first (mapM_eq_ok_iff.mp later))⟩

theorem mapM_eq_error_iff {f : α → Except ε β} {items : List α} {error : ε} :
    items.mapM f = .error error ↔
      ∃ before item behind, items = before ++ item :: behind ∧
        (∀ earlier ∈ before, ∃ value, f earlier = .ok value) ∧ f item = .error error := by
  constructor
  · intro h
    induction items with
    | nil => cases h
    | cons first rest ih =>
        rw [List.mapM_cons] at h
        rcases error_cases_of_bind h with failed | ⟨value, here, h⟩
        · exact ⟨[], first, rest, rfl, nofun, failed⟩
        · rcases error_cases_of_bind h with failed | ⟨_, _, h⟩
          · obtain ⟨before, item, behind, rfl, passed, failed⟩ := ih failed
            exact ⟨first :: before, item, behind, rfl,
              List.forall_mem_cons.mpr ⟨⟨value, here⟩, passed⟩, failed⟩
          · cases h
  · rintro ⟨before, item, behind, rfl, passed, failed⟩
    induction before with
    | nil =>
        rw [List.nil_append, List.mapM_cons, failed]
        rfl
    | cons first before ih =>
        obtain ⟨⟨value, here⟩, passed⟩ := List.forall_mem_cons.mp passed
        rw [List.cons_append, List.mapM_cons, here, ih passed]
        rfl

theorem mem_of_mapM_eq_ok {f : α → Except ε β} {items : List α} {values : List β}
    (h : items.mapM f = .ok values) {item : α} {value : β} (mem : item ∈ items)
    (here : f item = .ok value) : value ∈ values := by
  have each := mapM_eq_ok_iff.mp h
  clear h
  induction each with
  | nil => cases mem
  | cons first later ih =>
      rcases List.mem_cons.mp mem with rfl | mem
      · obtain rfl := Except.ok.inj (first.symm.trans here)
        exact List.mem_cons_self
      · exact List.mem_cons_of_mem _ (ih mem)

end Except

theorem Option.mapM_map_eq_some {α β : Type} {f : β → Option α} {write : α → β} {values : List α}
    (each : ∀ value ∈ values, f (write value) = some value) :
    (values.map write).mapM f = some values := by
  induction values with
  | nil => rfl
  | cons value rest ih =>
      obtain ⟨here, later⟩ := List.forall_mem_cons.mp each
      simp [here, ih later]
