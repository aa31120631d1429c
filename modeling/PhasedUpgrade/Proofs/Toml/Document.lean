import PhasedUpgrade.Proofs.Collections.Lookup
import PhasedUpgrade.Toml.Document

/-!
# Leaves of documents

A value that a document gives a key stays there: no later line gives the key another one, takes it
away or adds to it.
-/

namespace PhasedUpgrade.Toml

theorem lookup_replace {α : Type} (key other : String) (value : α) (entries : List (String × α)) :
    (InlineNode.replace key value entries).lookup other =
      if other = key then some value else entries.lookup other := by
  induction entries with
  | nil => exact lookup_cons_eq other key value []
  | cons head rest ih =>
      obtain ⟨name, held⟩ := head
      unfold InlineNode.replace
      split
      next here =>
        subst here
        rw [lookup_cons_eq, lookup_cons_eq]
        split <;> rfl
      next differ =>
        rw [lookup_cons_eq, lookup_cons_eq, ih]
        by_cases same : other = key
        · simp [same, Ne.symm differ]
        · simp [same]

/-- Whether every leaf of a table is where it was before. -/
def KeepsLeaves (old updated : Entries) : Prop :=
  ∀ (key : String) (value : Value),
    old.lookup key = some (.leaf value) → updated.lookup key = some (.leaf value)

section

variable {entries updated : Entries} {key : String} {node : Node}

theorem KeepsLeaves.refl (entries : Entries) : KeepsLeaves entries entries :=
  fun _ _ held => held

theorem KeepsLeaves.trans {later : Entries} (first : KeepsLeaves entries updated)
    (second : KeepsLeaves updated later) : KeepsLeaves entries later :=
  fun key value held => second key value (first key value held)

theorem KeepsLeaves.append (entries added : Entries) : KeepsLeaves entries (entries ++ added) := by
  intro key value held
  rw [List.lookup_append, held, Option.some_or]

theorem KeepsLeaves.replace (held : entries.lookup key = some node)
    (branch : ∀ value, node ≠ .leaf value) (new : Node) :
    KeepsLeaves entries (InlineNode.replace key new entries) := by
  intro other value leaf
  rw [lookup_replace, if_neg, leaf]
  rintro rfl
  exact branch value (Option.some.inj (held.symm.trans leaf))

theorem KeepsLeaves.filter (held : entries.lookup key = some node)
    (branch : ∀ value, node ≠ .leaf value) :
    KeepsLeaves entries (entries.filter fun entry => entry.1 != key) := by
  intro other value leaf
  rw [lookup_filter (· != key), if_pos, leaf]
  have apart : other ≠ key := by
    rintro rfl
    exact branch value (Option.some.inj (held.symm.trans leaf))
  simpa using apart

/-- The tables on the way to the end of a path are no leaves. -/
theorem keepsLeaves_within {α : Type} {isEntry : Bool}
    {change : Origin → Entries → Option (α × Entries)}
    (keeps : ∀ {origin entries found updated},
      change origin entries = some (found, updated) → KeepsLeaves entries updated)
    {path : List String} {origin : Origin} {found : α}
    (h : Node.within isEntry change path origin entries = some (found, updated)) :
    KeepsLeaves entries updated := by
  cases path with
  | nil => exact keeps h
  | cons key path =>
      unfold Node.within at h
      split at h
      next =>
        obtain ⟨⟨_, inner⟩, _, same⟩ := Option.bind_eq_some_iff.mp h
        cases same
        exact .append _ _
      next => cases h
      next origin inner held =>
        split at h
        next => cases h
        next =>
          obtain ⟨⟨_, inner⟩, _, same⟩ := Option.bind_eq_some_iff.mp h
          cases same
          exact .replace held nofun _
      next tables held =>
        obtain ⟨_, _, h⟩ := Option.bind_eq_some_iff.mp h
        obtain ⟨⟨_, last⟩, _, same⟩ := Option.bind_eq_some_iff.mp h
        cases same
        exact .replace held nofun _

end

namespace Draft

variable {draft next : Draft} {path : List String}

def top (draft : Draft) : Entries :=
  if draft.path = [] then draft.current else draft.root

theorem ne_nil_of_splitLast {last : List String × String} (h : splitLast path = some last) :
    path ≠ [] := by
  rintro rfl
  cases h

theorem keepsLeaves_settle {entries : Entries} (h : draft.settle = some entries) :
    KeepsLeaves draft.top entries := by
  unfold settle at h
  split at h
  next nowhere =>
    cases h
    have here : draft.path = [] := by simpa [splitLast] using nowhere
    rw [top, if_pos here]
    exact .refl _
  next front key ends =>
    rw [top, if_neg (ne_nil_of_splitLast ends)]
    obtain ⟨⟨_, _⟩, placed, same⟩ := Option.map_eq_some_iff.mp h
    cases same
    refine keepsLeaves_within ?_ placed
    intro origin entries _ updated h
    split at h
    next => cases h; exact .append _ _
    next => cases h; exact .append _ _
    next held _ => cases h; exact .replace held nofun _
    next => cases h

theorem keepsLeaves_beginTable (h : draft.beginTable path = some next) :
    KeepsLeaves draft.top next.top := by
  obtain ⟨⟨front, key⟩, ends, h⟩ := Option.bind_eq_some_iff.mp h
  obtain ⟨entries, settled, h⟩ := Option.bind_eq_some_iff.mp h
  obtain ⟨⟨current, root⟩, taken, same⟩ := Option.bind_eq_some_iff.mp h
  cases same
  rw [top.eq_def ⟨root, _, _, _⟩, if_neg (ne_nil_of_splitLast ends)]
  refine (keepsLeaves_settle settled).trans (keepsLeaves_within ?_ taken)
  intro origin entries _ updated h
  split at h
  next => cases h; exact .refl _
  next held => cases h; exact .filter held nofun
  next => cases h

theorem keepsLeaves_beginElement (h : draft.beginElement path = some next) :
    KeepsLeaves draft.top next.top := by
  obtain ⟨⟨front, key⟩, ends, h⟩ := Option.bind_eq_some_iff.mp h
  obtain ⟨entries, settled, h⟩ := Option.bind_eq_some_iff.mp h
  obtain ⟨⟨_, root⟩, made, same⟩ := Option.bind_eq_some_iff.mp h
  cases same
  rw [top.eq_def ⟨root, _, _, _⟩, if_neg (ne_nil_of_splitLast ends)]
  refine (keepsLeaves_settle settled).trans (keepsLeaves_within ?_ made)
  intro origin entries _ updated h
  split at h
  next => cases h; exact .append _ _
  next => cases h; exact .refl _
  next => cases h

theorem keepsLeaves_addEntry {value : Value} (h : draft.addEntry path value = some next) :
    KeepsLeaves draft.top next.top := by
  obtain ⟨⟨front, key⟩, _, h⟩ := Option.bind_eq_some_iff.mp h
  obtain ⟨⟨_, current⟩, added, same⟩ := Option.bind_eq_some_iff.mp h
  cases same
  unfold top
  dsimp only
  split
  next =>
    refine keepsLeaves_within ?_ added
    intro origin entries _ updated h
    split at h
    next => cases h
    next => cases h; exact .append _ _
  next => exact .refl _

theorem keepsLeaves_take {statement : Statement} (h : draft.take statement = some next) :
    KeepsLeaves draft.top next.top := by
  cases statement with
  | header path => exact keepsLeaves_beginTable h
  | element path => exact keepsLeaves_beginElement h
  | entry path value => exact keepsLeaves_addEntry h

theorem keepsLeaves_foldlM_take {statements : List Statement}
    (h : statements.foldlM take draft = some next) : KeepsLeaves draft.top next.top := by
  induction statements generalizing draft with
  | nil =>
      cases h
      exact .refl _
  | cons statement rest ih =>
      obtain ⟨first, taken, later⟩ := Option.bind_eq_some_iff.mp h
      exact (keepsLeaves_take taken).trans (ih later)

end Draft

theorem lookup_toEntries (entries : Entries) (key : String) :
    (Node.toEntries entries).lookup key = (entries.lookup key).map Node.toValue := by
  induction entries with
  | nil => rfl
  | cons head rest ih =>
      obtain ⟨name, node⟩ := head
      rw [Node.toEntries, lookup_cons_eq, lookup_cons_eq, ih]
      split <;> rfl

theorem lookup_of_statements {draft done : Draft} {statements : List Statement}
    {entries : Entries} {key : String} {value : Value}
    (taken : statements.foldlM Draft.take draft = some done)
    (settled : done.settle = some entries) (held : draft.top.lookup key = some (.leaf value)) :
    (Node.toEntries entries).lookup key = some value := by
  have kept : KeepsLeaves draft.top entries :=
    (Draft.keepsLeaves_foldlM_take taken).trans (Draft.keepsLeaves_settle settled)
  rw [lookup_toEntries, kept key value held]
  rfl

namespace Value

/-- What is kept under a key is what is kept of its value. -/
theorem lookup_keptEntries? {entries kept : List (String × Value)}
    (h : keptEntries? entries = some kept) {key : String} {value : Value}
    (held : entries.lookup key = some value) :
    ∃ other, value.kept? = some other ∧ kept.lookup key = some other := by
  induction entries generalizing kept with
  | nil => cases held
  | cons head rest ih =>
      obtain ⟨name, first⟩ := head
      obtain ⟨here, stays, h⟩ := Option.bind_eq_some_iff.mp h
      obtain ⟨later, others, same⟩ := Option.bind_eq_some_iff.mp h
      cases same
      rw [lookup_cons_eq] at held ⊢
      split at held
      next same =>
        cases held
        exact ⟨here, stays, if_pos same⟩
      next differ =>
        rw [if_neg differ]
        exact ih others held

theorem eq_string_of_kept? {value : Value} {text : String}
    (h : value.kept? = some (.string text)) : value = .string text := by
  cases value with
  | array items =>
      rw [kept?] at h
      obtain ⟨_, _, ⟨⟩⟩ := Option.map_eq_some_iff.mp h
  | table entries =>
      rw [kept?] at h
      split at h
      all_goals obtain ⟨_, _, ⟨⟩⟩ := Option.map_eq_some_iff.mp h
  | _ => exact Option.some.inj h

end Value

end PhasedUpgrade.Toml
