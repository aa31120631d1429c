import PhasedUpgrade.Collections.NameMap

/-!
# Lookups under names

What is found under a name in a list of bindings, in one that is keyed by distinct names of its
values, and in a map after an insertion. A map is made again by its entries.
-/

namespace PhasedUpgrade

variable {α : Type}

theorem lookup_cons_eq (name key : String) (held : α) (rest : List (String × α)) :
    ((key, held) :: rest).lookup name = if name = key then some held else rest.lookup name := by
  rw [List.lookup_cons]
  by_cases same : name = key
  · simp [same]
  · have apart : (name == key) = false := by simpa using same
    rw [apart, if_neg same]

theorem lookup_filter (chosen : String → Bool) (entries : List (String × α)) (name : String) :
    (entries.filter fun entry => chosen entry.1).lookup name =
      if chosen name = true then entries.lookup name else none := by
  induction entries with
  | nil => simp
  | cons head rest ih =>
      obtain ⟨key, held⟩ := head
      rw [List.filter_cons, lookup_cons_eq]
      by_cases kept : chosen key = true
      · rw [if_pos kept, lookup_cons_eq, ih]
        by_cases here : name = key
        · rw [if_pos here, if_pos here, if_pos (here ▸ kept)]
        · rw [if_neg here, if_neg here]
      · rw [if_neg kept, ih]
        by_cases here : name = key
        · rw [if_neg (here ▸ kept), if_neg (here ▸ kept)]
        · rw [if_neg here]

theorem lookup_keyed_iff {nameOf : α → String} {values : List α} {name : String} {value : α}
    (distinct : (values.map nameOf).Nodup) :
    (values.map fun value => (nameOf value, value)).lookup name = some value ↔
      value ∈ values ∧ nameOf value = name := by
  induction values with
  | nil => simp
  | cons head rest ih =>
      obtain ⟨apart, distinct⟩ := List.nodup_cons.mp distinct
      rw [List.map_cons, lookup_cons_eq, List.mem_cons]
      by_cases here : name = nameOf head
      · rw [if_pos here]
        constructor
        · intro h
          obtain rfl := Option.some.inj h
          exact ⟨.inl rfl, here.symm⟩
        · rintro ⟨rfl | among, named⟩
          · rfl
          · exact absurd (here ▸ named ▸ List.mem_map_of_mem among) apart
      · rw [if_neg here, ih distinct]
        constructor
        · exact fun ⟨among, named⟩ => ⟨.inr among, named⟩
        · rintro ⟨rfl | among, named⟩
          · exact absurd named.symm here
          · exact ⟨among, named⟩

theorem lookup_of_mem {name : String} {value : α} {entries : List (String × α)}
    (distinct : (entries.map Prod.fst).Nodup) (mem : (name, value) ∈ entries) :
    entries.lookup name = some value := by
  induction entries with
  | nil => cases mem
  | cons head rest ih =>
      obtain ⟨key, held⟩ := head
      obtain ⟨once, distinct⟩ := List.nodup_cons.mp distinct
      rw [lookup_cons_eq]
      rcases List.mem_cons.mp mem with same | later
      · cases same
        rw [if_pos rfl]
      · have apart : name ≠ key := by
          rintro rfl
          exact once (List.mem_map.mpr ⟨(name, value), later, rfl⟩)
        rw [if_neg apart, ih distinct later]

theorem mem_of_lookup {name : String} {value : α} {entries : List (String × α)}
    (h : entries.lookup name = some value) : (name, value) ∈ entries := by
  obtain ⟨before, after, rfl, _⟩ := List.lookup_eq_some_iff.mp h
  simp

namespace NameMap

theorem lookup_insertEntry (name other : String) (value : α) (entries : List (String × α)) :
    (insertEntry name value entries).lookup other =
      if other = name then some value else entries.lookup other := by
  induction entries with
  | nil => exact lookup_cons_eq other name value []
  | cons head rest ih =>
      obtain ⟨key, held⟩ := head
      unfold insertEntry
      split
      · exact lookup_cons_eq other name value _
      · split
        · rename_i here
          subst here
          rw [lookup_cons_eq, lookup_cons_eq]
          split <;> rfl
        · rename_i differ
          rw [lookup_cons_eq, lookup_cons_eq, ih]
          by_cases same : other = name
          · simp [same, differ]
          · simp [same]

theorem get?_insert (map : NameMap α) (name other : String) (value : α) :
    (map.insert name value).get? other = if other = name then some value else map.get? other :=
  lookup_insertEntry name other value map.entries

/-- Of the pairs for a name the last one counts, and without one what was bound before. -/
theorem get?_insertAll (map : NameMap α) (pairs : List (String × α)) (name : String) :
    (map.insertAll pairs).get? name = (pairs.reverse.lookup name).or (map.get? name) := by
  induction pairs generalizing map with
  | nil => rfl
  | cons pair rest ih =>
      show ((map.insert pair.1 pair.2).insertAll rest).get? name = _
      rw [ih, get?_insert, List.reverse_cons, List.lookup_append, lookup_cons_eq,
        Option.or_assoc]
      by_cases here : name = pair.1
      · simp [here]
      · simp [here]

theorem get?_insertAll_of_ne {name : String} {pairs : List (String × α)}
    (apart : ∀ pair ∈ pairs, pair.1 ≠ name) (map : NameMap α) :
    (map.insertAll pairs).get? name = map.get? name := by
  have nowhere : pairs.reverse.lookup name = none :=
    List.lookup_eq_none_iff.mpr fun pair mem => by
      simpa using (apart pair (List.mem_reverse.mp mem)).symm
  rw [get?_insertAll, nowhere, Option.none_or]

/-- A pair that no other pair contradicts is what is bound to its name. -/
theorem get?_insertAll_of_mem {name : String} {value : α} {pairs : List (String × α)}
    (mem : (name, value) ∈ pairs) (only : ∀ pair ∈ pairs, pair.1 = name → pair.2 = value)
    (map : NameMap α) : (map.insertAll pairs).get? name = some value := by
  rw [get?_insertAll]
  cases found : pairs.reverse.lookup name with
  | none =>
      have apart := List.lookup_eq_none_iff.mp found _ (List.mem_reverse.mpr mem)
      simp at apart
  | some other =>
      have among : (name, other) ∈ pairs := List.mem_reverse.mp (mem_of_lookup found)
      exact congrArg some (only _ among rfl)

theorem get?_erase (map : NameMap α) (name other : String) :
    (map.erase name).get? other = if other = name then none else map.get? other := by
  unfold erase get?
  rw [lookup_filter (· != name)]
  by_cases here : other = name
  · rw [if_pos here, if_neg (by simp [here])]
  · rw [if_neg here, if_pos (by simpa using here)]

theorem get?_eq_some_iff {map : NameMap α} {name : String} {value : α} :
    map.get? name = some value ↔ (name, value) ∈ map.entries := by
  obtain ⟨entries, sorted⟩ := map
  simp only [get?]
  induction entries with
  | nil => simp
  | cons head rest ih =>
      obtain ⟨key, held⟩ := head
      obtain ⟨first, sorted⟩ := List.pairwise_cons.mp sorted
      rw [lookup_cons_eq, List.mem_cons, Prod.mk.injEq]
      by_cases here : name = key
      · subst here
        have once : (name, value) ∉ rest := fun later =>
          absurd (first (name, value) later) Std.lt_irrefl
        simp [once, eq_comm]
      · simp [here, ih sorted]

theorem nodup_keys (map : NameMap α) : map.keys.Nodup := by
  refine List.pairwise_map.mpr (map.sorted.imp fun below same => ?_)
  rw [same] at below
  exact String.lt_irrefl _ below

theorem insertEntry_last {name : String} {value : α} {entries : List (String × α)}
    (last : ∀ entry ∈ entries, entry.1 < name) :
    insertEntry name value entries = entries ++ [(name, value)] := by
  induction entries with
  | nil => rfl
  | cons head rest ih =>
      obtain ⟨here, later⟩ := List.forall_mem_cons.mp last
      have differ : name ≠ head.1 := fun same => String.lt_irrefl name (same ▸ here)
      rw [insertEntry, if_neg (String.lt_asymm here), if_neg differ, ih later, List.cons_append]

theorem entries_insertAll {map : NameMap α} {pairs : List (String × α)}
    (sorted : (map.entries ++ pairs).Pairwise fun a b => a.1 < b.1) :
    (map.insertAll pairs).entries = map.entries ++ pairs := by
  induction pairs generalizing map with
  | nil => simp [insertAll]
  | cons pair rest ih =>
      obtain ⟨_, _, across⟩ := List.pairwise_append.mp sorted
      have last : ∀ entry ∈ map.entries, entry.1 < pair.1 :=
        fun entry mem => across entry mem pair List.mem_cons_self
      have entered : (map.insert pair.1 pair.2).entries = map.entries ++ [pair] :=
        insertEntry_last last
      have both : map.entries ++ pair :: rest = (map.entries ++ [pair]) ++ rest := by simp
      rw [both, ← entered] at sorted ⊢
      exact ih sorted

theorem entries_ofList {pairs : List (String × α)}
    (sorted : pairs.Pairwise fun a b => a.1 < b.1) : (ofList pairs).entries = pairs :=
  entries_insertAll sorted

theorem ofList_entries (map : NameMap α) : ofList map.entries = map := by
  have same := entries_ofList map.sorted
  generalize ofList map.entries = made at same
  cases made
  cases map
  simpa using same

end NameMap

end PhasedUpgrade
