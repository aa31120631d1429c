import PhasedUpgrade.Collections.NameMap

/-!
# Sets of names

A `NameSet` lists its members in strictly increasing order, so sets with the same members are equal.
-/

namespace PhasedUpgrade

/-- Names in increasing order, none of them twice. -/
structure NameSet where
  names : List String
  sorted : names.Pairwise (· < ·)
deriving DecidableEq

namespace NameSet

/-- Put a name at its place among sorted names; a name already there is not repeated. -/
def insertName (name : String) : List String → List String
  | [] => [name]
  | other :: rest =>
      if name < other then name :: other :: rest
      else if name = other then other :: rest
      else other :: insertName name rest

theorem mem_insertName {name other : String} {names : List String} :
    other ∈ insertName name names ↔ other = name ∨ other ∈ names := by
  induction names with
  | nil => simp [insertName]
  | cons head rest ih =>
      simp only [insertName]
      split
      · simp
      · split
        next same => subst same; simp
        next => simp only [List.mem_cons, ih]; grind

theorem pairwise_insertName {name : String} {names : List String} (h : names.Pairwise (· < ·)) :
    (insertName name names).Pairwise (· < ·) := by
  induction names with
  | nil => simp [insertName]
  | cons head rest ih =>
      rw [List.pairwise_cons] at h
      simp only [insertName]
      split
      next below =>
        refine List.pairwise_cons.mpr ⟨fun other mem => ?_, List.pairwise_cons.mpr h⟩
        rcases List.mem_cons.mp mem with rfl | mem
        · exact below
        · exact String.lt_trans below (h.1 other mem)
      next notBelow =>
        split
        next => exact List.pairwise_cons.mpr h
        next differ =>
          refine List.pairwise_cons.mpr ⟨fun other mem => ?_, ih h.2⟩
          rcases mem_insertName.mp mem with rfl | mem
          · exact Std.lt_of_le_of_ne notBelow (Ne.symm differ)
          · exact h.1 other mem

def empty : NameSet := ⟨[], .nil⟩

instance : EmptyCollection NameSet := ⟨empty⟩

instance : Inhabited NameSet := ⟨empty⟩

def insert (set : NameSet) (name : String) : NameSet :=
  ⟨insertName name set.names, pairwise_insertName set.sorted⟩

def insertAll (set : NameSet) (names : List String) : NameSet :=
  names.foldl insert set

def ofList (names : List String) : NameSet :=
  insertAll empty names

def contains (set : NameSet) (name : String) : Bool :=
  set.names.contains name

instance : Membership String NameSet := ⟨fun set name => name ∈ set.names⟩

theorem mem_insertAll {set : NameSet} {name : String} {names : List String} :
    name ∈ set.insertAll names ↔ name ∈ set ∨ name ∈ names := by
  induction names generalizing set with
  | nil => simp [insertAll]
  | cons head rest ih =>
      have inserted : name ∈ set.insert head ↔ name = head ∨ name ∈ set := mem_insertName
      show name ∈ (set.insert head).insertAll rest ↔ _
      rw [ih, inserted, List.mem_cons, or_assoc, or_left_comm]

theorem mem_ofList {name : String} {names : List String} : name ∈ ofList names ↔ name ∈ names :=
  mem_insertAll.trans (or_iff_right fun none => nomatch none)

instance (name : String) (set : NameSet) : Decidable (name ∈ set) :=
  inferInstanceAs (Decidable (name ∈ set.names))

theorem contains_iff {set : NameSet} {name : String} : set.contains name = true ↔ name ∈ set :=
  List.contains_iff_mem

def meets (a b : NameSet) : Bool :=
  a.names.any b.contains

theorem meets_iff {a b : NameSet} : a.meets b = true ↔ ∃ name, name ∈ a ∧ name ∈ b := by
  unfold meets
  simp only [List.any_eq_true, contains_iff]
  exact Iff.rfl

end NameSet

end PhasedUpgrade
