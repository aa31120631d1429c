/-!
# Maps keyed by names

A `NameMap` lists its entries by strictly increasing name, so two maps with the same bindings are
equal, and listing a map visits the names in the order of their code points.
-/

namespace PhasedUpgrade

/-- Bindings of names, in increasing order of the names and with no name twice. -/
structure NameMap (α : Type) where
  entries : List (String × α)
  sorted : entries.Pairwise (fun a b => a.1 < b.1)
deriving DecidableEq

namespace NameMap

variable {α β : Type}

/-- Put a binding at its place among sorted entries, replacing one of the same name. -/
def insertEntry (name : String) (value : α) : List (String × α) → List (String × α)
  | [] => [(name, value)]
  | (other, held) :: rest =>
      if name < other then (name, value) :: (other, held) :: rest
      else if name = other then (name, value) :: rest
      else (other, held) :: insertEntry name value rest

theorem eq_or_mem_of_mem_insertEntry {name : String} {value : α} {entry : String × α}
    {entries : List (String × α)} (h : entry ∈ insertEntry name value entries) :
    entry = (name, value) ∨ entry ∈ entries := by
  induction entries with
  | nil => simpa [insertEntry] using h
  | cons head rest ih =>
      simp only [insertEntry] at h
      split at h
      · simpa using h
      · split at h
        · simp only [List.mem_cons] at h ⊢
          rcases h with h | h
          · exact .inl h
          · exact .inr (.inr h)
        · simp only [List.mem_cons] at h ⊢
          rcases h with h | h
          · exact .inr (.inl h)
          · rcases ih h with h | h
            · exact .inl h
            · exact .inr (.inr h)

theorem pairwise_insertEntry {name : String} {value : α} {entries : List (String × α)}
    (h : entries.Pairwise (fun a b => a.1 < b.1)) :
    (insertEntry name value entries).Pairwise (fun a b => a.1 < b.1) := by
  induction entries with
  | nil => simp [insertEntry]
  | cons head rest ih =>
      rw [List.pairwise_cons] at h
      simp only [insertEntry]
      split
      next below =>
        refine List.pairwise_cons.mpr ⟨fun entry mem => ?_, List.pairwise_cons.mpr h⟩
        rcases List.mem_cons.mp mem with rfl | mem
        · exact below
        · exact String.lt_trans below (h.1 entry mem)
      next notBelow =>
        split
        next same =>
          subst same
          exact List.pairwise_cons.mpr ⟨h.1, h.2⟩
        next differ =>
          refine List.pairwise_cons.mpr ⟨fun entry mem => ?_, ih h.2⟩
          rcases eq_or_mem_of_mem_insertEntry mem with rfl | mem
          · exact Std.lt_of_le_of_ne notBelow (Ne.symm differ)
          · exact h.1 entry mem

def empty : NameMap α := ⟨[], .nil⟩

instance : EmptyCollection (NameMap α) := ⟨empty⟩

instance : Inhabited (NameMap α) := ⟨empty⟩

def insert (map : NameMap α) (name : String) (value : α) : NameMap α :=
  ⟨insertEntry name value map.entries, pairwise_insertEntry map.sorted⟩

def get? (map : NameMap α) (name : String) : Option α :=
  map.entries.lookup name

def contains (map : NameMap α) (name : String) : Bool :=
  (map.get? name).isSome

def erase (map : NameMap α) (name : String) : NameMap α :=
  ⟨map.entries.filter (fun entry => entry.1 != name), map.sorted.filter _⟩

/-- Bind every pair in turn, so that of two pairs with one name the later one wins. -/
def insertAll (map : NameMap α) (pairs : List (String × α)) : NameMap α :=
  pairs.foldl (fun map pair => map.insert pair.1 pair.2) map

def ofList (pairs : List (String × α)) : NameMap α :=
  insertAll empty pairs

def keys (map : NameMap α) : List String :=
  map.entries.map Prod.fst

def values (map : NameMap α) : List α :=
  map.entries.map Prod.snd

def size (map : NameMap α) : Nat :=
  map.entries.length

def isEmpty (map : NameMap α) : Bool :=
  map.entries.isEmpty

end NameMap

end PhasedUpgrade
