import PhasedUpgrade.Files.Tree
import PhasedUpgrade.Proofs.Collections.Lookup

/-!
# Writing into trees

What a path leads to after a file was put at another one, and what the directory on the way to it
holds then.
-/

namespace PhasedUpgrade.Files

open NameMap (insertEntry lookup_insertEntry)

namespace Tree

/-- What a path leads to, where a directory that is missing is taken for an empty one. -/
def place (path : Path) (tree : Tree) : Except Fault Tree :=
  match tree.find path with
  | .error .notFound => .ok .empty
  | other => other

theorem find_append (front rest : Path) (tree : Tree) :
    tree.find (front ++ rest) = (tree.find front).bind (find rest) := by
  induction front generalizing tree with
  | nil => rfl
  | cons name front ih =>
      cases tree with
      | file => rfl
      | directory entries =>
          simp only [List.cons_append, find]
          cases entries.lookup name with
          | none => rfl
          | some held => exact ih held

theorem find_empty {path : Path} (ne : path ≠ []) : empty.find path = .error .notFound := by
  cases path with
  | nil => exact absurd rfl ne
  | cons => rfl

theorem place_empty (path : Path) : empty.place path = .ok .empty := by
  cases path <;> rfl

theorem place_of_find {path : Path} {tree held : Tree} (h : tree.find path = .ok held) :
    tree.place path = .ok held := by
  simp [place, h]

theorem find_below {front rest : Path} {tree held : Tree} (placed : tree.place front = .ok held)
    (ne : rest ≠ []) : tree.find (front ++ rest) = held.find rest := by
  unfold place at placed
  rw [find_append]
  split at placed
  · rename_i missing
    have same : empty = held := Except.ok.inj placed
    rw [missing, ← same, find_empty ne]
    rfl
  · rw [placed]
    rfl

theorem exists_write_below {bytes : ByteArray} {front rest : Path} {tree held after : Tree}
    (placed : tree.place front = .ok held) (ne : rest ≠ [])
    (written : held.write bytes rest = .ok after) :
    ∃ grown, tree.write bytes (front ++ rest) = .ok grown ∧ grown.find front = .ok after := by
  induction front generalizing tree with
  | nil =>
      have same : tree = held := Except.ok.inj placed
      exact ⟨after, same ▸ written, rfl⟩
  | cons name front ih =>
      cases tree with
      | file => cases placed
      | directory entries =>
          have further : front ++ rest ≠ [] := List.append_ne_nil_of_right_ne_nil _ ne
          have there : ((entries.lookup name).getD .empty).place front = .ok held := by
            unfold place find at placed
            cases found : entries.lookup name with
            | none =>
                rw [found] at placed
                exact placed ▸ place_empty front
            | some sub =>
                rw [found] at placed
                exact placed
          obtain ⟨grown, put, found⟩ := ih there
          refine ⟨.directory (insertEntry name grown entries), ?_, ?_⟩
          · simp [write, further, put, bind, Except.bind, pure, Except.pure]
          · simp [find, lookup_insertEntry, found]

theorem find_write {bytes : ByteArray} {path : Path} {tree after : Tree}
    (written : tree.write bytes path = .ok after) : after.find path = .ok (.file bytes) := by
  induction path generalizing tree after with
  | nil =>
      cases tree with
      | file => cases written; rfl
      | directory => cases written
  | cons name path ih =>
      cases tree with
      | file => cases written
      | directory entries =>
          rw [write] at written
          cases put : write bytes path
              ((entries.lookup name).getD (if path.isEmpty then .file bytes else .empty)) with
          | error fault =>
              rw [put] at written
              cases written
          | ok sub =>
              rw [put] at written
              cases written
              rw [find, lookup_insertEntry, if_pos rfl]
              exact ih put

/-- A file is refused its place by a directory in it, and by nothing else that is called one. -/
theorem write_eq_isADirectory_iff {bytes : ByteArray} {path : Path} {tree : Tree} :
    tree.write bytes path = .error .isADirectory ↔
      ∃ entries, tree.find path = .ok (.directory entries) := by
  induction path generalizing tree with
  | nil => cases tree <;> simp [write, find]
  | cons name path ih =>
      cases tree with
      | file => simp [write, find]
      | directory entries =>
          have below : (Tree.directory entries).write bytes (name :: path) = .error .isADirectory ↔
              write bytes path ((entries.lookup name).getD
                (if path.isEmpty then .file bytes else .empty)) = .error .isADirectory := by
            rw [write]
            cases write bytes path _ <;> simp [bind, Except.bind, pure, Except.pure]
          rw [below, ih, find]
          cases entries.lookup name with
          | some held => rfl
          | none => cases path <;> simp [find, empty]

theorem exists_writeFailure {fault : Fault} (other : fault ≠ .isADirectory) (tree : Tree)
    (path : Path) (text directory : String) :
    ∃ cause, tree.writeFailure path text directory fault = (directory, cause) := by
  unfold writeFailure
  cases fault with
  | isADirectory => exact absurd rfl other
  | notFound | alreadyExists | notADirectory | notText =>
      cases tree.find path.dropLast <;> exact ⟨_, rfl⟩

theorem fromUTF8?_toUTF8 (text : String) : String.fromUTF8? text.toUTF8 = some text :=
  dif_pos text.isValidUTF8

theorem read_of_file {path : Path} {tree : Tree} {bytes : ByteArray}
    (h : tree.find path = .ok (.file bytes)) : tree.read path = .ok bytes := by
  rw [read, h]
  rfl

theorem readText_of_file {path : Path} {tree : Tree} {text : String}
    (h : tree.find path = .ok (.file text.toUTF8)) : tree.readText path = .ok text := by
  rw [readText, read_of_file h]
  simp only [bind, Except.bind, fromUTF8?_toUTF8]
  rfl

/-- Paths neither of which leads on to the other. -/
def Apart (path other : Path) : Prop :=
  ¬ path <+: other ∧ ¬ other <+: path

theorem apart_of_ne {path other : Path} (deep : other.length = path.length)
    (differ : other ≠ path) :
    Apart path other :=
  ⟨fun before => differ (before.eq_of_length deep.symm).symm,
    fun before => differ (before.eq_of_length deep)⟩

/-- A file that is put somewhere is not seen at a path apart from its own. -/
theorem find_write_of_apart {bytes : ByteArray} {path other : Path} {tree after : Tree}
    (written : tree.write bytes path = .ok after) (apart : Apart path other) :
    after.find other = tree.find other := by
  induction path generalizing tree after other with
  | nil => exact absurd List.nil_prefix apart.1
  | cons name path ih =>
      cases other with
      | nil => exact absurd List.nil_prefix apart.2
      | cons first further =>
          cases tree with
          | file => cases written
          | directory entries =>
              rw [write] at written
              cases put : write bytes path
                  ((entries.lookup name).getD (if path.isEmpty then .file bytes else .empty)) with
              | error fault =>
                  rw [put] at written
                  cases written
              | ok sub =>
                  rw [put] at written
                  cases written
                  rw [find, find, lookup_insertEntry]
                  by_cases here : first = name
                  · subst here
                    simp only [Apart, List.cons_prefix_cons, true_and] at apart
                    have kept := ih put apart
                    rw [if_pos rfl]
                    cases held : entries.lookup first with
                    | some tree =>
                        rw [held] at kept
                        exact kept
                    | none =>
                        -- below a name that was missing nothing else was found before either
                        have ne : path ≠ [] := fun nil => apart.1 (nil ▸ List.nil_prefix)
                        have beyond : further ≠ [] := fun nil => apart.2 (nil ▸ List.nil_prefix)
                        rw [held] at kept
                        simpa [ne, find_empty beyond] using kept
                  · rw [if_neg here]

/-- Whether a file can be put at a path: there is one already, or nothing is in its way. -/
def Admits (tree : Tree) (path : Path) : Prop :=
  tree.find path = .error .notFound ∨ ∃ bytes, tree.find path = .ok (.file bytes)

theorem exists_write_of_admits {path : Path} {tree : Tree} (admits : tree.Admits path)
    (bytes : ByteArray) : ∃ after, tree.write bytes path = .ok after := by
  induction path generalizing tree with
  | nil =>
      cases tree with
      | file old => exact ⟨_, rfl⟩
      | directory entries =>
          rcases admits with missing | ⟨old, found⟩
          · cases missing
          · cases found
  | cons name path ih =>
      cases tree with
      | file old =>
          rcases admits with missing | ⟨old, found⟩
          · cases missing
          · cases found
      | directory entries =>
          have below : Admits
              ((entries.lookup name).getD (if path.isEmpty then .file bytes else .empty)) path := by
            unfold Admits find at admits
            cases held : entries.lookup name with
            | some sub =>
                rw [held] at admits
                exact admits
            | none =>
                cases path with
                | nil => exact .inr ⟨bytes, rfl⟩
                | cons => exact .inl rfl
          obtain ⟨after, put⟩ := ih below
          exact ⟨_, by rw [write, put]; rfl⟩

end Tree

end PhasedUpgrade.Files
