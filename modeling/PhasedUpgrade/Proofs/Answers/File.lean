import PhasedUpgrade.Answers.File
import PhasedUpgrade.Proofs.Collections.Fallible
import PhasedUpgrade.Proofs.Collections.Lookup
import PhasedUpgrade.Proofs.Files.Tree
import PhasedUpgrade.Proofs.Toml.Tables

/-!
# Answers that are read back

Answers that are plain values come out of the file as they went into it, whatever the sections and
the keys are called, if the reader lets arrays be nested as deep as they are in the answers. If it
does not, the file is refused as a whole.
-/

namespace PhasedUpgrade

namespace Toml.Value

theorem Plain.kept? {value : Value} (plain : value.Plain) : value.kept? = some value := by
  induction plain with
  | string | integer | boolean => rfl
  | @array items all ih =>
      have all : keptItems? items = some items := by
        clear all
        induction items with
        | nil => rfl
        | cons item items later =>
            obtain ⟨here, others⟩ := List.forall_mem_cons.mp ih
            simp [keptItems?, here, later others]
      rw [Value.kept?, all]
      rfl

theorem keptEntries?_plain {entries : List (String × Value)}
    (plain : ∀ entry ∈ entries, entry.2.Plain) : keptEntries? entries = some entries := by
  induction entries with
  | nil => rfl
  | cons entry entries ih =>
      obtain ⟨here, others⟩ := List.forall_mem_cons.mp plain
      simp [keptEntries?, here.kept?, ih others]

end Toml.Value

namespace Answers

open Toml Files

def Every (sort : Value → Prop) (answers : Answers) : Prop :=
  ∀ entry ∈ answers.sections.entries, ∀ answer ∈ entry.2.entries, sort answer.2

instance (sort : Value → Prop) [DecidablePred sort] (answers : Answers) :
    Decidable (answers.Every sort) :=
  inferInstanceAs (Decidable (∀ entry ∈ answers.sections.entries,
    ∀ answer ∈ entry.2.entries, sort answer.2))

/-- Whether all values are strings, integers of 64 bits, booleans and arrays of them. -/
def Plain (answers : Answers) : Prop :=
  answers.Every Value.Plain

/-- Whether no value has arrays that are nested deeper than a reader allows. -/
def Within (depth : Nat) (answers : Answers) : Prop :=
  answers.Every fun value => value.nesting ≤ depth

instance (depth : Nat) (answers : Answers) : Decidable (answers.Within depth) :=
  inferInstanceAs (Decidable (answers.Every fun value => value.nesting ≤ depth))

def tables (answers : Answers) : List NamedTable :=
  answers.sections.entries.map fun entry => (entry.1, entry.2.entries)

variable {answers : Answers}

theorem mapM_sectionOf?_tables (plain : answers.Plain) :
    ((answers.tables.map fun table => (table.1, Value.table table.2)).mapM fun entry =>
      (sectionOf? entry.2).bind fun held => some (entry.1, held)) =
        some answers.sections.entries := by
  rw [tables, List.map_map]
  refine Option.mapM_map_eq_some fun entry mem => ?_
  have kept : sectionOf? (.table entry.2.entries) = some entry.2 := by
    show (Value.keptEntries? entry.2.entries).map NameMap.ofList = _
    rw [Value.keptEntries?_plain (plain entry mem), Option.map_some, NameMap.ofList_entries]
  simp [kept]

theorem ofText?_text (plain : answers.Plain) (depth : Nat) :
    ofText? answers.text depth = if answers.Within depth then some answers else none := by
  have whole : ∀ table ∈ answers.tables, ∀ entry ∈ table.2, entry.2.Plain :=
    List.forall_mem_map.mpr plain
  have headings : (answers.tables.map Prod.fst).Nodup := by
    rw [tables, List.map_map]
    exact answers.sections.nodup_keys
  have keys : ∀ table ∈ answers.tables, (table.2.map Prod.fst).Nodup :=
    List.forall_mem_map.mpr fun entry _ => entry.2.nodup_keys
  have read : read? answers.text depth = if AllShallow depth answers.tables then
      some (answers.tables.map fun table => (table.1, .table table.2)) else none :=
    read?_documentChars whole headings keys depth
  have shallow : AllShallow depth answers.tables ↔ answers.Within depth := List.forall_mem_map
  unfold ofText?
  by_cases low : answers.Within depth
  · rw [read, if_pos (shallow.mpr low), if_pos low]
    refine (congrArg (Option.bind · _) (mapM_sectionOf?_tables plain)).trans ?_
    rw [Option.bind_some, NameMap.ofList_entries]
    rfl
  · rw [read, if_neg (mt shallow.mp low), if_neg low]
    rfl

/-- What is loaded from the file that answers were saved to is the answers. -/
theorem load_of_save {tree after : Tree} {path : String} (plain : answers.Plain)
    (saved : answers.save tree path = .ok after) (depth : Nat) :
    load after path depth = if answers.Within depth then .ok answers
      else .error (.unreadable path "not a document of answers") := by
  have there := Tree.find_write (Except.eq_ok_of_mapError saved)
  rw [load, Tree.readText_of_file there]
  simp only [ofText?_text plain]
  by_cases low : answers.Within depth
  · simp only [if_pos low]
  · simp only [if_neg low]

/-! ## Files that are there or can be made -/

variable {tree : Tree} {path : String} {depth : Nat}

/-- Answers can be put back where they were read, or looked for in vain. -/
theorem admits_of_load (h : load tree path depth = .ok answers) :
    tree.Admits (Path.ofText path) := by
  unfold load Tree.readText Tree.read at h
  unfold Tree.Admits
  cases found : tree.find (Path.ofText path) with
  | error fault =>
      rw [found] at h
      cases fault with
      | notFound => exact .inl rfl
      | alreadyExists | notADirectory | isADirectory | notText => cases h
  | ok held =>
      cases held with
      | file bytes => exact .inr ⟨bytes, rfl⟩
      | directory entries =>
          rw [found] at h
          cases h

theorem exists_save_of_admits (admits : tree.Admits (Path.ofText path)) (answers : Answers) :
    ∃ after, answers.save tree path = .ok after := by
  obtain ⟨after, put⟩ := Tree.exists_write_of_admits admits answers.text.toUTF8
  exact ⟨after, by rw [save, put]; rfl⟩

end Answers

end PhasedUpgrade
