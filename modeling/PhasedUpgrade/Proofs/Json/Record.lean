import PhasedUpgrade.Json.Record
import PhasedUpgrade.Json.Source
import PhasedUpgrade.Proofs.Collections.Fallible
import PhasedUpgrade.Proofs.Collections.Lookup
import PhasedUpgrade.Proofs.Json.Spelling

/-!
# Values and records from their trees

The tree of a value is read as the value, if the value is one that the reader can give and the
budget has more levels than the value. A record that is written as an object is read field by field:
each reader gets the tree of what was written under its name.
-/

namespace PhasedUpgrade.Json

/-! ## Values -/

/--
A value that a reader may give: whole numbers have 64 bits, and objects list their fields by
increasing name.
-/
inductive Regular : Json → Prop
  | null : Regular .null
  | boolean (value : Bool) : Regular (.boolean value)
  | integer {value : Int} (fits : FitsWord value) : Regular (.integer value)
  | float (value : Float) : Regular (.float value)
  | string (value : String) : Regular (.string value)
  | array {items : List Json} (each : ∀ item ∈ items, Regular item) : Regular (.array items)
  | object {fields : List (String × Json)} (sorted : fields.Pairwise fun a b => a.1 < b.1)
      (each : ∀ field ∈ fields, Regular field.2) : Regular (.object fields)

namespace Source

theorem enter_succ {budget : Nat} (pos : 0 < budget) : enter (budget + 1) = some budget := by
  rw [enter, if_neg (by omega), Nat.add_sub_cancel]

end Source

/-- With more than so many levels a budget lets the tree of the value through. -/
def IsReadWithin (value : Json) : Prop :=
  ∀ budget, depth value < budget → ofSource? budget (source value) = some value

theorem ofItems?_source {items : List Json} (each : ∀ item ∈ items, IsReadWithin item)
    {budget : Nat} (room : depthOfItems items < budget) :
    ofItems? budget (sourceItems items) = some items := by
  induction items with
  | nil => rfl
  | cons item rest ih =>
      obtain ⟨here, later⟩ := List.forall_mem_cons.mp each
      rw [depthOfItems] at room
      have first := here budget (by omega)
      have others := ih later (by omega)
      simp [sourceItems, ofItems?, first, others]

theorem ofFields?_source {fields : List (String × Json)}
    (each : ∀ field ∈ fields, IsReadWithin field.2) {budget : Nat}
    (room : depthOfFields fields < budget) :
    ofFields? budget (sourceFields fields) = some fields := by
  induction fields with
  | nil => rfl
  | cons field rest ih =>
      obtain ⟨name, value⟩ := field
      obtain ⟨here, later⟩ := List.forall_mem_cons.mp each
      rw [depthOfFields] at room
      have first := here budget (show depth value < budget by omega)
      have others := ih later (by omega)
      simp [sourceFields, ofFields?, first, others]

theorem isReadWithin {value : Json} (floatless : Floatless value) (regular : Regular value) :
    IsReadWithin value := by
  induction floatless with
  | null => exact fun _ _ => rfl
  | boolean value => exact fun _ _ => rfl
  | integer value =>
      intro budget _
      cases regular with
      | integer fits => simp [source, ofSource?, Numeral.integer?_ofInt fits]
  | string value => exact fun _ _ => rfl
  | @array items _ ih =>
      intro budget room
      cases regular with
      | array each =>
          cases budget with
          | zero => omega
          | succ budget =>
              rw [depth] at room
              have inner : depthOfItems items < budget := by omega
              have read := ofItems?_source (fun item mem => ih item mem (each item mem)) inner
              simp [source, ofSource?, Source.enter_succ (Nat.zero_lt_of_lt inner), read]
  | @object fields _ ih =>
      intro budget room
      cases regular with
      | object sorted each =>
          cases budget with
          | zero => omega
          | succ budget =>
              rw [depth] at room
              have inner : depthOfFields fields < budget := by omega
              have read := ofFields?_source (fun field mem => ih field mem (each field mem)) inner
              simp [source, ofSource?, Source.enter_succ (Nat.zero_lt_of_lt inner), read, ofMap,
                NameMap.entries_ofList sorted]

/-! ## Records -/

namespace Source

theorem knownFields?_source {names : List String} {fields : List (String × Json)}
    (known : ∀ field ∈ fields, field.1 ∈ names) (distinct : (fields.map Prod.fst).Nodup) :
    knownFields? names (sourceFields fields) =
      some (fields.map fun field => (field.1, source field.2)) := by
  induction fields with
  | nil => rfl
  | cons field rest ih =>
      obtain ⟨name, value⟩ := field
      obtain ⟨here, later⟩ := List.forall_mem_cons.mp known
      obtain ⟨apart, others⟩ := List.nodup_cons.mp distinct
      have absent : (rest.map fun field => (field.1, source field.2)).lookup name = none := by
        rw [List.lookup_eq_none_iff]
        intro entry mem
        obtain ⟨field, among, rfl⟩ := List.mem_map.mp mem
        have mentioned : field.1 ∈ rest.map Prod.fst := List.mem_map_of_mem among
        have differ : name ≠ field.1 := fun same => apart (same ▸ mentioned)
        simpa using differ
      simp [sourceFields, knownFields?, ih later others, here, absent]

theorem record?_source {value : Json} {names : List String} {fields : List (String × Json)}
    (written : value = .object fields) (all : fields.map Prod.fst = names)
    (distinct : names.Nodup) {budget : Nat} (room : 0 < budget) :
    record? names (budget + 1) (source value) =
      some ⟨true, fields.map fun field => (field.1, source field.2), budget⟩ := by
  subst written all
  have known := knownFields?_source (fun _ mem => List.mem_map_of_mem mem) distinct
  simp [source, record?, enter_succ room, known]

theorem list?_source {α : Type} {read : Nat → Source → Option α} {write : α → Json}
    {values : List α} {budget : Nat} (room : 0 < budget)
    (each : ∀ value ∈ values, read budget (source (write value)) = some value) :
    list? read (budget + 1) (source (.array (values.map write))) = some values := by
  have all := Option.mapM_map_eq_some (f := read budget) each
  rw [source, list?, enter_succ room, sourceItems_eq_map, List.map_map]
  exact all

theorem textMap?_source (map : NameMap String) {budget : Nat} (room : 0 < budget) :
    textMap? (budget + 1)
      (source (.object (map.entries.map fun entry => (entry.1, .string entry.2)))) =
      some map := by
  have fields (entries : List (String × String)) :
      sourceFields (entries.map fun entry => (entry.1, .string entry.2)) =
        entries.map fun entry => (some entry.1, .string (some entry.2)) := by
    induction entries with
    | nil => rfl
    | cons entry rest ih => rw [List.map_cons, sourceFields, ih]; rfl
  rw [source, textMap?, enter_succ room, fields, Option.bind_eq_bind, Option.bind_some]
  rw [Option.mapM_map_eq_some, Option.bind_eq_bind, Option.bind_some, NameMap.ofList_entries]
  · rfl
  · exact fun _ _ => rfl

end Source

/-! ## Fields -/

namespace Record

variable {α β : Type} {fields : List (String × Json)} {budget : Nat} {name : String} {value : Json}
  {read : Source → Option α} {told : α} {next : α → Option β} {whole : β}

/-- The tree under a name is that of the value that was written under it. -/
theorem lookup_written (found : fields.lookup name = some value) :
    (fields.map fun field => (field.1, field.2.source)).lookup name = some value.source := by
  induction fields with
  | nil => cases found
  | cons field rest ih =>
      rw [List.lookup_cons] at found
      rw [List.map_cons, List.lookup_cons]
      cases same : name == field.1 with
      | true =>
          rw [same] at found
          cases found
          rfl
      | false =>
          rw [same] at found
          exact ih found

/-- What a field was written with is read, and the reader goes on with that. -/
theorem required_bind (found : fields.lookup name = some value)
    (reads : read value.source = some told) (goesOn : next told = some whole) :
    (required ⟨true, fields.map fun field => (field.1, field.2.source), budget⟩ name read >>=
      next) = some whole := by
  rw [required, lookup_written found]
  exact Option.bind_eq_some_iff.mpr ⟨told, reads, goesOn⟩

theorem defaulted_bind {default : α} (found : fields.lookup name = some value)
    (reads : read value.source = some told) (goesOn : next told = some whole) :
    (defaulted ⟨true, fields.map fun field => (field.1, field.2.source), budget⟩ name default read
      >>= next) = some whole := by
  rw [defaulted, lookup_written found]
  exact Option.bind_eq_some_iff.mpr ⟨told, reads, goesOn⟩

theorem parsed_written {parse : String → Option α} {text : String}
    (parsed : parse text = some told) :
    ((Json.string text).source.string? >>= parse) = some told := by
  rw [source_string]
  exact parsed

theorem optional_bind {text : Option String} {next : Option String → Option β}
    (found : fields.lookup name = some (.ofText? text)) (goesOn : next text = some whole) :
    (optional ⟨true, fields.map fun field => (field.1, field.2.source), budget⟩ name
      Source.string? >>= next) = some whole := by
  rw [optional, lookup_written found]
  cases text <;> exact goesOn

/-- A reader of a record goes on with the fields that it was written with. -/
theorem record?_bind {names : List String} {next : Record → Option β}
    (written : value = .object fields) (all : fields.map Prod.fst = names) (distinct : names.Nodup)
    (room : 0 < budget)
    (goesOn : next ⟨true, fields.map fun field => (field.1, field.2.source), budget⟩ =
      some whole) :
    (Source.record? names (budget + 1) value.source >>= next) = some whole :=
  Option.bind_eq_some_iff.mpr ⟨_, Source.record?_source written all distinct room, goesOn⟩

end Record

end PhasedUpgrade.Json
