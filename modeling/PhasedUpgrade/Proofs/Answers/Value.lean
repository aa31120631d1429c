import Mathlib.Data.List.DropRight
import PhasedUpgrade.Proofs.Answers.Assignment
import PhasedUpgrade.Proofs.Toml.Document
import PhasedUpgrade.Proofs.Toml.Reader

/-!
# Values of answers

The text of a value is read as a document that gives it to a key. Where the text is a literal its
value is recorded, and where it makes no document the text itself; where it makes a document that
goes on behind a literal, what follows the literal is lost.
-/

namespace PhasedUpgrade

/-! ## Trimmed texts -/

namespace Text

theorem isBlank_of_toml {c : Char} (blank : Toml.isBlank c = true) : isBlank c = true := by
  unfold Toml.isBlank at blank
  rcases (Bool.or_eq_true _ _).mp blank with same | same
  all_goals
    obtain rfl := eq_of_beq same
    decide

theorem dropBlanks_trim (text : String) :
    Toml.dropBlanks (trim text).toList = (trim text).toList := by
  rw [toList_trim]
  cases trimmed : trimChars text.toList with
  | nil => rfl
  | cons c later =>
      have front : c :: later <+: text.toList.dropWhile isBlank :=
        trimmed ▸ List.rdropWhile_prefix isBlank _
      obtain ⟨behind, whole⟩ := front
      have first := List.head?_dropWhile_not isBlank text.toList
      rw [← whole] at first
      have visible : isBlank c = false := by simpa using first
      exact List.dropWhile_cons_of_neg (mt isBlank_of_toml (by simp [visible]))

theorem eq_nil_of_suffix_trim {text : String} {rest : List Char}
    (left : rest <:+ (trim text).toList) (blank : Toml.dropBlanks rest = []) : rest = [] := by
  by_contra some
  have visible : ¬ isBlank (rest.getLast some) := by
    rw [toList_trim] at left
    rw [left.getLast some]
    exact List.rdropWhile_last_not isBlank (dropBlanks text.toList) _
  have last := List.dropWhile_eq_nil_iff.mp blank _ (List.getLast_mem some)
  exact visible (isBlank_of_toml last)

end Text

namespace Answers

open Toml

variable {raw : String} {value : Value} {rest : List Char}

/-! ## Documents that begin with a value -/

/-- The entries of the document in which a text stands for the value of `v`, as they are kept. -/
def documentOf? (raw : String) : Option (List (String × Value)) :=
  (read? ("v = " ++ raw)).bind Value.keptEntries?

theorem valueOf_eq (raw : String) : valueOf raw = match documentOf? raw with
    | some entries => (entries.lookup "v").getD (.string raw)
    | none => .string raw :=
  rfl

/-- The first line of the document gives its key what the text begins with. -/
theorem readStatement_eq_some_iff {chars next : List Char} {statement : Statement} :
    readStatement maxDepth ('v' :: ' ' :: '=' :: ' ' :: chars) = some (statement, next) ↔
      ∃ value rest, readValue maxDepth (dropBlanks chars) = some (value, rest) ∧
        endOfLine? rest = some next ∧ statement = .entry ["v"] value := by
  have opened : readStatement maxDepth ('v' :: ' ' :: '=' :: ' ' :: chars) =
      (readValue maxDepth (dropBlanks chars)).bind fun read =>
        (endOfLine? read.2).bind fun next => some (.entry ["v"] read.1, next) := rfl
  rw [opened]
  constructor
  · intro h
    obtain ⟨⟨value, rest⟩, spelled, h⟩ := Option.bind_eq_some_iff.mp h
    obtain ⟨_, ended, same⟩ := Option.bind_eq_some_iff.mp h
    cases same
    exact ⟨value, rest, spelled, ended, rfl⟩
  · rintro ⟨value, rest, spelled, ended, rfl⟩
    rw [spelled, Option.bind_some, ended, Option.bind_some]

/-- A document holds the value that its first line begins with, whatever the other lines say. -/
theorem exists_of_documentOf? {entries : List (String × Value)}
    (h : documentOf? raw = some entries) :
    ∃ read rest value, readValue maxDepth (dropBlanks raw.toList) = some (read, rest) ∧
      (endOfLine? rest).isSome ∧ read.kept? = some value ∧ entries.lookup "v" = some value := by
  obtain ⟨whole, reading, kept⟩ := Option.bind_eq_some_iff.mp h
  obtain ⟨statements, lines, reading⟩ := Option.bind_eq_some_iff.mp reading
  obtain ⟨done, taken, reading⟩ := Option.bind_eq_some_iff.mp reading
  obtain ⟨top, settled, same⟩ := Option.bind_eq_some_iff.mp reading
  cases same
  rw [String.toList_append] at lines
  obtain ⟨⟨first, next⟩, line, lines⟩ := Option.bind_eq_some_iff.mp lines
  obtain ⟨others, _, same⟩ := Option.bind_eq_some_iff.mp lines
  cases same
  obtain ⟨read, rest, spelled, ended, rfl⟩ := readStatement_eq_some_iff.mp line
  rw [List.foldlM_cons] at taken
  obtain ⟨begun, entered, taken⟩ := Option.bind_eq_some_iff.mp taken
  obtain rfl : begun = ⟨[], [], false, [("v", .leaf read)]⟩ := (Option.some.inj entered).symm
  have leaf : Draft.top ⟨[], [], false, [("v", .leaf read)]⟩ = [("v", .leaf read)] := rfl
  have held : (Node.toEntries top).lookup "v" = some read :=
    lookup_of_statements taken settled (by rw [leaf, List.lookup_cons_self])
  obtain ⟨value, same, held⟩ := Value.lookup_keptEntries? kept held
  exact ⟨read, rest, value, spelled, Option.isSome_of_eq_some ended, same, held⟩

theorem documentOf?_of_whole {read : Value}
    (spelled : readValue maxDepth (dropBlanks raw.toList) = some (read, []))
    (kept : read.kept? = some value) : documentOf? raw = some [("v", value)] := by
  have line := readStatement_eq_some_iff.mpr ⟨read, [], spelled, rfl, rfl⟩
  have lines : readStatements maxDepth (raw.toList.length + 5)
      ('v' :: ' ' :: '=' :: ' ' :: raw.toList) = some [.entry ["v"] read] := by
    show ((readStatement maxDepth ('v' :: ' ' :: '=' :: ' ' :: raw.toList)).bind fun read =>
      (readStatements maxDepth (raw.toList.length + 4) read.2).bind fun others =>
        some (read.1 :: others)) = _
    rw [line]
    rfl
  have whole : read? ("v = " ++ raw) = some [("v", read)] := by
    unfold read?
    rw [String.toList_append]
    show (readStatements maxDepth (raw.toList.length + 5)
      ('v' :: ' ' :: '=' :: ' ' :: raw.toList)).bind _ = _
    rw [lines]
    rfl
  rw [documentOf?, whole]
  show (do return ("v", ← read.kept?) :: (← some [])) = _
  rw [kept]
  rfl

theorem dropBlanks_eq_nil_or_mem (h : (endOfLine? rest).isSome) :
    dropBlanks rest = [] ∨ '#' ∈ rest ∨ '\n' ∈ rest := by
  have within : dropBlanks rest ⊆ rest := (dropBlanks_suffix rest).subset
  unfold endOfLine? at h
  split at h
  next ended =>
    unfold dropComment at ended
    split at ended
    next left => exact .inr (.inl (within (left ▸ List.mem_cons_self)))
    next => exact .inl ended
  next =>
    unfold dropComment at h
    split at h
    next left => exact .inr (.inl (within (left ▸ List.mem_cons_self)))
    next =>
      unfold dropNewline? at h
      split at h
      next left => exact .inr (.inr (within (left ▸ List.mem_cons_self)))
      next left =>
        exact .inr (.inr (within (left ▸ List.mem_cons_of_mem _ List.mem_cons_self)))
      next => cases h

/-! ## Literals in front of texts -/

/-- Whether a text begins with the literal of a value, and what follows the literal. -/
def Begins (raw : String) (value : Value) (rest : List Char) : Prop :=
  ∃ read, readValue maxDepth raw.toList = some (read, rest) ∧ read.kept? = some value

theorem Begins.unique {other : Value} {left : List Char} (one : Begins raw value rest)
    (two : Begins raw other left) : other = value ∧ left = rest := by
  obtain ⟨read, spelled, kept⟩ := one
  obtain ⟨_, again, same⟩ := two
  cases spelled.symm.trans again
  exact ⟨Option.some.inj (same.symm.trans kept), rfl⟩

/-- No text goes on behind a literal of that same text: the literal is at least as long. -/
theorem Begins.eq_nil_of_string (begins : Begins raw (.string raw) rest) : rest = [] := by
  obtain ⟨read, spelled, kept⟩ := begins
  obtain rfl := Value.eq_string_of_kept? kept
  have short := length_le_of_readValue_string spelled
  exact List.length_eq_zero_iff.mp (by omega)

/-- Whether a value stands for all of a text: it is the value of the literal that the text is, or
the text itself if it is none. -/
def StandsForAll (raw : String) (value : Value) : Prop :=
  Begins raw value [] ∨ (∀ other, ¬ Begins raw other []) ∧ value = .string raw

/-- Whether a text makes a document that goes on behind the literal in front. -/
def GoesOn (raw : String) : Prop :=
  (documentOf? raw).isSome ∧ ∃ value rest, Begins raw value rest ∧ rest ≠ []

section

variable (front : dropBlanks raw.toList = raw.toList)
include front

theorem begins_of_documentOf? {entries : List (String × Value)}
    (document : documentOf? raw = some entries) :
    ∃ rest, Begins raw (valueOf raw) rest ∧ (endOfLine? rest).isSome := by
  obtain ⟨read, rest, value, spelled, ended, kept, held⟩ := exists_of_documentOf? document
  have stored : valueOf raw = value := by
    rw [valueOf_eq, document]
    show (entries.lookup "v").getD (.string raw) = value
    rw [held, Option.getD_some]
  rw [front] at spelled
  exact ⟨rest, ⟨read, spelled, stored ▸ kept⟩, ended⟩

theorem Begins.documentOf?_eq (begins : Begins raw value []) :
    documentOf? raw = some [("v", value)] := by
  obtain ⟨read, spelled, kept⟩ := begins
  exact documentOf?_of_whole (by rw [front, spelled]) kept

/-- Of a text that goes on only the literal in front is read. -/
theorem GoesOn.exists_begins (goes_on : GoesOn raw) : ∃ rest, Begins raw (valueOf raw) rest ∧
    rest ≠ [] ∧ rest <:+ raw.toList ∧ (endOfLine? rest).isSome := by
  obtain ⟨document, value, rest, begins, further⟩ := goes_on
  obtain ⟨entries, document⟩ := Option.isSome_iff_exists.mp document
  obtain ⟨left, stored, ended⟩ := begins_of_documentOf? front document
  obtain ⟨_, rfl⟩ := begins.unique stored
  obtain ⟨read, spelled, kept⟩ := stored
  exact ⟨left, ⟨read, spelled, kept⟩, further, readValue_leavesEnd maxDepth spelled, ended⟩

theorem standsForAll_iff : StandsForAll raw (valueOf raw) ↔ ¬ GoesOn raw := by
  constructor
  · intro stands goes_on
    obtain ⟨rest, stored, further, _⟩ := goes_on.exists_begins front
    rcases stands with whole | ⟨_, same⟩
    · exact further (whole.unique stored).2
    · exact further (Begins.eq_nil_of_string (same ▸ stored))
  · intro ends
    cases document : documentOf? raw with
    | none =>
        have unspelled (other : Value) (begins : Begins raw other []) : False := by
          cases document.symm.trans (begins.documentOf?_eq front)
        exact .inr ⟨unspelled, by rw [valueOf_eq, document]⟩
    | some entries =>
        obtain ⟨rest, stored, _⟩ := begins_of_documentOf? front document
        by_cases whole : rest = []
        · exact .inl (whole ▸ stored)
        · exact absurd ⟨Option.isSome_of_eq_some document, _, rest, stored, whole⟩ ends

end

/-! ## Recorded values -/

variable {assignment heading key : String}

/--
What is recorded stands for all of the text of the value unless the text makes a document that goes
on behind a literal. Then it is the value of the literal alone, and what follows is a comment or
the end of its line: a text without `#` and line feeds has none of either.
-/
theorem assign_standsForAll_iff (names : Names assignment heading key raw) (answers : Answers) :
    ∃ stored, answers.assign assignment = .ok (answers.set heading key stored) ∧
      (StandsForAll raw stored ↔ ¬ GoesOn raw) ∧
      (GoesOn raw → ∃ rest, Begins raw stored rest ∧
        rest ≠ [] ∧ rest <:+ raw.toList ∧ (endOfLine? rest).isSome) ∧
      ('#' ∉ raw.toList → '\n' ∉ raw.toList → ¬ GoesOn raw) := by
  obtain ⟨text, rfl⟩ : ∃ text, raw = Text.trim text := by
    obtain ⟨_, text, _, _, _, _, _, _, same⟩ := names
    exact ⟨text, same⟩
  have front := Text.dropBlanks_trim text
  refine ⟨_, assign_of_names names answers, standsForAll_iff front,
    fun goes_on => goes_on.exists_begins front, ?_⟩
  intro uncommented single goes_on
  obtain ⟨rest, _, further, left, ended⟩ := goes_on.exists_begins front
  rcases dropBlanks_eq_nil_or_mem ended with blank | comment | line
  · exact further (Text.eq_nil_of_suffix_trim left blank)
  · exact uncommented (left.subset comment)
  · exact single (left.subset line)

/-- Between quotes a text is kept with what looks like a comment. -/
theorem standsForAll_quoted : ∃ stored,
    Answers.empty.assign "net.motd = '3 # three' " = .ok (Answers.empty.set "net" "motd" stored) ∧
      StandsForAll "'3 # three'" stored := by
  have names : Names "net.motd = '3 # three' " "net" "motd" "'3 # three'" :=
    splitAssignment?_eq_some_iff.mp (by decide)
  obtain ⟨stored, assigned, stands, _⟩ := assign_standsForAll_iff names .empty
  refine ⟨stored, assigned, stands.mpr ?_⟩
  rintro ⟨_, value, rest, ⟨read, spelled, _⟩, further⟩
  have whole : readValue maxDepth "'3 # three'".toList = some (.string "3 # three", []) := rfl
  cases whole.symm.trans spelled
  exact further rfl

/-- Without quotes it is lost. -/
theorem comment_lost :
    Names "net.retries=3 # three" "net" "retries" "3 # three" ∧
      Answers.empty.assign "net.retries=3 # three" =
        .ok (Answers.empty.set "net" "retries" (.integer 3)) ∧
      ¬ StandsForAll "3 # three" (.integer 3) := by
  have names : Names "net.retries=3 # three" "net" "retries" "3 # three" :=
    splitAssignment?_eq_some_iff.mp (by decide)
  have first : readValue maxDepth "3 # three".toList = some (.integer 3, " # three".toList) := rfl
  have stored : valueOf "3 # three" = .integer 3 := rfl
  refine ⟨names, by rw [assign_of_names names, stored], ?_⟩
  rintro (⟨read, spelled, _⟩ | ⟨_, ⟨⟩⟩)
  cases first.symm.trans spelled

end Answers

end PhasedUpgrade
