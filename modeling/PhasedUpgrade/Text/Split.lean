/-!
# Trimming and splitting texts

Texts are trimmed of the characters with the Unicode property `White_Space`. They are cut at the
first separator or at every separator; joining the pieces again with the separator between them
gives the text back.
-/

namespace PhasedUpgrade.Text

/-! ## Blanks -/

/-- Whether a character has the Unicode property `White_Space`. -/
def isBlank (c : Char) : Bool :=
  (0x09 ≤ c.val && c.val ≤ 0x0D) || c.val == 0x20 || c.val == 0x85 || c.val == 0xA0 ||
  c.val == 0x1680 || (0x2000 ≤ c.val && c.val ≤ 0x200A) || c.val == 0x2028 || c.val == 0x2029 ||
  c.val == 0x202F || c.val == 0x205F || c.val == 0x3000

def dropBlanks (chars : List Char) : List Char :=
  chars.dropWhile isBlank

def dropBlanksEnd (chars : List Char) : List Char :=
  (dropBlanks chars.reverse).reverse

def trimChars (chars : List Char) : List Char :=
  dropBlanksEnd (dropBlanks chars)

/-- A text without the blanks at either end. -/
def trim (text : String) : String :=
  .ofList (trimChars text.toList)

theorem toList_trim (text : String) : (trim text).toList = trimChars text.toList := by
  simp [trim]

/-! ## Separators -/

/-- What stands before the first separator and what stands after it, if there is a separator. -/
def cutChars (separator : Char) : List Char → Option (List Char × List Char)
  | [] => none
  | c :: rest =>
      if c = separator then some ([], rest)
      else (cutChars separator rest).map fun (before, after) => (c :: before, after)

def cut (separator : Char) (text : String) : Option (String × String) :=
  (cutChars separator text.toList).map fun (before, after) => (.ofList before, .ofList after)

/-- The pieces between separators: one more than there are separators. -/
def piecesOfChars (separator : Char) : List Char → List (List Char)
  | [] => [[]]
  | c :: rest =>
      if c = separator then [] :: piecesOfChars separator rest
      else
        match piecesOfChars separator rest with
        | [] => [[c]]
        | piece :: others => (c :: piece) :: others

def pieces (separator : Char) (text : String) : List String :=
  (piecesOfChars separator text.toList).map .ofList

/-- The lines of a text, without the line feeds that end them. -/
def lines (text : String) : List String :=
  pieces '\n' text

/-- The non-blank items of a comma-separated list, each without blanks around it. -/
def commaItems (text : String) : List String :=
  ((pieces ',' text).map trim).filter (!·.isEmpty)

theorem eq_of_cutChars {separator : Char} {chars before after : List Char}
    (h : cutChars separator chars = some (before, after)) :
    chars = before ++ separator :: after ∧ separator ∉ before := by
  induction chars generalizing before with
  | nil => simp [cutChars] at h
  | cons c rest ih =>
      simp only [cutChars] at h
      split at h
      · next same => simp at h; simp [h.1, h.2, same]
      · next differ =>
          simp only [Option.map_eq_some_iff] at h
          obtain ⟨⟨front, back⟩, found, eq⟩ := h
          simp only [Prod.mk.injEq] at eq
          obtain ⟨rfl, rfl⟩ := eq
          have := ih found
          simp [this.1, this.2, Ne.symm differ]

theorem cutChars_eq_none {separator : Char} {chars : List Char} :
    cutChars separator chars = none ↔ separator ∉ chars := by
  induction chars with
  | nil => simp [cutChars]
  | cons c rest ih =>
      simp only [cutChars]
      split
      · next same => simp [same]
      · next differ => simp [ih, Ne.symm differ]

theorem cutChars_append {separator : Char} {before : List Char} (first : separator ∉ before)
    (after : List Char) :
    cutChars separator (before ++ separator :: after) = some (before, after) := by
  induction before with
  | nil => simp [cutChars]
  | cons c rest ih =>
      simp only [List.mem_cons, not_or] at first
      simp [cutChars, Ne.symm first.1, ih first.2]

theorem cut_eq_none_iff {separator : Char} {text : String} :
    cut separator text = none ↔ separator ∉ text.toList := by
  rw [cut, Option.map_eq_none_iff, cutChars_eq_none]

theorem cut_eq_some_iff {separator : Char} {text before after : String} :
    cut separator text = some (before, after) ↔
      text.toList = before.toList ++ separator :: after.toList ∧ separator ∉ before.toList := by
  rw [cut, Option.map_eq_some_iff]
  constructor
  · rintro ⟨⟨front, back⟩, found, same⟩
    cases same
    simpa using eq_of_cutChars found
  · rintro ⟨whole, first⟩
    exact ⟨_, whole ▸ cutChars_append first after.toList, by simp⟩

theorem piecesOfChars_ne_nil (separator : Char) (chars : List Char) :
    piecesOfChars separator chars ≠ [] := by
  cases chars with
  | nil => simp [piecesOfChars]
  | cons c rest =>
      simp only [piecesOfChars]
      split
      · simp
      · split <;> simp

end PhasedUpgrade.Text
