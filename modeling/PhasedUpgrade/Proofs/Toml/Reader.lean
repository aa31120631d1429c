import PhasedUpgrade.Toml.Literal

/-!
# What readers leave

A reader takes something off the front of a text and leaves the rest of it as it is. The text of a
string is not longer than what spells it.
-/

namespace PhasedUpgrade.Toml

variable {chars content rest : List Char}

/-! ## Blanks and line ends -/

theorem dropBlanks_suffix (chars : List Char) : dropBlanks chars <:+ chars :=
  List.dropWhile_suffix isBlank

theorem suffix_of_dropNewline? (h : dropNewline? chars = some rest) : rest <:+ chars := by
  unfold dropNewline? at h
  split at h
  · exact Option.some.inj h ▸ List.suffix_cons ..
  · exact Option.some.inj h ▸ (List.suffix_cons ..).trans (List.suffix_cons ..)
  · cases h

theorem suffix_of_dropMark? {mark : Char} (h : dropMark? mark chars = some rest) :
    rest <:+ chars := by
  unfold dropMark? at h
  split at h
  · split at h
    · exact Option.some.inj h ▸ List.suffix_cons ..
    · cases h
  · cases h

theorem suffix_of_dropGap (h : dropGap chars = some rest) : rest <:+ chars := by
  -- A gap and a comment in it read on in each other, so that both are told at once.
  induction chars using dropGap.induct
    (fun chars => dropGap.inComment chars = some rest → rest <:+ chars) with
  | case1 h | case6 => exact Option.some.inj h ▸ List.suffix_rfl
  | case2 _ ih h | case7 _ ih => exact (ih h).trans (List.suffix_cons ..)
  | case3 _ ih h | case8 _ ih =>
      exact ((ih h).trans (List.suffix_cons ..)).trans (List.suffix_cons ..)
  | case4 _ _ _ _ plain ih h =>
      rw [dropGap.inComment, if_pos plain] at h <;> try assumption
      exact (ih h).trans (List.suffix_cons ..)
  | case5 _ _ _ _ control h =>
      rw [dropGap.inComment, if_neg control] at h <;> try assumption
      cases h
  | case9 _ _ _ _ blank ih =>
      rw [dropGap, if_pos blank] at h <;> try assumption
      exact (ih h).trans (List.suffix_cons ..)
  | case10 _ _ _ unblank ih =>
      rw [dropGap, if_neg unblank, if_pos rfl] at h <;> try assumption
      exact (ih h).trans (List.suffix_cons ..)
  | case11 _ _ _ _ unblank other =>
      rw [dropGap, if_neg unblank, if_neg other] at h <;> try assumption
      exact Option.some.inj h ▸ List.suffix_rfl

/-! ## Strings -/

/--
How the text that is read off the front of another one is related to it and to what is left: each
of its characters comes from a character of its own.
-/
inductive Condensed : List Char → List Char → List Char → Prop
  | done (rest : List Char) : Condensed rest [] rest
  | skip {chars content rest : List Char} (c : Char) :
      Condensed chars content rest → Condensed (c :: chars) content rest
  | keep {chars content rest : List Char} (c read : Char) :
      Condensed chars content rest → Condensed (c :: chars) (read :: content) rest

theorem Condensed.suffix (condensed : Condensed chars content rest) : rest <:+ chars := by
  induction condensed with
  | done rest => exact List.suffix_rfl
  | skip c _ ih => exact ih.trans (List.suffix_cons ..)
  | keep c read _ ih => exact ih.trans (List.suffix_cons ..)

theorem Condensed.length_le (condensed : Condensed chars content rest) :
    content.length + rest.length ≤ chars.length := by
  induction condensed with
  | done rest => simp
  | skip c _ ih => exact Nat.le_succ_of_le ih
  | keep c read _ ih => simp only [List.length_cons]; omega

theorem Condensed.skips (used : List Char) (condensed : Condensed chars content rest) :
    Condensed (used ++ chars) content rest := by
  induction used with
  | nil => exact condensed
  | cons c used ih => exact .skip c ih

theorem Condensed.of_suffix {later : List Char} (left : later <:+ chars)
    (condensed : Condensed later content rest) : Condensed chars content rest := by
  obtain ⟨used, rfl⟩ := left
  exact condensed.skips used

/-- A character is read in front of what is read behind it. -/
theorem Condensed.prepend {c spelled : Char} {read : Option (List Char × List Char)}
    (h : prepend c read = some (content, rest))
    (later : ∀ {content}, read = some (content, rest) → Condensed chars content rest) :
    Condensed (spelled :: chars) content rest := by
  obtain ⟨⟨behind, left⟩, found, same⟩ := Option.map_eq_some_iff.mp h
  cases same
  exact .keep spelled c (later found)

theorem condensed_of_literalRest (h : literalRest chars = some (content, rest)) :
    Condensed chars content rest := by
  fun_induction literalRest generalizing content with
  | case1 => cases h
  | case2 =>
      cases h
      exact .skip _ (.done _)
  | case3 c later _ plain ih => exact .prepend h ih
  | case4 => cases h

theorem condensed_of_basicRest (h : basicRest chars = some (content, rest)) :
    Condensed chars content rest := by
  fun_induction basicRest generalizing content with
  | case1 => cases h
  | case2 =>
      cases h
      exact .skip _ (.done _)
  | case3 a b c d later ih =>
      obtain ⟨_, _, h⟩ := Option.bind_eq_some_iff.mp h
      exact .skips ['\\', 'u', a, b, c] (.prepend h ih)
  | case4 a b c d e f g last later ih =>
      obtain ⟨_, _, h⟩ := Option.bind_eq_some_iff.mp h
      exact .skips ['\\', 'U', a, b, c, d, e, f, g] (.prepend h ih)
  | case5 c later _ _ ih =>
      obtain ⟨_, _, h⟩ := Option.bind_eq_some_iff.mp h
      exact .skip _ (.prepend h ih)
  | case6 c later _ _ _ _ plain ih => exact .prepend h ih
  | case7 => cases h

theorem condensed_of_trailingQuotes {quote : Char}
    (h : trailingQuotes quote chars = (content, rest)) : Condensed chars content rest := by
  unfold trailingQuotes at h
  split at h
  · split at h
    · split at h <;> cases h
      · exact .keep _ _ (.keep _ _ (.done _))
      · exact .keep _ _ (.done _)
    · cases h
      exact .done _
  · split at h <;> cases h
    · exact .keep _ _ (.done _)
    · exact .done _
  · cases h
    exact .done _

theorem condensed_of_basicLinesRest {skipping : Bool}
    (h : basicLinesRest skipping chars = some (content, rest)) :
    Condensed chars content rest := by
  fun_induction basicLinesRest generalizing content with
  | case1 => cases h
  | case2 skipping later =>
      exact .skips ['"', '"', '"'] (condensed_of_trailingQuotes (Option.some.inj h))
  | case3 later ih => exact .skip _ (.skip _ (ih h))
  | case4 skipping later _ ih => exact .skip _ (.prepend h ih)
  | case5 later ih => exact .skip _ (ih h)
  | case6 skipping later _ ih => exact .prepend h ih
  | case7 skipping a b c d later ih =>
      obtain ⟨_, _, h⟩ := Option.bind_eq_some_iff.mp h
      exact .skips ['\\', 'u', a, b, c] (.prepend h ih)
  | case8 skipping a b c d e f g last later ih =>
      obtain ⟨_, _, h⟩ := Option.bind_eq_some_iff.mp h
      exact .skips ['\\', 'U', a, b, c, d, e, f, g] (.prepend h ih)
  | case9 skipping c later _ _ _ ih => exact .skip _ (ih h)
  | case10 skipping c later _ _ _ ih =>
      obtain ⟨_, _, h⟩ := Option.bind_eq_some_iff.mp h
      exact .skip _ (.prepend h ih)
  | case11 skipping c later _ _ _ _ _ _ _ ih => exact .skip _ (ih h)
  | case12 skipping c later _ _ _ _ _ _ _ _ ih => exact .prepend h ih
  | case13 => cases h

theorem condensed_of_literalLinesRest (h : literalLinesRest chars = some (content, rest)) :
    Condensed chars content rest := by
  fun_induction literalLinesRest generalizing content with
  | case1 => cases h
  | case2 later =>
      exact .skips ['\'', '\'', '\''] (condensed_of_trailingQuotes (Option.some.inj h))
  | case3 later ih => exact .skip _ (.prepend h ih)
  | case4 later ih => exact .prepend h ih
  | case5 c later _ _ _ _ ih => exact .prepend h ih
  | case6 => cases h

theorem dropFirstNewline_suffix (chars : List Char) : dropFirstNewline chars <:+ chars := by
  unfold dropFirstNewline
  cases h : dropNewline? chars with
  | none => exact List.suffix_rfl
  | some rest => exact suffix_of_dropNewline? h

theorem condensed_of_readString (h : readString chars = some (content, rest)) :
    Condensed chars content rest := by
  have lines {later : List Char} (read : Condensed (dropFirstNewline later) content rest) :
      Condensed later content rest := .of_suffix (dropFirstNewline_suffix later) read
  unfold readString at h
  split at h
  · exact .skips ['"', '"', '"'] (lines (condensed_of_basicLinesRest h))
  · exact .skip _ (condensed_of_basicRest h)
  · exact .skips ['\'', '\'', '\''] (lines (condensed_of_literalLinesRest h))
  · exact .skip _ (condensed_of_literalRest h)
  · cases h

/-! ## Paths -/

theorem suffix_of_readKey {key : String} (h : readKey chars = some (key, rest)) :
    rest <:+ chars := by
  unfold readKey at h
  split at h
  · obtain ⟨⟨_, _⟩, read, same⟩ := Option.map_eq_some_iff.mp h
    cases same
    exact (condensed_of_basicRest read).suffix.trans (List.suffix_cons ..)
  · obtain ⟨⟨_, _⟩, read, same⟩ := Option.map_eq_some_iff.mp h
    cases same
    exact (condensed_of_literalRest read).suffix.trans (List.suffix_cons ..)
  · dsimp only at h
    split at h <;> cases h
    exact List.dropWhile_suffix isBareKeyChar

theorem suffix_of_readKeys {count : Nat} {path : List String}
    (h : readKeys count chars = some (path, rest)) : rest <:+ chars := by
  induction count generalizing chars path with
  | zero => cases h
  | succ count ih =>
      obtain ⟨⟨key, later⟩, first, h⟩ := Option.bind_eq_some_iff.mp h
      have start := ((dropBlanks_suffix later).trans (suffix_of_readKey first)).trans
        (dropBlanks_suffix chars)
      dsimp only at h
      split at h
      next behind point =>
        obtain ⟨⟨keys, left⟩, others, same⟩ := Option.bind_eq_some_iff.mp h
        cases same
        have passed : behind <:+ dropBlanks later := point ▸ List.suffix_cons ..
        exact ((ih others).trans passed).trans start
      next =>
        cases h
        exact start

theorem suffix_of_readPath {path : List String} (h : readPath chars = some (path, rest)) :
    rest <:+ chars :=
  suffix_of_readKeys h

/-! ## Values -/

/-- Whether what a reader leaves is the end of what it is given. -/
def Reader.LeavesEnd {α : Type} (read : Reader α) : Prop :=
  ∀ {chars : List Char} {value : α} {rest : List Char},
    read chars = some (value, rest) → rest <:+ chars

/-- What is read is a date with its time behind a blank, or what all of the atom spells. -/
theorem cases_of_readAtom {value : Value} (h : readAtom chars = some (value, rest)) :
    (∃ date after, value = .dateTime date ∧ chars.dropWhile isAtomChar = ' ' :: after ∧
      rest = after.dropWhile isAtomChar) ∨
    Value.ofAtom? (chars.takeWhile isAtomChar) = some value ∧
      rest = chars.dropWhile isAtomChar := by
  have alone (h : (Value.ofAtom? (chars.takeWhile isAtomChar)).map
      (fun value => (value, chars.dropWhile isAtomChar)) = some (value, rest)) :
      Value.ofAtom? (chars.takeWhile isAtomChar) = some value ∧
        rest = chars.dropWhile isAtomChar := by
    obtain ⟨_, spelled, same⟩ := Option.map_eq_some_iff.mp h
    cases same
    exact ⟨spelled, rfl⟩
  unfold readAtom at h
  dsimp only at h
  split at h
  next after blank =>
    split at h
    next date _ =>
      cases h
      exact .inl ⟨date, after, rfl, blank, rfl⟩
    next => exact .inr (alone h)
  next => exact .inr (alone h)

theorem readAtom_leavesEnd : Reader.LeavesEnd readAtom := by
  intro chars value rest h
  rcases cases_of_readAtom h with ⟨date, after, _, blank, rfl⟩ | ⟨_, rfl⟩
  · have front : after <:+ chars :=
      (blank ▸ List.suffix_cons ..).trans (List.dropWhile_suffix isAtomChar)
    exact (List.dropWhile_suffix isAtomChar).trans front
  · exact List.dropWhile_suffix isAtomChar

theorem ne_string_of_readAtom {value : Value} (h : readAtom chars = some (value, rest))
    (text : String) : value ≠ .string text := by
  rintro rfl
  rcases cases_of_readAtom h with ⟨_, _, ⟨⟩, _⟩ | ⟨spelled, _⟩
  unfold Value.ofAtom? at spelled
  repeat' split at spelled
  all_goals cases spelled

theorem readItems_leavesEnd {item : Reader Value} (leaves : item.LeavesEnd) (count : Nat) :
    (readItems item count).LeavesEnd := by
  induction count with
  | zero => exact nofun
  | succ count ih =>
      intro chars values rest h
      obtain ⟨start, gap, h⟩ := Option.bind_eq_some_iff.mp h
      have before := suffix_of_dropGap gap
      split at h
      next =>
        cases h
        exact (List.suffix_cons ..).trans before
      next =>
        obtain ⟨⟨value, later⟩, first, h⟩ := Option.bind_eq_some_iff.mp h
        obtain ⟨behind, gap, h⟩ := Option.bind_eq_some_iff.mp h
        have passed := ((suffix_of_dropGap gap).trans (leaves first)).trans before
        split at h
        next =>
          obtain ⟨⟨others, left⟩, further, same⟩ := Option.bind_eq_some_iff.mp h
          cases same
          exact ((ih further).trans (List.suffix_cons ..)).trans passed
        next =>
          cases h
          exact (List.suffix_cons ..).trans passed
        next => cases h

theorem readEntries_leavesEnd {item : Reader Value} (leaves : item.LeavesEnd) (count : Nat)
    (entries : List (String × InlineNode)) : (readEntries item entries count).LeavesEnd := by
  induction count generalizing entries with
  | zero => exact nofun
  | succ count ih =>
      intro chars values rest h
      obtain ⟨⟨path, front⟩, key, h⟩ := Option.bind_eq_some_iff.mp h
      obtain ⟨equals, mark, h⟩ := Option.bind_eq_some_iff.mp h
      obtain ⟨⟨value, later⟩, given, h⟩ := Option.bind_eq_some_iff.mp h
      obtain ⟨added, _, h⟩ := Option.bind_eq_some_iff.mp h
      have passed : dropBlanks later <:+ chars :=
        (dropBlanks_suffix later).trans <| (leaves given).trans <|
          (dropBlanks_suffix equals).trans <| (suffix_of_dropMark? mark).trans <|
          suffix_of_readPath key
      split at h
      next behind comma => exact (ih _ h).trans ((comma ▸ List.suffix_cons ..).trans passed)
      next left brace =>
        cases h
        exact (brace ▸ List.suffix_cons ..).trans passed
      next => cases h

/-- What is read is an array, an inline table, a string or an atom. -/
theorem cases_of_readValue {depth : Nat} {value : Value}
    (h : readValue depth chars = some (value, rest)) :
    (∃ inner later items, depth = inner + 1 ∧ chars = '[' :: later ∧ value = .array items ∧
      readItems (readValue inner) later.length later = some (items, rest)) ∨
    (∃ inner later entries, depth = inner + 1 ∧ chars = '\x7b' :: later ∧
      value = .table (InlineNode.toEntries entries) ∧
      (entries = [] ∧ dropBlanks later = '\x7d' :: rest ∨
        readEntries (readValue inner) [] later.length (dropBlanks later) = some (entries, rest))) ∨
    (∃ text, value = .string (.ofList text) ∧ readString chars = some (text, rest)) ∨
    readAtom chars = some (value, rest) := by
  have string (h : (readString chars).map (fun read => (.string (.ofList read.1), read.2)) =
      some (value, rest)) :
      ∃ text, value = .string (.ofList text) ∧ readString chars = some (text, rest) := by
    obtain ⟨⟨text, _⟩, read, same⟩ := Option.map_eq_some_iff.mp h
    cases same
    exact ⟨text, rfl, read⟩
  unfold readValue at h
  split at h
  next => cases h
  next => cases h
  next inner later =>
    obtain ⟨⟨items, _⟩, read, same⟩ := Option.map_eq_some_iff.mp h
    cases same
    exact .inl ⟨inner, later, items, rfl, rfl, rfl, read⟩
  next inner later =>
    split at h
    next left brace =>
      cases h
      exact .inr (.inl ⟨inner, later, [], rfl, rfl, rfl, .inl ⟨rfl, brace⟩⟩)
    next =>
      obtain ⟨⟨entries, _⟩, read, same⟩ := Option.map_eq_some_iff.mp h
      cases same
      exact .inr (.inl ⟨inner, later, entries, rfl, rfl, rfl, .inr read⟩)
  next => exact .inr (.inr (.inl (string h)))
  next => exact .inr (.inr (.inl (string h)))
  next => exact .inr (.inr (.inr h))

/-- Arrays and inline tables read what they hold with less depth. -/
theorem readValue_leavesEnd (depth : Nat) : (readValue depth).LeavesEnd := by
  induction depth using Nat.strongRecOn with
  | ind depth ih =>
    intro chars value rest h
    rcases cases_of_readValue h with ⟨inner, later, items, rfl, rfl, _, read⟩ |
      ⟨inner, later, entries, rfl, rfl, _, ⟨_, brace⟩ | read⟩ | ⟨text, _, read⟩ | read
    · exact (readItems_leavesEnd (ih inner inner.lt_succ_self) _ read).trans (List.suffix_cons ..)
    · have left : rest <:+ later :=
        (brace ▸ List.suffix_cons ..).trans (dropBlanks_suffix later)
      exact left.trans (List.suffix_cons ..)
    · have left : rest <:+ later :=
        (readEntries_leavesEnd (ih inner inner.lt_succ_self) _ _ read).trans
          (dropBlanks_suffix later)
      exact left.trans (List.suffix_cons ..)
    · exact (condensed_of_readString read).suffix
    · exact readAtom_leavesEnd read

theorem length_le_of_readValue_string {depth : Nat} {text : String}
    (h : readValue depth chars = some (.string text, rest)) :
    text.toList.length + rest.length ≤ chars.length := by
  rcases cases_of_readValue h with ⟨_, _, _, _, _, ⟨⟩, _⟩ | ⟨_, _, _, _, _, ⟨⟩, _⟩ |
    ⟨content, same, read⟩ | read
  · cases same
    rw [String.toList_ofList]
    exact (condensed_of_readString read).length_le
  · exact absurd rfl (ne_string_of_readAtom read text)

end PhasedUpgrade.Toml
