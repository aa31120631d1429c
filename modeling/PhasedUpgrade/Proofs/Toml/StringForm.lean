import PhasedUpgrade.Toml.StringForm

/-!
# Strings and keys that are read back

Whatever form a text is written in, the reader gets the text back and leaves what follows it, as
long as that does not begin with a quote. A key is read back from in front of whatever cannot go on
with it.
-/

namespace PhasedUpgrade.Toml

/-! ## Characters -/

theorem isPlain_of_not_isControl {c : Char} (visible : isControl c = false) : isPlain c = true := by
  simp only [isControl, Bool.or_eq_false_iff, decide_eq_false_iff_not, beq_eq_false_iff_ne,
    UInt32.not_le, UInt32.lt_iff_toNat_lt] at visible
  have low : 0x20 ≤ c.val := by
    rw [UInt32.le_iff_toNat_le]
    exact visible.1
  simp [isPlain, low, visible.2]

theorem toNat_lt_of_isControl {c : Char} (control : isControl c = true) : c.toNat < 128 := by
  simp only [isControl, Bool.or_eq_true, decide_eq_true_eq, beq_iff_eq,
    UInt32.le_iff_toNat_le] at control
  show c.val.toNat < 128
  rcases control with low | delete
  · have low : c.val.toNat ≤ 31 := low
    omega
  · rw [delete]
    decide

theorem ne_newline_of_isPlain {c : Char} (plain : isPlain c = true) : c ≠ '\n' ∧ c ≠ '\r' := by
  constructor <;> rintro rfl <;> exact absurd plain (by decide)

/-- Whether a key, a value or what stands between values may begin with a character. -/
def Opens (c : Char) : Prop :=
  isBareKeyChar c = true ∨ c ∈ ['"', '\'', '[', ',', ']']

theorem Opens.visible {c : Char} (opens : Opens c) :
    isBlank c = false ∧ c ≠ '#' ∧ c ≠ '\n' ∧ c ≠ '\r' := by
  have silent : ∀ mark ∈ [' ', '\t', '#', '\n', '\r'], ¬ Opens mark := by
    simp [Opens, isBareKeyChar]
  have differ : ∀ mark ∈ [' ', '\t', '#', '\n', '\r'], c ≠ mark := by
    rintro mark mem rfl
    exact silent c mem opens
  simp_all [isBlank]

/-- No escape begins with a quote or a line end. -/
theorem exists_escapedChar (c : Char) : ∃ first others, escapedChar c = first :: others ∧
    first ≠ '"' ∧ first ≠ '\n' ∧ first ≠ '\r' := by
  unfold escapedChar
  split
  case h_8 =>
    split
    next => exact ⟨'\\', _, rfl, by decide⟩
    next => exact ⟨c, [], rfl, by assumption, by assumption, by assumption⟩
  all_goals exact ⟨'\\', _, rfl, by decide⟩

theorem exists_code {c : Char} (control : isControl c = true) : ∃ first second third fourth,
    (Text.hexChars 4 c.toNat).map Char.toUpper = [first, second, third, fourth] ∧
      codeChar? [first, second, third, fourth] = some c := by
  have each : ∀ n < 128,
      codeChar? ((Text.hexChars 4 n).map Char.toUpper) = some (.ofNat n) := by decide
  have denoted := each c.toNat (toNat_lt_of_isControl control)
  rw [Char.ofNat_toNat] at denoted
  exact ⟨_, _, _, _, rfl, denoted⟩

/-! ## Strings on one line -/

section

variable {c : Char} {chars : List Char} (rest : List Char)

theorem basicRest_plain (plain : isPlain c = true) (unquoted : c ≠ '"') (raw : c ≠ '\\') :
    basicRest (c :: rest) = prepend c (basicRest rest) := by
  rw [basicRest.eq_def (c :: rest)]
  split <;> simp_all

theorem basicRest_escapedChar (c : Char) :
    basicRest (escapedChar c ++ rest) = prepend c (basicRest rest) := by
  unfold escapedChar
  split
  case h_8 =>
    split
    next control =>
      obtain ⟨_, _, _, _, digits, denoted⟩ := exists_code control
      rw [digits]
      show (codeChar? _).bind _ = _
      rw [denoted]
      rfl
    next visible =>
      exact basicRest_plain rest (isPlain_of_not_isControl (by simpa using visible))
        (by assumption) (by assumption)
  all_goals rfl

theorem basicRest_escaped (chars : List Char) :
    basicRest (chars.flatMap escapedChar ++ '"' :: rest) = some (chars, rest) := by
  induction chars with
  | nil => rfl
  | cons c chars ih =>
      rw [List.flatMap_cons, List.append_assoc, basicRest_escapedChar, ih]
      rfl

theorem literalRest_plain (plain : chars.all isPlain = true) (unquoted : '\'' ∉ chars) :
    literalRest (chars ++ '\'' :: rest) = some (chars, rest) := by
  induction chars with
  | nil => rfl
  | cons c chars ih =>
      simp only [List.all_cons, Bool.and_eq_true] at plain
      simp only [List.mem_cons, not_or] at unquoted
      simp [literalRest, plain.1, Ne.symm unquoted.1, ih plain.2 unquoted.2, prepend]

end

/-! ## Strings over several lines -/

section

variable {c : Char} {chars rest : List Char}

theorem trailingQuotes_replicate {quote : Char} (other : c ≠ quote) {count : Nat}
    (few : count ≤ 2) :
    trailingQuotes quote (List.replicate count quote ++ c :: rest) =
      (List.replicate count quote, c :: rest) := by
  match count, few with
  | 0, _ => cases rest <;> simp [trailingQuotes, other]
  | 1, _ => simp [List.replicate, trailingQuotes, other]
  | 2, _ => simp [List.replicate, trailingQuotes]

theorem basicLinesRest_plain (plain : isPlain c = true) (raw : c ≠ '\\')
    (few : (c :: rest).take 3 ≠ ['"', '"', '"']) :
    basicLinesRest false (c :: rest) = prepend c (basicLinesRest false rest) := by
  have same := ne_newline_of_isPlain plain
  rw [basicLinesRest.eq_def]
  split <;> simp_all

theorem literalLinesRest_plain (plain : isPlain c = true)
    (few : (c :: rest).take 3 ≠ ['\'', '\'', '\'']) :
    literalLinesRest (c :: rest) = prepend c (literalLinesRest rest) := by
  have same := ne_newline_of_isPlain plain
  rw [literalLinesRest.eq_def]
  split <;> simp_all

theorem basicLinesRest_escapedChar (c : Char) (rest : List Char) :
    basicLinesRest false (escapedChar c ++ rest) = prepend c (basicLinesRest false rest) := by
  unfold escapedChar
  split
  case h_8 =>
    split
    next control =>
      obtain ⟨_, _, _, _, digits, denoted⟩ := exists_code control
      rw [digits]
      show (codeChar? _).bind _ = _
      rw [denoted]
      rfl
    next visible =>
      refine basicLinesRest_plain (isPlain_of_not_isControl (by simpa using visible))
        (by assumption) ?_
      simp_all
  all_goals rfl

theorem escapedLines_cons (unquoted : c ≠ '"') (other : c ≠ '\n') {count : Nat} :
    escapedLines count (c :: chars) = escapedChar c ++ escapedLines 0 chars := by
  rw [escapedLines]
  · exact unquoted
  · exact other

/-- Up to two quotes belong to the text if what follows them spells a character of its own. -/
theorem basicLinesRest_replicate {count : Nat} (few : count ≤ 2) {piece tail content : List Char}
    (opens : ∃ first others, piece = first :: others ∧ first ≠ '"')
    (spells : basicLinesRest false (piece ++ tail) = prepend c (basicLinesRest false tail))
    (later : basicLinesRest false tail = some (content, rest)) :
    basicLinesRest false (List.replicate count '"' ++ (piece ++ tail)) =
      some (List.replicate count '"' ++ c :: content, rest) := by
  induction count with
  | zero => simp [spells, later, prepend]
  | succ count ih =>
      have short : (List.replicate (count + 1) '"' ++ (piece ++ tail)).take 3 ≠
          ['"', '"', '"'] := by
        obtain ⟨first, others, rfl, other⟩ := opens
        match count, few with
        | 0, _ => simp [List.replicate, other]
        | 1, _ => simp [List.replicate, other]
      rw [List.replicate_succ, List.cons_append] at short ⊢
      rw [basicLinesRest_plain (by decide) (by decide) short, ih (by omega)]
      rfl

/-- Of three quotes in a row the third is escaped, so that the first three that are not close. -/
theorem basicLinesRest_escapedLines (chars : List Char) {count : Nat} (few : count ≤ 2)
    (other : c ≠ '"') (rest : List Char) :
    basicLinesRest false (List.replicate count '"' ++ (escapedLines count chars ++
      ('"' :: '"' :: '"' :: c :: rest))) = some (List.replicate count '"' ++ chars, c :: rest) := by
  induction chars generalizing count with
  | nil =>
      have closed : basicLinesRest false ('"' :: '"' :: '"' :: (List.replicate count '"' ++
          c :: rest)) = some (trailingQuotes '"' (List.replicate count '"' ++ c :: rest)) := rfl
      rw [trailingQuotes_replicate other few] at closed
      rw [escapedLines, List.append_nil, ← closed]
      match count, few with
      | 0, _ | 1, _ | 2, _ => rfl
  | cons d chars ih =>
      have later := ih (Nat.zero_le 2)
      have step {piece : List Char}
          (same : escapedLines count (d :: chars) = piece ++ escapedLines 0 chars)
          (opens : ∃ first others, piece = first :: others ∧ first ≠ '"')
          (spells : ∀ tail, basicLinesRest false (piece ++ tail) =
            prepend d (basicLinesRest false tail)) :
          basicLinesRest false (List.replicate count '"' ++ (escapedLines count (d :: chars) ++
            ('"' :: '"' :: '"' :: c :: rest))) =
              some (List.replicate count '"' ++ d :: chars, c :: rest) := by
        rw [same, List.append_assoc]
        exact basicLinesRest_replicate few opens (spells _) later
      by_cases quote : d = '"'
      · subst quote
        by_cases third : count = 2
        · subst third
          exact step rfl ⟨'\\', ['"'], rfl, by decide⟩ fun _ => rfl
        · have more := ih (show count + 1 ≤ 2 by omega)
          rw [List.replicate_succ', List.append_assoc, List.append_assoc] at more
          rw [escapedLines, if_neg third]
          exact more
      · by_cases newline : d = '\n'
        · subst newline
          exact step rfl ⟨'\n', [], rfl, by decide⟩ fun _ => rfl
        · obtain ⟨first, others, escaped, unquoted, _⟩ := exists_escapedChar d
          exact step (escapedLines_cons quote newline)
            ⟨first, others, escaped, unquoted⟩ (basicLinesRest_escapedChar d)

/-- The first three quotes in a row close the text, of which up to two more belong to it. -/
theorem literalLinesRest_spelled (plain : ∀ d ∈ chars, isPlain d = true ∨ d = '\n')
    (single : hasTriple '\'' chars = false) (other : c ≠ '\'') (rest : List Char) :
    literalLinesRest (chars ++ ('\'' :: '\'' :: '\'' :: c :: rest)) = some (chars, c :: rest) := by
  have closed {count : Nat} (few : count ≤ 2) :
      literalLinesRest ('\'' :: '\'' :: '\'' :: (List.replicate count '\'' ++ c :: rest)) =
        some (List.replicate count '\'', c :: rest) :=
    congrArg some (trailingQuotes_replicate other few)
  induction chars with
  | nil => exact closed (Nat.zero_le 2)
  | cons d chars ih =>
      simp only [hasTriple, Bool.or_eq_false_iff, beq_eq_false_iff_ne] at single
      have later := ih (fun e mem => plain e (List.mem_cons_of_mem d mem)) single.2
      by_cases closes : (d :: (chars ++ ['\'', '\'', '\''])).take 3 = ['\'', '\'', '\'']
      · match chars with
        | [] =>
            obtain rfl : d = '\'' := by simpa using closes
            exact closed (show 1 ≤ 2 by decide)
        | [e] =>
            obtain ⟨rfl, rfl⟩ : d = '\'' ∧ e = '\'' := by simpa using closes
            exact closed (show 2 ≤ 2 by decide)
        | _ :: _ :: _ => simp_all
      · have front : (d :: (chars ++ ('\'' :: '\'' :: '\'' :: c :: rest))).take 3 =
            (d :: (chars ++ ['\'', '\'', '\''])).take 3 := by
          have cut : d :: (chars ++ ('\'' :: '\'' :: '\'' :: c :: rest)) =
              (d :: (chars ++ ['\'', '\'', '\''])) ++ c :: rest := by simp
          rw [cut]
          exact List.take_append_of_le_length (by simp)
        rcases plain d List.mem_cons_self with here | newline
        · rw [List.cons_append, literalLinesRest_plain here (front ▸ closes), later]
          rfl
        · subst newline
          show prepend '\n' (literalLinesRest (chars ++ _)) = _
          rw [later]
          rfl

theorem dropFirstNewline_of_ne {first : Char} {others : List Char} (other : first ≠ '\n')
    (mark : first ≠ '\r') : dropFirstNewline (first :: others) = first :: others := by
  simp [dropFirstNewline, dropNewline?, other, mark]

/-- The line feed that is put in front of a text with line feeds is dropped again. -/
theorem dropFirstNewline_between {content tail : List Char}
    (opens : '\n' ∉ chars → ∃ first others, content ++ tail = first :: others ∧
      first ≠ '\n' ∧ first ≠ '\r') :
    dropFirstNewline ((if chars.contains '\n' then '\n' :: content else content) ++ tail) =
      content ++ tail := by
  by_cases long : '\n' ∈ chars
  · rw [if_pos (by simpa using long)]
    rfl
  · obtain ⟨first, others, same, other, mark⟩ := opens long
    rw [if_neg (by simpa using long), same, dropFirstNewline_of_ne other mark]

end

/-! ## All forms -/

/-- What a text has to be like for a form to show it. -/
def StringForm.Shows (chars : List Char) : StringForm → Prop
  | basic | basicLines => True
  | literal => chars.all isPlain = true ∧ '\'' ∉ chars
  | literalLines => (∀ d ∈ chars, isPlain d = true ∨ d = '\n') ∧ hasTriple '\'' chars = false

/-- A text is written without escapes only if nothing in it needs one. -/
theorem StringForm.shows_of (chars : List Char) : (StringForm.of chars).Shows chars := by
  have plain (raw : (!chars.any needsEscape) = true) :
      ∀ d ∈ chars, isPlain d = true ∨ d = '\n' := by
    intro d mem
    by_cases control : isControl d = true
    · have kept : needsEscape d = false := by simp_all
      by_cases tab : d = '\t'
      · exact .inl (tab ▸ by decide)
      · exact .inr (by simp_all [needsEscape])
    · exact .inl (isPlain_of_not_isControl (by simpa using control))
  unfold StringForm.of
  dsimp only
  split
  next => exact trivial
  next =>
    split
    next h =>
      simp only [Bool.and_eq_true, Bool.not_eq_true', List.contains_eq_mem,
        decide_eq_false_iff_not] at h
      refine ⟨List.all_eq_true.mpr fun d mem => ?_, h.1.2⟩
      exact (plain (by simp [h.1.1]) d mem).resolve_right fun same => h.2 (same ▸ mem)
    next =>
      split
      next => exact trivial
      next =>
        split
        next h =>
          simp only [Bool.and_eq_true, Bool.not_eq_true'] at h
          exact ⟨plain (by simp [h.1]), h.2⟩
        next => split <;> exact trivial

section

variable {text : List Char}

theorem readString_double (few : text.take 2 ≠ ['"', '"']) :
    readString ('"' :: text) = basicRest text := by
  unfold readString
  split <;> simp_all

theorem readString_single (few : text.take 2 ≠ ['\'', '\'']) :
    readString ('\'' :: text) = literalRest text := by
  unfold readString
  split <;> simp_all

end

theorem StringForm.readString_chars {form : StringForm} {chars : List Char}
    (shows : form.Shows chars) {c : Char} (double : c ≠ '"') (single : c ≠ '\'')
    (rest : List Char) :
    readString (form.chars chars ++ c :: rest) = some (chars, c :: rest) := by
  cases form with
  | basic =>
      have few : (chars.flatMap escapedChar ++ '"' :: c :: rest).take 2 ≠ ['"', '"'] := by
        cases chars with
        | nil => simp [double]
        | cons d chars =>
            obtain ⟨first, others, escaped, other, _⟩ := exists_escapedChar d
            simp [escaped, other]
      simp only [StringForm.chars, List.cons_append, List.append_assoc, List.nil_append]
      rw [readString_double few, basicRest_escaped]
  | literal =>
      obtain ⟨plain, unquoted⟩ := shows
      have few : (chars ++ '\'' :: c :: rest).take 2 ≠ ['\'', '\''] := by
        cases chars with
        | nil => simp [single]
        | cons d chars =>
            have other : d ≠ '\'' := fun same => unquoted (same ▸ List.mem_cons_self)
            simp [other]
      simp only [StringForm.chars, List.cons_append, List.append_assoc, List.nil_append]
      rw [readString_single few, literalRest_plain _ plain unquoted]
  | basicLines =>
      have read := basicLinesRest_escapedLines chars (Nat.zero_le 2) double rest
      simp only [StringForm.chars, betweenTriples, List.cons_append, List.append_assoc,
        List.nil_append]
      show basicLinesRest false (dropFirstNewline _) = _
      rw [dropFirstNewline_between]
      · exact read
      · intro short
        cases chars with
        | nil => exact ⟨'"', _, rfl, by decide⟩
        | cons d chars =>
            have other : d ≠ '\n' := fun same => short (same ▸ List.mem_cons_self)
            by_cases quote : d = '"'
            · subst quote
              exact ⟨'"', _, rfl, by decide⟩
            · obtain ⟨first, others, escaped, _, ends⟩ := exists_escapedChar d
              rw [escapedLines_cons quote other, escaped]
              exact ⟨first, _, rfl, ends⟩
  | literalLines =>
      obtain ⟨plain, triple⟩ := shows
      have read := literalLinesRest_spelled plain triple single rest
      simp only [StringForm.chars, betweenTriples, List.cons_append, List.append_assoc,
        List.nil_append]
      show literalLinesRest (dropFirstNewline _) = _
      rw [dropFirstNewline_between, read]
      intro short
      cases chars with
      | nil => exact ⟨'\'', _, rfl, by decide⟩
      | cons d chars =>
          have other : d ≠ '\n' := fun same => short (same ▸ List.mem_cons_self)
          have here := (plain d List.mem_cons_self).resolve_right other
          exact ⟨d, _, rfl, ne_newline_of_isPlain here⟩

theorem exists_stringChars (chars : List Char) : ∃ quote others,
    stringChars chars = quote :: others ∧ (quote = '"' ∨ quote = '\'') := by
  unfold stringChars
  cases StringForm.of chars with
  | basic | basicLines => exact ⟨'"', _, rfl, .inl rfl⟩
  | literal | literalLines => exact ⟨'\'', _, rfl, .inr rfl⟩

/-- A text is read back from what it is written as. -/
theorem readString_stringChars (chars : List Char) {c : Char} (double : c ≠ '"')
    (single : c ≠ '\'') (rest : List Char) :
    readString (stringChars chars ++ c :: rest) = some (chars, c :: rest) :=
  StringForm.readString_chars (StringForm.shows_of chars) double single rest

/-! ## Keys -/

/-- A key begins with a character of a word or with a quote. -/
theorem exists_keyChars (key : String) : ∃ first others, keyChars key = first :: others ∧
    Opens first ∧ first ≠ '[' := by
  unfold keyChars
  dsimp only
  split
  next bare =>
    cases chars : key.toList with
    | nil => simp [chars] at bare
    | cons first others =>
        simp only [chars, List.all_cons, Bool.and_eq_true] at bare
        refine ⟨first, others, rfl, .inl bare.2.1, ?_⟩
        rintro rfl
        exact absurd bare.2.1 (by decide)
  next =>
    split
    next => exact ⟨'\'', _, rfl, by simp [Opens], by decide⟩
    next => exact ⟨'"', _, rfl, by simp [Opens], by decide⟩

/-- What characters of one sort make up is cut off in front of one of another sort. -/
theorem cut_before {sort : Char → Bool} {chars : List Char} (all : ∀ c ∈ chars, sort c = true)
    {c : Char} (other : sort c = false) (rest : List Char) :
    (chars ++ c :: rest).takeWhile sort = chars ∧
      (chars ++ c :: rest).dropWhile sort = c :: rest := by
  constructor
  · rw [List.takeWhile_append_of_pos all, List.takeWhile_cons_of_neg (by simp [other]),
      List.append_nil]
  · rw [List.dropWhile_append_of_pos all, List.dropWhile_cons_of_neg (by simp [other])]

theorem readKey_bare {chars : List Char} (nonempty : chars ≠ [])
    (bare : ∀ c ∈ chars, isBareKeyChar c = true) {c : Char} (other : isBareKeyChar c = false)
    (rest : List Char) : readKey (chars ++ c :: rest) = some (.ofList chars, c :: rest) := by
  obtain ⟨taken, left⟩ := cut_before bare other rest
  have unquoted {quote : Char} {tail : List Char} (h : chars ++ c :: rest = quote :: tail) :
      isBareKeyChar quote = true := by
    obtain ⟨first, others, rfl⟩ := List.exists_cons_of_ne_nil nonempty
    rw [← (List.cons.inj h).1]
    exact bare first List.mem_cons_self
  unfold readKey
  split
  next quoted => exact absurd (unquoted quoted) (by decide)
  next quoted => exact absurd (unquoted quoted) (by decide)
  next => simp [taken, left, nonempty]

theorem readKey_keyChars (key : String) {c : Char} (other : isBareKeyChar c = false)
    (rest : List Char) : readKey (keyChars key ++ c :: rest) = some (key, c :: rest) := by
  unfold keyChars
  dsimp only
  split
  next bare =>
    simp only [Bool.and_eq_true, Bool.not_eq_true', List.isEmpty_eq_false_iff,
      List.all_eq_true] at bare
    rw [readKey_bare bare.1 bare.2 other, String.ofList_toList]
  next =>
    split
    next literal =>
      simp only [Bool.and_eq_true, List.all_eq_true, bne_iff_ne] at literal
      have read := literalRest_plain (c :: rest)
        (List.all_eq_true.mpr fun d mem => (literal.2 d mem).1)
        fun mem => (literal.2 _ mem).2 rfl
      simp only [StringForm.chars, List.cons_append, List.append_assoc, List.nil_append]
      show (literalRest _).map _ = _
      simp only [read, Option.map_some, String.ofList_toList]
    next =>
      simp only [StringForm.chars, List.cons_append, List.append_assoc, List.nil_append]
      show (basicRest _).map _ = _
      simp only [basicRest_escaped, Option.map_some, String.ofList_toList]

end PhasedUpgrade.Toml
