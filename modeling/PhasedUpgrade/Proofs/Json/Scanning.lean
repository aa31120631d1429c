import PhasedUpgrade.Proofs.Json.Spelling

/-!
# Scanning what is written

The text of a value is scanned into the tokens of the value, whatever follows it, as long as that
does not go on with its last token.
-/

namespace PhasedUpgrade.Json

open Scan

/-! ## Characters of strings -/

theorem Char.not_surrogate (c : Char) : c.toNat < 0xD800 ∨ 0xE000 ≤ c.toNat := by
  have valid : c.toNat < 0xD800 ∨ 0xDFFF < c.toNat ∧ c.toNat < 0x110000 := c.valid
  omega

theorem joinSurrogates_map (chars : List Char) :
    joinSurrogates (chars.map Char.toNat) = some chars := by
  induction chars with
  | nil => rfl
  | cons c rest ih =>
      have whole := Char.not_surrogate c
      cases rest with
      | nil =>
          have single : ¬(0xD800 ≤ c.toNat ∧ c.toNat < 0xE000) := by omega
          simp only [List.map_cons, List.map_nil, joinSurrogates, if_neg single, Char.ofNat_toNat]
      | cons next more =>
          have notHigh : ¬(0xD800 ≤ c.toNat ∧ c.toNat < 0xDC00) := by omega
          have notLow : ¬(0xDC00 ≤ c.toNat ∧ c.toNat < 0xE000) := by omega
          rw [List.map_cons, List.map_cons] at *
          rw [joinSurrogates, if_neg notHigh, if_neg notLow, ih, Option.map_some, Char.ofNat_toNat]

/-- What a stray byte leaves in a string is not joined to anything, so the string has no text. -/
theorem joinSurrogates_stray (front rest : List Nat) :
    joinSurrogates (front ++ 0xD800 :: 0xD800 :: rest) = none := by
  induction front using joinSurrogates.induct with
  | case1 => rfl
  | case2 unit lone => simp [joinSurrogates]
  | case3 unit whole => simp [joinSurrogates]
  | case4 unit next more high low ih => simp [joinSurrogates, high, low, ih]
  | case5 unit next more high other => simp [joinSurrogates, high, other]
  | case6 unit next more notHigh low => simp [joinSurrogates, notHigh, low]
  | case7 unit next more notHigh notLow ih => simpa [joinSurrogates, notHigh, notLow] using ih

namespace Scan

theorem run_cons {state next : Scan} {c : Char} {made : List Token}
    (h : state.step c = some (made, next)) (rest : List Char) :
    state.run (c :: rest) = (next.run rest).map (made ++ ·) := by
  simp only [run, List.map_cons, runBytes, h, Option.bind_eq_bind, Option.bind_some]
  cases next.runBytes (rest.map some) <;> rfl

theorem run_cons_silent {state next : Scan} {c : Char} (h : state.step c = some ([], next))
    (rest : List Char) : state.run (c :: rest) = next.run rest := by
  rw [run_cons h]
  cases next.run rest <;> rfl

theorem run_code {code : Nat} (small : code < 0x20) (units : List Nat) (rest : List Char) :
    (Scan.code units 4 0).run (Text.hexChars 4 code ++ rest) =
      (Scan.text (code :: units)).run rest := by
  have digits : Text.hexChars 4 code =
      ['0', '0', Text.hexDigit (code / 16), Text.hexDigit (code % 16)] := by
    have high : code / 16 / 16 = 0 := by omega
    have low : code / 16 % 16 = code / 16 := by omega
    simp only [Text.hexChars, high, low, List.nil_append, List.cons_append]
    rfl
  have bounds : code / 16 < 16 ∧ code % 16 < 16 := by omega
  have upper := Text.hexValue?_hexDigit bounds.1
  have lower := Text.hexValue?_hexDigit bounds.2
  have value : 16 * (code / 16) + code % 16 = code := by omega
  have first : (Scan.code units 4 0).step '0' = some ([], .code units 3 0) := rfl
  have second : (Scan.code units 3 0).step '0' = some ([], .code units 2 0) := rfl
  have third : (Scan.code units 2 0).step (Text.hexDigit (code / 16)) =
      some ([], .code units 1 (code / 16)) := by simp [step, upper]
  have fourth : (Scan.code units 1 (code / 16)).step (Text.hexDigit (code % 16)) =
      some ([], .text (code :: units)) := by simp [step, lower, value]
  rw [digits]
  simp only [List.cons_append, List.nil_append]
  rw [run_cons_silent first, run_cons_silent second, run_cons_silent third, run_cons_silent fourth]

theorem run_escape {letter : Char} {unit : Nat} (h : escaped? letter = some unit)
    (units : List Nat) (rest : List Char) :
    (Scan.text units).run ('\\' :: letter :: rest) = (Scan.text (unit :: units)).run rest := by
  have named : letter ≠ 'u' := by
    intro same
    subst same
    cases h
  have escapes : (Scan.text units).step '\\' = some ([], .escape units) := rfl
  have told : (Scan.escape units).step letter = some ([], .text (unit :: units)) := by
    simp [step, named, h]
  rw [run_cons_silent escapes, run_cons_silent told]

theorem run_stringChar (c : Char) (units : List Nat) (rest : List Char) :
    (Scan.text units).run (stringChar c ++ rest) = (Scan.text (c.toNat :: units)).run rest := by
  unfold stringChar
  split
  · exact run_escape rfl units rest
  · exact run_escape rfl units rest
  · exact run_escape rfl units rest
  · exact run_escape rfl units rest
  · exact run_escape rfl units rest
  · exact run_escape rfl units rest
  · exact run_escape rfl units rest
  · next notQuote notBackslash _ _ _ _ _ =>
    split
    · next small =>
      have escapes : (Scan.text units).step '\\' = some ([], .escape units) := rfl
      have coded : (Scan.escape units).step 'u' = some ([], .code units 4 0) := rfl
      simp only [List.cons_append, List.nil_append]
      rw [run_cons_silent escapes, run_cons_silent coded, run_code small]
    · next large =>
      apply run_cons_silent
      rw [step, if_neg notQuote, if_neg notBackslash, if_neg large]

theorem run_stringChars (chars : List Char) (units : List Nat) (rest : List Char) :
    (Scan.text units).run (chars.flatMap stringChar ++ '"' :: rest) =
      (Scan.between.run rest).map
        (Token.string ((joinSurrogates ((units.reverse ++ chars.map Char.toNat))).map .ofList)
          :: ·) := by
  induction chars generalizing units with
  | nil =>
      have closes : (Scan.text units).step '"' =
          some ([.string ((joinSurrogates units.reverse).map .ofList)], .between) := by
        rw [step, if_pos rfl]
      rw [List.map_nil, List.append_nil]
      exact run_cons closes rest
  | cons c others ih =>
      rw [List.flatMap_cons, List.append_assoc, run_stringChar, ih]
      simp

theorem run_string (text : String) (rest : List Char) :
    Scan.between.run (stringChars text ++ rest) =
      (Scan.between.run rest).map (Token.string (some text) :: ·) := by
  have body : stringChars text ++ rest =
      '"' :: (text.toList.flatMap stringChar ++ '"' :: rest) := by
    simp [stringChars]
  have opens : Scan.between.step '"' = some ([], .text []) := rfl
  rw [body, run_cons_silent opens, run_stringChars, List.reverse_nil,
    List.nil_append, joinSurrogates_map]
  simp

/-! ## Values -/

def Ends (rest : List Char) : Prop :=
  ∀ c, rest.head? = some c → isNumeralChar c = false ∧ isWordChar c = false

theorem ends_nil : Ends [] := nofun

theorem ends_cons {c : Char} (h : isNumeralChar c = false ∧ isWordChar c = false)
    (rest : List Char) : Ends (c :: rest) := by
  intro first same
  exact Option.some.inj same ▸ h

/-- Characters that are scanned into some tokens, whatever follows. -/
def Scans (chars : List Char) (made : List Token) : Prop :=
  ∀ rest, Ends rest →
    Scan.between.run (chars ++ rest) = (Scan.between.run rest).map (made ++ ·)

theorem scans_nil : Scans [] [] := by
  intro rest _
  simp

theorem Scans.append {first second : List Char} {made more : List Token}
    (h : Scans first made) (later : Scans second more) (nonempty : second ≠ [])
    (ends : Ends second) : Scans (first ++ second) (made ++ more) := by
  intro rest closed
  have apart : Ends (second ++ rest) := by
    intro c same
    rw [List.head?_append_of_ne_nil _ nonempty] at same
    exact ends c same
  rw [List.append_assoc, h _ apart, later rest closed, Option.map_map]
  congr 1
  funext found
  simp

theorem Scans.cons {c : Char} {chars : List Char} {made more : List Token}
    (h : Scan.between.step c = some (made, .between)) (later : Scans chars more) :
    Scans (c :: chars) (made ++ more) := by
  intro rest closed
  rw [List.cons_append, run_cons h, later rest closed, Option.map_map]
  congr 1
  funext found
  simp

theorem Scans.string {chars : List Char} {more : List Token} (text : String)
    (later : Scans chars more) :
    Scans (stringChars text ++ chars) (.string (some text) :: more) := by
  intro rest closed
  rw [List.append_assoc, run_string, later rest closed, Option.map_map]
  rfl

theorem Scans.newLine {chars : List Char} {more : List Token} (level : Nat)
    (later : Scans chars more) : Scans (newLine level ++ chars) more := by
  have blank : Scan.between.step ' ' = some ([], .between) := rfl
  have feed : Scan.between.step '\n' = some ([], .between) := rfl
  have blanks (count : Nat) : Scans (List.replicate count ' ' ++ chars) more := by
    induction count with
    | zero => exact later
    | succ count ih => exact ih.cons blank
  exact (blanks (2 * level)).cons feed

theorem scans_string (text : String) : Scans (stringChars text) [.string (some text)] := by
  have alone := scans_nil.string text
  rwa [List.append_nil] at alone

/-! ### Numerals and words -/

/-- Scans in which characters of one kind are gathered for a token, and any other one ends it. -/
structure Gathers (state : List Char → Scan) (isPart : Char → Bool)
    (token? : List Char → Option Token) : Prop where
  step_part {c : Char} (gathered : List Char) :
    isPart c = true → (state gathered).step c = some ([], state (c :: gathered))
  step_other {c : Char} {gathered : List Char} {token : Token} :
    isPart c = false → token? gathered.reverse = some token →
      (state gathered).step c = (start c).map fun begun => (token :: begun.1, begun.2)
  finish_eq (gathered : List Char) :
    (state gathered).finish = (token? gathered.reverse).map ([·])

namespace Gathers

variable {state : List Char → Scan} {isPart : Char → Bool} {token? : List Char → Option Token}

theorem run_parts (gathers : Gathers state isPart token?) {gathered chars : List Char}
    (all : ∀ c ∈ chars, isPart c = true) (rest : List Char) :
    (state gathered).run (chars ++ rest) = (state (chars.reverse ++ gathered)).run rest := by
  induction chars generalizing gathered with
  | nil => rfl
  | cons c others ih =>
      obtain ⟨here, later⟩ := List.forall_mem_cons.mp all
      rw [List.cons_append, run_cons_silent (gathers.step_part gathered here), ih later]
      simp

/-- The token is complete where the text ends or goes on with another character. -/
theorem run_end (gathers : Gathers state isPart token?) {gathered : List Char} {token : Token}
    (h : token? gathered.reverse = some token) {rest : List Char}
    (ends : ∀ c, rest.head? = some c → isPart c = false) :
    (state gathered).run rest = (Scan.between.run rest).map (token :: ·) := by
  cases rest with
  | nil =>
      rw [run, List.map_nil, runBytes, gathers.finish_eq, h]
      rfl
  | cons c more =>
      have other := gathers.step_other (ends c rfl) h
      have first : Scan.between.step c = start c := rfl
      cases began : start c with
      | none => simp only [run, List.map_cons, runBytes, other, first, began, Option.map_none,
          Option.bind_eq_bind, Option.bind_none]
      | some begun =>
          rw [began] at other first
          rw [run_cons other, run_cons first, Option.map_map]
          rfl

/-- A token is gathered from its first character on. -/
theorem scans (gathers : Gathers state isPart token?) {c : Char} {chars : List Char} {token : Token}
    (first : Scan.between.step c = some ([], state [c])) (all : ∀ c ∈ chars, isPart c = true)
    (h : token? (c :: chars) = some token) (apart : ∀ rest, Ends rest →
      ∀ c, rest.head? = some c → isPart c = false) : Scans (c :: chars) [token] := by
  intro rest ends
  have whole : token? (chars.reverse ++ [c]).reverse = some token := by simpa using h
  rw [List.cons_append, run_cons_silent first, gathers.run_parts all,
    gathers.run_end whole (apart rest ends)]
  rfl

end Gathers

theorem gathers_numeral :
    Gathers .numeral isNumeralChar fun chars => (Numeral.ofChars? chars).map .numeral where
  step_part gathered part := by rw [step, if_pos part]
  step_other {c gathered token} other told := by
    obtain ⟨numeral, spelled, rfl⟩ := Option.map_eq_some_iff.mp told
    rw [step, if_neg (by simp [other]), spelled]
    cases start c <;> rfl
  finish_eq gathered := by
    rw [finish, Option.map_map]
    rfl

theorem gathers_word : Gathers .word isWordChar wordToken? where
  step_part gathered part := by rw [step, if_pos part]
  step_other {c gathered token} other told := by
    rw [step, if_neg (by simp [other]), told]
    cases start c <;> rfl
  finish_eq _ := rfl

theorem start_numeral {c : Char} (first : c = '-' ∨ Decimal.isDigit c = true) :
    start c = some ([], .numeral [c]) := by
  unfold start
  split
  case h_12 => simp [first]
  all_goals
    rcases first with same | digit
    · exact absurd same (by decide)
    · exact absurd digit (by decide)

theorem scans_numeral {c : Char} {chars : List Char} {numeral : Numeral}
    (first : c = '-' ∨ Decimal.isDigit c = true) (all : ∀ c ∈ chars, isNumeralChar c = true)
    (h : Numeral.ofChars? (c :: chars) = some numeral) : Scans (c :: chars) [.numeral numeral] := by
  exact gathers_numeral.scans (start_numeral first) all (by rw [h, Option.map_some])
    fun _ ends c same => (ends c same).1

theorem scans_integer (value : Int) :
    Scans (toString value).toList [.numeral (.ofInt value)] := by
  have spells := Numeral.ofChars?_toString value
  have digits : ∀ c ∈ Nat.toDigits 10 value.natAbs, Decimal.isDigit c = true :=
    fun _ => Decimal.isDigit_of_mem_toDigits
  rw [Numeral.toList_toString] at *
  by_cases negative : value < 0
  · rw [if_pos negative] at *
    apply scans_numeral (.inl rfl) _ spells
    intro c mem
    simp [isNumeralChar, digits c mem]
  · rw [if_neg negative] at *
    cases written : Nat.toDigits 10 value.natAbs with
    | nil => exact absurd written Nat.toDigits_ne_nil
    | cons c rest =>
        rw [written] at spells digits
        apply scans_numeral (.inr (digits c List.mem_cons_self)) _ spells
        intro other mem
        simp [isNumeralChar, digits other (List.mem_cons_of_mem c mem)]

/-! ### Trees of values -/

/-- The text of a value at any level is scanned into the tokens of the value. -/
def Spells (value : Json) : Prop :=
  ∀ level, Scans (indentedChars level value) (spelled value)

theorem scans_word {c : Char} {word : List Char} {token : Token}
    (first : Scan.between.step c = some ([], .word [c])) (all : word.all isWordChar = true)
    (h : wordToken? (c :: word) = some token) : Scans (c :: word) [token] := by
  exact gathers_word.scans first (List.all_eq_true.mp all) h fun _ ends c same => (ends c same).2

theorem scans_null : Scans (scalarChars .null) [.null] :=
  scans_word rfl rfl rfl

theorem scans_boolean (value : Bool) : Scans (scalarChars (.boolean value)) [.boolean value] := by
  cases value with
  | true => exact scans_word rfl rfl rfl
  | false => exact scans_word rfl rfl rfl

theorem ends_indentedItems (level : Nat) (items : List Json) :
    indentedItems level items ≠ [] ∧ Ends (indentedItems level items) := by
  cases items with
  | nil => exact ⟨nofun, ends_cons (by decide) _⟩
  | cons item rest => exact ⟨nofun, ends_cons (by decide) _⟩

theorem ends_indentedFields (level : Nat) (fields : List (String × Json)) :
    indentedFields level fields ≠ [] ∧ Ends (indentedFields level fields) := by
  cases fields with
  | nil => exact ⟨nofun, ends_cons (by decide) _⟩
  | cons field rest => exact ⟨nofun, ends_cons (by decide) _⟩

theorem scans_indentedItems {items : List Json} (each : ∀ item ∈ items, Spells item)
    (level : Nat) : Scans (indentedItems level items) (spelledItems items) := by
  induction items with
  | nil =>
      have closes : Scan.between.step ']' = some ([.closeBracket], .between) := rfl
      exact (scans_nil.cons closes).newLine level
  | cons item rest ih =>
      obtain ⟨here, later⟩ := List.forall_mem_cons.mp each
      obtain ⟨nonempty, ends⟩ := ends_indentedItems level rest
      have parts : Scan.between.step ',' = some ([.comma], .between) := rfl
      have both := ((here (level + 1)).append (ih later) nonempty ends).newLine (level + 1)
      simpa [indentedItems, spelledItems] using both.cons parts

theorem scans_indentedFields {fields : List (String × Json)}
    (each : ∀ field ∈ fields, Spells field.2) (level : Nat) :
    Scans (indentedFields level fields) (spelledFields fields) := by
  induction fields with
  | nil =>
      have closes : Scan.between.step '\x7d' = some ([.closeBrace], .between) := rfl
      exact (scans_nil.cons closes).newLine level
  | cons field rest ih =>
      obtain ⟨name, value⟩ := field
      obtain ⟨here, later⟩ := List.forall_mem_cons.mp each
      obtain ⟨nonempty, ends⟩ := ends_indentedFields level rest
      have parts : Scan.between.step ',' = some ([.comma], .between) := rfl
      have colon : Scan.between.step ':' = some ([.colon], .between) := rfl
      have blank : Scan.between.step ' ' = some ([], .between) := rfl
      have both := ((here (level + 1)).append (ih later) nonempty ends).cons blank |>.cons colon
      simpa [indentedFields, spelledFields] using
        ((both.string name).newLine (level + 1)).cons parts

theorem spells_of_floatless {value : Json} (h : Floatless value) : Spells value := by
  induction h with
  | null => exact fun _ => scans_null
  | boolean value => exact fun _ => scans_boolean value
  | integer value => exact fun _ => scans_integer value
  | string value => exact fun _ => scans_string value
  | @array items _ ih =>
      intro level
      have opens : Scan.between.step '[' = some ([.openBracket], .between) := rfl
      cases items with
      | nil =>
          have closes : Scan.between.step ']' = some ([.closeBracket], .between) := rfl
          exact (scans_nil.cons closes).cons opens
      | cons item rest =>
          obtain ⟨here, later⟩ := List.forall_mem_cons.mp ih
          obtain ⟨nonempty, ends⟩ := ends_indentedItems level rest
          have both := (here (level + 1)).append (scans_indentedItems later level) nonempty ends
          simpa [indentedChars, spelled] using (both.newLine (level + 1)).cons opens
  | @object fields _ ih =>
      intro level
      have opens : Scan.between.step '\x7b' = some ([.openBrace], .between) := rfl
      cases fields with
      | nil =>
          have closes : Scan.between.step '\x7d' = some ([.closeBrace], .between) := rfl
          exact (scans_nil.cons closes).cons opens
      | cons field rest =>
          obtain ⟨name, value⟩ := field
          obtain ⟨here, later⟩ := List.forall_mem_cons.mp ih
          obtain ⟨nonempty, ends⟩ := ends_indentedFields level rest
          have colon : Scan.between.step ':' = some ([.colon], .between) := rfl
          have blank : Scan.between.step ' ' = some ([], .between) := rfl
          have both := (((here (level + 1)).append (scans_indentedFields later level) nonempty
            ends).cons blank).cons colon
          simpa [indentedChars, spelled] using ((both.string name).newLine (level + 1)).cons opens

end Scan

/-- The bytes of a text are read as the text is. -/
theorem Source.ofBytes?_toUTF8 (text : String) : ofBytes? text.toUTF8 = ofText? text := by
  rw [ofBytes?, tokensOfBytes, Text.charsFrom_toUTF8]
  rfl

/-- The text of a value over several lines is read as the tree of the value. -/
theorem Source.ofText?_indented {value : Json} (h : Floatless value) :
    Source.ofText? value.indented = some (source value) := by
  have scanned := Scan.spells_of_floatless h 0 [] Scan.ends_nil
  have read := Source.reads_of_floatless h [] []
  rw [List.append_nil] at scanned read
  have told : tokens value.indented = some (spelled value) := by
    rw [tokens, indented, String.toList_ofList, scanned]
    simp [Scan.run, Scan.runBytes, Scan.finish]
  rw [Source.ofText?, told]
  exact read

end PhasedUpgrade.Json
