import PhasedUpgrade.Proofs.Json.Numeral
import PhasedUpgrade.Proofs.Toml.StringForm
import PhasedUpgrade.Toml.Literal
import PhasedUpgrade.Toml.Print

/-!
# Values that are read back

What strings, integers, booleans and arrays of them are written as is read as the value, by every
reader that lets arrays be nested as deep as they are in the value, and by no other one.
-/

namespace PhasedUpgrade.Toml

open Decimal (isDigit number)

/-! ## Integers -/

theorem digitsOf?_digits {digits : List Char} (nonempty : digits ≠ [])
    (all : ∀ c ∈ digits, isDigit c = true) : digitsOf? isDigit digits = some digits := by
  induction digits with
  | nil => exact absurd rfl nonempty
  | cons c rest ih =>
      have first := all c List.mem_cons_self
      have others : ∀ d ∈ rest, isDigit d = true := fun d mem =>
        all d (List.mem_cons_of_mem c mem)
      cases rest with
      | nil => simp [digitsOf?, first]
      | cons d more =>
          have joined : d ≠ '_' := by
            rintro rfl
            exact absurd (others '_' List.mem_cons_self) (by decide)
          have later := ih (List.cons_ne_nil d more) others
          simp [digitsOf?, first, joined, later]

theorem wholeDigits?_toDigits (n : Nat) :
    wholeDigits? (Nat.toDigits 10 n) = some (Nat.toDigits 10 n) := by
  have digits := digitsOf?_digits Nat.toDigits_ne_nil
    fun c (mem : c ∈ Nat.toDigits 10 n) => Decimal.isDigit_of_mem_toDigits mem
  unfold wholeDigits?
  rw [digits]
  by_cases zero : n = 0
  · subst zero
    rfl
  · have first := Decimal.head?_toDigits (Nat.pos_of_ne_zero zero)
    split
    next same => simp_all
    next => rfl

/-- Digits behind a sign at most are read as a decimal number. -/
theorem integerOf?_decimal {chars : List Char} {negative : Bool} {n : Nat}
    (all : ∀ c ∈ chars.tail, isDigit c = true)
    (signed : splitSign chars = (negative, Nat.toDigits 10 n)) :
    integerOf? chars =
      if negative = true then if n ≤ 2 ^ 63 then some (-(n : Int)) else none
      else if n < 2 ^ 63 then some (n : Int) else none := by
  unfold integerOf?
  split
  next => exact absurd (all 'x' List.mem_cons_self) (by decide)
  next => exact absurd (all 'o' List.mem_cons_self) (by decide)
  next => exact absurd (all 'b' List.mem_cons_self) (by decide)
  next =>
    simp only [signed, wholeDigits?_toDigits, Option.bind_eq_bind, Option.bind_some,
      Decimal.number_toDigits]
    rfl

theorem splitSign_toDigits (n : Nat) :
    splitSign (Nat.toDigits 10 n) = (false, Nat.toDigits 10 n) := by
  have all : ∀ c ∈ Nat.toDigits 10 n, isDigit c = true :=
    fun c mem => Decimal.isDigit_of_mem_toDigits mem
  unfold splitSign
  split
  next same => exact absurd (all '-' (same ▸ List.mem_cons_self)) (by decide)
  next same => exact absurd (all '+' (same ▸ List.mem_cons_self)) (by decide)
  next => rfl

theorem splitSign_toString (value : Int) :
    splitSign (toString value).toList = (decide (value < 0), Nat.toDigits 10 value.natAbs) ∧
      (∀ c ∈ (toString value).toList.tail, isDigit c = true) := by
  have all : ∀ c ∈ Nat.toDigits 10 value.natAbs, isDigit c = true :=
    fun c mem => Decimal.isDigit_of_mem_toDigits mem
  rw [Json.Numeral.toList_toString]
  by_cases negative : value < 0
  · simpa [negative, splitSign] using all
  · simpa [negative, splitSign_toDigits] using fun c mem => all c (List.mem_of_mem_tail mem)

theorem integerOf?_toString {value : Int} (least : -2 ^ 63 ≤ value) (most : value < 2 ^ 63) :
    integerOf? (toString value).toList = some value := by
  obtain ⟨signed, all⟩ := splitSign_toString value
  rw [integerOf?_decimal all signed]
  by_cases negative : value < 0
  · rw [if_pos (by simpa using negative), if_pos (by omega)]
    exact congrArg some (by omega)
  · rw [if_neg (by simpa using negative), if_pos (by omega)]
    exact congrArg some (by omega)

/-! ## Atoms -/

theorem dropMark?_digits {mark : Char} (other : isDigit mark = false) {chars : List Char}
    (all : ∀ c ∈ chars, isDigit c = true) : dropMark? mark chars = none := by
  cases chars with
  | nil => rfl
  | cons c rest =>
      have differ : c ≠ mark := by
        rintro rfl
        simp [all c List.mem_cons_self] at other
      simp [dropMark?, differ]

theorem dropMark?_of_fixedNumber {chars rest : List Char}
    (all : ∀ c ∈ chars.tail, isDigit c = true) {width n : Nat}
    (read : fixedNumber (width + 1) chars = some (n, rest)) {mark : Char}
    (other : isDigit mark = false) : dropMark? mark rest = none := by
  unfold fixedNumber at read
  dsimp only at read
  split at read <;> cases read
  rw [← List.drop_tail]
  exact dropMark?_digits other fun c mem => all c (List.mem_of_mem_drop mem)

theorem ofChars?_digits {chars : List Char} (all : ∀ c ∈ chars.tail, isDigit c = true) :
    DateTime.ofChars? chars = none := by
  have date : readDate chars = none := by
    unfold readDate
    cases year : fixedNumber 4 chars with
    | none => rfl
    | some read => simp [dropMark?_of_fixedNumber all year (show isDigit '-' = false by decide)]
  have time : readClockTime chars = none := by
    unfold readClockTime
    cases hour : fixedNumber 2 chars with
    | none => rfl
    | some read => simp [dropMark?_of_fixedNumber all hour (show isDigit ':' = false by decide)]
  simp [DateTime.ofChars?, date, time]

theorem floatOf?_toString (value : Int) : floatOf? (toString value).toList = none := by
  obtain ⟨signed, _⟩ := splitSign_toString value
  have all : ∀ c ∈ Nat.toDigits 10 value.natAbs, inGroup c = true := fun c mem => by
    simp [inGroup, Decimal.isDigit_of_mem_toDigits mem]
  have whole : decimalOf? (Nat.toDigits 10 value.natAbs) = none := by
    unfold decimalOf?
    rw [List.takeWhile_eq_self_iff.mpr all, List.dropWhile_eq_nil_iff.mpr all,
      wholeDigits?_toDigits]
    rfl
  have word (w : List Char) (mem : 'n' ∈ w) : Nat.toDigits 10 value.natAbs ≠ w := by
    rintro rfl
    exact absurd (all 'n' mem) (by decide)
  unfold floatOf?
  rw [signed]
  simp [whole, word ['i', 'n', 'f'] (by decide), word ['n', 'a', 'n'] (by decide)]

theorem toString_word (value : Int) : (toString value).toList ≠ [] ∧
    ∀ c ∈ (toString value).toList, isBareKeyChar c = true := by
  have all : ∀ c ∈ Nat.toDigits 10 value.natAbs, isBareKeyChar c = true := by
    intro c mem
    have digit := Decimal.isDigit_of_mem_toDigits mem
    simp only [isDigit, isBareKeyChar] at digit ⊢
    simp [digit]
  rw [Json.Numeral.toList_toString]
  by_cases negative : value < 0
  · have minus : isBareKeyChar '-' = true := by decide
    simpa [negative, minus] using all
  · simpa [negative, Nat.toDigits_ne_nil] using all

theorem ofAtom?_toString {value : Int} (least : -2 ^ 63 ≤ value) (most : value < 2 ^ 63) :
    Value.ofAtom? (toString value).toList = some (.integer value) := by
  obtain ⟨_, all⟩ := splitSign_toString value
  have word (w : List Char) (mem : 'e' ∈ w.tail) : (toString value).toList ≠ w := by
    rintro rfl
    exact absurd (all 'e' mem) (by decide)
  unfold Value.ofAtom?
  rw [if_neg (word ['t', 'r', 'u', 'e'] (by decide)),
    if_neg (word ['f', 'a', 'l', 's', 'e'] (by decide)), ofChars?_digits all,
    floatOf?_toString, integerOf?_toString least most]

/-! ## Plain values -/

/-- What may follow a value: the end of a line, a comma or the end of an array. -/
def Closes (c : Char) : Prop :=
  c = '\n' ∨ c = ',' ∨ c = ']'

instance (c : Char) : Decidable (Closes c) :=
  inferInstanceAs (Decidable (_ ∨ _))

theorem readAtom_closed {chars : List Char} (all : ∀ c ∈ chars, isAtomChar c = true) {c : Char}
    (closes : Closes c) (rest : List Char) :
    readAtom (chars ++ c :: rest) = (Value.ofAtom? chars).map fun value => (value, c :: rest) := by
  have other : isAtomChar c = false := by
    rcases closes with rfl | rfl | rfl <;> decide
  obtain ⟨taken, left⟩ := cut_before all other rest
  unfold readAtom
  rw [taken, left]
  rcases closes with rfl | rfl | rfl <;> rfl

theorem readValue_atom {c : Char} (atom : isAtomChar c = true) (depth : Nat) (rest : List Char) :
    readValue depth (c :: rest) = readAtom (c :: rest) := by
  have differ : c ≠ '[' ∧ c ≠ '\x7b' ∧ c ≠ '"' ∧ c ≠ '\'' := by
    refine ⟨?_, ?_, ?_, ?_⟩ <;> rintro rfl <;> exact absurd atom (by decide)
  rw [readValue.eq_def]
  split <;> simp_all

theorem readValue_word {chars : List Char} {value : Value} (nonempty : chars ≠ [])
    (all : ∀ c ∈ chars, isBareKeyChar c = true) (spells : Value.ofAtom? chars = some value)
    {c : Char} (closes : Closes c) (depth : Nat) (rest : List Char) :
    readValue depth (chars ++ c :: rest) = some (value, c :: rest) := by
  have atom : ∀ c ∈ chars, isAtomChar c = true := fun c mem => by simp [isAtomChar, all c mem]
  have read := readAtom_closed atom closes rest
  obtain ⟨first, others, rfl⟩ := List.exists_cons_of_ne_nil nonempty
  rw [List.cons_append] at read ⊢
  rw [readValue_atom (atom first List.mem_cons_self), read, spells]
  rfl

theorem readValue_string (chars : List Char) {c : Char} (closes : Closes c) (depth : Nat)
    (rest : List Char) :
    readValue depth (stringChars chars ++ c :: rest) =
      some (.string (.ofList chars), c :: rest) := by
  have read : readString (stringChars chars ++ c :: rest) = some (chars, c :: rest) := by
    rcases closes with rfl | rfl | rfl <;>
      exact readString_stringChars chars (by decide) (by decide) rest
  obtain ⟨quote, others, same, opens⟩ := exists_stringChars chars
  rw [same, List.cons_append] at read ⊢
  rw [readValue.eq_def]
  rcases opens with rfl | rfl <;> simp [read]

/-! ## Arrays -/

namespace Value

mutual

/-- How deep arrays are nested in a value. -/
def nesting : Value → Nat
  | .array items => itemsNesting items + 1
  | _ => 0

def itemsNesting : List Value → Nat
  | [] => 0
  | item :: rest => max (nesting item) (itemsNesting rest)

end

/-- The values that answers usually are: strings, integers of 64 bits, booleans and arrays. -/
inductive Plain : Value → Prop
  | string (text : String) : Plain (.string text)
  | integer {value : Int} : -2 ^ 63 ≤ value → value < 2 ^ 63 → Plain (.integer value)
  | boolean (value : Bool) : Plain (.boolean value)
  | array {items : List Value} : (∀ item ∈ items, Plain item) → Plain (.array items)

def itemChars : List Value → List Char
  | [] => [']']
  | item :: rest => inlineChars item ++ inlineItems rest

theorem inlineChars_array (items : List Value) :
    inlineChars (.array items) = '[' :: itemChars items := by
  cases items <;> rfl

theorem inlineItems_cons (item : Value) (rest : List Value) :
    inlineItems (item :: rest) = ',' :: ' ' :: itemChars (item :: rest) := by
  rfl

end Value

theorem dropGap_opens {c : Char} (opens : Opens c) (rest : List Char) :
    dropGap (c :: rest) = some (c :: rest) := by
  have visible := opens.visible
  rw [dropGap.eq_def]
  split <;> simp_all

theorem Value.Plain.exists_inlineChars {value : Value} (plain : value.Plain) :
    ∃ first others, value.inlineChars = first :: others ∧ Opens first ∧ first ≠ ']' := by
  cases plain with
  | string text =>
      obtain ⟨quote, others, same, rfl | rfl⟩ := exists_stringChars text.toList
      · exact ⟨_, others, same, by simp [Opens], by decide⟩
      · exact ⟨_, others, same, by simp [Opens], by decide⟩
  | @integer value least most =>
      obtain ⟨nonempty, all⟩ := toString_word value
      obtain ⟨first, others, same⟩ := List.exists_cons_of_ne_nil nonempty
      have word := all first (same ▸ List.mem_cons_self)
      refine ⟨first, others, same, .inl word, ?_⟩
      rintro rfl
      exact absurd word (by decide)
  | boolean flag =>
      cases flag with
      | false => exact ⟨'f', _, rfl, .inl (by decide), by decide⟩
      | true => exact ⟨'t', _, rfl, .inl (by decide), by decide⟩
  | @array items plain =>
      exact ⟨'[', _, Value.inlineChars_array items, by simp [Opens], by decide⟩

/-- Where a value begins the array goes on with it. -/
theorem readItems_opens {first : Char} (opens : Opens first) (other : first ≠ ']')
    (read : Reader Value) (count : Nat) (others : List Char) :
    readItems read (count + 1) (first :: others) = (read (first :: others)).bind fun item =>
      (dropGap item.2).bind fun
        | ',' :: rest => (readItems read count rest).bind fun more =>
            some (item.1 :: more.1, more.2)
        | ']' :: rest => some ([item.1], rest)
        | _ => none := by
  simp only [readItems, dropGap_opens opens, Option.bind_eq_bind, Option.bind_some]
  split
  next same => exact absurd (List.cons.inj same).1 other
  next => rfl

theorem readItems_blank (read : Reader Value) (count : Nat) (chars : List Char) :
    readItems read count (' ' :: chars) = readItems read count chars := by
  cases count <;> rfl

theorem length_lt_itemChars {items : List Value} (plain : ∀ item ∈ items, item.Plain)
    (rest : List Char) : items.length < (Value.itemChars items ++ rest).length := by
  induction items with
  | nil => simp [Value.itemChars]
  | cons item items ih =>
      obtain ⟨here, others⟩ := List.forall_mem_cons.mp plain
      obtain ⟨first, behind, spelled, _⟩ := here.exists_inlineChars
      have later := ih others
      cases items with
      | nil =>
          simp only [Value.itemChars, Value.inlineItems, spelled, List.length_append,
            List.length_cons, List.length_nil]
          omega
      | cons next items =>
          simp only [Value.itemChars, Value.inlineItems_cons, spelled, List.length_append,
            List.length_cons] at later ⊢
          omega

/-- Whether a value is read back, just if it is nested no deeper than the reader allows. -/
def Value.IsReadBack (depth : Nat) (value : Value) : Prop :=
  ∀ {c : Char}, Closes c → ∀ rest, readValue depth (value.inlineChars ++ c :: rest) =
    if value.nesting ≤ depth then some (value, c :: rest) else none

/-- An array within the depth of the reader is read, item by item. -/
theorem readItems_itemChars {depth : Nat} {items : List Value}
    (plain : ∀ item ∈ items, item.Plain) (reads : ∀ item ∈ items, item.IsReadBack depth)
    {count : Nat} (enough : items.length < count) (rest : List Char) :
    readItems (readValue depth) count (Value.itemChars items ++ rest) =
      if Value.itemsNesting items ≤ depth then some (items, rest) else none := by
  induction items generalizing count with
  | nil =>
      obtain ⟨count, rfl⟩ := Nat.exists_eq_succ_of_ne_zero (Nat.ne_of_gt enough)
      rw [if_pos (show Value.itemsNesting [] ≤ depth from Nat.zero_le depth)]
      rfl
  | cons item items ih =>
      obtain ⟨count, rfl⟩ := Nat.exists_eq_succ_of_ne_zero (Nat.ne_zero_of_lt enough)
      obtain ⟨here, others⟩ := List.forall_mem_cons.mp plain
      obtain ⟨read, later⟩ := List.forall_mem_cons.mp reads
      obtain ⟨first, behind, spelled, opens, other⟩ := here.exists_inlineChars
      have start (tail : List Char) := readItems_opens opens other (readValue depth)
        count (behind ++ tail)
      simp only [← List.cons_append, ← spelled] at start
      simp only [Value.itemChars, Value.itemsNesting, Nat.max_le, List.append_assoc]
      cases items with
      | nil =>
          have closed := read (show Closes ']' by decide) rest
          refine (start _).trans ?_
          show (readValue depth (item.inlineChars ++ ']' :: rest)).bind _ = _
          rw [closed]
          by_cases low : item.nesting ≤ depth
          · simp [low, Value.itemsNesting, dropGap_opens (show Opens ']' by simp [Opens])]
          · simp [low]
      | cons next items =>
          have parted := read (show Closes ',' by decide)
            (' ' :: (Value.itemChars (next :: items) ++ rest))
          have more := ih others later (Nat.lt_of_succ_lt_succ enough)
          rw [← readItems_blank] at more
          refine (start _).trans ?_
          rw [Value.inlineItems_cons]
          show (readValue depth (item.inlineChars ++
            ',' :: ' ' :: (Value.itemChars (next :: items) ++ rest))).bind _ = _
          rw [parted]
          by_cases low : item.nesting ≤ depth
          · rw [if_pos low, Option.bind_some, dropGap_opens (show Opens ',' by simp [Opens]),
              Option.bind_some]
            show (readItems (readValue depth) _ _).bind _ = _
            rw [more]
            by_cases deep : Value.itemsNesting (next :: items) ≤ depth
            · simp [low, deep]
            · simp [deep]
          · simp [low]

theorem Value.Plain.isReadBack {value : Value} (plain : value.Plain) (depth : Nat) :
    value.IsReadBack depth := by
  induction plain generalizing depth with
  | string text =>
      intro c closes rest
      rw [if_pos (show (Value.string text).nesting ≤ depth from Nat.zero_le depth)]
      show readValue depth (stringChars text.toList ++ c :: rest) = _
      rw [readValue_string text.toList closes depth rest, String.ofList_toList]
  | @integer value least most =>
      intro c closes rest
      obtain ⟨nonempty, all⟩ := toString_word value
      rw [if_pos (show (Value.integer value).nesting ≤ depth from Nat.zero_le depth)]
      exact readValue_word nonempty all (ofAtom?_toString least most) closes depth rest
  | boolean flag =>
      intro c closes rest
      rw [if_pos (show (Value.boolean flag).nesting ≤ depth from Nat.zero_le depth)]
      cases flag with
      | false =>
          exact readValue_word (by decide) (List.all_eq_true.mp (by decide)) rfl closes depth rest
      | true =>
          exact readValue_word (by decide) (List.all_eq_true.mp (by decide)) rfl closes depth rest
  | @array items plain ih =>
      intro c _ rest
      rw [Value.inlineChars_array]
      cases depth with
      | zero =>
          rw [if_neg (by simp [Value.nesting])]
          rfl
      | succ depth =>
          have enough := length_lt_itemChars plain (c :: rest)
          have read := readItems_itemChars plain (fun item mem => ih item mem depth) enough
            (c :: rest)
          rw [List.cons_append, readValue, read]
          simp only [Value.nesting, Nat.add_le_add_iff_right]
          split <;> rfl

end PhasedUpgrade.Toml
