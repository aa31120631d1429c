import PhasedUpgrade.Proofs.Decimal.Digits
import PhasedUpgrade.Proofs.Time.Calendar

/-!
# Times that are written and read

The text of a time in a year of four digits is read as the time, to the nanosecond and with leap
seconds.
-/

namespace PhasedUpgrade.Time

open Decimal (isDigit number isDigit_of_mem_padded length_padded number_padded)
open Text (dropBlanks isBlank)

/-! ## Parts of a text -/

theorem dropBlanks_cons {c : Char} (visible : isBlank c = false) (rest : List Char) :
    dropBlanks (c :: rest) = c :: rest := by
  simp [dropBlanks, visible]

theorem not_isBlank_of_isDigit {c : Char} (digit : isDigit c = true) : isBlank c = false := by
  simp only [isDigit, Bool.and_eq_true, decide_eq_true_eq, Char.le_def] at digit
  obtain ⟨least, most⟩ := digit
  have low : 48 ≤ c.val.toNat := least
  have high : c.val.toNat ≤ 57 := most
  simp only [isBlank, Bool.or_eq_false_iff, Bool.and_eq_false_iff, decide_eq_false_iff_not,
    beq_eq_false_iff_ne, ne_eq, ← UInt32.toNat_inj, UInt32.le_iff_toNat_le, UInt32.reduceToNat]
  omega

theorem exists_first_digit {width value : Nat} (fits : value < 10 ^ width) (pos : 0 < width) :
    ∃ c rest, padded width value = c :: rest ∧ isDigit c = true := by
  have long := length_padded fits pos
  cases digits : padded width value with
  | nil =>
      rw [digits] at long
      simp at long
      omega
  | cons c rest =>
      have mem : c ∈ padded width value := digits ▸ List.mem_cons_self
      exact ⟨c, rest, rfl, isDigit_of_mem_padded mem⟩

theorem readDigits_padded {width value : Nat} (fits : value < 10 ^ width) (pos : 0 < width)
    (rest : List Char) : readDigits width (padded width value ++ rest) = some (value, rest) := by
  have long := length_padded fits pos
  obtain ⟨c, others, digits, digit⟩ := exists_first_digit fits pos
  have visible : dropBlanks (padded width value ++ rest) = padded width value ++ rest := by
    rw [digits]
    exact dropBlanks_cons (not_isBlank_of_isDigit digit) _
  have first : (padded width value ++ rest).take width = padded width value := by
    rw [List.take_append_of_le_length (by omega), List.take_of_length_le (by omega)]
  have all : (padded width value).takeWhile isDigit = padded width value := by
    rw [← List.append_nil (padded width value), List.takeWhile_append_of_pos]
    · rfl
    · exact fun c mem => isDigit_of_mem_padded mem
  have some : (padded width value).isEmpty = false := by simp [digits]
  simp only [readDigits, visible, first, all, some, number_padded, List.drop_left]
  rfl

theorem readYear_padded {year : Nat} (fits : year < 10 ^ 4) (rest : List Char) :
    readYear (padded 4 year ++ rest) = some ((year : Int), rest) := by
  obtain ⟨c, others, digits, digit⟩ := exists_first_digit fits (by decide)
  have read := readDigits_padded fits (by decide) rest
  rw [digits, List.cons_append] at read ⊢
  have notMinus : c ≠ '-' := by
    intro same
    subst same
    exact absurd digit (by decide)
  have notPlus : c ≠ '+' := by
    intro same
    subst same
    exact absurd digit (by decide)
  unfold readYear
  rw [dropBlanks_cons (not_isBlank_of_isDigit digit)]
  simp [notMinus, notPlus, read]

theorem readFraction_digits {width value : Nat} (fits : value < 10 ^ width) (pos : 0 < width)
    (short : width ≤ 9) (rest : List Char) :
    readFraction ('.' :: padded width value ++ 'Z' :: rest) =
      some (value * 10 ^ (9 - width), 'Z' :: rest) := by
  have long := length_padded fits pos
  obtain ⟨c, others, digits, _⟩ := exists_first_digit fits pos
  have some : (padded width value).isEmpty = false := by simp [digits]
  have all : (padded width value ++ 'Z' :: rest).takeWhile isDigit = padded width value :=
    Decimal.takeWhile_isDigit (fun c mem => isDigit_of_mem_padded mem) (by decide) rest
  have counted : (padded width value).take 9 = padded width value :=
    List.take_of_length_le (by omega)
  have behind : (padded width value ++ 'Z' :: rest).drop width = 'Z' :: rest :=
    List.drop_left' long
  rw [List.cons_append, readFraction]
  simp only [all, some, counted, number_padded, long, behind]
  rfl

theorem readFraction_fractionChars {nanos : Nat} (small : nanos < 10 ^ 9) (rest : List Char) :
    readFraction (fractionChars nanos ++ 'Z' :: rest) = some (nanos, 'Z' :: rest) := by
  unfold fractionChars
  by_cases none : nanos = 0
  · simp [none, readFraction]
  rw [if_neg none]
  by_cases millis : nanos % 1000000 = 0
  · rw [if_pos millis, readFraction_digits (by omega) (by decide) (by decide)]
    congr 2
    omega
  rw [if_neg millis]
  by_cases micros : nanos % 1000 = 0
  · rw [if_pos micros, readFraction_digits (by omega) (by decide) (by decide)]
    congr 2
    omega
  · rw [if_neg micros, readFraction_digits small (by decide) (by decide)]
    simp

theorem readMark_self {mark : Char} (visible : isBlank mark = false) (rest : List Char) :
    readMark mark (mark :: rest) = some rest := by
  rw [readMark, dropBlanks_cons visible]
  exact if_pos rfl

theorem readTimeMark_self (rest : List Char) : readTimeMark ('T' :: rest) = some rest :=
  rfl

/-! ## Whole times -/

theorem bind_of_some {α β : Type} {first : Option α} {value : α} {next : α → Option β}
    (h : first = some value) : (first >>= next) = next value := by
  rw [h]
  rfl

/-- The reader takes a text apart into the parts that it was made of. -/
theorem Instant.ofChars?_parts {year month day hour minute second nanos : Nat}
    (fourDigits : year < 10 ^ 4) (twoDigits : month < 10 ^ 2 ∧ day < 10 ^ 2 ∧ hour < 10 ^ 2 ∧
      minute < 10 ^ 2 ∧ second < 10 ^ 2) (small : nanos < 10 ^ 9) :
    Instant.ofChars? (padded 4 year ++ '-' :: padded 2 month ++ '-' :: padded 2 day ++
      'T' :: padded 2 hour ++ ':' :: padded 2 minute ++ ':' :: padded 2 second ++
      fractionChars nanos ++ ['Z']) = instantOf ⟨year, month, day⟩ hour minute second nanos 0 := by
  obtain ⟨months, days, hours, minutes, seconds⟩ := twoDigits
  have zone : readOffset (dropBlanks ['Z']) = some (0, []) := by decide
  simp only [List.append_assoc, List.cons_append]
  rw [ofChars?]
  apply (bind_of_some (readYear_padded fourDigits _)).trans
  apply (bind_of_some (readMark_self (by decide) _)).trans
  apply (bind_of_some (readDigits_padded months (by decide) _)).trans
  apply (bind_of_some (readMark_self (by decide) _)).trans
  apply (bind_of_some (readDigits_padded days (by decide) _)).trans
  apply (bind_of_some (readTimeMark_self _)).trans
  apply (bind_of_some (readDigits_padded hours (by decide) _)).trans
  apply (bind_of_some (readMark_self (by decide) _)).trans
  apply (bind_of_some (readDigits_padded minutes (by decide) _)).trans
  apply (bind_of_some (readMark_self (by decide) _)).trans
  apply (bind_of_some (readDigits_padded seconds (by decide) _)).trans
  apply (bind_of_some (readFraction_fractionChars small _)).trans
  apply (bind_of_some zone).trans
  rfl

namespace Instant

def year (instant : Instant) : Int :=
  (Date.ofNumber (instant.seconds / 86400)).year

def InFourDigits (instant : Instant) : Prop :=
  0 ≤ instant.year ∧ instant.year ≤ 9999

instance (instant : Instant) : Decidable instant.InFourDigits :=
  inferInstanceAs (Decidable (_ ∧ _))

theorem instantOf_parts {instant : Instant} (dated : instant.InFourDigits) :
    let second := (instant.seconds % 86400).toNat
    instantOf (Date.ofNumber (instant.seconds / 86400)) (second / 3600) (second / 60 % 60)
      (second % 60 + if 1000000000 ≤ instant.nanos then 1 else 0) (instant.nanos % 1000000000) 0 =
      some instant := by
  intro second
  obtain ⟨least, most⟩ := dated
  have bounds := instant.nanos_lt
  have atLeap := instant.leap
  have inRange : yearInRange (Date.ofNumber (instant.seconds / 86400)).year = true := by
    simp only [year] at least most
    simp only [yearInRange, Bool.and_eq_true, decide_eq_true_eq]
    omega
  have ofDay : (second : Int) = instant.seconds % 86400 := by
    show (((instant.seconds % 86400).toNat : Nat) : Int) = _
    omega
  have day : instant.seconds / 86400 * 86400 + second = instant.seconds := by omega
  have clock : (second / 3600 * 60 + second / 60 % 60) * 60 + second % 60 = second := by omega
  have valid := Date.exists_ofNumber (instant.seconds / 86400)
  unfold instantOf
  by_cases leap : 1000000000 ≤ instant.nanos
  · have last := atLeap leap
    have fiftyNine : second % 60 = 59 := by omega
    have whole : instant.seconds / 86400 * 86400 +
        (((second / 3600 * 60 + second / 60 % 60) * 60 + 59 : Nat) : Int) - 0 =
          instant.seconds := by
      omega
    have again : instant.nanos % 1000000000 + 1000000000 = instant.nanos := by omega
    simp only [if_pos leap, fiftyNine, Nat.reduceAdd, if_true, Date.number_ofNumber, whole, again]
    rw [if_pos (by simp [valid, inRange]; omega), dif_pos ⟨bounds, atLeap⟩]
  · have short : ¬second % 60 = 60 := by omega
    have whole : instant.seconds / 86400 * 86400 +
        (((second / 3600 * 60 + second / 60 % 60) * 60 + second % 60 : Nat) : Int) - 0 =
          instant.seconds := by
      omega
    have again : instant.nanos % 1000000000 = instant.nanos := by omega
    simp only [if_neg leap, Nat.add_zero, if_neg short, Date.number_ofNumber, whole, again]
    rw [if_pos (by simp [valid, inRange]; omega), dif_pos ⟨bounds, atLeap⟩]

/-- The text of an instant in a year of four digits is read as the instant. -/
theorem ofText?_text {instant : Instant} (dated : instant.InFourDigits) :
    ofText? instant.text = some instant := by
  have parts := instantOf_parts dated
  obtain ⟨least, most⟩ := dated
  have valid := Date.exists_ofNumber (instant.seconds / 86400)
  simp only [Date.exists, Bool.and_eq_true, decide_eq_true_eq] at valid
  have long : daysInMonth (Date.ofNumber (instant.seconds / 86400)).year
      (Date.ofNumber (instant.seconds / 86400)).month ≤ 31 := by
    unfold daysInMonth
    split
    · split <;> omega
    · split <;> omega
  simp only [year] at least most
  rw [ofText?, text, String.toList_ofList, chars, yearChars, if_pos ⟨least, most⟩]
  generalize Date.ofNumber (instant.seconds / 86400) = date at *
  obtain ⟨year, month, day⟩ := date
  dsimp only at *
  have whole : (year.toNat : Int) = year := by omega
  have leap : (if 1000000000 ≤ instant.nanos then 1 else 0) ≤ 1 := by split <;> omega
  rw [ofChars?_parts (by omega) ⟨by omega, by omega, by omega, by omega, by omega⟩ (by omega),
    whole]
  exact parts

end Instant

end PhasedUpgrade.Time
