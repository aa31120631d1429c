import PhasedUpgrade.Time.Instant

/-!
# Days and their numbers

Every number is the number of a date that the calendar has. The day of an era of 400 years is told
by its year, which begins in March, and the day of that year.
-/

namespace PhasedUpgrade.Time

/-! ## Years of an era -/

def yearOfDay (day : Nat) : Nat :=
  (day - day / 1460 + day / 36524 - day / 146096) / 365

def daysBefore (year : Nat) : Nat :=
  365 * year + year / 4 - year / 100

theorem yearOfDay_le {a b : Nat} (h : a ≤ b) (inside : b < 146097) :
    yearOfDay a ≤ yearOfDay b := by
  apply Nat.div_le_div_right
  have leaps : a - a / 1460 ≤ b - b / 1460 := by omega
  have centuries : a / 36524 - a / 146096 ≤ b / 36524 - b / 146096 := by omega
  omega

theorem yearOfDay_daysBefore {year : Nat} (inside : year < 400) :
    yearOfDay (daysBefore year) = year ∧
      (0 < year → yearOfDay (daysBefore year - 1) = year - 1) := by
  have each : ∀ year < 400, yearOfDay (daysBefore year) = year ∧
      (0 < year → yearOfDay (daysBefore year - 1) = year - 1) := by
    decide +kernel
  exact each year inside

theorem yearOfDay_spec {day : Nat} (inside : day < 146097) :
    yearOfDay day < 400 ∧ daysBefore (yearOfDay day) ≤ day ∧
      (yearOfDay day < 399 → day < daysBefore (yearOfDay day + 1)) := by
  have last : yearOfDay 146096 = 399 := by decide
  have few : yearOfDay day ≤ 399 := last ▸ yearOfDay_le (by omega) (by omega)
  refine ⟨by omega, ?_, ?_⟩
  · obtain ⟨_, before⟩ := yearOfDay_daysBefore (show yearOfDay day < 400 by omega)
    by_cases first : yearOfDay day = 0
    · simp [first, daysBefore]
    · apply Decidable.byContradiction
      intro early
      have small : daysBefore (yearOfDay day) < 146097 := by
        unfold daysBefore
        omega
      have earlier := yearOfDay_le (show day ≤ daysBefore (yearOfDay day) - 1 by omega) (by omega)
      rw [before (by omega)] at earlier
      omega
  · intro more
    obtain ⟨begins, _⟩ := yearOfDay_daysBefore (show yearOfDay day + 1 < 400 by omega)
    apply Decidable.byContradiction
    intro late
    have later := yearOfDay_le (show daysBefore (yearOfDay day + 1) ≤ day by omega) inside
    omega

/-- The last day of a year of 366 days is the 29th of February of a leap year. -/
theorem dayOfYear_le {day : Nat} (inside : day < 146097) :
    day - daysBefore (yearOfDay day) ≤ 365 ∧
      (day - daysBefore (yearOfDay day) = 365 → isLeapYear (yearOfDay day + 1) = true) := by
  obtain ⟨few, begins, ends⟩ := yearOfDay_spec inside
  simp only [isLeapYear, Bool.and_eq_true, Bool.or_eq_true, decide_eq_true_eq]
  generalize yearOfDay day = year at *
  unfold daysBefore at *
  by_cases last : year = 399
  · subst last
    omega
  · have quarters : (year + 1) / 4 = year / 4 ∨
        (year + 1) / 4 = year / 4 + 1 ∧ (year + 1) % 4 = 0 := by omega
    have centuries : (year + 1) / 100 = year / 100 ∧ (year + 1) % 100 ≠ 0 ∨
        (year + 1) / 100 = year / 100 + 1 := by omega
    have before := ends (by omega)
    omega

/-! ## Months of a year -/

/-- The month of a day of a year, counted from March. -/
def monthOfDay (day : Nat) : Nat :=
  (5 * day + 2) / 153

/-- A day of a year is in its month, and only February may be shorter than its days. -/
theorem monthOfDay_spec {day : Nat} (inside : day ≤ 365) :
    monthOfDay day ≤ 11 ∧ (153 * monthOfDay day + 2) / 5 ≤ day ∧
      (monthOfDay day = 11 → day - (153 * monthOfDay day + 2) / 5 + 1 ≤ 29 ∧
        (day ≠ 365 → day - (153 * monthOfDay day + 2) / 5 + 1 ≤ 28)) ∧
      (monthOfDay day = 1 ∨ monthOfDay day = 3 ∨ monthOfDay day = 6 ∨ monthOfDay day = 8 →
        day - (153 * monthOfDay day + 2) / 5 + 1 ≤ 30) ∧
      day - (153 * monthOfDay day + 2) / 5 + 1 ≤ 31 := by
  unfold monthOfDay
  omega

/-! ## Dates -/

namespace Date

theorem exists_era (number : Int) :
    ∃ (era : Int) (day : Nat), day < 146097 ∧ number = era * 146097 + day - epochShift := by
  refine ⟨(number + epochShift) / 146097, ((number + epochShift) % 146097).toNat, ?_, ?_⟩
  · omega
  · omega

/-- The date of a day by its era, the year of that and the month of the year. -/
theorem ofNumber_eq (era : Int) {day : Nat} (inside : day < 146097) :
    let year := yearOfDay day
    let dayOfYear := day - daysBefore year
    let month := monthOfDay dayOfYear
    ofNumber (era * 146097 + day - epochShift) =
      { year := if month < 10 then era * 400 + year else era * 400 + year + 1
        month := if month < 10 then month + 3 else month - 9
        day := dayOfYear - (153 * month + 2) / 5 + 1 } := by
  intro year dayOfYear month
  obtain ⟨few, begins, _⟩ := yearOfDay_spec inside
  obtain ⟨short, _⟩ := dayOfYear_le inside
  obtain ⟨twelve, within, _⟩ := monthOfDay_spec short
  have eraOf : (era * 146097 + day - epochShift + epochShift) / 146097 = era := by omega
  have dayOf : (era * 146097 + day - epochShift + epochShift) % 146097 = day := by omega
  have yearOf : ((day : Int) - day / 1460 + day / 36524 - day / 146096) / 365 = year := by
    show _ = ((yearOfDay day : Nat) : Int)
    unfold yearOfDay
    omega
  have dayOfYearOf : (day : Int) - (365 * year + year / 4 - year / 100) = dayOfYear := by
    show _ = ((day - daysBefore year : Nat) : Int)
    have begins : daysBefore year ≤ day := begins
    unfold daysBefore at *
    omega
  have monthOf : (5 * (dayOfYear : Int) + 2) / 153 = month := by
    show _ = ((monthOfDay dayOfYear : Nat) : Int)
    unfold monthOfDay
    omega
  have within : (153 * month + 2) / 5 ≤ dayOfYear := within
  have twelve : month ≤ 11 := twelve
  simp only [ofNumber, eraOf, dayOf, yearOf, dayOfYearOf, monthOf, Date.mk.injEq]
  by_cases early : month < 10
  · have early' : (month : Int) < 10 := by omega
    simp only [if_pos early, if_pos early']
    omega
  · have late' : ¬(month : Int) < 10 := by omega
    simp only [if_neg early, if_neg late']
    omega

theorem number_of_parts {era : Int} {year month dayOfYear : Nat} (few : year < 400)
    (twelve : month ≤ 11) (within : (153 * month + 2) / 5 ≤ dayOfYear) :
    Date.number { year := if month < 10 then era * 400 + year else era * 400 + year + 1
                  month := if month < 10 then month + 3 else month - 9
                  day := dayOfYear - (153 * month + 2) / 5 + 1 } =
      era * 146097 + ((year : Int) * 365 + (year : Int) / 4 - (year : Int) / 100 + dayOfYear) -
        epochShift := by
  have eraOf : (era * 400 + year) / 400 = era := by omega
  have yearOf : (era * 400 + year) % 400 = year := by omega
  unfold Date.number
  by_cases early : month < 10
  · have afterFebruary : ¬month + 3 ≤ 2 := by omega
    have monthOf : (((month + 3 : Nat) : Int) + 9) % 12 = month := by omega
    simp only [if_pos early, if_neg afterFebruary, eraOf, yearOf, monthOf]
    omega
  · have beforeMarch : month - 9 ≤ 2 := by omega
    have same : era * 400 + (year : Int) + 1 - 1 = era * 400 + year := by omega
    have monthOf : (((month - 9 : Nat) : Int) + 9) % 12 = month := by omega
    simp only [if_neg early, if_pos beforeMarch, same, eraOf, yearOf, monthOf]
    omega

theorem day_of_parts {year day : Nat} (begins : daysBefore year ≤ day) :
    (year : Int) * 365 + (year : Int) / 4 - (year : Int) / 100 + (day - daysBefore year : Nat) =
      day := by
  unfold daysBefore at *
  omega

theorem number_ofNumber (number : Int) : (ofNumber number).number = number := by
  obtain ⟨era, day, inside, rfl⟩ := exists_era number
  obtain ⟨few, begins, _⟩ := yearOfDay_spec inside
  obtain ⟨short, _⟩ := dayOfYear_le inside
  obtain ⟨twelve, within, _⟩ := monthOfDay_spec short
  have date := ofNumber_eq era inside
  simp only at date
  rw [date, number_of_parts few twelve within, day_of_parts begins]

/-- An era of 400 years has its leap years at the same places as every other. -/
theorem isLeapYear_add (era year : Int) :
    isLeapYear (era * 400 + year + 1) = isLeapYear (year + 1) := by
  have four : (era * 400 + year + 1) % 4 = (year + 1) % 4 := by omega
  have hundred : (era * 400 + year + 1) % 100 = (year + 1) % 100 := by omega
  have whole : (era * 400 + year + 1) % 400 = (year + 1) % 400 := by omega
  rw [isLeapYear, isLeapYear, four, hundred, whole]

theorem exists_ofNumber (number : Int) : (ofNumber number).exists = true := by
  obtain ⟨era, day, inside, rfl⟩ := exists_era number
  obtain ⟨short, leap⟩ := dayOfYear_le inside
  have date := ofNumber_eq era inside
  simp only at date
  obtain ⟨twelve, within, february, thirty, thirtyOne⟩ := monthOfDay_spec short
  rw [date]
  unfold Date.exists daysInMonth
  generalize monthOfDay (day - daysBefore (yearOfDay day)) = month at *
  by_cases early : month < 10
  · have named : ¬month + 3 = 2 := by omega
    simp only [if_pos early, if_neg named, Bool.and_eq_true, decide_eq_true_eq]
    by_cases short : month + 3 = 4 ∨ month + 3 = 6 ∨ month + 3 = 9 ∨ month + 3 = 11
    · rw [if_pos short]
      omega
    · rw [if_neg short]
      omega
  · simp only [if_neg early, Bool.and_eq_true, decide_eq_true_eq]
    by_cases last : month = 11
    · have leapYear : day - daysBefore (yearOfDay day) = 365 →
          isLeapYear (era * 400 + (yearOfDay day : Int) + 1) = true := by
        intro long
        rw [isLeapYear_add]
        exact leap long
      subst last
      cases isLeap : isLeapYear (era * 400 + (yearOfDay day : Int) + 1) with
      | true => simp; omega
      | false =>
          have other : day - daysBefore (yearOfDay day) ≠ 365 := by
            intro long
            rw [leapYear long] at isLeap
            cases isLeap
          simp
          omega
    · have first : month = 10 := by omega
      subst first
      simp
      omega

end Date

end PhasedUpgrade.Time
