import Mathlib.Data.Int.Order.Basic
import AgentLcars.ProviderCooldown

/-!
# The Gregorian calendar

Day numbers, years, months and dates, as the UTC getters of `Date` read them.

* `yearFromDay_iff`: the year of a day is the one whose days contain it.
* `utcDate_iff`: the date of an instant; `utcDate_valid`: it exists.
* `utcDate_shift`: dates repeat after 400 years.
-/

namespace AgentLcars

/-! ### Years -/

theorem dayFromYear_succ (year : Int) :
    dayFromYear (year + 1) = dayFromYear year + if inLeapYear year then 366 else 365 := by
  unfold dayFromYear inLeapYear
  by_cases h4 : year % 4 = 0 <;> by_cases h100 : year % 100 = 0 <;> by_cases h400 : year % 400 = 0 <;>
    simp only [h4, h100, h400, ne_eq, not_true_eq_false, not_false_eq_true, or_true, or_false,
      or_self, and_true, and_false, and_self, decide_true, decide_false, if_true,
      Bool.false_eq_true, if_false] <;> omega

theorem dayFromYear_mono {year year' : Int} (h : year ≤ year') : dayFromYear year ≤ dayFromYear year' := by
  unfold dayFromYear
  omega

theorem yearFromDay_spec (day : Int) :
    dayFromYear (yearFromDay day) ≤ day ∧ day < dayFromYear (yearFromDay day + 1) := by
  unfold yearFromDay
  dsimp only
  split_ifs with hnext hbefore
  · refine ⟨hnext, ?_⟩
    unfold dayFromYear
    omega
  · rw [Int.sub_add_cancel]
    refine ⟨?_, hbefore⟩
    unfold dayFromYear
    omega
  · exact ⟨by omega, by omega⟩

/-- The year of a day is the one whose days contain it. -/
theorem yearFromDay_iff {day year : Int} :
    yearFromDay day = year ↔ dayFromYear year ≤ day ∧ day < dayFromYear (year + 1) := by
  obtain ⟨hle, hlt⟩ := yearFromDay_spec day
  constructor
  · rintro rfl
    exact ⟨hle, hlt⟩
  · rintro ⟨hle', hlt'⟩
    by_contra hne
    rcases Int.lt_or_gt_of_ne hne with h | h
    · have := dayFromYear_mono (show yearFromDay day + 1 ≤ year from h)
      omega
    · have := dayFromYear_mono (show year + 1 ≤ yearFromDay day from h)
      omega

/-! ### Months -/

/-- The days of a zero-based month. -/
def monthLength (leap : Bool) (month : Nat) : Int := monthStart leap (month + 1) - monthStart leap month

theorem monthStart_zero (leap : Bool) : monthStart leap 0 = 0 := by
  cases leap <;> rfl

theorem monthStart_twelve (leap : Bool) : monthStart leap 12 = if leap then 366 else 365 := by
  cases leap <;> rfl

theorem monthStart_lt_succ (leap : Bool) {month : Nat} (h : month < 12) :
    monthStart leap month < monthStart leap (month + 1) := by
  have hall : ∀ leap, ∀ month < 12, monthStart leap month < monthStart leap (month + 1) := by decide
  exact hall leap month h

theorem monthStart_mono (leap : Bool) {month month' : Nat} (h : month ≤ month') (h' : month' ≤ 12) :
    monthStart leap month ≤ monthStart leap month' := by
  induction month', h using Nat.le_induction with
  | base => exact Int.le_refl _
  | succ n hn ih => exact Int.le_trans (ih (by omega)) (Int.le_of_lt (monthStart_lt_succ leap (by omega)))

/-- The month of a day within a year. -/
def monthOf (leap : Bool) (within : Int) : Nat :=
  (((List.range 12).filter fun m => monthStart leap m ≤ within).getLast?).getD 0

theorem monthOf_eq {leap : Bool} {month : Nat} {within : Int} (hmonth : month < 12)
    (hle : monthStart leap month ≤ within) (hlt : within < monthStart leap (month + 1)) :
    monthOf leap within = month := by
  have hfilter : (List.range 12).filter (fun m => decide (monthStart leap m ≤ within)) =
      List.range (month + 1) := by
    have hsplit : List.range 12 = List.range (month + 1) ++ (List.range (11 - month)).map (month + 1 + ·) := by
      rw [← List.range_add]
      congr 1
      omega
    rw [hsplit, List.filter_append, List.filter_eq_self.2, List.filter_eq_nil_iff.2, List.append_nil]
    · intro m hm
      obtain ⟨k, hk, rfl⟩ := List.mem_map.1 hm
      have hk := List.mem_range.1 hk
      have := monthStart_mono leap (show month + 1 ≤ month + 1 + k by omega) (by omega)
      simp only [decide_eq_true_eq]
      omega
    · intro m hm
      have hm := List.mem_range.1 hm
      have := monthStart_mono leap (show m ≤ month by omega) (by omega)
      simp only [decide_eq_true_eq]
      omega
  unfold monthOf
  rw [hfilter, List.range_succ, List.getLast?_concat]
  rfl

/-- Every day of a year is in a month. -/
theorem exists_month {leap : Bool} {within : Int} (hle : 0 ≤ within)
    (hlt : within < monthStart leap 12) :
    ∃ month < 12, monthStart leap month ≤ within ∧ within < monthStart leap (month + 1) := by
  have hfind : ∀ n ≤ 12, within < monthStart leap n →
      ∃ month < 12, monthStart leap month ≤ within ∧ within < monthStart leap (month + 1) := by
    intro n
    induction n with
    | zero =>
      intro _ h
      rw [monthStart_zero] at h
      omega
    | succ n ih =>
      intro hn h
      by_cases hbefore : within < monthStart leap n
      · exact ih (by omega) hbefore
      · exact ⟨n, by omega, by omega, h⟩
  exact hfind 12 (by omega) hlt

/-! ### Dates -/

/-- The date of a day number. -/
structure DateOf (day : Int) (date : UtcDate) : Prop where
  month : date.month < 12
  pos : 1 ≤ date.day
  le : date.day ≤ monthLength (inLeapYear date.year) date.month
  day : day = dayFromYear date.year + monthStart (inLeapYear date.year) date.month + date.day - 1

theorem DateOf.within {day : Int} {date : UtcDate} (h : DateOf day date) :
    dayFromYear date.year ≤ day ∧ day < dayFromYear (date.year + 1) := by
  obtain ⟨hmonth, hpos, hle, hday⟩ := h
  unfold monthLength at hle
  have h0 := monthStart_mono (inLeapYear date.year) (Nat.zero_le date.month) (by omega)
  have h12 := monthStart_mono (inLeapYear date.year) (show date.month + 1 ≤ 12 by omega) (by omega)
  rw [monthStart_zero] at h0
  rw [monthStart_twelve] at h12
  rw [dayFromYear_succ]
  omega

theorem utcDate_iff {t : Time} {date : UtcDate} : utcDate t = date ↔ DateOf (t / msPerDay) date := by
  have hone : DateOf (t / msPerDay) (utcDate t) := by
    obtain ⟨hle, hlt⟩ := yearFromDay_spec (t / msPerDay)
    rw [dayFromYear_succ] at hlt
    obtain ⟨month, hmonth, hstart, hend⟩ := @exists_month (inLeapYear (yearFromDay (t / msPerDay)))
      (t / msPerDay - dayFromYear (yearFromDay (t / msPerDay))) (by omega)
      (by rw [monthStart_twelve]; omega)
    have hof := monthOf_eq hmonth hstart hend
    have hdate : utcDate t =
        { year := yearFromDay (t / msPerDay), month
          day := t / msPerDay - dayFromYear (yearFromDay (t / msPerDay)) -
            monthStart (inLeapYear (yearFromDay (t / msPerDay))) month + 1 } := by
      rw [← hof]
      rfl
    rw [hdate]
    refine ⟨hmonth, ?_, ?_, ?_⟩
    · dsimp only
      omega
    · unfold monthLength
      dsimp only
      omega
    · dsimp only
      omega
  constructor
  · rintro rfl
    exact hone
  · intro h
    have hyear : (utcDate t).year = date.year :=
      (yearFromDay_iff.2 hone.within).symm.trans (yearFromDay_iff.2 h.within)
    have hmonth : ∀ date : UtcDate, DateOf (t / msPerDay) date →
        monthOf (inLeapYear date.year) (t / msPerDay - dayFromYear date.year) = date.month := by
      rintro date ⟨hmonth, hpos, hle, hday⟩
      unfold monthLength at hle
      exact monthOf_eq hmonth (by omega) (by omega)
    have hsame : (utcDate t).month = date.month := by
      rw [← hmonth _ hone, ← hmonth _ h, hyear]
    have hday := hone.day
    have hday' := h.day
    rw [hyear, hsame] at hday
    have heq : (utcDate t).day = date.day := by omega
    cases hdate : utcDate t
    cases date
    rw [hdate] at hyear hsame heq
    dsimp only at hyear hsame heq
    rw [hyear, hsame, heq]

theorem dateOf_utcDate (t : Time) : DateOf (t / msPerDay) (utcDate t) := utcDate_iff.1 rfl

/-! ### Dates come back -/

/-- The days of 400 years. -/
def daysPerCycle : Int := 146097

theorem dayFromYear_shift (year : Int) : dayFromYear (year + 400) = dayFromYear year + daysPerCycle := by
  unfold dayFromYear daysPerCycle
  omega

theorem inLeapYear_shift (year : Int) : inLeapYear (year + 400) = inLeapYear year := by
  unfold inLeapYear
  have h4 : (year + 400) % 4 = year % 4 := by omega
  have h100 : (year + 400) % 100 = year % 100 := by omega
  have h400 : (year + 400) % 400 = year % 400 := by omega
  rw [h4, h100, h400]

/-- Dates repeat after 400 years. -/
theorem utcDate_shift (t : Time) :
    utcDate (t + daysPerCycle * msPerDay) = { utcDate t with year := (utcDate t).year + 400 } := by
  obtain ⟨hmonth, hpos, hle, hday⟩ := dateOf_utcDate t
  rw [utcDate_iff]
  refine ⟨hmonth, hpos, ?_, ?_⟩
  · rw [inLeapYear_shift]
    exact hle
  · dsimp only
    rw [inLeapYear_shift, dayFromYear_shift, Int.add_mul_ediv_right t daysPerCycle (by decide)]
    omega

/-- A day that only leap years have. -/
theorem leap_of_feb29 {day : Int} {date : UtcDate} (h : DateOf day date) (hmonth : date.month = 1)
    (hday : date.day = 29) : inLeapYear date.year = true := by
  have hle := h.le
  rw [hmonth, hday] at hle
  revert hle
  cases inLeapYear date.year
  · decide
  · exact fun _ => rfl

/-! ### Yearly dates -/

/-- The day number of a date of a year. -/
def dayOf (year : Int) (month : Nat) (day : Int) : Int :=
  dayFromYear year + monthStart (inLeapYear year) month + day - 1

/-- A date that every year has. -/
structure Yearly (month : Nat) (day : Int) : Prop where
  bounded : month < 12
  pos : 1 ≤ day
  le : day ≤ monthLength false month

theorem monthLength_false_le (leap : Bool) {month : Nat} (h : month < 12) :
    monthLength false month ≤ monthLength leap month := by
  have hall : ∀ leap, ∀ month < 12, monthLength false month ≤ monthLength leap month := by decide
  exact hall leap month h

theorem Yearly.dateOf {month : Nat} {day : Int} (h : Yearly month day) (year : Int) :
    DateOf (dayOf year month day) { year, month, day } where
  month := h.bounded
  pos := h.pos
  le := Int.le_trans h.le (monthLength_false_le _ h.bounded)
  day := rfl

/-- A yearly date comes back within 366 days. -/
theorem Yearly.next_le {month : Nat} {day : Int} (h : Yearly month day) (year : Int) :
    dayOf (year + 1) month day ≤ dayOf year month day + 366 := by
  have hstart : ∀ leap leap', ∀ month < 12,
      monthStart leap' month + (if leap then 366 else 365) ≤ monthStart leap month + 366 := by
    decide
  have := hstart (inLeapYear year) (inLeapYear (year + 1)) month h.bounded
  unfold dayOf
  rw [dayFromYear_succ]
  omega

theorem Yearly.within {month : Nat} {day : Int} (h : Yearly month day) (year : Int) :
    dayFromYear year ≤ dayOf year month day ∧ dayOf year month day < dayFromYear (year + 1) :=
  (h.dateOf year).within

end AgentLcars
