import Mathlib
import AgentLcars.CronSlots
import AgentLcars.ProviderCooldown

/-!
# Reported resets

When the message of a Claude run names a reset, `claudeReset` of `provider-cooldown.ts` guesses its year.

* `NamedInstant`, `IsNextReset`: the instants a message names, and the first one after now.
* `resetAt_iff`: the guess is that instant when it is within seven days, except near the years 0 to 99, which
  `Date.UTC` takes for years of the twentieth century.
* `expiresAsReported_iff`: a cooldown ends then, and else after the bounded probe.
-/

namespace AgentLcars

/-! ### What a message names -/

/-- The hour of a match, of twenty-four. -/
def ResetMatch.utcHour (found : ResetMatch) : Nat := found.hour % 12 + if found.pm then 12 else 0

def ResetMatch.utcMinute (found : ResetMatch) : Nat := found.minute.getD 0

structure ResetMatch.Valid (found : ResetMatch) : Prop where
  pos : 1 ≤ found.hour
  le : found.hour ≤ 12
  minute : found.utcMinute ≤ 59

/-- The instant is the start of the minute that the message names. -/
structure NamedInstant (found : ResetMatch) (t : Int) : Prop where
  minute : Minute t
  clock : AgentLcars.utcHour t = found.utcHour ∧ AgentLcars.utcMinute t = found.utcMinute
  date : ∀ p ∈ found.monthDay, (utcDate t).month = MONTHS.idxOf p.1 ∧ (utcDate t).day = p.2

/-- The first such instant after now. -/
structure IsNextReset (found : ResetMatch) (now t : Int) : Prop where
  named : NamedInstant found t
  later : now < t
  least : ∀ other, NamedInstant found other → now < other → t ≤ other

/-- What `claudeReset` makes of a match. -/
def resetAt (now : Int) (found : ResetMatch) : Option Int :=
  if found.hour < 1 ∨ 12 < found.hour ∨ 59 < found.utcMinute then none
  else
    let date := utcDate now
    let month := (found.monthDay.map fun p => MONTHS.idxOf p.1).getD date.month
    let day := (found.monthDay.map fun p => p.2).getD date.day.toNat
    let guess := dateUTC date.year month day found.utcHour found.utcMinute
    if (utcDate guess).month ≠ month ∨ (utcDate guess).day ≠ day then none
    else
      let reset := if now < guess then guess
        else if found.monthDay = none then guess + 24 * 60 * 60000
        else dateUTC (date.year + 1) month day found.utcHour found.utcMinute
      if now < reset ∧ reset - now ≤ MAX_RESET_MS then some reset else none

theorem claudeReset_eq (message : List Char) (now : Int) :
    claudeReset message now = (message.tails.findSome? resetFormat).bind (resetAt now) := by
  unfold claudeReset
  cases message.tails.findSome? resetFormat with
  | none => rfl
  | some found =>
    rfl

/-! ### Dates of consecutive years -/

section Years

variable {year : Int} {month : Nat} {day : Int} {hour minute : Nat}

theorem dayOf_lt_succ (year : Int) (month : Nat) (day : Int) :
    dayOf year month day < dayOf (year + 1) month day := by
  have hstart : ∀ leap leap', monthStart leap month ≤ monthStart leap' month + 1 := by
    intro leap leap'
    unfold monthStart
    dsimp only
    split_ifs <;> omega
  have hcross := hstart (inLeapYear year) (inLeapYear (year + 1))
  have hsucc := dayFromYear_succ year
  unfold dayOf
  split_ifs at hsucc <;> omega

theorem dayOf_strictMono (month : Nat) (day : Int) : StrictMono fun year => dayOf year month day :=
  strictMono_int_of_lt_succ fun year => dayOf_lt_succ year month day

/-- The year does not count as one of the twentieth century. -/
theorem dateUTC_eq (hyear : ¬(0 ≤ year ∧ year ≤ 99)) (day : Nat) :
    dateUTC year month day hour minute = instantOf (dayOf year month day) hour minute := by
  unfold dateUTC instantOf dayOf
  rw [if_neg hyear]

/-- A date is written back by the getters exactly if its year has it. -/
theorem utcDate_instantOf_iff (hhour : hour < 24) (hminute : minute < 60) :
    ((utcDate (instantOf (dayOf year month day) hour minute)).month = month ∧
      (utcDate (instantOf (dayOf year month day) hour minute)).day = day) ↔
      DateOf (dayOf year month day) { year, month, day } := by
  have hof := dateOf_utcDate (instantOf (dayOf year month day) hour minute)
  rw [instantOf_day hhour hminute] at hof
  constructor
  · rintro ⟨hmonth, hday⟩
    have hyear : (utcDate (instantOf (dayOf year month day) hour minute)).year = year := by
      have hsame := hof.day
      rw [hmonth, hday] at hsame
      exact (dayOf_strictMono month day).injective hsame.symm
    generalize utcDate (instantOf (dayOf year month day) hour minute) = date at *
    cases date
    subst hyear hmonth hday
    exact hof
  · intro hdate
    have hwhole : DateOf (instantOf (dayOf year month day) hour minute / msPerDay) ⟨year, month,
      day⟩ := by
      rw [instantOf_day hhour hminute]
      exact hdate
    have hsame := utcDate_iff.2 hwhole
    rw [hsame]
    exact ⟨rfl, rfl⟩

end Years

/-! ### The instants a message names -/

section Instants

variable {found : ResetMatch} {now t : Int}

theorem ResetMatch.utcHour_lt (found : ResetMatch) : found.utcHour < 24 := by
  unfold ResetMatch.utcHour
  split <;> omega

/-- The start of a minute is its day and its time of day. -/
theorem minute_eq_iff {hour minute : Nat} (hhour : hour < 24) (hminute : minute < 60) :
    (Minute t ∧ AgentLcars.utcHour t = hour ∧ AgentLcars.utcMinute t = minute) ↔
      t = instantOf (t / msPerDay) hour minute := by
  constructor
  · rintro ⟨hstart, hh, hm⟩
    unfold Minute msPerMinute at hstart
    unfold AgentLcars.utcHour Time at hh
    unfold AgentLcars.utcMinute msPerMinute Time at hm
    unfold instantOf msPerDay
    omega
  · intro heq
    rw [heq]
    exact ⟨minute_instantOf, utcHour_instantOf hhour hminute, utcMinute_instantOf hminute⟩

theorem named_iff (hvalid : found.Valid) : NamedInstant found t ↔
    t = instantOf (t / msPerDay) found.utcHour found.utcMinute ∧
      ∀ p ∈ found.monthDay, (utcDate t).month = MONTHS.idxOf p.1 ∧ (utcDate t).day = p.2 := by
  rw [← minute_eq_iff found.utcHour_lt (Nat.lt_succ_of_le hvalid.minute)]
  exact ⟨fun h => ⟨⟨h.minute, h.clock⟩, h.date⟩, fun h => ⟨h.1.1, h.1.2, h.2⟩⟩

/-- Without a date, every day has one. -/
theorem named_daily_iff (hvalid : found.Valid) (hdate : found.monthDay = none) :
    NamedInstant found t ↔ t = instantOf (t / msPerDay) found.utcHour found.utcMinute := by
  rw [named_iff hvalid, hdate]
  exact and_iff_left nofun

/-- With a date, every year that has it has one. -/
theorem named_yearly_iff (hvalid : found.Valid) {name : String} {day : Nat}
    (hdate : found.monthDay = some (name, day)) :
    NamedInstant found t ↔ ∃ year,
      DateOf (dayOf year (MONTHS.idxOf name) day) ⟨year, MONTHS.idxOf name, day⟩ ∧
      t = instantOf (dayOf year (MONTHS.idxOf name) day) found.utcHour found.utcMinute := by
  have hhour := found.utcHour_lt
  have hminute := Nat.lt_succ_of_le hvalid.minute
  rw [named_iff hvalid, hdate]
  constructor
  · rintro ⟨hclock, hall⟩
    obtain ⟨hmonth, hday⟩ := hall _ rfl
    have hof := dateOf_utcDate t
    have hthis : t / msPerDay = dayOf (utcDate t).year (MONTHS.idxOf name) day := by
      rw [hof.day, hmonth, hday]
      rfl
    refine ⟨(utcDate t).year, ?_, hthis ▸ hclock⟩
    rw [← hthis]
    generalize utcDate t = date at *
    cases date
    subst hmonth hday
    exact hof
  · rintro ⟨year, hof, rfl⟩
    rw [instantOf_day hhour hminute]
    refine ⟨rfl, fun p hp => ?_⟩
    obtain rfl : (name, day) = p := Option.some.inj hp
    exact (utcDate_instantOf_iff hhour hminute).2 hof

end Instants

/-! ### The guess -/

section Guesses

variable {found : ResetMatch} {now t : Int}

/-- `Date.UTC` takes the year of the guess, or of the second one, for one of the twentieth
century. -/
def Misread (found : ResetMatch) (now t : Int) : Prop :=
  (0 ≤ (utcDate now).year ∧ (utcDate now).year ≤ 99) ∨
    found.monthDay.isSome = true ∧ (utcDate now).year = -1 ∧ (utcDate t).year = 0

/-- The first instant after now that a message without a date names. -/
theorem isNextReset_daily_iff (hvalid : found.Valid) (hdate : found.monthDay = none) :
    IsNextReset found now t ↔
      t = if now < instantOf (now / msPerDay) found.utcHour found.utcMinute then
          instantOf (now / msPerDay) found.utcHour found.utcMinute
        else instantOf (now / msPerDay + 1) found.utcHour found.utcMinute := by
  have hhour := found.utcHour_lt
  have hminute := Nat.lt_succ_of_le hvalid.minute
  have hnamed : ∀ day, NamedInstant found (instantOf day found.utcHour found.utcMinute) :=
    fun day => by
    rw [named_daily_iff hvalid hdate, instantOf_day hhour hminute]
  have hnext : now < instantOf (now / msPerDay + 1) found.utcHour found.utcMinute := by
    unfold instantOf msPerDay
    omega
  have hleast : ∀ {other}, NamedInstant found other → now < other →
      (if now < instantOf (now / msPerDay) found.utcHour found.utcMinute then
          instantOf (now / msPerDay) found.utcHour found.utcMinute
        else instantOf (now / msPerDay + 1) found.utcHour found.utcMinute) ≤ other := by
    intro other hother hafter
    rw [named_daily_iff hvalid hdate] at hother
    rw [hother] at hafter ⊢
    generalize other / msPerDay = day at *
    generalize found.utcHour = hour at *
    generalize found.utcMinute = minute at *
    unfold instantOf msPerDay at *
    split_ifs <;> omega
  constructor
  · rintro ⟨ht, hlater, hfirst⟩
    refine le_antisymm (hfirst _ ?_ ?_) (hleast ht hlater)
    · split_ifs <;> exact hnamed _
    · split_ifs with h
      · exact h
      · exact hnext
  · rintro rfl
    refine ⟨?_, ?_, fun other => hleast⟩
    · split_ifs <;> exact hnamed _
    · split_ifs with h
      · exact h
      · exact hnext

/-- A year of the twentieth century is far away from the years before 100. -/
theorem far_away {year : Int} (hyear : 1900 ≤ year) (hnow : (utcDate now).year ≤ 99)
    (month day hour minute : Nat) :
    now + MAX_RESET_MS < instantOf (dayOf year month day) hour minute := by
  have hwithin := (dateOf_utcDate now).within.2
  have hearly := dayFromYear_mono (show (utcDate now).year + 1 ≤ 100 by omega)
  have hlate := dayFromYear_mono hyear
  have h100 : dayFromYear 100 = -683003 := by decide
  have h1900 : dayFromYear 1900 = -25567 := by decide
  have hstart : 0 ≤ monthStart (inLeapYear year) month := by
    have hall : ∀ leap, ∀ month < 12, 0 ≤ monthStart leap month := by decide
    by_cases hmonth : month < 12
    · exact hall _ month hmonth
    · unfold monthStart
      rw [List.getD_eq_getElem?_getD,
        List.getElem?_eq_none (by simpa using Nat.le_of_not_lt hmonth),
        Option.getD_none]
      dsimp only
      split_ifs <;> omega
  unfold instantOf dayOf MAX_RESET_MS msPerDay Time at *
  omega

/-- For a year before 100 the guess is never believed. -/
theorem resetAt_misread (hyear : 0 ≤ (utcDate now).year ∧ (utcDate now).year ≤ 99) :
    resetAt now found = none := by
  have hguess : ∀ month day, now + MAX_RESET_MS <
      dateUTC (utcDate now).year month day found.utcHour found.utcMinute := by
    intro month day
    have hdate : dateUTC (utcDate now).year month day found.utcHour found.utcMinute =
        instantOf (dayOf (1900 + (utcDate now).year) month day) found.utcHour found.utcMinute := by
      unfold dateUTC instantOf dayOf
      rw [if_pos hyear]
    rw [hdate]
    exact far_away (by omega) hyear.2 month day _ _
  unfold resetAt
  dsimp only
  generalize (found.monthDay.map fun p => MONTHS.idxOf p.1).getD (utcDate now).month = month
  generalize (found.monthDay.map fun p => p.2).getD (utcDate now).day.toNat = day
  have hfar := hguess month day
  generalize dateUTC (utcDate now).year month day found.utcHour found.utcMinute = guess at hfar ⊢
  have hpos : (0 : Int) < MAX_RESET_MS := by decide
  have hlater : now < guess := by
    unfold Time at *
    omega
  have hfar : ¬guess - now ≤ MAX_RESET_MS := by
    unfold Time at *
    omega
  simp only [hlater, hfar, if_true, and_false, if_false]
  split_ifs <;> rfl

theorem resetAt_daily (hvalid : found.Valid) (hdate : found.monthDay = none)
    (hyear : ¬(0 ≤ (utcDate now).year ∧ (utcDate now).year ≤ 99)) :
    resetAt now found = some t ↔ IsNextReset found now t ∧ t - now ≤ MAX_RESET_MS := by
  have hhour := found.utcHour_lt
  have hminute := Nat.lt_succ_of_le hvalid.minute
  have hof := dateOf_utcDate now
  have hcast : ((utcDate now).day.toNat : Int) = (utcDate now).day := by
    have hpos := hof.pos
    omega
  have hday : dayOf (utcDate now).year (utcDate now).month ((utcDate now).day.toNat : Int) = now / msPerDay := by
    rw [hcast]
    exact hof.day.symm
  have hguess : dateUTC (utcDate now).year (utcDate now).month (utcDate now).day.toNat found.utcHour
      found.utcMinute = instantOf (now / msPerDay) found.utcHour found.utcMinute := by
    rw [dateUTC_eq hyear, hday]
  have hback : (utcDate (instantOf (now / msPerDay) found.utcHour found.utcMinute)).month = (utcDate now).month ∧
      (utcDate (instantOf (now / msPerDay) found.utcHour found.utcMinute)).day = ((utcDate now).day.toNat : Int) := by
    rw [← hday]
    refine (utcDate_instantOf_iff hhour hminute).2 ?_
    rw [hday, hcast]
    exact hof
  have hnext : instantOf (now / msPerDay) found.utcHour found.utcMinute + 24 * 60 * 60000 =
      instantOf (now / msPerDay + 1) found.utcHour found.utcMinute := by
    unfold instantOf msPerDay
    omega
  have hinvalid : ¬(found.hour < 1 ∨ 12 < found.hour ∨ 59 < found.utcMinute) := by
    have := hvalid.pos
    have := hvalid.le
    have := hvalid.minute
    omega
  rw [isNextReset_daily_iff hvalid hdate]
  unfold resetAt
  simp only [hdate, Option.map_none, Option.getD_none, if_neg hinvalid, hguess, hback.1,
    hback.2, ne_eq,
    not_true_eq_false, or_self, if_false, if_true, hnext]
  generalize hreset : (if now < instantOf (now / msPerDay) found.utcHour found.utcMinute then
      instantOf (now / msPerDay) found.utcHour found.utcMinute
    else instantOf (now / msPerDay + 1) found.utcHour found.utcMinute) = reset
  have hlater : now < reset := by
    rw [← hreset]
    split_ifs with h
    · exact h
    · unfold instantOf msPerDay
      omega
  constructor
  · intro h
    split_ifs at h with hnear
    obtain rfl := Option.some.inj h
    exact ⟨rfl, hnear.2⟩
  · rintro ⟨rfl, hnear⟩
    rw [if_pos ⟨hlater, hnear⟩]

/-! A date in every year. -/

theorem ResetMatch.Valid.not_refused (hvalid : found.Valid) :
    ¬(found.hour < 1 ∨ 12 < found.hour ∨ 59 < found.utcMinute) := by
  have := hvalid.pos
  have := hvalid.le
  have := hvalid.minute
  omega

section Yearly

variable {month day hour minute : Nat}

theorem instantOf_dayOf_strictMono (month day hour minute : Nat) :
    StrictMono fun year => instantOf (dayOf year month day) hour minute := by
  intro year year' hlt
  have hday := dayOf_strictMono month day hlt
  dsimp only at hday ⊢
  unfold instantOf msPerDay
  omega

theorem year_instantOf {year : Int} (hhour : hour < 24) (hminute : minute < 60)
    (hof : DateOf (dayOf year month day) ⟨year, month, day⟩) :
    (utcDate (instantOf (dayOf year month day) hour minute)).year = year := by
  have hwhole : DateOf (instantOf (dayOf year month day) hour minute / msPerDay) ⟨year, month,
    day⟩ := by
    rw [instantOf_day hhour hminute]
    exact hof
  rw [utcDate_iff.2 hwhole]

/-- A date after now is in this year or later. -/
theorem year_le {year : Int} (hhour : hour < 24) (hminute : minute < 60)
    (hof : DateOf (dayOf year month day) ⟨year, month, day⟩)
    (hlater : now < instantOf (dayOf year month day) hour minute) : (utcDate now).year ≤ year := by
  by_contra hlt
  have hwithin := hof.within.2
  have hnow := (dateOf_utcDate now).within.1
  have hmono := dayFromYear_mono (show year + 1 ≤ (utcDate now).year by omega)
  dsimp only at hwithin
  unfold instantOf msPerDay at *
  omega

/-- A date within seven days is in this year or the next. -/
theorem le_year {year : Int} (hof : DateOf (dayOf year month day) ⟨year, month, day⟩)
    (hnear : instantOf (dayOf year month day) hour minute - now ≤ MAX_RESET_MS) :
      year ≤ (utcDate now).year + 1 := by
  by_contra hlt
  have hwithin := hof.within.1
  have hnow := (dateOf_utcDate now).within.2
  have hmono := dayFromYear_mono (show (utcDate now).year + 1 + 1 ≤ year by omega)
  have hsucc := dayFromYear_succ ((utcDate now).year + 1)
  dsimp only at hwithin
  unfold instantOf msPerDay MAX_RESET_MS Time at *
  split_ifs at hsucc <;> omega

/-- A date of the next year within seven days is one that every year has. -/
theorem yearly_of_near {year : Int} (hof : DateOf (dayOf year month day) ⟨year, month, day⟩)
    (hnear : instantOf (dayOf ((utcDate now).year + 1) month day) hour minute - now ≤ MAX_RESET_MS) :
    Yearly month day := by
  have hmonth := hof.month
  have hday := hof.pos
  dsimp only at hmonth hday
  have hnow := (dateOf_utcDate now).within.2
  have hstart : ∀ leap, ∀ month < 12, month ≠ 0 → 31 ≤ monthStart leap month := by decide
  have hsum : monthStart (inLeapYear ((utcDate now).year + 1)) month + day ≤ 7 := by
    unfold instantOf dayOf msPerDay MAX_RESET_MS Time at *
    omega
  have hfirst : month = 0 := by
    by_contra hne
    have := hstart (inLeapYear ((utcDate now).year + 1)) month hmonth hne
    omega
  subst hfirst
  rw [monthStart_zero] at hsum
  refine ⟨by decide, by omega, ?_⟩
  have hlength : monthLength false 0 = 31 := by decide
  omega

end Yearly

theorem resetAt_yearly (hvalid : found.Valid) {name : String} {day : Nat}
    (hdate : found.monthDay = some (name, day))
    (hyear : ¬(0 ≤ (utcDate now).year ∧ (utcDate now).year ≤ 99)) :
    resetAt now found = some t ↔
      IsNextReset found now t ∧ t - now ≤ MAX_RESET_MS ∧ ¬Misread found now t := by
  have hhour := found.utcHour_lt
  have hminute := Nat.lt_succ_of_le hvalid.minute
  have hnamed : ∀ {t}, NamedInstant found t ↔ ∃ year, DateOf (dayOf year (MONTHS.idxOf name) day)
      ⟨year, MONTHS.idxOf name, day⟩ ∧
        t = instantOf (dayOf year (MONTHS.idxOf name) day) found.utcHour
        found.utcMinute := named_yearly_iff hvalid hdate
  have hmisread : Misread found now t ↔ (utcDate now).year = -1 ∧ (utcDate t).year = 0 := by
    unfold Misread
    rw [hdate]
    simp only [Option.isSome_some, true_and]
    exact or_iff_right hyear
  have hmono := instantOf_dayOf_strictMono (MONTHS.idxOf name) day found.utcHour found.utcMinute
  dsimp only [StrictMono] at hmono
  -- of the instants within seven days, the year is this one or the next
  have hyears : ∀ {t}, IsNextReset found now t → t - now ≤ MAX_RESET_MS →
      ∃ year, ((utcDate now).year = year ∨ (utcDate now).year + 1 = year) ∧
        DateOf (dayOf year (MONTHS.idxOf name) day) ⟨year, MONTHS.idxOf name, day⟩ ∧
        t = instantOf (dayOf year (MONTHS.idxOf name) day) found.utcHour found.utcMinute := by
    intro t ht hnear
    obtain ⟨year, hof, rfl⟩ := hnamed.1 ht.named
    have hle := year_le hhour hminute hof ht.later
    have hge := le_year hof hnear
    exact ⟨year, by omega, hof, rfl⟩
  have hguess : dateUTC (utcDate now).year (MONTHS.idxOf name) day found.utcHour found.utcMinute =
      instantOf (dayOf (utcDate now).year (MONTHS.idxOf name) day) found.utcHour found.utcMinute :=
    dateUTC_eq hyear day
  rw [hmisread]
  unfold resetAt
  simp only [hdate, Option.map_some, Option.getD_some, if_neg hvalid.not_refused, hguess,
    reduceCtorEq, if_false]
  by_cases hof : DateOf (dayOf (utcDate now).year (MONTHS.idxOf name) day)
      ⟨(utcDate now).year, MONTHS.idxOf name, day⟩
  · have hback := (utcDate_instantOf_iff hhour hminute).2 hof
    simp only [hback.1, hback.2, ne_eq, not_true_eq_false, or_self, if_false]
    by_cases hlater : now < instantOf (dayOf (utcDate now).year (MONTHS.idxOf name) day) found.utcHour found.utcMinute
    · have hnext : IsNextReset found now t ↔
        t = instantOf (dayOf (utcDate now).year (MONTHS.idxOf name) day)
          found.utcHour found.utcMinute := by
        have hleast : ∀ other, NamedInstant found other → now < other →
            instantOf (dayOf (utcDate now).year (MONTHS.idxOf name) day) found.utcHour found.utcMinute ≤ other := by
          intro other hother hafter
          obtain ⟨year, hof', rfl⟩ := hnamed.1 hother
          rcases lt_or_eq_of_le (year_le hhour hminute hof' hafter) with hlt | rfl
          · exact (hmono hlt).le
          · exact le_rfl
        constructor
        · intro h
          exact le_antisymm (h.least _ (hnamed.2 ⟨_, hof, rfl⟩) hlater) (hleast t h.named h.later)
        · rintro rfl
          exact ⟨hnamed.2 ⟨_, hof, rfl⟩, hlater, hleast⟩
      rw [hnext]
      simp only [hlater, if_true, true_and]
      have hthis := year_instantOf hhour hminute hof
      constructor
      · intro h
        split_ifs at h with hnear
        obtain rfl := Option.some.inj h
        refine ⟨rfl, hnear, fun hbad => ?_⟩
        rw [hthis] at hbad
        omega
      · rintro ⟨rfl, hnear, -⟩
        rw [if_pos hnear]
    · simp only [hlater, if_false]
      have hnext : IsNextReset found now t ∧ t - now ≤ MAX_RESET_MS ↔
          t = instantOf (dayOf ((utcDate now).year + 1) (MONTHS.idxOf name) day) found.utcHour found.utcMinute ∧
            now < t ∧ t - now ≤ MAX_RESET_MS := by
        constructor
        · rintro ⟨hnext, hnear⟩
          obtain ⟨year, hyear | hyear, hof', heq⟩ := hyears hnext hnear
          · subst hyear
            exact absurd (heq ▸ hnext.later) hlater
          · subst hyear
            exact ⟨heq, hnext.later, hnear⟩
        · rintro ⟨rfl, hafter, hnear⟩
          have hdates := (yearly_of_near hof hnear).dateOf
          refine ⟨⟨hnamed.2 ⟨_, hdates _, rfl⟩, hafter, fun other hother hlast => ?_⟩, hnear⟩
          obtain ⟨year, hof', rfl⟩ := hnamed.1 hother
          rcases lt_or_eq_of_le (year_le hhour hminute hof' hlast) with hlt | rfl
          · rcases lt_or_eq_of_le (show (utcDate now).year + 1 ≤ year by omega) with hlt | rfl
            · exact (hmono hlt).le
            · exact le_rfl
          · exact absurd hlast hlater
      rw [← and_assoc, hnext]
      by_cases hbefore : (utcDate now).year = -1
      · -- the second guess is in 1900
        have hsecond : dateUTC ((utcDate now).year + 1) (MONTHS.idxOf name) day found.utcHour found.utcMinute =
            instantOf (dayOf 1900 (MONTHS.idxOf name) day) found.utcHour found.utcMinute := by
          rw [hbefore]
          rfl
        have hfar := far_away (show (1900 : Int) ≤ 1900 by omega) (show (utcDate now).year ≤ 99 by omega)
          (MONTHS.idxOf name) day found.utcHour found.utcMinute
        rw [hsecond, if_neg (by unfold Time at *; omega)]
        refine iff_of_false nofun ?_
        rintro ⟨⟨rfl, hafter, hnear⟩, hgood⟩
        have hdates := (yearly_of_near hof hnear).dateOf
        rw [year_instantOf hhour hminute (hdates _)] at hgood
        exact hgood ⟨hbefore, by omega⟩
      · rw [dateUTC_eq (by omega)]
        constructor
        · intro h
          split_ifs at h with hnear
          obtain rfl := Option.some.inj h
          exact ⟨⟨rfl, hnear⟩, fun hbad => hbefore hbad.1⟩
        · rintro ⟨⟨rfl, hnear⟩, -⟩
          rw [if_pos hnear]
  · have hback : ¬((utcDate (instantOf (dayOf (utcDate now).year (MONTHS.idxOf name) day) found.utcHour
        found.utcMinute)).month = MONTHS.idxOf name ∧ (utcDate (instantOf (dayOf (utcDate now).year
          (MONTHS.idxOf name) day) found.utcHour found.utcMinute)).day = day) := fun h =>
      hof ((utcDate_instantOf_iff hhour hminute).1 h)
    rw [if_pos (by rw [ne_eq, ne_eq, ← not_and_or]; exact hback)]
    refine iff_of_false nofun ?_
    rintro ⟨hnext, hnear, -⟩
    obtain ⟨year, hyear | hyear, hof', heq⟩ := hyears hnext hnear
    · subst hyear
      exact hof hof'
    · subst hyear heq
      exact hof ((yearly_of_near hof' hnear).dateOf _)

/-- The guess is the first instant that the message names, when that is near and its year is not
misread. -/
theorem resetAt_iff (hvalid : found.Valid) : resetAt now found = some t ↔
    IsNextReset found now t ∧ t - now ≤ MAX_RESET_MS ∧ ¬Misread found now t := by
  by_cases hyear : 0 ≤ (utcDate now).year ∧ (utcDate now).year ≤ 99
  · rw [resetAt_misread hyear]
    exact iff_of_false nofun fun h => h.2.2 (.inl hyear)
  · cases hdate : found.monthDay with
    | none =>
      have hgood : ¬Misread found now t := by
        rintro (h | ⟨h, -⟩)
        · exact hyear h
        · rw [hdate] at h
          cases h
      rw [resetAt_daily hvalid hdate hyear]
      exact ⟨fun h => ⟨h.1, h.2, hgood⟩, fun h => ⟨h.1, h.2.1⟩⟩
    | some p => exact resetAt_yearly hvalid hdate hyear

end Guesses

/-! ### The cooldown -/

/-- The run is one of Claude that a limit stopped, and its message ends in a reset. -/
structure Reports (run : Run) (result : RunResult) (found : ResetMatch) : Prop where
  pipeline : run.pipeline = "claude"
  summary : result.summary = some "provider-limit"
  format : ((result.message.map trim).getD []).tails.findSome? resetFormat = some found
  valid : found.Valid

/-- The first instant that the message names comes within seven days. -/
def ReportsNear (run : Run) (result : RunResult) (found : ResetMatch) (t : Int) : Prop :=
  Reports run result found ∧ IsNextReset found run.updatedAt t ∧ t - run.updatedAt ≤ MAX_RESET_MS

/-- The cooldown ends at the first instant that the message names, when that comes within seven days, and
else after the probe. -/
structure ExpiresAsReported (run : Run) (result : RunResult) (cooldown : ProviderCooldown) :
    Prop where
  reported : ∀ found t, ReportsNear run result found t → cooldown.expiresAt = t
  otherwise : (∀ found t, ¬ReportsNear run result found t) →
    cooldown.expiresAt = run.updatedAt + PROVIDER_LIMIT_PROBE_MS
  later : run.updatedAt < cooldown.expiresAt
  bounded : cooldown.expiresAt ≤ run.updatedAt + MAX_RESET_MS

section Cooldowns

variable {run : Run} {result : RunResult} {cooldown : ProviderCooldown} {found : ResetMatch} {now t : Int}

theorem IsNextReset.unique {t' : Int} (h : IsNextReset found now t)
    (h' : IsNextReset found now t') : t = t' :=
  le_antisymm (h.least t' h'.named h'.later) (h'.least t h.named h.later)

/-- A provider stop that a finished run reports has a cooldown. -/
theorem providerCooldownForRun_isSome (hresult : run.result = some result) :
    (providerCooldownForRun run).isSome = true ↔ run.state = .finished ∧ result.isProviderStop =
      true := by
  unfold providerCooldownForRun
  rw [hresult]
  dsimp only
  split_ifs with h
  · exact iff_of_true rfl h
  · exact iff_of_false (by decide) h

/-- The end of a cooldown in terms of the message. -/
theorem expiresAt_eq (hresult : run.result = some result)
    (hcooldown : providerCooldownForRun run = some cooldown) :
    cooldown.expiresAt = (if run.pipeline = "claude" ∧ result.summary = some "provider-limit" then
      (((result.message.map trim).getD []).tails.findSome? resetFormat).bind (resetAt run.updatedAt)
    else none).getD (run.updatedAt + PROVIDER_LIMIT_PROBE_MS) := by
  unfold providerCooldownForRun at hcooldown
  rw [hresult] at hcooldown
  dsimp only at hcooldown
  split_ifs at hcooldown with hstop
  obtain rfl := Option.some.inj hcooldown
  have hsummary : result.summary ≠ some "provider-capacity" ↔
    result.summary = some "provider-limit" := by
    have hkind := (of_decide_eq_true hstop.2).2
    constructor
    · exact fun h => hkind.resolve_right h
    · intro h h'
      rw [h] at h'
      exact absurd (Option.some.inj h') (by decide)
  show cooldownExpiry run.pipeline result run.updatedAt = _
  unfold cooldownExpiry
  simp only [claudeReset_eq, hsummary]

/-- A cooldown ends as the message says exactly if no reset within seven days is misread, apart from one that
is as far as the probe. -/
theorem expiresAsReported_iff (hresult : run.result = some result)
    (hcooldown : providerCooldownForRun run = some cooldown) :
      ExpiresAsReported run result cooldown ↔
      ∀ found t, ReportsNear run result found t → Misread found run.updatedAt t →
        t = run.updatedAt + PROVIDER_LIMIT_PROBE_MS := by
  have hexpires := expiresAt_eq hresult hcooldown
  have hprobe : (0 : Int) < PROVIDER_LIMIT_PROBE_MS ∧
    PROVIDER_LIMIT_PROBE_MS ≤ MAX_RESET_MS := by decide
  -- a reset that is not misread is the one that is found
  have hgood : ∀ found t, ReportsNear run result found t → ¬Misread found run.updatedAt t →
      cooldown.expiresAt = t := by
    rintro found t ⟨hreports, hnext, hnear⟩ hread
    rw [hexpires, if_pos ⟨hreports.pipeline, hreports.summary⟩, hreports.format, Option.bind_some,
      (resetAt_iff hreports.valid).2 ⟨hnext, hnear, hread⟩]
    rfl
  -- one that is misread is not found
  have hbad : ∀ found t, ReportsNear run result found t → Misread found run.updatedAt t →
      cooldown.expiresAt = run.updatedAt + PROVIDER_LIMIT_PROBE_MS := by
    rintro found t ⟨hreports, hnext, hnear⟩ hread
    have hnone : resetAt run.updatedAt found = none := by
      refine Option.eq_none_iff_forall_not_mem.2 fun other hother => ?_
      obtain ⟨hfirst, -, hsame⟩ := (resetAt_iff hreports.valid).1 hother
      exact hsame (hfirst.unique hnext ▸ hread)
    rw [hexpires, if_pos ⟨hreports.pipeline, hreports.summary⟩, hreports.format,
      Option.bind_some, hnone]
    rfl
  constructor
  · intro h found t hreports hread
    rw [← h.reported found t hreports, hbad found t hreports hread]
  · intro h
    have hcases : (∃ found t, ReportsNear run result found t ∧ cooldown.expiresAt = t) ∨
        cooldown.expiresAt = run.updatedAt + PROVIDER_LIMIT_PROBE_MS := by
      cases hfound : (if run.pipeline = "claude" ∧ result.summary = some "provider-limit" then
          (((result.message.map trim).getD []).tails.findSome? resetFormat).bind (resetAt run.updatedAt)
        else none) with
      | none =>
        rw [hfound] at hexpires
        exact .inr hexpires
      | some t =>
        rw [hfound] at hexpires
        split_ifs at hfound with hclaude
        obtain ⟨found, hformat, hreset⟩ := Option.bind_eq_some_iff.1 hfound
        have hvalid : found.Valid := by
          have hrefused : ¬(found.hour < 1 ∨ 12 < found.hour ∨ 59 < found.utcMinute) := by
            intro hrefused
            unfold resetAt at hreset
            rw [if_pos hrefused] at hreset
            cases hreset
          exact ⟨by omega, by omega, by omega⟩
        obtain ⟨hnext, hnear, -⟩ := (resetAt_iff hvalid).1 hreset
        exact .inl ⟨found, t, ⟨⟨hclaude.1, hclaude.2, hformat, hvalid⟩, hnext, hnear⟩, hexpires⟩
    refine ⟨fun found t hreports => ?_, fun hnone => ?_, ?_, ?_⟩
    · by_cases hread : Misread found run.updatedAt t
      · rw [hbad found t hreports hread, h found t hreports hread]
      · exact hgood found t hreports hread
    · rcases hcases with ⟨found, t, hreports, -⟩ | hprobed
      · exact absurd hreports (hnone found t)
      · exact hprobed
    · rcases hcases with ⟨found, t, hreports, heq⟩ | hprobed
      · exact heq ▸ hreports.2.1.later
      · unfold Time at *
        omega
    · rcases hcases with ⟨found, t, hreports, heq⟩ | hprobed
      · have := hreports.2.2
        unfold Time at *
        omega
      · unfold Time at *
        omega

end Cooldowns

namespace Sample

def limitReport (message : String) : RunResult :=
  { ok := false, summary := some "provider-limit", ref := none, relatedRefs := none,
    message := some message
    humanNeededActions := none }

/-- A run of Claude that a limit stopped, with a message. -/
def limitedRun (now : Time) (message : String) : Run :=
  { runId := "octo/example#1/r1", task := .github "octo/example" 1, state := .finished,
    pipeline := "claude"
    priority := .normal, requestId := "request", requestSource := .caller, params := none,
      issue := none
    sourceRevision := none, revisionAttempt := none, providerFallback := none, queue := none,
      delivery := none
    triagePublication := none, credentialOperation := none,
      credentialRestoredClaimFingerprint := none
    credentialPendingResult := none, credentialWriteReceipt := none, leaseExpiresAt := 0
    result := some (limitReport message)
    events := [], createdAt := 0, updatedAt := now }

def cooldownUntil (now expiresAt : Time) : ProviderCooldown :=
  { pipeline := "claude", runId := "octo/example#1/r1", observedAt := now, expiresAt }

/-- 0050-06-01T10:00:00Z. -/
def earlyYear : Time := instantOf (dayOf 50 5 1) 10 0

/-- 2026-12-30T10:00:00Z. -/
def yearEnd : Time := instantOf (dayOf 2026 11 30) 10 0

end Sample

open Sample in
theorem expiresAsReported_iff_yearEnd :
    ExpiresAsReported (limitedRun yearEnd "resets Jan 2, 5pm (UTC)")
    (limitReport "resets Jan 2, 5pm (UTC)")
        (cooldownUntil yearEnd (instantOf (dayOf 2027 0 2) 17 0)) ↔
      ∀ found t, ReportsNear (limitedRun yearEnd "resets Jan 2, 5pm (UTC)")
      (limitReport "resets Jan 2, 5pm (UTC)") found t →
        Misread found yearEnd t → t = yearEnd + PROVIDER_LIMIT_PROBE_MS :=
  expiresAsReported_iff rfl (by decide +kernel)

open Sample in
/-- In the year 50 a reset at five in the afternoon is not believed. -/
theorem reset_misread : ¬∀ (run : Run) (result : RunResult) (cooldown : ProviderCooldown),
    run.result = some result → providerCooldownForRun run = some cooldown →
      ExpiresAsReported run result cooldown := by
  intro h
  have hrun := h (limitedRun earlyYear "resets 5pm (UTC)") (limitReport "resets 5pm (UTC)")
    (cooldownUntil earlyYear (earlyYear + PROVIDER_LIMIT_PROBE_MS)) rfl (by decide +kernel)
  have hvalid : (ResetMatch.mk none 5 none true).Valid := ⟨by decide, by decide, by decide⟩
  have hnext : IsNextReset ⟨none, 5, none, true⟩ earlyYear (instantOf (dayOf 50 5 1) 17 0) :=
    (isNextReset_daily_iff hvalid rfl).2 (by decide +kernel)
  have hexpires := hrun.reported ⟨none, 5, none, true⟩ (instantOf (dayOf 50 5 1) 17 0)
    ⟨⟨rfl, rfl, by decide +kernel, hvalid⟩, hnext, by decide +kernel⟩
  exact absurd hexpires (by decide +kernel)

end AgentLcars
