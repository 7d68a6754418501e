import Mathlib.Data.Nat.Find
import AgentLcars.Calendar
import AgentLcars.Cron

/-!
# The slots of a cron expression

* `nextDueSlot_iff`, `latestDueSlot_iff`: the walks find the least and the greatest matching minute of
  their windows.
* `CronSpec.fires_forever`: an expression that matches at all matches again and again.
* `CronSpec.Yearly.next_isSome`, `latest_isSome`: one that names a yearly date and any day of the week
  always has a slot in both windows.
-/

namespace AgentLcars

/-! ### Minutes -/

/-- The instant is the start of a minute. -/
def Minute (t : Int) : Prop := t % msPerMinute = 0

/-- A year and a day, the window of both walks. -/
def horizonMs : Int := 366 * 86400000

theorem minute_truncate (t : Time) : Minute (truncateToMinute t) := by
  unfold Minute truncateToMinute
  exact Int.mul_emod_left _ _

theorem truncate_le (t : Time) : truncateToMinute t ≤ t := Int.ediv_mul_le t (by decide)

/-- A minute up to an instant is one up to its minute. -/
theorem Minute.le_truncate {m t : Int} (h : Minute m) (hle : m ≤ t) : m ≤ truncateToMinute t := by
  unfold Minute msPerMinute at h
  unfold truncateToMinute msPerMinute
  omega

theorem Minute.exists_steps {m cursor : Int} (h : Minute m) (hcursor : Minute cursor)
    (hle : cursor ≤ m) : ∃ k : Nat, m = cursor + k * msPerMinute := by
  unfold Minute msPerMinute at h hcursor
  refine ⟨((m - cursor) / 60000).toNat, ?_⟩
  unfold msPerMinute
  omega

theorem steps_forward (cursor : Int) (j : Nat) :
    cursor + msPerMinute + j * msPerMinute = cursor + ((j + 1 : Nat) : Int) * msPerMinute := by
  unfold msPerMinute
  omega

theorem steps_back (cursor : Int) (j : Nat) :
    cursor - msPerMinute - j * msPerMinute = cursor - ((j + 1 : Nat) : Int) * msPerMinute := by
  unfold msPerMinute
  omega

section Walks

variable {spec : CronSpec} {slot : Time}

/-- The forward walk finds the first match. -/
theorem walkForward_iff {steps : Nat} {cursor : Int} :
    walkForward spec steps cursor = some slot ↔
      ∃ k < steps, slot = cursor + k * msPerMinute ∧ matchesSpec spec slot = true ∧
        ∀ j < k, matchesSpec spec (cursor + j * msPerMinute) = false := by
  induction steps generalizing cursor with
  | zero =>
    constructor
    · intro h
      cases h
    · rintro ⟨k, hk, -⟩
      cases hk
  | succ steps ih =>
    rw [walkForward]
    by_cases hmatch : matchesSpec spec cursor = true
    · rw [if_pos hmatch]
      constructor
      · intro h
        obtain rfl := Option.some.inj h
        exact ⟨0, Nat.succ_pos _, by simp, hmatch, fun j hj => by cases hj⟩
      · rintro ⟨k, -, rfl, -, hbefore⟩
        cases k with
        | zero => simp
        | succ k =>
          have := hbefore 0 (Nat.succ_pos k)
          simp [hmatch] at this
    · rw [if_neg hmatch, ih]
      constructor
      · rintro ⟨k, hk, rfl, hslot, hbefore⟩
        refine ⟨k + 1, Nat.succ_lt_succ hk, steps_forward cursor k, hslot, fun j hj => ?_⟩
        cases j with
        | zero => simpa using hmatch
        | succ j => rw [← steps_forward cursor j]; exact hbefore j (Nat.lt_of_succ_lt_succ hj)
      · rintro ⟨k, hk, rfl, hslot, hbefore⟩
        cases k with
        | zero => simp [hmatch] at hslot
        | succ k =>
          refine ⟨k, Nat.lt_of_succ_lt_succ hk, (steps_forward cursor k).symm, hslot, fun j hj => ?_⟩
          rw [steps_forward cursor j]
          exact hbefore (j + 1) (Nat.succ_lt_succ hj)

/-- The backward walk finds the first match above the bound. -/
theorem walkBack_iff {lowerBound : Option Time} {steps : Nat} {cursor : Int} :
    walkBack spec lowerBound steps cursor = some slot ↔
      ∃ k < steps, slot = cursor - k * msPerMinute ∧ matchesSpec spec slot = true ∧
        (∀ bound ∈ lowerBound, bound < slot) ∧
        ∀ j < k, matchesSpec spec (cursor - j * msPerMinute) = false := by
  induction steps generalizing cursor with
  | zero =>
    constructor
    · intro h
      cases h
    · rintro ⟨k, hk, -⟩
      cases hk
  | succ steps ih =>
    rw [walkBack]
    by_cases hbound : (lowerBound.any (cursor ≤ ·)) = true
    · rw [if_pos hbound]
      constructor
      · intro h
        cases h
      · -- every later cursor is below the bound, too
        rintro ⟨k, -, rfl, -, habove, -⟩
        obtain ⟨bound, hmem, hle⟩ := (Option.any_eq_true _ _).1 hbound
        have hlt : (bound : Int) < cursor - k * msPerMinute := habove bound hmem
        have hle : cursor ≤ (bound : Int) := of_decide_eq_true hle
        unfold msPerMinute at hlt
        omega
    rw [if_neg hbound]
    by_cases hmatch : matchesSpec spec cursor = true
    · rw [if_pos hmatch]
      constructor
      · intro h
        obtain rfl := Option.some.inj h
        refine ⟨0, Nat.succ_pos _, by simp, hmatch, fun bound hmem => ?_, fun j hj => by cases hj⟩
        rw [Option.mem_def.1 hmem, Option.any_some, decide_eq_true_eq] at hbound
        exact Int.not_le.1 hbound
      · rintro ⟨k, -, rfl, -, -, hbefore⟩
        cases k with
        | zero => simp
        | succ k =>
          have := hbefore 0 (Nat.succ_pos k)
          simp [hmatch] at this
    · rw [if_neg hmatch, ih]
      constructor
      · rintro ⟨k, hk, rfl, hslot, habove, hbefore⟩
        refine ⟨k + 1, Nat.succ_lt_succ hk, steps_back cursor k, hslot, habove, fun j hj => ?_⟩
        cases j with
        | zero => simpa using hmatch
        | succ j => rw [← steps_back cursor j]; exact hbefore j (Nat.lt_of_succ_lt_succ hj)
      · rintro ⟨k, hk, rfl, hslot, habove, hbefore⟩
        cases k with
        | zero => simp [hmatch] at hslot
        | succ k =>
          refine ⟨k, Nat.lt_of_succ_lt_succ hk, (steps_back cursor k).symm, hslot, habove, fun j hj => ?_⟩
          rw [steps_back cursor j]
          exact hbefore (j + 1) (Nat.succ_lt_succ hj)

end Walks

/-! ### The windows -/

section Windows

variable {spec : CronSpec} {slot now start : Int}

/-- The slot is the least match of the window of the next slot. -/
structure IsNextSlot (spec : CronSpec) (start slot : Int) : Prop where
  minute : Minute slot
  matches_ : matchesSpec spec slot = true
  ge : truncateToMinute start ≤ slot
  lt : slot < truncateToMinute start + horizonMs
  least : ∀ m, Minute m → truncateToMinute start ≤ m → m < slot → matchesSpec spec m = false

/-- The slot is the greatest match of the window of the latest slot. -/
structure IsLatestSlot (spec : CronSpec) (now : Int) (after : Option Time) (slot : Int) : Prop where
  minute : Minute slot
  matches_ : matchesSpec spec slot = true
  le : slot ≤ now
  gt : truncateToMinute now - horizonMs < slot
  after : ∀ bound ∈ after, bound < slot
  greatest : ∀ m, Minute m → m ≤ now → slot < m → matchesSpec spec m = false

/-- The next due slot is the least matching minute of its window. -/
theorem nextDueSlot_iff : nextDueSlot spec start = some slot ↔ IsNextSlot spec start slot := by
  have htrunc := minute_truncate start
  unfold nextDueSlot
  rw [walkForward_iff]
  constructor
  · rintro ⟨k, hk, rfl, hslot, hbefore⟩
    refine ⟨?_, hslot, ?_, ?_, fun m hm hle hlt => ?_⟩
    · unfold Minute msPerMinute at *
      omega
    · unfold Time msPerMinute
      omega
    · unfold DEFAULT_HORIZON_DAYS at hk
      unfold Time horizonMs msPerMinute
      omega
    · obtain ⟨j, rfl⟩ := hm.exists_steps htrunc hle
      refine hbefore j ?_
      unfold Time msPerMinute at hlt
      omega
  · rintro ⟨hminute, hslot, hge, hlt, hleast⟩
    obtain ⟨k, rfl⟩ := hminute.exists_steps htrunc hge
    refine ⟨k, ?_, rfl, hslot, fun j hj => hleast _ ?_ ?_ ?_⟩
    · unfold Time horizonMs msPerMinute at hlt
      unfold DEFAULT_HORIZON_DAYS
      omega
    · unfold Minute msPerMinute at *
      omega
    · unfold Time msPerMinute
      omega
    · unfold Time msPerMinute
      omega

/-- The latest due slot is the greatest matching minute of its window that comes after the last. -/
theorem latestDueSlot_iff {after : Option Time} :
    latestDueSlot spec now after = some slot ↔ IsLatestSlot spec now after slot := by
  have htrunc := minute_truncate now
  have htruncle : truncateToMinute now ≤ now := truncate_le now
  unfold latestDueSlot
  rw [walkBack_iff]
  constructor
  · rintro ⟨k, hk, rfl, hslot, habove, hbefore⟩
    refine ⟨?_, hslot, ?_, ?_, habove, fun m hm hle hlt => ?_⟩
    · unfold Minute msPerMinute at *
      omega
    · unfold Time msPerMinute at *
      omega
    · unfold MAX_LOOKBACK_MINUTES at hk
      unfold Time horizonMs msPerMinute
      omega
    · have hle := hm.le_truncate hle
      obtain ⟨j, hj⟩ := htrunc.exists_steps hm hle
      have heq : m = truncateToMinute now - j * msPerMinute := by
        unfold Time at *
        omega
      rw [heq]
      refine hbefore j ?_
      unfold Time msPerMinute at *
      omega
  · rintro ⟨hminute, hslot, hle, hgt, hafter, hgreatest⟩
    have hle' := hminute.le_truncate hle
    obtain ⟨k, hk⟩ := htrunc.exists_steps hminute hle'
    have heq : slot = truncateToMinute now - k * msPerMinute := by
      unfold Time at *
      omega
    refine ⟨k, ?_, heq, hslot, hafter, fun j hj => hgreatest _ ?_ ?_ ?_⟩
    · unfold Time horizonMs msPerMinute at *
      unfold MAX_LOOKBACK_MINUTES
      omega
    · unfold Minute Time msPerMinute at *
      omega
    · unfold Time msPerMinute at *
      omega
    · unfold Time msPerMinute at *
      omega

end Windows

/-! ### Expressions that match -/

/-- The expression matches some minute. -/
def CronSpec.Fires (spec : CronSpec) : Prop := ∃ m, Minute m ∧ matchesSpec spec m = true

/-- It matches a minute within a year and a day. -/
def CronSpec.FiresFrom (spec : CronSpec) (start : Int) : Prop :=
  ∃ m, Minute m ∧ matchesSpec spec m = true ∧ truncateToMinute start ≤ m ∧
    m < truncateToMinute start + horizonMs

section Fires

variable {spec : CronSpec} {start : Int}

/-- The next due slot exists exactly if the expression fires in the window. -/
theorem nextDueSlot_isSome : (nextDueSlot spec start).isSome = true ↔ spec.FiresFrom start := by
  constructor
  · intro h
    obtain ⟨slot, hslot⟩ := Option.isSome_iff_exists.1 h
    obtain ⟨hminute, hmatch, hge, hlt, -⟩ := nextDueSlot_iff.1 hslot
    exact ⟨slot, hminute, hmatch, hge, hlt⟩
  · rintro ⟨m, hm, hmatch, hge, hlt⟩
    obtain ⟨k, rfl⟩ := hm.exists_steps (minute_truncate start) hge
    have hfirst : ∃ j : Nat, matchesSpec spec (truncateToMinute start + j * msPerMinute) = true :=
      ⟨k, hmatch⟩
    have hle := Nat.find_min' hfirst hmatch
    refine Option.isSome_iff_exists.2 ⟨_, walkForward_iff.2 ⟨Nat.find hfirst, ?_, rfl,
      Nat.find_spec hfirst, fun j hj => Bool.eq_false_iff.2 (Nat.find_min hfirst hj)⟩⟩
    unfold Time horizonMs msPerMinute at hlt
    unfold DEFAULT_HORIZON_DAYS
    omega

/-- The calendar comes back after 400 years, on the same day of the week. -/
theorem matchesSpec_shift (t : Int) :
    matchesSpec spec (t + daysPerCycle * msPerDay) = matchesSpec spec t := by
  have hminute : utcMinute (t + daysPerCycle * msPerDay) = utcMinute t := by
    unfold utcMinute daysPerCycle msPerDay msPerMinute
    congr 1
    omega
  have hhour : utcHour (t + daysPerCycle * msPerDay) = utcHour t := by
    unfold utcHour daysPerCycle msPerDay
    congr 1
    omega
  have hweekday : utcDay (t + daysPerCycle * msPerDay) = utcDay t := by
    unfold utcDay daysPerCycle msPerDay
    congr 1
    omega
  unfold matchesSpec
  rw [hminute, hhour, hweekday, utcDate_shift]

/-- An expression that matches at all matches again after every instant. -/
theorem CronSpec.Fires.forever (h : spec.Fires) (bound : Int) :
    ∃ m, Minute m ∧ bound < m ∧ matchesSpec spec m = true := by
  obtain ⟨m, hm, hmatch⟩ := h
  have hcycles : ∀ n : Nat, matchesSpec spec (m + n * (daysPerCycle * msPerDay)) = true := by
    intro n
    induction n with
    | zero => simpa using hmatch
    | succ n ih =>
      have heq : m + ((n + 1 : Nat) : Int) * (daysPerCycle * msPerDay) =
          m + n * (daysPerCycle * msPerDay) + daysPerCycle * msPerDay := by
        unfold daysPerCycle msPerDay
        omega
      rw [heq, matchesSpec_shift]
      exact ih
  refine ⟨m + ((bound - m).toNat + 1 : Nat) * (daysPerCycle * msPerDay), ?_, ?_, hcycles _⟩
  · unfold Minute daysPerCycle msPerDay msPerMinute at *
    omega
  · unfold daysPerCycle msPerDay
    omega

/-- The latest due slot after an optional bound exists exactly if the expression fires between. -/
theorem latestDueSlot_isSome {now : Int} {after : Option Time} :
    (latestDueSlot spec now after).isSome = true ↔ ∃ m, Minute m ∧ matchesSpec spec m = true ∧
      m ≤ now ∧ truncateToMinute now - horizonMs < m ∧ ∀ bound ∈ after, bound < m := by
  constructor
  · intro h
    obtain ⟨slot, hslot⟩ := Option.isSome_iff_exists.1 h
    obtain ⟨hminute, hmatch, hle, hgt, hafter, -⟩ := latestDueSlot_iff.1 hslot
    exact ⟨slot, hminute, hmatch, hle, hgt, hafter⟩
  · rintro ⟨m, hm, hmatch, hle, hgt, hafter⟩
    obtain ⟨k, hk⟩ := (minute_truncate now).exists_steps hm (hm.le_truncate hle)
    have heq : m = truncateToMinute now - k * msPerMinute := by
      unfold Time at *
      omega
    have hfirst : ∃ j : Nat, matchesSpec spec (truncateToMinute now - j * msPerMinute) = true :=
      ⟨k, heq ▸ hmatch⟩
    have hlek := Nat.find_min' hfirst (heq ▸ hmatch)
    refine Option.isSome_iff_exists.2 ⟨_, walkBack_iff.2 ⟨Nat.find hfirst, ?_, rfl,
      Nat.find_spec hfirst, fun bound hbound => ?_,
      fun j hj => Bool.eq_false_iff.2 (Nat.find_min hfirst hj)⟩⟩
    · unfold Time horizonMs msPerMinute at *
      unfold MAX_LOOKBACK_MINUTES
      omega
    · have := hafter bound hbound
      unfold Time msPerMinute at *
      omega

end Fires

/-! ### Yearly expressions -/

/-- The expression matches on any day of the week, and names a date that every year has. -/
structure CronSpec.NamesYearly (spec : CronSpec) : Prop where
  weekdays : ∀ weekday < 7, weekday ∈ spec.dayOfWeek
  date : ∃ month day, month + 1 ∈ spec.month ∧ day ∈ spec.dayOfMonth ∧ Yearly month day
  hour : ∃ hour < 24, hour ∈ spec.hour
  minute : ∃ minute < 60, minute ∈ spec.minute

/-- A minute of a day. -/
def instantOf (day : Int) (hour minute : Nat) : Int :=
  day * msPerDay + (hour : Int) * 3600000 + (minute : Int) * 60000

section Instants

variable {day : Int} {hour minute : Nat}

theorem minute_instantOf : Minute (instantOf day hour minute) := by
  unfold Minute instantOf msPerMinute msPerDay
  omega

theorem instantOf_day (hhour : hour < 24) (hminute : minute < 60) :
    instantOf day hour minute / msPerDay = day := by
  unfold instantOf msPerDay
  omega

theorem utcMinute_instantOf (hminute : minute < 60) :
    utcMinute (instantOf day hour minute) = minute := by
  unfold utcMinute instantOf msPerMinute msPerDay Time
  omega

theorem utcHour_instantOf (hhour : hour < 24) (hminute : minute < 60) :
    utcHour (instantOf day hour minute) = hour := by
  unfold utcHour instantOf msPerDay Time
  omega

theorem utcDay_lt (t : Int) : utcDay t < 7 := by
  unfold utcDay
  omega

end Instants

section Yearly

variable {spec : CronSpec}

/-- A yearly expression matches, in every year, a minute of its date; in two years that follow each
other these are at most 366 days apart. -/
theorem CronSpec.NamesYearly.exists_slots (h : spec.NamesYearly) : ∃ slots : Int → Int,
    (∀ year, Minute (slots year) ∧ matchesSpec spec (slots year) = true ∧
      dayFromYear year * msPerDay ≤ slots year ∧ slots year < dayFromYear (year + 1) * msPerDay) ∧
    ∀ year, slots (year + 1) ≤ slots year + horizonMs := by
  obtain ⟨month, day, hmonth, hday, hyearly⟩ := h.date
  obtain ⟨hour, hhour, hhours⟩ := h.hour
  obtain ⟨minute, hminute, hminutes⟩ := h.minute
  refine ⟨fun year => instantOf (dayOf year month day) hour minute, fun year => ?_, fun year => ?_⟩
  · obtain ⟨hle, hlt⟩ := hyearly.within year
    refine ⟨minute_instantOf, ?_, ?_, ?_⟩
    · have hdate : utcDate (instantOf (dayOf year month day) hour minute) = { year, month, day } := by
        rw [utcDate_iff, instantOf_day hhour hminute]
        exact hyearly.dateOf year
      have hweekday := h.weekdays _ (utcDay_lt (instantOf (dayOf year month day) hour minute))
      unfold matchesSpec
      rw [utcMinute_instantOf hminute, utcHour_instantOf hhour hminute, hdate]
      simp [hminutes, hhours, hmonth, hday, hweekday]
    · dsimp only
      unfold instantOf msPerDay
      omega
    · dsimp only
      unfold instantOf msPerDay
      omega
  · have := hyearly.next_le year
    dsimp only
    unfold instantOf horizonMs msPerDay
    omega

/-- A yearly expression always has a next slot. -/
theorem CronSpec.NamesYearly.next_isSome (h : spec.NamesYearly) (start : Int) :
    (nextDueSlot spec start).isSome = true := by
  rw [nextDueSlot_isSome]
  obtain ⟨slots, hslots, hnext⟩ := h.exists_slots
  obtain ⟨hle, hlt⟩ := yearFromDay_spec (start / msPerDay)
  generalize yearFromDay (start / msPerDay) = year at hle hlt
  obtain ⟨hminute, hmatch, hge, hend⟩ := hslots year
  obtain ⟨hminute', hmatch', hge', -⟩ := hslots (year + 1)
  have hyear := dayFromYear_succ year
  have hgap := hnext year
  by_cases hpast : truncateToMinute start ≤ slots year
  · refine ⟨slots year, hminute, hmatch, hpast, ?_⟩
    unfold Time truncateToMinute horizonMs msPerMinute msPerDay at *
    split at hyear <;> omega
  · refine ⟨slots (year + 1), hminute', hmatch', ?_, ?_⟩
    · unfold Time truncateToMinute msPerMinute msPerDay at *
      omega
    · unfold Time at *
      omega

/-- A yearly expression always has a latest slot. -/
theorem CronSpec.NamesYearly.latest_isSome (h : spec.NamesYearly) (now : Int) :
    (latestDueSlot spec now none).isSome = true := by
  rw [latestDueSlot_isSome]
  obtain ⟨slots, hslots, hnext⟩ := h.exists_slots
  obtain ⟨hle, hlt⟩ := yearFromDay_spec (now / msPerDay)
  generalize yearFromDay (now / msPerDay) = year at hle hlt
  obtain ⟨hminute, hmatch, hge, hend⟩ := hslots year
  obtain ⟨hminute', hmatch', -, hend'⟩ := hslots (year - 1)
  rw [Int.sub_add_cancel] at hend'
  have hyear := dayFromYear_succ year
  have hgap := hnext (year - 1)
  rw [Int.sub_add_cancel] at hgap
  by_cases hpast : slots year ≤ now
  · refine ⟨slots year, hminute, hmatch, hpast, ?_, fun bound hbound => by cases hbound⟩
    unfold Time truncateToMinute horizonMs msPerMinute msPerDay at *
    split at hyear <;> omega
  · refine ⟨slots (year - 1), hminute', hmatch', ?_, ?_, fun bound hbound => by cases hbound⟩
    · unfold Time msPerDay at *
      omega
    · have := truncate_le now
      unfold Time at *
      omega

end Yearly

end AgentLcars
