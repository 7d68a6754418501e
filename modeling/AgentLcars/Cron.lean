import Mathlib.Data.Int.Order.Basic
import AgentLcars.ProviderCooldown

/-!
# Cron expressions

`libs/work/src/cron.ts`: five fields, UTC only, minute granularity.  All five fields are ANDed.  The
latest due slot is searched backwards and the next one forwards, a minute at a time, over a year and
a day.  `slotItemId` names the item of a slot; the hash it uses is a parameter.
-/

namespace AgentLcars

/-! ### The grammar -/

/-- The values a field ranges over. -/
structure FieldSpec where
  min : Nat
  max : Nat

/-- Minute, hour, day of month, month and day of week, Sunday first. -/
def FIELDS : List FieldSpec := [⟨0, 59⟩, ⟨0, 23⟩, ⟨1, 31⟩, ⟨1, 12⟩, ⟨0, 6⟩]

/-- The values of each field. -/
structure CronSpec where
  minute : List Nat
  hour : List Nat
  dayOfMonth : List Nat
  month : List Nat
  dayOfWeek : List Nat
  deriving DecidableEq, Repr

/-- `\d+`: the number a string of digits stands for. -/
def decimal? (text : List Char) : Option Nat :=
  if ¬text.isEmpty ∧ text.all Char.isDigit then some (Nat.ofDigitChars 10 text 0) else none

/-- `/^(\d+)(?:-(\d+))?$/u`. -/
def rangeMatch (text : List Char) : Option (Nat × Option Nat) :=
  match text.splitOn '-' with
  | [lo] => (decimal? lo).map (·, none)
  | [lo, hi] => (decimal? lo).bind fun lo => (decimal? hi).map fun hi => (lo, some hi)
  | _ => none

/-- `/^(\*|\d+-\d+)\/(\d+)$/u`. -/
def stepMatch (part : List Char) : Option (List Char × Nat) :=
  match part.splitOn '/' with
  | [range, step] =>
    if range = ['*'] ∨ (rangeMatch range).any (·.2.isSome) then (decimal? step).map (range, ·)
    else none
  | _ => none

/-- `Number.isInteger(Number(digits))`: from here on numerals round to infinity. -/
def isFiniteNumeral (n : Nat) : Bool := n < 2 ^ 1024 - 2 ^ 970

/-- The values of one part of a field. -/
def parsePart (part : List Char) (spec : FieldSpec) : Except String (List Nat) := do
  let (rangeText, step) := (stepMatch part).getD (part, 1)
  let quoted := "\"" ++ String.ofList part ++ "\""
  if ¬isFiniteNumeral step ∨ step = 0 then throw ("invalid cron step in " ++ quoted)
  let (lo, hi) ← if rangeText = ['*'] then pure (spec.min, spec.max) else
    match rangeMatch rangeText with
    | none => throw ("invalid cron field " ++ quoted)
    | some (lo, hi) => pure (lo, hi.getD lo)
  if hi < lo ∨ lo < spec.min ∨ spec.max < hi then
    throw ("cron field " ++ quoted ++ " out of range [" ++ toString spec.min ++ ", " ++
      toString spec.max ++ "]")
  return ((List.range (hi - lo + 1)).filter (· % step = 0)).map (lo + ·)

/-- `parseField`: a list of parts. -/
def parseField (raw : List Char) (spec : FieldSpec) : Except String (List Nat) := do
  return ((← (raw.splitOn ',').mapM (parsePart · spec))).flatten

/-- `expr.trim().split(/\s+/u)`. -/
def cronFields (expr : String) : List (List Char) :=
  match (trim expr).splitOnP isTrimmed with
  | [[]] => [[]]
  | fields => fields.filter (¬·.isEmpty)

def parseCron (expr : String) : Except String CronSpec := do
  let fields := cronFields expr
  if fields.length ≠ 5 then
    throw ("cron expression must have 5 fields, got " ++ toString fields.length ++ ": \"" ++ expr ++
      "\"")
  match ← (fields.zip FIELDS).mapM fun (field, spec) => parseField field spec with
  | [minute, hour, dayOfMonth, month, dayOfWeek] =>
    return { minute, hour, dayOfMonth, month, dayOfWeek }
  -- there are five fields
  | _ => throw expr

/-! ### Slots -/

/-- Milliseconds in a minute. -/
def msPerMinute : Int := 60000

/-- `getUTCMinutes`. -/
def utcMinute (t : Time) : Nat := (t / msPerMinute % 60).toNat

/-- `getUTCHours`. -/
def utcHour (t : Time) : Nat := (t / 3600000 % 24).toNat

/-- `getUTCDay`: the first day of the epoch was a Thursday. -/
def utcDay (t : Time) : Nat := ((t / msPerDay + 4) % 7).toNat

/-- A date matches when every field does. -/
def matchesSpec (spec : CronSpec) (t : Time) : Bool :=
  spec.minute.contains (utcMinute t) && spec.hour.contains (utcHour t) &&
    spec.dayOfMonth.contains (utcDate t).day.toNat && spec.month.contains ((utcDate t).month + 1) &&
    spec.dayOfWeek.contains (utcDay t)

/-- `setUTCSeconds(0, 0)`. -/
def truncateToMinute (t : Time) : Time := t / msPerMinute * msPerMinute

def MAX_LOOKBACK_MINUTES : Nat := 366 * 24 * 60

def DEFAULT_HORIZON_DAYS : Nat := 366

/-- The backward walk, a minute at a time. -/
def walkBack (spec : CronSpec) (lowerBound : Option Time) : Nat → Time → Option Time
  | 0, _ => none
  | steps + 1, cursor =>
    if lowerBound.any (cursor ≤ ·) then none
    else if matchesSpec spec cursor then some cursor
    else walkBack spec lowerBound steps (cursor - msPerMinute)

/-- `latestDueSlot`: the latest matching minute up to now and strictly after the given one. -/
def latestDueSlot (spec : CronSpec) (now : Time) (after : Option Time) : Option Time :=
  walkBack spec after MAX_LOOKBACK_MINUTES (truncateToMinute now)

/-- The forward walk, a minute at a time. -/
def walkForward (spec : CronSpec) : Nat → Time → Option Time
  | 0, _ => none
  | steps + 1, cursor =>
    if matchesSpec spec cursor then some cursor
    else walkForward spec steps (cursor + msPerMinute)

/-- `nextDueSlot`: the first matching minute within a year and a day. -/
def nextDueSlot (spec : CronSpec) (start : Time) : Option Time :=
  walkForward spec (DEFAULT_HORIZON_DAYS * 24 * 60) (truncateToMinute start)

/-! ### Item ids -/

/-- Crockford base32: no I, L, O or U. -/
def ALPHABET : List Char := "0123456789ABCDEFGHJKMNPQRSTVWXYZ".toList

/-- `ALPHABET[i]` in a string concatenation. -/
def alphabetAt (i : Int) : String :=
  match i with
  | .ofNat i => (ALPHABET[i]?.map fun c => String.ofList [c]).getD "undefined"
  | .negSucc _ => "undefined"

/-- The last base-32 digits of a number, the most significant first. -/
def crockfordDigits : Nat → Int → String
  | 0, _ => ""
  | digits + 1, time => crockfordDigits digits (time / 32) ++ alphabetAt (time.tmod 32)

def crockfordTimePrefix (epochMs : Time) : String := crockfordDigits 10 epochMs

/-- Left padding with zeros. -/
def padZero (width n : Nat) : String :=
  String.ofList (List.replicate (width - (toString n).length) '0') ++ toString n

/-- `toISOString`. -/
def toISOString (t : Time) : String :=
  let date := utcDate t
  let year := if 0 ≤ date.year ∧ date.year ≤ 9999 then padZero 4 date.year.toNat
    else (if date.year < 0 then "-" else "+") ++ padZero 6 date.year.natAbs
  year ++ "-" ++ padZero 2 (date.month + 1) ++ "-" ++ padZero 2 date.day.toNat ++ "T" ++
    padZero 2 (utcHour t) ++ ":" ++ padZero 2 (utcMinute t) ++ ":" ++
    padZero 2 (t / 1000 % 60).toNat ++ "." ++ padZero 3 (t % 1000).toNat ++ "Z"

/-- `slotItemId`: a time prefix and sixteen characters of the hash. -/
def slotItemId (sha256 : String → List UInt8) (scheduleId : String) (slot : Time) : String :=
  let digest := sha256 (scheduleId ++ ":" ++ toISOString slot)
  crockfordTimePrefix slot ++
    String.join ((digest.take 16).map fun byte => alphabetAt (byte.toNat % 32))

/-! ### What the walks find -/

section Walks

variable {spec : CronSpec} {slot : Time}

theorem walkBack_some {lowerBound : Option Time} {steps : Nat} {cursor : Time}
    (h : walkBack spec lowerBound steps cursor = some slot) :
    matchesSpec spec slot = true ∧ slot ≤ cursor ∧ ∀ bound ∈ lowerBound, bound < slot := by
  induction steps generalizing cursor with
  | zero => cases h
  | succ steps ih =>
    rw [walkBack] at h
    split_ifs at h with hbound hmatches
    · obtain rfl := Option.some.inj h
      refine ⟨hmatches, le_rfl, fun bound hmem => ?_⟩
      rw [Option.mem_def.1 hmem, Option.any_some, decide_eq_true_eq] at hbound
      exact not_le.1 hbound
    · obtain ⟨hslot, hle, hafter⟩ := ih h
      exact ⟨hslot, Int.le_trans hle (Int.sub_le_self cursor (by decide)), hafter⟩

/-- The latest due slot matches, is due, and comes strictly after the one before. -/
theorem latestDueSlot_some {now : Time} {after : Option Time}
    (h : latestDueSlot spec now after = some slot) :
    matchesSpec spec slot = true ∧ slot ≤ now ∧ ∀ bound ∈ after, bound < slot := by
  obtain ⟨hslot, hle, hafter⟩ := walkBack_some h
  exact ⟨hslot, Int.le_trans hle (Int.ediv_mul_le now (by decide)), hafter⟩

end Walks

end AgentLcars
