import AgentLcars.Model

/-!
# Provider cooldowns

`libs/orchestrator/src/provider-cooldown.ts`.  A run that a provider stopped for a quota or
capacity reason opens a cooldown for its pipeline.  Only the CLI's explicit UTC reset format
supplies a longer hold than the bounded probe; the calendar is ECMAScript's proleptic Gregorian
one, in UTC.
-/

namespace AgentLcars

/-- The bounded probe after a stop without a reported reset. -/
def PROVIDER_LIMIT_PROBE_MS : Time := 15 * 60000

/-- The longest reported reset that is believed. -/
def MAX_RESET_MS : Time := 7 * 24 * 60 * 60000

/-- Month names as the CLI prints them. -/
def MONTHS : List String :=
  ["Jan", "Feb", "Mar", "Apr", "May", "Jun", "Jul", "Aug", "Sep", "Oct", "Nov", "Dec"]

/-- A recorded provider stop. -/
structure ProviderCooldown where
  pipeline : String
  runId : String
  observedAt : Time
  expiresAt : Time
  deriving DecidableEq, Repr

/-! ### The UTC calendar -/

/-- Milliseconds in a day. -/
def msPerDay : Int := 86400000

/-- The day number of 1 January of a year. -/
def dayFromYear (year : Int) : Int :=
  365 * (year - 1970) + (year - 1969) / 4 - (year - 1901) / 100 + (year - 1601) / 400

/-- Gregorian leap years. -/
def inLeapYear (year : Int) : Bool :=
  year % 4 = 0 ∧ (year % 100 ≠ 0 ∨ year % 400 = 0)

/-- The day within a year on which a zero-based month starts. -/
def monthStart (leap : Bool) (month : Nat) : Int :=
  let day : Int := [0, 31, 59, 90, 120, 151, 181, 212, 243, 273, 304, 334].getD month 365
  if leap ∧ 2 ≤ month then day + 1 else day

/-- `getUTCFullYear`: the year whose days contain the given one. -/
def yearFromDay (day : Int) : Int :=
  let guess := 1970 + day * 400 / 146097
  if dayFromYear (guess + 1) ≤ day then guess + 1
  else if day < dayFromYear guess then guess - 1
  else guess

/-- A calendar date; months count from zero. -/
structure UtcDate where
  year : Int
  month : Nat
  day : Int
  deriving DecidableEq, Repr

/-- `new Date(t)` read through `getUTCFullYear`, `getUTCMonth` and `getUTCDate`. -/
def utcDate (t : Time) : UtcDate :=
  let day := t / msPerDay
  let year := yearFromDay day
  let leap := inLeapYear year
  let within := day - dayFromYear year
  let month := (((List.range 12).filter fun m => monthStart leap m ≤ within).getLast?).getD 0
  { year, month, day := within - monthStart leap month + 1 }

/-- `Date.UTC(year, month, day, hour, minute)`; two-digit years mean the twentieth century. -/
def dateUTC (year : Int) (month : Nat) (day : Nat) (hour minute : Nat) : Time :=
  let year := if 0 ≤ year ∧ year ≤ 99 then 1900 + year else year
  (dayFromYear year + monthStart (inLeapYear year) month + day - 1) * msPerDay +
    hour * 3600000 + minute * 60000

/-! ### The reset format -/

/-- The captured groups of the reset format. -/
structure ResetMatch where
  monthDay : Option (String × Nat)
  hour : Nat
  minute : Option Nat
  pm : Bool
  deriving DecidableEq, Repr

/-- The rest of the text after a literal. -/
def after (literal : String) (text : List Char) : Option (List Char) :=
  if literal.toList.isPrefixOf text then some (text.drop literal.toList.length) else none

/-- `\d`: the value of an ASCII digit. -/
def digit (c : Char) : Option Nat :=
  if c.isDigit then some (c.toNat - '0'.toNat) else none

/-- `(\d{1,2})`, greedy. -/
def oneOrTwoDigits : List Char → Option (Nat × List Char)
  | [] => none
  | c :: rest => (digit c).map fun d =>
    match rest with
    | [] => (d, [])
    | e :: more => match digit e with
      | some f => (10 * d + f, more)
      | none => (d, rest)

/-- `(?::(\d{2}))?`. -/
def optionalMinute (text : List Char) : Option Nat × List Char :=
  match text with
  | ':' :: d :: e :: rest => match digit d, digit e with
    | some d, some e => (some (10 * d + e), rest)
    | _, _ => (none, text)
  | _ => (none, text)

/-- `(?:(Jan|…|Dec) (\d{1,2}), )?`. -/
def optionalMonthDay (text : List Char) : Option (String × Nat) × List Char :=
  match MONTHS.findSome? fun month => (after (month ++ " ") text).map fun rest => (month, rest) with
  | some (month, rest) => match oneOrTwoDigits rest with
    | some (day, rest) => match after ", " rest with
      | some rest => (some (month, day), rest)
      | none => (none, text)
    | none => (none, text)
  | none => (none, text)

/-- The reset format, matched against the whole of a text. -/
def resetFormat (text : List Char) : Option ResetMatch := do
  let text ← after "resets " text
  let (monthDay, text) := optionalMonthDay text
  let (hour, text) ← oneOrTwoDigits text
  let (minute, text) := optionalMinute text
  match after "am (UTC)" text, after "pm (UTC)" text with
  | some [], _ => some { monthDay, hour, minute, pm := false }
  | _, some [] => some { monthDay, hour, minute, pm := true }
  | _, _ => none

/-- Only the CLI's explicit UTC reset format supplies a longer hold. -/
def claudeReset (message : List Char) (now : Time) : Option Time := do
  let found ← message.tails.findSome? resetFormat
  let minute := found.minute.getD 0
  if found.hour < 1 ∨ 12 < found.hour ∨ 59 < minute then none
  let date := utcDate now
  let month := (found.monthDay.map fun p => MONTHS.idxOf p.1).getD date.month
  let day := (found.monthDay.map fun p => p.2).getD date.day.toNat
  let utcHour := found.hour % 12 + (if found.pm then 12 else 0)
  let reset := dateUTC date.year month day utcHour minute
  if (utcDate reset).month ≠ month ∨ (utcDate reset).day ≠ day then none
  let reset := if now < reset then reset
    else if found.monthDay = none then reset + 24 * 60 * 60000
    else dateUTC (date.year + 1) month day utcHour minute
  if now < reset ∧ reset - now ≤ MAX_RESET_MS then some reset else none

/-- A failed result that the runner classified as a provider stop. -/
def RunResult.isProviderStop (result : RunResult) : Bool :=
  result.ok = false ∧
    (result.summary = some "provider-limit" ∨ result.summary = some "provider-capacity")

/-- The instant a provider stop observed at `now` is held until. -/
def cooldownExpiry (pipeline : String) (result : RunResult) (now : Time) : Time :=
  let message := (result.message.map trim).getD []
  let reset := if pipeline = "claude" ∧ result.summary ≠ some "provider-capacity" then
    claudeReset message now else none
  reset.getD (now + PROVIDER_LIMIT_PROBE_MS)

/-- Derived from a failed execution report, never from queued task text. -/
def providerCooldownForRun (run : Run) : Option ProviderCooldown :=
  match run.result with
  | some result =>
    if run.state = .finished ∧ result.isProviderStop then
      some { pipeline := run.pipeline, runId := run.runId, observedAt := run.updatedAt,
             expiresAt := cooldownExpiry run.pipeline result run.updatedAt }
    else none
  | none => none

/-- Whether a recorded cooldown still holds. -/
def providerIsCoolingDown (value : Option ProviderCooldown) (now : Time) : Bool :=
  match value with
  | some cooldown => now < cooldown.expiresAt
  | none => false

end AgentLcars
