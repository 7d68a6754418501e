import AgentLcars.Model

/-!
# Values of unknown shape

`libs/telemetry/src/lib/unknown-value.ts`.  Transcript lines are parsed JSON of unknown shape; what
is not there, or of another shape, is `undefined`, here `none`.

* `asString`, `asBoolean`, `asNumber`, `asRecord` and `asArray` are the source's;
* `TranscriptEnv` collects what the transcripts' readers compute with the clock's text and with
  commands.
-/

namespace AgentLcars

/-- `Record<string, unknown>`. -/
abbrev JsRecord := List (String × Json)

/-- `asString`. -/
def asString : Option Json → Option String
  | some (.str text) => some text
  | _ => none

/-- `asBoolean`. -/
def asBoolean : Option Json → Option Bool
  | some (.bool value) => some value
  | _ => none

/-- `asNumber`, as the text the number is rendered as. -/
def asNumber : Option Json → Option String
  | some (.num literal) => some literal
  | _ => none

/-- `asRecord`. -/
def asRecord : Option Json → Option JsRecord
  | some (.obj fields) => some fields
  | _ => none

/-- `asArray`. -/
def asArray : Option Json → Option (List Json)
  | some (.arr items) => some items
  | _ => none

/-- `record?.[key]`. -/
def JsRecord.at_ (record : Option JsRecord) (key : String) : Option Json :=
  record.bind fun fields => fields.lookup key

/-- What the readers of transcripts compute: `Date.parse`, none for no instant, whether a command
may publish a deliverable, and whether it may publish a pull request. -/
structure TranscriptEnv where
  parseDate : String → Option Time
  isDeliverableCommand : String → Bool
  isPRPublicationCommand : String → Bool

/-- `Date.parse(asString(record[key]) ?? '')`. -/
def TranscriptEnv.date (env : TranscriptEnv) (record : JsRecord) (key : String) : Option Time :=
  (asString (record.lookup key)).bind env.parseDate

/-- `[A-Za-z0-9_-]`. -/
def isTokenChar (c : Char) : Bool := c.isAlphanum ∨ c = '_' ∨ c = '-'

/-- `[A-Za-z0-9_.-]`. -/
def isSegmentChar (c : Char) : Bool := isTokenChar c ∨ c = '.'

/-- `[A-Za-z0-9_.-]` or a slash. -/
def isPathChar (c : Char) : Bool := isSegmentChar c ∨ c = '/'

end AgentLcars
