import AgentLcars.UnknownValue
import AgentLcars.Lib.OrderedMap

/-!
# Background publications

`libs/telemetry/src/lib/claude-background-publication.ts`.  A publication that Claude Code runs in
the background is credited from three kinds of transcript lines: the start of the task, the
provider's notification of its completion, and one literal read of its output.

* `backgroundStart`, `taskNotification` and `outputRead` recognize the lines;
* `ClaudeBackgroundPublications` is the table of the tasks with `start`, `observe` and `finish`.
-/

namespace AgentLcars

/-! ### Recognized lines -/

/-- `/^[A-Za-z0-9_-]{1,128}$/u`. -/
def isTaskToken (text : List Char) : Bool :=
  1 ≤ text.length ∧ text.length ≤ 128 ∧ text.all isTokenChar

/-- A well-formed background start. -/
structure BackgroundStart where
  taskId : String
  toolUseId : String
  command : String
  startedAt : Time
  token : isTaskToken taskId.toList
  deriving DecidableEq

/-- The only block of a message, if it is a record. -/
def onlyBlock (raw : JsRecord) : Option JsRecord :=
  match asArray (JsRecord.at_ (asRecord (raw.lookup "message")) "content") with
  | some [block] => asRecord (some block)
  | _ => none

/-- The result belongs to this assistant's call, on the main chain. -/
def ownsResult (raw : JsRecord) (assistantUuid : Option String) : Bool :=
  raw.lookup "type" = some (.str "user") ∧ raw.lookup "isSidechain" = some (.bool false) ∧
    assistantUuid.any fun uuid => uuid ≠ "" ∧ raw.lookup "sourceToolAssistantUUID" = some (.str uuid)

/-- What `start` requires of a line with a background task id. -/
def backgroundStart (env : TranscriptEnv) (raw : JsRecord) (toolUseId command : String)
    (assistantUuid : Option String) : Option BackgroundStart := do
  let result ← asRecord (raw.lookup "toolUseResult")
  let taskId ← asString (result.lookup "backgroundTaskId")
  let block ← onlyBlock raw
  let startedAt ← env.date raw "timestamp"
  if h : isTaskToken taskId.toList ∧ jsLength command ≤ 100000 ∧ ownsResult raw assistantUuid ∧
      result.lookup "interrupted" = some (.bool false) ∧
      block.lookup "type" = some (.str "tool_result") ∧
      block.lookup "tool_use_id" = some (.str toolUseId) ∧
      block.lookup "is_error" = some (.bool false) then
    some { taskId, toolUseId, command, startedAt, token := h.1 }
  else none

/-- `isSessionTaskOrigin`. -/
def isSessionTaskOrigin (origin : Option JsRecord) : Bool :=
  JsRecord.at_ origin "kind" = some (.str "task-notification") ∧
    JsRecord.at_ origin "producer" = some (.str "session-task")

/-- A string that is not empty. -/
def hasText (value : Option Json) : Bool := (asString value).any (· ≠ "")

/-- `providerTaskNotification`. -/
def providerTaskNotification (raw : JsRecord) : Option String :=
  if raw.lookup "isSidechain" ≠ some (.bool false) then none
  else match raw.lookup "type" with
    | some (.str "user") =>
      let origin := asRecord (raw.lookup "origin")
      let message := asRecord (raw.lookup "message")
      if raw.lookup "promptSource" = some (.str "system") ∧
          raw.lookup "turnOrigin" = some (.str "task_notification") ∧
          isSessionTaskOrigin origin ∧ hasText (JsRecord.at_ origin "runId") ∧
          JsRecord.at_ message "role" = some (.str "user") then
        asString (JsRecord.at_ message "content")
      else none
    | some (.str "attachment") =>
      let attachment := asRecord (raw.lookup "attachment")
      if JsRecord.at_ attachment "type" = some (.str "queued_command") ∧
          JsRecord.at_ attachment "commandMode" = some (.str "task-notification") ∧
          isSessionTaskOrigin (asRecord (JsRecord.at_ attachment "origin")) ∧
          hasText (JsRecord.at_ attachment "runId") then
        asString (JsRecord.at_ attachment "prompt")
      else none
    | _ => none

/-- The fields of a task notification, and the instant of its line. -/
structure TaskNotification where
  taskId : String
  toolUseId : String
  outputFile : String
  status : String
  exit : String
  at_ : Option Time
  deriving DecidableEq, Repr

/-- Take `open`, then what stands before the next `<`, then `close`. -/
def between (opening closing : String) (text : List Char) : Option (List Char × List Char) := do
  let rest ← opening.toList.isPrefixOf? text
  let field := rest.takeWhile (· ≠ '<')
  let rest ← closing.toList.isPrefixOf? (rest.dropWhile (· ≠ '<'))
  return (field, rest)

/-- The exit code at the end of a summary, `… (exit code -?[0-9]{1,3})`. -/
def exitCode (summary : List Char) : Option String :=
  match summary.reverse with
  | ')' :: rest =>
    let digits := rest.takeWhile Char.isDigit
    let rest := rest.dropWhile Char.isDigit
    let (sign, rest) := match rest with
      | '-' :: rest => (['-'], rest)
      | rest => ([], rest)
    let before := (" (exit code ".toList.reverse).isPrefixOf? rest
    if digits.length < 1 ∨ 3 < digits.length then none
    else before.bind fun before =>
      if 1 ≤ before.length ∧ before.length ≤ 2048 then
        some (String.ofList (sign ++ digits.reverse))
      else none
  | _ => none

/-- The fields of a notification's text. -/
def notificationFields (text : List Char) :
    Option (List Char × List Char × List Char × List Char × String) := do
  let rest ← "<task-notification>\n".toList.isPrefixOf? text
  let (taskId, rest) ← between "<task-id>" "</task-id>\n" rest
  let (toolUseId, rest) ← between "<tool-use-id>" "</tool-use-id>\n" rest
  let (outputFile, rest) ← between "<output-file>" "</output-file>\n" rest
  let (status, rest) ← between "<status>" "</status>\n" rest
  let (summary, rest) ← between "<summary>" "</summary>\n" rest
  let exit ← exitCode summary
  if isTaskToken taskId ∧ isTaskToken toolUseId ∧
      1 ≤ outputFile.length ∧ outputFile.length ≤ 4096 ∧
      (outputFile.all fun c => c ≠ '\n' ∧ c ≠ '>') ∧
      status ≠ [] ∧ (status.all fun c => 'a' ≤ c ∧ c ≤ 'z') ∧
      (summary.all fun c => c ≠ '\n' ∧ c ≠ '>') ∧ rest = "</task-notification>".toList then
    return (taskId, toolUseId, outputFile, status, exit)
  else none

/-- The task notification of a line. -/
def taskNotification (env : TranscriptEnv) (raw : JsRecord) : Option TaskNotification := do
  let content ← providerTaskNotification raw
  if content = "" ∨ 16384 < jsLength content then none
  else
    let (taskId, toolUseId, outputFile, status, exit) ← notificationFields content.toList
    return {
      taskId := String.ofList taskId, toolUseId := String.ofList toolUseId
      outputFile := String.ofList outputFile, status := String.ofList status, exit
      at_ := env.date raw "timestamp" }

/-- Split at every occurrence of a character. -/
def splitChars (separator : Char) : List Char → List (List Char)
  | [] => [[]]
  | c :: rest =>
    if c = separator then [] :: splitChars separator rest
    else match splitChars separator rest with
      | [] => [[c]]
      | segment :: segments => (c :: segment) :: segments

/-- `claude-[0-9]+`. -/
def isClaudeSegment (segment : List Char) : Bool :=
  ("claude-".toList.isPrefixOf? segment).any fun digits =>
    digits ≠ [] ∧ digits.all Char.isDigit

/-- The segments after the leading slash of an output file under `claude-[0-9]+`. -/
def isClaudePath : List (List Char) → Bool
  | [] => false
  | segment :: rest =>
    (isClaudeSegment segment ∧ rest ≠ [] ∧ rest ≠ [[]] ∧ rest.all (·.all isSegmentChar)) ∨
    (segment ≠ [] ∧ segment.all isSegmentChar ∧ isClaudePath rest)

/-- The suffix that the output file of a task of this session has. -/
def outputSuffix (sessionId taskId : String) : String :=
  "/" ++ sessionId ++ "/tasks/" ++ taskId ++ ".output"

/-- An output file of this task of this session. -/
def isOutputFile (sessionId taskId outputFile : String) : Bool :=
  let segments := splitChars '/' outputFile.toList
  segments.head? = some [] ∧ isClaudePath segments.tail ∧
    (segments.all fun segment => segment ≠ ['.'] ∧ segment ≠ ['.', '.']) ∧
    (outputSuffix sessionId taskId).toList.isSuffixOf outputFile.toList

/-- One or more digits, the first not a zero, at most three, and what follows. -/
def lineCount (text : List Char) : Option (List Char) :=
  let digits := text.takeWhile Char.isDigit
  if 1 ≤ digits.length ∧ digits.length ≤ 3 ∧ digits.head? ≠ some '0' then
    some (text.dropWhile Char.isDigit)
  else none

/-- The path that a command reads: `tail -N path`, `tail -n N path` or `cat path`. -/
def readPath (command : String) : Option String := do
  let text := trim command
  let rest ← ("cat".toList.isPrefixOf? text).or
    (("tail -n ".toList.isPrefixOf? text).bind lineCount |>.or
      (("tail -".toList.isPrefixOf? text).bind lineCount))
  match rest with
  | ' ' :: '/' :: path =>
    if path ≠ [] ∧ path.all isPathChar then return String.ofList ('/' :: path) else none
  | _ => none

/-- A literal read by the assistant's own call, with its output if that is well-formed. -/
structure OutputRead where
  path : String
  output : Option (String × Time)
  deriving DecidableEq, Repr

/-- The output of a read and the instant of its line. -/
def readOutput (env : TranscriptEnv) (raw : JsRecord) (result : JsRecord) :
    Option (String × Time) := do
  let native := asRecord (raw.lookup "toolUseResult")
  let output ← asString (JsRecord.at_ native "stdout")
  let at_ ← env.date raw "timestamp"
  if result.lookup "is_error" = some (.bool false) ∧ onlyBlock raw = some result ∧
      JsRecord.at_ native "interrupted" = some (.bool false) ∧
      JsRecord.at_ native "backgroundTaskId" = none ∧ jsLength output ≤ 100000 ∧
      result.lookup "content" = some (.str output) then
    return (output, at_)
  else none

/-- The literal read that a line is the result of. -/
def outputRead (env : TranscriptEnv) (raw : JsRecord) (command : String) (result : JsRecord)
    (assistantUuid : Option String) : Option OutputRead := do
  let path ← readPath command
  if ownsResult raw assistantUuid then return { path, output := readOutput env raw result }
  else none

/-! ### The table -/

/-- `BackgroundPublication`. -/
structure BackgroundPublication where
  toolUseId : String
  command : String
  startedAt : Time
  outputFile : Option String := none
  completedAt : Option Time := none
  consumed : Bool := false
  deriving DecidableEq, Repr

/-- What `finish` credits. -/
structure PublicationCredit where
  command : String
  output : String
  deriving DecidableEq, Repr

/-- `ClaudeBackgroundPublications`: the tasks of one session. -/
structure ClaudeBackgroundPublications where
  sessionId : String
  tasks : OrderedMap String BackgroundPublication := .empty

/-- The entry of a task, consumed. -/
def BackgroundPublication.consume (task : BackgroundPublication) : BackgroundPublication :=
  { task with consumed := true }

/-- Mark a task as consumed. -/
def consumeTask (tasks : OrderedMap String BackgroundPublication) (taskId : String) :
    OrderedMap String BackgroundPublication :=
  match tasks.get taskId with
  | some task => tasks.set taskId task.consume
  | none => tasks

/-- `[...this.tasks.values()].find(predicate)`, with its key. -/
def findTask (tasks : OrderedMap String BackgroundPublication)
    (p : BackgroundPublication → Bool) : Option (String × BackgroundPublication) :=
  tasks.entries.find? fun entry => p entry.2

namespace ClaudeBackgroundPublications

/-- The body of `start`, for a well-formed start. -/
def record (tasks : OrderedMap String BackgroundPublication) (start : BackgroundStart) :
    OrderedMap String BackgroundPublication :=
  let previous := findTask tasks fun task => task.toolUseId = start.toolUseId
  if previous.isSome ∨ (tasks.get start.taskId).isSome then
    let tasks := match previous with
      | some (taskId, _) => consumeTask tasks taskId
      | none => tasks
    consumeTask tasks start.taskId
  -- overflow is unknown, never an eviction that permits reuse of an id
  else if tasks.values.length < 64 then
    tasks.set start.taskId
      { toolUseId := start.toolUseId, command := start.command, startedAt := start.startedAt }
  else tasks

/-- A notification that completes the task it names. -/
def completes (sessionId : String) (task : BackgroundPublication) (n : TaskNotification) :
    Option Time :=
  n.at_.filter fun completedAt =>
    task.toolUseId = n.toolUseId ∧ n.status = "completed" ∧ n.exit = "0" ∧
      task.startedAt ≤ completedAt ∧ isOutputFile sessionId n.taskId n.outputFile ∧
      (task.outputFile.all fun file => file = n.outputFile)

/-- The body of `observe`, for a notification. -/
def notify (sessionId : String) (tasks : OrderedMap String BackgroundPublication)
    (n : TaskNotification) : OrderedMap String BackgroundPublication :=
  match tasks.get n.taskId with
  | none => tasks
  | some task =>
    if task.consumed then tasks
    else match completes sessionId task n with
      | none => tasks.set n.taskId task.consume
      | some completedAt =>
        tasks.set n.taskId { task with
          outputFile := some n.outputFile, completedAt := task.completedAt.or (some completedAt) }

/-- The body of `finish`, for a read. -/
def credit (tasks : OrderedMap String BackgroundPublication) (read : OutputRead) :
    OrderedMap String BackgroundPublication × Option PublicationCredit :=
  match findTask tasks fun task => task.consumed = false ∧ task.outputFile = some read.path with
  | none => (tasks, none)
  | some (taskId, task) =>
    (tasks.set taskId task.consume,
      (read.output.filter fun output => task.completedAt.any fun completedAt =>
        completedAt ≤ output.2).map fun output => { command := task.command, output := output.1 })

variable (env : TranscriptEnv) (self : ClaudeBackgroundPublications)

/-- `start`: whether the line is a background start, and the table after it. -/
def start (raw : JsRecord) (toolUseId command : String) (assistantUuid : Option String) :
    Bool × ClaudeBackgroundPublications :=
  if JsRecord.at_ (asRecord (raw.lookup "toolUseResult")) "backgroundTaskId" = none then (false, self)
  else match backgroundStart env raw toolUseId command assistantUuid with
    | none => (true, self)
    | some start => (true, { self with tasks := record self.tasks start })

/-- `observe`. -/
def observe (raw : JsRecord) : ClaudeBackgroundPublications :=
  match taskNotification env raw with
  | none => self
  | some n => { self with tasks := notify self.sessionId self.tasks n }

/-- `finish`. -/
def finish (raw : JsRecord) (command : String) (result : JsRecord)
    (assistantUuid : Option String) :
    Option PublicationCredit × ClaudeBackgroundPublications :=
  match outputRead env raw command result assistantUuid with
  | none => (none, self)
  | some read =>
    let (tasks, credited) := credit self.tasks read
    (credited, { self with tasks })

end ClaudeBackgroundPublications

end AgentLcars
