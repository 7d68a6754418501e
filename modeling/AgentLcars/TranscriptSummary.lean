import AgentLcars.Lib.Replays
import AgentLcars.TranscriptReducer
import AgentLcars.SessionSpend

/-!
# Summaries of transcripts

`libs/telemetry/src/lib/reducer.ts` with everything that a summary holds. Numbers of transcripts are of any type that
has sums, as their addition in floating point is not modelled.

* `Transcript.SummaryState.applyLine`, `Transcript.finalizeState`: one line, and the summary of a session.
* `Transcript.reduceLines`: the summaries of a list of lines.
* `Transcript.summaries_replay`, `Transcript.summaries_own`: replayed lines and other sessions change nothing.
* `Transcript.tokens_reduced`: a session with rows has a summary, whose tokens are those of its
  messages, each counted once.
-/

namespace AgentLcars

namespace Transcript

open Grouping Replays

/-- What the reducer computes with texts and numbers: `JSON.parse` where it does not throw, the number that a literal
is and whether it is negative, the order of texts, the text of a property that every object inherits, and what is found in
the output of a command. -/
structure ReducerEnv (ν : Type) extends TranscriptEnv where
  parseJson : String → Option Json
  toNumber : String → ν
  isNegative : ν → Bool
  textLess : String → String → Bool
  inherited : String → Option String
  findPRNumbers : Option Json → List ν
  findCommitShas : Option Json → List String
  findQualifiedPRs : Option Json → List QualifiedSessionPR

/-- How often a tool was called. A tool with the name of an inherited property has a text. -/
inductive ToolCallCount where
  | count (n : Nat)
  | text (value : String)
deriving DecidableEq

structure TokenTotals (ν : Type) where
  inputTokens : ν
  outputTokens : ν
  cacheCreationTokens : ν
  cacheReadTokens : ν
deriving DecidableEq

structure ToolCallDigest where
  name : String
  timestamp : String
deriving DecidableEq

structure SessionResult where
  subtype : String
  isError : Bool
deriving DecidableEq

/-- The state of one session. -/
structure SummaryState (ν : Type) where
  sessionId : String
  host : Option String
  cwd : Option String
  worktree : Option String
  branch : Option String
  model : Option String
  permissionMode : Option String
  startedAt : Option String
  lastActivityAt : Option String
  turns : Nat
  seenAssistantMessageIds : List String
  toolCallCounts : OrderedMap String ToolCallCount
  tokens : TokenTotals ν
  lastToolCall : Option ToolCallDigest
  aiTitle : Option String
  firstUserPrompt : Option String
  qualifiedPRs : OrderedMap String QualifiedSessionPR
  publicationCandidates : OrderedMap String QualifiedSessionPR
  bridgeSessionIds : List String
  prNumbers : List ν
  commitShas : List String
  totalCostUsd : Option ν
  result : Option SessionResult
  pendingBashCommands : OrderedMap String PendingBashCommand
  backgroundPublications : ClaudeBackgroundPublications

inductive SessionTitleSource where
  | generated
  | inferred
deriving DecidableEq

structure FoundDeliverables (ν : Type) where
  branch : Option String
  prNumbers : List ν
  qualifiedPRs : Option (List QualifiedSessionPR)
  publicationCandidates : Option (List QualifiedSessionPR)
  claudeSessionId : Option String
  commitShas : List String

structure SessionSummary (ν : Type) where
  sessionId : String
  source : SessionSource
  agent : SessionAgent
  host : Option String
  cwd : Option String
  worktree : Option String
  branch : Option String
  model : Option String
  permissionMode : Option String
  startedAt : String
  lastActivityAt : String
  turns : Nat
  toolCallCounts : OrderedMap String ToolCallCount
  tokens : TokenTotals ν
  lastToolCall : Option ToolCallDigest
  title : Option (String × SessionTitleSource)
  totalCostUsd : Option ν
  result : Option SessionResult
  deliverables : FoundDeliverables ν

/-- A string of a record that is there and not empty. -/
def stringAt (record : JsRecord) (key : String) : Option String :=
  (asString (record.lookup key)).filter (· ≠ "")

/-- `Set.prototype.add`. -/
def addTo {α : Type} [DecidableEq α] (set : List α) (a : α) : List α :=
  if a ∈ set then set else set ++ [a]

def TITLE_MAX_LENGTH : Nat := 80

/-- White space collapsed, each run of it to one blank. -/
def collapseSpace : List Char → List Char
  | [] => []
  | c :: cs =>
    if isTrimmed c then
      match cs with
      | [] => [' ']
      | d :: _ => if isTrimmed d then collapseSpace cs else ' ' :: collapseSpace cs
    else c :: collapseSpace cs

/-- `truncateTitle`: length is measured in code points. -/
def truncateTitle (text : String) : String :=
  let collapsed := trim (String.ofList (collapseSpace text.toList))
  String.ofList (if TITLE_MAX_LENGTH < collapsed.length then
    collapsed.take (TITLE_MAX_LENGTH - 1) ++ [Char.ofNat 0x2026] else collapsed)

variable {ν : Type}

section Model

variable [Zero ν] [Add ν] [DecidableEq ν]

/-- `createState`. -/
def createState (host : Option String) (sessionId : String) : SummaryState ν where
  sessionId := sessionId
  host := host
  cwd := none
  worktree := none
  branch := none
  model := none
  permissionMode := none
  startedAt := none
  lastActivityAt := none
  turns := 0
  seenAssistantMessageIds := []
  toolCallCounts := .empty
  tokens := ⟨0, 0, 0, 0⟩
  lastToolCall := none
  aiTitle := none
  firstUserPrompt := none
  qualifiedPRs := .empty
  publicationCandidates := .empty
  bridgeSessionIds := []
  prNumbers := []
  commitShas := []
  totalCostUsd := none
  result := none
  pendingBashCommands := .empty
  backgroundPublications := { sessionId }

/-- `toolCallCounts[name] = (toolCallCounts[name] ?? 0) + 1`. -/
def countToolCall (inherited : String → Option String) (counts : OrderedMap String ToolCallCount)
    (name : String) :
    OrderedMap String ToolCallCount :=
  if name = "__proto__" then counts
  else
    match counts.get name with
    | some (.count n) => counts.set name (.count (n + 1))
    | some (.text value) => counts.set name (.text (value ++ "1"))
    | none =>
      match inherited name with
      | some value => counts.set name (.text (value ++ "1"))
      | none => counts.set name (.count 1)

/-- The key of a pull request in the maps of a session. -/
def prKey (pr : QualifiedSessionPR) : String :=
  pr.owner ++ "/" ++ pr.name ++ "#" ++ toString pr.number

def addPRs (map : OrderedMap String QualifiedSessionPR) (prs : List QualifiedSessionPR) :
    OrderedMap String QualifiedSessionPR :=
  prs.foldl (fun map pr => map.set (prKey pr) pr) map

namespace SummaryState

variable (env : ReducerEnv ν) (raw : JsRecord) (isSidechain : Bool)

def applyTimestamp (state : SummaryState ν) (timestamp : Option String) : SummaryState ν :=
  match timestamp.filter (· ≠ "") with
  | none => state
  | some timestamp =>
    { state with
      startedAt := if state.startedAt.all (env.textLess timestamp ·) then some timestamp
        else state.startedAt
      lastActivityAt := if state.lastActivityAt.all (env.textLess · timestamp) then some timestamp
        else state.lastActivityAt }

/-- What the output of a command that may publish adds. -/
def addDeliverables (state : SummaryState ν) (command : String) (isError : Bool)
    (output : Option Json) :
    SummaryState ν :=
  if env.isDeliverableCommand command then
    { state with
      publicationCandidates := if isError then state.publicationCandidates
        else addPRs state.publicationCandidates (env.findQualifiedPRs output)
      qualifiedPRs := if isError || !env.isPRPublicationCommand command then state.qualifiedPRs
        else addPRs state.qualifiedPRs (env.findQualifiedPRs output)
      prNumbers := (env.findPRNumbers output).foldl addTo state.prNumbers
      commitShas := (env.findCommitShas output).foldl addTo state.commitShas }
  else state

/-- The result of a pending command. -/
def applyResult (state : SummaryState ν) (record : JsRecord) (toolUseId : String)
    (pending : PendingBashCommand) :
    SummaryState ν :=
  let isError := decide (record.lookup "is_error" = some (.bool true))
  let output := record.lookup "content"
  if pending.isSidechain ∨ isSidechain then state.addDeliverables env pending.command isError output
  else
    let started :=
      state.backgroundPublications.start env.toTranscriptEnv raw toolUseId pending.command
      pending.assistantUuid
    if env.isDeliverableCommand pending.command ∧ started.1
      then { state with backgroundPublications := started.2 }
    else
      let completed :=
        state.backgroundPublications.finish env.toTranscriptEnv raw pending.command record
        pending.assistantUuid
      let state := { state with backgroundPublications := completed.2 }
      match completed.1 with
      | some credited =>
        state.addDeliverables env credited.command isError (some (.str credited.output))
      | none => state.addDeliverables env pending.command isError output

/-- The first text of the user is kept for the title. -/
def notePrompt (state : SummaryState ν) (record : JsRecord) : SummaryState ν :=
  if ¬isSidechain ∧ state.firstUserPrompt = none ∧
    asString (record.lookup "type") = some "text" then
    { state with firstUserPrompt := stringAt record "text" }
  else state

def applyUserBlock (state : SummaryState ν) (block : Json) : SummaryState ν :=
  match asRecord (some block) with
  | none => state
  | some record =>
    let state := state.notePrompt isSidechain record
    if asString (record.lookup "type") = some "tool_result" then
      match stringAt record "tool_use_id" with
      | none => state
      | some toolUseId =>
        let pending := state.pendingBashCommands.get toolUseId
        let state := { state with pendingBashCommands := state.pendingBashCommands.erase toolUseId }
        match pending with
        | none => state
        | some pending => state.applyResult env raw isSidechain record toolUseId pending
    else state

def applyAssistantBlock (timestamp : Option String) (state : SummaryState ν) (block : Json) :
    SummaryState ν :=
  match asRecord (some block) with
  | none => state
  | some record =>
    if asString (record.lookup "type") = some "tool_use" then
      match stringAt record "name" with
      | none => state
      | some name =>
        let state := { state with
          toolCallCounts := countToolCall env.inherited state.toolCallCounts name
          lastToolCall :=
            ((timestamp.filter (· ≠ "")).map fun timestamp => ⟨name, timestamp⟩).or state.lastToolCall }
        match stringAt record "id",
          (asRecord (record.lookup "input")).bind (stringAt · "command") with
        | some id, some command =>
          if name = "Bash" then
            { state with
              pendingBashCommands := state.pendingBashCommands.set id
                { command, isSidechain
                  assistantUuid := if raw.lookup "type" = some (.str "assistant")
                    then asString (raw.lookup "uuid")
                    else none } }
          else state
        | _, _ => state
    else state

/-- `state.tokens.… += asNumber(usage[…]) ?? 0`. -/
def addUsage (tokens : TokenTotals ν) (usage : JsRecord) : TokenTotals ν :=
  let count := fun key => ((asNumber (usage.lookup key)).map env.toNumber).getD 0
  { inputTokens := tokens.inputTokens + count "input_tokens"
    outputTokens := tokens.outputTokens + count "output_tokens"
    cacheCreationTokens := tokens.cacheCreationTokens + count "cache_creation_input_tokens"
    cacheReadTokens := tokens.cacheReadTokens + count "cache_read_input_tokens" }

/-- The rows of one response repeat its usage and its id: it is counted once. -/
def countMessage (state : SummaryState ν) (message : JsRecord) : SummaryState ν :=
  let messageId := stringAt message "id"
  if messageId.all (· ∉ state.seenAssistantMessageIds) then
    { state with
      seenAssistantMessageIds := messageId.toList ++ state.seenAssistantMessageIds
      turns := if isSidechain then state.turns else state.turns + 1
      tokens := ((asRecord (message.lookup "usage")).map (addUsage env state.tokens)).getD state.tokens }
  else state

def applyMessage (state : SummaryState ν) (message : JsRecord) (timestamp : Option String) :
    SummaryState ν :=
  let state := { state with model := (stringAt message "model").or state.model }
  let content := (asArray (message.lookup "content")).getD []
  match asString (message.lookup "role") with
  | some "user" => content.foldl (applyUserBlock env raw isSidechain) state
  | some "assistant" =>
    content.foldl (applyAssistantBlock env raw isSidechain timestamp) (state.countMessage env isSidechain message)
  | _ => state

/-- Claude's native bridge maps `cse_` ids to public `session_` ids; another id is none. -/
def bridgeSession (bridge : Option String) : String :=
  let start := "cse_".toList
  let id := ((bridge.getD "").toList).drop start.length
  if start.isPrefixOf (bridge.getD "").toList ∧ 1 ≤ id.length ∧ id.length ≤ 124 ∧
    id.all isWordCharacter = true then
    "session_" ++ String.ofList id
  else ""

def applyLine (state : SummaryState ν) : SummaryState ν :=
  let timestamp := asString (raw.lookup "timestamp")
  let state := state.applyTimestamp env timestamp
  let isSidechain := (asBoolean (raw.lookup "isSidechain")).getD false
  let cost := (asNumber (raw.lookup "costUSD")).map env.toNumber
  let result := do
    let subtype ← asString (raw.lookup "subtype")
    let isError ← asBoolean (raw.lookup "is_error")
    if asString (raw.lookup "type") = some "result" then some (SessionResult.mk subtype isError)
      else none
  let state := { state with
    backgroundPublications := state.backgroundPublications.observe env.toTranscriptEnv raw
    bridgeSessionIds :=
      if raw.lookup "type" = some (.str "bridge-session") ∧ ¬isSidechain ∧
          raw.lookup "sessionId" = some (.str state.sessionId) then
        addTo state.bridgeSessionIds (bridgeSession (asString (raw.lookup "bridgeSessionId")))
      else state.bridgeSessionIds
    cwd := (stringAt raw "relocatedCwd").or ((stringAt raw "cwd").or state.cwd)
    branch := (stringAt raw "gitBranch").or state.branch
    permissionMode := (stringAt raw "permissionMode").or state.permissionMode
    worktree := ((asRecord (raw.lookup "worktreeSession")).bind (stringAt · "worktreePath")).or state.worktree
    aiTitle := (stringAt raw "aiTitle").or state.aiTitle
    totalCostUsd := (cost.map fun cost => state.totalCostUsd.getD 0 + cost).or state.totalCostUsd
    result := result.or state.result }
  match asRecord (raw.lookup "message") with
  | none => state
  | some message => state.applyMessage env raw isSidechain message timestamp

end SummaryState

/-- `resolveTitle`. -/
def resolveTitle (state : SummaryState ν) : Option (String × SessionTitleSource) :=
  let title := fun (text : Option String) (source : SessionTitleSource) =>
    ((text.map truncateTitle).filter (· ≠ "")).map fun title => (title, source)
  (title state.aiTitle .generated).or (title state.firstUserPrompt .inferred)

/-- `finalizeState`. -/
def finalizeState (env : ReducerEnv ν) (state : SummaryState ν) : SessionSummary ν where
  sessionId := state.sessionId
  source := .cli
  agent := .claudeCode
  host := state.host.filter (· ≠ "")
  cwd := state.cwd
  worktree := state.worktree
  branch := state.branch
  model := state.model
  permissionMode := state.permissionMode
  startedAt := state.startedAt.getD ""
  lastActivityAt := state.lastActivityAt.getD ""
  turns := state.turns
  toolCallCounts := state.toolCallCounts
  tokens := state.tokens
  lastToolCall := state.lastToolCall
  title := resolveTitle state
  totalCostUsd := state.totalCostUsd.map fun cost => if env.isNegative cost then 0 else cost
  result := state.result
  deliverables :=
    { branch := state.branch
      prNumbers := state.prNumbers
      qualifiedPRs := if state.qualifiedPRs.values = [] then none
        else some state.qualifiedPRs.values
      publicationCandidates := if state.publicationCandidates.values = [] then none
        else some state.publicationCandidates.values
      claudeSessionId := match state.bridgeSessionIds with
        | [bridge] => if bridge = "" then none else some bridge
        | _ => none
      commitShas := state.commitShas }

/-! ### Lines -/

/-- The session and the record of a line, if it names a safe session. -/
def lineRow (env : ReducerEnv ν) (line : String) : Option (String × JsRecord) :=
  if trim line = [] then none
    else (lineRecord (env.parseJson (String.ofList (trim line)))).map Prod.swap

structure Progress (ν : Type) where
  states : OrderedMap String (SummaryState ν)
  seenUuids : List String

section Reduce

variable (env : ReducerEnv ν) (host : Option String)

/-- One turn of the loop of `reduceLines`. -/
def reduceLine (progress : Progress ν) (line : String) : Progress ν :=
  match lineRow env line with
  | none => progress
  | some (sessionId, raw) =>
    let state := (progress.states.get sessionId).getD (createState host sessionId)
    match stringAt raw "uuid" with
    | none => { progress with states := progress.states.set sessionId (state.applyLine env raw) }
    | some uuid =>
      if uuid ∈ progress.seenUuids then progress
      else
        { states := progress.states.set sessionId (state.applyLine env raw)
          seenUuids := uuid :: progress.seenUuids }

def reduceLines (lines : List String) : List (SessionSummary ν) :=
  (lines.foldl (reduceLine env host) ⟨.empty, []⟩).states.values.map (finalizeState env)

/-- Lines as items of their sessions, the ids of which are their uuids. -/
def transcriptReading : Reading String String JsRecord String where
  item := lineRow env
  id raw := stringAt raw "uuid"

/-- The rows that are applied to a session. -/
def appliedRows (sessionId : String) (lines : List String) : List JsRecord :=
  itemsOf sessionId (applied (transcriptReading env) [] lines)

end Reduce

/-- The messages of the assistant. -/
def assistantMessages (rows : List JsRecord) : List JsRecord :=
  rows.filterMap fun raw => (asRecord (raw.lookup "message")).filter fun message =>
    asString (message.lookup "role") = some "assistant"

/-- The first message of each id, and those without an id. -/
def countedMessages (messages : List JsRecord) : List JsRecord :=
  (messages.zipIdx.filter fun p =>
    (stringAt p.1 "id").all fun id => (messages.take p.2).all fun earlier =>
      stringAt earlier "id" ≠ some id).map
    Prod.fst

/-- The usage of these messages. -/
def usageOf (env : ReducerEnv ν) (messages : List JsRecord) : TokenTotals ν :=
  (messages.filterMap fun message => asRecord (message.lookup "usage")).foldl (SummaryState.addUsage env) ⟨0, 0, 0, 0⟩

end Model

/-! ### Tokens -/

section Tokens

variable {env : ReducerEnv ν} {raw : JsRecord} {isSidechain : Bool} {state : SummaryState ν}

/-- What is counted once for each message stays as it is, and so does the session. -/
structure KeepsCounts (state next : SummaryState ν) : Prop where
  tokens : next.tokens = state.tokens
  seen : next.seenAssistantMessageIds = state.seenAssistantMessageIds
  session : next.sessionId = state.sessionId

theorem KeepsCounts.refl (state : SummaryState ν) : KeepsCounts state state := ⟨rfl, rfl, rfl⟩

theorem KeepsCounts.trans {middle next : SummaryState ν} (h : KeepsCounts state middle)
    (h' : KeepsCounts middle next) : KeepsCounts state next :=
  ⟨h'.tokens.trans h.tokens, h'.seen.trans h.seen, h'.session.trans h.session⟩

theorem keepsCounts_foldl {step : SummaryState ν → Json → SummaryState ν}
    (h : ∀ state block, KeepsCounts state (step state block)) (blocks : List Json)
    (state : SummaryState ν) :
    KeepsCounts state (blocks.foldl step state) := by
  induction blocks generalizing state with
  | nil => exact .refl state
  | cons block rest ih => exact (h state block).trans (ih _)

theorem notePrompt_keepsCounts (record : JsRecord) :
    KeepsCounts state (state.notePrompt isSidechain record) := by
  unfold SummaryState.notePrompt
  split
  · exact ⟨rfl, rfl, rfl⟩
  · exact .refl state

theorem applyAssistantBlock_keepsCounts (timestamp : Option String) (block : Json) :
    KeepsCounts state (state.applyAssistantBlock env raw isSidechain timestamp block) := by
  unfold SummaryState.applyAssistantBlock
  split
  · exact .refl state
  · split
    · split
      · exact .refl state
      · dsimp only
        split
        · split
          · exact ⟨rfl, rfl, rfl⟩
          · exact ⟨rfl, rfl, rfl⟩
        · exact ⟨rfl, rfl, rfl⟩
    · exact .refl state

theorem applyTimestamp_keepsCounts (timestamp : Option String) :
    KeepsCounts state (state.applyTimestamp env timestamp) := by
  unfold SummaryState.applyTimestamp
  split
  · exact .refl state
  · exact ⟨rfl, rfl, rfl⟩

theorem countedMessages_concat (messages : List JsRecord) (message : JsRecord) :
    countedMessages (messages ++ [message]) =
      countedMessages messages ++
        if (stringAt message "id").all (fun id => messages.all fun earlier => stringAt earlier "id" ≠ some id) then
          [message]
        else [] := by
  unfold countedMessages
  rw [List.zipIdx_append, List.filter_append, List.map_append]
  refine congrArg₂ _ ?_ ?_
  · refine congrArg _ (List.filter_congr ?_)
    rintro ⟨earlier, n⟩ hmem
    have hn : n ≤ messages.length := by
      have hlt := List.snd_lt_add_of_mem_zipIdx hmem
      omega
    rw [List.take_append_of_le_length hn]
  · rw [List.zipIdx_singleton, List.filter_cons, List.filter_nil, Nat.zero_add, List.take_left]
    split
    · rfl
    · rfl

section Counting

variable [Zero ν] [Add ν]

/-- A message is counted the same where the counts are the same. -/
theorem countMessage_congr {next : SummaryState ν} (h : KeepsCounts state next) (message : JsRecord)
    (isSidechain isSidechain' : Bool) :
    KeepsCounts (state.countMessage env isSidechain message)
    (next.countMessage env isSidechain' message) := by
  unfold SummaryState.countMessage
  rw [h.seen]
  dsimp only
  split
  · constructor
    · dsimp only
      rw [h.tokens]
    · rfl
    · exact h.session
  · exact h

theorem usageOf_append (messages others : List JsRecord) :
    usageOf env (messages ++ others) =
      (others.filterMap fun message => asRecord (message.lookup "usage")).foldl (SummaryState.addUsage env)
        (usageOf env messages) := by
  unfold usageOf
  rw [List.filterMap_append, List.foldl_append]

end Counting

variable [DecidableEq ν]

theorem addDeliverables_keepsCounts (command : String) (isError : Bool) (output : Option Json) :
    KeepsCounts state (state.addDeliverables env command isError output) := by
  unfold SummaryState.addDeliverables
  split
  · exact ⟨rfl, rfl, rfl⟩
  · exact .refl state

theorem applyResult_keepsCounts (record : JsRecord) (toolUseId : String)
    (pending : PendingBashCommand) :
    KeepsCounts state (state.applyResult env raw isSidechain record toolUseId pending) := by
  unfold SummaryState.applyResult
  dsimp only
  split
  · exact addDeliverables_keepsCounts _ _ _
  · split
    · exact ⟨rfl, rfl, rfl⟩
    · split
      · refine KeepsCounts.trans ?_ (addDeliverables_keepsCounts _ _ _)
        exact ⟨rfl, rfl, rfl⟩
      · refine KeepsCounts.trans ?_ (addDeliverables_keepsCounts _ _ _)
        exact ⟨rfl, rfl, rfl⟩

theorem applyUserBlock_keepsCounts (block : Json) :
    KeepsCounts state (state.applyUserBlock env raw isSidechain block) := by
  unfold SummaryState.applyUserBlock
  cases asRecord (some block) with
  | none => exact .refl state
  | some record =>
    refine (@notePrompt_keepsCounts _ isSidechain state record).trans ?_
    generalize hnoted : state.notePrompt isSidechain record = noted
    dsimp only
    rw [hnoted]
    split
    · split
      · exact .refl noted
      · split
        · exact ⟨rfl, rfl, rfl⟩
        · refine KeepsCounts.trans ?_ (applyResult_keepsCounts _ _ _)
          exact ⟨rfl, rfl, rfl⟩
    · exact .refl noted

variable [Zero ν] [Add ν]

theorem applyMessage_counts (message : JsRecord) (timestamp : Option String) :
    KeepsCounts
      (if asString (message.lookup "role") =
        some "assistant" then state.countMessage env isSidechain message
        else state)
      (state.applyMessage env raw isSidechain message timestamp) := by
  have hmodel : KeepsCounts state { state with model := (stringAt message "model").or state.model } := ⟨rfl, rfl, rfl⟩
  unfold SummaryState.applyMessage
  dsimp only
  by_cases hrole : asString (message.lookup "role") = some "assistant"
  · rw [if_pos hrole, hrole]
    exact (countMessage_congr hmodel message _ _).trans
      (keepsCounts_foldl (fun _ block => applyAssistantBlock_keepsCounts timestamp block) _ _)
  · rw [if_neg hrole]
    split
    · exact hmodel.trans (keepsCounts_foldl (fun _ block => applyUserBlock_keepsCounts block) _ _)
    · rename_i hassistant
      exact absurd hassistant hrole
    · exact hmodel

/-- A line counts the message that it has from the assistant, and nothing else. -/
theorem applyLine_counts :
    KeepsCounts
      (match assistantMessages [raw] with
        | [] => state
        | message :: _ => state.countMessage env isSidechain message)
      (state.applyLine env raw) := by
  have hstart := @applyTimestamp_keepsCounts _ env state (asString (raw.lookup "timestamp"))
  unfold SummaryState.applyLine assistantMessages
  dsimp only
  rw [List.filterMap_cons, List.filterMap_nil]
  cases asRecord (raw.lookup "message") with
  | none => exact hstart.trans ⟨rfl, rfl, rfl⟩
  | some message =>
    refine KeepsCounts.trans ?_ (applyMessage_counts message _)
    rw [Option.filter_some]
    by_cases hrole : asString (message.lookup "role") = some "assistant"
    · rw [if_pos (decide_eq_true hrole), if_pos hrole]
      refine countMessage_congr ?_ message _ _
      exact hstart.trans ⟨rfl, rfl, rfl⟩
    · rw [if_neg (by rw [decide_eq_false hrole]; exact Bool.false_ne_true), if_neg hrole]
      exact hstart.trans ⟨rfl, rfl, rfl⟩

/-- Each message of a session's rows is counted once. -/
theorem counted_rows (host : Option String) (sessionId : String) (rows : List JsRecord) :
    let state := rows.foldl (fun state raw => SummaryState.applyLine env raw state)
      (createState host sessionId)
    state.tokens = usageOf env (countedMessages (assistantMessages rows)) ∧
      ∀ id, id ∈ state.seenAssistantMessageIds ↔
        ∃ message ∈ assistantMessages rows, stringAt message "id" = some id := by
  intro state
  induction rows using List.reverseRecOn with
  | nil =>
    exact ⟨rfl, fun id => ⟨fun h => absurd h List.not_mem_nil, fun ⟨_, h, _⟩ => absurd h List.not_mem_nil⟩⟩
  | append_singleton rows raw ih =>
    have hlast : state = (rows.foldl (fun state raw => SummaryState.applyLine env raw state)
        (createState host sessionId)).applyLine env raw := by
      show List.foldl _ _ (rows ++ [raw]) = _
      rw [List.foldl_append]
      rfl
    rw [hlast]
    clear hlast state
    dsimp only at ih
    generalize rows.foldl (fun state raw => SummaryState.applyLine env raw state) (createState host sessionId) = state
      at ih
    obtain ⟨htokens, hseen⟩ := ih
    show (state.applyLine env raw).tokens = _ ∧ ∀ id,
      id ∈ (state.applyLine env raw).seenAssistantMessageIds ↔ _
    have hstep := @applyLine_counts _ env raw false state _ _ _
    have hmessages : assistantMessages (rows ++ [raw]) = assistantMessages rows ++
      assistantMessages [raw] :=
      List.filterMap_append
    rw [hstep.tokens, hstep.seen, hmessages]
    have hone : assistantMessages [raw] = [] ∨ ∃ message, assistantMessages [raw] = [message] := by
      unfold assistantMessages
      rw [List.filterMap_cons, List.filterMap_nil]
      split
      · exact .inl rfl
      · exact .inr ⟨_, rfl⟩
    rcases hone with hnone | ⟨message, hmessage⟩
    · rw [hnone, List.append_nil]
      exact ⟨htokens, hseen⟩
    · rw [hmessage, countedMessages_concat, usageOf_append]
      have hnew : (stringAt message "id").all (fun id => decide (id ∉ state.seenAssistantMessageIds)) =
          (stringAt message "id").all
            fun id => (assistantMessages rows).all fun earlier =>
              stringAt earlier "id" ≠ some id := by
        cases stringAt message "id" with
        | none => rfl
        | some id =>
          rw [Option.all_some, Option.all_some, Bool.eq_iff_iff, decide_eq_true_eq, hseen,
            List.all_eq_true]
          constructor
          · intro h earlier hmem
            exact decide_eq_true fun heq => h ⟨earlier, hmem, heq⟩
          · rintro h ⟨earlier, hmem, heq⟩
            exact of_decide_eq_true (h earlier hmem) heq
      show (state.countMessage env false message).tokens = _ ∧
        ∀ id, id ∈ (state.countMessage env false message).seenAssistantMessageIds ↔ _
      unfold SummaryState.countMessage
      dsimp only
      rw [hnew]
      split
      · constructor
        · rw [List.filterMap_cons, List.filterMap_nil, htokens]
          cases asRecord (message.lookup "usage") with
          | none => rfl
          | some usage => rfl
        · intro id
          dsimp only
          rw [List.mem_append, Option.mem_toList, hseen]
          simp only [List.mem_append, List.mem_singleton, or_and_right, exists_or, exists_eq_left]
          exact or_comm
      · rename_i hold
        refine ⟨htokens, fun id => ?_⟩
        rw [hseen]
        simp only [List.mem_append, List.mem_singleton, or_and_right, exists_or, exists_eq_left]
        refine ⟨.inl, fun h => h.elim (fun h => h) fun hid => ?_⟩
        by_contra hnone
        rw [hid, Option.all_some, List.all_eq_true] at hold
        exact hold fun earlier hmem => decide_eq_true fun heq => hnone ⟨earlier, hmem, heq⟩

end Tokens

/-! ### Sessions -/

section Sessions

variable [Zero ν] [Add ν] [DecidableEq ν] {env : ReducerEnv ν} {host : Option String}

/-- The sessions of the rows that are applied. -/
theorem states_eq (lines : List String) (progress : Progress ν) :
    (lines.foldl (reduceLine env host) progress).states =
      collectInto (createState host)
      (fun state raw => SummaryState.applyLine env raw state) progress.states
        (applied (transcriptReading env) progress.seenUuids lines) := by
  induction lines generalizing progress with
  | nil => rfl
  | cons line rest ih =>
    rw [List.foldl_cons, ih, applied]
    unfold reduceLine
    cases hrow : lineRow env line with
    | none =>
      have hitem : (transcriptReading env).item line = none := hrow
      rw [hitem]
    | some row =>
      obtain ⟨sessionId, raw⟩ := row
      have hitem : (transcriptReading env).item line = some (sessionId, raw) := hrow
      have hid : (transcriptReading env).id raw = stringAt raw "uuid" := rfl
      rw [hitem]
      dsimp only
      rw [hid]
      cases stringAt raw "uuid" with
      | none => rfl
      | some uuid =>
        dsimp only
        by_cases hseen : uuid ∈ progress.seenUuids
        · rw [if_pos hseen, if_pos hseen]
        · rw [if_neg hseen, if_neg hseen]
          rfl

theorem reduceLines_eq (lines : List String) :
    reduceLines env host lines =
      (collect (createState host) (fun state raw => SummaryState.applyLine env raw state)
        (applied (transcriptReading env) [] lines)).values.map (finalizeState env) := by
  unfold reduceLines
  rw [states_eq]
  rfl

/-- The state of a session, from its rows. -/
def stateOf (env : ReducerEnv ν) (host : Option String) (sessionId : String)
    (rows : List JsRecord) :
    SummaryState ν :=
  rows.foldl (fun state raw => SummaryState.applyLine env raw state) (createState host sessionId)

/-- A session keeps its id. -/
theorem stateOf_sessionId (sessionId : String) (rows : List JsRecord) :
    (stateOf env host sessionId rows).sessionId = sessionId := by
  induction rows using List.reverseRecOn with
  | nil => rfl
  | append_singleton rows raw ih =>
    have hstep := @applyLine_counts _ env raw false (stateOf env host sessionId rows) _ _ _
    have hcount : (match assistantMessages [raw] with
        | [] => stateOf env host sessionId rows
        | message :: _ =>
          (stateOf env host sessionId rows).countMessage env false message).sessionId =
          (stateOf env host sessionId rows).sessionId := by
      split
      · rfl
      · unfold SummaryState.countMessage
        dsimp only
        split
        · rfl
        · rfl
    have hlast : stateOf env host sessionId (rows ++ [raw]) = (stateOf env host sessionId rows).applyLine env raw := by
      unfold stateOf
      rw [List.foldl_append]
      rfl
    rw [hlast, hstep.session, hcount, ih]

/-- A session's state is made of its rows. -/
theorem get_states (lines : List String) (sessionId : String) :
    (collect (createState host) (fun state raw => SummaryState.applyLine env raw state)
        (applied (transcriptReading env) [] lines)).get sessionId =
      if sessionId ∈ (applied (transcriptReading env) [] lines).map Prod.fst then
        some (stateOf env host sessionId (appliedRows env sessionId lines)) else none :=
  get_collect _ _

/-- The summary of a session is that of its rows. -/
theorem filter_reduceLines (lines : List String) (sessionId : String) :
    (reduceLines env host lines).filter (fun summary => summary.sessionId = sessionId) =
      if appliedRows env sessionId lines = [] then []
      else [finalizeState env (stateOf env host sessionId (appliedRows env sessionId lines))] := by
  have hkeys : ∀ key state,
    (collect (createState host) (fun state raw => SummaryState.applyLine env raw state)
      (applied (transcriptReading env) [] lines)).get key = some state → state.sessionId = key := by
    intro key state hget
    rw [get_states] at hget
    split at hget
    · rw [← Option.some.inj hget]
      exact stateOf_sessionId _ _
    · cases hget
  have hvalues := OrderedMap.filter_values _ hkeys sessionId
  rw [get_states] at hvalues
  rw [reduceLines_eq, List.filter_map]
  show List.map _ (List.filter (fun state : SummaryState ν => decide (state.sessionId = sessionId)) _) = _
  rw [hvalues]
  have hmem := @mem_keys_iff _ _ _ sessionId (applied (transcriptReading env) [] lines)
  by_cases hrows : appliedRows env sessionId lines = []
  · rw [if_pos hrows, if_neg fun h => hmem.1 h hrows]
    rfl
  · rw [if_neg hrows, if_pos (hmem.2 hrows)]
    rfl

/-- Replayed lines change nothing. -/
theorem summaries_replay {lines others : List String}
    (hids : ∀ line ∈ lines, Identified (transcriptReading env) line)
    (h : Replay lines others) : reduceLines env host others = reduceLines env host lines := by
  rw [reduceLines_eq, reduceLines_eq, applied_replay hids h]

/-- Sessions that share no uuid are reduced each for itself. -/
theorem summaries_own {lines : List String} (h : Unshared (transcriptReading env) lines)
    (sessionId : String) :
    (reduceLines env host lines).filter (fun summary => summary.sessionId = sessionId) =
      reduceLines env host (own (transcriptReading env) sessionId lines) := by
  have hrows : appliedRows env sessionId lines =
      appliedRows env sessionId (own (transcriptReading env) sessionId lines) :=
        itemsOf_applied_own h sessionId
  have hown : (reduceLines env host (own (transcriptReading env) sessionId lines)).filter
      (fun summary => summary.sessionId = sessionId) =
      reduceLines env host (own (transcriptReading env) sessionId lines) := by
    rw [List.filter_eq_self]
    intro summary hmem
    rw [reduceLines_eq, List.mem_map] at hmem
    obtain ⟨state, hstate, rfl⟩ := hmem
    obtain ⟨key, hget⟩ := (OrderedMap.mem_values_iff _ _).1 hstate
    rw [get_states] at hget
    split at hget
    · rename_i hkey
      obtain ⟨line, hline, hread⟩ := keys_applied hkey
      have hthis := of_decide_eq_true (List.mem_filter.1 hline).2
      have heq : key = sessionId := Option.some.inj (hread.symm.trans hthis)
      rw [← Option.some.inj hget]
      exact decide_eq_true ((stateOf_sessionId _ _).trans heq)
    · cases hget
  rw [← hown, filter_reduceLines, filter_reduceLines, hrows]

/-- A session with rows has one summary, and its tokens are those of its messages, the first of
each id. -/
theorem tokens_reduced (lines : List String) (sessionId : String) :
    ((reduceLines env host lines).filter fun summary => summary.sessionId = sessionId).map
        (·.tokens) =
      if appliedRows env sessionId lines = [] then []
      else [usageOf env (countedMessages (assistantMessages (appliedRows env sessionId lines)))] := by
  rw [filter_reduceLines]
  split
  · rfl
  · exact congrArg (fun tokens => [tokens]) (counted_rows host sessionId _).1

/-- A transcript in which every line of a session has a uuid is reduced the same with any of its
lines replayed, and where sessions share no uuid, each is reduced as it is alone.  In any case a
session has a summary once it has rows, and each of its messages is counted once. -/
theorem transcript_reduced (env : ReducerEnv ν) (host : Option String) (lines : List String)
    (hids : ∀ line ∈ lines, Identified (transcriptReading env) line) :
    (∀ others, Replay lines others → reduceLines env host others = reduceLines env host lines) ∧
      (Unshared (transcriptReading env) lines → ∀ sessionId,
        (reduceLines env host lines).filter (fun summary => summary.sessionId = sessionId) =
          reduceLines env host (own (transcriptReading env) sessionId lines)) ∧
      ∀ others sessionId,
        ((reduceLines env host others).filter fun summary => summary.sessionId = sessionId).map
            (·.tokens) =
          if appliedRows env sessionId others = [] then []
          else [usageOf env
            (countedMessages (assistantMessages (appliedRows env sessionId others)))] :=
  ⟨fun _ h => summaries_replay hids h, fun h => summaries_own h, tokens_reduced⟩

end Sessions

end Transcript

namespace Sample

def assistantLine : String :=
  "\x7b\"sessionId\":\"s1\",\"uuid\":\"u1\",\"message\":\x7b\"role\":\"assistant\",\"id\":\"m1\"," ++
    "\"usage\":\x7b\"input_tokens\":12\x7d\x7d\x7d"

def otherLine : String := "\x7b\"sessionId\":\"s2\",\"uuid\":\"u2\"\x7d"

/-- What these lines are, with no command in them. -/
def resumedEnv : Transcript.ReducerEnv Int where
  parseDate _ := none
  isDeliverableCommand _ := false
  isPRPublicationCommand _ := false
  parseJson text :=
    if text = assistantLine then
      some (.obj [("sessionId", .str "s1"), ("uuid", .str "u1"), ("message", .obj [("role", .str "assistant"),
        ("id", .str "m1"), ("usage", .obj [("input_tokens", .num "12")])])])
    else if text = otherLine then some (.obj [("sessionId", .str "s2"), ("uuid", .str "u2")])
    else none
  toNumber literal := if literal = "12" then 12 else 0
  isNegative n := decide (n < 0)
  textLess a b := decide (a < b)
  inherited _ := none
  findPRNumbers _ := []
  findCommitShas _ := []
  findQualifiedPRs _ := []

end Sample

open Sample Transcript Replays in
/-- The file is resumed: nothing changes, and the one message of `s1` is counted once. -/
theorem transcript_reduced_resumed :
    Transcript.reduceLines resumedEnv none [assistantLine, otherLine, assistantLine] =
        Transcript.reduceLines resumedEnv none [assistantLine, otherLine] ∧
      ((Transcript.reduceLines resumedEnv none [assistantLine, otherLine, assistantLine]).filter
        fun summary => summary.sessionId = "s1").map (·.tokens) = [⟨12, 0, 0, 0⟩] := by
  have h := transcript_reduced resumedEnv none [assistantLine, otherLine] (by
    intro line hline
    rw [identified_iff]
    revert line
    decide +kernel)
  have hcounted := h.2.2 [assistantLine, otherLine, assistantLine] "s1"
  have hrows : (if appliedRows resumedEnv "s1" [assistantLine, otherLine, assistantLine] = [] then []
      else [usageOf resumedEnv (countedMessages (assistantMessages
        (appliedRows resumedEnv "s1" [assistantLine, otherLine, assistantLine])))]) =
      [⟨12, 0, 0, 0⟩] := by decide +kernel
  exact ⟨h.1 _ (@Replay.copy _ _ [assistantLine, otherLine] [] _ .refl List.mem_cons_self),
    hcounted.trans hrows⟩

end AgentLcars
