import AgentLcars.CodexPublication

/-!
# The Codex adapter

`libs/telemetry/src/lib/codex-transcript-adapter.ts`, as far as it credits publications of code-mode
calls.

* `codexEvent` is what a rollout line is to it, `CodexState.step` what it does then;
* `CommandAsked`, `Running` and `Continues` are the calls, polls and outputs that own a session;
* `CodexState.Sound` is kept by every line (`Sound.step`), and `codexAfter_sound` is the run.
-/

namespace AgentLcars

/-! ### Lines -/

/-- A call of a tool: a command or a poll in code mode, input for a session, a `write_stdin` that
names none, or a call that is none of these; that one may be a program that could do anything, and
may name a session it writes to. -/
inductive CodexCall
  | command (identityReads : Option Nat)
  | poll (session : String)
  | input (session : String)
  | stray
  | other (unknown : Bool) (session : Option String)
  deriving DecidableEq, Repr

/-- A line that concerns a call. -/
inductive CodexEvent
  | call (id : String) (call : CodexCall)
  | output (id : String) (result : Option CodexExecResult)
  deriving DecidableEq, Repr

/-- The arguments of a direct `write_stdin`, none where `JSON.parse` throws. -/
def directArguments (env : RolloutEnv) : Option Json → Option (Option Json)
  | some (.str text) => (env.parseJson text).map some
  | input => some input

/-- A call that is no invocation of a nested tool. -/
def otherCall (env : RolloutEnv) (toolName : Option String) (input : Option Json) : CodexCall :=
  let program := toolName = some "exec" ∨ toolName = some "functions.exec"
  if toolName = some "write_stdin" ∨ toolName = some "functions.write_stdin" then
    match directArguments env input with
    | none => .other true none
    | some args => .other false (asNumber (JsRecord.at_ (asRecord args) "session_id"))
  else .other program none

/-- The call of a payload. -/
def codexCall (env : RolloutEnv) (payload : JsRecord) : CodexCall :=
  let input := ((payload.lookup "arguments").filter (· ≠ .null)).or (payload.lookup "input")
  let toolName := asString (payload.lookup "name")
  let invocation :=
    if toolName = some "exec" ∨ toolName = some "functions.exec" then codeModeInvocation env input
    else none
  match invocation with
  | some { tool := .execCommand, args } => .command (codeModePublication env (args.lookup "cmd"))
  | some { tool := .writeStdin, args } =>
    match asNumber (args.lookup "session_id") with
    | none => .stray
    | some session =>
      if args.lookup "chars" = none ∨ args.lookup "chars" = some (.str "") then .poll session
      else .input session
  | none => otherCall env toolName input

/-- The event of a line, as `JSON.parse` reads it; none is a line that it throws on. -/
def codexEvent (env : RolloutEnv) (line : Option Json) : Option CodexEvent := do
  let raw ← asRecord line
  let payload ← asRecord (raw.lookup "payload")
  let callId ← (asString (payload.lookup "call_id")).filter (· ≠ "")
  if raw.lookup "type" = some (.str "response_item") then
    match payload.lookup "type" with
    | some (.str "function_call") | some (.str "custom_tool_call") =>
      some (.call callId (codexCall env payload))
    | some (.str "function_call_output") | some (.str "custom_tool_call_output") =>
      some (.output callId (codeModeResult env (payload.lookup "output")))
    | _ => none
  else none

/-! ### The state -/

/-- `Publication`: a followed call or session. -/
structure CodexPublication where
  identityReads : Option Nat
  sessionId : Option String := none
  deriving DecidableEq, Repr

/-- The calls and sessions that the adapter follows. -/
structure CodexState where
  seenCalls : List String := []
  codeCalls : OrderedMap String CodexPublication := .empty
  pendingExecs : OrderedMap String CodexPublication := .empty
  seenExecs : List String := []
  invalidExecs : List String := []
  qualifiedPRs : OrderedMap String QualifiedSessionPR := .empty

/-- The key of a pull request in `qualifiedPRs`. -/
def QualifiedSessionPR.key (pr : QualifiedSessionPR) : String :=
  pr.owner.toLower ++ "/" ++ pr.name.toLower ++ "#" ++ toString pr.number

namespace CodexState

/-- `invalidateExec`. -/
def invalidateExec (s : CodexState) (session : String) : CodexState :=
  { s with
    pendingExecs := s.pendingExecs.erase session
    invalidExecs := session :: s.invalidExecs
    seenExecs := session :: s.seenExecs }

/-- `invalidatePendingExecs`. -/
def invalidatePendingExecs (s : CodexState) : CodexState :=
  (s.codeCalls.values.filterMap CodexPublication.sessionId).foldl invalidateExec
    ((s.pendingExecs.entries.map Prod.fst).foldl invalidateExec s)

/-- What `reduce` does with a call of this id for the first time. -/
def firstCall (s : CodexState) (id : String) : CodexCall → CodexState
  | .command identityReads => { s with codeCalls := s.codeCalls.set id { identityReads } }
  | .poll session =>
    let owned := s.pendingExecs.get session
    let s := { s with pendingExecs := s.pendingExecs.erase session }
    match owned with
    | some owned =>
      if session ∉ s.invalidExecs then { s with codeCalls := s.codeCalls.set id owned }
      else if session ∈ s.seenExecs then s.invalidateExec session
      else s
    | none => if session ∈ s.seenExecs then s.invalidateExec session else s
  | .input session => s.invalidateExec session
  | .stray => s
  | .other unknown session =>
    let s := if unknown then s.invalidatePendingExecs else s
    match session with
    | some session => s.invalidateExec session
    | none => s

/-- What `reduce` does with a call. -/
def call (s : CodexState) (id : String) (c : CodexCall) : CodexState :=
  if id ∈ s.seenCalls then
    invalidatePendingExecs { s with codeCalls := s.codeCalls.erase id }
  else firstCall { s with seenCalls := id :: s.seenCalls } id c

/-- The output of a poll whose session was given up, or of another session. -/
def strayed (s : CodexState) (owned : CodexPublication) (result : CodexExecResult) : Bool :=
  owned.sessionId.any fun session =>
    session ∈ s.invalidExecs ∨ result.sessionId.any (· ≠ session)

/-- The session that a fresh command may not claim: one that was seen, or one of a command that has
ended. -/
def reused (s : CodexState) (owned : CodexPublication) (result : CodexExecResult) : Option String :=
  if owned.sessionId = none then
    result.sessionId.filter fun session => session ∈ s.seenExecs ∨ result.exitCode ≠ none
  else none

/-- The pull request of a command that has ended. -/
def published (owned : CodexPublication) (result : CodexExecResult) : Option QualifiedSessionPR :=
  if result.exitCode = some "0" then
    owned.identityReads.bind (codeModePublishedPR result.output)
  else none

/-- What `reduce` does with the output of a followed call, and the pull request it adds. -/
def ownedOutput (s : CodexState) (owned : CodexPublication) (result : CodexExecResult) :
    Option QualifiedSessionPR × CodexState :=
  if s.strayed owned result then (none, s)
  else match s.reused owned result with
    | some session => (none, s.invalidateExec session)
    | none =>
      if result.exitCode ≠ none then
        let s := match owned.sessionId with
          | some session => { s with pendingExecs := s.pendingExecs.erase session }
          | none => s
        match published owned result with
        | some pr => (some pr, { s with qualifiedPRs := s.qualifiedPRs.set pr.key pr })
        | none => (none, s)
      else match result.sessionId with
        | some session =>
          if session ∈ s.invalidExecs then (none, s)
          else (none, { s with
            seenExecs := session :: s.seenExecs
            pendingExecs := s.pendingExecs.set session { owned with sessionId := some session } })
        | none => (none, s)

/-- What `reduce` does with an output, and the pull request it adds. -/
def output (s : CodexState) (id : String) (result : Option CodexExecResult) :
    Option QualifiedSessionPR × CodexState :=
  match s.codeCalls.get id with
  | none => (none, s)
  | some owned =>
    let s := { s with codeCalls := s.codeCalls.erase id }
    match result with
    | none => (none, s)
    | some result => s.ownedOutput owned result

/-- The pull request that an event adds, and the state after it. -/
def step (s : CodexState) : CodexEvent → Option QualifiedSessionPR × CodexState
  | .call id c => (none, s.call id c)
  | .output id result => s.output id result

end CodexState

/-- The state after these events. -/
def codexAfter (events : List CodexEvent) : CodexState :=
  events.foldl (fun s e => (s.step e).2) {}

theorem codexAfter_append (past : List CodexEvent) (e : CodexEvent) :
    codexAfter (past ++ [e]) = ((codexAfter past).step e).2 := by
  simp [codexAfter]

/-- What a line adds to `qualifiedPRs` for code-mode calls, and the state after it. -/
def codexAdvance (env : RolloutEnv) (acc : List QualifiedSessionPR × CodexState)
    (line : Option Json) : List QualifiedSessionPR × CodexState :=
  match codexEvent env line with
  | none => acc
  | some e => (acc.1 ++ (acc.2.step e).1.toList, (acc.2.step e).2)

/-- What `reduce` adds to `qualifiedPRs` for code-mode calls, and the state after the lines. -/
def codexReduce (env : RolloutEnv) (lines : List (Option Json)) :
    List QualifiedSessionPR × CodexState :=
  lines.foldl (codexAdvance env) ([], {})

theorem codexReduce_append (env : RolloutEnv) (lines : List (Option Json)) (line : Option Json) :
    codexReduce env (lines ++ [line]) = codexAdvance env (codexReduce env lines) line := by
  simp [codexReduce]

end AgentLcars
