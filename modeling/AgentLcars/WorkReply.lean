import AgentLcars.Derive
import AgentLcars.Lib.JsonStrings
import AgentLcars.System
import AgentLcars.WorkMint

/-!
# Replies

`apps/console/src/lib/work-reply.ts`: a human's text becomes the next run of an item, which resumes
the item's last session when it can.  `requestReply` reads the task, lists its runs, reads the
sessions of these, and then makes one request; the reads and the request are separate steps that any
step of the system may come between.

* `planReply` is what is decided from the two reads: an answer, or what will be asked for.
* `ReplyCall.resume` is the next step of a call, `ReplyWorld` any number of them beside the system.

What follows an accepted request (expiring sessions, the drain) acts through other steps of the
system and does not change the answer.
-/

namespace AgentLcars

open JsonStrings

/-! ### Requests and answers -/

def REPLY_MAX : Nat := WORK_DESCRIPTION_MAX

/-- `text.slice(0, n)`.  The first half of a split pair stands as a character of the last plane,
which takes two units itself and so ends no other text of this length. -/
def sliceUnits : Nat → List Char → List Char
  | 0, _ => []
  | _, [] => []
  | n + 1, c :: rest =>
    if c.toNat < 0x10000 then c :: sliceUnits n rest
    else if n = 0 then [Char.ofNat (0x10d800 + (c.toNat - 0x10000) / 0x400)]
    else c :: sliceUnits (n - 1) rest

/-- The part of a text that a run keeps. -/
def cutReply (text : String) : String := String.ofList (sliceUnits REPLY_MAX text.toList)

/-- `ReplyRequest`.  The route accepts the coding pipelines only. -/
structure ReplyRequest where
  task : TaskId
  text : String
  channel : String
  principal : String
  ref : Option String := none
  requestId : Option String := none
  pipeline : Option String := none
  resume : Option Bool := none
  fallbackPipelines : Option (List String) := none
  known : ∀ p ∈ pipeline, PIPELINES.contains p = true := by decide

inductive ReplyCode where
  | notFound
  | conflict
  | forbidden
  deriving DecidableEq

/-- `ReplyOutcome`. -/
inductive ReplyOutcome where
  | ok (runId : String) (resumed : Bool)
  | failed (code : ReplyCode) (message : String)
  deriving DecidableEq

/-- `String(flag)`. -/
def boolText (flag : Bool) : String := if flag then "true" else "false"

/-- The run was admitted for this reply. -/
def sameReply (run : Run) (request : ReplyRequest) : Bool :=
  run.param "mode" = some "reply" ∧
    run.param "reply" = some (cutReply request.text) ∧
    run.param "replyRequestId" = request.requestId ∧
    run.param "replyResumeRequested" = some (boolText (request.resume.getD true)) ∧
    -- the caller's selection, not what an old retry would resolve it to now
    run.param "replyPipelineRequested" = some (request.pipeline.getD "inherit") ∧
    (run.param "replyFallbackPipelinesRequested").getD "null" =
      stringifyStrings request.fallbackPipelines

/-- The answer that names an admitted run. -/
def replyReceipt (run : Run) (request : ReplyRequest) : ReplyOutcome :=
  if request.requestId.isSome ∧ sameReply run request = false then
    .failed .conflict "request-id already used for a different reply"
  else .ok run.runId (run.param "resumeSessionId").isSome

/-! ### Sessions -/

/-- What a reply reads of a session document. -/
structure ReplySession where
  source : String
  sessionId : String
  agent : String
  intentId : Option String
  lastActivityAt : String
  transcriptGcsUri : Option String
  resumeGcsUri : Option String

/-- The pipelines whose session can be restored, with their agents. -/
def RESUMABLE_PIPELINES : List (String × String) :=
  [("claude", "claude-code"), ("codex", "codex"), ("opencode", "opencode"), ("agy", "antigravity")]

/-- The artifact that a resume restores from.  The transcript of OpenCode is redacted and never
stands in for its export. -/
def resumeUriFor (doc : ReplySession) : Option String :=
  if doc.source ≠ "issue-agent" ∨ doc.transcriptGcsUri = none then none
  else if doc.agent = "opencode" then doc.resumeGcsUri
  else doc.resumeGcsUri.or doc.transcriptGcsUri

/-- What replies rely on. -/
structure ReplyEnv where
  locale : Text.Locale
  localeCompare : String → String → Ordering
  sha256 : String → String
  admitted : String → Bool

/-- The newest session that the item can resume. -/
def selectResumeSession (env : ReplyEnv) (sessions : List ReplySession) (runIds : List String)
    (pipeline : String) : Option ReplySession :=
  (RESUMABLE_PIPELINES.lookup pipeline).bind fun agent =>
    ((sessions.filter fun doc =>
      doc.source = "issue-agent" ∧ doc.intentId.any runIds.contains ∧ doc.agent = agent ∧
        (resumeUriFor doc).isSome).insertionSort fun a b =>
          (env.localeCompare b.lastActivityAt a.lastActivityAt).isLE).head?

/-! ### What is decided from the reads -/

/-- `workPayloadSchema` of `libs/work`. -/
def codingPayloadSchema (value : Json) : Option (WorkOrigin × WorkSpec) := do
  let fields ← strictObject ["origin", "spec"] value
  let origin ← (fields.lookup "origin").bind workOriginSchema
  let spec ← (fields.lookup "spec").bind workSpecSchema
  return (origin, spec)

/-- Internal work that its source owns. -/
def isSourceManagedWork (work : WorkPayload) : Bool :=
  match storedWorkPayloadSchema (.obj work) with
  | some (_, .summary _) => true
  | some (origin, _) => origin.principal = "svc:fleet-triage"
  | none => false

/-- What a reply is refused for before its history is read. -/
def refusesTask (task : Task) : Option ReplyOutcome :=
  if ((task.work.lookup "spec").bind recipeWorkSpecSchema).isSome then
    some (.failed .forbidden "Invoke a new recipe occurrence from Jobs.")
  else if isSourceManagedWork task.work then
    some (.failed .forbidden "Internal summary work does not accept coding replies")
  else none

/-- The request id of a keyed reply. -/
def keyedRequestId (env : ReplyEnv) (task : TaskId) (principal requestId : String) : String :=
  "reply:api:" ++ env.sha256 (String.ofList (stringifyItems [taskKey task, principal, requestId]))

def replyRequestId (env : ReplyEnv) (principal : WorkAuthority) (request : ReplyRequest)
    (task : Task) : String :=
  match request.requestId, request.ref with
  | some requestId, _ => keyedRequestId env request.task principal.principal requestId
  | none, some ref => "reply:" ++ ref
  | none, none => taskKey request.task ++ ":" ++ toString (task.runCount + 1)

/-- The receipt of a run, for a caller who may still ask for its pipeline. -/
def authorizedReceipt (env : ReplyEnv) (principal : WorkAuthority) (spec : WorkSpec)
    (request : ReplyRequest) (run : Run) : ReplyOutcome :=
  match workForbiddenReason env.admitted principal run.pipeline spec.repo with
  | some denied => .failed .forbidden denied
  | none => replyReceipt run request

/-- What a reply will ask for. -/
structure ReplyPlan where
  spec : WorkSpec
  requestId : String
  pipeline : String
  latest : Option Run
  runIds : List String
  replaceQueuedRunId : Option String
  deriving DecidableEq

/-- The run that an earlier reply of this identity was admitted as. -/
def replayedRun (request : ReplyRequest) (requestId : String) (runs : List Run) : Option Run :=
  if request.requestId = none ∧ request.ref = none then none
  else runs.find? fun run => run.requestSource = .caller ∧ run.requestId = requestId

/-- An explicit provider switch may replace queued work. -/
def replacedRun (request : ReplyRequest) (pipeline : String) (task : Task) (runs : List Run) :
    Option Run :=
  (runs.find? fun run => task.activeRunId = some run.runId).filter fun activeRun =>
    request.pipeline.isSome ∧ activeRun.queueState = some .queued ∧ activeRun.pipeline ≠ pipeline

/-- The part of `requestReply` between its reads and its request. -/
def planReply (env : ReplyEnv) (principal : WorkAuthority) (request : ReplyRequest) (task : Task)
    (runs : List Run) : Except ReplyOutcome ReplyPlan :=
  match codingPayloadSchema (.obj task.work) with
  | none => .error (.failed .forbidden "Only coding work accepts replies")
  | some (_, spec) =>
    let requestId := replyRequestId env principal request task
    match replayedRun request requestId runs with
    | some replay => .error (authorizedReceipt env principal spec request replay)
    | none =>
      if deriveItemState env.locale task runs = .canceled ∧
          (task.closedAt.isSome ∨ task.issue = none) then
        .error (.failed .conflict "task-closed")
      else
        let latest := latestRun env.locale runs
        let pipeline := request.pipeline.getD ((latest.map (·.pipeline)).getD spec.pipeline)
        match workForbiddenReason env.admitted principal pipeline spec.repo with
        | some forbidden => .error (.failed .forbidden forbidden)
        | none => .ok { spec, requestId, pipeline, latest
                        runIds := runs.map (·.runId)
                        replaceQueuedRunId :=
                          (replacedRun request pipeline task runs).map (·.runId) }

/-- A pipeline's session continues under the same pipeline only. -/
def ReplyPlan.mayResume (plan : ReplyPlan) (request : ReplyRequest) : Bool :=
  request.resume.getD true ∧ plan.latest.all fun latest => plan.pipeline = latest.pipeline

/-- The resume request, from the sessions of the item's runs. -/
def ReplyPlan.resumeParams (env : ReplyEnv) (plan : ReplyPlan) (sessions : List ReplySession) :
    Params :=
  match selectResumeSession env sessions plan.runIds plan.pipeline with
  | none => []
  | some chosen =>
    match resumeUriFor chosen with
    | none => []
    | some resumeUri =>
      [("resumeSessionId", chosen.sessionId), ("resumeTranscriptGcsUri", resumeUri)]

/-- The parameters that bind a key to what was asked. -/
def keyParams (request : ReplyRequest) : Params :=
  match request.requestId with
  | none => []
  | some requestId =>
    [("replyRequestId", requestId),
     ("replyResumeRequested", boolText (request.resume.getD true)),
     ("replyPipelineRequested", request.pipeline.getD "inherit"),
     ("replyFallbackPipelinesRequested", stringifyStrings request.fallbackPipelines)]

/-- The parameters of the run. -/
def replyParams (request : ReplyRequest) (resume : Params) : Params :=
  [("mode", "reply"), ("reply", cutReply request.text), ("replyChannel", request.channel),
   ("replyPrincipal", request.principal)] ++ keyParams request ++ resume

/-- The request a reply makes; nothing is asked when the alternatives do not parse. -/
def replyInput (principal : WorkAuthority) (intervention : Option OperationalIntervention)
    (request : ReplyRequest) (plan : ReplyPlan) (resume : Params) : Option RequestInput := do
  let providerFallback ← authorizeProviderFallback principal plan.pipeline
    (request.fallbackPipelines.or plan.spec.fallbackPipelines)
  return {
    taskId := request.task
    requestId := plan.requestId
    pipeline := plan.pipeline
    priority := some ((plan.latest.map (·.priority)).getD plan.spec.priority)
    intervention
    providerFallback
    replaceQueuedRunId := plan.replaceQueuedRunId
    params := some (replyParams request resume) }

/-- The answer to the outcome of the request; an exception passes through. -/
def answerReply (env : ReplyEnv) (principal : WorkAuthority) (spec : WorkSpec)
    (request : ReplyRequest) : Outcome → Option ReplyOutcome
  | .ok decision =>
    match decidedRun decision with
    | .ok run => some (authorizedReceipt env principal spec request run)
    | .error _ => none
  | .error (.threw _) => none
  | .error (.refusal refusal) =>
    match refusal.existingRun with
    | some run =>
      if (request.requestId.isSome ∨ request.ref.isSome) ∧
          refusal.reason = .duplicateRequest then
        some (authorizedReceipt env principal spec request run)
      else some (.failed .conflict refusal.reason.text)
    | none => some (.failed .conflict refusal.reason.text)

/-! ### Calls beside the system -/

/-- Where a call stands. -/
inductive ReplyPhase where
  | readingTask
  | listingRuns (task : Task)
  | readingSessions (plan : ReplyPlan)
  | requesting (plan : ReplyPlan) (resume : Params)
  | answered (outcome : ReplyOutcome)
  | threw
  deriving DecidableEq

/-- A call of `requestReply`, with the run its own request minted. -/
structure ReplyCall where
  principal : WorkAuthority
  intervention : Option OperationalIntervention
  request : ReplyRequest
  phase : ReplyPhase
  minted : Option String

/-- The request that the call makes next. -/
def ReplyCall.input (call : ReplyCall) : Option RequestInput :=
  match call.phase with
  | .requesting plan resume => replyInput call.principal call.intervention call.request plan resume
  | _ => none

/-- The call after its first read. -/
def ReplyCall.found (call : ReplyCall) : Option VersionedTask → ReplyCall
  | none => { call with phase := .answered (.failed .notFound "no such item") }
  | some task =>
    match refusesTask task.task with
    | some outcome => { call with phase := .answered outcome }
    | none => { call with phase := .listingRuns task.task }

/-- The call after its plan. -/
def ReplyCall.planned (call : ReplyCall) : Except ReplyOutcome ReplyPlan → ReplyCall
  | .error outcome => { call with phase := .answered outcome }
  | .ok plan =>
    { call with
      phase := if plan.mayResume call.request then .readingSessions plan else .requesting plan [] }

/-- The call after its request. -/
def ReplyCall.requested (env : ReplyEnv) (call : ReplyCall) (spec : WorkSpec)
    (outcome : Outcome) : ReplyCall :=
  { call with
    minted := outcome.toOption.bind fun decision => decision.run.map (·.runId)
    phase :=
      match answerReply env call.principal spec call.request outcome with
      | some answer => .answered answer
      | none => .threw }

/-- The next step of a call, with the sessions it would read. -/
def ReplyCall.resume (env : ReplyEnv) (call : ReplyCall) (s : Store) (now : Time)
    (sessions : List ReplySession) : ReplyCall :=
  match call.phase with
  | .readingTask => call.found (s.tasks.get (taskKey call.request.task))
  | .listingRuns task =>
    call.planned (planReply env call.principal call.request task (s.listRuns call.request.task))
  | .readingSessions plan =>
    { call with phase := .requesting plan (plan.resumeParams env sessions) }
  | .requesting plan _ =>
    match call.input with
    | none => { call with phase := .threw }
    | some input => call.requested env plan.spec (Orchestrator.request s now input).1
  | .answered _ | .threw => call

/-- The system and the replies in flight. -/
structure ReplyWorld where
  world : World
  calls : OrderedMap Nat ReplyCall

def ReplyWorld.init : ReplyWorld := { world := World.init, calls := .empty }

/-- A step of the system, a new call, or the next step of one. -/
inductive ReplyStep where
  | world (label : Step)
  | call (id : Nat) (principal : Option WorkAuthority)
      (intervention : Option OperationalIntervention) (request : ReplyRequest)
  | resume (id : Nat) (now : Time) (sessions : List ReplySession)

/-- The step of the system that a step amounts to. -/
def ReplyWorld.label (w : ReplyWorld) : ReplyStep → Option Step
  | .world label => some label
  | .call _ _ _ _ => none
  | .resume id now _ => ((w.calls.get id).bind ReplyCall.input).map fun input => .request now input

/-- One step.  A call without a principal is answered at once. -/
def ReplyWorld.step (env : ReplyEnv) (w : ReplyWorld) (step : ReplyStep) : ReplyWorld :=
  { world := (w.label step).elim w.world w.world.step
    calls :=
      match step with
      | .world _ => w.calls
      | .call id principal intervention request =>
        if (w.calls.get id).isSome then w.calls
        else w.calls.set id
          { principal := principal.getD { principal := "", pipelines := [] }, intervention, request
            phase := if principal.isSome then .readingTask
              else .answered (.failed .forbidden "no principal")
            minted := none }
      | .resume id now sessions =>
        match w.calls.get id with
        | none => w.calls
        | some call => w.calls.set id (call.resume env w.world.store now sessions) }

def ReplyWorld.run (env : ReplyEnv) (w : ReplyWorld) (steps : List ReplyStep) : ReplyWorld :=
  Machine.run (ReplyWorld.step env) w steps

end AgentLcars
