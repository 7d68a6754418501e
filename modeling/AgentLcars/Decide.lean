import AgentLcars.Model

/-!
# Pure decision logic

`libs/orchestrator/src/decide.ts`.  Given current state and one input, each function produces the
next state and its effects, or refuses.  A refusal is a normal outcome: "this task is already being
worked" is the orchestrator doing its one job.  A thrown error is told apart from a refusal, since
callers of `requestRun` turn some refusals into other decisions but let errors through.
-/

namespace AgentLcars

/-- What a decision writes, in one transaction. -/
structure Decision where
  task : Task
  run : Option Run := none
  additionalRuns : List Run := []
  outbox : List OutboxEntry := []
  deriving DecidableEq, Repr

/-- The runs a decision writes, in the order they are written. -/
def Decision.writes (decision : Decision) : List Run :=
  decision.run.toList ++ decision.additionalRuns

/-- Why a request was refused. -/
inductive Reason where
  | taskBusy
  | duplicateRequest
  | unknownRun
  | runAlreadyClaimed
  | runNewerThanCutoff
  | runNotLive
  | pipelineForbidden
  | staleProviderRequest
  | staleLease
  | taskClosed
  | missingWork
  | workSpecMismatch
  | unknownTask
  | staleIssueSource
  | notNative
  | credentialOperationPending
  | notClaimant
  deriving DecidableEq, Repr

/-- The reason as the source spells it. -/
def Reason.text : Reason → String
  | .taskBusy => "task-busy"
  | .duplicateRequest => "duplicate-request"
  | .unknownRun => "unknown-run"
  | .runAlreadyClaimed => "run-already-claimed"
  | .runNewerThanCutoff => "run-newer-than-cutoff"
  | .runNotLive => "run-not-live"
  | .pipelineForbidden => "pipeline-forbidden"
  | .staleProviderRequest => "stale-provider-request"
  | .staleLease => "stale-lease"
  | .taskClosed => "task-closed"
  | .missingWork => "missing-work"
  | .workSpecMismatch => "work-spec-mismatch"
  | .unknownTask => "unknown-task"
  | .staleIssueSource => "stale-issue-source"
  | .notNative => "not-native"
  | .credentialOperationPending => "credential-operation-pending"
  | .notClaimant => "not-claimant"

/-- A refusal, with the run a duplicate request already maps to. -/
structure Refusal where
  reason : Reason
  existingRun : Option Run := none
  deriving DecidableEq, Repr

/-- How a decision function stops without a decision. -/
inductive Stop where
  | refusal (refusal : Refusal)
  | threw (message : String)
  deriving DecidableEq, Repr

/-- `Decision | Refusal`, or an exception. -/
abbrev Outcome := Except Stop Decision

/-- Stop with a refusal. -/
def refused {α : Type} (reason : Reason) (existingRun : Option Run := none) : Except Stop α :=
  .error (.refusal { reason, existingRun })

/-- For decisions that always carry a run. -/
def decidedRun (decision : Decision) : Except Stop Run :=
  match decision.run with
  | some run => .ok run
  | none => .error (.threw "decision unexpectedly carries no run")

/-! ### Deadlines and the queued-to-claimed transition -/

/-- Observer and bootstrap budget. -/
def RUN_START_TIMEOUT_MS : Time := 15 * 60000

/-- The bootstrap deadline of a claim made or placed now. -/
def runStartDeadlineAt (now : Time) : Time := now + RUN_START_TIMEOUT_MS

/-- Total placement wait a negotiated claim may renew through. -/
def RUN_PLACEMENT_WAIT_MAX_MS : Time := 60 * 60000

/-- A waiting observation renews the deadline up to the placement bound. -/
def placementStartDeadlineAt (now : Time) (claimedAt : Option Time) : Time :=
  let renewed := runStartDeadlineAt now
  let bound := match claimedAt with
    | none => renewed
    | some claimedAt => claimedAt + RUN_PLACEMENT_WAIT_MAX_MS
  min renewed bound

/-- How long a live run may stay silent. -/
def RUN_LEASE_MS : Time := 2 * 60 * 60 * 1000

/-- The lease of a run seen now. -/
def runLeaseExpiresAt (now : Time) : Time := now + RUN_LEASE_MS

/-- What a claiming executor presents. -/
structure ClaimInput where
  now : Time
  claimedBy : String
  claimedBySubject : String
  tokenHash : String
  placementAware : Bool
  deriving DecidableEq, Repr

/-- Pure queued-to-claimed transition shared by the stores. -/
def claimQueuedRun (run : Run) (input : ClaimInput) : Run :=
  { run with
    leaseExpiresAt := runLeaseExpiresAt input.now
    updatedAt := input.now
    queue := some
      { state := .claimed
        claimedAt := some input.now
        startDeadlineAt := some (runStartDeadlineAt input.now)
        startupPlacement := if input.placementAware then
          some { state := .waiting, observedAt := input.now, jobUid := none } else none
        claimedBy := some input.claimedBy
        claimedBySubject := some input.claimedBySubject
        tokenHash := some input.tokenHash } }

/-- A task whose runs go lost this many times in a row stops auto-retrying. -/
def MAX_AUTO_RETRIES : Nat := 2

/-! ### Locks, outcomes and the shared tail of every settlement -/

/-- Release the lock if this run holds it. -/
def releaseLock (task : Task) (runId : String) (now : Time) : Task :=
  if task.activeRunId = some runId then { task with activeRunId := none, updatedAt := now }
  else { task with updatedAt := now }

/-- A completed or canceled run clears the loss streak. -/
def resetLossBudgets (task : Task) : Task := { task with consecutiveLost := 0 }

/-- A fresh outbox entry about a run. -/
def freshEntry (entryId : String) (kind : OutboxKind) (run : Run) (now : Time) : OutboxEntry :=
  { entryId, kind, task := run.task, runId := run.runId, state := .pending, attempts := 0,
    createdAt := now, updatedAt := now }

/-- The outcome of a settled run, to be reported onward. -/
def outcomeEntry (run : Run) (now : Time) : OutboxEntry :=
  freshEntry ("outcome/" ++ run.runId) .reportOutcome run now

/-- Native logical completion owns a distinct durable event. -/
def finalDeliveryOutbox (task : Task) (run : Run) (delivery : DeliveryBinding) (now : Time) :
    List OutboxEntry :=
  if isWorkAnchor task.task = false ∨ delivery.state ≠ .complete then []
  else [freshEntry ("delivery-outcome/" ++ run.runId) .reportOutcome run now]

/-- The report of a finished run whose triage is to be published. -/
def publishesTriage (run : Run) : Bool :=
  run.state = .finished ∧ run.result.any (·.ok) ∧ run.triagePublication = some ⟨.pending⟩

/-- A parked run whose message asks for a human. -/
def parksWithMessage (run : Run) : Bool :=
  run.state = .finished ∧
    run.result.any fun result => result.summary = some "park" ∧ result.hasMessage

/-- Shared tail of every settle path. -/
def settle (releasedTask : Task) (settledRun : Run) (now : Time) : Decision :=
  { task := releasedTask
    run := some settledRun
    outbox := [outcomeEntry settledRun now]
      ++ (if publishesTriage settledRun then
        [freshEntry ("triage/" ++ settledRun.runId) .publishTriage settledRun now] else [])
      ++ (if parksWithMessage settledRun then
        [freshEntry ("handoff-summary/" ++ settledRun.runId) .admitHandoffSummary settledRun now]
        else []) }

/-! ### Minting -/

/-- The input of `mintRun`.  Every caller passes the `issue` key, so its value is copied onto the
run as it is and the task's issue is never consulted. -/
structure MintInput where
  now : Time
  taskId : TaskId
  task : Task
  issue : Option TrackerIssue
  requestId : String
  requestSource : Option RequestSource
  pipeline : String
  priority : Option QueuePriority
  params : Option Params
  intervention : Option OperationalIntervention := none
  providerFallback : Option FallbackInput := none
  sourceRevision : Option WorkRevision := none
  revisionAttempt : Option Nat := none

/-- The fallback policy a fresh run carries; an empty policy is none. -/
def mintedFallback (policy : Option FallbackInput) (pipeline runId : String) :
    Option ProviderFallback :=
  match policy with
  | none => none
  | some (.request policy) =>
    if policy.allowedPipelines = [] then none
    else some
      { principal := policy.principal, sourceRepository := policy.sourceRepository
        allowedPipelines := policy.allowedPipelines, attemptedPipelines := [pipeline]
        originalRunId := runId, fromRunId := none, trigger := none }
  | some (.inherited policy) => if policy.allowedPipelines = [] then none else some policy

/-- The fresh run. -/
def mintedRun (input : MintInput) : Run :=
  let runId := runIdOf (taskKey input.taskId) (input.task.runCount + 1)
  { runId
    task := input.taskId
    state := .pending
    pipeline := input.pipeline
    priority := input.priority.getD .normal
    requestId := input.requestId
    requestSource := input.requestSource.getD .caller
    params := input.params
    issue := input.issue
    sourceRevision := input.sourceRevision
    revisionAttempt := input.sourceRevision.map fun _ => input.revisionAttempt.getD 1
    providerFallback := mintedFallback input.providerFallback input.pipeline runId
    queue := none
    delivery := none
    triagePublication := none
    credentialOperation := none
    credentialRestoredClaimFingerprint := none
    credentialPendingResult := none
    credentialWriteReceipt := none
    leaseExpiresAt := runLeaseExpiresAt input.now
    result := none
    events := [{ at_ := input.now, to_ := .pending, by_ := .request,
                 intervention := input.intervention }]
    createdAt := input.now
    updatedAt := input.now }

/-- Starts a fresh run for a task that has no live run and takes the lock. -/
def mintRun (input : MintInput) : Decision :=
  let run := mintedRun input
  { task := { input.task with
      activeRunId := some run.runId, runCount := input.task.runCount + 1, updatedAt := input.now }
    run := some run
    outbox := [freshEntry ("dispatch/" ++ run.runId) .dispatchRun run input.now] }

/-! ### Requests -/

/-- The input of `requestRun`.  The outer option of `issue` says whether the key is present. -/
structure RequestRunInput where
  now : Time
  task : Option Task
  taskId : TaskId
  activeRun : Option Run
  requestId : String
  requestSource : Option RequestSource := none
  pipeline : String
  priority : Option QueuePriority := none
  params : Option Params := none
  intervention : Option OperationalIntervention := none
  work : Option WorkPayload := none
  issue : Option (Option TrackerIssue) := none
  providerFallback : Option FallbackInput := none
  sourceRevision : Option WorkRevision := none
  revisionAttempt : Option Nat := none

/-- `params?.[key]`. -/
def RequestRunInput.param (input : RequestRunInput) (key : String) : Option String :=
  input.params.bind (·.lookup key)

/-- Only a reply, or an internal successor of the bound run, may start while a delivery waits. -/
def RequestRunInput.passesDelivery (input : RequestRunInput) (task : Task) : Bool :=
  (input.param "mode" = some "reply" ∧ input.param "replyPrincipal" ≠ none) ∨
    (input.requestSource ≠ none ∧ input.requestSource ≠ some .caller ∧
      input.param "deliveryPredecessor" = task.delivery.map (·.runId))

/-- The issue the task keeps: the newer one of the same source. -/
def newerIssue (given previous : Option TrackerIssue) : Option TrackerIssue :=
  match given, previous with
  | some given, some previous =>
    if previous.updatedAt < given.updatedAt then some given else some previous
  | some given, none => some given
  | none, previous => previous

/-- The two issues are about different sources. -/
def issueIdentityChanges (given previous : Option TrackerIssue) : Bool :=
  match given, previous with
  | some given, some previous => issueSourceKey previous.reference ≠ issueSourceKey given.reference
  | _, _ => false

/-- The task record a request rebuilds before it mints. -/
def requestedTask (input : RequestRunInput) (work : WorkPayload) (issue : Option TrackerIssue) :
    Task :=
  { task := input.taskId
    delivery := input.task.bind (·.delivery)
    activeRunId := none
    runCount := (input.task.map (·.runCount)).getD 0
    consecutiveLost := (input.task.map (·.consecutiveLost)).getD 0
    work
    issue
    desiredRevision := input.sourceRevision
    sourceObservedAt := input.sourceRevision.bind (·.observedAt)
    providerRouting := input.task.bind (·.providerRouting)
    closedAt := none
    updatedAt := input.now }

/-- The fresh run a request asks for; a request that names no issue takes the task's. -/
def requestMint (input : RequestRunInput) (task : Task) (issue : Option TrackerIssue) : MintInput :=
  { now := input.now
    taskId := input.taskId
    task
    issue := input.issue.getD issue
    requestId := input.requestId
    requestSource := input.requestSource
    pipeline := input.pipeline
    priority := input.priority
    params := input.params
    intervention := input.intervention
    providerFallback := input.providerFallback
    sourceRevision := input.sourceRevision
    revisionAttempt := input.revisionAttempt }

/-- A request to work a task: start a run if none is live, map a repeated request to the live run,
refuse any other. -/
def requestRun (input : RequestRunInput) : Outcome :=
  match input.activeRun.filter fun run => isLive run.state with
  | some activeRun =>
    if runRequestHistoryKey activeRun =
        requestHistoryKey (input.requestSource.getD .caller) input.requestId then
      refused .duplicateRequest (some activeRun)
    else refused .taskBusy (some activeRun)
  | none =>
    if (input.task.bind (·.closedAt)).isSome then refused .taskClosed
    else if input.task.any fun task => deliveryWaiting task ∧ ¬input.passesDelivery task then
      refused .taskBusy
    else match (input.task.map (·.work)).or input.work with
      | none => refused .missingWork
      | some work =>
        let given := input.issue.join
        let previous := input.task.bind (·.issue)
        if issueIdentityChanges given previous then
          .error (.threw "Issue source identity cannot change")
        else
          let issue := newerIssue given previous
          .ok (mintRun (requestMint input (requestedTask input work issue) issue))

/-! ### Settling a run -/

/-- The run as a cancellation settles it. -/
def canceledRun (now : Time) (run : Run) (note : Option String)
    (intervention : Option OperationalIntervention) : Run :=
  { run with
    state := .canceled
    events := run.events ++ [{ at_ := now, to_ := .canceled, by_ := .operator, note, intervention }]
    updatedAt := now }

/-- An operator stops a run and releases the lock; reports onward. -/
def cancelRun (now : Time) (task : Task) (run : Run) (note : Option String := none)
    (intervention : Option OperationalIntervention := none)
    (nativeTask : Option String := none) : Outcome :=
  if ¬isLive run.state then refused .runNotLive
  else if run.credentialOperation.isSome then refused .credentialOperationPending
  else if nativeTask.isSome ∧ isWorkAnchor task.task = false then refused .notNative
  else if nativeTask.any fun workId =>
      task.task ≠ .work workId ∨ task.activeRunId ≠ some run.runId then refused .taskBusy
  else
    let released := resetLossBudgets (releaseLock task run.runId now)
    .ok (settle
      (if nativeTask.isSome ∧ deliveryWaiting task then { released with closedAt := some now }
        else released)
      (canceledRun now run note intervention) now)

/-- A settlement and the mint that follows it, in one decision. -/
def Decision.followedBy (settled next : Decision) : Decision :=
  { settled with
    task := next.task
    additionalRuns := next.run.toList
    outbox := settled.outbox ++ next.outbox }

/-- A failed attempt of the desired revision with budget left. -/
def retriesRevision (run : Run) : Bool :=
  run.state = .finished ∧ run.result.any (fun result => result.ok = false) ∧
    run.revisionAttempt.getD 1 ≤ MAX_AUTO_RETRIES

/-- The run a settlement owes its source revision. -/
def revisionMint (task : Task) (run : Run) (desired : WorkRevision) (superseded : Bool)
    (now : Time) : MintInput :=
  { now
    taskId := run.task
    task := resetLossBudgets task
    issue := if superseded then task.issue else run.issue
    requestId := if superseded then desired.key else "retry:" ++ run.runId
    requestSource := some (if superseded then .caller else .autoRetry)
    pipeline := run.pipeline
    priority := some run.priority
    params := run.params
    sourceRevision := some desired
    revisionAttempt := some (if superseded then 1 else run.revisionAttempt.getD 1 + 1) }

/-- The decision with the successor it owes its source revision: the latest desired one, or a
bounded retry of a failed attempt.  `none` when the decision stands as it is. -/
def revisionSuccessor (decision : Decision) (run : Run) (now : Time) : Option Decision :=
  match run.sourceRevision, decision.task.desiredRevision with
  | some revision, some desired =>
    if decision.task.closedAt.isSome then none
    else
      let superseded : Bool := revision.key ≠ desired.key
      if ¬superseded ∧ ¬retriesRevision run then none
      else some (decision.followedBy
        (mintRun (revisionMint decision.task run desired superseded now)))
  | _, _ => none

/-- Settlement and successor admission share a transaction. -/
def advanceSourceRevision (decision : Decision) (now : Time) : Outcome := do
  let run ← decidedRun decision
  return (revisionSuccessor decision run now).getD decision

/-- The result of a run whose revision is no longer the desired one. -/
def settledResult (task : Task) (run : Run) (result : RunResult) : RunResult :=
  match run.sourceRevision with
  | some revision =>
    if task.desiredRevision.map (·.key) = some revision.key then result
    else { result with summary := some "superseded" }
  | none => result

/-- A publication of a superseded revision is fenced. -/
def settledPublication (task : Task) (run : Run) : Option TriagePublication :=
  if task.desiredRevision.map (·.key) = run.sourceRevision.map (·.key) then run.triagePublication
  else run.triagePublication.map fun _ => ⟨.superseded⟩

/-- The run as a report settles it. -/
def finishedRun (now : Time) (task : Task) (run : Run) (result : RunResult) : Run :=
  { run with
    credentialPendingResult := none
    state := .finished
    triagePublication := settledPublication task run
    result := some (settledResult task run result)
    events := run.events ++ [{ at_ := now, to_ := .finished, by_ := .report }]
    updatedAt := now }

/-- A repeated report must say what the pending one said. -/
def sameReport (a b : RunResult) : Bool :=
  a.ok = b.ok ∧ a.summary = b.summary ∧ a.ref = b.ref ∧ a.message = b.message ∧
    a.relatedRefs = b.relatedRefs

/-- The delivery monitor, or for a native item already complete its final event. -/
def deliveryOutbox (task : Task) (run : Run) (delivery : DeliveryBinding) (now : Time) :
    List OutboxEntry :=
  if isWorkAnchor run.task ∧ delivery.state = .complete then
    finalDeliveryOutbox task run delivery now
  else
    [{ freshEntry ("delivery/" ++ run.runId) .monitorDelivery run now with
        nextAttemptAt := some (now + 60000) }]

/-- The settlement of a report that is admitted and not deferred. -/
def reportSettlement (now : Time) (task : Task) (run : Run) (result : RunResult) : Decision :=
  settle (resetLossBudgets (releaseLock task run.runId now)) (finishedRun now task run result) now

/-- The same settlement when the delivery of the run takes over. -/
def deliveredSettlement (now : Time) (task : Task) (run : Run) (result : RunResult)
    (delivery : DeliveryBinding) : Decision :=
  let decision := reportSettlement now task run result
  { decision with
    task := { decision.task with delivery := some delivery }
    outbox := decision.outbox ++
      deliveryOutbox decision.task (finishedRun now task run result) delivery now }

/-- The run reports its result; a report while credential IO is outstanding is deferred. -/
def reportResult (now : Time) (task : Task) (run : Run) (result : RunResult)
    (claimFingerprint : Option String := none) : Outcome :=
  if claimFingerprint.any fun fingerprint => ¬isClaimant run fingerprint then refused .notClaimant
  else if run.state = .finished then refused .runNotLive (some run)
  else if ¬isLive run.state then
    refused .runNotLive (if claimFingerprint.isSome then some run else none)
  else if task.activeRunId ≠ some run.runId then refused .staleLease
  else if run.credentialPendingResult.any fun pending =>
      some pending.claimFingerprint ≠ run.tokenHash ∨ ¬sameReport pending.result result then
    refused .credentialOperationPending
  else
    let admittedAt := (run.credentialPendingResult.map (·.requestedAt)).getD now
    if startDeadlineElapsed run admittedAt then refused .staleLease
    else if claimFingerprint.isSome ∧ recoveryDeadlineElapsed run admittedAt then
      refused .staleLease
    else match run.credentialOperation with
      | some operation =>
        .ok { task
              run := some { run with
                credentialPendingResult := run.credentialPendingResult.or (some
                  { claimFingerprint := operation.claimFingerprint, requestedAt := now, result })
                updatedAt := now } }
      | none =>
        let decision := reportSettlement now task run result
        match run.delivery with
        | some delivery =>
          if result.ok then .ok (deliveredSettlement now task run result delivery)
          else advanceSourceRevision decision now
        | none => advanceSourceRevision decision now

/-! ### Losses and exits -/

/-- Who is reporting an exit. -/
structure ExitClaimant where
  subject : String
  runner : String
  claimFingerprint : Option String
  deriving DecidableEq, Repr

/-- Codex keeps its claim after settlement: credential cleanup is authorized by it. -/
def retiresOnExit (run : Run) : Bool := run.pipeline ≠ "codex"

/-- `{ ...queue, state: 'retired' }`. -/
def RunQueue.retire (queue : RunQueue) : RunQueue := { queue with state := .retired }

/-- Why a live run is given up. -/
inductive LossCause where
  | expiry
  | executor
  deriving DecidableEq, Repr

/-- The audit source of a loss. -/
def LossCause.source : LossCause → EventSource
  | .expiry => .expiry
  | .executor => .executor

/-- The note an expired startup leaves. -/
def lossNote (cause : LossCause) (run : Run) (now : Time) : Option String :=
  if cause = .expiry ∧ startDeadlineElapsed run now then
    some (if (run.queue.bind (·.startupPlacement)).any fun p => p.state = .waiting then
      "placement observation deadline exceeded" else "first heartbeat deadline exceeded")
  else none

/-- The run as a loss settles it.  An executor reports an exit only after its worker's Job ended,
so that report also retires the claim. -/
def lostRun (now : Time) (run : Run) (cause : LossCause) : Run :=
  { run with
    queue := if cause = .executor ∧ retiresOnExit run ∧ ¬usesCodexCredentials run then
      run.queue.map (·.retire) else run.queue
    state := .lost
    events := run.events ++ [{ at_ := now, to_ := .lost, by_ := cause.source,
                               note := lossNote cause run now }]
    updatedAt := now }

/-- Release the lock of a lost run and count the loss. -/
def settleLost (now : Time) (task : Task) (run : Run) (cause : LossCause) : Decision :=
  settle { releaseLock task run.runId now with consecutiveLost := task.consecutiveLost + 1 }
    (lostRun now run cause) now

/-- A live run whose lease has expired is presumed lost. -/
def expireLeaseLoss (now : Time) (task : Task) (run : Run) : Outcome :=
  if ¬isLive run.state then refused .runNotLive
  else if ¬recoveryDeadlineElapsed run now then refused .staleLease
  else if task.activeRunId ≠ some run.runId then refused .staleLease
  else if run.credentialOperation.isSome then refused .credentialOperationPending
  else .ok (settleLost now task run .expiry)

/-- The claim still belongs to the reporting executor. -/
def isExitClaimant (run : Run) (claimant : ExitClaimant) : Bool :=
  match run.queue with
  | none => false
  | some queue =>
    (queue.state = .claimed ∨ (queue.state = .retired ∧ ¬isLive run.state)) ∧
      queue.claimedBySubject = some claimant.subject ∧
      queue.claimedBy = some claimant.runner ∧
      (claimant.claimFingerprint = none ∨ queue.tokenHash = claimant.claimFingerprint) ∧
      ¬(isLive run.state ∧ claimant.claimFingerprint = none)

/-- The executor that claimed the run observed its worker end without a report. -/
def executorLoss (now : Time) (task : Task) (run : Run) (claimant : ExitClaimant) : Outcome :=
  if ¬isExitClaimant run claimant then refused .notClaimant
  else if ¬isLive run.state then refused .runNotLive
  else if task.activeRunId ≠ some run.runId then refused .staleLease
  else if run.credentialOperation.isSome then refused .credentialOperationPending
  else .ok (settleLost now task run .executor)

/-- The retry of a lost run, when budget remains. -/
def lossRetry (now : Time) (task : Task) (run : Run) : MintInput :=
  { now
    taskId := run.task
    task
    issue := run.issue
    requestId := "retry:" ++ run.runId
    requestSource := some .autoRetry
    pipeline := run.pipeline
    priority := some run.priority
    sourceRevision := run.sourceRevision
    revisionAttempt := run.sourceRevision.map fun _ => run.revisionAttempt.getD 1 + 1
    params := run.params
    providerFallback := run.providerFallback.map .inherited }

/-- Settle a lost run and, while budget remains, mint its deterministic successor. -/
def settleLostAndRetry (now : Time) (loss : Outcome) : Outcome := do
  let lost ← loss
  let run ← decidedRun lost
  -- recipes may already have performed effects: never replayed
  if run.pipeline = "goose" then .ok lost
  else match revisionSuccessor lost run now with
    | some desired => .ok desired
    | none =>
      if MAX_AUTO_RETRIES < lost.task.consecutiveLost then .ok lost
      else if run.sourceRevision.isSome ∧
          (lost.task.desiredRevision = none ∨ MAX_AUTO_RETRIES < run.revisionAttempt.getD 1) then
        .ok lost
      else .ok (lost.followedBy (mintRun (lossRetry now lost.task run)))

/-- The trailing event is the durable exit receipt. -/
def exitObserved (run : Run) : Bool :=
  run.events.getLast?.any fun event =>
    event.note = some RECIPE_EXIT_PENDING_CREDENTIAL_CLEANUP ∧ event.by_ = .executor

/-- The claimant executor observed the worker of an already settled run exit. -/
def retireSettledClaim (now : Time) (task : Task) (run : Run) : Outcome :=
  match run.queue with
  | none => refused .runNotLive
  | some queue =>
    if ¬retiresOnExit run then refused .runNotLive
    else if run.credentialOperation.isSome then
      if ¬usesCodexCredentials run then refused .runNotLive
      else .ok
        { task
          run := some (if exitObserved run then run else { run with
            events := run.events ++ [{ at_ := now, to_ := run.state, by_ := .executor,
                                       note := some RECIPE_EXIT_PENDING_CREDENTIAL_CLEANUP }] }) }
    else .ok { task, run := some { run with queue := some queue.retire } }

/-- The reason of a refusal. -/
def refusalReason : Outcome → Option Reason
  | .error (.refusal refusal) => some refusal.reason
  | _ => none

/-- The exit report: the same bounded auto-retry lease expiry uses, or retirement of a settled
run's claim. -/
def executorExitedAndRetry (now : Time) (task : Task) (run : Run) (claimant : ExitClaimant) :
    Outcome :=
  let loss := executorLoss now task run claimant
  if refusalReason loss = some .runNotLive ∧ run.queueState = some .claimed then
    retireSettledClaim now task run
  else settleLostAndRetry now loss

/-- Atomically settle an expired run and mint its successor. -/
def expireLeaseAndRetry (now : Time) (task : Task) (run : Run) : Outcome :=
  settleLostAndRetry now (expireLeaseLoss now task run)

/-! ### Source revisions -/

/-- `record?.[source] ?? ''`. -/
def observedClock (record : Option (List (String × String))) (source : String) : String :=
  (record.bind (·.lookup source)).getD ""

/-- Some source of the recorded watermark is ahead of the observation. -/
def observesOlder (recorded observed : Option (List (String × String))) : Bool :=
  (recorded.getD []).any fun (source, at_) => observedClock observed source < at_

/-- Some source of the observation is ahead of the recorded watermark. -/
def observesNewer (recorded : Option (List (String × String))) (observed : List (String × String)) :
    Bool :=
  observed.any fun (source, at_) => observedClock recorded source < at_

/-- An unclaimed attempt is superseded; an executing claim retains ownership until it settles. -/
def superviseRevision (input : RequestRunInput) (sourceRevision : WorkRevision) : Outcome :=
  match input.task, input.activeRun.filter fun run => isLive run.state with
  | some task, some activeRun => do
    let desiredTask := { task with
      desiredRevision := some sourceRevision
      sourceObservedAt := sourceRevision.observedAt.or task.sourceObservedAt
      updatedAt := input.now }
    if activeRun.queueState = some .claimed then .ok { task := desiredTask }
    else
      let canceled ← cancelRun input.now desiredTask activeRun
        (some "Superseded by a newer source revision")
      let next ← requestRun { input with
        sourceRevision := some sourceRevision, task := some canceled.task, activeRun := none }
      let canceledRun ← decidedRun canceled
      return { next with
        additionalRuns := [canceledRun]
        outbox := canceled.outbox ++ next.outbox }
  | _, _ => requestRun { input with sourceRevision := some sourceRevision }

/-- Coalesce source updates under the existing task mutex. -/
def requestRevisionRun (input : RequestRunInput) (sourceRevision : WorkRevision) : Outcome :=
  match input.task, sourceRevision.observedAt with
  | some task, some observedAt =>
    if task.closedAt.isSome then refused .taskClosed
    else if observesOlder task.sourceObservedAt (some observedAt) then .ok { task }
    else if task.desiredRevision.map (·.input) = some sourceRevision.input then
      if task.sourceObservedAt = some observedAt then refused .duplicateRequest
      else .ok { task := { task with sourceObservedAt := some observedAt } }
    else if task.sourceObservedAt.isSome ∧ ¬observesNewer task.sourceObservedAt observedAt then
      .ok { task }
    else superviseRevision input sourceRevision
  | some task, none =>
    if task.closedAt.isSome then refused .taskClosed else superviseRevision input sourceRevision
  | none, _ => superviseRevision input sourceRevision

/-- Ordered source ineligibility fences effects without abandoning a running worker's claim. -/
def invalidateSourceRevision (now : Time) (task : Task) (run : Run)
    (observedAt : List (String × String)) : Outcome :=
  if run.runId ≠ runIdOf (taskKey task.task) task.runCount then refused .staleLease
  else if run.sourceRevision = none then refused .workSpecMismatch
  else if observesOlder task.sourceObservedAt (some observedAt) ∨
      ¬observesNewer task.sourceObservedAt observedAt then .ok { task }
  else
    let invalidated := { task with
      desiredRevision := none, sourceObservedAt := some observedAt, updatedAt := now }
    if isLive run.state ∧ run.queueState ≠ some .claimed then
      cancelRun now invalidated run (some "Source is no longer eligible")
    else .ok
      { task := invalidated
        run := if run.triagePublication = some ⟨.pending⟩ then
          some { run with triagePublication := some ⟨.superseded⟩, updatedAt := now } else none }

/-! ### Dispatch, heartbeats and placement -/

/-- Dispatch confirmed: the run exists in the outside world. -/
def confirmDispatch (now : Time) (task : Task) (run : Run) : Outcome :=
  if run.state = .running then .ok { task, run := some run }
  else if run.state ≠ .pending then refused .runNotLive
  else .ok
    { task := { task with updatedAt := now }
      run := some { run with
        state := .running
        leaseExpiresAt := runLeaseExpiresAt now
        events := run.events ++ [{ at_ := now, to_ := .running, by_ := .dispatch }]
        updatedAt := now } }

/-- What an executor observed of its Job's startup. -/
structure StartupObservation where
  jobUid : String
  observedAt : Time
  placed : Bool
  deriving DecidableEq, Repr

/-- The claim is the one the executor negotiated, on the same runner and subject. -/
def isObservingClaimant (run : Run) (queue : RunQueue) (claimant : ExitClaimant) : Bool :=
  (claimant.claimFingerprint.any fun fingerprint => isClaimant run fingerprint) ∧
    queue.claimedBy = some claimant.runner ∧ queue.claimedBySubject = some claimant.subject

/-- Only the authenticated claiming executor can report physical placement. -/
def observeStartupPlacement (now : Time) (task : Task) (run : Run) (claimant : ExitClaimant)
    (observation : StartupObservation) : Outcome :=
  match run.queue with
  | none => refused .notClaimant
  | some queue =>
    match queue.startupPlacement with
    | none => refused .notClaimant
    | some startup =>
      if ¬isObservingClaimant run queue claimant ∨
          (startup.jobUid ≠ none ∧ startup.jobUid ≠ some observation.jobUid) then
        refused .notClaimant
      else if ¬isLive run.state then refused .runNotLive
      else if task.activeRunId ≠ some run.runId ∨ recoveryDeadlineElapsed run now then
        refused .staleLease
      else if now + 5000 < observation.observedAt ∨ 60000 < now - observation.observedAt ∨
          observation.observedAt ≤ startup.observedAt then refused .staleLease
      else if queue.firstHeartbeatAt ≠ none ∨ startup.state = .placed then
        .ok { task, run := some run }
      else .ok
        { task
          run := some { run with
            queue := some { queue with
              startupPlacement := some
                { state := if observation.placed then .placed else .waiting
                  jobUid := some observation.jobUid
                  observedAt := observation.observedAt }
              startDeadlineAt := some (if observation.placed then runStartDeadlineAt now
                else placementStartDeadlineAt now queue.claimedAt) }
            leaseExpiresAt := runLeaseExpiresAt now
            updatedAt := now } }

/-- A token-authenticated heartbeat that reports the provider process for the first time. -/
def startsProvider (run : Run) (claimFingerprint : Option String) (started : Bool) : Bool :=
  started ∧ claimFingerprint.isSome ∧
    run.queue.any fun queue => queue.state = .claimed ∧ queue.providerProcessStartedAt = none

/-- The queue record after a heartbeat. -/
def heartbeatQueue (now : Time) (claimFingerprint : Option String) (started : Bool)
    (queue : RunQueue) : RunQueue :=
  if queue.state = .claimed then
    { queue with
      firstHeartbeatAt := some (queue.firstHeartbeatAt.getD now)
      providerProcessStartedAt :=
        if started ∧ claimFingerprint.isSome ∧ queue.providerProcessStartedAt = none then some now
        else queue.providerProcessStartedAt }
  else queue

/-- A live run extends its lease by showing up. -/
def renewLease (now : Time) (task : Task) (run : Run) (claimFingerprint : Option String := none)
    (providerProcessStarted : Bool := false) : Outcome :=
  if claimFingerprint.any fun fingerprint => ¬isClaimant run fingerprint then refused .notClaimant
  else if ¬isLive run.state then refused .runNotLive
  else if task.activeRunId ≠ some run.runId then refused .staleLease
  else if startDeadlineElapsed run now then refused .staleLease
  else if claimFingerprint.isSome ∧ recoveryDeadlineElapsed run now then refused .staleLease
  else .ok
    { task
      run := some { run with
        queue := run.queue.map (heartbeatQueue now claimFingerprint providerProcessStarted)
        leaseExpiresAt := runLeaseExpiresAt now
        updatedAt := now }
      outbox := if startsProvider run claimFingerprint providerProcessStarted ∧
          (run.issue.any fun issue => issue.reference.isLinear) ∧ run.sourceRevision = none then
        [freshEntry ("issue-start/" ++ run.runId) .publishIssueStart run now] else [] }

/-- Executor observations never renew execution leases. -/
def observePlacement (now : Time) (task : Task) (run : Run) (claimant : ExitClaimant)
    (placement : RunPlacement) : Outcome :=
  match run.queue with
  | none => refused .notClaimant
  | some queue =>
    if ¬isObservingClaimant run queue claimant then refused .notClaimant
    else if ¬isLive run.state then refused .runNotLive
    else if task.activeRunId ≠ some run.runId ∨ recoveryDeadlineElapsed run now then
      refused .staleLease
    else if now < placement.observedAt ∨ 30000 < now - placement.observedAt ∨
        queue.placement.any (fun previous => placement.observedAt < previous.observedAt) then
      refused .staleLease
    else .ok
      { task, run := some { run with queue := some { queue with placement := some placement } } }

/-! ### Task-only decisions -/

/-- Close a native task that has no live run. -/
def closeTask (now : Time) (task : Option Task) (activeRun : Option Run) : Outcome :=
  match task with
  | none => refused .unknownTask
  | some task =>
    if isWorkAnchor task.task = false then refused .notNative
    else if task.closedAt.isSome then refused .taskClosed
    else match activeRun.filter fun run => isLive run.state with
      | some activeRun => refused .taskBusy (some activeRun)
      | none => .ok { task := { task with closedAt := some now, updatedAt := now } }

/-- Replaces a native task's work payload while no run is live. -/
def updateTaskWork (now : Time) (task : Option Task) (activeRun : Option Run)
    (work : WorkPayload) : Outcome :=
  match task with
  | none => refused .unknownTask
  | some task =>
    if isWorkAnchor task.task = false then refused .notNative
    else match activeRun.filter fun run => isLive run.state with
      | some activeRun => refused .taskBusy (some activeRun)
      | none => .ok { task := { task with work, updatedAt := now } }

end AgentLcars
