import AgentLcars.MemoryStore
import AgentLcars.CredentialOperation
import AgentLcars.ProviderFallback
import AgentLcars.Delivery

/-!
# The orchestrator

`libs/orchestrator/src/orchestrator.ts`, with the two store transactions the console adds to it
(`codex-credential-operations.ts` and `recordTriagePublication` of `fleet-triage-work.ts`).  The
decision layer is pure; this is the only place where storage and time meet it.

* `Orchestrator.request` decides inside one request transaction.
* The operations of `RunOp` go through `transactOnRun`, which leaves a cleanup operation on every
  claimed Codex run it settles.
* The operations of `DirectOp` decide inside a plain run transaction.
* `close`, `updateWork` and `refreshIssue` read the task, read its active run, decide, and compare
  and set; they are the `TaskOp`s of `AgentLcars.System`.

`issue` and `sourceRevision` inputs range over the values their schemas accept: a rejected value
throws before anything is read.  Clocks, random ids, the callbacks of a request and the fallback
authority are arguments, so every result holds for all of them.
-/

namespace AgentLcars

/-! ### Requests -/

/-- `RequestInput`. -/
structure RequestInput where
  taskId : TaskId
  requestId : String
  requestSource : Option RequestSource := none
  pipeline : String
  priority : Option QueuePriority := none
  params : Option Params := none
  intervention : Option OperationalIntervention := none
  work : Option WorkPayload := none
  issue : Option TrackerIssue := none
  sourceRevision : Option WorkRevision := none
  providerFallback : Option ProviderFallbackRequest := none
  providerFallbackForPipeline : Option (String → Option ProviderFallbackRequest) := none
  requestBinding : Option RequestBinding := none
  replaceQueuedRunId : Option String := none
  labelProviderRequest : Option LabelIntent := none
  pipelineForStoredTask : Option (Task → String) := none
  useEffectivePipeline : Bool := false
  expectedEffectivePipeline : Option String := none
  isPipelineAuthorized : Option (String → Bool) := none
  isStoredWorkCompatible : Option (WorkPayload → Task → Bool) := none

/-- The pipeline the stored task was admitted with, or last handed to by a label. -/
def RequestInput.admittedPipeline (input : RequestInput) (task : Option VersionedTask) : String :=
  let stored := (task.bind fun task => input.pipelineForStoredTask.map fun f => f task.task).getD
    input.pipeline
  (((task.bind (·.task.providerRouting)).bind (·.acceptedGeneration)).map (·.pipeline)).getD stored

/-- The pipeline a request runs on. -/
def RequestInput.effectivePipeline (input : RequestInput) (task : Option VersionedTask) : String :=
  if input.useEffectivePipeline then input.admittedPipeline task else input.pipeline

/-- What the transaction reads for a request. -/
def RequestInput.read (input : RequestInput) : Store.RequestRead :=
  { taskId := input.taskId
    requestId := input.requestId
    requestSource := input.requestSource.getD .caller
    requestBinding := input.requestBinding
    readProviderRouting := input.labelProviderRequest.isSome ∨ input.useEffectivePipeline
    sourceRevision := input.sourceRevision }

/-- The arguments every form of a request shares. -/
def RequestInput.args (input : RequestInput) (now : Time) (state : Store.RequestTransactionState) :
    RequestRunInput :=
  let pipeline := input.effectivePipeline state.task
  let fallback := match input.providerFallbackForPipeline with
    | none => input.providerFallback
    | some f => f pipeline
  { now
    task := state.task.map (·.task)
    taskId := input.taskId
    activeRun := state.activeRun
    requestId := state.requestId
    requestSource := some (input.requestSource.getD .caller)
    pipeline
    priority := input.priority.or (if input.replaceQueuedRunId.any (· ≠ "") then
      state.activeRun.map (·.priority) else none)
    params := input.params
    intervention := input.intervention
    work := input.work
    issue := input.issue.map some
    providerFallback := fallback.map .request }

/-- Replace only this exact unclaimed queue attempt when changing provider. -/
def replaceQueuedRun (args : RequestRunInput) (pipeline replaced : String) : Outcome :=
  match args.task, args.activeRun with
  | some task, some activeRun =>
    if activeRun.runId ≠ replaced then refused .staleLease
    else if activeRun.queueState = some .claimed then refused .runAlreadyClaimed
    else if activeRun.queueState ≠ some .queued ∨ activeRun.pipeline = pipeline then
      refused .taskBusy
    else do
      let canceled ← cancelRun args.now task activeRun
        (some ("queued provider switch to " ++ pipeline))
      let replacement ← requestRun { args with task := some canceled.task, activeRun := none }
      let canceledRun ← decidedRun canceled
      return { replacement with
        additionalRuns := [canceledRun]
        outbox := canceled.outbox ++ replacement.outbox }
  | _, _ => refused .staleLease

/-- A request that passed the history checks. -/
def admitRequest (input : RequestInput) (now : Time) (state : Store.RequestTransactionState) :
    Outcome :=
  let args := input.args now state
  match input.labelProviderRequest with
  | some label => decideLabelProviderRequest
      { request := args, admittedPipeline := input.admittedPipeline state.task, label
        latestRun := state.latestRun, retainedClaims := state.retainedClaims }
  | none => match input.replaceQueuedRunId with
    | some replaced => replaceQueuedRun args input.pipeline replaced
    | none => match input.sourceRevision with
      | none => requestRun args
      | some revision => requestRevisionRun args revision

/-- The decision of a request.  The historical check precedes the live mutex, so a retry remains
a duplicate even after its original run settled and a newer request took the lock. -/
def decideRequest (input : RequestInput) (now : Time) (state : Store.RequestTransactionState) :
    Outcome :=
  if state.task.any fun task => input.isStoredWorkCompatible.any fun f =>
      ¬f task.task.work task.task then refused .workSpecMismatch
  else match state.previousSourceRevision with
    | some previous =>
      if some previous ≠ input.sourceRevision then refused .workSpecMismatch
      else refused .duplicateRequest state.previousRun
    | none =>
      let pipeline := input.effectivePipeline state.task
      if input.expectedEffectivePipeline.any (· ≠ pipeline) then refused .workSpecMismatch
      else if input.isPipelineAuthorized.any fun f =>
          ¬f ((state.previousRun.map (·.pipeline)).getD pipeline) then refused .pipelineForbidden
      else match state.previousRun with
        | some previous => refused .duplicateRequest (some previous)
        | none => admitRequest input now state

/-- `Orchestrator.request`. -/
def Orchestrator.request (s : Store) (now : Time) (input : RequestInput) : Outcome × Store :=
  if input.sourceRevision.any fun revision => revision.key ≠ input.requestId then
    (.error (.threw "revision/request mismatch"), s)
  else s.transactRequest input.read (decideRequest input now)

/-! ### Operations on a run -/

/-- Server-known providers and the current authority of a run's principal. -/
structure ProviderFallbackAuthority where
  pipelines : List String
  allowedPipelines : Task → Run → List String

/-- The run as a report with this result would settle it opens a cooldown. -/
def opensCooldown (run : Run) (result : RunResult) (now : Time) : Bool :=
  (providerCooldownForRun { run with
    state := .finished, result := some result, updatedAt := now }).isSome

/-- The pipelines a fallback may use now, from the inventory if it was read. -/
def ProviderFallbackAuthority.available (authority : ProviderFallbackAuthority)
    (eligibility : Option QueueEligibilitySnapshot) (now : Time) : List String :=
  match eligibility with
  | none => []
  | some snapshot => availableQueuePipelines authority.pipelines snapshot now

/-- An operation that settles through `transactOnRun`. -/
inductive RunOp where
  | confirmDispatch
  | observeStartupPlacement (claimant : ExitClaimant) (observation : StartupObservation)
  | renew (claimFingerprint : Option String) (providerProcessStarted : Bool)
  | observePlacement (claimant : ExitClaimant) (placement : RunPlacement)
  | observeDelivery (observation : DeliveryObservation) (authorize : Task → Run → Bool)
  | report (authority : Option ProviderFallbackAuthority) (result : RunResult)
      (claimFingerprint : Option String) (delivery : Option DeliveryBinding) (publishTriage : Bool)
  | cancel (note : Option String) (nativeTask : Option String)
      (intervention : Option OperationalIntervention)
  | invalidateSource (observedAt : List (String × String))
  | sweepExpired
  | executorExited (claimant : ExitClaimant)

/-- The run a report settles: with its validated delivery and publication bound to it. -/
def reportedRun (run : Run) (result : RunResult) (delivery : Option DeliveryBinding)
    (publishTriage : Bool) : Run :=
  { run with
    delivery := delivery.or run.delivery
    triagePublication := if publishTriage ∧ result.ok then some ⟨.pending⟩
      else run.triagePublication }

/-- A ready handoff that is not this run's, or not for its bound head. -/
def staleDelivery (run : Run) (result : RunResult) (delivery : Option DeliveryBinding) : Bool :=
  delivery.any fun delivery => delivery.runId ≠ run.runId ∨ ¬result.ok ∨
    run.delivery.any fun bound => bound.head ≠ delivery.head

/-- `Orchestrator.report` without fallback. -/
def plainReport (now : Time) (task : Task) (run : Run) (result : RunResult)
    (claimFingerprint : Option String) (delivery : Option DeliveryBinding) (publishTriage : Bool) :
    Outcome :=
  if staleDelivery run result delivery then refused .staleLease
  else reportResult now task (reportedRun run result delivery publishTriage) result
    claimFingerprint

/-- The callback of each operation. -/
def RunOp.decide (op : RunOp) (now : Time) (task : Task) (run : Run)
    (eligibility : Option QueueEligibilitySnapshot) : Outcome :=
  match op with
  | .confirmDispatch => AgentLcars.confirmDispatch now task run
  | .observeStartupPlacement claimant observation =>
    AgentLcars.observeStartupPlacement now task run claimant observation
  | .renew claimFingerprint providerProcessStarted =>
    renewLease now task run claimFingerprint providerProcessStarted
  | .observePlacement claimant placement =>
    AgentLcars.observePlacement now task run claimant placement
  | .observeDelivery observation authorize =>
    advanceDelivery now task run observation (authorize task run)
  | .report authority result claimFingerprint delivery publishTriage =>
    match authority with
    | some authority =>
      if result.ok = false then
        reportResultWithFallback now task run result claimFingerprint
          (authority.allowedPipelines task run) (authority.available eligibility now)
      else plainReport now task run result claimFingerprint delivery publishTriage
    | none => plainReport now task run result claimFingerprint delivery publishTriage
  | .cancel note nativeTask intervention => cancelRun now task run note intervention nativeTask
  | .invalidateSource observedAt => invalidateSourceRevision now task run observedAt
  | .sweepExpired => expireLeaseAndRetry now task run
  | .executorExited claimant => executorExitedAndRetry now task run claimant

/-- The pipelines whose inventory the operation asks for. -/
def RunOp.eligibilityPipelines : RunOp → Option (List String)
  | .report (some authority) result _ _ _ =>
    if result.ok = false then some authority.pipelines else none
  | _ => none

/-- Only a report that can open a cooldown and has an alternative reads global inventory. -/
def RunOp.shouldReadQueueEligibility (op : RunOp) (now : Time) (task : Option VersionedTask)
    (run : Option Run) : Bool :=
  match op, task, run with
  | .report (some authority) result _ _ _, some task, some run =>
    task.task.activeRunId = some run.runId ∧ isLive run.state ∧ run.providerFallback.isSome ∧
      opensCooldown run result now ∧
      (selectFallbackPipeline run (authority.allowedPipelines task.task run)
        authority.pipelines).isSome
  | _, _, _ => false

/-- Every accepted claimed-Codex terminal transition retains exact server cleanup authority. -/
def attachCleanup (run : Run) (cleanupId : String) (decision : Decision) : Outcome :=
  match decision.run, run.tokenHash with
  | some settled, some tokenHash =>
    if ¬isLive run.state ∨ isLive settled.state ∨ ¬usesCodexCredentials run ∨
        run.queueState ≠ some .claimed ∨ settled.credentialOperation.isSome then .ok decision
    else do
      let cleanup ← reserveCredentialOperation settled.updatedAt decision.task settled tokenHash
        cleanupId .cleanup
      return { decision with run := cleanup.run }
  | _, _ => .ok decision

/-- The decision of `transactOnRun`. -/
def decideOnRun (op : RunOp) (now : Time) (cleanupId : String)
    (state : Store.RunTransactionState) : Outcome :=
  match state.task, state.run with
  | some task, some run => do
    let decision ← op.decide now task.task run state.queueEligibility
    attachCleanup run cleanupId decision
  | _, _ => refused .unknownRun

/-- `transactOnRun`. -/
def Orchestrator.onRun (s : Store) (runId : String) (now : Time) (cleanupId : String)
    (op : RunOp) : Outcome × Store :=
  s.transactRun runId op.eligibilityPipelines (op.shouldReadQueueEligibility now)
    (decideOnRun op now cleanupId)

/-! ### Plain run transactions -/

/-- An operation decided inside a plain run transaction. -/
inductive DirectOp where
  | finishCredentialOperation (authority : Option ProviderFallbackAuthority)
      (operationId claimFingerprint : String) (restored : Bool) (leaseRetiredAtSequence : Option Nat)
  | rerouteQueued (authority : ProviderFallbackAuthority) (executorPipelines : Option (List String))
  | cancelUnclaimedBefore (notAfter : Time) (note : Option String) (issue : Option TrackerIssue)
  | reserveCredentialOperation (claimFingerprint id : String) (kind : CredentialKind)
  | changeCredentialOperation (id claimFingerprint : String) (change : CredentialChange)
  | recordTriagePublication (state : Option PublicationState)

/-- Positive lease resolution and deferred fallback settlement commit together. -/
def finishWithFallback (authority : Option ProviderFallbackAuthority) (operationId : String)
    (claimFingerprint : String) (restored : Bool) (leaseRetiredAtSequence : Option Nat) (now : Time)
    (task : Task) (run : Run) (eligibility : Option QueueEligibilitySnapshot) : Outcome := do
  let outcome ← AgentLcars.changeCredentialOperation now task run operationId claimFingerprint
    (.finish restored leaseRetiredAtSequence)
  match authority with
  | none => .ok outcome
  | some authority =>
    if run.credentialPendingResult = none then .ok outcome
    else
      settleProviderFallback now outcome (authority.allowedPipelines task run)
        (authority.available eligibility now)

/-- The closed issue a cancellation names is the one the task still has. -/
def sameClosedIssue (task : Task) (issue : TrackerIssue) : Bool :=
  task.issue.any fun current => current.state = .closed ∧ current.updatedAt = issue.updatedAt ∧
    issueSourceKey current.reference = issueSourceKey issue.reference

/-- Cancel only while unclaimed and not newer than the lifecycle event. -/
def cancelUnclaimed (notAfter : Time) (note : Option String) (issue : Option TrackerIssue)
    (now : Time) (task : Task) (run : Run) : Outcome :=
  if issue.any fun issue => ¬sameClosedIssue task issue then refused .staleIssueSource
  else if run.queueState = some .claimed then refused .runAlreadyClaimed
  else if notAfter < run.createdAt then refused .runNewerThanCutoff
  else cancelRun now task run note

/-- Receipt mutations never replace a later terminal publication state. -/
def publishTriage (state : Option PublicationState) (now : Time) (task : Task) (run : Run) :
    Outcome :=
  match run.triagePublication with
  | none => refused .unknownRun
  | some publication =>
    if publication.state ≠ .pending then .ok { task, run := some run }
    else
      let stale := task.desiredRevision.map (·.key) ≠ run.sourceRevision.map (·.key)
      .ok
        { task
          run := some { run with
            triagePublication := some
              ⟨if stale then .superseded else state.getD publication.state⟩
            updatedAt := now } }

/-- The callback of each operation. -/
def DirectOp.decide (op : DirectOp) (now : Time) (task : Task) (run : Run)
    (eligibility : Option QueueEligibilitySnapshot) : Outcome :=
  match op with
  | .finishCredentialOperation authority operationId claimFingerprint restored sequence =>
    finishWithFallback authority operationId claimFingerprint restored sequence now task run
      eligibility
  | .rerouteQueued authority executorPipelines =>
    match eligibility with
    | none => refused .unknownRun
    | some snapshot =>
      rerouteQueuedRun now task run (snapshot.cooldown run.pipeline)
        ((authority.allowedPipelines task run).filter fun pipeline =>
          pipeline ∈ executorPipelines.getD authority.pipelines)
        (availableQueuePipelines authority.pipelines snapshot now)
  | .cancelUnclaimedBefore notAfter note issue => cancelUnclaimed notAfter note issue now task run
  | .reserveCredentialOperation claimFingerprint id kind =>
    AgentLcars.reserveCredentialOperation now task run claimFingerprint id kind
  | .changeCredentialOperation id claimFingerprint change =>
    AgentLcars.changeCredentialOperation now task run id claimFingerprint change
  | .recordTriagePublication state => publishTriage state now task run

/-- The pipelines whose inventory the operation asks for. -/
def DirectOp.eligibilityPipelines : DirectOp → Option (List String)
  | .finishCredentialOperation (some authority) _ _ _ _ => some authority.pipelines
  | .rerouteQueued authority _ => some authority.pipelines
  | _ => none

/-- A finish reads global inventory only for a deferred result that can fall back. -/
def DirectOp.shouldReadQueueEligibility (op : DirectOp) (now : Time) (task : Option VersionedTask)
    (run : Option Run) : Bool :=
  match op, task, run with
  | .finishCredentialOperation (some authority) _ _ _ _, some task, some run =>
    task.task.activeRunId = some run.runId ∧
      (run.credentialPendingResult.any fun pending => opensCooldown run pending.result now) ∧
      (selectFallbackPipeline run (authority.allowedPipelines task.task run)
        authority.pipelines).isSome
  | .rerouteQueued _ _, _, _ => true
  | _, _, _ => false

/-- The decision of a plain run transaction. -/
def decideDirect (op : DirectOp) (now : Time) (state : Store.RunTransactionState) : Outcome :=
  match state.task, state.run with
  | some task, some run => op.decide now task.task run state.queueEligibility
  | _, _ => refused .unknownRun

/-- A plain run transaction. -/
def Orchestrator.direct (s : Store) (runId : String) (now : Time) (op : DirectOp) :
    Outcome × Store :=
  s.transactRun runId op.eligibilityPipelines (op.shouldReadQueueEligibility now)
    (decideDirect op now)

end AgentLcars
