import AgentLcars.QueueAdmission
import AgentLcars.ProviderRouting

/-!
# The reference store

`libs/orchestrator/src/memory-store.ts`: the durable state and its atomic operations.  Every
operation reads and writes without yielding, so each is one step.  `JSON.stringify` of a pair of
strings is one-to-one, so the pair itself is the key of the request index and of the bindings.

The projections of GitHub anchors and tracker issues and the source-to-work index are left out: no
decision reads them.
-/

namespace AgentLcars

/-- The first source request under a binding and the identity it stands for. -/
structure BindingRecord where
  canonicalRequestId : String
  firstSourceRequestId : String
  deriving DecidableEq, Repr

/-- An opaque first-request binding. -/
structure RequestBinding where
  bindingKey : String
  canonicalRequestId : String
  deriving DecidableEq, Repr

/-- The durable state. -/
structure Store where
  tasks : OrderedMap String VersionedTask
  providerCooldowns : OrderedMap String ProviderCooldown
  priorityPositions : OrderedMap String Nat
  runs : OrderedMap String Run
  sourceRevisions : OrderedMap String WorkRevision
  requestRuns : OrderedMap (String × String) String
  requestBindings : OrderedMap (String × String) BindingRecord
  outbox : OrderedMap String OutboxEntry

namespace Store

/-- The empty store. -/
def empty : Store :=
  { tasks := .empty, providerCooldowns := .empty, priorityPositions := .empty, runs := .empty
    sourceRevisions := .empty, requestRuns := .empty, requestBindings := .empty, outbox := .empty }

/-- The request-index key of a task's request. -/
def requestKey (id : TaskId) (source : RequestSource) (requestId : String) : String × String :=
  (taskKey id, requestHistoryKey source requestId)

/-- The key of a source revision's admission receipt. -/
def revisionKey (key : String) (revision : WorkRevision) : String := key ++ ":" ++ revision.key

/-! ### Applying a decision -/

/-- Write a run and its entry in the request index. -/
def putRun (s : Store) (run : Run) : Store :=
  { s with
    runs := s.runs.set run.runId run
    requestRuns := s.requestRuns.set (requestKey run.task run.requestSource run.requestId)
      run.runId }

/-- Record the cooldown a written run stands for. -/
def noteCooldown (s : Store) (run : Run) : Store :=
  match providerCooldownForRun run with
  | some cooldown =>
    { s with providerCooldowns := s.providerCooldowns.set cooldown.pipeline cooldown }
  | none => s

/-- Write an outbox entry. -/
def putEntry (s : Store) (entry : OutboxEntry) : Store :=
  { s with outbox := s.outbox.set entry.entryId entry }

/-- Write everything a decision holds, with the next task revision. -/
def commit (s : Store) (decision : Decision) (revision : Nat) : Store :=
  let s := { s with
    tasks := s.tasks.set (taskKey decision.task.task) { task := decision.task, revision } }
  let s := decision.writes.foldl putRun s
  let s := decision.writes.foldl noteCooldown s
  decision.outbox.foldl putEntry s

/-- `#apply`: commit if the task is at the expected revision; `none` is a `StoreConflict`. -/
def apply (s : Store) (decision : Decision) (expectedRevision : Option Nat) : Option Store :=
  if (s.tasks.get (taskKey decision.task.task)).map (·.revision) = expectedRevision then
    some (s.commit decision (expectedRevision.getD 0 + 1))
  else none

/-! ### Request transactions -/

/-- The single consistent snapshot supplied to a request transaction. -/
structure RequestTransactionState where
  task : Option VersionedTask
  activeRun : Option Run
  requestId : String
  previousRun : Option Run
  previousSourceRevision : Option WorkRevision
  latestRun : Option Run
  retainedClaims : Option (List Run)

/-- Fail closed rather than omit an owner from label routing. -/
def PROVIDER_ROUTING_CLAIM_READ_LIMIT : Nat := 1000

/-- Resolve the request id under its binding, and the record a first request leaves. -/
def resolveRequestBinding (requestId : String) (binding : Option RequestBinding)
    (current : Option BindingRecord) : Except Stop (String × Option BindingRecord) :=
  match binding, current with
  | none, _ => .ok (requestId, none)
  | some binding, none =>
    .ok (binding.canonicalRequestId,
      some { canonicalRequestId := binding.canonicalRequestId
             firstSourceRequestId := requestId })
  | some binding, some current =>
    if current.canonicalRequestId ≠ binding.canonicalRequestId then
      .error (.threw "request binding canonical identity mismatch")
    else
      .ok (if current.firstSourceRequestId = requestId then binding.canonicalRequestId
        else requestId, none)

/-- What a request transaction is asked to read. -/
structure RequestRead where
  taskId : TaskId
  requestId : String
  requestSource : RequestSource
  requestBinding : Option RequestBinding
  readProviderRouting : Bool
  sourceRevision : Option WorkRevision

/-- The task's current lock holder. -/
def activeRun (s : Store) (task : Option VersionedTask) : Option Run :=
  (task.bind (·.task.activeRunId)).bind s.runs.get

/-- `listRuns`: the runs of a task, in insertion order. -/
def listRuns (s : Store) (id : TaskId) : List Run :=
  s.runs.values.filter fun run => taskKey run.task = taskKey id

/-- The claimed runs of a task. -/
def claimedCandidates (s : Store) (key : String) : List Run :=
  s.runs.values.filter fun run => taskKey run.task = key ∧ run.queueState = some .claimed

/-- The snapshot of a request transaction, for the resolved request id. -/
def requestState (s : Store) (read : RequestRead) (requestId : String) : RequestTransactionState :=
  let key := taskKey read.taskId
  let task := s.tasks.get key
  { task
    activeRun := s.activeRun task
    requestId
    previousRun := (s.requestRuns.get
      (requestKey read.taskId read.requestSource requestId)).bind s.runs.get
    previousSourceRevision := read.sourceRevision.bind fun revision =>
      s.sourceRevisions.get (revisionKey key revision)
    latestRun := if read.readProviderRouting then
      task.bind fun task => s.runs.get (runIdOf key task.task.runCount) else none
    retainedClaims := if read.readProviderRouting then
        task.bind fun _ =>
          let claimed := s.claimedCandidates key
          if claimed.length ≤ PROVIDER_ROUTING_CLAIM_READ_LIMIT then
            some (claimed.filter retainsPhysicalClaim) else none
      else none }

/-- Record the first source request under a binding. -/
def noteBinding (s : Store) (read : RequestRead) (next : Option BindingRecord) : Store :=
  match read.requestBinding, next with
  | some binding, some record =>
    { s with
      requestBindings := s.requestBindings.set (taskKey read.taskId, binding.bindingKey) record }
  | _, _ => s

/-- The receipt of a revision that became the desired one. -/
def noteRevision (s : Store) (read : RequestRead) (previous : Option WorkRevision)
    (decision : Decision) : Store :=
  match read.sourceRevision with
  | some revision =>
    if previous = none ∧ decision.task.desiredRevision.map (·.key) = some revision.key then
      { s with
        sourceRevisions :=
          s.sourceRevisions.set (revisionKey (taskKey read.taskId) revision) revision }
    else s
  | none => s

/-- `transactRequest`: decide on one consistent snapshot and commit. -/
def transactRequest (s : Store) (read : RequestRead) (decide : RequestTransactionState → Outcome) :
    Outcome × Store :=
  let current := read.requestBinding.bind fun binding =>
    s.requestBindings.get (taskKey read.taskId, binding.bindingKey)
  match resolveRequestBinding read.requestId read.requestBinding current with
  | .error stop => (.error stop, s)
  | .ok (requestId, nextBinding) =>
    let state := s.requestState read requestId
    match decide state with
    | .error (.threw message) => (.error (.threw message), s)
    | .error (.refusal refusal) => (.error (.refusal refusal), s.noteBinding read nextBinding)
    | .ok decision =>
      let s := s.noteBinding read nextBinding
      match s.apply decision (state.task.map (·.revision)) with
      | none => (.error (.threw "Concurrent update to task"), s)
      | some s => (.ok decision, s.noteRevision read state.previousSourceRevision decision)

/-! ### Run transactions -/

/-- The snapshot supplied to a run transaction. -/
structure RunTransactionState where
  task : Option VersionedTask
  run : Option Run
  queueEligibility : Option QueueEligibilitySnapshot

/-- The eligibility inventory of the given pipelines. -/
def queueEligibility (s : Store) (pipelines : List String) : QueueEligibilitySnapshot :=
  { cooldowns := pipelines.map fun pipeline => (pipeline, s.providerCooldowns.get pipeline)
    liveRuns := s.runs.values.filter fun run => run.pipeline ∈ pipelines }

/-- The task of a run, as a run transaction reads it. -/
def taskOf (s : Store) (run : Option Run) : Option VersionedTask :=
  run.bind fun run => s.tasks.get (taskKey run.task)

/-- The snapshot of a run transaction. -/
def runState (s : Store) (runId : String) (queueEligibilityPipelines : Option (List String))
    (shouldReadQueueEligibility : Option VersionedTask → Option Run → Bool) : RunTransactionState :=
  let run := s.runs.get runId
  let task := s.taskOf run
  { task, run
    queueEligibility := queueEligibilityPipelines.bind fun pipelines =>
      if shouldReadQueueEligibility task run then some (s.queueEligibility pipelines) else none }

/-- `transactRun`: decide on a run and its task and commit. -/
def transactRun (s : Store) (runId : String) (queueEligibilityPipelines : Option (List String))
    (shouldReadQueueEligibility : Option VersionedTask → Option Run → Bool)
    (decide : RunTransactionState → Outcome) : Outcome × Store :=
  let state := s.runState runId queueEligibilityPipelines shouldReadQueueEligibility
  match decide state with
  | .error stop => (.error stop, s)
  | .ok decision =>
    match s.apply decision (state.task.map (·.revision)) with
    | none => (.error (.threw "Concurrent update to task"), s)
    | some s => (.ok decision, s)

/-! ### The queue -/

/-- `enqueueRun`: idempotent. -/
def enqueueRun (s : Store) (runId : String) (now : Time) : Store :=
  match s.runs.get runId with
  | none => s
  | some run =>
    if run.queue.isSome then s
    else
      { s with
        runs := s.runs.set runId
          { run with queue := some { state := .queued }, updatedAt := now } }

/-- The candidate a claim on the given pipelines would take. -/
def claimCandidate (s : Store) (pipelines : List String) (now : Time) : Option Run :=
  let eligible := pipelines.filter fun pipeline =>
    ¬providerIsCoolingDown (s.providerCooldowns.get pipeline) now
  selectFairQueuedRun s.runs.values s.runs.values eligible (some now) s.priorityPositions

/-- `claimQueuedRun`: claim a provider-fair queued run and advance its class turn. -/
def claimQueuedRun (s : Store) (pipelines : List String) (input : ClaimInput) :
    Option Run × Store :=
  match s.claimCandidate pipelines input.now with
  | none => (none, s)
  | some candidate =>
    let claimed := AgentLcars.claimQueuedRun candidate input
    (some claimed,
      { s with
        runs := s.runs.set candidate.runId claimed
        priorityPositions := s.priorityPositions.set candidate.pipeline
          (queuePriorityTurnAfter ((s.priorityPositions.get candidate.pipeline).getD 0)
            candidate.priority) })

/-- `releaseQueuedRunClaim`: only the exact claimant returns a live claim to the queue. -/
def releaseQueuedRunClaim (s : Store) (runId claimedBy tokenHash : String) (now : Time)
    (deferredUntil : Option Time) : Bool × Store :=
  match s.runs.get runId with
  | none => (false, s)
  | some run =>
    if ¬isLive run.state ∨ run.credentialOperation.isSome ∨ ¬isClaimant run tokenHash ∨
        run.queue.bind (·.claimedBy) ≠ some claimedBy then (false, s)
    else (true,
      { s with
        runs := s.runs.set run.runId
          { run with queue := some { state := .queued, deferredUntil }, updatedAt := now } })

/-! ### The outbox -/

/-- Claim order of due entries: never-handed ones first, then the oldest. -/
def byOutboxClaimFairness (a b : OutboxEntry) : Bool :=
  a.attempts < b.attempts ∨ (a.attempts = b.attempts ∧ a.createdAt ≤ b.createdAt)

/-- An entry whose lease has run out. -/
def leaseExpired (entry : OutboxEntry) (now : Time) : Bool :=
  match entry.state with
  | .leased _ leaseExpiresAt => leaseExpiresAt ≤ now
  | _ => false

/-- A pending entry that may be handed out. -/
def isDue (entry : OutboxEntry) (now : Time) (excluded : List String) : Bool :=
  entry.state = .pending ∧ entry.entryId ∉ excluded ∧
    entry.nextAttemptAt.all fun nextAttemptAt => nextAttemptAt ≤ now

/-- Hand an entry to a worker. -/
def leaseEntry (entry : OutboxEntry) (claimId : String) (leaseExpiresAt now : Time) : OutboxEntry :=
  { entry with
    state := .leased claimId leaseExpiresAt, attempts := entry.attempts + 1, updatedAt := now }

/-- The entries a claim would hand out: expired leases, then due entries in fairness order. -/
def claimableOutbox (s : Store) (limit : Nat) (now : Time) (excluded : List String) :
    List OutboxEntry :=
  let entries := s.outbox.values
  (entries.filter (fun entry => leaseExpired entry now) ++
    (entries.filter fun entry => isDue entry now excluded).insertionSort
      (fun a b => byOutboxClaimFairness a b)).take limit

/-- `claimPendingOutbox`; each handed entry takes the next of the fresh claim ids. -/
def claimPendingOutbox (s : Store) (limit : Nat) (now leaseExpiresAt : Time)
    (excluded : List String) (claimIds : Nat → String) : Store :=
  ((s.claimableOutbox limit now excluded).zipIdx).foldl
    (fun s (entry, i) => s.putEntry (leaseEntry entry (claimIds i) leaseExpiresAt now)) s

/-- The leased entries a claim returns. -/
def claimedOutbox (s : Store) (limit : Nat) (now leaseExpiresAt : Time) (excluded : List String)
    (claimIds : Nat → String) : List OutboxEntry :=
  (s.claimableOutbox limit now excluded).zipIdx.map fun (entry, i) =>
    leaseEntry entry (claimIds i) leaseExpiresAt now

/-- Whether a settlement succeeds. -/
def settlesOutbox (s : Store) (input : OutboxSettlement) : Bool :=
  ((s.outbox.get input.entryId).bind fun entry => settleOutboxEntry entry input).isSome

/-- `settleOutbox`. -/
def settleOutbox (s : Store) (input : OutboxSettlement) : Store :=
  match (s.outbox.get input.entryId).bind fun entry => settleOutboxEntry entry input with
  | none => s
  | some entry => { s with outbox := s.outbox.set input.entryId entry }

/-- `wakeOutbox`. -/
def wakeOutbox (s : Store) (entryId : String) (now : Time) : Store :=
  match (s.outbox.get entryId).bind fun entry => wakeOutboxEntry entry now with
  | none => s
  | some entry => { s with outbox := s.outbox.set entryId entry }

end Store

end AgentLcars
