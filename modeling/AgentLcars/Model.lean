import Mathlib.Algebra.Ring.Nat
import Mathlib.Data.Option.Basic
import Mathlib.Data.List.Basic

/-!
# The orchestrator's data model

`libs/orchestrator/src/model.ts`, with the parts of `dispatch-contracts` it stores.  The
orchestrator is a durable per-task mutex with an audit trail: a *task* is a GitHub issue or a
native work item someone wants worked, a *run* is one execution of it, and an *outbox entry* is
an effect that must survive the transaction that decided it.

* Timestamps are ISO UTC strings written by `Date.prototype.toISOString`; they are the integers
  `Date.parse` reads back from them (milliseconds), on which the string order of the source agrees
  with the order of the instants.  The clocks an issue source reports about itself
  (`WorkRevision.observedAt`) are compared as strings by the source and stay strings.
* An optional property is an `Option`; a record whose key order the source observes through
  `JSON.stringify` is an association list in that order.
* Fields that no modelled function reads or writes are left out: the presentation fields of a
  tracker issue, the receipts of a triage publication other than its state, the retired counter
  `schedulerDisruptions`, and the historical `successorRunId` of a label request.
-/

namespace AgentLcars

/-- An instant, in milliseconds. -/
abbrev Time := Int

/-- A JSON value as `JSON.stringify` sees it: object fields in insertion order, numbers by the
text they are rendered as. -/
inductive Json where
  | null
  | bool (value : Bool)
  | num (literal : String)
  | str (value : String)
  | arr (items : List Json)
  | obj (fields : List (String × Json))
  deriving Repr

namespace Json

mutual

/-- Two values have the same rendering exactly when they are equal as ordered trees. -/
def decEq : (a b : Json) → Decidable (a = b)
  | .null, .null => isTrue rfl
  | .bool a, .bool b => decidable_of_iff (a = b) (by simp)
  | .num a, .num b => decidable_of_iff (a = b) (by simp)
  | .str a, .str b => decidable_of_iff (a = b) (by simp)
  | .arr as, .arr bs => match decEqItems as bs with
    | isTrue h => isTrue (by rw [h])
    | isFalse h => isFalse (by simpa using h)
  | .obj as, .obj bs => match decEqFields as bs with
    | isTrue h => isTrue (by rw [h])
    | isFalse h => isFalse (by simpa using h)
  | .null, .bool _ | .null, .num _ | .null, .str _ | .null, .arr _ | .null, .obj _
  | .bool _, .null | .bool _, .num _ | .bool _, .str _ | .bool _, .arr _ | .bool _, .obj _
  | .num _, .null | .num _, .bool _ | .num _, .str _ | .num _, .arr _ | .num _, .obj _
  | .str _, .null | .str _, .bool _ | .str _, .num _ | .str _, .arr _ | .str _, .obj _
  | .arr _, .null | .arr _, .bool _ | .arr _, .num _ | .arr _, .str _ | .arr _, .obj _
  | .obj _, .null | .obj _, .bool _ | .obj _, .num _ | .obj _, .str _ | .obj _, .arr _ =>
    isFalse (by simp)

/-- Item by item. -/
def decEqItems : (as bs : List Json) → Decidable (as = bs)
  | [], [] => isTrue rfl
  | a :: as, b :: bs => match decEq a b, decEqItems as bs with
    | isTrue h, isTrue hs => isTrue (by rw [h, hs])
    | isFalse h, _ => isFalse (by simp [h])
    | _, isFalse hs => isFalse (by simp [hs])
  | [], _ :: _ | _ :: _, [] => isFalse (by simp)

/-- Field by field, in order. -/
def decEqFields : (as bs : List (String × Json)) → Decidable (as = bs)
  | [], [] => isTrue rfl
  | (k, a) :: as, (l, b) :: bs => match decEq a b, decEqFields as bs with
    | isTrue h, isTrue hs => decidable_of_iff (k = l) (by simp [h, hs])
    | isFalse h, _ => isFalse (by simp [h])
    | _, isFalse hs => isFalse (by simp [hs])
  | [], _ :: _ | _ :: _, [] => isFalse (by simp)

end

instance : DecidableEq Json := decEq

end Json

/-- `Record<string, unknown>`: a work payload, stored and never interpreted. -/
abbrev WorkPayload := List (String × Json)

/-! ### Tasks and their identity -/

/-- Where the work lives: a GitHub issue or pull request, or a native work item. -/
inductive TaskId where
  | github (repo : String) (issue : Nat)
  | work (workId : String)
  deriving DecidableEq, Repr

/-- Native anchors carry a `workId`. -/
def isWorkAnchor : TaskId → Bool
  | .github _ _ => false
  | .work _ => true

/-- `repo#issue` for GitHub anchors and `work:<ulid>` for native ones. -/
def taskKey : TaskId → String
  | .github repo issue => repo ++ "#" ++ toString issue
  | .work workId => "work:" ++ workId

/-- The id `mintRun` gives the `n`-th run of a task. -/
def runIdOf (key : String) (n : Nat) : String := key ++ "/r" ++ toString n

/-- A run's lifecycle. -/
inductive RunState where
  | pending
  | running
  | finished
  | canceled
  | lost
  deriving DecidableEq, Repr

/-- The live states hold the task's lock. -/
def isLive : RunState → Bool
  | .pending | .running => true
  | .finished | .canceled | .lost => false

/-- Queue classes, `dispatch-contracts/src/priority.ts`. -/
inductive QueuePriority where
  | urgent
  | normal
  | background
  deriving DecidableEq, Repr

/-- Who owns a request id: an outside caller, or one of the orchestrator's own successors. -/
inductive RequestSource where
  | caller
  | autoRetry
  | providerFallback
  | deliveryCorrection
  deriving DecidableEq, Repr

/-- The source as the schema spells it. -/
def RequestSource.text : RequestSource → String
  | .caller => "caller"
  | .autoRetry => "auto-retry"
  | .providerFallback => "provider-fallback"
  | .deliveryCorrection => "delivery-correction"

/-- The durable idempotency identity of a request. -/
def requestHistoryKey (source : RequestSource) (requestId : String) : String :=
  source.text ++ ":" ++ requestId

/-! ### Tracker issues -/

/-- `issueReferenceSchema`, `dispatch-contracts/src/issue-tracker.ts`. -/
inductive IssueReference where
  | github (repo : String) (issue : Nat)
  | linear (organizationId issueId : String)
  deriving DecidableEq, Repr

/-- The tracker-independent identity of an issue. -/
def issueSourceKey : IssueReference → String
  | .github repo issue => "github:" ++ repo ++ "#" ++ toString issue
  | .linear organizationId issueId => "linear:" ++ organizationId ++ ":" ++ issueId

/-- Whether the reference is a Linear issue. -/
def IssueReference.isLinear : IssueReference → Bool
  | .github _ _ => false
  | .linear _ _ => true

/-- Open or closed at its tracker. -/
inductive IssueState where
  | opened
  | closed
  deriving DecidableEq, Repr

/-- Current tracker facts on the task; copied onto a run at admission. -/
structure TrackerIssue where
  reference : IssueReference
  state : IssueState
  updatedAt : Time
  deriving DecidableEq, Repr

/-! ### Results, events and queue state -/

/-- One reading aid derived from a parked message. -/
structure HumanNeededAction where
  text : String
  command : Option String
  deriving DecidableEq, Repr

/-- Whatever the run reported, recorded verbatim. -/
structure RunResult where
  ok : Bool
  summary : Option String
  ref : Option String
  relatedRefs : Option (List String)
  message : Option String
  humanNeededActions : Option (List HumanNeededAction)
  deriving DecidableEq, Repr

/-- Queue claim state. -/
inductive QueueState where
  | queued
  | claimed
  | retired
  deriving DecidableEq, Repr

/-- `runPlacementSchema.phase`. -/
inductive PlacementPhase where
  | waitingForPlacement
  | bootstrapping
  | unavailable
  deriving DecidableEq, Repr

/-- `runPlacementSchema.reason`: allowlisted scheduler categories. -/
inductive PlacementReason where
  | pending
  | unschedulable
  | scheduled
  | inventoryUnavailable
  | launchPending
  deriving DecidableEq, Repr

/-- An executor's physical placement observation. -/
structure RunPlacement where
  phase : PlacementPhase
  reason : PlacementReason
  observedAt : Time
  jobCreatedAt : Option Time
  deriving DecidableEq, Repr

/-- Whether a negotiated claim still waits for its Job to be placed. -/
inductive StartupState where
  | waiting
  | placed
  deriving DecidableEq, Repr

/-- Negotiated executor observations of startup. -/
structure StartupPlacement where
  state : StartupState
  observedAt : Time
  jobUid : Option String
  deriving DecidableEq, Repr

/-- A queue run's claim record.  Absent on the run means not yet drained. -/
structure RunQueue where
  state : QueueState
  placement : Option RunPlacement := none
  deferredUntil : Option Time := none
  claimedAt : Option Time := none
  startDeadlineAt : Option Time := none
  startupPlacement : Option StartupPlacement := none
  firstHeartbeatAt : Option Time := none
  providerProcessStartedAt : Option Time := none
  claimedBy : Option String := none
  claimedBySubject : Option String := none
  tokenHash : Option String := none
  deriving DecidableEq, Repr

/-- The authenticated operator boundary an action came through. -/
inductive InterventionKind where
  | workApiCancel
  | workApiReply
  | workApiRedispatch
  deriving DecidableEq, Repr

/-- A server-recorded action through an authenticated operator boundary. -/
structure OperationalIntervention where
  kind : InterventionKind
  principal : String
  deriving DecidableEq, Repr

/-- Which path caused a transition. -/
inductive EventSource where
  | request
  | dispatch
  | report
  | operator
  | expiry
  | executor
  | providerFallback
  deriving DecidableEq, Repr

/-- One recorded transition. -/
structure RunEvent where
  at_ : Time
  to_ : RunState
  by_ : EventSource
  note : Option String := none
  intervention : Option OperationalIntervention := none
  deriving DecidableEq, Repr

/-! ### Credential operations -/

/-- One prepared external write. -/
inductive CredentialMutation where
  | leaseWrite (id expectedGeneration repository : String) (expiresAt : Time)
  | authWrite (id expectedGeneration sha256 : String)
  deriving DecidableEq, Repr

/-- The mutation's id. -/
def CredentialMutation.id : CredentialMutation → String
  | .leaseWrite id _ _ _ => id
  | .authWrite id _ _ => id

/-- What a credential operation is for. -/
inductive CredentialKind where
  | restore
  | renew
  | persist
  | cleanup
  deriving DecidableEq, Repr

/-- A recoverable external compare-and-set, authorized by the queue claim. -/
structure CredentialOperation where
  id : String
  kind : CredentialKind
  claimFingerprint : String
  startedAt : Time
  mutationSequence : Nat
  recoverAfter : Time
  mutation : Option CredentialMutation := none
  deriving DecidableEq, Repr

/-- The last confirmed rotation. -/
structure CredentialWriteReceipt where
  operationId : String
  claimFingerprint : String
  expectedGeneration : String
  sha256 : String
  deriving DecidableEq, Repr

/-- A timely completion accepted while external IO is unresolved. -/
structure CredentialPendingResult where
  claimFingerprint : String
  requestedAt : Time
  result : RunResult
  deriving DecidableEq, Repr

/-! ### Provider fallback, delivery, revisions and label routing -/

/-- Why a fallback was taken. -/
inductive FallbackReason where
  | providerLimit
  | providerCooldown
  deriving DecidableEq, Repr

/-- The exact provenance of a fallback run. -/
structure FallbackTrigger where
  reason : FallbackReason
  failureRunId : String
  limitedPipeline : String
  deriving DecidableEq, Repr

/-- A run's fallback policy and attempt history. -/
structure ProviderFallback where
  principal : String
  sourceRepository : Option String
  allowedPipelines : List String
  attemptedPipelines : List String
  originalRunId : String
  fromRunId : Option String
  trigger : Option FallbackTrigger
  deriving DecidableEq, Repr

/-- The policy an authenticated admission adapter supplies. -/
structure ProviderFallbackRequest where
  principal : String
  allowedPipelines : List String
  sourceRepository : Option String
  deriving DecidableEq, Repr

/-- `ProviderFallbackRequest | ProviderFallback`: a fresh policy, or one an earlier run carries. -/
inductive FallbackInput where
  | request (policy : ProviderFallbackRequest)
  | inherited (policy : ProviderFallback)
  deriving DecidableEq, Repr

/-- A delivery binding waits for its pull request to merge. -/
inductive DeliveryState where
  | waiting
  | complete
  deriving DecidableEq, Repr

/-- Logical delivery ownership, which survives execution settlement. -/
structure DeliveryBinding where
  runId : String
  repo : String
  number : Nat
  baseRef : String
  head : String
  state : DeliveryState
  correctionRunId : Option String
  observedAt : Time
  mergeCommit : Option String
  deriving DecidableEq, Repr

/-- Where a triage publication stands. -/
inductive PublicationState where
  | pending
  | complete
  | superseded
  | failed
  deriving DecidableEq, Repr

/-- Triage effects of a run's report. -/
structure TriagePublication where
  state : PublicationState
  deriving DecidableEq, Repr

/-- An immutable source revision, with the order its keys are rendered in. -/
structure WorkRevision where
  key : String
  input : WorkPayload
  observedAt : Option (List (String × String))
  order : List String := "key" :: "input" :: (observedAt.map fun _ => "observedAt").toList
  deriving DecidableEq, Repr

/-- Whether a label request was taken. -/
inductive RoutingStatus where
  | accepted
  | refused
  deriving DecidableEq, Repr

/-- The last accepted label generation. -/
structure AcceptedGeneration where
  runId : String
  requestedAt : Time
  pipeline : String
  deriving DecidableEq, Repr

/-- `providerRoutingSchema`: the latest source-ordered label request. -/
structure ProviderRouting where
  requestId : String
  requestedAt : Time
  actor : String
  requestedPipeline : String
  effectivePipeline : String
  status : RoutingStatus
  reason : Option String
  fromRunId : Option String
  acceptedGeneration : Option AcceptedGeneration
  deriving DecidableEq, Repr

/-! ### Runs, tasks and outbox entries -/

/-- `Record<string, string>`. -/
abbrev Params := List (String × String)

/-- One execution of a task. -/
structure Run where
  runId : String
  task : TaskId
  state : RunState
  pipeline : String
  priority : QueuePriority
  requestId : String
  requestSource : RequestSource
  params : Option Params
  issue : Option TrackerIssue
  sourceRevision : Option WorkRevision
  revisionAttempt : Option Nat
  providerFallback : Option ProviderFallback
  queue : Option RunQueue
  delivery : Option DeliveryBinding
  triagePublication : Option TriagePublication
  credentialOperation : Option CredentialOperation
  credentialRestoredClaimFingerprint : Option String
  credentialPendingResult : Option CredentialPendingResult
  credentialWriteReceipt : Option CredentialWriteReceipt
  leaseExpiresAt : Time
  result : Option RunResult
  events : List RunEvent
  createdAt : Time
  updatedAt : Time
  deriving DecidableEq, Repr

/-- The durable identity of the request that created the run. -/
def runRequestHistoryKey (run : Run) : String :=
  requestHistoryKey run.requestSource run.requestId

/-- A task record: the lock, the run counter and the work itself. -/
structure Task where
  task : TaskId
  delivery : Option DeliveryBinding
  activeRunId : Option String
  runCount : Nat
  consecutiveLost : Nat
  work : WorkPayload
  issue : Option TrackerIssue
  desiredRevision : Option WorkRevision
  sourceObservedAt : Option (List (String × String))
  providerRouting : Option ProviderRouting
  closedAt : Option Time
  updatedAt : Time
  deriving DecidableEq, Repr

/-- The task document with its compare-and-set revision. -/
structure VersionedTask where
  task : Task
  revision : Nat
  deriving DecidableEq, Repr

/-- What an outbox entry asks its worker to do. -/
inductive OutboxKind where
  | dispatchRun
  | reportOutcome
  | monitorDelivery
  | admitHandoffSummary
  | publishTriage
  | publishIssueStart
  deriving DecidableEq, Repr

/-- Delivery bookkeeping; a leased entry has one exclusive owner. -/
inductive OutboxState where
  | pending
  | leased (claimId : String) (leaseExpiresAt : Time)
  | done
  | failed
  deriving DecidableEq, Repr

/-- An effect that must survive the transaction that decided it. -/
structure OutboxEntry where
  entryId : String
  kind : OutboxKind
  task : TaskId
  runId : String
  state : OutboxState
  attempts : Nat
  firstFailedAt : Option Time := none
  nextAttemptAt : Option Time := none
  deliveryFailures : Option Nat := none
  createdAt : Time
  updatedAt : Time
  deriving DecidableEq, Repr

/-! ### Predicates the decisions share -/

/-- The one owner of "an unfinished delivery still owns this task". -/
def deliveryWaiting (task : Task) : Bool :=
  match task.delivery with
  | some delivery => delivery.state = .waiting
  | none => false

/-- `run.queue?.state`. -/
def Run.queueState (run : Run) : Option QueueState := run.queue.map (·.state)

/-- `run.queue?.tokenHash`. -/
def Run.tokenHash (run : Run) : Option String := run.queue.bind (·.tokenHash)

/-- Effective recovery deadline; unclaimed queue waits never expire. -/
def runRecoveryDeadline (run : Run) : Option Time :=
  match run.queue with
  | none => some run.leaseExpiresAt
  | some queue =>
    if queue.state = .queued then none
    else
      let start :=
        if queue.state = .claimed ∧ queue.firstHeartbeatAt = none then queue.startDeadlineAt
        else none
      match start with
      | some start => some (if start < run.leaseExpiresAt then start else run.leaseExpiresAt)
      | none => some run.leaseExpiresAt

/-- A claim without a heartbeat outlived its start deadline. -/
def startDeadlineElapsed (run : Run) (now : Time) : Bool :=
  match run.queue with
  | none => false
  | some queue =>
    match queue.startDeadlineAt with
    | none => false
    | some start => queue.state = .claimed ∧ queue.firstHeartbeatAt = none ∧ start ≤ now

/-- The claimed run's recovery deadline has passed. -/
def recoveryDeadlineElapsed (run : Run) (now : Time) : Bool :=
  match runRecoveryDeadline run with
  | none => false
  | some deadline => deadline ≤ now

/-- The exact queue claimant: the run is claimed and the fingerprint is its claim token hash. -/
def isClaimant (run : Run) (claimFingerprint : String) : Bool :=
  run.queueState = some .claimed ∧ run.tokenHash = some claimFingerprint

/-- `params?.[key]`. -/
def Run.param (run : Run) (key : String) : Option String := run.params.bind (·.lookup key)

/-- Whether the run may consume the shared Codex provider lineage. -/
def usesCodexCredentials (run : Run) : Bool :=
  run.pipeline = "codex" ∨ (run.pipeline = "goose" ∧ run.param "providerAuth" = some "codex")

/-- The durable physical-exit observation while credential cleanup blocks retirement. -/
def RECIPE_EXIT_PENDING_CREDENTIAL_CLEANUP : String := "Worker exited; credential cleanup pending"

/-- The white space `String.prototype.trim` removes. -/
def isTrimmed (c : Char) : Bool :=
  let n := c.toNat
  (0x09 ≤ n ∧ n ≤ 0x0d) ∨ n = 0x20 ∨ n = 0xa0 ∨ n = 0x1680 ∨ (0x2000 ≤ n ∧ n ≤ 0x200a) ∨
    n = 0x2028 ∨ n = 0x2029 ∨ n = 0x202f ∨ n = 0x205f ∨ n = 0x3000 ∨ n = 0xfeff

/-- `text.trim()`, as characters. -/
def trim (text : String) : List Char :=
  (((text.toList.dropWhile isTrimmed).reverse).dropWhile isTrimmed).reverse

/-- `text.length`: UTF-16 code units. -/
def jsLength (text : String) : Nat :=
  (text.toList.map fun c => if c.toNat < 0x10000 then 1 else 2).sum

/-- The largest integer up to which JavaScript numbers count. -/
def MAX_SAFE_INTEGER : Nat := 2 ^ 53 - 1

/-- `WORK_ID_RE`: Crockford base32, 26 characters, without I, L, O and U. -/
def isWorkId (text : String) : Bool :=
  text.toList.length = 26 ∧ text.toList.all fun c =>
    c.isDigit ∨ ('A' ≤ c ∧ c ≤ 'Z' ∧ c ≠ 'I' ∧ c ≠ 'L' ∧ c ≠ 'O' ∧ c ≠ 'U')

/-- A message that is present and not blank. -/
def RunResult.hasMessage (result : RunResult) : Bool :=
  match result.message with
  | some message => !(trim message).isEmpty
  | none => false

/-! ### Outbox bookkeeping -/

/-- How a drain leaves the entry it was handed. -/
inductive SettlementState where
  | pending
  | done
  | failed
  deriving DecidableEq, Repr

/-- The entry state of a settlement. -/
def SettlementState.entryState : SettlementState → OutboxState
  | .pending => .pending
  | .done => .done
  | .failed => .failed

/-- What a drain reports about one leased entry. -/
structure OutboxSettlement where
  entryId : String
  claimId : String
  state : SettlementState
  now : Time
  firstFailedAt : Option Time
  nextAttemptAt : Option Time
  deliveryFailures : Option Nat
  recovered : Bool
  deriving DecidableEq, Repr

/-- A webhook wake: a pending entry still waiting out `nextAttemptAt` becomes claimable now. -/
def wakeOutboxEntry (entry : OutboxEntry) (now : Time) : Option OutboxEntry :=
  match entry.state, entry.nextAttemptAt with
  | .pending, some nextAttemptAt =>
    if nextAttemptAt ≤ now then none
    else some { entry with nextAttemptAt := some now, updatedAt := now }
  | _, _ => none

/-- Settle only the current lease owner; omitted retry fields retain history unless the
settlement is `recovered`. -/
def settleOutboxEntry (entry : OutboxEntry) (input : OutboxSettlement) : Option OutboxEntry :=
  match entry.state with
  | .leased claimId _ =>
    if claimId ≠ input.claimId then none
    else
      let kept := if input.recovered then
        { entry with firstFailedAt := none, deliveryFailures := none } else entry
      some { kept with
        state := input.state.entryState
        updatedAt := input.now
        firstFailedAt := input.firstFailedAt.or kept.firstFailedAt
        nextAttemptAt := input.nextAttemptAt.or kept.nextAttemptAt
        deliveryFailures := input.deliveryFailures.or kept.deliveryFailures }
  | _ => none

end AgentLcars
