import AgentLcars.Lib.OrderedMap
import AgentLcars.ProviderCooldown
import Mathlib.Data.List.Sort

/-!
# Queue admission

The selection policy of `libs/orchestrator/src/store.ts` and the eligibility predicate and status
projection of `queue-admission-status.ts`: server-owned ceilings per pipeline, the least occupied
provider first, then its oldest head, then durable 4:2:1 class turns with FIFO inside each class.

Stored cooldowns and clocks are well formed by their types, so the projection cannot fail here.
-/

namespace AgentLcars

/-- What the table of ceilings holds under a name: a number, or what every object inherits, which
is neither undefined nor above or below any count. -/
inductive ClaimCeiling where
  | most (claims : Nat)
  | inherited
  deriving DecidableEq, Repr

/-- `count < ceiling`. -/
def ClaimCeiling.admits (ceiling : ClaimCeiling) (count : Nat) : Bool :=
  match ceiling with
  | .most claims => count < claims
  | .inherited => false

/-- `count >= ceiling`. -/
def ClaimCeiling.reached (ceiling : ClaimCeiling) (count : Nat) : Bool :=
  match ceiling with
  | .most claims => claims ≤ count
  | .inherited => false

/-- The properties of `Object.prototype`. -/
def inheritedProperties : List String :=
  ["constructor", "__proto__", "__defineGetter__", "__defineSetter__", "__lookupGetter__",
    "__lookupSetter__", "hasOwnProperty", "isPrototypeOf", "propertyIsEnumerable",
    "toLocaleString", "toString", "valueOf"]

/-- Server-owned admission ceilings, an object that is indexed with the name of a pipeline. -/
def QUEUE_PIPELINE_MAX_LIVE_CLAIMS (pipeline : String) : Option ClaimCeiling :=
  match [("codex", 1), ("opencode", 1), ("inbox-summary", 3), ("handoff-summary", 1)].lookup
      pipeline with
  | some claims => some (.most claims)
  | none => if pipeline ∈ inheritedProperties then some .inherited else none

/-- Successful claim turns: 4:2:1. -/
def QUEUE_PRIORITY_TURNS : List QueuePriority :=
  [.urgent, .urgent, .normal, .urgent, .urgent, .normal, .background]

/-- The class whose turn is `step` after a position. -/
def priorityTurn (position step : Nat) : QueuePriority :=
  QUEUE_PRIORITY_TURNS.getD ((position + step) % QUEUE_PRIORITY_TURNS.length) .normal

/-- Advance over skipped empty classes and the exact selected class. -/
def queuePriorityTurnAfter (position : Nat) (priority : QueuePriority) : Nat :=
  match (List.range QUEUE_PRIORITY_TURNS.length).find? fun step =>
      priorityTurn position step = priority with
  | some step => (position + step + 1) % QUEUE_PRIORITY_TURNS.length
  | none => position

/-- The durable queue eligibility predicate of claim selection. -/
def isQueueAdmissionCandidate (run : Run) (now : Option Time) : Bool :=
  isLive run.state ∧ run.credentialOperation = none ∧ run.queueState = some .queued ∧
    (now = none ∨ (run.queue.bind (·.deferredUntil)).all fun deferred =>
      now.all fun now => deferred ≤ now)

/-- Live claimed runs of a pipeline. -/
def occupancy (liveRuns : List Run) (pipeline : String) : Nat :=
  (liveRuns.filter fun run =>
    run.pipeline = pipeline ∧ run.queueState = some .claimed ∧ isLive run.state).length

/-- The pipeline admits one more claim. -/
def belowCeiling (liveRuns : List Run) (pipeline : String) : Bool :=
  (QUEUE_PIPELINE_MAX_LIVE_CLAIMS pipeline).all (·.admits (occupancy liveRuns pipeline))

/-- The consistent inventory a fallback decision reads. -/
structure QueueEligibilitySnapshot where
  cooldowns : List (String × Option ProviderCooldown)
  liveRuns : List Run

/-- `cooldowns[pipeline]`. -/
def QueueEligibilitySnapshot.cooldown (snapshot : QueueEligibilitySnapshot) (pipeline : String) :
    Option ProviderCooldown :=
  (snapshot.cooldowns.lookup pipeline).join

/-- The same provider cooldowns and ceilings used by queue claims. -/
def availableQueuePipelines (pipelines : List String) (snapshot : QueueEligibilitySnapshot)
    (now : Time) : List String :=
  pipelines.eraseDups.filter fun pipeline =>
    ¬providerIsCoolingDown (snapshot.cooldown pipeline) now ∧
      belowCeiling snapshot.liveRuns pipeline

/-- FIFO order: creation time, then run id. -/
def fifoLe (a b : Run) : Bool :=
  a.createdAt < b.createdAt ∨ (a.createdAt = b.createdAt ∧ (a.runId < b.runId ∨ a.runId = b.runId))

/-- Candidates in FIFO order. -/
def fifo (runs : List Run) : List Run := runs.insertionSort fun a b => fifoLe a b

/-- Select a class within an admitted provider's FIFO-ordered candidates. -/
def selectPriorityQueuedRun (providerRuns : List Run) (position : Nat) : Option Run :=
  (List.range QUEUE_PRIORITY_TURNS.length).findSome? fun step =>
    providerRuns.find? fun run => run.priority = priorityTurn position step

/-- Provider order: least occupied, then oldest head, then the order of the grant. -/
def providerLe (liveRuns : List Run) (granted : List String) (a b : Run) : Bool :=
  let key := fun run : Run => (occupancy liveRuns run.pipeline, run.createdAt,
    granted.idxOf run.pipeline)
  (key a).1 < (key b).1 ∨ ((key a).1 = (key b).1 ∧
    ((key a).2.1 < (key b).2.1 ∨ ((key a).2.1 = (key b).2.1 ∧ (key a).2.2 ≤ (key b).2.2)))

/-- Select the provider by least live occupancy and oldest age, then its class by turn. -/
def selectFairQueuedRun (queuedRuns liveRuns : List Run) (pipelines : List String)
    (now : Option Time) (priorityPositions : OrderedMap String Nat) : Option Run :=
  let granted := pipelines.eraseDups
  let candidates := fun pipeline => fifo (queuedRuns.filter fun run =>
    isQueueAdmissionCandidate run now ∧ run.pipeline = pipeline)
  let heads := granted.filterMap fun pipeline => (candidates pipeline).head?
  let admitted := heads.filter fun run => belowCeiling liveRuns run.pipeline
  match admitted.insertionSort (fun a b => providerLe liveRuns granted a b) with
  | [] => none
  | provider :: _ =>
    selectPriorityQueuedRun (candidates provider.pipeline)
      ((priorityPositions.get provider.pipeline).getD 0)

/-! ### The status projection -/

/-- What the projection says of one pipeline. -/
structure ProviderQueueAdmissionStatus where
  pipeline : String
  queued : Nat
  deferred : Nat
  liveClaims : Nat
  eligible : Nat
  maxLiveClaims : Option ClaimCeiling
  cooldown : Option ProviderCooldown
  deriving DecidableEq, Repr

/-- The projection of the queue. -/
structure QueueAdmissionStatus where
  observedAt : Time
  provenance : String
  providers : List ProviderQueueAdmissionStatus
  deriving DecidableEq, Repr

/-- The status of one pipeline. -/
def providerQueueAdmissionStatus (runs : List Run) (cooldowns : OrderedMap String ProviderCooldown)
    (now : Time) (pipeline : String) : ProviderQueueAdmissionStatus :=
  let live := runs.filter fun run => run.pipeline = pipeline ∧ isLive run.state
  let queued := live.filter fun run => run.queueState = some .queued
  let candidates := queued.filter fun run => isQueueAdmissionCandidate run (some now)
  let liveClaims := (live.filter fun run => run.queueState = some .claimed).length
  let maxLiveClaims := QUEUE_PIPELINE_MAX_LIVE_CLAIMS pipeline
  let cooldown := cooldowns.get pipeline
  { pipeline, queued := queued.length, deferred := queued.length - candidates.length, liveClaims
    eligible :=
      if providerIsCoolingDown cooldown now ∨ maxLiveClaims.any (·.reached liveClaims) then 0
      else candidates.length
    maxLiveClaims, cooldown }

/-- The admission state of every pipeline, each once. -/
def projectQueueAdmissionStatus (runs : List Run) (cooldowns : OrderedMap String ProviderCooldown)
    (pipelines : List String) (now : Time) : QueueAdmissionStatus :=
  { observedAt := now, provenance := "orchestrator"
    providers := pipelines.eraseDups.map (providerQueueAdmissionStatus runs cooldowns now) }

end AgentLcars
