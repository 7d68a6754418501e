import AgentLcars.System
import Mathlib.Algebra.Order.Ring.Int

/-!
# Draining the outbox

`drainOutbox` of `apps/console/src/lib/orchestrator-dispatch.ts`, and any number of its invocations
beside the rest of the system.  A drain claims one entry at a time, delivers it, and settles it;
each of its store operations is a step of its own, and between two of them any other step may come.
What the world answers is part of the label: an operation may throw, before or after it took effect.

* The delivery of a `dispatch-run` entry (`handleDispatchRun`) is modelled in full.  The anchor claim
  between its last two operations touches no store, and when it throws the settlement does not
  happen: that is the settlement throwing before it took effect.
* The other kinds are delivered by calls to services outside the store and by operations that are
  steps of the system already, so only their settlement is left, with any outcome.
* Log lines are left out.
-/

namespace AgentLcars

/-- The lease of a claimed entry. -/
def OUTBOX_LEASE_MS : Time := 5 * 60000

/-- How long an entry may keep failing before it is retired. -/
def OUTBOX_RETIRE_AFTER_MS : Time := 72 * 60 * 60 * 1000

/-- The first backoff between delivery attempts. -/
def OUTBOX_BACKOFF_BASE_MS : Time := 60000

/-- The longest backoff between delivery attempts. -/
def OUTBOX_BACKOFF_CAP_MS : Time := 30 * 60000

/-- An entry and the claim under which a drain holds it. -/
structure LeasedOutboxEntry where
  entry : OutboxEntry
  claimId : String
  deriving DecidableEq, Repr

/-- The bookkeeping persisted with a settlement. -/
structure FailureState where
  now : Option Time := none
  firstFailedAt : Option Time := none
  nextAttemptAt : Option Time := none
  deliveryFailures : Option Nat := none
  recovered : Bool := false
  deriving DecidableEq, Repr

/-- `settleClaim`. -/
def settleClaim (leased : LeasedOutboxEntry) (state : SettlementState) (now : Time)
    (failureState : FailureState) : OutboxSettlement :=
  { entryId := leased.entry.entryId, claimId := leased.claimId, state
    now := failureState.now.getD now, firstFailedAt := failureState.firstFailedAt
    nextAttemptAt := failureState.nextAttemptAt
    deliveryFailures := failureState.deliveryFailures, recovered := failureState.recovered }

/-- `settleRetryableFailure`: released with backoff, retired after failing for too long. -/
def settleRetryableFailure (leased : LeasedOutboxEntry) (now : Time) : OutboxSettlement :=
  let firstFailedAt := leased.entry.firstFailedAt.getD now
  if OUTBOX_RETIRE_AFTER_MS ≤ now - firstFailedAt then
    settleClaim leased .failed now { now := some now, firstFailedAt := some firstFailedAt }
  else
    let deliveryFailures := leased.entry.deliveryFailures.getD 0 + 1
    let backoffMs := min OUTBOX_BACKOFF_CAP_MS
      (OUTBOX_BACKOFF_BASE_MS * 2 ^ (deliveryFailures - 1))
    settleClaim leased .pending now
      { now := some now, firstFailedAt := some firstFailedAt, nextAttemptAt := some (now + backoffMs)
        deliveryFailures := some deliveryFailures }

/-! ### One drain -/

/-- What a drain returns. -/
structure DrainOutboxResult where
  dispatched : List String
  reported : List String
  failed : List (String × String)
  deriving DecidableEq, Repr

/-- Where a drain stands. -/
inductive DrainPhase where
  | claiming
  | handling (leased : LeasedOutboxEntry)
  | enqueueing (leased : LeasedOutboxEntry)
  | confirming (leased : LeasedOutboxEntry)
  | settling (leased : LeasedOutboxEntry) (dispatched : Bool)
  | failing (leased : LeasedOutboxEntry) (error : String)
  | ended
  deriving DecidableEq, Repr

/-- A drain in progress. -/
structure Drain where
  limit : Nat
  claimed : Nat
  failedThisDrain : List String
  result : DrainOutboxResult
  phase : DrainPhase
  deriving DecidableEq, Repr

/-- What the world answers to a drain. -/
inductive Reply where
  | returns
  | throws (error : String) (applied : Bool)
  | delivered (state : SettlementState) (failureState : FailureState) (reported : Bool)
      (failed : Option String)
  | unsettled (state : SettlementState) (failureState : FailureState) (error : String)

/-- `drainOutbox(deps, limit)`. -/
def drainOutbox (limit : Option Nat) : Drain :=
  { limit := limit.getD 10, claimed := 0, failedThisDrain := []
    result := { dispatched := [], reported := [], failed := [] }, phase := .claiming }

/-- The end of one round: failures and delivery monitors are not claimed again by this drain. -/
def Drain.next (drain : Drain) (leased : LeasedOutboxEntry) (failed : Option String) : Drain :=
  { drain with
    claimed := drain.claimed + 1
    failedThisDrain := if failed.isSome ∨ leased.entry.kind = .monitorDelivery then
      leased.entry.entryId :: drain.failedThisDrain else drain.failedThisDrain
    result := { drain.result with
      failed := drain.result.failed ++ failed.toList.map fun error => (leased.entry.entryId, error) }
    phase := .claiming }

/-- The drain with the run dispatched. -/
def Drain.dispatched (drain : Drain) (runId : String) : Drain :=
  { drain with result := { drain.result with dispatched := drain.result.dispatched ++ [runId] } }

/-- The drain with the outcome of the run reported. -/
def Drain.reported (drain : Drain) (runId : String) : Drain :=
  { drain with result := { drain.result with reported := drain.result.reported ++ [runId] } }

/-- The store operation of a call that may throw, and where the drain goes. -/
def attempt (reply : Reply) (step : Step) (returned : Drain) (thrown : String → Drain) :
    Option Step × Drain :=
  match reply with
  | .throws error applied => (if applied then some step else none, thrown error)
  | _ => (some step, returned)

/-- The next act of a drain: the store operation it issues, if any, and where it goes. -/
def Drain.act (drain : Drain) (s : Store) (now : Time) (claimId cleanupId : String)
    (reply : Reply) : Option Step × Drain :=
  match drain.phase with
  | .claiming =>
    if drain.limit ≤ drain.claimed then (none, { drain with phase := .ended })
    else
      let leaseExpiresAt := now + OUTBOX_LEASE_MS
      let entry := (s.claimedOutbox 1 now leaseExpiresAt drain.failedThisDrain
        fun _ => claimId).head?
      attempt reply
        (.claimPendingOutbox 1 now leaseExpiresAt drain.failedThisDrain fun _ => claimId)
        { drain with phase := match entry with
          | none => .ended
          | some entry => .handling ⟨entry, claimId⟩ }
        fun _ => { drain with phase := .ended }
  | .handling leased =>
    if leased.entry.kind = .dispatchRun then
      match reply with
      | .throws error _ => (none, { drain with phase := .failing leased error })
      | _ =>
        match s.runs.get leased.entry.runId with
        | none => (none, { drain with phase := .settling leased false })
        | some run =>
          if run.state ≠ .pending then (none, { drain with phase := .settling leased false })
          else (none, { drain with phase := .enqueueing leased })
    else
      match reply with
      | .returns => (none, drain)
      | .throws error _ => (none, { drain with phase := .failing leased error })
      | .delivered state failureState reported failed =>
        let drain := if reported then drain.reported leased.entry.runId else drain
        (some (.settleOutbox (settleClaim leased state now failureState)), drain.next leased failed)
      -- The handler's settlement took effect and threw: the drain settles the entry once more.
      | .unsettled state failureState error =>
        (some (.settleOutbox (settleClaim leased state now failureState)),
          { drain with phase := .failing leased error })
  | .enqueueing leased =>
    attempt reply (.enqueueRun leased.entry.runId now) { drain with phase := .confirming leased }
      fun error => { drain with phase := .failing leased error }
  | .confirming leased =>
    attempt reply (.onRun leased.entry.runId now cleanupId .confirmDispatch)
      { drain with phase :=
          match (Orchestrator.onRun s leased.entry.runId now cleanupId .confirmDispatch).1 with
          | .error (.threw error) => .failing leased error
          | _ => .settling leased true }
      fun error => { drain with phase := .failing leased error }
  | .settling leased dispatched =>
    attempt reply (.settleOutbox (settleClaim leased .done now {}))
      ((if dispatched then drain.dispatched leased.entry.runId else drain).next leased none)
      fun error => { drain with phase := .failing leased error }
  | .failing leased error =>
    attempt reply (.settleOutbox (settleRetryableFailure leased now))
      (drain.next leased (some error)) fun _ => drain.next leased (some error)
  | .ended => (none, drain)

/-! ### Any number of drains -/

/-- The steps only a drain makes: it alone confirms dispatches and settles entries. -/
def Step.ofDrain : Step → Bool
  | .onRun _ _ _ .confirmDispatch | .settleOutbox _ => true
  | _ => false

/-- The system and the drains at work on it. -/
structure Fleet where
  world : World
  drains : OrderedMap Nat Drain

/-- The empty system without drains. -/
def Fleet.init : Fleet := { world := .init, drains := .empty }

/-- One act of one party. -/
inductive Act where
  | other (label : Step) (h : label.ofDrain = false)
  | drainOutbox (id : Nat) (limit : Option Nat)
  | drain (id : Nat) (now : Time) (claimId cleanupId : String) (reply : Reply)
  | crash (id : Nat)

/-- The system after a step, if there is one. -/
def World.stepIf (w : World) (label : Option Step) : World := label.elim w w.step

/-- One act of the fleet.  A crashed drain acts no more. -/
def Fleet.step (f : Fleet) : Act → Fleet
  | .other label _ => { f with world := f.world.step label }
  | .drainOutbox id limit => { f with drains := f.drains.set id (AgentLcars.drainOutbox limit) }
  | .drain id now claimId cleanupId reply =>
    match f.drains.get id with
    | none => f
    | some drain =>
      let act := drain.act f.world.store now claimId cleanupId reply
      { world := f.world.stepIf act.1, drains := f.drains.set id act.2 }
  | .crash id =>
    match f.drains.get id with
    | none => f
    | some drain => { f with drains := f.drains.set id { drain with phase := .ended } }

/-- The fleet after a list of acts. -/
def Fleet.run (f : Fleet) (acts : List Act) : Fleet := Machine.run Fleet.step f acts

end AgentLcars
