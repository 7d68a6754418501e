import AgentLcars.Lib.Runs
import AgentLcars.Orchestrator

/-!
# The running system

Any number of callers act on one store.  Every store transaction is one atomic step; `close`,
`updateWork` and `refreshIssue` are not transactions but a read of the task, a read of its active
run and a compare-and-set, each a step of its own that any other step may come between.  A lost
compare-and-set re-decides once against fresh state.

Labels carry everything a step depends on, the clock included, so a run of the system is a list
of labels and the theorems quantify over all of them.  `sweepExpired` and `rerouteQueued` list
candidates and then transact on each; a label is one of those transactions, on any run.
-/

namespace AgentLcars

/-- The operations that read, read, and compare and set. -/
inductive TaskOp where
  | close
  | updateWork (work : WorkPayload)
  | refreshIssue (issue : TrackerIssue)

/-- Refresh source facts without changing any admitted execution intent. -/
def refreshTaskIssue (now : Time) (task : Option Task) (issue : TrackerIssue) : Outcome :=
  match task with
  | none => refused .unknownTask
  | some task =>
    if issueIdentityChanges (some issue) task.issue then
      .error (.threw "Issue source identity cannot change")
    else if task.issue.any fun previous => issue.updatedAt ≤ previous.updatedAt then .ok { task }
    else .ok { task := { task with issue := some issue, updatedAt := now } }

/-- The callback of each operation. -/
def TaskOp.decide (op : TaskOp) (now : Time) (task : Option Task) (activeRun : Option Run) :
    Outcome :=
  match op with
  | .close => closeTask now task activeRun
  | .updateWork work => updateTaskWork now task activeRun work
  | .refreshIssue issue => refreshTaskIssue now task issue

/-- Where a call stands between its reads and its write. -/
inductive Phase where
  | reading
  | readTask (task : Option VersionedTask)
  | readBoth (task : Option VersionedTask) (activeRun : Option Run)
  | ended

/-- A call in flight. -/
structure Call where
  taskId : TaskId
  op : TaskOp
  retried : Bool
  phase : Phase

/-- The store and the calls in flight. -/
structure World where
  store : Store
  calls : OrderedMap Nat Call

/-- The empty system. -/
def World.init : World := { store := .empty, calls := .empty }

/-- One step of one party. -/
inductive Step where
  | request (now : Time) (input : RequestInput)
  | onRun (runId : String) (now : Time) (cleanupId : String) (op : RunOp)
  | direct (runId : String) (now : Time) (op : DirectOp)
  | enqueueRun (runId : String) (now : Time)
  | claimQueuedRun (pipelines : List String) (input : ClaimInput)
  | releaseQueuedRunClaim (runId claimedBy tokenHash : String) (now : Time)
      (deferredUntil : Option Time)
  | claimPendingOutbox (limit : Nat) (now leaseExpiresAt : Time) (excluded : List String)
      (claimIds : Nat → String)
  | settleOutbox (input : OutboxSettlement)
  | wakeOutbox (entryId : String) (now : Time)
  | call (id : Nat) (taskId : TaskId) (op : TaskOp)
  | resume (id : Nat) (now : Time)

/-- The clock a step reads. -/
def Step.clock : Step → Option Time
  | .request now _ | .onRun _ now _ _ | .direct _ now _ | .enqueueRun _ now
  | .releaseQueuedRunClaim _ _ _ now _ | .claimPendingOutbox _ now _ _ _ | .wakeOutbox _ now
  | .resume _ now => some now
  | .claimQueuedRun _ input => some input.now
  | .settleOutbox input => some input.now
  | .call _ _ _ => none

/-- The compare-and-set of a call that has read both documents. -/
def Call.finish (call : Call) (s : Store) (now : Time) (task : Option VersionedTask)
    (activeRun : Option Run) : Call × Store :=
  match call.op.decide now (task.map (·.task)) activeRun with
  | .error _ => ({ call with phase := .ended }, s)
  | .ok decision =>
    match s.apply decision (task.map (·.revision)) with
    | some s => ({ call with phase := .ended }, s)
    | none =>
      ({ call with retried := true, phase := if call.retried then .ended else .reading }, s)

/-- The next step of a call. -/
def Call.resume (call : Call) (s : Store) (now : Time) : Call × Store :=
  match call.phase with
  | .reading => ({ call with phase := .readTask (s.tasks.get (taskKey call.taskId)) }, s)
  | .readTask task =>
    ({ call with phase := .readBoth task (s.activeRun (s.tasks.get (taskKey call.taskId))) }, s)
  | .readBoth task activeRun => call.finish s now task activeRun
  | .ended => (call, s)

/-- One step of the system. -/
def World.step (w : World) : Step → World
  | .request now input => { w with store := (Orchestrator.request w.store now input).2 }
  | .onRun runId now cleanupId op =>
    { w with store := (Orchestrator.onRun w.store runId now cleanupId op).2 }
  | .direct runId now op => { w with store := (Orchestrator.direct w.store runId now op).2 }
  | .enqueueRun runId now => { w with store := w.store.enqueueRun runId now }
  | .claimQueuedRun pipelines input =>
    { w with store := (w.store.claimQueuedRun pipelines input).2 }
  | .releaseQueuedRunClaim runId claimedBy tokenHash now deferredUntil =>
    { w with
      store := (w.store.releaseQueuedRunClaim runId claimedBy tokenHash now deferredUntil).2 }
  | .claimPendingOutbox limit now leaseExpiresAt excluded claimIds =>
    { w with store := w.store.claimPendingOutbox limit now leaseExpiresAt excluded claimIds }
  | .settleOutbox input => { w with store := w.store.settleOutbox input }
  | .wakeOutbox entryId now => { w with store := w.store.wakeOutbox entryId now }
  | .call id taskId op =>
    { w with calls := w.calls.set id { taskId, op, retried := false, phase := .reading } }
  | .resume id now =>
    match w.calls.get id with
    | none => w
    | some call =>
      { store := (call.resume w.store now).2, calls := w.calls.set id (call.resume w.store now).1 }

/-- The decision a resumed call commits. -/
def Call.decision (call : Call) (s : Store) (now : Time) : Option Decision :=
  match call.phase with
  | .readBoth task activeRun =>
    match call.op.decide now (task.map (·.task)) activeRun with
    | .error _ => none
    | .ok decision => if (s.apply decision (task.map (·.revision))).isSome then some decision else none
  | _ => none

/-- The decision a step commits. -/
def World.decision (w : World) : Step → Option Decision
  | .request now input => (Orchestrator.request w.store now input).1.toOption
  | .onRun runId now cleanupId op => (Orchestrator.onRun w.store runId now cleanupId op).1.toOption
  | .direct runId now op => (Orchestrator.direct w.store runId now op).1.toOption
  | .resume id now => (w.calls.get id).bind fun call => call.decision w.store now
  | _ => none

/-- The system after a run of labels. -/
def World.run (w : World) (steps : List Step) : World := Machine.run World.step w steps

theorem World.run_append (w : World) (steps more : List Step) :
    w.run (steps ++ more) = (w.run steps).run more :=
  Machine.run_append _ _ _ _

/-! ### One run on its way to a worker -/

namespace Sample

/-- A native work item. -/
def taskId : TaskId := .work "w"

/-- Its first run. -/
def runId : String := "work:w/r1"

/-- Its first request. -/
def request (pipeline : String) : RequestInput :=
  { taskId, requestId := "q1", pipeline, work := some [] }

/-- A claim of the queued run. -/
def claim (now : Time) : ClaimInput :=
  { now, claimedBy := "runner", claimedBySubject := "subject", tokenHash := "token"
    placementAware := false }

/-- The request is admitted, queued and claimed. -/
def claimed (pipeline : String) : List Step :=
  [.request 0 (request pipeline), .enqueueRun runId 1, .claimQueuedRun [pipeline] (claim 2)]

end Sample

end AgentLcars
