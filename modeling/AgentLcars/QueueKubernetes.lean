import AgentLcars.Lib.Runs
import AgentLcars.Lib.VersionedObjects
import AgentLcars.Model
import Mathlib.Data.List.Sort

/-!
# Kubernetes handoff

`apps/runner-autoscaler`: a claimed run is handed to a Kubernetes Job that is created suspended, given
its run token in a Secret, and then resumed (`launch` and `resume` of `queue_kubernetes.go`).  Sweeps
resume what a launch left behind and delete the Jobs of settled claims (`recover`,
`retireSettledClaim`), and inventory reads take the absence of a deleted Job for the exit of its
worker (`activeCount`, `reportRetired`, and the exit reporter of `queue_run_exit.go`).

Any number of threads of any number of executors run on one API server; every API call is a step of
its own, and its answer can get lost after it took effect.  The cluster's own parties write statuses,
edit specifications (they suspend a Job but never resume one), delete Jobs in the foreground, and
collect Secrets whose owner is gone.  Annotations that are absent are read as empty, as in Go.

Left out: what `reserve` and the placement reports read, and the Pod template of a Job.
-/

namespace AgentLcars

open VersionedObjects

/-! ### Objects -/

abbrev Uid := Nat

inductive JobConditionType where
  | complete
  | failed
  | suspended
  | failureTarget
  | successCriteriaMet
  deriving DecidableEq

structure JobCondition where
  type : JobConditionType
  status : Bool
  deriving DecidableEq

/-- What the Job controller has recorded of an attempt. -/
structure JobStatus where
  startTime : Option Time := none
  active : Nat := 0
  succeeded : Nat := 0
  failed : Nat := 0
  conditions : List JobCondition := []
  deriving DecidableEq

/-- A Job, with the label and the annotations of the queue. -/
structure QueueJob where
  name : String
  uid : Uid
  resourceVersion : Nat
  generation : Nat
  labelled : Bool
  runId : String
  claimedBy : String
  claim : String
  suspend : Option Bool
  status : JobStatus
  deleting : Bool
  created : Time
  deriving DecidableEq

structure OwnerReference where
  apiVersion : String
  kind : String
  name : String
  uid : Uid
  controller : Option Bool
  deriving DecidableEq

/-- A Secret with a run token. -/
structure QueueSecret where
  name : String
  owners : List OwnerReference
  immutable : Option Bool
  runToken : String
  deriving DecidableEq

/-- The API server's objects of the queue's namespace. -/
structure KubeApi where
  jobs : Objects String QueueJob
  secrets : OrderedMap String QueueSecret
  pods : OrderedMap String (List OwnerReference)

def KubeApi.empty : KubeApi := { jobs := Objects.empty, secrets := .empty, pods := .empty }

/-- `queueJobTerminal`. -/
def queueJobTerminal (job : QueueJob) : Bool :=
  job.status.conditions.any fun c => (c.type = .complete ∨ c.type = .failed) ∧ c.status

/-- `queueJobAttempted`. -/
def queueJobAttempted (job : QueueJob) : Bool :=
  job.status.startTime.isSome ∨ job.status.active ≠ 0 ∨ job.status.succeeded ≠ 0 ∨
    job.status.failed ≠ 0 ∨ job.status.conditions.any fun c =>
      c.status ∧ (c.type = .complete ∨ c.type = .failed ∨ c.type = .failureTarget ∨
        c.type = .successCriteriaMet)

/-! ### API calls -/

inductive ApiError where
  | notFound
  | alreadyExists
  | conflict
  | unavailable
  deriving DecidableEq

/-- What becomes of a call: answered, applied but not answered, or neither. -/
inductive Transport where
  | delivered
  | lost
  | dropped
  deriving DecidableEq

/-- Create a Job under a name that is free, with a new UID, at generation 1. -/
def KubeApi.createJob (api : KubeApi) (desired : QueueJob) : Except ApiError (QueueJob × KubeApi) :=
  match api.jobs.byName.get desired.name with
  | some _ => .error .alreadyExists
  | none =>
    let job := { desired with
      uid := api.jobs.nextId, resourceVersion := api.jobs.nextVersion, generation := 1 }
    .ok (job, { api with
      jobs := { byName := api.jobs.byName.set desired.name job, nextId := api.jobs.nextId + 1
                nextVersion := api.jobs.nextVersion + 1 } })

def KubeApi.createSecret (api : KubeApi) (secret : QueueSecret) : Except ApiError KubeApi :=
  match api.secrets.get secret.name with
  | some _ => .error .alreadyExists
  | none => .ok { api with secrets := api.secrets.set secret.name secret }

/-- A Job at its next version. -/
def KubeApi.writeJob (api : KubeApi) (job : QueueJob) : KubeApi :=
  { api with jobs := { api.jobs with
      byName := api.jobs.byName.set job.name { job with resourceVersion := api.jobs.nextVersion }
      nextVersion := api.jobs.nextVersion + 1 } }

/-- Write the specification of a Job as it was read, resumed. -/
def KubeApi.resumeJob (api : KubeApi) (current : QueueJob) : Except ApiError KubeApi :=
  match api.jobs.byName.get current.name with
  | none => .error .notFound
  | some job =>
    if job.uid ≠ current.uid ∨ job.resourceVersion ≠ current.resourceVersion then .error .conflict
    else .ok (api.writeJob { job with suspend := some false, generation := job.generation + 1 })

/-- Delete a Job in the foreground if it is exactly the one that was read. -/
def KubeApi.deleteJob (api : KubeApi) (read : QueueJob) : Except ApiError KubeApi :=
  match api.jobs.byName.get read.name with
  | none => .error .notFound
  | some job =>
    if job.uid ≠ read.uid ∨ job.resourceVersion ≠ read.resourceVersion then .error .conflict
    else .ok (api.writeJob { job with deleting := true })

/-- The answer to a mutating call, and the API after it. -/
def KubeApi.answer {α : Type} (api : KubeApi) (transport : Transport)
    (outcome : Except ApiError α) (after : α → KubeApi) : Except ApiError α × KubeApi :=
  match transport, outcome with
  | .delivered, .ok a => (.ok a, after a)
  | .delivered, .error e => (.error e, api)
  | .lost, .ok a => (.error .unavailable, after a)
  | .lost, .error _ => (.error .unavailable, api)
  | .dropped, _ => (.error .unavailable, api)

/-! ### What the cluster does itself -/

/-- A step of the controllers, the garbage collector, or an operator. -/
inductive ClusterAct where
  | writeStatus (name : String) (status : JobStatus)
  | editSpec (name : String) (suspend : Bool)
  | deleteJob (name : String)
  | removeJob (name : String)
  | createPod (podName jobName : String)
  | removePod (podName : String)
  | collectSecret (name : String)

def jobOwner (job : QueueJob) : OwnerReference :=
  { apiVersion := "batch/v1", kind := "Job", name := job.name, uid := job.uid
    controller := some true }

/-- Some Job of this UID is stored and not being deleted. -/
def KubeApi.owned (api : KubeApi) (uid : Uid) : Bool :=
  api.jobs.byName.values.any fun job => job.uid = uid ∧ ¬job.deleting

/-- A change of a stored Job. -/
def KubeApi.onJob (api : KubeApi) (name : String) (f : QueueJob → KubeApi) : KubeApi :=
  match api.jobs.byName.get name with
  | none => api
  | some job => f job

def KubeApi.act (api : KubeApi) : ClusterAct → KubeApi
  | .writeStatus name status => api.onJob name fun job => api.writeJob { job with status }
  | .editSpec name suspend => api.onJob name fun job =>
    api.writeJob { job with
      suspend := if suspend then some true else job.suspend, generation := job.generation + 1 }
  | .deleteJob name => api.onJob name fun job => api.writeJob { job with deleting := true }
  -- a Job that is deleted in the foreground disappears only after its Pods
  | .removeJob name => api.onJob name fun job =>
    if job.deleting ∧ ¬api.pods.values.any (·.any fun owner => owner.uid = job.uid) then
      { api with jobs := { api.jobs with byName := api.jobs.byName.erase name } }
    else api
  | .createPod podName jobName => api.onJob jobName fun job =>
    { api with pods := api.pods.set podName [jobOwner job] }
  | .removePod podName => { api with pods := api.pods.erase podName }
  | .collectSecret name =>
    match api.secrets.get name with
    | none => api
    | some secret =>
      if secret.owners.any fun owner => api.owned owner.uid then api
      else { api with secrets := api.secrets.erase name }

/-! ### Exit reports -/

/-- What an exit report names: the run and the token hash of its claim.  The source joins the two
with a NUL, which no hash has. -/
structure ExitClaim where
  runId : String
  fingerprint : String
  deriving DecidableEq

/-- A settled claim whose Job was deleted. -/
structure RetiringClaim where
  claim : ExitClaim
  runner : String
  deriving DecidableEq

/-- A report on its way to the Work API. -/
structure ExitReport where
  claim : ExitClaim
  runner : String
  deriving DecidableEq

def queueJobRetentionAge : Time := 24 * 60 * 60000

/-- `runExitReportedRetention`. -/
def RUN_EXIT_REPORTED_RETENTION : Time := 2 * queueJobRetentionAge

/-- What one executor process remembers: the deletions it tracks, and its exit reporter. -/
structure QueueExecutor where
  runnerName : String := ""
  retiring : OrderedMap Uid RetiringClaim := .empty
  reported : List (ExitClaim × Time) := []
  inflight : List ExitClaim := []
  reports : List ExitReport := []

/-- `trackRetiring`. -/
def QueueExecutor.trackRetiring (x : QueueExecutor) (job : QueueJob) : QueueExecutor :=
  { x with
    retiring := x.retiring.set job.uid
      { claim := { runId := job.runId, fingerprint := job.claim }, runner := job.claimedBy } }

/-- The exit of this claim was accepted. -/
def QueueExecutor.delivered (x : QueueExecutor) (claim : ExitClaim) : Bool :=
  (x.reported.lookup claim).isSome

/-- `observeTerminated`: start a report, unless it was accepted or is on its way. -/
def QueueExecutor.observeTerminated (x : QueueExecutor) (now : Time) (claim : ExitClaim)
    (claimedBy : String) : QueueExecutor :=
  if claim.runId = "" ∨ claim.fingerprint = "" then x
  else
    let x := { x with
      reported := x.reported.filter fun entry => ¬RUN_EXIT_REPORTED_RETENTION < now - entry.2 }
    if x.delivered claim ∨ x.inflight.contains claim then x
    else { x with
      inflight := claim :: x.inflight
      reports := x.reports ++
        [{ claim, runner := if claimedBy = "" then x.runnerName else claimedBy }] }

/-- One tracked deletion, against the UIDs of an inventory read. -/
def QueueExecutor.reportOne (x : QueueExecutor) (now : Time) (present : List Uid) (uid : Uid)
    (retiring : RetiringClaim) : QueueExecutor :=
  if present.contains uid then x
  -- the claim is kept until its report was accepted: no later read could observe it again
  else if x.delivered retiring.claim then { x with retiring := x.retiring.erase uid }
  else x.observeTerminated now retiring.claim retiring.runner

/-- `reportRetired`: report every tracked deletion whose Job is not among these. -/
def QueueExecutor.reportRetired (x : QueueExecutor) (now : Time) (present : List Uid) :
    QueueExecutor :=
  x.retiring.entries.foldl (fun x entry => x.reportOne now present entry.1 entry.2) x

/-- A report was answered; what was accepted is not reported again. -/
def QueueExecutor.finishReport (x : QueueExecutor) (now : Time) (index : Nat) (accepted : Bool) :
    QueueExecutor :=
  match x.reports[index]? with
  | none => x
  | some report =>
    { x with
      inflight := x.inflight.erase report.claim
      reported := if accepted then (report.claim, now) :: x.reported else x.reported
      reports := x.reports.eraseIdx index }

/-! ### Threads -/

/-- What the handoff relies on. -/
structure QueueEnv where
  sha256 : String → String
  /-- A Job can be built for the pipeline. -/
  hasAdapter : String → Bool

/-- `directRunnerLaunch`. -/
structure DirectRunnerLaunch where
  runId : String
  runToken : String
  pipeline : String
  runner : String
  deriving DecidableEq

def queueJobName (env : QueueEnv) (runId : String) : String :=
  String.ofList (("lcars-work-" ++ env.sha256 runId).toList.take 51)

/-- `queueClaimFingerprint`. -/
def queueClaimFingerprint (env : QueueEnv) (token : String) : String := env.sha256 token

/-- `job`: the suspended Job of a claim. -/
def DirectRunnerLaunch.job (env : QueueEnv) (l : DirectRunnerLaunch) (now : Time) : QueueJob :=
  { name := queueJobName env l.runId
    uid := 0, resourceVersion := 0, generation := 0
    labelled := true
    runId := l.runId
    claimedBy := l.runner
    claim := if l.runToken = "" then "" else queueClaimFingerprint env l.runToken
    suspend := some true
    status := {}
    deleting := false
    created := now }

/-- The Secret of a claim, owned by the Job that was found. -/
def DirectRunnerLaunch.secret (l : DirectRunnerLaunch) (job : QueueJob) : QueueSecret :=
  { name := job.name, owners := [jobOwner job], immutable := some true, runToken := l.runToken }

/-- Where a resume stands. -/
inductive ResumePhase where
  | getting
  | listingPods (current : QueueJob)
  | gettingSecret (current : QueueJob)
  | verifying (current : QueueJob) (secret : QueueSecret)
  | updating (current : QueueJob) (secret : QueueSecret)
  deriving DecidableEq

/-- A resume of a Job, and how many attempts conflicted. -/
structure Resume where
  job : QueueJob
  conflicts : Nat
  phase : ResumePhase
  deriving DecidableEq

inductive LaunchPhase where
  | creating
  | reading
  | creatingSecret (job : QueueJob)
  | resuming (r : Resume)
  | returned
  deriving DecidableEq

inductive SweepPhase where
  | listing
  | visiting (jobs : List QueueJob)
  | settling (job : QueueJob) (rest : List QueueJob)
  | deleting (job : QueueJob) (rest : List QueueJob)
  | tracking (job : QueueJob) (rest : List QueueJob)
  | resuming (r : Resume) (rest : List QueueJob)
  | returned
  deriving DecidableEq

/-- An inventory read keeps the next UID of the moment it listed. -/
inductive InventoryPhase where
  | listing
  | evaluating (jobs : List QueueJob) (nextUid : Uid)
  | counting (jobs : List QueueJob)
  | returned
  deriving DecidableEq

inductive QueueTask where
  | launch (l : DirectRunnerLaunch) (phase : LaunchPhase)
  | sweep (phase : SweepPhase)
  | inventory (phase : InventoryPhase)
  deriving DecidableEq

/-- A goroutine of an executor. -/
structure QueueThread where
  executor : Nat
  task : QueueTask
  deriving DecidableEq

/-- What answers a thread's next call. -/
structure QueueAnswer where
  transport : Transport := .delivered
  fenced : Bool := true
  settled : Bool := true
  now : Time := 0
  cursor : String := ""

/-- What is on record about a thread. -/
inductive QueueEvent where
  | attempt (thread : Nat)
  | fenced (thread : Nat) (runId token : String)
  | listed (thread : Nat) (jobs : List QueueJob)
  | settled (thread : Nat) (runId runner fingerprint : String)
  deriving DecidableEq

/-! ### Resuming -/

/-- `retry.DefaultBackoff`. -/
def RESUME_ATTEMPTS : Nat := 4

/-- The Job that was read is the one to resume. -/
def sameQueueJob (env : QueueEnv) (job current : QueueJob) : Bool :=
  current.uid = job.uid ∧ job.runId ≠ "" ∧ current.name = queueJobName env job.runId ∧
    current.labelled ∧ current.runId = job.runId ∧ current.claimedBy = job.claimedBy ∧
    current.claim = job.claim

/-- The Secret is this Job's own, and holds the token of its claim. -/
def secretFits (env : QueueEnv) (current : QueueJob) (secret : QueueSecret) : Bool :=
  secret.owners.contains (jobOwner current) ∧ secret.immutable = some true ∧
    secret.runToken ≠ "" ∧
    (current.claim = "" ∨ current.claim = queueClaimFingerprint env secret.runToken)

/-- The next step of a resume: what it does next, if anything, the API after it, and what is on
record of it. -/
def Resume.step (env : QueueEnv) (thread : Nat) (r : Resume) (api : KubeApi) (answer : QueueAnswer) :
    Option Resume × KubeApi × List QueueEvent :=
  match r.phase with
  | .getting =>
    match answer.transport, api.jobs.byName.get r.job.name with
    | .delivered, some current =>
      if sameQueueJob env r.job current ∧ ¬current.deleting ∧ current.suspend = some true ∧
          ¬queueJobAttempted current ∧ current.generation = 1 then
        (some { r with phase := .listingPods current }, api, [.attempt thread])
      else (none, api, [.attempt thread])
    | _, _ => (none, api, [.attempt thread])
  | .listingPods current =>
    if answer.transport = .delivered ∧ ¬api.pods.values.any (·.any fun owner =>
        owner.kind = "Job" ∧ owner.uid = current.uid) then
      (some { r with phase := .gettingSecret current }, api, [])
    else (none, api, [])
  | .gettingSecret current =>
    match answer.transport, api.secrets.get current.name with
    | .delivered, some secret =>
      if secretFits env current secret then
        (some { r with phase := .verifying current secret }, api, [])
      else (none, api, [])
    | _, _ => (none, api, [])
  | .verifying current secret =>
    if answer.fenced then
      (some { r with phase := .updating current secret }, api,
        [.fenced thread r.job.runId secret.runToken])
    else (none, api, [])
  | .updating current _ =>
    match api.answer answer.transport (api.resumeJob current) fun after => after with
    | (.error .conflict, api) =>
      if r.conflicts + 1 < RESUME_ATTEMPTS then
        (some { r with conflicts := r.conflicts + 1, phase := .getting }, api, [])
      else (none, api, [])
    | (_, api) => (none, api, [])

/-- A resume of this Job. -/
def resumeOf (job : QueueJob) : Resume := { job, conflicts := 0, phase := .getting }

/-! ### Launching -/

/-- A Job that was created or found is adopted only if it is this claim's. -/
def launchFound (env : QueueEnv) (l : DirectRunnerLaunch) (job : QueueJob) : LaunchPhase :=
  if job.runId ≠ l.runId ∨ ¬job.labelled ∨ job.claimedBy ≠ l.runner ∨
      job.claim ≠ queueClaimFingerprint env l.runToken then .returned
  else if job.suspend ≠ some true ∨ queueJobAttempted job then .returned
  else .creatingSecret job

/-- The next step of a launch. -/
def LaunchPhase.step (env : QueueEnv) (thread : Nat) (l : DirectRunnerLaunch) (phase : LaunchPhase)
    (api : KubeApi) (answer : QueueAnswer) : LaunchPhase × KubeApi × List QueueEvent :=
  match phase with
  | .creating =>
    match api.answer answer.transport (api.createJob (l.job env answer.now)) (·.2) with
    | (.ok (job, _), api) => (launchFound env l job, api, [])
    -- a create that timed out may have reached the server: read the same name
    | (.error _, api) => (.reading, api, [])
  | .reading =>
    match answer.transport, api.jobs.byName.get (queueJobName env l.runId) with
    | .delivered, some job => (launchFound env l job, api, [])
    | _, _ => (.returned, api, [])
  | .creatingSecret job =>
    match api.answer answer.transport (api.createSecret (l.secret job)) fun after => after with
    | (.ok _, api) | (.error .alreadyExists, api) => (.resuming (resumeOf job), api, [])
    | (.error _, api) => (.returned, api, [])
  | .resuming r =>
    match r.step env thread api answer with
    | (some r, api, events) => (.resuming r, api, events)
    | (none, api, events) => (.returned, api, events)
  | .returned => (.returned, api, [])

/-! ### Sweeping -/

/-- `ordered`: by name, from the one after the last that was visited. -/
def orderedFrom (last : String) (jobs : List QueueJob) : List QueueJob :=
  let sorted := jobs.insertionSort fun a b => ¬b.name < a.name
  let visited := sorted.takeWhile fun job => ¬last < job.name
  if visited.length = sorted.length then sorted
  else sorted.dropWhile (fun job => ¬last < job.name) ++ visited

/-- `retireSettledClaim` asks about the claim of this Job. -/
def mayRetire (env : QueueEnv) (job : QueueJob) : Bool :=
  ¬job.deleting ∧ job.runId ≠ "" ∧ job.claimedBy ≠ "" ∧ job.name = queueJobName env job.runId ∧
    job.labelled ∧ job.suspend.isSome ∧ job.claim ≠ "" ∧
    ¬(job.suspend = some true ∧ (job.generation ≠ 1 ∨ queueJobAttempted job)) ∧
    ¬(job.suspend = some false ∧ job.generation ≠ 2)

/-- What a sweep does about a Job it does not retire. -/
def afterRetirement (job : QueueJob) (rest : List QueueJob) (now : Time) : SweepPhase :=
  if 2 * 60 * 60000 < now - job.created ∨ job.suspend ≠ some true then .visiting rest
  else .resuming (resumeOf job) rest

/-- The next step of a sweep. -/
def SweepPhase.step (env : QueueEnv) (thread : Nat) (phase : SweepPhase) (api : KubeApi)
    (answer : QueueAnswer) : SweepPhase × KubeApi × List QueueEvent :=
  match phase with
  | .listing =>
    if answer.transport = .delivered then
      let jobs := api.jobs.byName.values.filter (·.labelled)
      (.visiting (orderedFrom answer.cursor jobs), api, [.listed thread jobs])
    else (.returned, api, [])
  | .visiting [] => (.returned, api, [])
  | .visiting (job :: rest) =>
    -- the time of the sweep may be up
    if answer.transport ≠ .delivered then (.returned, api, [])
    else if queueJobTerminal job then (.visiting rest, api, [])
    else if mayRetire env job then (.settling job rest, api, [])
    else (afterRetirement job rest answer.now, api, [])
  | .settling job rest =>
    if answer.transport ≠ .delivered then (.visiting rest, api, [])
    else if answer.settled then
      (.deleting job rest, api, [.settled thread job.runId job.claimedBy job.claim])
    else (afterRetirement job rest answer.now, api, [])
  | .deleting job rest =>
    match api.answer answer.transport (api.deleteJob job) fun after => after with
    | (.ok _, api) | (.error .notFound, api) => (.tracking job rest, api, [])
    | (.error _, api) => (.visiting rest, api, [])
  | .tracking _ rest => (.visiting rest, api, [])
  | .resuming r rest =>
    match r.step env thread api answer with
    | (some r, api, events) => (.resuming r rest, api, events)
    | (none, api, events) => (.visiting rest, api, events)
  | .returned => (.returned, api, [])

/-! ### Reading the inventory -/

/-- The terminal Jobs of a read that name their run. -/
def observeTerminal (env : QueueEnv) (x : QueueExecutor) (now : Time) (job : QueueJob) :
    QueueExecutor :=
  if queueJobTerminal job ∧ job.runId ≠ "" ∧ job.name = queueJobName env job.runId then
    x.observeTerminated now { runId := job.runId, fingerprint := job.claim } job.claimedBy
  else x

/-- The next step of `activeCount`.  Its list may be evaluated long after it was taken. -/
def InventoryPhase.step (env : QueueEnv) (phase : InventoryPhase) (api : KubeApi)
    (x : QueueExecutor) (answer : QueueAnswer) : InventoryPhase × QueueExecutor :=
  match phase with
  | .listing =>
    if answer.transport = .delivered then
      (.evaluating (api.jobs.byName.values.filter (·.labelled)) api.jobs.nextId, x)
    else (.returned, x)
  | .evaluating jobs _ => (.counting jobs, x.reportRetired answer.now (jobs.map (·.uid)))
  | .counting [] => (.returned, x)
  | .counting (job :: rest) => (.counting rest, observeTerminal env x answer.now job)
  | .returned => (.returned, x)

/-! ### The system -/

structure QueueWorld where
  api : KubeApi
  executors : OrderedMap Nat QueueExecutor
  threads : OrderedMap Nat QueueThread
  trace : List QueueEvent

def QueueWorld.init : QueueWorld :=
  { api := .empty, executors := .empty, threads := .empty, trace := [] }

/-- What a new thread is for. -/
inductive QueueStart where
  | launch (l : DirectRunnerLaunch)
  | sweep
  | inventory

def QueueStart.task : QueueStart → QueueTask
  | .launch l => .launch l .creating
  | .sweep => .sweep .listing
  | .inventory => .inventory .listing

/-- A step of the system. -/
inductive QueueStep where
  | executor (id : Nat) (runnerName : String)
  | start (id executor : Nat) (start : QueueStart) (now : Time)
  | thread (id : Nat) (answer : QueueAnswer)
  | report (executor index : Nat) (accepted : Bool) (now : Time)
  | cluster (act : ClusterAct)

def QueueWorld.executor (w : QueueWorld) (id : Nat) : QueueExecutor :=
  (w.executors.get id).getD {}

/-- A launch without an adapter submits no Job: its claim is reported at once. -/
def QueueWorld.begin (env : QueueEnv) (w : QueueWorld) (id executor : Nat) (start : QueueStart)
    (now : Time) : QueueWorld :=
  match start with
  | .launch l =>
    if env.hasAdapter l.pipeline then
      { w with threads := w.threads.set id { executor, task := start.task } }
    else if l.runToken = "" then w
    else { w with executors := w.executors.set executor ((w.executor executor).observeTerminated now
        { runId := l.runId, fingerprint := queueClaimFingerprint env l.runToken } l.runner) }
  | _ => { w with threads := w.threads.set id { executor, task := start.task } }

/-- The next step of a thread. -/
def QueueWorld.advance (env : QueueEnv) (w : QueueWorld) (id : Nat) (thread : QueueThread)
    (answer : QueueAnswer) : QueueWorld :=
  match thread.task with
  | .launch l phase =>
    let (phase, api, events) := phase.step env id l w.api answer
    { w with
      api, trace := w.trace ++ events
      threads := w.threads.set id { thread with task := .launch l phase } }
  | .sweep phase =>
    let (next, api, events) := phase.step env id w.api answer
    { w with
      api, trace := w.trace ++ events
      executors := match phase with
        | .tracking job _ =>
          w.executors.set thread.executor ((w.executor thread.executor).trackRetiring job)
        | _ => w.executors
      threads := w.threads.set id { thread with task := .sweep next } }
  | .inventory phase =>
    let (phase, x) := phase.step env w.api (w.executor thread.executor) answer
    { w with
      executors := w.executors.set thread.executor x
      threads := w.threads.set id { thread with task := .inventory phase } }

def QueueWorld.step (env : QueueEnv) (w : QueueWorld) : QueueStep → QueueWorld
  | .executor id runnerName =>
    if (w.executors.get id).isSome then w
    else { w with executors := w.executors.set id { runnerName } }
  | .start id executor start now =>
    if (w.threads.get id).isSome then w else w.begin env id executor start now
  | .thread id answer =>
    match w.threads.get id with
    | none => w
    | some thread => w.advance env id thread answer
  | .report executor index accepted now =>
    { w with
      executors := w.executors.set executor
        ((w.executor executor).finishReport now index accepted) }
  | .cluster act => { w with api := w.api.act act }

def QueueWorld.run (env : QueueEnv) (w : QueueWorld) (steps : List QueueStep) : QueueWorld :=
  Machine.run (QueueWorld.step env) w steps

end AgentLcars
