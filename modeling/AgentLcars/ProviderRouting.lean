import AgentLcars.Decide

/-!
# Label handoff

`libs/orchestrator/src/provider-routing.ts`.  A label names the provider a GitHub task should run
on; the newest label wins, and a handoff cancels only an unclaimed queued run.
-/

namespace AgentLcars

/-- The physical fence of a claim: a live owner or durable credential debt. -/
def retainsPhysicalClaim (run : Run) : Bool :=
  run.queueState = some .claimed ∧ (isLive run.state ∨ run.credentialOperation.isSome)

/-- A server-validated label intent. -/
structure LabelIntent where
  requestedAt : Time
  actor : String
  allowProviderChange : Bool
  deriving DecidableEq, Repr

/-- A string within the bounds of its schema field. -/
def withinLength (text : String) (bound : Nat) : Bool :=
  1 ≤ jsLength text ∧ jsLength text ≤ bound

/-- `providerRoutingSchema.parse` accepts the record. -/
def ProviderRouting.parses (routing : ProviderRouting) : Bool :=
  withinLength routing.requestId 1024 ∧ withinLength routing.actor 128 ∧
    withinLength routing.requestedPipeline 128 ∧ withinLength routing.effectivePipeline 128 ∧
    routing.reason.all (withinLength · 128) ∧ routing.fromRunId.all (withinLength · 1024) ∧
    routing.acceptedGeneration.all fun generation =>
      withinLength generation.runId 1024 ∧ withinLength generation.pipeline 128

/-- What the transaction read for a label request. -/
structure LabelInput where
  request : RequestRunInput
  admittedPipeline : String
  label : LabelIntent
  latestRun : Option Run
  retainedClaims : Option (List Run)

/-- The label request as it is recorded before it is accepted. -/
def labelRequest (input : LabelInput) : ProviderRouting :=
  { requestId := input.request.requestId
    requestedAt := input.label.requestedAt
    actor := input.label.actor
    requestedPipeline := input.request.pipeline
    effectivePipeline := input.admittedPipeline
    status := .refused
    reason := none
    fromRunId := input.latestRun.map (·.runId)
    acceptedGeneration := (input.request.task.bind (·.providerRouting)).bind (·.acceptedGeneration) }

/-- A label that is not taken is recorded on the task. -/
def rejectLabel (input : LabelInput) (reason : String) : Outcome :=
  match input.request.task with
  | none => refused .workSpecMismatch
  | some task => .ok
    { task := { task with
        providerRouting := some { labelRequest input with reason := some reason }
        updatedAt := input.request.now } }

/-- The accepted label names its successor. -/
def acceptLabel (input : LabelInput) (decision : Decision) : Outcome := do
  let fresh ← decidedRun decision
  return { decision with
    task := { decision.task with
      providerRouting := some { labelRequest input with
        effectivePipeline := fresh.pipeline
        status := .accepted
        acceptedGeneration := some
          { runId := fresh.runId, requestedAt := input.label.requestedAt
            pipeline := fresh.pipeline } } } }

/-- A refusal of the request becomes a recorded rejection; an exception goes through. -/
def finishLabel (input : LabelInput) (outcome : Outcome) : Outcome :=
  match outcome with
  | .error (.refusal refusal) => rejectLabel input refusal.reason.text
  | .error stop => .error stop
  | .ok decision => acceptLabel input decision

/-- The request a label makes, with the priority of the run it follows. -/
def labelledRequest (input : LabelInput) : RequestRunInput :=
  { input.request with
    priority := (input.request.activeRun.map (·.priority)).or
      ((input.latestRun.map (·.priority)).or input.request.priority) }

/-- Cancel the queued run and mint its successor; the handoff itself is not a cancellation
outcome. -/
def labelHandoff (input : LabelInput) (task : Task) (activeRun : Run) : Outcome := do
  let canceled ← cancelRun input.request.now task activeRun
    (some ("Authorized label provider handoff to " ++ input.request.pipeline))
  let fresh ← requestRun { labelledRequest input with
    task := some canceled.task, activeRun := none }
  let canceledRun ← decidedRun canceled
  return { fresh with additionalRuns := [canceledRun] }

/-- Why the recorded state keeps a label from being taken, in the order it is judged. -/
def labelObstacle (input : LabelInput) : Option String :=
  let task := input.request.task
  let accepted := (task.bind (·.providerRouting)).bind (·.acceptedGeneration)
  if input.latestRun.any fun latest =>
      some latest.runId ≠ accepted.map (·.runId) ∧ input.label.requestedAt ≤ latest.createdAt then
    some "run-newer-than-label"
  else if task.isSome ∧ input.request.pipeline ≠ input.admittedPipeline ∧
      ¬input.label.allowProviderChange then some "unauthorized-provider-switch"
  else if task.isSome ∧ input.latestRun = none then some "physical-ownership-unavailable"
  else if (task.bind (·.closedAt)).isSome then some "task-closed"
  else if task.isSome ∧ input.retainedClaims = none then some "physical-ownership-unavailable"
  else if input.retainedClaims.any fun claims => claims ≠ [] then
    some (if input.request.activeRun.any fun run => isLive run.state then "run-already-claimed"
      else "physical-retirement-required")
  else if (input.request.activeRun.any fun run => run.credentialOperation.isSome) ∨
      (input.latestRun.any fun run => run.credentialOperation.isSome) then
    some "credential-operation-pending"
  else none

/-- A label that nothing keeps from being taken. -/
def takeLabel (input : LabelInput) : Outcome :=
  match input.request.task, input.request.activeRun.filter fun run => isLive run.state with
  | some task, some activeRun =>
    if input.request.pipeline ≠ input.admittedPipeline then
      if activeRun.queueState ≠ some .queued then rejectLabel input "task-busy"
      else finishLabel input (labelHandoff input task activeRun)
    else finishLabel input (requestRun (labelledRequest input))
  | _, _ => finishLabel input (requestRun (labelledRequest input))

/-- Label handoff is an explicit request, never an automatic successor of a refusal. -/
def decideLabelProviderRequest (input : LabelInput) : Outcome :=
  if isWorkAnchor input.request.taskId then refused .notNative
  else if ¬(labelRequest input).parses then .error (.threw "Invalid provider routing")
  else
    let previous := input.request.task.bind (·.providerRouting)
    match input.request.task with
    | some task =>
      if previous.any fun routing => routing.requestId = input.request.requestId then .ok { task }
      else if previous.any fun routing => input.label.requestedAt ≤ routing.requestedAt then
        refused .staleProviderRequest input.latestRun
      else match labelObstacle input with
        | some reason => rejectLabel input reason
        | none => takeLabel input
    | none => match labelObstacle input with
      | some reason => rejectLabel input reason
      | none => takeLabel input

end AgentLcars
