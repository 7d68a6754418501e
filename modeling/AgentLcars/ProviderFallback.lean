import AgentLcars.ProviderCooldown
import AgentLcars.Decide

/-!
# Provider fallback

`libs/orchestrator/src/provider-fallback.ts`.  A run stopped by its provider may be succeeded by a
fresh run on another pipeline its policy allows; a queued run whose provider cools down may be
replaced before it is ever claimed.
-/

namespace AgentLcars

/-- Policy order is preserved; current authority and availability only narrow it. -/
def selectFallbackPipeline (run : Run) (authorizedPipelines availablePipelines : List String) :
    Option String :=
  match run.providerFallback with
  | none => none
  | some policy => policy.allowedPipelines.find? fun pipeline =>
      pipeline ≠ run.pipeline ∧ pipeline ∉ policy.attemptedPipelines ∧
        pipeline ∈ authorizedPipelines ∧ pipeline ∈ availablePipelines

/-- Resume artifacts belong to the original provider. -/
def freshParams (params : Option Params) : Option Params :=
  params.map fun params => params.filter fun (key, _) =>
    key ≠ "resumeSessionId" ∧ key ≠ "resumeTranscriptGcsUri"

/-- The request of the fresh attempt that succeeds a settled run. -/
def successorRequest (now : Time) (settled : Decision) (previous : Run) (policy : ProviderFallback)
    (pipeline : String) (reason : FallbackReason) (failureRunId : String) : RequestRunInput :=
  { now
    task := some settled.task
    issue := some previous.issue
    taskId := previous.task
    activeRun := none
    requestId := "fallback:" ++ previous.runId
    requestSource := some .providerFallback
    pipeline
    priority := some previous.priority
    params := freshParams previous.params
    providerFallback := some (.inherited { policy with
      attemptedPipelines := policy.attemptedPipelines ++ [pipeline]
      fromRunId := some previous.runId
      trigger := some { reason, failureRunId, limitedPipeline := previous.pipeline } }) }

/-- Mint the fresh attempt beside the settlement it succeeds. -/
def successor (now : Time) (settled : Decision) (pipeline : String) (reason : FallbackReason)
    (failureRunId : String) : Outcome := do
  let previous ← decidedRun settled
  match previous.providerFallback with
  | none => refused .workSpecMismatch
  | some policy =>
    let next ← requestRun
      (successorRequest now settled previous policy pipeline reason failureRunId)
    let _ ← decidedRun next
    return settled.followedBy next

/-- An available alternative, or else the first one still authorized. -/
def fallbackPipeline (run : Run) (authorizedPipelines availablePipelines : List String) :
    Option String :=
  (selectFallbackPipeline run authorizedPipelines availablePipelines).or
    (selectFallbackPipeline run authorizedPipelines authorizedPipelines)

/-- Apply the run's fallback policy to a settlement that opened a cooldown. -/
def settleProviderFallback (now : Time) (settled : Decision)
    (authorizedPipelines availablePipelines : List String) : Outcome := do
  let previous ← decidedRun settled
  match providerCooldownForRun previous with
  | none => return settled
  | some _ =>
    match fallbackPipeline previous authorizedPipelines availablePipelines with
    | none => return settled
    | some pipeline => successor now settled pipeline .providerLimit previous.runId

/-- Settlement, cooldown write, successor identity and dispatch share one commit. -/
def reportResultWithFallback (now : Time) (task : Task) (run : Run) (result : RunResult)
    (claimFingerprint : Option String) (authorizedPipelines availablePipelines : List String) :
    Outcome := do
  let settled ← reportResult now task run result claimFingerprint
  settleProviderFallback now settled authorizedPipelines availablePipelines

/-- The longest run id a task key can carry. -/
def RUN_ID_MAX_LENGTH : Nat := 140 + 1 + 16 + 2 + 16

/-- A cooldown record that can be named as the cause of a reroute. -/
def reroutesOn (run : Run) (cooldown : ProviderCooldown) (now : Time) : Bool :=
  providerIsCoolingDown (some cooldown) now ∧ jsLength cooldown.runId ≠ 0 ∧
    jsLength cooldown.runId ≤ RUN_ID_MAX_LENGTH ∧ cooldown.pipeline = run.pipeline

/-- A queued run as a reroute settles it: a routing decision, not an execution failure. -/
def reroutedRun (now : Time) (run : Run) (cooldownRunId pipeline : String) : Run :=
  { run with
    state := .canceled
    updatedAt := now
    events := run.events ++
      [{ at_ := now, to_ := .canceled, by_ := .providerFallback
         note := some ("Provider cooldown from " ++ cooldownRunId ++ "; fresh fallback to " ++
           pipeline) }] }

/-- Replace exactly this unclaimed run, with the triggering failure linked explicitly. -/
def rerouteQueuedRun (now : Time) (task : Task) (run : Run) (cooldown : Option ProviderCooldown)
    (authorizedPipelines availablePipelines : List String) : Outcome :=
  if task.activeRunId ≠ some run.runId then refused .staleLease
  else if run.queueState = some .claimed then refused .runAlreadyClaimed
  else if run.queueState ≠ some .queued ∨ ¬isLive run.state ∨
      (run.queue.bind (·.deferredUntil)).any (fun deferred => now < deferred) then
    refused .runNotLive
  else match cooldown with
    | none => refused .staleLease
    | some cooldown =>
      if ¬reroutesOn run cooldown now then refused .staleLease
      else match selectFallbackPipeline run authorizedPipelines availablePipelines with
        | none => refused .workSpecMismatch
        | some pipeline =>
          -- the successor outcome carries the reroute, so the cancellation itself is not reported
          successor now
            { task := { task with activeRunId := none, updatedAt := now }
              run := some (reroutedRun now run cooldown.runId pipeline) }
            pipeline .providerCooldown cooldown.runId

end AgentLcars
