import AgentLcars.System

/-!
# Transitions of a stored run

Some thirty branches of the decision layer rewrite a stored run.  `Move` lists what they can do to
it, each with the guard under which the source does it, and every later argument about a run's
history reads this list instead of the branches.

* `Settlement` is the part of a move that makes a live run terminal.
* `Cleaned` is what `transactOnRun` adds to it for a claimed Codex run.
* Moves that are not open to every step say what the label of the step must be.
* `Run.frozen` is the part of a run that no move touches.
-/

namespace AgentLcars

/-! ### What a label entitles a step to -/

/-- The exit report of a run. -/
def Step.exitOf : Step → Option String
  | .onRun runId _ _ (.executorExited _) => some runId
  | _ => none

/-- The reservation of a credential operation: run, fingerprint, operation id and kind. -/
def Step.reservation : Step → Option (String × String × String × CredentialKind)
  | .direct runId _ (.reserveCredentialOperation claimFingerprint id kind) =>
    some (runId, claimFingerprint, id, kind)
  | _ => none

/-- The change of a credential operation: run, operation id, fingerprint and change. -/
def Step.credentialChange : Step → Option (String × String × String × CredentialChange)
  | .direct runId _ (.changeCredentialOperation id claimFingerprint change) =>
    some (runId, id, claimFingerprint, change)
  | .direct runId _ (.finishCredentialOperation _ id claimFingerprint restored sequence) =>
    some (runId, id, claimFingerprint, .finish restored sequence)
  | _ => none

/-- The id under which a settlement reserves the cleanup it owes. -/
def Step.cleanupId : Step → Option String
  | .onRun _ _ cleanupId _ => some cleanupId
  | _ => none

/-- The result a report carries. -/
def Step.reported : Step → Option RunResult
  | .onRun _ _ _ (.report _ result _ _ _) => some result
  | _ => none

/-- The task a request is about. -/
def Step.requestedKey : Step → Option String
  | .request _ input => some (taskKey input.taskId)
  | _ => none

/-- The source revision a request carries. -/
def Step.revision : Step → Option WorkRevision
  | .request _ input => input.sourceRevision
  | _ => none

/-- The requests that stand for a label. -/
def Step.labels : Step → Bool
  | .request _ input => input.labelProviderRequest.isSome
  | _ => false

/-- The work a request carries. -/
def Step.work : Step → Option WorkPayload
  | .request _ input => input.work
  | _ => none

/-- The steps that may replace the work of a task. -/
def Step.edits : Step → Bool
  | .resume _ _ => true
  | _ => false

/-- The steps that may cancel a run. -/
def Step.cancels : Step → Bool
  | .request _ _ | .onRun _ _ _ (.cancel _ _ _) | .onRun _ _ _ (.invalidateSource _)
  | .direct _ _ (.cancelUnclaimedBefore _ _ _) => true
  | _ => false

/-- The steps that may give a run up as lost. -/
def Step.loses : Step → Bool
  | .onRun _ _ _ .sweepExpired | .onRun _ _ _ (.executorExited _) => true
  | _ => false

/-- The steps that may reroute a queued run. -/
def Step.reroutes : Step → Bool
  | .direct _ _ (.rerouteQueued _ _) => true
  | _ => false

/-- The steps that confirm a dispatch. -/
def Step.confirms : Step → Bool
  | .onRun _ _ _ .confirmDispatch => true
  | _ => false

/-! ### The part of a run that never changes -/

/-- What is fixed at admission. -/
structure Frozen where
  runId : String
  task : TaskId
  pipeline : String
  priority : QueuePriority
  requestId : String
  requestSource : RequestSource
  params : Option Params
  issue : Option TrackerIssue
  sourceRevision : Option WorkRevision
  revisionAttempt : Option Nat
  providerFallback : Option ProviderFallback
  createdAt : Time
  deriving DecidableEq

/-- The admission record of a run. -/
def Run.frozen (run : Run) : Frozen :=
  { runId := run.runId, task := run.task, pipeline := run.pipeline, priority := run.priority
    requestId := run.requestId, requestSource := run.requestSource, params := run.params
    issue := run.issue, sourceRevision := run.sourceRevision
    revisionAttempt := run.revisionAttempt, providerFallback := run.providerFallback
    createdAt := run.createdAt }

section Frozen

variable {r r' : Run} (h : r'.frozen = r.frozen)
include h

theorem runId_of_frozen : r'.runId = r.runId := congrArg Frozen.runId h

theorem task_of_frozen : r'.task = r.task := congrArg Frozen.task h

theorem pipeline_of_frozen : r'.pipeline = r.pipeline := congrArg Frozen.pipeline h

theorem requestId_of_frozen : r'.requestId = r.requestId := congrArg Frozen.requestId h

theorem requestSource_of_frozen : r'.requestSource = r.requestSource :=
  congrArg Frozen.requestSource h

theorem issue_of_frozen : r'.issue = r.issue := congrArg Frozen.issue h

theorem sourceRevision_of_frozen : r'.sourceRevision = r.sourceRevision :=
  congrArg Frozen.sourceRevision h

theorem usesCodexCredentials_of_frozen : usesCodexCredentials r' = usesCodexCredentials r := by
  have hp : r'.pipeline = r.pipeline := pipeline_of_frozen h
  have hq : r'.params = r.params := congrArg Frozen.params h
  exact congrArg₂ (fun (p : String) (q : Option Params) => decide (p = "codex" ∨
    (p = "goose" ∧ q.bind (·.lookup "providerAuth") = some "codex"))) hp hq

end Frozen

/-! ### Settlements -/

/-- The four ways in which a live run without a credential operation becomes terminal. -/
inductive Settlement (label : Step) (now : Time) (run : Run) : Run → Prop where
  | report (task : Task) (result : RunResult) (delivery : Option DeliveryBinding) (publish : Bool)
      (hlabel : label.reported = some result)
      (hdelivery : ∀ b ∈ delivery, b.runId = run.runId ∧ result.ok = true) :
      Settlement label now run
        (finishedRun now task (reportedRun run result delivery publish) result)
  | cancel (note : Option String) (intervention : Option OperationalIntervention)
      (hlabel : label.cancels = true) :
      Settlement label now run (canceledRun now run note intervention)
  | reroute (cooldownRunId pipeline : String) (hlabel : label.reroutes = true) :
      Settlement label now run (reroutedRun now run cooldownRunId pipeline)
  | lose (cause : LossCause) (hlabel : label.loses = true) :
      Settlement label now run (lostRun now run cause)

/-- The settlement of a claimed Codex run reserves its cleanup under the claim's own token. -/
def cleanedRun (settled : Run) (tokenHash cleanupId : String) : Run :=
  { settled with
    credentialOperation := some
      { id := cleanupId, kind := .cleanup, claimFingerprint := tokenHash
        startedAt := settled.updatedAt, mutationSequence := 0
        recoverAfter := credentialRecoverAfter settled.updatedAt } }

/-- Whether a settlement of the run owes a cleanup. -/
def owesCleanup (run : Run) : Bool :=
  usesCodexCredentials run ∧ run.queueState = some .claimed ∧ run.tokenHash.isSome

/-- What is stored for a settlement: with its cleanup if one is owed, under the id it was given. -/
inductive Cleaned (given : Option String) (run settled : Run) : Run → Prop where
  | owed (tokenHash cleanupId : String) (h : owesCleanup run = true)
      (htoken : run.tokenHash = some tokenHash) (hgiven : given = some cleanupId) :
      Cleaned given run settled (cleanedRun settled tokenHash cleanupId)
  | free (h : owesCleanup run = false) : Cleaned given run settled settled

/-- Two queue records of the same claim: observations move, ownership and progress do not. -/
structure SameClaim (q q' : RunQueue) : Prop where
  state : q'.state = q.state
  tokenHash : q'.tokenHash = q.tokenHash
  claimedBy : q'.claimedBy = q.claimedBy
  claimedBySubject : q'.claimedBySubject = q.claimedBySubject
  started : q.providerProcessStartedAt.isSome → q'.providerProcessStartedAt.isSome

/-! ### Moves -/

/-- Everything a step can do to a stored run. -/
inductive Move (label : Step) (now : Time) : Run → Run → Prop where
  | same {r} : Move label now r r
  | confirm {r} (h : r.state = .pending) (hlabel : label.confirms = true) :
      Move label now r { r with
        state := .running
        leaseExpiresAt := runLeaseExpiresAt now
        events := r.events ++ [{ at_ := now, to_ := .running, by_ := .dispatch }]
        updatedAt := now }
  | observe {r} {q q' : RunQueue} (lease updated : Time) (h : isLive r.state = true)
      (hq : r.queue = some q) (hc : SameClaim q q') :
      Move label now r { r with queue := some q', leaseExpiresAt := lease, updatedAt := updated }
  | renewUnqueued {r} (h : isLive r.state = true) (hq : r.queue = none) :
      Move label now r { r with
        queue := none, leaseExpiresAt := runLeaseExpiresAt now, updatedAt := now }
  | enqueue {r} (hq : r.queue = none) :
      Move label now r { r with queue := some { state := .queued }, updatedAt := now }
  | claim {r} (input : ClaimInput) (h : isLive r.state = true)
      (hop : r.credentialOperation = none) (hq : r.queueState = some .queued)
      (hlabel : ∃ pipelines, label = .claimQueuedRun pipelines input) :
      Move label now r (claimQueuedRun r input)
  | release {r} (claimedBy tokenHash : String) (deferredUntil : Option Time)
      (h : isLive r.state = true) (hop : r.credentialOperation = none)
      (hclaim : isClaimant r tokenHash = true) (hby : r.queue.bind (·.claimedBy) = some claimedBy)
      (hlabel : label = .releaseQueuedRunClaim r.runId claimedBy tokenHash now deferredUntil) :
      Move label now r { r with
        queue := some { state := .queued, deferredUntil }, updatedAt := now }
  | defer {r} (op : CredentialOperation) (result : RunResult)
      (delivery : Option DeliveryBinding) (publish : Bool) (h : isLive r.state = true)
      (hop : r.credentialOperation = some op)
      (hpending : ∀ p ∈ r.credentialPendingResult, sameReport p.result result = true)
      (hdelivery : ∀ b ∈ delivery, b.runId = r.runId ∧ result.ok = true) :
      Move label now r { reportedRun r result delivery publish with
        credentialPendingResult := r.credentialPendingResult.or (some
          { claimFingerprint := op.claimFingerprint, requestedAt := now, result })
        updatedAt := now }
  | settle {r s r'} (h : isLive r.state = true)
      (hop : r.credentialOperation = none ∨ r.queueState ≠ some .claimed)
      (hs : Settlement label now r s) (hc : Cleaned label.cleanupId r s r') : Move label now r r'
  | complete {r} (op : CredentialOperation) (pending : CredentialPendingResult) (task : Task)
      (restored : Bool) (h : isLive r.state = true) (hop : r.credentialOperation = some op)
      (hpending : r.credentialPendingResult = some pending) (hmutation : op.mutation = none)
      (hclaim : isClaimant r op.claimFingerprint = true)
      (hlabel : label.credentialChange = some (r.runId, op.id, op.claimFingerprint,
        .finish restored (some op.mutationSequence))) :
      Move label now r
        (finishedRun now task (operationFinished r op restored op.claimFingerprint) pending.result)
  | retire {r} (h : isLive r.state = false) (hop : r.credentialOperation = none)
      (hq : r.queueState = some .claimed) (hp : retiresOnExit r = true)
      (hlabel : label.exitOf = some r.runId) :
      Move label now r { r with queue := r.queue.map (·.retire) }
  | receipt {r} (h : isLive r.state = false) (hop : r.credentialOperation.isSome = true)
      (hq : r.queueState = some .claimed) (hnew : exitObserved r = false)
      (hcodex : usesCodexCredentials r = true) (hlabel : label.exitOf = some r.runId) :
      Move label now r { r with
        events := r.events ++ [{ at_ := now, to_ := r.state, by_ := .executor,
                                 note := some RECIPE_EXIT_PENDING_CREDENTIAL_CLEANUP }] }
  | reserve {r} (claimFingerprint id : String) (kind : CredentialKind)
      (hop : r.credentialOperation = none) (hcodex : usesCodexCredentials r = true)
      (hclaim : isClaimant r claimFingerprint = true)
      (hkind : kind ≠ .cleanup → isLive r.state = true)
      (hlabel : label.reservation = some (r.runId, claimFingerprint, id, kind)) :
      Move label now r { r with
        credentialOperation := some
          { id, kind, claimFingerprint, startedAt := now, mutationSequence := 0
            recoverAfter := credentialRecoverAfter now }
        updatedAt := now }
  | prepare {r} (op : CredentialOperation) (mutation : CredentialMutation)
      (hop : r.credentialOperation = some op)
      (hid : mutation.id = mutationIdOf op.id (op.mutationSequence + 1))
      (hbound : op.mutationSequence < 100) (hmutation : op.mutation = none)
      (hclaim : isClaimant r op.claimFingerprint = true)
      (hlabel : label.credentialChange = some (r.runId, op.id, op.claimFingerprint,
        .prepare mutation)) :
      Move label now r { r with
        credentialOperation := some { op with
          mutation := some mutation, mutationSequence := op.mutationSequence + 1 }
        updatedAt := now }
  | acknowledge {r} (op : CredentialOperation) (mutation : CredentialMutation)
      (receipt : Option CredentialWriteReceipt) (hop : r.credentialOperation = some op)
      (hmutation : op.mutation = some mutation)
      (hclaim : isClaimant r op.claimFingerprint = true)
      (hlabel : label.credentialChange = some (r.runId, op.id, op.claimFingerprint,
        .acknowledge mutation.id receipt)) :
      Move label now r { r with
        credentialOperation := some { op with mutation := none }
        credentialWriteReceipt := receipt.or r.credentialWriteReceipt
        updatedAt := now }
  | retryRecovery {r} (op : CredentialOperation) (hop : r.credentialOperation = some op)
      (hclaim : isClaimant r op.claimFingerprint = true)
      (hlabel : label.credentialChange = some (r.runId, op.id, op.claimFingerprint,
        .retryRecovery)) :
      Move label now r { r with
        credentialOperation := some { op with recoverAfter := credentialRecoverAfter now }
        updatedAt := now }
  | finish {r} (op : CredentialOperation) (restored : Bool) (sequence : Option Nat)
      (hop : r.credentialOperation = some op) (hpending : r.credentialPendingResult = none)
      (hmutation : op.mutation = none)
      (hcleanup : op.kind = .cleanup → sequence = some op.mutationSequence)
      (hclaim : isClaimant r op.claimFingerprint = true)
      (hlabel : label.credentialChange = some (r.runId, op.id, op.claimFingerprint,
        .finish restored sequence)) :
      Move label now r
        { operationFinished r op restored op.claimFingerprint with updatedAt := now }
  | deliver {r} (delivery : Option DeliveryBinding) (h : r.state = .finished)
      (hok : r.result.any (·.ok) = true) (hown : ∀ b ∈ delivery, b.runId = r.runId) :
      Move label now r { r with delivery, updatedAt := now }
  | publish {r} (state : PublicationState) (h : r.triagePublication.isSome = true) :
      Move label now r { r with triagePublication := some ⟨state⟩, updatedAt := now }

/-! ### What every move keeps -/

theorem Settlement.frozen {label : Step} {now : Time} {r s : Run} (h : Settlement label now r s) :
    s.frozen = r.frozen := by
  cases h <;> rfl

theorem Settlement.terminal {label : Step} {now : Time} {r s : Run} (h : Settlement label now r s) :
    isLive s.state = false := by
  cases h <;> rfl

theorem Cleaned.frozen {given : Option String} {r s r' : Run} (h : Cleaned given r s r') : r'.frozen = s.frozen := by
  cases h <;> rfl

theorem Cleaned.state {given : Option String} {r s r' : Run} (h : Cleaned given r s r') : r'.state = s.state := by
  cases h <;> rfl

theorem Cleaned.delivery {given : Option String} {r s r' : Run} (h : Cleaned given r s r') : r'.delivery = s.delivery := by
  cases h <;> rfl

theorem Cleaned.result {given : Option String} {r s r' : Run} (h : Cleaned given r s r') : r'.result = s.result := by
  cases h <;> rfl

/-- A settlement keeps the queue record, or retires it. -/
theorem Settlement.queue_cases {label : Step} {now : Time} {r s : Run}
    (hs : Settlement label now r s) : s.queue = r.queue ∨ s.queue = r.queue.map (·.retire) := by
  cases hs with
  | lose cause =>
    unfold lostRun
    dsimp only
    split_ifs
    · exact .inr rfl
    · exact .inl rfl
  | _ => exact .inl rfl

theorem Cleaned.queue {given : Option String} {r s r' : Run} (h : Cleaned given r s r') : r'.queue = s.queue := by
  cases h <;> rfl

theorem operationFinished_queue (r : Run) (op : CredentialOperation) (restored : Bool)
    (fingerprint : String) :
    (operationFinished r op restored fingerprint).queue = r.queue ∨
      (operationFinished r op restored fingerprint).queue = r.queue.map (·.retire) := by
  unfold operationFinished
  dsimp only
  split_ifs
  · exact .inr rfl
  · exact .inl rfl

section Move

variable {label : Step} {now : Time} {r r' : Run}

/-- No move touches what was fixed at admission. -/
theorem Move.frozen (h : Move label now r r') : r'.frozen = r.frozen := by
  cases h with
  | settle _ _ hs hc => exact hc.frozen.trans hs.frozen
  | _ => rfl

/-- A terminal run stays in its state and keeps its result. -/
theorem Move.terminal (h : Move label now r r') (hr : isLive r.state = false) :
    r'.state = r.state ∧ r'.result = r.result := by
  cases h with
  | confirm hp => simp [hp, isLive] at hr
  | settle hl => simp [hl] at hr
  | complete _ _ _ _ hl => simp [hl] at hr
  | _ => exact ⟨rfl, rfl⟩

theorem Move.live_of_live (h : Move label now r r') (hr : isLive r'.state = true) :
    isLive r.state = true := by
  by_contra hd
  rw [Bool.not_eq_true] at hd
  rw [(h.terminal hd).1, hd] at hr
  cases hr

end Move

end AgentLcars
