import AgentLcars.Decide

/-!
# Credential operations

`libs/orchestrator/src/credential-operation.ts`.  A run that uses the shared Codex lineage
serializes its external compare-and-set writes through one reservation on the run: prepare,
acknowledge, and finish with positive proof that the lease is retired at the current sequence.
-/

namespace AgentLcars

/-- This schedules reconciliation, never grants timeout-based unlock. -/
def CREDENTIAL_RECOVERY_DELAY_MS : Time := 5 * 60000

/-- When recovery may next look at an operation touched now. -/
def credentialRecoverAfter (now : Time) : Time := now + CREDENTIAL_RECOVERY_DELAY_MS

/-- Reserve the run's one credential operation for its exact claimant. -/
def reserveCredentialOperation (now : Time) (task : Task) (run : Run) (claimFingerprint : String)
    (id : String) (kind : CredentialKind) : Outcome :=
  if ¬usesCodexCredentials run ∨ ¬isClaimant run claimFingerprint then refused .notClaimant
  else if run.credentialOperation.isSome then refused .credentialOperationPending
  else if kind ≠ .cleanup ∧ ¬isLive run.state then refused .runNotLive
  else if kind ≠ .cleanup ∧
      (task.activeRunId ≠ some run.runId ∨ recoveryDeadlineElapsed run now) then refused .staleLease
  else .ok
    { task
      run := some { run with
        credentialOperation := some
          { id, kind, claimFingerprint, startedAt := now, mutationSequence := 0
            recoverAfter := credentialRecoverAfter now }
        updatedAt := now } }

/-- A change of a reserved operation. -/
inductive CredentialChange where
  | prepare (mutation : CredentialMutation)
  | acknowledge (mutationId : String) (receipt : Option CredentialWriteReceipt)
  | retryRecovery
  | finish (restored : Bool) (leaseRetiredAtSequence : Option Nat)
  deriving DecidableEq, Repr

/-- The id of the mutation with a given sequence number. -/
def mutationIdOf (operationId : String) (sequence : Nat) : String :=
  operationId ++ ":" ++ toString sequence

/-- An executor-loss event, or a receipt, is already physical-exit evidence. -/
def exitProven (run : Run) : Bool :=
  run.events.getLast?.any fun event => event.by_ = .executor ∧
    (run.state = .lost ∨ event.note = some RECIPE_EXIT_PENDING_CREDENTIAL_CLEANUP)

/-- The run after its operation is finished: a recipe whose worker is proven gone retires its
claim with the cleanup. -/
def operationFinished (run : Run) (operation : CredentialOperation) (restored : Bool)
    (claimFingerprint : String) : Run :=
  { run with
    credentialOperation := none
    queue := if operation.kind = .cleanup ∧ run.pipeline = "goose" ∧ ¬isLive run.state ∧
        exitProven run ∧ run.queueState = some .claimed then run.queue.map (·.retire) else run.queue
    credentialRestoredClaimFingerprint := if restored then some claimFingerprint
      else run.credentialRestoredClaimFingerprint }

/-- Only this exact reserved operation can prepare, acknowledge or finish its writes. -/
def changeCredentialOperation (now : Time) (task : Task) (run : Run) (id : String)
    (claimFingerprint : String) (change : CredentialChange) : Outcome :=
  match run.credentialOperation with
  | none => refused .notClaimant
  | some operation =>
    if operation.id ≠ id ∨ operation.claimFingerprint ≠ claimFingerprint ∨
        ¬isClaimant run claimFingerprint then refused .notClaimant
    else match change with
      | .prepare mutation =>
        if mutation.id ≠ mutationIdOf operation.id (operation.mutationSequence + 1) ∨
            100 ≤ operation.mutationSequence then refused .notClaimant
        else if operation.mutation.isSome then refused .credentialOperationPending
        else .ok
          { task
            run := some { run with
              credentialOperation := some { operation with
                mutation := some mutation, mutationSequence := operation.mutationSequence + 1 }
              updatedAt := now } }
      | .acknowledge mutationId receipt =>
        if operation.mutation.map (·.id) ≠ some mutationId then refused .notClaimant
        else .ok
          { task
            run := some { run with
              credentialOperation := some { operation with mutation := none }
              credentialWriteReceipt := receipt.or run.credentialWriteReceipt
              updatedAt := now } }
      | .retryRecovery => .ok
          { task
            run := some { run with
              credentialOperation := some { operation with
                recoverAfter := credentialRecoverAfter now }
              updatedAt := now } }
      | .finish restored leaseRetiredAtSequence =>
        if operation.mutation.isSome then refused .credentialOperationPending
        else if (operation.kind = .cleanup ∨ run.credentialPendingResult.isSome) ∧
            leaseRetiredAtSequence ≠ some operation.mutationSequence then
          refused .credentialOperationPending
        else
          let next := operationFinished run operation restored claimFingerprint
          match run.credentialPendingResult with
          | some pending =>
            reportResult now task next pending.result (some pending.claimFingerprint)
          | none => .ok { task, run := some { next with updatedAt := now } }

end AgentLcars
