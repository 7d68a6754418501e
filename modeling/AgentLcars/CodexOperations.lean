import AgentLcars.CodexAuthStore

/-!
# The broker's credential operations

`apps/console/src/lib/codex-credential-operations.ts`.  Every external write is journalled on its run
first: prepare, write, acknowledge.  A reservation on the run serializes its operations; recovery
fences what an interrupted one left behind.

* `ReservedCodexOperation` with `begin`, `mutate`, `acquire`, `release` and `finish`;
* `restoreCodexCredential`, `renewCodexCredentialLease`, `releaseCodexCredentialLease` and
  `persistCodexCredential` are what workers ask for;
* `recoverCodexCredentialOperations` is the maintenance pass.

Logging is left out.
-/

namespace AgentLcars

/-! ### Transactions on the run -/

/-- A transaction on a run: a decision or a refusal. -/
def Broker.transact (runId : String) (op : DirectOp) (at_ : Option Time := none) :
    BrokerM (Except Refusal Decision) := do
  let outcome : Option Outcome ← Routine.call (BrokerCall.transact runId at_ op)
  match outcome with
  | some (.ok decision) => return .ok decision
  | some (.error (.refusal refusal)) => return .error refusal
  | _ => throw .failed

/-- `store.readRun`. -/
def Broker.readRun (runId : String) : BrokerM (Option Run) := do
  let reply : Option (Option Run) ← Routine.call (BrokerCall.readRun runId)
  match reply with
  | some run => return run
  | none => throw .failed

/-- `decidedRun`. -/
def Broker.decidedRun (decision : Decision) : BrokerM Run :=
  match decision.run with
  | some run => return run
  | none => throw .failed

/-- A refusal of the broker's own. -/
def Broker.refused (reason : Reason) : Except Refusal Decision := .error { reason }

/-! ### Finishing -/

/-- A lease of exactly this claim. -/
def CodexAuthLease.ownedBy (lease : CodexAuthLease) (runId claimFingerprint : String) : Bool :=
  lease.runId = runId ∧ lease.claimFingerprint = some claimFingerprint

/-- The lease, if it is an unexpired lease of exactly this claim. -/
def Broker.liveOwned (runId claimFingerprint : String) (lease : Option CodexAuthLease) :
    BrokerM (Option CodexAuthLease) := do
  match lease with
  | none => return none
  | some lease =>
    if lease.ownedBy runId claimFingerprint = false then return none
    let now ← Broker.now
    return if now < lease.expiresAt then some lease else none

/-- The journalled form of a lease's release. -/
def releaseMutation (id : String) (lease : CodexAuthLease) : CredentialMutation :=
  .leaseWrite id lease.generation lease.repository 0

/-- Whether a write was definitively refused, or never made. -/
def BrokerError.definitive : BrokerError → Bool
  | .codexAuth kind _ => kind ≠ .unavailable
  | _ => false

/-- A journalled change of the operation. -/
def Broker.change (runId operationId claimFingerprint : String) (next : CredentialChange)
    (at_ : Option Time := none) : BrokerM (Except Refusal Decision) :=
  Broker.transact runId (.changeCredentialOperation operationId claimFingerprint next) at_

/-- Journal the release of a lease, write it and acknowledge it; a refusal of the journal ends it. -/
def Broker.retire (runId operationId claimFingerprint : String) (sequence : Nat)
    (lease : CodexAuthLease) (at_ : Option Time := none) : BrokerM (Except Refusal Decision) := do
  let id := mutationIdOf operationId (sequence + 1)
  match ← Broker.change runId operationId claimFingerprint (.prepare (releaseMutation id lease)) at_ with
  | .error refusal => return .error refusal
  | .ok _ =>
    tryCatch (releaseLease lease id) fun error => do
      if error.definitive then
        let _ ← Broker.change runId operationId claimFingerprint (.acknowledge id none) at_
      throw error
    Broker.change runId operationId claimFingerprint (.acknowledge id none) at_

/-- The attempts of `finishCredentialOperation`, with the sequence number at which the lease was
found or made retired. -/
def CodexEnv.finishFrom (env : CodexEnv) (runId operationId claimFingerprint : String)
    (restored : Bool) : Nat → Option Nat → BrokerM (Except Refusal Decision)
  | 0, _ => return Broker.refused .credentialOperationPending
  | attempts + 1, leaseRetiredAtSequence => do
    let finished ← Broker.transact runId (.finishCredentialOperation env.authority operationId
      claimFingerprint restored leaseRetiredAtSequence)
    match finished with
    | .ok decision => return .ok decision
    | .error refusal =>
      if refusal.reason ≠ .credentialOperationPending then return .error refusal
      let current ← Broker.readRun runId
      match current.bind (·.credentialOperation) with
      | none => return Broker.refused .notClaimant
      | some operation =>
        if operation.id ≠ operationId ∨ operation.claimFingerprint ≠ claimFingerprint then
          return Broker.refused .notClaimant
        if operation.mutation.isSome ∨ (operation.kind ≠ .cleanup ∧
            current.bind (·.credentialPendingResult) = none) then
          return .error refusal
        let lease ← readLease
        match ← Broker.liveOwned runId claimFingerprint lease with
        | none =>
          -- absent, expired, historical or foreign: not this operation's live lease
          env.finishFrom runId operationId claimFingerprint restored attempts
            (some operation.mutationSequence)
        | some lease =>
          match ← Broker.retire runId operationId claimFingerprint operation.mutationSequence lease with
          | .error refusal => return .error refusal
          | .ok acknowledged =>
            let run ← Broker.decidedRun acknowledged
            env.finishFrom runId operationId claimFingerprint restored attempts
              (run.credentialOperation.map (·.mutationSequence))

/-- `finishCredentialOperation`. -/
def CodexEnv.finishCredentialOperation (env : CodexEnv) (runId operationId claimFingerprint : String)
    (restored : Bool := false) : BrokerM (Except Refusal Decision) :=
  env.finishFrom runId operationId claimFingerprint restored 3 none

/-! ### Reserved operations -/

/-- `ReservedCodexOperation`, without the number of the mutations it has named. -/
structure ReservedCodexOperation where
  id : String
  claimFingerprint : String
  run : Run

namespace ReservedCodexOperation

/-- `new ReservedCodexOperation(context, run)`. -/
def new (run : Run) : BrokerM ReservedCodexOperation := do
  let id ← Broker.randomUUID
  Routine.update fun _ => ((), 0)
  return { id, claimFingerprint := run.tokenHash.getD "", run }

/-- `new ReservedCodexOperation(context, run, reserved)`. -/
def resumed (run : Run) (reserved : CredentialOperation) : BrokerM ReservedCodexOperation := do
  Routine.update fun _ => ((), reserved.mutationSequence)
  return { id := reserved.id, claimFingerprint := run.tokenHash.getD "", run }

variable (operation : ReservedCodexOperation)

/-- `nextMutationId`. -/
def nextMutationId : BrokerM String := do
  let sequence ← Routine.update fun sequence => (sequence + 1, sequence + 1)
  return mutationIdOf operation.id sequence

/-- `accept`. -/
def accept : Except Refusal Decision → BrokerM Run
  | .error refusal =>
    if refusal.reason = .credentialOperationPending then
      throw (.orpc "CONFLICT" "Credential operation pending recovery")
    else throw (.orpc "UNAUTHORIZED" "Run claim changed")
  | .ok decision => Broker.decidedRun decision

/-- `begin`. -/
def begin (kind : CredentialKind) : BrokerM Run := do
  accept (← Broker.transact operation.run.runId
    (.reserveCredentialOperation operation.claimFingerprint operation.id kind))

/-- `change`. -/
def change (next : CredentialChange) : BrokerM Run := do
  accept (← Broker.change operation.run.runId operation.id operation.claimFingerprint next)

/-- `mutate`. -/
def mutate {α : Type} (mutation : CredentialMutation) (perform : BrokerM α)
    (receipt : Option CredentialWriteReceipt := none) : BrokerM α := do
  let _ ← operation.change (.prepare mutation)
  let performed ← tryCatch perform fun error => do
    -- only a definitive refusal clears a prepared action
    if error.definitive then
      let _ ← operation.change (.acknowledge mutation.id none)
    throw error
  let _ ← operation.change (.acknowledge mutation.id receipt)
  return performed

/-- `finish`. -/
def finish (env : CodexEnv) (restored : Bool := false) : BrokerM Run := do
  accept (← env.finishCredentialOperation operation.run.runId operation.id
    operation.claimFingerprint restored)

/-- `finishIfResolved`. -/
def finishIfResolved (env : CodexEnv) : BrokerM Unit := do
  let current ← Broker.readRun operation.run.runId
  if (current.bind (·.credentialOperation)).any fun current =>
      current.id = operation.id ∧ current.mutation = none then
    let _ ← operation.finish env

/-- `owned`. -/
def owned (lease : Option CodexAuthLease) (repository : Option String := none) : Bool :=
  lease.any fun lease => lease.ownedBy operation.run.runId operation.claimFingerprint ∧
    repository.all fun repository => lease.repository = repository

/-- `release`. -/
def release (lease : CodexAuthLease) : BrokerM Unit := do
  let id ← operation.nextMutationId
  operation.mutate (releaseMutation id lease) (releaseLease lease id)

/-- The acquired lease is this operation's own. -/
def acquired (repository id : String) (lease : CodexAuthLease) : BrokerM CodexAuthLease :=
  if operation.owned (some lease) (some repository) ∧ lease.operationId = some id then
    return lease
  else throw (.codexAuth .conflict "Codex subscription lease changed concurrently")

/-- The write of an acquisition, at the lease it has read. -/
def take (repository id : String) (lease : Option CodexAuthLease) : BrokerM CodexAuthLease :=
  let expectedGeneration := (lease.map (·.generation)).getD "0"
  let input : CodexLeaseWrite :=
    { runId := operation.run.runId, repository, expiresAt := operation.run.leaseExpiresAt
      claimFingerprint := operation.claimFingerprint, operationId := id }
  operation.mutate (.leaseWrite id expectedGeneration repository input.expiresAt)
    (if lease.isNone then createLease input else takeLease input expectedGeneration)

/-- The lease that `acquire` has read, if it serves as it is; one of somebody else is in use. -/
def serving (repository : String) (lease : Option CodexAuthLease) :
    BrokerM (Option CodexAuthLease) := do
  match lease with
  | none => return none
  | some lease =>
    if operation.owned (some lease) (some repository) then
      let now ← Broker.now
      if now < lease.expiresAt then return some lease
    let now ← Broker.now
    if now < lease.expiresAt then
      throw (.codexAuth .conflict "Codex subscription authentication is already in use")
    return none

/-- The attempts of `acquire`. -/
def acquireFrom (repository : String) : Nat → BrokerM CodexAuthLease
  | 0 => throw (.codexAuth .conflict "Codex subscription lease changed concurrently")
  | attempts + 1 => do
    let lease ← readLease
    match ← operation.serving repository lease with
    | some lease => return lease
    | none =>
      let id ← operation.nextMutationId
      match ← Broker.attempt (operation.take repository id lease) with
      | .ok lease => operation.acquired repository id lease
      | .error (.codexAuth .conflict _) => acquireFrom repository attempts
      | .error error => throw error

/-- `acquire`. -/
def acquire (repository : String) : BrokerM CodexAuthLease := operation.acquireFrom repository 5

end ReservedCodexOperation

/-! ### Restoring -/

/-- What a worker is handed. -/
structure RestoredCredential where
  authBase64 : String
  generation : String
  sha256 : String
  deriving DecidableEq, Repr

/-- The `catch` of `restoreCodexCredential`. -/
def CodexEnv.abandonRestore {α : Type} (env : CodexEnv) (operation : ReservedCodexOperation)
    (lease : Option CodexAuthLease) (error : BrokerError) : BrokerM α := do
  let current ← Broker.readRun operation.run.runId
  match lease with
  | some lease =>
    if (current.bind (·.credentialOperation)).map (·.id) = some operation.id then
      let _ ← Broker.attempt (operation.release lease)
  | none => pure ()
  operation.finishIfResolved env
  throw error

/-- The rest of `restoreCodexCredential`, under the lease. -/
def CodexEnv.restoreUnder (env : CodexEnv) (operation : ReservedCodexOperation) :
    BrokerM RestoredCredential := do
  let snapshot ← env.read
  let finished ← operation.finish env true
  if finished.state = .finished then
    throw (.orpc "UNAUTHORIZED" "Run completed during credential restore")
  return {
    authBase64 := snapshot.authBase64, generation := snapshot.generation, sha256 := snapshot.sha256 }

/-- `restoreCodexCredential`. -/
def CodexEnv.restoreCodexCredential (env : CodexEnv) (run : Run) (repository : String) :
    BrokerM RestoredCredential := do
  let operation ← ReservedCodexOperation.new run
  let _ ← operation.begin .restore
  match ← Broker.attempt (operation.acquire repository) with
  | .error error => env.abandonRestore operation none error
  | .ok lease => tryCatch (env.restoreUnder operation) (env.abandonRestore operation (some lease))

/-! ### Renewing -/

/-- The callback that a heartbeat passes to `renewCodexCredentialLease`. -/
def Broker.renew (run : Run) (providerProcessStarted : Bool) : BrokerM Run := do
  let outcome : Option Outcome ←
    Routine.call (BrokerCall.renew run.runId (some (run.tokenHash.getD "")) providerProcessStarted)
  match outcome with
  | some (.ok decision) => return decision.run.getD run
  | some (.error (.refusal _)) => throw (.orpc "UNAUTHORIZED" "Run heartbeat refused")
  | _ => throw .failed

/-- `renewCodexCredentialLease`. -/
def CodexEnv.renewCodexCredentialLease (env : CodexEnv) (run : Run) (renew : BrokerM Run) :
    BrokerM Run := do
  let operation ← ReservedCodexOperation.new run
  let _ ← operation.begin .renew
  let renewing : BrokerM Run := do
    let renewed ← renew
    let lease ← readLease
    match lease with
    | some lease =>
      if operation.owned (some lease) then
        let id ← operation.nextMutationId
        let _ ← operation.mutate
          (.leaseWrite id lease.generation lease.repository renewed.leaseExpiresAt)
          (takeLease
            { runId := run.runId, repository := lease.repository
              expiresAt := renewed.leaseExpiresAt, claimFingerprint := operation.claimFingerprint
              operationId := id } lease.generation)
        return ← operation.finish env
    | none => pure ()
    -- a heartbeat before the restore renews nothing
    if renewed.credentialRestoredClaimFingerprint ≠ some operation.claimFingerprint then
      operation.finish env
    else throw (.codexAuth .conflict "Codex subscription lease is not owned by this claim")
  tryCatch renewing fun error => do
    operation.finishIfResolved env
    throw error

/-! ### Releasing -/

/-- `releaseCodexCredentialLease`. -/
def CodexEnv.releaseCodexCredentialLease (env : CodexEnv) (run : Run) : BrokerM Unit := do
  match ← Broker.readRun run.runId with
  | none => throw (.orpc "UNAUTHORIZED" "Run claim changed")
  | some currentRun =>
    if currentRun.tokenHash ≠ run.tokenHash then throw (.orpc "UNAUTHORIZED" "Run claim changed")
    let finishing (operation : ReservedCodexOperation) : BrokerM Unit :=
      tryCatch (do let _ ← operation.finish env) fun error => do
        operation.finishIfResolved env
        throw error
    match currentRun.credentialOperation.filter (·.kind = .cleanup) with
    | none =>
      let operation ← ReservedCodexOperation.new currentRun
      let _ ← operation.begin .cleanup
      finishing operation
    | some reserved =>
      let operation ← ReservedCodexOperation.resumed currentRun reserved
      let current ← Broker.readRun run.runId
      match current.bind (·.credentialOperation) with
      | none => return ()
      | some current =>
        if current.id ≠ reserved.id ∨ current.claimFingerprint ≠ operation.claimFingerprint then
          throw (.orpc "UNAUTHORIZED" "Run claim changed")
        if current.mutation.isSome then
          throw (.orpc "CONFLICT" "Credential operation pending recovery")
        finishing operation

/-! ### Persisting -/

/-- What a worker asks to persist. -/
structure PersistInput where
  generation : String
  authBase64 : String
  restoredSha256 : String
  authFailure : Option String := none
  deriving DecidableEq, Repr

/-- How a persistence ended. -/
inductive PersistStatus where
  | skippedBurned
  | unchanged
  | updated
  deriving DecidableEq, Repr

/-- An exact retry of a confirmed rotation. -/
def CodexEnv.retries (env : CodexEnv) (operation : ReservedCodexOperation) (input : PersistInput)
    (previous : Option CredentialWriteReceipt) : Bool :=
  input.authFailure = none ∧ previous.any fun previous =>
    previous.claimFingerprint = operation.claimFingerprint ∧
    previous.expectedGeneration = input.generation ∧
    previous.sha256 = env.sha256 (env.decodeBase64 input.authBase64)

/-- The lease under which a rotation is written. -/
def ReservedCodexOperation.held (operation : ReservedCodexOperation) (repository : String) :
    BrokerM CodexAuthLease := do
  match ← readLease with
  | none =>
    throw (.codexAuth .conflict "Codex subscription lease is not owned by this claim")
  | some lease =>
    if operation.owned (some lease) (some repository) then
      let now ← Broker.now
      if now < lease.expiresAt then return lease
    throw (.codexAuth .conflict "Codex subscription lease is not owned by this claim")

/-- The write of a rotation, if there is anything to write. -/
def CodexEnv.rotate (env : CodexEnv) (operation : ReservedCodexOperation) (input : PersistInput) :
    BrokerM PersistStatus := do
  let sha256 := env.sha256 (env.decodeBase64 input.authBase64)
  if input.authFailure.isSome then return .skippedBurned
  if sha256 = input.restoredSha256 then return .unchanged
  let id ← operation.nextMutationId
  let receipt : CredentialWriteReceipt :=
    { operationId := id, claimFingerprint := operation.claimFingerprint
      expectedGeneration := input.generation, sha256 }
  operation.mutate (.authWrite id input.generation sha256)
    (env.replace input.generation input.authBase64 receipt) (some receipt)
  return .updated

/-- The end of `persistCodexCredential`: the lease is released unless a write is unresolved. -/
def CodexEnv.concludePersist (env : CodexEnv) (operation : ReservedCodexOperation)
    (lease : Option CodexAuthLease) (result : Except BrokerError PersistStatus) :
    BrokerM PersistStatus := do
  let current ← Broker.readRun operation.run.runId
  let resolved := (current.bind (·.credentialOperation)).any fun current =>
    current.id = operation.id ∧ current.mutation = none
  let result ← match lease, resolved with
    | some lease, true => do
      match ← Broker.attempt (operation.release lease) with
      | .ok () => pure result
      | .error error =>
        -- a failed release outweighs only a status that nothing was persisted under
        match result with
        | .ok .updated | .error _ => pure result
        | .ok _ => pure (.error error)
    | _, _ => pure result
  operation.finishIfResolved env
  Broker.ofExcept result

/-- `persistCodexCredential`. -/
def CodexEnv.persistCodexCredential (env : CodexEnv) (run : Run) (repository : String)
    (input : PersistInput) : BrokerM PersistStatus := do
  let operation ← ReservedCodexOperation.new run
  let reserved ← operation.begin .persist
  if env.retries operation input reserved.credentialWriteReceipt then
    env.concludePersist operation none (.ok .updated)
  else
    match ← Broker.attempt (operation.held repository) with
    | .error error => env.concludePersist operation none (.error error)
    | .ok lease =>
      let result ← Broker.attempt (env.rotate operation input)
      env.concludePersist operation (some lease) result

/-! ### Recovering -/

/-- What recovery makes of one run. -/
inductive RecoveryResult where
  | recovered
  | unresolved
  | skipped
  deriving DecidableEq, Repr

/-- Whether recovery retires the lease of an operation: renewals keep it unless a completion has
been accepted. -/
def retiresLease (operation : CredentialOperation) (current : Run) : Bool :=
  operation.kind = .persist ∨ operation.kind = .cleanup ∨ current.credentialPendingResult.isSome ∨
    (operation.kind = .restore ∧
      current.credentialRestoredClaimFingerprint ≠ some operation.claimFingerprint)

/-- The body of the loop of `recoverCodexCredentialOperations`. -/
def CodexEnv.recoverOperation (env : CodexEnv) (now : Time) (run : Run)
    (operation : CredentialOperation) : BrokerM RecoveryResult := do
  let change (next : CredentialChange) : BrokerM (Except Refusal Decision) :=
    Broker.change run.runId operation.id operation.claimFingerprint next (some now)
  let .ok _ ← change .retryRecovery | return .skipped
  if let some mutation := operation.mutation then
    let receipt ← env.fenceMutation run.runId operation mutation
    let .ok _ ← change (.acknowledge mutation.id receipt) | return .skipped
  let some current ← Broker.readRun run.runId | return .skipped
  let some journalled := current.credentialOperation | return .skipped
  if journalled.id ≠ operation.id then return .skipped
  if retiresLease operation current then
    let lease ← readLease
    if let some lease ← Broker.liveOwned run.runId operation.claimFingerprint lease then
      let .ok _ ← Broker.retire run.runId operation.id operation.claimFingerprint
        journalled.mutationSequence lease (some now) | return .skipped
  match ← env.finishCredentialOperation run.runId operation.id operation.claimFingerprint with
  | .ok _ => return .recovered
  | .error _ => return .skipped

/-- The loop of `recoverCodexCredentialOperations`. -/
def CodexEnv.recoverAll (env : CodexEnv) (now : Time) :
    List Run → BrokerM (List String × List String)
  | [] => return ([], [])
  | run :: runs => do
    let result ← match run.credentialOperation with
      | none => pure .skipped
      | some operation =>
        tryCatch (env.recoverOperation now run operation) fun _ => pure .unresolved
    let (recovered, unresolved) ← env.recoverAll now runs
    match result with
    | .recovered => return (run.runId :: recovered, unresolved)
    | .unresolved => return (recovered, run.runId :: unresolved)
    | .skipped => return (recovered, unresolved)

/-- `recoverCodexCredentialOperations`. -/
def CodexEnv.recoverCodexCredentialOperations (env : CodexEnv) :
    BrokerM (List String × List String) := do
  let now ← Broker.now
  let runs : Option (List Run) ← Routine.call (BrokerCall.listCredentialOperations now 30)
  match runs with
  | none => throw .failed
  | some runs => env.recoverAll now runs

end AgentLcars
