import AgentLcars.CodexOperations
import AgentLcars.Transition

/-!
# Brokers at work

Any number of broker processes work on one orchestrator, one credential object and one lease object.
The storage evaluates the condition of a write when it carries it out, which may be after the caller
has given up waiting; it never uses a generation twice.  All processes read one clock, which never
goes back.  Anything else may happen to the runs in between, and a process may stop anywhere.

* `BrokerState` is what the processes share, `BrokerWorld` adds the processes;
* `BrokerState.execute` is what one call does and returns;
* `BrokerAct` lists the acts, `BrokerWorld.step` carries one out.

Records that no process reads: the versions of an object that were replaced, the UUIDs that were
drawn, and the journal of all mutations.
-/

namespace AgentLcars

/-! ### Objects -/

/-- A version of an object, and the write that made it. -/
structure ObjectVersion (α : Type) where
  generation : String
  content : α
  expectedGeneration : String := "0"
  origin : Option WriteOrigin := none

/-- The current generation, `0` of an object that does not exist; the newest version comes first. -/
def generationOf {α : Type} (versions : List (ObjectVersion α)) : String :=
  (versions.head?.map (·.generation)).getD "0"

/-- The version that a write makes. -/
def ObjectWrite.version {α : Type} (write : ObjectWrite α) (generation : String) :
    ObjectVersion α where
  generation
  content := write.content
  expectedGeneration := write.expectedGeneration
  origin := some write.origin

/-- A generation that the object never had. -/
def isFreshGeneration {α : Type} (versions : List (ObjectVersion α)) (generation : String) : Bool :=
  isPositiveDecimal generation ∧ versions.all fun version => version.generation ≠ generation

/-- The version with a generation. -/
def versionAt {α : Type} (versions : List (ObjectVersion α)) (generation : String) :
    Option (ObjectVersion α) :=
  versions.find? fun version => version.generation = generation

/-! ### What the processes share -/

/-- A mutation that was journalled: on which operation of which claim, by which process, and whether
the object had had the generation it expects. -/
structure JournalEntry where
  runId : String
  operationId : String
  claimFingerprint : String
  mutation : CredentialMutation
  by_ : Nat
  known : Bool
  deriving DecidableEq

/-- What the processes share. -/
structure BrokerState where
  clock : Time := 0
  world : World := .init
  lease : List (ObjectVersion CodexLeaseRecord)
  auth : List (ObjectVersion CodexAuthObject)
  leaseWrites : List (ObjectWrite CodexLeaseRecord) := []
  authWrites : List (ObjectWrite CodexAuthObject) := []
  issued : List String := []
  unspent : List (String × Nat) := []
  journal : List JournalEntry := []

/-- Whether the object had the generation that a mutation expects. -/
def BrokerState.knows (s : BrokerState) : CredentialMutation → Bool
  | .leaseWrite _ expectedGeneration _ _ => expectedGeneration = "0" ∨
      (versionAt s.lease expectedGeneration).isSome
  | .authWrite _ expectedGeneration _ => (versionAt s.auth expectedGeneration).isSome

/-- The operation that a run has reserved. -/
def World.operation (w : World) (runId : String) : Option CredentialOperation :=
  (w.store.runs.get runId).bind (·.credentialOperation)

/-- The mutation that a process has journalled. -/
def BrokerState.journalled (s : BrokerState) (pid : Nat) (runId : String) (after : World) :
    Option JournalEntry :=
  match s.world.operation runId, after.operation runId with
  | some ⟨_, _, _, _, _, _, none⟩, some op =>
    op.mutation.map fun mutation =>
      { runId, operationId := op.id, claimFingerprint := op.claimFingerprint, mutation, by_ := pid
        known := s.knows mutation }
  | _, _ => none

/-- The UUID that a transaction uses up. -/
def DirectOp.spends : DirectOp → Option String
  | .reserveCredentialOperation _ id _ => some id
  | _ => none

/-- The state after a process's transaction. -/
def BrokerState.transacted (s : BrokerState) (pid : Nat) (runId : String) (now : Time)
    (op : DirectOp) : BrokerState :=
  { s with
    world := s.world.step (.direct runId now op)
    journal := (s.journalled pid runId (s.world.step (.direct runId now op))).toList ++ s.journal
    unspent := s.unspent.filter fun drawn => some drawn.1 ≠ op.spends }

/-- Carry a write out, under a generation that the storage has never used. -/
def ObjectWrite.carryOut {α : Type} (write : ObjectWrite α) (generation : String)
    (versions : List (ObjectVersion α)) (s : BrokerState)
    (written : List (ObjectVersion α) → BrokerState) : Option (SaveReply × BrokerState) :=
  if generationOf versions ≠ write.expectedGeneration then some (.refused, s)
  else if isFreshGeneration versions generation then
    some (.saved, written (write.version generation :: versions))
  else none

def BrokerState.writeLease (s : BrokerState) (write : ObjectWrite CodexLeaseRecord)
    (generation : String) : Option (SaveReply × BrokerState) :=
  write.carryOut generation s.lease s fun lease => { s with lease }

def BrokerState.writeAuth (s : BrokerState) (write : ObjectWrite CodexAuthObject)
    (generation : String) : Option (SaveReply × BrokerState) :=
  write.carryOut generation s.auth s fun auth => { s with auth }

/-- The runs that `listCredentialOperations` lists. -/
def Store.listCredentialOperations (s : Store) (now : Time) (limit : Nat) : List Run :=
  (((s.runs.values.filterMap fun run => run.credentialOperation.map fun operation =>
      (operation.recoverAfter, run)).filter (·.1 ≤ now)).insertionSort fun a b =>
    a.1 < b.1 ∨ (a.1 = b.1 ∧ a.2.runId ≤ b.2.runId)).take limit |>.map (·.2)

/-! ### Calls -/

/-- How a call is answered: `lost` carries it out and loses the reply, `late` may carry a write out
later, `gone` is the status 404 of a version that was replaced.  The text is the fresh generation or
UUID, where one is needed. -/
inductive BrokerAnswer where
  | returns (fresh : String := "")
  | lost (fresh : String := "")
  | late
  | gone
  | fails

/-- What a conditional write does and returns. -/
def BrokerAnswer.save (answer : BrokerAnswer) (s late : BrokerState)
    (write : String → Option (SaveReply × BrokerState)) : Option (SaveReply × BrokerState) :=
  match answer with
  | .returns fresh => write fresh
  | .lost fresh => (write fresh).map fun (_, s) => (.failed, s)
  | .late => some (.failed, late)
  | _ => some (.failed, s)

/-- What a transaction does and returns. -/
def BrokerAnswer.commit {α : Type} (answer : BrokerAnswer) (s committed : BrokerState)
    (outcome : α) : Option (Option α × BrokerState) :=
  match answer with
  | .returns _ => some (some outcome, committed)
  | .lost _ => some (none, committed)
  | _ => some (none, s)

/-- What a read returns. -/
def BrokerAnswer.read {α : Type} (answer : BrokerAnswer) (replaced : Bool) (value : Option α) :
    ReadReply α :=
  match answer, value with
  | .returns _, some value => .found value
  | .returns _, none => .missing
  | .gone, _ => if replaced then .missing else .failed
  | _, _ => .failed

/-- What a call of a process does and returns; an answer that the storage cannot give is none. -/
def BrokerState.execute (s : BrokerState) (pid : Nat) (answer : BrokerAnswer) :
    (c : BrokerCall) → Option (c.Reply × BrokerState)
  | .now => some (s.clock, s)
  | .randomUUID =>
    match answer with
    | .returns fresh =>
      if fresh ∈ s.issued then none
      else some (fresh,
        { s with issued := fresh :: s.issued, unspent := (fresh, pid) :: s.unspent })
    | _ => none
  | .transact runId at_ op =>
    let now := at_.getD s.clock
    answer.commit s (s.transacted pid runId now op) (Orchestrator.direct s.world.store runId now op).1
  | .renew runId claimFingerprint providerProcessStarted =>
    let label (id : String) : Step :=
      .onRun runId s.clock id (.renew claimFingerprint providerProcessStarted)
    match answer with
    | .returns fresh | .lost fresh =>
      if fresh ∈ s.issued then none
      else answer.commit s
        { s with world := s.world.step (label fresh), issued := fresh :: s.issued }
        (Orchestrator.onRun s.world.store runId s.clock fresh
          (.renew claimFingerprint providerProcessStarted)).1
    | _ => some (none, s)
  | .readRun runId =>
    match answer with
    | .returns _ => some (some (s.world.store.runs.get runId), s)
    | _ => some (none, s)
  | .listCredentialOperations now limit =>
    match answer with
    | .returns _ => some (some (s.world.store.listCredentialOperations now limit), s)
    | _ => some (none, s)
  | .leaseMetadata => some (answer.read false (s.lease.head?.map (·.generation)), s)
  | .leaseDownload generation =>
    some (answer.read (generationOf s.lease ≠ generation)
      ((versionAt s.lease generation).map (·.content)), s)
  | .authMetadata =>
    some (answer.read false
      (s.auth.head?.map fun version => (version.generation, version.content.receipt)), s)
  | .authDownload generation =>
    some (answer.read (generationOf s.auth ≠ generation)
      ((versionAt s.auth generation).map (·.content.bytes)), s)
  | .saveLease write =>
    answer.save s { s with leaseWrites := s.leaseWrites ++ [write] } (s.writeLease write)
  | .saveAuth write =>
    answer.save s { s with authWrites := s.authWrites ++ [write] } (s.writeAuth write)

/-! ### Processes -/

/-- What a process is asked to do; the run is a snapshot that was authenticated before. -/
inductive BrokerCommand where
  | restore (run : Run) (repository : String)
  | renew (run heartbeat : Run) (providerProcessStarted : Bool)
  | release (run : Run)
  | persist (run : Run) (repository : String) (input : PersistInput)
  | recover

/-- What a process returns. -/
inductive BrokerResult where
  | restored (credential : RestoredCredential)
  | renewed (run : Run)
  | released
  | persisted (status : PersistStatus)
  | recovered (recovered unresolved : List String)

/-- The program of a command. -/
def BrokerCommand.routine (env : CodexEnv) : BrokerCommand → BrokerM BrokerResult
  | .restore run repository => do
    return .restored (← env.restoreCodexCredential run repository)
  | .renew run heartbeat providerProcessStarted => do
    return .renewed (← env.renewCodexCredentialLease run
      (Broker.renew heartbeat providerProcessStarted))
  | .release run => do
    env.releaseCodexCredentialLease run
    return .released
  | .persist run repository input => do
    return .persisted (← env.persistCodexCredential run repository input)
  | .recover => do
    let (recovered, unresolved) ← env.recoverCodexCredentialOperations
    return .recovered recovered unresolved

/-- What a process has left to do. -/
abbrev BrokerProgram :=
  CallProgram BrokerCall BrokerCall.Reply (Except BrokerError BrokerResult × Nat)

/-- A process: what it was asked, and what it has left to do. -/
structure BrokerProcess where
  command : BrokerCommand
  program : BrokerProgram

/-- The processes and what they share. -/
structure BrokerWorld where
  state : BrokerState
  processes : OrderedMap Nat BrokerProcess := .empty

/-- Before anything happened; the objects may exist already. -/
def BrokerWorld.init (lease : Option CodexLeaseRecord) (auth : Option (List UInt8)) :
    BrokerWorld where
  state :=
    { lease := (lease.map fun record => { generation := "1", content := record }).toList
      auth := (auth.map fun bytes => { generation := "1", content := { bytes } }).toList }

/-- What can happen. -/
inductive BrokerAct where
  | elsewhere (label : Step)
  | advance (milliseconds : Nat)
  | start (pid : Nat) (command : BrokerCommand)
  | act (pid : Nat) (answer : BrokerAnswer)
  | arriveLease (i : Nat) (generation : String)
  | arriveAuth (i : Nat) (generation : String)

/-- The steps that only brokers take. -/
def Step.isBrokers (label : Step) : Bool :=
  label.credentialChange.isSome ∨ label.reservation.isSome

/-- What happens to the runs elsewhere; a settlement draws the id of its cleanup. -/
def BrokerState.elsewhere (s : BrokerState) (label : Step) : BrokerState :=
  if label.isBrokers ∨ label.cleanupId.any (· ∈ s.issued) then s
  else { s with world := s.world.step label, issued := label.cleanupId.toList ++ s.issued }

/-- A late write of the lease is carried out. -/
def BrokerState.arriveLease (s : BrokerState) (i : Nat) (generation : String) : BrokerState :=
  match s.leaseWrites[i]? with
  | none => s
  | some write =>
    match s.writeLease write generation with
    | none => s
    | some (_, s) => { s with leaseWrites := s.leaseWrites.eraseIdx i }

/-- A late write of the credential is carried out. -/
def BrokerState.arriveAuth (s : BrokerState) (i : Nat) (generation : String) : BrokerState :=
  match s.authWrites[i]? with
  | none => s
  | some write =>
    match s.writeAuth write generation with
    | none => s
    | some (_, s) => { s with authWrites := s.authWrites.eraseIdx i }

/-- What an act does. -/
def BrokerWorld.step (env : CodexEnv) (w : BrokerWorld) : BrokerAct → BrokerWorld
  | .elsewhere label => { w with state := w.state.elsewhere label }
  | .advance milliseconds =>
    { w with state := { w.state with clock := w.state.clock + milliseconds } }
  | .start pid command =>
    if w.processes.get pid = none then
      { w with processes := w.processes.set pid { command, program := command.routine env 0 } }
    else w
  | .act pid answer =>
    match w.processes.get pid with
    | some ⟨command, .call c next⟩ =>
      match w.state.execute pid answer c with
      | none => w
      | some (reply, state) =>
        { state, processes := w.processes.set pid { command, program := next reply } }
    | _ => w
  | .arriveLease i generation => { w with state := w.state.arriveLease i generation }
  | .arriveAuth i generation => { w with state := w.state.arriveAuth i generation }

/-- The system after a run of acts. -/
def BrokerWorld.run (env : CodexEnv) (w : BrokerWorld) (acts : List BrokerAct) : BrokerWorld :=
  Machine.run (BrokerWorld.step env) w acts

end AgentLcars
