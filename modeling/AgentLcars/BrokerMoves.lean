import AgentLcars.OperationMoves
import AgentLcars.Lib.Versions

/-!
# Moves of the broker system

* `BrokerState.Sound` is the invariant of what the processes share: which mutations are journalled,
  which writes are in flight, and what every generation that a write expects was read under;
* `MayCall` lists what a broker process may ask for, `BrokerMove` all that can happen to the shared
  state when it asks for no more;
* `BrokerMove.operation` is what a move does to the operation of a run.

A generation that an object has had and has no more is superseded: no write that expects it is
carried out again.
-/

namespace AgentLcars

/-! ### Leases -/

/-- An unexpired lease of exactly this claim. -/
structure CodexLeaseRecord.LiveFor (record : CodexLeaseRecord) (now : Time) (runId : String)
    (claimFingerprint : String) : Prop where
  runId : record.runId = runId
  claimFingerprint : record.claimFingerprint = some claimFingerprint
  unexpired : now < record.expiresAt

namespace BrokerState

variable (s : BrokerState)

/-- The lease object is an unexpired lease of exactly this claim. -/
def LiveLease (runId claimFingerprint : String) : Prop :=
  ∃ v, s.lease.head? = some v ∧ v.content.LiveFor s.clock runId claimFingerprint

/-- The lease object has had this generation and has it no more. -/
def LeaseSuperseded (generation : String) : Prop :=
  Versions.Superseded (·.generation) "0" s.lease generation

/-- The credential object has had this generation and has it no more. -/
def AuthSuperseded (generation : String) : Prop :=
  Versions.Superseded (·.generation) "0" s.auth generation

/-- The lease of this generation may be overwritten: there was none, it had expired, or it is this
claim's own. -/
def Entitled (runId claimFingerprint generation repository : String) : Prop :=
  generation = "0" ∨ ∃ v ∈ s.lease, v.generation = generation ∧
    (v.content.expiresAt ≤ s.clock ∨ (v.content.runId = runId ∧
      v.content.claimFingerprint = some claimFingerprint ∧ v.content.repository = repository))

/-- A UUID that was drawn and used. -/
structure Spent (id : String) : Prop where
  issued : id ∈ s.issued
  used : ∀ pid, (id, pid) ∉ s.unspent

/-- A completion of the run is accepted and waits for its operation. -/
def Pending (runId : String) : Prop :=
  ∃ run, s.world.store.runs.get runId = some run ∧ run.credentialPendingResult.isSome = true

end BrokerState

/-- The mutation is prepared on its run and not acknowledged. -/
def JournalEntry.Outstanding (s : BrokerState) (e : JournalEntry) : Prop :=
  ∃ op, s.world.operation e.runId = some op ∧ op.id = e.operationId ∧ op.mutation = some e.mutation

/-! ### Writes -/

/-- What a write of a journalled lease mutation may leave: the record of the mutation, an expired
record where there was none, or the record that a fence keeps. -/
inductive LeaseContent (s : BrokerState) (e : JournalEntry) (id generation repository : String)
    (expiresAt : Time) : Bool → CodexLeaseRecord → Prop where
  | performed : LeaseContent s e id generation repository expiresAt false
      { runId := e.runId, repository, expiresAt, claimFingerprint := some e.claimFingerprint
        operationId := some id }
  | created (hgeneration : generation = "0") (record : CodexLeaseRecord)
      (hexpired : record.expiresAt = 0) :
      LeaseContent s e id generation repository expiresAt true record
  | kept (v : ObjectVersion CodexLeaseRecord) (hv : v ∈ s.lease)
      (hgeneration : v.generation = generation) :
      LeaseContent s e id generation repository expiresAt true
        (fencedLease e.runId e.claimFingerprint id repository expiresAt v.content)

/-- A lease write is one of a journalled mutation, or its fence. -/
def LeaseWrite (s : BrokerState) (w : ObjectWrite CodexLeaseRecord) : Prop :=
  ∃ e ∈ s.journal, ∃ repository expiresAt,
    e.mutation = .leaseWrite w.origin.mutationId w.expectedGeneration repository expiresAt ∧
    LeaseContent s e w.origin.mutationId w.expectedGeneration repository expiresAt w.origin.fence
      w.content

/-- The receipt of a journalled rotation. -/
def JournalEntry.receipt (e : JournalEntry) (id generation sha256 : String) :
    CredentialWriteReceipt :=
  { operationId := id, claimFingerprint := e.claimFingerprint, expectedGeneration := generation
    sha256 }

/-- What a write of a journalled rotation may leave: the rotated bytes with the rotation's receipt,
or whatever a fence read, with the receipt it read. -/
inductive AuthContent (env : CodexEnv) (s : BrokerState) (e : JournalEntry)
    (id generation sha256 : String) : Bool → CodexAuthObject → Prop where
  | performed (bytes : List UInt8) (hbytes : env.sha256 bytes = sha256) :
      AuthContent env s e id generation sha256 false
        { bytes, receipt := some (e.receipt id generation sha256) }
  | kept (v : ObjectVersion CodexAuthObject) (hv : v ∈ s.auth) (bytes : List UInt8) :
      AuthContent env s e id generation sha256 true
        { bytes, receipt := receiptFromMetadata v.content.receipt }

/-- A write of the credential is one of a journalled rotation, or its fence. -/
def AuthWrite (env : CodexEnv) (s : BrokerState) (w : ObjectWrite CodexAuthObject) : Prop :=
  ∃ e ∈ s.journal, ∃ sha256,
    e.mutation = .authWrite w.origin.mutationId w.expectedGeneration sha256 ∧
    AuthContent env s e w.origin.mutationId w.expectedGeneration sha256 w.origin.fence w.content

/-- A rotation is written only while its mutation is outstanding, or in vain.  Nothing is said of a
generation that the object had not had when the mutation was journalled. -/
def AuthReady (s : BrokerState) (w : ObjectWrite CodexAuthObject) : Prop :=
  w.origin.fence = false → ∀ e ∈ s.journal, e.mutation.id = w.origin.mutationId → e.known = true →
    e.Outstanding s ∨ s.AuthSuperseded w.expectedGeneration

/-- The write that a receipt tells of was carried out. -/
structure Rotation (env : CodexEnv) (s : BrokerState) (receipt : CredentialWriteReceipt)
    (e : JournalEntry) (u : ObjectVersion CodexAuthObject) : Prop where
  journalled : e ∈ s.journal
  version : u ∈ s.auth
  origin : u.origin = some ⟨receipt.operationId, false⟩
  mutation : e.mutation =
    .authWrite receipt.operationId receipt.expectedGeneration receipt.sha256
  claimFingerprint : e.claimFingerprint = receipt.claimFingerprint
  expectedGeneration : u.expectedGeneration = receipt.expectedGeneration
  sha256 : env.sha256 u.content.bytes = receipt.sha256

/-- Some write that this receipt tells of was carried out. -/
def Rotated (env : CodexEnv) (s : BrokerState) (receipt : CredentialWriteReceipt) : Prop :=
  ∃ e u, Rotation env s receipt e u

/-- A write of this run that this receipt tells of was carried out. -/
def RotatedBy (env : CodexEnv) (s : BrokerState) (runId : String)
    (receipt : CredentialWriteReceipt) : Prop :=
  ∃ e u, e.runId = runId ∧ Rotation env s receipt e u

/-! ### What a process may ask for -/

/-- The mutation of a prepared lease write is one that its claim is entitled to; a cleanup only
retires. -/
def MayPrepare (s : BrokerState) (runId operationId claimFingerprint : String) :
    CredentialMutation → Prop
  | .leaseWrite _ generation repository expiresAt =>
    s.Entitled runId claimFingerprint generation repository ∧ ∀ op,
      s.world.operation runId = some op → op.id = operationId → op.kind = .cleanup → expiresAt = 0
  | .authWrite _ _ _ => True

/-- No write of an acknowledged mutation is carried out any more, and its receipt is true. -/
structure MayAcknowledge (env : CodexEnv) (s : BrokerState) (pid : Nat) (runId mutationId : String)
    (receipt : Option CredentialWriteReceipt) : Prop where
  lease : ∀ e ∈ s.journal, ∀ generation repository expiresAt,
    e.mutation = .leaseWrite mutationId generation repository expiresAt →
      s.LeaseSuperseded generation
  auth : ∀ e ∈ s.journal, ∀ generation sha256, e.mutation = .authWrite mutationId generation sha256 →
    e.known = true → s.AuthSuperseded generation ∨
      (e.by_ = pid ∧ ∀ w ∈ s.authWrites, w.origin ≠ ⟨mutationId, false⟩)
  receipt : ∀ given, receipt = some given → RotatedBy env s runId given

/-- The lease of the claim is retired as long as the operation has this sequence number. -/
def Retired (s : BrokerState) (runId operationId claimFingerprint : String) (sequence : Nat) : Prop :=
  ∀ op, s.world.operation runId = some op → op.id = operationId →
    (op.kind = .cleanup ∨ s.Pending runId) ∧
    (op.mutationSequence = sequence → ¬s.LiveLease runId claimFingerprint)

/-- What a process may ask of the store of the runs. -/
def MayTransact (env : CodexEnv) (s : BrokerState) (pid : Nat) (runId : String) : DirectOp → Prop
  | .reserveCredentialOperation _ id _ => (id, pid) ∈ s.unspent
  | .changeCredentialOperation id claimFingerprint (.prepare mutation) =>
    MayPrepare s runId id claimFingerprint mutation
  | .changeCredentialOperation _ _ (.acknowledge mutationId receipt) =>
    MayAcknowledge env s pid runId mutationId receipt
  | .changeCredentialOperation _ _ .retryRecovery => True
  | .finishCredentialOperation _ id claimFingerprint _ sequence =>
    ∀ n, sequence = some n → Retired s runId id claimFingerprint n
  | _ => False

/-- What a process may call. -/
def MayCall (env : CodexEnv) (pid : Nat) (c : BrokerCall) (s : BrokerState) : Prop :=
  match c with
  | .transact runId _ op => MayTransact env s pid runId op
  | .saveLease write => LeaseWrite s write
  | .saveAuth write => AuthWrite env s write ∧ AuthReady s write ∧
      (write.origin.fence = false → ∀ e ∈ s.journal, e.mutation.id = write.origin.mutationId →
        e.by_ = pid)
  | _ => True

/-! ### Moves -/

/-- All that can happen to what the processes share, and by which process. -/
inductive BrokerMove (env : CodexEnv) (by_ : Option Nat) (s : BrokerState) : BrokerState → Prop where
  | advance (milliseconds : Nat) :
      BrokerMove env by_ s { s with clock := s.clock + milliseconds }
  | elsewhere (label : Step) (hlabel : label.isBrokers = false)
      (hfresh : ∀ id, label.cleanupId = some id → id ∉ s.issued) :
      BrokerMove env by_ s
        { s with world := s.world.step label, issued := label.cleanupId.toList ++ s.issued }
  | drawn (pid : Nat) (id : String) (hby : by_ = some pid) (hfresh : id ∉ s.issued) :
      BrokerMove env by_ s
        { s with issued := id :: s.issued, unspent := (id, pid) :: s.unspent }
  | transacted (pid : Nat) (runId : String) (now : Time) (op : DirectOp) (hby : by_ = some pid)
      (hmay : MayTransact env s pid runId op) :
      BrokerMove env by_ s (s.transacted pid runId now op)
  | leaseSent (write : ObjectWrite CodexLeaseRecord) (hwrite : LeaseWrite s write) :
      BrokerMove env by_ s { s with leaseWrites := s.leaseWrites ++ [write] }
  | leaseDropped (i : Nat) :
      BrokerMove env by_ s { s with leaseWrites := s.leaseWrites.eraseIdx i }
  | leaseWritten (write : ObjectWrite CodexLeaseRecord) (generation : String)
      (hwrite : LeaseWrite s write) (hcurrent : generationOf s.lease = write.expectedGeneration)
      (hfresh : isFreshGeneration s.lease generation = true) :
      BrokerMove env by_ s { s with lease := write.version generation :: s.lease }
  | authSent (write : ObjectWrite CodexAuthObject) (hwrite : AuthWrite env s write)
      (hready : AuthReady s write) (pid : Nat) (hby : by_ = some pid)
      (hown : write.origin.fence = false → ∀ e ∈ s.journal,
        e.mutation.id = write.origin.mutationId → e.by_ = pid) :
      BrokerMove env by_ s { s with authWrites := s.authWrites ++ [write] }
  | authDropped (i : Nat) :
      BrokerMove env by_ s { s with authWrites := s.authWrites.eraseIdx i }
  | authWritten (write : ObjectWrite CodexAuthObject) (generation : String)
      (hwrite : AuthWrite env s write) (hready : AuthReady s write)
      (hcurrent : generationOf s.auth = write.expectedGeneration)
      (hfresh : isFreshGeneration s.auth generation = true) :
      BrokerMove env by_ s { s with auth := write.version generation :: s.auth }

/-! ### The invariant -/

namespace BrokerState

/-- UUIDs are used once, and every mutation of an operation is journalled under a number of its
own. -/
structure Journalled (s : BrokerState) : Prop where
  world : ∃ steps, s.world = World.init.run steps
  clock : 0 ≤ s.clock
  drawn : ∀ x ∈ s.unspent, x.1 ∈ s.issued
  owner : ∀ {id p q}, (id, p) ∈ s.unspent → (id, q) ∈ s.unspent → p = q
  reserved : ∀ {r op}, s.world.operation r = some op → s.Spent op.id
  distinct : ∀ {r r' op op'}, s.world.operation r = some op → s.world.operation r' = some op' →
    op.id = op'.id → r = r'
  spent : ∀ e ∈ s.journal, s.Spent e.operationId
  numbered : ∀ e ∈ s.journal, ∃ k, e.mutation.id = mutationIdOf e.operationId k ∧
    ∀ r op, s.world.operation r = some op → op.id = e.operationId →
      r = e.runId ∧ op.claimFingerprint = e.claimFingerprint ∧ k ≤ op.mutationSequence
  unique : ∀ e ∈ s.journal, ∀ e' ∈ s.journal, e.mutation.id = e'.mutation.id → e = e'
  entry : ∀ {r op m}, s.world.operation r = some op → op.mutation = some m →
    ∃ e ∈ s.journal, e.runId = r ∧ e.operationId = op.id ∧
      e.claimFingerprint = op.claimFingerprint ∧ e.mutation = m
  cleanup : ∀ {r op id generation repository expiresAt}, s.world.operation r = some op →
    op.kind = .cleanup → op.mutation = some (.leaseWrite id generation repository expiresAt) →
    expiresAt = 0

/-- Lease mutations are entitled to the generation they expect, and outstanding or in vain. -/
structure Leased (s : BrokerState) : Prop where
  distinct : Versions.Distinct (·.generation) "0" s.lease
  entitled : ∀ e ∈ s.journal, ∀ id generation repository expiresAt,
    e.mutation = .leaseWrite id generation repository expiresAt →
      s.Entitled e.runId e.claimFingerprint generation repository
  settled : ∀ e ∈ s.journal, ∀ id generation repository expiresAt,
    e.mutation = .leaseWrite id generation repository expiresAt →
      e.Outstanding s ∨ s.LeaseSuperseded generation
  flying : ∀ w ∈ s.leaseWrites, LeaseWrite s w

/-- Rotations are written for outstanding mutations, and receipts tell of rotations that were
written. -/
structure Authored (env : CodexEnv) (s : BrokerState) : Prop where
  distinct : Versions.Distinct (·.generation) "0" s.auth
  known : ∀ e ∈ s.journal, ∀ id generation sha256, e.mutation = .authWrite id generation sha256 →
    e.known = true → ∃ v ∈ s.auth, v.generation = generation
  positive : ∀ v ∈ s.auth, isPositiveDecimal v.generation = true
  flying : ∀ w ∈ s.authWrites, AuthWrite env s w ∧ AuthReady s w
  stored : ∀ v ∈ s.auth, ∀ receipt, v.content.receipt = some receipt → Rotated env s receipt
  confirmed : ∀ {r run receipt}, s.world.store.runs.get r = some run →
    run.credentialWriteReceipt = some receipt → RotatedBy env s r receipt

/-- The invariant of what the processes share. -/
structure Sound (env : CodexEnv) (s : BrokerState) : Prop where
  journalled : s.Journalled
  leased : s.Leased
  authored : s.Authored env

end BrokerState

/-! ### What a move does to an operation -/

/-- What a move does to the operation of a run. -/
inductive OperationChange (env : CodexEnv) (s s' : BrokerState) (by_ : Option Nat) (r : String) :
    Option CredentialOperation → Option CredentialOperation → Prop where
  | same (o : Option CredentialOperation) : OperationChange env s s' by_ r o o
  | begun (op : CredentialOperation) (hunspent : ¬s.Spent op.id) (hspent : s'.Spent op.id)
      (hsequence : op.mutationSequence = 0) (hmutation : op.mutation = none)
      (halone : ∀ r', r' ≠ r → s'.world.operation r' = s.world.operation r') :
      OperationChange env s s' by_ r none (some op)
  | prepared (op : CredentialOperation) (mutation : CredentialMutation) (pid : Nat)
      (hby : by_ = some pid) (hid : mutation.id = mutationIdOf op.id (op.mutationSequence + 1))
      (hmutation : op.mutation = none)
      (hmay : MayPrepare s r op.id op.claimFingerprint mutation)
      (hjournal : s'.journal =
        ⟨r, op.id, op.claimFingerprint, mutation, pid, s.knows mutation⟩ :: s.journal) :
      OperationChange env s s' by_ r (some op) (some { op with
        mutation := some mutation, mutationSequence := op.mutationSequence + 1 })
  | acknowledged (op : CredentialOperation) (mutation : CredentialMutation)
      (receipt : Option CredentialWriteReceipt) (pid : Nat) (hby : by_ = some pid)
      (hmutation : op.mutation = some mutation)
      (hmay : MayAcknowledge env s pid r mutation.id receipt) :
      OperationChange env s s' by_ r (some op) (some { op with mutation := none })
  | retried (op : CredentialOperation) (recoverAfter : Time) :
      OperationChange env s s' by_ r (some op) (some { op with recoverAfter })
  | finished (op : CredentialOperation) (hmutation : op.mutation = none) :
      OperationChange env s s' by_ r (some op) none

section Moves

variable {env : CodexEnv} {by_ : Option Nat} {s s' : BrokerState}

/-- An operation whose mutation is prepared has its entry in the journal. -/
theorem BrokerState.transacted_journal {pid : Nat} {runId : String} {now : Time} {op : DirectOp}
    {before : CredentialOperation} {mutation : CredentialMutation}
    (hbefore : s.world.operation runId = some before) (hmutation : before.mutation = none)
    (hafter : (s.transacted pid runId now op).world.operation runId = some { before with
      mutation := some mutation, mutationSequence := before.mutationSequence + 1 }) :
    (s.transacted pid runId now op).journal =
      ⟨runId, before.id, before.claimFingerprint, mutation, pid, s.knows mutation⟩ :: s.journal := by
  show (s.journalled pid runId _).toList ++ s.journal = _
  have hafter' : (s.world.step (.direct runId now op)).operation runId = _ := hafter
  unfold BrokerState.journalled
  rw [hbefore, hafter']
  obtain ⟨id, kind, fingerprint, startedAt, sequence, recoverAfter, m⟩ := before
  obtain rfl : m = none := hmutation
  rfl

/-- The journal of a transaction, of whatever kind. -/
theorem BrokerState.transacted_journal_cases (s : BrokerState) (pid : Nat) (runId : String)
    (now : Time) (op : DirectOp) :
    (s.transacted pid runId now op).journal = s.journal ∨
      ∃ before after mutation, s.world.operation runId = some before ∧ before.mutation = none ∧
        (s.transacted pid runId now op).world.operation runId = some after ∧
        after.mutation = some mutation := by
  show (s.journalled pid runId _).toList ++ s.journal = _ ∨ _
  unfold BrokerState.journalled
  split
  · rename_i before after hbefore hafter
    cases hm : after.mutation with
    | none => exact .inl rfl
    | some mutation => exact .inr ⟨_, after, mutation, hbefore, rfl, hafter, hm⟩
  · exact .inl rfl

theorem Step.isBrokers_eq_false {label : Step} (h : label.isBrokers = false) :
    label.credentialChange = none ∧ label.reservation = none := by
  unfold Step.isBrokers at h
  simp only [decide_eq_false_iff_not, not_or, Option.isSome_iff_ne_none, ne_eq, not_not] at h
  exact h

/-- The change that a transaction makes to an operation of its run. -/
theorem Step.credentialChange_direct {runId r id f : String} {now : Time} {op : DirectOp}
    {change : CredentialChange}
    (h : (Step.direct runId now op).credentialChange = some (r, id, f, change)) :
    runId = r ∧ (op = .changeCredentialOperation id f change ∨ ∃ authority restored sequence,
      op = .finishCredentialOperation authority id f restored sequence ∧
      change = .finish restored sequence) := by
  cases op with
  | changeCredentialOperation =>
    cases h
    exact ⟨rfl, .inl rfl⟩
  | finishCredentialOperation =>
    cases h
    exact ⟨rfl, .inr ⟨_, _, _, rfl, rfl⟩⟩
  | _ => cases h

/-- A transaction of a process is about one run. -/
theorem BrokerState.transacted_beside (hs : s.Journalled) {pid : Nat} {runId : String} {now : Time}
    {op : DirectOp} {r : String} (hne : r ≠ runId) :
    (s.transacted pid runId now op).world.operation r = s.world.operation r := by
  obtain ⟨steps, hsteps⟩ := hs.world
  show (s.world.step (.direct runId now op)).operation r = _
  have hmove := World.operation_moves steps (.direct runId now op) r
  rw [← hsteps] at hmove
  have hchange : ∀ id f change,
      (Step.direct runId now op).credentialChange ≠ some (r, id, f, change) :=
    fun id f change h => hne (Step.credentialChange_direct h).1.symm
  have hreservation : ∀ f id kind,
      (Step.direct runId now op).reservation ≠ some (r, f, id, kind) := by
    intro f id kind h
    cases op <;> simp only [Step.reservation, Option.some.injEq, Prod.mk.injEq, reduceCtorEq] at h
    exact hne h.1.symm
  generalize s.world.operation r = before at hmove ⊢
  generalize (s.world.step (.direct runId now op)).operation r = after at hmove ⊢
  cases hmove with
  | same => rfl
  | reserved _ _ _ _ hlabel => exact absurd hlabel (hreservation _ _ _)
  | owed _ _ _ hlabel => cases hlabel
  | prepared _ _ hlabel => exact absurd hlabel (hchange _ _ _)
  | acknowledged _ _ _ hlabel => exact absurd hlabel (hchange _ _ _)
  | retried _ _ hlabel => exact absurd hlabel (hchange _ _ _)
  | finished _ _ _ hlabel => exact absurd hlabel (hchange _ _ _)

/-- What a transaction that a process may make does to the operation of a run. -/
theorem MayTransact.operation (hs : s.Journalled) {pid : Nat} {runId : String} (now : Time)
    {op : DirectOp} (hmay : MayTransact env s pid runId op) (r : String) :
    OperationChange env s (s.transacted pid runId now op) (some pid) r (s.world.operation r)
      ((s.transacted pid runId now op).world.operation r) := by
  obtain ⟨steps, hsteps⟩ := hs.world
  have hmove : OperationMove (.direct runId now op) r (s.world.operation r)
      ((s.transacted pid runId now op).world.operation r) := by
    show OperationMove _ r _ ((s.world.step (.direct runId now op)).operation r)
    rw [hsteps]
    exact World.operation_moves steps (.direct runId now op) r
  generalize hbefore : s.world.operation r = before at hmove
  generalize hafter : (s.transacted pid runId now op).world.operation r = after at hmove
  cases hmove with
  | same => exact .same _
  | reserved claimFingerprint id kind startedAt hlabel =>
    cases op with
    | reserveCredentialOperation f id' kind' =>
      simp only [Step.reservation, Option.some.injEq, Prod.mk.injEq] at hlabel
      obtain ⟨rfl, rfl, rfl, rfl⟩ := hlabel
      refine .begun _ (fun hspent => hspent.used pid hmay) ⟨hs.drawn _ hmay, fun q hq => ?_⟩ rfl rfl
        fun r' hne => BrokerState.transacted_beside hs hne
      have hq' := (List.mem_filter.1 hq).2
      simp [DirectOp.spends] at hq'
    | _ => cases hlabel
  | owed _ _ _ hlabel => cases hlabel
  | prepared o mutation hlabel hid hmutation =>
    obtain ⟨rfl, rfl | ⟨_, _, _, -, hne⟩⟩ := Step.credentialChange_direct hlabel
    · exact .prepared o mutation pid rfl hid hmutation hmay
        (s.transacted_journal hbefore hmutation hafter)
    · cases hne
  | acknowledged o mutation receipt hlabel hmutation =>
    obtain ⟨rfl, rfl | ⟨_, _, _, -, hne⟩⟩ := Step.credentialChange_direct hlabel
    · exact .acknowledged o mutation receipt pid rfl hmutation hmay
    · cases hne
  | retried o recoverAfter hlabel => exact .retried o recoverAfter
  | finished o restored sequence hlabel hmutation hcleanup => exact .finished o hmutation

/-- What a move does to the operation of a run. -/
theorem BrokerMove.operation (hs : s.Journalled) (hmove : BrokerMove env by_ s s') (r : String) :
    OperationChange env s s' by_ r (s.world.operation r) (s'.world.operation r) := by
  cases hmove with
  | elsewhere label hlabel hfresh =>
    obtain ⟨hchange, hreservation⟩ := Step.isBrokers_eq_false hlabel
    obtain ⟨steps, hsteps⟩ := hs.world
    have hmove : OperationMove label r (s.world.operation r)
        ((s.world.step label).operation r) := by
      rw [hsteps]
      exact World.operation_moves steps label r
    show OperationChange _ _ _ _ _ _ ((s.world.step label).operation r)
    generalize hbefore : s.world.operation r = before at hmove
    generalize hafter : (s.world.step label).operation r = after at hmove
    cases hmove with
    | same => exact .same _
    | reserved _ _ _ _ hlabel => rw [hreservation] at hlabel; cases hlabel
    | owed claimFingerprint id now hlabel =>
      have hnew := hfresh id hlabel
      refine .begun _ (fun hspent => hnew hspent.issued) ⟨?_, fun q hq => hnew (hs.drawn _ hq)⟩ rfl
        rfl fun r' hne => ?_
      · show id ∈ label.cleanupId.toList ++ s.issued
        rw [hlabel]
        exact List.mem_cons_self
      · cases label with
        | onRun runId now' cleanupId op =>
          by_cases hrun : runId = r
          · show (s.world.step (.onRun runId now' cleanupId op)).operation r' = _
            rw [hsteps, World.operation_beside steps r' _ _ _ _ (hrun ▸ hne.symm)]
          · have hbeside := World.operation_beside steps r runId cleanupId now' op hrun
            rw [← hsteps, hbefore, hafter] at hbeside
            cases hbeside
        | _ => cases hlabel
    | prepared _ _ hlabel => rw [hchange] at hlabel; cases hlabel
    | acknowledged _ _ _ hlabel => rw [hchange] at hlabel; cases hlabel
    | retried _ _ hlabel => rw [hchange] at hlabel; cases hlabel
    | finished _ _ _ hlabel => rw [hchange] at hlabel; cases hlabel
  | transacted pid runId now op hby hmay =>
    subst hby
    exact hmay.operation hs _ r
  | _ => exact .same _

end Moves

end AgentLcars
