import AgentLcars.Lib.CallPrograms
import AgentLcars.Schema

/-!
# The shared Codex credential in object storage

`apps/console/src/lib/codex-auth-store.ts`.  One object holds the credential, one its lease.  Every
write is conditional on the generation it replaces; a read resolves the current generation and then
downloads exactly that one.

* `BrokerCall` lists the calls that broker code makes, `BrokerM` is the code between them;
* `readLease`, `read`, `createLease`, `takeLease`, `releaseLease`, `replace` and `fenceMutation` are
  the operations of the store.

Instants are milliseconds, so `1970-01-01T00:00:00.000Z` is `0`.  The lease object holds the text of
a record, valid or not; only brokers write it.
-/

namespace AgentLcars

/-! ### What is stored -/

/-- `CODEX_AUTH_MAX_BYTES`. -/
def CODEX_AUTH_MAX_BYTES : Nat := 256 * 1024

/-- `CodexAuthStoreErrorKind`. -/
inductive CodexAuthStoreErrorKind where
  | notFound
  | conflict
  | invalid
  | unavailable
  deriving DecidableEq, Repr

/-- What broker code throws: an error of the credential storage, an answer to the caller, or a
failure of anything else. -/
inductive BrokerError where
  | codexAuth (kind : CodexAuthStoreErrorKind) (message : String)
  | orpc (code message : String)
  | failed
  deriving DecidableEq, Repr

/-- The JSON text of the lease object. -/
structure CodexLeaseRecord where
  runId : String
  repository : String
  expiresAt : Time
  claimFingerprint : Option String := none
  operationId : Option String := none
  deriving DecidableEq, Repr

/-- `CodexAuthLease`: the record with the generation it was read at. -/
structure CodexAuthLease extends CodexLeaseRecord where
  generation : String
  deriving DecidableEq, Repr

/-- The credential object: its bytes, and the receipt among its metadata. -/
structure CodexAuthObject where
  bytes : List UInt8
  receipt : Option CredentialWriteReceipt := none
  deriving DecidableEq, Repr

/-- `CodexAuthSnapshot`. -/
structure CodexAuthSnapshot where
  authBase64 : String
  generation : String
  sha256 : String
  receipt : Option CredentialWriteReceipt
  deriving DecidableEq, Repr

/-- Which journalled mutation a write performs or fences; a record beside the stored object. -/
structure WriteOrigin where
  mutationId : String
  fence : Bool
  deriving DecidableEq, Repr

/-- A conditional write of an object. -/
structure ObjectWrite (α : Type) where
  origin : WriteOrigin
  expectedGeneration : String
  content : α
  deriving DecidableEq, Repr

/-- `/^[0-9]+$/`. -/
def isDecimal (text : String) : Bool := text ≠ "" ∧ text.toList.all Char.isDigit

/-- `/^[1-9][0-9]*$/`. -/
def isPositiveDecimal (text : String) : Bool := isDecimal text ∧ text.toList.head? ≠ some '0'

/-- What `readLease` requires of the parsed record. -/
def CodexLeaseRecord.valid (record : CodexLeaseRecord) : Bool :=
  record.runId ≠ "" ∧ record.repository ≠ "" ∧
    (record.claimFingerprint.all fun fingerprint => isHexText 64 fingerprint) ∧
    record.operationId.all fun id => id ≠ "" ∧ jsLength id ≤ 128

/-- `receiptFromMetadata`. -/
def receiptFromMetadata (metadata : Option CredentialWriteReceipt) :
    Option CredentialWriteReceipt :=
  metadata.filter fun receipt => receipt.operationId ≠ "" ∧ isHexText 64 receipt.claimFingerprint ∧
    isDecimal receipt.expectedGeneration ∧ isHexText 64 receipt.sha256

/-! ### Calls -/

/-- What broker code asks of the clock, the orchestrator's store and the object storage. -/
inductive BrokerCall where
  | now
  | randomUUID
  | transact (runId : String) (at_ : Option Time) (op : DirectOp)
  | renew (runId : String) (claimFingerprint : Option String) (providerProcessStarted : Bool)
  | readRun (runId : String)
  | listCredentialOperations (now : Time) (limit : Nat)
  | leaseMetadata
  | leaseDownload (generation : String)
  | authMetadata
  | authDownload (generation : String)
  | saveLease (write : ObjectWrite CodexLeaseRecord)
  | saveAuth (write : ObjectWrite CodexAuthObject)

/-- A read of an object: `missing` is the status 404. -/
inductive ReadReply (α : Type) where
  | found (value : α)
  | missing
  | failed

/-- A conditional write: `refused` is the status 412, and nothing is known after `failed`. -/
inductive SaveReply where
  | saved
  | refused
  | failed
  deriving DecidableEq

/-- What a call returns; without a value, the store of the runs threw. -/
def BrokerCall.Reply : BrokerCall → Type
  | .now => Time
  | .randomUUID => String
  | .transact _ _ _ | .renew _ _ _ => Option Outcome
  | .readRun _ => Option (Option Run)
  | .listCredentialOperations _ _ => Option (List Run)
  | .leaseMetadata => ReadReply String
  | .leaseDownload _ => ReadReply CodexLeaseRecord
  | .authMetadata => ReadReply (String × Option CredentialWriteReceipt)
  | .authDownload _ => ReadReply (List UInt8)
  | .saveLease _ | .saveAuth _ => SaveReply

/-- Broker code; its own state is the number of mutations it has named. -/
abbrev BrokerM := Routine BrokerCall BrokerCall.Reply BrokerError Nat

/-- What the broker's text functions compute: `Buffer.from(text, 'base64')` and its inverse, the
digest in hexadecimal, whether the bytes parse to a JSON object, and the authority of the
orchestrator's fallback. -/
structure CodexEnv where
  decodeBase64 : String → List UInt8
  encodeBase64 : List UInt8 → String
  sha256 : List UInt8 → String
  parsesToObject : List UInt8 → Bool
  authority : Option ProviderFallbackAuthority := none

namespace Broker

def now : BrokerM Time := Routine.call BrokerCall.now

def randomUUID : BrokerM String := Routine.call BrokerCall.randomUUID

def leaseMetadata : BrokerM (ReadReply String) := Routine.call BrokerCall.leaseMetadata

def leaseDownload (generation : String) : BrokerM (ReadReply CodexLeaseRecord) :=
  Routine.call (BrokerCall.leaseDownload generation)

def authMetadata : BrokerM (ReadReply (String × Option CredentialWriteReceipt)) :=
  Routine.call BrokerCall.authMetadata

def authDownload (generation : String) : BrokerM (ReadReply (List UInt8)) :=
  Routine.call (BrokerCall.authDownload generation)

def save (write : ObjectWrite CodexLeaseRecord) : BrokerM SaveReply :=
  Routine.call (BrokerCall.saveLease write)

def saveAuth (write : ObjectWrite CodexAuthObject) : BrokerM SaveReply :=
  Routine.call (BrokerCall.saveAuth write)

/-- What a routine throws, as a value. -/
def attempt {α : Type} (p : BrokerM α) : BrokerM (Except BrokerError α) :=
  tryCatch (do return .ok (← p)) fun error => return .error error

end Broker

/-! ### The store -/

/-- `decodedAuth`. -/
def decodedAuth (env : CodexEnv) (authBase64 : String) : Except BrokerError (List UInt8) :=
  let bytes := env.decodeBase64 authBase64
  if bytes.length = 0 ∨ CODEX_AUTH_MAX_BYTES < bytes.length ∨ env.parsesToObject bytes = false then
    .error (.codexAuth .invalid "Codex auth payload is invalid")
  else .ok bytes

/-- Throw what a pure function stops with. -/
def Broker.ofExcept {α : Type} : Except BrokerError α → BrokerM α
  | .ok a => return a
  | .error error => throw error

/-- `GcsCodexAuthStore.read`. -/
def CodexEnv.read (env : CodexEnv) : BrokerM CodexAuthSnapshot := do
  match ← Broker.authMetadata with
  | .missing => throw (.codexAuth .notFound "Codex authentication is not seeded")
  | .failed => throw (.codexAuth .unavailable "Codex authentication storage is unavailable")
  | .found (generation, metadata) =>
    match ← Broker.authDownload generation with
    | .missing => throw (.codexAuth .notFound "Codex authentication is not seeded")
    | .failed => throw (.codexAuth .unavailable "Codex authentication storage is unavailable")
    | .found bytes =>
      let _ ← Broker.ofExcept (decodedAuth env (env.encodeBase64 bytes))
      return {
        authBase64 := env.encodeBase64 bytes
        generation
        sha256 := env.sha256 bytes
        receipt := receiptFromMetadata metadata }

/-- `GcsCodexAuthStore.readLease`. -/
def readLease : BrokerM (Option CodexAuthLease) := do
  match ← Broker.leaseMetadata with
  | .missing => return none
  | .failed =>
    throw (.codexAuth .unavailable "Codex subscription lease storage is unavailable")
  | .found generation =>
    match ← Broker.leaseDownload generation with
    | .missing => return none
    | .failed =>
      throw (.codexAuth .unavailable "Codex subscription lease storage is unavailable")
    | .found record =>
      if record.valid then return some { record with generation }
      else throw (.codexAuth .invalid "Codex subscription lease is invalid")

/-- `saveLease`. -/
def saveLease (origin : WriteOrigin) (record : CodexLeaseRecord) (expectedGeneration : String) :
    BrokerM Unit := do
  match ← Broker.save { origin, expectedGeneration, content := record } with
  | .saved => return ()
  | .refused => throw (.codexAuth .conflict "Codex subscription lease changed concurrently")
  | .failed =>
    throw (.codexAuth .unavailable "Codex subscription lease storage is unavailable")

/-- `CodexLeaseWrite`. -/
structure CodexLeaseWrite where
  runId : String
  repository : String
  expiresAt : Time
  claimFingerprint : String
  operationId : String

/-- The record of a lease write. -/
def CodexLeaseWrite.record (input : CodexLeaseWrite) : CodexLeaseRecord where
  runId := input.runId
  repository := input.repository
  expiresAt := input.expiresAt
  claimFingerprint := some input.claimFingerprint
  operationId := some input.operationId

/-- `confirmLease`. -/
def confirmLease (input : CodexLeaseWrite) : BrokerM CodexAuthLease := do
  match ← readLease with
  | none => throw (.codexAuth .conflict "Codex subscription lease changed concurrently")
  | some lease =>
    if lease.runId ≠ input.runId ∨ lease.repository ≠ input.repository ∨
        lease.claimFingerprint ≠ some input.claimFingerprint ∨
        lease.operationId ≠ some input.operationId then
      throw (.codexAuth .conflict "Codex subscription lease changed concurrently")
    else return lease

/-- `takeLease`; `createLease` is the same at generation `0`. -/
def takeLease (input : CodexLeaseWrite) (expectedGeneration : String) : BrokerM CodexAuthLease := do
  saveLease ⟨input.operationId, false⟩ input.record expectedGeneration
  confirmLease input

/-- `createLease`. -/
def createLease (input : CodexLeaseWrite) : BrokerM CodexAuthLease := takeLease input "0"

/-- `releaseLease`: a replaced generation is a definitive no-op. -/
def releaseLease (lease : CodexAuthLease) (operationId : String) : BrokerM Unit := do
  if lease.claimFingerprint.all fun fingerprint => !isHexText 64 fingerprint then
    throw (.codexAuth .invalid "Codex lease authority is missing")
  tryCatch
    (saveLease ⟨operationId, false⟩
      { lease.toCodexLeaseRecord with operationId := some operationId, expiresAt := 0 }
      lease.generation)
    fun
      | .codexAuth .conflict _ => return ()
      | error => throw error

/-- `replace`. -/
def CodexEnv.replace (env : CodexEnv) (expectedGeneration authBase64 : String)
    (receipt : CredentialWriteReceipt) : BrokerM Unit := do
  if isPositiveDecimal expectedGeneration = false then
    throw (.codexAuth .invalid "A restored credential generation is required")
  let bytes ← Broker.ofExcept (decodedAuth env authBase64)
  if receipt.expectedGeneration ≠ expectedGeneration ∨ receipt.sha256 ≠ env.sha256 bytes ∨
      isHexText 64 receipt.claimFingerprint = false then
    throw (.codexAuth .invalid "Credential mutation receipt is invalid")
  match ← Broker.saveAuth
    { origin := ⟨receipt.operationId, false⟩, expectedGeneration
      content := { bytes, receipt := some receipt } } with
  | .saved => return ()
  | .refused => throw (.codexAuth .conflict "Codex authentication was already rotated")
  | .failed => throw (.codexAuth .unavailable "Codex authentication storage is unavailable")

/-! ### The fence -/

/-- What one attempt of a fence comes to: an answer, or another try after a lost race. -/
inductive Fencing where
  | fenced (receipt : Option CredentialWriteReceipt)
  | again

/-- A fence of a rotation, at the snapshot it has read: the receipt of the write if that is what the
object holds, else the same bytes under another generation. -/
def CodexEnv.fenceAuth (env : CodexEnv) (claimFingerprint id expectedGeneration sha256 : String)
    (current : CodexAuthSnapshot) : BrokerM Fencing := do
  if current.generation ≠ expectedGeneration then
    return .fenced (current.receipt.filter fun receipt =>
      receipt.operationId = id ∧ receipt.claimFingerprint = claimFingerprint ∧
        receipt.expectedGeneration = expectedGeneration ∧ receipt.sha256 = sha256 ∧
        current.sha256 = sha256)
  let bytes ← Broker.ofExcept (decodedAuth env current.authBase64)
  match ← Broker.saveAuth
    { origin := ⟨id, true⟩, expectedGeneration, content := { bytes, receipt := current.receipt } } with
  | .saved => return .fenced none
  | .refused => return .again
  | .failed => throw (.codexAuth .unavailable "Credential operation remains unresolved")

/-- The id under which a fence writes. -/
def fenceIdOf (mutationId : String) : String := "fence:" ++ mutationId

/-- The record that a fence of a lease write leaves of a lease: retired if the write was a release
of just this lease, else as it is. -/
def fencedLease (runId claimFingerprint id repository : String) (expiresAt : Time)
    (lease : CodexLeaseRecord) : CodexLeaseRecord :=
  { lease with
    expiresAt := if expiresAt = 0 ∧ lease.runId = runId ∧
        lease.claimFingerprint = some claimFingerprint ∧ lease.repository = repository then expiresAt
      else lease.expiresAt
    operationId := some (fenceIdOf id) }

/-- A fence of a lease write, at the lease it has read. -/
def fenceLease (runId claimFingerprint id expectedGeneration repository : String) (expiresAt : Time)
    (lease : Option CodexAuthLease) : BrokerM Fencing := do
  match lease with
  | none =>
    if expectedGeneration ≠ "0" then return .fenced none
    saveLease ⟨id, true⟩
      { runId, repository, expiresAt := 0, claimFingerprint := some claimFingerprint
        operationId := some (fenceIdOf id) } "0"
    return .fenced none
  | some lease =>
    if lease.generation ≠ expectedGeneration then return .fenced none
    saveLease ⟨id, true⟩
      (fencedLease runId claimFingerprint id repository expiresAt lease.toCodexLeaseRecord)
      lease.generation
    return .fenced none

/-- One attempt of `fenceMutation`. -/
def CodexEnv.fenceOnce (env : CodexEnv) (runId claimFingerprint : String) :
    CredentialMutation → BrokerM Fencing
  | .authWrite id expectedGeneration sha256 => do
    match ← Broker.attempt env.read with
    | .error (.codexAuth .notFound _) => return .fenced none
    | .error error => throw error
    | .ok current => env.fenceAuth claimFingerprint id expectedGeneration sha256 current
  | .leaseWrite id expectedGeneration repository expiresAt => do
    fenceLease runId claimFingerprint id expectedGeneration repository expiresAt (← readLease)

/-- The attempts of `fenceMutation`. -/
def CodexEnv.fenceFrom (env : CodexEnv) (runId claimFingerprint : String)
    (mutation : CredentialMutation) : Nat → BrokerM (Option CredentialWriteReceipt)
  | 0 => throw (.codexAuth .unavailable "Credential operation remains unresolved")
  | attempts + 1 => do
    match ← Broker.attempt (env.fenceOnce runId claimFingerprint mutation) with
    | .ok (.fenced receipt) => return receipt
    | .ok .again | .error (.codexAuth .conflict _) =>
      env.fenceFrom runId claimFingerprint mutation attempts
    | .error error => throw error

/-- `fenceMutation`. -/
def CodexEnv.fenceMutation (env : CodexEnv) (runId : String) (operation : CredentialOperation)
    (mutation : CredentialMutation) : BrokerM (Option CredentialWriteReceipt) := do
  match mutation with
  | .authWrite _ expectedGeneration _ =>
    if isPositiveDecimal expectedGeneration = false then
      throw (.codexAuth .invalid "A restored credential generation is required")
  | .leaseWrite _ _ _ _ => pure ()
  env.fenceFrom runId operation.claimFingerprint mutation 5

end AgentLcars
