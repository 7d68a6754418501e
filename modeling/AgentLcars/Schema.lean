import AgentLcars.Cron
import AgentLcars.Orchestrator
import AgentLcars.WorkSpec
import Mathlib.Data.Nat.Digits.Defs

/-!
# The persisted schemas

`runSchema`, `taskSchema` and `outboxEntrySchema` of `libs/orchestrator/src/model.ts`, with the
schemas they are built from.  A stored record is parsed again on every read, so a record that leaves
a bound is never read again.  The bounds are stated on the records of the model: the variants and
the optional properties of a schema are in their types already.

An instant of the model is a valid `isoUtc` string when `toISOString` writes its year with four
digits.
-/

namespace AgentLcars

/-! ### Texts and numbers -/

/-- The first instant with a four-digit year. -/
def MIN_INSTANT : Time := -62167219200000

/-- The last instant with a four-digit year. -/
def MAX_INSTANT : Time := 253402300799999

example : toISOString MIN_INSTANT = "0000-01-01T00:00:00.000Z" := by decide +kernel

example : toISOString MAX_INSTANT = "9999-12-31T23:59:59.999Z" := by decide +kernel

example : toISOString (MAX_INSTANT + 1) = "+010000-01-01T00:00:00.000Z" := by decide +kernel

/-- `isoUtc`, on what `toISOString` writes. -/
def isoUtc (t : Time) : Prop := MIN_INSTANT ≤ t ∧ t ≤ MAX_INSTANT

instance (t : Time) : Decidable (isoUtc t) := inferInstanceAs (Decidable (_ ∧ _))

/-- A fixed-width number inside a date. -/
def dateField (text : List Char) (start width : Nat) : Option Nat :=
  let digits := (text.drop start).take width
  if digits.length = width ∧ digits.all Char.isDigit then some (Nat.ofDigitChars 10 digits 0)
  else none

/-- The last day of a month. -/
def daysInMonth (year month : Nat) : Nat :=
  if month = 2 then if year % 4 = 0 ∧ (year % 100 ≠ 0 ∨ year % 400 = 0) then 29 else 28
  else if month ∈ [4, 6, 9, 11] then 30 else 31

/-- The optional fraction of a second, and the zone. -/
def isIsoFraction : List Char → Bool
  | ['Z'] => true
  | '.' :: rest =>
    match rest.reverse with
    | 'Z' :: digits => digits ≠ [] ∧ digits.all Char.isDigit
    | _ => false
  | _ => false

/-- The optional seconds, and what follows them. -/
def isIsoSeconds : List Char → Bool
  | ['Z'] => true
  | ':' :: tens :: ones :: rest => '0' ≤ tens ∧ tens ≤ '5' ∧ ones.isDigit ∧ isIsoFraction rest
  | _ => false

/-- `z.iso.datetime()`, on a string that is stored as it came. -/
def isIsoDatetime (text : String) : Bool :=
  let chars := text.toList
  match dateField chars 0 4, dateField chars 5 2, dateField chars 8 2, dateField chars 11 2,
      dateField chars 14 2 with
  | some year, some month, some day, some hour, some minute =>
    chars[4]? = some '-' ∧ chars[7]? = some '-' ∧ chars[10]? = some 'T' ∧ chars[13]? = some ':' ∧
      1 ≤ month ∧ month ≤ 12 ∧ 1 ≤ day ∧ day ≤ daysInMonth year month ∧ hour ≤ 23 ∧ minute ≤ 59 ∧
      isIsoSeconds (chars.drop 16)
  | _, _, _, _, _ => false

example : isIsoDatetime "2024-02-29T23:59:00.5Z" = true := by decide +kernel

/-- A lower-case hexadecimal digit. -/
def isHexDigit (c : Char) : Bool := c.isDigit ∨ ('a' ≤ c ∧ c ≤ 'f')

/-- `/^[0-9a-f]{n}$/u`. -/
def isHexText (n : Nat) (text : String) : Bool :=
  text.toList.length = n ∧ text.toList.all isHexDigit

/-- A hexadecimal digit of either case. -/
def isUuidDigit (c : Char) : Bool := isHexDigit c ∨ ('A' ≤ c ∧ c ≤ 'F')

/-- Five groups of hexadecimal digits, with a version and a variant. -/
def hasUuidLayout : List (List Char) → Bool
  | [low, mid, version :: high, variant :: clock, node] =>
    low.length = 8 ∧ mid.length = 4 ∧ high.length = 3 ∧ clock.length = 3 ∧ node.length = 12 ∧
      ([low, mid, high, clock, node].all (List.all · isUuidDigit)) ∧
      '1' ≤ version ∧ version ≤ '8' ∧ variant ∈ ['8', '9', 'a', 'b', 'A', 'B']
  | _ => false

/-- `z.uuid()`, which accepts the nil and the maximal id as well. -/
def isUuid (text : String) : Bool :=
  text = "00000000-0000-0000-0000-000000000000" ∨
    text = "ffffffff-ffff-ffff-ffff-ffffffffffff" ∨ hasUuidLayout (text.toList.splitOn '-')

/-- `githubAnchorSchema.shape.repo`. -/
def isAnchorRepo (text : String) : Bool := jsLength text ≤ 140 ∧ isRepo text

/-- A positive safe integer. -/
def isPositive (n : Nat) : Bool := 1 ≤ n ∧ n ≤ MAX_SAFE_INTEGER

/-! ### Identities -/

/-- `taskIdSchema`. -/
def taskIdSchema : TaskId → Bool
  | .github repo issue => isAnchorRepo repo ∧ isPositive issue
  | .work workId => isWorkId workId

/-- `issueReferenceSchema`. -/
def issueReferenceSchema : IssueReference → Bool
  | .github repo issue => isAnchorRepo repo ∧ isPositive issue
  | .linear organizationId issueId => isUuid organizationId ∧ isUuid issueId

/-- `trackerIssueSchema`. -/
structure TrackerIssueSchema (issue : TrackerIssue) : Prop where
  reference : issueReferenceSchema issue.reference = true
  updatedAt : isoUtc issue.updatedAt

/-- The bound of a run id. -/
def isRunId (text : String) : Bool := withinLength text RUN_ID_MAX_LENGTH

/-- Orchestrator-generated dependent ids must admit the longest run id too. -/
def DEPENDENT_REQUEST_ID_MAX_LENGTH : Nat := jsLength "fallback:" + RUN_ID_MAX_LENGTH

/-- The bound of an outbox entry id. -/
def OUTBOX_ENTRY_ID_MAX_LENGTH : Nat := jsLength "delivery-outcome/" + RUN_ID_MAX_LENGTH

/-! ### Payloads, params and results -/

/-- The bytes of a character in a rendered string: quotes, backslashes and control characters are
escaped. -/
def escapedBytes (c : Char) : Nat :=
  if c.toNat ∈ [0x22, 0x5c, 0x08, 0x09, 0x0a, 0x0c, 0x0d] then 2
  else if c.toNat < 0x20 then 6 else c.utf8Size

/-- The bytes of a rendered string, with its quotes. -/
def quotedBytes (text : String) : Nat := 2 + (text.toList.map escapedBytes).sum

mutual

/-- `new TextEncoder().encode(JSON.stringify(value)).length`. -/
def jsonBytes : Json → Nat
  | .null => 4
  | .bool value => if value then 4 else 5
  | .num literal => literal.utf8ByteSize
  | .str value => quotedBytes value
  | .arr items => 2 + (items.length - 1) + itemBytes items
  | .obj fields => 2 + (fields.length - 1) + fieldBytes fields

/-- Item by item, without the commas. -/
def itemBytes : List Json → Nat
  | [] => 0
  | item :: rest => jsonBytes item + itemBytes rest

/-- Field by field, without the commas. -/
def fieldBytes : List (String × Json) → Nat
  | [] => 0
  | (name, value) :: rest => quotedBytes name + 1 + jsonBytes value + fieldBytes rest

end

/-- Bounded towards the limit of a stored document. -/
def WORK_PAYLOAD_MAX_BYTES : Nat := 32768

/-- `workPayloadSchema`. -/
structure WorkPayloadSchema (work : WorkPayload) : Prop where
  keys : ∀ field ∈ work, jsLength field.1 ≤ 64
  bytes : jsonBytes (.obj work) ≤ WORK_PAYLOAD_MAX_BYTES

/-- `z.record(z.string(), z.iso.datetime())`. -/
def observedAtSchema (observedAt : List (String × String)) : Prop :=
  ∀ clock ∈ observedAt, isIsoDatetime clock.2 = true

/-- `workRevisionSchema`. -/
structure WorkRevisionSchema (revision : WorkRevision) : Prop where
  key : withinLength revision.key 128 = true
  input : WorkPayloadSchema revision.input
  observedAt : ∀ observedAt ∈ revision.observedAt, observedAtSchema observedAt

/-- `runSchema.shape.params`. -/
def paramsSchema (params : Params) : Prop :=
  ∀ param ∈ params, jsLength param.1 ≤ 64 ∧ jsLength param.2 ≤ 16384

/-- One item of `humanNeededActionsSchema`; its texts are trimmed first. -/
structure HumanNeededActionSchema (action : HumanNeededAction) : Prop where
  text : withinLength (String.ofList (trim action.text)) 400 = true
  command : ∀ command ∈ action.command, withinLength (String.ofList (trim command)) 2000 = true

/-- `runResultSchema`. -/
structure RunResultSchema (result : RunResult) : Prop where
  summary : ∀ summary ∈ result.summary, jsLength summary ≤ 4096
  ref : ∀ ref ∈ result.ref, jsLength ref ≤ 1024
  relatedRefs : ∀ refs ∈ result.relatedRefs, refs.length ≤ 1 ∧ ∀ ref ∈ refs, jsLength ref ≤ 1024
  message : ∀ message ∈ result.message, jsLength message ≤ 16384
  humanNeededActions : ∀ actions ∈ result.humanNeededActions,
    2 ≤ actions.length ∧ actions.length ≤ 3 ∧ ∀ action ∈ actions, HumanNeededActionSchema action

/-! ### The queue, events and credential operations -/

/-- `runPlacementSchema`. -/
structure RunPlacementSchema (placement : RunPlacement) : Prop where
  observedAt : isoUtc placement.observedAt
  jobCreatedAt : ∀ t ∈ placement.jobCreatedAt, isoUtc t

/-- `startupPlacement` of `runQueueSchema`. -/
structure StartupPlacementSchema (startup : StartupPlacement) : Prop where
  observedAt : isoUtc startup.observedAt
  jobUid : ∀ uid ∈ startup.jobUid, withinLength uid 256 = true

/-- `runQueueSchema`. -/
structure RunQueueSchema (queue : RunQueue) : Prop where
  placement : ∀ placement ∈ queue.placement, RunPlacementSchema placement
  deferredUntil : ∀ t ∈ queue.deferredUntil, isoUtc t
  claimedAt : ∀ t ∈ queue.claimedAt, isoUtc t
  startDeadlineAt : ∀ t ∈ queue.startDeadlineAt, isoUtc t
  startupPlacement : ∀ startup ∈ queue.startupPlacement, StartupPlacementSchema startup
  firstHeartbeatAt : ∀ t ∈ queue.firstHeartbeatAt, isoUtc t
  providerProcessStartedAt : ∀ t ∈ queue.providerProcessStartedAt, isoUtc t
  claimedBy : ∀ runner ∈ queue.claimedBy, withinLength runner 256 = true
  claimedBySubject : ∀ subject ∈ queue.claimedBySubject, withinLength subject 256 = true
  tokenHash : ∀ hash ∈ queue.tokenHash, isHexText 64 hash = true

/-- `operationalInterventionSchema`. -/
def interventionSchema (intervention : OperationalIntervention) : Bool :=
  withinLength intervention.principal 128

/-- `runEventSchema`. -/
structure RunEventSchema (event : RunEvent) : Prop where
  at_ : isoUtc event.at_
  note : ∀ note ∈ event.note, jsLength note ≤ 1024
  intervention : ∀ intervention ∈ event.intervention, interventionSchema intervention = true

/-- `credentialGenerationSchema`: a decimal, without a leading zero where one is written to. -/
def isGeneration (positive : Bool) (text : String) : Bool :=
  text.toList.all Char.isDigit ∧ 1 ≤ text.toList.length ∧ text.toList.length ≤ 32 ∧
    (positive → text.toList.head? ≠ some '0')

/-- The variants of `credentialMutationSchema`, without the id they share. -/
def mutationWriteSchema : CredentialMutation → Prop
  | .leaseWrite _ expectedGeneration repository expiresAt =>
    isGeneration false expectedGeneration = true ∧ withinLength repository 256 = true ∧
      isoUtc expiresAt
  | .authWrite _ expectedGeneration sha256 =>
    isGeneration true expectedGeneration = true ∧ isHexText 64 sha256 = true

/-- `credentialMutationSchema`. -/
structure CredentialMutationSchema (mutation : CredentialMutation) : Prop where
  id : withinLength mutation.id 128 = true
  write : mutationWriteSchema mutation

/-- `credentialOperationSchema`. -/
structure CredentialOperationSchema (operation : CredentialOperation) : Prop where
  id : withinLength operation.id 128 = true
  claimFingerprint : isHexText 64 operation.claimFingerprint = true
  startedAt : isoUtc operation.startedAt
  mutationSequence : operation.mutationSequence ≤ 100
  recoverAfter : isoUtc operation.recoverAfter
  mutation : ∀ mutation ∈ operation.mutation, CredentialMutationSchema mutation

/-- `credentialWriteReceiptSchema`. -/
structure CredentialWriteReceiptSchema (receipt : CredentialWriteReceipt) : Prop where
  operationId : withinLength receipt.operationId 128 = true
  claimFingerprint : isHexText 64 receipt.claimFingerprint = true
  expectedGeneration : isGeneration false receipt.expectedGeneration = true
  sha256 : isHexText 64 receipt.sha256 = true

/-- `runSchema.shape.credentialPendingResult`. -/
structure CredentialPendingResultSchema (pending : CredentialPendingResult) : Prop where
  claimFingerprint : isHexText 64 pending.claimFingerprint = true
  requestedAt : isoUtc pending.requestedAt
  result : RunResultSchema pending.result

/-! ### Provider fallback, delivery and label routing -/

/-- `uniquePipelineList.min(1).max(n)`. -/
def pipelineListSchema (n : Nat) (pipelines : List String) : Bool :=
  (pipelines.all (withinLength · 128)) ∧ pipelines.Nodup ∧ 1 ≤ pipelines.length ∧
    pipelines.length ≤ n

/-- The provenance of `providerFallbackSchema`. -/
structure FallbackTriggerSchema (trigger : FallbackTrigger) : Prop where
  failureRunId : isRunId trigger.failureRunId = true
  limitedPipeline : withinLength trigger.limitedPipeline 128 = true

/-- `providerFallbackSchema`. -/
structure ProviderFallbackSchema (policy : ProviderFallback) : Prop where
  principal : withinLength policy.principal 128 = true
  sourceRepository : ∀ repo ∈ policy.sourceRepository, isAnchorRepo repo = true
  allowedPipelines : pipelineListSchema 8 policy.allowedPipelines = true
  attemptedPipelines : pipelineListSchema 9 policy.attemptedPipelines = true
  originalRunId : isRunId policy.originalRunId = true
  fromRunId : ∀ id ∈ policy.fromRunId, isRunId id = true
  trigger : ∀ trigger ∈ policy.trigger, FallbackTriggerSchema trigger
  provenance : policy.fromRunId = none ↔ policy.trigger = none

/-- `deliveryBindingSchema`. -/
structure DeliveryBindingSchema (binding : DeliveryBinding) : Prop where
  runId : isRunId binding.runId = true
  repo : isAnchorRepo binding.repo = true
  number : isPositive binding.number = true
  baseRef : withinLength binding.baseRef 255 = true
  head : isHexText 40 binding.head = true
  correctionRunId : ∀ id ∈ binding.correctionRunId, isRunId id = true
  observedAt : isoUtc binding.observedAt
  mergeCommit : ∀ commit ∈ binding.mergeCommit, isHexText 40 commit = true

/-- `providerRoutingSchema`: what `ProviderRouting.parses` checks, and the clocks. -/
structure ProviderRoutingSchema (routing : ProviderRouting) : Prop where
  parses : routing.parses = true
  requestedAt : isoUtc routing.requestedAt
  accepted : ∀ generation ∈ routing.acceptedGeneration, isoUtc generation.requestedAt

/-! ### The stored records -/

/-- `runSchema`. -/
structure RunSchema (run : Run) : Prop where
  runId : isRunId run.runId = true
  task : taskIdSchema run.task = true
  pipeline : withinLength run.pipeline 128 = true
  requestId : withinLength run.requestId DEPENDENT_REQUEST_ID_MAX_LENGTH = true
  params : ∀ params ∈ run.params, paramsSchema params
  issue : ∀ issue ∈ run.issue, TrackerIssueSchema issue
  sourceRevision : ∀ revision ∈ run.sourceRevision, WorkRevisionSchema revision
  revisionAttempt : ∀ attempt ∈ run.revisionAttempt, isPositive attempt = true
  providerFallback : ∀ policy ∈ run.providerFallback, ProviderFallbackSchema policy
  queue : ∀ queue ∈ run.queue, RunQueueSchema queue
  delivery : ∀ binding ∈ run.delivery, DeliveryBindingSchema binding
  credentialOperation : ∀ operation ∈ run.credentialOperation, CredentialOperationSchema operation
  credentialRestoredClaimFingerprint : ∀ fingerprint ∈ run.credentialRestoredClaimFingerprint,
    isHexText 64 fingerprint = true
  credentialPendingResult : ∀ pending ∈ run.credentialPendingResult,
    CredentialPendingResultSchema pending
  credentialWriteReceipt : ∀ receipt ∈ run.credentialWriteReceipt,
    CredentialWriteReceiptSchema receipt
  leaseExpiresAt : isoUtc run.leaseExpiresAt
  result : ∀ result ∈ run.result, RunResultSchema result
  events : run.events.length ≤ 64 ∧ ∀ event ∈ run.events, RunEventSchema event
  createdAt : isoUtc run.createdAt
  updatedAt : isoUtc run.updatedAt

/-- `taskSchema`. -/
structure TaskSchema (t : Task) : Prop where
  task : taskIdSchema t.task = true
  delivery : ∀ binding ∈ t.delivery, DeliveryBindingSchema binding
  activeRunId : ∀ id ∈ t.activeRunId, isRunId id = true
  runCount : t.runCount ≤ MAX_SAFE_INTEGER
  consecutiveLost : t.consecutiveLost ≤ MAX_SAFE_INTEGER
  work : WorkPayloadSchema t.work
  issue : ∀ issue ∈ t.issue, TrackerIssueSchema issue
  desiredRevision : ∀ revision ∈ t.desiredRevision, WorkRevisionSchema revision
  sourceObservedAt : ∀ observedAt ∈ t.sourceObservedAt, observedAtSchema observedAt
  providerRouting : ∀ routing ∈ t.providerRouting, ProviderRoutingSchema routing
  closedAt : ∀ at_ ∈ t.closedAt, isoUtc at_
  updatedAt : isoUtc t.updatedAt

/-- The variants of `outboxEntrySchema`. -/
def outboxStateSchema : OutboxState → Prop
  | .leased claimId leaseExpiresAt => isUuid claimId = true ∧ isoUtc leaseExpiresAt
  | .pending | .done | .failed => True

/-- `outboxEntrySchema`. -/
structure OutboxEntrySchema (entry : OutboxEntry) : Prop where
  entryId : withinLength entry.entryId OUTBOX_ENTRY_ID_MAX_LENGTH = true
  task : taskIdSchema entry.task = true
  runId : isRunId entry.runId = true
  attempts : entry.attempts ≤ MAX_SAFE_INTEGER
  state : outboxStateSchema entry.state
  firstFailedAt : ∀ t ∈ entry.firstFailedAt, isoUtc t
  nextAttemptAt : ∀ t ∈ entry.nextAttemptAt, isoUtc t
  deliveryFailures : ∀ n ∈ entry.deliveryFailures, n ≤ MAX_SAFE_INTEGER
  createdAt : isoUtc entry.createdAt
  updatedAt : isoUtc entry.updatedAt

end AgentLcars
