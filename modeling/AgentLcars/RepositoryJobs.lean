import AgentLcars.Cron
import AgentLcars.Schema
import AgentLcars.WorkSpec

/-!
# Repository jobs

`repository-job-definition.ts`, `repository-job-store.ts`, `repository-job-catalog.ts` and
`repository-jobs.ts` of `apps/console`: a job is defined by a repository, enabled by an operator or
by automatic activation, and each admission of it reserves an occurrence.  `JobStore.mutate` is
atomic for one job and one occurrence; every writer of a job is a function of what it reads there.

* `enableChange`, `reserveChange`, `stageChange`, `legacyChange`, `settleOccurrence` of an occurrence,
  and `publishChange`, `unlistChange` of a catalog refresh are the seven writers;
* a definition is taken as it was parsed, and the digest, the hash and the wall clock of a time zone
  are parameters.
-/

namespace AgentLcars

/-! ### Definitions -/

/-- When a job is due. -/
structure JobSchedule where
  cron : String
  timezone : String
  deriving DecidableEq, Repr

/-- What a worker of a job is given; the number is kept as it is rendered. -/
structure JobAllocation where
  cpu : String
  memory : String
  storage : String
  deriving DecidableEq, Repr

/-- `repositoryJobSchema`'s two contracts for a result. -/
inductive JobContract where
  | securityAudit
  | json
  deriving DecidableEq, Repr

/-- Names with texts, none of them twice. -/
abbrev JobInputs := List (String × String)

/-- `repositoryJobSchema`. -/
structure JobSpec where
  description : String
  manual : Bool
  schedule : Option JobSchedule
  profile : String
  requests : JobAllocation
  inputs : JobInputs
  previousSuccessfulResult : Bool
  result : JobContract
  deriving DecidableEq, Repr

/-- `recipeParameterSchema`. -/
structure RecipeParameter where
  key : String
  required : Bool
  default : Option String
  deriving DecidableEq, Repr

/-- `jobDefinitionSchema`. -/
structure JobDefinition where
  repository : String
  name : String
  revision : String
  digest : String
  job : JobSpec
  parameters : List RecipeParameter
  deriving DecidableEq, Repr

/-- `jobGitIdentitySchema`. -/
structure JobGitIdentity where
  name : String
  email : String
  deriving DecidableEq, Repr

/-- `jobProfileSchema`.  A stored profile may still carry `credentials`. -/
structure JobProfile where
  name : String
  repositories : List String
  principals : List String
  crossRepo : Option Bool := none
  credentialSet : Option Json := none
  providerAuth : Option String := none
  resultFile : Option String := none
  gitIdentity : Option JobGitIdentity := none
  environment : Option String := none
  allocation : JobAllocation
  inputSets : List JobInputs
  credentials : Option String := none
  deriving DecidableEq

/-- What the deployment and the platform supply. -/
structure JobsEnv where
  jobDigest : Json → String
  sha256 : String → List UInt8
  localTime : String → Time → Time

def jobInputsJson (inputs : JobInputs) : Json := .obj (inputs.map fun e => (e.1, .str e.2))

def JobAllocation.toJson (allocation : JobAllocation) : Json :=
  .obj [("cpu", .num allocation.cpu), ("memory", .str allocation.memory),
    ("storage", .str allocation.storage)]

def JobContract.toJson : JobContract → Json
  | .securityAudit => .obj [("contract", .str "security-audit-v1"), ("requiredArtifacts",
      .arr [.str "report.md", .str "findings.json", .str "coverage.json"])]
  | .json => .obj [("contract", .str "json-v1"), ("requiredArtifacts",
      .arr [.str "report.md", .str "result.json"])]

def JobGitIdentity.toJson (identity : JobGitIdentity) : Json :=
  .obj [("name", .str identity.name), ("email", .str identity.email)]

def JobProfile.toJson (profile : JobProfile) : Json :=
  .obj ([("name", .str profile.name), ("repositories", .arr (profile.repositories.map .str)),
      ("principals", .arr (profile.principals.map .str))] ++
    optionalField "crossRepo" (profile.crossRepo.map .bool) ++
    optionalField "credentialSet" profile.credentialSet ++
    optionalField "providerAuth" (profile.providerAuth.map .str) ++
    optionalField "resultFile" (profile.resultFile.map .str) ++
    optionalField "gitIdentity" (profile.gitIdentity.map (·.toJson)) ++
    optionalField "environment" (profile.environment.map .str) ++
    [("allocation", profile.allocation.toJson),
      ("inputSets", .arr (profile.inputSets.map jobInputsJson))] ++
    optionalField "credentials" (profile.credentials.map fun github =>
      .obj [("github", .str github)]))

/-- `jobKey`. -/
def JobsEnv.jobKey (env : JobsEnv) (repository name : String) : String :=
  env.jobDigest (.arr [.str repository, .str name])

/-- `authorizeJob`. -/
def authorizeJob (definition : JobDefinition) (profile : Option JobProfile)
    (principal profileName : String) : Except String JobProfile :=
  match profile with
  | none => .error "Job profile not granted"
  | some profile =>
    if profile.name ≠ profileName ∨ ¬profile.repositories.contains definition.repository ∨
        ¬profile.principals.contains principal then .error "Job profile not granted"
    else if definition.job.requests ≠ profile.allocation then
      .error "Allocation must match profile exactly"
    else if ¬profile.inputSets.any (·.isPerm definition.job.inputs) then
      .error "Input scope not granted"
    else .ok profile

/-- `jobDueAt`. -/
def jobDueAt (env : JobsEnv) (definition : JobDefinition) (at_ : Time) : Bool :=
  match definition.job.schedule with
  | none => false
  | some schedule =>
    match parseCron schedule.cron with
    | .error _ => false
    | .ok spec =>
      let wall := env.localTime schedule.timezone at_
      (latestDueSlot spec wall (some (wall - 60000))).isSome

/-- A name of a fixed input or a recipe parameter. -/
def isInputName (text : String) : Bool :=
  match text.toList with
  | [] => false
  | c :: rest => c.isAlpha ∧ rest.length ≤ 63 ∧ rest.all fun d => d.isAlphanum ∨ d = '_'

/-- `jobInputsSchema`. -/
def jobInputsSchema (values : JobInputs) : Bool :=
  values.all (fun e => isInputName e.1 ∧ jsLength e.2 ≤ 2048) ∧ values.length ≤ 32 ∧
    (values.lookup "baseline").isNone

/-- `resolveJobParameters`. -/
def resolveJobParameters (definition : JobDefinition) (values : JobInputs) :
    Except String JobInputs :=
  if ¬jobInputsSchema values then .error "jobInputsSchema"
  else if values.any fun e => definition.parameters.all (·.key ≠ e.1) then
    .error "Unknown parameter or attempt to override fixed input"
  else
    definition.parameters.mapM fun parameter =>
      match (values.lookup parameter.key).or parameter.default with
      | some value => .ok (parameter.key, value)
      | none =>
        if parameter.required then .error ("Missing recipe parameter: " ++ parameter.key)
        else .ok (parameter.key, "")

/-! ### Records -/

/-- The last successful occurrence, and what it was compared by. -/
structure JobBaseline where
  occurrence : String
  comparison : String
  deriving DecidableEq, Repr

/-- `catalogJobSchema`.  A record from before automatic activation has no `vetoedBy`; it is
`some none` once an explicit enable cleared the veto. -/
structure CatalogJob where
  id : String
  repository : String
  name : String
  definition : Option JobDefinition := none
  error : Option String := none
  refreshedAt : Time
  enabled : Bool
  enabledBy : Option String := none
  activationFloor : Option Time := none
  vetoedBy : Option (Option String) := none
  active : Option String := none
  latest : Option String := none
  baseline : Option JobBaseline := none
  deriving DecidableEq

inductive JobTrigger where
  | manual
  | schedule
  deriving DecidableEq, Repr

def JobTrigger.text : JobTrigger → String
  | .manual => "manual"
  | .schedule => "schedule"

/-- A staged result. -/
structure JobArtifact where
  digest : String
  successful : Bool
  deriving DecidableEq, Repr

/-- `jobOccurrenceSchema`. -/
structure JobOccurrence where
  id : String
  jobId : String
  workId : String
  requestDigest : String
  createdAt : Time
  principal : String
  trigger : JobTrigger
  skipped : Bool
  definition : JobDefinition
  profile : JobProfile
  secretSnapshot : Option Json := none
  comparison : String
  parameters : JobInputs
  baselineOccurrence : Option String := none
  artifact : Option JobArtifact := none
  reconciledAt : Option Time := none
  successful : Option Bool := none
  admissionFailure : Option String := none
  deriving DecidableEq

/-- A text that JavaScript takes for true. -/
def truthy (text : Option String) : Bool := text.any (· ≠ "")

/-- What the deployment answers at one moment. -/
structure JobsContext where
  granted : String → String → Bool
  profiles : List JobProfile
  automationPrincipal : Option String
  pin : Option Json

/-- What a writer writes. -/
structure JobWrite where
  job : Option CatalogJob := none
  occurrence : Option JobOccurrence := none

/-! ### Authority -/

section Authority

variable (context : JobsContext)

/-- The built-in profile of a repository. -/
def repositoryProfile (definition : JobDefinition) (principal : String) : JobProfile :=
  { name := "repository", repositories := [definition.repository], principals := [principal]
    allocation := { cpu := "2", memory := "6Gi", storage := "24Gi" }
    inputSets := [definition.job.inputs] }

/-- `RepositoryJobs.authorize`. -/
def JobsContext.authorize (definition : JobDefinition) (principal : String)
    (profileName : Option String := none) : Except String JobProfile :=
  let profileName := profileName.getD definition.job.profile
  if ¬context.granted principal definition.repository then .error "Goose operator grant required"
  else
    authorizeJob definition
      (if profileName = "repository" then some (repositoryProfile definition principal)
        else context.profiles.find? (·.name = profileName)) principal profileName

/-- `RepositoryJobs.automaticActivation`. -/
def JobsContext.automaticActivation (definition : JobDefinition) : Option String :=
  context.automationPrincipal.bind fun principal =>
    match context.authorize definition principal with
    | .ok _ => some principal
    | .error _ => none

/-- `RepositoryJobs.authorizeOccurrence`. -/
def JobsContext.authorizeOccurrence (env : JobsEnv) (occurrence : JobOccurrence) :
    Except String JobProfile :=
  if occurrence.profile.credentials.isSome then
    .error "Legacy credential profile requires migration"
  else
    match context.authorize occurrence.definition occurrence.principal occurrence.profile.name with
    | .error error => .error error
    | .ok profile =>
      if env.jobDigest profile.toJson ≠ env.jobDigest occurrence.profile.toJson then
        .error "Reserved execution profile changed"
      else .ok profile

end Authority

/-! ### The writers -/

/-- The change of `RepositoryJobs.enable`. -/
def enableChange (context : JobsContext) (digest principal : String) (enabled : Bool) (at_ : Time)
    (job : Option CatalogJob) : Except String JobWrite :=
  match job with
  | none =>
    .error (if enabled then "Refresh and review the current definition"
      else "Goose operator grant required")
  | some job =>
    if ¬enabled then
      if ¬context.granted principal job.repository then .error "Goose operator grant required"
      else .ok { job := some { job with enabled := false, vetoedBy := some (some principal) } }
    else
      match job.definition with
      | none => .error "Refresh and review the current definition"
      | some definition =>
        if truthy job.error ∨ definition.digest ≠ digest then
          .error "Refresh and review the current definition"
        else
          match context.authorize definition principal with
          | .error error => .error error
          | .ok _ =>
            .ok { job := some { job with
              enabled := true
              enabledBy := some principal
              activationFloor := some at_
              vetoedBy := some none } }

/-- What starts an occurrence: a request of a caller, or a slot of the schedule. -/
inductive JobRequest where
  | manual (requestId : String)
  | schedule (slot : Time)
  deriving DecidableEq, Repr

def JobRequest.trigger : JobRequest → JobTrigger
  | .manual _ => .manual
  | .schedule _ => .schedule

/-- The request id; a slot is asked for as `toISOString` writes it. -/
def JobRequest.requestId : JobRequest → String
  | .manual requestId => requestId
  | .schedule slot => toISOString slot

/-- The arguments of `RepositoryJobs.admit`. -/
structure AdmitCall where
  id : String
  request : JobRequest
  principal : String
  digest : String
  values : JobInputs := []
  deferOverlap : Bool := false
  profileName : Option String := none
  deriving DecidableEq, Repr

/-- `/^[\w:.-]{1,128}$/u`. -/
def isRequestId (text : String) : Bool :=
  text.toList ≠ [] ∧ text.toList.length ≤ 128 ∧ text.toList.all fun c =>
    c.isAlphanum ∨ c = '_' ∨ c = ':' ∨ c = '.' ∨ c = '-'

section Admission

variable (env : JobsEnv) (context : JobsContext) (call : AdmitCall)

/-- `requestDigestFor`. -/
def AdmitCall.requestDigest (parameters : JobInputs) : String :=
  env.jobDigest (.arr ([.str call.digest, .str call.request.trigger.text,
    jobInputsJson parameters] ++ (call.profileName.map .str).toList))

/-- The id of the occurrence. -/
def AdmitCall.occurrenceId : String :=
  env.jobDigest (.arr [.str call.id, .str call.principal, .str call.request.trigger.text,
    .str call.request.requestId])

/-- What two results must share to be compared. -/
def jobComparison (definition : JobDefinition) (profile : JobProfile) (parameters : JobInputs) :
    String :=
  env.jobDigest (.arr ([jobInputsJson definition.job.inputs, definition.job.result.toJson,
      jobInputsJson parameters] ++ (profile.providerAuth.map .str).toList ++
    (if profile.credentialSet.isSome ∨ profile.gitIdentity.isSome then
      [profile.credentialSet.getD .null, (profile.gitIdentity.map (·.toJson)).getD .null] else [])))

/-- `slot` may be admitted: it has passed, by at most five minutes, and lies after the floor. -/
def slotEligible (job : CatalogJob) (definition : JobDefinition) (at_ slot : Time) : Bool :=
  slot ≤ at_ ∧ at_ - slot ≤ 300000 ∧ jobDueAt env definition slot ∧
    job.activationFloor.any (· < slot)

/-- The job of an admission may run. -/
def jobAdmits (job : CatalogJob) (definition : JobDefinition) (at_ : Time) : Bool :=
  job.enabled ∧ ¬truthy job.error ∧ definition.digest = call.digest ∧ at_ - job.refreshedAt ≤ 600000

/-- The occurrence that an admission reserves, but for its secrets. -/
def reservedOccurrence (at_ : Time) (job : CatalogJob) (definition : JobDefinition)
    (profile : JobProfile) (parameters : JobInputs) : JobOccurrence :=
  let comparison := jobComparison env definition profile parameters
  { id := call.occurrenceId env
    jobId := call.id
    workId := slotItemId env.sha256 (call.occurrenceId env) at_
    requestDigest := call.requestDigest env parameters
    principal := call.principal
    trigger := call.request.trigger
    createdAt := at_
    skipped := job.active.isSome
    definition
    profile
    comparison
    parameters
    baselineOccurrence := job.baseline.bind fun baseline =>
      if definition.job.previousSuccessfulResult ∧ baseline.comparison = comparison then
        some baseline.occurrence else none }

/-- The job of a reserved occurrence, which it awaits unless the occurrence was skipped. -/
def CatalogJob.admitted (job : CatalogJob) (occurrence : JobOccurrence) : CatalogJob :=
  { job with
    latest := some occurrence.id
    active := if occurrence.skipped then job.active else some occurrence.id }

/-- Why an admission of the job is refused. -/
def admissionRefusal (at_ : Time) (job : CatalogJob) (definition : JobDefinition) : Option String :=
  if ¬jobAdmits call job definition at_ then some "Job disabled, changed, or catalog refresh required"
  else if call.request.trigger = .manual ∧ ¬definition.job.manual then
    some "Manual invocation disabled"
  else if call.deferOverlap ∧ job.active.isSome then some "Job already active"
  else
    match call.request with
    | .manual _ => none
    | .schedule slot =>
      if slotEligible env job definition at_ slot then none
      else some "Schedule occurrence not eligible"

/-- The secrets of an occurrence are pinned with its reservation. -/
def JobsContext.secretsFor (profile : JobProfile) (skipped : Bool) : Except String (Option Json) :=
  if profile.credentialSet.isSome ∧ ¬skipped then
    match context.pin with
    | none => .error "Job credential admission refused or unavailable"
    | some secretSnapshot => .ok (some secretSnapshot)
  else .ok none

/-- The change of `RepositoryJobs.admit`: the occurrence that exists, or a new one. -/
def reserveChange (at_ : Time) (job : Option CatalogJob) (existing : Option JobOccurrence) :
    Except String JobWrite :=
  match existing with
  | some existing => do
    let _ ← context.authorize existing.definition call.principal existing.profile.name
    let parameters ← resolveJobParameters existing.definition call.values
    if existing.requestDigest ≠ call.requestDigest env parameters then
      .error "Request ID reused with different definition, parameters or profile"
    else .ok { occurrence := some existing }
  | none =>
    match job, job.bind (·.definition) with
    | some job, some definition => do
      let profile ← context.authorize definition call.principal call.profileName
      let parameters ← resolveJobParameters definition call.values
      match admissionRefusal env call at_ job definition with
      | some error => .error error
      | none =>
        let secretSnapshot ← context.secretsFor profile job.active.isSome
        let occurrence :=
          { reservedOccurrence env call at_ job definition profile parameters with secretSnapshot }
        .ok { job := some (job.admitted occurrence), occurrence := some occurrence }
    | _, _ => .error "Job not found"

end Admission

/-- The change of `RepositoryJobs.stage`. -/
def stageChange (artifact : JobArtifact) (job : Option CatalogJob)
    (current : Option JobOccurrence) : Except String JobWrite :=
  match current with
  | none => .error "Occurrence no longer active"
  | some current =>
    if job.bind (·.active) ≠ some current.id ∨ current.reconciledAt.isSome then
      .error "Occurrence no longer active"
    else if current.artifact.any (·.digest ≠ artifact.digest) then
      .error "Result already staged with different digest"
    else .ok { occurrence := some { current with artifact := some artifact } }

/-- An occurrence of an older deployment that is released. -/
def JobOccurrence.released (saved : JobOccurrence) (now : Time) : JobOccurrence :=
  { saved with
    successful := some false
    admissionFailure := some "legacy-credentials"
    reconciledAt := some now }

/-- The change that releases a reservation of an older deployment. -/
def legacyChange (occurrenceId : String) (now : Time) (current : Option CatalogJob)
    (saved : Option JobOccurrence) : Except String JobWrite :=
  match current, saved with
  | some current, some saved =>
    if current.active ≠ some occurrenceId then .ok {}
    else .ok
      { job := some { current with active := none }, occurrence := some (saved.released now) }
  | _, _ => .ok {}

/-- The run produced the staged result. -/
def resultDelivered (run : Run) (saved : JobOccurrence) : Bool :=
  run.state = .finished ∧ run.result.any (·.ok) ∧ saved.artifact.any fun artifact =>
    artifact.successful ∧ (run.result.bind (·.ref)) = some ("job-result:" ++ artifact.digest)

/-- A job whose occurrence its run settles. -/
def CatalogJob.settled (job : CatalogJob) (run : Run) (saved : JobOccurrence) : CatalogJob :=
  { job with
    active := none
    baseline := if resultDelivered run saved then some ⟨saved.id, saved.comparison⟩
      else job.baseline }

/-- An occurrence that its run settles. -/
def JobOccurrence.settled (saved : JobOccurrence) (run : Run) (now : Time) : JobOccurrence :=
  { saved with successful := some (resultDelivered run saved), reconciledAt := some now }

/-- The change that reconciles an occurrence with its run. -/
def settleOccurrence (occurrenceId : String) (run : Run) (now : Time) (current : Option CatalogJob)
    (saved : Option JobOccurrence) : Except String JobWrite :=
  match current, saved with
  | some current, some saved =>
    if current.active ≠ some occurrenceId then .ok {}
    else
      .ok { job := some (current.settled run saved), occurrence := some (saved.settled run now) }
  | _, _ => .ok {}

/-! ### Catalog refreshes -/

/-- `operatorVeto`: null when no operator veto stands. -/
def operatorVeto (job : Option CatalogJob) : Option String :=
  match job with
  | none => none
  | some job =>
    match job.vetoedBy with
    | some vetoedBy => vetoedBy
    | none => if ¬job.enabled ∧ truthy job.enabledBy ∧ ¬truthy job.error then job.enabledBy else none

/-- A manifest as a refresh read it: its definition, or why it has none. -/
structure CatalogRow where
  id : String
  repository : String
  name : String
  definition : Option JobDefinition
  error : Option String
  deriving DecidableEq, Repr

/-- The enabled definition is the one that was read. -/
def unchangedRow (current : Option CatalogJob) (row : CatalogRow) : Bool :=
  current.any (·.enabled) ∧ ¬truthy row.error ∧
    (current.bind (·.definition)).map (·.digest) = row.definition.map (·.digest)

/-- Whom a publication activates the job for. -/
def activatedBy (context : JobsContext) (current : Option CatalogJob) (row : CatalogRow) :
    Option String :=
  if unchangedRow current row ∨ (operatorVeto current).isSome ∨ truthy row.error then none
  else row.definition.bind context.automaticActivation

/-- A job as a refresh publishes it. -/
def publishedJob (context : JobsContext) (row : CatalogRow) (now : Time)
    (current : Option CatalogJob) : CatalogJob :=
  let activated := activatedBy context current row
  { id := row.id
    repository := row.repository
    name := row.name
    definition := row.definition
    error := row.error
    refreshedAt := now
    enabled := unchangedRow current row ∨ activated.isSome
    enabledBy := activated.or (current.bind (·.enabledBy))
    activationFloor := if activated.isSome then some now else current.bind (·.activationFloor)
    vetoedBy := some (operatorVeto current)
    active := current.bind (·.active)
    latest := current.bind (·.latest)
    baseline := current.bind (·.baseline) }

/-- The change that publishes a row read at `now`. -/
def publishChange (context : JobsContext) (row : CatalogRow) (now : Time)
    (current : Option CatalogJob) : Except String JobWrite :=
  if current.any (now < ·.refreshedAt) then .ok {}
  else .ok { job := some (publishedJob context row now current) }

/-- A job that a refresh takes off the list. -/
def unlistedJob (error : String) (now : Time) (current : CatalogJob) : CatalogJob :=
  { current with
    vetoedBy := some (operatorVeto current)
    enabled := false
    error := some error
    refreshedAt := now }

/-- The change that disables a job whose definition is gone or whose source was not read. -/
def unlistChange (error : String) (now : Time) (current : Option CatalogJob) :
    Except String JobWrite :=
  match current with
  | none => .error "catalogJobSchema"
  | some current =>
    if now < current.refreshedAt then .ok {}
    else .ok { job := some (unlistedJob error now current) }

end AgentLcars
