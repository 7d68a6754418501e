import AgentLcars.RepositoryJobs
import AgentLcars.ScheduleTick

/-!
# The processes that run repository jobs

Operators enable, disable, invoke and admit jobs; workers stage results; ticks reconcile what is
active and admit due slots; refreshes publish what they read of a repository.  Any number of these
run beside each other and beside the orchestrator.  `JobProcess.act` is everything up to and
including the next awaited call, which may throw with or without having taken effect, and a process
may stop for good at any time.  Nothing a process knows is fresher than what it awaited last.

A parse that refuses what a call reads or writes is a call that throws.
-/

namespace AgentLcars

/-! ### The store -/

/-- `orchestrator-jobs` and `orchestrator-job-occurrences`. -/
structure JobStore where
  jobs : OrderedMap String CatalogJob
  occurrences : OrderedMap String JobOccurrence

/-- The empty store. -/
def JobStore.empty : JobStore := ⟨.empty, .empty⟩

/-- The store after a write. -/
def JobStore.write (s : JobStore) (jobId : String) (occurrenceId : Option String)
    (write : JobWrite) : JobStore where
  jobs := match write.job with
    | none => s.jobs
    | some job => s.jobs.set jobId job
  occurrences := match occurrenceId, write.occurrence with
    | some id, some occurrence => s.occurrences.set id occurrence
    | _, _ => s.occurrences

/-- `JobStore.mutate`. -/
def JobStore.mutate (s : JobStore) (jobId : String) (occurrenceId : Option String)
    (change : Option CatalogJob → Option JobOccurrence → Except String JobWrite) :
    Except String JobWrite × JobStore :=
  match change (s.jobs.get jobId) (occurrenceId.bind s.occurrences.get) with
  | .error error => (.error error, s)
  | .ok write => (.ok write, s.write jobId occurrenceId write)

/-- Executor Pod runtime limits never exceed the run lease; the placement allowance keeps the bound
conservative. -/
def RETIREMENT_BACKSTOP_MS : Time := RUN_PLACEMENT_WAIT_MAX_MS + RUN_LEASE_MS

/-- The worker of a settled run may still be at work. -/
def awaitsRetirement (run : Run) (now : Time) : Bool :=
  run.queue.any (fun queue => queue.claimedAt.isSome ∧ queue.state ≠ .retired) ∧
    now - run.updatedAt < RETIREMENT_BACKSTOP_MS

/-! ### Processes -/

/-- What is due when a mint returns. -/
inductive MintReturn where
  | admitted
  | reconciling (job : CatalogJob)

/-- Where a process stands: the call it awaits next, with what it knows. -/
inductive JobFrame where
  | enabling (id digest principal : String) (enabled : Bool) (at_ : Time)
  | invoking (call : AdmitCall)
  | invokingListed (call : AdmitCall)
  | reserving (call : AdmitCall) (at_ : Time)
  | minting (occurrence : JobOccurrence) (after : MintReturn)
  | requesting (occurrence : JobOccurrence) (profile : JobProfile) (after : MintReturn)
  | draining (occurrence : JobOccurrence) (after : MintReturn)
  | stageReading (occurrenceId : String) (artifact : JobArtifact)
  | staging (occurrence : JobOccurrence) (artifact : JobArtifact)
  | ticking
  | reconciling (job : CatalogJob)
  | legacyReading (job : CatalogJob) (occurrence : JobOccurrence)
  | legacyReleasing (job : CatalogJob) (occurrence : JobOccurrence)
  | listing (job : CatalogJob) (occurrence : JobOccurrence)
  | settling (job : CatalogJob) (occurrence : JobOccurrence) (run : Run)
  | slotting (job : CatalogJob)
  | refreshing (repository : String) (now : Time)
  | fetching (repository : String) (now : Time) (existing : List CatalogJob)
  | publishing (now : Time) (existing : List CatalogJob) (rows remaining : List CatalogRow)
  | unlisting (now : Time) (existing remaining : List CatalogJob)
  | failing (now : Time) (remaining : List CatalogJob)
  | ended

/-- A process, with the snapshots a tick has still to work through. -/
structure JobProcess where
  frame : JobFrame
  remaining : List CatalogJob := []

/-- The reconciliation of a snapshot: there is nothing to do while the job is idle. -/
def reconcileFrame (job : CatalogJob) : JobFrame :=
  if job.active.isSome then .reconciling job else .slotting job

/-- On to the next snapshot of a tick; any other process is over. -/
def JobProcess.next (p : JobProcess) : JobProcess :=
  match p.remaining with
  | [] => { frame := .ended }
  | job :: rest => { frame := reconcileFrame job, remaining := rest }

/-- `RepositoryJobs.admit`, up to the reservation. -/
def JobProcess.admit (p : JobProcess) (call : AdmitCall) (clock : Time) : JobProcess :=
  if isRequestId call.request.requestId then { p with frame := .reserving call clock } else p.next

/-- A mint has returned. -/
def JobProcess.minted (p : JobProcess) (occurrence : JobOccurrence) : MintReturn → JobProcess
  | .admitted => p.next
  | .reconciling job => { p with frame := .listing job occurrence }

/-- What operators, callers, workers and the maintenance ask for. -/
inductive JobCommand where
  | enable (id digest principal : String) (enabled : Bool)
  | invoke (call : AdmitCall)
  | admitManual (call : AdmitCall)
  | stage (occurrenceId : String) (artifact : JobArtifact)
  | tick
  | refresh (repository : String)

/-- A process that has been asked for.  Callers admit manual occurrences only. -/
def JobCommand.process (command : JobCommand) (clock : Time) : JobProcess :=
  match command with
  | .enable id digest principal enabled =>
    { frame := .enabling id digest principal enabled clock }
  | .invoke call =>
    if call.request.trigger = .manual then
      { frame := .invoking { call with deferOverlap := true } }
    else { frame := .ended }
  | .admitManual call =>
    if call.request.trigger = .manual then
      JobProcess.admit { frame := .ended } { call with deferOverlap := false } clock
    else { frame := .ended }
  | .stage occurrenceId artifact => { frame := .stageReading occurrenceId artifact }
  | .tick => { frame := .ticking }
  | .refresh repository => { frame := .refreshing repository clock }

/-- A manifest of a repository, parsed or refused. -/
structure SourceRow where
  name : String
  parsed : Except String JobDefinition

/-- The row of a manifest. -/
def SourceRow.row (env : JobsEnv) (repository : String) (source : SourceRow) : CatalogRow :=
  { id := env.jobKey repository source.name
    repository
    name := source.name
    definition := source.parsed.toOption
    error := match source.parsed with
      | .ok _ => none
      | .error error => some (String.ofList (sliceTo 2048 error.toList)) }

/-- The latest of the given number of minutes at which the definition is due. -/
def recentSlot (env : JobsEnv) (definition : JobDefinition) : Nat → Time → Option Time
  | 0, _ => none
  | minutes + 1, now =>
    if jobDueAt env definition now then some now else recentSlot env definition minutes (now - 60000)

/-- The admission that a tick makes for a snapshot. -/
def tickCall (env : JobsEnv) (job : CatalogJob) (now : Time) : Option AdmitCall := do
  let definition ← job.definition
  let principal ← job.enabledBy
  if ¬job.enabled ∨ truthy job.error ∨ principal = "" then none
  else
    let slot ← recentSlot env definition 5 (truncateToMinute now)
    if job.activationFloor.any (· < slot) then
      some { id := job.id, request := .schedule slot, principal, digest := definition.digest }
    else none

/-- On whose behalf an occurrence is worked on. -/
def jobOrigin (occurrence : JobOccurrence) : WorkOrigin where
  principal := occurrence.principal
  channel := if occurrence.trigger = .schedule then "cron" else "api"

/-- The work of an occurrence. -/
def jobWorkSpec (occurrence : JobOccurrence) : RecipeWorkSpec where
  title := occurrence.definition.name ++ " · " ++ occurrence.definition.repository
  description := occurrence.definition.job.description
  repo := occurrence.definition.repository
  jobOccurrence := occurrence.id

/-- The request that `RepositoryJobs.mint` makes. -/
def jobRequest (occurrence : JobOccurrence) (profile : JobProfile) : RequestInput :=
  { taskId := .work occurrence.workId
    requestId := occurrence.id
    pipeline := "goose"
    priority := some .background
    params := some ([("mode", "recipe"), ("jobOccurrence", occurrence.id)] ++
      (profile.providerAuth.map fun auth => ("providerAuth", auth)).toList ++
      if profile.crossRepo = some true then [("crossRepo", "true")] else [])
    work := some [("origin", (jobOrigin occurrence).toJson),
      ("spec", (StoredWorkSpec.recipe (jobWorkSpec occurrence)).toJson)] }

/-- The request of a mint went through, now or before. -/
def mintAccepted : Outcome → Bool
  | .ok _ => true
  | .error (.refusal refusal) => refusal.reason = .duplicateRequest
  | .error (.threw _) => false

/-- A process after its act, the store as it leaves it, and its call of the orchestrator. -/
structure JobResult where
  process : JobProcess
  store : JobStore
  label : Option Step := none

/-- Await a change of the store. -/
def JobStore.await (s : JobStore) (awaited : Awaited) (jobId : String) (occurrenceId : Option String)
    (change : Option CatalogJob → Option JobOccurrence → Except String JobWrite)
    (failed : JobProcess) (returned : JobWrite → JobProcess) : JobResult :=
  let result := s.mutate jobId occurrenceId change
  match awaited with
  | .throws _ applied => { process := failed, store := if applied then result.2 else s }
  | .returns =>
    match result.1 with
    | .ok write => { process := returned write, store := result.2 }
    | .error _ => { process := failed, store := result.2 }

/-- The occurrence of a reservation is minted, unless it was skipped. -/
def JobProcess.reserved (p : JobProcess) (write : JobWrite) : JobProcess :=
  match write.occurrence with
  | none => p.next
  | some occurrence =>
    if occurrence.skipped then p.next else { p with frame := .minting occurrence .admitted }

/-- Ask the orchestrator for the run of an occurrence. -/
def JobProcess.request (p : JobProcess) (awaited : Awaited) (clock : Time) (world : Store)
    (s : JobStore) (occurrence : JobOccurrence) (profile : JobProfile) (after : MintReturn) :
    JobResult :=
  let input := jobRequest occurrence profile
  let label := Step.request clock input
  match awaited with
  | .throws _ applied => { process := p.next, store := s, label := if applied then some label else none }
  | .returns =>
    if mintAccepted (Orchestrator.request world clock input).1 then
      { process := { p with frame := .draining occurrence after }, store := s, label := some label }
    else { process := p.next, store := s, label := some label }

/-- The mint of an occurrence, up to its request. -/
def JobProcess.mint (env : JobsEnv) (context : JobsContext) (p : JobProcess) (world : Store)
    (occurrence : JobOccurrence) (after : MintReturn) : JobProcess :=
  if (world.tasks.get (taskKey (.work occurrence.workId))).isSome then p.minted occurrence after
  else if occurrence.profile.credentialSet.isSome ∧ occurrence.secretSnapshot = none then p.next
  else
    match context.authorizeOccurrence env occurrence with
    | .error _ => p.next
    | .ok profile => { p with frame := .requesting occurrence profile after }

/-- The runs of an occurrence are judged: one that has settled, and whose worker has stopped. -/
def JobProcess.judge (p : JobProcess) (world : Store) (clock : Time) (job : CatalogJob)
    (occurrence : JobOccurrence) : JobProcess :=
  match world.listRuns (.work occurrence.workId) with
  | [run] =>
    if isLive run.state ∨ awaitsRetirement run clock then { p with frame := .slotting job }
    else { p with frame := .settling job occurrence run }
  | _ => { p with frame := .slotting job }

/-- A read that returns. -/
def JobProcess.reads (p : JobProcess) (awaited : Awaited) (s : JobStore) (returned : JobProcess) :
    JobResult :=
  match awaited with
  | .throws _ _ => { process := p.next, store := s }
  | .returns => { process := returned, store := s }

/-- The catalog calls of a refresh. -/
def JobProcess.refresh (env : JobsEnv) (context : JobsContext) (awaited : Awaited)
    (fetched : Option (List SourceRow)) (p : JobProcess) (s : JobStore) : JobResult :=
  match p.frame with
  | .refreshing repository now =>
    p.reads awaited s { p with
      frame := .fetching repository now (s.jobs.values.filter (·.repository = repository)) }
  | .fetching repository now existing =>
    match fetched with
    | none => { process := { p with frame := .failing now existing }, store := s }
    | some sources =>
      let rows := sources.map (·.row env repository)
      { process := { p with frame := .publishing now existing rows rows }, store := s }
  | .publishing now existing rows remaining =>
    match remaining with
    | [] =>
      let removed := existing.filter fun job => rows.all (·.id ≠ job.id)
      { process := { p with frame := .unlisting now existing removed }, store := s }
    | row :: rest =>
      s.await awaited row.id none (fun job _ => publishChange context row now job)
        { p with frame := .failing now existing } fun _ =>
          { p with frame := .publishing now existing rows rest }
  | .unlisting now existing remaining =>
    match remaining with
    | [] => { process := p.next, store := s }
    | job :: rest =>
      s.await awaited job.id none (fun job _ => unlistChange "Definition removed" now job)
        { p with frame := .failing now existing } fun _ =>
          { p with frame := .unlisting now existing rest }
  | .failing now remaining =>
    match remaining with
    | [] => { process := p.next, store := s }
    | job :: rest =>
      s.await awaited job.id none (fun job _ => unlistChange "Source refresh failed" now job)
        p.next fun _ => { p with frame := .failing now rest }
  | _ => { process := p, store := s }

/-- Everything up to and including the next awaited call. -/
def JobProcess.act (env : JobsEnv) (context : JobsContext) (awaited : Awaited)
    (fetched : Option (List SourceRow)) (clock : Time) (p : JobProcess) (world : Store)
    (s : JobStore) : JobResult :=
  match p.frame with
  | .ended => { process := p, store := s }
  | .enabling id digest principal enabled at_ =>
    s.await awaited id none (fun job _ => enableChange context digest principal enabled at_ job)
      p.next fun _ => p.next
  | .invoking call =>
    p.reads awaited s <|
      match s.occurrences.get (call.occurrenceId env) with
      | some existing => p.admit { call with digest := existing.definition.digest } clock
      | none => { p with frame := .invokingListed call }
  | .invokingListed call =>
    p.reads awaited s <|
      match (s.jobs.values.find? (·.id = call.id)).bind (·.definition) with
      | some definition => p.admit { call with digest := definition.digest } clock
      | none => p.next
  | .reserving call at_ =>
    s.await awaited call.id (some (call.occurrenceId env)) (reserveChange env context call at_)
      p.next p.reserved
  | .minting occurrence after => p.reads awaited s (p.mint env context world occurrence after)
  | .requesting occurrence profile after => p.request awaited clock world s occurrence profile after
  | .draining occurrence after => p.reads awaited s (p.minted occurrence after)
  | .stageReading occurrenceId artifact =>
    p.reads awaited s <|
      match s.occurrences.get occurrenceId with
      | some occurrence => { p with frame := .staging occurrence artifact }
      | none => p.next
  | .staging occurrence artifact =>
    s.await awaited occurrence.jobId (some occurrence.id) (stageChange artifact)
      p.next fun _ => p.next
  | .ticking => p.reads awaited s { p with remaining := s.jobs.values }.next
  | .reconciling job =>
    p.reads awaited s <|
      match job.active.bind s.occurrences.get with
      | none => p.next
      | some occurrence =>
        if occurrence.profile.credentials.isSome then { p with frame := .legacyReading job occurrence }
        else { p with frame := .minting occurrence (.reconciling job) }
  | .legacyReading job occurrence =>
    p.reads awaited s <|
      if (world.tasks.get (taskKey (.work occurrence.workId))).isSome then
        { p with frame := .minting occurrence (.reconciling job) }
      else if clock - occurrence.createdAt < RETIREMENT_BACKSTOP_MS then
        { p with frame := .slotting job }
      else { p with frame := .legacyReleasing job occurrence }
  | .legacyReleasing job occurrence =>
    s.await awaited job.id (some occurrence.id) (legacyChange occurrence.id clock) p.next fun _ =>
      { p with frame := .slotting job }
  | .listing job occurrence => p.reads awaited s (p.judge world clock job occurrence)
  | .settling job occurrence run =>
    s.await awaited job.id (some occurrence.id) (settleOccurrence occurrence.id run clock) p.next
      fun _ => { p with frame := .slotting job }
  | .slotting job =>
    match tickCall env job clock with
    | none => { process := p.next, store := s }
    | some call => { process := p.admit call clock, store := s }
  | .refreshing _ _ | .fetching _ _ _ | .publishing _ _ _ _ | .unlisting _ _ _ | .failing _ _ =>
    p.refresh env context awaited fetched s

/-! ### The whole system -/

structure JobsWorld where
  world : World
  store : JobStore
  processes : OrderedMap Nat JobProcess
  clock : Time

/-- The empty system. -/
def JobsWorld.init : JobsWorld :=
  { world := .init, store := .empty, processes := .empty, clock := 0 }

/-- One step of one party, or of the clock. -/
inductive JobAct where
  | elsewhere (label : Step)
  | advance (milliseconds : Nat)
  | start (pid : Nat) (command : JobCommand)
  | act (pid : Nat) (context : JobsContext) (awaited : Awaited) (fetched : Option (List SourceRow))
  | crash (pid : Nat)

/-- What the process of an act makes of it. -/
def JobsWorld.result (env : JobsEnv) (w : JobsWorld) : JobAct → Option (JobProcess × JobResult)
  | .act pid context awaited fetched =>
    (w.processes.get pid).map fun p =>
      (p, p.act env context awaited fetched w.clock w.world.store w.store)
  | _ => none

def JobsWorld.step (env : JobsEnv) (w : JobsWorld) : JobAct → JobsWorld
  | .elsewhere label => { w with world := w.world.step label }
  | .advance milliseconds => { w with clock := w.clock + milliseconds }
  | .start pid command =>
    if w.processes.get pid = none then
      { w with processes := w.processes.set pid (command.process w.clock) }
    else w
  | .act pid context awaited fetched =>
    match w.result env (.act pid context awaited fetched) with
    | none => w
    | some (_, result) =>
      { w with
        world := (result.label.map w.world.step).getD w.world
        store := result.store
        processes := w.processes.set pid result.process }
  | .crash pid => { w with processes := w.processes.set pid { frame := .ended } }

/-- The system after a run of acts. -/
def JobsWorld.run (env : JobsEnv) (w : JobsWorld) (acts : List JobAct) : JobsWorld :=
  Machine.run (JobsWorld.step env) w acts

end AgentLcars
