import AgentLcars.Schedules

/-!
# The schedule tick

One tick works through the schedules it listed: it admits a due slot, mints the item under the
creator's grant of that moment, reconciles with an item another tick minted, and settles the slot or
closes it.  `Tick.act` is everything up to and including the next awaited call.  Nothing a tick knows
is fresher than its list, its clock and what it awaited since.

`Scheduler` is the whole system: the orchestrator's store under all its callers, the schedules, and
any number of ticks and operators.
-/

namespace AgentLcars

/-! ### The changes a tick makes -/

/-- What an enabled schedule owes; nothing when it cannot be read or never fires. -/
def dueOccurrence (snapshot : Schedule) (now : Time) : Option (Option (WorkSpec × Time)) := do
  let spec ← workSpecSchema snapshot.spec
  let cron ← (parseCron snapshot.cron).toOption
  let _ ← nextDueSlot cron now
  return (latestDueSlot cron now (admissionWatermark snapshot)).map fun slot => (spec, slot)

/-- The snapshot is still the configuration. -/
def stillConfigured (snapshot current : Schedule) : Bool :=
  current.enabled ∧ current.deletedAt = none ∧ current.currentRevision = snapshot.currentRevision

/-- Disable a schedule that cannot be read. -/
def invalidateChange (snapshot : Schedule) (now : Time) (current : Option Schedule) :
    Option Schedule :=
  match current with
  | none => none
  | some current =>
    if ¬stillConfigured snapshot current then none
    else some { current with
      enabled := false
      disabledReason := some .invalid
      revision := some (current.currentRevision + 1)
      updatedAt := now }

/-- Admit a due slot of the snapshot's configuration. -/
def admitChange (snapshot : Schedule) (spec : WorkSpec) (slot : Time) (itemId : String)
    (current : Option Schedule) : Option Schedule :=
  match current with
  | none => none
  | some current =>
    if ¬stillConfigured snapshot current ∨ current.pendingTick ≠ none ∨
        (admissionWatermark current).any (slot ≤ ·) then none
    else some { current with
      pendingTick := some { slotAt := slot, itemId, revision := current.currentRevision
                            spec := spec.toJson, createdBy := current.createdBy } }

/-- `closePending`: the occurrence will not be minted. -/
def closeChange (admitted : PendingTick) (reason : DisabledReason) (now : Time)
    (current : Option Schedule) : Option Schedule :=
  match current with
  | none => none
  | some current =>
    if ¬samePending current.pendingTick admitted then none
    else
      let closed := { current with
        pendingTick := none
        lastClosedSlotAt := some (laterSlot current.lastClosedSlotAt admitted.slotAt) }
      if current.enabled ∧ current.deletedAt = none ∧ current.currentRevision = admitted.revision then
        some { closed with
          enabled := false
          disabledReason := some reason
          revision := some (current.currentRevision + 1)
          updatedAt := now }
      else some closed

/-- The occurrence was minted. -/
def settleChange (admitted : PendingTick) (now : Time) (current : Option Schedule) :
    Option Schedule :=
  match current with
  | none => none
  | some current =>
    if ¬samePending current.pendingTick admitted then none
    else some { current with
      pendingTick := none
      lastSlotAt := some (laterSlot current.lastSlotAt admitted.slotAt)
      lastItemId := some admitted.itemId
      updatedAt := now }

/-! ### One tick -/

/-- Where a tick stands with the first of its remaining snapshots. -/
inductive TickPhase where
  | listing
  | looking
  | admitted (pending : PendingTick)
  | requesting (pending : PendingTick) (spec : WorkSpec) (pipelines : List String)
  | draining (pending : PendingTick)
  | denied (pending : PendingTick) (spec : WorkSpec)
  | conflicted (pending : PendingTick) (spec : WorkSpec)
  | closing (pending : PendingTick) (reason : DisabledReason)
  | settling (pending : PendingTick)
  | ended

/-- What a tick answers with. -/
structure TickReport where
  minted : List (String × String) := []
  disabled : List String := []
  errors : List (String × String) := []

structure Tick where
  now : Time
  remaining : List Schedule
  phase : TickPhase
  report : TickReport

/-- A tick that has been authorized. -/
def Tick.start : Tick := { now := 0, remaining := [], phase := .listing, report := {} }

/-- On to the next snapshot. -/
def Tick.next (tick : Tick) : Tick :=
  { tick with remaining := tick.remaining.tail, phase := .looking }

/-- Note an error, and on to the next snapshot. -/
def Tick.fail (tick : Tick) (scheduleId message : String) : Tick :=
  { tick.next with report := { tick.report with
      errors := tick.report.errors ++ [(scheduleId, message)] } }

/-- Note a schedule that was disabled, and on to the next snapshot. -/
def Tick.disabled (tick : Tick) (scheduleId : String) (noted : Bool) : Tick :=
  { tick.next with report := { tick.report with
      disabled := if noted then tick.report.disabled ++ [scheduleId] else tick.report.disabled } }

/-- What an awaited call comes to. -/
inductive Awaited where
  | returns
  | throws (message : String) (applied : Bool)

/-- A tick after its act, the schedules as it leaves them, and its call of the orchestrator. -/
structure TickResult where
  tick : Tick
  schedules : Schedules
  label : Option Step := none

/-- Await a change of one schedule. -/
def Tick.mutate (env : ScheduleEnv) (tick : Tick) (awaited : Awaited) (schedules : Schedules)
    (id : String) (change : Option Schedule → Option Schedule)
    (returned : Option Schedule → Tick) : TickResult :=
  let result := mutateSchedule env schedules id fun current => .ok (change current)
  match awaited with
  | .throws message applied =>
    { tick := tick.fail id message, schedules := if applied then result.2 else schedules }
  | .returns =>
    match result.1 with
    | .ok next => { tick := returned next, schedules := result.2 }
    | .error (.threw message) => { tick := tick.fail id message, schedules := result.2 }
    | .error (.orpc _ message) => { tick := tick.fail id (message.getD ""), schedules := result.2 }

/-- The first look at a snapshot. -/
def Tick.look (env : ScheduleEnv) (tick : Tick) (awaited : Awaited) (schedules : Schedules)
    (snapshot : Schedule) : TickResult :=
  let id := snapshot.scheduleId
  match snapshot.pendingTick with
  | some pending => { tick := { tick with phase := .admitted pending }, schedules }
  | none =>
    match dueOccurrence snapshot tick.now with
    | none => tick.mutate env awaited schedules id (invalidateChange snapshot tick.now) fun changed =>
        tick.disabled id changed.isSome
    | some none => { tick := tick.next, schedules }
    | some (some (spec, slot)) =>
      tick.mutate env awaited schedules id
        (admitChange snapshot spec slot (slotItemId env.sha256 id slot)) fun admitted =>
          match admitted.bind (·.pendingTick) with
          | none => tick.next
          | some pending => { tick with phase := .admitted pending }

/-- Mint an admitted occurrence, as far as the read of the item. -/
def Tick.mint (env : ScheduleEnv) (grants : List WorkGrant) (tick : Tick) (awaited : Awaited)
    (s : Store) (id : String) (pending : PendingTick) : Tick :=
  match workSpecSchema pending.spec with
  | none => { tick with phase := .closing pending .invalid }
  | some spec =>
    let pipelines := ((grantForPrincipal pending.createdBy grants).map (·.pipelines)).getD []
    let authority : WorkAuthority := { principal := pending.createdBy, pipelines }
    if (workForbiddenReason env.isControlPlaneRepository authority spec.pipeline spec.repo).isSome then
      { tick with phase := .denied pending spec }
    else match awaited with
    | .throws message _ => tick.fail id message
    | .returns =>
      match existingItem s pending.itemId spec with
      | .absent => { tick with phase := .requesting pending spec pipelines }
      | .same => { tick with phase := .settling pending }
      | .different => { tick with phase := .conflicted pending spec }
      | .unreadable => tick.fail id "storedWorkPayloadSchema"

/-- Ask the orchestrator for the item. -/
def Tick.request (tick : Tick) (clock : Time) (awaited : Awaited) (s : Store)
    (schedules : Schedules) (id : String) (pending : PendingTick) (spec : WorkSpec)
    (pipelines : List String) : TickResult :=
  let authority : WorkAuthority := { principal := pending.createdBy, pipelines }
  match authorizeProviderFallback authority spec.pipeline spec.fallbackPipelines with
  | none => { tick := tick.fail id "fallbackPipelinesSchema", schedules }
  | some fallback =>
    let input := mintRequest pending.itemId { principal := "cron:" ++ id, channel := "cron" } spec
      fallback
    let transaction := mintTransaction s clock pending.itemId input spec
    let label := match transaction with
      | .threw _ => none
      | _ => some (Step.request clock input)
    match awaited with
    | .throws message applied =>
      { tick := tick.fail id message, schedules, label := if applied then label else none }
    | .returns =>
      match transaction with
      | .minted => { tick := { tick with phase := .draining pending }, schedules, label }
      | .conflict => { tick := { tick with phase := .conflicted pending spec }, schedules, label }
      | .threw message => { tick := tick.fail id message, schedules }

/-- The stored specification is the admitted one. -/
def itemMatches (task : Option VersionedTask) (spec : WorkSpec) : Bool :=
  (task.bind (·.task.work.workSpec)).any fun stored => stored.toJson = spec.toJson

/-- Compare the item with the occurrence. -/
def Tick.reconcile (tick : Tick) (s : Store) (id : String) (pending : PendingTick)
    (spec : WorkSpec) : Tick :=
  if itemMatches (s.tasks.get (taskKey (.work pending.itemId))) spec then
    { tick with phase := .settling pending }
  else tick.fail id "scheduled item conflicts with the admitted occurrence"

/-- Close an occurrence that will not be minted. -/
def Tick.close (env : ScheduleEnv) (tick : Tick) (awaited : Awaited) (schedules : Schedules)
    (id : String) (pending : PendingTick) (reason : DisabledReason) : TickResult :=
  tick.mutate env awaited schedules id (closeChange pending reason tick.now) fun changed =>
    let tick := tick.disabled id (changed.bind (·.disabledReason) = some reason)
    if reason = .invalid then
      { tick with report := { tick.report with errors := tick.report.errors ++
          [(id, "Invalid admitted schedule specification; occurrence closed")] } }
    else tick

/-- Everything up to and including the next awaited call. -/
def Tick.act (env : ScheduleEnv) (grants : List WorkGrant) (clock : Time) (awaited : Awaited)
    (tick : Tick) (s : Store) (schedules : Schedules) : TickResult :=
  match tick.phase with
  | .listing =>
    match awaited with
    | .throws _ _ => { tick := { tick with phase := .ended }, schedules }
    | .returns =>
      { tick := { tick with now := clock, remaining := listTickSchedules schedules, phase := .looking }
        schedules }
  | .ended => { tick, schedules }
  | phase =>
    match tick.remaining with
    | [] => { tick := { tick with phase := .ended }, schedules }
    | snapshot :: _ =>
      let id := snapshot.scheduleId
      match phase with
      | .looking => tick.look env awaited schedules snapshot
      | .admitted pending => { tick := tick.mint env grants awaited s id pending, schedules }
      | .requesting pending spec pipelines =>
        tick.request clock awaited s schedules id pending spec pipelines
      | .draining pending =>
        match awaited with
        | .throws message _ => { tick := tick.fail id message, schedules }
        | .returns => { tick := { tick with phase := .settling pending }, schedules }
      | .denied pending spec =>
        match awaited with
        | .throws message _ => { tick := tick.fail id message, schedules }
        | .returns =>
          -- a denied retry cannot undo an item that another tick minted
          if s.tasks.get (taskKey (.work pending.itemId)) = none then
            { tick := { tick with phase := .closing pending .grantRevoked }, schedules }
          else { tick := tick.reconcile s id pending spec, schedules }
      | .conflicted pending spec =>
        match awaited with
        | .throws message _ => { tick := tick.fail id message, schedules }
        | .returns => { tick := tick.reconcile s id pending spec, schedules }
      | .closing pending reason => tick.close env awaited schedules id pending reason
      | .settling pending =>
        tick.mutate env awaited schedules id (settleChange pending tick.now) fun settled =>
          { tick.next with report := { tick.report with
              minted := if settled.isSome then tick.report.minted ++ [(id, pending.itemId)]
                else tick.report.minted } }
      | .listing | .ended => { tick, schedules }

/-! ### The whole system -/

structure Scheduler where
  world : World
  schedules : Schedules
  ticks : OrderedMap Nat Tick

/-- The empty system. -/
def Scheduler.init : Scheduler := { world := .init, schedules := .empty, ticks := .empty }

/-- One step of one party. -/
inductive ScheduleAct where
  | elsewhere (label : Step)
  | operate (context : OperatorContext) (op : ScheduleOp)
  | start (id : Nat) (scopes : List String)
  | tick (id : Nat) (grants : List WorkGrant) (clock : Time) (awaited : Awaited)
  | crash (id : Nat)

def Scheduler.step (env : ScheduleEnv) (σ : Scheduler) : ScheduleAct → Scheduler
  | .elsewhere label => { σ with world := σ.world.step label }
  | .operate context op => { σ with schedules := (op.run env context σ.schedules).2 }
  | .start id scopes =>
    if scopes.contains "work.cron" ∧ σ.ticks.get id = none then
      { σ with ticks := σ.ticks.set id .start }
    else σ
  | .tick id grants clock awaited =>
    match σ.ticks.get id with
    | none => σ
    | some tick =>
      let result := tick.act env grants clock awaited σ.world.store σ.schedules
      { world := (result.label.map σ.world.step).getD σ.world
        schedules := result.schedules
        ticks := σ.ticks.set id result.tick }
  | .crash id =>
    match σ.ticks.get id with
    | none => σ
    | some tick => { σ with ticks := σ.ticks.set id { tick with phase := .ended } }

/-- The system after a run of acts. -/
def Scheduler.run (env : ScheduleEnv) (σ : Scheduler) (acts : List ScheduleAct) : Scheduler :=
  Machine.run (Scheduler.step env) σ acts

end AgentLcars
