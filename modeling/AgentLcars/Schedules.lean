import AgentLcars.Cron
import AgentLcars.System
import AgentLcars.WorkMint

/-!
# Schedules

`schedule-router.ts` over `schedule-store.ts`.  Operators create, edit, enable, disable and delete
schedules; any number of ticks admit due slots, mint their items and settle them.  `mutateSchedule`
is atomic for one schedule; everything else a tick awaits is a step of its own that other steps may
come between, may throw with or without having taken effect, and may be the last thing the tick
does.

The responses to operators are left out.  The hash, the length of a rendered value and the list of
control-plane repositories are parameters.
-/

namespace AgentLcars

/-! ### Stored schedules -/

/-- An occurrence admitted atomically, with the configuration it was admitted under. -/
structure PendingTick where
  slotAt : Time
  itemId : String
  revision : Nat
  spec : Json
  createdBy : String
  deriving DecidableEq

inductive DisabledReason where
  | grantRevoked
  | operator
  | invalid
  deriving DecidableEq, Repr

structure Schedule where
  scheduleId : String
  cron : String
  spec : Json
  enabled : Bool
  createdBy : String
  createdAt : Time
  updatedAt : Time
  revision : Option Nat := none
  deletedAt : Option Time := none
  pendingTick : Option PendingTick := none
  lastSlotAt : Option Time := none
  lastItemId : Option String := none
  lastClosedSlotAt : Option Time := none
  disabledReason : Option DisabledReason := none
  deriving DecidableEq

/-- What the deployment and the platform supply. -/
structure ScheduleEnv where
  sha256 : String → List UInt8
  jsonBytes : Json → Nat
  isControlPlaneRepository : String → Bool

def SCHEDULE_SPEC_MAX_BYTES : Nat := 32768

/-- `scheduleSpecSchema`. -/
def ScheduleEnv.acceptsSpec (env : ScheduleEnv) : Json → Bool
  | .obj fields => fields.all (jsLength ·.1 ≤ 64) ∧ env.jsonBytes (.obj fields) ≤ SCHEDULE_SPEC_MAX_BYTES
  | _ => false

/-- `pendingScheduleTickSchema`. -/
def ScheduleEnv.acceptsPending (env : ScheduleEnv) (pending : PendingTick) : Bool :=
  isWorkId pending.itemId ∧ env.acceptsSpec pending.spec ∧ nonemptyUpTo 128 pending.createdBy

/-- `scheduleSchema`. -/
def ScheduleEnv.acceptsSchedule (env : ScheduleEnv) (schedule : Schedule) : Bool :=
  isWorkId schedule.scheduleId ∧ nonemptyUpTo 64 schedule.cron ∧ env.acceptsSpec schedule.spec ∧
    nonemptyUpTo 128 schedule.createdBy ∧ schedule.pendingTick.all env.acceptsPending ∧
    schedule.lastItemId.all isWorkId

/-- `current.revision ?? 0`. -/
def Schedule.currentRevision (schedule : Schedule) : Nat := schedule.revision.getD 0

/-- The later of the settled and the closed slot. -/
def admissionWatermark (schedule : Schedule) : Option Time :=
  match schedule.lastSlotAt, schedule.lastClosedSlotAt with
  | none, closed => closed
  | settled, none => settled
  | some settled, some closed => some (max settled closed)

def laterSlot (previous : Option Time) (slot : Time) : Time :=
  match previous with
  | none => slot
  | some previous => if previous < slot then slot else previous

mutual

/-- `isDeepStrictEqual`: the order of the keys of an object does not matter. -/
def isDeepStrictEqual : Json → Json → Bool
  | .null, .null => true
  | .bool a, .bool b => a = b
  | .num a, .num b => a = b
  | .str a, .str b => a = b
  | .arr as, .arr bs => deepStrictEqualItems as bs
  | .obj as, .obj bs => as.length = bs.length && deepStrictEqualFields as bs
  | _, _ => false

def deepStrictEqualItems : List Json → List Json → Bool
  | [], [] => true
  | a :: as, b :: bs => isDeepStrictEqual a b && deepStrictEqualItems as bs
  | _, _ => false

def deepStrictEqualFields : List (String × Json) → List (String × Json) → Bool
  | [], _ => true
  | (key, a) :: as, bs =>
    (match bs.lookup key with
      | some b => isDeepStrictEqual a b
      | none => false) && deepStrictEqualFields as bs

end

/-- The reservation values define identity. -/
def samePending (current : Option PendingTick) (admitted : PendingTick) : Bool :=
  current.any fun current =>
    current.itemId = admitted.itemId ∧ current.slotAt = admitted.slotAt ∧
      current.revision = admitted.revision ∧ current.createdBy = admitted.createdBy ∧
      isDeepStrictEqual current.spec admitted.spec

/-! ### Errors and the atomic owner -/

inductive OrpcCode where
  | unauthorized
  | notFound
  | conflict
  | forbidden
  | badRequest
  deriving DecidableEq, Repr

/-- An `ORPCError`, or another error. -/
inductive ScheduleError where
  | orpc (code : OrpcCode) (message : Option String := none)
  | threw (message : String)
  deriving DecidableEq, Repr

abbrev Schedules := OrderedMap String Schedule

/-- `mutateSchedule`: the callback's schedule is parsed before it is written. -/
def mutateSchedule (env : ScheduleEnv) (schedules : Schedules) (id : String)
    (change : Option Schedule → Except ScheduleError (Option Schedule)) :
    Except ScheduleError (Option Schedule) × Schedules :=
  match change (schedules.get id) with
  | .error error => (.error error, schedules)
  | .ok none => (.ok none, schedules)
  | .ok (some next) =>
    if env.acceptsSchedule next then (.ok (some next), schedules.set id next)
    else (.error (.threw "scheduleSchema"), schedules)

/-- `listTickSchedules`. -/
def listTickSchedules (schedules : Schedules) : List Schedule :=
  schedules.values.filter fun schedule =>
    (schedule.enabled ∧ schedule.deletedAt = none) ∨ schedule.pendingTick ≠ none

/-! ### Operators -/

/-- What an operator asks for; the specification is parsed. -/
inductive ScheduleOp where
  | create (id cron : String) (spec : WorkSpec) (enabled : Option Bool)
  | update (id : String) (expectedRevision : Nat) (cron : String) (spec : WorkSpec) (enabled : Bool)
  | delete (id : String) (expectedRevision : Nat)
  | toggle (id : String) (expectedRevision : Nat) (enabled : Bool)

/-- Who asks, what the grants are, and each reading of the clock. -/
structure OperatorContext where
  principal : WorkPrincipal
  grants : List WorkGrant
  clock : Nat → Time

def checkedCron (cron : String) (now : Time) : Except ScheduleError Unit :=
  match parseCron cron with
  | .error _ => .error (.orpc .badRequest (some "Malformed cron expression"))
  | .ok spec =>
    if (nextDueSlot spec now).isSome then .ok ()
    else .error (.orpc .badRequest (some "cron expression never fires within a year"))

def currentSchedule (current : Option Schedule) (expectedRevision : Option Nat) :
    Except ScheduleError Schedule :=
  match current with
  | none => .error (.orpc .notFound)
  | some schedule =>
    if schedule.deletedAt.isSome then .error (.orpc .notFound)
    else if expectedRevision.any (schedule.currentRevision ≠ ·) then
      .error (.orpc .conflict (some "Schedule changed; reload before applying your change"))
    else .ok schedule

section Operators

variable (env : ScheduleEnv) (context : OperatorContext)

/-- Throw unless nothing forbids the specification to the authority. -/
def authorizeSpec (authority : WorkAuthority) (spec : WorkSpec)
    (message : Option String := none) : Except ScheduleError Unit :=
  match workForbiddenReason env.isControlPlaneRepository authority spec.pipeline spec.repo with
  | none => .ok ()
  | some forbidden => .error (.orpc .forbidden (some (message.getD forbidden)))

def mayAccessSchedule (schedule : Schedule) : Bool :=
  mayAccessStoredWork env.isControlPlaneRepository context.principal.toWorkAuthority
    (.obj [("spec", schedule.spec),
      ("origin", .obj [("principal", .str schedule.createdBy), ("channel", .str "api")])])

/-- The creator can remove or repair an invalid or revoked schedule.  Other operators require a
grant covering its stored pipeline and repository. -/
def authorizeSchedule (schedule : Schedule) : Except ScheduleError Unit :=
  let noGrant := ScheduleError.orpc .forbidden (some "No grant for this schedule")
  if ¬mayAccessSchedule env context schedule then .error noGrant
  else if context.principal.principal = schedule.createdBy then .ok ()
  else match workSpecSchema schedule.spec with
    | none => .error noGrant
    | some spec =>
      authorizeSpec env context.principal.toWorkAuthority spec (some "No grant for this schedule")

def enabledConfiguration (cron : String) (spec : Json) (createdBy : String) (now : Time) :
    Except ScheduleError Unit :=
  match workSpecSchema spec with
  | none => .error (.orpc .badRequest (some "Repair the invalid schedule before enabling it"))
  | some parsed => do
    checkedCron cron now
    authorizeSpec env context.principal.toWorkAuthority parsed
    let grant := grantForPrincipal createdBy context.grants
    authorizeSpec env { principal := createdBy, pipelines := (grant.map (·.pipelines)).getD [] } parsed
      (some ("The schedule creator no longer has a grant for this pipeline or repository"))

/-- `create`: idempotent by id, never over a deleted schedule. -/
def createChange (id cron : String) (spec : WorkSpec) (enabled : Option Bool) (now : Time)
    (existing : Option Schedule) : Except ScheduleError (Option Schedule) :=
  match existing with
  | some schedule =>
    if schedule.deletedAt.isSome ∨ schedule.cron ≠ cron ∨
        (workSpecSchema schedule.spec).map (·.toJson) ≠ some spec.toJson then
      .error (.orpc .conflict
        (some ("schedule " ++ id ++ " already exists with a different cron or spec")))
    else .ok (some schedule)
  | none =>
    .ok (some { scheduleId := id, cron, spec := spec.toJson, enabled := enabled.getD true
                createdBy := context.principal.principal, createdAt := now, updatedAt := now
                lastSlotAt := some now, revision := some 1 })

def updateChange (expectedRevision : Nat) (cron : String) (spec : WorkSpec) (enabled : Bool)
    (current : Option Schedule) : Except ScheduleError (Option Schedule) := do
  let schedule ← currentSchedule current (some expectedRevision)
  authorizeSchedule env context schedule
  if enabled then
    enabledConfiguration env context cron spec.toJson schedule.createdBy (context.clock 1)
  return some { schedule with
    cron, spec := spec.toJson, enabled
    disabledReason := if enabled then none else some .operator
    updatedAt := context.clock 2
    revision := some (schedule.currentRevision + 1) }

def deleteChange (expectedRevision : Nat) (current : Option Schedule) :
    Except ScheduleError (Option Schedule) := do
  let schedule ← currentSchedule current (some expectedRevision)
  authorizeSchedule env context schedule
  return some { schedule with
    enabled := false
    disabledReason := some .operator
    deletedAt := some (context.clock 0)
    updatedAt := context.clock 1
    revision := some (schedule.currentRevision + 1) }

def toggleChange (expectedRevision : Nat) (enabled : Bool) (current : Option Schedule) :
    Except ScheduleError (Option Schedule) := do
  let schedule ← currentSchedule current (some expectedRevision)
  authorizeSchedule env context schedule
  if enabled then
    enabledConfiguration env context schedule.cron schedule.spec schedule.createdBy (context.clock 0)
  return some { schedule with
    enabled
    disabledReason := if enabled then none else some .operator
    revision := some (schedule.currentRevision + 1)
    updatedAt := context.clock 1 }

/-- The handlers, behind the scope of an operator. -/
def ScheduleOp.run (op : ScheduleOp) (schedules : Schedules) :
    Except ScheduleError (Option Schedule) × Schedules :=
  if ¬context.principal.scopes.contains "work.operator" then
    (.error (.orpc .unauthorized (some "work.operator scope required")), schedules)
  else
    let checked (cron : String) (spec : WorkSpec) : Except ScheduleError Unit := do
      authorizeSpec env context.principal.toWorkAuthority spec
      checkedCron cron (context.clock 0)
    match op with
    | .create id cron spec enabled =>
      match checked cron spec with
      | .error error => (.error error, schedules)
      | .ok _ => mutateSchedule env schedules id
        (createChange context id cron spec enabled (context.clock 1))
    | .update id expectedRevision cron spec enabled =>
      match checked cron spec with
      | .error error => (.error error, schedules)
      | .ok _ => mutateSchedule env schedules id
        (updateChange env context expectedRevision cron spec enabled)
    | .delete id expectedRevision =>
      mutateSchedule env schedules id (deleteChange env context expectedRevision)
    | .toggle id expectedRevision enabled =>
      mutateSchedule env schedules id (toggleChange env context expectedRevision enabled)

end Operators

end AgentLcars
