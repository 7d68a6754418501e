import AgentLcars.Lib.Collation
import AgentLcars.MemoryStore

/-!
# Item state

`libs/work/src/derive.ts`: the state of a work item is never stored but read off the task and its
latest run.  `latestRun` sorts by creation time and numeric run generation, under whatever locale
the process runs in.
-/

namespace AgentLcars

/-- What an item view reports. -/
inductive ItemState where
  | running
  | done
  | parked
  | failed
  | canceled
  deriving DecidableEq, Repr

/-- Creation time, then run id with its numbers read as numbers. -/
def compareRunOrder (locale : Text.Locale) (a b : Run) : Ordering :=
  (compareOfLessAndEq a.createdAt b.createdAt).then
    (Text.compareNumeric locale a.runId b.runId)

/-- Newest run first: created last, numeric run generation as a tiebreak. -/
def latestRun (locale : Text.Locale) (runs : List Run) : Option Run :=
  (runs.insertionSort fun a b => (compareRunOrder locale b a).isLE).head?

/-- The end of the table: a run that is neither waited for, live, nor published. -/
def deriveSettledState (task : Task) (latest : Run) : ItemState :=
  if latest.state = .finished then
    -- only an explicit park is a human handoff
    if latest.result.bind (·.summary) = some "park" then .parked
    else if latest.result.any (·.ok) then .done else .failed
  else if latest.pipeline = "goose" then .failed
  else if MAX_AUTO_RETRIES < task.consecutiveLost ∨ (latest.sourceRevision.isSome ∧
      MAX_AUTO_RETRIES < latest.revisionAttempt.getD 1) then .failed
  else .running

/-- The middle of the table: a latest run that no delivery is waited for beside. -/
def deriveRunState (task : Task) (latest : Run) : ItemState :=
  let publication := latest.triagePublication.map (·.state)
  if isLive latest.state then .running
  else if publication = some .complete then .done
  else if latest.sourceRevision.isSome ∧ task.desiredRevision = none then .canceled
  else if publication = some .pending then .running
  else if publication = some .failed then .failed
  else if publication = some .superseded then .canceled
  else if (task.delivery.any fun delivery =>
      delivery.state = .complete ∧ delivery.runId = latest.runId) then .done
  else deriveSettledState task latest

/-- `deriveItemState`: the first match wins, in the order the table lists them. -/
def deriveItemState (locale : Text.Locale) (task : Task) (runs : List Run) : ItemState :=
  let latest := latestRun locale runs
  if task.closedAt.isSome ∨ latest.map (·.state) = some .canceled then .canceled
  else if deliveryWaiting task ∧ latest.map (·.state) ≠ some .lost then
    if latest.any fun run => run.state = .finished ∧ run.result.any fun result => ¬result.ok then
      .failed
    else if latest.any fun run =>
        run.state = .finished ∧ run.result.bind (·.summary) = some "park" then .parked
    else .running
  else
    match latest with
    | none => .running
    | some latest => deriveRunState task latest

end AgentLcars
