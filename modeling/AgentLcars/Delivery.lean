import AgentLcars.Decide

/-!
# Delivery monitoring

`libs/orchestrator/src/delivery.ts`.  A binding waits until its pull request merges or is
withdrawn; only a waiting binding moves, and each binding is corrected at most once.
-/

namespace AgentLcars

/-- Exact server observation of a bound pull request. -/
inductive DeliveryObservation where
  | waiting (head : String)
  | merged (head mergeCommit : String)
  | withdrawn (head : String)
  | revision (head newHead : String)
  | correction (head reason : String)
  deriving DecidableEq, Repr

/-- The head the observation is about. -/
def DeliveryObservation.head : DeliveryObservation → String
  | .waiting head => head
  | .merged head _ => head
  | .withdrawn head => head
  | .revision head _ => head
  | .correction head _ => head

/-- `{ ...params, ...extra }`: present keys are overwritten in place, new ones appended. -/
def overlay (params extra : Params) : Params :=
  extra.foldl (fun acc (key, value) =>
    if acc.any (fun e => e.1 = key) then
      acc.map fun e => if e.1 = key then (key, value) else e
    else acc ++ [(key, value)]) params

/-- `text.slice(0, n)`: at most `n` UTF-16 code units, a split pair dropped whole. -/
def sliceTo : Nat → List Char → List Char
  | _, [] => []
  | n, c :: rest =>
    let width := if c.toNat < 0x10000 then 1 else 2
    if n < width then [] else c :: sliceTo (n - width) rest

/-- The brief of a correction run. -/
def correctionContext (binding : DeliveryBinding) (reason : String) : String :=
  String.ofList (sliceTo 16384 ("Correct delivery https://github.com/" ++ binding.repo ++ "/pull/" ++
    toString binding.number ++ " at " ++ binding.head ++ ". " ++ reason).toList)

/-- The request of the run that corrects a delivery. -/
def correctionRequest (now : Time) (task : Task) (run : Run) (binding : DeliveryBinding)
    (reason : String) : RequestRunInput :=
  { now
    taskId := task.task
    task := some { task with delivery := none }
    activeRun := none
    requestId := "delivery:" ++ run.runId
    requestSource := some .deliveryCorrection
    pipeline := run.pipeline
    priority := some run.priority
    providerFallback := run.providerFallback.map .inherited
    params := some (overlay (run.params.getD [])
      [("mode", "implement"), ("context", correctionContext binding reason),
       ("deliveryPredecessor", run.runId)]) }

/-- A bound run moves both copies of its binding. -/
def moveDelivery (now : Time) (task : Task) (run : Run) (delivery : Option DeliveryBinding)
    (outbox : List OutboxEntry := []) : Decision :=
  { task := { task with delivery, updatedAt := now }
    run := some { run with delivery, updatedAt := now }
    outbox }

/-- The binding of the task is the run's own, at the observed head, and nothing runs. -/
def observesBinding (task : Task) (run : Run) (binding : DeliveryBinding)
    (observation : DeliveryObservation) : Bool :=
  binding.runId = run.runId ∧ run.delivery.map (·.head) = some binding.head ∧
    binding.head = observation.head ∧ task.activeRunId = none ∧ run.state = .finished ∧
    run.result.any (·.ok)

/-- A binding is waiting until its pull request merges or is withdrawn. -/
def advanceDelivery (now : Time) (task : Task) (run : Run) (observation : DeliveryObservation)
    (correctionAuthorized : Bool) : Outcome :=
  if task.closedAt.isSome then refused .taskClosed
  else match task.delivery with
    | none => refused .staleLease
    | some binding =>
      if ¬observesBinding task run binding observation then refused .staleLease
      else if binding.state ≠ .waiting then .ok { task, run := some run }
      else match observation with
        | .waiting _ => .ok { task, run := some run }
        | .revision _ newHead =>
          .ok (moveDelivery now task run (some { binding with head := newHead, observedAt := now }))
        | .merged _ mergeCommit =>
          let delivery := { binding with
            state := .complete, mergeCommit := some mergeCommit, observedAt := now }
          .ok (moveDelivery now task run (some delivery)
            (finalDeliveryOutbox task run delivery now))
        | .withdrawn _ => .ok (moveDelivery now task run none)
        | .correction _ reason =>
          if ¬correctionAuthorized then refused .notClaimant
          else if binding.correctionRunId.isSome then refused .runNotLive
          else do
            let next ← requestRun (correctionRequest now task run binding reason)
            let correction ← decidedRun next
            return { next with
              task := { next.task with
                delivery := some { binding with correctionRunId := some correction.runId } }
              run := some run
              additionalRuns := [correction] }

end AgentLcars
