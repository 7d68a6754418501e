import AgentLcars.QueueAdmission
import Mathlib.Data.String.Basic

/-!
# What a claim selects

A selection first admits pipelines, by ceiling, and orders their heads; it then picks a class by
turn among the candidates of one pipeline.  The lemmas say what is selected and when something is,
and `turnsUntil` counts the turns a class still has to let pass.
-/

namespace AgentLcars

/-! ### Class turns -/

theorem priorityTurn_mod (position step : Nat) :
    priorityTurn (position % QUEUE_PRIORITY_TURNS.length) step = priorityTurn position step := by
  unfold priorityTurn
  rw [Nat.mod_add_mod]

/-- Every class has a turn within one round. -/
theorem exists_priorityTurn (position : Nat) (priority : QueuePriority) :
    ∃ step ∈ List.range QUEUE_PRIORITY_TURNS.length, priorityTurn position step = priority := by
  have hround : ∀ start < QUEUE_PRIORITY_TURNS.length,
      ∃ step ∈ List.range QUEUE_PRIORITY_TURNS.length, priorityTurn start step = priority := by
    cases priority <;> decide
  obtain ⟨step, hstep, hturn⟩ := hround _ (Nat.mod_lt position (by decide))
  exact ⟨step, hstep, (priorityTurn_mod position step).symm.trans hturn⟩

/-- Every class with a candidate is reached, so a nonempty queue yields a run. -/
theorem selectPriorityQueuedRun_isSome {runs : List Run} {r : Run} (hr : r ∈ runs)
    (position : Nat) : (selectPriorityQueuedRun runs position).isSome = true := by
  obtain ⟨step, hstep, hturn⟩ := exists_priorityTurn position r.priority
  rw [selectPriorityQueuedRun, List.findSome?_isSome_iff]
  refine ⟨step, hstep, ?_⟩
  rw [List.find?_isSome]
  exact ⟨r, hr, by simp [hturn]⟩

theorem selectPriorityQueuedRun_mem {runs : List Run} {r : Run} {position : Nat}
    (h : selectPriorityQueuedRun runs position = some r) : r ∈ runs := by
  obtain ⟨step, -, hstep⟩ := List.exists_of_findSome?_eq_some h
  exact List.mem_of_find?_eq_some hstep

/-- How many turns pass before a class has its own. -/
def turnsUntil (position : Nat) (priority : QueuePriority) : Nat :=
  ((List.range QUEUE_PRIORITY_TURNS.length).find? fun step =>
    priorityTurn position step = priority).getD 0

/-- Within how many successful claims a class has a turn. -/
def fairShare : QueuePriority → Nat
  | .urgent => 3
  | .normal => 4
  | .background => 7

theorem turnsUntil_mod (position : Nat) (priority : QueuePriority) :
    turnsUntil (position % QUEUE_PRIORITY_TURNS.length) priority = turnsUntil position priority := by
  simp only [turnsUntil, priorityTurn_mod]

theorem find_priorityTurn (position : Nat) (priority : QueuePriority) :
    (List.range QUEUE_PRIORITY_TURNS.length).find?
      (fun step => priorityTurn position step = priority) = some (turnsUntil position priority) := by
  obtain ⟨step, hstep, hturn⟩ := exists_priorityTurn position priority
  have hsome : ((List.range QUEUE_PRIORITY_TURNS.length).find?
      fun step => priorityTurn position step = priority).isSome = true := by
    rw [List.find?_isSome]
    exact ⟨step, hstep, decide_eq_true hturn⟩
  obtain ⟨first, hfirst⟩ := Option.isSome_iff_exists.1 hsome
  rw [turnsUntil, hfirst, Option.getD_some]

theorem priorityTurn_turnsUntil (position : Nat) (priority : QueuePriority) :
    priorityTurn position (turnsUntil position priority) = priority := by
  simpa using List.find?_some (find_priorityTurn position priority)

theorem turnsUntil_le (position step : Nat) :
    turnsUntil position (priorityTurn position step) ≤ step := by
  have hfirst := (List.find?_range_eq_some.1
    (find_priorityTurn position (priorityTurn position step))).2.2
  by_contra hlater
  simpa using hfirst step (by omega)

/-- The cursor moves past the turns that were let pass and the one taken. -/
theorem queuePriorityTurnAfter_eq (position : Nat) (priority : QueuePriority) :
    queuePriorityTurnAfter position priority =
      (position + turnsUntil position priority + 1) % QUEUE_PRIORITY_TURNS.length := by
  rw [queuePriorityTurnAfter, find_priorityTurn]

theorem queuePriorityTurnAfter_mod (position : Nat) (priority : QueuePriority) :
    queuePriorityTurnAfter (position % QUEUE_PRIORITY_TURNS.length) priority =
      queuePriorityTurnAfter position priority := by
  rw [queuePriorityTurnAfter_eq, queuePriorityTurnAfter_eq, turnsUntil_mod]
  simp only [Nat.add_assoc, Nat.mod_add_mod]

theorem turnsUntil_lt (position : Nat) (priority : QueuePriority) :
    turnsUntil position priority < fairShare priority := by
  have hround : ∀ start < QUEUE_PRIORITY_TURNS.length,
      turnsUntil start priority < fairShare priority := by
    cases priority <;> decide
  rw [← turnsUntil_mod]
  exact hround _ (Nat.mod_lt position (by decide))

/-- A turn of another class brings a class closer to its own. -/
theorem turnsUntil_after {position : Nat} {priority other : QueuePriority}
    (h : turnsUntil position other < turnsUntil position priority) :
    turnsUntil (queuePriorityTurnAfter position other) priority < turnsUntil position priority := by
  have hround : ∀ start < QUEUE_PRIORITY_TURNS.length,
      turnsUntil start other < turnsUntil start priority →
      turnsUntil (queuePriorityTurnAfter start other) priority < turnsUntil start priority := by
    cases priority <;> cases other <;> decide
  rw [← turnsUntil_mod position other, ← turnsUntil_mod position priority] at h
  rw [← turnsUntil_mod position priority, ← queuePriorityTurnAfter_mod]
  exact hround _ (Nat.mod_lt position (by decide)) h

/-- The selected run is the first of its class, and no class with candidates has an earlier turn. -/
theorem selectPriorityQueuedRun_eq_some {runs : List Run} {position : Nat} {r : Run}
    (h : selectPriorityQueuedRun runs position = some r) :
    runs.find? (fun run => run.priority = r.priority) = some r ∧
      ∀ x ∈ runs, turnsUntil position r.priority ≤ turnsUntil position x.priority := by
  obtain ⟨before, step, rest, hrange, hfind, hbefore⟩ := List.findSome?_eq_some_iff.1 h
  have hturn : r.priority = priorityTurn position step := by
    simpa using List.find?_some hfind
  refine ⟨hturn ▸ hfind, fun x hx => ?_⟩
  have hin : turnsUntil position x.priority ∈ before ++ step :: rest := by
    rw [← hrange]
    exact List.mem_of_find?_eq_some (find_priorityTurn position x.priority)
  have hout : turnsUntil position x.priority ∉ before := by
    intro hmem
    have hpassed := List.find?_eq_none.1 (hbefore _ hmem) x hx
    rw [priorityTurn_turnsUntil] at hpassed
    exact hpassed (decide_eq_true rfl)
  have hsorted := List.pairwise_lt_range (n := QUEUE_PRIORITY_TURNS.length)
  rw [hrange] at hsorted
  have hafter : ∀ later ∈ rest, step < later :=
    (List.pairwise_cons.1 (List.pairwise_append.1 hsorted).2.1).1
  have hle : step ≤ turnsUntil position x.priority := by
    rcases List.mem_append.1 hin with hmem | hmem
    · exact absurd hmem hout
    · rcases List.mem_cons.1 hmem with heq | hmem
      · exact heq.ge
      · exact (hafter _ hmem).le
  rw [hturn]
  exact (turnsUntil_le position step).trans hle

/-! ### FIFO order -/

theorem fifoLe_iff {a b : Run} : fifoLe a b = true ↔
    a.createdAt < b.createdAt ∨ (a.createdAt = b.createdAt ∧ a.runId ≤ b.runId) := by
  rw [fifoLe, decide_eq_true_eq, le_iff_lt_or_eq]

instance : Std.Total fun a b : Run => fifoLe a b = true where
  total a b := by
    simp only [fifoLe_iff]
    rcases lt_trichotomy (α := Int) a.createdAt b.createdAt with h | h | h
    · exact .inl (.inl h)
    · exact (le_total a.runId b.runId).imp (fun hle => .inr ⟨h, hle⟩) fun hle => .inr ⟨h.symm, hle⟩
    · exact .inr (.inl h)

instance : IsTrans Run fun a b => fifoLe a b = true where
  trans a b c hab hbc := by
    simp only [fifoLe_iff] at *
    rcases hab with h | ⟨h, hle⟩ <;> rcases hbc with h' | ⟨h', hle'⟩
    · exact .inl (h.trans h')
    · exact .inl (h' ▸ h)
    · exact .inl (h ▸ h')
    · exact .inr ⟨h.trans h', hle.trans hle'⟩

/-- Candidates stand in FIFO order. -/
theorem pairwise_fifo (runs : List Run) : (fifo runs).Pairwise fun a b => fifoLe a b = true :=
  List.pairwise_insertionSort _ runs

/-- The first of its class in a FIFO list is no later than any other of its class. -/
theorem fifoLe_of_find {runs : List Run} {r x : Run} (hx : x ∈ fifo runs)
    (hr : (fifo runs).find? (fun run => run.priority = r.priority) = some r)
    (hclass : x.priority = r.priority) : x = r ∨ fifoLe r x = true := by
  obtain ⟨-, before, rest, hsplit, hbefore⟩ := List.find?_eq_some_iff_append.1 hr
  rw [hsplit] at hx
  rcases List.mem_append.1 hx with hmem | hmem
  · simpa [hclass] using hbefore x hmem
  · rcases List.mem_cons.1 hmem with heq | hmem
    · exact .inl heq
    · have hsorted := pairwise_fifo runs
      rw [hsplit] at hsorted
      exact .inr ((List.pairwise_cons.1 (List.pairwise_append.1 hsorted).2.1).1 x hmem)

/-! ### What a selection takes -/

/-- The candidates of a pipeline in FIFO order. -/
def pipelineCandidates (runs : List Run) (now : Option Time) (pipeline : String) : List Run :=
  fifo (runs.filter fun run => isQueueAdmissionCandidate run now ∧ run.pipeline = pipeline)

theorem mem_pipelineCandidates {runs : List Run} {now : Option Time} {pipeline : String} {r : Run} :
    r ∈ pipelineCandidates runs now pipeline ↔
      r ∈ runs ∧ isQueueAdmissionCandidate r now = true ∧ r.pipeline = pipeline := by
  rw [pipelineCandidates, fifo, List.mem_insertionSort, List.mem_filter, decide_eq_true_eq]

section Selection

variable {queuedRuns liveRuns : List Run} {pipelines : List String} {now : Option Time}
  {positions : OrderedMap String Nat}

/-- The heads of the granted pipelines below their ceilings. -/
def admittedHeads (queuedRuns liveRuns : List Run) (pipelines : List String) (now : Option Time) :
    List Run :=
  (pipelines.eraseDups.filterMap fun pipeline =>
    (pipelineCandidates queuedRuns now pipeline).head?).filter fun run =>
      belowCeiling liveRuns run.pipeline

theorem mem_admittedHeads {head : Run} :
    head ∈ admittedHeads queuedRuns liveRuns pipelines now ↔
      head.pipeline ∈ pipelines ∧ belowCeiling liveRuns head.pipeline = true ∧
        (pipelineCandidates queuedRuns now head.pipeline).head? = some head := by
  rw [admittedHeads, List.mem_filter, List.mem_filterMap]
  constructor
  · rintro ⟨⟨pipeline, hgranted, hhead⟩, hbelow⟩
    obtain ⟨-, -, rfl⟩ := mem_pipelineCandidates.1 (List.mem_of_head? hhead)
    exact ⟨List.mem_eraseDups.1 hgranted, hbelow, hhead⟩
  · rintro ⟨hgranted, hbelow, hhead⟩
    exact ⟨⟨head.pipeline, List.mem_eraseDups.2 hgranted, hhead⟩, hbelow⟩

theorem selectFairQueuedRun_eq :
    selectFairQueuedRun queuedRuns liveRuns pipelines now positions =
      (((admittedHeads queuedRuns liveRuns pipelines now).insertionSort fun a b =>
        providerLe liveRuns pipelines.eraseDups a b).head?).bind fun provider =>
          selectPriorityQueuedRun (pipelineCandidates queuedRuns now provider.pipeline)
            ((positions.get provider.pipeline).getD 0) := by
  unfold selectFairQueuedRun admittedHeads pipelineCandidates
  dsimp only
  split
  · rename_i h
    rw [h]
    rfl
  · rename_i h
    rw [h]
    rfl

/-- A selected run is taken by class turn from the candidates of an admitted pipeline. -/
theorem selectFairQueuedRun_eq_some {r : Run}
    (h : selectFairQueuedRun queuedRuns liveRuns pipelines now positions = some r) :
    r.pipeline ∈ pipelines ∧ belowCeiling liveRuns r.pipeline = true ∧
      r ∈ pipelineCandidates queuedRuns now r.pipeline ∧
      selectPriorityQueuedRun (pipelineCandidates queuedRuns now r.pipeline)
        ((positions.get r.pipeline).getD 0) = some r := by
  rw [selectFairQueuedRun_eq] at h
  obtain ⟨provider, hprovider, hselect⟩ := Option.bind_eq_some_iff.1 h
  have hmem := List.mem_of_head? hprovider
  rw [List.mem_insertionSort] at hmem
  obtain ⟨hgranted, hbelow, -⟩ := mem_admittedHeads.1 hmem
  have hcandidate := selectPriorityQueuedRun_mem hselect
  have hpipeline : r.pipeline = provider.pipeline := (mem_pipelineCandidates.1 hcandidate).2.2
  rw [hpipeline]
  exact ⟨hgranted, hbelow, hcandidate, hselect⟩

/-- A candidate of a granted pipeline below its ceiling makes the selection succeed. -/
theorem selectFairQueuedRun_isSome {r : Run} (hgranted : r.pipeline ∈ pipelines)
    (hbelow : belowCeiling liveRuns r.pipeline = true)
    (hr : r ∈ pipelineCandidates queuedRuns now r.pipeline) :
    (selectFairQueuedRun queuedRuns liveRuns pipelines now positions).isSome = true := by
  obtain ⟨head, hhead⟩ : ∃ head,
      (pipelineCandidates queuedRuns now r.pipeline).head? = some head :=
    Option.isSome_iff_exists.1 (List.isSome_head?.2 (List.ne_nil_of_mem hr))
  have hpipeline : head.pipeline = r.pipeline :=
    (mem_pipelineCandidates.1 (List.mem_of_head? hhead)).2.2
  have hadmitted : head ∈ admittedHeads queuedRuns liveRuns pipelines now := by
    rw [mem_admittedHeads, hpipeline]
    exact ⟨hgranted, hbelow, hhead⟩
  rw [selectFairQueuedRun_eq]
  obtain ⟨provider, hprovider⟩ : ∃ provider,
      ((admittedHeads queuedRuns liveRuns pipelines now).insertionSort fun a b =>
        providerLe liveRuns pipelines.eraseDups a b).head? = some provider := by
    refine Option.isSome_iff_exists.1 (List.isSome_head?.2 (List.ne_nil_of_mem (a := head) ?_))
    rw [List.mem_insertionSort]
    exact hadmitted
  rw [hprovider]
  have hmem := List.mem_of_head? hprovider
  rw [List.mem_insertionSort] at hmem
  exact selectPriorityQueuedRun_isSome (List.mem_of_head? (mem_admittedHeads.1 hmem).2.2) _

end Selection

end AgentLcars
