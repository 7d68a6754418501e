import AgentLcars.Coherence

/-!
# The newest label wins

A task records the latest label that asked for a provider, by the clock of the label's source.  A
label is looked at only if it is newer than the recorded one, whatever became of that; every other
operation leaves the record alone.

* `LabelStep` is what a label request does, seen from outside.
* `Change.routing` is what any other step does to the record.
* `World.labels_converge` is the result.
-/

namespace AgentLcars

/-! ### What a label decides -/

/-- The label is newer than the recorded one, and another one. -/
def Supplants (previous : Option ProviderRouting) (id : String) (requestedAt : Time) : Prop :=
  ∀ p ∈ previous, p.requestId ≠ id ∧ p.requestedAt < requestedAt

/-- The record before a label request. -/
def LabelInput.previous (input : LabelInput) : Option ProviderRouting :=
  input.request.task.bind (·.providerRouting)

/-- The runs a taken label writes: its own, and the queued one it cancels for it. -/
structure TakesLabel (input : LabelInput) (d : Decision) (m : Run) : Prop where
  run : d.run = some m
  runId : m.runId = runIdOf (taskKey d.task.task) d.task.runCount
  later : generations input.request.task < d.task.runCount
  key : taskKey m.task = taskKey d.task.task
  requestId : m.requestId = input.request.requestId
  beside : ∀ x ∈ d.additionalRuns, ∃ r ∈ input.request.activeRun, isLive r.state = true ∧
    x.runId = r.runId ∧ x.state = .canceled

/-- What a label request that is not refused decides. -/
inductive LabelOutcome (input : LabelInput) (d : Decision) : Prop where
  | repeated (task : Task) (htask : input.request.task = some task) (hd : d = { task })
  | rejected (task : Task) (reason : String) (htask : input.request.task = some task)
      (hnewer : Supplants input.previous input.request.requestId input.label.requestedAt)
      (hd : d = { task := { task with
        providerRouting := some { labelRequest input with reason := some reason }
        updatedAt := input.request.now } })
  | accepted (m : Run) (htakes : TakesLabel input d m)
      (hnewer : Supplants input.previous input.request.requestId input.label.requestedAt)
      (hrouting : d.task.providerRouting = some { labelRequest input with
        effectivePipeline := m.pipeline
        status := .accepted
        acceptedGeneration := some
          { runId := m.runId, requestedAt := input.label.requestedAt, pipeline := m.pipeline } })

section Decisions

variable {input : LabelInput} {d : Decision}
  (hnewer : Supplants input.previous input.request.requestId input.label.requestedAt)
include hnewer

theorem rejectLabel_outcome {reason : String} (h : rejectLabel input reason = .ok d) :
    LabelOutcome input d := by
  unfold rejectLabel at h
  split at h
  · exact absurd h refused_ne_ok
  · rename_i task htask
    exact .rejected task reason htask hnewer (Except.ok.inj h).symm

theorem finishLabel_outcome {outcome : Outcome}
    (houtcome : ∀ d', outcome = .ok d' → ∃ m, TakesLabel input d' m)
    (h : finishLabel input outcome = .ok d) : LabelOutcome input d := by
  unfold finishLabel at h
  split at h
  · exact rejectLabel_outcome hnewer h
  · cases h
  · rename_i decision
    obtain ⟨m, hm⟩ := houtcome decision rfl
    obtain ⟨fresh, hfresh, h⟩ := bind_eq_ok.1 h
    obtain rfl := Option.some.inj (hm.run.symm.trans (decidedRun_eq_ok.1 hfresh))
    obtain rfl := Except.ok.inj h
    exact .accepted m ⟨hm.run, hm.runId, hm.later, hm.key, hm.requestId, hm.beside⟩ hnewer rfl

omit hnewer in
/-- A request that mints takes the label. -/
theorem Requested.takesLabel {request : RequestRunInput} {m : Run} (h : Requested request d m)
    (hcount : generations request.task = generations input.request.task)
    (hid : request.requestId = input.request.requestId) : TakesLabel input d m where
  run := by rw [h.form]
  runId := by rw [h.minted.key, h.minted.runId]
  later := by
    rw [← hcount, h.minted.count]
    omega
  key := h.minted.key.symm
  requestId := h.requestId.trans hid
  beside := by
    rw [h.form]
    intro x hx
    cases hx

omit hnewer in
/-- The handoff cancels the queued run in the decision that mints its successor. -/
theorem labelHandoff_takes {task : Task} {active : Run} (htask : input.request.task = some task)
    (hactive : input.request.activeRun = some active)
    (h : labelHandoff input task active = .ok d) : ∃ m, TakesLabel input d m := by
  obtain ⟨canceled, hcanceled, h⟩ := bind_eq_ok.1 h
  obtain ⟨next, hnext, h⟩ := bind_eq_ok.1 h
  obtain ⟨run, hrun, h⟩ := bind_eq_ok.1 h
  obtain rfl := Option.some.inj ((cancelRun_run hcanceled).symm.trans (decidedRun_eq_ok.1 hrun))
  obtain rfl := Except.ok.inj h
  obtain ⟨m, hm⟩ := requested_of_ok hnext
  obtain ⟨hlive, -, closedAt, -, -, rfl⟩ := cancelRun_ok hcanceled
  have htakes : TakesLabel input next m := hm.takesLabel (by rw [htask]; rfl) rfl
  refine ⟨m, htakes.run, htakes.runId, htakes.later, htakes.key, htakes.requestId, ?_⟩
  intro x hx
  obtain rfl := List.mem_singleton.1 hx
  exact ⟨active, hactive, hlive, rfl, rfl⟩

theorem takeLabel_outcome (h : takeLabel input = .ok d) : LabelOutcome input d := by
  have hplain : ∀ d', requestRun (labelledRequest input) = .ok d' →
      ∃ m, TakesLabel input d' m := by
    intro d' hd'
    obtain ⟨m, hm⟩ := requested_of_ok hd'
    exact ⟨m, hm.takesLabel rfl rfl⟩
  unfold takeLabel at h
  split at h
  · rename_i task active htask hactive
    split_ifs at h
    · exact rejectLabel_outcome hnewer h
    · exact finishLabel_outcome hnewer
        (fun d' hd' => labelHandoff_takes htask (Option.filter_eq_some_iff.1 hactive).1 hd') h
    · exact finishLabel_outcome hnewer hplain h
  · exact finishLabel_outcome hnewer hplain h

end Decisions

/-- A label is repeated, or newer than the recorded one and rejected or taken. -/
theorem decideLabelProviderRequest_outcome {input : LabelInput} {d : Decision}
    (h : decideLabelProviderRequest input = .ok d) : LabelOutcome input d := by
  unfold decideLabelProviderRequest at h
  simp only [ite_refused_eq_ok] at h
  obtain ⟨-, h⟩ := h
  split at h
  · cases h
  split at h
  · rename_i task htask
    split at h
    · exact .repeated task htask (Except.ok.inj h).symm
    · rename_i hother
      obtain ⟨hlater, h⟩ := ite_refused_eq_ok.1 h
      have hnewer : Supplants input.previous input.request.requestId input.label.requestedAt := by
        intro p hp
        have hp : task.providerRouting = some p := by
          rw [← hp, LabelInput.previous, htask]
          rfl
        simp only [htask, Option.bind_some, hp, Option.any_some, decide_eq_true_eq, not_le]
          at hother hlater
        exact ⟨hother, hlater⟩
      split at h
      · exact rejectLabel_outcome hnewer h
      · exact takeLabel_outcome hnewer h
  · rename_i htask
    have hnewer : Supplants input.previous input.request.requestId input.label.requestedAt := by
      intro p hp
      rw [LabelInput.previous, htask] at hp
      cases hp
    split at h
    · exact rejectLabel_outcome hnewer h
    · exact takeLabel_outcome hnewer h

/-! ### A label request, seen from outside -/

/-- What is recorded about the labels of a task. -/
def Store.routing (s : Store) (k : String) : Option ProviderRouting :=
  (s.tasks.get k).bind (·.task.providerRouting)

/-- What a request for the label `id` of the task `k` does.  An accepted label mints its run in the
step that cancels the one it replaces. -/
inductive LabelStep (s s' : Store) (k id : String) (requestedAt : Time) : Prop where
  | kept (hruns : ∀ i, s'.runs.get i = s.runs.get i) (hrouting : s'.routing k = s.routing k) :
      LabelStep s s' k id requestedAt
  | refused (p : ProviderRouting) (hnewer : Supplants (s.routing k) id requestedAt)
      (hruns : ∀ i, s'.runs.get i = s.runs.get i) (hrouting : s'.routing k = some p)
      (hid : p.requestId = id) (hat : p.requestedAt = requestedAt) (hstatus : p.status = .refused)
      (hgeneration : p.acceptedGeneration = (s.routing k).bind (·.acceptedGeneration)) :
      LabelStep s s' k id requestedAt
  | accepted (p : ProviderRouting) (m : Run) (hnewer : Supplants (s.routing k) id requestedAt)
      (hnew : s.runs.get m.runId = none) (hm : s'.runs.get m.runId = some m)
      (hkey : taskKey m.task = k) (hrequest : m.requestId = id)
      (hcanceled : ∀ i x, s'.runs.get i = some x → i ≠ m.runId → s.runs.get i = some x ∨
        ∃ r, s.runs.get i = some r ∧ isLive r.state = true ∧ x.state = .canceled)
      (hrouting : s'.routing k = some p) (hid : p.requestId = id)
      (hat : p.requestedAt = requestedAt) (hstatus : p.status = .accepted)
      (hgeneration : p.acceptedGeneration =
        some { runId := m.runId, requestedAt, pipeline := m.pipeline }) :
      LabelStep s s' k id requestedAt

section Requests

variable {s s' : Store} {now : Time} {input : RequestInput}

theorem Unread.routing (h : Unread s s') (k : String) : s'.routing k = s.routing k := by
  rw [Store.routing, h.tasks]
  rfl

theorem Written.routing {d : Decision} (h : Written s s' d) (k : String) : s'.routing k =
    if k = taskKey d.task.task then d.task.providerRouting else s.routing k := by
  rw [Store.routing, h.get_task]
  split_ifs <;> rfl

theorem Written.runs_kept {d : Decision} (h : Written s s' d) (hwrites : d.writes = []) (i : String) :
    s'.runs.get i = s.runs.get i :=
  h.get_of_notMem (by simp [hwrites])

/-- The request transaction of a label. -/
def labelInput (s : Store) (now : Time) (input : RequestInput) (intent : LabelIntent)
    (requestId : String) : LabelInput :=
  let state := s.requestState input.read requestId
  { request := input.args now state
    admittedPipeline := input.admittedPipeline state.task
    label := intent
    latestRun := state.latestRun
    retainedClaims := state.retainedClaims }

theorem labelInput_previous (s : Store) (now : Time) (input : RequestInput) (intent : LabelIntent)
    (requestId : String) :
    (labelInput s now input intent requestId).previous = s.routing (taskKey input.taskId) := by
  show ((s.tasks.get (taskKey input.taskId)).map (·.task)).bind (·.providerRouting) = _
  rw [Option.bind_map]
  rfl

theorem decideRequest_label {intent : LabelIntent} {requestId : String} {d : Decision}
    (hintent : input.labelProviderRequest = some intent)
    (h : decideRequest input now (s.requestState input.read requestId) = .ok d) :
    LabelOutcome (labelInput s now input intent requestId) d := by
  obtain ⟨-, -, h⟩ := decideRequest_ok h
  unfold admitRequest at h
  rw [hintent] at h
  exact decideLabelProviderRequest_outcome h

/-- Every label request is one of the three. -/
theorem request_labelStep (hs : s.Coherent) (now : Time) {intent : LabelIntent}
    (hintent : input.labelProviderRequest = some intent) :
    ∃ id, (∀ i ∈ s.resolves input, i = id) ∧ LabelStep s (Orchestrator.request s now input).2
      (taskKey input.taskId) id intent.requestedAt := by
  rcases request_cases s now input with ⟨-, hunread, -⟩ |
    ⟨id, next, d, -, hrevision, hresolve, hdecide, hwritten⟩
  · cases hid : s.resolves input with
    | none => exact ⟨"", by simp, .kept (fun i => by rw [hunread.runs]) (hunread.routing _)⟩
    | some id =>
      exact ⟨id, by simp, .kept (fun i => by rw [hunread.runs]) (hunread.routing _)⟩
  · have hresolves : s.resolves input = some id := by
      rw [Store.resolves, hresolve]
    refine ⟨id, by simp [hresolves], ?_⟩
    obtain ⟨now', admitted, subject, heffect, hsubject, hadmits, -, -⟩ :=
      request_committed hs hrevision hresolve hdecide hwritten
    obtain ⟨-, hdecided⟩ : _ ∧ Effect (.request now input) now _ True _ _ d :=
      decideRequest_effect (hs.lockRead now input id) hdecide
    have hkey : taskKey d.task.task = taskKey input.taskId := hdecided.requested hs
    have hprevious := labelInput_previous s now input intent id
    have hrouting : (Orchestrator.request s now input).2.routing (taskKey input.taskId) =
        d.task.providerRouting := by
      rw [hwritten.routing, if_pos hkey.symm]
    cases decideRequest_label hintent hdecide with
    | repeated task htask hd =>
      subst hd
      refine .kept (hwritten.runs_kept rfl) ?_
      rw [hrouting, ← hprevious, LabelInput.previous, htask]
      rfl
    | rejected task reason htask hnewer hd =>
      subst hd
      rw [hprevious] at hnewer
      refine .refused _ hnewer (hwritten.runs_kept rfl) hrouting rfl rfl rfl ?_
      rw [← hprevious]
      rfl
    | accepted m htakes hnewer hrouted =>
      rw [hprevious] at hnewer
      have hmem : m ∈ d.writes := by simp [Decision.writes, htakes.run]
      have htask : (s.tasks.get (taskKey d.task.task)).map (·.task) =
          (labelInput s now input intent id).request.task := by
        rw [hkey]
        rfl
      obtain ⟨n, hn⟩ : ∃ n, d.task.runCount = n + 1 :=
        ⟨d.task.runCount - 1, by have := htakes.later; omega⟩
      have hnew : s.runs.get m.runId = none := by
        rw [htakes.runId, hn]
        refine hs.fresh_id ?_
        rw [htask]
        have := htakes.later
        omega
      refine .accepted _ m hnewer hnew (hwritten.get_of_mem hs heffect hsubject hmem)
        (htakes.key.trans hkey) htakes.requestId ?_ (hrouting.trans hrouted) rfl rfl rfl rfl
      intro i x hx hne
      rcases hwritten.get_cases hx with ⟨hwrite, rfl⟩ | ⟨hsame, -⟩
      swap
      · exact .inl hsame
      rcases List.mem_append.1 hwrite with hfirst | hbeside
      · rw [htakes.run, Option.toList_some, List.mem_singleton] at hfirst
        exact absurd (congrArg Run.runId hfirst) hne
      · obtain ⟨r, hr, hlive, hid, hstate⟩ := htakes.beside x hbeside
        obtain ⟨_, -, -, hget, -⟩ := hs.activeRun hr
        exact .inr ⟨r, hid ▸ hget, hlive, hstate⟩

end Requests

/-! ### Every step -/

theorem Step.labels_eq {label : Step} (h : label.labels = true) :
    ∃ now input intent, label = .request now input ∧ input.labelProviderRequest = some intent := by
  cases label with
  | request now input =>
    obtain ⟨intent, hintent⟩ := Option.isSome_iff_exists.1 h
    exact ⟨now, input, intent, rfl, hintent⟩
  | _ => cases h

/-- A step leaves the record of a task alone, or is a label request for it. -/
theorem Change.routing {label : Step} {s s' : Store} (h : Change label s s') (k : String) :
    s'.routing k = s.routing k ∨ ∃ now input intent, label = .request now input ∧
      input.labelProviderRequest = some intent ∧ taskKey input.taskId = k := by
  cases h with
  | aside h => exact .inl (by rw [Store.routing, h.tasks]; rfl)
  | decide now admitted subject d heffect _ hadmits hwritten =>
    rw [hwritten.routing]
    split_ifs with hk
    swap
    · exact .inl rfl
    subst hk
    rcases heffect.kept.routing with hlabels | hsame
    · obtain ⟨later, input, intent, rfl, hintent⟩ := Step.labels_eq hlabels
      obtain ⟨⟨source, id⟩, hadmitted⟩ := Option.isSome_iff_exists.1 (hadmits.asked rfl)
      exact .inr ⟨later, input, intent, rfl, hintent,
        Option.some.inj (hadmits.admits _ _ hadmitted).requested⟩
    · refine .inl (hsame.trans ?_)
      rw [Store.routing, Option.bind_map]
      rfl

/-- The record that follows another: the same one, or that of a newer label. -/
def FollowedBy (p p' : ProviderRouting) : Prop :=
  p' = p ∨ (p'.requestId ≠ p.requestId ∧ p.requestedAt < p'.requestedAt)

/-- The pipeline of the accepted label is that of the run it names. -/
def Accepts (s : Store) : Prop :=
  ∀ k p g, s.routing k = some p → p.acceptedGeneration = some g →
    ∃ r, s.runs.get g.runId = some r ∧ taskKey r.task = k ∧ r.pipeline = g.pipeline

section World

variable {w : World}

/-- A record is only ever followed by that of a newer label. -/
theorem World.Coherent.routing_follows (hw : w.Coherent) (label : Step) {k : String}
    {p : ProviderRouting} (hp : w.store.routing k = some p) :
    ∃ p', (w.step label).store.routing k = some p' ∧ FollowedBy p p' := by
  rcases (hw.change label).routing k with hsame | ⟨now, input, intent, rfl, hintent, rfl⟩
  · exact ⟨p, hsame.trans hp, .inl rfl⟩
  obtain ⟨id, -, hstep⟩ := request_labelStep hw.store now hintent
  cases hstep with
  | kept _ hrouting => exact ⟨p, hrouting.trans hp, .inl rfl⟩
  | refused p' hnewer _ hrouting hid hat =>
    obtain ⟨hne, hlt⟩ := hnewer p hp
    exact ⟨p', hrouting, .inr ⟨hid ▸ hne.symm, hat ▸ hlt⟩⟩
  | accepted p' m hnewer _ _ _ _ _ hrouting hid hat =>
    obtain ⟨hne, hlt⟩ := hnewer p hp
    exact ⟨p', hrouting, .inr ⟨hid ▸ hne.symm, hat ▸ hlt⟩⟩

/-- The clock of the record never goes back. -/
theorem World.Coherent.routing_run (hw : w.Coherent) {k : String} {p : ProviderRouting}
    (hp : w.store.routing k = some p) (steps : List Step) :
    ∃ p', (w.run steps).store.routing k = some p' ∧ p.requestedAt ≤ p'.requestedAt := by
  have hall : (w.run steps).Coherent ∧
      ∃ p', (w.run steps).store.routing k = some p' ∧ p.requestedAt ≤ p'.requestedAt := by
    refine Machine.invariant_run (fun v : World => v.Coherent ∧
      ∃ p', v.store.routing k = some p' ∧ p.requestedAt ≤ p'.requestedAt) ?_ ⟨hw, p, hp, le_rfl⟩ steps
    rintro v label ⟨hv, q, hq, hle⟩
    obtain ⟨q', hq', hfollows⟩ := hv.routing_follows label hq
    refine ⟨hv.step label, q', hq', ?_⟩
    rcases hfollows with rfl | ⟨-, hlt⟩
    · exact hle
    · exact hle.trans hlt.le
  exact hall.2

/-- The request mints nothing, cancels nothing and records nothing. -/
structure World.Ignores (w : World) (now : Time) (input : RequestInput) : Prop where
  runs : ∀ i, (w.step (.request now input)).store.runs.get i = w.store.runs.get i
  routing : (w.step (.request now input)).store.routing (taskKey input.taskId) =
    w.store.routing (taskKey input.taskId)

/-- A label that is recorded, or no newer than the recorded one, does nothing. -/
theorem World.Coherent.label_ignored (hw : w.Coherent) {now : Time} {input : RequestInput}
    {intent : LabelIntent} {p : ProviderRouting}
    (hintent : input.labelProviderRequest = some intent)
    (hp : w.store.routing (taskKey input.taskId) = some p)
    (hold : w.store.resolves input = some p.requestId ∨ intent.requestedAt ≤ p.requestedAt) :
    w.Ignores now input := by
  obtain ⟨id, hid, hstep⟩ := request_labelStep hw.store now hintent
  have hnot : ¬Supplants (w.store.routing (taskKey input.taskId)) id intent.requestedAt := by
    intro hnewer
    obtain ⟨hne, hlt⟩ := hnewer p hp
    rcases hold with hsame | hle
    · exact hne (hid _ hsame)
    · exact absurd hle (not_le.2 hlt)
  cases hstep with
  | kept hruns hrouting => exact ⟨hruns, hrouting⟩
  | refused _ hnewer => exact absurd hnewer hnot
  | accepted _ _ hnewer => exact absurd hnewer hnot

theorem World.Coherent.accepts_step (hw : w.Coherent) (label : Step) (hinv : Accepts w.store) :
    Accepts (w.step label).store := by
  intro k p' g hp' hg
  -- a run that was named before keeps its pipeline
  have hnamed : ∀ p, w.store.routing k = some p → p.acceptedGeneration = some g →
      ∃ r, (w.step label).store.runs.get g.runId = some r ∧ taskKey r.task = k ∧
        r.pipeline = g.pipeline := by
    intro p hp hpg
    obtain ⟨r, hr, hkey, hpipeline⟩ := hinv k p g hp hpg
    obtain ⟨now, r', hr', hmove⟩ := (hw.change label).run_moves hw.store hr
    exact ⟨r', hr', by rw [task_of_frozen hmove.frozen, hkey],
      (pipeline_of_frozen hmove.frozen).trans hpipeline⟩
  rcases (hw.change label).routing k with hsame | ⟨now, input, intent, rfl, hintent, rfl⟩
  · exact hnamed p' (hsame.symm.trans hp') hg
  obtain ⟨id, -, hstep⟩ := request_labelStep hw.store now hintent
  cases hstep with
  | kept _ hrouting => exact hnamed p' (hrouting.symm.trans hp') hg
  | refused q _ _ hrouting _ _ _ hgeneration =>
    obtain rfl := Option.some.inj (hrouting.symm.trans hp')
    rw [hgeneration] at hg
    obtain ⟨p, hp, hpg⟩ := Option.bind_eq_some_iff.1 hg
    exact hnamed p hp hpg
  | accepted q m _ _ hm hkey _ _ hrouting _ _ _ hgeneration =>
    obtain rfl := Option.some.inj (hrouting.symm.trans hp')
    obtain rfl := Option.some.inj (hgeneration.symm.trans hg)
    exact ⟨m, hm, hkey, rfl⟩

end World

/-! ### Whole histories -/

/-- What is recorded about labels after the steps, and what a further label request does. -/
structure LabelsConverge (steps : List Step) : Prop where
  /-- A record is only followed by that of another label with a later source clock. -/
  ordered : ∀ k p label, (World.init.run steps).store.routing k = some p →
    ∃ p', (World.init.run (steps ++ [label])).store.routing k = some p' ∧ FollowedBy p p'
  /-- The recorded label does nothing when it arrives again. -/
  repeated : ∀ p now input intent, input.labelProviderRequest = some intent →
    (World.init.run steps).store.routing (taskKey input.taskId) = some p →
    (World.init.run steps).store.resolves input = some p.requestId →
    (World.init.run steps).Ignores now input
  /-- Nor does a label, at any time after, whose clock is not past that of a recorded one: the label
  itself, taken or refused, and every older one. -/
  superseded : ∀ p more now input intent, input.labelProviderRequest = some intent →
    (World.init.run steps).store.routing (taskKey input.taskId) = some p →
    intent.requestedAt ≤ p.requestedAt → (World.init.run (steps ++ more)).Ignores now input
  /-- The accepted generation is a stored run of the task on the recorded pipeline. -/
  accepted : Accepts (World.init.run steps).store
  /-- An accepted label mints its run in the step that cancels the one it replaces. -/
  handoff : ∀ now input intent, input.labelProviderRequest = some intent →
    ∃ id, (∀ i ∈ (World.init.run steps).store.resolves input, i = id) ∧
      LabelStep (World.init.run steps).store (World.init.run (steps ++ [.request now input])).store
        (taskKey input.taskId) id intent.requestedAt

/-- In whatever order labels arrive, each task follows the newest of them. -/
theorem World.labels_converge (steps : List Step) : LabelsConverge steps := by
  have hw := World.coherent_run steps
  have hlast : ∀ label, (World.init.run (steps ++ [label])) = (World.init.run steps).step label :=
    fun label => World.run_append _ _ _
  refine ⟨fun k p label hp => ?_, fun p now input intent hintent hp hid =>
    hw.label_ignored hintent hp (.inl hid), fun p more now input intent hintent hp hle => ?_, ?_,
    fun now input intent hintent => ?_⟩
  · rw [hlast]
    exact hw.routing_follows label hp
  · obtain ⟨q, hq, hpq⟩ := hw.routing_run hp more
    rw [World.run_append]
    exact (hw.run more).label_ignored hintent hq (.inr (hle.trans hpq))
  · refine (Machine.invariant_run (fun v : World => v.Coherent ∧ Accepts v.store) ?_
      ⟨World.coherent_init, ?_⟩ steps).2
    · rintro v label ⟨hv, hinv⟩
      exact ⟨hv.step label, hv.accepts_step label hinv⟩
    · intro k p g hp
      cases hp
  · rw [hlast]
    exact request_labelStep hw.store now hintent

end AgentLcars
