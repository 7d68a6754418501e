import AgentLcars.Recovery

/-!
# Runs that lead to no other run

A recipe run is on goose and carries neither a fallback policy nor a source revision, so that no
fallback, retry or successor is ever minted after it.

* `Store.Recipe`: a task has at most the one recipe run that was asked for under an id;
* `World.Coherent.recipe`, `request_recipe`: neither a step that asks for no run of the task nor the
  request of the run itself mints a second one.
-/

namespace AgentLcars

/-- A run that was asked for under an id, and that nothing follows by itself. -/
structure RecipeRun (id : String) (r : Run) : Prop where
  source : r.requestSource = .caller
  requestId : r.requestId = id
  pipeline : r.pipeline = "goose"
  policy : r.providerFallback = none
  revision : r.sourceRevision = none

/-- A task has at most the one recipe run of an id, which the index knows. -/
structure Store.Recipe (s : Store) (k id : String) : Prop where
  runs : ∀ i r, s.runs.get i = some r → taskKey r.task = k → RecipeRun id r
  indexed : ∀ i r, s.runs.get i = some r → taskKey r.task = k →
    s.requestRuns.get r.indexKey = some r.runId
  one : ∀ i j r q, s.runs.get i = some r → s.runs.get j = some q → taskKey r.task = k →
    taskKey q.task = k → i = j

section Recipe

variable {label : Step} {s s' : Store} {k id : String}

theorem RecipeRun.kept {r r' : Run} (h : RecipeRun id r) (hfrozen : r'.frozen = r.frozen) :
    RecipeRun id r' where
  source := (requestSource_of_frozen hfrozen).trans h.source
  requestId := (requestId_of_frozen hfrozen).trans h.requestId
  pipeline := (pipeline_of_frozen hfrozen).trans h.pipeline
  policy := (congrArg Frozen.providerFallback hfrozen).trans h.policy
  revision := (sourceRevision_of_frozen hfrozen).trans h.revision

/-- A task that is not stored has no run. -/
theorem Store.Coherent.runs_none (hs : s.Coherent) (h : s.tasks.get k = none) {i : String} {r : Run}
    (hr : s.runs.get i = some r) : taskKey r.task ≠ k := by
  rintro rfl
  obtain ⟨vt, -, hvt, -⟩ := hs.counted hr
  rw [h] at hvt
  cases hvt

theorem Store.Recipe.of_task_none (hs : s.Coherent) (h : s.tasks.get k = none) : s.Recipe k id :=
  ⟨fun _ _ hr hk => absurd hk (hs.runs_none h hr), fun _ _ hr hk => absurd hk (hs.runs_none h hr),
    fun _ _ _ _ hr _ hk _ => absurd hk (hs.runs_none h hr)⟩

/-- A decision about the task that neither requests nor corrects mints nothing. -/
theorem Store.Recipe.writes_old {now : Time} {admitted : Option (RequestSource × String)}
    {overrun : Prop} {subject : Option Run} {d : Decision} (hr : s.Recipe k id) (hs : s.Coherent)
    (hkey : taskKey d.task.task = k)
    (heffect : Effect label now admitted overrun subject ((s.tasks.get k).map (·.task)) d)
    (hsubject : ∀ r ∈ subject, s.runs.get r.runId = some r ∧ taskKey r.task = k)
    (hadmits : Presents label s k admitted) (hrequest : label.requestedKey ≠ some k)
    (hcorrects : ∀ m ∈ d.writes, s.runs.get m.runId = none → m.requestSource ≠ .deliveryCorrection)
    {x : Run} (hx : x ∈ d.writes) : ∃ r, s.runs.get x.runId = some r ∧ x.frozen = r.frozen := by
  have hstored : ∀ r ∈ subject, s.runs.get r.runId = some r := fun r h => (hsubject r h).1
  rcases heffect.write_cases hx with ⟨r, hsub, hmove⟩ | hminted
  · refine ⟨r, ?_, hmove.frozen⟩
    rw [runId_of_frozen hmove.frozen]
    exact hstored r hsub
  · have hnew : s.runs.get x.runId = none := by
      refine MintedHere.unstored (d := d) hs ?_
      rw [hkey]
      exact hminted
    obtain ⟨old, hold, -, horigin⟩ := heffect.origin hstored hx hnew
    have hrecipe : ∀ r r', old = some (r, r') → RecipeRun id r := by
      intro r r' hrr'
      obtain ⟨hget, hk⟩ := hsubject r (hold r r' hrr').1
      exact hr.runs _ r hget hk
    exfalso
    cases horigin with
    | request hadmitted => exact hrequest (hadmits.admits _ _ hadmitted).requested
    | fallback r r' hrr' _ _ _ _ _ _ _ _ hfalls =>
      obtain ⟨policy, _, _, hpolicy, -⟩ := hfalls.policy
      rw [(hrecipe r r' hrr').policy] at hpolicy
      cases hpolicy
    | correction _ _ _ _ _ _ _ _ _ hsource => exact hcorrects x hx hnew hsource
    | retry r r' t hrr' _ _ _ _ _ _ _ _ _ _ hretries =>
      have hrun := hrecipe r r' hrr'
      exact hretries.recipe hrun.revision hrun.pipeline
    | supersede r r' t _ hrr' _ _ _ hsome =>
      rw [(hrecipe r r' hrr').revision] at hsome
      cases hsome

/-- A run of the task after the step was one before it. -/
theorem World.Coherent.recipe_back {w : World} (hw : w.Coherent)
    (hc : World.RecoversOnly k w label) (hr : w.store.Recipe k id) {i : String} {x : Run}
    (hx : (w.step label).store.runs.get i = some x) (hk : taskKey x.task = k) :
    ∃ r, w.store.runs.get i = some r ∧ x.frozen = r.frozen := by
  cases hd : w.decision label with
  | none =>
    obtain ⟨now, r, hget, hmove⟩ := (hw.undecided hd).run_back hx
    exact ⟨r, hget, hmove.frozen⟩
  | some d =>
    obtain ⟨now, admitted, subject, heffect, hsubject, hadmits, hwritten, -⟩ := hw.committed hd
    rcases hwritten.get_cases hx with ⟨hmem, rfl⟩ | ⟨hget, -⟩
    · have hkey : taskKey d.task.task = k := by
        rcases heffect.write_cases hmem with ⟨r, hsub, hmove⟩ | hminted
        · rw [← hk, task_of_frozen hmove.frozen, (hsubject r hsub).2]
        · rw [← hk, hminted.key]
      rw [hkey] at heffect hsubject hadmits
      refine hr.writes_old hw.store hkey heffect hsubject hadmits hc.1 ?_ hmem
      intro m hm hnew hsource
      obtain ⟨old, -, hmk, -⟩ := heffect.origin (fun r hr => (hsubject r hr).1) hm hnew
      refine Bool.eq_false_iff.1 hc.2 ?_
      rw [World.corrects, hd, Option.any_some, List.any_eq_true]
      exact ⟨m, hm, by simp [hnew, ← hmk, hkey, hsource]⟩
    · exact ⟨x, hget, rfl⟩

/-- A request for another task asks for no run of this one. -/
theorem World.Coherent.request_other {w : World} (hw : w.Coherent) {now : Time}
    {input : RequestInput} (hne : taskKey input.taskId ≠ k) :
    World.RecoversOnly k w (.request now input) := by
  refine ⟨fun hsame => hne (Option.some.inj hsame), ?_⟩
  rw [World.corrects, Bool.eq_false_iff]
  intro hany
  obtain ⟨d, hd, hmints⟩ := (Option.any_eq_true _ _).1 hany
  obtain ⟨m, hm, hnew⟩ := List.any_eq_true.1 hmints
  simp only [decide_eq_true_eq] at hnew
  obtain ⟨hunstored, hk, -⟩ := hnew
  obtain ⟨-, -, hmk, -⟩ := request_minted hw.store (toOption_eq_ok hd) hm
    (Option.isNone_iff_eq_none.1 hunstored)
  exact hne (hmk.symm.trans hk)

/-- A step that asks for no run of the task mints none. -/
theorem World.Coherent.recipe {w : World} (hw : w.Coherent) (hc : World.RecoversOnly k w label)
    (hr : w.store.Recipe k id) : (w.step label).store.Recipe k id := by
  have hback := fun {i x} => hw.recipe_back hc hr (i := i) (x := x)
  have hone : ∀ i j x y, (w.step label).store.runs.get i = some x →
      (w.step label).store.runs.get j = some y → taskKey x.task = k → taskKey y.task = k →
      i = j := by
    intro i j x y hx hy hxk hyk
    obtain ⟨r, hri, hxr⟩ := hback hx hxk
    obtain ⟨q, hqj, hyq⟩ := hback hy hyk
    exact hr.one i j r q hri hqj (by rw [← task_of_frozen hxr, hxk])
      (by rw [← task_of_frozen hyq, hyk])
  refine ⟨fun i x hx hk => ?_, fun i x hx hk => ?_, hone⟩
  · obtain ⟨r, hget, hfrozen⟩ := hback hx hk
    exact (hr.runs i r hget (by rw [← task_of_frozen hfrozen, hk])).kept hfrozen
  · obtain ⟨r, hget, hfrozen⟩ := hback hx hk
    have hold : w.store.requestRuns.get x.indexKey = some x.runId := by
      rw [indexKey_of_frozen hfrozen, runId_of_frozen hfrozen]
      exact hr.indexed i r hget (by rw [← task_of_frozen hfrozen, hk])
    cases hd : w.decision label with
    | none =>
      have hkept : (w.step label).store.requestRuns = w.store.requestRuns := by
        cases hw.undecided hd with
        | quiet hu => exact hu.requestRuns
        | outbox hu => exact hu.requestRuns
        | queue _ _ _ _ _ _ _ _ hrequests => exact hrequests
      rw [hkept]
      exact hold
    | some d =>
      obtain ⟨now, admitted, subject, heffect, hsubject, -, hwritten, -⟩ := hw.committed hd
      rw [hwritten.requestRuns]
      show (OrderedMap.setAll Run.indexKey Run.runId w.store.requestRuns d.writes).get _ = _
      by_cases hmem : ∃ y ∈ d.writes, y.indexKey = x.indexKey
      · obtain ⟨y, hy, hyx⟩ := hmem
        have hsameTask : taskKey y.task = k := (indexKey_eq_iff.1 hyx).task.trans hk
        have hstored := hwritten.get_of_mem hw.store heffect hsubject hy
        have hid : y.runId = x.runId := by
          rw [hone _ _ y x hstored hx hsameTask hk, runId_of_frozen hfrozen, hw.store.runKeyed hget]
        rw [← hyx, ← hid]
        refine OrderedMap.get_setAll_of_mem Run.indexKey Run.runId hy fun z hz hzy => ?_
        have hzTask : taskKey z.task = k := (indexKey_eq_iff.1 hzy).task.trans hsameTask
        exact hone _ _ z y (hwritten.get_of_mem hw.store heffect hsubject hz) hstored hzTask hsameTask
      · rw [OrderedMap.get_setAll_of_notMem Run.indexKey Run.runId fun y hy hyx => hmem ⟨y, hy, hyx⟩]
        exact hold

/-- A task is stored by a request for it. -/
theorem World.Coherent.task_none {w : World} (hw : w.Coherent)
    (hrequest : label.requestedKey ≠ some k) (hnone : w.store.tasks.get k = none) :
    (w.step label).store.tasks.get k = none := by
  cases hw.change label with
  | aside h => rw [h.tasks, hnone]
  | decide now admitted subject d heffect hsubject hadmits hwritten =>
    rw [hwritten.get_task]
    split_ifs with hk
    · subst hk
      rw [hnone] at heffect
      exact absurd (heffect.taskKey_eq.2 rfl) hrequest
    · exact hnone

/-- The runs of a task of a recipe are listed as at most one. -/
theorem Store.Recipe.listRuns (hr : s.Recipe k id) (hs : s.Coherent) {taskId : TaskId}
    (hk : taskKey taskId = k) {i : String} {r : Run} (hget : s.runs.get i = some r)
    (hrk : taskKey r.task = k) : s.listRuns taskId = [r] := by
  have hmem : r ∈ s.listRuns taskId :=
    List.mem_filter.2 ⟨(s.runs.mem_values_iff r).2 ⟨i, hget⟩, by simp [hk, hrk]⟩
  have hlength : (s.runsOf k).length ≤ 1 :=
    hs.runsOf_le [i] fun j x hx hxk => List.mem_singleton.2 (hr.one j i x r hx hget hxk hrk)
  have hsame : s.listRuns taskId = s.runsOf k := by
    unfold Store.listRuns Store.runsOf
    rw [hk]
  rw [hsame] at hmem ⊢
  obtain ⟨x, hx⟩ := List.length_eq_one_iff.1
    (Nat.le_antisymm hlength (List.length_pos_of_mem hmem))
  rw [hx, List.mem_singleton] at hmem
  rw [hx, hmem]

end Recipe

/-! ### The request of the run -/

/-- A request for a recipe run under an id. -/
structure RequestInput.Recipe (input : RequestInput) (id : String) : Prop where
  requestId : input.requestId = id
  source : input.requestSource = none
  pipeline : input.pipeline = "goose"
  revision : input.sourceRevision = none
  policy : input.providerFallback = none ∧ input.providerFallbackForPipeline = none
  binding : input.requestBinding = none
  replaced : input.replaceQueuedRunId = none
  label : input.labelProviderRequest = none
  plain : input.useEffectivePipeline = false

theorem Store.Recipe.of_unread {s s' : Store} {k id : String} (h : s.Recipe k id)
    (hu : Unread s s') : s'.Recipe k id where
  runs := fun i r hr => h.runs i r (hu.runs ▸ hr)
  indexed := fun i r hr hk => by rw [hu.requestRuns]; exact h.indexed i r (hu.runs ▸ hr) hk
  one := fun i j r q hr hq => h.one i j r q (hu.runs ▸ hr) (hu.runs ▸ hq)

/-- A request for the recipe run of a task mints the run, or leaves the one that there is. -/
theorem request_recipe {s : Store} {now : Time} {input : RequestInput} {id : String}
    (hs : s.Coherent) (hinput : input.Recipe id) (hr : s.Recipe (taskKey input.taskId) id) :
    (Orchestrator.request s now input).2.Recipe (taskKey input.taskId) id := by
  rcases request_cases s now input with ⟨-, hunread, -⟩ |
    ⟨requestId, next, d, -, -, hresolve, hdecide, hwritten⟩
  · exact hr.of_unread hunread
  obtain rfl : requestId = id := by
    rw [hinput.binding, hinput.requestId] at hresolve
    exact (Prod.mk.inj (Except.ok.inj hresolve)).1.symm
  obtain ⟨-, hprevious, hadmit⟩ := decideRequest_ok hdecide
  -- the index knows of no run, so there is none
  have hfree : ∀ i r, s.runs.get i = some r → taskKey r.task ≠ taskKey input.taskId := by
    intro i r hget hk
    have hrun := hr.runs i r hget hk
    have hindex := hr.indexed i r hget hk
    unfold Run.indexKey Store.requestKey at hindex
    simp only [Store.requestState, RequestInput.read, Store.requestKey, hinput.source,
      Option.getD_none] at hprevious
    rw [hrun.source, hrun.requestId, hk] at hindex
    rw [hindex, Option.bind_some, hs.runKeyed hget, hget] at hprevious
    cases hprevious
  have hrequest : requestRun (input.args now (s.requestState input.read requestId)) = .ok d := by
    unfold admitRequest at hadmit
    simpa only [hinput.label, hinput.replaced, hinput.revision] using hadmit
  obtain ⟨m, hm⟩ := requested_of_ok hrequest
  have hwrites : d.writes = [m] := by
    rw [hm.form]
    rfl
  have honly : ∀ i r, (Orchestrator.request s now input).2.runs.get i = some r →
      taskKey r.task = taskKey input.taskId → r = m ∧ i = m.runId := by
    intro i r hget hk
    rcases hwritten.get_cases hget with ⟨hmem, rfl⟩ | ⟨hold, -⟩
    · rw [hwrites, List.mem_singleton] at hmem
      exact ⟨hmem, by rw [hmem]⟩
    · exact absurd hk (hfree i r hold)
  have hfallback : m.providerFallback = none := by
    rw [hm.policy]
    simp only [RequestInput.args, hinput.policy.1, hinput.policy.2, Option.map_none, mintedFallback]
  have hrun : RecipeRun requestId m := by
    refine ⟨?_, hm.requestId, ?_, hfallback, hm.revision⟩
    · rw [hm.source]
      simp only [RequestInput.args, hinput.source, Option.getD_none, Option.getD_some]
    · rw [hm.pipeline]
      simp only [RequestInput.args, RequestInput.effectivePipeline, hinput.plain, hinput.pipeline,
        Bool.false_eq_true, if_false]
  refine ⟨fun i r hget hk => ?_, fun i r hget hk => ?_, fun i j r q hget hget' hk hk' => ?_⟩
  · rw [(honly i r hget hk).1]
    exact hrun
  · rw [(honly i r hget hk).1, hwritten.requestRuns, hwrites]
    exact OrderedMap.get_setAll_of_mem Run.indexKey Run.runId (List.mem_singleton_self m)
      fun y hy _ => by rw [List.mem_singleton.1 hy]
  · rw [(honly i r hget hk).2, (honly j q hget' hk').2]

end AgentLcars
