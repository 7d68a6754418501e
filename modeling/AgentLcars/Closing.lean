import AgentLcars.Coherence

/-!
# Closing is final

A task is closed by `close`, or by the cancellation of its run, and in either case without a live
run.  Every way to mint a run asks that the task is open, but for the automatic retry, which needs a
live run to give up; so a closed task stays as it is.

* `Change.closed_kept` is what one step leaves of a closed task.
* `World.closing_final` is the result.
-/

namespace AgentLcars

section Change

variable {label : Step} {s s' : Store} {k : String} {vt : VersionedTask} {closedAt : Time}

/-- A closed task has no live run. -/
theorem Store.Coherent.dead_of_closed (hs : s.Coherent) {id : String} {r : Run}
    {vt : VersionedTask} (hr : s.runs.get id = some r) (hvt : s.tasks.get (taskKey r.task) = some vt)
    (hclosed : vt.task.closedAt.isSome = true) : isLive r.state = false := by
  by_contra hlive
  have hlock := hs.mutex hr hvt (by simpa using hlive)
  rw [hs.closed hvt hclosed] at hlock
  cases hlock

/-- A decision on a closed task without a live run keeps its closing and mints nothing. -/
theorem Effect.closed_kept {now : Time} {admitted : Option (RequestSource × String)} {overrun : Prop}
    {subject : Option Run} {t : Task} {d : Decision}
    (h : Effect label now admitted overrun subject (some t) d) (hclosed : t.closedAt = some closedAt)
    (hdead : ∀ r ∈ subject, isLive r.state = false) :
    d.task.closedAt = some closedAt ∧ ∀ x ∈ d.writes, ∃ r ∈ subject, Move label now r x := by
  cases h with
  | touch h =>
    refine ⟨?_, fun x hx => by cases hx⟩
    rcases h.closed with hsame | ⟨-, hopen, -⟩
    · rw [hsame, hclosed]
    · rw [hclosed] at hopen
      cases hopen
  | rewrite hmove _ h =>
    refine ⟨by rw [h.closed, hclosed], fun x hx => ?_⟩
    obtain rfl : x = _ := by simpa [Decision.writes] using hx
    exact ⟨_, rfl, hmove⟩
  | @settle _ _ r _ _ _ hr =>
    rw [hdead r rfl] at hr
    cases hr
  | mint old dropped m _ hmove _ _ _ _ _ horigin =>
    -- every origin asks for an open task or for a live run
    have hopen : t.closedAt ≠ none := by
      rw [hclosed]
      intro h
      cases h
    cases horigin with
    | request _ _ _ hwas => exact absurd hwas hopen
    | fallback _ _ _ _ _ _ _ _ hwas => exact absurd hwas hopen
    | correction _ _ _ _ _ _ _ _ _ _ _ _ _ hwas => exact absurd hwas hopen
    | retry r r' _ hold hr =>
      rw [hdead r (hmove r r' hold).1] at hr
      cases hr
    | supersede _ _ _ _ _ _ ht _ _ _ _ _ _ _ hwas =>
      obtain rfl := Option.some.inj ht
      exact absurd hwas hopen

/-- A closed task stays closed as it is, and gets no further run. -/
theorem Change.closed_kept (hs : s.Coherent) (h : Change label s s') (hvt : s.tasks.get k = some vt)
    (hclosed : vt.task.closedAt = some closedAt) :
    (∃ vt', s'.tasks.get k = some vt' ∧ vt'.task.closedAt = some closedAt) ∧
      ∀ id x, s'.runs.get id = some x → taskKey x.task = k → (s.runs.get id).isSome = true := by
  cases h with
  | aside h =>
    refine ⟨⟨vt, by rw [h.tasks]; exact hvt, hclosed⟩, fun id x hx _ => ?_⟩
    obtain ⟨_, r, hr, -⟩ := h.run_back hx
    rw [hr]
    rfl
  | decide now admitted subject d heffect hsubject _ hwritten =>
    have hstored : ∀ {id x}, x ∈ d.writes → x.runId = id →
        (∃ r ∈ subject, Move label now r x) → (s.runs.get id).isSome = true := by
      rintro id x - rfl ⟨r, hr, hmove⟩
      rw [runId_of_frozen hmove.frozen, (hsubject r hr).1]
      rfl
    by_cases hk : k = taskKey d.task.task
    · subst hk
      rw [hvt] at heffect
      obtain ⟨hkept, hwrites⟩ := heffect.closed_kept hclosed fun r hr => by
        obtain ⟨hget, hkey⟩ := hsubject r hr
        exact hs.dead_of_closed hget (hkey ▸ hvt) (by rw [hclosed]; rfl)
      refine ⟨⟨_, by rw [hwritten.get_task, if_pos rfl], hkept⟩, fun id x hx _ => ?_⟩
      rcases hwritten.get_cases hx with ⟨hmem, hid⟩ | ⟨hsame, -⟩
      · exact hstored hmem hid (hwrites x hmem)
      · rw [hsame]
        rfl
    · refine ⟨⟨vt, by rw [hwritten.get_task, if_neg hk, hvt], hclosed⟩, fun id x hx hkey => ?_⟩
      rcases hwritten.get_cases hx with ⟨hmem, hid⟩ | ⟨hsame, -⟩
      · rcases heffect.write_cases hmem with hmoved | hminted
        · exact hstored hmem hid hmoved
        · exact absurd (hkey.symm.trans hminted.key) hk
      · rw [hsame]
        rfl

end Change

/-! ### The call that closes -/

/-- What `close` commits: the closing of the task it was called for, and no run. -/
theorem Call.close_decided {call : Call} {s : Store} {now : Time} {d : Decision}
    (hcall : call.Sound s) (hop : call.op = .close) (h : call.decision s now = some d) :
    d.task.closedAt = some now ∧ d.writes = [] ∧ taskKey d.task.task = taskKey call.taskId := by
  unfold Call.decision at h
  split at h
  · rename_i task activeRun hphase
    split at h
    · cases h
    rename_i decision hd
    split_ifs at h
    obtain rfl := Option.some.inj h
    cases task with
    | none => exact absurd hd TaskOp.decide_none
    | some vt =>
      simp only [Call.Sound, hphase] at hcall
      have hkey : taskKey decision.task.task = taskKey call.taskId := by
        rw [TaskOp.decide_task hd, hcall.1.1]
      simp only [hop, TaskOp.decide, closeTask, Option.map_some, ite_refused_eq_ok] at hd
      obtain ⟨-, -, hd⟩ := hd
      split at hd
      · exact absurd hd refused_ne_ok
      · obtain rfl := Except.ok.inj hd
        exact ⟨rfl, rfl, hkey⟩
  · cases h

/-- What a closing leaves of its task for good. -/
structure ClosedFor (s : Store) (k : String) (closedAt : Time) (s' : Store) : Prop where
  closedAt : ∃ vt, s'.tasks.get k = some vt ∧ vt.task.closedAt = some closedAt
  dead : ∀ id r, s'.runs.get id = some r → taskKey r.task = k → isLive r.state = false
  unminted : ∀ id r, s'.runs.get id = some r → taskKey r.task = k → (s.runs.get id).isSome = true

/-- The task of a run is what it was admitted for. -/
theorem Change.task_back {label : Step} {s s' : Store} (hs : s.Coherent) (h : Change label s s')
    {id : String} {r x : Run} (hr : s.runs.get id = some r) (hx : s'.runs.get id = some x) :
    x.task = r.task := by
  obtain ⟨_, r', hr', hmove⟩ := h.run_moves hs hr
  obtain rfl := Option.some.inj (hx.symm.trans hr')
  exact task_of_frozen hmove.frozen

theorem World.Coherent.closed_run {w : World} (hw : w.Coherent) {k : String} {vt : VersionedTask}
    {closedAt : Time} (hvt : w.store.tasks.get k = some vt) (hclosed : vt.task.closedAt = some closedAt)
    (more : List Step) : ClosedFor w.store k closedAt (w.run more).store := by
  induction more using List.reverseRecOn with
  | nil =>
    refine ⟨⟨vt, hvt, hclosed⟩, fun id r hr hkey => ?_, fun id r hr _ => ?_⟩
    · exact hw.store.dead_of_closed hr (hkey ▸ hvt) (by rw [hclosed]; rfl)
    · have hsame : w.store.runs.get id = some r := hr
      rw [hsame]
      rfl
  | append_singleton more label ih =>
    have hw' := hw.run more
    have hrun : w.run (more ++ [label]) = (w.run more).step label := Machine.run_append _ _ _ _
    rw [hrun]
    obtain ⟨vt', hvt', hclosed'⟩ := ih.closedAt
    obtain ⟨⟨vt₂, hvt₂, hclosed₂⟩, hback⟩ := (hw'.change label).closed_kept hw'.store hvt' hclosed'
    refine ⟨⟨vt₂, hvt₂, hclosed₂⟩, fun id r hr hkey => ?_, fun id r hr hkey => ?_⟩
    · exact (hw'.step label).store.dead_of_closed hr (hkey ▸ hvt₂) (by rw [hclosed₂]; rfl)
    · obtain ⟨r₀, hr₀⟩ := Option.isSome_iff_exists.1 (hback id r hr hkey)
      exact ih.unminted id r₀ hr₀ ((hw'.change label).task_back hw'.store hr₀ hr ▸ hkey)

/-- A closed task keeps its closing, never again has a live run and is minted no run, whatever comes
next; and `close` succeeds only where the task has no live run. -/
theorem World.closing_final (steps : List Step) :
    (∀ k vt closedAt more, (World.init.run steps).store.tasks.get k = some vt →
      vt.task.closedAt = some closedAt →
      ClosedFor (World.init.run steps).store k closedAt (World.init.run (steps ++ more)).store) ∧
    ∀ id now call d, (World.init.run steps).calls.get id = some call → call.op = .close →
      (World.init.run steps).decision (.resume id now) = some d →
      d.task.closedAt = some now ∧ taskKey d.task.task = taskKey call.taskId ∧
        ∀ runId r, (World.init.run steps).store.runs.get runId = some r →
          taskKey r.task = taskKey call.taskId → isLive r.state = false := by
  have hw := World.coherent_run steps
  constructor
  · intro k vt closedAt more hvt hclosed
    have hrun : World.init.run (steps ++ more) = (World.init.run steps).run more :=
      Machine.run_append _ _ _ _
    rw [hrun]
    exact hw.closed_run hvt hclosed more
  · intro id now call d hcall hop hd
    have hdecision : call.decision (World.init.run steps).store now = some d := by
      simpa [World.decision, hcall] using hd
    obtain ⟨hclosed, hwrites, hkey⟩ := Call.close_decided (hw.calls hcall) hop hdecision
    obtain ⟨-, hruns, ⟨vt, hvt, htask⟩, -⟩ := hw.stored hd
    refine ⟨hclosed, hkey, fun runId r hr hrkey => ?_⟩
    rw [← hruns runId (by simp [hwrites])] at hr
    refine (hw.step (.resume id now)).store.dead_of_closed hr ?_ (by rw [htask, hclosed]; rfl)
    rw [hrkey, ← hkey, hvt]

end AgentLcars
