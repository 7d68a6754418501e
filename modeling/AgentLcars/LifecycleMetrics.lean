import AgentLcars.EventLog
import AgentLcars.Schema

/-!
# Settlement in the lifecycle metrics

`libs/orchestrator/src/lifecycle-metrics.ts`, as far as it is about settled runs.  The metrics find
the settlement of a run by searching its log from the end for an event of the run's state.

* `terminalAt`, `hasCancelIntervention` and `LifecycleMetricRecords.settled` are the source's;
* `World.settlement_step`: which step settled a run, and what its log holds since;
* `World.settlement_clock`: when the metrics find that step, and when they do not.

An executor that reports the exit of a settled recipe whose credential cleanup is pending leaves a
receipt in the log, an event of the run's state.  The search finds the receipt.
-/

namespace AgentLcars

/-! ### The metrics -/

/-- `LIFECYCLE_METRICS_WINDOW_SECONDS`, in milliseconds. -/
def LIFECYCLE_METRICS_WINDOW_MS : Time := 3600 * 1000

/-- The last event to the state that the run has. -/
def settlementEvent (run : Run) : Option RunEvent :=
  run.events.reverse.find? fun event => event.to_ = run.state

/-- `terminalAt`. -/
def terminalAt (run : Run) : Option Time := (settlementEvent run).map (·.at_)

/-- The event records a typed cancellation. -/
def RunEvent.workApiCancel (event : RunEvent) : Bool :=
  event.by_ = .operator ∧ event.intervention.any fun intervention =>
    intervention.kind = .workApiCancel ∧ interventionSchema intervention

/-- `hasCancelIntervention`. -/
def hasCancelIntervention (run : Run) (now : Time) : Bool :=
  run.state = .canceled ∧ (settlementEvent run).any fun event =>
    event.workApiCancel ∧ run.createdAt ≤ event.at_ ∧ event.at_ ≤ run.updatedAt ∧
      run.updatedAt ≤ now

/-- `inWindow`. -/
def inWindow (now : Time) (at_ : Option Time) : Bool :=
  at_.any fun at_ => now - LIFECYCLE_METRICS_WINDOW_MS ≤ at_ ∧ at_ ≤ now

/-- What the snapshot reads of the runs. -/
structure LifecycleMetricRecords where
  recentRuns : List Run
  liveRuns : List Run

/-- Keep one durable identity, at its newest observed revision. -/
def keepNewest (byId : OrderedMap String Run) (run : Run) : OrderedMap String Run :=
  if (byId.get run.runId).all fun previous => previous.updatedAt ≤ run.updatedAt then
    byId.set run.runId run
  else byId

/-- `byId`. -/
def LifecycleMetricRecords.byId (records : LifecycleMetricRecords) : OrderedMap String Run :=
  (records.recentRuns ++ records.liveRuns).foldl keepNewest .empty

/-- `terminal`: the runs that settled in the window, of every pipeline. -/
def LifecycleMetricRecords.settled (records : LifecycleMetricRecords) (now : Time) : List Run :=
  records.byId.values.filter fun run => ¬isLive run.state ∧ inWindow now (terminalAt run)

/-! ### One identity, one run -/

theorem keepNewest_keyed {byId : OrderedMap String Run} {run : Run}
    (h : ∀ id r, byId.get id = some r → r.runId = id) :
    ∀ id r, (keepNewest byId run).get id = some r → r.runId = id := by
  intro id r hr
  unfold keepNewest at hr
  split at hr
  · rw [OrderedMap.get_set] at hr
    split_ifs at hr with hid
    · cases hr
      exact hid.symm
    · exact h id r hr
  · exact h id r hr

theorem LifecycleMetricRecords.byId_keyed (records : LifecycleMetricRecords) :
    ∀ id r, records.byId.get id = some r → r.runId = id := by
  unfold LifecycleMetricRecords.byId
  generalize records.recentRuns ++ records.liveRuns = runs
  have hall : ∀ (runs : List Run) (byId : OrderedMap String Run),
      (∀ id r, byId.get id = some r → r.runId = id) →
      ∀ id r, (runs.foldl keepNewest byId).get id = some r → r.runId = id := by
    intro runs
    induction runs with
    | nil => exact fun _ h => h
    | cons run rest ih => exact fun byId h => ih _ (keepNewest_keyed h)
  exact hall runs .empty fun id r hr => by simp at hr

/-- The snapshot counts a run at most once. -/
theorem LifecycleMetricRecords.settled_once (records : LifecycleMetricRecords) (now : Time) :
    ((records.settled now).map (·.runId)).Nodup := by
  have hvalues : (records.byId.values.map (·.runId)).Nodup := by
    have hkeys := records.byId.nodup_keys records.byId_keyed
    exact hkeys
  exact hvalues.sublist (List.filter_sublist.map _)

/-! ### Which step settled a run -/

/-- The step settles the run with this event, at its own clock. -/
structure SettlesRun (w : World) (label : Step) (id : String) (e : RunEvent) : Prop where
  runs : ∃ q s, w.store.runs.get id = some q ∧ isLive q.state = true ∧
    (w.step label).store.runs.get id = some s ∧ isLive s.state = false ∧
    s.state = e.to_ ∧ s.events = q.events ++ [e]
  clock : label.clock = some e.at_

section Moves

variable {label : Step} {now : Time} {r r' : Run}

/-- A move that settles a live run records it at its own time. -/
theorem Move.settles (hmove : Move label now r r') (hlive : isLive r.state = true)
    (hterminal : isLive r'.state = false) :
    ∃ e, r'.events = r.events ++ [e] ∧ r'.state = e.to_ ∧ e.at_ = now ∧ r'.updatedAt = now := by
  cases hmove with
  | settle _ _ hs hc =>
    have hupdated : ∀ s, Cleaned label.cleanupId r s r' → r'.updatedAt = s.updatedAt := by
      intro s hc
      cases hc <;> rfl
    rw [hc.events, hc.state, hupdated _ hc]
    cases hs with
    | report => exact ⟨_, rfl, rfl, rfl, rfl⟩
    | cancel => exact ⟨_, rfl, rfl, rfl, rfl⟩
    | reroute => exact ⟨_, rfl, rfl, rfl, rfl⟩
    | lose => exact ⟨_, rfl, rfl, rfl, rfl⟩
  | complete => exact ⟨_, rfl, rfl, rfl, rfl⟩
  | confirm => cases hterminal
  | _ => exact absurd (hlive.symm.trans hterminal) (by decide)

/-- A settled run's log changes with an exit receipt only. -/
theorem Move.settled_events (hmove : Move label now r r') (hterminal : isLive r.state = false) :
    r'.events = r.events ∨ (exitObserved r = false ∧ r.credentialOperation.isSome = true ∧
      label.exitOf = some r.runId ∧ ∃ x, r'.events = r.events ++ [x] ∧ x.to_ = r.state ∧
        x.by_ = .executor ∧ x.note = some RECIPE_EXIT_PENDING_CREDENTIAL_CLEANUP) := by
  cases hmove with
  | receipt _ hop _ hnew _ hlabel => exact .inr ⟨hnew, hop, hlabel, _, rfl, rfl, rfl, rfl⟩
  | confirm hp => simp [hp, isLive] at hterminal
  | settle hlive => simp [hlive] at hterminal
  | complete _ _ _ _ hlive => simp [hlive] at hterminal
  | _ => exact .inl rfl

/-- Moves of a settled run stamp it with their own time, or do not. -/
theorem Move.settled_updatedAt (hmove : Move label now r r') (hterminal : isLive r.state = false) :
    r'.updatedAt = r.updatedAt ∨ r'.updatedAt = now := by
  cases hmove with
  | confirm hp => simp [hp, isLive] at hterminal
  | settle hlive => simp [hlive] at hterminal
  | complete _ _ _ _ hlive => simp [hlive] at hterminal
  | observe _ _ hlive => simp [hlive] at hterminal
  | claim _ hlive => simp [hlive] at hterminal
  | same | retire | receipt => exact .inl rfl
  | _ => exact .inr rfl

end Moves

/-- Since its settlement, a run's log holds at most one more event: a receipt of the worker's exit,
under the run's state. -/
structure SettledLog (r : Run) (e : RunEvent) (receipt : Option RunEvent) : Prop where
  events : ∃ log, r.events = log ++ e :: receipt.toList
  state : e.to_ = r.state
  receipt : ∀ x ∈ receipt, x.to_ = r.state ∧ x.by_ = .executor ∧
    x.note = some RECIPE_EXIT_PENDING_CREDENTIAL_CLEANUP

/-- No exit is reported of a settled run whose credential operation is pending, and no clock is
before the admission of a run or the last update of a settled one. -/
def World.inOrder (w : World) (label : Step) : Bool :=
  (label.exitOf.all fun id => (w.store.runs.get id).all fun run =>
    isLive run.state ∨ run.credentialOperation = none) ∧
  label.clock.all fun now => w.store.runs.values.all fun run =>
    run.createdAt ≤ now ∧ (isLive run.state ∨ run.updatedAt ≤ now)

theorem World.inOrder_run {w : World} {label : Step} (h : w.inOrder label = true) {id : String}
    {r : Run} (hw : w.Coherent) (hr : w.store.runs.get id = some r) :
    (label.exitOf = some r.runId → isLive r.state = false → r.credentialOperation = none) ∧
    ∀ now, label.clock = some now →
      r.createdAt ≤ now ∧ (isLive r.state = false → r.updatedAt ≤ now) := by
  unfold World.inOrder at h
  simp only [decide_eq_true_eq] at h
  obtain ⟨hexit, hclock⟩ := h
  refine ⟨fun hlabel hterminal => ?_, fun now hnow => ?_⟩
  · rw [hlabel, hw.store.runKeyed hr] at hexit
    simp [hr, hterminal] at hexit
    exact hexit
  · rw [hnow] at hclock
    have hmem : r ∈ w.store.runs.values := (OrderedMap.mem_values_iff _ _).2 ⟨id, hr⟩
    have hrun := of_decide_eq_true (List.all_eq_true.1 hclock r hmem)
    exact ⟨hrun.1, fun hterminal => hrun.2.resolve_left (by simp [hterminal])⟩

/-- Which step settled a stored run, and what its log holds since; in order, there is no receipt and
the settlement is between admission and last update. -/
theorem World.settlement_step (steps : List Step) {id : String} {r : Run}
    (hr : (World.init.run steps).store.runs.get id = some r) (hterminal : isLive r.state = false) :
    ∃ before label after e receipt, steps = before ++ label :: after ∧
      SettlesRun (World.init.run before) label id e ∧ SettledLog r e receipt ∧
      (Machine.Along World.step (fun w label => w.inOrder label = true) World.init steps →
        receipt = none ∧ r.createdAt ≤ e.at_ ∧ e.at_ ≤ r.updatedAt) := by
  induction steps using List.reverseRecOn generalizing r with
  | nil => cases hr
  | append_singleton steps label ih =>
    have hw := World.coherent_run steps
    rw [World.run_append] at hr
    change ((World.init.run steps).step label).store.runs.get id = some r at hr
    have horder : Machine.Along World.step (fun w label => w.inOrder label = true) World.init
        (steps ++ [label]) → (World.init.run steps).inOrder label = true :=
      fun h => (Machine.Along.append.1 h).2.1
    rcases (hw.change label).run_cases hw.store hr with ⟨-, q, hq, -⟩ | ⟨-, hfresh⟩
    · obtain ⟨now, x, hx, hmove, hclock⟩ := (hw.change label).run_moves_at hw.store hq
      obtain rfl : x = r := Option.some.inj (hx.symm.trans hr)
      have hcreated : x.createdAt = q.createdAt := congrArg Frozen.createdAt hmove.frozen
      cases hlive : isLive q.state with
      | true =>
        obtain ⟨e, hevents, hstate, hat, hupdated⟩ := hmove.settles hlive hterminal
        have hclock : label.clock = some e.at_ := by
          rcases hclock with rfl | hclock
          · rw [hlive] at hterminal
            cases hterminal
          · rw [hclock, hat]
        refine ⟨steps, label, [], e, none, rfl, ⟨⟨q, x, hq, hlive, hx, hterminal, hstate, hevents⟩,
          hclock⟩, ⟨⟨q.events, hevents⟩, hstate.symm, fun _ h => by cases h⟩, fun h => ⟨rfl, ?_, ?_⟩⟩
        · rw [hcreated]
          exact ((World.inOrder_run (horder h) hw hq).2 _ hclock).1
        · rw [hupdated, hat]
      | false =>
        obtain ⟨before, settling, after, e, receipt, rfl, hsettles, hlog, hkept⟩ := ih hq hlive
        have hstate := (hmove.terminal hlive).1
        obtain ⟨log, hevents⟩ := hlog.events
        have hupdated : Machine.Along World.step (fun w label => w.inOrder label = true) World.init
            (before ++ settling :: after ++ [label]) → e.at_ ≤ x.updatedAt := by
          intro h
          have hle := (hkept (Machine.Along.append.1 h).1).2.2
          rcases hclock with rfl | hclock
          · exact hle
          · rcases hmove.settled_updatedAt hlive with hsame | hnow
            · rw [hsame]
              exact hle
            · rw [hnow]
              exact Int.le_trans hle (((World.inOrder_run (horder h) hw hq).2 _ hclock).2 hlive)
        refine ⟨before, settling, after ++ [label], e, ?_⟩
        rcases hmove.settled_events hlive with hsame | ⟨hnew, hop, hexit, y, hy, hto, hby, hnote⟩
        · refine ⟨receipt, by simp, hsettles, ⟨⟨log, hsame.trans hevents⟩,
            hlog.state.trans hstate.symm, fun z hz => hstate ▸ hlog.receipt z hz⟩, fun h => ?_⟩
          obtain ⟨hnone, hadmitted, -⟩ := hkept (Machine.Along.append.1 h).1
          exact ⟨hnone, hcreated ▸ hadmitted, hupdated h⟩
        · cases receipt with
          | some z =>
            obtain ⟨-, hzby, hznote⟩ := hlog.receipt z rfl
            simp [exitObserved, hevents, hzby, hznote] at hnew
          | none =>
            refine ⟨some y, by simp, hsettles, ⟨⟨log, ?_⟩, hlog.state.trans hstate.symm, ?_⟩,
              fun h => ?_⟩
            · rw [hy, hevents]
              simp
            · rintro z ⟨rfl⟩
              exact ⟨hto.trans hstate.symm, hby, hnote⟩
            · rw [(World.inOrder_run (horder h) hw hq).1 hexit hlive] at hop
              cases hop
    · rw [hfresh.state] at hterminal
      cases hterminal

/-! ### What the metrics find -/

section Found

variable {r : Run} {e : RunEvent} {receipt : Option RunEvent}

/-- The search stops at the receipt if there is one. -/
theorem SettledLog.settlementEvent (h : SettledLog r e receipt) :
    settlementEvent r = some (receipt.getD e) := by
  obtain ⟨log, hevents⟩ := h.events
  unfold AgentLcars.settlementEvent
  rw [hevents]
  cases hreceipt : receipt with
  | none => simp [h.state]
  | some x => simp [(h.receipt x hreceipt).1]

theorem SettledLog.terminalAt (h : SettledLog r e receipt) :
    AgentLcars.terminalAt r = some e.at_ ↔ ∀ x ∈ receipt, x.at_ = e.at_ := by
  unfold AgentLcars.terminalAt
  rw [h.settlementEvent]
  cases receipt with
  | none => simp
  | some x => simp

/-- The metrics find a typed cancellation unless there is a receipt or a clock ran back. -/
theorem SettledLog.hasCancelIntervention (h : SettledLog r e receipt) {now : Time}
    (hnow : r.updatedAt ≤ now) :
    AgentLcars.hasCancelIntervention r now = true ↔ (e.to_ = .canceled ∧ e.workApiCancel = true) ∧
      receipt = none ∧ r.createdAt ≤ e.at_ ∧ e.at_ ≤ r.updatedAt := by
  unfold AgentLcars.hasCancelIntervention
  rw [h.settlementEvent, ← h.state]
  cases hreceipt : receipt with
  | none => simp [hnow, and_assoc]
  | some x => simp [RunEvent.workApiCancel, (h.receipt x hreceipt).2.1]

end Found

/-- The metrics find the settlement of a run, and its typed cancellation, exactly while the log holds
no later receipt of another instant and no clock ran back; in order, they always do. -/
theorem World.settlement_clock (steps : List Step) (id : String) (r : Run)
    (hr : (World.init.run steps).store.runs.get id = some r) (hterminal : isLive r.state = false) :
    ∃ before label after e receipt, steps = before ++ label :: after ∧
      SettlesRun (World.init.run before) label id e ∧ SettledLog r e receipt ∧
      (terminalAt r = some e.at_ ↔ ∀ x ∈ receipt, x.at_ = e.at_) ∧
      (∀ now, r.updatedAt ≤ now →
        ((hasCancelIntervention r now = true ↔ e.to_ = .canceled ∧ e.workApiCancel = true) ↔
          (e.to_ = .canceled ∧ e.workApiCancel = true →
            receipt = none ∧ r.createdAt ≤ e.at_ ∧ e.at_ ≤ r.updatedAt))) ∧
      (Machine.Along World.step (fun w label => w.inOrder label = true) World.init steps →
        terminalAt r = some e.at_ ∧
        (∀ now, r.updatedAt ≤ now →
          (hasCancelIntervention r now = true ↔ e.to_ = .canceled ∧ e.workApiCancel = true)) ∧
        ∀ (records : LifecycleMetricRecords) (now : Time), records.byId.get id = some r →
          (r ∈ records.settled now ↔ inWindow now (some e.at_) = true) ∧
          ((records.settled now).map (·.runId)).Nodup) := by
  obtain ⟨before, label, after, e, receipt, hsteps, hsettles, hlog, horder⟩ :=
    World.settlement_step steps hr hterminal
  refine ⟨before, label, after, e, receipt, hsteps, hsettles, hlog, hlog.terminalAt,
    fun now hnow => ?_, fun h => ?_⟩
  · rw [hlog.hasCancelIntervention hnow]
    constructor
    · exact fun h hcancel => (h.2 hcancel).2
    · exact fun h => ⟨fun hall => hall.1, fun hcancel => ⟨hcancel, h hcancel⟩⟩
  · obtain ⟨hnone, hadmitted, hupdated⟩ := horder h
    have hat : terminalAt r = some e.at_ :=
      hlog.terminalAt.2 fun x hx => by rw [hnone] at hx; cases hx
    refine ⟨hat, fun now hnow => ?_, fun records now hget => ⟨?_, records.settled_once now⟩⟩
    · rw [hlog.hasCancelIntervention hnow]
      exact ⟨fun hall => hall.1, fun hcancel => ⟨hcancel, hnone, hadmitted, hupdated⟩⟩
    · have hmem : r ∈ records.byId.values := (OrderedMap.mem_values_iff _ _).2 ⟨id, hget⟩
      unfold LifecycleMetricRecords.settled
      rw [List.mem_filter, hat]
      simp [hmem, hterminal]

/-- A recipe of the Codex lineage that is canceled through the API, and whose worker exits later. -/
def Sample.canceledRecipe : List Step :=
  [.request 0 { Sample.request "goose" with params := some [("providerAuth", "codex")] },
    .enqueueRun Sample.runId 1, .claimQueuedRun ["goose"] (Sample.claim 2),
    .onRun Sample.runId 3 "cleanup" (.cancel none none (some ⟨.workApiCancel, "user:a"⟩))]

theorem World.settlement_clock_canceled :
    ∃ r, (World.init.run Sample.canceledRecipe).store.runs.get Sample.runId = some r ∧
      terminalAt r = some 3 ∧ hasCancelIntervention r 3 = true ∧
      ∃ before label after e receipt, Sample.canceledRecipe = before ++ label :: after ∧
        SettlesRun (World.init.run before) label Sample.runId e ∧ SettledLog r e receipt ∧
        terminalAt r = some e.at_ ∧ (hasCancelIntervention r 3 = true ↔
          e.to_ = .canceled ∧ e.workApiCancel = true) := by
  have hstored : ((World.init.run Sample.canceledRecipe).store.runs.get Sample.runId).any
      (fun r => isLive r.state = false ∧ r.updatedAt = 3 ∧ terminalAt r = some 3 ∧
        hasCancelIntervention r 3 = true) = true := by decide +kernel
  have horder : Machine.Along World.step (fun w label => w.inOrder label = true) World.init
      Sample.canceledRecipe := by decide +kernel
  obtain ⟨r, hr, hfacts⟩ := (Option.any_eq_true _ _).1 hstored
  obtain ⟨hterminal, hupdated, hat, hcancel⟩ := of_decide_eq_true hfacts
  obtain ⟨before, label, after, e, receipt, hsteps, hsettles, hlog, -, -, hclean⟩ :=
    World.settlement_clock Sample.canceledRecipe Sample.runId r hr hterminal
  obtain ⟨hfound, hintervened, -⟩ := hclean horder
  exact ⟨r, hr, hat, hcancel, before, label, after, e, receipt, hsteps, hsettles, hlog, hfound,
    hintervened 3 hupdated.le⟩

/-- Two hours later the worker exits: the run moves into the window of its exit, and its cancellation
is hidden. -/
theorem World.settlement_clock_moved :
    ∃ r r', (World.init.run Sample.canceledRecipe).store.runs.get Sample.runId = some r ∧
      (World.init.run (Sample.canceledRecipe ++ [.onRun Sample.runId 7200000 "other"
        (.executorExited ⟨"subject", "runner", some "token"⟩)])).store.runs.get Sample.runId =
          some r' ∧
      terminalAt r = some 3 ∧ hasCancelIntervention r 7200000 = true ∧
      terminalAt r' = some 7200000 ∧ hasCancelIntervention r' 7200000 = false := by
  have hbefore : ((World.init.run Sample.canceledRecipe).store.runs.get Sample.runId).any
      (fun r => terminalAt r = some 3 ∧ hasCancelIntervention r 7200000 = true) = true := by
    decide +kernel
  have hafter : ((World.init.run (Sample.canceledRecipe ++ [.onRun Sample.runId 7200000 "other"
        (.executorExited ⟨"subject", "runner", some "token"⟩)])).store.runs.get Sample.runId).any
      (fun r => terminalAt r = some 7200000 ∧ hasCancelIntervention r 7200000 = false) = true := by
    decide +kernel
  obtain ⟨r, hr, hfound⟩ := (Option.any_eq_true _ _).1 hbefore
  obtain ⟨r', hr', hmoved⟩ := (Option.any_eq_true _ _).1 hafter
  obtain ⟨hat, hcancel⟩ := of_decide_eq_true hfound
  obtain ⟨hat', hcancel'⟩ := of_decide_eq_true hmoved
  exact ⟨r, r', hr, hr', hat, hcancel, hat', hcancel'⟩

end AgentLcars
