import AgentLcars.OperationEffect

/-!
# Effects of requests and of task calls

Every accepted request, in each of its forms, is an `Effect` of its label, and so is every accepted
`close`, `updateWork` and `refreshIssue`.
-/

namespace AgentLcars

section Requests

variable {label : Step} {now : Time} {admitted : Option (RequestSource × String)}
  {overrun : Prop} {d : Decision}

/-- What a request transaction knows about the lock. -/
structure LockRead (label : Step) (input : RequestRunInput) : Prop where
  asked : label.requestedKey = some (taskKey input.taskId)
  key : ∀ t ∈ input.task, taskKey t.task = taskKey input.taskId
  holder : ∀ t ∈ input.task, ∀ a ∈ input.activeRun,
    t.activeRunId = some a.runId ∧ taskKey a.task = taskKey input.taskId
  idle : (input.activeRun.filter fun run => isLive run.state) = none →
    ∀ t ∈ input.task, t.activeRunId = none
  policy : ∃ policy : Option ProviderFallbackRequest, input.providerFallback = policy.map .request
  attempt : input.revisionAttempt = none
  work : label.work = input.work

/-- The identity a request asks for. -/
def RequestRunInput.identity (input : RequestRunInput) : RequestSource × String :=
  (input.requestSource.getD .caller, input.requestId)

theorem requestRun_effect {input : RequestRunInput} (hlock : LockRead label input)
    (hnow : input.now = now) (hadmitted : admitted = some input.identity)
    (hfresher : ∀ t ∈ input.task, ∀ observed ∈ input.sourceRevision.bind (·.observedAt),
      observesOlder t.sourceObservedAt (some observed) = false)
    (h : requestRun input = .ok d) (subject : Option Run) :
    Effect label now admitted overrun subject input.task d := by
  obtain ⟨m, hm⟩ := requested_of_ok h
  obtain ⟨policy, hpolicy⟩ := hlock.policy
  have hrun : d.run = some m := by rw [hm.form]
  have halone : d.additionalRuns = [] := by rw [hm.form]
  have hout : d.outbox = [freshEntry ("dispatch/" ++ m.runId) .dispatchRun m now] := by
    rw [hm.form, ← hnow]
  refine .mint none none m ?_ (by simp) ?_ ?_ ?_ hm.minted (by simp) ?_ ?_ ?_
    ⟨_, ?_, about_dispatch m now⟩ ⟨.inr hm.routing, .inr (hlock.work ▸ hm.work)⟩ (hm.created.trans hnow)
  · intro x
    simp [Decision.writes, hrun, halone, eq_comm]
  · intro t ht
    rw [hm.task]
    exact hlock.key t ht
  · intro _
    rw [hm.task]
    exact hlock.asked
  · intro t ht id hid
    rw [hlock.idle hm.idle t ht] at hid
    cases hid
  · refine .request ?_ (hm.desired.trans hm.revision.symm) hm.closed hm.wasOpen hm.delivery
      (hm.asked policy hpolicy hlock.attempt hfresher) (fun _ _ hnone => by cases hnone)
    rw [hadmitted, RequestRunInput.identity, hm.source, hm.requestId]
  · intro e he
    rw [hout, List.mem_singleton] at he
    exact .dispatch m (by simp) (he ▸ about_dispatch _ now)
  · rw [hout]
    exact List.nodup_singleton _
  · rw [hout]
    exact List.mem_singleton_self _

/-! ### Source revisions -/

/-- A request that leaves the task, or moves only its source clocks. -/
theorem touch_observed {subject : Option Run} {t : Task}
    {observed : Option (List (String × String))} (h : ObservedOn t.sourceObservedAt observed) :
    Effect label now admitted overrun subject (some t) { task := { t with sourceObservedAt := observed } } :=
  .touch ⟨rfl, rfl, rfl, rfl, .inl rfl, .inl rfl, .inl rfl, rfl, h⟩ ⟨.inr rfl, .inr rfl⟩

theorem superviseRevision_effect {input : RequestRunInput} {revision : WorkRevision}
    (hlabel : label.revision = some revision) (hcancels : label.cancels = true)
    (hlock : LockRead label input) (hnow : input.now = now) (hadmitted : admitted = some input.identity)
    (hfresher : ∀ t ∈ input.task, ∀ observed ∈ revision.observedAt,
      observesOlder t.sourceObservedAt (some observed) = false)
    (h : superviseRevision input revision = .ok d) :
    Effect label now admitted overrun input.activeRun input.task d := by
  unfold superviseRevision at h
  split at h
  · rename_i task active htask hactive
    obtain ⟨hactive, -⟩ := Option.filter_eq_some_iff.1 hactive
    obtain ⟨hholder, hkey⟩ := hlock.holder task htask active hactive
    rw [htask, hactive]
    split_ifs at h with hclaimed
    · obtain rfl := Except.ok.inj h
      refine .touch ⟨rfl, rfl, rfl, rfl, .inr (.inr ⟨revision, rfl, hlabel, ?_⟩), .inl rfl, .inl rfl,
        rfl, ?_⟩ ⟨.inr rfl, .inr rfl⟩
      · rw [hholder]
        rfl
      · cases hobserved : revision.observedAt with
        | none => exact .inl rfl
        | some observed => exact .inr ⟨observed, rfl, hfresher task htask observed hobserved⟩
    · obtain ⟨canceled, hcanceled, h⟩ := bind_eq_ok.1 h
      obtain ⟨next, hnext, h⟩ := bind_eq_ok.1 h
      obtain ⟨run, hrun, h⟩ := bind_eq_ok.1 h
      rw [hnow] at hcanceled
      obtain rfl := Option.some.inj ((cancelRun_run hcanceled).symm.trans (decidedRun_eq_ok.1 hrun))
      obtain rfl := Except.ok.inj h
      obtain ⟨policy, hpolicy⟩ := hlock.policy
      exact effect_replace { input with sourceRevision := some revision } hcancels hnow
        ⟨_, _, _, rfl⟩ hholder hkey (hlock.key task htask) hclaimed hcanceled hnext hadmitted policy
        hpolicy hlock.attempt (hfresher task htask) (.inr rfl)
  · have hlock' : LockRead label { input with sourceRevision := some revision } :=
      ⟨hlock.asked, hlock.key, hlock.holder, hlock.idle, hlock.policy, hlock.attempt,
      hlock.work⟩
    exact requestRun_effect hlock' hnow hadmitted hfresher h _

theorem requestRevisionRun_effect {input : RequestRunInput} {revision : WorkRevision}
    (hlabel : label.revision = some revision) (hcancels : label.cancels = true)
    (hlock : LockRead label input) (hnow : input.now = now) (hadmitted : admitted = some input.identity)
    (h : requestRevisionRun input revision = .ok d) :
    Effect label now admitted overrun input.activeRun input.task d := by
  have hsupervise : (∀ t ∈ input.task, ∀ observed ∈ revision.observedAt,
      observesOlder t.sourceObservedAt (some observed) = false) →
      superviseRevision input revision = .ok d →
      Effect label now admitted overrun input.activeRun input.task d :=
    superviseRevision_effect hlabel hcancels hlock hnow hadmitted
  unfold requestRevisionRun at h
  split at h
  · rename_i task observedAt htask hobserved
    simp only [ite_refused_eq_ok] at h
    obtain ⟨-, h⟩ := h
    have htouch : ∀ observed, ObservedOn task.sourceObservedAt observed →
        Effect label now admitted overrun input.activeRun input.task
          { task := { task with sourceObservedAt := observed } } := by
      intro observed hobserved
      rw [htask]
      exact touch_observed hobserved
    split_ifs at h with holder
    · exact Except.ok.inj h ▸ htouch task.sourceObservedAt (.inl rfl)
    · exact absurd h refused_ne_ok
    · exact Except.ok.inj h ▸ htouch (some observedAt)
        (.inr ⟨observedAt, rfl, Bool.not_eq_true _ ▸ holder⟩)
    · exact Except.ok.inj h ▸ htouch task.sourceObservedAt (.inl rfl)
    · refine hsupervise (fun t ht observed hobs => ?_) h
      obtain rfl : task = t := Option.some.inj (htask.symm.trans ht)
      obtain rfl : observedAt = observed := Option.some.inj (hobserved.symm.trans hobs)
      exact Bool.not_eq_true _ ▸ holder
  · rename_i hobserved
    simp only [ite_refused_eq_ok] at h
    exact hsupervise (by simp [hobserved]) h.2
  · rename_i htask
    exact hsupervise (by simp [htask]) h

/-! ### Queued replacement -/

theorem replaceQueuedRun_effect {args : RequestRunInput} {pipeline replaced : String}
    (hcancels : label.cancels = true) (hlock : LockRead label args) (hnow : args.now = now)
    (hadmitted : admitted = some args.identity) (hplain : args.sourceRevision = none)
    (h : replaceQueuedRun args pipeline replaced = .ok d) :
    Effect label now admitted overrun args.activeRun args.task d := by
  unfold replaceQueuedRun at h
  split at h
  · rename_i task active htask hactive
    obtain ⟨hholder, hkey⟩ := hlock.holder task htask active hactive
    simp only [ite_refused_eq_ok, not_not] at h
    obtain ⟨-, hclaimed, -, h⟩ := h
    obtain ⟨canceled, hcanceled, h⟩ := bind_eq_ok.1 h
    obtain ⟨next, hnext, h⟩ := bind_eq_ok.1 h
    obtain ⟨run, hrun, h⟩ := bind_eq_ok.1 h
    rw [hnow] at hcanceled
    obtain rfl := Option.some.inj ((cancelRun_run hcanceled).symm.trans (decidedRun_eq_ok.1 hrun))
    obtain rfl := Except.ok.inj h
    rw [htask, hactive]
    obtain ⟨policy, hpolicy⟩ := hlock.policy
    exact effect_replace args hcancels hnow ⟨_, _, _, rfl⟩ hholder hkey (hlock.key task htask)
      hclaimed hcanceled hnext hadmitted policy hpolicy hlock.attempt (by simp [hplain]) (.inr rfl)
  · exact absurd h refused_ne_ok

/-! ### Label handoff -/

theorem Emission.of_after {before : Option Task} {after after' : Task} {old : Option (Run × Run)}
    {dispatched : List Run} {e : OutboxEntry} (h : Emission before after old dispatched e)
    (hafter : after'.delivery = after.delivery) : Emission before after' old dispatched e := by
  have hw : deliveryWaiting after' = deliveryWaiting after := by
    simp only [deliveryWaiting, hafter]
  cases h with
  | dispatch m hm h => exact .dispatch m hm h
  | settled tag r r' hold hr hr' htag h => exact .settled tag r r' hold hr hr' htag h
  | delivered r r' hold hr hr' hd h => exact .delivered r r' hold hr hr' (hw.trans hd) h
  | merged r r' t b hold ht hr hb hrun hwaiting hd h =>
    exact .merged r r' t b hold ht hr hb hrun hwaiting (hw.trans hd) h
  | started r r' q q' hold hr hq hclaimed hnew hq' hkept hstart hlinear hplain h =>
    exact .started r r' q q' hold hr hq hclaimed hnew hq' hkept hstart hlinear hplain h

/-- For a label, which one was accepted last is no part of an effect. -/
theorem Effect.route {subject : Option Run} {before : Option Task} (hlabels : label.labels = true)
    (h : Effect label now admitted overrun subject before d)
    (providerRouting : Option ProviderRouting) :
    Effect label now admitted overrun subject before
      { d with task := { d.task with providerRouting } } := by
  cases h with
  | touch h hkept =>
    exact .touch ⟨h.task, h.lock, h.count, h.delivery, h.desired, h.closed, h.issue, h.lost,
      h.observed⟩ ⟨.inl hlabels, hkept.work⟩
  | rewrite hmove hlive h hout hnodup hkept =>
    exact .rewrite hmove hlive ⟨h.task, h.lock, h.count, h.desired, h.closed, h.issue, h.delivery,
      h.lost, h.observed⟩ (fun e he => (hout e he).of_after rfl) hnodup ⟨.inl hlabels, hkept.work⟩
  | settle hmove hr hr' h hout hnodup hinternal hkept =>
    exact .settle hmove hr hr' ⟨h.task, h.lock, h.count, h.desired, h.closed, h.issue, h.delivery,
      h.successor, h.observed, h.gaveUp⟩ (fun e he => (hout e he).of_after rfl) hnodup hinternal
      ⟨.inl hlabels, hkept.work⟩
  | mint old dropped m hwrites hmove hkey hfirst hfree h hdropped horigin hout hnodup hdispatch
      hkept hcreated =>
    refine .mint old dropped m hwrites hmove hkey hfirst hfree
      ⟨h.fresh, h.key, h.runId, h.lock, h.count, h.issue, h.issueKept⟩ hdropped ?_
      (fun e he => (hout e he).of_after rfl) hnodup hdispatch
      ⟨.inl hlabels, hkept.work⟩ hcreated
    cases horigin with
    | request h1 h2 h3 h4 h5 h6 h7 =>
      exact .request h1 h2 h3 h4 h5 ⟨h6.carries, h6.policy, h6.attempt, h6.observed, h6.fresher⟩ h7
    | fallback r r' h1 h2 h3 h4 h5 h6 h7 h8 h9 h10 =>
      exact .fallback r r' h1 h2 h3 h4 h5 h6 h7 h8 h9
        ⟨h10.params, h10.policy, h10.plain, h10.lost, h10.observed⟩
    | correction r t b h1 h2 h3 h4 h5 h6 h7 h8 h9 h10 h11 h12 h13 h14 =>
      exact .correction r t b h1 h2 h3 h4 h5 h6 h7 h8 h9 h10 h11 h12 h13
        ⟨h14.predecessor, h14.pipeline, h14.policy, h14.plain, h14.observed⟩
    | retry r r' t h1 h2 h3 h4 h5 h6 h7 h8 h9 h10 h11 h12 =>
      exact .retry r r' t h1 h2 h3 h4 h5 h6 h7 h8 h9 h10 h11
        ⟨h12.params, h12.pipeline, h12.failed, h12.policy, h12.budget, h12.attempt, h12.bounded,
          h12.observed, h12.recipe⟩
    | supersede r r' t D h1 h2 h3 h4 h5 h6 h7 h8 h9 h10 h11 h12 h13 h14 h15 =>
      exact .supersede r r' t D h1 h2 h3 h4 h5 h6 h7 h8 h9 h10 h11 h12 h13 h14
        ⟨h15.params, h15.policy, h15.attempt, h15.observed⟩

theorem rejectLabel_effect {input : LabelInput} {reason : String} (hlabels : label.labels = true)
    (h : rejectLabel input reason = .ok d) :
    Effect label now admitted overrun input.request.activeRun input.request.task d := by
  unfold rejectLabel at h
  split at h
  · exact absurd h refused_ne_ok
  · rename_i task htask
    obtain rfl := Except.ok.inj h
    rw [htask]
    exact .touch ⟨rfl, rfl, rfl, rfl, .inl rfl, .inl rfl, .inl rfl, rfl, .inl rfl⟩
      ⟨.inl hlabels, .inr rfl⟩

theorem finishLabel_effect {input : LabelInput} {outcome : Outcome} (hlabels : label.labels = true)
    (houtcome : ∀ d', outcome = .ok d' →
      Effect label now admitted overrun input.request.activeRun input.request.task d')
    (h : finishLabel input outcome = .ok d) :
    Effect label now admitted overrun input.request.activeRun input.request.task d := by
  unfold finishLabel at h
  split at h
  · exact rejectLabel_effect hlabels h
  · cases h
  · rename_i decision
    obtain ⟨fresh, -, h⟩ := bind_eq_ok.1 h
    obtain rfl := Except.ok.inj h
    exact (houtcome decision rfl).route hlabels _

theorem takeLabel_effect {input : LabelInput} (hlabels : label.labels = true)
    (hcancels : label.cancels = true) (hlock : LockRead label input.request) (hnow : input.request.now = now)
    (hadmitted : admitted = some input.request.identity)
    (hrevision : input.request.sourceRevision = none) (h : takeLabel input = .ok d) :
    Effect label now admitted overrun input.request.activeRun input.request.task d := by
  have hlock' : LockRead label (labelledRequest input) :=
    ⟨hlock.asked, hlock.key, hlock.holder, hlock.idle, hlock.policy, hlock.attempt,
      hlock.work⟩
  have hrevision' : (labelledRequest input).sourceRevision = none := hrevision
  have hplain : ∀ d', requestRun (labelledRequest input) = .ok d' →
      Effect label now admitted overrun input.request.activeRun input.request.task d' :=
    fun d' hd' => requestRun_effect hlock' hnow hadmitted (by simp [hrevision']) hd' _
  unfold takeLabel at h
  split at h
  · rename_i task active htask hactive
    obtain ⟨hactive, -⟩ := Option.filter_eq_some_iff.1 hactive
    obtain ⟨hholder, hkey⟩ := hlock.holder task htask active hactive
    split_ifs at h with hprovider hqueued
    · exact rejectLabel_effect hlabels h
    · refine finishLabel_effect hlabels (fun d' hd' => ?_) h
      obtain ⟨canceled, hcanceled, hd'⟩ := bind_eq_ok.1 hd'
      obtain ⟨next, hnext, hd'⟩ := bind_eq_ok.1 hd'
      obtain ⟨run, hrun, hd'⟩ := bind_eq_ok.1 hd'
      rw [hnow] at hcanceled
      obtain rfl := Option.some.inj ((cancelRun_run hcanceled).symm.trans (decidedRun_eq_ok.1 hrun))
      obtain rfl := Except.ok.inj hd'
      rw [htask, hactive]
      have hunclaimed : active.queueState ≠ some .claimed := by
        rw [not_not.1 hqueued]
        decide
      obtain ⟨policy, hpolicy⟩ := hlock'.policy
      exact effect_replace (labelledRequest input) hcancels hnow ⟨_, _, _, rfl⟩ hholder hkey
        (hlock.key task htask) hunclaimed hcanceled hnext hadmitted policy hpolicy hlock'.attempt
        (by simp [hrevision']) (.inl rfl)
    · exact finishLabel_effect hlabels hplain h
  · exact finishLabel_effect hlabels hplain h

theorem decideLabelProviderRequest_effect {input : LabelInput} (hlabels : label.labels = true)
    (hcancels : label.cancels = true) (hlock : LockRead label input.request) (hnow : input.request.now = now)
    (hadmitted : admitted = some input.request.identity)
    (hrevision : input.request.sourceRevision = none)
    (h : decideLabelProviderRequest input = .ok d) :
    Effect label now admitted overrun input.request.activeRun input.request.task d := by
  unfold decideLabelProviderRequest at h
  simp only [ite_refused_eq_ok] at h
  obtain ⟨-, h⟩ := h
  split at h
  · cases h
  have hreject : ∀ reason, rejectLabel input reason = .ok d →
      Effect label now admitted overrun input.request.activeRun input.request.task d :=
    fun _ => rejectLabel_effect hlabels
  have htake : takeLabel input = .ok d →
      Effect label now admitted overrun input.request.activeRun input.request.task d :=
    takeLabel_effect hlabels hcancels hlock hnow hadmitted hrevision
  split at h
  · rename_i task htask
    split at h
    · obtain rfl := Except.ok.inj h
      rw [htask]
      exact .touch ⟨rfl, rfl, rfl, rfl, .inl rfl, .inl rfl, .inl rfl, rfl, .inl rfl⟩
        ⟨.inl hlabels, .inr rfl⟩
    · obtain ⟨-, h⟩ := ite_refused_eq_ok.1 h
      split at h
      · exact hreject _ h
      · exact htake h
  · split at h
    · exact hreject _ h
    · exact htake h

end Requests

/-! ### Every request -/

/-- An accepted request passed the history checks. -/
theorem decideRequest_ok {now : Time} {input : RequestInput}
    {state : Store.RequestTransactionState} {d : Decision}
    (h : decideRequest input now state = .ok d) :
    state.previousSourceRevision = none ∧ state.previousRun = none ∧
      admitRequest input now state = .ok d := by
  unfold decideRequest at h
  simp only [ite_refused_eq_ok] at h
  obtain ⟨-, h⟩ := h
  split at h
  · split_ifs at h <;> exact absurd h refused_ne_ok
  rename_i hrevision
  simp only [ite_refused_eq_ok] at h
  obtain ⟨-, -, h⟩ := h
  split at h
  · exact absurd h refused_ne_ok
  · rename_i hprevious
    exact ⟨hrevision, hprevious, h⟩

theorem decideRequest_effect {now : Time} {overrun : Prop} {input : RequestInput}
    {state : Store.RequestTransactionState} {d : Decision}
    (hlock : LockRead (.request now input) (input.args now state))
    (h : decideRequest input now state = .ok d) :
    state.previousRun = none ∧
      Effect (.request now input) now
        (some (input.requestSource.getD .caller, state.requestId)) overrun state.activeRun
        (state.task.map (·.task)) d := by
  obtain ⟨-, hprevious, h⟩ := decideRequest_ok h
  refine ⟨hprevious, ?_⟩
  unfold admitRequest at h
  dsimp only at h
  split at h
  · rename_i intent hintent
    have hlabels : (Step.request now input).labels = true := by
      rw [Step.labels, hintent]
      rfl
    exact decideLabelProviderRequest_effect hlabels rfl hlock rfl rfl rfl h
  split at h
  · exact replaceQueuedRun_effect rfl hlock rfl rfl rfl h
  split at h
  · exact requestRun_effect hlock rfl rfl (by simp [RequestInput.args]) h _
  · rename_i revision hrevision
    have hlabel : (Step.request now input).revision = some revision := hrevision
    exact requestRevisionRun_effect hlabel rfl hlock rfl rfl h

/-! ### What a request leaves of its revision -/

/-- The revision a request is judged by; a label and a replacement never read it. -/
def RequestInput.askedRevision (input : RequestInput) : Option WorkRevision :=
  if input.labelProviderRequest.isSome ∨ input.replaceQueuedRunId.isSome then none
  else input.sourceRevision

/-- The task document is of a revision, or of none. -/
structure OfRevision (task : Task) (revision : Option WorkRevision) : Prop where
  desired : task.desiredRevision = revision
  observed : task.sourceObservedAt = revision.bind (·.observedAt)

section Asked

variable {d : Decision}

theorem requestRun_revision {input : RequestRunInput} (h : requestRun input = .ok d) :
    OfRevision d.task input.sourceRevision := by
  obtain ⟨m, hm⟩ := requested_of_ok h
  exact ⟨hm.desired, hm.observed⟩

theorem rejectLabel_writes {input : LabelInput} {reason : String}
    (h : rejectLabel input reason = .ok d) : d.writes = [] := by
  unfold rejectLabel at h
  split at h
  · exact absurd h refused_ne_ok
  · rw [← Except.ok.inj h]
    rfl

/-- A label that is taken leaves what its request leaves. -/
theorem finishLabel_revision {input : LabelInput} {outcome : Outcome}
    (houtcome : ∀ d, outcome = .ok d → OfRevision d.task none)
    (h : finishLabel input outcome = .ok d) : d.writes = [] ∨ OfRevision d.task none := by
  unfold finishLabel at h
  split at h
  · exact .inl (rejectLabel_writes h)
  · cases h
  · rename_i decision
    obtain ⟨fresh, -, h⟩ := bind_eq_ok.1 h
    rw [← Except.ok.inj h]
    obtain ⟨hdesired, hobserved⟩ := houtcome decision rfl
    exact .inr ⟨hdesired, hobserved⟩

theorem labelHandoff_revision {input : LabelInput} {t : Task} {r : Run}
    (hplain : input.request.sourceRevision = none) (h : labelHandoff input t r = .ok d) :
    OfRevision d.task none := by
  obtain ⟨canceled, -, h⟩ := bind_eq_ok.1 h
  obtain ⟨fresh, hfresh, h⟩ := bind_eq_ok.1 h
  obtain ⟨canceledRun, -, h⟩ := bind_eq_ok.1 h
  rw [← Except.ok.inj h]
  have hof := requestRun_revision hfresh
  exact (show (labelledRequest input).sourceRevision = none from hplain) ▸ hof

theorem decideLabelProviderRequest_revision {input : LabelInput}
    (hplain : input.request.sourceRevision = none) (h : decideLabelProviderRequest input = .ok d) :
    d.writes = [] ∨ OfRevision d.task none := by
  have hrequest : ∀ d, requestRun (labelledRequest input) = .ok d → OfRevision d.task none := by
    intro d hd
    have hof := requestRun_revision hd
    exact (show (labelledRequest input).sourceRevision = none from hplain) ▸ hof
  have htake : takeLabel input = .ok d → d.writes = [] ∨ OfRevision d.task none := by
    intro h
    unfold takeLabel at h
    split at h
    · split_ifs at h
      · exact .inl (rejectLabel_writes h)
      · exact finishLabel_revision (fun _ hd => labelHandoff_revision hplain hd) h
      · exact finishLabel_revision hrequest h
    · exact finishLabel_revision hrequest h
  simp only [decideLabelProviderRequest, ite_refused_eq_ok] at h
  obtain ⟨-, h⟩ := h
  split at h
  · cases h
  split at h
  · split at h
    · rw [← Except.ok.inj h]
      exact .inl rfl
    split at h
    · exact absurd h refused_ne_ok
    split at h
    · exact .inl (rejectLabel_writes h)
    · exact htake h
  · split at h
    · exact .inl (rejectLabel_writes h)
    · exact htake h

theorem replaceQueuedRun_revision {args : RequestRunInput} {pipeline replaced : String}
    (hplain : args.sourceRevision = none) (h : replaceQueuedRun args pipeline replaced = .ok d) :
    OfRevision d.task none := by
  unfold replaceQueuedRun at h
  split at h
  · simp only [ite_refused_eq_ok] at h
    obtain ⟨-, -, -, h⟩ := h
    obtain ⟨canceled, -, h⟩ := bind_eq_ok.1 h
    obtain ⟨replacement, hreplacement, h⟩ := bind_eq_ok.1 h
    obtain ⟨canceledRun, -, h⟩ := bind_eq_ok.1 h
    rw [← Except.ok.inj h]
    have hof := requestRun_revision hreplacement
    exact hplain ▸ hof
  · exact absurd h refused_ne_ok

theorem superviseRevision_revision {input : RequestRunInput} {revision : WorkRevision}
    (h : superviseRevision input revision = .ok d) :
    d.writes = [] ∨ OfRevision d.task (some revision) := by
  unfold superviseRevision at h
  split at h
  · split_ifs at h
    · rw [← Except.ok.inj h]
      exact .inl rfl
    · obtain ⟨canceled, -, h⟩ := bind_eq_ok.1 h
      obtain ⟨next, hnext, h⟩ := bind_eq_ok.1 h
      obtain ⟨canceledRun, -, h⟩ := bind_eq_ok.1 h
      rw [← Except.ok.inj h]
      exact .inr (requestRun_revision hnext)
  · exact .inr (requestRun_revision h)

theorem requestRevisionRun_revision {input : RequestRunInput} {revision : WorkRevision}
    (h : requestRevisionRun input revision = .ok d) :
    d.writes = [] ∨ OfRevision d.task (some revision) := by
  unfold requestRevisionRun at h
  split at h
  · simp only [ite_refused_eq_ok] at h
    obtain ⟨-, h⟩ := h
    split_ifs at h
    all_goals first
      | exact absurd h refused_ne_ok
      | exact superviseRevision_revision h
      | (rw [← Except.ok.inj h]; exact .inl rfl)
  · simp only [ite_refused_eq_ok] at h
    exact superviseRevision_revision h.2
  · exact superviseRevision_revision h

/-- A request that writes a run leaves a task document of its own revision. -/
theorem decideRequest_revision {input : RequestInput} {now : Time}
    {state : Store.RequestTransactionState} (h : decideRequest input now state = .ok d) :
    d.writes = [] ∨ OfRevision d.task input.askedRevision := by
  obtain ⟨-, -, hadmit⟩ := decideRequest_ok h
  unfold admitRequest at hadmit
  unfold RequestInput.askedRevision
  split at hadmit
  · rename_i label hlabel
    rw [if_pos (by simp [hlabel])]
    exact decideLabelProviderRequest_revision rfl hadmit
  rename_i hlabel
  split at hadmit
  · rename_i replaced hreplaced
    rw [if_pos (by simp [hreplaced])]
    exact .inr (replaceQueuedRun_revision rfl hadmit)
  rename_i hreplaced
  rw [if_neg (by simp [hlabel, hreplaced])]
  split at hadmit
  · rename_i hrevision
    rw [hrevision]
    exact .inr (requestRun_revision hadmit)
  · rename_i revision hrevision
    rw [hrevision]
    exact requestRevisionRun_revision hadmit

end Asked

/-! ### Calls that read, read, and compare and set -/

theorem TaskOp.effect {label : Step} {now now' : Time} {admitted : Option (RequestSource × String)}
    {overrun : Prop} {op : TaskOp} {task : Option Task} {activeRun : Option Run} {d : Decision}
    (hidle : (activeRun.filter fun run => isLive run.state) = none →
      ∀ t ∈ task, t.activeRunId = none)
    (hedits : label.edits = true) (h : op.decide now' task activeRun = .ok d)
    (subject : Option Run) :
    Effect label now admitted overrun subject task d := by
  cases op with
  | close =>
    simp only [TaskOp.decide, closeTask] at h
    split at h
    · exact absurd h refused_ne_ok
    rename_i t
    simp only [ite_refused_eq_ok] at h
    obtain ⟨-, hopen, h⟩ := h
    split at h
    · exact absurd h refused_ne_ok
    · rename_i hnone
      obtain rfl := Except.ok.inj h
      exact .touch ⟨rfl, rfl, rfl, rfl, .inl rfl,
        .inr ⟨hidle hnone t rfl, by simpa using hopen, rfl⟩, .inl rfl, rfl, .inl rfl⟩
        ⟨.inr rfl, .inr rfl⟩
  | updateWork work =>
    simp only [TaskOp.decide, updateTaskWork] at h
    split at h
    · exact absurd h refused_ne_ok
    simp only [ite_refused_eq_ok] at h
    obtain ⟨-, h⟩ := h
    split at h
    · exact absurd h refused_ne_ok
    · obtain rfl := Except.ok.inj h
      exact .touch ⟨rfl, rfl, rfl, rfl, .inl rfl, .inl rfl, .inl rfl, rfl, .inl rfl⟩
        ⟨.inr rfl, .inl hedits⟩
  | refreshIssue issue =>
    simp only [TaskOp.decide, refreshTaskIssue] at h
    split at h
    · exact absurd h refused_ne_ok
    · split_ifs at h with hidentity hold
      · obtain rfl := Except.ok.inj h
        exact .touch ⟨rfl, rfl, rfl, rfl, .inl rfl, .inl rfl, .inl rfl, rfl, .inl rfl⟩
          ⟨.inr rfl, .inr rfl⟩
      · obtain rfl := Except.ok.inj h
        exact .touch ⟨rfl, rfl, rfl, rfl, .inl rfl, .inl rfl,
          .inr ⟨issue, rfl, by simpa using hidentity⟩, rfl, .inl rfl⟩ ⟨.inr rfl, .inr rfl⟩

end AgentLcars
