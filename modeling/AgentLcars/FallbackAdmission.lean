import AgentLcars.Coherence

/-!
# Fallback never costs a report

The successor of a settled run is minted by `requestRun`, which has refusals of its own.  None of
them is reachable: a live run's task is open, its issue is the task's, and while a delivery waits
the run carries the parameters it was let past the delivery with (`DeliveriesCarried`), which its
successor inherits.
-/

namespace AgentLcars

/-! ### Runs beside a waiting delivery -/

/-- The live run of a task with a waiting delivery was let past it. -/
def DeliveriesCarried (s : Store) : Prop :=
  ∀ {k vt id r}, s.tasks.get k = some vt → vt.task.activeRunId = some id →
    s.runs.get id = some r → deliveryWaiting vt.task = true → carriesDelivery r.params vt.task = true

/-- Only resume artifacts are dropped. -/
theorem lookup_freshParams (params : Option Params) {key : String} (hsession : key ≠ "resumeSessionId")
    (htranscript : key ≠ "resumeTranscriptGcsUri") :
    (freshParams params).bind (·.lookup key) = params.bind (·.lookup key) := by
  cases params with
  | none => rfl
  | some params =>
    show List.lookup key (params.filter _) = List.lookup key params
    induction params with
    | nil => rfl
    | cons entry rest ih =>
      obtain ⟨name, value⟩ := entry
      by_cases hname : key = name
      · subst hname
        rw [List.filter_cons_of_pos (by simp [hsession, htranscript])]
        simp
      · have hne : (key == name) = false := by simpa using hname
        rw [List.lookup_cons, hne, ← ih]
        by_cases hkept : name ≠ "resumeSessionId" ∧ name ≠ "resumeTranscriptGcsUri"
        · rw [List.filter_cons_of_pos (by simpa using hkept), List.lookup_cons, hne]
        · rw [List.filter_cons_of_neg (by simpa using hkept)]

theorem carriesDelivery_freshParams (params : Option Params) (t : Task) :
    carriesDelivery (freshParams params) t = carriesDelivery params t := by
  unfold carriesDelivery
  rw [lookup_freshParams _ (by decide) (by decide), lookup_freshParams _ (by decide) (by decide),
    lookup_freshParams _ (by decide) (by decide)]

/-- What a run carries depends on the binding of the task alone. -/
theorem carriesDelivery_of_asked {m : Run} {t : Task}
    (h : isReply m.params = true ∨ (m.requestSource ≠ .caller ∧ succeedsDelivery m.params t = true)) :
    carriesDelivery m.params t = true := by
  simp only [isReply, succeedsDelivery, decide_eq_true_eq] at h
  unfold carriesDelivery
  rw [decide_eq_true_eq]
  exact h.imp_right And.right

theorem carriesDelivery_congr {params : Option Params} {t t' : Task}
    (h : t'.delivery = t.delivery) : carriesDelivery params t' = carriesDelivery params t := by
  unfold carriesDelivery
  rw [h]

theorem deliveryWaiting_congr {t t' : Task} (h : t'.delivery = t.delivery) :
    deliveryWaiting t' = deliveryWaiting t := by
  unfold deliveryWaiting
  rw [h]

section Carried

variable {label : Step} {now : Time} {admitted : Option (RequestSource × String)} {overrun : Prop}
  {subject : Option Run} {before : Option Task} {d : Decision} {s s' : Store}

/-- A successor takes over what its predecessor was let past the delivery with. -/
theorem Origin.carries {old : Option (Run × Run)} {m : Run}
    (h : Origin admitted before old d.task m)
    (hheld : ∀ r r', old = some (r, r') → isLive r.state = true → ∀ t ∈ before,
      deliveryWaiting t = true → carriesDelivery r.params t = true)
    (hknown : ∀ r r', old = some (r, r') → isLive r.state = true → before ≠ none)
    (hwaiting : deliveryWaiting d.task = true) : carriesDelivery m.params d.task = true := by
  cases h with
  | request _ _ _ _ _ hasked => exact carriesDelivery_of_asked (hasked.carries hwaiting)
  | fallback r r' hold hr _ _ _ _ _ hdelivery _ hfalls =>
    obtain ⟨t, ht⟩ := Option.ne_none_iff_exists'.1 (hknown r r' hold hr)
    have hsame : d.task.delivery = t.delivery := by rw [hdelivery, ht]; rfl
    rw [deliveryWaiting_congr hsame] at hwaiting
    rw [hfalls.params, carriesDelivery_freshParams, carriesDelivery_congr hsame]
    exact hheld r r' hold hr t ht hwaiting
  | correction r t b _ _ _ _ hrun _ _ _ _ _ _ hdelivery _ hcorrects =>
    unfold carriesDelivery
    rw [decide_eq_true_eq, hcorrects.predecessor, hdelivery]
    exact .inr (congrArg some hrun.symm)
  | retry r r' t hold hr ht _ _ _ _ hdelivery _ _ _ hretries =>
    rw [deliveryWaiting_congr hdelivery] at hwaiting
    rw [hretries.params, carriesDelivery_congr hdelivery]
    exact hheld r r' hold hr t ht hwaiting
  | supersede r r' t _ hold hr ht _ _ _ _ _ _ _ _ _ hdelivery _ hsupersedes =>
    rw [deliveryWaiting_congr hdelivery] at hwaiting
    rw [hsupersedes.params, carriesDelivery_congr hdelivery]
    exact hheld r r' hold hr t ht hwaiting

theorem Change.deliveriesCarried (hs : s.Coherent) (h : Change label s s')
    (hinv : DeliveriesCarried s) : DeliveriesCarried s' := by
  intro k vt id x hvt hlock hx hwaiting
  -- a lock that was there before names a run that was there before, with the same parameters
  have hkept : ∀ {vt₀ : VersionedTask}, s.tasks.get k = some vt₀ → vt₀.task.activeRunId = some id →
      vt.task.delivery = vt₀.task.delivery → carriesDelivery x.params vt.task = true := by
    intro vt₀ hvt₀ hlock₀ hdelivery
    obtain ⟨r, hr, -⟩ := hs.holder hvt₀ hlock₀
    rw [deliveryWaiting_congr hdelivery] at hwaiting
    rw [carriesDelivery_congr hdelivery]
    rcases h.run_cases hs hx with ⟨_, r', hr', hmove⟩ | ⟨hnone, -⟩
    · rw [show x.params = r'.params from congrArg Frozen.params hmove.frozen]
      exact hinv hvt₀ hlock₀ hr' hwaiting
    · rw [hnone] at hr
      cases hr
  cases h with
  | aside h =>
    rw [h.tasks] at hvt
    exact hkept hvt hlock rfl
  | decide now admitted subject d heffect hsubject _ hwritten =>
    rw [hwritten.get_task] at hvt
    split_ifs at hvt with hk
    · subst hk
      obtain rfl := Option.some.inj hvt
      have hlocks := fun r hr hlive => subject_locks (r := r) hs rfl hsubject hr hlive
      have hmem : ∀ {y : Run}, y ∈ d.writes → s'.runs.get y.runId = some y := fun hy =>
        hwritten.get_of_mem hs heffect hsubject hy
      generalize hbefore : (s.tasks.get (taskKey d.task.task)).map (·.task) = before at heffect hlocks
      have hstored : ∀ t ∈ before, ∃ vt₀, s.tasks.get (taskKey d.task.task) = some vt₀ ∧
          vt₀.task = t := fun t ht => Option.map_eq_some_iff.1 (hbefore.trans ht)
      cases heffect with
      | @touch _ t t' h =>
        obtain ⟨vt₀, hvt₀, rfl⟩ := hstored t rfl
        exact hkept hvt₀ (h.lock ▸ hlock) h.delivery
      | @rewrite t t' r r' outbox _ _ h =>
        obtain ⟨vt₀, hvt₀, rfl⟩ := hstored t rfl
        have hlock₀ : vt₀.task.activeRunId = some id := h.lock ▸ hlock
        rcases h.delivery with hsame | ⟨_, _, _, _, _, hfree, _⟩
        · exact hkept hvt₀ hlock₀ hsame.1
        · rw [hfree] at hlock₀
          cases hlock₀
      | @settle t t' r r' outbox _ hr _ h =>
        obtain ⟨_, ⟨rfl⟩, hheld⟩ := hlocks r rfl hr
        have hlock : t'.activeRunId = some id := hlock
        rw [h.lock, if_pos hheld] at hlock
        cases hlock
      | mint old dropped m hwrites hmove _ _ _ hminted _ horigin =>
        have hmid : m.runId = id := Option.some.inj (hminted.lock.symm.trans hlock)
        have hm : s'.runs.get m.runId = some m := hmem ((hwrites m).2 (.inr rfl))
        obtain rfl : m = x := Option.some.inj (hm.symm.trans (hmid ▸ hx))
        refine horigin.carries ?_ ?_ hwaiting
        · intro r r' hold hr t ht hwait
          obtain ⟨hsub, -⟩ := hmove r r' hold
          obtain ⟨t₀, ht₀, hheld⟩ := hlocks r hsub hr
          obtain rfl : t₀ = t := Option.some.inj (ht₀.symm.trans ht)
          obtain ⟨vt₀, hvt₀, rfl⟩ := hstored t₀ ht
          exact hinv hvt₀ hheld (hsubject r hsub).1 hwait
        · intro r r' hold hr hnone
          obtain ⟨hsub, -⟩ := hmove r r' hold
          obtain ⟨t₀, ht₀, -⟩ := hlocks r hsub hr
          rw [hnone] at ht₀
          cases ht₀
    · exact hkept hvt hlock rfl

end Carried

theorem World.deliveriesCarried_run (steps : List Step) :
    DeliveriesCarried (World.init.run steps).store :=
  World.invariant_run DeliveriesCarried (fun h => (by cases h))
    (fun hs h hinv => h.deliveriesCarried hs hinv) steps

/-! ### The successor is admitted -/

/-- The successor of a run may be minted on this task. -/
structure Succeedable (t : Task) (r : Run) : Prop where
  isOpen : t.closedAt = none
  carried : deliveryWaiting t = true → carriesDelivery r.params t = true
  source : SameSource r.issue t.issue

/-- An issue of the same source changes no identity. -/
theorem SameSource.identity {copied issue : Option TrackerIssue} (h : SameSource copied issue) :
    issueIdentityChanges copied issue = false := by
  cases copied with
  | none => rfl
  | some i =>
    obtain ⟨j, hj, hkey⟩ := h i rfl
    rw [Option.mem_def.1 hj]
    simpa [issueIdentityChanges] using hkey

/-- The mint of a successor. -/
def successorMint (now : Time) (base : Decision) (r : Run) (policy : ProviderFallback)
    (pipeline : String) (reason : FallbackReason) (failureRunId : String) : Decision :=
  let input := successorRequest now base r policy pipeline reason failureRunId
  let issue := newerIssue r.issue base.task.issue
  mintRun (requestMint input (requestedTask input base.task.work issue) issue)

section Successor

variable {base : Decision} {r : Run} {policy : ProviderFallback} {pipeline : String}
  {authorized available : List String}

/-- The request of a successor passes every check of `requestRun`. -/
theorem Succeedable.requestRun (h : Succeedable base.task r) (now : Time)
    (policy : ProviderFallback) (pipeline : String) (reason : FallbackReason) (failureRunId : String) :
    requestRun (successorRequest now base r policy pipeline reason failureRunId) =
      .ok (successorMint now base r policy pipeline reason failureRunId) := by
  unfold successorMint
  generalize hinput : successorRequest now base r policy pipeline reason failureRunId = input
  have hparams : input.params = freshParams r.params := by rw [← hinput]; rfl
  have htask : input.task = some base.task := by rw [← hinput]; rfl
  have hsource : input.requestSource = some .providerFallback := by rw [← hinput]; rfl
  have hidle : input.activeRun = none := by rw [← hinput]; rfl
  have hissue : input.issue = some r.issue := by rw [← hinput]; rfl
  have hpasses : deliveryWaiting base.task = true → input.passesDelivery base.task = true := by
    intro hwaiting
    have hcarried := h.carried hwaiting
    rw [← carriesDelivery_freshParams, ← hparams] at hcarried
    unfold carriesDelivery at hcarried
    unfold RequestRunInput.passesDelivery RequestRunInput.param
    rw [decide_eq_true_eq] at hcarried ⊢
    rcases hcarried with hreply | hpredecessor
    · exact .inl hreply
    · exact .inr ⟨by simp [hsource], by simp [hsource], hpredecessor⟩
  have hbusy : ¬(deliveryWaiting base.task = true ∧ ¬input.passesDelivery base.task = true) :=
    fun hb => hb.2 (hpasses hb.1)
  unfold AgentLcars.requestRun
  simp only [hidle, htask, hissue, Option.filter_none, Option.bind_some, h.isOpen,
    Option.isSome_none, Bool.false_eq_true, if_false, Option.any_some, decide_eq_true_eq,
    Option.map_some, Option.some_or, Option.join_some, h.source.identity]
  rw [if_neg hbusy]

/-- The successor of a settled run is minted beside it. -/
theorem Succeedable.successor (h : Succeedable base.task r) (hrun : base.run = some r)
    (hpolicy : r.providerFallback = some policy) (now : Time) (pipeline : String)
    (reason : FallbackReason) (failureRunId : String) :
    successor now base pipeline reason failureRunId =
      .ok (base.followedBy (successorMint now base r policy pipeline reason failureRunId)) := by
  unfold AgentLcars.successor
  simp only [decidedRun, hrun, bind, Except.bind, hpolicy,
    h.requestRun now policy pipeline reason failureRunId]
  rfl

/-- A policy offers nothing when there is none. -/
theorem policy_of_fallbackPipeline (h : fallbackPipeline r authorized available = some pipeline) :
    ∃ policy, r.providerFallback = some policy := by
  cases hpolicy : r.providerFallback with
  | none => simp [fallbackPipeline, selectFallbackPipeline, hpolicy] at h
  | some policy => exact ⟨policy, rfl⟩

/-- Applying the fallback policy to a settlement is never refused. -/
theorem settleProviderFallback_accepts (now : Time) (authorized available : List String)
    (hrun : base.run = some r)
    (h : (providerCooldownForRun r).isSome = true → Succeedable base.task r) :
    ∃ d, settleProviderFallback now base authorized available = .ok d := by
  unfold settleProviderFallback
  simp only [decidedRun, hrun, bind, Except.bind]
  cases hcooldown : providerCooldownForRun r with
  | none => exact ⟨base, rfl⟩
  | some cooldown =>
    cases hpipeline : fallbackPipeline r authorized available with
    | none => exact ⟨base, rfl⟩
    | some pipeline =>
      obtain ⟨policy, hpolicy⟩ := policy_of_fallbackPipeline hpipeline
      exact ⟨_, (h (by rw [hcooldown]; rfl)).successor hrun hpolicy now pipeline .providerLimit r.runId⟩

end Successor

/-! ### Reports -/

section Report

variable {t : Task} {r : Run} {result : RunResult}

/-- A failed report leaves the delivery, the issue and the standing of the task as they are. -/
theorem reportDecision_task (now : Time) (t : Task) (r : Run) (hfail : result.ok = false) :
    (reportDecision now t r result).task.closedAt = t.closedAt ∧
      (reportDecision now t r result).task.delivery = t.delivery ∧
      (reportDecision now t r result).task.issue = t.issue := by
  have hsettled : (reportSettlement now t r result).task.closedAt = t.closedAt ∧
      (reportSettlement now t r result).task.delivery = t.delivery ∧
      (reportSettlement now t r result).task.issue = t.issue := by
    simp only [reportSettlement, settle, resetLossBudgets, releaseLock_eq, and_self]
  unfold reportDecision
  split
  · rename_i hok
    simp [hfail] at hok
  · cases hs : revisionSuccessor (reportSettlement now t r result) (finishedRun now t r result) now with
    | none => exact hsettled
    | some next =>
      obtain ⟨_, _, _, -, -, -, -, -, rfl⟩ := revisionSuccessor_some hs
      exact hsettled

/-- A run that settles stopped by its provider can be succeeded. -/
theorem Succeedable.decided (h : Succeedable t r) (now : Time) (result : RunResult)
    (hcooldown : (providerCooldownForRun (finishedRun now t r result)).isSome = true) :
    Succeedable (reportDecision now t r result).task (finishedRun now t r result) := by
  have hfail : result.ok = false := by
    have hstop := (isProviderStop_of_cooldown hcooldown).1
    simp only [RunResult.isProviderStop, decide_eq_true_eq] at hstop
    exact hstop.1
  obtain ⟨hclosed, hdelivery, hissue⟩ := reportDecision_task now t r hfail
  refine ⟨hclosed.trans h.isOpen, fun hwaiting => ?_, ?_⟩
  · rw [deliveryWaiting_congr hdelivery] at hwaiting
    rw [carriesDelivery_congr hdelivery]
    exact h.carried hwaiting
  · rw [hissue]
    exact h.source

/-- The fallback of a settled report is never refused, and leaves the settlement of the run. -/
theorem Succeedable.report (h : Succeedable t r) (now : Time) (result : RunResult)
    (authorized available : List String) :
    ∃ d, settleProviderFallback now (reportDecision now t r result) authorized available = .ok d ∧
      d.run = some (finishedRun now t r result) := by
  have hrun := reportDecision_run now t r result
  obtain ⟨d, hd⟩ := settleProviderFallback_accepts now authorized available hrun
    (h.decided now result)
  exact ⟨d, hd, settleProviderFallback_run hrun hd⟩

end Report

/-- The successor of a run that locks its task would be admitted. -/
theorem Store.Coherent.succeedable {s : Store} (hs : s.Coherent) (hcarried : DeliveriesCarried s)
    {id : String} {r : Run} {vt : VersionedTask} (hr : s.runs.get id = some r)
    (hvt : s.tasks.get (taskKey r.task) = some vt) (hlock : vt.task.activeRunId = some r.runId) :
    Succeedable vt.task r := by
  have hid : r.runId = id := hs.runKeyed hr
  refine ⟨?_, fun hwaiting => hcarried hvt (hid ▸ hlock) hr hwaiting, hs.source hr hvt⟩
  by_contra hclosed
  rw [hs.closed hvt (Option.isSome_iff_ne_none.2 hclosed)] at hlock
  cases hlock

/-- The result a run settles with, once credential IO no longer holds it back. -/
def SettlesWith (t : Task) (r : Run) (result : RunResult) (d : Decision) : Prop :=
  ∃ x, d.run = some x ∧ x.state = .finished ∧ x.result = some (settledResult t r result)

section Refusals

variable {s : Store} (hs : s.Coherent) (hcarried : DeliveriesCarried s) {id : String} {r : Run}
  {vt : VersionedTask} (hr : s.runs.get id = some r) (hvt : s.tasks.get (taskKey r.task) = some vt)
  {now : Time}
include hs hcarried hr hvt

/-- The policy applied to an accepted report. -/
theorem report_accepts {result : RunResult} {claimFingerprint : Option String} {d₀ : Decision}
    (h : reportResult now vt.task r result claimFingerprint = .ok d₀)
    (authorized available : List String) :
    ∃ d, settleProviderFallback now d₀ authorized available = .ok d ∧ d.run = d₀.run := by
  have hadmitted := reportResult_ok h
  obtain ⟨hlive, hlock⟩ := reportAdmitted_live hadmitted
  rw [reportResult_eq hadmitted] at h
  cases hop : r.credentialOperation with
  | some op =>
    rw [hop] at h
    obtain rfl := Except.ok.inj h
    have hquiet : providerCooldownForRun (deferredRun now r op result) = none :=
      providerCooldownForRun_live hlive
    obtain ⟨d, hd⟩ := settleProviderFallback_accepts now authorized available
      (show ({ task := vt.task, run := some (deferredRun now r op result) } : Decision).run =
        some (deferredRun now r op result) from rfl) (by simp [hquiet])
    exact ⟨d, hd, settleProviderFallback_run rfl hd⟩
  | none =>
    rw [hop] at h
    obtain rfl := Except.ok.inj h
    obtain ⟨d, hd, hrun⟩ := (hs.succeedable hcarried hr hvt hlock).report now result
      authorized available
    exact ⟨d, hd, hrun.trans (reportDecision_run now vt.task r result).symm⟩

/-- The policy applied to an accepted finish of a deferred result. -/
theorem finish_accepts {operationId claimFingerprint : String} {restored : Bool}
    {sequence : Option Nat} {d₀ : Decision}
    (h : changeCredentialOperation now vt.task r operationId claimFingerprint
      (.finish restored sequence) = .ok d₀)
    {p : CredentialPendingResult} (hp : r.credentialPendingResult = some p) :
    SettlesWith vt.task r p.result d₀ ∧ ∀ authorized available, ∃ d,
      settleProviderFallback now d₀ authorized available = .ok d ∧ d.run = d₀.run := by
  obtain ⟨op, hop, hchange⟩ := changeCredentialOperation_ok h
  cases hchange with
  | finish _ _ _ hnone =>
    rw [hp] at hnone
    cases hnone
  | complete _ pending _ hpending hadmitted =>
    obtain rfl : p = pending := Option.some.inj (hp.symm.trans hpending)
    obtain ⟨-, hlock⟩ := reportAdmitted_live hadmitted
    have hsucceedable : Succeedable vt.task (operationFinished r op restored op.claimFingerprint) := by
      have h := hs.succeedable hcarried hr hvt hlock
      exact ⟨h.isOpen, h.carried, h.source⟩
    have hrun := reportDecision_run now vt.task (operationFinished r op restored op.claimFingerprint)
      p.result
    refine ⟨⟨_, hrun, rfl, rfl⟩, fun authorized available => ?_⟩
    obtain ⟨d, hd, hsame⟩ := hsucceedable.report now p.result authorized available
    exact ⟨d, hd, hsame.trans hrun.symm⟩

end Refusals

/-- What an accepted report does to its run: it settles, or while credential IO is outstanding the
result is kept for the finish that settles it. -/
def Answers (t : Task) (r : Run) (result : RunResult) (d : Decision) : Prop :=
  (r.credentialOperation = none → SettlesWith t r result d) ∧
    (r.credentialOperation.isSome = true → ∃ x p, d.run = some x ∧
      x.credentialPendingResult = some p ∧ sameReport p.result result = true)

theorem reportResult_answers {now : Time} {t : Task} {r : Run} {result : RunResult}
    {claimFingerprint : Option String} {d : Decision}
    (h : reportResult now t r result claimFingerprint = .ok d) : Answers t r result d := by
  have hadmitted := reportResult_ok h
  rw [reportResult_eq hadmitted] at h
  cases hop : r.credentialOperation with
  | none =>
    rw [hop] at h
    obtain rfl := Except.ok.inj h
    refine ⟨fun _ => ⟨_, reportDecision_run now t r result, rfl, rfl⟩, fun hsome => ?_⟩
    rw [hop] at hsome
    cases hsome
  | some op =>
    rw [hop] at h
    obtain rfl := Except.ok.inj h
    refine ⟨fun hnone => (by rw [hop] at hnone; cases hnone), fun _ => ?_⟩
    cases hpending : r.credentialPendingResult with
    | none =>
      refine ⟨_, { claimFingerprint := op.claimFingerprint, requestedAt := now, result }, rfl, ?_, ?_⟩
      · simp only [deferredRun, hpending, Option.none_or]
      · simp [sameReport]
    | some p =>
      refine ⟨_, p, rfl, by simp only [deferredRun, hpending, Option.some_or], ?_⟩
      simp only [reportAdmitted, hpending, Option.all_some, decide_eq_true_eq] at hadmitted
      exact hadmitted.2.2.2.1.2

theorem SettlesWith.of_run {t : Task} {r : Run} {result : RunResult} {d₀ d : Decision}
    (h : SettlesWith t r result d₀) (hrun : d.run = d₀.run) : SettlesWith t r result d := by
  unfold SettlesWith
  rw [hrun]
  exact h

/-- In every reachable state a fallback policy refuses nothing that is accepted without it, and
changes nothing about how the run settles. -/
theorem World.fallback_costs_nothing (steps : List Step) (id : String) (r : Run) (vt : VersionedTask)
    (hr : (World.init.run steps).store.runs.get id = some r)
    (hvt : (World.init.run steps).store.tasks.get (taskKey r.task) = some vt) :
    let s := (World.init.run steps).store
    (∀ now result claimFingerprint authorized available,
      (∀ stop, reportResultWithFallback now vt.task r result claimFingerprint authorized available =
          .error stop ↔ reportResult now vt.task r result claimFingerprint = .error stop) ∧
      ∀ d, reportResultWithFallback now vt.task r result claimFingerprint authorized available =
        .ok d → Answers vt.task r result d) ∧
    ∀ now authority operationId claimFingerprint restored sequence,
      (∀ stop, (Orchestrator.direct s id now (.finishCredentialOperation (some authority) operationId
          claimFingerprint restored sequence)).1 = .error stop ↔
        (Orchestrator.direct s id now (.finishCredentialOperation none operationId claimFingerprint
          restored sequence)).1 = .error stop) ∧
      ∀ d, (Orchestrator.direct s id now (.finishCredentialOperation (some authority) operationId
          claimFingerprint restored sequence)).1 = .ok d →
        ∀ p ∈ r.credentialPendingResult, SettlesWith vt.task r p.result d := by
  intro s
  have hs : s.Coherent := (World.coherent_run steps).store
  have hcarried : DeliveriesCarried s := World.deliveriesCarried_run steps
  constructor
  · intro now result claimFingerprint authorized available
    unfold reportResultWithFallback
    cases hreport : reportResult now vt.task r result claimFingerprint with
    | error stop => exact ⟨fun _ => Iff.rfl, fun _ h => (by cases h)⟩
    | ok d₀ =>
      obtain ⟨d, hd, hrun⟩ := report_accepts hs hcarried hr hvt hreport authorized available
      have hanswers := reportResult_answers hreport
      simp only [bind, Except.bind, hd]
      refine ⟨fun stop => ⟨fun h => (by cases h), fun h => (by cases h)⟩, ?_⟩
      rintro _ ⟨rfl⟩
      refine ⟨fun hop => (hanswers.1 hop).of_run hrun, fun hop => ?_⟩
      rw [hrun]
      exact hanswers.2 hop
  · intro now authority operationId claimFingerprint restored sequence
    simp only [hs.direct_outcome hr hvt, DirectOp.decide, finishWithFallback]
    cases hchange : changeCredentialOperation now vt.task r operationId claimFingerprint
      (.finish restored sequence) with
    | error stop => exact ⟨fun _ => Iff.rfl, fun _ h => (by cases h)⟩
    | ok d₀ =>
      cases hp : r.credentialPendingResult with
      | none =>
        simp only [bind, Except.bind, if_true]
        exact ⟨fun _ => trivial, fun _ _ p hp => (by cases hp)⟩
      | some p =>
        obtain ⟨hsettles, haccepts⟩ := finish_accepts hs hcarried hr hvt hchange hp
        obtain ⟨d, hd, hrun⟩ := haccepts (authority.allowedPipelines vt.task r) (authority.available
          (s.runState id (some authority.pipelines) ((DirectOp.finishCredentialOperation
            (some authority) operationId claimFingerprint restored
            sequence).shouldReadQueueEligibility now)).queueEligibility now)
        simp only [bind, Except.bind, reduceCtorEq, if_false, DirectOp.eligibilityPipelines, hd]
        refine ⟨fun _ => trivial, ?_⟩
        rintro _ ⟨rfl⟩ _ ⟨rfl⟩
        exact hsettles.of_run hrun

/-- The report of a provider that is out of capacity. -/
def Sample.capacity : RunResult :=
  { ok := false, summary := some "provider-capacity", ref := none, relatedRefs := none
    message := none, humanNeededActions := none }

/-- A policy that allows one other pipeline. -/
def Sample.policy : ProviderFallbackRequest :=
  { principal := "operator", allowedPipelines := ["claude", "opencode"], sourceRepository := none }

/-- A claimed run that may fall back to it. -/
def Sample.insured : List Step :=
  [.request 0 { Sample.request "claude" with providerFallback := some Sample.policy },
    .enqueueRun Sample.runId 1, .claimQueuedRun ["claude"] (Sample.claim 2)]

theorem World.fallback_costs_nothing_insured :
    ∃ r vt d, (World.init.run Sample.insured).store.runs.get Sample.runId = some r ∧
      (World.init.run Sample.insured).store.tasks.get (taskKey r.task) = some vt ∧
      reportResultWithFallback 3 vt.task r Sample.capacity (some "token") ["opencode"] [] = .ok d ∧
      d.additionalRuns.map (·.pipeline) = ["opencode"] ∧ Answers vt.task r Sample.capacity d := by
  have hfalls : (((World.init.run Sample.insured).store.runs.get Sample.runId).bind fun r =>
      ((World.init.run Sample.insured).store.tasks.get (taskKey r.task)).bind fun vt =>
        ((reportResultWithFallback 3 vt.task r Sample.capacity (some "token") ["opencode"]
          []).toOption.map fun d => d.additionalRuns.map (·.pipeline))) = some ["opencode"] := by
    decide +kernel
  obtain ⟨r, hr, hrest⟩ := Option.bind_eq_some_iff.1 hfalls
  obtain ⟨vt, hvt, hrest⟩ := Option.bind_eq_some_iff.1 hrest
  obtain ⟨d, hd, hminted⟩ := Option.map_eq_some_iff.1 hrest
  have hok : reportResultWithFallback 3 vt.task r Sample.capacity (some "token") ["opencode"] [] =
      .ok d := by
    cases houtcome : reportResultWithFallback 3 vt.task r Sample.capacity (some "token")
      ["opencode"] [] with
    | error stop =>
      rw [houtcome] at hd
      cases hd
    | ok d' =>
      rw [houtcome] at hd
      exact congrArg Except.ok (Option.some.inj hd)
  exact ⟨r, vt, d, hr, hvt, hok, hminted,
    ((World.fallback_costs_nothing _ _ r vt hr hvt).1 _ _ _ _ _).2 d hok⟩

end AgentLcars
