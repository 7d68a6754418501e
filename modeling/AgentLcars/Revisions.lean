import AgentLcars.Coherence

/-!
# Source revisions

A newer revision that arrives while a claim is held is only recorded on its task; the settlement of
the claim is to mint its run.  Reports and losses do so in `advanceSourceRevision`, but some
settlements never look at the recorded revision: cancellations, losses of recipes, successful reports
that hand over to a delivery, and every settlement of a run that has no revision of its own.

* `Step.passesOver` says, on the state before a step, that it is one of these.
* `World.revisions_served`: in a run without such steps no desired revision is lost.
-/

namespace AgentLcars

/-! ### Settlements that pass over the desired revision -/

/-- The open task of a live run wants another revision than the run's. -/
def awaitsOther (t : Task) (r : Run) : Bool :=
  isLive r.state ∧ t.closedAt = none ∧
    t.desiredRevision.any fun desired => r.sourceRevision.map (·.key) ≠ some desired.key

/-- The loss of a recipe, or the last one of a run without a revision. -/
def lossPassesOver (t : Task) (r : Run) : Bool :=
  r.pipeline = "goose" ∨ (r.sourceRevision = none ∧ MAX_AUTO_RETRIES ≤ t.consecutiveLost)

/-- A report of a run without a revision, or one that hands over to a delivery. -/
def reportPassesOver (r : Run) (result : RunResult) (delivery : Option DeliveryBinding) : Bool :=
  r.sourceRevision = none ∨ (result.ok ∧ delivery.isSome)

/-- The provider policy has a pipeline for what the report leaves. -/
def fallsBack (t : Task) (r : Run) (result : RunResult) (authority : ProviderFallbackAuthority)
    (eligibility : Option QueueEligibilitySnapshot) (now : Time) : Bool :=
  result.isProviderStop ∧ (fallbackPipeline r (authority.allowedPipelines t r)
    (authority.available eligibility now)).isSome

/-- The same for a report that may fall back: its fallback drops the desired revision. -/
def reportOpPassesOver (authority : Option ProviderFallbackAuthority) (now : Time) (t : Task)
    (r : Run) (result : RunResult) (delivery : Option DeliveryBinding)
    (eligibility : Option QueueEligibilitySnapshot) : Bool :=
  match authority, result.ok with
  | some authority, false =>
    r.sourceRevision = none ∧ ¬fallsBack t r result authority eligibility now
  | _, _ => ¬staleDelivery r result delivery ∧ reportPassesOver r result (delivery.or r.delivery)

/-- The operation is accepted and settles its run without a look at the desired revision. -/
def RunOp.passesOver (op : RunOp) (now : Time) (t : Task) (r : Run)
    (eligibility : Option QueueEligibilitySnapshot) : Bool :=
  match op with
  | .cancel _ nativeTask _ => r.credentialOperation = none ∧
      (nativeTask.all fun workId => t.task = .work workId ∧ t.activeRunId = some r.runId) ∧
      ¬(nativeTask.isSome ∧ deliveryWaiting t)
  | .sweepExpired =>
    recoveryDeadlineElapsed r now ∧ r.credentialOperation = none ∧ lossPassesOver t r
  | .executorExited claimant =>
    isExitClaimant r claimant ∧ r.credentialOperation = none ∧ lossPassesOver t r
  | .report authority result claimFingerprint delivery _ => r.credentialOperation = none ∧
      reportAdmitted now t r result claimFingerprint ∧
      reportOpPassesOver authority now t r result delivery eligibility
  | _ => false

/-- The finish of a deferred report is accepted and passes over the desired revision. -/
def completionPassesOver (authority : Option ProviderFallbackAuthority) (now : Time) (t : Task)
    (r : Run) (id fingerprint : String) (restored : Bool) (sequence : Option Nat)
    (eligibility : Option QueueEligibilitySnapshot) : Bool :=
  match r.credentialOperation, r.credentialPendingResult with
  | some operation, some pending =>
    completionAdmitted now t r id fingerprint restored sequence operation pending ∧
      reportPassesOver r pending.result r.delivery ∧
      authority.all fun authority => ¬fallsBack t r pending.result authority eligibility now
  | _, _ => false

/-- The operation is accepted and settles its run without a look at the desired revision. -/
def DirectOp.passesOver (op : DirectOp) (now : Time) (t : Task) (r : Run)
    (eligibility : Option QueueEligibilitySnapshot) : Bool :=
  match op with
  | .cancelUnclaimedBefore notAfter _ issue => r.credentialOperation = none ∧
      (issue.all fun issue => sameClosedIssue t issue) ∧ r.queueState ≠ some .claimed ∧
      r.createdAt ≤ notAfter
  | .finishCredentialOperation authority id fingerprint restored sequence =>
    completionPassesOver authority now t r id fingerprint restored sequence eligibility
  | .changeCredentialOperation id fingerprint (.finish restored sequence) =>
    completionPassesOver none now t r id fingerprint restored sequence eligibility
  | _ => false

/-- The step settles a run whose task wants another revision, and passes over that revision. -/
def Step.passesOver (s : Store) : Step → Bool
  | .onRun runId now _ op =>
    let state := s.runState runId op.eligibilityPipelines (op.shouldReadQueueEligibility now)
    match state.task, state.run with
    | some vt, some r =>
      awaitsOther vt.task r ∧ op.passesOver now vt.task r state.queueEligibility
    | _, _ => false
  | .direct runId now op =>
    let state := s.runState runId op.eligibilityPipelines (op.shouldReadQueueEligibility now)
    match state.task, state.run with
    | some vt, some r =>
      awaitsOther vt.task r ∧ op.passesOver now vt.task r state.queueEligibility
    | _, _ => false
  | _ => false

/-! ### What settles without a successor -/

/-- The steps that may settle a run. -/
def Step.settling (label : Step) : Bool :=
  label.reported.isSome ∨ label.cancels ∨ label.reroutes ∨ label.loses ∨
    label.credentialChange.isSome

theorem Move.settling {label : Step} {now : Time} {r r' : Run} (h : Move label now r r')
    (hlive : isLive r.state = true) (hterminal : isLive r'.state = false) :
    label.settling = true := by
  simp only [Step.settling, decide_eq_true_eq]
  have hkept : r'.state = r.state → False := by
    intro hstate
    rw [hstate, hlive] at hterminal
    cases hterminal
  cases h with
  | confirm => cases hterminal
  | settle _ _ hs =>
    cases hs with
    | report _ _ _ _ hlabel => exact .inl (by rw [hlabel]; rfl)
    | cancel _ _ hlabel => exact .inr (.inl hlabel)
    | reroute _ _ hlabel => exact .inr (.inr (.inl hlabel))
    | lose _ hlabel => exact .inr (.inr (.inr (.inl hlabel)))
  | complete _ _ _ _ _ _ _ _ _ hlabel =>
    exact .inr (.inr (.inr (.inr (by rw [hlabel]; rfl))))
  | _ => exact (hkept rfl).elim

section Alone

variable {now : Time} {t : Task} {r : Run} {d : Decision} {desired : WorkRevision}

theorem attachCleanup_ok {cleanupId : String} {d' : Decision}
    (h : attachCleanup r cleanupId d = .ok d') : ∃ run, d' = { d with run } := by
  unfold attachCleanup at h
  split at h
  · split_ifs at h
    · exact ⟨d.run, (Except.ok.inj h).symm⟩
    · obtain ⟨cleanup, -, h⟩ := bind_eq_ok.1 h
      exact ⟨cleanup.run, (Except.ok.inj h).symm⟩
  · exact ⟨d.run, (Except.ok.inj h).symm⟩

/-- A settlement that mints no revision although its task wants another is of a run without one. -/
theorem revisionSuccessor_alone {s : Run}
    (halone : ((revisionSuccessor d s now).getD d).additionalRuns = [])
    (hopen : d.task.closedAt = none) (hdesired : d.task.desiredRevision = some desired)
    (hkey : s.sourceRevision.map (·.key) ≠ some desired.key) : s.sourceRevision = none := by
  cases hsucc : revisionSuccessor d s now with
  | none => exact (revisionSuccessor_none hsucc hopen desired hdesired).resolve_left hkey
  | some d' =>
    obtain ⟨_, _, _, -, -, -, -, -, rfl⟩ := revisionSuccessor_some hsucc
    rw [hsucc] at halone
    cases halone

theorem reportDecision_alone {result : RunResult}
    (halone : (reportDecision now t r result).additionalRuns = []) (hopen : t.closedAt = none)
    (hdesired : t.desiredRevision = some desired)
    (hkey : r.sourceRevision.map (·.key) ≠ some desired.key) :
    reportPassesOver r result r.delivery = true := by
  have htask : (reportSettlement now t r result).task.closedAt = t.closedAt ∧
      (reportSettlement now t r result).task.desiredRevision = t.desiredRevision := by
    simp [reportSettlement, settle, resetLossBudgets, releaseLock_eq]
  unfold reportDecision at halone
  simp only [reportPassesOver, decide_eq_true_eq]
  split at halone
  · rename_i delivery hdelivery hok
    exact .inr ⟨hok, by rw [hdelivery]; rfl⟩
  · have hnone : (finishedRun now t r result).sourceRevision = none :=
      revisionSuccessor_alone halone (htask.1.trans hopen) (htask.2.trans hdesired) hkey
    exact .inl hnone

theorem settleLostAndRetry_alone {cause : LossCause}
    (h : settleLostAndRetry now (.ok (settleLost now t r cause)) = .ok d)
    (halone : d.additionalRuns = []) (hopen : t.closedAt = none)
    (hdesired : t.desiredRevision = some desired)
    (hkey : r.sourceRevision.map (·.key) ≠ some desired.key) : lossPassesOver t r = true := by
  have htask : (settleLost now t r cause).task.closedAt = t.closedAt ∧
      (settleLost now t r cause).task.desiredRevision = t.desiredRevision ∧
      (settleLost now t r cause).task.consecutiveLost = t.consecutiveLost + 1 := by
    simp [settleLost, settle, releaseLock_eq]
  obtain ⟨hclosed, hrevision, hlost⟩ := htask
  simp only [lossPassesOver, decide_eq_true_eq]
  obtain ⟨_, ⟨rfl⟩, h⟩ := bind_eq_ok.1 h
  obtain ⟨run, hdecided, h⟩ := bind_eq_ok.1 h
  obtain rfl : run = lostRun now r cause :=
    (Option.some.inj (decidedRun_eq_ok.1 hdecided)).symm
  by_cases hgoose : r.pipeline = "goose"
  · exact .inl hgoose
  rw [if_neg (show (lostRun now r cause).pipeline ≠ "goose" from hgoose)] at h
  cases hsucc : revisionSuccessor (settleLost now t r cause) (lostRun now r cause) now with
  | some d' =>
    obtain ⟨_, _, _, -, -, -, -, -, rfl⟩ := revisionSuccessor_some hsucc
    rw [hsucc] at h
    rw [← Except.ok.inj h] at halone
    cases halone
  | none =>
    have hnone : r.sourceRevision = none := (revisionSuccessor_none hsucc (hclosed.trans hopen)
      desired (hrevision.trans hdesired)).resolve_left hkey
    rw [hsucc] at h
    dsimp only at h
    rw [hlost] at h
    split_ifs at h with hbudget hspent
    · exact .inr ⟨hnone, by omega⟩
    · exact absurd hspent.1 (by simp [lostRun, hnone])
    · rw [← Except.ok.inj h] at halone
      cases halone

theorem successor_mints {s : Run} {pipeline failureRunId : String} {reason : FallbackReason}
    {d' : Decision} (hrun : d.run = some s)
    (h : successor now d pipeline reason failureRunId = .ok d') : d'.additionalRuns ≠ [] := by
  obtain ⟨policy, next, -, hnext, rfl⟩ := successor_ok hrun h
  obtain ⟨m, hm⟩ := requested_of_ok hnext
  have hnextRun : next.run = some m := by rw [hm.form]
  simp [Decision.followedBy, hnextRun]

theorem settleProviderFallback_alone {s : Run} {authorized available : List String} {d' : Decision}
    (hrun : d.run = some s) (h : settleProviderFallback now d authorized available = .ok d')
    (halone : d'.additionalRuns = []) :
    d' = d ∧ ¬((providerCooldownForRun s).isSome = true ∧
      (fallbackPipeline s authorized available).isSome = true) := by
  simp only [settleProviderFallback, bind_eq_ok, decidedRun_eq_ok] at h
  obtain ⟨previous, hprev, h⟩ := h
  obtain rfl : previous = s := Option.some.inj (hprev.symm.trans hrun)
  cases hcooldown : providerCooldownForRun previous with
  | none =>
    rw [hcooldown] at h
    exact ⟨(Except.ok.inj h).symm, by simp⟩
  | some cooldown =>
    cases hpipeline : fallbackPipeline previous authorized available with
    | none =>
      rw [hcooldown, hpipeline] at h
      exact ⟨(Except.ok.inj h).symm, by simp⟩
    | some pipeline =>
      rw [hcooldown, hpipeline] at h
      exact absurd halone (successor_mints hrun h)

/-- A run without a revision opens the cooldown its result names. -/
theorem cooldown_of_plain {result : RunResult} (hplain : r.sourceRevision = none)
    (hstop : result.isProviderStop = true) :
    (providerCooldownForRun (finishedRun now t r result)).isSome = true := by
  have hresult : settledResult t r result = result := by
    unfold settledResult
    rw [hplain]
  simp [providerCooldownForRun, finishedRun, hresult, hstop]

end Alone

/-- The decision settles the run of a task that wants another revision, and mints nothing. -/
structure PassedOver (t : Task) (r : Run) (d : Decision) : Prop where
  live : isLive r.state = true
  alone : d.additionalRuns = []
  settled : d.run.isSome = true
  terminal : ∀ s ∈ d.run, isLive s.state = false
  wasOpen : t.closedAt = none
  isOpen : d.task.closedAt = none
  desired : ∃ desired, t.desiredRevision = some desired ∧ d.task.desiredRevision = some desired ∧
    r.sourceRevision.map (·.key) ≠ some desired.key

section PassedOver

variable {now : Time} {t : Task} {r : Run} {d d' : Decision} {cleanupId : String}
  {eligibility : Option QueueEligibilitySnapshot}

theorem PassedOver.awaitsOther (h : PassedOver t r d) : awaitsOther t r = true := by
  obtain ⟨desired, hdesired, -, hkey⟩ := h.desired
  simp only [AgentLcars.awaitsOther, decide_eq_true_eq]
  exact ⟨h.live, h.wasOpen, by simpa [hdesired] using hkey⟩

/-- What `transactOnRun` passed over, its callback passed over. -/
theorem PassedOver.of_attach (h : PassedOver t r d')
    (hattach : attachCleanup r cleanupId d = .ok d') : PassedOver t r d := by
  have hsame : (∀ s ∈ d.run, isLive s.state = true) → d' = d := by
    intro hlive
    rw [attachCleanup_same fun s hs => .inr (hlive s hs)] at hattach
    exact (Except.ok.inj hattach).symm
  obtain ⟨run, hd'⟩ := attachCleanup_ok hattach
  refine ⟨h.live, by simpa [hd'] using h.alone, ?_, fun s hs => ?_, h.wasOpen,
    by simpa [hd'] using h.isOpen, by simpa [hd'] using h.desired⟩
  · by_contra hnone
    rw [Option.not_isSome_iff_eq_none] at hnone
    have hsettled := h.settled
    rw [hsame (by simp [hnone]), hnone] at hsettled
    cases hsettled
  · by_contra hlive
    rw [Bool.not_eq_false] at hlive
    have hterminal := h.terminal s
    rw [hsame fun s' hs' => (Option.some.inj (hs.symm.trans hs')) ▸ hlive, hlive] at hterminal
    cases hterminal hs

/-- A report that settles and mints nothing. -/
theorem reportResult_alone {result : RunResult} {claimFingerprint : Option String}
    (h : reportResult now t r result claimFingerprint = .ok d)
    (hterminal : ∀ s ∈ d.run, isLive s.state = false) :
    reportAdmitted now t r result claimFingerprint = true ∧ r.credentialOperation = none ∧
      d = reportDecision now t r result := by
  have hadmitted := reportResult_ok h
  rw [reportResult_eq hadmitted] at h
  cases hop : r.credentialOperation with
  | some op =>
    rw [hop] at h
    obtain rfl := Except.ok.inj h
    have hlive := (reportAdmitted_live hadmitted).1
    have hdead : isLive (deferredRun now r op result).state = false := hterminal _ rfl
    rw [show isLive r.state = false from hdead] at hlive
    cases hlive
  | none =>
    rw [hop] at h
    exact ⟨hadmitted, rfl, (Except.ok.inj h).symm⟩

/-- A settlement of a run that mints nothing, although a fallback was asked for. -/
theorem fallback_alone {s : Run} {result : RunResult} {authority : ProviderFallbackAuthority}
    (hrun : (reportDecision now t s result).run = some (finishedRun now t s result))
    (hfrozen : s.frozen = r.frozen)
    (h : settleProviderFallback now (reportDecision now t s result)
      (authority.allowedPipelines t r) (authority.available eligibility now) = .ok d)
    (halone : d.additionalRuns = []) :
    d = reportDecision now t s result ∧
      (r.sourceRevision = none → fallsBack t r result authority eligibility now = false) := by
  obtain ⟨rfl, hno⟩ := settleProviderFallback_alone hrun h halone
  refine ⟨rfl, fun hplain => ?_⟩
  by_contra hfalls
  rw [Bool.not_eq_false] at hfalls
  simp only [fallsBack, decide_eq_true_eq] at hfalls
  refine hno ⟨cooldown_of_plain (by rw [sourceRevision_of_frozen hfrozen, hplain]) hfalls.1, ?_⟩
  have hfinished : (finishedRun now t s result).frozen = r.frozen := hfrozen
  rw [fallbackPipeline_of_frozen hfinished]
  exact hfalls.2

theorem report_passesOver {authority : Option ProviderFallbackAuthority} {result : RunResult}
    {claimFingerprint : Option String} {delivery : Option DeliveryBinding} {publish : Bool}
    (h : (RunOp.report authority result claimFingerprint delivery publish).decide now t r
      eligibility = .ok d) (hover : PassedOver t r d) :
    (RunOp.report authority result claimFingerprint delivery publish).passesOver now t r
      eligibility = true := by
  have halone := hover.alone
  have hterminal := hover.terminal
  obtain ⟨desired, hdesired, -, hkey⟩ := hover.desired
  have hplain : plainReport now t r result claimFingerprint delivery publish = .ok d →
      r.credentialOperation = none ∧ reportAdmitted now t r result claimFingerprint = true ∧
      ¬staleDelivery r result delivery = true ∧
        reportPassesOver r result (delivery.or r.delivery) = true := by
    intro h
    simp only [plainReport, ite_refused_eq_ok] at h
    obtain ⟨hadmitted, hop, rfl⟩ := reportResult_alone h.2 hterminal
    exact ⟨hop, hadmitted, h.1, reportDecision_alone halone hover.wasOpen hdesired hkey⟩
  simp only [RunOp.passesOver, decide_eq_true_eq]
  simp only [RunOp.decide] at h
  cases authority with
  | none =>
    obtain ⟨hop, hadmitted, hstale, hpasses⟩ := hplain h
    exact ⟨hop, hadmitted, by simp [reportOpPassesOver, hstale, hpasses]⟩
  | some authority =>
    cases hok : result.ok with
    | true =>
      simp only [hok, Bool.true_eq_false, if_false] at h
      obtain ⟨hop, hadmitted, hstale, hpasses⟩ := hplain h
      exact ⟨hop, hadmitted, by simp [reportOpPassesOver, hok, hstale, hpasses]⟩
    | false =>
      simp only [hok, if_true, reportResultWithFallback] at h
      obtain ⟨settled, hsettled, h⟩ := bind_eq_ok.1 h
      obtain ⟨s, hs, -⟩ := bind_eq_ok.1 h
      have hrun := decidedRun_eq_ok.1 hs
      have hdead : ∀ s ∈ settled.run, isLive s.state = false := by
        rw [hrun, ← settleProviderFallback_run hrun h]
        exact hterminal
      obtain ⟨hadmitted, hop, rfl⟩ := reportResult_alone hsettled hdead
      obtain ⟨rfl, hfalls⟩ := fallback_alone (reportDecision_run now t r result) rfl h halone
      have hpasses := reportDecision_alone halone hover.wasOpen hdesired hkey
      have hnone : r.sourceRevision = none := by
        simpa [reportPassesOver, hok] using hpasses
      exact ⟨hop, hadmitted, by simp [reportOpPassesOver, hok, hnone, hfalls hnone]⟩

/-- A cancellation that leaves the task open. -/
theorem cancelRun_guards {note : Option String} {intervention : Option OperationalIntervention}
    {nativeTask : Option String} (h : cancelRun now t r note intervention nativeTask = .ok d)
    (hopen : d.task.closedAt = none) :
    r.credentialOperation = none ∧
      (nativeTask.all fun workId => t.task = .work workId ∧ t.activeRunId = some r.runId) = true ∧
      ¬(nativeTask.isSome = true ∧ deliveryWaiting t = true) := by
  simp only [cancelRun, ite_refused_eq_ok] at h
  obtain ⟨-, hop, -, hnative, h⟩ := h
  refine ⟨by simpa using hop, ?_, fun hclose => ?_⟩
  · cases nativeTask with
    | none => rfl
    | some workId => simpa using hnative
  · rw [if_pos hclose] at h
    rw [← Except.ok.inj h] at hopen
    cases hopen

theorem invalidateSourceRevision_desired {observedAt : List (String × String)}
    (h : invalidateSourceRevision now t r observedAt = .ok d) :
    d.run = none ∨ d.task.desiredRevision = none := by
  simp only [invalidateSourceRevision, ite_refused_eq_ok] at h
  obtain ⟨-, -, h⟩ := h
  split_ifs at h
  · exact .inl (by rw [← Except.ok.inj h])
  · obtain ⟨-, -, _, -, -, rfl⟩ := cancelRun_ok h
    exact .inr rfl
  · exact .inr (by rw [← Except.ok.inj h])
  · exact .inr (by rw [← Except.ok.inj h])

theorem RunOp.passesOver_of_ok {op : RunOp}
    (hlabel : (Step.onRun r.runId now cleanupId op).settling = true)
    (h : op.decide now t r eligibility = .ok d) (hover : PassedOver t r d) :
    op.passesOver now t r eligibility = true := by
  obtain ⟨desired, hbefore, hafter, hkey⟩ := hover.desired
  cases op with
  | report authority result claimFingerprint delivery publish => exact report_passesOver h hover
  | cancel note nativeTask intervention =>
    simp only [RunOp.passesOver, decide_eq_true_eq]
    exact cancelRun_guards h hover.isOpen
  | invalidateSource observedAt =>
    rcases invalidateSourceRevision_desired h with hnone | hnone
    · have hsettled := hover.settled
      rw [hnone] at hsettled
      cases hsettled
    · rw [hnone] at hafter
      cases hafter
  | sweepExpired =>
    simp only [RunOp.decide, expireLeaseAndRetry] at h
    obtain ⟨lost, hlost, -⟩ := bind_eq_ok.1 h
    obtain ⟨-, helapsed, -, hop, rfl⟩ := expireLeaseLoss_ok hlost
    rw [hlost] at h
    have hpasses := settleLostAndRetry_alone h hover.alone hover.wasOpen hbefore hkey
    simp [RunOp.passesOver, helapsed, hop, hpasses]
  | executorExited claimant =>
    simp only [RunOp.decide, executorExitedAndRetry] at h
    split_ifs at h with hretire
    · have hlive := hover.live
      rw [executorLoss_notLive hretire.1] at hlive
      cases hlive
    · obtain ⟨lost, hlost, -⟩ := bind_eq_ok.1 h
      obtain ⟨-, -, hop, rfl⟩ := executorLoss_ok hlost
      rw [hlost] at h
      have hpasses := settleLostAndRetry_alone h hover.alone hover.wasOpen hbefore hkey
      have hclaimant : isExitClaimant r claimant = true := by
        simp only [executorLoss, ite_refused_eq_ok, not_not] at hlost
        exact hlost.1
      simp [RunOp.passesOver, hclaimant, hop, hpasses]
  | _ => cases hlabel

/-- A finish that mints nothing for the desired revision. -/
theorem completion_passesOver {authority : Option ProviderFallbackAuthority}
    {id fingerprint : String} {restored : Bool} {sequence : Option Nat}
    (h : finishWithFallback authority id fingerprint restored sequence now t r eligibility = .ok d)
    (hover : PassedOver t r d) :
    completionPassesOver authority now t r id fingerprint restored sequence eligibility = true := by
  obtain ⟨desired, hbefore, -, hkey⟩ := hover.desired
  obtain ⟨outcome, houtcome, hnext⟩ := bind_eq_ok.1 h
  obtain ⟨op, hop, hchange⟩ := changeCredentialOperation_ok houtcome
  cases hchange with
  | finish _ _ _ hpending =>
    have hplain : d.run = some { operationFinished r op restored op.claimFingerprint with
        updatedAt := now } := by
      cases authority with
      | none => rw [← Except.ok.inj hnext]
      | some authority =>
        simp only [hpending, if_true] at hnext
        rw [← Except.ok.inj hnext]
    have hdead := hover.terminal _ hplain
    rw [show (operationFinished r op restored op.claimFingerprint).state = r.state from rfl,
      hover.live] at hdead
    cases hdead
  | complete _ pending hmutation hpending hadmitted =>
    have hcompletes : completionAdmitted now t r id fingerprint restored
        (some op.mutationSequence) op pending = true := by
      simp only [completionAdmitted, decide_eq_true_eq]
      exact ⟨hop.names, hop.holds, hop.claimant, hmutation, trivial, hop.holds ▸ hadmitted⟩
    -- the finish leaves revision and delivery of the run alone
    have hpasses : d = reportDecision now t (operationFinished r op restored op.claimFingerprint)
        pending.result → reportPassesOver r pending.result r.delivery = true := by
      rintro rfl
      have hpasses : reportPassesOver (operationFinished r op restored op.claimFingerprint)
          pending.result (operationFinished r op restored op.claimFingerprint).delivery = true :=
        reportDecision_alone hover.alone hover.wasOpen hbefore hkey
      exact hpasses
    simp only [completionPassesOver, hop.operation, hpending, decide_eq_true_eq]
    cases authority with
    | none => exact ⟨hcompletes, hpasses (Except.ok.inj hnext).symm, rfl⟩
    | some authority =>
      have hsome : ¬r.credentialPendingResult = none := by simp [hpending]
      simp only [if_neg hsome] at hnext
      have hfrozen : (operationFinished r op restored op.claimFingerprint).frozen = r.frozen := rfl
      obtain ⟨hd, hfalls⟩ := fallback_alone (reportDecision_run now t _ pending.result) hfrozen
        hnext hover.alone
      have hpasses := hpasses hd
      refine ⟨hcompletes, hpasses, ?_⟩
      simp only [reportPassesOver, decide_eq_true_eq] at hpasses
      rcases hpasses with hnone | ⟨hok, -⟩
      · simp [hfalls hnone]
      · simp [fallsBack, RunResult.isProviderStop, hok]

theorem DirectOp.passesOver_of_ok {op : DirectOp}
    (hlabel : (Step.direct r.runId now op).settling = true)
    (h : op.decide now t r eligibility = .ok d) (hover : PassedOver t r d) :
    op.passesOver now t r eligibility = true := by
  obtain ⟨desired, hbefore, hafter, hkey⟩ := hover.desired
  cases op with
  | finishCredentialOperation authority id fingerprint restored sequence =>
    exact completion_passesOver h hover
  | rerouteQueued authority executorPipelines =>
    simp only [DirectOp.decide] at h
    split at h
    · exact absurd h refused_ne_ok
    simp only [rerouteQueuedRun, ite_refused_eq_ok] at h
    obtain ⟨-, -, -, h⟩ := h
    split at h
    · exact absurd h refused_ne_ok
    simp only [ite_refused_eq_ok] at h
    obtain ⟨-, h⟩ := h
    split at h
    · exact absurd h refused_ne_ok
    · exact absurd hover.alone (successor_mints rfl h)
  | cancelUnclaimedBefore notAfter note issue =>
    simp only [DirectOp.decide, cancelUnclaimed, ite_refused_eq_ok] at h
    obtain ⟨hissue, hclaimed, hnewer, h⟩ := h
    have hop := (cancelRun_guards h hover.isOpen).1
    simp only [DirectOp.passesOver, decide_eq_true_eq]
    refine ⟨hop, ?_, hclaimed, by simpa using hnewer⟩
    cases issue with
    | none => rfl
    | some issue => simpa using hissue
  | changeCredentialOperation id fingerprint change =>
    have hlive : ∀ s ∈ d.run, s.state = r.state → False := by
      intro s hs hstate
      have hdead := hover.terminal s hs
      rw [hstate, hover.live] at hdead
      cases hdead
    obtain ⟨op, -, hchange⟩ := changeCredentialOperation_ok h
    cases change with
    | finish restored sequence =>
      have hfinish : finishWithFallback none id fingerprint restored sequence now t r eligibility =
          .ok d := bind_eq_ok.2 ⟨d, h, rfl⟩
      exact completion_passesOver hfinish hover
    | prepare => cases hchange; exact (hlive _ rfl rfl).elim
    | acknowledge => cases hchange; exact (hlive _ rfl rfl).elim
    | retryRecovery => cases hchange; exact (hlive _ rfl rfl).elim
  | _ => cases hlabel

end PassedOver

/-! ### Steps -/

section Steps

variable {label : Step} {s s' : Store} {d : Decision} {w : World}

/-- The run that a terminal write of a run transaction is about. -/
theorem Effect.terminal_write {now : Time} {overrun : Prop} {r₀ r' : Run} {before : Option Task}
    (h : Effect label now none overrun (some r₀) before d) (hr' : d.run = some r')
    (hterminal : isLive r'.state = false) : r'.runId = r₀.runId := by
  have hmem : r' ∈ d.writes := by simp [Decision.writes, hr']
  rcases h.write_cases hmem with ⟨r, hr, hmove⟩ | hminted
  · rw [runId_of_frozen hmove.frozen, Option.some.inj hr]
  · rw [hminted.fresh.state] at hterminal
    cases hterminal

/-- A step that passes over a revision says so before it is taken. -/
theorem World.Coherent.passesOver (hw : w.Coherent) (hd : w.decision label = some d) {r r' : Run}
    {vt : VersionedTask} (hget : w.store.runs.get r.runId = some r)
    (hvt : w.store.tasks.get (taskKey r.task) = some vt) (hr' : d.run = some r')
    (hid : r'.runId = r.runId) (hsettling : label.settling = true)
    (hinternal : label.requestId = none) (hover : PassedOver vt.task r d) :
    label.passesOver w.store = true := by
  have hterminal := hover.terminal r' hr'
  cases label with
  | request => cases hinternal
  | onRun runId now cleanupId op =>
    obtain ⟨vt₀, r₀, d₀, hget₀, hvt₀, hdecide, hattach, heffect⟩ := hw.onRun_decided hd
    obtain rfl : r₀.runId = runId := hw.store.runKeyed hget₀
    rw [heffect.terminal_write hr' hterminal] at hid
    rw [hid, hget] at hget₀
    obtain rfl := Option.some.inj hget₀
    obtain rfl : vt = vt₀ := Option.some.inj (hvt.symm.trans hvt₀)
    have hpasses := op.passesOver_of_ok hsettling hdecide (hover.of_attach hattach)
    simp [Step.passesOver, Store.runState, Store.taskOf, hget, hvt, hover.awaitsOther] at hpasses ⊢
    exact hpasses
  | direct runId now op =>
    obtain ⟨vt₀, r₀, hget₀, hvt₀, hdecide, heffect⟩ := hw.direct_decided hd
    obtain rfl : r₀.runId = runId := hw.store.runKeyed hget₀
    rw [heffect.terminal_write hr' hterminal] at hid
    rw [hid, hget] at hget₀
    obtain rfl := Option.some.inj hget₀
    obtain rfl : vt = vt₀ := Option.some.inj (hvt.symm.trans hvt₀)
    have hpasses := op.passesOver_of_ok hsettling hdecide hover
    simp [Step.passesOver, Store.runState, Store.taskOf, hget, hvt, hover.awaitsOther] at hpasses ⊢
    exact hpasses
  | _ => cases hsettling

/-- A settlement alone, of a task that still wants another revision. -/
theorem SettledOnly.passedOver {t t' : Task} {r r' : Run} {outbox : List OutboxEntry}
    (h : SettledOnly t t' r r') (hr : isLive r.state = true) (hr' : isLive r'.state = false)
    (hopen : t'.closedAt = none) {desired : WorkRevision}
    (hdesired : t'.desiredRevision = some desired)
    (hkey : r.sourceRevision.map (·.key) ≠ some desired.key) :
    PassedOver t r { task := t', run := some r', outbox } := by
  refine ⟨hr, rfl, rfl, ?_, ?_, hopen, desired, ?_, hdesired, hkey⟩
  · rintro s ⟨rfl⟩
    exact hr'
  · rcases h.closed with hsame | hclosed
    · exact hsame ▸ hopen
    · rw [hopen] at hclosed
      cases hclosed
  · rcases h.desired with hsame | hnone
    · exact hsame ▸ hdesired
    · rw [hnone] at hdesired
      cases hdesired

/-- In a step that passes over nothing, a settlement alone is of the desired revision. -/
theorem World.Coherent.settled_desired (hw : w.Coherent) (hno : label.passesOver w.store = false)
    {now : Time} {admitted : Option (RequestSource × String)} {t t' : Task} {r r' : Run}
    {outbox : List OutboxEntry}
    (hd : w.decision label = some { task := t', run := some r', outbox })
    (hmove : Move label now r r') (hr : isLive r.state = true) (hr' : isLive r'.state = false)
    (h : SettledOnly t t' r r') (hinternal : admitted = none)
    (hget : w.store.runs.get r.runId = some r)
    (hbefore : (w.store.tasks.get (taskKey r.task)).map (·.task) = some t)
    (hadmits : Presents label w.store (taskKey t'.task) admitted) (hopen : t'.closedAt = none)
    {desired : WorkRevision} (hdesired : t'.desiredRevision = some desired) :
    r.sourceRevision.map (·.key) = some desired.key := by
  by_contra hkey
  obtain ⟨vt, hvt, rfl⟩ := Option.map_eq_some_iff.1 hbefore
  have hnone : label.requestId = none := by
    by_contra hne
    have hasked := hadmits.asked (Option.isSome_iff_ne_none.2 hne)
    rw [hinternal] at hasked
    cases hasked
  have hpasses := hw.passesOver hd hget hvt rfl (runId_of_frozen hmove.frozen)
    (hmove.settling hr hr') hnone (h.passedOver hr hr' hopen hdesired hkey)
  rw [hno] at hpasses
  cases hpasses

/-! ### The invariant -/

/-- An open, idle task that wants a revision has a run of it. -/
def Served (s : Store) : Prop :=
  ∀ k vt desired, s.tasks.get k = some vt → vt.task.closedAt = none →
    vt.task.desiredRevision = some desired → vt.task.activeRunId = none →
    ∃ id r, s.runs.get id = some r ∧ taskKey r.task = k ∧
      r.sourceRevision.map (·.key) = some desired.key

/-- A run of a revision stays one. -/
theorem Change.carries (hs : s.Coherent) (h : Change label s s') {k : String}
    {desired : WorkRevision} (hserved : ∃ id r, s.runs.get id = some r ∧ taskKey r.task = k ∧
      r.sourceRevision.map (·.key) = some desired.key) :
    ∃ id r, s'.runs.get id = some r ∧ taskKey r.task = k ∧
      r.sourceRevision.map (·.key) = some desired.key := by
  obtain ⟨id, r, hr, hkey, hrevision⟩ := hserved
  obtain ⟨now, r', hr', hmove⟩ := h.run_moves hs hr
  refine ⟨id, r', hr', ?_, ?_⟩
  · rw [task_of_frozen hmove.frozen, hkey]
  · rw [sourceRevision_of_frozen hmove.frozen, hrevision]

theorem World.Coherent.served (hw : w.Coherent) (hno : label.passesOver w.store = false)
    (hinv : Served w.store) : Served (w.step label).store := by
  intro k vt' desired hvt' hopen hdesired hfree
  have hchange := hw.change label
  cases hd : w.decision label with
  | none =>
    rw [(hw.undecided hd).tasks] at hvt'
    exact hchange.carries hw.store (hinv k vt' desired hvt' hopen hdesired hfree)
  | some d =>
    obtain ⟨now, admitted, subject, heffect, hsubject, hadmits, hwritten, -⟩ := hw.committed hd
    rw [hwritten.get_task] at hvt'
    split_ifs at hvt' with hk
    · obtain rfl := Option.some.inj hvt'
      subst hk
      have hstored : ∀ x ∈ d.writes, (w.step label).store.runs.get x.runId = some x := fun x hx =>
        hwritten.get_of_mem hw.store heffect hsubject hx
      generalize hbefore : (w.store.tasks.get (taskKey d.task.task)).map (·.task) = before
        at heffect
      cases heffect with
      | @touch _ t t' h =>
        obtain ⟨vt, hvt, rfl⟩ := Option.map_eq_some_iff.1 hbefore
        refine hchange.carries hw.store (hinv _ vt desired hvt ?_ ?_ (h.lock ▸ hfree))
        · rcases h.closed with hsame | ⟨-, hclosed⟩
          · exact hsame ▸ hopen
          · exact absurd hclosed (by simp [show t'.closedAt = none from hopen])
        · rcases h.desired with hsame | hnone | ⟨_, -, -, hlock⟩
          · exact hsame ▸ hdesired
          · exact absurd hdesired (by simp [hnone])
          · exact absurd hlock (by simp [← h.lock, show t'.activeRunId = none from hfree])
      | @rewrite t t' r r' outbox _ _ h =>
        obtain ⟨vt, hvt, rfl⟩ := Option.map_eq_some_iff.1 hbefore
        refine hchange.carries hw.store
          (hinv _ vt desired hvt (h.closed ▸ hopen) ?_ (h.lock ▸ hfree))
        rcases h.desired with hsame | hnone
        · exact hsame ▸ hdesired
        · exact absurd hdesired (by simp [hnone])
      | @settle t t' r r' outbox hmove hr hr' h hout hnodup hinternal =>
        obtain ⟨hget, hkey⟩ := hsubject r rfl
        have hrevision := hw.settled_desired hno hd hmove hr hr' h hinternal hget
          (hkey ▸ hbefore) hadmits hopen hdesired
        exact hchange.carries hw.store ⟨r.runId, r, hget, hkey, hrevision⟩
      | mint old dropped m hwrites hmove hkey hfirst hfree' hminted =>
        rw [hminted.lock] at hfree
        cases hfree
    · exact hchange.carries hw.store (hinv k vt' desired hvt' hopen hdesired hfree)

/-- The step brings the run into the store. -/
def World.Mints (w : World) (label : Step) (m : Run) : Prop :=
  w.store.runs.get m.runId = none ∧ (w.step label).store.runs.get m.runId = some m

/-- The run minted beside a settlement is of the revision its task wants. -/
theorem Origin.mints_desired {admitted : Option (RequestSource × String)} {before : Option Task}
    {r r' m : Run} {t' : Task} (h : Origin admitted before (some (r, r')) t' m)
    (hr : isLive r.state = true) (hopen : t'.closedAt = none) {desired : WorkRevision}
    (hdesired : t'.desiredRevision = some desired) (hsome : r.sourceRevision.isSome = true)
    (hkey : r.sourceRevision.map (·.key) ≠ some desired.key) : m.sourceRevision = some desired := by
  cases h with
  | request _ hsame => rw [← hsame, hdesired]
  | fallback _ _ _ _ _ _ hnone =>
    rw [hnone] at hdesired
    cases hdesired
  | correction _ _ _ hold hdead =>
    obtain ⟨rfl, -⟩ := Prod.mk.inj (Option.some.inj hold)
    rw [hr] at hdead
    cases hdead
  | retry _ _ t hold _ _ _ _ hsame hclosed _ _ hrevision =>
    obtain ⟨rfl, -⟩ := Prod.mk.inj (Option.some.inj hold)
    rcases hrevision (hclosed ▸ hopen) desired (hsame ▸ hdesired) with hnone | hown
    · rw [hnone] at hsome
      cases hsome
    · exact absurd hown hkey
  | supersede _ _ _ _ _ _ _ _ _ _ _ _ hrevision hsame =>
    rw [hsame] at hdesired
    rw [hrevision, Option.some.inj hdesired]

/-- A settlement of an older revision mints exactly one run, of the desired revision. -/
theorem World.Coherent.mints_desired (hw : w.Coherent) (hno : label.passesOver w.store = false)
    {id : String} {r r' : Run} (hr : w.store.runs.get id = some r)
    (hr' : (w.step label).store.runs.get id = some r') (hlive : isLive r.state = true)
    (hterminal : isLive r'.state = false) {vt' : VersionedTask}
    (hvt' : (w.step label).store.tasks.get (taskKey r.task) = some vt')
    (hopen : vt'.task.closedAt = none) {desired : WorkRevision}
    (hdesired : vt'.task.desiredRevision = some desired) (hsome : r.sourceRevision.isSome = true)
    (hkey : r.sourceRevision.map (·.key) ≠ some desired.key) :
    ∃ m, w.Mints label m ∧ m.sourceRevision = some desired ∧ taskKey m.task = taskKey r.task ∧
      ∀ m', w.Mints label m' → m' = m := by
  have hmoved : r' ≠ r := by
    rintro rfl
    rw [hlive] at hterminal
    cases hterminal
  obtain rfl : r.runId = id := hw.store.runKeyed hr
  have hid : r'.runId = r.runId := (hw.step label).store.runKeyed hr'
  cases hd : w.decision label with
  | none =>
    -- the lock is still held, so the run still lives
    rw [(hw.undecided hd).tasks] at hvt'
    have hlock := hw.store.mutex hr hvt' hlive
    obtain ⟨x, hx, hxlive, -⟩ := (hw.step label).store.holder ((hw.undecided hd).tasks ▸ hvt') hlock
    rw [Option.some.inj (hr'.symm.trans hx), hxlive] at hterminal
    cases hterminal
  | some d =>
    obtain ⟨now, admitted, subject, heffect, hsubject, hadmits, hwritten, -⟩ := hw.committed hd
    have hstored : ∀ x ∈ d.writes, (w.step label).store.runs.get x.runId = some x := fun x hx =>
      hwritten.get_of_mem hw.store heffect hsubject hx
    have hmem : r' ∈ d.writes := by
      rcases hwritten.get_cases hr' with ⟨hmem, -⟩ | ⟨hsame, -⟩
      · exact hmem
      · exact absurd (Option.some.inj (hsame.symm.trans hr)) hmoved
    -- the run the decision rewrites is this one
    have hown : ∀ {q}, subject = some q → Move label now q r' → q = r := by
      intro q hq hmove
      have hget := (hsubject q hq).1
      rw [← runId_of_frozen hmove.frozen, hid, hr] at hget
      exact (Option.some.inj hget).symm
    have hafter : ∀ {q}, subject = some q → q = r → vt'.task = d.task := by
      rintro q hq rfl
      rw [hwritten.get_task, if_pos (hsubject q hq).2] at hvt'
      rw [← Option.some.inj hvt']
    have hunstored : ∀ x, MintedHere ((w.store.tasks.get (taskKey d.task.task)).map (·.task)) d x →
        w.store.runs.get x.runId = none := fun x hx => hx.unstored hw.store
    generalize hbefore : (w.store.tasks.get (taskKey d.task.task)).map (·.task) = before
      at heffect hunstored
    cases heffect with
    | touch => simp [Decision.writes] at hmem
    | rewrite hmove hkept =>
      simp only [Decision.writes, Option.toList_some, List.append_nil, List.mem_singleton] at hmem
      subst hmem
      rw [hown rfl hmove, hlive, hterminal] at hkept
      cases hkept
    | settle hmove hq hq' h hout hnodup hinternal =>
      simp only [Decision.writes, Option.toList_some, List.append_nil, List.mem_singleton] at hmem
      subst hmem
      obtain rfl := hown rfl hmove
      have htask := hafter rfl rfl
      rw [htask] at hopen hdesired
      exact absurd (hw.settled_desired hno hd hmove hq hq' h hinternal hr
        ((hsubject _ rfl).2 ▸ hbefore) hadmits hopen hdesired) hkey
    | mint old dropped m hwrites hmove hkeys hfirst hfree hminted hdropped horigin
        _ _ hdispatch =>
      rcases (hwrites r').1 hmem with ⟨q, hq⟩ | rfl
      · obtain ⟨hsub, hmv, -, hqkey⟩ := hmove q r' hq
        obtain rfl := hown hsub hmv
        have htask := hafter hsub rfl
        rw [htask] at hopen hdesired
        refine ⟨m, ⟨hunstored m (hminted.here hdispatch), hstored m ((hwrites m).2 (.inr rfl))⟩, ?_,
          hqkey.symm, ?_⟩
        · subst hq
          exact horigin.mints_desired hlive hopen hdesired hsome hkey
        · rintro m' ⟨hnew, hm'⟩
          rcases hwritten.get_cases hm' with ⟨hmem', -⟩ | ⟨hsame, -⟩
          · rcases (hwrites m').1 hmem' with ⟨p, hp⟩ | rfl
            · obtain ⟨hpsub, hpmove, -⟩ := hmove p m' hp
              rw [runId_of_frozen hpmove.frozen, (hsubject p hpsub).1] at hnew
              cases hnew
            · rfl
          · rw [hsame] at hnew
            cases hnew
      · rw [hminted.fresh.state] at hterminal
        cases hterminal

end Steps

/-! ### Whole runs -/

/-- An open task without a live run that wants a revision has a run of it. -/
def Store.RevisionsServed (s : Store) : Prop :=
  ∀ k vt desired, s.tasks.get k = some vt → vt.task.closedAt = none →
    vt.task.desiredRevision = some desired →
    (∀ id r, s.runs.get id = some r → taskKey r.task = k → isLive r.state = false) →
    ∃ id r, s.runs.get id = some r ∧ taskKey r.task = k ∧
      r.sourceRevision.map (·.key) = some desired.key

/-- No step of the run passes over a desired revision. -/
def RevisionsHeeded (steps : List Step) : Prop :=
  Machine.Along World.step (fun w label => label.passesOver w.store = false) World.init steps

instance (steps : List Step) : Decidable (RevisionsHeeded steps) :=
  inferInstanceAs (Decidable (Machine.Along World.step _ World.init steps))

theorem World.served_run {steps : List Step} (h : RevisionsHeeded steps) :
    Served (World.init.run steps).store := by
  have hinv : (World.init.run steps).Coherent ∧ Served (World.init.run steps).store := by
    refine Machine.Along.invariant (fun w : World => w.Coherent ∧ Served w.store) ?_
      ⟨World.coherent_init, fun _ _ _ h => (by cases h)⟩ h
    rintro w label ⟨hw, hinv⟩ hno
    exact ⟨hw.step label, hw.served hno hinv⟩
  exact hinv.2

/-- Unless a settlement passes over the desired revision, no revision is lost: an open task without
a live run has a run of the revision it wants, and the next such step that settles a run of an older
revision mints exactly one run, for the revision its task wants then. -/
theorem World.revisions_served (steps : List Step) (h : RevisionsHeeded steps) :
    (World.init.run steps).store.RevisionsServed ∧
    ∀ label id r r' vt' desired, label.passesOver (World.init.run steps).store = false →
      (World.init.run steps).store.runs.get id = some r →
      ((World.init.run steps).step label).store.runs.get id = some r' →
      isLive r.state = true → isLive r'.state = false →
      ((World.init.run steps).step label).store.tasks.get (taskKey r.task) = some vt' →
      vt'.task.closedAt = none → vt'.task.desiredRevision = some desired →
      r.sourceRevision.isSome = true → r.sourceRevision.map (·.key) ≠ some desired.key →
      ∃ m, (World.init.run steps).Mints label m ∧ m.sourceRevision = some desired ∧
        taskKey m.task = taskKey r.task ∧ ∀ m', (World.init.run steps).Mints label m' → m' = m := by
  have hw := World.coherent_run steps
  refine ⟨?_, ?_⟩
  · intro k vt desired hvt hopen hdesired hidle
    refine World.served_run h k vt desired hvt hopen hdesired ?_
    by_contra hne
    obtain ⟨id, hlock⟩ := Option.ne_none_iff_exists'.1 hne
    obtain ⟨r, hr, hlive, hkey⟩ := hw.store.holder hvt hlock
    rw [hidle id r hr hkey] at hlive
    cases hlive
  · intro label id r r' vt' desired hno hr hr' hlive hterminal hvt' hopen hdesired hsome hkey
    exact hw.mints_desired hno hr hr' hlive hterminal hvt' hopen hdesired hsome hkey

/-- The request of a revision under its key. -/
def Sample.revised (key : String) : RequestInput :=
  { Sample.request "claude" with
    requestId := key, sourceRevision := some { key, input := [], observedAt := none } }

/-- A newer revision arrives while the run of an older one is claimed. -/
def Sample.outdated : List Step :=
  [.request 0 (Sample.revised "a"), .enqueueRun Sample.runId 1,
   .claimQueuedRun ["claude"] (Sample.claim 2), .request 3 (Sample.revised "b")]

/-- The report of the claimed run mints the newer revision. -/
theorem World.revisions_served_reported :
    (World.init.run (Sample.outdated ++ [.onRun Sample.runId 4 "cleanup" (.report none
      { ok := true, summary := none, ref := none, relatedRefs := none, message := none
        humanNeededActions := none } (some "token") none false)])).store.RevisionsServed :=
  (World.revisions_served _ (by decide +kernel)).1

/-- The claimed run is canceled. -/
def Sample.overtaken : List Step :=
  Sample.outdated ++ [.onRun Sample.runId 4 "cleanup" (.cancel none none none)]

/-- The cancellation of the claimed run loses the newer revision. -/
theorem World.canceled_not_served :
    ¬(World.init.run Sample.overtaken).store.RevisionsServed := by
  intro h
  have hwants : ((World.init.run Sample.overtaken).store.tasks.get "work:w").any (fun vt =>
      vt.task.closedAt = none ∧ vt.task.activeRunId = none ∧
        vt.task.desiredRevision.any fun desired => desired.key = "b") = true := by decide +kernel
  have hruns : ((World.init.run Sample.overtaken).store.runs.values.all fun r =>
      r.sourceRevision.map (·.key) ≠ some "b") = true := by decide +kernel
  have hs := (World.coherent_run Sample.overtaken).store
  obtain ⟨vt, hvt, hstate⟩ := (Option.any_eq_true _ _).1 hwants
  rw [decide_eq_true_eq] at hstate
  obtain ⟨hopen, hfree, hdesired⟩ := hstate
  obtain ⟨desired, hdesired, hkey⟩ := (Option.any_eq_true _ _).1 hdesired
  rw [decide_eq_true_eq] at hkey
  have hidle : ∀ id r, (World.init.run Sample.overtaken).store.runs.get id = some r →
      taskKey r.task = "work:w" → isLive r.state = false := by
    intro id r hr htask
    by_contra hlive
    have hlock := hs.mutex hr (htask ▸ hvt) (by simpa using hlive)
    rw [hfree] at hlock
    cases hlock
  obtain ⟨id, r, hr, -, hrevision⟩ := h _ vt desired hvt hopen hdesired hidle
  have hother := List.all_eq_true.1 hruns r ((OrderedMap.mem_values_iff _ _).2 ⟨id, hr⟩)
  rw [decide_eq_true_eq] at hother
  exact hother (hkey ▸ hrevision)

end AgentLcars
