import AgentLcars.RequestEffect
import AgentLcars.SealedOperations

/-!
# Requests and transactions keep records sealed

Label handoffs, the forms of `Orchestrator.request`, and the operations that settle through a run
transaction.  A label's record is parsed before anything is decided, so what remains is that its
successor's run id and pipeline fit.
-/

namespace AgentLcars

variable {n : Nat} {now : Time} {t : Task} {r : Run} {d : Decision}

/-! ### Label handoff -/

/-- The bounded arguments of a label request. -/
structure LabelInput.Bounded (n : Nat) (input : LabelInput) : Prop where
  request : input.request.Bounded n
  requestedAt : isoUtc input.label.requestedAt
  parses : (labelRequest input).parses = true

theorem labelRequest_parses {input : LabelInput} (h : input.Bounded n) :
    ProviderRoutingSchema (labelRequest input) := by
  refine ⟨h.parses, h.requestedAt, fun generation hgeneration => ?_⟩
  obtain ⟨routing, hrouting, hgeneration⟩ := Option.bind_eq_some_iff.1 hgeneration
  have hstored := bind_of_sealed (P := ProviderRoutingSchema) h.request.task
    (fun _ ht => ht.providerRouting) routing hrouting
  exact hstored.accepted generation hgeneration

theorem rejectLabel_sealed {input : LabelInput} (hinput : input.Bounded n) {reason : String}
    (hreason : withinLength reason 128 = true) (h : rejectLabel input reason = .ok d) :
    d.Sealed n := by
  unfold rejectLabel at h
  split at h
  · exact absurd h refused_ne_ok
  rename_i task htask
  obtain rfl := Except.ok.inj h
  have ht := hinput.request.task task htask
  have hlabel := labelRequest_parses hinput
  refine .of_task ⟨{ ht.parses with
    providerRouting := ?_, updatedAt := hinput.request.now.iso }, ht.runCount, ht.consecutiveLost⟩
  intro routing hrouting
  obtain rfl := Option.some.inj hrouting
  refine { hlabel with parses := ?_ }
  have hparses := hinput.parses
  simp only [ProviderRouting.parses, decide_eq_true_eq] at hparses ⊢
  exact ⟨hparses.1, hparses.2.1, hparses.2.2.1, hparses.2.2.2.1, by simpa using hreason,
    hparses.2.2.2.2.2⟩

theorem acceptLabel_sealed {input : LabelInput} (hinput : input.Bounded n) (hd : d.Sealed n)
    {next : Decision} (h : acceptLabel input d = .ok next) : next.Sealed n := by
  obtain ⟨fresh, hfresh, h⟩ := bind_eq_ok.1 h
  obtain rfl := Except.ok.inj h
  have hrun := hd.run (decidedRun_eq_ok.1 hfresh)
  have hlabel := labelRequest_parses hinput
  refine ⟨⟨{ hd.task.parses with providerRouting := ?_ }, hd.task.runCount,
    hd.task.consecutiveLost⟩, hd.runs, hd.outbox⟩
  intro routing hrouting
  obtain rfl := Option.some.inj hrouting
  have hrunId : withinLength fresh.runId 1024 = true :=
    withinLength_mono hrun.parses.runId (by decide)
  refine { hlabel with parses := ?_, accepted := ?_ }
  · have hparses := hinput.parses
    simp only [ProviderRouting.parses, decide_eq_true_eq] at hparses ⊢
    exact ⟨hparses.1, hparses.2.1, hparses.2.2.1, hrun.parses.pipeline, hparses.2.2.2.2.1,
      hparses.2.2.2.2.2.1, decide_eq_true ⟨hrunId, hrun.parses.pipeline⟩⟩
  · intro generation hgeneration
    obtain rfl := Option.some.inj hgeneration
    exact hinput.requestedAt

theorem reason_within (reason : Reason) : withinLength reason.text 128 = true := by
  cases reason <;> decide

theorem labelObstacle_within {input : LabelInput} {reason : String}
    (h : labelObstacle input = some reason) : withinLength reason 128 = true := by
  unfold labelObstacle at h
  dsimp only at h
  split_ifs at h <;> obtain rfl := Option.some.inj h <;> decide

theorem labelledRequest_bounded {input : LabelInput} (hinput : input.Bounded n) :
    (labelledRequest input).Bounded n :=
  { hinput.request with }

theorem finishLabel_sealed {input : LabelInput} (hinput : input.Bounded n) {outcome : Outcome}
    (houtcome : ∀ d, outcome = .ok d → d.Sealed (n + 1))
    (h : finishLabel input outcome = .ok d) : d.Sealed (n + 1) := by
  have hlater : input.Bounded (n + 1) :=
    { hinput with request := { hinput.request with
        task := fun t ht => (hinput.request.task t ht).mono (Nat.le_succ n) } }
  unfold finishLabel at h
  split at h
  · exact rejectLabel_sealed hlater (reason_within _) h
  · cases h
  · exact acceptLabel_sealed hlater (houtcome _ rfl) h

theorem handoffNote_length {pipeline : String} (h : withinLength pipeline 128 = true) :
    jsLength ("Authorized label provider handoff to " ++ pipeline) ≤ 1024 := by
  have hprefix : jsLength "Authorized label provider handoff to " = 37 := by decide
  rw [withinLength_iff] at h
  rw [jsLength_append, hprefix]
  omega

theorem labelHandoff_sealed {input : LabelInput} (hinput : input.Bounded n)
    (hn : n + 1 ≤ MAX_SAFE_INTEGER) (ht : t.Sealed n) (hr : r.Sealed)
    (h : labelHandoff input t r = .ok d) : d.Sealed (n + 1) := by
  obtain ⟨canceled, hcanceled, h⟩ := bind_eq_ok.1 h
  obtain ⟨fresh, hfresh, h⟩ := bind_eq_ok.1 h
  obtain ⟨canceledRun, hrun, h⟩ := bind_eq_ok.1 h
  obtain rfl := Except.ok.inj h
  have hnote := handoffNote_length hinput.request.pipeline
  have hsettled := cancelRun_sealed ht hr hinput.request.now (by simpa using hnote) (by simp)
    hcanceled
  have hminted : fresh.Sealed (n + 1) := by
    refine requestRun_sealed ?_ hn hfresh
    exact { labelledRequest_bounded hinput with
      task := by simpa using hsettled.task, activeRun := by simp }
  exact hminted.beside (hsettled.mono (Nat.le_succ n)) (decidedRun_eq_ok.1 hrun) fun _ he => .inr he

theorem takeLabel_sealed {input : LabelInput} (hinput : input.Bounded n)
    (hn : n + 1 ≤ MAX_SAFE_INTEGER) (h : takeLabel input = .ok d) : d.Sealed (n + 1) := by
  have hplain : ∀ d, requestRun (labelledRequest input) = .ok d → d.Sealed (n + 1) :=
    fun _ => requestRun_sealed (labelledRequest_bounded hinput) hn
  unfold takeLabel at h
  split at h
  · rename_i task activeRun htask hactive
    split_ifs at h
    · exact (rejectLabel_sealed hinput (by decide) h).mono (Nat.le_succ n)
    · refine finishLabel_sealed hinput (fun d hd => ?_) h
      exact labelHandoff_sealed hinput hn (hinput.request.task task htask)
        (hinput.request.activeRun activeRun (Option.filter_eq_some_iff.1 hactive).1) hd
    · exact finishLabel_sealed hinput hplain h
  · exact finishLabel_sealed hinput hplain h

theorem decideLabelProviderRequest_sealed {input : LabelInput} (hrequest : input.request.Bounded n)
    (hrequestedAt : isoUtc input.label.requestedAt) (hn : n + 1 ≤ MAX_SAFE_INTEGER)
    (h : decideLabelProviderRequest input = .ok d) : d.Sealed (n + 1) := by
  unfold decideLabelProviderRequest at h
  simp only [ite_refused_eq_ok] at h
  obtain ⟨-, h⟩ := h
  split at h
  · cases h
  rename_i hparses
  have hinput : input.Bounded n := ⟨hrequest, hrequestedAt, not_not.1 hparses⟩
  split at h
  · rename_i task htask
    split at h
    · obtain rfl := Except.ok.inj h
      exact (Decision.Sealed.of_task (hrequest.task task htask)).mono (Nat.le_succ n)
    · rw [ite_refused_eq_ok] at h
      obtain ⟨-, h⟩ := h
      split at h
      · rename_i hobstacle
        exact (rejectLabel_sealed hinput (labelObstacle_within hobstacle) h).mono (Nat.le_succ n)
      · exact takeLabel_sealed hinput hn h
  · split at h
    · rename_i hobstacle
      exact (rejectLabel_sealed hinput (labelObstacle_within hobstacle) h).mono (Nat.le_succ n)
    · exact takeLabel_sealed hinput hn h

/-! ### Requests -/

/-- What the entry points of a request check. -/
structure RequestInput.Bounded (input : RequestInput) : Prop where
  taskId : taskIdSchema input.taskId = true
  requestId : withinLength input.requestId 128 = true
  requestBinding : ∀ binding ∈ input.requestBinding,
    withinLength binding.canonicalRequestId 128 = true
  pipeline : withinLength input.pipeline 128 = true
  params : ∀ params ∈ input.params, paramsSchema params
  intervention : ∀ i ∈ input.intervention, interventionSchema i = true
  work : ∀ work ∈ input.work, WorkPayloadSchema work
  issue : ∀ issue ∈ input.issue, TrackerIssueSchema issue
  sourceRevision : ∀ revision ∈ input.sourceRevision, WorkRevisionSchema revision
  providerFallback : ∀ policy ∈ input.providerFallback, policy.Bounded
  providerFallbackForPipeline : ∀ f ∈ input.providerFallbackForPipeline, ∀ pipeline,
    ∀ policy ∈ f pipeline, policy.Bounded
  labelProviderRequest : ∀ label ∈ input.labelProviderRequest, isoUtc label.requestedAt
  pipelineForStoredTask : ∀ f ∈ input.pipelineForStoredTask, ∀ task,
    withinLength (f task) 128 = true

/-- What a request transaction reads is sealed, and it resolves the request to a bounded id. -/
structure Store.RequestTransactionState.Sealed (n : Nat) (state : Store.RequestTransactionState) :
    Prop where
  task : ∀ vt ∈ state.task, vt.task.Sealed n
  activeRun : ∀ r ∈ state.activeRun, r.Sealed
  requestId : withinLength state.requestId 128 = true

theorem admittedPipeline_within {input : RequestInput} (hinput : input.Bounded)
    {task : Option VersionedTask} (htask : ∀ vt ∈ task, vt.task.Sealed n) :
    withinLength (input.admittedPipeline task) 128 = true := by
  unfold RequestInput.admittedPipeline
  dsimp only
  cases haccepted : ((task.bind (·.task.providerRouting)).bind (·.acceptedGeneration)) with
  | some generation =>
    obtain ⟨routing, hrouting, hgeneration⟩ := Option.bind_eq_some_iff.1 haccepted
    obtain ⟨vt, hvt, hrouting⟩ := Option.bind_eq_some_iff.1 hrouting
    have hparses := ((htask vt hvt).parses.providerRouting routing hrouting).parses
    simp only [ProviderRouting.parses, hgeneration, Option.all_some, decide_eq_true_eq] at hparses
    exact hparses.2.2.2.2.2.2.2
  | none =>
    cases hstored : task.bind fun vt => input.pipelineForStoredTask.map fun f => f vt.task with
    | none => exact hinput.pipeline
    | some pipeline =>
      obtain ⟨vt, -, hpipeline⟩ := Option.bind_eq_some_iff.1 hstored
      obtain ⟨f, hf, rfl⟩ := Option.map_eq_some_iff.1 hpipeline
      exact hinput.pipelineForStoredTask f hf vt.task

theorem args_bounded {input : RequestInput} (hinput : input.Bounded) (hnow : Roomy now)
    {state : Store.RequestTransactionState} (hstate : state.Sealed n) :
    (input.args now state).Bounded n where
  now := hnow
  task := by
    intro t ht
    obtain ⟨vt, hvt, rfl⟩ := Option.map_eq_some_iff.1 ht
    exact hstate.task vt hvt
  taskId := hinput.taskId
  activeRun := hstate.activeRun
  requestId := withinLength_mono hstate.requestId (by decide)
  pipeline := by
    unfold RequestInput.args RequestInput.effectivePipeline
    dsimp only
    split_ifs
    · exact admittedPipeline_within hinput hstate.task
    · exact hinput.pipeline
  params := hinput.params
  intervention := hinput.intervention
  work := hinput.work
  issue := by
    have hjoin : (input.args now state).issue.join = input.issue := by
      show (input.issue.map some).join = input.issue
      cases input.issue <;> rfl
    rw [hjoin]
    exact hinput.issue
  providerFallback := by
    intro policy hpolicy
    obtain ⟨given, hgiven, rfl⟩ := Option.map_eq_some_iff.1 hpolicy
    split at hgiven
    · exact hinput.providerFallback given hgiven
    · rename_i f hf
      exact hinput.providerFallbackForPipeline f hf _ given hgiven
  sourceRevision := by simp [RequestInput.args]
  revisionAttempt := by simp [RequestInput.args]

theorem replaceQueuedRun_sealed {args : RequestRunInput} (hargs : args.Bounded n)
    (hn : n + 1 ≤ MAX_SAFE_INTEGER) {pipeline replaced : String}
    (hpipeline : withinLength pipeline 128 = true)
    (h : replaceQueuedRun args pipeline replaced = .ok d) : d.Sealed (n + 1) := by
  have hnote : jsLength ("queued provider switch to " ++ pipeline) ≤ 1024 := by
    have hprefix : jsLength "queued provider switch to " = 26 := by decide
    rw [withinLength_iff] at hpipeline
    rw [jsLength_append, hprefix]
    omega
  unfold replaceQueuedRun at h
  split at h
  · rename_i task activeRun htask hactive
    simp only [ite_refused_eq_ok] at h
    obtain ⟨-, -, -, h⟩ := h
    obtain ⟨canceled, hcanceled, h⟩ := bind_eq_ok.1 h
    obtain ⟨replacement, hreplacement, h⟩ := bind_eq_ok.1 h
    obtain ⟨canceledRun, hrun, h⟩ := bind_eq_ok.1 h
    obtain rfl := Except.ok.inj h
    have hsettled := cancelRun_sealed (hargs.task task htask) (hargs.activeRun activeRun hactive)
      hargs.now (by simpa using hnote) (by simp) hcanceled
    have hminted : replacement.Sealed (n + 1) := by
      refine requestRun_sealed ?_ hn hreplacement
      exact { hargs with task := by simpa using hsettled.task, activeRun := by simp }
    exact hminted.beside (hsettled.mono (Nat.le_succ n)) (decidedRun_eq_ok.1 hrun)
      fun e he => List.mem_append.1 he
  · exact absurd h refused_ne_ok

theorem decideRequest_sealed {input : RequestInput} (hinput : input.Bounded) (hnow : Roomy now)
    (hn : n + 1 ≤ MAX_SAFE_INTEGER) {state : Store.RequestTransactionState}
    (hstate : state.Sealed n) (h : decideRequest input now state = .ok d) : d.Sealed (n + 1) := by
  have hargs := args_bounded hinput hnow hstate
  obtain ⟨-, -, h⟩ := decideRequest_ok h
  unfold admitRequest at h
  dsimp only at h
  split at h
  · rename_i label hlabel
    exact decideLabelProviderRequest_sealed hargs (hinput.labelProviderRequest label hlabel) hn h
  split at h
  · exact replaceQueuedRun_sealed hargs hn hinput.pipeline h
  split at h
  · exact requestRun_sealed hargs hn h
  · rename_i revision hrevision
    exact requestRevisionRun_sealed hargs hn (hinput.sourceRevision revision hrevision) h

/-! ### Operations on a run -/

/-- What the entry points of a run operation check. -/
def RunOp.Bounded : RunOp → Prop
  | .observeStartupPlacement _ observation => observation.Bounded
  | .observePlacement _ placement => RunPlacementSchema placement
  | .observeDelivery observation _ => observation.Bounded
  | .report _ result _ delivery _ =>
    RunResultSchema result ∧ ∀ binding ∈ delivery, DeliveryBindingSchema binding
  | .cancel note _ intervention =>
    (∀ text ∈ note, jsLength text ≤ 1024) ∧ ∀ i ∈ intervention, interventionSchema i = true
  | .invalidateSource observedAt => observedAtSchema observedAt
  | .confirmDispatch | .renew _ _ | .sweepExpired | .executorExited _ => True

theorem reportedRun_sealed (hr : r.Sealed) {result : RunResult} {delivery : Option DeliveryBinding}
    (hdelivery : ∀ binding ∈ delivery, DeliveryBindingSchema binding) (publish : Bool) :
    (reportedRun r result delivery publish).Sealed := by
  refine ⟨{ hr.parses with delivery := ?_ }, hr.events, hr.updatedAt, hr.claimedAt, hr.operation,
    hr.policy⟩
  intro binding hbinding
  rcases Option.or_eq_some_iff.1 hbinding with hbinding | ⟨-, hbinding⟩
  · exact hdelivery binding hbinding
  · exact hr.parses.delivery binding hbinding

theorem plainReport_sealed (ht : t.Sealed n) (hr : r.Sealed) (hnow : Roomy now)
    (hn : n + 1 ≤ MAX_SAFE_INTEGER) {result : RunResult} {claimFingerprint : Option String}
    {delivery : Option DeliveryBinding} {publish : Bool} (hresult : RunResultSchema result)
    (hdelivery : ∀ binding ∈ delivery, DeliveryBindingSchema binding)
    (h : plainReport now t r result claimFingerprint delivery publish = .ok d) :
    d.Sealed (n + 1) := by
  obtain ⟨-, h⟩ := ite_refused_eq_ok.1 h
  exact reportResult_sealed ht (reportedRun_sealed hr hdelivery publish) hnow hn hresult h

theorem RunOp.decide_sealed {op : RunOp} (hop : op.Bounded) (ht : t.Sealed n) (hr : r.Sealed)
    (hnow : Roomy now) (hn : n + 2 ≤ MAX_SAFE_INTEGER)
    {eligibility : Option QueueEligibilitySnapshot} (h : op.decide now t r eligibility = .ok d) :
    d.Sealed (n + 2) := by
  have hn1 : n + 1 ≤ MAX_SAFE_INTEGER := Nat.le_of_succ_le hn
  have hone : n + 1 ≤ n + 2 := Nat.le_succ (n + 1)
  have htwo : n ≤ n + 2 := Nat.le_add_right n 2
  cases op with
  | confirmDispatch => exact (confirmDispatch_sealed ht hr hnow h).mono htwo
  | observeStartupPlacement => exact (observeStartupPlacement_sealed ht hr hnow hop h).mono htwo
  | renew => exact (renewLease_sealed ht hr hnow h).mono htwo
  | observePlacement => exact (observePlacement_sealed ht hr hop h).mono htwo
  | observeDelivery => exact (advanceDelivery_sealed ht hr hnow hn1 hop h).mono hone
  | report authority result claimFingerprint delivery publish =>
    obtain ⟨hresult, hdelivery⟩ := hop
    have hplain : plainReport now t r result claimFingerprint delivery publish = .ok d →
        d.Sealed (n + 2) :=
      fun h => (plainReport_sealed ht hr hnow hn1 hresult hdelivery h).mono hone
    simp only [RunOp.decide] at h
    split at h
    · split at h
      · exact reportResultWithFallback_sealed ht hr hnow hn hresult h
      · exact hplain h
    · exact hplain h
  | cancel => exact (cancelRun_sealed ht hr hnow hop.1 hop.2 h).mono htwo
  | invalidateSource => exact (invalidateSourceRevision_sealed ht hr hnow hop h).mono htwo
  | sweepExpired => exact expireLeaseAndRetry_sealed ht hr hnow hn h
  | executorExited => exact executorExitedAndRetry_sealed ht hr hnow hn h

theorem attachCleanup_sealed {cleanupId : String} (hid : withinLength cleanupId 100 = true)
    (hd : d.Sealed n) {next : Decision} (h : attachCleanup r cleanupId d = .ok next) :
    next.Sealed n := by
  unfold attachCleanup at h
  split at h
  · rename_i settled tokenHash hsettled _
    split at h
    · obtain rfl := Except.ok.inj h
      exact hd
    · obtain ⟨cleanup, hcleanup, h⟩ := bind_eq_ok.1 h
      obtain rfl := Except.ok.inj h
      have hrun := hd.run hsettled
      have hreserved := reserveCredentialOperation_sealed hd.task hrun hrun.updatedAt hid hcleanup
      refine ⟨hd.task, fun x hx => ?_, hd.outbox⟩
      simp only [Decision.writes, List.mem_append, Option.mem_toList] at hx
      rcases hx with hx | hx
      · exact hreserved.run hx
      · exact hd.runs x (by simp [Decision.writes, hx])
  · obtain rfl := Except.ok.inj h
    exact hd

/-- What a run transaction reads is sealed. -/
structure Store.RunTransactionState.Sealed (n : Nat) (state : Store.RunTransactionState) : Prop where
  task : ∀ vt ∈ state.task, vt.task.Sealed n
  run : ∀ r ∈ state.run, r.Sealed

theorem decideOnRun_sealed {op : RunOp} (hop : op.Bounded) (hnow : Roomy now)
    (hn : n + 2 ≤ MAX_SAFE_INTEGER) {cleanupId : String} (hid : withinLength cleanupId 100 = true)
    {state : Store.RunTransactionState} (hstate : state.Sealed n)
    (h : decideOnRun op now cleanupId state = .ok d) : d.Sealed (n + 2) := by
  unfold decideOnRun at h
  split at h
  · rename_i task run htask hrun
    obtain ⟨decision, hdecision, h⟩ := bind_eq_ok.1 h
    exact attachCleanup_sealed hid (RunOp.decide_sealed hop (hstate.task task htask)
      (hstate.run run hrun) hnow hn hdecision) h
  · exact absurd h refused_ne_ok

/-! ### Plain run transactions -/

/-- What the entry points of a plain run transaction check. -/
def DirectOp.Bounded : DirectOp → Prop
  | .cancelUnclaimedBefore _ note _ => ∀ text ∈ note, jsLength text ≤ 1024
  | .reserveCredentialOperation _ id _ => withinLength id 100 = true
  | .changeCredentialOperation _ _ change => change.Bounded
  | .finishCredentialOperation _ _ _ _ _ | .rerouteQueued _ _ | .recordTriagePublication _ => True

theorem finishWithFallback_sealed (ht : t.Sealed n) (hr : r.Sealed) (hnow : Roomy now)
    (hn : n + 2 ≤ MAX_SAFE_INTEGER) {authority : Option ProviderFallbackAuthority}
    {operationId claimFingerprint : String} {restored : Bool} {sequence : Option Nat}
    {eligibility : Option QueueEligibilitySnapshot}
    (h : finishWithFallback authority operationId claimFingerprint restored sequence now t r
      eligibility = .ok d) : d.Sealed (n + 2) := by
  have hn1 : n + 1 ≤ MAX_SAFE_INTEGER := Nat.le_of_succ_le hn
  obtain ⟨outcome, houtcome, h⟩ := bind_eq_ok.1 h
  have hfinished : outcome.Sealed (n + 1) :=
    changeCredentialOperation_sealed ht hr hnow hn1 (by trivial) houtcome
  have hstands : outcome.Sealed (n + 2) := hfinished.mono (Nat.le_succ _)
  split at h
  · obtain rfl := Except.ok.inj h
    exact hstands
  split at h
  · obtain rfl := Except.ok.inj h
    exact hstands
  · exact settleProviderFallback_sealed hfinished hnow hn h

theorem publishTriage_sealed (ht : t.Sealed n) (hr : r.Sealed) (hnow : Roomy now)
    {state : Option PublicationState} (h : publishTriage state now t r = .ok d) : d.Sealed n := by
  unfold publishTriage at h
  split at h
  · exact absurd h refused_ne_ok
  split at h
  · obtain rfl := Except.ok.inj h
    exact .of_run ht hr (by simp)
  · obtain rfl := Except.ok.inj h
    exact .of_run ht (hr.touch hnow _) (by simp)

theorem DirectOp.decide_sealed {op : DirectOp} (hop : op.Bounded) (ht : t.Sealed n) (hr : r.Sealed)
    (hnow : Roomy now) (hn : n + 2 ≤ MAX_SAFE_INTEGER)
    {eligibility : Option QueueEligibilitySnapshot} (h : op.decide now t r eligibility = .ok d) :
    d.Sealed (n + 2) := by
  have hn1 : n + 1 ≤ MAX_SAFE_INTEGER := Nat.le_of_succ_le hn
  have hone : n + 1 ≤ n + 2 := Nat.le_succ (n + 1)
  have htwo : n ≤ n + 2 := Nat.le_add_right n 2
  cases op with
  | finishCredentialOperation => exact finishWithFallback_sealed ht hr hnow hn h
  | rerouteQueued =>
    simp only [DirectOp.decide] at h
    split at h
    · exact absurd h refused_ne_ok
    · exact (rerouteQueuedRun_sealed ht hr hnow hn1 h).mono hone
  | cancelUnclaimedBefore notAfter note issue =>
    simp only [DirectOp.decide, cancelUnclaimed, ite_refused_eq_ok] at h
    obtain ⟨-, -, -, h⟩ := h
    exact (cancelRun_sealed ht hr hnow hop (by simp) h).mono htwo
  | reserveCredentialOperation =>
    exact (reserveCredentialOperation_sealed ht hr hnow hop h).mono htwo
  | changeCredentialOperation =>
    exact (changeCredentialOperation_sealed ht hr hnow hn1 hop h).mono hone
  | recordTriagePublication => exact (publishTriage_sealed ht hr hnow h).mono htwo

theorem decideDirect_sealed {op : DirectOp} (hop : op.Bounded) (hnow : Roomy now)
    (hn : n + 2 ≤ MAX_SAFE_INTEGER) {state : Store.RunTransactionState} (hstate : state.Sealed n)
    (h : decideDirect op now state = .ok d) : d.Sealed (n + 2) := by
  unfold decideDirect at h
  split at h
  · rename_i task run htask hrun
    exact DirectOp.decide_sealed hop (hstate.task task htask) (hstate.run run hrun) hnow hn h
  · exact absurd h refused_ne_ok

end AgentLcars
