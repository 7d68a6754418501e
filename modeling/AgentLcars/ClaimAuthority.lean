import AgentLcars.Coherence

/-!
# The authority of a claim

A claimed run belongs to the party whose token fingerprint its queue record holds.  Requests,
handoffs, invalidations, reroutes, cancellations of unclaimed runs and other claims all find the
claim and pass it by, and every callback that presents another fingerprint is refused.  Release and
re-claim rewrite the record in place; what counts is the record as it stands.
-/

namespace AgentLcars

/-- The run is live and claimed under the fingerprint. -/
structure HeldBy (r : Run) (tokenHash : String) : Prop where
  live : isLive r.state = true
  claimed : r.queueState = some .claimed
  token : r.tokenHash = some tokenHash

/-- The steps that want a run or its task without holding the claim. -/
def Step.competes : Step → Bool
  | .request _ _ | .onRun _ _ _ (.invalidateSource _) | .direct _ _ (.rerouteQueued _ _)
  | .direct _ _ (.cancelUnclaimedBefore _ _ _) | .enqueueRun _ _ | .claimQueuedRun _ _ => true
  | _ => false

/-- The fingerprint a callback presents. -/
def RunOp.fingerprint : RunOp → Option String
  | .observeStartupPlacement claimant _ | .observePlacement claimant _
  | .executorExited claimant => claimant.claimFingerprint
  | .renew claimFingerprint _ | .report _ _ claimFingerprint _ _ => claimFingerprint
  | _ => none

/-- The fingerprint a credential call presents. -/
def DirectOp.fingerprint : DirectOp → Option String
  | .finishCredentialOperation _ _ claimFingerprint _ _
  | .reserveCredentialOperation claimFingerprint _ _
  | .changeCredentialOperation _ claimFingerprint _ => some claimFingerprint
  | _ => none

/-- The run and the fingerprint a step presents. -/
def Step.presents : Step → Option (String × String)
  | .onRun runId _ _ op => op.fingerprint.map (runId, ·)
  | .direct runId _ op => op.fingerprint.map (runId, ·)
  | .releaseQueuedRunClaim runId _ tokenHash _ _ => some (runId, tokenHash)
  | _ => none

/-! ### Another fingerprint -/

section Stale

variable {now : Time} {t : Task} {r : Run} {tokenHash f : String} {d : Decision}
  {eligibility : Option QueueEligibilitySnapshot}

theorem HeldBy.not_claimant (h : HeldBy r tokenHash) (hf : f ≠ tokenHash) :
    isClaimant r f = false := by
  simp [isClaimant, h.token, hf.symm]

theorem reportResult_stale {result : RunResult} (hstale : isClaimant r f = false) :
    reportResult now t r result (some f) ≠ .ok d := by
  unfold reportResult
  rw [if_pos (by simp [hstale])]
  exact refused_ne_ok

theorem isObservingClaimant_stale {queue : RunQueue} {claimant : ExitClaimant}
    (hstale : isClaimant r f = false) (hf : claimant.claimFingerprint = some f) :
    isObservingClaimant r queue claimant = false := by
  simp [isObservingClaimant, hf, hstale]

/-- Callbacks under another fingerprint are refused. -/
theorem RunOp.stale {op : RunOp} (hheld : HeldBy r tokenHash) (hne : f ≠ tokenHash)
    (hf : op.fingerprint = some f) : op.decide now t r eligibility ≠ .ok d := by
  have hstale := hheld.not_claimant hne
  cases op with
  | observeStartupPlacement claimant observation =>
    simp only [RunOp.decide, AgentLcars.observeStartupPlacement]
    split
    · exact refused_ne_ok
    split
    · exact refused_ne_ok
    · rw [if_pos (.inl (by simp [isObservingClaimant_stale hstale hf]))]
      exact refused_ne_ok
  | renew claimFingerprint started =>
    simp only [RunOp.fingerprint] at hf
    simp only [RunOp.decide, renewLease, hf]
    rw [if_pos (by simp [hstale])]
    exact refused_ne_ok
  | observePlacement claimant placement =>
    simp only [RunOp.decide, AgentLcars.observePlacement]
    split
    · exact refused_ne_ok
    · rw [if_pos (by simp [isObservingClaimant_stale hstale hf])]
      exact refused_ne_ok
  | report authority result claimFingerprint delivery publish =>
    simp only [RunOp.fingerprint] at hf
    subst hf
    have hplain : plainReport now t r result (some f) delivery publish ≠ .ok d := by
      unfold plainReport
      split_ifs
      · exact refused_ne_ok
      · exact reportResult_stale (show isClaimant (reportedRun r result delivery publish) f = false
          from hstale)
    simp only [RunOp.decide]
    split
    · split_ifs
      · intro h
        obtain ⟨settled, hsettled, -⟩ := bind_eq_ok.1 h
        exact reportResult_stale hstale hsettled
      · exact hplain
    · exact hplain
  | executorExited claimant =>
    simp only [RunOp.fingerprint] at hf
    have hexit : isExitClaimant r claimant = false := by
      unfold isExitClaimant
      split
      · rfl
      · rename_i queue hqueue
        have htoken : queue.tokenHash = some tokenHash := by
          simpa [Run.tokenHash, hqueue] using hheld.token
        simp [hf, htoken, hne.symm]
    have hloss : executorLoss now t r claimant = refused .notClaimant := by
      unfold executorLoss
      rw [if_pos (by simp [hexit])]
    simp only [RunOp.decide, executorExitedAndRetry, hloss]
    rw [if_neg (by simp [refusalReason, refused])]
    intro h
    obtain ⟨lost, hlost, -⟩ := bind_eq_ok.1 h
    exact absurd hlost refused_ne_ok
  | _ => cases hf

/-- Credential calls under another fingerprint are refused. -/
theorem DirectOp.stale {op : DirectOp} (hheld : HeldBy r tokenHash) (hne : f ≠ tokenHash)
    (hf : op.fingerprint = some f) : op.decide now t r eligibility ≠ .ok d := by
  have hstale := hheld.not_claimant hne
  have hchange : ∀ id change d, AgentLcars.changeCredentialOperation now t r id f change ≠ .ok d := by
    intro id change d
    unfold AgentLcars.changeCredentialOperation
    split
    · exact refused_ne_ok
    · rw [if_pos (.inr (.inr (by simp [hstale])))]
      exact refused_ne_ok
  cases op with
  | finishCredentialOperation authority id claimFingerprint restored sequence =>
    obtain rfl : claimFingerprint = f := Option.some.inj hf
    simp only [DirectOp.decide, finishWithFallback]
    intro h
    obtain ⟨outcome, houtcome, -⟩ := bind_eq_ok.1 h
    exact hchange _ _ _ houtcome
  | reserveCredentialOperation claimFingerprint id kind =>
    obtain rfl : claimFingerprint = f := Option.some.inj hf
    simp only [DirectOp.decide, AgentLcars.reserveCredentialOperation]
    rw [if_pos (.inr (by simp [hstale]))]
    exact refused_ne_ok
  | changeCredentialOperation id claimFingerprint change =>
    obtain rfl : claimFingerprint = f := Option.some.inj hf
    exact hchange _ _ _
  | _ => cases hf

/-- A step that presents another fingerprint leaves the store unchanged. -/
theorem World.Coherent.stale {w : World} (hw : w.Coherent) {id : String}
    (hr : w.store.runs.get id = some r) (hheld : HeldBy r tokenHash) (hne : f ≠ tokenHash)
    {label : Step} (hlabel : label.presents = some (id, f)) :
    (w.step label).store = w.store := by
  cases label with
  | onRun runId now cleanupId op =>
    obtain ⟨f', hf, hpair⟩ := Option.map_eq_some_iff.1 hlabel
    obtain ⟨rfl, rfl⟩ := Prod.mk.inj hpair
    refine World.onRun_refused (Option.eq_none_iff_forall_ne_some.2 fun d hd => ?_)
    obtain ⟨vt, r', d₀, hr', -, hdecide, -⟩ := hw.onRun_decided hd
    obtain rfl := Option.some.inj (hr'.symm.trans hr)
    exact op.stale hheld hne hf hdecide
  | direct runId now op =>
    obtain ⟨f', hf, hpair⟩ := Option.map_eq_some_iff.1 hlabel
    obtain ⟨rfl, rfl⟩ := Prod.mk.inj hpair
    refine World.direct_refused (Option.eq_none_iff_forall_ne_some.2 fun d hd => ?_)
    obtain ⟨vt, r', hr', -, hdecide, -⟩ := hw.direct_decided hd
    obtain rfl := Option.some.inj (hr'.symm.trans hr)
    exact op.stale hheld hne hf hdecide
  | releaseQueuedRunClaim runId claimedBy token now deferredUntil =>
    obtain ⟨rfl, rfl⟩ := Prod.mk.inj (Option.some.inj hlabel)
    simp only [World.step, Store.releaseQueuedRunClaim, hr]
    rw [if_pos (by simp [hheld.not_claimant hne])]
  | _ => cases hlabel

end Stale

/-! ### Competing steps -/

section Competing

variable {now : Time} {t : Task} {r : Run} {tokenHash : String} {d : Decision}

theorem HeldBy.filter (h : HeldBy r tokenHash) :
    ((some r).filter fun run => isLive run.state) = some r := by
  rw [Option.filter_some, if_pos h.live]

/-- A request is refused while the task has a live run. -/
theorem requestRun_held {input : RequestRunInput} (hactive : input.activeRun = some r)
    (hheld : HeldBy r tokenHash) : requestRun input ≠ .ok d := by
  unfold requestRun
  rw [hactive, hheld.filter]
  dsimp only
  split_ifs <;> exact refused_ne_ok

/-- A claimed run keeps a label from being taken. -/
theorem takeLabel_held {input : LabelInput} (hactive : input.request.activeRun = some r)
    (hheld : HeldBy r tokenHash) (h : takeLabel input = .ok d) : d.writes = [] := by
  have hrequest : ∀ d, requestRun (labelledRequest input) ≠ .ok d := fun d =>
    requestRun_held (show (labelledRequest input).activeRun = some r from hactive) hheld
  have hfinish : finishLabel input (requestRun (labelledRequest input)) = .ok d → d.writes = [] := by
    intro h
    unfold finishLabel at h
    split at h
    · exact rejectLabel_writes h
    · cases h
    · rename_i d' hd'
      exact absurd hd' (hrequest d')
  unfold takeLabel at h
  rw [hactive, hheld.filter] at h
  split at h
  · rename_i task activeRun _ hrun
    obtain rfl := Option.some.inj hrun
    split_ifs at h with hpipeline hqueued
    · exact rejectLabel_writes h
    · rw [hheld.claimed] at hqueued
      exact absurd (by decide) hqueued
    · exact hfinish h
  · exact hfinish h

theorem decideLabelProviderRequest_held {input : LabelInput}
    (hactive : input.request.activeRun = some r) (hheld : HeldBy r tokenHash)
    (h : decideLabelProviderRequest input = .ok d) : d.writes = [] := by
  simp only [decideLabelProviderRequest, ite_refused_eq_ok] at h
  obtain ⟨-, h⟩ := h
  split at h
  · cases h
  split at h
  · split at h
    · rw [← Except.ok.inj h]
      rfl
    split at h
    · exact absurd h refused_ne_ok
    split at h
    · exact rejectLabel_writes h
    · exact takeLabel_held hactive hheld h
  · split at h
    · exact rejectLabel_writes h
    · exact takeLabel_held hactive hheld h

theorem replaceQueuedRun_held {args : RequestRunInput} {pipeline replaced : String}
    (hactive : args.activeRun = some r) (hheld : HeldBy r tokenHash) :
    replaceQueuedRun args pipeline replaced ≠ .ok d := by
  intro h
  unfold replaceQueuedRun at h
  rw [hactive] at h
  split at h
  · rename_i task activeRun _ hrun
    obtain rfl := Option.some.inj hrun
    simp only [ite_refused_eq_ok] at h
    exact h.2.1 hheld.claimed
  · exact absurd h refused_ne_ok

/-- A newer revision is only recorded beside a claimed run. -/
theorem superviseRevision_held {args : RequestRunInput} {revision : WorkRevision}
    (hactive : args.activeRun = some r) (hheld : HeldBy r tokenHash)
    (h : superviseRevision args revision = .ok d) : d.writes = [] := by
  unfold superviseRevision at h
  rw [hactive, hheld.filter] at h
  split at h
  · rename_i task activeRun _ hrun
    obtain rfl := Option.some.inj hrun
    rw [if_pos hheld.claimed] at h
    rw [← Except.ok.inj h]
    rfl
  · exact absurd h (requestRun_held (r := r) rfl hheld)

theorem requestRevisionRun_held {args : RequestRunInput} {revision : WorkRevision}
    (hactive : args.activeRun = some r) (hheld : HeldBy r tokenHash)
    (h : requestRevisionRun args revision = .ok d) : d.writes = [] := by
  unfold requestRevisionRun at h
  split at h
  · simp only [ite_refused_eq_ok] at h
    obtain ⟨-, h⟩ := h
    split_ifs at h
    all_goals first
      | exact absurd h refused_ne_ok
      | exact superviseRevision_held hactive hheld h
      | (rw [← Except.ok.inj h]; rfl)
  · simp only [ite_refused_eq_ok] at h
    exact superviseRevision_held hactive hheld h.2
  · exact superviseRevision_held hactive hheld h

/-- No form of a request writes a run beside a claimed one. -/
theorem decideRequest_held {input : RequestInput} {state : Store.RequestTransactionState}
    (hactive : state.activeRun = some r) (hheld : HeldBy r tokenHash)
    (h : decideRequest input now state = .ok d) : d.writes = [] := by
  obtain ⟨-, -, h⟩ := decideRequest_ok h
  have hargs : (input.args now state).activeRun = some r := hactive
  unfold admitRequest at h
  dsimp only at h
  split at h
  · exact decideLabelProviderRequest_held hargs hheld h
  split at h
  · exact absurd h (replaceQueuedRun_held hargs hheld)
  split at h
  · exact absurd h (requestRun_held hargs hheld)
  · exact requestRevisionRun_held hargs hheld h

/-- An invalidation leaves the claimed run to its worker. -/
theorem invalidateSourceRevision_held {observedAt : List (String × String)} {cleanupId : String}
    {d₀ : Decision} (hheld : HeldBy r tokenHash)
    (h : invalidateSourceRevision now t r observedAt = .ok d₀)
    (hattach : attachCleanup r cleanupId d₀ = .ok d) :
    ∀ x ∈ d.writes, x.runId = r.runId ∧ HeldBy x tokenHash := by
  simp only [invalidateSourceRevision, ite_refused_eq_ok] at h
  obtain ⟨-, -, h⟩ := h
  split_ifs at h with hold hqueued
  · obtain rfl := Except.ok.inj h
    rw [attachCleanup_same (by simp)] at hattach
    obtain rfl := Except.ok.inj hattach
    simp [Decision.writes]
  · exact absurd hheld.claimed hqueued.2
  · obtain rfl := Except.ok.inj h
    rw [attachCleanup_same (by simp [hheld.live])] at hattach
    obtain rfl := Except.ok.inj hattach
    intro x hx
    obtain rfl : x = { r with triagePublication := some ⟨.superseded⟩, updatedAt := now } := by
      simpa [Decision.writes] using hx
    exact ⟨rfl, hheld.live, hheld.claimed, hheld.token⟩
  · obtain rfl := Except.ok.inj h
    rw [attachCleanup_same (by simp)] at hattach
    obtain rfl := Except.ok.inj hattach
    simp [Decision.writes]

/-- A claimed run is neither rerouted nor canceled as unclaimed. -/
theorem DirectOp.held {op : DirectOp} {runId : String} {eligibility : Option QueueEligibilitySnapshot}
    (hop : (Step.direct runId now op).competes = true) (hheld : HeldBy r tokenHash) :
    op.decide now t r eligibility ≠ .ok d := by
  cases op with
  | rerouteQueued authority executorPipelines =>
    simp only [DirectOp.decide]
    split
    · exact refused_ne_ok
    · unfold rerouteQueuedRun
      split_ifs with hlock hclaimed
      · exact refused_ne_ok
      · exact refused_ne_ok
      all_goals exact absurd hheld.claimed hclaimed
  | cancelUnclaimedBefore notAfter note issue =>
    simp only [DirectOp.decide, cancelUnclaimed]
    split_ifs with hissue hclaimed
    · exact refused_ne_ok
    · exact refused_ne_ok
    all_goals exact absurd hheld.claimed hclaimed
  | _ => cases hop

variable {w : World} (hw : w.Coherent) {id : String} (hr : w.store.runs.get id = some r)
  (hheld : HeldBy r tokenHash)
include hw hr hheld

/-- A request leaves the claimed run as it is. -/
theorem World.Coherent.request_held (now : Time) (input : RequestInput) :
    (w.step (.request now input)).store.runs.get id = some r := by
  cases hd : w.decision (.request now input) with
  | none =>
    rcases request_cases w.store now input with ⟨-, hunread, -⟩ | ⟨_, _, d, hok, -⟩
    · show (Orchestrator.request w.store now input).2.runs.get id = some r
      rw [hunread.runs]
      exact hr
    · simp [World.decision, hok, Except.toOption] at hd
  | some d =>
    by_cases hkey : taskKey r.task = taskKey d.task.task
    · obtain ⟨requestId, hdecide, heffect⟩ := hw.request_decided hd
      obtain ⟨vt, -, hvt, -⟩ := hw.store.counted hr
      have hasked : taskKey d.task.task = taskKey input.taskId := heffect.requested hw.store
      have hactive : (w.store.requestState input.read requestId).activeRun = some r := by
        show w.store.activeRun (w.store.tasks.get (taskKey input.taskId)) = some r
        rw [← hasked, ← hkey, Store.activeRun, hvt, Option.bind_some,
          hw.store.mutex hr hvt hheld.live, Option.bind_some, hr]
      have hwrites := decideRequest_held hactive hheld hdecide
      rw [(hw.stored hd).2.1 id (by simp [hwrites]), hr]
    · exact hw.other_task hd hr hkey

/-- No competing step moves the claimed run. -/
theorem World.Coherent.competing {label : Step} (hlabel : label.competes = true) :
    ∃ r', (w.step label).store.runs.get id = some r' ∧ HeldBy r' tokenHash := by
  have hid := hw.store.runKeyed hr
  cases label with
  | request now input => exact ⟨r, hw.request_held hr hheld now input, hheld⟩
  | onRun runId now cleanupId op =>
    by_cases hrunId : runId = id
    · subst hrunId
      cases hd : w.decision (.onRun runId now cleanupId op) with
      | none => exact ⟨r, by rw [World.onRun_refused hd]; exact hr, hheld⟩
      | some d =>
        obtain ⟨vt, q, d₀, hq, -, hdecide, hattach, -⟩ := hw.onRun_decided hd
        obtain rfl := Option.some.inj (hq.symm.trans hr)
        cases op with
        | invalidateSource observedAt =>
          have hwrites := invalidateSourceRevision_held hheld hdecide hattach
          obtain ⟨hstored, hsame, -⟩ := hw.stored hd
          by_cases hwritten : ∃ x ∈ d.writes, x.runId = runId
          · obtain ⟨x, hx, hxid⟩ := hwritten
            exact ⟨x, hxid ▸ hstored x hx, (hwrites x hx).2⟩
          · exact ⟨q, by rw [hsame _ fun x hx he => hwritten ⟨x, hx, he⟩]; exact hr, hheld⟩
        | _ => cases hlabel
    · exact ⟨r, hw.onRun_beside hr hrunId, hheld⟩
  | direct runId now op =>
    by_cases hrunId : runId = id
    · subst hrunId
      refine ⟨r, ?_, hheld⟩
      rw [World.direct_refused (Option.eq_none_iff_forall_ne_some.2 fun d hd => ?_)]
      · exact hr
      · obtain ⟨vt, q, hq, -, hdecide, -⟩ := hw.direct_decided hd
        obtain rfl := Option.some.inj (hq.symm.trans hr)
        exact DirectOp.held hlabel hheld hdecide
    · exact ⟨r, hw.direct_beside hr hrunId, hheld⟩
  | enqueueRun runId now =>
    refine ⟨r, ?_, hheld⟩
    simp only [World.step, Store.enqueueRun]
    split
    · exact hr
    rename_i q hq
    split_ifs with hqueue
    · exact hr
    · rw [OrderedMap.get_set_of_ne]
      · exact hr
      · rintro rfl
        obtain rfl := Option.some.inj (hq.symm.trans hr)
        have hclaimed := hheld.claimed
        simp [Run.queueState, Option.not_isSome_iff_eq_none.1 hqueue] at hclaimed
  | claimQueuedRun pipelines input =>
    refine ⟨r, ?_, hheld⟩
    simp only [World.step, Store.claimQueuedRun]
    split
    · exact hr
    rename_i candidate hcandidate
    obtain ⟨-, -, hselected, -⟩ := selectFairQueuedRun_eq_some hcandidate
    obtain ⟨hmem, hcandidate, -⟩ := mem_pipelineCandidates.1 hselected
    obtain ⟨i, hi⟩ := (OrderedMap.mem_values_iff _ _).1 hmem
    rw [OrderedMap.get_set_of_ne]
    · exact hr
    · rintro rfl
      rw [hw.store.runKeyed hi, hi] at hr
      obtain rfl := Option.some.inj hr
      simp only [isQueueAdmissionCandidate, decide_eq_true_eq] at hcandidate
      rw [hheld.claimed] at hcandidate
      exact absurd hcandidate.2.2.1 (by decide)
  | _ => cases hlabel

end Competing

/-! ### Runs of steps without the claim -/

/-- The step wants the run without its claim, or presents another fingerprint for it. -/
def Step.withoutClaim (id tokenHash : String) (label : Step) : Bool :=
  label.competes ∨ label.presents.any fun (runId, f) => runId = id ∧ f ≠ tokenHash

theorem World.Coherent.withoutClaim {w : World} (hw : w.Coherent) {id tokenHash : String} {r : Run}
    (hr : w.store.runs.get id = some r) (hheld : HeldBy r tokenHash) {label : Step}
    (hlabel : label.withoutClaim id tokenHash = true) :
    ∃ r', (w.step label).store.runs.get id = some r' ∧ HeldBy r' tokenHash := by
  simp only [Step.withoutClaim, decide_eq_true_eq] at hlabel
  rcases hlabel with hcompetes | hpresents
  · exact hw.competing hr hheld hcompetes
  · obtain ⟨⟨runId, f⟩, hpresented, hpair⟩ := (Option.any_eq_true _ _).1 hpresents
    simp only [decide_eq_true_eq] at hpair
    obtain ⟨rfl, hne⟩ := hpair
    exact ⟨r, by rw [hw.stale hr hheld hne hpresented]; exact hr, hheld⟩

/-- A claimed run stays with its claim through every step that has no part in it, and a callback
under another fingerprint leaves the store unchanged. -/
theorem World.claim_authority (steps : List Step) :
    let w := World.init.run steps
    ∀ id r tokenHash, w.store.runs.get id = some r → HeldBy r tokenHash →
      (∀ label, label.competes = true →
        ∃ r', (w.step label).store.runs.get id = some r' ∧ HeldBy r' tokenHash) ∧
      (∀ label f, label.presents = some (id, f) → f ≠ tokenHash → (w.step label).store = w.store) ∧
      ∀ rest, (∀ label ∈ rest, label.withoutClaim id tokenHash = true) →
        ∃ r', (w.run rest).store.runs.get id = some r' ∧ HeldBy r' tokenHash := by
  intro w id r tokenHash hr hheld
  have hw : w.Coherent := World.coherent_run steps
  refine ⟨fun label hlabel => hw.competing hr hheld hlabel,
    fun label f hlabel hne => hw.stale hr hheld hne hlabel, fun rest hrest => ?_⟩
  refine (Machine.Along.invariant (fun v : World => v.Coherent ∧
    ∃ r', v.store.runs.get id = some r' ∧ HeldBy r' tokenHash) ?_ ⟨hw, r, hr, hheld⟩
    (Machine.Along.of_forall_mem hrest)).2
  rintro v label ⟨hv, r', hr', hheld'⟩ hlabel
  exact ⟨hv.step label, hv.withoutClaim hr' hheld' hlabel⟩

/-- A claimed run is released and claimed again under a fresh token. -/
def Sample.reclaimed : List Step :=
  Sample.claimed "claude" ++ [.releaseQueuedRunClaim Sample.runId "runner" "token" 3 none,
    .claimQueuedRun ["claude"] { Sample.claim 4 with tokenHash := "fresh" }]

/-- The first token no longer renews the run, and a replacement does not get past the second. -/
theorem World.claim_authority_reclaimed :
    let w := World.init.run Sample.reclaimed
    (w.step (.onRun Sample.runId 5 "cleanup" (.renew (some "token") false))).store = w.store ∧
      ∃ r', (w.step (.request 5 { Sample.request "codex" with
        requestId := "q2", replaceQueuedRunId := some Sample.runId })).store.runs.get Sample.runId =
          some r' ∧ HeldBy r' "fresh" := by
  intro w
  have hstored : (w.store.runs.get Sample.runId).any (fun r => isLive r.state ∧
      r.queueState = some .claimed ∧ r.tokenHash = some "fresh") = true := by decide +kernel
  obtain ⟨r, hr, hheld⟩ := (Option.any_eq_true _ _).1 hstored
  rw [decide_eq_true_eq] at hheld
  obtain ⟨hcompeting, hstale, -⟩ := World.claim_authority Sample.reclaimed Sample.runId r "fresh" hr
    ⟨hheld.1, hheld.2.1, hheld.2.2⟩
  exact ⟨hstale _ "token" rfl (by decide), hcompeting _ rfl⟩

end AgentLcars
