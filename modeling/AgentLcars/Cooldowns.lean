import AgentLcars.Deferral

/-!
# Provider cooldowns over whole runs

Every commit derives the cooldown of every run it writes from that run's `updatedAt`.  For the run
that a report settles this is the settlement; but the claim of a settled run is still retired by an
exit, and its credentials are still cleaned up, and those writes derive its cooldown again.

* `Stops` is the settlement that the cooldown of a pipeline is meant to record.
* `Step.rederives` is a later write of a stopped run that records something else.
* `World.cooldown_of_last_stop`: in runs without such writes the cooldown of a pipeline is the one
  of its last stop.
-/

namespace AgentLcars

/-! ### Stops and later writes -/

/-- The run is settled, and its provider stopped it. -/
def Run.stopped (r : Run) : Bool :=
  r.state = .finished ∧ r.result.any RunResult.isProviderStop

/-- The step moves a run of the pipeline from live to finished with a provider stop, observed at
the clock of the step. -/
def Stops (p : String) (w : World) (label : Step) (c : ProviderCooldown) : Prop :=
  ∃ now r r' result, label.clock = some now ∧ w.store.runs.get r.runId = some r ∧
    (w.step label).store.runs.get r.runId = some r' ∧ r.pipeline = p ∧ isLive r.state = true ∧
    r'.state = .finished ∧ r'.result = some result ∧ result.isProviderStop = true ∧
    c = { pipeline := p, runId := r.runId, observedAt := now, expiresAt := cooldownExpiry p result now }

/-- The exit report of a settled run is accepted. -/
def exitRewrites (r : Run) (claimant : ExitClaimant) : Bool :=
  isExitClaimant r claimant ∧ r.queueState = some .claimed ∧ retiresOnExit r ∧
    (r.credentialOperation.isSome → usesCodexCredentials r)

/-- The reservation of an operation on a settled run is accepted. -/
def reservationRewrites (r : Run) (claimFingerprint : String) (kind : CredentialKind) : Bool :=
  usesCodexCredentials r ∧ isClaimant r claimFingerprint ∧ r.credentialOperation = none ∧
    kind = .cleanup

/-- The change is the next one for the operation. -/
def CredentialOperation.admits (op : CredentialOperation) : CredentialChange → Bool
  | .prepare mutation => mutation.id = mutationIdOf op.id (op.mutationSequence + 1) ∧
      op.mutationSequence < 100 ∧ op.mutation = none
  | .acknowledge mutationId _ => op.mutation.map (·.id) = some mutationId
  | .retryRecovery => true
  | .finish _ sequence => op.mutation = none ∧
      (op.kind = .cleanup → sequence = some op.mutationSequence)

/-- The change of an operation on a settled run is accepted. -/
def changeRewrites (r : Run) (id claimFingerprint : String) (change : CredentialChange) : Bool :=
  r.credentialOperation.any fun op => op.id = id ∧ op.claimFingerprint = claimFingerprint ∧
    isClaimant r claimFingerprint ∧ op.admits change

/-- The `updatedAt` that a step leaves on a settled run it writes: an exit keeps it, a credential
step replaces it by the clock. -/
def Step.restamps (label : Step) (r : Run) : Option Time :=
  match label with
  | .onRun _ _ _ (.executorExited claimant) =>
    if exitRewrites r claimant then some r.updatedAt else none
  | .direct _ now (.reserveCredentialOperation claimFingerprint _ kind) =>
    if reservationRewrites r claimFingerprint kind then some now else none
  | .direct _ now (.changeCredentialOperation id claimFingerprint change) =>
    if changeRewrites r id claimFingerprint change then some now else none
  | .direct _ now (.finishCredentialOperation _ id claimFingerprint restored sequence) =>
    if changeRewrites r id claimFingerprint (.finish restored sequence) then some now else none
  | _ => none

/-- The run a step is about. -/
def Step.subject : Step → Option String
  | .onRun runId _ _ _ | .direct runId _ _ => some runId
  | _ => none

/-- The cooldown of the run's pipeline is recorded, as a stop of this run at this time. -/
def Store.records (s : Store) (r : Run) (at_ : Time) : Bool :=
  (s.providerCooldowns.get r.pipeline).any fun c => c.runId = r.runId ∧ c.observedAt = at_

/-- The step writes a stopped run once more, while the cooldown of its pipeline names another run
or another time than the run will then have. -/
def Step.rederives (s : Store) (label : Step) : Bool :=
  (label.subject.bind s.runs.get).any fun r =>
    r.stopped ∧ (label.restamps r).any fun at_ => ¬s.records r at_

/-! ### The cooldown of one run -/

section Runs

variable {label : Step} {now : Time} {r r' : Run} {c : ProviderCooldown}

theorem providerCooldownForRun_eq_some : providerCooldownForRun r = some c ↔
    ∃ result, r.state = .finished ∧ r.result = some result ∧ result.isProviderStop = true ∧
      c = { pipeline := r.pipeline, runId := r.runId, observedAt := r.updatedAt
            expiresAt := cooldownExpiry r.pipeline result r.updatedAt } := by
  unfold providerCooldownForRun
  constructor
  · intro h
    split at h
    · rename_i result hresult
      split_ifs at h with hstop
      exact ⟨result, hstop.1, hresult, hstop.2, (Option.some.inj h).symm⟩
    · cases h
  · rintro ⟨result, hstate, hresult, hstop, rfl⟩
    simp [hstate, hresult, hstop]

theorem stopped_of_cooldown (h : providerCooldownForRun r = some c) : r.stopped = true := by
  obtain ⟨result, hstate, hresult, hstop, -⟩ := providerCooldownForRun_eq_some.1 h
  simp [Run.stopped, hstate, hresult, hstop]

theorem Run.stopped_state (h : r.stopped = true) : r.state = .finished := by
  simp only [Run.stopped, decide_eq_true_eq] at h
  exact h.1

theorem Run.stopped_terminal (h : r.stopped = true) : isLive r.state = false := by
  rw [Run.stopped_state h]
  rfl

theorem Run.stopped_failed (h : r.stopped = true) : r.result.any (·.ok) = false := by
  simp only [Run.stopped, decide_eq_true_eq] at h
  obtain ⟨result, hresult, hstop⟩ := (Option.any_eq_true _ _).1 h.2
  simp only [RunResult.isProviderStop, decide_eq_true_eq] at hstop
  simp [hresult, hstop.1]

/-- A terminal run keeps everything its cooldown is derived from, but for the time. -/
theorem Move.cooldown_restamped (hmove : Move label now r r') (hr : isLive r.state = false)
    (at_ : Time) : providerCooldownForRun { r' with updatedAt := at_ } =
      providerCooldownForRun { r with updatedAt := at_ } := by
  obtain ⟨hstate, hresult⟩ := hmove.terminal hr
  simp only [providerCooldownForRun, hstate, hresult, pipeline_of_frozen hmove.frozen,
    runId_of_frozen hmove.frozen]

/-- A settlement is stamped with the clock. -/
theorem Move.settled_at (hmove : Move label now r r') (hr : isLive r.state = true)
    (hr' : isLive r'.state = false) : r'.updatedAt = now := by
  have hne : ¬isLive r.state = false := by simp [hr]
  cases hmove with
  | settle _ _ hs hc =>
    cases hs <;> cases hc <;> rfl
  | complete => rfl
  | confirm => cases hr'
  | _ => exact absurd hr' hne

end Runs

/-! ### Which operations write a stopped run -/

section Operations

variable {now : Time} {t : Task} {r x : Run} {d : Decision}
  {eligibility : Option QueueEligibilitySnapshot}

theorem advanceDelivery_refuses {observation : DeliveryObservation} {authorized : Bool}
    (hfailed : r.result.any (·.ok) = false) :
    advanceDelivery now t r observation authorized ≠ .ok d := by
  intro h
  simp only [advanceDelivery, ite_refused_eq_ok] at h
  obtain ⟨-, h⟩ := h
  split at h
  · exact absurd h refused_ne_ok
  · simp only [ite_refused_eq_ok] at h
    have hbinding := h.1
    simp [observesBinding, hfailed] at hbinding

theorem executorExited_restamps {claimant : ExitClaimant} (hr : isLive r.state = false)
    (h : executorExitedAndRetry now t r claimant = .ok d) (hx : x ∈ d.writes) :
    exitRewrites r claimant = true ∧ x.updatedAt = r.updatedAt := by
  unfold executorExitedAndRetry at h
  dsimp only at h
  split_ifs at h with hretire
  · obtain ⟨hrefused, hclaimed⟩ := hretire
    have hclaimant : isExitClaimant r claimant = true := by
      by_contra hne
      simp [executorLoss, hne, refusalReason, refused] at hrefused
    unfold retireSettledClaim at h
    split at h
    · exact absurd h refused_ne_ok
    simp only [ite_refused_eq_ok, not_not] at h
    obtain ⟨hretires, h⟩ := h
    simp only [exitRewrites, decide_eq_true_eq]
    by_cases hop : r.credentialOperation.isSome = true
    · simp only [hop, if_true, ite_refused_eq_ok, not_not] at h
      obtain ⟨hcodex, h⟩ := h
      obtain rfl := Except.ok.inj h
      refine ⟨⟨hclaimant, hclaimed, hretires, fun _ => hcodex⟩, ?_⟩
      simp only [Decision.writes, Option.toList_some, List.append_nil, List.mem_singleton] at hx
      subst hx
      split_ifs <;> rfl
    · rw [if_neg hop] at h
      obtain rfl := Except.ok.inj h
      refine ⟨⟨hclaimant, hclaimed, hretires, fun hsome => absurd hsome hop⟩, ?_⟩
      simp only [Decision.writes, Option.toList_some, List.append_nil, List.mem_singleton] at hx
      subst hx
      rfl
  · obtain ⟨lost, hlost, -⟩ := bind_eq_ok.1 h
    rw [(executorLoss_ok hlost).1] at hr
    cases hr

theorem reportResult_live {result : RunResult} {claimFingerprint : Option String}
    (h : reportResult now t r result claimFingerprint = .ok d) : isLive r.state = true :=
  (reportAdmitted_live (reportResult_ok h)).1

/-- Only an exit report writes a stopped run through `transactOnRun`. -/
theorem RunOp.restamps {op : RunOp} (hstopped : r.stopped = true)
    (htriage : r.triagePublication = none) (h : op.decide now t r eligibility = .ok d)
    (hx : x ∈ d.writes) :
    ∃ claimant, op = .executorExited claimant ∧ exitRewrites r claimant = true ∧
      x.updatedAt = r.updatedAt := by
  have hterminal := Run.stopped_terminal hstopped
  have hstate := Run.stopped_state hstopped
  have hdead : isLive r.state = true → False := by simp [hterminal]
  cases op with
  | confirmDispatch => simp [RunOp.decide, AgentLcars.confirmDispatch, hstate, refused] at h
  | observeStartupPlacement claimant observation =>
    simp only [RunOp.decide, AgentLcars.observeStartupPlacement] at h
    split at h
    · exact absurd h refused_ne_ok
    split at h
    · exact absurd h refused_ne_ok
    · simp only [ite_refused_eq_ok, not_not] at h
      exact (hdead h.2.1).elim
  | renew claimFingerprint started =>
    simp only [RunOp.decide, renewLease, ite_refused_eq_ok, not_not] at h
    exact (hdead h.2.1).elim
  | observePlacement claimant placement =>
    simp only [RunOp.decide, AgentLcars.observePlacement] at h
    split at h
    · exact absurd h refused_ne_ok
    · simp only [ite_refused_eq_ok, not_not] at h
      exact (hdead h.2.1).elim
  | observeDelivery observation authorize =>
    exact absurd h (advanceDelivery_refuses (Run.stopped_failed hstopped))
  | report authority result claimFingerprint delivery publish =>
    have hplain : plainReport now t r result claimFingerprint delivery publish ≠ .ok d := by
      intro h
      simp only [plainReport, ite_refused_eq_ok] at h
      have hlive : isLive (reportedRun r result delivery publish).state = true :=
        reportResult_live h.2
      exact hdead hlive
    simp only [RunOp.decide] at h
    cases authority with
    | none => exact absurd h hplain
    | some authority =>
      dsimp only at h
      split_ifs at h
      · obtain ⟨settled, hsettled, -⟩ := bind_eq_ok.1 h
        exact (hdead (reportResult_live hsettled)).elim
      · exact absurd h hplain
  | cancel note nativeTask intervention => exact (hdead (cancelRun_ok h).1).elim
  | invalidateSource observedAt =>
    simp only [RunOp.decide, invalidateSourceRevision, ite_refused_eq_ok] at h
    obtain ⟨-, -, h⟩ := h
    split_ifs at h with hold hcancel hpending
    · obtain rfl := Except.ok.inj h
      cases hx
    · exact (hdead hcancel.1).elim
    · rw [htriage] at hpending
      cases hpending
    · obtain rfl := Except.ok.inj h
      cases hx
  | sweepExpired =>
    obtain ⟨lost, hlost, -⟩ := bind_eq_ok.1 h
    exact (hdead (expireLeaseLoss_ok hlost).1).elim
  | executorExited claimant => exact ⟨claimant, rfl, executorExited_restamps hterminal h hx⟩

/-- A change of an operation writes a settled run with the clock. -/
theorem changeCredentialOperation_restamps {id fingerprint : String} {change : CredentialChange}
    (hpending : r.credentialPendingResult = none)
    (h : changeCredentialOperation now t r id fingerprint change = .ok d) (hx : x ∈ d.writes) :
    changeRewrites r id fingerprint change = true ∧ x.updatedAt = now := by
  obtain ⟨op, hop, hchanged⟩ := changeCredentialOperation_ok h
  have hnamed : op.admits change = true → changeRewrites r id fingerprint change = true := by
    intro hadmits
    simp [changeRewrites, hop.operation, hop.names, hop.holds, hop.claimant, hadmits]
  cases hchanged with
  | prepare mutation hid hbound hmutation =>
    obtain rfl : x = _ := by simpa [Decision.writes] using hx
    exact ⟨hnamed (by simp [CredentialOperation.admits, hid, hbound, hmutation]), rfl⟩
  | acknowledge mutation receipt hmutation =>
    obtain rfl : x = _ := by simpa [Decision.writes] using hx
    exact ⟨hnamed (by simp [CredentialOperation.admits, hmutation]), rfl⟩
  | retryRecovery =>
    obtain rfl : x = _ := by simpa [Decision.writes] using hx
    exact ⟨hnamed rfl, rfl⟩
  | finish restored sequence hmutation _ hcleanup =>
    obtain rfl : x = _ := by simpa [Decision.writes] using hx
    refine ⟨hnamed ?_, rfl⟩
    simp only [CredentialOperation.admits, decide_eq_true_eq]
    exact ⟨hmutation, hcleanup⟩
  | complete _ pending _ hsome =>
    rw [hpending] at hsome
    cases hsome

/-- Only credential steps write a stopped run in a plain transaction. -/
theorem DirectOp.restamps {op : DirectOp} (runId : String) (hstopped : r.stopped = true)
    (htriage : r.triagePublication = none) (hpending : r.credentialPendingResult = none)
    (h : op.decide now t r eligibility = .ok d) (hx : x ∈ d.writes) :
    (Step.direct runId now op).restamps r = some x.updatedAt := by
  have hterminal := Run.stopped_terminal hstopped
  have hdead : isLive r.state = true → False := by simp [hterminal]
  cases op with
  | finishCredentialOperation authority id fingerprint restored sequence =>
    obtain ⟨outcome, houtcome, hnext⟩ := bind_eq_ok.1 h
    obtain rfl : outcome = d := by
      cases authority with
      | none => exact Except.ok.inj hnext
      | some authority => simpa [hpending] using hnext
    obtain ⟨hrewrites, hat⟩ := changeCredentialOperation_restamps hpending houtcome hx
    simp [Step.restamps, hrewrites, hat]
  | rerouteQueued authority executorPipelines =>
    simp only [DirectOp.decide] at h
    split at h
    · exact absurd h refused_ne_ok
    simp only [rerouteQueuedRun, ite_refused_eq_ok, not_or, not_not] at h
    exact (hdead h.2.2.1.2.1).elim
  | cancelUnclaimedBefore notAfter note issue =>
    simp only [DirectOp.decide, cancelUnclaimed, ite_refused_eq_ok] at h
    exact (hdead (cancelRun_ok h.2.2.2).1).elim
  | reserveCredentialOperation fingerprint id kind =>
    simp only [DirectOp.decide, AgentLcars.reserveCredentialOperation, ite_refused_eq_ok, not_or, not_not] at h
    obtain ⟨⟨hcodex, hclaim⟩, hop, hkind, -, h⟩ := h
    obtain rfl := Except.ok.inj h
    obtain rfl : x = _ := by simpa [Decision.writes] using hx
    have hcleanup : kind = .cleanup := by simpa [hterminal] using hkind
    have hnone : r.credentialOperation = none := by simpa using hop
    simp [Step.restamps, reservationRewrites, hcodex, hclaim, hnone, hcleanup]
  | changeCredentialOperation id fingerprint change =>
    obtain ⟨hrewrites, hat⟩ := changeCredentialOperation_restamps hpending h hx
    simp [Step.restamps, hrewrites, hat]
  | recordTriagePublication state => simp [DirectOp.decide, publishTriage, htriage, refused] at h

end Operations

/-! ### Which steps write a stopped run -/

theorem TaskOp.writes_nil {op : TaskOp} {now : Time} {task : Option Task} {activeRun : Option Run}
    {d : Decision} (h : op.decide now task activeRun = .ok d) : d.writes = [] := by
  cases task with
  | none => exact absurd h TaskOp.decide_none
  | some t =>
    cases op with
    | close =>
      simp only [TaskOp.decide, closeTask, ite_refused_eq_ok] at h
      obtain ⟨-, -, h⟩ := h
      split at h
      · exact absurd h refused_ne_ok
      · rw [← Except.ok.inj h]
        rfl
    | updateWork work =>
      simp only [TaskOp.decide, updateTaskWork, ite_refused_eq_ok] at h
      obtain ⟨-, h⟩ := h
      split at h
      · exact absurd h refused_ne_ok
      · rw [← Except.ok.inj h]
        rfl
    | refreshIssue issue =>
      simp only [TaskOp.decide, refreshTaskIssue] at h
      split_ifs at h
      · rw [← Except.ok.inj h]
        rfl
      · rw [← Except.ok.inj h]
        rfl

theorem resume_writes_nil {w : World} {id : Nat} {now : Time} {d : Decision}
    (h : w.decision (.resume id now) = some d) : d.writes = [] := by
  obtain ⟨call, -, h⟩ := Option.bind_eq_some_iff.1 h
  unfold Call.decision at h
  split at h
  · split at h
    · cases h
    · rename_i hd
      split_ifs at h
      obtain rfl := Option.some.inj h
      exact TaskOp.writes_nil hd
  · cases h

section Steps

variable {w : World} {label : Step} {d : Decision} {r x : Run} {p : String} {c : ProviderCooldown}

/-- The run that a write of a run transaction about a stored run is about. -/
theorem Effect.subject_of_write {now : Time} {overrun : Prop} {r₀ : Run} {before : Option Task}
    {admitted : Option (RequestSource × String)} (hw : w.Coherent)
    (h : Effect label now admitted overrun (some r₀) before d)
    (hbefore : before = (w.store.tasks.get (taskKey d.task.task)).map (·.task))
    (hget₀ : w.store.runs.get r₀.runId = some r₀) (hget : w.store.runs.get r.runId = some r)
    (hx : x ∈ d.writes) (hid : x.runId = r.runId) : r₀ = r := by
  subst hbefore
  rcases h.write_cases hx with ⟨r₁, hr₁, hmove⟩ | hminted
  · obtain rfl := Option.some.inj hr₁
    rw [← runId_of_frozen hmove.frozen, hid, hget] at hget₀
    exact (Option.some.inj hget₀).symm
  · have hnone := hminted.unstored hw.store
    rw [hid, hget] at hnone
    cases hnone

/-- A step that writes a stopped run is an exit report or a credential step on it. -/
theorem World.Coherent.restamps (hw : w.Coherent) (hdeferral : Deferrals w.store)
    (hd : w.decision label = some d) (hget : w.store.runs.get r.runId = some r)
    (hstopped : r.stopped = true) (hx : x ∈ d.writes) (hid : x.runId = r.runId) :
    label.subject = some r.runId ∧ label.restamps r = some x.updatedAt := by
  have hterminal := Run.stopped_terminal hstopped
  have hpending := (hdeferral hget).terminal hterminal
  have htriage : r.triagePublication = none := by
    by_contra hne
    rcases (hdeferral hget).triage (Option.isSome_iff_ne_none.2 hne) with hok | hok
    · rw [Run.stopped_failed hstopped] at hok
      cases hok
    · simp [hpending] at hok
  cases label with
  | request now input =>
    obtain ⟨requestId, hdecide, heffect⟩ := hw.request_decided hd
    rcases heffect.write_cases hx with ⟨r₀, hr₀, hmove⟩ | hminted
    · -- requests touch the live run of the task only
      obtain ⟨vt, -, -, hget₀, -, hlive⟩ := hw.store.activeRun hr₀
      rw [← runId_of_frozen hmove.frozen, hid, hget] at hget₀
      obtain rfl := Option.some.inj hget₀
      rw [hterminal] at hlive
      cases hlive
    · rw [← heffect.requested hw.store] at hminted
      have hnone := hminted.unstored hw.store
      rw [hid, hget] at hnone
      cases hnone
  | onRun runId now cleanupId op =>
    obtain ⟨vt, r₀, d₀, hget₀, hvt, hdecide, hattach, heffect⟩ := hw.onRun_decided hd
    obtain rfl : r₀.runId = runId := hw.store.runKeyed hget₀
    have hkey : taskKey d.task.task = taskKey r₀.task :=
      (heffect.taskKey_eq.1 vt.task rfl).trans (hw.store.taskKeyed hvt)
    obtain rfl := heffect.subject_of_write hw (by rw [hkey, hvt]; rfl) hget₀ hget hx hid
    have hsame : d₀ = d := by
      rw [attachCleanup_same fun _ _ => .inl hterminal] at hattach
      exact Except.ok.inj hattach
    subst hsame
    obtain ⟨claimant, rfl, hrewrites, hat⟩ := op.restamps hstopped htriage hdecide hx
    exact ⟨rfl, by simp [Step.restamps, hrewrites, hat]⟩
  | direct runId now op =>
    obtain ⟨vt, r₀, hget₀, hvt, hdecide, heffect⟩ := hw.direct_decided hd
    obtain rfl : r₀.runId = runId := hw.store.runKeyed hget₀
    have hkey : taskKey d.task.task = taskKey r₀.task :=
      (heffect.taskKey_eq.1 vt.task rfl).trans (hw.store.taskKeyed hvt)
    obtain rfl := heffect.subject_of_write hw (by rw [hkey, hvt]; rfl) hget₀ hget hx hid
    exact ⟨rfl, op.restamps r₀.runId hstopped htriage hpending hdecide hx⟩
  | resume id now =>
    rw [resume_writes_nil hd] at hx
    cases hx
  | _ => cases hd

end Steps

/-! ### What is recorded -/

/-- Every recorded cooldown is that of a stored run, at the recorded time. -/
def Sourced (s : Store) : Prop :=
  ∀ {p c}, s.providerCooldowns.get p = some c → ∃ r, s.runs.get c.runId = some r ∧
    r.pipeline = p ∧ providerCooldownForRun { r with updatedAt := c.observedAt } = some c

section Sourced

variable {label : Step} {s s' : Store}

theorem Change.sourced_kept (hs : s.Coherent) (h : Change label s s') (hinv : Sourced s)
    {p : String} {c : ProviderCooldown} (hc : s.providerCooldowns.get p = some c) :
    ∃ r, s'.runs.get c.runId = some r ∧ r.pipeline = p ∧
      providerCooldownForRun { r with updatedAt := c.observedAt } = some c := by
  obtain ⟨r, hr, hp, hcooldown⟩ := hinv hc
  obtain ⟨now, r', hr', hmove⟩ := h.run_moves hs hr
  have hterminal : isLive r.state = false :=
    Run.stopped_terminal (r := { r with updatedAt := c.observedAt }) (stopped_of_cooldown hcooldown)
  refine ⟨r', hr', (pipeline_of_frozen hmove.frozen).trans hp, ?_⟩
  rw [hmove.cooldown_restamped hterminal]
  exact hcooldown

theorem Change.sourced (hs : s.Coherent) (h : Change label s s') (hinv : Sourced s) :
    Sourced s' := by
  intro p c hc
  have hkept : s.providerCooldowns.get p = some c → _ := fun hc => h.sourced_kept hs hinv hc
  cases h with
  | aside h =>
    rw [h.cooldowns] at hc
    exact hkept hc
  | decide now admitted subject d heffect hsubject _ hwritten =>
    rw [hwritten.cooldowns] at hc
    rcases OrderedMap.get_setAll_cases _ _ hc with ⟨y, hy, hp, rfl⟩ | ⟨hold, -⟩
    · obtain ⟨x, hx, hcooldown⟩ := List.mem_filterMap.1 hy
      obtain ⟨result, -, -, -, heq⟩ := providerCooldownForRun_eq_some.1 hcooldown
      have hstored := hwritten.get_of_mem hs heffect hsubject hx
      subst heq
      exact ⟨x, hstored, hp, hcooldown⟩
    · exact hkept hold

theorem World.sourced_run (steps : List Step) : Sourced (World.init.run steps).store :=
  World.invariant_run Sourced (fun h => by cases h) (fun hs h hinv => h.sourced hs hinv) steps

/-- A recorded time of a stored run is its cooldown. -/
theorem Sourced.of_records (hinv : Sourced s) {r : Run} {at_ : Time} {c : ProviderCooldown}
    (hr : s.runs.get r.runId = some r) (hrecords : s.records r at_ = true)
    (hc : providerCooldownForRun { r with updatedAt := at_ } = some c) :
    s.providerCooldowns.get r.pipeline = some c := by
  obtain ⟨c', hc', hsame⟩ := (Option.any_eq_true _ _).1 hrecords
  simp only [decide_eq_true_eq] at hsame
  obtain ⟨hid, rfl⟩ := hsame
  obtain ⟨r', hr', -, hcooldown⟩ := hinv hc'
  rw [hid, hr] at hr'
  obtain rfl := Option.some.inj hr'
  rw [hc] at hcooldown
  rw [hc', Option.some.inj hcooldown]

end Sourced

/-! ### One step -/

section Step

variable {w : World} {label : Step} {d : Decision} {p : String} {c : ProviderCooldown}

/-- Without a decision no run is settled. -/
theorem Aside.not_stops (h : Aside label w.store (w.step label).store) :
    ¬Stops p w label c := by
  rintro ⟨now, r, r', result, -, hr, hr', -, hlive, hstate, -⟩
  have hsame : ∀ {x}, w.store.runs.get r.runId = some x → isLive x.state = true → x ≠ r' := by
    rintro x - hxlive rfl
    rw [hstate] at hxlive
    cases hxlive
  cases h with
  | quiet h =>
    rw [h.runs] at hr'
    exact hsame hr hlive (Option.some.inj (hr.symm.trans hr'))
  | outbox h =>
    rw [h.runs] at hr'
    exact hsame hr hlive (Option.some.inj (hr.symm.trans hr'))
  | queue _ q q' hget _ hkept _ hruns =>
    rw [hruns, OrderedMap.get_set] at hr'
    split_ifs at hr' with hid
    · obtain rfl := Option.some.inj hr'
      rw [hid, hget] at hr
      obtain rfl := Option.some.inj hr
      rw [hlive, hstate] at hkept
      cases hkept
    · exact hsame hr hlive (Option.some.inj (hr.symm.trans hr'))

/-- What a decision derives is a stop, or was recorded before. -/
theorem World.Coherent.derived (hw : w.Coherent) (hdeferral : Deferrals w.store)
    (hsourced : Sourced w.store) (hno : label.rederives w.store = false)
    (hd : w.decision label = some d) {x : Run} (hx : x ∈ d.writes)
    (hc : providerCooldownForRun x = some c) :
    Stops c.pipeline w label c ∨ w.store.providerCooldowns.get c.pipeline = some c := by
  obtain ⟨result, hstate, hresult, hstop, rfl⟩ := providerCooldownForRun_eq_some.1 hc
  obtain ⟨now, admitted, subject, heffect, hsubject, -, hwritten, hclock⟩ := hw.committed hd
  rcases heffect.write_cases hx with ⟨r, hr, hmove⟩ | hminted
  · have hget := (hsubject r hr).1
    have hid : x.runId = r.runId := runId_of_frozen hmove.frozen
    have hpipeline : x.pipeline = r.pipeline := pipeline_of_frozen hmove.frozen
    have hstored := hwritten.get_of_mem hw.store heffect hsubject hx
    cases hlive : isLive r.state with
    | true =>
      left
      have hterminal : isLive x.state = false := by rw [hstate]; rfl
      have hat : x.updatedAt = now := hmove.settled_at hlive hterminal
      exact ⟨now, r, x, result, hclock, hget, hid ▸ hstored, hpipeline.symm, hlive, hstate, hresult,
        hstop, by rw [hat, hid]⟩
    | false =>
      right
      have hrestamped := hmove.cooldown_restamped hlive x.updatedAt
      have hderived : providerCooldownForRun { r with updatedAt := x.updatedAt } = some _ :=
        hrestamped.symm.trans hc
      have hstopped : r.stopped = true := by
        have := stopped_of_cooldown hderived
        exact this
      obtain ⟨hsubj, hstamp⟩ := hw.restamps hdeferral hd hget hstopped hx hid
      have hrecords : w.store.records r x.updatedAt = true := by
        by_contra hne
        simp [Step.rederives, hsubj, hget, hstopped, hstamp, hne] at hno
      have hrecord := hsourced.of_records hget hrecords hderived
      rw [← hpipeline] at hrecord
      exact hrecord
  · rw [hminted.fresh.result] at hresult
    cases hresult

/-- Two cooldowns that one decision derives are of the same run. -/
theorem World.Coherent.derived_unique (hw : w.Coherent) (hd : w.decision label = some d)
    {x y : Run} {c c' : ProviderCooldown} (hx : x ∈ d.writes) (hy : y ∈ d.writes)
    (hc : providerCooldownForRun x = some c) (hc' : providerCooldownForRun y = some c') : c = c' := by
  obtain ⟨now, admitted, subject, heffect, hsubject, -, -⟩ := hw.committed hd
  -- minted runs have no result, so both are the run the decision is about
  have hmoved : ∀ {z e}, z ∈ d.writes → providerCooldownForRun z = some e →
      ∃ r, subject = some r ∧ z.runId = r.runId := by
    intro z e hz he
    rcases heffect.write_cases hz with ⟨r, hr, hmove⟩ | hminted
    · exact ⟨r, hr, runId_of_frozen hmove.frozen⟩
    · obtain ⟨result, -, hresult, -⟩ := providerCooldownForRun_eq_some.1 he
      rw [hminted.fresh.result] at hresult
      cases hresult
  obtain ⟨r, hr, hxr⟩ := hmoved hx hc
  obtain ⟨r', hr', hyr⟩ := hmoved hy hc'
  obtain rfl : r = r' := Option.some.inj (hr.symm.trans hr')
  have hxy : x = y := heffect.writes_inj (fun r hr => (hsubject r hr).1)
    (fun m hm => hm.unstored hw.store) hx hy (hxr.trans hyr.symm)
  rw [hxy, hc'] at hc
  exact (Option.some.inj hc).symm

/-- The run that a stop settles is written by its decision. -/
theorem World.Coherent.stop_written (hw : w.Coherent) (hd : w.decision label = some d)
    (h : Stops p w label c) : ∃ x ∈ d.writes, providerCooldownForRun x = some c := by
  obtain ⟨now, r, r', result, hclock, hr, hr', rfl, hlive, hstate, hresult, hstop, rfl⟩ := h
  obtain ⟨now', admitted, subject, heffect, hsubject, -, hwritten, hclock'⟩ := hw.committed hd
  obtain rfl : now = now' := Option.some.inj (hclock.symm.trans hclock')
  rcases hwritten.get_cases hr' with ⟨hmem, hid⟩ | ⟨hsame, -⟩
  · refine ⟨r', hmem, providerCooldownForRun_eq_some.2 ⟨result, hstate, hresult, hstop, ?_⟩⟩
    rcases heffect.write_cases hmem with ⟨q, hq, hmove⟩ | hminted
    · have hget := (hsubject q hq).1
      rw [← runId_of_frozen hmove.frozen, hid, hr] at hget
      obtain rfl := Option.some.inj hget
      have hterminal : isLive r'.state = false := by rw [hstate]; rfl
      rw [hmove.settled_at hlive hterminal, pipeline_of_frozen hmove.frozen, hid]
    · rw [hminted.fresh.result] at hresult
      cases hresult
  · obtain rfl : r = r' := Option.some.inj (hr.symm.trans hsame)
    rw [hstate] at hlive
    cases hlive

/-- A stop is recorded, and nothing else is. -/
theorem World.Coherent.cooldown_step (hw : w.Coherent) (hdeferral : Deferrals w.store)
    (hsourced : Sourced w.store) (hno : label.rederives w.store = false) (p : String) :
    (∀ c, Stops p w label c → (w.step label).store.providerCooldowns.get p = some c) ∧
      ((∀ c, ¬Stops p w label c) →
        (w.step label).store.providerCooldowns.get p = w.store.providerCooldowns.get p) := by
  cases hd : w.decision label with
  | none =>
    have haside := hw.undecided hd
    exact ⟨fun c hc => absurd hc (haside.not_stops), fun _ => by rw [haside.cooldowns]⟩
  | some d =>
    obtain ⟨-, -, -, -, -, -, hwritten, -⟩ := hw.committed hd
    rw [hwritten.cooldowns]
    have hderives : ∀ {x c}, x ∈ d.writes → providerCooldownForRun x = some c →
        (Store.cooldownsAfter w.store.providerCooldowns d.writes).get c.pipeline = some c := by
      intro x c hx hc
      refine OrderedMap.get_setAll_of_mem ProviderCooldown.pipeline id
        (List.mem_filterMap.2 ⟨x, hx, hc⟩) fun c' hc' _ => ?_
      obtain ⟨y, hy, hc'⟩ := List.mem_filterMap.1 hc'
      exact hw.derived_unique hd hy hx hc' hc
    constructor
    · intro c hc
      obtain ⟨x, hx, hcooldown⟩ := hw.stop_written hd hc
      obtain ⟨_, _, _, _, _, _, _, _, _, _, _, _, rfl⟩ := hc
      exact hderives hx hcooldown
    · intro hnone
      by_cases hderived : ∃ x ∈ d.writes, ∃ c, providerCooldownForRun x = some c ∧ c.pipeline = p
      · obtain ⟨x, hx, c, hc, rfl⟩ := hderived
        rw [hderives hx hc]
        rcases hw.derived hdeferral hsourced hno hd hx hc with hstops | hrecord
        · exact absurd hstops (hnone c)
        · exact hrecord.symm
      · refine OrderedMap.get_setAll_of_notMem ProviderCooldown.pipeline id fun c hc hp => ?_
        obtain ⟨x, hx, hc⟩ := List.mem_filterMap.1 hc
        exact hderived ⟨x, hx, c, hc, hp⟩

end Step

/-! ### Whole runs -/

/-- The cooldown of a pipeline is that of its last stop, and only a stop changes it. -/
structure CooldownOfLastStop (steps : List Step) (p : String) : Prop where
  last : (∃ c, Machine.LastSet World.step (Stops p) World.init steps c ∧
      (World.init.run steps).store.providerCooldowns.get p = some c) ∨
    (Machine.NeverSet World.step (Stops p) World.init steps ∧
      (World.init.run steps).store.providerCooldowns.get p = none)
  changes : ∀ first label rest, steps = first ++ label :: rest →
    (World.init.run (first ++ [label])).store.providerCooldowns.get p ≠
      (World.init.run first).store.providerCooldowns.get p →
    ∃ c, Stops p (World.init.run first) label c

/-- No step writes a stopped run so that its cooldown is derived anew. -/
def CooldownsKept (steps : List Step) : Prop :=
  Machine.Along World.step (fun w label => label.rederives w.store = false) World.init steps

instance (steps : List Step) : Decidable (CooldownsKept steps) :=
  inferInstanceAs (Decidable (Machine.Along _ _ _ _))

/-- In runs that derive no cooldown of a settled run anew, the cooldown of a pipeline is that of its
last stop. -/
theorem World.cooldown_of_last_stop (steps : List Step) (h : CooldownsKept steps) (p : String) :
    CooldownOfLastStop steps p := by
  have hstep : ∀ w : World, w.Coherent ∧ Fences w.store ∧ Deferrals w.store ∧ Sourced w.store →
      ∀ label, (w.step label).Coherent ∧ Fences (w.step label).store ∧
        Deferrals (w.step label).store ∧ Sourced (w.step label).store := by
    rintro w ⟨hw, hfences, hdeferrals, hsourced⟩ label
    have hchange := hw.change label
    obtain ⟨hfences', hdeferrals'⟩ := hchange.deferrals hw.store ⟨hfences, hdeferrals⟩
    exact ⟨hw.step label, hfences', hdeferrals', hchange.sourced hw.store hsourced⟩
  constructor
  · exact Machine.register_last
      (fun w : World => w.Coherent ∧ Fences w.store ∧ Deferrals w.store ∧ Sourced w.store)
      (fun w => w.store.providerCooldowns.get p) (fun w label hw => hstep w hw label)
      (fun w label c hw hno => (hw.1.cooldown_step hw.2.2.1 hw.2.2.2 hno p).1 c)
      (fun w label hw hno => (hw.1.cooldown_step hw.2.2.1 hw.2.2.2 hno p).2)
      ⟨World.coherent_init, ⟨fun h => (by cases h), fun h => (by cases h)⟩,
        fun h => (by cases h), fun h => (by cases h)⟩ h
  · rintro first label rest rfl hchanged
    by_contra hno
    obtain ⟨-, hkept, -⟩ := Machine.Along.append.1 h
    refine hchanged ?_
    rw [show World.init.run (first ++ [label]) = (World.init.run first).step label from
      Machine.run_append _ _ _ _]
    exact ((World.coherent_run first).cooldown_step (World.deferrals_run first)
      (World.sourced_run first) hkept p).2 fun c hc => hno ⟨c, hc⟩

/-- The report of a provider stop. -/
def Sample.limit : RunOp :=
  .report none
    { ok := false, summary := some "provider-limit", ref := none, relatedRefs := none
      message := none, humanNeededActions := none } (some "token") none false

/-- A claimed run is stopped by its provider. -/
def Sample.limited (pipeline : String) : List Step :=
  Sample.claimed pipeline ++ [.onRun Sample.runId 3 "cleanup" Sample.limit]

theorem World.cooldown_of_last_stop_limited :
    (World.init.run (Sample.limited "claude")).store.providerCooldowns.get "claude" =
        some { pipeline := "claude", runId := Sample.runId, observedAt := 3, expiresAt := 900003 } ∧
      CooldownOfLastStop (Sample.limited "claude") "claude" :=
  ⟨by decide +kernel, World.cooldown_of_last_stop _ (by decide +kernel) "claude"⟩

/-- Recovery looks at the cleanup of the stopped run ten minutes later. -/
def Sample.recovered : List Step :=
  Sample.limited "codex" ++
    [.direct Sample.runId 600000 (.changeCredentialOperation "cleanup" "token" .retryRecovery)]

/-- A credential step after the settlement extends the cooldown. -/
theorem World.cleanup_extends_cooldown :
    ¬∀ steps : List Step, (steps.filterMap Step.clock).Pairwise (· ≤ ·) →
      ∀ p, CooldownOfLastStop steps p := by
  intro h
  have hlaw := h Sample.recovered (by decide +kernel) "codex"
  have hchanged : (World.init.run Sample.recovered).store.providerCooldowns.get "codex" ≠
      (World.init.run (Sample.limited "codex")).store.providerCooldowns.get "codex" := by
    decide +kernel
  have hsettled : ((World.init.run (Sample.limited "codex")).store.runs.values.all
      fun r => ¬isLive r.state) = true := by decide +kernel
  obtain ⟨c, now, r, r', result, -, hr, -, -, hlive, -⟩ :=
    hlaw.changes (Sample.limited "codex") _ [] rfl hchanged
  have hdead := List.all_eq_true.1 hsettled r ((OrderedMap.mem_values_iff _ _).2 ⟨r.runId, hr⟩)
  simp [hlive] at hdead

end AgentLcars
