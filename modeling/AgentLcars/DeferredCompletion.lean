import AgentLcars.Deferral
import AgentLcars.FallbackAdmission

/-!
# Deferred completions

A report that finds a credential operation outstanding is kept on the run and re-submitted when the
operation is finished.  `Decision.untimed` forgets what may differ between the two: clocks and the
credential bookkeeping of the run.  Every decision of a report factors through it, so the finish
settles as the report would have settled at once, provided it is admitted; and it is, unless the
recovery deadline had already passed when the report was taken.
-/

namespace AgentLcars

/-! ### Decisions up to clocks and credential bookkeeping -/

/-- The queue record without the clocks of its heartbeats. -/
def RunQueue.untimed (queue : RunQueue) : RunQueue :=
  { queue with firstHeartbeatAt := none, providerProcessStartedAt := none }

/-- The run without clocks and credential bookkeeping. -/
def Run.untimed (run : Run) : Run :=
  { run with
    queue := run.queue.map (·.untimed)
    credentialOperation := none
    credentialRestoredClaimFingerprint := none
    credentialPendingResult := none
    credentialWriteReceipt := none
    leaseExpiresAt := 0
    events := run.events.map fun event => { event with at_ := 0 }
    createdAt := 0
    updatedAt := 0 }

/-- The task document without its clock. -/
def Task.untimed (task : Task) : Task := { task with updatedAt := 0 }

/-- The outbox entry without its clocks. -/
def OutboxEntry.untimed (entry : OutboxEntry) : OutboxEntry :=
  { entry with createdAt := 0, updatedAt := 0, nextAttemptAt := entry.nextAttemptAt.map fun _ => 0 }

/-- The decision without clocks and credential bookkeeping. -/
def Decision.untimed (decision : Decision) : Decision :=
  { task := decision.task.untimed
    run := decision.run.map (·.untimed)
    additionalRuns := decision.additionalRuns.map (·.untimed)
    outbox := decision.outbox.map (·.untimed) }

@[simp] theorem RunQueue.untimed_untimed (q : RunQueue) : q.untimed.untimed = q.untimed := rfl

@[simp] theorem Task.untimed_untimed (t : Task) : t.untimed.untimed = t.untimed := rfl

@[simp] theorem Run.untimed_untimed (r : Run) : r.untimed.untimed = r.untimed := by
  simp [Run.untimed, Function.comp_def]

@[simp] theorem OutboxEntry.untimed_untimed (e : OutboxEntry) : e.untimed.untimed = e.untimed := by
  simp [OutboxEntry.untimed, Function.comp_def]

@[simp] theorem Decision.untimed_untimed (d : Decision) : d.untimed.untimed = d.untimed := by
  simp [Decision.untimed, Function.comp_def]

section Untimed

variable (now : Time) (t : Task) (r : Run) (result : RunResult)

theorem untimed_finishedRun :
    (finishedRun now t r result).untimed = (finishedRun 0 t.untimed r.untimed result).untimed := by
  simp only [finishedRun, Run.untimed, List.map_append, List.map_map, Option.map_map,
    Function.comp_def, RunQueue.untimed_untimed]
  rfl

theorem untimed_releaseLock (id : String) :
    (resetLossBudgets (releaseLock t id now)).untimed =
      (resetLossBudgets (releaseLock t.untimed id 0)).untimed := by
  simp only [resetLossBudgets, releaseLock_eq]
  rfl

theorem untimed_settle (s : Run) :
    (settle t s now).untimed = (settle t.untimed s.untimed 0).untimed := by
  have htriage : publishesTriage s.untimed = publishesTriage s := rfl
  have hparks : parksWithMessage s.untimed = parksWithMessage s := rfl
  simp only [settle, Decision.untimed, List.map_append, Task.untimed_untimed, Option.map_some,
    Run.untimed_untimed, htriage, hparks]
  split_ifs <;> rfl

theorem untimed_reportSettlement :
    (reportSettlement now t r result).untimed =
      (reportSettlement 0 t.untimed r.untimed result).untimed := by
  unfold reportSettlement
  rw [untimed_settle, untimed_finishedRun, untimed_releaseLock]
  exact (untimed_settle 0 _ _).symm

theorem untimed_deliveryOutbox {t t' : Task} {s s' : Run} (delivery : DeliveryBinding)
    (htask : t'.task = t.task) (hrun : s'.task = s.task) (hid : s'.runId = s.runId) :
    (deliveryOutbox t s delivery now).map (·.untimed) =
      (deliveryOutbox t' s' delivery 0).map (·.untimed) := by
  unfold deliveryOutbox finalDeliveryOutbox freshEntry
  rw [htask, hrun, hid]
  split_ifs <;> rfl

theorem untimed_deliveredSettlement (delivery : DeliveryBinding) :
    (deliveredSettlement now t r result delivery).untimed =
      (deliveredSettlement 0 t.untimed r.untimed result delivery).untimed := by
  have hsettled := untimed_reportSettlement now t r result
  have htask : ∀ n t r, (reportSettlement n t r result).task.task = t.task := by
    intro n t r
    simp only [reportSettlement, settle, resetLossBudgets, releaseLock_eq]
  have hout := untimed_deliveryOutbox now delivery
    (show (reportSettlement 0 t.untimed r.untimed result).task.task =
      (reportSettlement now t r result).task.task by rw [htask, htask]; rfl)
    (show (finishedRun 0 t.untimed r.untimed result).task = (finishedRun now t r result).task from rfl)
    rfl
  simp only [deliveredSettlement, Decision.untimed, List.map_append, hout]
  simp only [Decision.untimed, Decision.mk.injEq] at hsettled
  obtain ⟨ht, hr, -, ho⟩ := hsettled
  rw [hr, ho]
  refine congrArg₂ (fun task outbox => Decision.mk task _ _ outbox) ?_ rfl
  exact congrArg (fun task : Task => { task with delivery := some delivery }) ht

theorem untimed_followedBy (settled next : Decision) :
    (settled.followedBy next).untimed = settled.untimed.followedBy next.untimed := by
  simp only [Decision.followedBy, Decision.untimed, List.map_append]
  cases next.run <;> rfl

theorem untimed_revisionSuccessor (d : Decision) (s : Run) :
    (revisionSuccessor d s now).map (·.untimed) =
      (revisionSuccessor d.untimed s.untimed 0).map (·.untimed) := by
  have hretries : retriesRevision s.untimed = retriesRevision s := rfl
  have hmint : ∀ desired superseded, (mintRun (revisionMint d.task s desired superseded now)).untimed =
      (mintRun (revisionMint d.untimed.task s.untimed desired superseded 0)).untimed :=
    fun _ _ => rfl
  unfold revisionSuccessor
  rw [hretries, show s.untimed.sourceRevision = s.sourceRevision from rfl,
    show d.untimed.task.desiredRevision = d.task.desiredRevision from rfl,
    show d.untimed.task.closedAt = d.task.closedAt from rfl]
  split
  · dsimp only
    split_ifs
    · rfl
    · rfl
    · simp only [Option.map_some, untimed_followedBy, hmint, Decision.untimed_untimed]
  · rfl

theorem untimed_reportDecision :
    (reportDecision now t r result).untimed = (reportDecision 0 t.untimed r.untimed result).untimed := by
  unfold reportDecision
  rw [show r.untimed.delivery = r.delivery from rfl]
  split
  · exact untimed_deliveredSettlement now t r result _
  · have hsettled := untimed_reportSettlement now t r result
    have hfinished := untimed_finishedRun now t r result
    have hsucc := untimed_revisionSuccessor now (reportSettlement now t r result)
      (finishedRun now t r result)
    rw [hsettled, hfinished, ← untimed_revisionSuccessor 0] at hsucc
    cases h : revisionSuccessor (reportSettlement now t r result) (finishedRun now t r result) now with
    | none =>
      rw [h] at hsucc
      rw [Option.map_eq_none_iff.1 hsucc.symm]
      exact hsettled
    | some d =>
      rw [h] at hsucc
      obtain ⟨d', hd', heq⟩ := Option.map_eq_some_iff.1 hsucc.symm
      rw [hd']
      exact heq.symm

theorem untimed_successorMint (base : Decision) (policy : ProviderFallback) (pipeline : String)
    (reason : FallbackReason) (failureRunId : String) :
    (successorMint now base r policy pipeline reason failureRunId).untimed =
      (successorMint 0 base.untimed r.untimed policy pipeline reason failureRunId).untimed := rfl

theorem untimed_cooldown :
    (providerCooldownForRun r.untimed).isSome = (providerCooldownForRun r).isSome := by
  unfold providerCooldownForRun
  rw [show r.untimed.result = r.result from rfl, show r.untimed.state = r.state from rfl]
  cases r.result with
  | none => rfl
  | some result =>
    dsimp only
    split_ifs <;> rfl

/-- Two settlements that differ in clocks and bookkeeping fall back alike. -/
theorem untimed_settleProviderFallback {now₁ now₂ : Time} {base₁ base₂ : Decision} {s₁ s₂ : Run}
    (hsame : base₁.untimed = base₂.untimed) (hrun₁ : base₁.run = some s₁) (hrun₂ : base₂.run = some s₂)
    (h₁ : (providerCooldownForRun s₁).isSome = true → Succeedable base₁.task s₁)
    (h₂ : (providerCooldownForRun s₂).isSome = true → Succeedable base₂.task s₂)
    (authorized available : List String) :
    ∃ d₁ d₂, settleProviderFallback now₁ base₁ authorized available = .ok d₁ ∧
      settleProviderFallback now₂ base₂ authorized available = .ok d₂ ∧ d₁.untimed = d₂.untimed := by
  have hs : s₁.untimed = s₂.untimed := by
    have hrun := congrArg Decision.run hsame
    simp only [Decision.untimed, hrun₁, hrun₂, Option.map_some] at hrun
    exact Option.some.inj hrun
  have hcooldown : (providerCooldownForRun s₁).isSome = (providerCooldownForRun s₂).isSome := by
    rw [← untimed_cooldown, hs, untimed_cooldown]
  have hpipeline : fallbackPipeline s₁ authorized available = fallbackPipeline s₂ authorized available := by
    show fallbackPipeline s₁.untimed authorized available =
      fallbackPipeline s₂.untimed authorized available
    rw [hs]
  have hpolicy : s₁.providerFallback = s₂.providerFallback := by
    show s₁.untimed.providerFallback = s₂.untimed.providerFallback
    rw [hs]
  have hid : s₁.runId = s₂.runId := by
    show s₁.untimed.runId = s₂.untimed.runId
    rw [hs]
  unfold settleProviderFallback
  simp only [decidedRun, hrun₁, hrun₂, bind, Except.bind]
  cases hc₁ : providerCooldownForRun s₁ with
  | none =>
    cases hc₂ : providerCooldownForRun s₂ with
    | none => exact ⟨base₁, base₂, rfl, rfl, hsame⟩
    | some _ => simp [hc₁, hc₂] at hcooldown
  | some _ =>
    cases hc₂ : providerCooldownForRun s₂ with
    | none => simp [hc₁, hc₂] at hcooldown
    | some _ =>
      rw [hpipeline]
      cases hp : fallbackPipeline s₂ authorized available with
      | none => exact ⟨base₁, base₂, rfl, rfl, hsame⟩
      | some pipeline =>
        obtain ⟨policy, hpolicy₂⟩ := policy_of_fallbackPipeline hp
        have hsucc₁ := (h₁ (by rw [hc₁]; rfl)).successor hrun₁ (hpolicy.trans hpolicy₂) now₁ pipeline
          .providerLimit s₁.runId
        have hsucc₂ := (h₂ (by rw [hc₂]; rfl)).successor hrun₂ hpolicy₂ now₂ pipeline
          .providerLimit s₂.runId
        refine ⟨_, _, hsucc₁, hsucc₂, ?_⟩
        rw [untimed_followedBy, untimed_followedBy, hsame, untimed_successorMint,
          untimed_successorMint now₂, hsame, hs, hid]

end Untimed

/-! ### While the result waits -/

/-- The steps that may come between a deferred report and the finish of its operation. -/
inductive Meanwhile (id : String) (result : RunResult) (delivery : Option DeliveryBinding)
    (publish : Bool) : Step → Prop where
  | renew (runId : String) (now : Time) (cleanupId : String) (claimFingerprint : Option String)
      (started : Bool) :
      Meanwhile id result delivery publish (.onRun runId now cleanupId (.renew claimFingerprint started))
  | report (now : Time) (cleanupId : String) (authority : Option ProviderFallbackAuthority)
      (claimFingerprint : Option String) :
      Meanwhile id result delivery publish
        (.onRun id now cleanupId (.report authority result claimFingerprint delivery publish))
  | sweep (runId : String) (now : Time) (cleanupId : String) :
      Meanwhile id result delivery publish (.onRun runId now cleanupId .sweepExpired)
  | exit (runId : String) (now : Time) (cleanupId : String) (claimant : ExitClaimant) :
      Meanwhile id result delivery publish (.onRun runId now cleanupId (.executorExited claimant))
  | prepare (runId : String) (now : Time) (operationId claimFingerprint : String)
      (mutation : CredentialMutation) :
      Meanwhile id result delivery publish
        (.direct runId now (.changeCredentialOperation operationId claimFingerprint (.prepare mutation)))
  | acknowledge (runId : String) (now : Time) (operationId claimFingerprint mutationId : String)
      (receipt : Option CredentialWriteReceipt) :
      Meanwhile id result delivery publish
        (.direct runId now (.changeCredentialOperation operationId claimFingerprint
          (.acknowledge mutationId receipt)))

/-- The run a report is about: only a report of success binds a delivery. -/
def boundRun (r : Run) (result : RunResult) (delivery : Option DeliveryBinding) (publish : Bool) :
    Run :=
  reportedRun r result (if result.ok then delivery else none) publish

/-- The run still holds the result `now` brought, and could still be settled with it. -/
structure Waiting (op : CredentialOperation) (now : Time) (result : RunResult) (bound r : Run) :
    Prop where
  same : r.untimed = bound.untimed
  operation : ∃ op', r.credentialOperation = some op' ∧ op'.id = op.id ∧
    op'.claimFingerprint = op.claimFingerprint
  pending : r.credentialPendingResult =
    some { claimFingerprint := op.claimFingerprint, requestedAt := now, result }
  started : startDeadlineElapsed r now = false
  recoverable : recoveryDeadlineElapsed r now = false

section Waiting

variable {op : CredentialOperation} {now later : Time} {result : RunResult} {bound r : Run}

theorem Waiting.live (h : Waiting op now result bound r) : r.state = bound.state := by
  show r.untimed.state = bound.untimed.state
  rw [h.same]

/-- A step that leaves the claim and the deadlines alone. -/
theorem Waiting.of_same (h : Waiting op now result bound r) {r' : Run}
    (hsame : r'.untimed = r.untimed) (hqueue : r'.queue = r.queue)
    (hlease : r'.leaseExpiresAt = r.leaseExpiresAt)
    (hpending : r'.credentialPendingResult = r.credentialPendingResult)
    (hop : ∀ op', r.credentialOperation = some op' → ∃ op'', r'.credentialOperation = some op'' ∧
      op''.id = op'.id ∧ op''.claimFingerprint = op'.claimFingerprint) :
    Waiting op now result bound r' where
  same := hsame.trans h.same
  operation := by
    obtain ⟨op', hop', hid, hfingerprint⟩ := h.operation
    obtain ⟨op'', hop'', hid', hfingerprint'⟩ := hop op' hop'
    exact ⟨op'', hop'', hid'.trans hid, hfingerprint'.trans hfingerprint⟩
  pending := hpending.trans h.pending
  started := by
    have hstarted := h.started
    unfold startDeadlineElapsed at hstarted ⊢
    rwa [hqueue]
  recoverable := by
    have hrecoverable := h.recoverable
    unfold recoveryDeadlineElapsed runRecoveryDeadline at hrecoverable ⊢
    rwa [hqueue, hlease]

/-- A heartbeat settles the start deadline and moves the lease on. -/
theorem Waiting.renew (h : Waiting op now result bound r) (hlater : now ≤ later)
    (claimFingerprint : Option String) (started : Bool) :
    Waiting op now result bound { r with
      queue := r.queue.map (heartbeatQueue later claimFingerprint started)
      leaseExpiresAt := runLeaseExpiresAt later
      updatedAt := later } where
  same := by
    have hqueue : ∀ q, (heartbeatQueue later claimFingerprint started q).untimed = q.untimed := by
      intro q
      unfold heartbeatQueue
      split_ifs <;> rfl
    rw [← h.same]
    simp only [Run.untimed, Option.map_map, Function.comp_def, hqueue]
  operation := h.operation
  pending := h.pending
  started := by
    unfold startDeadlineElapsed
    cases r.queue with
    | none => rfl
    | some q =>
      by_cases hclaimed : q.state = .claimed
      · simp only [Option.map_some, heartbeatQueue, if_pos hclaimed]
        cases q.startDeadlineAt <;> simp
      · simp only [Option.map_some, heartbeatQueue, if_neg hclaimed]
        cases q.startDeadlineAt <;> simp [hclaimed]
  recoverable := by
    have hlease : ¬runLeaseExpiresAt later ≤ now := by
      exact not_le_of_gt (lt_of_le_of_lt hlater (Int.lt_add_of_pos_right later (by decide)))
    unfold recoveryDeadlineElapsed runRecoveryDeadline
    cases r.queue with
    | none => simpa using hlease
    | some q =>
      simp only [Option.map_some, heartbeatQueue]
      split_ifs with hclaimed hqueued hheartbeat
      all_goals simp_all

/-- A repeated report changes nothing that is compared. -/
theorem Waiting.report {r₀ : Run} {delivery : Option DeliveryBinding} {publish : Bool}
    (h : Waiting op now result (boundRun r₀ result delivery publish) r) (op' : CredentialOperation) :
    Waiting op now result (boundRun r₀ result delivery publish)
      (deferredRun later (boundRun r result delivery publish) op' result) := by
  have hdelivery : r.delivery = (boundRun r₀ result delivery publish).delivery := by
    show r.untimed.delivery = (boundRun r₀ result delivery publish).untimed.delivery
    rw [h.same]
  have htriage : r.triagePublication = (boundRun r₀ result delivery publish).triagePublication := by
    show r.untimed.triagePublication =
      (boundRun r₀ result delivery publish).untimed.triagePublication
    rw [h.same]
  refine h.of_same ?_ rfl rfl ?_ ?_
  · have hd : (boundRun r result delivery publish).delivery = r.delivery := by
      show (if result.ok then delivery else none).or r.delivery = r.delivery
      rw [hdelivery]
      show Option.or _ (Option.or _ _) = Option.or _ _
      cases (if result.ok then delivery else none : Option DeliveryBinding) <;> rfl
    have ht : (boundRun r result delivery publish).triagePublication = r.triagePublication := by
      show (if publish ∧ result.ok then some ⟨.pending⟩ else r.triagePublication) = _
      split_ifs with hpublish
      · rw [htriage]
        show _ = (if publish ∧ result.ok then some ⟨.pending⟩ else r₀.triagePublication)
        rw [if_pos hpublish]
      · rfl
    show { r.untimed with
      delivery := (boundRun r result delivery publish).delivery
      triagePublication := (boundRun r result delivery publish).triagePublication } = r.untimed
    rw [hd, ht]
    rfl
  · show r.credentialPendingResult.or _ = r.credentialPendingResult
    rw [h.pending]
    rfl
  · intro op'' hop''
    exact ⟨op'', hop'', rfl, rfl⟩

end Waiting

/-! ### Accepted reports -/

section Report

variable {now : Time} {t : Task} {r : Run} {result : RunResult} {claimFingerprint : Option String}
  {delivery : Option DeliveryBinding} {publish : Bool} {authority : Option ProviderFallbackAuthority}
  {eligibility : Option QueueEligibilitySnapshot} {d : Decision}

/-- A report of failure binds nothing. -/
theorem boundRun_failed (r : Run) (delivery : Option DeliveryBinding) (publish : Bool)
    (h : result.ok = false) : boundRun r result delivery publish = r := by
  simp [boundRun, reportedRun, h]

/-- A delivery that is not stale comes with success. -/
theorem reportedRun_eq_bound (h : ¬staleDelivery r result delivery = true) :
    reportedRun r result delivery publish = boundRun r result delivery publish := by
  unfold boundRun
  by_cases hok : result.ok = true
  · rw [if_pos hok]
  · rw [if_neg hok]
    cases delivery with
    | none => rfl
    | some b => simp [staleDelivery, hok] at h

/-- What both forms of `Orchestrator.report` admit. -/
theorem report_admitted
    (h : (RunOp.report authority result claimFingerprint delivery publish).decide now t r eligibility =
      .ok d) :
    reportAdmitted now t (boundRun r result delivery publish) result claimFingerprint = true ∧
      (result.ok = true → staleDelivery r result delivery = false) ∧
      ∀ op, r.credentialOperation = some op →
        d = { task := t
              run := some (deferredRun now (boundRun r result delivery publish) op result) } := by
  have hplain : plainReport now t r result claimFingerprint delivery publish = .ok d →
      reportAdmitted now t (boundRun r result delivery publish) result claimFingerprint = true ∧
        (result.ok = true → staleDelivery r result delivery = false) ∧
        ∀ op, r.credentialOperation = some op →
          d = { task := t
                run := some (deferredRun now (boundRun r result delivery publish) op result) } := by
    intro h
    simp only [plainReport, ite_refused_eq_ok] at h
    obtain ⟨hstale, h⟩ := h
    rw [reportedRun_eq_bound hstale] at h
    have hadmitted := reportResult_ok h
    refine ⟨hadmitted, fun _ => by simpa using hstale, fun op hop => ?_⟩
    rw [reportResult_eq hadmitted] at h
    have hop₀ : (boundRun r result delivery publish).credentialOperation = some op := hop
    rw [hop₀] at h
    exact (Except.ok.inj h).symm
  cases authority with
  | none => exact hplain h
  | some authority =>
    by_cases hok : result.ok = true
    · simp only [RunOp.decide, hok, Bool.true_eq_false, if_false] at h
      exact hplain h
    · have hfail : result.ok = false := by simpa using hok
      simp only [RunOp.decide, hfail, if_true] at h
      obtain ⟨settled, hsettled, h⟩ := bind_eq_ok.1 h
      have hadmitted := reportResult_ok hsettled
      rw [boundRun_failed r delivery publish hfail]
      refine ⟨hadmitted, fun h => absurd h hok, fun op hop => ?_⟩
      rw [reportResult_eq hadmitted, hop] at hsettled
      obtain rfl := Except.ok.inj hsettled
      exact settleProviderFallback_live rfl (reportAdmitted_live hadmitted).1 h

/-- A cleanup writes the run alone. -/
theorem attachCleanup_task {cleanupId : String} {d' : Decision}
    (h : attachCleanup r cleanupId d = .ok d') : d'.task = d.task := by
  unfold attachCleanup at h
  split at h
  · split_ifs at h
    · rw [← Except.ok.inj h]
    · obtain ⟨cleanup, -, h⟩ := bind_eq_ok.1 h
      rw [← Except.ok.inj h]
  · rw [← Except.ok.inj h]

end Report

/-! ### Steps while the result waits -/

section Steps

variable {w : World} {id : String} {r : Run} {vt : VersionedTask} {op : CredentialOperation}
  {now : Time} {result : RunResult} {delivery : Option DeliveryBinding} {publish : Bool} {r₀ : Run}
  {label : Step}

/-- A decision about another run leaves a run and, unless it is its task, its task alone. -/
theorem World.Coherent.elsewhere (hw : w.Coherent) {d : Decision} (h : w.decision label = some d)
    {later : Time} {overrun : Prop} {other : Run} {vt' : VersionedTask}
    (hvt' : w.store.tasks.get (taskKey other.task) = some vt')
    (heffect : Effect label later none overrun (some other) (some vt'.task) d)
    (hr : w.store.runs.get id = some r) (hvt : w.store.tasks.get (taskKey r.task) = some vt)
    (hne : other.runId ≠ id)
    (htask : taskKey other.task = taskKey r.task → d.task = vt'.task) :
    ∃ vt'', (w.step label).store.runs.get id = some r ∧
      (w.step label).store.tasks.get (taskKey r.task) = some vt'' ∧ vt''.task = vt.task := by
  obtain ⟨-, -, ⟨vt₁, hvt₁, htask₁⟩, htasks⟩ := hw.stored h
  have hkey : taskKey d.task.task = taskKey other.task :=
    (heffect.taskKey_eq.1 _ rfl).trans (hw.store.taskKeyed hvt')
  have hrun : (w.step label).store.runs.get id = some r :=
    hw.beside h hr ((hw.effect_before hvt' heffect).symm ▸ heffect) (by rintro _ ⟨rfl⟩; exact hne)
  by_cases hsame : taskKey other.task = taskKey r.task
  · refine ⟨vt₁, hrun, by rw [← hsame, ← hkey]; exact hvt₁, ?_⟩
    rw [htask₁, htask hsame]
    rw [hsame, hvt] at hvt'
    rw [Option.some.inj hvt']
  · exact ⟨vt, hrun, by rw [htasks _ (fun he => hsame (he.trans hkey).symm)]; exact hvt, rfl⟩

/-- An exit report of a run that is not live leaves its task document alone. -/
theorem executorExitedAndRetry_task {later : Time} {t : Task} {other : Run} {claimant : ExitClaimant}
    {d : Decision} (hdead : isLive other.state = false)
    (h : executorExitedAndRetry later t other claimant = .ok d) : d.task = t := by
  unfold executorExitedAndRetry at h
  dsimp only at h
  split_ifs at h with hretire
  · unfold retireSettledClaim at h
    split at h
    · exact absurd h refused_ne_ok
    · simp only [ite_refused_eq_ok] at h
      obtain ⟨-, h⟩ := h
      split_ifs at h
      all_goals first
        | exact absurd h refused_ne_ok
        | exact (congrArg Decision.task (Except.ok.inj h)).symm
  · obtain ⟨lost, hlost, -⟩ := bind_eq_ok.1 h
    rw [(executorLoss_ok hlost).1] at hdead
    cases hdead

/-- A change of an operation other than a finish leaves the task document alone. -/
theorem changeCredentialOperation_task {later : Time} {t : Task} {other : Run}
    {operationId claimFingerprint : String} {change : CredentialChange} {d : Decision}
    (hchange : ∀ restored sequence, change ≠ .finish restored sequence)
    (h : changeCredentialOperation later t other operationId claimFingerprint change = .ok d) :
    d.task = t := by
  obtain ⟨op, -, hchanged⟩ := changeCredentialOperation_ok h
  cases hchanged with
  | finish restored sequence => exact absurd rfl (hchange restored sequence)
  | complete restored => exact absurd rfl (hchange restored _)
  | _ => rfl

/-- A step between the report and the finish, taken by its own run. -/
theorem Waiting.own_step {later : Time} {t : Task} {cleanupId : String} {runOp : RunOp}
    {eligibility : Option QueueEligibilitySnapshot} {d₀ d : Decision}
    (h : Waiting op now result (boundRun r₀ result delivery publish) r)
    (hlive : isLive r.state = true) (hlater : now ≤ later)
    (hlabel : Meanwhile id result delivery publish (.onRun id later cleanupId runOp))
    (hdecide : runOp.decide later t r eligibility = .ok d₀)
    (hattach : attachCleanup r cleanupId d₀ = .ok d) :
    ∃ r', d.task = t ∧ d.writes = [r'] ∧ r'.runId = r.runId ∧ r'.task = r.task ∧
      Waiting op now result (boundRun r₀ result delivery publish) r' := by
  obtain ⟨op', hop, -⟩ := h.operation
  cases hlabel with
  | renew _ _ _ claimFingerprint started =>
    simp only [RunOp.decide, renewLease, ite_refused_eq_ok] at hdecide
    obtain ⟨-, -, -, -, -, hdecide⟩ := hdecide
    obtain rfl := Except.ok.inj hdecide
    rw [attachCleanup_same fun s hs => .inr (by obtain rfl := Option.some.inj hs; exact hlive)]
      at hattach
    obtain rfl := Except.ok.inj hattach
    exact ⟨_, rfl, rfl, rfl, rfl, h.renew hlater claimFingerprint started⟩
  | report _ _ authority claimFingerprint =>
    obtain ⟨-, -, hd⟩ := report_admitted hdecide
    rw [hd op' hop] at hattach
    rw [attachCleanup_same fun s hs => .inr (by obtain rfl := Option.some.inj hs; exact hlive)]
      at hattach
    obtain rfl := Except.ok.inj hattach
    exact ⟨_, rfl, rfl, rfl, rfl, h.report op'⟩
  | sweep =>
    obtain ⟨lost, hlost, -⟩ := bind_eq_ok.1 hdecide
    rw [(expireLeaseLoss_ok hlost).2.2.2.1] at hop
    cases hop
  | exit _ _ _ claimant =>
    simp only [RunOp.decide, executorExitedAndRetry] at hdecide
    split_ifs at hdecide with hretire
    · rw [executorLoss_notLive hretire.1] at hlive
      cases hlive
    · obtain ⟨lost, hlost, -⟩ := bind_eq_ok.1 hdecide
      rw [(executorLoss_ok hlost).2.2.1] at hop
      cases hop

/-- A step between the report and the finish leaves the task of a settled run alone. -/
theorem Meanwhile.dead_task {runId cleanupId : String} {later : Time} {runOp : RunOp}
    (h : Meanwhile id result delivery publish (.onRun runId later cleanupId runOp)) (hne : runId ≠ id)
    {t : Task} {other : Run} {eligibility : Option QueueEligibilitySnapshot} {d₀ : Decision}
    (hdead : isLive other.state = false)
    (hdecide : runOp.decide later t other eligibility = .ok d₀) : d₀.task = t := by
  cases h with
  | renew =>
    simp only [RunOp.decide, renewLease, ite_refused_eq_ok, not_not] at hdecide
    obtain ⟨-, hlive, -⟩ := hdecide
    rw [hdead] at hlive
    cases hlive
  | report => exact absurd rfl hne
  | sweep =>
    obtain ⟨lost, hlost, -⟩ := bind_eq_ok.1 hdecide
    rw [(expireLeaseLoss_ok hlost).1] at hdead
    cases hdead
  | exit => exact executorExitedAndRetry_task hdead hdecide

/-- The result keeps waiting, on the same task document. -/
def StillWaiting (s : Store) (id : String) (k : String) (t : Task) (op : CredentialOperation)
    (now : Time) (result : RunResult) (bound : Run) : Prop :=
  ∃ r vt, s.runs.get id = some r ∧ taskKey r.task = k ∧ s.tasks.get k = some vt ∧ vt.task = t ∧
    isLive r.state = true ∧ Waiting op now result bound r

/-- A step of another run of the task can only be about a settled one. -/
theorem Store.Coherent.settled_beside {s : Store} (hs : s.Coherent) {other : Run} {runId : String}
    (hr : s.runs.get id = some r) (hlive : isLive r.state = true)
    (hother : s.runs.get runId = some other) (hne : runId ≠ id)
    (hkey : taskKey other.task = taskKey r.task) : isLive other.state = false := by
  by_contra hlive'
  obtain ⟨vt, -, hvt, -⟩ := hs.counted hr
  have hlock := hs.mutex hr hvt hlive
  have hlock' := hs.mutex hother (hkey ▸ hvt) (by simpa using hlive')
  exact hne (Option.some.inj (hlock'.symm.trans hlock))

theorem StillWaiting.step {k : String} {t : Task} (hw : w.Coherent)
    (h : StillWaiting w.store id k t op now result (boundRun r₀ result delivery publish))
    (hlabel : Meanwhile id result delivery publish label)
    (hlater : ∀ later ∈ label.clock, now ≤ later) :
    StillWaiting (w.step label).store id k t op now result (boundRun r₀ result delivery publish) := by
  have hstill := h
  obtain ⟨r, vt, hr, rfl, hvt, rfl, hlive, hwaiting⟩ := h
  -- what the run's own operation leaves is found where the run was
  have hown : ∀ {d : Decision} {r' : Run}, w.decision label = some d → d.task = vt.task →
      d.writes = [r'] → r'.runId = r.runId → r'.task = r.task →
      Waiting op now result (boundRun r₀ result delivery publish) r' →
      StillWaiting (w.step label).store id (taskKey r.task) vt.task op now result
        (boundRun r₀ result delivery publish) := by
    intro d r' hd htask hwrites hid hrtask hwaiting'
    obtain ⟨hruns, -, ⟨vt', hvt', htask'⟩, -⟩ := hw.stored hd
    have hr' := hruns r' (by rw [hwrites]; exact List.mem_singleton_self _)
    rw [hid, hw.store.runKeyed hr] at hr'
    have hkey : taskKey d.task.task = taskKey r.task := by rw [htask, hw.store.taskKeyed hvt]
    refine ⟨r', vt', hr', by rw [hrtask], hkey ▸ hvt', htask'.trans htask, ?_, hwaiting'⟩
    rw [hwaiting'.live, ← hwaiting.live]
    exact hlive
  have helse : ∀ {vt'' : VersionedTask}, (w.step label).store.runs.get id = some r →
      (w.step label).store.tasks.get (taskKey r.task) = some vt'' → vt''.task = vt.task →
      StillWaiting (w.step label).store id (taskKey r.task) vt.task op now result
        (boundRun r₀ result delivery publish) := fun hr'' hvt'' htask =>
    ⟨r, _, hr'', rfl, hvt'', htask, hlive, hwaiting⟩
  have hrunStep : ∀ {runId cleanupId : String} {later : Time} {runOp : RunOp},
      label = .onRun runId later cleanupId runOp →
      StillWaiting (w.step label).store id (taskKey r.task) vt.task op now result
        (boundRun r₀ result delivery publish) := by
    rintro runId cleanupId later runOp rfl
    cases hd : w.decision (.onRun runId later cleanupId runOp) with
    | none =>
      rw [World.onRun_refused hd]
      exact hstill
    | some d =>
      obtain ⟨vt₁, r₁, d₀, hr₁, hvt₁, hdecide, hattach, heffect⟩ := hw.onRun_decided hd
      by_cases hid : runId = id
      · subst hid
        obtain rfl : r₁ = r := Option.some.inj (hr₁.symm.trans hr)
        obtain rfl : vt₁ = vt := Option.some.inj (hvt₁.symm.trans hvt)
        obtain ⟨r', htask, hwrites, hid, hrtask, hwaiting'⟩ :=
          hwaiting.own_step hlive (hlater later rfl) hlabel hdecide hattach
        exact hown hd htask hwrites hid hrtask hwaiting'
      · obtain ⟨vt'', hr'', hvt'', htask⟩ := hw.elsewhere hd hvt₁ heffect hr hvt
          (by rw [hw.store.runKeyed hr₁]; exact hid) fun hkey => by
            rw [attachCleanup_task hattach]
            exact hlabel.dead_task hid (hw.store.settled_beside hr hlive hr₁ hid hkey) hdecide
        exact helse hr'' hvt'' htask
  have hdirectStep : ∀ {runId operationId claimFingerprint : String} {later : Time}
      {change : CredentialChange},
      label = .direct runId later (.changeCredentialOperation operationId claimFingerprint change) →
      (∀ restored sequence, change ≠ .finish restored sequence) →
      StillWaiting (w.step label).store id (taskKey r.task) vt.task op now result
        (boundRun r₀ result delivery publish) := by
    rintro runId operationId claimFingerprint later change rfl hchange
    cases hd : w.decision (.direct runId later
        (.changeCredentialOperation operationId claimFingerprint change)) with
    | none =>
      rw [World.direct_refused hd]
      exact hstill
    | some d =>
      obtain ⟨vt₁, r₁, hr₁, hvt₁, hdecide, heffect⟩ := hw.direct_decided hd
      have htask₁ : d.task = vt₁.task := changeCredentialOperation_task hchange hdecide
      by_cases hid : runId = id
      · subst hid
        obtain rfl : r₁ = r := Option.some.inj (hr₁.symm.trans hr)
        obtain rfl : vt₁ = vt := Option.some.inj (hvt₁.symm.trans hvt)
        obtain ⟨op', hnamed, hchanged⟩ := changeCredentialOperation_ok hdecide
        have hkept : ∀ {op₂ : CredentialOperation}, op₂.id = op'.id →
            op₂.claimFingerprint = op'.claimFingerprint → ∀ o, r₁.credentialOperation = some o →
            ∃ o', some op₂ = some o' ∧ o'.id = o.id ∧ o'.claimFingerprint = o.claimFingerprint := by
          rintro op₂ hid₂ hfingerprint o ho
          obtain rfl : op' = o := Option.some.inj (hnamed.operation.symm.trans ho)
          exact ⟨op₂, rfl, hid₂, hfingerprint⟩
        cases hchanged with
        | prepare =>
          exact hown hd rfl rfl rfl rfl (hwaiting.of_same rfl rfl rfl rfl (hkept rfl rfl))
        | acknowledge =>
          exact hown hd rfl rfl rfl rfl (hwaiting.of_same rfl rfl rfl rfl (hkept rfl rfl))
        | retryRecovery =>
          exact hown hd rfl rfl rfl rfl (hwaiting.of_same rfl rfl rfl rfl (hkept rfl rfl))
        | finish restored sequence => exact absurd rfl (hchange restored sequence)
        | complete restored => exact absurd rfl (hchange restored _)
      · obtain ⟨vt'', hr'', hvt'', htask⟩ := hw.elsewhere hd hvt₁ heffect hr hvt
          (by rw [hw.store.runKeyed hr₁]; exact hid) fun _ => htask₁
        exact helse hr'' hvt'' htask
  cases hlabel with
  | renew => exact hrunStep rfl
  | report => exact hrunStep rfl
  | sweep => exact hrunStep rfl
  | exit => exact hrunStep rfl
  | prepare => exact hdirectStep rfl (fun _ _ h => (by cases h))
  | acknowledge => exact hdirectStep rfl (fun _ _ h => (by cases h))

end Steps

theorem StillWaiting.run {w : World} {id k : String} {t : Task} {op : CredentialOperation} {now : Time}
    {result : RunResult} {delivery : Option DeliveryBinding} {publish : Bool} {r₀ : Run}
    (hw : w.Coherent)
    (h : StillWaiting w.store id k t op now result (boundRun r₀ result delivery publish))
    {mid : List Step} (hmid : ∀ label ∈ mid, Meanwhile id result delivery publish label)
    (hlater : ∀ label ∈ mid, ∀ later ∈ label.clock, now ≤ later) :
    (w.run mid).Coherent ∧ StillWaiting (w.run mid).store id k t op now result
      (boundRun r₀ result delivery publish) := by
  refine Machine.Along.invariant (C := fun _ label => Meanwhile id result delivery publish label ∧
    ∀ later ∈ label.clock, now ≤ later) (fun w : World => w.Coherent ∧ StillWaiting w.store id k t op
      now result (boundRun r₀ result delivery publish)) ?_ ⟨hw, h⟩ ?_
  · rintro w label ⟨hw, h⟩ ⟨hlabel, hclock⟩
    exact ⟨hw.step label, h.step hw hlabel hclock⟩
  · exact Machine.Along.of_forall_mem fun label hmem => ⟨hmid label hmem, hlater label hmem⟩

/-! ### The finish -/

section Finish

variable {op op' : CredentialOperation} {now later : Time} {result : RunResult} {bound r : Run}
  {t : Task} {restored : Bool}

/-- The finish of an operation whose result waits settles the run. -/
theorem Waiting.finish (h : Waiting op now result bound r) (hlive : isLive r.state = true)
    (hlock : t.activeRunId = some r.runId) (hclaim : isClaimant r op.claimFingerprint = true)
    (hop : r.credentialOperation = some op') (hmutation : op'.mutation = none) (later : Time)
    (restored : Bool) :
    changeCredentialOperation later t r op'.id op'.claimFingerprint
        (.finish restored (some op'.mutationSequence)) =
      .ok (reportDecision later t (operationFinished r op' restored op'.claimFingerprint) result) := by
  obtain ⟨op₁, hop₁, -, hfingerprint⟩ := h.operation
  obtain rfl : op₁ = op' := Option.some.inj (hop₁.symm.trans hop)
  have hqueue : (operationFinished r op₁ restored op₁.claimFingerprint).queue = r.queue :=
    operationFinished_live hlive
  have hpending : (operationFinished r op₁ restored op₁.claimFingerprint).credentialPendingResult =
      some { claimFingerprint := op.claimFingerprint, requestedAt := now, result } := h.pending
  have hclaimant : isClaimant (operationFinished r op₁ restored op₁.claimFingerprint)
      op.claimFingerprint = true := by
    unfold isClaimant Run.queueState Run.tokenHash
    rw [hqueue]
    exact hclaim
  have hadmitted : reportAdmitted later t (operationFinished r op₁ restored op₁.claimFingerprint)
      result (some op.claimFingerprint) = true := by
    have htoken := hclaimant
    simp only [isClaimant, decide_eq_true_eq] at htoken
    have hat : admittedAt later (operationFinished r op₁ restored op₁.claimFingerprint) = now := by
      simp [admittedAt, hpending]
    simp only [reportAdmitted, decide_eq_true_eq, hat, hpending, Option.all_some, hclaimant, true_and]
    refine ⟨hlive, hlock, ⟨htoken.2.symm, by simp [sameReport]⟩, ?_, fun _ => ?_⟩
    · have hstarted := h.started
      unfold startDeadlineElapsed at hstarted ⊢
      rwa [hqueue]
    · have hrecoverable := h.recoverable
      unfold recoveryDeadlineElapsed runRecoveryDeadline at hrecoverable ⊢
      rwa [hqueue]
  have hsome : r.credentialPendingResult.isSome = true := by rw [h.pending]; rfl
  unfold changeCredentialOperation
  simp only [hop, hfingerprint, hclaim, hmutation, h.pending, ne_eq, not_true_eq_false, or_self,
    if_false, Option.isSome_none, Bool.false_eq_true, and_false]
  rw [hfingerprint] at hadmitted
  rw [reportResult_eq hadmitted]
  rfl

/-- A finish is refused once the recovery deadline had passed when the report was taken. -/
theorem finish_elapsed {authority : Option ProviderFallbackAuthority}
    {operationId claimFingerprint : String} {sequence : Option Nat}
    {eligibility : Option QueueEligibilitySnapshot} {d : Decision} {p : CredentialPendingResult}
    (hlive : isLive r.state = true) (hpending : r.credentialPendingResult = some p)
    (helapsed : recoveryDeadlineElapsed r p.requestedAt = true)
    (h : finishWithFallback authority operationId claimFingerprint restored sequence later t r
      eligibility = .ok d) : False := by
  obtain ⟨outcome, houtcome, -⟩ := bind_eq_ok.1 h
  obtain ⟨op, -, hchange⟩ := changeCredentialOperation_ok houtcome
  cases hchange with
  | finish _ _ _ hnone =>
    rw [hpending] at hnone
    cases hnone
  | complete _ pending _ hpending' hadmitted =>
    obtain rfl : p = pending := Option.some.inj (hpending.symm.trans hpending')
    have hqueue : (operationFinished r op restored op.claimFingerprint).queue = r.queue :=
      operationFinished_live hlive
    have hat : admittedAt later (operationFinished r op restored op.claimFingerprint) =
        p.requestedAt := by
      simp [admittedAt, operationFinished, hpending]
    simp only [reportAdmitted, decide_eq_true_eq, hat, Option.isSome_some, forall_const] at hadmitted
    have hrecoverable := hadmitted.2.2.2.2.2
    unfold recoveryDeadlineElapsed runRecoveryDeadline at hrecoverable helapsed
    rw [hqueue] at hrecoverable
    exact Bool.false_ne_true (hrecoverable.symm.trans helapsed)

end Finish

/-! ### A deferred completion settles like an immediate one -/

/-- A report under given fallback lists, in both forms `Orchestrator.report` has. -/
def reportUnder (now : Time) (task : Task) (run : Run) (result : RunResult)
    (claimFingerprint : Option String) (delivery : Option DeliveryBinding) (publish : Bool)
    (authorized available : List String) : Outcome :=
  if result.ok = false then
    reportResultWithFallback now task run result claimFingerprint authorized available
  else plainReport now task run result claimFingerprint delivery publish

/-- The lists a fallback authority gives; without one nothing is authorized. -/
def fallbackLists (authority : Option ProviderFallbackAuthority) (task : Task) (run : Run)
    (eligibility : Option QueueEligibilitySnapshot) (now : Time) : List String × List String :=
  match authority with
  | none => ([], [])
  | some authority => (authority.allowedPipelines task run, authority.available eligibility now)

/-- After whatever came meanwhile, the operation is still there, and once its writes are
acknowledged its finish is accepted, settles the run with the result, and decides what the report
would have decided at once, up to clocks and credential bookkeeping. -/
def CompletesLike (w : World) (id : String) (r : Run) (t : Task) (op : CredentialOperation)
    (now : Time) (result : RunResult) (claimFingerprint : Option String)
    (delivery : Option DeliveryBinding) (publish : Bool) : Prop :=
  ∀ mid finishedAt authority restored,
    (∀ label ∈ mid, Meanwhile id result delivery publish label) →
    (now :: (mid.filterMap Step.clock ++ [finishedAt])).Pairwise (· ≤ ·) →
    ∃ r' op', (w.run mid).store.runs.get id = some r' ∧ r'.credentialOperation = some op' ∧
      op'.id = op.id ∧ op'.claimFingerprint = op.claimFingerprint ∧
      (op'.mutation = none →
        let finish := DirectOp.finishCredentialOperation authority op'.id op'.claimFingerprint restored
          (some op'.mutationSequence)
        let lists := fallbackLists authority t r' ((w.run mid).store.runState id
          finish.eligibilityPipelines (finish.shouldReadQueueEligibility finishedAt)).queueEligibility
          finishedAt
        ∃ d d₀, (Orchestrator.direct (w.run mid).store id finishedAt finish).1 = .ok d ∧
          SettlesWith t r result d ∧
          reportUnder now t { r with credentialOperation := none } result claimFingerprint delivery
            publish lists.1 lists.2 = .ok d₀ ∧
          d.untimed = d₀.untimed)

section Immediate

variable {now : Time} {t : Task} {r : Run} {result : RunResult} {claimFingerprint : Option String}
  {delivery : Option DeliveryBinding} {publish : Bool}

/-- A run that reports success opens no cooldown. -/
theorem cooldown_of_success (h : result.ok = true) :
    providerCooldownForRun (finishedRun now t r result) = none := by
  by_contra hne
  have hstop := (isProviderStop_of_cooldown (Option.isSome_iff_ne_none.2 hne)).1
  simp [RunResult.isProviderStop, h] at hstop

/-- Without authority nothing falls back. -/
theorem settleProviderFallback_unauthorized {d : Decision} {s : Run} (hrun : d.run = some s) :
    settleProviderFallback now d [] [] = .ok d := by
  have hnone : fallbackPipeline s [] [] = none := by
    have hselect : selectFallbackPipeline s [] [] = none := by
      unfold selectFallbackPipeline
      split
      · rfl
      · simp
    simp [fallbackPipeline, hselect]
  unfold settleProviderFallback
  simp only [decidedRun, hrun, bind, Except.bind]
  rw [hnone]
  split <;> rfl

/-- An admitted report decides at once and then falls back. -/
theorem reportUnder_eq (hop : r.credentialOperation = none)
    (hadmitted : reportAdmitted now t (boundRun r result delivery publish) result claimFingerprint =
      true)
    (hstale : result.ok = true → staleDelivery r result delivery = false)
    (authorized available : List String) :
    reportUnder now t r result claimFingerprint delivery publish authorized available =
      settleProviderFallback now (reportDecision now t (boundRun r result delivery publish) result)
        authorized available := by
  have hop₀ : (boundRun r result delivery publish).credentialOperation = none := hop
  unfold reportUnder
  by_cases hok : result.ok = true
  · rw [if_neg (by simp [hok]), plainReport, if_neg (by simp [hstale hok]),
      reportedRun_eq_bound (by simp [hstale hok]), reportResult_eq hadmitted, hop₀]
    unfold settleProviderFallback
    simp only [decidedRun, reportDecision_run, bind, Except.bind, cooldown_of_success hok]
    rfl
  · have hfail : result.ok = false := by simpa using hok
    rw [boundRun_failed r delivery publish hfail] at hadmitted hop₀ ⊢
    rw [if_pos hfail, reportResultWithFallback, reportResult_eq hadmitted, hop₀]
    rfl

end Immediate

section Completion

variable {op op' : CredentialOperation} {now later : Time} {result : RunResult}
  {claimFingerprint : Option String} {delivery : Option DeliveryBinding} {publish : Bool}
  {r r' : Run} {t : Task} {authority : Option ProviderFallbackAuthority} {restored : Bool}
  {eligibility : Option QueueEligibilitySnapshot}

/-- The finish of a waiting result settles it and then falls back. -/
theorem Waiting.finish_falls_back {bound : Run} (h : Waiting op now result bound r')
    (hlive : isLive r'.state = true) (hlock : t.activeRunId = some r'.runId)
    (hclaim : isClaimant r' op.claimFingerprint = true)
    (hop : r'.credentialOperation = some op') (hmutation : op'.mutation = none) :
    finishWithFallback authority op'.id op'.claimFingerprint restored (some op'.mutationSequence) later
        t r' eligibility =
      settleProviderFallback later
        (reportDecision later t (operationFinished r' op' restored op'.claimFingerprint) result)
        (fallbackLists authority t r' eligibility later).1
        (fallbackLists authority t r' eligibility later).2 := by
  unfold AgentLcars.finishWithFallback
  rw [h.finish hlive hlock hclaim hop hmutation later restored]
  simp only [bind, Except.bind]
  cases authority with
  | none =>
    simp only [fallbackLists]
    exact (settleProviderFallback_unauthorized (reportDecision_run later t _ result)).symm
  | some authority =>
    dsimp only [fallbackLists]
    rw [if_neg (by rw [h.pending]; exact Option.some_ne_none _)]

theorem settledResult_congr {s : Run} (h : s.sourceRevision = r.sourceRevision) :
    settledResult t s result = settledResult t r result := by
  unfold settledResult
  rw [h]

theorem Succeedable.of_same {s : Run} (h : Succeedable t r) (hparams : s.params = r.params)
    (hissue : s.issue = r.issue) : Succeedable t s :=
  ⟨h.isOpen, by rw [hparams]; exact h.carried, by rw [hissue]; exact h.source⟩

/-- The finish decides what the report would have decided at once. -/
theorem Waiting.completes (h : Waiting op now result (boundRun r result delivery publish) r')
    (hlive : isLive r'.state = true) (hlock : t.activeRunId = some r'.runId)
    (hclaim : isClaimant r op.claimFingerprint = true) (hsucceedable : Succeedable t r)
    (hadmitted : reportAdmitted now t (boundRun r result delivery publish) result claimFingerprint =
      true)
    (hstale : result.ok = true → staleDelivery r result delivery = false)
    (hop : r'.credentialOperation = some op') (hmutation : op'.mutation = none) :
    ∃ d d₀, finishWithFallback authority op'.id op'.claimFingerprint restored
        (some op'.mutationSequence) later t r' eligibility = .ok d ∧
      SettlesWith t r result d ∧
      reportUnder now t { r with credentialOperation := none } result claimFingerprint delivery publish
        (fallbackLists authority t r' eligibility later).1
        (fallbackLists authority t r' eligibility later).2 = .ok d₀ ∧
      d.untimed = d₀.untimed := by
  have hqueue : (r'.queue.map (·.untimed)) = r.queue.map (·.untimed) := by
    show r'.untimed.queue = (boundRun r result delivery publish).untimed.queue
    rw [h.same]
  have hclaim' : isClaimant r' op.claimFingerprint = true := by
    have hstate : r'.queueState = r.queueState := by
      have hstate := congrArg (Option.map RunQueue.state) hqueue
      simpa [Run.queueState, Function.comp_def, RunQueue.untimed] using hstate
    have htoken : r'.tokenHash = r.tokenHash := by
      have htoken := congrArg (fun q => Option.bind q RunQueue.tokenHash) hqueue
      simpa [Run.tokenHash, Function.comp_def, RunQueue.untimed, Option.bind_map] using htoken
    unfold isClaimant
    rw [hstate, htoken]
    exact hclaim
  have hnext : (operationFinished r' op' restored op'.claimFingerprint).untimed =
      (boundRun { r with credentialOperation := none } result delivery publish).untimed := by
    have hfinished : (operationFinished r' op' restored op'.claimFingerprint).untimed = r'.untimed := by
      simp only [Run.untimed, operationFinished_live hlive]
      rfl
    rw [hfinished, h.same]
    rfl
  have hparams : r'.params = r.params := by
    show r'.untimed.params = (boundRun r result delivery publish).untimed.params
    rw [h.same]
  have hissue : r'.issue = r.issue := by
    show r'.untimed.issue = (boundRun r result delivery publish).untimed.issue
    rw [h.same]
  have hrevision : r'.sourceRevision = r.sourceRevision := by
    show r'.untimed.sourceRevision = (boundRun r result delivery publish).untimed.sourceRevision
    rw [h.same]
  have hdecisions : (reportDecision later t (operationFinished r' op' restored op'.claimFingerprint)
      result).untimed = (reportDecision now t
        (boundRun { r with credentialOperation := none } result delivery publish) result).untimed := by
    rw [untimed_reportDecision, hnext, ← untimed_reportDecision]
  have hrun := reportDecision_run later t (operationFinished r' op' restored op'.claimFingerprint) result
  obtain ⟨d, d₀, hd, hd₀, hsame⟩ := untimed_settleProviderFallback hdecisions hrun
    (reportDecision_run now t _ result)
    ((hsucceedable.of_same (s := operationFinished r' op' restored op'.claimFingerprint) hparams
      hissue).decided later result)
    ((hsucceedable.of_same (s := boundRun { r with credentialOperation := none } result delivery
      publish) rfl rfl).decided now result)
    (fallbackLists authority t r' eligibility later).1
    (fallbackLists authority t r' eligibility later).2
  refine ⟨d, d₀, ?_, ?_, ?_, hsame⟩
  · rw [h.finish_falls_back hlive hlock hclaim' hop hmutation, hd]
  · refine ⟨_, settleProviderFallback_run hrun hd, rfl, ?_⟩
    exact congrArg some (settledResult_congr hrevision)
  · exact (reportUnder_eq (r := { r with credentialOperation := none }) rfl hadmitted hstale _ _).trans
      hd₀

end Completion

/-- An outstanding write can be acknowledged, which leaves the claim and the deadlines alone. -/
theorem World.Coherent.acknowledged {w : World} (hw : w.Coherent) {id : String} {x : Run}
    {vt : VersionedTask} {op : CredentialOperation} {mutation : CredentialMutation}
    (hx : w.store.runs.get id = some x) (hvt : w.store.tasks.get (taskKey x.task) = some vt)
    (hop : x.credentialOperation = some op) (hclaim : isClaimant x op.claimFingerprint = true)
    (hmutation : op.mutation = some mutation) (now : Time) :
    ∃ x' vt', (w.step (.direct id now (.changeCredentialOperation op.id op.claimFingerprint
        (.acknowledge mutation.id none)))).store.runs.get id = some x' ∧
      (w.step (.direct id now (.changeCredentialOperation op.id op.claimFingerprint
        (.acknowledge mutation.id none)))).store.tasks.get (taskKey x'.task) = some vt' ∧
      x'.credentialOperation = some { op with mutation := none } ∧ x'.state = x.state ∧
      x'.queue = x.queue ∧ x'.leaseExpiresAt = x.leaseExpiresAt ∧
      x'.credentialPendingResult = x.credentialPendingResult := by
  have hack : changeCredentialOperation now vt.task x op.id op.claimFingerprint
      (.acknowledge mutation.id none) = .ok
        { task := vt.task
          run := some { x with
            credentialOperation := some { op with mutation := none }
            updatedAt := now } } := by
    unfold changeCredentialOperation
    simp only [hop, hclaim, hmutation, ne_eq, not_true_eq_false, or_self, if_false, Option.map_some,
      Option.none_or]
  have hd : w.decision (.direct id now (.changeCredentialOperation op.id op.claimFingerprint
      (.acknowledge mutation.id none))) = some
        { task := vt.task
          run := some { x with
            credentialOperation := some { op with mutation := none }
            updatedAt := now } } := by
    simp only [World.decision]
    rw [hw.store.direct_outcome hx hvt]
    exact congrArg Except.toOption hack
  obtain ⟨hruns, -, ⟨vt', hvt', -⟩, -⟩ := hw.stored hd
  have hrun := hruns _ (List.mem_singleton_self _)
  simp only [hw.store.runKeyed hx] at hrun
  simp only [hw.store.taskKeyed hvt] at hvt'
  exact ⟨_, vt', hrun, hvt', rfl, rfl, rfl, rfl, rfl⟩

section Deferred

variable {steps : List Step} {id : String} {r : Run} {vt : VersionedTask} {op : CredentialOperation}
  (hr : (World.init.run steps).store.runs.get id = some r)
  (hvt : (World.init.run steps).store.tasks.get (taskKey r.task) = some vt)
  (hop : r.credentialOperation = some op) (hnew : r.credentialPendingResult = none)
  {now : Time} {cleanupId : String} {authority : Option ProviderFallbackAuthority}
  {result : RunResult} {claimFingerprint : Option String} {delivery : Option DeliveryBinding}
  {publish : Bool} {d : Decision}
  (haccepted : (Orchestrator.onRun (World.init.run steps).store id now cleanupId
    (.report authority result claimFingerprint delivery publish)).1 = .ok d)
include hr hvt hop hnew haccepted

/-- What an accepted report leaves while the operation is outstanding. -/
theorem deferred_store :
    reportAdmitted now vt.task (boundRun r result delivery publish) result claimFingerprint = true ∧
      (result.ok = true → staleDelivery r result delivery = false) ∧
      ∃ vt', ((World.init.run steps).step (.onRun id now cleanupId
          (.report authority result claimFingerprint delivery publish))).store.runs.get id =
            some (deferredRun now (boundRun r result delivery publish) op result) ∧
        ((World.init.run steps).step (.onRun id now cleanupId
          (.report authority result claimFingerprint delivery publish))).store.tasks.get
            (taskKey r.task) = some vt' ∧ vt'.task = vt.task := by
  have hw : (World.init.run steps).Coherent := World.coherent_run steps
  have hd : (World.init.run steps).decision (.onRun id now cleanupId
      (.report authority result claimFingerprint delivery publish)) = some d := by
    simp [World.decision, haccepted, Except.toOption]
  obtain ⟨vt₁, r₁, d₀, hr₁, hvt₁, hdecide, hattach, -⟩ := hw.onRun_decided hd
  obtain rfl : r₁ = r := Option.some.inj (hr₁.symm.trans hr)
  obtain rfl : vt₁ = vt := Option.some.inj (hvt₁.symm.trans hvt)
  obtain ⟨hadmitted, hstale, hform⟩ := report_admitted hdecide
  have hlive := (reportAdmitted_live hadmitted).1
  rw [hform op hop, attachCleanup_same fun s hs => .inr (by
    obtain rfl := Option.some.inj hs
    exact hlive)] at hattach
  obtain rfl := Except.ok.inj hattach
  obtain ⟨hruns, -, ⟨vt', hvt', htask⟩, -⟩ := hw.stored hd
  have hrun := hruns (deferredRun now (boundRun r₁ result delivery publish) op result)
    (List.mem_singleton_self _)
  have hid : (deferredRun now (boundRun r₁ result delivery publish) op result).runId = id := by
    show r₁.runId = id
    exact hw.store.runKeyed hr
  refine ⟨hadmitted, hstale, vt', hid ▸ hrun, ?_, htask⟩
  rw [← hw.store.taskKeyed hvt]
  exact hvt'

/-- A report taken before the recovery deadline is settled by the finish of the operation. -/
theorem completes_of_recoverable (hrecoverable : recoveryDeadlineElapsed r now = false) :
    CompletesLike ((World.init.run steps).step (.onRun id now cleanupId
      (.report authority result claimFingerprint delivery publish))) id r vt.task op now result
      claimFingerprint delivery publish := by
  have hw : (World.init.run steps).Coherent := World.coherent_run steps
  obtain ⟨hadmitted, hstale, vt', hrun, hvt', htask⟩ := deferred_store hr hvt hop hnew haccepted
  obtain ⟨hlive, hlock⟩ := reportAdmitted_live hadmitted
  have hsucceedable : Succeedable vt.task r :=
    hw.store.succeedable (World.deliveriesCarried_run steps) hr hvt hlock
  have hclaim : isClaimant r op.claimFingerprint = true := by
    have hfenced := (World.fences_run steps).fenced hr hop
    simp [isClaimant, hfenced.claimed, hfenced.token]
  have hpending : (deferredRun now (boundRun r result delivery publish) op
      result).credentialPendingResult =
        some { claimFingerprint := op.claimFingerprint, requestedAt := now, result } := by
    show r.credentialPendingResult.or _ = _
    rw [hnew]
    rfl
  have hstarted : startDeadlineElapsed r now = false := by
    simp only [reportAdmitted, decide_eq_true_eq] at hadmitted
    have hat : admittedAt now (boundRun r result delivery publish) = now := by
      show (r.credentialPendingResult.map _).getD now = now
      rw [hnew]
      rfl
    have hstarted := hadmitted.2.2.2.2.1
    rw [hat] at hstarted
    exact hstarted
  have hwaiting : Waiting op now result (boundRun r result delivery publish)
      (deferredRun now (boundRun r result delivery publish) op result) :=
    ⟨rfl, ⟨op, hop, rfl, rfl⟩, hpending, hstarted, hrecoverable⟩
  intro mid finishedAt authority' restored hmid hclocks
  have hlater : ∀ label ∈ mid, ∀ later ∈ label.clock, now ≤ later := by
    intro label hlabel later hclock
    refine (List.pairwise_cons.1 hclocks).1 later (List.mem_append_left _ ?_)
    exact List.mem_filterMap.2 ⟨label, hlabel, hclock⟩
  obtain ⟨hw', r', vt'', hr', hkey, hvt'', htask'', hlive', hwaiting'⟩ := StillWaiting.run (hw.step _)
    ⟨_, vt', hrun, rfl, hvt', htask, hlive, hwaiting⟩ hmid hlater
  obtain ⟨op', hop', hid', hfingerprint⟩ := hwaiting'.operation
  refine ⟨r', op', hr', hop', hid', hfingerprint, fun hmutation => ?_⟩
  dsimp only
  have hvt₂ := hvt''
  rw [← hkey] at hvt₂
  have hlock' : vt.task.activeRunId = some r'.runId := by
    rw [← htask'', hw'.store.mutex hr' hvt₂ hlive', hw'.store.runKeyed hr']
  rw [hw'.store.direct_outcome hr' hvt₂, htask'']
  exact hwaiting'.completes hlive' hlock' hclaim hsucceedable hadmitted hstale hop' hmutation

/-- A report taken after the recovery deadline is refused by the finish of the operation. -/
theorem recoverable_of_completes
    (h : CompletesLike ((World.init.run steps).step (.onRun id now cleanupId
      (.report authority result claimFingerprint delivery publish))) id r vt.task op now result
      claimFingerprint delivery publish) : recoveryDeadlineElapsed r now = false := by
  have hw : (World.init.run steps).Coherent := World.coherent_run steps
  obtain ⟨hadmitted, -, vt', hrun, hvt', -⟩ := deferred_store hr hvt hop hnew haccepted
  have hlive : isLive r.state = true := (reportAdmitted_live hadmitted).1
  by_contra helapsed
  have helapsed : recoveryDeadlineElapsed r now = true := by simpa using helapsed
  have hfenced := (World.fences_run steps).fenced hr hop
  -- a finish of a run with the same claim and the same deadlines is refused
  have hrefused : ∀ {w : World} {x : Run} {vt₁ : VersionedTask} {op₁ : CredentialOperation},
      w.Coherent → w.store.runs.get id = some x → w.store.tasks.get (taskKey x.task) = some vt₁ →
      x.state = r.state → x.queue = r.queue → x.leaseExpiresAt = r.leaseExpiresAt →
      x.credentialPendingResult =
        some { claimFingerprint := op.claimFingerprint, requestedAt := now, result } →
      ∀ d, (Orchestrator.direct w.store id now (.finishCredentialOperation none op₁.id
        op₁.claimFingerprint false (some op₁.mutationSequence))).1 ≠ .ok d := by
    intro w x vt₁ op₁ hw hx hvt₁ hstate hqueue hlease hpending d hd
    rw [hw.store.direct_outcome hx hvt₁] at hd
    simp only [DirectOp.decide] at hd
    refine finish_elapsed (by rw [hstate]; exact hlive) hpending ?_ hd
    unfold recoveryDeadlineElapsed runRecoveryDeadline at helapsed ⊢
    rwa [hqueue, hlease]
  have hpending : (deferredRun now (boundRun r result delivery publish) op
      result).credentialPendingResult =
        some { claimFingerprint := op.claimFingerprint, requestedAt := now, result } := by
    show r.credentialPendingResult.or _ = _
    rw [hnew]
    rfl
  cases hmutation : op.mutation with
  | none =>
    obtain ⟨r', op', hr', hop', -, -, hfinish⟩ := h [] now none false (by simp) (by simp)
    obtain rfl : deferredRun now (boundRun r result delivery publish) op result = r' :=
      Option.some.inj (hrun.symm.trans hr')
    obtain rfl : op = op' := Option.some.inj (hop.symm.trans hop')
    obtain ⟨d', -, hd', -⟩ := hfinish hmutation
    exact hrefused (hw.step _) hrun hvt' rfl rfl rfl hpending d' hd'
  | some mutation =>
    generalize hw₁ : (World.init.run steps).step (.onRun id now cleanupId
      (.report authority result claimFingerprint delivery publish)) = w₁ at h hrun hvt'
    have hw₁c : w₁.Coherent := hw₁ ▸ hw.step _
    have hclaim : isClaimant (deferredRun now (boundRun r result delivery publish) op result)
        op.claimFingerprint = true := by
      show decide (r.queueState = some .claimed ∧ r.tokenHash = some op.claimFingerprint) = true
      simp [hfenced.claimed, hfenced.token]
    -- the outstanding write is acknowledged first
    obtain ⟨x, vt₂, hx, hvt₂, hopx, hstate, hqueue, hlease, hpendingx⟩ :=
      hw₁c.acknowledged hrun hvt' hop hclaim hmutation now
    obtain ⟨r', op', hr', hop', -, -, hfinish⟩ := h [.direct id now (.changeCredentialOperation op.id
      op.claimFingerprint (.acknowledge mutation.id none))] now none false
      (by
        intro label hlabel
        rw [List.mem_singleton.1 hlabel]
        exact .acknowledge ..)
      (by simp [Step.clock])
    obtain rfl : x = r' := Option.some.inj (hx.symm.trans hr')
    obtain rfl : { op with mutation := none } = op' := Option.some.inj (hopx.symm.trans hop')
    obtain ⟨d', -, hd', -⟩ := hfinish rfl
    exact hrefused (hw₁c.step _) hx hvt₂ hstate hqueue hlease (hpendingx.trans hpending) d' hd'

end Deferred

/-- A deferred report settles like an immediate one exactly if the recovery deadline of its run had
not passed when it was taken. -/
theorem World.deferred_completion (steps : List Step) (id : String) (r : Run) (vt : VersionedTask)
    (op : CredentialOperation) (now : Time) (cleanupId : String)
    (authority : Option ProviderFallbackAuthority) (result : RunResult)
    (claimFingerprint : Option String) (delivery : Option DeliveryBinding) (publish : Bool)
    (d : Decision) (hr : (World.init.run steps).store.runs.get id = some r)
    (hvt : (World.init.run steps).store.tasks.get (taskKey r.task) = some vt)
    (hop : r.credentialOperation = some op) (hnew : r.credentialPendingResult = none)
    (haccepted : (Orchestrator.onRun (World.init.run steps).store id now cleanupId
      (.report authority result claimFingerprint delivery publish)).1 = .ok d) :
    CompletesLike ((World.init.run steps).step (.onRun id now cleanupId
        (.report authority result claimFingerprint delivery publish))) id r vt.task op now result
        claimFingerprint delivery publish ↔ recoveryDeadlineElapsed r now = false :=
  ⟨recoverable_of_completes hr hvt hop hnew haccepted,
    completes_of_recoverable hr hvt hop hnew haccepted⟩

/-- A report of success. -/
def Sample.success : RunResult :=
  { ok := true, summary := none, ref := none, relatedRefs := none, message := none
    humanNeededActions := none }

/-- The claimed run shows up and reserves a renewal. -/
def Sample.renewing : List Step :=
  Sample.claimed "codex" ++
    [.onRun Sample.runId 3 "cleanup" (.renew (some "token") true),
      .direct Sample.runId 4 (.reserveCredentialOperation "token" "op" .renew)]

/-- The run that renews its credentials, with what the reports below need to know of it. -/
theorem Sample.renewing_run :
    ∃ r vt op, (World.init.run Sample.renewing).store.runs.get Sample.runId = some r ∧
      (World.init.run Sample.renewing).store.tasks.get (taskKey r.task) = some vt ∧
      r.credentialOperation = some op ∧ r.credentialPendingResult = none ∧
      recoveryDeadlineElapsed r 5 = false ∧ recoveryDeadlineElapsed r 8000000 = true := by
  have hfound : (((World.init.run Sample.renewing).store.runs.get Sample.runId).any fun r =>
      ((World.init.run Sample.renewing).store.tasks.get (taskKey r.task)).isSome ∧
        r.credentialOperation.isSome ∧ r.credentialPendingResult = none ∧
        recoveryDeadlineElapsed r 5 = false ∧ recoveryDeadlineElapsed r 8000000 = true) = true := by
    decide +kernel
  obtain ⟨r, hr, hfacts⟩ := (Option.any_eq_true _ _).1 hfound
  rw [decide_eq_true_eq] at hfacts
  obtain ⟨hvt, hop, hnew, hearly, hlate⟩ := hfacts
  obtain ⟨vt, hvt⟩ := Option.isSome_iff_exists.1 hvt
  obtain ⟨op, hop⟩ := Option.isSome_iff_exists.1 hop
  exact ⟨r, vt, op, hr, hvt, hop, hnew, hearly, hlate⟩

theorem exists_of_toOption {outcome : Outcome} (h : outcome.toOption.isSome = true) :
    ∃ d, outcome = .ok d := by
  cases outcome with
  | error stop => cases h
  | ok d => exact ⟨d, rfl⟩

theorem World.deferred_completion_renewing :
    ∃ (r : Run) (vt : VersionedTask) (op : CredentialOperation), (World.init.run Sample.renewing).store.runs.get Sample.runId = some r ∧
      CompletesLike ((World.init.run Sample.renewing).step (.onRun Sample.runId 5 "cleanup"
        (.report none Sample.success (some "token") none false))) Sample.runId r vt.task op 5
        Sample.success (some "token") none false := by
  obtain ⟨r, vt, op, hr, hvt, hop, hnew, hearly, -⟩ := Sample.renewing_run
  obtain ⟨d, hd⟩ := exists_of_toOption (show ((Orchestrator.onRun
    (World.init.run Sample.renewing).store Sample.runId 5 "cleanup"
      (.report none Sample.success (some "token") none false)).1).toOption.isSome = true by
        decide +kernel)
  exact ⟨r, vt, op, hr, (World.deferred_completion _ _ r vt op _ _ _ _ _ _ _ d hr hvt hop hnew
    hd).2 hearly⟩

/-- An internal report after the recovery deadline is taken, and its finish is refused. -/
theorem World.late_report_wedges :
    ¬∀ (steps : List Step) (id : String) (r : Run) (vt : VersionedTask) (op : CredentialOperation)
      (now : Time) (cleanupId : String) (authority : Option ProviderFallbackAuthority)
      (result : RunResult) (claimFingerprint : Option String) (delivery : Option DeliveryBinding)
      (publish : Bool) (d : Decision), (World.init.run steps).store.runs.get id = some r →
      (World.init.run steps).store.tasks.get (taskKey r.task) = some vt →
      r.credentialOperation = some op → r.credentialPendingResult = none →
      (Orchestrator.onRun (World.init.run steps).store id now cleanupId
        (.report authority result claimFingerprint delivery publish)).1 = .ok d →
      CompletesLike ((World.init.run steps).step (.onRun id now cleanupId
        (.report authority result claimFingerprint delivery publish))) id r vt.task op now result
        claimFingerprint delivery publish := by
  intro h
  obtain ⟨r, vt, op, hr, hvt, hop, hnew, -, hlate⟩ := Sample.renewing_run
  obtain ⟨d, hd⟩ := exists_of_toOption (show ((Orchestrator.onRun
    (World.init.run Sample.renewing).store Sample.runId 8000000 "cleanup"
      (.report none Sample.success none none false)).1).toOption.isSome = true by decide +kernel)
  have hcompletes := h _ _ r vt op _ _ _ _ _ _ _ d hr hvt hop hnew hd
  rw [recoverable_of_completes hr hvt hop hnew hd hcompletes] at hlate
  cases hlate

end AgentLcars
