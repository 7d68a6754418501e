import AgentLcars.SealedDecide

/-!
# Reports, losses and observations keep records sealed

The rest of `decide.ts`: what a run reports, how it is lost, what its executor observes of it, and
the decisions about the task alone.
-/

namespace AgentLcars

variable {n : Nat} {now : Time} {t : Task} {r : Run} {d : Decision}

/-! ### Moves that leave the log alone -/

/-- A run touched now, with its publication where it is. -/
theorem Run.Sealed.touch (hr : r.Sealed) (hnow : Roomy now)
    (publication : Option TriagePublication) :
    Run.Sealed { r with triagePublication := publication, updatedAt := now } :=
  ⟨{ hr.parses with updatedAt := hnow.iso }, hr.events, hnow, hr.claimedAt, hr.operation, hr.policy⟩

/-- A run whose queue record is observed or replaced. -/
theorem Run.Sealed.observe (hr : r.Sealed) {queue : Option RunQueue} {lease updated : Time}
    (hlease : isoUtc lease) (hupdated : Roomy updated) (hqueue : ∀ q ∈ queue, RunQueueSchema q)
    (hclaimed : ∀ q ∈ queue, ∀ at_ ∈ q.claimedAt, Roomy at_) :
    Run.Sealed { r with queue, leaseExpiresAt := lease, updatedAt := updated } :=
  ⟨{ hr.parses with queue := hqueue, leaseExpiresAt := hlease, updatedAt := hupdated.iso },
    hr.events, hupdated, hclaimed, hr.operation, hr.policy⟩

theorem runLeaseExpiresAt_iso (hnow : Roomy now) : isoUtc (runLeaseExpiresAt now) :=
  hnow.later (by decide) (le_refl _)

/-! ### Reports -/

theorem deliveryOutbox_sealed (hr : r.Sealed) (hnow : Roomy now) (delivery : DeliveryBinding) :
    ∀ e ∈ deliveryOutbox t r delivery now, e.Sealed n := by
  intro e he
  unfold deliveryOutbox at he
  split_ifs at he
  · unfold finalDeliveryOutbox at he
    split_ifs at he
    · cases he
    · obtain rfl := List.mem_singleton.1 he
      exact freshEntry_sealed hr hnow _ (by decide)
  · obtain rfl := List.mem_singleton.1 he
    have hfresh : (freshEntry ("delivery/" ++ r.runId) .monitorDelivery r now).Sealed n :=
      freshEntry_sealed hr hnow _ (by decide)
    refine ⟨{ hfresh.parses with nextAttemptAt := ?_ }, hfresh.attempts⟩
    intro at_ hat
    obtain rfl := Option.some.inj hat
    exact hnow.later (by decide) (by decide)

theorem reportSettlement_sealed (ht : t.Sealed n) (hr : r.Sealed) (hnow : Roomy now)
    (hlive : isLive r.state = true) {result : RunResult} (hresult : RunResultSchema result) :
    (reportSettlement now t r result).Sealed n :=
  settle_sealed (resetLossBudgets_sealed (releaseLock_sealed ht hnow r.runId))
    (finishedRun_sealed hr hlive hnow hresult) hnow

theorem reportResult_sealed (ht : t.Sealed n) (hr : r.Sealed) (hnow : Roomy now)
    (hn : n + 1 ≤ MAX_SAFE_INTEGER) {result : RunResult} {claimFingerprint : Option String}
    (hresult : RunResultSchema result)
    (h : reportResult now t r result claimFingerprint = .ok d) : d.Sealed (n + 1) := by
  unfold reportResult at h
  simp only [ite_refused_eq_ok, not_not] at h
  obtain ⟨-, -, hlive, -, -, -, -, h⟩ := h
  have hsettled := reportSettlement_sealed ht hr hnow hlive hresult
  split at h
  · rename_i operation hop
    obtain rfl := Except.ok.inj h
    have hoperation := hr.parses.credentialOperation operation hop
    refine (Decision.Sealed.of_run ht ?_ (by simp)).mono (Nat.le_succ n)
    refine ⟨{ hr.parses with credentialPendingResult := ?_, updatedAt := hnow.iso }, hr.events,
      hnow, hr.claimedAt, hr.operation, hr.policy⟩
    intro pending hpending
    rcases Option.or_eq_some_iff.1 hpending with hpending | ⟨-, hpending⟩
    · exact hr.parses.credentialPendingResult pending hpending
    · obtain rfl := Option.some.inj hpending
      exact ⟨hoperation.claimFingerprint, hnow.iso, hresult⟩
  · split at h
    · rename_i delivery hdelivery
      split_ifs at h
      · obtain rfl := Except.ok.inj h
        refine Decision.Sealed.mono ?_ (Nat.le_succ n)
        refine ⟨⟨{ hsettled.task.parses with delivery := ?_ }, hsettled.task.runCount,
          hsettled.task.consecutiveLost⟩, hsettled.runs, fun e he => ?_⟩
        · intro binding hbinding
          obtain rfl := Option.some.inj hbinding
          exact hr.parses.delivery _ hdelivery
        · rcases List.mem_append.1 he with he | he
          · exact hsettled.outbox e he
          · exact deliveryOutbox_sealed (finishedRun_sealed hr hlive hnow hresult) hnow _ e he
      · exact advanceSourceRevision_sealed hsettled hnow hn h
    · exact advanceSourceRevision_sealed hsettled hnow hn h

/-! ### Losses and exits -/

theorem settleLost_sealed (ht : t.Sealed n) (hr : r.Sealed) (hnow : Roomy now)
    (hlive : isLive r.state = true) (hn : n + 1 ≤ MAX_SAFE_INTEGER) (cause : LossCause) :
    (settleLost now t r cause).Sealed (n + 1) := by
  have hreleased := releaseLock_sealed ht hnow r.runId
  have hlost : t.consecutiveLost + 1 ≤ n + 1 := Nat.succ_le_succ ht.consecutiveLost
  refine settle_sealed ⟨?_, Nat.le_succ_of_le hreleased.runCount, hlost⟩
    (lostRun_sealed hr hlive hnow cause) hnow
  exact { hreleased.parses with consecutiveLost := le_trans hlost hn }

theorem lossRetry_bounded (ht : t.Sealed n) (hr : r.Sealed) (hnow : Roomy now)
    (hattempt : r.sourceRevision.isSome = true → r.revisionAttempt.getD 1 ≤ MAX_AUTO_RETRIES) :
    (lossRetry now t r).Bounded n where
  now := hnow
  taskId := hr.parses.task
  task := ht
  issue := hr.parses.issue
  requestId := withinLength_tag hr.parses.runId (by decide)
  pipeline := hr.parses.pipeline
  params := hr.parses.params
  intervention := by simp [lossRetry]
  providerFallback := by
    intro policy hpolicy
    obtain ⟨given, hgiven, rfl⟩ := Option.mem_map.1 hpolicy
    exact hr.policy given hgiven
  sourceRevision := hr.parses.sourceRevision
  revisionAttempt := by
    intro attempt hattempt'
    obtain ⟨revision, hrevision, rfl⟩ := Option.mem_map.1 hattempt'
    have hle : r.revisionAttempt.getD 1 ≤ 2 :=
      hattempt (by rw [Option.mem_def.1 hrevision]; rfl)
    have hmax : 3 ≤ MAX_SAFE_INTEGER := by decide
    simp only [isPositive, decide_eq_true_eq]
    omega

theorem settleLostAndRetry_sealed {loss : Outcome} (hloss : ∀ d, loss = .ok d → d.Sealed n)
    (hnow : Roomy now) (hn : n + 1 ≤ MAX_SAFE_INTEGER)
    (h : settleLostAndRetry now loss = .ok d) : d.Sealed (n + 1) := by
  obtain ⟨lost, hlost, h⟩ := bind_eq_ok.1 h
  obtain ⟨run, hrun, h⟩ := bind_eq_ok.1 h
  have hsealed := hloss lost hlost
  have hsealedRun := hsealed.run (decidedRun_eq_ok.1 hrun)
  have hstands : lost.Sealed (n + 1) := hsealed.mono (Nat.le_succ n)
  split at h
  · obtain rfl := Except.ok.inj h
    exact hstands
  split at h
  · rename_i desired hdesired
    obtain rfl := Except.ok.inj h
    exact revisionSuccessor_sealed hsealed hsealedRun hnow hn hdesired
  · split_ifs at h with hbudget hattempts
    · obtain rfl := Except.ok.inj h
      exact hstands
    · obtain rfl := Except.ok.inj h
      exact hstands
    · obtain rfl := Except.ok.inj h
      refine hstands.followedBy (mintRun_sealed (lossRetry_bounded hsealed.task hsealedRun hnow ?_) hn)
      intro hsome
      by_contra hover
      exact hattempts ⟨hsome, .inr (not_le.1 hover)⟩

theorem expireLeaseAndRetry_sealed (ht : t.Sealed n) (hr : r.Sealed) (hnow : Roomy now)
    (hn : n + 2 ≤ MAX_SAFE_INTEGER) (h : expireLeaseAndRetry now t r = .ok d) :
    d.Sealed (n + 2) := by
  refine settleLostAndRetry_sealed (fun lost hlost => ?_) hnow hn h
  unfold expireLeaseLoss at hlost
  simp only [ite_refused_eq_ok, not_not] at hlost
  obtain ⟨hlive, -, -, -, hlost⟩ := hlost
  obtain rfl := Except.ok.inj hlost
  exact settleLost_sealed ht hr hnow hlive (Nat.le_of_succ_le hn) _

/-- A settled run may record one exit receipt. -/
theorem exitReceipt_sealed (hr : r.Sealed) (hdead : isLive r.state = false) (hnow : Roomy now)
    (hnew : exitObserved r = false) :
    Run.Sealed { r with
      events := r.events ++ [{ at_ := now, to_ := r.state, by_ := .executor,
                               note := some RECIPE_EXIT_PENDING_CREDENTIAL_CLEANUP }] } := by
  have hbefore := hr.events
  have hone : eventsLeft r = 1 := by
    unfold eventsLeft
    cases hstate : r.state <;> simp [hstate, isLive, hnew] at hdead ⊢
  have hevent : RunEventSchema { at_ := now, to_ := r.state, by_ := .executor
                                 note := some RECIPE_EXIT_PENDING_CREDENTIAL_CLEANUP } :=
    ⟨hnow.iso, by simpa using by decide, by simp⟩
  generalize hreceipt : ({ at_ := now, to_ := r.state, by_ := .executor
                           note := some RECIPE_EXIT_PENDING_CREDENTIAL_CLEANUP } : RunEvent) =
    receipt at hevent ⊢
  have hobserved : exitObserved { r with events := r.events ++ [receipt] } = true := by
    simp [exitObserved, ← hreceipt]
  have hnone : eventsLeft { r with events := r.events ++ [receipt] } = 0 := by
    unfold eventsLeft
    rw [hobserved]
    cases hstate : r.state <;> simp [hstate, isLive] at hdead ⊢
  have hlength : (r.events ++ [receipt]).length = r.events.length + 1 := by simp
  have hshort : (r.events ++ [receipt]).length ≤ 64 := by omega
  refine ⟨{ hr.parses with events := ⟨hshort, ?_⟩ },
    show (r.events ++ [receipt]).length + _ ≤ 4 by omega, hr.updatedAt, hr.claimedAt, hr.operation,
    hr.policy⟩
  intro e he
  rcases List.mem_append.1 he with he | he
  · exact hr.parses.events.2 e he
  · obtain rfl := List.mem_singleton.1 he
    exact hevent

theorem retireSettledClaim_sealed (ht : t.Sealed n) (hr : r.Sealed) (hdead : isLive r.state = false)
    (hnow : Roomy now) (h : retireSettledClaim now t r = .ok d) : d.Sealed n := by
  unfold retireSettledClaim at h
  split at h
  · exact absurd h refused_ne_ok
  rename_i queue hqueue
  obtain ⟨-, h⟩ := ite_refused_eq_ok.1 h
  split at h
  · obtain ⟨-, h⟩ := ite_refused_eq_ok.1 h
    obtain rfl := Except.ok.inj h
    refine .of_run ht ?_ (by simp)
    split_ifs with hobserved
    · exact hr
    · exact exitReceipt_sealed hr hdead hnow (by simpa using hobserved)
  · obtain rfl := Except.ok.inj h
    have hretired := hr.retired
    rw [hqueue] at hretired
    exact .of_run ht hretired (by simp)

theorem executorExitedAndRetry_sealed (ht : t.Sealed n) (hr : r.Sealed) (hnow : Roomy now)
    (hn : n + 2 ≤ MAX_SAFE_INTEGER) {claimant : ExitClaimant}
    (h : executorExitedAndRetry now t r claimant = .ok d) : d.Sealed (n + 2) := by
  unfold executorExitedAndRetry at h
  dsimp only at h
  split at h
  · rename_i hsettled
    refine (retireSettledClaim_sealed ht hr ?_ hnow h).mono (Nat.le_add_right n 2)
    obtain ⟨hreason, -⟩ := hsettled
    cases hlive : isLive r.state with
    | false => rfl
    | true =>
      -- a live run is never refused as settled
      unfold executorLoss at hreason
      simp only [hlive, not_true_eq_false, if_false] at hreason
      split_ifs at hreason <;> cases hreason
  · refine settleLostAndRetry_sealed (fun lost hlost => ?_) hnow hn h
    unfold executorLoss at hlost
    simp only [ite_refused_eq_ok, not_not] at hlost
    obtain ⟨-, hlive, -, -, hlost⟩ := hlost
    obtain rfl := Except.ok.inj hlost
    exact settleLost_sealed ht hr hnow hlive (Nat.le_of_succ_le hn) _

/-! ### Source revisions -/

theorem superviseRevision_sealed {input : RequestRunInput} (hinput : input.Bounded n)
    (hn : n + 1 ≤ MAX_SAFE_INTEGER) {revision : WorkRevision} (hrevision : WorkRevisionSchema revision)
    (h : superviseRevision input revision = .ok d) : d.Sealed (n + 1) := by
  have hdesired : ∀ x ∈ some revision, WorkRevisionSchema x := by
    intro x hx
    obtain rfl := Option.some.inj hx
    exact hrevision
  unfold superviseRevision at h
  split at h
  · rename_i task activeRun htask hactive
    have ht := hinput.task task htask
    have hr := hinput.activeRun activeRun (Option.filter_eq_some_iff.1 hactive).1
    have hupdated : Task.Sealed n { task with
        desiredRevision := some revision
        sourceObservedAt := revision.observedAt.or task.sourceObservedAt
        updatedAt := input.now } := by
      refine ⟨{ ht.parses with
        desiredRevision := hdesired, sourceObservedAt := ?_, updatedAt := hinput.now.iso },
        ht.runCount, ht.consecutiveLost⟩
      intro observedAt hobserved
      rcases Option.or_eq_some_iff.1 hobserved with hobserved | ⟨-, hobserved⟩
      · exact hrevision.observedAt observedAt hobserved
      · exact ht.parses.sourceObservedAt observedAt hobserved
    split at h
    · obtain rfl := Except.ok.inj h
      exact (Decision.Sealed.of_task hupdated).mono (Nat.le_succ n)
    · obtain ⟨canceled, hcanceled, h⟩ := bind_eq_ok.1 h
      obtain ⟨next, hnext, h⟩ := bind_eq_ok.1 h
      obtain ⟨canceledRun, hrun, h⟩ := bind_eq_ok.1 h
      obtain rfl := Except.ok.inj h
      have hsettled := cancelRun_sealed hupdated hr hinput.now (by simpa using by decide) (by simp)
        hcanceled
      have hminted : next.Sealed (n + 1) := by
        refine requestRun_sealed ?_ hn hnext
        exact { hinput with
          task := by simpa using hsettled.task, activeRun := by simp, sourceRevision := hdesired }
      exact hminted.beside (hsettled.mono (Nat.le_succ n)) (decidedRun_eq_ok.1 hrun)
        fun e he => List.mem_append.1 he
  · refine requestRun_sealed ?_ hn h
    exact { hinput with sourceRevision := hdesired }

theorem requestRevisionRun_sealed {input : RequestRunInput} (hinput : input.Bounded n)
    (hn : n + 1 ≤ MAX_SAFE_INTEGER) {revision : WorkRevision} (hrevision : WorkRevisionSchema revision)
    (h : requestRevisionRun input revision = .ok d) : d.Sealed (n + 1) := by
  unfold requestRevisionRun at h
  split at h
  · rename_i task observedAt htask hobserved
    have ht := (hinput.task task htask).mono (Nat.le_succ n)
    obtain ⟨-, h⟩ := ite_refused_eq_ok.1 h
    split_ifs at h
    · obtain rfl := Except.ok.inj h
      exact .of_task ht
    · exact absurd h refused_ne_ok
    · obtain rfl := Except.ok.inj h
      refine .of_task ⟨{ ht.parses with sourceObservedAt := ?_ }, ht.runCount, ht.consecutiveLost⟩
      intro x hx
      obtain rfl := Option.some.inj hx
      exact hrevision.observedAt _ hobserved
    · obtain rfl := Except.ok.inj h
      exact .of_task ht
    · exact superviseRevision_sealed hinput hn hrevision h
  · obtain ⟨-, h⟩ := ite_refused_eq_ok.1 h
    exact superviseRevision_sealed hinput hn hrevision h
  · exact superviseRevision_sealed hinput hn hrevision h

theorem invalidateSourceRevision_sealed (ht : t.Sealed n) (hr : r.Sealed) (hnow : Roomy now)
    {observedAt : List (String × String)} (hobserved : observedAtSchema observedAt)
    (h : invalidateSourceRevision now t r observedAt = .ok d) : d.Sealed n := by
  have hinvalidated : Task.Sealed n { t with
      desiredRevision := none, sourceObservedAt := some observedAt, updatedAt := now } := by
    refine ⟨{ ht.parses with
      desiredRevision := by simp, sourceObservedAt := ?_, updatedAt := hnow.iso }, ht.runCount,
      ht.consecutiveLost⟩
    intro x hx
    obtain rfl := Option.some.inj hx
    exact hobserved
  unfold invalidateSourceRevision at h
  simp only [ite_refused_eq_ok] at h
  obtain ⟨-, -, h⟩ := h
  split at h
  · obtain rfl := Except.ok.inj h
    exact .of_task ht
  split at h
  · exact cancelRun_sealed hinvalidated hr hnow (by simpa using by decide) (by simp) h
  · obtain rfl := Except.ok.inj h
    refine ⟨hinvalidated, fun x hx => ?_, by simp⟩
    simp only [Decision.writes, List.append_nil, Option.mem_toList] at hx
    split_ifs at hx
    obtain rfl := Option.some.inj hx
    exact hr.touch hnow _

/-! ### Dispatch, heartbeats and placement -/

theorem confirmDispatch_sealed (ht : t.Sealed n) (hr : r.Sealed) (hnow : Roomy now)
    (h : confirmDispatch now t r = .ok d) : d.Sealed n := by
  unfold confirmDispatch at h
  split at h
  · obtain rfl := Except.ok.inj h
    exact .of_run ht hr (by simp)
  obtain ⟨hpending, h⟩ := ite_refused_eq_ok.1 h
  obtain rfl := Except.ok.inj h
  rw [not_not] at hpending
  have hbefore : r.events.length + 3 ≤ 4 := by
    have := hr.events
    rwa [eventsLeft, hpending] at this
  have hlength : ∀ event, (r.events ++ [event]).length = r.events.length + 1 := by simp
  refine .of_run (ht.touch hnow) ⟨{ hr.parses with
      leaseExpiresAt := runLeaseExpiresAt_iso hnow, updatedAt := hnow.iso
      events := ⟨?_, fun e he => ?_⟩ },
    show (r.events ++ [_]).length + 2 ≤ 4 by rw [hlength]; omega, hnow, hr.claimedAt, hr.operation,
    hr.policy⟩ (by simp)
  · show (r.events ++ [_]).length ≤ 64
    rw [hlength]
    omega
  · rcases List.mem_append.1 he with he | he
    · exact hr.parses.events.2 e he
    · obtain rfl := List.mem_singleton.1 he
      exact ⟨hnow.iso, by simp, by simp⟩

/-- What an executor may report of its Job's startup. -/
structure StartupObservation.Bounded (observation : StartupObservation) : Prop where
  jobUid : withinLength observation.jobUid 256 = true
  observedAt : isoUtc observation.observedAt

theorem placementStartDeadlineAt_iso (hnow : Roomy now) {claimedAt : Option Time}
    (hclaimed : ∀ at_ ∈ claimedAt, Roomy at_) : isoUtc (placementStartDeadlineAt now claimedAt) := by
  have hrenewed : isoUtc (runStartDeadlineAt now) := hnow.later (by decide) (by decide)
  unfold placementStartDeadlineAt
  dsimp only
  rcases min_choice (runStartDeadlineAt now) _ with hmin | hmin
  · rw [hmin]
    exact hrenewed
  · rw [hmin]
    split
    · exact hrenewed
    · exact (hclaimed _ rfl).later (by decide) (by decide)

theorem observeStartupPlacement_sealed (ht : t.Sealed n) (hr : r.Sealed) (hnow : Roomy now)
    {claimant : ExitClaimant} {observation : StartupObservation} (hbounded : observation.Bounded)
    (h : observeStartupPlacement now t r claimant observation = .ok d) : d.Sealed n := by
  unfold observeStartupPlacement at h
  split at h
  · exact absurd h refused_ne_ok
  rename_i queue hqueue
  split at h
  · exact absurd h refused_ne_ok
  simp only [ite_refused_eq_ok] at h
  obtain ⟨-, -, -, -, h⟩ := h
  split at h
  · obtain rfl := Except.ok.inj h
    exact .of_run ht hr (by simp)
  obtain rfl := Except.ok.inj h
  have hparses := hr.parses.queue queue hqueue
  have hclaimed := hr.claimedAt queue hqueue
  refine .of_run ht (hr.observe (runLeaseExpiresAt_iso hnow) hnow ?_ ?_) (by simp)
  · intro q hq
    obtain rfl := Option.some.inj hq
    refine { hparses with startDeadlineAt := ?_, startupPlacement := ?_ }
    · intro deadline hdeadline
      obtain rfl := Option.some.inj hdeadline
      split_ifs
      · exact hnow.later (by decide) (by decide)
      · exact placementStartDeadlineAt_iso hnow hclaimed
    · intro startup hstartup
      obtain rfl := Option.some.inj hstartup
      exact ⟨hbounded.observedAt, by simpa using hbounded.jobUid⟩
  · intro q hq
    obtain rfl := Option.some.inj hq
    exact hclaimed

theorem heartbeatQueue_parses (hnow : Roomy now) {claimFingerprint : Option String} {started : Bool}
    {queue : RunQueue} (h : RunQueueSchema queue) :
    RunQueueSchema (heartbeatQueue now claimFingerprint started queue) := by
  unfold heartbeatQueue
  split_ifs with hclaimed hstarted
  · refine { h with firstHeartbeatAt := ?_, providerProcessStartedAt := ?_ }
    · intro at_ hat
      obtain rfl := Option.some.inj hat
      cases hfirst : queue.firstHeartbeatAt with
      | none => exact hnow.iso
      | some first => exact h.firstHeartbeatAt first hfirst
    · intro at_ hat
      obtain rfl := Option.some.inj hat
      exact hnow.iso
  · refine { h with firstHeartbeatAt := ?_ }
    intro at_ hat
    obtain rfl := Option.some.inj hat
    cases hfirst : queue.firstHeartbeatAt with
    | none => exact hnow.iso
    | some first => exact h.firstHeartbeatAt first hfirst
  · exact h

theorem heartbeatQueue_claimedAt {claimFingerprint : Option String} {started : Bool}
    {queue : RunQueue} :
    (heartbeatQueue now claimFingerprint started queue).claimedAt = queue.claimedAt := by
  unfold heartbeatQueue
  split_ifs <;> rfl

theorem renewLease_sealed (ht : t.Sealed n) (hr : r.Sealed) (hnow : Roomy now)
    {claimFingerprint : Option String} {started : Bool}
    (h : renewLease now t r claimFingerprint started = .ok d) : d.Sealed n := by
  unfold renewLease at h
  simp only [ite_refused_eq_ok] at h
  obtain ⟨-, -, -, -, -, h⟩ := h
  obtain rfl := Except.ok.inj h
  refine .of_run ht ?_ fun e he => ?_
  · refine hr.observe (runLeaseExpiresAt_iso hnow) hnow ?_ ?_
    · intro q hq
      obtain ⟨queue, hqueue, rfl⟩ := Option.mem_map.1 hq
      exact heartbeatQueue_parses hnow (hr.parses.queue queue hqueue)
    · intro q hq
      obtain ⟨queue, hqueue, rfl⟩ := Option.mem_map.1 hq
      rw [heartbeatQueue_claimedAt]
      exact hr.claimedAt queue hqueue
  · split_ifs at he
    · obtain rfl := List.mem_singleton.1 he
      exact freshEntry_sealed hr hnow _ (by decide)
    · cases he

theorem observePlacement_sealed (ht : t.Sealed n) (hr : r.Sealed) {claimant : ExitClaimant}
    {placement : RunPlacement} (hbounded : RunPlacementSchema placement)
    (h : observePlacement now t r claimant placement = .ok d) : d.Sealed n := by
  unfold observePlacement at h
  split at h
  · exact absurd h refused_ne_ok
  rename_i queue hqueue
  simp only [ite_refused_eq_ok] at h
  obtain ⟨-, -, -, -, h⟩ := h
  obtain rfl := Except.ok.inj h
  refine .of_run ht (hr.observe hr.parses.leaseExpiresAt hr.updatedAt ?_ ?_) (by simp)
  · intro q hq
    obtain rfl := Option.some.inj hq
    exact { hr.parses.queue queue hqueue with placement := by simpa using hbounded }
  · intro q hq
    obtain rfl := Option.some.inj hq
    exact hr.claimedAt queue hqueue

/-! ### Task-only decisions -/

/-- The bounded arguments of an operation on the task alone. -/
def TaskOp.Bounded : TaskOp → Prop
  | .close => True
  | .updateWork work => WorkPayloadSchema work
  | .refreshIssue issue => TrackerIssueSchema issue

theorem TaskOp.decide_sealed {op : TaskOp} (hop : op.Bounded) {task : Option Task}
    (htask : ∀ t ∈ task, t.Sealed n) (hnow : Roomy now) {activeRun : Option Run}
    (h : op.decide now task activeRun = .ok d) : d.Sealed n := by
  cases task with
  | none => cases op <;> exact absurd h refused_ne_ok
  | some t =>
    have ht := htask t rfl
    cases op with
    | close =>
      simp only [TaskOp.decide, closeTask, ite_refused_eq_ok] at h
      obtain ⟨-, -, h⟩ := h
      split at h
      · exact absurd h refused_ne_ok
      obtain rfl := Except.ok.inj h
      refine .of_task ⟨{ ht.parses with closedAt := ?_, updatedAt := hnow.iso }, ht.runCount,
        ht.consecutiveLost⟩
      intro at_ hat
      obtain rfl := Option.some.inj hat
      exact hnow.iso
    | updateWork work =>
      simp only [TaskOp.decide, updateTaskWork, ite_refused_eq_ok] at h
      obtain ⟨-, h⟩ := h
      split at h
      · exact absurd h refused_ne_ok
      obtain rfl := Except.ok.inj h
      exact .of_task ⟨{ ht.parses with work := hop, updatedAt := hnow.iso }, ht.runCount,
        ht.consecutiveLost⟩
    | refreshIssue issue =>
      simp only [TaskOp.decide, refreshTaskIssue] at h
      split at h
      · cases h
      split at h
      · obtain rfl := Except.ok.inj h
        exact .of_task ht
      obtain rfl := Except.ok.inj h
      refine .of_task ⟨{ ht.parses with issue := ?_, updatedAt := hnow.iso }, ht.runCount,
        ht.consecutiveLost⟩
      intro i hi
      obtain rfl := Option.some.inj hi
      exact hop

end AgentLcars
