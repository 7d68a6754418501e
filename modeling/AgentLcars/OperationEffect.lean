import AgentLcars.DecideEffect

/-!
# Effects of the operations on a run

Every accepted operation of `RunOp` and `DirectOp` is an `Effect` of its label.
-/

namespace AgentLcars

/-! ### The cleanup of `transactOnRun` -/

section Cleanup

variable {label : Step} {now : Time} {r s : Run} {d : Decision} {cleanupId : String}

/-- A Codex claim survives its settlement. -/
theorem Settlement.queue (h : Settlement label now r s) (hcodex : usesCodexCredentials r = true) :
    s.queue = r.queue := by
  cases h with
  | lose cause => simp [lostRun, hcodex]
  | _ => rfl

theorem Settlement.credentialOperation (h : Settlement label now r s) :
    s.credentialOperation = r.credentialOperation := by
  cases h <;> rfl

/-- Attaching the cleanup never refuses a settlement. -/
theorem attachCleanup_settlement (cleanupId : String) (hs : Settlement label now r s)
    (hlive : isLive r.state = true) (hop : r.credentialOperation = none) (hrun : d.run = some s) :
    ∃ r', Cleaned (some cleanupId) r s r' ∧ attachCleanup r cleanupId d = .ok { d with run := some r' } := by
  have hd : d = { d with run := some s } := by rw [← hrun]
  have hsop : s.credentialOperation = none := hs.credentialOperation.trans hop
  cases howes : owesCleanup r with
  | false =>
    refine ⟨s, .free howes, ?_⟩
    unfold attachCleanup
    rw [hrun]
    cases htoken : r.tokenHash with
    | none => rw [← hd]
    | some tokenHash =>
      have hno : ¬usesCodexCredentials r = true ∨ r.queueState ≠ some .claimed := by
        by_contra hboth
        simp [owesCleanup, htoken, not_or] at howes hboth
        exact howes hboth.1 hboth.2
      rw [← hd]
      dsimp only
      rw [if_pos]
      rcases hno with h | h
      · exact .inr (.inr (.inl h))
      · exact .inr (.inr (.inr (.inl h)))
  | true =>
    have howed := howes
    simp only [owesCleanup, decide_eq_true_eq] at howed
    obtain ⟨hcodex, hclaimed, htoken⟩ := howed
    obtain ⟨tokenHash, htoken⟩ := Option.isSome_iff_exists.1 htoken
    refine ⟨cleanedRun s tokenHash cleanupId, .owed tokenHash cleanupId howes htoken rfl, ?_⟩
    have hq : s.queue = r.queue := hs.queue hcodex
    have hclaim : isClaimant s tokenHash = true := by
      simp only [isClaimant, Run.queueState, Run.tokenHash, hq, decide_eq_true_eq]
      exact ⟨hclaimed, htoken⟩
    have hscodex : usesCodexCredentials s = true :=
      (usesCodexCredentials_of_frozen hs.frozen).trans hcodex
    unfold attachCleanup
    rw [hrun, htoken]
    dsimp only
    rw [if_neg]
    · simp [reserveCredentialOperation, hclaim, hscodex, hsop, cleanedRun]
    · simp [hlive, hs.terminal, hcodex, hclaimed, hsop]

/-- A decision that settles nothing passes through. -/
theorem attachCleanup_same (h : ∀ s ∈ d.run, isLive r.state = false ∨ isLive s.state = true) :
    attachCleanup r cleanupId d = .ok d := by
  unfold attachCleanup
  split
  · rename_i settled tokenHash hrun htoken
    rw [if_pos]
    rcases h settled hrun with hdead | hlive
    · exact .inl (by simp [hdead])
    · exact .inr (.inl hlive)
  · rfl

end Cleanup

/-! ### Losses and exits -/

section Losses

variable {label : Step} {now : Time}
  {overrun : Prop} {t : Task} {r s r' : Run} {d lost : Decision}

theorem expireLeaseLoss_ok (h : expireLeaseLoss now t r = .ok d) :
    isLive r.state = true ∧ recoveryDeadlineElapsed r now = true ∧
      t.activeRunId = some r.runId ∧ r.credentialOperation = none ∧
      d = settleLost now t r .expiry := by
  simp only [expireLeaseLoss, ite_refused_eq_ok, not_not] at h
  obtain ⟨hlive, helapsed, hlock, hop, h⟩ := h
  exact ⟨hlive, helapsed, hlock, by simpa using hop, (Except.ok.inj h).symm⟩

theorem executorLoss_ok {claimant : ExitClaimant} (h : executorLoss now t r claimant = .ok d) :
    isLive r.state = true ∧ t.activeRunId = some r.runId ∧ r.credentialOperation = none ∧
      d = settleLost now t r .executor := by
  simp only [executorLoss, ite_refused_eq_ok, not_not] at h
  obtain ⟨-, hlive, hlock, hop, h⟩ := h
  exact ⟨hlive, hlock, by simpa using hop, (Except.ok.inj h).symm⟩

theorem executorLoss_notLive {claimant : ExitClaimant}
    (h : refusalReason (executorLoss now t r claimant) = some .runNotLive) :
    isLive r.state = false := by
  unfold executorLoss at h
  split_ifs at h with _ hlive
  all_goals first
    | simpa using hlive
    | simp [refusalReason, refused] at h

/-- The settlement of a lost lock holder. -/
theorem settles_lost (cause : LossCause) (hmove : Move label now r r')
    (hlive : isLive r.state = true) (hclean : Cleaned label.cleanupId r (lostRun now r cause) r')
    (hkey : taskKey t.task = taskKey r.task) (hsource : SameSource r.issue t.issue)
    (hlock : t.activeRunId = some r.runId) :
    Settles label now t r (lostRun now r cause) r' (settleLost now t r cause) := by
  have hterminal : isLive r'.state = false := by rw [hclean.state]; rfl
  have htask : (settleLost now t r cause).task = { t with
      activeRunId := none, consecutiveLost := t.consecutiveLost + 1, updatedAt := now } := by
    simp only [settleLost, settle, releaseLock_eq, hlock, if_true]
  have hids := (settle_ids t (lostRun now r cause) now).trans
    (List.sublist_append_left _ [entryIdOf .delivery r.runId, entryIdOf .deliveryOutcome r.runId])
  refine ⟨rfl, rfl, hmove, hlive, hterminal, rfl, hclean.state, hclean.result, hkey, hsource, hlock,
    ?_, ?_, ?_, ?_, ?_, ?_, ?_, ?_, ?_, ?_, hids, ?_⟩
  all_goals try rw [htask]
  intro after dispatched
  exact emission_settle (r := r) (s := lostRun now r cause) rfl hlive hterminal _ now

/-- What becomes of a loss: it stands, it advances its revision, or it is retried. -/
theorem settleLostAndRetry_ok (hrun : lost.run = some s)
    (h : settleLostAndRetry now (.ok lost) = .ok d) :
    (s.pipeline = "goose" ∧ d = lost) ∨
      (d = (revisionSuccessor lost s now).getD lost ∧
        (revisionSuccessor lost s now = none → GaveUp lost.task s)) ∨
      (s.pipeline ≠ "goose" ∧ revisionSuccessor lost s now = none ∧
        lost.task.consecutiveLost ≤ MAX_AUTO_RETRIES ∧
        (s.sourceRevision.isSome = true → s.revisionAttempt.getD 1 ≤ MAX_AUTO_RETRIES) ∧
        d = lost.followedBy (mintRun (lossRetry now lost.task s))) := by
  obtain ⟨_, ⟨rfl⟩, h⟩ := bind_eq_ok.1 h
  obtain ⟨run, hdecided, h⟩ := bind_eq_ok.1 h
  obtain rfl : run = s := Option.some.inj ((decidedRun_eq_ok.1 hdecided).symm.trans hrun)
  by_cases hgoose : run.pipeline = "goose"
  · rw [if_pos hgoose] at h
    exact .inl ⟨hgoose, (Except.ok.inj h).symm⟩
  · rw [if_neg hgoose] at h
    cases hsucc : revisionSuccessor lost run now with
    | some desired =>
      rw [hsucc] at h
      exact .inr (.inl ⟨(Except.ok.inj h).symm, nofun⟩)
    | none =>
      rw [hsucc] at h
      dsimp only at h
      split_ifs at h with hspent hrevision
      · exact .inr (.inl ⟨(Except.ok.inj h).symm, fun _ => .inr (.inl hspent)⟩)
      · exact .inr (.inl ⟨(Except.ok.inj h).symm, fun _ => .inr (.inr hrevision)⟩)
      · refine .inr (.inr ⟨hgoose, rfl, by omega, fun hsome => ?_, (Except.ok.inj h).symm⟩)
        by_contra hattempts
        exact hrevision ⟨hsome, .inr (by omega)⟩

theorem settleLostAndRetry_run (hrun : lost.run = some s)
    (h : settleLostAndRetry now (.ok lost) = .ok d) : d.run = some s := by
  rcases settleLostAndRetry_ok hrun h with ⟨-, rfl⟩ | ⟨rfl, -⟩ | ⟨-, -, -, -, rfl⟩
  · exact hrun
  · cases hsucc : revisionSuccessor lost s now with
    | none => exact hrun
    | some desired =>
      obtain ⟨_, _, _, -, -, -, -, -, rfl⟩ := revisionSuccessor_some hsucc
      exact hrun
  · exact hrun

/-- The bounded retry of a loss. -/
theorem Settles.effect_lost (h : Settles label now t r s r' lost) (hs' : r'.state = .lost)
    (hlost : lost.task.consecutiveLost = t.consecutiveLost + 1)
    (hd : settleLostAndRetry now (.ok lost) = .ok d) :
    Effect label now none overrun (some r) (some t) { d with run := some r' } := by
  -- the stored run is the lost one, but for its cleanup
  have hgave : GaveUp lost.task s → GaveUp lost.task r' := by
    have hsame : r'.frozen = s.frozen := h.move.frozen.trans h.frozen.symm
    unfold GaveUp
    rw [pipeline_of_frozen hsame, sourceRevision_of_frozen hsame,
      show r'.revisionAttempt = s.revisionAttempt from congrArg Frozen.revisionAttempt hsame]
    exact id
  rcases settleLostAndRetry_ok h.run hd with
    ⟨hgoose, rfl⟩ | ⟨rfl, hstands⟩ | ⟨hcoding, hnone, hbudget, hattempts, rfl⟩
  · refine h.effect (fun _ _ _ => .inr (.inr (.inr (.inl ⟨hs', ?_⟩)))) fun _ => hgave (.inl hgoose)
    rw [← pipeline_of_frozen h.frozen, hgoose]
  · exact h.effect_advance fun _ hsucc => hgave (hstands hsucc)
  · have hmint : Minted (some lost.task) 0 (mintRun (lossRetry now lost.task s)).task
        (mintedRun (lossRetry now lost.task s)) := by
      refine minted_mintRun ?_ rfl ?_ (.inl rfl)
      · show taskKey lost.task.task = taskKey s.task
        rw [h.task, h.key, task_of_frozen h.frozen]
      · show SameSource s.issue lost.task.issue
        rw [h.issue, issue_of_frozen h.frozen]
        exact h.source
    refine h.effect_followedBy rfl (hmint.rebase h.count h.issue)
      (congrArg taskKey (task_of_frozen h.frozen)).symm ?_ h.routing h.work rfl
    have hattempt : s.revisionAttempt = r.revisionAttempt := congrArg Frozen.revisionAttempt h.frozen
    have hpolicy : s.providerFallback = r.providerFallback :=
      congrArg Frozen.providerFallback h.frozen
    refine .retry r r' t rfl h.live rfl rfl ?_ h.desired h.closed h.delivery ?_ ?_ rfl
      ⟨congrArg Frozen.params h.frozen, congrArg Frozen.pipeline h.frozen, .inl hs', .inr ?_, ?_, ?_,
        ?_, h.observed, fun _ => by rw [← pipeline_of_frozen h.frozen]; exact hcoding⟩
    · show "retry:" ++ s.runId = "retry:" ++ r.runId
      rw [runId_of_frozen h.frozen]
    · show s.sourceRevision.map (·.key) = r.sourceRevision.map (·.key)
      rw [sourceRevision_of_frozen h.frozen]
    · intro hopen desired hdesired
      rw [← sourceRevision_of_frozen h.frozen]
      exact (revisionSuccessor_none hnone (h.closed ▸ hopen) desired (h.desired ▸ hdesired)).symm
    · rw [← hpolicy]
      rfl
    · intro _
      exact ⟨hlost, hbudget⟩
    · rw [← hattempt]
      show (s.sourceRevision.map fun _ => (s.sourceRevision.map fun _ =>
        s.revisionAttempt.getD 1 + 1).getD 1) = s.sourceRevision.map fun _ => s.revisionAttempt.getD 1 + 1
      cases s.sourceRevision <;> rfl
    · rw [← hattempt, ← sourceRevision_of_frozen h.frozen]
      exact hattempts

theorem retireSettledClaim_ok (h : retireSettledClaim now t r = .ok d)
    (hlabel : label.exitOf = some r.runId) (hdead : isLive r.state = false)
    (hclaimed : r.queueState = some .claimed) :
    ∃ r', Move label now r r' ∧ r'.state = r.state ∧ r'.delivery = r.delivery ∧
      d = { task := t, run := some r' } := by
  unfold retireSettledClaim at h
  split at h
  · exact absurd h refused_ne_ok
  · rename_i queue hqueue
    simp only [ite_refused_eq_ok, not_not] at h
    obtain ⟨hretires, h⟩ := h
    split_ifs at h with hop hcodex hobserved
    all_goals try exact absurd h refused_ne_ok
    · exact ⟨r, .same, rfl, rfl, (Except.ok.inj h).symm⟩
    · exact ⟨_, .receipt hdead hop hclaimed (by simpa using hobserved) hcodex hlabel, rfl,
        rfl, (Except.ok.inj h).symm⟩
    · refine ⟨_, .retire hdead (by simpa using hop) hclaimed hretires hlabel, rfl, rfl, ?_⟩
      rw [hqueue]
      exact (Except.ok.inj h).symm

end Losses

/-! ### Deliveries -/

section Deliveries

variable {label : Step} {now : Time}
  {overrun : Prop} {t : Task} {r : Run} {d : Decision}

/-- A decision that rewrites a run beside an unchanged task document. -/
theorem effect_rewrite {r' : Run} (hmove : Move label now r r')
    (hlive : isLive r'.state = isLive r.state)
    (hdelivery : isLive r.state = false → r'.delivery = r.delivery) (updatedAt : Time) :
    Effect label now none overrun (some r) (some t)
      { task := { t with updatedAt }, run := some r' } :=
  .rewrite hmove hlive ⟨rfl, rfl, rfl, .inl rfl, rfl, rfl, .inl ⟨rfl, hdelivery⟩, rfl, .inl rfl⟩
    (by simp) List.nodup_nil ⟨.inr rfl, .inr rfl⟩

theorem effect_rewrite_task {r' : Run} (hmove : Move label now r r')
    (hlive : isLive r'.state = isLive r.state)
    (hdelivery : isLive r.state = false → r'.delivery = r.delivery) :
    Effect label now none overrun (some r) (some t) { task := t, run := some r' } :=
  effect_rewrite hmove hlive hdelivery t.updatedAt

theorem moveDelivery_effect {b : DeliveryBinding} {delivery : Option DeliveryBinding}
    {outbox : List OutboxEntry} (hb : t.delivery = some b) (hrun : b.runId = r.runId)
    (hwaiting : b.state = .waiting) (hfree : t.activeRunId = none) (hstate : r.state = .finished)
    (hok : r.result.any (·.ok) = true)
    (hnew : ∀ b' ∈ delivery, b'.runId = b.runId ∧ b'.correctionRunId = b.correctionRunId)
    (hout : ∀ e ∈ outbox, About e .deliveryOutcome r ∧ ∀ b' ∈ delivery, b'.state = .complete)
    (hnodup : (outbox.map (·.entryId)).Nodup) :
    Effect label now none overrun (some r) (some t) (moveDelivery now t r delivery outbox) := by
  have hdead : isLive r.state = false := by rw [hstate]; rfl
  have hown : ∀ b' ∈ delivery, b'.runId = r.runId := fun b' hb' => (hnew b' hb').1.trans hrun
  refine .rewrite (.deliver delivery hstate hok hown) rfl ⟨rfl, rfl, rfl, .inl rfl, rfl, rfl,
    .inr ⟨b, hb, hrun, hwaiting, hdead, hfree, rfl, hnew⟩, rfl, .inl rfl⟩ ?_ hnodup ⟨.inr rfl, .inr rfl⟩
  intro e he
  refine .merged r _ t b rfl rfl hdead hb hrun hwaiting ?_ (hout e he).1
  cases hd : delivery with
  | none => rfl
  | some b' => simp [deliveryWaiting, (hout e he).2 b' hd]

/-- The last key of an overlay is looked up in it. -/
theorem lookup_overlay (params extra : Params) (key value : String) :
    (overlay params (extra ++ [(key, value)])).lookup key = some value := by
  have hset : ∀ acc : Params, ((if acc.any (fun e => e.1 = key) then
      acc.map fun e => if e.1 = key then (key, value) else e else acc ++ [(key, value)] :
      Params)).lookup key = some value := by
    intro acc
    induction acc with
    | nil => simp
    | cons e rest ih =>
      obtain ⟨name, old⟩ := e
      by_cases he : name = key
      · simp [he]
      · have hne : (key == name) = false := by simpa using fun h => he h.symm
        by_cases hrest : (rest.any fun e => e.1 = key) = true
        · simp only [hrest, if_true] at ih
          simp [he, hrest, List.lookup_cons, hne, ih]
        · simp only [hrest, Bool.false_eq_true, if_false] at ih
          simp [he, hrest, List.lookup_cons, hne, ih]
  unfold overlay
  rw [List.foldl_append]
  exact hset _

/-- The run that corrects a delivery. -/
theorem correction_effect {b : DeliveryBinding} {reason : String} {next : Decision} {m : Run}
    (hkey : taskKey t.task = taskKey r.task) (hb : t.delivery = some b) (hrun : b.runId = r.runId)
    (hfree : t.activeRunId = none) (hstate : r.state = .finished) (hnew : b.correctionRunId = none)
    (hnext : requestRun (correctionRequest now t r b reason) = .ok next)
    (hm : next.run = some m) :
    Effect label now none overrun (some r) (some t)
      { next with
        task := { next.task with delivery := some { b with correctionRunId := some m.runId } }
        run := some r
        additionalRuns := [m] } := by
  obtain ⟨m', hreq⟩ := requested_of_ok hnext
  obtain rfl : m' = m := by
    rw [hreq.form] at hm
    exact Option.some.inj hm
  have hdead : isLive r.state = false := by rw [hstate]; rfl
  have hminted : Minted (some t) 0 next.task m' := hreq.minted.rebase rfl rfl
  have hout : next.outbox = [freshEntry ("dispatch/" ++ m'.runId) .dispatchRun m' now] := by
    rw [hreq.form]
    rfl
  refine .mint (some (r, r)) none m' ?_ ?_ ?_ nofun ?_
    ⟨hminted.fresh, hminted.key, hminted.runId, hminted.lock, hminted.count, hminted.issue,
      hminted.issueKept⟩ (by simp) ?_ ?_ ?_ ⟨_, ?_, about_dispatch m' now⟩ ⟨.inr hreq.routing, .inr hreq.work⟩
    hreq.created
  · intro x
    simp [Decision.writes, eq_comm]
  · rintro _ _ ⟨rfl, rfl⟩
    exact ⟨rfl, .same, hdead, by rw [hreq.task, ← hkey]; rfl⟩
  · rintro _ ⟨rfl⟩
    rw [hreq.task]
    rfl
  · rintro _ ⟨rfl⟩ id hid
    rw [hfree] at hid
    cases hid
  · refine .correction r t b rfl hdead rfl hb hrun hnew hreq.source hreq.requestId hreq.desired
      hreq.closed hreq.wasOpen rfl rfl ⟨?_, hreq.pipeline, hreq.policy, hreq.revision, hreq.observed⟩
    rw [hreq.params]
    exact lookup_overlay (r.params.getD [])
      [("mode", "implement"), ("context", correctionContext b reason)] "deliveryPredecessor" r.runId
  · intro e he
    rw [hout, List.mem_singleton] at he
    exact .dispatch m' (by simp) (he ▸ about_dispatch _ now)
  · rw [hout]
    exact List.nodup_singleton _
  · rw [hout]
    exact List.mem_singleton_self _

theorem advanceDelivery_effect {observation : DeliveryObservation} {authorized : Bool}
    (hkey : taskKey t.task = taskKey r.task)
    (h : advanceDelivery now t r observation authorized = .ok d) :
    Effect label now none overrun (some r) (some t) d ∧ ∀ s ∈ d.run, isLive r.state = false := by
  simp only [advanceDelivery, ite_refused_eq_ok] at h
  obtain ⟨-, h⟩ := h
  split at h
  · exact absurd h refused_ne_ok
  rename_i b hb
  simp only [ite_refused_eq_ok, not_not] at h
  obtain ⟨hobs, h⟩ := h
  simp only [observesBinding, decide_eq_true_eq] at hobs
  obtain ⟨hrun, -, -, hfree, hstate, hok⟩ := hobs
  have hdead : isLive r.state = false := by rw [hstate]; rfl
  refine ⟨?_, fun _ _ => hdead⟩
  by_cases hwaiting : b.state = .waiting
  swap
  · rw [if_pos hwaiting] at h
    obtain rfl := Except.ok.inj h
    exact effect_rewrite_task .same rfl fun _ => rfl
  rw [if_neg (not_not.2 hwaiting)] at h
  cases observation with
  | waiting head =>
    obtain rfl := Except.ok.inj h
    exact effect_rewrite_task .same rfl fun _ => rfl
  | revision head newHead =>
    obtain rfl := Except.ok.inj h
    exact moveDelivery_effect hb hrun hwaiting hfree hstate hok (by simp) (by simp) List.nodup_nil
  | merged head mergeCommit =>
    obtain rfl := Except.ok.inj h
    refine moveDelivery_effect hb hrun hwaiting hfree hstate hok (by simp) ?_ ?_
    · intro e he
      refine ⟨?_, by simp⟩
      unfold finalDeliveryOutbox at he
      split_ifs at he
      · cases he
      · obtain rfl := List.mem_singleton.1 he
        exact about_freshEntry .deliveryOutcome _ _
    · unfold finalDeliveryOutbox
      split_ifs
      · exact List.nodup_nil
      · exact List.nodup_singleton _
  | withdrawn head =>
    obtain rfl := Except.ok.inj h
    exact moveDelivery_effect hb hrun hwaiting hfree hstate hok (by simp) (by simp) List.nodup_nil
  | correction head reason =>
    simp only [ite_refused_eq_ok] at h
    obtain ⟨-, hnew, h⟩ := h
    obtain ⟨next, hnext, h⟩ := bind_eq_ok.1 h
    obtain ⟨m, hm, h⟩ := bind_eq_ok.1 h
    obtain rfl := Except.ok.inj h
    exact correction_effect hkey hb hrun hfree hstate (by simpa using hnew) hnext
      (decidedRun_eq_ok.1 hm)

end Deliveries

/-! ### Operations through `transactOnRun` -/

/-- A failed report that both successor layers answer. -/
def RunOp.doublesSuccessor (op : RunOp) (now : Time) (t : Task) (r : Run)
    (eligibility : Option QueueEligibilitySnapshot) : Bool :=
  match op with
  | .report (some authority) result claimFingerprint _ _ =>
    result.ok = false ∧ r.credentialOperation = none ∧
      reportAdmitted now t r result claimFingerprint ∧
      AgentLcars.doublesSuccessor t r result (authority.allowedPipelines t r)
        (authority.available eligibility now)
  | _ => false

section RunOp

variable {now : Time} {cleanupId : String}
  {overrun : Prop} {t : Task} {r : Run} {eligibility : Option QueueEligibilitySnapshot}
  {d d' : Decision}

theorem sameClaim_heartbeat (claimFingerprint : Option String) (started : Bool) (q : RunQueue) :
    SameClaim q (heartbeatQueue now claimFingerprint started q) := by
  unfold heartbeatQueue
  split_ifs
  · exact ⟨rfl, rfl, rfl, rfl, fun _ => rfl⟩
  · exact ⟨rfl, rfl, rfl, rfl, id⟩
  · exact ⟨rfl, rfl, rfl, rfl, id⟩

theorem confirmDispatch_effect {label : Step} (hlabel : label.confirms = true)
    (h : confirmDispatch now t r = .ok d) :
    Effect label now none overrun (some r) (some t) d ∧ ∀ s ∈ d.run, isLive s.state = true := by
  unfold confirmDispatch at h
  split_ifs at h with hrunning hpending
  · obtain rfl := Except.ok.inj h
    refine ⟨effect_rewrite_task .same rfl fun _ => rfl, ?_⟩
    rintro _ ⟨rfl⟩
    rw [hrunning]
    rfl
  · exact absurd h refused_ne_ok
  · obtain rfl := Except.ok.inj h
    have hp : r.state = .pending := not_not.1 hpending
    refine ⟨effect_rewrite (.confirm hp hlabel) (by rw [hp]; rfl) (fun _ => rfl) now, ?_⟩
    rintro _ ⟨rfl⟩
    rfl

theorem observeStartupPlacement_effect {label : Step} {claimant : ExitClaimant}
    {observation : StartupObservation}
    (h : observeStartupPlacement now t r claimant observation = .ok d) :
    Effect label now none overrun (some r) (some t) d ∧ ∀ s ∈ d.run, isLive s.state = true := by
  unfold observeStartupPlacement at h
  split at h
  · exact absurd h refused_ne_ok
  rename_i q hq
  split at h
  · exact absurd h refused_ne_ok
  simp only [ite_refused_eq_ok, not_not] at h
  obtain ⟨-, hlive, -, -, h⟩ := h
  split_ifs at h
  all_goals obtain rfl := Except.ok.inj h
  · exact ⟨effect_rewrite_task .same rfl fun _ => rfl, by rintro _ ⟨rfl⟩; exact hlive⟩
  all_goals
    exact ⟨effect_rewrite_task (.observe _ _ hlive hq ⟨rfl, rfl, rfl, rfl, id⟩) rfl fun _ => rfl,
      by rintro _ ⟨rfl⟩; exact hlive⟩

theorem observePlacement_effect {label : Step} {claimant : ExitClaimant} {placement : RunPlacement}
    (h : observePlacement now t r claimant placement = .ok d) :
    Effect label now none overrun (some r) (some t) d ∧ ∀ s ∈ d.run, isLive s.state = true := by
  unfold observePlacement at h
  split at h
  · exact absurd h refused_ne_ok
  rename_i q hq
  simp only [ite_refused_eq_ok, not_not] at h
  obtain ⟨-, hlive, -, -, h⟩ := h
  obtain rfl := Except.ok.inj h
  exact ⟨effect_rewrite_task
    (.observe r.leaseExpiresAt r.updatedAt hlive hq ⟨rfl, rfl, rfl, rfl, id⟩) rfl fun _ => rfl,
    by rintro _ ⟨rfl⟩; exact hlive⟩

theorem renewLease_effect {label : Step} {claimFingerprint : Option String} {started : Bool}
    (h : renewLease now t r claimFingerprint started = .ok d) :
    Effect label now none overrun (some r) (some t) d ∧ ∀ s ∈ d.run, isLive s.state = true := by
  simp only [renewLease, ite_refused_eq_ok, not_not] at h
  obtain ⟨-, hlive, -, -, -, h⟩ := h
  obtain rfl := Except.ok.inj h
  refine ⟨?_, by rintro _ ⟨rfl⟩; exact hlive⟩
  have hnodup : ∀ (p : Prop) [Decidable p] (e : OutboxEntry),
      ((if p then [e] else []).map (·.entryId)).Nodup := by
    intro p _ e
    split_ifs <;> simp
  cases hq : r.queue with
  | none =>
    refine .rewrite (r := r) (.renewUnqueued hlive hq) rfl
      ⟨rfl, rfl, rfl, .inl rfl, rfl, rfl, .inl ⟨rfl, fun _ => rfl⟩, rfl, .inl rfl⟩ ?_
      (hnodup _ _) ⟨.inr rfl, .inr rfl⟩
    intro e he
    simp [startsProvider, hq] at he
  | some q =>
    refine .rewrite (r := r) (.observe _ _ hlive hq (sameClaim_heartbeat claimFingerprint started q)) rfl
      ⟨rfl, rfl, rfl, .inl rfl, rfl, rfl, .inl ⟨rfl, fun _ => rfl⟩, rfl, .inl rfl⟩ ?_
      (hnodup _ _) ⟨.inr rfl, .inr rfl⟩
    intro e he
    rw [List.mem_ite_nil_right, List.mem_singleton] at he
    obtain ⟨⟨hstarts, hlinear, hplain⟩, rfl⟩ := he
    simp only [startsProvider, hq, Option.any_some, decide_eq_true_eq] at hstarts
    obtain ⟨hstarted, hclaim, hclaimed, hnew⟩ := hstarts
    refine .started r _ q _ rfl hlive hq hclaimed hnew rfl ?_ ?_ hlinear hplain
      (about_freshEntry .issueStart r now)
    · exact (sameClaim_heartbeat claimFingerprint started q).state.trans hclaimed
    · simp [heartbeatQueue, hclaimed, hstarted, hclaim, hnew]

/-- An uncleaned settlement and its cleanup. -/
theorem settle_and_clean {label : Step} {s : Run} (hgiven : label.cleanupId = some cleanupId)
    (hs : Settlement label now r s) (hlive : isLive r.state = true) (hop : r.credentialOperation = none) (hrun : d.run = some s)
    (hd : attachCleanup r cleanupId d = .ok d')
    (heffect : ∀ r', Cleaned label.cleanupId r s r' → Move label now r r' →
      Effect label now none overrun (some r) (some t) { d with run := some r' }) :
    Effect label now none overrun (some r) (some t) d' := by
  obtain ⟨r', hclean, hattach⟩ := attachCleanup_settlement cleanupId hs hlive hop hrun
  obtain rfl : { d with run := some r' } = d' := Except.ok.inj (hattach.symm.trans hd)
  rw [← hgiven] at hclean
  exact heffect r' hclean (.settle hlive (.inl hop) hs hclean)

/-! ### Reports -/

@[simp] theorem reportedRun_plain (r : Run) (result : RunResult) :
    reportedRun r result none false = r := by
  simp [reportedRun]

theorem providerCooldownForRun_live {s : Run} (h : isLive s.state = true) :
    providerCooldownForRun s = none := by
  have hne : s.state ≠ .finished := by
    intro hf
    simp [hf, isLive] at h
  unfold providerCooldownForRun
  split <;> simp [hne]

theorem settleProviderFallback_live {s : Run} {authorized available : List String}
    (hrun : d.run = some s) (hlive : isLive s.state = true)
    (h : settleProviderFallback now d authorized available = .ok d') : d' = d := by
  rcases settleProviderFallback_ok hrun h with h | ⟨hcooldown, -⟩
  · exact h
  · simp [providerCooldownForRun_live hlive] at hcooldown

section Report

variable {label : Step} {result : RunResult} {delivery : Option DeliveryBinding} {publish : Bool}
  (hlabel : label.reported = some result)
  (hdelivery : ∀ b ∈ delivery, b.runId = r.runId ∧ result.ok = true)

include hdelivery in
theorem deferred_effect {op : CredentialOperation} {claimFingerprint : Option String}
    (hadmitted : reportAdmitted now t (reportedRun r result delivery publish) result
      claimFingerprint = true) (hop : r.credentialOperation = some op) :
    Effect label now none overrun (some r) (some t)
      { task := t
        run := some (deferredRun now (reportedRun r result delivery publish) op result) } := by
  simp only [reportAdmitted, decide_eq_true_eq] at hadmitted
  obtain ⟨-, hlive, -, hpending, -⟩ := hadmitted
  refine effect_rewrite_task (.defer op result delivery publish hlive hop ?_ hdelivery) rfl
    fun hdead => by cases hdead.symm.trans hlive
  intro p hp
  have hp : (reportedRun r result delivery publish).credentialPendingResult = some p := hp
  rw [hp] at hpending
  simp only [Option.all_some, decide_eq_true_eq] at hpending
  exact hpending.2

include hlabel hdelivery in
/-- A report that is not deferred, with whatever follows it. -/
theorem reported_effect {claimFingerprint : Option String}
    (hgiven : label.cleanupId = some cleanupId) (hkey : taskKey t.task = taskKey r.task)
    (hsource : SameSource r.issue t.issue)
    (hadmitted : reportAdmitted now t (reportedRun r result delivery publish) result
      claimFingerprint = true) (hop : r.credentialOperation = none)
    (hrun : d.run = some (finishedRun now t (reportedRun r result delivery publish) result))
    (hattach : attachCleanup r cleanupId d = .ok d')
    (heffect : ∀ r', Reported label now t r (reportedRun r result delivery publish) r' result →
      Effect label now none overrun (some r) (some t) { d with run := some r' }) :
    Effect label now none overrun (some r) (some t) d' := by
  simp only [reportAdmitted, decide_eq_true_eq] at hadmitted
  obtain ⟨-, hlive, hlock, -⟩ := hadmitted
  refine settle_and_clean hgiven (.report t result delivery publish hlabel hdelivery) hlive hop hrun hattach
    fun r' hclean hmove => heffect r' ⟨hmove, hlive, rfl, hkey, hsource, hlock, ?_, ?_, ?_⟩
  · exact hclean.state
  · exact hclean.delivery
  · exact hclean.result

end Report

theorem settleProviderFallback_run {s : Run} {authorized available : List String}
    (hrun : d.run = some s) (h : settleProviderFallback now d authorized available = .ok d') :
    d'.run = some s := by
  rcases settleProviderFallback_ok hrun h with rfl | ⟨-, pipeline, -, h⟩
  · exact hrun
  · obtain ⟨_, next, -, -, rfl⟩ := successor_ok hrun h
    exact hrun

theorem plainReport_effect {label : Step} {result : RunResult} {claimFingerprint : Option String}
    {delivery : Option DeliveryBinding} {publish : Bool}
    (hgiven : label.cleanupId = some cleanupId) (hlabel : label.reported = some result)
    (hkey : taskKey t.task = taskKey r.task) (hsource : SameSource r.issue t.issue)
    (h : plainReport now t r result claimFingerprint delivery publish = .ok d)
    (hattach : attachCleanup r cleanupId d = .ok d') :
    Effect label now none overrun (some r) (some t) d' := by
  simp only [plainReport, ite_refused_eq_ok] at h
  obtain ⟨hstale, h⟩ := h
  have hdelivery : ∀ b ∈ delivery, b.runId = r.runId ∧ result.ok = true := by
    rintro b ⟨rfl⟩
    simp only [staleDelivery, Option.any_some, decide_eq_true_eq, not_or, not_not] at hstale
    exact ⟨hstale.1, hstale.2.1⟩
  have hadmitted := reportResult_ok h
  rw [reportResult_eq hadmitted] at h
  cases hop : r.credentialOperation with
  | some op =>
    have hop₀ : (reportedRun r result delivery publish).credentialOperation = some op := hop
    rw [hop₀] at h
    obtain rfl := Except.ok.inj h
    have hlive : isLive r.state = true := (reportAdmitted_live hadmitted).1
    rw [attachCleanup_same fun s hs => .inr (by obtain rfl := Option.some.inj hs; exact hlive)]
      at hattach
    obtain rfl := Except.ok.inj hattach
    exact deferred_effect hdelivery hadmitted hop
  | none =>
    have hop₀ : (reportedRun r result delivery publish).credentialOperation = none := hop
    rw [hop₀] at h
    obtain rfl := Except.ok.inj h
    exact reported_effect hlabel hdelivery hgiven hkey hsource hadmitted hop
      (reportDecision_run now t _ result) hattach fun r' hr' => hr'.effect

theorem reportWithFallback_effect {label : Step} {result : RunResult}
    {claimFingerprint : Option String} {authorized available : List String}
    (hgiven : label.cleanupId = some cleanupId) (hlabel : label.reported = some result)
    (hkey : taskKey t.task = taskKey r.task) (hsource : SameSource r.issue t.issue)
    (h : reportResultWithFallback now t r result claimFingerprint authorized available = .ok d)
    (hattach : attachCleanup r cleanupId d = .ok d')
    (hoverrun : r.credentialOperation = none →
      reportAdmitted now t r result claimFingerprint = true →
      doublesSuccessor t r result authorized available = true → overrun) :
    Effect label now none overrun (some r) (some t) d' := by
  obtain ⟨settled, hsettled, h⟩ := bind_eq_ok.1 h
  have hadmitted := reportResult_ok hsettled
  rw [reportResult_eq hadmitted] at hsettled
  cases hop : r.credentialOperation with
  | some op =>
    rw [hop] at hsettled
    obtain rfl := Except.ok.inj hsettled
    have hlive : isLive r.state = true := (reportAdmitted_live hadmitted).1
    have heffect : Effect label now none overrun (some r) (some t)
        { task := t, run := some (deferredRun now (reportedRun r result none false) op result) } :=
      deferred_effect (by simp) (by simpa using hadmitted) hop
    obtain rfl := settleProviderFallback_live (s := deferredRun now r op result) rfl hlive h
    rw [attachCleanup_same fun s hs => .inr (by obtain rfl := Option.some.inj hs; exact hlive)]
      at hattach
    obtain rfl := Except.ok.inj hattach
    simpa using heffect
  | none =>
    rw [hop] at hsettled
    obtain rfl := Except.ok.inj hsettled
    have hadmitted' : reportAdmitted now t (reportedRun r result none false) result
        claimFingerprint = true := by simpa using hadmitted
    refine reported_effect hlabel (by simp) hgiven hkey hsource hadmitted' hop ?_ hattach
      fun r' hr' => ?_
    · simpa using settleProviderFallback_run (reportDecision_run now t r result) h
    · rw [reportedRun_plain] at hr'
      exact hr'.effect_fallback h (hoverrun hop hadmitted)

/-! ### Invalidation -/

theorem invalidateSourceRevision_effect {label : Step} {observedAt : List (String × String)}
    (hgiven : label.cleanupId = some cleanupId) (hlabel : label.cancels = true)
    (h : invalidateSourceRevision now t r observedAt = .ok d)
    (hattach : attachCleanup r cleanupId d = .ok d') :
    Effect label now none overrun (some r) (some t) d' := by
  simp only [invalidateSourceRevision, ite_refused_eq_ok] at h
  obtain ⟨-, -, h⟩ := h
  split_ifs at h with hold hcancel hpending
  · obtain rfl := Except.ok.inj h
    rw [attachCleanup_same (by simp)] at hattach
    obtain rfl := Except.ok.inj hattach
    exact .touch ⟨rfl, rfl, rfl, rfl, .inl rfl, .inl rfl, .inl rfl, rfl, .inl rfl⟩ ⟨.inr rfl, .inr rfl⟩
  all_goals
    have hobserved : ObservedOn t.sourceObservedAt (some observedAt) :=
      .inr ⟨observedAt, rfl, by simpa using (not_or.1 hold).1⟩
  · obtain ⟨hlive, hop, -⟩ := cancelRun_ok h
    exact settle_and_clean hgiven (.cancel _ none hlabel) hlive hop (cancelRun_run h) hattach
      fun r' hclean _ => effect_cancel hlabel h (.inr ⟨_, _, rfl, hobserved⟩) hclean
  · obtain rfl := Except.ok.inj h
    rw [attachCleanup_same] at hattach
    · obtain rfl := Except.ok.inj hattach
      exact .rewrite (.publish .superseded (by simp [hpending])) rfl
        ⟨rfl, rfl, rfl, .inr rfl, rfl, rfl, .inl ⟨rfl, fun _ => rfl⟩, rfl, hobserved⟩ (by simp)
        List.nodup_nil ⟨.inr rfl, .inr rfl⟩
    · rintro _ ⟨rfl⟩
      exact (Bool.eq_false_or_eq_true (isLive r.state)).symm
  · obtain rfl := Except.ok.inj h
    rw [attachCleanup_same (by simp)] at hattach
    obtain rfl := Except.ok.inj hattach
    exact .touch ⟨rfl, rfl, rfl, rfl, .inr (.inl rfl), .inl rfl, .inl rfl, rfl, hobserved⟩
      ⟨.inr rfl, .inr rfl⟩

/-! ### Every operation through `transactOnRun` -/

theorem loss_effect {label : Step} (cause : LossCause)
    (hgiven : label.cleanupId = some cleanupId) (hlabel : label.loses = true)
    (hkey : taskKey t.task = taskKey r.task) (hsource : SameSource r.issue t.issue)
    (hlive : isLive r.state = true) (hlock : t.activeRunId = some r.runId)
    (hop : r.credentialOperation = none)
    (h : settleLostAndRetry now (.ok (settleLost now t r cause)) = .ok d)
    (hattach : attachCleanup r cleanupId d = .ok d') :
    Effect label now none overrun (some r) (some t) d' := by
  have hrun : d.run = some (lostRun now r cause) := settleLostAndRetry_run rfl h
  refine settle_and_clean hgiven (.lose cause hlabel) hlive hop hrun hattach
    fun r' hclean hmove => ?_
  have hstate : r'.state = .lost := hclean.state
  exact (settles_lost cause hmove hlive hclean hkey hsource hlock).effect_lost hstate rfl h

theorem RunOp.effect (op : RunOp) (hkey : taskKey t.task = taskKey r.task)
    (hsource : SameSource r.issue t.issue)
    (h : op.decide now t r eligibility = .ok d) (hattach : attachCleanup r cleanupId d = .ok d') :
    Effect (.onRun r.runId now cleanupId op) now none
      (op.doublesSuccessor now t r eligibility = true) (some r) (some t) d' := by
  have hsame : ∀ {label overrun}, (Effect label now none overrun (some r) (some t) d ∧
      ∀ s ∈ d.run, isLive s.state = true) → Effect label now none overrun (some r) (some t) d' := by
    rintro label overrun ⟨heffect, hlive⟩
    rw [attachCleanup_same fun s hs => .inr (hlive s hs)] at hattach
    exact Except.ok.inj hattach ▸ heffect
  cases op with
  | confirmDispatch => exact hsame (confirmDispatch_effect rfl h)
  | observeStartupPlacement claimant observation => exact hsame (observeStartupPlacement_effect h)
  | renew claimFingerprint started => exact hsame (renewLease_effect h)
  | observePlacement claimant placement => exact hsame (observePlacement_effect h)
  | observeDelivery observation authorize =>
    obtain ⟨heffect, hdead⟩ : Effect (.onRun r.runId now cleanupId (.observeDelivery observation
        authorize)) now none ((RunOp.observeDelivery observation authorize).doublesSuccessor now t r
        eligibility = true) (some r) (some t) d ∧ ∀ s ∈ d.run, isLive r.state = false :=
      advanceDelivery_effect hkey h
    rw [attachCleanup_same fun s hs => .inl (hdead s hs)] at hattach
    exact Except.ok.inj hattach ▸ heffect
  | report authority result claimFingerprint delivery publish =>
    cases authority with
    | none => exact plainReport_effect rfl rfl hkey hsource h hattach
    | some authority =>
      simp only [RunOp.decide] at h
      split_ifs at h with hfail
      · refine reportWithFallback_effect rfl rfl hkey hsource h hattach fun hop hadmitted hdouble => ?_
        simp [RunOp.doublesSuccessor, hfail, hop, hadmitted, hdouble]
      · exact plainReport_effect rfl rfl hkey hsource h hattach
  | cancel note nativeTask intervention =>
    obtain ⟨hlive, hop, -⟩ := cancelRun_ok h
    exact settle_and_clean rfl (.cancel note intervention rfl) hlive hop (cancelRun_run h) hattach
      fun r' hclean _ => effect_cancel rfl h (.inl rfl) hclean
  | invalidateSource observedAt => exact invalidateSourceRevision_effect rfl rfl h hattach
  | sweepExpired =>
    obtain ⟨lost, hlost, -⟩ := bind_eq_ok.1 h
    obtain ⟨hlive, -, hlock, hop, rfl⟩ := expireLeaseLoss_ok hlost
    refine loss_effect .expiry rfl rfl hkey hsource hlive hlock hop ?_ hattach
    rw [← hlost]
    exact h
  | executorExited claimant =>
    simp only [RunOp.decide, executorExitedAndRetry] at h
    split_ifs at h with hretire
    · have hlabel : (Step.onRun r.runId now cleanupId (.executorExited claimant)).exitOf =
          some r.runId := rfl
      obtain ⟨r', hmove, hstate, hdelivery, rfl⟩ := retireSettledClaim_ok h hlabel
        (executorLoss_notLive hretire.1) hretire.2
      rw [attachCleanup_same fun _ _ => .inl (executorLoss_notLive hretire.1)] at hattach
      obtain rfl := Except.ok.inj hattach
      exact effect_rewrite_task hmove (by rw [hstate]) fun _ => hdelivery
    · obtain ⟨lost, hlost, -⟩ := bind_eq_ok.1 h
      obtain ⟨hlive, hlock, hop, rfl⟩ := executorLoss_ok hlost
      refine loss_effect .executor rfl rfl hkey hsource hlive hlock hop ?_ hattach
      rw [← hlost]
      exact h

end RunOp

/-! ### Plain run transactions -/

/-- The guards of a finish that settles a deferred result. -/
def completionAdmitted (now : Time) (t : Task) (r : Run) (id fingerprint : String) (restored : Bool)
    (sequence : Option Nat) (op : CredentialOperation) (pending : CredentialPendingResult) : Bool :=
  op.id = id ∧ op.claimFingerprint = fingerprint ∧ isClaimant r fingerprint ∧ op.mutation = none ∧
    sequence = some op.mutationSequence ∧
    reportAdmitted now t (operationFinished r op restored fingerprint) pending.result
      (some pending.claimFingerprint)

/-- A finish whose deferred result both successor layers answer. -/
def DirectOp.doublesSuccessor (op : DirectOp) (now : Time) (t : Task) (r : Run)
    (eligibility : Option QueueEligibilitySnapshot) : Bool :=
  match op, r.credentialOperation, r.credentialPendingResult with
  | .finishCredentialOperation (some authority) id fingerprint restored sequence, some operation,
      some pending =>
    completionAdmitted now t r id fingerprint restored sequence operation pending ∧
      AgentLcars.doublesSuccessor t r pending.result (authority.allowedPipelines t r)
        (authority.available eligibility now)
  | _, _, _ => false

section DirectOp

variable {label : Step} {now : Time}
  {overrun : Prop} {t : Task} {r : Run} {eligibility : Option QueueEligibilitySnapshot}
  {d d' : Decision}

theorem reserveCredentialOperation_effect {claimFingerprint id : String} {kind : CredentialKind}
    (hlabel : label.reservation = some (r.runId, claimFingerprint, id, kind))
    (h : reserveCredentialOperation now t r claimFingerprint id kind = .ok d) :
    Effect label now none overrun (some r) (some t) d := by
  simp only [reserveCredentialOperation, ite_refused_eq_ok, not_or, not_not] at h
  obtain ⟨⟨hcodex, hclaim⟩, hop, hlive, -, h⟩ := h
  obtain rfl := Except.ok.inj h
  refine effect_rewrite_task (.reserve claimFingerprint id kind (by simpa using hop) hcodex hclaim
    (fun hk => ?_) hlabel) rfl fun _ => rfl
  by_contra hdead
  exact hlive ⟨hk, hdead⟩

/-- A finished operation leaves a live run's claim alone. -/
theorem operationFinished_live {op : CredentialOperation} {restored : Bool} {fingerprint : String}
    (h : isLive r.state = true) : (operationFinished r op restored fingerprint).queue = r.queue := by
  simp [operationFinished, h]

/-- The claim of the operation that is named, by the claimant that holds it. -/
structure Named (r : Run) (op : CredentialOperation) (id fingerprint : String) : Prop where
  operation : r.credentialOperation = some op
  names : op.id = id
  holds : op.claimFingerprint = fingerprint
  claimant : isClaimant r fingerprint = true

/-- What a change of a credential operation can be. -/
inductive Changed (now : Time) (t : Task) (r : Run) (op : CredentialOperation) :
    CredentialChange → Decision → Prop where
  | prepare (mutation : CredentialMutation)
      (hid : mutation.id = mutationIdOf op.id (op.mutationSequence + 1))
      (hbound : op.mutationSequence < 100) (hmutation : op.mutation = none) :
      Changed now t r op (.prepare mutation)
        { task := t
          run := some { r with
            credentialOperation := some { op with
              mutation := some mutation, mutationSequence := op.mutationSequence + 1 }
            updatedAt := now } }
  | acknowledge (mutation : CredentialMutation) (receipt : Option CredentialWriteReceipt)
      (hmutation : op.mutation = some mutation) :
      Changed now t r op (.acknowledge mutation.id receipt)
        { task := t
          run := some { r with
            credentialOperation := some { op with mutation := none }
            credentialWriteReceipt := receipt.or r.credentialWriteReceipt
            updatedAt := now } }
  | retryRecovery :
      Changed now t r op .retryRecovery
        { task := t
          run := some { r with
            credentialOperation := some { op with recoverAfter := credentialRecoverAfter now }
            updatedAt := now } }
  | finish (restored : Bool) (sequence : Option Nat) (hmutation : op.mutation = none)
      (hpending : r.credentialPendingResult = none)
      (hcleanup : op.kind = .cleanup → sequence = some op.mutationSequence) :
      Changed now t r op (.finish restored sequence)
        { task := t
          run := some { operationFinished r op restored op.claimFingerprint with
            updatedAt := now } }
  | complete (restored : Bool) (pending : CredentialPendingResult) (hmutation : op.mutation = none)
      (hpending : r.credentialPendingResult = some pending)
      (hadmitted : reportAdmitted now t (operationFinished r op restored op.claimFingerprint)
        pending.result (some pending.claimFingerprint) = true) :
      Changed now t r op (.finish restored (some op.mutationSequence))
        (reportDecision now t (operationFinished r op restored op.claimFingerprint) pending.result)

theorem changeCredentialOperation_ok {id fingerprint : String} {change : CredentialChange}
    (h : changeCredentialOperation now t r id fingerprint change = .ok d) :
    ∃ op, Named r op id fingerprint ∧ Changed now t r op change d := by
  unfold changeCredentialOperation at h
  split at h
  · exact absurd h refused_ne_ok
  rename_i op hop
  simp only [ite_refused_eq_ok, not_or, not_not] at h
  obtain ⟨⟨hid, rfl, hclaim⟩, h⟩ := h
  refine ⟨op, ⟨hop, hid, rfl, hclaim⟩, ?_⟩
  cases change with
  | prepare mutation =>
    simp only [ite_refused_eq_ok, not_or, not_not, not_le] at h
    obtain ⟨⟨hmid, hbound⟩, hmutation, h⟩ := h
    obtain rfl := Except.ok.inj h
    exact .prepare mutation hmid hbound (by simpa using hmutation)
  | acknowledge mutationId receipt =>
    simp only [ite_refused_eq_ok, not_not] at h
    obtain ⟨hid, h⟩ := h
    obtain ⟨mutation, hmutation, rfl⟩ := Option.map_eq_some_iff.1 hid
    obtain rfl := Except.ok.inj h
    exact .acknowledge mutation receipt hmutation
  | retryRecovery =>
    obtain rfl := Except.ok.inj h
    exact .retryRecovery
  | finish restored sequence =>
    simp only [ite_refused_eq_ok] at h
    obtain ⟨hmutation, hsequence, h⟩ := h
    have hmutation : op.mutation = none := by simpa using hmutation
    cases hpending : r.credentialPendingResult with
    | none =>
      rw [hpending] at h
      obtain rfl := Except.ok.inj h
      refine .finish restored sequence hmutation hpending fun hkind => ?_
      by_contra hne
      exact hsequence ⟨.inl hkind, hne⟩
    | some pending =>
      rw [hpending] at h
      dsimp only at h
      obtain rfl : sequence = some op.mutationSequence := by
        by_contra hne
        exact hsequence ⟨.inr (by simp [hpending]), hne⟩
      have hadmitted := reportResult_ok h
      rw [reportResult_eq hadmitted] at h
      obtain rfl := Except.ok.inj h
      exact .complete restored pending hmutation hpending hadmitted

theorem reported_complete {op : CredentialOperation} {restored : Bool}
    {pending : CredentialPendingResult}
    (hlabel : label.credentialChange = some (r.runId, op.id, op.claimFingerprint,
      .finish restored (some op.mutationSequence)))
    (hop : Named r op op.id op.claimFingerprint)
    (hkey : taskKey t.task = taskKey r.task) (hsource : SameSource r.issue t.issue)
    (hmutation : op.mutation = none) (hpending : r.credentialPendingResult = some pending)
    (hadmitted : reportAdmitted now t (operationFinished r op restored op.claimFingerprint)
      pending.result (some pending.claimFingerprint) = true) :
    Reported label now t r (operationFinished r op restored op.claimFingerprint)
      (finishedRun now t (operationFinished r op restored op.claimFingerprint) pending.result)
      pending.result := by
  obtain ⟨hlive, hlock⟩ := reportAdmitted_live hadmitted
  exact ⟨.complete op pending t restored hlive hop.operation hpending hmutation hop.claimant hlabel,
    hlive, rfl, hkey, hsource, hlock, rfl, rfl, rfl⟩

/-- The change of a credential operation. -/
theorem Changed.effect {op : CredentialOperation} {change : CredentialChange}
    (h : Changed now t r op change d)
    (hlabel : label.credentialChange = some (r.runId, op.id, op.claimFingerprint, change))
    (hop : Named r op op.id op.claimFingerprint)
    (hkey : taskKey t.task = taskKey r.task)
    (hsource : SameSource r.issue t.issue) :
    Effect label now none overrun (some r) (some t) d := by
  cases h with
  | prepare mutation hid hbound hmutation =>
    exact effect_rewrite_task
      (.prepare op mutation hop.operation hid hbound hmutation hop.claimant hlabel) rfl fun _ => rfl
  | acknowledge mutation receipt hmutation =>
    exact effect_rewrite_task
      (.acknowledge op mutation receipt hop.operation hmutation hop.claimant hlabel) rfl
      fun _ => rfl
  | retryRecovery =>
    exact effect_rewrite_task (.retryRecovery op hop.operation hop.claimant hlabel) rfl fun _ => rfl
  | finish restored sequence hmutation hpending hcleanup =>
    exact effect_rewrite_task
      (.finish op restored sequence hop.operation hpending hmutation hcleanup hop.claimant hlabel)
      rfl fun _ => rfl
  | complete restored pending hmutation hpending hadmitted =>
    have hr := reported_complete hlabel hop hkey hsource hmutation hpending hadmitted
    have heffect : Effect label now none overrun (some r) (some t) _ := hr.effect
    rwa [← reportDecision_run] at heffect

theorem Decision.with_run {s : Run} (h : d.run = some s) : { d with run := some s } = d := by
  rw [← h]

theorem finishWithFallback_effect {authority : Option ProviderFallbackAuthority}
    {id fingerprint : String} {restored : Bool} {sequence : Option Nat}
    (hlabel : label.credentialChange = some (r.runId, id, fingerprint, .finish restored sequence))
    (hkey : taskKey t.task = taskKey r.task) (hsource : SameSource r.issue t.issue)
    (h : finishWithFallback authority id fingerprint restored sequence now t r eligibility = .ok d)
    (hoverrun : (DirectOp.finishCredentialOperation authority id fingerprint restored
      sequence).doublesSuccessor now t r eligibility = true → overrun) :
    Effect label now none overrun (some r) (some t) d := by
  obtain ⟨outcome, houtcome, hnext⟩ := bind_eq_ok.1 h
  obtain ⟨op, hop, hchange⟩ := changeCredentialOperation_ok houtcome
  obtain ⟨hoperation, rfl, rfl, hclaim⟩ := hop
  have hplain : Effect label now none overrun (some r) (some t) outcome :=
    hchange.effect hlabel ⟨hoperation, rfl, rfl, hclaim⟩ hkey hsource
  cases authority with
  | none => exact Except.ok.inj hnext ▸ hplain
  | some authority =>
    dsimp only at hnext
    split_ifs at hnext with hnone
    · exact Except.ok.inj hnext ▸ hplain
    · cases hchange with
      | finish _ _ _ hpending => exact absurd hpending hnone
      | complete _ pending hmutation hpending hadmitted =>
        have hr := reported_complete hlabel ⟨hoperation, rfl, rfl, hclaim⟩ hkey hsource hmutation
          hpending hadmitted
        have hrun := settleProviderFallback_run (reportDecision_run now t _ pending.result) hnext
        have heffect : Effect label now none overrun (some r) (some t) _ :=
          hr.effect_fallback hnext fun hdouble => hoverrun (by
            simp [DirectOp.doublesSuccessor, hoperation, hpending, completionAdmitted, hclaim,
              hmutation, hadmitted, hdouble])
        rwa [Decision.with_run hrun] at heffect

theorem rerouteQueuedRun_effect {cooldown : Option ProviderCooldown}
    {authorized available : List String} (hlabel : label.reroutes = true)
    (hkey : taskKey t.task = taskKey r.task) (hsource : SameSource r.issue t.issue)
    (h : rerouteQueuedRun now t r cooldown authorized available = .ok d) :
    Effect label now none overrun (some r) (some t) d := by
  simp only [rerouteQueuedRun, ite_refused_eq_ok, not_not, not_or] at h
  obtain ⟨hlock, hunclaimed, ⟨-, hlive, -⟩, h⟩ := h
  split at h
  · exact absurd h refused_ne_ok
  rename_i cooldown
  simp only [ite_refused_eq_ok] at h
  obtain ⟨-, h⟩ := h
  split at h
  · exact absurd h refused_ne_ok
  rename_i pipeline hpipeline
  have hmove : Move label now r (reroutedRun now r cooldown.runId pipeline) :=
    .settle hlive (.inr hunclaimed) (.reroute _ _ hlabel)
      (.free (owesCleanup_of_unclaimed hunclaimed))
  have hs : Settles label now t r (reroutedRun now r cooldown.runId pipeline)
      (reroutedRun now r cooldown.runId pipeline)
      { task := { t with activeRunId := none, updatedAt := now }
        run := some (reroutedRun now r cooldown.runId pipeline) } :=
    ⟨rfl, rfl, hmove, hlive, rfl, rfl, rfl, rfl, hkey, hsource, hlock, rfl, rfl, rfl, rfl, rfl, rfl,
      rfl, rfl, rfl, rfl, List.nil_sublist _, by simp⟩
  have hoffers : Offers (reroutedRun now r cooldown.runId pipeline) pipeline :=
    offers_of_select (r := r) hpipeline
  have heffect : Effect label now none overrun (some r) (some t) _ :=
    hs.effect_fallback hoffers le_rfl h
  obtain ⟨_, next, -, -, rfl⟩ := successor_ok hs.run h
  exact heffect

theorem cancelUnclaimed_effect {notAfter : Time} {note : Option String}
    {issue : Option TrackerIssue} (hlabel : label.cancels = true)
    (h : cancelUnclaimed notAfter note issue now t r = .ok d) :
    Effect label now none overrun (some r) (some t) d := by
  simp only [cancelUnclaimed, ite_refused_eq_ok] at h
  obtain ⟨-, hunclaimed, -, h⟩ := h
  have heffect : Effect label now none overrun (some r) (some t) _ :=
    effect_cancel hlabel h (.inl rfl) (.free (owesCleanup_of_unclaimed hunclaimed))
  obtain ⟨-, -, closedAt, -, -, rfl⟩ := cancelRun_ok h
  exact heffect

theorem publishTriage_effect {state : Option PublicationState}
    (h : publishTriage state now t r = .ok d) : Effect label now none overrun (some r) (some t) d := by
  unfold publishTriage at h
  split at h
  · exact absurd h refused_ne_ok
  rename_i publication hpublication
  dsimp only at h
  split_ifs at h
  all_goals obtain rfl := Except.ok.inj h
  · exact effect_rewrite_task .same rfl fun _ => rfl
  all_goals exact effect_rewrite_task (.publish _ (by simp [hpublication])) rfl fun _ => rfl

theorem DirectOp.effect (op : DirectOp) (hkey : taskKey t.task = taskKey r.task)
    (hsource : SameSource r.issue t.issue)
    (h : op.decide now t r eligibility = .ok d) :
    Effect (.direct r.runId now op) now none
      (op.doublesSuccessor now t r eligibility = true) (some r) (some t) d := by
  cases op with
  | finishCredentialOperation authority id fingerprint restored sequence =>
    exact finishWithFallback_effect rfl hkey hsource h fun hdouble => hdouble
  | rerouteQueued authority executorPipelines =>
    simp only [DirectOp.decide] at h
    split at h
    · exact absurd h refused_ne_ok
    · exact rerouteQueuedRun_effect rfl hkey hsource h
  | cancelUnclaimedBefore notAfter note issue => exact cancelUnclaimed_effect rfl h
  | reserveCredentialOperation fingerprint id kind =>
    exact reserveCredentialOperation_effect rfl h
  | changeCredentialOperation id fingerprint change =>
    obtain ⟨op, ⟨hoperation, rfl, rfl, hclaim⟩, hchange⟩ := changeCredentialOperation_ok h
    exact hchange.effect rfl ⟨hoperation, rfl, rfl, hclaim⟩ hkey hsource
  | recordTriagePublication state => exact publishTriage_effect h

end DirectOp

end AgentLcars
