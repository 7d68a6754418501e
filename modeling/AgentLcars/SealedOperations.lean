import AgentLcars.SealedProgress

/-!
# Fallbacks, deliveries and credential operations keep records sealed

* A fresh attempt appends a pipeline of the policy's own list that was not attempted yet, so a list
  of eight alternatives leads to at most nine attempts.
* A correction overlays three params of bounded length.
* A mutation id is its operation's id and a number up to a hundred.
-/

namespace AgentLcars

variable {n : Nat} {now : Time} {t : Task} {r : Run} {d : Decision}

/-! ### Provider fallback -/

/-- The policy a fallback leaves to its successor. -/
theorem ProviderFallback.Sealed.attempt {policy : ProviderFallback} (h : policy.Sealed)
    {pipeline : String} (hallowed : pipeline ∈ policy.allowedPipelines)
    (hnew : pipeline ∉ policy.attemptedPipelines) {fromRunId : String}
    (hfrom : isRunId fromRunId = true) {trigger : FallbackTrigger}
    (htrigger : FallbackTriggerSchema trigger) :
    ProviderFallback.Sealed { policy with
      attemptedPipelines := policy.attemptedPipelines ++ [pipeline]
      fromRunId := some fromRunId
      trigger := some trigger } := by
  have hallowedList := h.parses.allowedPipelines
  have hattemptedList := h.parses.attemptedPipelines
  simp only [pipelineListSchema, decide_eq_true_eq, List.all_eq_true] at hallowedList hattemptedList
  obtain ⟨hbounded, hdistinct, -, hfew⟩ := hallowedList
  obtain ⟨hbounded', hdistinct', hsome, -⟩ := hattemptedList
  obtain ⟨first, rest, hattempted⟩ := List.exists_cons_of_length_pos hsome
  have htail : rest ++ [pipeline] ⊆ policy.allowedPipelines := by
    have := h.attempts
    rw [hattempted, List.tail_cons] at this
    simpa [List.subset_def, or_imp, forall_and] using And.intro this hallowed
  have hnodup : (policy.attemptedPipelines ++ [pipeline]).Nodup := by
    rw [List.nodup_append]
    exact ⟨hdistinct', by simp, fun a ha b hb => by
      obtain rfl := List.mem_singleton.1 hb
      exact fun hab => hnew (hab ▸ ha)⟩
  have hnine : (policy.attemptedPipelines ++ [pipeline]).length ≤ 9 := by
    rw [hattempted] at hnodup ⊢
    have hlength : (rest ++ [pipeline]).length ≤ policy.allowedPipelines.length :=
      List.Nodup.length_le_of_subset (List.nodup_cons.1 hnodup).2 htail
    simp only [List.cons_append, List.length_cons]
    omega
  refine ⟨{ h.parses with
    attemptedPipelines := ?_, fromRunId := by simpa using hfrom, trigger := by simpa using htrigger
    provenance := by simp }, ?_⟩
  · simp only [pipelineListSchema, decide_eq_true_eq, List.all_eq_true]
    refine ⟨fun p hp => ?_, hnodup, by simp, hnine⟩
    rcases List.mem_append.1 hp with hp | hp
    · exact hbounded' p hp
    · obtain rfl := List.mem_singleton.1 hp
      exact hbounded p hallowed
  · show (policy.attemptedPipelines ++ [pipeline]).tail ⊆ policy.allowedPipelines
    rw [hattempted]
    exact htail

/-- A pipeline a policy would fall back to. -/
structure Alternative (r : Run) (pipeline : String) : Prop where
  allowed : ∃ policy, r.providerFallback = some policy ∧ pipeline ∈ policy.allowedPipelines ∧
    pipeline ∉ policy.attemptedPipelines

theorem selectFallbackPipeline_alternative {authorized available : List String} {pipeline : String}
    (h : selectFallbackPipeline r authorized available = some pipeline) :
    Alternative r pipeline := by
  unfold selectFallbackPipeline at h
  split at h
  · cases h
  · rename_i policy hpolicy
    have hmem := List.mem_of_find?_eq_some h
    have hfound := List.find?_some h
    simp only [decide_eq_true_eq] at hfound
    exact ⟨policy, hpolicy, hmem, hfound.2.1⟩

theorem freshParams_parses {params : Option Params} (h : ∀ p ∈ params, paramsSchema p) :
    ∀ p ∈ freshParams params, paramsSchema p := by
  intro p hp
  obtain ⟨given, hgiven, rfl⟩ := Option.mem_map.1 hp
  exact fun param hparam => h given hgiven param (List.mem_of_mem_filter hparam)

theorem successor_sealed (hd : d.Sealed n) (hnow : Roomy now) (hn : n + 1 ≤ MAX_SAFE_INTEGER)
    {pipeline : String} (hpipeline : ∀ run, d.run = some run → Alternative run pipeline)
    {reason : FallbackReason} {failureRunId : String} (hfailure : isRunId failureRunId = true)
    {next : Decision} (h : successor now d pipeline reason failureRunId = .ok next) :
    next.Sealed (n + 1) := by
  obtain ⟨previous, hprevious, h⟩ := bind_eq_ok.1 h
  have hrun := decidedRun_eq_ok.1 hprevious
  have hr := hd.run hrun
  split at h
  · exact absurd h refused_ne_ok
  rename_i policy hpolicy
  obtain ⟨minted, hminted, h⟩ := bind_eq_ok.1 h
  obtain ⟨-, -, h⟩ := bind_eq_ok.1 h
  obtain rfl := Except.ok.inj h
  obtain ⟨policy', hpolicy', hallowed, hnew⟩ := (hpipeline previous hrun).allowed
  obtain rfl : policy = policy' := Option.some.inj (hpolicy.symm.trans hpolicy')
  have hsealed := hr.policy policy hpolicy
  have hbounded : withinLength pipeline 128 = true := by
    have := hsealed.parses.allowedPipelines
    simp only [pipelineListSchema, decide_eq_true_eq, List.all_eq_true] at this
    exact this.1 pipeline hallowed
  refine (hd.mono (Nat.le_succ n)).followedBy (requestRun_sealed ?_ hn hminted)
  exact
    { now := hnow
      task := by simpa [successorRequest] using hd.task
      taskId := hr.parses.task
      activeRun := by simp [successorRequest]
      requestId := withinLength_tag hr.parses.runId (le_refl _)
      pipeline := hbounded
      params := freshParams_parses hr.parses.params
      intervention := by simp [successorRequest]
      work := by simp [successorRequest]
      issue := hr.parses.issue
      providerFallback := by
        intro input hinput
        obtain rfl := Option.some.inj hinput
        exact hsealed.attempt hallowed hnew hr.parses.runId ⟨hfailure, hr.parses.pipeline⟩
      sourceRevision := by simp [successorRequest]
      revisionAttempt := by simp [successorRequest] }

theorem settleProviderFallback_sealed (hd : d.Sealed n) (hnow : Roomy now)
    (hn : n + 1 ≤ MAX_SAFE_INTEGER) {authorized available : List String} {next : Decision}
    (h : settleProviderFallback now d authorized available = .ok next) : next.Sealed (n + 1) := by
  obtain ⟨previous, hprevious, h⟩ := bind_eq_ok.1 h
  have hrun := decidedRun_eq_ok.1 hprevious
  split at h
  · obtain rfl := Except.ok.inj h
    exact hd.mono (Nat.le_succ n)
  split at h
  · obtain rfl := Except.ok.inj h
    exact hd.mono (Nat.le_succ n)
  rename_i pipeline hpipeline
  refine successor_sealed hd hnow hn (fun run hrun' => ?_) (hd.run hrun).parses.runId h
  obtain rfl := Option.some.inj (hrun.symm.trans hrun')
  rcases Option.or_eq_some_iff.1 hpipeline with hselected | ⟨-, hselected⟩
  · exact selectFallbackPipeline_alternative hselected
  · exact selectFallbackPipeline_alternative hselected

theorem reportResultWithFallback_sealed (ht : t.Sealed n) (hr : r.Sealed) (hnow : Roomy now)
    (hn : n + 2 ≤ MAX_SAFE_INTEGER) {result : RunResult} {claimFingerprint : Option String}
    {authorized available : List String} (hresult : RunResultSchema result)
    (h : reportResultWithFallback now t r result claimFingerprint authorized available = .ok d) :
    d.Sealed (n + 2) := by
  obtain ⟨settled, hsettled, h⟩ := bind_eq_ok.1 h
  exact settleProviderFallback_sealed
    (reportResult_sealed ht hr hnow (Nat.le_of_succ_le hn) hresult hsettled) hnow hn h

theorem rerouteQueuedRun_sealed (ht : t.Sealed n) (hr : r.Sealed) (hnow : Roomy now)
    (hn : n + 1 ≤ MAX_SAFE_INTEGER) {cooldown : Option ProviderCooldown}
    {authorized available : List String}
    (h : rerouteQueuedRun now t r cooldown authorized available = .ok d) : d.Sealed (n + 1) := by
  unfold rerouteQueuedRun at h
  simp only [ite_refused_eq_ok] at h
  obtain ⟨-, -, hqueued, h⟩ := h
  split at h
  · exact absurd h refused_ne_ok
  rename_i cooldown
  obtain ⟨hreroutes, h⟩ := ite_refused_eq_ok.1 h
  split at h
  · exact absurd h refused_ne_ok
  rename_i pipeline hpipeline
  have halternative := selectFallbackPipeline_alternative hpipeline
  have hlive : isLive r.state = true := by
    by_contra hdead
    exact hqueued (.inr (.inl hdead))
  simp only [reroutesOn, not_not, decide_eq_true_eq] at hreroutes
  obtain ⟨-, hsome, hshort, -⟩ := hreroutes
  have hcooldown : isRunId cooldown.runId = true := by
    simp only [isRunId, withinLength_iff]
    omega
  have hnote : jsLength ("Provider cooldown from " ++ cooldown.runId ++ "; fresh fallback to " ++
      pipeline) ≤ 1024 := by
    obtain ⟨policy, hpolicy, hallowed, -⟩ := halternative.allowed
    have hlist := (hr.policy policy hpolicy).parses.allowedPipelines
    simp only [pipelineListSchema, decide_eq_true_eq, List.all_eq_true, withinLength_iff] at hlist
    have hbounded := (hlist.1 pipeline hallowed).2
    have hmax : RUN_ID_MAX_LENGTH = 175 := rfl
    have hfrom : jsLength "Provider cooldown from " = 23 := by decide
    have hto : jsLength "; fresh fallback to " = 20 := by decide
    simp only [jsLength_append, hfrom, hto]
    omega
  have hrerouted : (reroutedRun now r cooldown.runId pipeline).Sealed :=
    hr.settled hlive hnow ⟨hnow.iso, by simpa using hnote, by simp⟩ rfl
  have hreleased : Task.Sealed n { t with activeRunId := none, updatedAt := now } :=
    ⟨{ ht.parses with activeRunId := by simp, updatedAt := hnow.iso }, ht.runCount,
      ht.consecutiveLost⟩
  refine successor_sealed (.of_run hreleased hrerouted (by simp)) hnow hn (fun run hrun => ?_)
    hcooldown h
  obtain rfl := Option.some.inj hrun
  exact ⟨halternative.allowed⟩

/-! ### Deliveries -/

theorem overlay_parses {params extra : Params} (hparams : paramsSchema params)
    (hextra : paramsSchema extra) : paramsSchema (overlay params extra) := by
  unfold overlay
  induction extra generalizing params with
  | nil => exact hparams
  | cons entry rest ih =>
    have hentry := hextra entry (by simp)
    refine ih ?_ fun e he => hextra e (by simp [he])
    dsimp only
    split_ifs
    · intro e he
      obtain ⟨old, hold, rfl⟩ := List.mem_map.1 he
      split_ifs
      · exact hentry
      · exact hparams old hold
    · intro e he
      rcases List.mem_append.1 he with he | he
      · exact hparams e he
      · obtain rfl := List.mem_singleton.1 he
        exact hentry

theorem correctionRequest_bounded (ht : t.Sealed n) (hr : r.Sealed) (hnow : Roomy now)
    (binding : DeliveryBinding) (reason : String) :
    (correctionRequest now t r binding reason).Bounded n where
  now := hnow
  task := by
    intro task htask
    obtain rfl := Option.some.inj htask
    exact ⟨{ ht.parses with delivery := by simp }, ht.runCount, ht.consecutiveLost⟩
  taskId := ht.parses.task
  activeRun := by simp [correctionRequest]
  requestId := withinLength_tag hr.parses.runId (by decide)
  pipeline := hr.parses.pipeline
  params := by
    intro params hparams
    obtain rfl := Option.some.inj hparams
    refine overlay_parses ?_ ?_
    · cases hgiven : r.params with
      | none => exact fun param hparam => by cases hparam
      | some given => exact hr.parses.params given hgiven
    · have hmode : jsLength "mode" ≤ 64 ∧ jsLength "implement" ≤ 16384 := by decide
      have hcontext : jsLength "context" ≤ 64 := by decide
      have hpredecessor : jsLength "deliveryPredecessor" ≤ 64 := by decide
      have hrunId := hr.parses.runId
      have hmax : RUN_ID_MAX_LENGTH = 175 := rfl
      simp only [isRunId, withinLength_iff, hmax] at hrunId
      intro param hparam
      simp only [List.mem_cons, List.not_mem_nil, or_false] at hparam
      rcases hparam with rfl | rfl | rfl
      · exact hmode
      · exact ⟨hcontext, jsLength_sliceTo_le _ _⟩
      · exact ⟨hpredecessor, by dsimp only; omega⟩
  intervention := by simp [correctionRequest]
  work := by simp [correctionRequest]
  issue := by simp [correctionRequest]
  providerFallback := by
    intro policy hpolicy
    obtain ⟨given, hgiven, rfl⟩ := Option.mem_map.1 hpolicy
    exact hr.policy given hgiven
  sourceRevision := by simp [correctionRequest]
  revisionAttempt := by simp [correctionRequest]

/-- The heads and commits an observation brings. -/
def DeliveryObservation.Bounded : DeliveryObservation → Prop
  | .merged _ mergeCommit => isHexText 40 mergeCommit = true
  | .revision _ newHead => isHexText 40 newHead = true
  | .waiting _ | .withdrawn _ | .correction _ _ => True

theorem moveDelivery_sealed (ht : t.Sealed n) (hr : r.Sealed) (hnow : Roomy now)
    {delivery : Option DeliveryBinding} (hdelivery : ∀ b ∈ delivery, DeliveryBindingSchema b)
    {outbox : List OutboxEntry} (hout : ∀ e ∈ outbox, e.Sealed n) :
    (moveDelivery now t r delivery outbox).Sealed n := by
  refine .of_run ⟨{ ht.parses with delivery := hdelivery, updatedAt := hnow.iso }, ht.runCount,
    ht.consecutiveLost⟩ ?_ hout
  exact ⟨{ hr.parses with delivery := hdelivery, updatedAt := hnow.iso }, hr.events, hnow,
    hr.claimedAt, hr.operation, hr.policy⟩

theorem advanceDelivery_sealed (ht : t.Sealed n) (hr : r.Sealed) (hnow : Roomy now)
    (hn : n + 1 ≤ MAX_SAFE_INTEGER) {observation : DeliveryObservation}
    (hobservation : observation.Bounded) {authorized : Bool}
    (h : advanceDelivery now t r observation authorized = .ok d) : d.Sealed (n + 1) := by
  unfold advanceDelivery at h
  obtain ⟨-, h⟩ := ite_refused_eq_ok.1 h
  split at h
  · exact absurd h refused_ne_ok
  rename_i binding hbinding
  have hparses := ht.parses.delivery binding hbinding
  have hsame : (⟨t, some r, [], []⟩ : Decision).Sealed (n + 1) :=
    (Decision.Sealed.of_run ht hr (by simp)).mono (Nat.le_succ n)
  obtain ⟨-, h⟩ := ite_refused_eq_ok.1 h
  split at h
  · obtain rfl := Except.ok.inj h
    exact hsame
  split at h
  · obtain rfl := Except.ok.inj h
    exact hsame
  · obtain rfl := Except.ok.inj h
    refine (moveDelivery_sealed ht hr hnow ?_ (by simp)).mono (Nat.le_succ n)
    intro b hb
    obtain rfl := Option.some.inj hb
    exact { hparses with head := hobservation, observedAt := hnow.iso }
  · obtain rfl := Except.ok.inj h
    refine (moveDelivery_sealed ht hr hnow ?_ fun e he => ?_).mono (Nat.le_succ n)
    · intro b hb
      obtain rfl := Option.some.inj hb
      refine { hparses with mergeCommit := ?_, observedAt := hnow.iso }
      intro commit hcommit
      obtain rfl := Option.some.inj hcommit
      exact hobservation
    · unfold finalDeliveryOutbox at he
      split_ifs at he
      · cases he
      · obtain rfl := List.mem_singleton.1 he
        exact freshEntry_sealed hr hnow _ (by decide)
  · obtain rfl := Except.ok.inj h
    exact (moveDelivery_sealed ht hr hnow (by simp) (by simp)).mono (Nat.le_succ n)
  · simp only [ite_refused_eq_ok] at h
    obtain ⟨-, -, h⟩ := h
    obtain ⟨next, hnext, h⟩ := bind_eq_ok.1 h
    obtain ⟨correction, hcorrection, h⟩ := bind_eq_ok.1 h
    obtain rfl := Except.ok.inj h
    have hminted := requestRun_sealed (correctionRequest_bounded ht hr hnow binding _) hn hnext
    have hrun := hminted.run (decidedRun_eq_ok.1 hcorrection)
    refine ⟨⟨{ hminted.task.parses with delivery := ?_ }, hminted.task.runCount,
      hminted.task.consecutiveLost⟩, fun x hx => ?_, hminted.outbox⟩
    · intro b hb
      obtain rfl := Option.some.inj hb
      exact { hparses with correctionRunId := by simpa using hrun.parses.runId }
    · simp only [Decision.writes, Option.toList_some, List.mem_append, List.mem_singleton] at hx
      rcases hx with rfl | rfl
      · exact hr
      · exact hrun

/-! ### Credential operations -/

/-- A run with another credential operation. -/
theorem Run.Sealed.operate (hr : r.Sealed) (hnow : Roomy now)
    {operation : Option CredentialOperation} {receipt : Option CredentialWriteReceipt}
    (hparses : ∀ op ∈ operation, CredentialOperationSchema op)
    (hshort : ∀ op ∈ operation, jsLength op.id ≤ 100)
    (hreceipt : ∀ x ∈ receipt, CredentialWriteReceiptSchema x) :
    Run.Sealed { r with
      credentialOperation := operation, credentialWriteReceipt := receipt, updatedAt := now } :=
  ⟨{ hr.parses with
    credentialOperation := hparses, credentialWriteReceipt := hreceipt, updatedAt := hnow.iso },
    hr.events, hnow, hr.claimedAt, hshort, hr.policy⟩

theorem isClaimant_hash (hr : r.Sealed) {fingerprint : String}
    (h : isClaimant r fingerprint = true) : isHexText 64 fingerprint = true := by
  have hclaim : r.queueState = some .claimed ∧ r.tokenHash = some fingerprint := of_decide_eq_true h
  obtain ⟨queue, hqueue, htoken⟩ := Option.bind_eq_some_iff.1 hclaim.2
  exact (hr.parses.queue queue hqueue).tokenHash fingerprint htoken

theorem credentialRecoverAfter_iso (hnow : Roomy now) : isoUtc (credentialRecoverAfter now) :=
  hnow.later (by decide) (by decide)

theorem reserveCredentialOperation_sealed (ht : t.Sealed n) (hr : r.Sealed) (hnow : Roomy now)
    {claimFingerprint id : String} {kind : CredentialKind} (hid : withinLength id 100 = true)
    (h : reserveCredentialOperation now t r claimFingerprint id kind = .ok d) : d.Sealed n := by
  unfold reserveCredentialOperation at h
  simp only [ite_refused_eq_ok] at h
  obtain ⟨hclaimant, -, -, -, h⟩ := h
  obtain rfl := Except.ok.inj h
  have hclaimant : isClaimant r claimFingerprint = true := by
    by_contra hno
    exact hclaimant (.inr hno)
  refine .of_run ht (hr.operate hnow ?_ ?_ hr.parses.credentialWriteReceipt) (by simp)
  · intro op hop
    obtain rfl := Option.some.inj hop
    exact
      { id := withinLength_mono hid (by decide)
        claimFingerprint := isClaimant_hash hr hclaimant
        startedAt := hnow.iso
        mutationSequence := Nat.zero_le _
        recoverAfter := credentialRecoverAfter_iso hnow
        mutation := by simp }
  · intro op hop
    obtain rfl := Option.some.inj hop
    rw [withinLength_iff] at hid
    exact hid.2

/-- The external write a change prepares, and the receipt it acknowledges. -/
def CredentialChange.Bounded : CredentialChange → Prop
  | .prepare mutation => mutationWriteSchema mutation
  | .acknowledge _ receipt => ∀ x ∈ receipt, CredentialWriteReceiptSchema x
  | .retryRecovery | .finish _ _ => True

/-- The id of a mutation within its operation's budget is never too long. -/
theorem mutationIdOf_within {id : String} {sequence : Nat} (hid : jsLength id ≤ 100)
    (hsequence : sequence ≤ 100) : withinLength (mutationIdOf id sequence) 128 = true := by
  have hdigits : jsLength (toString sequence) ≤ 3 :=
    jsLength_toString_le (by decide) (lt_of_le_of_lt hsequence (by decide))
  have hcolon : jsLength ":" = 1 := by decide
  simp only [withinLength_iff, mutationIdOf, jsLength_append, hcolon]
  omega

theorem operationFinished_sealed (hr : r.Sealed) (operation : CredentialOperation)
    (restored : Bool) {fingerprint : String} (hfingerprint : isHexText 64 fingerprint = true) :
    (operationFinished r operation restored fingerprint).Sealed := by
  have hreceipt : ∀ x ∈ (if restored then some fingerprint
      else r.credentialRestoredClaimFingerprint), isHexText 64 x = true := by
    intro x hx
    split_ifs at hx
    · obtain rfl := Option.some.inj hx
      exact hfingerprint
    · exact hr.parses.credentialRestoredClaimFingerprint x hx
  have hmoved : Run.Sealed { r with
      queue := (operationFinished r operation restored fingerprint).queue } := by
    rcases operationFinished_queue r operation restored fingerprint with hqueue | hqueue
    · rw [hqueue]
      exact hr
    · rw [hqueue]
      exact hr.retired
  exact ⟨{ hmoved.parses with
    credentialOperation := by simp [operationFinished]
    credentialRestoredClaimFingerprint := hreceipt }, hr.events, hr.updatedAt, hmoved.claimedAt,
    by simp [operationFinished], hr.policy⟩

theorem changeCredentialOperation_sealed (ht : t.Sealed n) (hr : r.Sealed) (hnow : Roomy now)
    (hn : n + 1 ≤ MAX_SAFE_INTEGER) {id claimFingerprint : String} {change : CredentialChange}
    (hchange : change.Bounded)
    (h : changeCredentialOperation now t r id claimFingerprint change = .ok d) :
    d.Sealed (n + 1) := by
  unfold changeCredentialOperation at h
  split at h
  · exact absurd h refused_ne_ok
  rename_i operation hop
  have hparses := hr.parses.credentialOperation operation hop
  have hshort := hr.operation operation hop
  obtain ⟨hclaimant, h⟩ := ite_refused_eq_ok.1 h
  have hclaimant : isClaimant r claimFingerprint = true := by
    by_contra hno
    exact hclaimant (.inr (.inr hno))
  cases change with
  | prepare mutation =>
    simp only [ite_refused_eq_ok] at h
    obtain ⟨hbudget, -, h⟩ := h
    obtain rfl := Except.ok.inj h
    obtain ⟨hid, hsequence⟩ : mutation.id = mutationIdOf operation.id
        (operation.mutationSequence + 1) ∧ operation.mutationSequence < 100 := by
      simpa [not_or] using hbudget
    refine (Decision.Sealed.of_run ht (hr.operate hnow ?_ ?_ hr.parses.credentialWriteReceipt)
      (by simp)).mono (Nat.le_succ n)
    · intro op hop
      obtain rfl := Option.some.inj hop
      refine { hparses with mutationSequence := hsequence, mutation := ?_ }
      intro m hm
      obtain rfl := Option.some.inj hm
      exact ⟨hid ▸ mutationIdOf_within hshort hsequence, hchange⟩
    · intro op hop
      obtain rfl := Option.some.inj hop
      exact hshort
  | acknowledge mutationId receipt =>
    obtain ⟨-, h⟩ := ite_refused_eq_ok.1 h
    obtain rfl := Except.ok.inj h
    refine (Decision.Sealed.of_run ht (hr.operate hnow ?_ ?_ ?_) (by simp)).mono (Nat.le_succ n)
    · intro op hop
      obtain rfl := Option.some.inj hop
      exact { hparses with mutation := by simp }
    · intro op hop
      obtain rfl := Option.some.inj hop
      exact hshort
    · intro receipt hreceipt
      rcases Option.or_eq_some_iff.1 hreceipt with hreceipt | ⟨-, hreceipt⟩
      · exact hchange receipt hreceipt
      · exact hr.parses.credentialWriteReceipt receipt hreceipt
  | retryRecovery =>
    obtain rfl := Except.ok.inj h
    refine (Decision.Sealed.of_run ht (hr.operate hnow ?_ ?_ hr.parses.credentialWriteReceipt)
      (by simp)).mono (Nat.le_succ n)
    · intro op hop
      obtain rfl := Option.some.inj hop
      exact { hparses with recoverAfter := credentialRecoverAfter_iso hnow }
    · intro op hop
      obtain rfl := Option.some.inj hop
      exact hshort
  | finish restored sequence =>
    simp only [ite_refused_eq_ok] at h
    obtain ⟨-, -, h⟩ := h
    have hfinished := operationFinished_sealed hr operation restored
      (isClaimant_hash hr hclaimant)
    split at h
    · rename_i pending hpending
      exact reportResult_sealed ht hfinished hnow hn
        (hr.parses.credentialPendingResult pending hpending).result h
    · obtain rfl := Except.ok.inj h
      exact (Decision.Sealed.of_run ht (hfinished.touch hnow _) (by simp)).mono (Nat.le_succ n)

end AgentLcars
