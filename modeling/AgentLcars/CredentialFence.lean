import AgentLcars.Coherence

/-!
# The fence of a credential operation

While a run holds a credential operation, an external write for its claim can still land, so nothing
may recycle the claim.  The checks that keep it are scattered over every operation; here they are
read off the list of moves once.

* `Fenced` is the state of a run with an operation.
* `FencedStep` is all that a step may do to it.
* `World.credential_fence`, `World.cleanup_debt`: both hold in every reachable state.
-/

namespace AgentLcars

/-! ### Runs with an operation -/

/-- The claim an operation stands for is the run's own, and its outstanding write is the last one
counted. -/
structure Fenced (r : Run) (op : CredentialOperation) : Prop where
  claimed : r.queueState = some .claimed
  token : r.tokenHash = some op.claimFingerprint
  codex : usesCodexCredentials r = true
  mutation : ∀ m ∈ op.mutation, m.id = mutationIdOf op.id op.mutationSequence
  bounded : op.mutationSequence ≤ 100

/-- The run keeps its operation, its claim and its standing. -/
structure Held (op : CredentialOperation) (r r' : Run) : Prop where
  operation : r'.credentialOperation = some op
  claim : ∃ q q', r.queue = some q ∧ r'.queue = some q' ∧ SameClaim q q'
  live : isLive r'.state = isLive r.state
  result : r'.result = r.result
  events : r'.events = r.events ∨
    (r.state = .pending ∧ ∃ at_, r'.events = r.events ++ [{ at_, to_ := .running, by_ := .dispatch }]) ∨
    (isLive r.state = false ∧ ∃ at_, r'.events = r.events ++
      [{ at_, to_ := r.state, by_ := .executor
         note := some RECIPE_EXIT_PENDING_CREDENTIAL_CLEANUP }])

/-- What a step may do to a run with an operation. -/
inductive FencedStep (label : Step) (op : CredentialOperation) (r r' : Run) : Prop where
  | held (h : Held op r r')
  | prepare (mutation : CredentialMutation)
      (hlabel : label.credentialChange =
        some (r.runId, op.id, op.claimFingerprint, .prepare mutation))
      (hid : mutation.id = mutationIdOf op.id (op.mutationSequence + 1))
      (hbound : op.mutationSequence < 100) (hmutation : op.mutation = none)
      (h : Held { op with
        mutation := some mutation, mutationSequence := op.mutationSequence + 1 } r r')
  | acknowledge (mutation : CredentialMutation) (receipt : Option CredentialWriteReceipt)
      (hlabel : label.credentialChange =
        some (r.runId, op.id, op.claimFingerprint, .acknowledge mutation.id receipt))
      (hmutation : op.mutation = some mutation) (h : Held { op with mutation := none } r r')
  | retryRecovery (recoverAfter : Time)
      (hlabel : label.credentialChange =
        some (r.runId, op.id, op.claimFingerprint, .retryRecovery))
      (h : Held { op with recoverAfter } r r')
  | finish (restored : Bool) (sequence : Option Nat)
      (hlabel : label.credentialChange =
        some (r.runId, op.id, op.claimFingerprint, .finish restored sequence))
      (hmutation : op.mutation = none) (hgone : r'.credentialOperation = none)
      (hsequence : op.kind = .cleanup ∨ r.credentialPendingResult.isSome = true →
        sequence = some op.mutationSequence)
      (hlive : isLive r'.state = isLive r.state ∨ r.credentialPendingResult.isSome = true)

theorem SameClaim.refl (q : RunQueue) : SameClaim q q := ⟨rfl, rfl, rfl, rfl, id⟩

theorem Fenced.queue {r : Run} {op : CredentialOperation} (h : Fenced r op) :
    ∃ q, r.queue = some q ∧ q.state = .claimed := by
  obtain ⟨q, hq, hstate⟩ := Option.map_eq_some_iff.1 h.claimed
  exact ⟨q, hq, hstate⟩

theorem queueState_ne_of_none {r : Run} (h : r.queue = none) : r.queueState ≠ some .claimed := by
  simp [Run.queueState, h]

section Steps

variable {label : Step} {now : Time} {r r' : Run} {op : CredentialOperation}

/-- A move that leaves claim, standing and log alone. -/
theorem Fenced.held (h : Fenced r op) {op' : CredentialOperation}
    (hop : r'.credentialOperation = some op') (hqueue : r'.queue = r.queue)
    (hstate : r'.state = r.state) (hresult : r'.result = r.result)
    (hevents : r'.events = r.events) : Held op' r r' where
  operation := hop
  claim := by
    obtain ⟨q, hq, -⟩ := h.queue
    exact ⟨q, q, hq, hqueue.trans hq, .refl q⟩
  live := by rw [hstate]
  result := hresult
  events := .inl hevents

/-- Everything a step can do to a run with an operation. -/
theorem Move.fencedStep (hmove : Move label now r r') (h : Fenced r op)
    (hop : r.credentialOperation = some op) : FencedStep label op r r' := by
  obtain ⟨q, hq, hclaimed⟩ := h.queue
  have hsome : r.credentialOperation ≠ none := by
    rw [hop]
    exact nofun
  cases hmove with
  | same => exact .held (h.held hop rfl rfl rfl rfl)
  | confirm hp =>
    refine .held ⟨hop, ⟨q, q, hq, hq, .refl q⟩, ?_, rfl, .inr (.inl ⟨hp, now, rfl⟩)⟩
    rw [hp]
    rfl
  | observe lease updated hlive hq' hclaim =>
    exact .held ⟨hop, ⟨_, _, hq', rfl, hclaim⟩, rfl, rfl, .inl rfl⟩
  | renewUnqueued _ hnone => exact absurd h.claimed (queueState_ne_of_none hnone)
  | enqueue hnone => exact absurd h.claimed (queueState_ne_of_none hnone)
  | claim _ _ hnone => exact absurd hnone hsome
  | release _ _ _ _ hnone => exact absurd hnone hsome
  | defer => exact .held (h.held hop rfl rfl rfl rfl)
  | settle _ hfree =>
    rcases hfree with hnone | hfree
    · exact absurd hnone hsome
    · exact absurd h.claimed hfree
  | complete op' pending task restored hlive hop' hpending hmutation hclaim hlabel =>
    obtain rfl : op = op' := Option.some.inj (hop.symm.trans hop')
    exact .finish restored _ hlabel hmutation rfl (fun _ => rfl) (.inr (by rw [hpending]; rfl))
  | retire _ hnone => exact absurd hnone hsome
  | receipt hterminal =>
    exact .held ⟨hop, ⟨q, q, hq, hq, .refl q⟩, rfl, rfl, .inr (.inr ⟨hterminal, now, rfl⟩)⟩
  | reserve _ _ _ hnone => exact absurd hnone hsome
  | prepare op' mutation hop' hid hbound hmutation hclaim hlabel =>
    obtain rfl : op = op' := Option.some.inj (hop.symm.trans hop')
    exact .prepare mutation hlabel hid hbound hmutation (h.held rfl rfl rfl rfl rfl)
  | acknowledge op' mutation receipt hop' hmutation hclaim hlabel =>
    obtain rfl : op = op' := Option.some.inj (hop.symm.trans hop')
    exact .acknowledge mutation receipt hlabel hmutation (h.held rfl rfl rfl rfl rfl)
  | retryRecovery op' hop' hclaim hlabel =>
    obtain rfl : op = op' := Option.some.inj (hop.symm.trans hop')
    exact .retryRecovery _ hlabel (h.held rfl rfl rfl rfl rfl)
  | finish op' restored sequence hop' hpending hmutation hcleanup hclaim hlabel =>
    obtain rfl : op = op' := Option.some.inj (hop.symm.trans hop')
    refine .finish restored sequence hlabel hmutation rfl ?_ (.inl rfl)
    rintro (hkind | hdeferred)
    · exact hcleanup hkind
    · rw [hpending] at hdeferred
      cases hdeferred
  | deliver => exact .held (h.held hop rfl rfl rfl rfl)
  | publish => exact .held (h.held hop rfl rfl rfl rfl)

/-- A held run is still fenced. -/
theorem Held.fenced (h : Fenced r op) {op' : CredentialOperation} (hheld : Held op' r r')
    (hfrozen : r'.frozen = r.frozen) (hfingerprint : op'.claimFingerprint = op.claimFingerprint)
    (hmutation : ∀ m ∈ op'.mutation, m.id = mutationIdOf op'.id op'.mutationSequence)
    (hbounded : op'.mutationSequence ≤ 100) : Fenced r' op' := by
  obtain ⟨q, q', hq, hq', hclaim⟩ := hheld.claim
  have hclaimed := h.claimed
  have htoken := h.token
  simp only [Run.queueState, Run.tokenHash, hq, Option.map_some, Option.bind_some] at hclaimed htoken
  refine ⟨?_, ?_, (usesCodexCredentials_of_frozen hfrozen).trans h.codex, hmutation, hbounded⟩
  · rw [Run.queueState, hq', Option.map_some, hclaim.state]
    exact hclaimed
  · rw [Run.tokenHash, hq', Option.bind_some, hclaim.tokenHash, hfingerprint]
    exact htoken

theorem FencedStep.fenced (h : Fenced r op) (hstep : FencedStep label op r r')
    (hfrozen : r'.frozen = r.frozen) {op' : CredentialOperation}
    (hop' : r'.credentialOperation = some op') : Fenced r' op' := by
  have hsame : ∀ {o}, Held o r r' → op' = o := fun hheld =>
    Option.some.inj (hop'.symm.trans hheld.operation)
  cases hstep with
  | held hheld =>
    obtain rfl := hsame hheld
    exact hheld.fenced h hfrozen rfl h.mutation h.bounded
  | prepare mutation _ hid hbound _ hheld =>
    obtain rfl := hsame hheld
    refine hheld.fenced h hfrozen rfl ?_ hbound
    rintro _ ⟨rfl⟩
    exact hid
  | acknowledge _ _ _ _ hheld =>
    obtain rfl := hsame hheld
    exact hheld.fenced h hfrozen rfl (fun _ hm => by cases hm) h.bounded
  | retryRecovery _ _ hheld =>
    obtain rfl := hsame hheld
    exact hheld.fenced h hfrozen rfl h.mutation h.bounded
  | finish _ _ _ _ hgone =>
    rw [hgone] at hop'
    cases hop'

/-- A new operation stands for the claim the run holds. -/
theorem Move.reserves (hmove : Move label now r r') (hnone : r.credentialOperation = none)
    (hop : r'.credentialOperation = some op) : Fenced r' op := by
  have hne : ¬r.credentialOperation = some op := by simp [hnone]
  cases hmove with
  | settle hlive hfree hs hc =>
    cases hc with
    | owed tokenHash cleanupId howes htoken =>
      obtain rfl := Option.some.inj hop
      simp only [owesCleanup, decide_eq_true_eq] at howes
      obtain ⟨hcodex, hclaimed, -⟩ := howes
      have hqueue := hs.queue hcodex
      refine ⟨?_, ?_, (usesCodexCredentials_of_frozen hs.frozen).trans hcodex,
        (fun _ hm => by cases hm), Nat.zero_le _⟩
      · exact (congrArg (Option.map RunQueue.state) hqueue).trans hclaimed
      · exact (congrArg (Option.bind · RunQueue.tokenHash) hqueue).trans htoken
    | free =>
      rw [hs.credentialOperation] at hop
      exact absurd hop hne
  | reserve claimFingerprint id kind _ hcodex hclaim =>
    obtain rfl := Option.some.inj hop
    simp only [isClaimant, decide_eq_true_eq] at hclaim
    exact ⟨hclaim.1, hclaim.2, hcodex, (fun _ hm => by cases hm), Nat.zero_le _⟩
  | complete => cases hop
  | prepare _ _ hop' => simp [hnone] at hop'
  | acknowledge _ _ _ hop' => simp [hnone] at hop'
  | retryRecovery _ hop' => simp [hnone] at hop'
  | finish => cases hop
  | _ => exact absurd hop hne

/-- A claim that stays or retires keeps its token. -/
theorem tokenHash_of_kept (h : r.queueState = some .claimed → r.tokenHash.isSome = true)
    (hqueue : r'.queue = r.queue ∨ r'.queue = r.queue.map (·.retire))
    (hclaimed : r'.queueState = some .claimed) : r'.tokenHash.isSome = true := by
  unfold Run.queueState Run.tokenHash at *
  rcases hqueue with hqueue | hqueue
  · rw [hqueue] at hclaimed ⊢
    exact h hclaimed
  · rw [hqueue] at hclaimed
    cases hq : r.queue <;> simp [hq, RunQueue.retire] at hclaimed

/-- A claim is held under a token. -/
theorem Move.tokenHash (hmove : Move label now r r')
    (h : r.queueState = some .claimed → r.tokenHash.isSome = true)
    (hclaimed : r'.queueState = some .claimed) : r'.tokenHash.isSome = true := by
  cases hmove with
  | @observe q q' _ _ _ hq hc =>
    simp only [Run.queueState, Run.tokenHash, hq, Option.map_some, Option.bind_some] at h hclaimed ⊢
    rw [hc.state] at hclaimed
    rw [hc.tokenHash]
    exact h hclaimed
  | renewUnqueued _ hq => simp [Run.queueState] at hclaimed
  | enqueue => simp [Run.queueState] at hclaimed
  | claim => rfl
  | release => simp [Run.queueState] at hclaimed
  | settle _ _ hs hc => exact tokenHash_of_kept h (hc.queue ▸ hs.queue_cases) hclaimed
  | complete op _ _ restored =>
    exact tokenHash_of_kept h (operationFinished_queue r op restored op.claimFingerprint) hclaimed
  | retire => exact tokenHash_of_kept h (.inr rfl) hclaimed
  | finish op restored =>
    exact tokenHash_of_kept h (operationFinished_queue r op restored op.claimFingerprint) hclaimed
  | _ => exact h hclaimed

/-- A settlement of a claimed Codex run leaves a cleanup, or closes an operation. -/
theorem Move.leaves_cleanup (hmove : Move label now r r') (hlive : isLive r.state = true)
    (hterminal : isLive r'.state = false) (hclaimed : r.queueState = some .claimed)
    (hcodex : usesCodexCredentials r = true) (htoken : r.tokenHash.isSome = true) :
    (∃ op, r'.credentialOperation = some op ∧ op.kind = .cleanup ∧ op.mutationSequence = 0 ∧
      r.tokenHash = some op.claimFingerprint) ∨
    ∃ op restored, r.credentialOperation = some op ∧ r.credentialPendingResult.isSome = true ∧
      label.credentialChange = some (r.runId, op.id, op.claimFingerprint,
        .finish restored (some op.mutationSequence)) := by
  have hne : ¬isLive r.state = false := by simp [hlive]
  cases hmove with
  | settle _ _ _ hc =>
    cases hc with
    | owed tokenHash cleanupId _ htoken => exact .inl ⟨_, rfl, rfl, rfl, htoken⟩
    | free hfree => simp [owesCleanup, hclaimed, hcodex, htoken] at hfree
  | complete op pending _ restored _ hop hpending _ _ hlabel =>
    exact .inr ⟨op, restored, hop, by rw [hpending]; rfl, hlabel⟩
  | confirm => cases hterminal
  | _ => exact absurd hterminal hne

/-- A cleanup ends only with proof that the lease is retired at its last write. -/
theorem FencedStep.cleanup_ends (h : FencedStep label op r r') (hkind : op.kind = .cleanup) :
    (∃ op', r'.credentialOperation = some op' ∧ op'.id = op.id ∧ op'.kind = .cleanup ∧
      op'.claimFingerprint = op.claimFingerprint) ∨
    (op.mutation = none ∧ ∃ restored, label.credentialChange = some (r.runId, op.id,
      op.claimFingerprint, .finish restored (some op.mutationSequence))) := by
  cases h with
  | held h => exact .inl ⟨_, h.operation, rfl, hkind, rfl⟩
  | prepare _ _ _ _ _ h => exact .inl ⟨_, h.operation, rfl, hkind, rfl⟩
  | acknowledge _ _ _ _ h => exact .inl ⟨_, h.operation, rfl, hkind, rfl⟩
  | retryRecovery _ _ h => exact .inl ⟨_, h.operation, rfl, hkind, rfl⟩
  | finish restored sequence hlabel hmutation _ hsequence =>
    rw [hsequence (.inl hkind)] at hlabel
    exact .inr ⟨hmutation, restored, hlabel⟩

end Steps

/-! ### Reachable states -/

/-- Every operation is fenced and every claim is held under a token. -/
structure Fences (s : Store) : Prop where
  fenced : ∀ {id r op}, s.runs.get id = some r → r.credentialOperation = some op → Fenced r op
  token : ∀ {id r}, s.runs.get id = some r → r.queueState = some .claimed →
    r.tokenHash.isSome = true

theorem Change.fences {label : Step} {s s' : Store} (hs : s.Coherent) (h : Change label s s')
    (hinv : Fences s) : Fences s' where
  fenced := by
    intro id x op hx hop
    rcases h.run_cases hs hx with ⟨now, r, hr, hmove⟩ | ⟨-, hfresh⟩
    · cases hrop : r.credentialOperation with
      | none => exact hmove.reserves hrop hop
      | some op₀ =>
        have hfenced := hinv.fenced hr hrop
        exact (hmove.fencedStep hfenced hrop).fenced hfenced hmove.frozen hop
    · rw [hfresh.credentialOperation] at hop
      cases hop
  token := by
    intro id x hx hclaimed
    rcases h.run_cases hs hx with ⟨now, r, hr, hmove⟩ | ⟨-, hfresh⟩
    · exact hmove.tokenHash (hinv.token hr) hclaimed
    · rw [Run.queueState, hfresh.queue] at hclaimed
      cases hclaimed

theorem World.fences_run (steps : List Step) : Fences (World.init.run steps).store :=
  World.invariant_run Fences ⟨fun h => (by cases h), fun h => (by cases h)⟩
    (fun hs h hinv => h.fences hs hinv) steps

/-- A fenced run makes a fenced step. -/
theorem World.fencedStep {w : World} (hw : w.Coherent) (hfences : Fences w.store) (label : Step)
    {id : String} {r : Run} {op : CredentialOperation} (hr : w.store.runs.get id = some r)
    (hop : r.credentialOperation = some op) :
    ∃ r', (w.step label).store.runs.get id = some r' ∧ FencedStep label op r r' := by
  obtain ⟨now, r', hr', hmove⟩ := (hw.change label).run_moves hw.store hr
  exact ⟨r', hr', hmove.fencedStep (hfences.fenced hr hop) hop⟩

/-! ### Refusals -/

theorem transactRun_error {s : Store} {id : String} {pipelines : Option (List String)}
    {should : Option VersionedTask → Option Run → Bool}
    {decide : Store.RunTransactionState → Outcome} {stop : Stop}
    (h : decide (s.runState id pipelines should) = .error stop) :
    s.transactRun id pipelines should decide = (.error stop, s) := by
  unfold Store.transactRun
  dsimp only
  rw [h]

section Finish

variable {now : Time} {r : Run} {op : CredentialOperation} {id operationId fingerprint : String}
  {restored : Bool} {sequence : Option Nat} (hop : r.credentialOperation = some op)
  (hmutation : op.mutation.isSome = true)
include hop hmutation

theorem changeCredentialOperation_finish_refused (t : Task) :
    ∃ refusal, changeCredentialOperation now t r operationId fingerprint
      (.finish restored sequence) = .error (.refusal refusal) := by
  unfold changeCredentialOperation
  rw [hop]
  dsimp only
  split_ifs
  · exact ⟨_, rfl⟩
  · exact ⟨_, rfl⟩

theorem decide_finish_refused {operation : DirectOp} (t : Task)
    (eligibility : Option QueueEligibilitySnapshot)
    (hlabel : (Step.direct id now operation).credentialChange =
      some (id, operationId, fingerprint, .finish restored sequence)) :
    ∃ refusal, operation.decide now t r eligibility = .error (.refusal refusal) := by
  obtain ⟨refusal, hrefusal⟩ : ∃ refusal, changeCredentialOperation now t r operationId fingerprint
      (.finish restored sequence) = .error (.refusal refusal) :=
    changeCredentialOperation_finish_refused hop hmutation t
  refine ⟨refusal, ?_⟩
  cases operation with
  | finishCredentialOperation authority id' fingerprint' restored' sequence' =>
    simp only [Step.credentialChange, Option.some.injEq, Prod.mk.injEq, true_and,
      CredentialChange.finish.injEq] at hlabel
    obtain ⟨rfl, rfl, rfl, rfl⟩ := hlabel
    simp only [DirectOp.decide, finishWithFallback, hrefusal]
    rfl
  | changeCredentialOperation id' fingerprint' change =>
    simp only [Step.credentialChange, Option.some.injEq, Prod.mk.injEq, true_and] at hlabel
    obtain ⟨rfl, rfl, rfl⟩ := hlabel
    exact hrefusal
  | _ => cases hlabel

/-- A finish is refused while a write is outstanding. -/
theorem finish_refused {s : Store} {operation : DirectOp} (hr : s.runs.get id = some r)
    (hlabel : (Step.direct id now operation).credentialChange =
      some (id, operationId, fingerprint, .finish restored sequence)) :
    ∃ refusal, Orchestrator.direct s id now operation = (.error (.refusal refusal), s) := by
  have hdecide : ∀ state : Store.RunTransactionState, state.run = some r →
      ∃ refusal, decideDirect operation now state = .error (.refusal refusal) := by
    intro state hrun
    unfold decideDirect
    rw [hrun]
    cases state.task with
    | none => exact ⟨_, rfl⟩
    | some vt => exact decide_finish_refused hop hmutation vt.task state.queueEligibility hlabel
  obtain ⟨refusal, hrefusal⟩ := hdecide (s.runState id operation.eligibilityPipelines
    (operation.shouldReadQueueEligibility now)) hr
  exact ⟨refusal, transactRun_error hrefusal⟩

end Finish

/-! ### Label handoffs -/

/-- A retained claim, or one too many to read, keeps a label from being taken. -/
theorem labelObstacle_isSome {input : LabelInput} (htask : input.request.task.isSome = true)
    (hclaims : ∀ claims ∈ input.retainedClaims, claims ≠ []) : (labelObstacle input).isSome = true := by
  have hretained : input.retainedClaims = none ∨
      (input.retainedClaims.any fun claims => claims ≠ []) = true := by
    cases h : input.retainedClaims with
    | none => exact .inl rfl
    | some claims => exact .inr (by simpa using hclaims claims h)
  unfold labelObstacle
  dsimp only
  split_ifs with _ _ _ _ hnone hsome
  all_goals first
    | rfl
    | exact absurd (hretained.resolve_left fun h => hnone ⟨htask, h⟩) hsome

theorem decideLabelProviderRequest_writes {input : LabelInput} {d : Decision}
    (htask : input.request.task.isSome = true)
    (hclaims : ∀ claims ∈ input.retainedClaims, claims ≠ [])
    (h : decideLabelProviderRequest input = .ok d) : d.writes = [] := by
  obtain ⟨t, ht⟩ := Option.isSome_iff_exists.1 htask
  obtain ⟨reason, hreason⟩ := Option.isSome_iff_exists.1 (labelObstacle_isSome htask hclaims)
  simp only [decideLabelProviderRequest, ite_refused_eq_ok, ht, hreason] at h
  obtain ⟨-, h⟩ := h
  split at h
  · cases h
  split at h
  · obtain rfl := Except.ok.inj h
    rfl
  split at h
  · exact absurd h refused_ne_ok
  · simp only [rejectLabel, ht] at h
    obtain rfl := Except.ok.inj h
    rfl

/-- The claims a label request reads hold every retained claim of the task. -/
theorem retainedClaims_ne_nil {s : Store} {read : Store.RequestRead} (requestId : String)
    {id : String} {r : Run} (hr : s.runs.get id = some r) (hkey : taskKey r.task = taskKey read.taskId)
    (hclaim : retainsPhysicalClaim r = true) :
    ∀ claims ∈ (s.requestState read requestId).retainedClaims, claims ≠ [] := by
  intro claims hclaims hnil
  simp only [Store.requestState, Option.mem_def, Option.ite_none_right_eq_some,
    Option.bind_eq_some_iff, Option.some.injEq] at hclaims
  obtain ⟨-, _, -, -, rfl⟩ := hclaims
  have hmem : r ∈ (s.claimedCandidates (taskKey read.taskId)).filter retainsPhysicalClaim := by
    simp only [Store.claimedCandidates, List.mem_filter, decide_eq_true_eq]
    refine ⟨⟨(OrderedMap.mem_values_iff _ _).2 ⟨id, hr⟩, hkey, ?_⟩, hclaim⟩
    simp only [retainsPhysicalClaim, decide_eq_true_eq] at hclaim
    exact hclaim.1
  rw [hnil] at hmem
  cases hmem

/-- A label request about a task with a retained claim writes no run. -/
theorem label_keeps_runs {s : Store} (hs : s.Coherent) {now : Time} {input : RequestInput}
    {id : String} {r : Run} (hr : s.runs.get id = some r)
    (hkey : taskKey r.task = taskKey input.taskId) (hclaim : retainsPhysicalClaim r = true)
    (hlabel : input.labelProviderRequest.isSome = true) :
    (Orchestrator.request s now input).2.runs = s.runs := by
  obtain ⟨label, hlabel⟩ := Option.isSome_iff_exists.1 hlabel
  obtain ⟨vt, -, hvt, -⟩ := hs.counted hr
  rw [hkey] at hvt
  have hwrites : ∀ requestId d,
      decideRequest input now (s.requestState input.read requestId) = .ok d → d.writes = [] := by
    intro requestId d hd
    obtain ⟨-, -, hgiven⟩ := decideRequest_ok hd
    simp only [admitRequest, hlabel] at hgiven
    refine decideLabelProviderRequest_writes ?_ (retainedClaims_ne_nil requestId hr hkey hclaim)
      hgiven
    simp [RequestInput.args, Store.requestState, RequestInput.read, hvt]
  rcases request_cases s now input with ⟨-, hunread, -⟩ | ⟨requestId, _, d, -, -, -, hd, hwritten⟩
  · exact hunread.runs
  · rw [hwritten.runs, hwrites requestId d hd]
    rfl

/-! ### The cleanup a settlement leaves -/

/-- What an accepted operation stores for its own run: a settlement, or nothing that needs a
cleanup. -/
inductive Ended (label : Step) (now : Time) (r : Run) (d : Decision) : Prop where
  | settled (s : Run) (hrun : d.run = some s) (hs : Settlement label now r s)
      (hlive : isLive r.state = true) (hop : r.credentialOperation = none)
  | kept (h : ∀ s ∈ d.run, isLive r.state = false ∨ isLive s.state = true)

section Ended

variable {label : Step} {now : Time} {t : Task} {r : Run} {d : Decision}

theorem Ended.attachCleanup_ok (h : Ended label now r d) (cleanupId : String) :
    ∃ d', attachCleanup r cleanupId d = .ok d' := by
  cases h with
  | settled s hrun hs hlive hop =>
    obtain ⟨r', -, hattach⟩ := attachCleanup_settlement cleanupId hs hlive hop hrun
    exact ⟨_, hattach⟩
  | kept h => exact ⟨d, attachCleanup_same h⟩

theorem reportResult_run {result : RunResult} {claimFingerprint : Option String}
    (h : reportResult now t r result claimFingerprint = .ok d) : ∃ s, d.run = some s := by
  rw [reportResult_eq (reportResult_ok h)] at h
  obtain rfl := Except.ok.inj h
  split
  · exact ⟨_, rfl⟩
  · exact ⟨_, reportDecision_run now t r result⟩

/-- A report settles its run, or defers it. -/
theorem reportResult_ended {result : RunResult} {claimFingerprint : Option String}
    {delivery : Option DeliveryBinding} {publish : Bool} (hlabel : label.reported = some result)
    (hdelivery : ∀ b ∈ delivery, b.runId = r.runId ∧ result.ok = true)
    (h : reportResult now t (reportedRun r result delivery publish) result claimFingerprint = .ok d) :
    Ended label now r d := by
  have hadmitted := reportResult_ok h
  have hlive : isLive r.state = true := (reportAdmitted_live hadmitted).1
  rw [reportResult_eq hadmitted] at h
  cases hop : r.credentialOperation with
  | some op =>
    have hop' : (reportedRun r result delivery publish).credentialOperation = some op := hop
    rw [hop'] at h
    obtain rfl := Except.ok.inj h
    refine .kept ?_
    rintro _ ⟨rfl⟩
    exact .inr hlive
  | none =>
    have hop' : (reportedRun r result delivery publish).credentialOperation = none := hop
    rw [hop'] at h
    obtain rfl := Except.ok.inj h
    exact .settled _ (reportDecision_run now t _ result)
      (.report t result delivery publish hlabel hdelivery) hlive hop

theorem plainReport_ended {result : RunResult} {claimFingerprint : Option String}
    {delivery : Option DeliveryBinding} {publish : Bool} (hlabel : label.reported = some result)
    (h : plainReport now t r result claimFingerprint delivery publish = .ok d) :
    Ended label now r d := by
  simp only [plainReport, ite_refused_eq_ok] at h
  obtain ⟨hstale, h⟩ := h
  refine reportResult_ended hlabel ?_ h
  rintro b ⟨rfl⟩
  simp only [staleDelivery, Option.any_some, decide_eq_true_eq, not_or, not_not] at hstale
  exact ⟨hstale.1, hstale.2.1⟩

theorem reportResultWithFallback_ended {result : RunResult} {claimFingerprint : Option String}
    {authorized available : List String} (hlabel : label.reported = some result)
    (h : reportResultWithFallback now t r result claimFingerprint authorized available = .ok d) :
    Ended label now r d := by
  obtain ⟨settled, hsettled, h⟩ := bind_eq_ok.1 h
  rw [← reportedRun_plain r result] at hsettled
  have hended : Ended label now r settled := reportResult_ended hlabel (by simp) hsettled
  -- the fallback writes the same run for its predecessor
  have hsame : ∀ s, settled.run = some s → d.run = some s := fun s hs =>
    settleProviderFallback_run hs h
  cases hended with
  | settled s hrun hs hlive hop => exact .settled s (hsame s hrun) hs hlive hop
  | kept hkept =>
    obtain ⟨s, hs⟩ := reportResult_run hsettled
    refine .kept fun x hx => ?_
    rw [hsame s hs] at hx
    exact hkept x (hs.trans hx)

theorem settleLostAndRetry_ended {cause : LossCause} {loss : Outcome} (hlabel : label.loses = true)
    (hlive : isLive r.state = true) (hop : r.credentialOperation = none)
    (hloss : loss = .ok (settleLost now t r cause)) (h : settleLostAndRetry now loss = .ok d) :
    Ended label now r d := by
  subst hloss
  exact .settled _ (settleLostAndRetry_run rfl h) (.lose cause hlabel) hlive hop

/-- Every operation through `transactOnRun` settles its run as the cleanup expects it. -/
theorem RunOp.ended {op : RunOp} (cleanupId : String)
    {eligibility : Option QueueEligibilitySnapshot} (hkey : taskKey t.task = taskKey r.task)
    (h : op.decide now t r eligibility = .ok d) :
    Ended (.onRun r.runId now cleanupId op) now r d := by
  have hsame : (Effect (.onRun r.runId now cleanupId op) now none True (some r) (some t) d ∧
      ∀ s ∈ d.run, isLive s.state = true) → Ended (.onRun r.runId now cleanupId op) now r d :=
    fun heffect => .kept fun s hs => .inr (heffect.2 s hs)
  cases op with
  | confirmDispatch => exact hsame (confirmDispatch_effect rfl h)
  | observeStartupPlacement claimant observation => exact hsame (observeStartupPlacement_effect h)
  | renew claimFingerprint started => exact hsame (renewLease_effect h)
  | observePlacement claimant placement => exact hsame (observePlacement_effect h)
  | observeDelivery observation authorize =>
    obtain ⟨-, hdead⟩ : Effect (.onRun r.runId now cleanupId (.observeDelivery observation authorize))
        now none True (some r) (some t) d ∧ _ := advanceDelivery_effect hkey h
    exact .kept fun s hs => .inl (hdead s hs)
  | report authority result claimFingerprint delivery publish =>
    cases authority with
    | none => exact plainReport_ended rfl h
    | some authority =>
      simp only [RunOp.decide] at h
      split_ifs at h with hfail
      · exact reportResultWithFallback_ended rfl h
      · exact plainReport_ended rfl h
  | cancel note nativeTask intervention =>
    obtain ⟨hlive, hop, -⟩ := cancelRun_ok h
    exact .settled _ (cancelRun_run h) (.cancel note intervention rfl) hlive hop
  | invalidateSource observedAt =>
    simp only [RunOp.decide, invalidateSourceRevision, ite_refused_eq_ok] at h
    obtain ⟨-, -, h⟩ := h
    split_ifs at h with hold hcancel
    · obtain rfl := Except.ok.inj h
      exact .kept (by simp)
    · obtain ⟨hlive, hop, -⟩ := cancelRun_ok h
      exact .settled _ (cancelRun_run h) (.cancel _ none rfl) hlive hop
    · obtain rfl := Except.ok.inj h
      refine .kept ?_
      rintro _ ⟨rfl⟩
      exact (Bool.eq_false_or_eq_true (isLive r.state)).symm
    · obtain rfl := Except.ok.inj h
      exact .kept (by simp)
  | sweepExpired =>
    obtain ⟨lost, hlost, -⟩ := bind_eq_ok.1 h
    obtain ⟨hlive, -, -, hop, rfl⟩ := expireLeaseLoss_ok hlost
    exact settleLostAndRetry_ended rfl hlive hop hlost h
  | executorExited claimant =>
    simp only [RunOp.decide, executorExitedAndRetry] at h
    split_ifs at h with hretire
    · exact .kept fun _ _ => .inl (executorLoss_notLive hretire.1)
    · obtain ⟨lost, hlost, -⟩ := bind_eq_ok.1 h
      obtain ⟨hlive, -, hop, rfl⟩ := executorLoss_ok hlost
      exact settleLostAndRetry_ended rfl hlive hop hlost h

end Ended

/-- An accepted operation through `transactOnRun` is committed, whatever its cleanup. -/
theorem onRun_accepts {s : Store} (hs : s.Coherent) {id : String} {r : Run} {vt : VersionedTask}
    (hr : s.runs.get id = some r) (hvt : s.tasks.get (taskKey r.task) = some vt) {now : Time}
    {op : RunOp} {d : Decision} (cleanupId : String)
    (hd : op.decide now vt.task r (s.runState id op.eligibilityPipelines
      (op.shouldReadQueueEligibility now)).queueEligibility = .ok d) :
    ∃ d', (Orchestrator.onRun s id now cleanupId op).1 = .ok d' := by
  have hkey : taskKey vt.task.task = taskKey r.task := hs.taskKeyed hvt
  obtain ⟨d', hattach⟩ := (RunOp.ended cleanupId hkey hd).attachCleanup_ok cleanupId
  refine ⟨d', ?_⟩
  rw [hs.onRun_outcome hr hvt]
  exact bind_eq_ok.2 ⟨d, hd, hattach⟩

/-! ### The laws of the fence -/

/-- An operation stands for the claim its run holds; while it is there the run stays where it is,
and only changes that name the operation and its claim move it. -/
theorem World.credential_fence (steps : List Step) (id : String) (r : Run) (op : CredentialOperation)
    (hr : (World.init.run steps).store.runs.get id = some r)
    (hop : r.credentialOperation = some op) :
    let w := World.init.run steps
    Fenced r op ∧
    (∀ label, ∃ r', (w.step label).store.runs.get id = some r' ∧ FencedStep label op r r' ∧
      (isLive r'.state = true → ∃ vt, (w.step label).store.tasks.get (taskKey r.task) = some vt ∧
        vt.task.activeRunId = some id)) ∧
    (∀ now input, input.labelProviderRequest.isSome = true →
      taskKey r.task = taskKey input.taskId →
      (w.step (.request now input)).store.runs = w.store.runs) ∧
    (op.mutation.isSome = true → ∀ now operation operationId fingerprint restored sequence,
      (Step.direct id now operation).credentialChange =
        some (id, operationId, fingerprint, .finish restored sequence) →
      ∃ refusal, Orchestrator.direct w.store id now operation =
        (.error (.refusal refusal), w.store)) := by
  intro w
  have hw : w.Coherent := World.coherent_run steps
  have hfences : Fences w.store := World.fences_run steps
  have hfenced := hfences.fenced hr hop
  refine ⟨hfenced, fun label => ?_, fun now input hlabel hkey => ?_, fun hmutation => ?_⟩
  · obtain ⟨now, r', hr', hmove⟩ := (hw.change label).run_moves hw.store hr
    refine ⟨r', hr', hmove.fencedStep hfenced hop, fun hlive => ?_⟩
    obtain ⟨vt, -, hvt, -⟩ := (hw.step label).store.counted hr'
    have hlock := (hw.step label).store.mutex hr' hvt hlive
    rw [task_of_frozen hmove.frozen] at hvt
    exact ⟨vt, hvt, hlock⟩
  · refine label_keeps_runs hw.store hr hkey ?_ hlabel
    simp [retainsPhysicalClaim, hfenced.claimed, hop]
  · intro now operation operationId fingerprint restored sequence hlabel
    exact finish_refused hop hmutation hr hlabel

/-- The claimed run reserves a renewal. -/
def Sample.reserved : List Step :=
  Sample.claimed "codex" ++
    [.direct Sample.runId 3 (.reserveCredentialOperation "token" "op" .renew)]

theorem World.credential_fence_reserved :
    ∃ r op, (World.init.run Sample.reserved).store.runs.get Sample.runId = some r ∧
      r.credentialOperation = some op ∧ Fenced r op := by
  have hreserved : (((World.init.run Sample.reserved).store.runs.get Sample.runId).bind
      (·.credentialOperation)).isSome = true := by decide +kernel
  obtain ⟨op, hbind⟩ := Option.isSome_iff_exists.1 hreserved
  obtain ⟨r, hr, hop⟩ := Option.bind_eq_some_iff.1 hbind
  exact ⟨r, op, hr, hop, (World.credential_fence _ _ r op hr hop).1⟩

/-- A settlement of a claimed Codex run leaves a cleanup under its claim or closes an operation with
proof that the lease is retired; the cleanup refuses no settlement; and it ends only with that
proof. -/
theorem World.cleanup_debt (steps : List Step) (id : String) (r : Run)
    (hr : (World.init.run steps).store.runs.get id = some r) :
    let w := World.init.run steps
    (∀ label r', (w.step label).store.runs.get id = some r' → isLive r.state = true →
      isLive r'.state = false → r.queueState = some .claimed → usesCodexCredentials r = true →
      (∃ op, r'.credentialOperation = some op ∧ op.kind = .cleanup ∧ op.mutationSequence = 0 ∧
        r.tokenHash = some op.claimFingerprint) ∨
      ∃ op restored, r.credentialOperation = some op ∧ r.credentialPendingResult.isSome = true ∧
        label.credentialChange = some (id, op.id, op.claimFingerprint,
          .finish restored (some op.mutationSequence))) ∧
    (∀ vt now cleanupId (op : RunOp) d, w.store.tasks.get (taskKey r.task) = some vt →
      op.decide now vt.task r (w.store.runState id op.eligibilityPipelines
        (op.shouldReadQueueEligibility now)).queueEligibility = .ok d →
      ∃ d', (Orchestrator.onRun w.store id now cleanupId op).1 = .ok d') ∧
    ∀ op, r.credentialOperation = some op → op.kind = .cleanup → ∀ label, ∃ r',
      (w.step label).store.runs.get id = some r' ∧
      ((∃ op', r'.credentialOperation = some op' ∧ op'.id = op.id ∧ op'.kind = .cleanup ∧
        op'.claimFingerprint = op.claimFingerprint) ∨
      (op.mutation = none ∧ ∃ restored, label.credentialChange = some (id, op.id,
        op.claimFingerprint, .finish restored (some op.mutationSequence)))) := by
  intro w
  have hw : w.Coherent := World.coherent_run steps
  have hfences : Fences w.store := World.fences_run steps
  have hid : r.runId = id := hw.store.runKeyed hr
  refine ⟨?_, fun vt now cleanupId op d hvt hd => onRun_accepts hw.store hr hvt cleanupId hd, ?_⟩
  · intro label r' hr' hlive hterminal hclaimed hcodex
    obtain ⟨now, r'', hr'', hmove⟩ := (hw.change label).run_moves hw.store hr
    obtain rfl : r'' = r' := Option.some.inj (hr''.symm.trans hr')
    rw [← hid]
    exact hmove.leaves_cleanup hlive hterminal hclaimed hcodex (hfences.token hr hclaimed)
  · intro op hop hkind label
    obtain ⟨r', hr', hstep⟩ := World.fencedStep hw hfences label hr hop
    refine ⟨r', hr', ?_⟩
    rw [← hid]
    exact hstep.cleanup_ends hkind

theorem World.cleanup_debt_canceled :
    ∃ r r' op, (World.init.run (Sample.claimed "codex")).store.runs.get Sample.runId = some r ∧
      ((World.init.run (Sample.claimed "codex")).step
        (.onRun Sample.runId 3 "cleanup" (.cancel none none none))).store.runs.get Sample.runId =
          some r' ∧
      isLive r'.state = false ∧ r'.credentialOperation = some op ∧ op.kind = .cleanup ∧
      r.tokenHash = some op.claimFingerprint := by
  have hbefore : (((World.init.run (Sample.claimed "codex")).store.runs.get Sample.runId).any
      fun r => isLive r.state ∧ r.queueState = some .claimed ∧ usesCodexCredentials r ∧
        r.credentialOperation = none) = true := by decide +kernel
  have hafter : ((((World.init.run (Sample.claimed "codex")).step
      (.onRun Sample.runId 3 "cleanup" (.cancel none none none))).store.runs.get Sample.runId).any
      fun r => ¬isLive r.state) = true := by decide +kernel
  obtain ⟨r, hr, hlive⟩ := (Option.any_eq_true _ _).1 hbefore
  obtain ⟨r', hr', hterminal⟩ := (Option.any_eq_true _ _).1 hafter
  simp only [decide_eq_true_eq, Bool.not_eq_true] at hlive hterminal
  obtain ⟨hlive, hclaimed, hcodex, hnone⟩ := hlive
  rcases (World.cleanup_debt _ _ r hr).1 _ r' hr' hlive hterminal hclaimed hcodex with
    ⟨op, hop, hkind, -, htoken⟩ | ⟨op, -, hop, -⟩
  · exact ⟨r, r', op, hr, hr', hterminal, hop, hkind, htoken⟩
  · rw [hnone] at hop
    cases hop

end AgentLcars
