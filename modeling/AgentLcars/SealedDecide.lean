import AgentLcars.Sealed

/-!
# The decision functions keep records sealed

One lemma for each function of `decide.ts`: given a sealed task and run and bounded arguments, what
an accepted answer writes is sealed.  The ceiling rises by one where the function counts a run or a
loss.
-/

namespace AgentLcars

variable {n : Nat} {now : Time} {t : Task} {r : Run} {d : Decision}

/-! ### Tasks -/

theorem Task.Sealed.touch (ht : t.Sealed n) (hnow : Roomy now) :
    Task.Sealed n { t with updatedAt := now } :=
  ⟨{ ht.parses with updatedAt := hnow.iso }, ht.runCount, ht.consecutiveLost⟩

theorem releaseLock_sealed (ht : t.Sealed n) (hnow : Roomy now) (runId : String) :
    (releaseLock t runId now).Sealed n := by
  unfold releaseLock
  split_ifs
  · exact ⟨{ ht.parses with activeRunId := by simp, updatedAt := hnow.iso },
      ht.runCount, ht.consecutiveLost⟩
  · exact ht.touch hnow

theorem resetLossBudgets_sealed (ht : t.Sealed n) : (resetLossBudgets t).Sealed n :=
  ⟨{ ht.parses with consecutiveLost := Nat.zero_le _ }, ht.runCount, Nat.zero_le n⟩

/-! ### Entries and settlements -/

/-- An entry about a sealed run, under a tag no longer than the longest one. -/
theorem freshEntry_sealed (hr : r.Sealed) (hnow : Roomy now) (kind : OutboxKind) {tag : String}
    (htag : jsLength tag ≤ jsLength "delivery-outcome/") :
    (freshEntry (tag ++ r.runId) kind r now).Sealed n where
  parses :=
    { entryId := withinLength_tag hr.parses.runId (Nat.add_le_add_right htag _)
      task := hr.parses.task
      runId := hr.parses.runId
      attempts := Nat.zero_le _
      state := trivial
      firstFailedAt := by simp [freshEntry]
      nextAttemptAt := by simp [freshEntry]
      deliveryFailures := by simp [freshEntry]
      createdAt := hnow.iso
      updatedAt := hnow.iso }
  attempts := Nat.zero_le n

theorem settle_sealed (ht : t.Sealed n) (hr : r.Sealed) (hnow : Roomy now) :
    (settle t r now).Sealed n := by
  refine .of_run ht hr fun e he => ?_
  simp only [List.append_assoc, List.mem_append, List.mem_singleton] at he
  rcases he with rfl | he | he
  · exact freshEntry_sealed hr hnow _ (by decide)
  · obtain ⟨-, rfl⟩ : publishesTriage r = true ∧ e = _ := by simpa using he
    exact freshEntry_sealed hr hnow _ (by decide)
  · obtain ⟨-, rfl⟩ : parksWithMessage r = true ∧ e = _ := by simpa using he
    exact freshEntry_sealed hr hnow _ (by decide)

/-! ### Settling a run -/

theorem two_le_eventsLeft (h : isLive r.state = true) : 2 ≤ eventsLeft r := by
  unfold eventsLeft
  cases hstate : r.state <;> simp [hstate, isLive] at h ⊢

theorem eventsLeft_le_one (h : isLive r.state = false) : eventsLeft r ≤ 1 := by
  unfold eventsLeft
  cases hstate : r.state <;> simp [hstate, isLive] at h ⊢ <;> split_ifs <;> omega

/-- A live run may record its settlement. -/
theorem Run.Sealed.settled (hr : r.Sealed) (hlive : isLive r.state = true) (hnow : Roomy now)
    {event : RunEvent} (hevent : RunEventSchema event) {state : RunState}
    (hdead : isLive state = false) :
    Run.Sealed { r with state, events := r.events ++ [event], updatedAt := now } := by
  have hbefore := hr.events
  have hleft := two_le_eventsLeft hlive
  have hafter := eventsLeft_le_one
    (r := { r with state, events := r.events ++ [event], updatedAt := now }) hdead
  have hlength : (r.events ++ [event]).length = r.events.length + 1 := by simp
  have hshort : (r.events ++ [event]).length ≤ 64 := by omega
  refine ⟨{ hr.parses with events := ⟨hshort, ?_⟩, updatedAt := hnow.iso },
    show (r.events ++ [event]).length + _ ≤ 4 by omega, hnow, hr.claimedAt, hr.operation,
    hr.policy⟩
  intro e he
  rcases List.mem_append.1 he with he | he
  · exact hr.parses.events.2 e he
  · obtain rfl := List.mem_singleton.1 he
    exact hevent

theorem canceledRun_sealed (hr : r.Sealed) (hlive : isLive r.state = true) (hnow : Roomy now)
    {note : Option String} {intervention : Option OperationalIntervention}
    (hnote : ∀ text ∈ note, jsLength text ≤ 1024)
    (hintervention : ∀ i ∈ intervention, interventionSchema i = true) :
    (canceledRun now r note intervention).Sealed :=
  hr.settled hlive hnow ⟨hnow.iso, hnote, hintervention⟩ rfl

theorem RunQueueSchema.retire {queue : RunQueue} (h : RunQueueSchema queue) :
    RunQueueSchema queue.retire :=
  { h with }

/-- A retired claim says what it said. -/
theorem Run.Sealed.retired (hr : r.Sealed) :
    Run.Sealed { r with queue := r.queue.map (·.retire) } where
  parses := { hr.parses with
    queue := by
      intro queue hqueue
      obtain ⟨old, hold, rfl⟩ := Option.mem_map.1 hqueue
      exact (hr.parses.queue old hold).retire }
  events := hr.events
  updatedAt := hr.updatedAt
  claimedAt := by
    intro queue hqueue
    obtain ⟨old, hold, rfl⟩ := Option.mem_map.1 hqueue
    exact hr.claimedAt old hold
  operation := hr.operation
  policy := hr.policy

theorem lossNote_length (cause : LossCause) (r : Run) (now : Time) :
    ∀ text ∈ lossNote cause r now, jsLength text ≤ 1024 := by
  intro text htext
  unfold lossNote at htext
  split_ifs at htext with _ hwaiting
  · obtain rfl := Option.some.inj htext
    decide
  · obtain rfl := Option.some.inj htext
    decide
  · cases htext

theorem lostRun_sealed (hr : r.Sealed) (hlive : isLive r.state = true) (hnow : Roomy now)
    (cause : LossCause) : (lostRun now r cause).Sealed := by
  have hevent : RunEventSchema
      { at_ := now, to_ := .lost, by_ := cause.source, note := lossNote cause r now } :=
    ⟨hnow.iso, lossNote_length cause r now, by simp⟩
  unfold lostRun
  split_ifs
  · exact hr.retired.settled hlive hnow hevent rfl
  · exact hr.settled hlive hnow hevent rfl

theorem settledResult_parses {result : RunResult} (h : RunResultSchema result) :
    RunResultSchema (settledResult t r result) := by
  have hsuperseded : ∀ text ∈ some "superseded", jsLength text ≤ 4096 := by
    intro text htext
    obtain rfl := Option.some.inj htext
    decide
  unfold settledResult
  split
  · split_ifs
    · exact h
    · exact { h with summary := hsuperseded }
  · exact h

theorem finishedRun_sealed (hr : r.Sealed) (hlive : isLive r.state = true) (hnow : Roomy now)
    {result : RunResult} (hresult : RunResultSchema result) :
    (finishedRun now t r result).Sealed := by
  have hreported : Run.Sealed { r with
      credentialPendingResult := none
      triagePublication := settledPublication t r
      result := some (settledResult t r result) } := by
    refine ⟨{ hr.parses with credentialPendingResult := by simp, result := ?_ }, hr.events,
      hr.updatedAt, hr.claimedAt, hr.operation, hr.policy⟩
    intro x hx
    obtain rfl := Option.some.inj hx
    exact settledResult_parses hresult
  exact hreported.settled hlive hnow ⟨hnow.iso, by simp, by simp⟩ rfl

theorem cancelRun_sealed (ht : t.Sealed n) (hr : r.Sealed) (hnow : Roomy now) {note : Option String}
    {intervention : Option OperationalIntervention} {nativeTask : Option String}
    (hnote : ∀ text ∈ note, jsLength text ≤ 1024)
    (hintervention : ∀ i ∈ intervention, interventionSchema i = true)
    (h : cancelRun now t r note intervention nativeTask = .ok d) : d.Sealed n := by
  unfold cancelRun at h
  simp only [ite_refused_eq_ok, not_not] at h
  obtain ⟨hlive, -, -, -, h⟩ := h
  obtain rfl := Except.ok.inj h
  have hreleased := resetLossBudgets_sealed (releaseLock_sealed ht hnow r.runId)
  refine settle_sealed ?_ (canceledRun_sealed hr hlive hnow hnote hintervention) hnow
  split_ifs
  · refine ⟨{ hreleased.parses with closedAt := ?_ }, hreleased.runCount,
      hreleased.consecutiveLost⟩
    intro at_ hat
    obtain rfl := Option.some.inj hat
    exact hnow.iso
  · exact hreleased

/-! ### Minting -/

/-- A fallback policy a request may bring. -/
structure ProviderFallbackRequest.Bounded (policy : ProviderFallbackRequest) : Prop where
  principal : withinLength policy.principal 128 = true
  sourceRepository : ∀ repo ∈ policy.sourceRepository, isAnchorRepo repo = true
  pipelines : ∀ pipeline ∈ policy.allowedPipelines, withinLength pipeline 128 = true
  nodup : policy.allowedPipelines.Nodup
  length : policy.allowedPipelines.length ≤ 8

/-- A fresh policy, or one that parsed. -/
def FallbackInput.Bounded : FallbackInput → Prop
  | .request policy => policy.Bounded
  | .inherited policy => policy.Sealed

theorem mintedFallback_sealed {input : Option FallbackInput} {pipeline runId : String}
    (hinput : ∀ policy ∈ input, policy.Bounded) (hpipeline : withinLength pipeline 128 = true)
    (hrunId : isRunId runId = true) :
    ∀ policy ∈ mintedFallback input pipeline runId, policy.Sealed := by
  intro policy hpolicy
  unfold mintedFallback at hpolicy
  split at hpolicy
  · cases hpolicy
  · rename_i given
    split_ifs at hpolicy with hempty
    · cases hpolicy
    obtain rfl := Option.some.inj hpolicy
    have hgiven : given.Bounded := hinput _ rfl
    have hlength : 1 ≤ given.allowedPipelines.length := List.length_pos_iff.2 hempty
    refine ⟨⟨hgiven.principal, hgiven.sourceRepository, ?_, ?_, hrunId, by simp, by simp, by simp⟩,
      by simp⟩
    · simpa [pipelineListSchema, hgiven.nodup, hlength, hgiven.length] using hgiven.pipelines
    · simpa [pipelineListSchema] using hpipeline
  · rename_i given
    split_ifs at hpolicy
    · cases hpolicy
    obtain rfl := Option.some.inj hpolicy
    exact hinput _ rfl

/-- The bounded arguments of a mint. -/
structure MintInput.Bounded (n : Nat) (input : MintInput) : Prop where
  now : Roomy input.now
  taskId : taskIdSchema input.taskId = true
  task : input.task.Sealed n
  issue : ∀ issue ∈ input.issue, TrackerIssueSchema issue
  requestId : withinLength input.requestId DEPENDENT_REQUEST_ID_MAX_LENGTH = true
  pipeline : withinLength input.pipeline 128 = true
  params : ∀ params ∈ input.params, paramsSchema params
  intervention : ∀ i ∈ input.intervention, interventionSchema i = true
  providerFallback : ∀ policy ∈ input.providerFallback, policy.Bounded
  sourceRevision : ∀ revision ∈ input.sourceRevision, WorkRevisionSchema revision
  revisionAttempt : ∀ attempt ∈ input.revisionAttempt, isPositive attempt = true

theorem mintedRun_sealed {input : MintInput} (h : input.Bounded n) (hn : n ≤ MAX_SAFE_INTEGER) :
    (mintedRun input).Sealed := by
  have hrunId : isRunId (mintedRun input).runId = true :=
    isRunId_runIdOf h.taskId (Nat.succ_le_succ (le_trans h.task.runCount hn))
  have hpolicy := mintedFallback_sealed h.providerFallback h.pipeline hrunId
  have hattempt : ∀ attempt ∈ (mintedRun input).revisionAttempt, isPositive attempt = true := by
    intro attempt hattempt
    obtain ⟨-, -, rfl⟩ := Option.mem_map.1 hattempt
    cases hgiven : input.revisionAttempt with
    | none => decide
    | some given => exact h.revisionAttempt given hgiven
  have hevent : RunEventSchema { at_ := input.now, to_ := .pending, by_ := .request
                                 intervention := input.intervention } :=
    ⟨h.now.iso, by simp, h.intervention⟩
  refine ⟨?_, le_refl 4, h.now, by simp [mintedRun], by simp [mintedRun], hpolicy⟩
  exact
    { runId := hrunId, task := h.taskId, pipeline := h.pipeline, requestId := h.requestId
      params := h.params, issue := h.issue, sourceRevision := h.sourceRevision
      revisionAttempt := hattempt
      providerFallback := fun policy hp => (hpolicy policy hp).parses
      queue := by simp [mintedRun]
      delivery := by simp [mintedRun]
      credentialOperation := by simp [mintedRun]
      credentialRestoredClaimFingerprint := by simp [mintedRun]
      credentialPendingResult := by simp [mintedRun]
      credentialWriteReceipt := by simp [mintedRun]
      leaseExpiresAt := h.now.later (by decide) (le_refl _)
      result := by simp [mintedRun]
      events := ⟨by simp [mintedRun], by simpa [mintedRun] using hevent⟩
      createdAt := h.now.iso
      updatedAt := h.now.iso }

theorem mintRun_sealed {input : MintInput} (h : input.Bounded n) (hn : n + 1 ≤ MAX_SAFE_INTEGER) :
    (mintRun input).Sealed (n + 1) := by
  have hrun := mintedRun_sealed h (Nat.le_of_succ_le hn)
  have hcount : input.task.runCount + 1 ≤ n + 1 := Nat.succ_le_succ h.task.runCount
  refine .of_run ⟨?_, hcount, Nat.le_succ_of_le h.task.consecutiveLost⟩ hrun fun e he => ?_
  · refine { h.task.parses with
      activeRunId := ?_, runCount := le_trans hcount hn, updatedAt := h.now.iso }
    intro id hid
    obtain rfl := Option.some.inj hid
    exact hrun.parses.runId
  · obtain rfl := List.mem_singleton.1 he
    exact freshEntry_sealed hrun h.now _ (by decide)

/-! ### Requests -/

/-- The bounded arguments of a request. -/
structure RequestRunInput.Bounded (n : Nat) (input : RequestRunInput) : Prop where
  now : Roomy input.now
  task : ∀ t ∈ input.task, t.Sealed n
  taskId : taskIdSchema input.taskId = true
  activeRun : ∀ r ∈ input.activeRun, r.Sealed
  requestId : withinLength input.requestId DEPENDENT_REQUEST_ID_MAX_LENGTH = true
  pipeline : withinLength input.pipeline 128 = true
  params : ∀ params ∈ input.params, paramsSchema params
  intervention : ∀ i ∈ input.intervention, interventionSchema i = true
  work : ∀ work ∈ input.work, WorkPayloadSchema work
  issue : ∀ issue ∈ input.issue.join, TrackerIssueSchema issue
  providerFallback : ∀ policy ∈ input.providerFallback, policy.Bounded
  sourceRevision : ∀ revision ∈ input.sourceRevision, WorkRevisionSchema revision
  revisionAttempt : ∀ attempt ∈ input.revisionAttempt, isPositive attempt = true

theorem newerIssue_parses {given previous : Option TrackerIssue}
    (hgiven : ∀ issue ∈ given, TrackerIssueSchema issue)
    (hprevious : ∀ issue ∈ previous, TrackerIssueSchema issue) :
    ∀ issue ∈ newerIssue given previous, TrackerIssueSchema issue := by
  unfold newerIssue
  split
  · split_ifs
    · exact hgiven
    · exact hprevious
  · exact hgiven
  · exact hprevious

/-- What is copied from a task that may be missing. -/
theorem bind_of_sealed {α : Type} {task : Option Task} {f : Task → Option α} {P : α → Prop}
    (htask : ∀ t ∈ task, t.Sealed n) (hf : ∀ t : Task, TaskSchema t → ∀ a ∈ f t, P a) :
    ∀ a ∈ task.bind f, P a := by
  intro a ha
  obtain ⟨t, ht, ha⟩ := Option.bind_eq_some_iff.1 ha
  exact hf t (htask t ht).parses a ha

theorem requestedTask_sealed {input : RequestRunInput} (hinput : input.Bounded n)
    (hn : n ≤ MAX_SAFE_INTEGER) {work : WorkPayload} (hwork : WorkPayloadSchema work)
    {issue : Option TrackerIssue} (hissue : ∀ i ∈ issue, TrackerIssueSchema i) :
    (requestedTask input work issue).Sealed n := by
  have hcount : (requestedTask input work issue).runCount ≤ n := by
    unfold requestedTask
    cases htask : input.task with
    | none => exact Nat.zero_le n
    | some t => exact (hinput.task t htask).runCount
  have hlost : (requestedTask input work issue).consecutiveLost ≤ n := by
    unfold requestedTask
    cases htask : input.task with
    | none => exact Nat.zero_le n
    | some t => exact (hinput.task t htask).consecutiveLost
  refine ⟨?_, hcount, hlost⟩
  exact
    { task := hinput.taskId
      delivery := bind_of_sealed hinput.task fun _ ht => ht.delivery
      activeRunId := by simp [requestedTask]
      runCount := le_trans hcount hn
      consecutiveLost := le_trans hlost hn
      work := hwork
      issue := hissue
      desiredRevision := hinput.sourceRevision
      sourceObservedAt := by
        intro observedAt hobserved
        obtain ⟨revision, hrevision, hobserved⟩ := Option.bind_eq_some_iff.1 hobserved
        exact (hinput.sourceRevision revision hrevision).observedAt observedAt hobserved
      providerRouting := bind_of_sealed hinput.task fun _ ht => ht.providerRouting
      closedAt := by simp [requestedTask]
      updatedAt := hinput.now.iso }

theorem requestRun_sealed {input : RequestRunInput} (hinput : input.Bounded n)
    (hn : n + 1 ≤ MAX_SAFE_INTEGER) (h : requestRun input = .ok d) : d.Sealed (n + 1) := by
  obtain ⟨work, hwork, -, -, -, -, rfl⟩ := requestRun_ok h
  have hwork : WorkPayloadSchema work := by
    cases htask : input.task with
    | none =>
      rw [htask] at hwork
      exact hinput.work work hwork
    | some t =>
      rw [htask] at hwork
      obtain rfl := Option.some.inj hwork
      exact (hinput.task t htask).parses.work
  have hissue := newerIssue_parses hinput.issue (bind_of_sealed hinput.task fun _ ht => ht.issue)
  refine mintRun_sealed ?_ hn
  exact
    { now := hinput.now
      taskId := hinput.taskId
      task := requestedTask_sealed hinput (Nat.le_of_succ_le hn) hwork hissue
      issue := by
        cases hgiven : input.issue with
        | none => simpa only [requestMint, hgiven, Option.getD_none] using hissue
        | some given => simpa [requestMint, hgiven] using hinput.issue
      requestId := hinput.requestId
      pipeline := hinput.pipeline
      params := hinput.params
      intervention := hinput.intervention
      providerFallback := hinput.providerFallback
      sourceRevision := hinput.sourceRevision
      revisionAttempt := hinput.revisionAttempt }

/-! ### Source revisions -/

theorem revisionMint_bounded (ht : t.Sealed n) (hr : r.Sealed) (hnow : Roomy now)
    {desired : WorkRevision} (hdesired : WorkRevisionSchema desired) {superseded : Bool}
    (hretry : superseded = false → r.revisionAttempt.getD 1 ≤ MAX_AUTO_RETRIES) :
    (revisionMint t r desired superseded now).Bounded n := by
  have hkey : withinLength desired.key DEPENDENT_REQUEST_ID_MAX_LENGTH = true :=
    withinLength_mono hdesired.key (by decide)
  have hretryId : withinLength ("retry:" ++ r.runId) DEPENDENT_REQUEST_ID_MAX_LENGTH = true :=
    withinLength_tag hr.parses.runId (by decide)
  refine ⟨hnow, hr.parses.task, resetLossBudgets_sealed ht, ?_, ?_, hr.parses.pipeline,
    hr.parses.params, by simp [revisionMint], by simp [revisionMint], ?_, ?_⟩
  · unfold revisionMint
    dsimp only
    split_ifs
    · exact ht.parses.issue
    · exact hr.parses.issue
  · unfold revisionMint
    dsimp only
    split_ifs
    · exact hkey
    · exact hretryId
  · intro revision hrevision
    obtain rfl := Option.some.inj hrevision
    exact hdesired
  · intro attempt hattempt
    obtain rfl := Option.some.inj hattempt
    cases superseded with
    | true => simp [isPositive, MAX_SAFE_INTEGER]
    | false =>
      have hle : r.revisionAttempt.getD 1 ≤ 2 := hretry rfl
      have hmax : 3 ≤ MAX_SAFE_INTEGER := by decide
      simp only [Bool.false_eq_true, if_false, isPositive, decide_eq_true_eq]
      omega

theorem revisionSuccessor_sealed {run : Run} (hd : d.Sealed n) (hrun : run.Sealed)
    (hnow : Roomy now) (hn : n + 1 ≤ MAX_SAFE_INTEGER) {next : Decision}
    (h : revisionSuccessor d run now = some next) : next.Sealed (n + 1) := by
  unfold revisionSuccessor at h
  split at h
  · rename_i revision desired _ hdesired
    split_ifs at h
    dsimp only at h
    split_ifs at h with hnone
    obtain rfl := Option.some.inj h
    refine (hd.mono (Nat.le_succ n)).followedBy (mintRun_sealed ?_ hn)
    refine revisionMint_bounded hd.task hrun hnow (hd.task.parses.desiredRevision _ hdesired) ?_
    intro hsame
    have hretries : retriesRevision run = true := by
      by_contra hno
      exact hnone ⟨by simpa using hsame, hno⟩
    simp only [retriesRevision, decide_eq_true_eq] at hretries
    exact hretries.2.2
  · cases h

theorem advanceSourceRevision_sealed (hd : d.Sealed n) (hnow : Roomy now)
    (hn : n + 1 ≤ MAX_SAFE_INTEGER) {next : Decision}
    (h : advanceSourceRevision d now = .ok next) : next.Sealed (n + 1) := by
  obtain ⟨run, hrun, h⟩ := bind_eq_ok.1 h
  obtain rfl := Except.ok.inj h
  cases hnext : revisionSuccessor d run now with
  | none => exact hd.mono (Nat.le_succ n)
  | some next =>
    exact revisionSuccessor_sealed hd (hd.run (decidedRun_eq_ok.1 hrun)) hnow hn hnext

end AgentLcars
