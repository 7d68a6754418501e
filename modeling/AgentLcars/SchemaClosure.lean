import AgentLcars.Coherence
import AgentLcars.SealedRequests

/-!
# Schema closure

Bounded inputs never leave an unreadable record behind: what one step stores is sealed when what it
read was, so every record of a run parses.  Counters rise by two a step at most, and a lease ends
two hours after the clock it was taken at, so the run is shorter than half the safe integers and its
clocks are two hours away from the last instant `isoUtc` can write.
-/

namespace AgentLcars

variable {n : Nat}

/-! ### Bounded steps -/

/-- The identity an executor presents. -/
structure ClaimInput.Bounded (input : ClaimInput) : Prop where
  claimedBy : withinLength input.claimedBy 256 = true
  claimedBySubject : withinLength input.claimedBySubject 256 = true
  tokenHash : isHexText 64 input.tokenHash = true

/-- The clocks and the counter a settlement writes. -/
structure OutboxSettlement.Bounded (input : OutboxSettlement) : Prop where
  firstFailedAt : ∀ t ∈ input.firstFailedAt, isoUtc t
  nextAttemptAt : ∀ t ∈ input.nextAttemptAt, isoUtc t
  deliveryFailures : ∀ n ∈ input.deliveryFailures, n ≤ MAX_SAFE_INTEGER

/-- What the entry point of each step checks. -/
def Step.Bounded : Step → Prop
  | .request _ input => input.Bounded
  | .onRun _ _ cleanupId op => withinLength cleanupId 100 = true ∧ op.Bounded
  | .direct _ _ op => op.Bounded
  | .claimQueuedRun _ input => input.Bounded
  | .releaseQueuedRunClaim _ _ _ _ deferredUntil => ∀ t ∈ deferredUntil, isoUtc t
  | .claimPendingOutbox _ _ leaseExpiresAt _ claimIds =>
    isoUtc leaseExpiresAt ∧ ∀ i, isUuid (claimIds i) = true
  | .settleOutbox input => input.Bounded
  | .call _ _ op => op.Bounded
  | .enqueueRun _ _ | .wakeOutbox _ _ | .resume _ _ => True

/-! ### Sealed stores -/

/-- Every stored record is sealed. -/
structure Store.Sealed (n : Nat) (s : Store) : Prop where
  tasks : ∀ k vt, s.tasks.get k = some vt → vt.task.Sealed n
  runs : ∀ id r, s.runs.get id = some r → r.Sealed
  outbox : ∀ id e, s.outbox.get id = some e → e.Sealed n

theorem Store.Sealed.mono {m n : Nat} {s : Store} (h : s.Sealed m) (hmn : m ≤ n) : s.Sealed n :=
  ⟨fun k vt hvt => (h.tasks k vt hvt).mono hmn, h.runs,
    fun id e he => (h.outbox id e he).mono hmn⟩

theorem Store.sealed_empty : Store.empty.Sealed n :=
  ⟨fun _ _ h => by simp [Store.empty] at h, fun _ _ h => by simp [Store.empty] at h,
    fun _ _ h => by simp [Store.empty] at h⟩

variable {s s' : Store} {d : Decision}

/-- A sealed decision leaves a sealed store. -/
theorem Written.sealed (h : Written s s' d) (hs : s.Sealed n) (hd : d.Sealed n) : s'.Sealed n where
  tasks := by
    intro k vt hvt
    rw [h.tasks, OrderedMap.get_set] at hvt
    split_ifs at hvt
    · obtain rfl := Option.some.inj hvt
      exact hd.task
    · exact hs.tasks k vt hvt
  runs := by
    intro id r hr
    rw [h.runs] at hr
    rcases OrderedMap.get_setAll_cases _ _ hr with ⟨x, hx, -, rfl⟩ | ⟨hold, -⟩
    · exact hd.runs x hx
    · exact hs.runs id r hold
  outbox := by
    intro id e he
    rw [h.outbox] at he
    rcases OrderedMap.get_setAll_cases _ _ he with ⟨x, hx, -, rfl⟩ | ⟨hold, -⟩
    · exact hd.outbox x hx
    · exact hs.outbox id e hold

theorem Unread.sealed (h : Unread s s') (hout : s'.outbox = s.outbox) (hs : s.Sealed n) :
    s'.Sealed n :=
  ⟨by rw [h.tasks]; exact hs.tasks, by rw [h.runs]; exact hs.runs, by rw [hout]; exact hs.outbox⟩

/-- One run document is rewritten. -/
theorem Store.Sealed.set_run (hs : s.Sealed n) {id : String} {r : Run} (hr : r.Sealed)
    (htasks : s'.tasks = s.tasks) (hruns : s'.runs = s.runs.set id r)
    (hout : s'.outbox = s.outbox) : s'.Sealed n where
  tasks := by rw [htasks]; exact hs.tasks
  runs := by
    intro j x hx
    rw [hruns, OrderedMap.get_set] at hx
    split_ifs at hx
    · obtain rfl := Option.some.inj hx
      exact hr
    · exact hs.runs j x hx
  outbox := by rw [hout]; exact hs.outbox

/-- One outbox entry is rewritten. -/
theorem Store.Sealed.set_entry (hs : s.Sealed n) {id : String} {e : OutboxEntry} (he : e.Sealed n) :
    Store.Sealed n { s with outbox := s.outbox.set id e } where
  tasks := hs.tasks
  runs := hs.runs
  outbox := by
    intro j x hx
    simp only [OrderedMap.get_set] at hx
    split_ifs at hx
    · obtain rfl := Option.some.inj hx
      exact he
    · exact hs.outbox j x hx

/-! ### The queue -/

theorem enqueueRun_sealed (hs : s.Sealed n) {runId : String} {now : Time} (hnow : Roomy now) :
    (s.enqueueRun runId now).Sealed n := by
  unfold Store.enqueueRun
  split
  · exact hs
  rename_i r hr
  have hsealed := hs.runs runId r hr
  split_ifs
  · exact hs
  have hqueued : Run.Sealed { r with queue := some { state := .queued }, updatedAt := now } := by
    refine hsealed.observe hsealed.parses.leaseExpiresAt hnow ?_ ?_
    · intro q hq
      obtain rfl := Option.some.inj hq
      constructor <;> simp
    · intro q hq
      obtain rfl := Option.some.inj hq
      simp
  exact hs.set_run hqueued rfl rfl rfl

theorem claimedRun_sealed {r : Run} (hr : r.Sealed) {input : ClaimInput} (hinput : input.Bounded)
    (hnow : Roomy input.now) : (AgentLcars.claimQueuedRun r input).Sealed := by
  unfold AgentLcars.claimQueuedRun
  refine hr.observe (runLeaseExpiresAt_iso hnow) hnow ?_ ?_
  · intro q hq
    obtain rfl := Option.some.inj hq
    refine ⟨by simp, by simp, ?_, ?_, ?_, by simp, by simp, ?_, ?_, ?_⟩
    · simpa using hnow.iso
    · have : isoUtc (runStartDeadlineAt input.now) := hnow.later (by decide) (by decide)
      simpa using this
    · intro startup hstartup
      dsimp only at hstartup
      split_ifs at hstartup
      · obtain rfl := Option.some.inj hstartup
        exact ⟨hnow.iso, by simp⟩
      · cases hstartup
    · simpa using hinput.claimedBy
    · simpa using hinput.claimedBySubject
    · simpa using hinput.tokenHash
  · intro q hq
    obtain rfl := Option.some.inj hq
    simpa using hnow

theorem claimQueuedRun_sealed (hs : s.Sealed n) {pipelines : List String} {input : ClaimInput}
    (hinput : input.Bounded) (hnow : Roomy input.now) :
    (s.claimQueuedRun pipelines input).2.Sealed n := by
  unfold Store.claimQueuedRun
  split
  · exact hs
  rename_i r hr
  obtain ⟨-, -, hselected, -⟩ := selectFairQueuedRun_eq_some hr
  obtain ⟨hmem, -⟩ := mem_pipelineCandidates.1 hselected
  obtain ⟨id, hget⟩ := (OrderedMap.mem_values_iff _ _).1 hmem
  exact hs.set_run (claimedRun_sealed (hs.runs id r hget) hinput hnow) rfl rfl rfl

theorem releaseQueuedRunClaim_sealed (hs : s.Sealed n) {runId claimedBy tokenHash : String}
    {now : Time} (hnow : Roomy now) {deferredUntil : Option Time}
    (hdeferred : ∀ t ∈ deferredUntil, isoUtc t) :
    (s.releaseQueuedRunClaim runId claimedBy tokenHash now deferredUntil).2.Sealed n := by
  unfold Store.releaseQueuedRunClaim
  split
  · exact hs
  rename_i r hr
  have hsealed := hs.runs runId r hr
  split_ifs
  · exact hs
  refine hs.set_run (hsealed.observe hsealed.parses.leaseExpiresAt hnow ?_ ?_) rfl rfl rfl
  · intro q hq
    obtain rfl := Option.some.inj hq
    exact ⟨by simp, hdeferred, by simp, by simp, by simp, by simp, by simp, by simp, by simp,
      by simp⟩
  · intro q hq
    obtain rfl := Option.some.inj hq
    simp

/-! ### The outbox -/

theorem leaseEntry_sealed {e : OutboxEntry} (he : e.Sealed n) (hn : n + 1 ≤ MAX_SAFE_INTEGER)
    {claimId : String} {leaseExpiresAt now : Time} (hclaim : isUuid claimId = true)
    (hexpires : isoUtc leaseExpiresAt) (hnow : isoUtc now) :
    (Store.leaseEntry e claimId leaseExpiresAt now).Sealed (n + 1) where
  parses := { he.parses with
    attempts := le_trans (Nat.succ_le_succ he.attempts) hn
    state := ⟨hclaim, hexpires⟩
    updatedAt := hnow }
  attempts := Nat.succ_le_succ he.attempts

theorem claimPendingOutbox_sealed (hs : s.Sealed n) (hn : n + 1 ≤ MAX_SAFE_INTEGER) {limit : Nat}
    {now leaseExpiresAt : Time} {excluded : List String} {claimIds : Nat → String}
    (hclaims : ∀ i, isUuid (claimIds i) = true) (hexpires : isoUtc leaseExpiresAt)
    (hnow : isoUtc now) :
    (s.claimPendingOutbox limit now leaseExpiresAt excluded claimIds).Sealed (n + 1) := by
  have hlater := hs.mono (Nat.le_succ n)
  rw [claimPendingOutbox_eq]
  refine ⟨hlater.tasks, hlater.runs, fun id e he => ?_⟩
  rcases OrderedMap.get_setAll_cases _ _ he with ⟨x, hx, -, rfl⟩ | ⟨hold, -⟩
  · obtain ⟨hmem, -⟩ := claimableOutbox_mem (List.fst_mem_of_mem_zipIdx hx)
    obtain ⟨id, hget⟩ := (OrderedMap.mem_values_iff _ _).1 hmem
    exact leaseEntry_sealed (hs.outbox id x.1 hget) hn (hclaims x.2) hexpires hnow
  · exact hlater.outbox id e hold

theorem settledEntry_sealed {e e' : OutboxEntry} (he : e.Sealed n) {input : OutboxSettlement}
    (hinput : input.Bounded) (hnow : isoUtc input.now) (h : settleOutboxEntry e input = some e') :
    e'.Sealed n := by
  have hkept : ∀ kept : OutboxEntry, kept.Sealed n → OutboxEntry.Sealed n { kept with
      state := input.state.entryState
      updatedAt := input.now
      firstFailedAt := input.firstFailedAt.or kept.firstFailedAt
      nextAttemptAt := input.nextAttemptAt.or kept.nextAttemptAt
      deliveryFailures := input.deliveryFailures.or kept.deliveryFailures } := by
    intro kept hkept
    refine ⟨{ hkept.parses with
      state := ?_, firstFailedAt := ?_, nextAttemptAt := ?_, deliveryFailures := ?_
      updatedAt := hnow }, hkept.attempts⟩
    · show outboxStateSchema input.state.entryState
      cases input.state <;> trivial
    · intro t ht
      rcases Option.or_eq_some_iff.1 ht with ht | ⟨-, ht⟩
      · exact hinput.firstFailedAt t ht
      · exact hkept.parses.firstFailedAt t ht
    · intro t ht
      rcases Option.or_eq_some_iff.1 ht with ht | ⟨-, ht⟩
      · exact hinput.nextAttemptAt t ht
      · exact hkept.parses.nextAttemptAt t ht
    · intro k hk
      rcases Option.or_eq_some_iff.1 hk with hk | ⟨-, hk⟩
      · exact hinput.deliveryFailures k hk
      · exact hkept.parses.deliveryFailures k hk
  unfold settleOutboxEntry at h
  split at h
  · split at h
    · cases h
    obtain rfl := Option.some.inj h
    split
    · refine hkept _ ⟨{ he.parses with firstFailedAt := ?_, deliveryFailures := ?_ }, he.attempts⟩
      · simp
      · simp
    · exact hkept e he
  · cases h

theorem settleOutbox_sealed (hs : s.Sealed n) {input : OutboxSettlement} (hinput : input.Bounded)
    (hnow : isoUtc input.now) : (s.settleOutbox input).Sealed n := by
  unfold Store.settleOutbox
  split
  · exact hs
  rename_i e' h
  obtain ⟨e, he, hsettle⟩ := Option.bind_eq_some_iff.1 h
  exact hs.set_entry (settledEntry_sealed (hs.outbox _ e he) hinput hnow hsettle)

theorem wakeOutbox_sealed (hs : s.Sealed n) {entryId : String} {now : Time} (hnow : isoUtc now) :
    (s.wakeOutbox entryId now).Sealed n := by
  unfold Store.wakeOutbox
  split
  · exact hs
  rename_i e' h
  obtain ⟨e, he, hwake⟩ := Option.bind_eq_some_iff.1 h
  obtain ⟨-, next, -, -, rfl⟩ := wakeOutboxEntry_eq_some hwake
  have hsealed := hs.outbox _ e he
  refine hs.set_entry ⟨{ hsealed.parses with nextAttemptAt := ?_, updatedAt := hnow },
    hsealed.attempts⟩
  intro t ht
  obtain rfl := Option.some.inj ht
  exact hnow

/-! ### Transactions -/

theorem taskAt_sealed (hs : s.Sealed n) {k : String} :
    ∀ vt ∈ s.tasks.get k, vt.task.Sealed n :=
  fun vt hvt => hs.tasks k vt hvt

theorem activeRun_sealed (hs : s.Sealed n) {task : Option VersionedTask} :
    ∀ r ∈ s.activeRun task, r.Sealed := by
  intro r hr
  obtain ⟨id, -, hget⟩ := Option.bind_eq_some_iff.1 hr
  exact hs.runs id r hget

/-- A request is resolved to its own id or to its binding's. -/
theorem resolveRequestBinding_within {requestId resolved : String} {binding : Option RequestBinding}
    {current next : Option BindingRecord} (hid : withinLength requestId 128 = true)
    (hbinding : ∀ b ∈ binding, withinLength b.canonicalRequestId 128 = true)
    (h : Store.resolveRequestBinding requestId binding current = .ok (resolved, next)) :
    withinLength resolved 128 = true := by
  unfold Store.resolveRequestBinding at h
  split at h
  · obtain ⟨rfl, -⟩ := Prod.mk.inj (Except.ok.inj h)
    exact hid
  · rename_i b
    obtain ⟨rfl, -⟩ := Prod.mk.inj (Except.ok.inj h)
    exact hbinding b rfl
  · rename_i b current
    split at h
    · cases h
    obtain ⟨rfl, -⟩ := Prod.mk.inj (Except.ok.inj h)
    split
    · exact hbinding b rfl
    · exact hid

theorem request_sealed (hs : s.Sealed n) (hn : n + 1 ≤ MAX_SAFE_INTEGER) {now : Time}
    (hnow : Roomy now) {input : RequestInput} (hinput : input.Bounded) :
    (∀ d, (Orchestrator.request s now input).1 = .ok d → d.Sealed (n + 1)) ∧
      (Orchestrator.request s now input).2.Sealed (n + 1) := by
  have hlater := hs.mono (Nat.le_succ n)
  rcases request_cases s now input with
    ⟨⟨stop, hstop⟩, hunread, hout⟩ | ⟨requestId, _, d, hok, -, hresolve, hd, hwritten⟩
  · refine ⟨fun d hd => ?_, hunread.sealed hout hlater⟩
    rw [hstop] at hd
    cases hd
  · have hsealed : d.Sealed (n + 1) := by
      refine decideRequest_sealed hinput hnow hn ⟨taskAt_sealed hs, activeRun_sealed hs, ?_⟩ hd
      exact resolveRequestBinding_within hinput.requestId hinput.requestBinding hresolve
    refine ⟨fun d' hd' => ?_, hwritten.sealed hlater hsealed⟩
    rw [hok] at hd'
    obtain rfl := Except.ok.inj hd'
    exact hsealed

theorem transactRun_sealed (hs : s.Sealed n) (runId : String) (pipelines : Option (List String))
    (should : Option VersionedTask → Option Run → Bool)
    {decide : Store.RunTransactionState → Outcome}
    (hdecide : ∀ state d, state.Sealed n → decide state = .ok d → d.Sealed (n + 2)) :
    (∀ d, (s.transactRun runId pipelines should decide).1 = .ok d → d.Sealed (n + 2)) ∧
      (s.transactRun runId pipelines should decide).2.Sealed (n + 2) := by
  have hlater := hs.mono (Nat.le_add_right n 2)
  rcases transactRun_cases s runId pipelines should decide with
    ⟨⟨stop, hstop⟩, hsame⟩ | ⟨d, hok, hd, hwritten⟩
  · refine ⟨fun d hd => ?_, by rw [hsame]; exact hlater⟩
    rw [hstop] at hd
    cases hd
  · have hstate : (s.runState runId pipelines should).Sealed n := by
      refine ⟨fun vt hvt => ?_, fun r hr => hs.runs runId r hr⟩
      obtain ⟨r, -, hget⟩ := Option.bind_eq_some_iff.1 hvt
      exact hs.tasks _ vt hget
    have hsealed : d.Sealed (n + 2) := hdecide _ d hstate hd
    refine ⟨fun d' hd' => ?_, hwritten.sealed hlater hsealed⟩
    rw [hok] at hd'
    obtain rfl := Except.ok.inj hd'
    exact hsealed

/-! ### Calls and the system -/

/-- A call whose input is bounded, and which read sealed records. -/
structure Call.Sealed (n : Nat) (call : Call) : Prop where
  op : call.op.Bounded
  read : ∀ vt, call.phase = .readTask (some vt) ∨ (∃ run, call.phase = .readBoth (some vt) run) →
    vt.task.Sealed n

theorem Call.Sealed.mono {m : Nat} {call : Call} (h : call.Sealed m) (hmn : m ≤ n) :
    call.Sealed n :=
  ⟨h.op, fun vt hvt => (h.read vt hvt).mono hmn⟩

theorem Call.Sealed.decide {call : Call} (hcall : call.Sealed n) {now : Time} (hnow : Roomy now)
    {task : Option VersionedTask} {run : Option Run} (hphase : call.phase = .readBoth task run)
    (h : call.op.decide now (task.map (·.task)) run = .ok d) : d.Sealed n := by
  refine TaskOp.decide_sealed hcall.op (fun t ht => ?_) hnow h
  obtain ⟨vt, rfl, rfl⟩ := Option.map_eq_some_iff.1 ht
  exact hcall.read vt (.inr ⟨run, hphase⟩)

theorem resume_sealed (hs : s.Sealed n) {call : Call} (hcall : call.Sealed n) {now : Time}
    (hnow : Roomy now) : (call.resume s now).1.Sealed n ∧ (call.resume s now).2.Sealed n := by
  unfold Call.resume
  cases hphase : call.phase with
  | reading =>
    refine ⟨⟨hcall.op, fun vt hvt => ?_⟩, hs⟩
    have hget : s.tasks.get (taskKey call.taskId) = some vt := by simpa using hvt
    exact hs.tasks _ vt hget
  | readTask task =>
    refine ⟨⟨hcall.op, fun vt hvt => ?_⟩, hs⟩
    have htask : task = some vt := by simpa using hvt
    exact hcall.read vt (.inl (htask ▸ hphase))
  | readBoth task run =>
    dsimp only
    unfold Call.finish
    cases hd : call.op.decide now (task.map (·.task)) run with
    | error stop => exact ⟨⟨hcall.op, by simp⟩, hs⟩
    | ok d =>
      cases happly : s.apply d (task.map (·.revision)) with
      | none =>
        simp only [happly]
        refine ⟨⟨hcall.op, fun vt hvt => ?_⟩, hs⟩
        dsimp only at hvt
        split at hvt <;> simp at hvt
      | some s' =>
        simp only [happly]
        exact ⟨⟨hcall.op, by simp⟩, (apply_some happly).2.sealed hs (hcall.decide hnow hphase hd)⟩
  | ended => exact ⟨hcall, hs⟩

theorem Call.decision_eq_some {call : Call} {now : Time} (h : call.decision s now = some d) :
    ∃ task run, call.phase = .readBoth task run ∧
      call.op.decide now (task.map (·.task)) run = .ok d := by
  unfold Call.decision at h
  cases hphase : call.phase with
  | readBoth task run =>
    rw [hphase] at h
    dsimp only at h
    cases hd : call.op.decide now (task.map (·.task)) run with
    | error stop =>
      rw [hd] at h
      cases h
    | ok decision =>
      rw [hd] at h
      dsimp only at h
      split_ifs at h
      obtain rfl := Option.some.inj h
      exact ⟨task, run, rfl, hd⟩
  | _ =>
    rw [hphase] at h
    cases h

/-- Every stored record is sealed, and so is what a call has read. -/
structure World.Sealed (n : Nat) (w : World) : Prop where
  store : w.store.Sealed n
  calls : ∀ id call, w.calls.get id = some call → call.Sealed n

theorem World.sealed_init : World.init.Sealed n :=
  ⟨Store.sealed_empty, fun _ _ h => by simp [World.init] at h⟩

theorem World.Sealed.mono {m : Nat} {w : World} (h : w.Sealed m) (hmn : m ≤ n) : w.Sealed n :=
  ⟨h.store.mono hmn, fun id call hcall => (h.calls id call hcall).mono hmn⟩

/-- One bounded step keeps records sealed; no counter rises by more than two. -/
theorem World.Sealed.step {w : World} (hw : w.Sealed n) (hn : n + 2 ≤ MAX_SAFE_INTEGER)
    {label : Step} (hlabel : label.Bounded) (hclock : ∀ now ∈ label.clock, Roomy now) :
    (∀ d, w.decision label = some d → d.Sealed (n + 2)) ∧ (w.step label).Sealed (n + 2) := by
  have hn1 : n + 1 ≤ MAX_SAFE_INTEGER := Nat.le_of_succ_le hn
  have htwo : n ≤ n + 2 := Nat.le_add_right n 2
  have hlater := hw.mono htwo
  have hcalls := hlater.calls
  cases label with
  | request now input =>
    obtain ⟨hdecision, hstore⟩ := request_sealed hw.store hn1 (hclock now rfl) hlabel
    refine ⟨fun d hd => ?_, hstore.mono (Nat.le_succ _), hcalls⟩
    exact (hdecision d (toOption_eq_ok hd)).mono (Nat.le_succ _)
  | onRun runId now cleanupId op =>
    obtain ⟨hdecision, hstore⟩ := transactRun_sealed hw.store runId op.eligibilityPipelines
      (op.shouldReadQueueEligibility now)
      fun state d hstate hd =>
        decideOnRun_sealed hlabel.2 (hclock now rfl) hn hlabel.1 hstate hd
    exact ⟨fun d hd => hdecision d (toOption_eq_ok hd), hstore, hcalls⟩
  | direct runId now op =>
    obtain ⟨hdecision, hstore⟩ := transactRun_sealed hw.store runId op.eligibilityPipelines
      (op.shouldReadQueueEligibility now)
      fun state d hstate hd => decideDirect_sealed hlabel (hclock now rfl) hn hstate hd
    exact ⟨fun d hd => hdecision d (toOption_eq_ok hd), hstore, hcalls⟩
  | enqueueRun runId now =>
    exact ⟨fun d hd => (by cases hd), enqueueRun_sealed hlater.store (hclock now rfl), hcalls⟩
  | claimQueuedRun pipelines input =>
    exact ⟨fun d hd => (by cases hd),
      claimQueuedRun_sealed hlater.store hlabel (hclock input.now rfl), hcalls⟩
  | releaseQueuedRunClaim runId claimedBy tokenHash now deferredUntil =>
    exact ⟨fun d hd => (by cases hd),
      releaseQueuedRunClaim_sealed hlater.store (hclock now rfl) hlabel, hcalls⟩
  | claimPendingOutbox limit now leaseExpiresAt excluded claimIds =>
    refine ⟨fun d hd => (by cases hd), ?_, hcalls⟩
    exact (claimPendingOutbox_sealed hw.store hn1 hlabel.2 hlabel.1 (hclock now rfl).iso).mono
      (Nat.le_succ _)
  | settleOutbox input =>
    exact ⟨fun d hd => (by cases hd),
      settleOutbox_sealed hlater.store hlabel (hclock input.now rfl).iso, hcalls⟩
  | wakeOutbox entryId now =>
    exact ⟨fun d hd => (by cases hd), wakeOutbox_sealed hlater.store (hclock now rfl).iso, hcalls⟩
  | call id taskId op =>
    refine ⟨fun d hd => (by cases hd), hlater.store, fun i call hcall => ?_⟩
    simp only [World.step, OrderedMap.get_set] at hcall
    split_ifs at hcall
    · obtain rfl := Option.some.inj hcall
      exact ⟨hlabel, by simp⟩
    · exact hcalls i call hcall
  | resume id now =>
    cases hcall : w.calls.get id with
    | none =>
      simp only [World.decision, World.step, hcall]
      exact ⟨fun d hd => (by cases hd), hlater⟩
    | some call =>
      have hsealed := hcalls id call hcall
      obtain ⟨hnext, hstore⟩ := resume_sealed hlater.store hsealed (hclock now rfl)
      simp only [World.decision, World.step, hcall, Option.bind_some]
      refine ⟨fun d hd => ?_, hstore, fun i next hi => ?_⟩
      · obtain ⟨task, run, hphase, hd⟩ := Call.decision_eq_some hd
        exact hsealed.decide (hclock now rfl) hphase hd
      · simp only [OrderedMap.get_set] at hi
        split_ifs at hi
        · obtain rfl := Option.some.inj hi
          exact hnext
        · exact hcalls i next hi

theorem World.Sealed.run {w : World} (hw : w.Sealed n) {steps : List Step}
    (hsteps : ∀ label ∈ steps, label.Bounded ∧ ∀ now ∈ label.clock, Roomy now)
    (hn : n + 2 * steps.length ≤ MAX_SAFE_INTEGER) :
    (w.run steps).Sealed (n + 2 * steps.length) := by
  induction steps generalizing w n with
  | nil => exact hw
  | cons label rest ih =>
    obtain ⟨hbounded, hclock⟩ := hsteps label (by simp)
    rw [List.length_cons] at hn ⊢
    have hstep := (hw.step (by omega) hbounded hclock).2
    have hrest := ih hstep (fun l hl => hsteps l (by simp [hl])) (by omega)
    have hsum : n + 2 + 2 * rest.length = n + 2 * (rest.length + 1) := by omega
    rw [hsum] at hrest
    exact hrest

/-! ### Every run -/

/-- Every stored record parses. -/
structure Store.Parses (s : Store) : Prop where
  tasks : ∀ vt ∈ s.tasks.values, TaskSchema vt.task
  runs : ∀ r ∈ s.runs.values, RunSchema r
  outbox : ∀ e ∈ s.outbox.values, OutboxEntrySchema e

/-- Everything a decision writes parses. -/
structure Decision.Parses (d : Decision) : Prop where
  task : TaskSchema d.task
  runs : ∀ r ∈ d.writes, RunSchema r
  outbox : ∀ e ∈ d.outbox, OutboxEntrySchema e

theorem Store.Sealed.parses (hs : s.Sealed n) : s.Parses where
  tasks := by
    intro vt hvt
    obtain ⟨k, hget⟩ := (OrderedMap.mem_values_iff _ _).1 hvt
    exact (hs.tasks k vt hget).parses
  runs := by
    intro r hr
    obtain ⟨id, hget⟩ := (OrderedMap.mem_values_iff _ _).1 hr
    exact (hs.runs id r hget).parses
  outbox := by
    intro e he
    obtain ⟨id, hget⟩ := (OrderedMap.mem_values_iff _ _).1 he
    exact (hs.outbox id e hget).parses

theorem Decision.Sealed.decision_parses (h : d.Sealed n) : d.Parses :=
  ⟨h.task.parses, fun r hr => (h.runs r hr).parses, fun e he => (h.outbox e he).parses⟩

namespace Sample

/-- A bounded request for a new work item. -/
def boundedRequest : RequestInput :=
  { taskId := .work "01ARZ3NDEKTSV4RRFFQ69G5FAV", requestId := "q1", pipeline := "claude"
    work := some [] }

theorem boundedRequest_bounded : boundedRequest.Bounded := by
  constructor <;> simp [boundedRequest] <;> try decide +kernel
  exact ⟨by simp, by decide⟩

/-- Its run as the last representable instant admits it. -/
theorem latest_lease :
    ∃ r ∈ (World.init.run [.request MAX_INSTANT boundedRequest]).store.runs.values,
      ¬isoUtc r.leaseExpiresAt := by
  decide +kernel

end Sample

/-- A claim whose lease has run out when it is taken. -/
def expiredClaim : Step :=
  .claimPendingOutbox 1 0 0 [] fun _ => "00000000-0000-0000-0000-000000000000"

/-- The one entry of an outbox, after a number of such claims. -/
structure HandedOut (s : Store) (attempts : Nat) : Prop where
  entry : ∃ id e, s.outbox.entries = [(id, e)] ∧ e.entryId = id ∧ e.attempts = attempts ∧
    (e.state = .pending ∧ e.nextAttemptAt = none ∨ ∃ claimId, e.state = .leased claimId 0)

theorem HandedOut.step {w : World} {k : Nat} (h : HandedOut w.store k) :
    HandedOut (w.step expiredClaim).store (k + 1) := by
  obtain ⟨id, e, hentries, hid, hattempts, hstate⟩ := h.entry
  have hvalues : w.store.outbox.values = [e] := by simp [OrderedMap.values, hentries]
  have hclaimable : w.store.claimableOutbox 1 0 [] = [e] := by
    rcases hstate with ⟨hpending, hnext⟩ | ⟨claimId, hleased⟩
    · simp [Store.claimableOutbox, hvalues, Store.leaseExpired, Store.isDue, hpending, hnext]
    · simp [Store.claimableOutbox, hvalues, Store.leaseExpired, Store.isDue, hleased]
  constructor
  simp only [World.step, expiredClaim, Store.claimPendingOutbox, hclaimable, List.zipIdx_cons,
    List.zipIdx_nil, List.foldl_cons, List.foldl_nil, Store.putEntry, OrderedMap.set, hentries]
  refine ⟨id, Store.leaseEntry e "00000000-0000-0000-0000-000000000000" 0 0, ?_, hid, ?_,
    .inr ⟨_, rfl⟩⟩
  · simp [OrderedMap.setEntry, Store.leaseEntry, hid]
  · simp [Store.leaseEntry, hattempts]

theorem HandedOut.run {w : World} {k : Nat} (h : HandedOut w.store k) (m : Nat) :
    HandedOut (w.run (List.replicate m expiredClaim)).store (k + m) := by
  induction m generalizing w k with
  | zero => exact h
  | succ m ih =>
    have := ih h.step
    rw [Nat.add_right_comm] at this
    exact this

/-- A request, and a number of such claims of its dispatch. -/
def handedOut (m : Nat) : List Step :=
  .request 0 Sample.boundedRequest :: List.replicate m expiredClaim

theorem handedOut_attempts (m : Nat) :
    ∃ e ∈ (World.init.run (handedOut m)).store.outbox.values, e.attempts = m := by
  have hfirst : HandedOut (World.init.step (.request 0 Sample.boundedRequest)).store 0 :=
    ⟨_, _, rfl, rfl, rfl, .inl ⟨rfl, rfl⟩⟩
  obtain ⟨id, e, hentries, -, hattempts, -⟩ := (hfirst.run m).entry
  refine ⟨e, ?_, by rw [hattempts, Nat.zero_add]⟩
  show e ∈ ((World.init.step (.request 0 Sample.boundedRequest)).run
    (List.replicate m expiredClaim)).store.outbox.values
  simp [OrderedMap.values, hentries]

theorem handedOut_bounded {m : Nat} :
    ∀ label ∈ handedOut m, label.Bounded ∧ ∀ now ∈ label.clock, Roomy now := by
  intro label hlabel
  rcases List.mem_cons.1 hlabel with rfl | hlabel
  · refine ⟨Sample.boundedRequest_bounded, fun now hnow => ?_⟩
    obtain rfl := Option.some.inj hnow
    decide
  · obtain rfl := List.eq_of_mem_replicate hlabel
    refine ⟨⟨by decide, fun _ => by simp [isUuid]⟩, fun now hnow => ?_⟩
    obtain rfl := Option.some.inj hnow
    decide

/-- Bounded inputs alone do not keep records readable: a run requested in the last two hours of the
year 9999 has a lease that cannot be read, and an entry handed out too often has a counter that
cannot. -/
theorem records_unreadable :
    (∃ label : Step, label.Bounded ∧ (∀ now ∈ label.clock, isoUtc now) ∧
      ¬(World.init.run [label]).store.Parses) ∧
    ∃ steps : List Step, (∀ label ∈ steps, label.Bounded ∧ ∀ now ∈ label.clock, Roomy now) ∧
      ¬(World.init.run steps).store.Parses := by
  constructor
  · refine ⟨.request MAX_INSTANT Sample.boundedRequest, Sample.boundedRequest_bounded, ?_, ?_⟩
    · intro now hnow
      obtain rfl := Option.some.inj hnow
      decide
    · intro hparses
      obtain ⟨r, hr, hlease⟩ := Sample.latest_lease
      exact hlease (hparses.runs r hr).leaseExpiresAt
  · refine ⟨handedOut (MAX_SAFE_INTEGER + 1), handedOut_bounded, fun hparses => ?_⟩
    obtain ⟨e, he, hattempts⟩ := handedOut_attempts (MAX_SAFE_INTEGER + 1)
    have hbound := (hparses.outbox e he).attempts
    rw [hattempts] at hbound
    exact Nat.not_succ_le_self _ hbound

/-- Bounded inputs keep every stored record and every decision readable. -/
theorem World.records_parse {steps : List Step}
    (hsteps : ∀ label ∈ steps, label.Bounded ∧ ∀ now ∈ label.clock, Roomy now)
    (hcount : 2 * steps.length ≤ MAX_SAFE_INTEGER) :
    (World.init.run steps).store.Parses ∧
      ∀ first label rest, steps = first ++ label :: rest →
        ∀ d, (World.init.run first).decision label = some d → d.Parses := by
  constructor
  · exact (World.sealed_init.run (n := 0) hsteps (by omega)).store.parses
  · rintro first label rest rfl d hd
    rw [List.length_append, List.length_cons] at hcount
    have hfirst := World.sealed_init.run (n := 0)
      (fun l hl => hsteps l (List.mem_append_left _ hl)) (by omega)
    obtain ⟨hbounded, hclock⟩ := hsteps label (by simp)
    exact ((hfirst.step (by omega) hbounded hclock).1 d hd).decision_parses

/-- The run of a bounded request is claimed. -/
def Sample.boundedSteps : List Step :=
  [.request 0 boundedRequest, .enqueueRun "work:01ARZ3NDEKTSV4RRFFQ69G5FAV/r1" 1,
    .claimQueuedRun ["claude"]
      { claim 2 with tokenHash := String.ofList (List.replicate 64 'c') }]

/-- It is canceled. -/
def Sample.boundedCancel : Step :=
  .onRun "work:01ARZ3NDEKTSV4RRFFQ69G5FAV/r1" 3 "cleanup" (.cancel (some "stop") none
    (some ⟨.workApiCancel, "user:a"⟩))

theorem Sample.boundedSteps_bounded : ∀ label ∈ Sample.boundedSteps ++ [Sample.boundedCancel],
    label.Bounded ∧ ∀ now ∈ label.clock, Roomy now := by
  intro label hlabel
  simp only [boundedSteps, List.cons_append, List.nil_append, List.mem_cons, List.not_mem_nil,
    or_false] at hlabel
  rcases hlabel with rfl | rfl | rfl | rfl
  · refine ⟨boundedRequest_bounded, fun now hnow => ?_⟩
    obtain rfl := Option.some.inj hnow
    decide
  · refine ⟨trivial, fun now hnow => ?_⟩
    obtain rfl := Option.some.inj hnow
    decide
  · refine ⟨⟨by decide +kernel, by decide +kernel, by decide +kernel⟩, fun now hnow => ?_⟩
    obtain rfl := Option.some.inj hnow
    decide
  · refine ⟨⟨by decide +kernel, fun text htext => ?_, fun i hi => ?_⟩, fun now hnow => ?_⟩
    · obtain rfl := Option.some.inj htext
      decide +kernel
    · obtain rfl := Option.some.inj hi
      decide +kernel
    · obtain rfl := Option.some.inj hnow
      decide

/-- The records of a run that is requested, claimed and canceled parse, as does the cancellation. -/
theorem World.records_parse_canceled :
    (World.init.run (Sample.boundedSteps ++ [Sample.boundedCancel])).store.Parses ∧
      ∃ d, (World.init.run Sample.boundedSteps).decision Sample.boundedCancel = some d ∧ d.Parses := by
  obtain ⟨hparses, hdecided⟩ := World.records_parse Sample.boundedSteps_bounded (by decide)
  have hsome : ((World.init.run Sample.boundedSteps).decision Sample.boundedCancel).isSome = true := by
    decide +kernel
  obtain ⟨d, hd⟩ := Option.isSome_iff_exists.1 hsome
  exact ⟨hparses, d, hd, hdecided Sample.boundedSteps Sample.boundedCancel [] rfl d hd⟩

end AgentLcars
