import AgentLcars.Admission
import AgentLcars.Deferral

/-!
# Startup

A claim negotiates how long it may wait for its Job to be placed and how long the placed Job may
take to send its first heartbeat.  Every accepted observation renews the deadline it was accepted
under, so the bounds are an invariant of the observations: `Starting` is what holds of the run
between its claim and its first heartbeat, `Evidence` is what later observations keep of earlier
ones.

* `Starting.observed`, `Starting.placementObserved`: what an accepted observation does.
* `World.startup_bounded`: the claim of every reachable state, after any observations.
* `World.placement_overwritten`: a placement gives way to another one of the same time.
-/

namespace AgentLcars

/-! ### Claims without a heartbeat -/

/-- The Job of the claim was placed. -/
def RunQueue.placed (queue : RunQueue) : Bool :=
  queue.startupPlacement.any fun startup => startup.state = .placed

/-- A claimed run that has sent no heartbeat yet. -/
structure Starting (input : ClaimInput) (r : Run) (q : RunQueue) (start : Time) : Prop where
  live : isLive r.state = true
  idle : r.credentialOperation = none
  unreported : r.credentialPendingResult = none
  queue : r.queue = some q
  claimed : q.state = .claimed
  claimedAt : q.claimedAt = some input.now
  deadline : q.startDeadlineAt = some start
  silent : q.firstHeartbeatAt = none
  waiting : q.placed = false → start ≤ input.now + 60 * 60000
  placed : q.placed = true → start < input.now + 75 * 60000

/-- What later observations keep of earlier ones. -/
structure Evidence (q q' : RunQueue) : Prop where
  fixed : q.placed = true → q'.placed = true ∧ q'.startDeadlineAt = q.startDeadlineAt
  startup : ∀ p ∈ q.startupPlacement, ∃ p' ∈ q'.startupPlacement, p.observedAt ≤ p'.observedAt
  placement : ∀ p ∈ q.placement, ∃ p' ∈ q'.placement, p.observedAt ≤ p'.observedAt

theorem Evidence.refl (q : RunQueue) : Evidence q q :=
  ⟨fun h => ⟨h, rfl⟩, fun p hp => ⟨p, hp, le_rfl⟩, fun p hp => ⟨p, hp, le_rfl⟩⟩

theorem Evidence.trans {q₁ q₂ q₃ : RunQueue} (h : Evidence q₁ q₂) (h' : Evidence q₂ q₃) :
    Evidence q₁ q₃ where
  fixed := by
    intro hplaced
    obtain ⟨hplaced₂, hdeadline₂⟩ := h.fixed hplaced
    obtain ⟨hplaced₃, hdeadline₃⟩ := h'.fixed hplaced₂
    exact ⟨hplaced₃, hdeadline₃.trans hdeadline₂⟩
  startup := by
    intro p hp
    obtain ⟨p₂, hp₂, hle₂⟩ := h.startup p hp
    obtain ⟨p₃, hp₃, hle₃⟩ := h'.startup p₂ hp₂
    exact ⟨p₃, hp₃, hle₂.trans hle₃⟩
  placement := by
    intro p hp
    obtain ⟨p₂, hp₂, hle₂⟩ := h.placement p hp
    obtain ⟨p₃, hp₃, hle₃⟩ := h'.placement p₂ hp₂
    exact ⟨p₃, hp₃, hle₂.trans hle₃⟩

/-- A claim starts inside its bounds. -/
theorem starting_claim {input : ClaimInput} {r : Run} (hlive : isLive r.state = true)
    (hop : r.credentialOperation = none) (hpending : r.credentialPendingResult = none) :
    ∃ q, Starting input (claimQueuedRun r input) q (runStartDeadlineAt input.now) := by
  refine ⟨_, hlive, hop, hpending, rfl, rfl, rfl, rfl, rfl, fun _ => ?_, fun hplaced => ?_⟩
  · show input.now + 15 * 60000 ≤ input.now + 60 * 60000
    exact Int.add_le_add_left (by decide) _
  · show input.now + 15 * 60000 < input.now + 75 * 60000
    exact Int.add_lt_add_left (by decide) _

section Starting

variable {input : ClaimInput} {r : Run} {q : RunQueue} {start now : Time} {t : Task} {d : Decision}

theorem Starting.recoveryDeadline (h : Starting input r q start) :
    runRecoveryDeadline r = some (if start < r.leaseExpiresAt then start else r.leaseExpiresAt) := by
  simp [runRecoveryDeadline, h.queue, h.claimed, h.silent, h.deadline]

/-- From its start deadline on a claim can be recovered. -/
theorem Starting.elapsed (h : Starting input r q start) (hnow : start ≤ now) :
    recoveryDeadlineElapsed r now = true := by
  simp only [recoveryDeadlineElapsed, h.recoveryDeadline, decide_eq_true_eq]
  split_ifs with hlease
  · exact hnow
  · exact (not_lt.1 hlease).trans hnow

/-- What is not recoverable yet is before its start deadline. -/
theorem Starting.lt_of_not_elapsed (h : Starting input r q start)
    (helapsed : ¬recoveryDeadlineElapsed r now = true) : now < start :=
  lt_of_not_ge fun hle => helapsed (h.elapsed hle)

theorem Starting.startElapsed (h : Starting input r q start) (hnow : start ≤ now) :
    startDeadlineElapsed r now = true := by
  simp [startDeadlineElapsed, h.queue, h.claimed, h.silent, h.deadline, hnow]

/-- The queue record an accepted startup observation leaves. -/
def observedQueue (now : Time) (obs : StartupObservation) (q : RunQueue) : RunQueue :=
  { q with
    startupPlacement := some
      { state := if obs.placed then .placed else .waiting
        jobUid := some obs.jobUid
        observedAt := obs.observedAt }
    startDeadlineAt := some (if obs.placed then runStartDeadlineAt now
      else placementStartDeadlineAt now q.claimedAt) }

/-- The rewritten run of an accepted observation is within its bounds. -/
theorem Starting.renewed (h : Starting input r q start) (hnow : now < start)
    (hnot : q.placed = false) (obs : StartupObservation) :
    ∃ start', Starting input { r with
      queue := some (observedQueue now obs q)
      leaseExpiresAt := runLeaseExpiresAt now
      updatedAt := now } (observedQueue now obs q) start' := by
  refine ⟨_, h.live, h.idle, h.unreported, rfl, h.claimed, h.claimedAt, rfl, h.silent,
    fun hplaced => ?_, fun hplaced => ?_⟩
  · -- a waiting observation is capped
    have hwait : obs.placed = false := by
      cases hp : obs.placed <;> simp [RunQueue.placed, observedQueue, hp] at hplaced ⊢
    rw [hwait, if_neg (by decide), h.claimedAt]
    exact min_le_right _ _
  · -- a placed one was accepted under a capped deadline
    have hjob : obs.placed = true := by
      cases hp : obs.placed <;> simp [RunQueue.placed, observedQueue, hp] at hplaced ⊢
    rw [hjob, if_pos rfl]
    have hlt := lt_of_lt_of_le hnow (h.waiting hnot)
    show now + 15 * 60000 < input.now + 75 * 60000
    have hsum : (75 * 60000 : Int) = 60 * 60000 + 15 * 60000 := by decide
    calc now + 15 * 60000 < input.now + 60 * 60000 + 15 * 60000 := Int.add_lt_add_right hlt _
      _ = input.now + (60 * 60000 + 15 * 60000) := Int.add_assoc _ _ _
      _ = input.now + 75 * 60000 := congrArg (input.now + ·) hsum.symm

/-- An accepted startup observation is newer than the recorded one, and stays in the bounds. -/
theorem Starting.observed (h : Starting input r q start) {claimant : ExitClaimant}
    {obs : StartupObservation} (hd : observeStartupPlacement now t r claimant obs = .ok d) :
    (∀ p ∈ q.startupPlacement, p.observedAt < obs.observedAt) ∧
      ∃ r' q' start', d.run = some r' ∧ r'.runId = r.runId ∧ Starting input r' q' start' ∧
        Evidence q q' := by
  unfold observeStartupPlacement at hd
  rw [h.queue] at hd
  dsimp only at hd
  cases hstartup : q.startupPlacement with
  | none =>
    rw [hstartup] at hd
    exact absurd hd refused_ne_ok
  | some p =>
    rw [hstartup] at hd
    simp only [ite_refused_eq_ok, not_or, not_lt, not_le] at hd
    obtain ⟨-, -, ⟨-, helapsed⟩, ⟨-, -, hnewer⟩, hd⟩ := hd
    refine ⟨by rintro _ ⟨rfl⟩; exact hnewer, ?_⟩
    by_cases hnoop : q.firstHeartbeatAt ≠ none ∨ p.state = .placed
    · rw [if_pos hnoop] at hd
      obtain rfl := Except.ok.inj hd
      exact ⟨r, q, start, rfl, rfl, h, .refl q⟩
    · rw [if_neg hnoop] at hd
      obtain rfl := Except.ok.inj hd
      have hnot : q.placed = false := by
        simpa [RunQueue.placed, hstartup] using fun hp => hnoop (.inr hp)
      obtain ⟨start', hstart'⟩ := h.renewed (h.lt_of_not_elapsed helapsed) hnot obs
      refine ⟨_, _, start', rfl, rfl, hstart', fun hplaced => ?_, ?_, fun p hp => ⟨p, hp, le_rfl⟩⟩
      · rw [hnot] at hplaced
        cases hplaced
      · intro p' hp'
        rw [hstartup] at hp'
        obtain rfl := Option.some.inj hp'
        exact ⟨_, rfl, le_of_lt hnewer⟩

/-- An accepted placement observation is not older than the recorded one. -/
theorem Starting.placementObserved (h : Starting input r q start) {claimant : ExitClaimant}
    {placement : RunPlacement} (hd : observePlacement now t r claimant placement = .ok d) :
    (∀ p ∈ q.placement, p.observedAt ≤ placement.observedAt) ∧
      ∃ r' q' start', d.run = some r' ∧ r'.runId = r.runId ∧ Starting input r' q' start' ∧
        Evidence q q' := by
  unfold observePlacement at hd
  rw [h.queue] at hd
  simp only [ite_refused_eq_ok, not_or, not_lt] at hd
  obtain ⟨-, -, -, ⟨-, -, hfresh⟩, hd⟩ := hd
  obtain rfl := Except.ok.inj hd
  have hnewer : ∀ p ∈ q.placement, p.observedAt ≤ placement.observedAt := by
    intro p hp
    rw [Option.mem_def.1 hp] at hfresh
    simpa using hfresh
  refine ⟨hnewer, _, _, start, rfl, rfl, ⟨h.live, h.idle, h.unreported, rfl, h.claimed, h.claimedAt,
    h.deadline, h.silent, h.waiting, h.placed⟩, fun hplaced => ⟨hplaced, rfl⟩,
    fun p hp => ⟨p, hp, le_rfl⟩, fun p hp => ⟨placement, rfl, hnewer p hp⟩⟩

/-- What a claim may only do before its start deadline. -/
def RunOp.needsStart : RunOp → Bool
  | .observeStartupPlacement _ _ | .observePlacement _ _ | .renew _ _ | .report _ _ _ _ _ => true
  | _ => false

theorem Starting.report_refused (h : Starting input r q start) (hnow : start ≤ now)
    {result : RunResult} {claimFingerprint : Option String} :
    reportResult now t r result claimFingerprint ≠ .ok d := by
  intro hd
  have hadmitted := reportResult_ok hd
  simp only [reportAdmitted, decide_eq_true_eq] at hadmitted
  obtain ⟨-, -, -, -, hstarted, -⟩ := hadmitted
  rw [admittedAt, h.unreported] at hstarted
  cases (h.startElapsed hnow).symm.trans hstarted

/-- From its start deadline on the claim can neither observe, renew nor report. -/
theorem Starting.refused (h : Starting input r q start) (hnow : start ≤ now) {op : RunOp}
    (hop : op.needsStart = true) {eligibility : Option QueueEligibilitySnapshot} :
    op.decide now t r eligibility ≠ .ok d := by
  cases op with
  | observeStartupPlacement claimant observation =>
    simp only [RunOp.decide, AgentLcars.observeStartupPlacement, h.queue]
    split
    · exact refused_ne_ok
    · simp only [ne_eq, ite_refused_eq_ok, h.elapsed hnow, or_true, not_true, false_and, and_false,
        not_false_eq_true]
  | renew claimFingerprint started =>
    simp only [RunOp.decide, renewLease, ne_eq, ite_refused_eq_ok, h.startElapsed hnow, not_true,
      false_and, and_false, not_false_eq_true]
  | observePlacement claimant placement =>
    simp only [RunOp.decide, AgentLcars.observePlacement, h.queue, ne_eq, ite_refused_eq_ok,
      h.elapsed hnow, or_true, not_true, false_and, and_false, not_false_eq_true]
  | report authority result claimFingerprint delivery publish =>
    have hreported : Starting input (reportedRun r result delivery publish) q start :=
      ⟨h.live, h.idle, h.unreported, h.queue, h.claimed, h.claimedAt, h.deadline, h.silent,
        h.waiting, h.placed⟩
    have hplain : plainReport now t r result claimFingerprint delivery publish ≠ .ok d := by
      unfold plainReport
      split_ifs
      · exact refused_ne_ok
      · exact hreported.report_refused hnow
    simp only [RunOp.decide]
    split
    · split_ifs
      · intro hd
        obtain ⟨settled, hsettled, -⟩ := bind_eq_ok.1 hd
        exact h.report_refused hnow hsettled
      · exact hplain
    · exact hplain
  | _ => cases hop

/-- From its start deadline on the claim may be given up. -/
theorem Starting.expires (h : Starting input r q start) (hnow : start ≤ now)
    (hlock : t.activeRunId = some r.runId) :
    ∃ d, expireLeaseAndRetry now t r = .ok d ∧ d.run = some (lostRun now r .expiry) := by
  have hloss : expireLeaseLoss now t r = .ok (settleLost now t r .expiry) := by
    unfold expireLeaseLoss
    rw [if_neg (by simp [h.live]), if_neg (by simp [h.elapsed hnow]), if_neg (by simp [hlock]),
      if_neg (by simp [h.idle])]
  obtain ⟨d, hd⟩ : ∃ d, settleLostAndRetry now (.ok (settleLost now t r .expiry)) = .ok d := by
    unfold settleLostAndRetry
    show ∃ d, (if (lostRun now r .expiry).pipeline = "goose" then _ else _) = Except.ok d
    by_cases hgoose : (lostRun now r .expiry).pipeline = "goose"
    · exact ⟨_, if_pos hgoose⟩
    rw [if_neg hgoose]
    split
    · exact ⟨_, rfl⟩
    · split_ifs <;> exact ⟨_, rfl⟩
  exact ⟨d, by rw [expireLeaseAndRetry, hloss, hd], settleLostAndRetry_run rfl hd⟩

end Starting

/-! ### Runs of the system -/

/-- A placement or startup observation of the run. -/
def Step.observesStart (id : String) : Step → Bool
  | .onRun runId _ _ (.observeStartupPlacement _ _) => runId = id
  | .onRun runId _ _ (.observePlacement _ _) => runId = id
  | _ => false

/-- A step that leaves the claim of the run as it is: no heartbeat, no release, no settlement. -/
def World.LeavesClaim (id : String) (w : World) (label : Step) : Prop :=
  ∀ r, w.store.runs.get id = some r → ∃ r', (w.step label).store.runs.get id = some r' ∧
    isLive r'.state = isLive r.state ∧ r'.queue = r.queue ∧
    r'.credentialOperation = r.credentialOperation ∧
    r'.credentialPendingResult = r.credentialPendingResult

/-- The run is observed, or left as it is. -/
def World.OnlyObserved (id : String) (w : World) (label : Step) : Prop :=
  label.observesStart id = true ∨ w.LeavesClaim id label

section System

variable {w : World} {id : String} {r : Run} {input : ClaimInput} {q : RunQueue} {start : Time}

/-- An observation that is accepted rewrites the run it is about. -/
theorem World.Coherent.observed (hw : w.Coherent) (hr : w.store.runs.get id = some r)
    {now : Time} {cleanupId : String} {op : RunOp} {Q : Run → Prop} (hsame : Q r)
    (hop : ∀ {t d eligibility}, op.decide now t r eligibility = .ok d →
      ∃ r', d.run = some r' ∧ r'.runId = r.runId ∧ isLive r'.state = true ∧ Q r') :
    ∃ r', (w.step (.onRun id now cleanupId op)).store.runs.get id = some r' ∧ Q r' := by
  cases hd : w.decision (.onRun id now cleanupId op) with
  | none => exact ⟨r, by rw [World.onRun_refused hd, hr], hsame⟩
  | some d =>
    obtain ⟨vt, r₀, d₀, hr₀, -, hdecide, hattach, heffect⟩ := hw.onRun_decided hd
    obtain rfl := Option.some.inj (hr.symm.trans hr₀)
    obtain ⟨r', hrun, hid, hlive, hQ⟩ := hop hdecide
    have hsettles : ∀ s ∈ d₀.run, isLive r.state = false ∨ isLive s.state = true := by
      intro s hs
      obtain rfl := Option.some.inj (hrun.symm.trans hs)
      exact .inr hlive
    rw [attachCleanup_same hsettles] at hattach
    obtain rfl := Except.ok.inj hattach
    refine ⟨r', ?_, hQ⟩
    have hstored := (hw.stored hd).1 r' (by simp [Decision.writes, hrun])
    rwa [hid, hw.store.runKeyed hr] at hstored

/-- The claim stays within its bounds. -/
theorem World.Coherent.starting_step (hw : w.Coherent) (hr : w.store.runs.get id = some r)
    (h : Starting input r q start) {label : Step} (hlabel : w.OnlyObserved id label) :
    ∃ r', (w.step label).store.runs.get id = some r' ∧
      ∃ q' start', Starting input r' q' start' ∧ Evidence q q' := by
  rcases hlabel with hobserves | hleaves
  · have hsame : ∃ q' start', Starting input r q' start' ∧ Evidence q q' :=
      ⟨q, start, h, .refl q⟩
    cases label with
    | onRun runId now cleanupId op =>
      cases op with
      | observeStartupPlacement claimant observation =>
        obtain rfl : runId = id := by simpa [Step.observesStart] using hobserves
        refine hw.observed hr hsame fun hd => ?_
        obtain ⟨-, r', q', start', hrun, hid, hstarting, hevidence⟩ := h.observed hd
        exact ⟨r', hrun, hid, hstarting.live, q', start', hstarting, hevidence⟩
      | observePlacement claimant placement =>
        obtain rfl : runId = id := by simpa [Step.observesStart] using hobserves
        refine hw.observed hr hsame fun hd => ?_
        obtain ⟨-, r', q', start', hrun, hid, hstarting, hevidence⟩ := h.placementObserved hd
        exact ⟨r', hrun, hid, hstarting.live, q', start', hstarting, hevidence⟩
      | _ => cases hobserves
    | _ => cases hobserves
  · obtain ⟨r', hr', hlive, hqueue, hop, hpending⟩ := hleaves r hr
    exact ⟨r', hr', q, start, ⟨hlive.trans h.live, hop.trans h.idle, hpending.trans h.unreported,
      hqueue.trans h.queue, h.claimed, h.claimedAt, h.deadline, h.silent, h.waiting, h.placed⟩,
      .refl q⟩

theorem World.Coherent.starting_run (hw : w.Coherent) (hr : w.store.runs.get id = some r)
    (h : Starting input r q start) {more : List Step}
    (hmore : Machine.Along World.step (World.OnlyObserved id) w more) :
    ∃ r', (w.run more).store.runs.get id = some r' ∧
      ∃ q' start', Starting input r' q' start' ∧ Evidence q q' := by
  induction more generalizing w r q start with
  | nil => exact ⟨r, hr, q, start, h, .refl q⟩
  | cons label more ih =>
    obtain ⟨r₁, hr₁, q₁, start₁, h₁, hevidence₁⟩ := hw.starting_step hr h hmore.1
    obtain ⟨r₂, hr₂, q₂, start₂, h₂, hevidence₂⟩ := ih (hw.step label) hr₁ h₁ hmore.2
    exact ⟨r₂, hr₂, q₂, start₂, h₂, hevidence₁.trans hevidence₂⟩

/-- A claim and the observations of it so far. -/
structure StartupBounded (input : ClaimInput) (id : String) (w : World) (q : RunQueue)
    (start : Time) : Prop where
  claimedAt : q.claimedAt = some input.now
  deadline : q.startDeadlineAt = some start
  /-- While it waits, it may start until an hour after the claim. -/
  waiting : (∀ p ∈ q.startupPlacement, p.state = .waiting) → start ≤ input.now + 60 * 60000
  /-- Once placed, it may start until less than 75 minutes after the claim, -/
  placed : (∃ p ∈ q.startupPlacement, p.state = .placed) → start < input.now + 75 * 60000
  /-- and no further observation moves the deadline. -/
  fixed : (∃ p ∈ q.startupPlacement, p.state = .placed) → ∀ further,
    Machine.Along World.step (World.OnlyObserved id) w further →
    ∃ r' q', (w.run further).store.runs.get id = some r' ∧ r'.queue = some q' ∧
      q'.startDeadlineAt = some start ∧ ∃ p ∈ q'.startupPlacement, p.state = .placed
  /-- Only newer observations of the startup are accepted, -/
  newer : ∀ now cleanupId claimant observation d, (Orchestrator.onRun w.store id now cleanupId
    (.observeStartupPlacement claimant observation)).1 = .ok d →
    ∀ p ∈ q.startupPlacement, p.observedAt < observation.observedAt
  /-- no older ones of the placement, -/
  notOlder : ∀ now cleanupId claimant placement d, (Orchestrator.onRun w.store id now cleanupId
    (.observePlacement claimant placement)).1 = .ok d →
    ∀ p ∈ q.placement, p.observedAt ≤ placement.observedAt
  /-- and what was recorded is never replaced by something older. -/
  evidence : ∀ further, Machine.Along World.step (World.OnlyObserved id) w further →
    ∃ r' q', (w.run further).store.runs.get id = some r' ∧ r'.queue = some q' ∧ Evidence q q'
  /-- From the deadline on, observations, renewals and reports are refused, -/
  refused : ∀ now, start ≤ now → ∀ cleanupId (op : RunOp), op.needsStart = true →
    ∃ stop, (Orchestrator.onRun w.store id now cleanupId op).1 = .error stop
  /-- and the claim may be given up. -/
  expires : ∀ now, start ≤ now → ∀ cleanupId, ∃ d r',
    (Orchestrator.onRun w.store id now cleanupId .sweepExpired).1 = .ok d ∧ d.run = some r' ∧
      r'.state = .lost

/-- What a startup observation decides about the stored run. -/
theorem Store.Coherent.onRun_ok {s : Store} (hs : s.Coherent) (hr : s.runs.get id = some r)
    {now : Time} {cleanupId : String} {op : RunOp} {d : Decision}
    (hd : (Orchestrator.onRun s id now cleanupId op).1 = .ok d) :
    ∃ t d₀ eligibility, op.decide now t r eligibility = .ok d₀ := by
  obtain ⟨vt, -, hvt, -⟩ := hs.counted hr
  rw [hs.onRun_outcome hr hvt] at hd
  obtain ⟨d₀, hdecide, -⟩ := bind_eq_ok.1 hd
  exact ⟨_, _, _, hdecide⟩

theorem Starting.bounded (hw : w.Coherent) (hr : w.store.runs.get id = some r)
    (h : Starting input r q start) : StartupBounded input id w q start := by
  have hplaced : (∃ p ∈ q.startupPlacement, p.state = .placed) ↔ q.placed = true := by
    cases hp : q.startupPlacement <;> simp [RunQueue.placed, hp]
  refine ⟨h.claimedAt, h.deadline, fun hwait => h.waiting ?_, fun hp => h.placed (hplaced.1 hp),
    fun hp further hfurther => ?_, fun now cleanupId claimant observation d hd => ?_,
    fun now cleanupId claimant placement d hd => ?_, fun further hfurther => ?_,
    fun now hnow cleanupId op hop => ?_, fun now hnow cleanupId => ?_⟩
  · by_contra hne
    obtain ⟨p, hp, hstate⟩ := hplaced.2 (by simpa using hne)
    cases hstate.symm.trans (hwait p hp)
  · obtain ⟨r', hr', q', start', hstarting, hevidence⟩ := hw.starting_run hr h hfurther
    obtain ⟨hp', hdeadline⟩ := hevidence.fixed (hplaced.1 hp)
    refine ⟨r', q', hr', hstarting.queue, hdeadline.trans h.deadline, ?_⟩
    cases hq' : q'.startupPlacement with
    | none => simp [RunQueue.placed, hq'] at hp'
    | some p => exact ⟨p, rfl, by simpa [RunQueue.placed, hq'] using hp'⟩
  · obtain ⟨t, d₀, eligibility, hdecide⟩ := hw.store.onRun_ok hr hd
    exact (h.observed hdecide).1
  · obtain ⟨t, d₀, eligibility, hdecide⟩ := hw.store.onRun_ok hr hd
    exact (h.placementObserved hdecide).1
  · obtain ⟨r', hr', q', start', hstarting, hevidence⟩ := hw.starting_run hr h hfurther
    exact ⟨r', q', hr', hstarting.queue, hevidence⟩
  · cases hd : (Orchestrator.onRun w.store id now cleanupId op).1 with
    | error stop => exact ⟨stop, rfl⟩
    | ok d =>
      obtain ⟨t, d₀, eligibility, hdecide⟩ := hw.store.onRun_ok hr hd
      exact absurd hdecide (h.refused hnow hop)
  · obtain ⟨vt, -, hvt, -⟩ := hw.store.counted hr
    have hlock : vt.task.activeRunId = some r.runId := by
      rw [hw.store.runKeyed hr]
      exact hw.store.mutex hr hvt h.live
    obtain ⟨d, hd, hrun⟩ := h.expires hnow hlock
    have hsettlement : Settlement (.onRun r.runId now cleanupId .sweepExpired) now r
      (lostRun now r .expiry) := .lose .expiry rfl
    obtain ⟨r', hclean, hattach⟩ :=
      attachCleanup_settlement cleanupId hsettlement h.live h.idle hrun
    refine ⟨{ d with run := some r' }, r', ?_, rfl, hclean.state⟩
    rw [hw.store.onRun_outcome hr hvt]
    exact bind_eq_ok.2 ⟨d, hd, hattach⟩

end System

/-- Startup is bounded: after any claim, whatever is observed of it in whatever order. -/
theorem World.startup_bounded (steps : List Step) (pipelines : List String) (input : ClaimInput)
    (claimed : Run)
    (hclaim : ((World.init.run steps).store.claimQueuedRun pipelines input).1 = some claimed)
    (more : List Step) (hmore : Machine.Along World.step (World.OnlyObserved claimed.runId)
      ((World.init.run steps).step (.claimQueuedRun pipelines input)) more) :
    ∃ r q start,
      (World.init.run (steps ++ .claimQueuedRun pipelines input :: more)).store.runs.get
        claimed.runId = some r ∧ r.queue = some q ∧ isLive r.state = true ∧
      StartupBounded input claimed.runId
        (World.init.run (steps ++ .claimQueuedRun pipelines input :: more)) q start := by
  have hw := World.coherent_run steps
  rw [World.run_append]
  change ∃ r q start, (((World.init.run steps).step (.claimQueuedRun pipelines input)).run
    more).store.runs.get claimed.runId = some r ∧ r.queue = some q ∧ isLive r.state = true ∧
    StartupBounded input claimed.runId
      (((World.init.run steps).step (.claimQueuedRun pipelines input)).run more) q start
  rw [Store.claimQueuedRun_fst, Option.map_eq_some_iff] at hclaim
  obtain ⟨r, hcandidate, rfl⟩ := hclaim
  obtain ⟨-, -, hselected, -⟩ := claimCandidate_eq_some hcandidate
  obtain ⟨hmem, hqueued, -⟩ := mem_pipelineCandidates.1 hselected
  obtain ⟨id, hr⟩ := (OrderedMap.mem_values_iff _ _).1 hmem
  simp only [isQueueAdmissionCandidate, decide_eq_true_eq] at hqueued
  obtain ⟨hlive, hop, -⟩ := hqueued
  have hdeferral : Deferral r := World.deferrals_run steps hr
  obtain ⟨q, hstarting⟩ : ∃ q, Starting input (claimQueuedRun r input) q
      (runStartDeadlineAt input.now) := starting_claim hlive hop (hdeferral.undeferred hop)
  have hclaimed : ((World.init.run steps).step (.claimQueuedRun pipelines input)).store.runs.get
      r.runId = some (claimQueuedRun r input) := by
    simp only [World.step, Store.claimQueuedRun_some hcandidate, OrderedMap.get_set_self]
  have hw' := hw.step (.claimQueuedRun pipelines input)
  obtain ⟨r', hr', q', start', hstarting', -⟩ := hw'.starting_run hclaimed hstarting hmore
  exact ⟨r', q', start', hr', hstarting'.queue, hstarting'.live,
    hstarting'.bounded (hw'.run more) hr'⟩

/-- The executor of the claim. -/
def Sample.executor : ExitClaimant :=
  { subject := "subject", runner := "runner", claimFingerprint := some "token" }

/-- A claim is observed waiting, then placed. -/
def Sample.placements : List Step :=
  [.onRun Sample.runId 60000 "c"
      (.observeStartupPlacement Sample.executor
        { jobUid := "j", observedAt := 59000, placed := false }),
    .onRun Sample.runId 900000 "c"
      (.observeStartupPlacement Sample.executor
        { jobUid := "j", observedAt := 899000, placed := true })]

/-- The claim of a work item, after both observations. -/
theorem World.startup_bounded_placed : ∃ (claimed r : Run) (q : RunQueue) (start : Time),
    (World.init.run ((Sample.claimed "claude").take 2 ++ .claimQueuedRun ["claude"]
      { Sample.claim 2 with placementAware := true } :: Sample.placements)).store.runs.get
        claimed.runId = some r ∧ r.queue = some q ∧ isLive r.state = true ∧
      StartupBounded { Sample.claim 2 with placementAware := true } claimed.runId
        (World.init.run ((Sample.claimed "claude").take 2 ++ .claimQueuedRun ["claude"]
          { Sample.claim 2 with placementAware := true } :: Sample.placements)) q start := by
  have hclaim : ∃ claimed : Run, ((World.init.run ((Sample.claimed "claude").take 2)).store.claimQueuedRun
      ["claude"] { Sample.claim 2 with placementAware := true }).1 = some claimed ∧
      claimed.runId = Sample.runId := by
    refine ⟨_, rfl, ?_⟩
    decide +kernel
  obtain ⟨claimed, hclaimed, hid⟩ := hclaim
  refine ⟨claimed, World.startup_bounded ((Sample.claimed "claude").take 2) ["claude"]
    { Sample.claim 2 with placementAware := true } claimed hclaimed Sample.placements ?_⟩
  rw [hid]
  exact ⟨.inl (by decide), .inl (by decide), trivial⟩

/-- The executor has no inventory. -/
def Sample.unavailable : RunPlacement :=
  { phase := .unavailable, reason := .inventoryUnavailable, observedAt := 59000
    jobCreatedAt := none }

/-- The Job starts, as was seen at the same time. -/
def Sample.bootstrapping : RunPlacement :=
  { Sample.unavailable with phase := .bootstrapping, reason := .scheduled }

/-- A placement that is recorded gives way to another one that is not newer. -/
theorem World.placement_overwritten :
    let w := World.init.run ((Sample.claimed "claude").take 2 ++
      [.claimQueuedRun ["claude"] { Sample.claim 2 with placementAware := true },
        .onRun Sample.runId 60000 "c" (.observePlacement Sample.executor Sample.bootstrapping)])
    (∃ r q, w.store.runs.get Sample.runId = some r ∧ r.queue = some q ∧
        q.placement = some Sample.bootstrapping) ∧
      (∃ d, (Orchestrator.onRun w.store Sample.runId 60001 "c"
        (.observePlacement Sample.executor Sample.unavailable)).1 = .ok d) ∧
      (∃ r q, (w.step (.onRun Sample.runId 60001 "c"
          (.observePlacement Sample.executor Sample.unavailable))).store.runs.get Sample.runId =
            some r ∧ r.queue = some q ∧ q.placement = some Sample.unavailable) ∧
      ¬Sample.bootstrapping.observedAt < Sample.unavailable.observedAt := by
  refine ⟨?_, ?_, ?_, by decide⟩
  · exact ⟨_, _, rfl, rfl, by decide +kernel⟩
  · exact ⟨_, rfl⟩
  · exact ⟨_, _, rfl, rfl, by decide +kernel⟩

end AgentLcars
