import AgentLcars.Coherence
import AgentLcars.Lib.Counting

/-!
# Admission to a worker

Claim selection, the fallback policy and the status projection each compute ceilings, cooldowns and
candidates for themselves.  `Eligible` is what claims and projection both amount to.

* `eligible_pos_iff` and `claimCandidate_isSome` reduce the two sides to it.
* `WithinCeilings`: only a claim adds to the occupancy of a pipeline, and it looks first.
* `World.claims_admitted`: a claim takes a run exactly when the projection shows one, pipelines that
  are named like an inherited property aside (`Overlooked`).
-/

namespace AgentLcars

/-! ### Claims and the projection -/

section Claims

variable {s s' : Store} {pipelines : List String} {now : Time} {pipeline : String}

/-- The pipeline has a candidate that its ceiling and its cooldown let pass. -/
structure Eligible (s : Store) (now : Time) (pipeline : String) : Prop where
  warm : providerIsCoolingDown (s.providerCooldowns.get pipeline) now = false
  below : belowCeiling s.runs.values pipeline = true
  candidate : ∃ r, r ∈ pipelineCandidates s.runs.values (some now) pipeline

/-- A run waits for a pipeline that is named like a property every object inherits. -/
structure Overlooked (s : Store) (now : Time) (pipeline : String) : Prop where
  warm : providerIsCoolingDown (s.providerCooldowns.get pipeline) now = false
  inherited : QUEUE_PIPELINE_MAX_LIVE_CLAIMS pipeline = some .inherited
  candidate : ∃ r, r ∈ pipelineCandidates s.runs.values (some now) pipeline

theorem claimCandidate_eq_some {r : Run} (h : s.claimCandidate pipelines now = some r) :
    r.pipeline ∈ pipelines ∧ Eligible s now r.pipeline ∧
      r ∈ pipelineCandidates s.runs.values (some now) r.pipeline ∧
      selectPriorityQueuedRun (pipelineCandidates s.runs.values (some now) r.pipeline)
        ((s.priorityPositions.get r.pipeline).getD 0) = some r := by
  obtain ⟨hgranted, hbelow, hr, hselect⟩ := selectFairQueuedRun_eq_some h
  simp only [List.mem_filter, decide_eq_true_eq, Bool.not_eq_true] at hgranted
  exact ⟨hgranted.1, ⟨hgranted.2, hbelow, r, hr⟩, hr, hselect⟩

theorem claimCandidate_isSome (hgranted : pipeline ∈ pipelines) (h : Eligible s now pipeline) :
    (s.claimCandidate pipelines now).isSome = true := by
  obtain ⟨r, hr⟩ := h.candidate
  obtain rfl : r.pipeline = pipeline := (mem_pipelineCandidates.1 hr).2.2
  refine selectFairQueuedRun_isSome ?_ h.below hr
  simp only [List.mem_filter, decide_eq_true_eq, Bool.not_eq_true]
  exact ⟨hgranted, h.warm⟩

theorem Store.claimQueuedRun_none {input : ClaimInput}
    (h : s.claimCandidate pipelines input.now = none) :
    s.claimQueuedRun pipelines input = (none, s) := by
  rw [Store.claimQueuedRun, h]

theorem Store.claimQueuedRun_some {input : ClaimInput} {r : Run}
    (h : s.claimCandidate pipelines input.now = some r) :
    s.claimQueuedRun pipelines input = (some (AgentLcars.claimQueuedRun r input),
      { s with
        runs := s.runs.set r.runId (AgentLcars.claimQueuedRun r input)
        priorityPositions := s.priorityPositions.set r.pipeline
          (queuePriorityTurnAfter ((s.priorityPositions.get r.pipeline).getD 0) r.priority) }) := by
  rw [Store.claimQueuedRun, h]

/-- A claim yields its candidate, claimed. -/
theorem Store.claimQueuedRun_fst (s : Store) (pipelines : List String) (input : ClaimInput) :
    (s.claimQueuedRun pipelines input).1 =
      (s.claimCandidate pipelines input.now).map fun r => AgentLcars.claimQueuedRun r input := by
  cases h : s.claimCandidate pipelines input.now with
  | none => rw [s.claimQueuedRun_none h, Option.map_none]
  | some r => rw [s.claimQueuedRun_some h, Option.map_some]

/-- The projection only finds a ceiling reached that keeps claims away; claims stay away from an
inherited property as well. -/
theorem reached_iff {runs : List Run} :
    (QUEUE_PIPELINE_MAX_LIVE_CLAIMS pipeline).any (·.reached (occupancy runs pipeline)) = false ↔
      belowCeiling runs pipeline = true ∨
        QUEUE_PIPELINE_MAX_LIVE_CLAIMS pipeline = some .inherited := by
  unfold belowCeiling
  cases QUEUE_PIPELINE_MAX_LIVE_CLAIMS pipeline with
  | none => simp
  | some ceiling => cases ceiling <;> simp [ClaimCeiling.reached, ClaimCeiling.admits]

/-- The projection counts what a claim would look at, and what it overlooks. -/
theorem eligible_pos_iff :
    0 < (providerQueueAdmissionStatus s.runs.values s.providerCooldowns now pipeline).eligible ↔
      Eligible s now pipeline ∨ Overlooked s now pipeline := by
  have hclaims : ((s.runs.values.filter fun run => run.pipeline = pipeline ∧ isLive run.state).filter
      fun run => run.queueState = some .claimed).length = occupancy s.runs.values pipeline := by
    rw [List.filter_filter, occupancy]
    congr 1
    refine List.filter_congr fun run _ => ?_
    simp only [← Bool.decide_and, decide_eq_decide]
    tauto
  simp only [providerQueueAdmissionStatus, hclaims]
  split_ifs with hblocked
  · refine ⟨fun h => absurd h (Nat.lt_irrefl 0), fun h => ?_⟩
    rcases hblocked with hcooling | hfull
    · rw [h.elim (·.warm) (·.warm)] at hcooling
      cases hcooling
    · rw [reached_iff.2 (h.imp (·.below) (·.inherited))] at hfull
      cases hfull
  · simp only [not_or, Bool.not_eq_true] at hblocked
    rw [List.length_pos_iff_exists_mem]
    constructor
    · rintro ⟨r, hr⟩
      simp only [List.mem_filter, decide_eq_true_eq] at hr
      obtain ⟨⟨⟨hmem, hpipeline, -⟩, -⟩, hcandidate⟩ := hr
      have hwaits : ∃ r, r ∈ pipelineCandidates s.runs.values (some now) pipeline :=
        ⟨r, mem_pipelineCandidates.2 ⟨hmem, hcandidate, hpipeline⟩⟩
      exact (reached_iff.1 hblocked.2).imp (fun hbelow => ⟨hblocked.1, hbelow, hwaits⟩)
        fun hinherited => ⟨hblocked.1, hinherited, hwaits⟩
    · intro h
      obtain ⟨r, hr⟩ := h.elim (·.candidate) (·.candidate)
      obtain ⟨hmem, hcandidate, hpipeline⟩ := mem_pipelineCandidates.1 hr
      have hqueued := hcandidate
      simp only [isQueueAdmissionCandidate, decide_eq_true_eq] at hqueued
      refine ⟨r, ?_⟩
      simp only [List.mem_filter, decide_eq_true_eq]
      exact ⟨⟨⟨hmem, hpipeline, hqueued.1⟩, hqueued.2.2.1⟩, hcandidate⟩

/-! ### Ceilings -/

/-- No pipeline has more live claims than its ceiling. -/
def Store.WithinCeilings (s : Store) : Prop :=
  ∀ pipeline most, QUEUE_PIPELINE_MAX_LIVE_CLAIMS pipeline = some (.most most) →
    occupancy s.runs.values pipeline ≤ most

/-- The run is one of the live claims of the pipeline. -/
structure Occupies (pipeline : String) (r : Run) : Prop where
  pipeline : r.pipeline = pipeline
  claimed : r.queueState = some .claimed
  live : isLive r.state = true

/-- Only a claim turns a run into a live claim. -/
theorem Move.occupies_back {label : Step} {r r' : Run} (h : Move label now r r')
    (hlabel : ∀ pipelines input, label ≠ .claimQueuedRun pipelines input)
    (hocc : Occupies pipeline r') : Occupies pipeline r := by
  refine ⟨(pipeline_of_frozen h.frozen).symm.trans hocc.pipeline, ?_, h.live_of_live hocc.live⟩
  have hclaimed := hocc.claimed
  cases h with
  | claim _ _ _ _ hclaim =>
    obtain ⟨_, rfl⟩ := hclaim
    exact absurd rfl (hlabel _ _)
  | observe _ _ _ hq hc =>
    rw [Run.queueState, hq, Option.map_some, ← hc.state]
    exact hclaimed
  | renewUnqueued => cases hclaimed
  | enqueue => cases hclaimed
  | release => cases hclaimed
  | settle _ _ hs hc =>
    have hlive := hocc.live
    rw [hc.state, hs.terminal] at hlive
    cases hlive
  | complete => cases hocc.live
  | retire _ _ hq => exact hq
  | finish op =>
    have hlive : isLive r.state = true := hocc.live
    simpa [operationFinished, hlive, Run.queueState] using hclaimed
  | _ => exact hclaimed

/-- The ids of the live claims of a pipeline. -/
def occupants (s : Store) (pipeline : String) : List String :=
  (s.runs.values.filter fun run =>
    run.pipeline = pipeline ∧ run.queueState = some .claimed ∧ isLive run.state).map Run.runId

theorem length_occupants (s : Store) (pipeline : String) :
    (occupants s pipeline).length = occupancy s.runs.values pipeline :=
  List.length_map _

theorem mem_occupants (hs : s.Coherent) {id : String} :
    id ∈ occupants s pipeline ↔ ∃ r, s.runs.get id = some r ∧ Occupies pipeline r := by
  rw [occupants, List.mem_map]
  constructor
  · rintro ⟨r, hr, rfl⟩
    rw [List.mem_filter, decide_eq_true_eq] at hr
    obtain ⟨hmem, hpipeline, hclaimed, hlive⟩ := hr
    obtain ⟨id, hget⟩ := (OrderedMap.mem_values_iff _ _).1 hmem
    exact ⟨r, (hs.runKeyed hget).symm ▸ hget, hpipeline, hclaimed, hlive⟩
  · rintro ⟨r, hr, hpipeline, hclaimed, hlive⟩
    refine ⟨r, List.mem_filter.2 ⟨?_, decide_eq_true ⟨hpipeline, hclaimed, hlive⟩⟩, hs.runKeyed hr⟩
    exact (OrderedMap.mem_values_iff _ _).2 ⟨id, hr⟩

/-- Live claims are counted once each. -/
theorem occupancy_le (hs : s.Coherent) (ids : List String)
    (h : ∀ id ∈ occupants s pipeline, id ∈ ids) :
    occupancy s.runs.values pipeline ≤ ids.length := by
  have hkeys := s.runs.nodup_keys fun k r hr => hs.runKeyed hr
  rw [← length_occupants]
  refine Counting.length_le_of_keys id ?_ h
  rw [List.map_id]
  exact hkeys.sublist (List.filter_sublist.map _)

/-- A claim on a full pipeline is never made. -/
theorem Store.WithinCeilings.claim (hceilings : s.WithinCeilings) (hs : s.Coherent)
    {input : ClaimInput} (hs' : (s.claimQueuedRun pipelines input).2.Coherent) :
    (s.claimQueuedRun pipelines input).2.WithinCeilings := by
  cases hcandidate : s.claimCandidate pipelines input.now with
  | none =>
    rw [s.claimQueuedRun_none hcandidate]
    exact hceilings
  | some candidate =>
    intro pipeline ceiling hceiling
    obtain ⟨-, heligible, -, -⟩ := claimCandidate_eq_some hcandidate
    have hnext := s.claimQueuedRun_some hcandidate
    by_cases hpipeline : candidate.pipeline = pipeline
    · -- the ceiling was not reached, and the claim adds its own run only
      have hbelow := heligible.below
      rw [hpipeline, belowCeiling, hceiling, Option.all_some, ClaimCeiling.admits,
        decide_eq_true_eq, ← length_occupants] at hbelow
      refine (occupancy_le hs' (candidate.runId :: occupants s pipeline) ?_).trans hbelow
      intro id hid
      obtain ⟨r, hr, hocc⟩ := (mem_occupants hs').1 hid
      rw [hnext, OrderedMap.get_set] at hr
      split_ifs at hr with hself
      · exact List.mem_cons.2 (.inl hself)
      · exact List.mem_cons.2 (.inr ((mem_occupants hs).2 ⟨r, hr, hocc⟩))
    · refine (occupancy_le hs' (occupants s pipeline) ?_).trans
        ((length_occupants s pipeline).trans_le (hceilings pipeline ceiling hceiling))
      intro id hid
      obtain ⟨r, hr, hocc⟩ := (mem_occupants hs').1 hid
      rw [hnext, OrderedMap.get_set] at hr
      split_ifs at hr
      · obtain rfl := Option.some.inj hr
        exact absurd hocc.pipeline hpipeline
      · exact (mem_occupants hs).2 ⟨r, hr, hocc⟩

/-- Every step respects the ceilings. -/
theorem World.Coherent.withinCeilings {w : World} (hw : w.Coherent) (label : Step)
    (hceilings : w.store.WithinCeilings) : (w.step label).store.WithinCeilings := by
  have hs' := (hw.step label).store
  by_cases hclaim : ∃ pipelines input, label = .claimQueuedRun pipelines input
  · obtain ⟨pipelines, input, rfl⟩ := hclaim
    exact hceilings.claim hw.store hs'
  · intro pipeline ceiling hceiling
    refine (occupancy_le hs' (occupants w.store pipeline) ?_).trans
      ((length_occupants w.store pipeline).trans_le (hceilings pipeline ceiling hceiling))
    intro id hid
    obtain ⟨x, hx, hocc⟩ := (mem_occupants hs').1 hid
    rcases (hw.change label).run_cases hw.store hx with ⟨now, r, hr, hmove⟩ | ⟨-, hfresh⟩
    · have hlabel : ∀ pipelines input, label ≠ .claimQueuedRun pipelines input :=
        fun pipelines input he => hclaim ⟨pipelines, input, he⟩
      exact (mem_occupants hw.store).2 ⟨r, hr, hmove.occupies_back hlabel hocc⟩
    · have hclaimed := hocc.claimed
      rw [Run.queueState, hfresh.queue] at hclaimed
      cases hclaimed

theorem World.withinCeilings_run (steps : List Step) :
    (World.init.run steps).store.WithinCeilings := by
  refine (Machine.invariant_run (fun w : World => w.Coherent ∧ w.store.WithinCeilings) ?_
    ⟨World.coherent_init, fun _ _ _ => Nat.zero_le _⟩ steps).2
  rintro w label ⟨hw, hceilings⟩
  exact ⟨hw.step label, hw.withinCeilings label hceilings⟩

end Claims

/-! ### Agreement -/

/-- A claim takes a run exactly when the projection shows one to it, of the pipeline it shows. -/
structure Agrees (s : Store) (granted shown : List String) (input : ClaimInput) : Prop where
  claims : (s.claimQueuedRun granted input).1.isSome = true ↔
    ∃ provider ∈ (projectQueueAdmissionStatus s.runs.values s.providerCooldowns shown
      input.now).providers, provider.pipeline ∈ granted ∧ 0 < provider.eligible
  shows : ∀ claimed ∈ (s.claimQueuedRun granted input).1, claimed.pipeline ∈ granted ∧
    ∃ provider ∈ (projectQueueAdmissionStatus s.runs.values s.providerCooldowns shown
      input.now).providers, provider.pipeline = claimed.pipeline ∧ 0 < provider.eligible

/-- Live claims stay within the ceilings; a claim takes an eligible run of a granted pipeline that
is not cooling; and claims and projection agree, unless all that waits for a granted pipeline is
what claims overlook. -/
theorem World.claims_admitted (steps : List Step) :
    let s := (World.init.run steps).store
    (∀ pipeline most, QUEUE_PIPELINE_MAX_LIVE_CLAIMS pipeline = some (.most most) →
      occupancy s.runs.values pipeline ≤ most) ∧
    (∀ granted input, ∀ claimed ∈ (s.claimQueuedRun granted input).1,
      ∃ r, s.runs.get claimed.runId = some r ∧ claimed = AgentLcars.claimQueuedRun r input ∧
        isLive r.state = true ∧ r.queueState = some .queued ∧ r.credentialOperation = none ∧
        (∀ q ∈ r.queue, ∀ deferred ∈ q.deferredUntil, deferred ≤ input.now) ∧
        r.pipeline ∈ granted ∧
        providerIsCoolingDown (s.providerCooldowns.get r.pipeline) input.now = false) ∧
    ∀ granted shown input, granted ⊆ shown → (Agrees s granted shown input ↔
      ((∃ pipeline ∈ granted, Overlooked s input.now pipeline) →
        ∃ pipeline ∈ granted, Eligible s input.now pipeline)) := by
  intro s
  have hs : s.Coherent := (World.coherent_run steps).store
  refine ⟨World.withinCeilings_run steps, ?_, ?_⟩
  · intro granted input claimed hclaimed
    rw [Option.mem_def, s.claimQueuedRun_fst, Option.map_eq_some_iff] at hclaimed
    obtain ⟨r, hr, rfl⟩ := hclaimed
    obtain ⟨hgranted, heligible, hmem, -⟩ := claimCandidate_eq_some hr
    obtain ⟨hvalue, hcandidate, -⟩ := mem_pipelineCandidates.1 hmem
    obtain ⟨id, hget⟩ := (OrderedMap.mem_values_iff _ _).1 hvalue
    simp only [isQueueAdmissionCandidate, decide_eq_true_eq] at hcandidate
    obtain ⟨hlive, hop, hqueued, hdeferred⟩ := hcandidate
    refine ⟨r, (hs.runKeyed hget).symm ▸ hget, rfl, hlive, hqueued, hop, ?_, hgranted,
      heligible.warm⟩
    intro q hq deferred hdue
    rw [Option.mem_def.1 hq, Option.bind_some, Option.mem_def.1 hdue] at hdeferred
    simpa using hdeferred
  · intro granted shown input hsub
    have hshown : ∀ pipeline ∈ granted, providerQueueAdmissionStatus s.runs.values
        s.providerCooldowns input.now pipeline ∈ (projectQueueAdmissionStatus s.runs.values
          s.providerCooldowns shown input.now).providers := fun pipeline hpipeline =>
      List.mem_map.2 ⟨pipeline, List.mem_eraseDups.2 (hsub hpipeline), rfl⟩
    have hclaims : (s.claimQueuedRun granted input).1.isSome = true ↔
        ∃ pipeline ∈ granted, Eligible s input.now pipeline := by
      rw [s.claimQueuedRun_fst, Option.isSome_map]
      constructor
      · intro hsome
        obtain ⟨r, hr⟩ := Option.isSome_iff_exists.1 hsome
        exact ⟨_, (claimCandidate_eq_some hr).1, (claimCandidate_eq_some hr).2.1⟩
      · rintro ⟨pipeline, hgranted, heligible⟩
        exact claimCandidate_isSome hgranted heligible
    constructor
    · rintro ⟨hagree, -⟩ ⟨pipeline, hgranted, hoverlooked⟩
      exact hclaims.1 (hagree.2 ⟨_, hshown _ hgranted, hgranted, eligible_pos_iff.2 (.inr hoverlooked)⟩)
    · intro hcond
      refine ⟨hclaims.trans ⟨?_, ?_⟩, ?_⟩
      · rintro ⟨pipeline, hgranted, heligible⟩
        exact ⟨_, hshown _ hgranted, hgranted, eligible_pos_iff.2 (.inl heligible)⟩
      · rintro ⟨provider, hprovider, hgranted, hpos⟩
        obtain ⟨pipeline, -, rfl⟩ := List.mem_map.1 hprovider
        rcases eligible_pos_iff.1 hpos with heligible | hoverlooked
        · exact ⟨pipeline, hgranted, heligible⟩
        · exact hcond ⟨pipeline, hgranted, hoverlooked⟩
      · intro claimed hclaimed
        rw [s.claimQueuedRun_fst, Option.mem_def, Option.map_eq_some_iff] at hclaimed
        obtain ⟨r, hr, rfl⟩ := hclaimed
        obtain ⟨hgranted, heligible, -⟩ := claimCandidate_eq_some hr
        exact ⟨hgranted, _, hshown _ hgranted, rfl, eligible_pos_iff.2 (.inl heligible)⟩

/-- A run is queued for a pipeline. -/
def Sample.queued (pipeline : String) : List Step := (Sample.claimed pipeline).take 2

/-- A queued run of a capped pipeline is claimed, and the projection shows it. -/
theorem World.claims_admitted_codex :
    let s := (World.init.run (Sample.queued "codex")).store
    (s.claimQueuedRun ["codex"] (Sample.claim 2)).1.isSome = true ∧
      Agrees s ["codex"] ["claude", "codex"] (Sample.claim 2) ∧
      occupancy ((World.init.run (Sample.claimed "codex")).store.runs.values) "codex" ≤ 1 := by
  intro s
  have hclaimed : (s.claimQueuedRun ["codex"] (Sample.claim 2)).1.isSome = true := by
    decide +kernel
  obtain ⟨-, -, hagrees⟩ := World.claims_admitted (Sample.queued "codex")
  have hceiling := (World.claims_admitted (Sample.claimed "codex")).1 "codex" 1 (by decide)
  refine ⟨hclaimed, (hagrees ["codex"] ["claude", "codex"] (Sample.claim 2) (by simp)).2 ?_,
    hceiling⟩
  rintro ⟨pipeline, hpipeline, -, hinherited, -⟩
  obtain rfl := List.mem_singleton.1 hpipeline
  exact absurd hinherited (by decide)

/-- What waits for a pipeline named `constructor` is shown and never claimed. -/
theorem World.inherited_pipeline_overlooked :
    let s := (World.init.run (Sample.queued "constructor")).store
    (s.claimQueuedRun ["constructor"] (Sample.claim 2)).1 = none ∧
      (projectQueueAdmissionStatus s.runs.values s.providerCooldowns ["constructor"]
        2).providers.map (·.eligible) = [1] ∧
      ¬Agrees s ["constructor"] ["constructor"] (Sample.claim 2) := by
  intro s
  have hnone : (s.claimQueuedRun ["constructor"] (Sample.claim 2)).1 = none := by decide +kernel
  have hshown : ∃ provider ∈ (projectQueueAdmissionStatus s.runs.values s.providerCooldowns
      ["constructor"] (Sample.claim 2).now).providers,
      provider.pipeline ∈ ["constructor"] ∧ 0 < provider.eligible := by decide +kernel
  refine ⟨hnone, by decide +kernel, fun h => ?_⟩
  have hsome := h.claims.2 hshown
  rw [hnone] at hsome
  cases hsome

end AgentLcars
