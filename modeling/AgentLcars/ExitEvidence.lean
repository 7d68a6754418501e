import AgentLcars.CredentialFence

/-!
# Physical-exit evidence

An accepted exit report proves that the worker of a run is gone.  The claim of the run records it:
at once, or through the cleanup of its credentials, which finds the report in the event log.

* `OwnExit` is a report by the claimant of the run, `World.acceptedExits` lists the accepted ones.
* `ExitKept` is what the run shows of it from then on; every move keeps it.
* `ExitQuiet` is what every other step may do: it neither retires the claim nor logs an exit.
* `World.exit_evidence` puts them together for every run of the system.
-/

namespace AgentLcars

/-! ### Reports and what they leave -/

/-- The report names the claim of the run. -/
structure OwnExit (r : Run) (claimant : ExitClaimant) : Prop where
  subject : r.queue.bind (·.claimedBySubject) = some claimant.subject
  runner : r.queue.bind (·.claimedBy) = some claimant.runner
  fingerprint : ∀ f ∈ claimant.claimFingerprint, r.tokenHash = some f

/-- A settled run whose claim is retired, or whose cleanup will retire it. -/
inductive ExitKept (r : Run) : Prop where
  | codex (h : r.pipeline = "codex")
  | retired (hterminal : isLive r.state = false) (h : r.queueState = some .retired)
  | owed (op : CredentialOperation) (hterminal : isLive r.state = false)
      (hgoose : r.pipeline = "goose") (hclaimed : r.queueState = some .claimed)
      (hop : r.credentialOperation = some op) (hkind : op.kind = .cleanup)
      (hproof : exitProven r = true)

/-- The claim is not retired and no exit is logged, unless the log had one already. -/
structure ExitQuiet (r r' : Run) : Prop where
  events : ∀ e ∈ r'.events, e.by_ = .executor → e ∈ r.events
  retired : r'.queueState = some .retired →
    r.queueState = some .retired ∨ (isLive r.state = false ∧ exitProven r = true)

/-- The exit report a step has accepted. -/
def World.acceptedExit (w : World) : Step → Option (String × ExitClaimant)
  | .onRun runId now cleanupId (.executorExited claimant) =>
    if (w.decision (.onRun runId now cleanupId (.executorExited claimant))).isSome then
      some (runId, claimant) else none
  | _ => none

/-- The exit reports a run of the system has accepted. -/
def World.acceptedExits (steps : List Step) : List (String × ExitClaimant) :=
  Machine.events World.step World.acceptedExit World.init steps

section Moves

variable {label : Step} {now : Time} {t : Task} {r r' : Run} {claimant : ExitClaimant}
  {d : Decision}

theorem exitProven_congr (hevents : r'.events = r.events) (hstate : r'.state = r.state) :
    exitProven r' = exitProven r := by
  rw [exitProven, exitProven, hevents, hstate]

theorem retire_queueState {queue : RunQueue} (h : r.queue = some queue) :
    (r.queue.map (·.retire)).map (·.state) = some .retired := by
  rw [h]
  rfl

theorem isExitClaimant_own (h : isExitClaimant r claimant = true) : OwnExit r claimant := by
  unfold isExitClaimant at h
  split at h
  · cases h
  · rename_i queue hqueue
    obtain ⟨-, hsubject, hrunner, hfingerprint, -⟩ := of_decide_eq_true h
    refine ⟨by simp [hqueue, hsubject], by simp [hqueue, hrunner], fun f hf => ?_⟩
    rcases hfingerprint with hnone | hhash
    · rw [Option.mem_def, hnone] at hf
      cases hf
    · rw [Run.tokenHash, hqueue, Option.bind_some, hhash]
      exact hf

/-- A claim that stays or retires is still its claimant's. -/
theorem OwnExit.kept (h : OwnExit r claimant)
    (hqueue : r'.queue = r.queue ∨ r'.queue = r.queue.map (·.retire)) : OwnExit r' claimant := by
  obtain ⟨hsubject, hrunner, hfingerprint⟩ := h
  rcases hqueue with hqueue | hqueue
  · refine ⟨hqueue ▸ hsubject, hqueue ▸ hrunner, fun f hf => ?_⟩
    rw [Run.tokenHash, hqueue]
    exact hfingerprint f hf
  · obtain ⟨queue, hq, hsubject⟩ := Option.bind_eq_some_iff.1 hsubject
    simp only [Run.tokenHash, hq, Option.bind_some, Option.map_some] at hrunner hfingerprint hqueue
    refine ⟨?_, ?_, fun f hf => ?_⟩
    · rw [hqueue]
      exact hsubject
    · rw [hqueue]
      exact hrunner
    · rw [Run.tokenHash, hqueue]
      exact hfingerprint f hf

/-- A settled run keeps its claim record or retires it. -/
theorem Move.terminal_queue (hmove : Move label now r r') (hterminal : isLive r.state = false)
    (hqueue : r.queue.isSome = true) :
    r'.queue = r.queue ∨ r'.queue = r.queue.map (·.retire) := by
  have hne : ¬isLive r.state = true := by simp [hterminal]
  cases hmove with
  | observe _ _ h => exact absurd h hne
  | renewUnqueued h => exact absurd h hne
  | enqueue hnone => simp [hnone] at hqueue
  | claim _ h => exact absurd h hne
  | release _ _ _ h => exact absurd h hne
  | settle h => exact absurd h hne
  | complete _ _ _ _ h => exact absurd h hne
  | retire => exact .inr rfl
  | finish op restored => exact operationFinished_queue r op restored op.claimFingerprint
  | _ => exact .inl rfl

/-- A cleanup that finds the exit in the log retires the claim. -/
theorem operationFinished_retires {op : CredentialOperation} (restored : Bool) (f : String)
    (hkind : op.kind = .cleanup) (hgoose : r.pipeline = "goose")
    (hterminal : isLive r.state = false) (hproof : exitProven r = true)
    (hclaimed : r.queueState = some .claimed) :
    (operationFinished r op restored f).queueState = some .retired := by
  obtain ⟨queue, hqueue, -⟩ := Option.map_eq_some_iff.1 hclaimed
  have hretired : (operationFinished r op restored f).queue = r.queue.map (·.retire) :=
    if_pos ⟨hkind, hgoose, by simp [hterminal], hproof, hclaimed⟩
  rw [Run.queueState, hretired]
  exact retire_queueState hqueue

/-- A cleanup retires a claim only on the word of the log. -/
theorem operationFinished_retired {op : CredentialOperation} (restored : Bool) (f : String)
    (h : (operationFinished r op restored f).queueState = some .retired) :
    r.queueState = some .retired ∨ (isLive r.state = false ∧ exitProven r = true) := by
  by_cases hretires : op.kind = .cleanup ∧ r.pipeline = "goose" ∧ ¬isLive r.state ∧
      exitProven r ∧ r.queueState = some .claimed
  · exact .inr ⟨by simpa using hretires.2.2.1, hretires.2.2.2.1⟩
  · have hsame : (operationFinished r op restored f).queue = r.queue := if_neg hretires
    rw [Run.queueState, hsame] at h
    exact .inl h

/-- Every move keeps the evidence. -/
theorem Move.exitKept (hmove : Move label now r r')
    (hfenced : ∀ op, r.credentialOperation = some op → Fenced r op) (h : ExitKept r) :
    ExitKept r' := by
  have hkept : ∀ {r'' : Run}, r''.state = r.state → r''.pipeline = r.pipeline →
      r''.queue = r.queue → r''.events = r.events →
      (∀ op, r.credentialOperation = some op →
        ∃ op', r''.credentialOperation = some op' ∧ op'.kind = op.kind) → ExitKept r'' := by
    intro r'' hstate hpipeline hqueue hevents hop'
    have hqueueState : r''.queueState = r.queueState := by rw [Run.queueState, hqueue]; rfl
    cases h with
    | codex h => exact .codex (hpipeline.trans h)
    | retired hterminal h => exact .retired (hstate ▸ hterminal) (hqueueState.trans h)
    | owed op hterminal hgoose hclaimed hop hkind hproof =>
      obtain ⟨op', hop', hkind'⟩ := hop' op hop
      exact .owed op' (hstate ▸ hterminal) (hpipeline.trans hgoose) (hqueueState.trans hclaimed)
        hop' (hkind'.trans hkind) ((exitProven_congr hevents hstate).trans hproof)
  have hcodex : r.pipeline = "codex" → ExitKept r' := fun h =>
    .codex ((pipeline_of_frozen hmove.frozen).trans h)
  have hlive : isLive r.state = true → ExitKept r' := by
    intro hlive
    cases h with
    | codex h => exact hcodex h
    | retired hterminal => exact absurd hlive (by simp [hterminal])
    | owed _ hterminal => exact absurd hlive (by simp [hterminal])
  have hclaims : ∀ op, r.credentialOperation = some op → r.queueState = some .claimed :=
    fun op hop => (hfenced op hop).claimed
  cases hmove with
  | same => exact h
  | confirm hp => exact hlive (by rw [hp]; rfl)
  | observe _ _ h => exact hlive h
  | renewUnqueued h => exact hlive h
  | enqueue hnone =>
    cases h with
    | codex h => exact hcodex h
    | retired _ h => simp [Run.queueState, hnone] at h
    | owed _ _ _ h => simp [Run.queueState, hnone] at h
  | claim _ h => exact hlive h
  | release _ _ _ h => exact hlive h
  | defer _ _ _ _ h => exact hlive h
  | settle h => exact hlive h
  | complete _ _ _ _ h => exact hlive h
  | retire hterminal hnone hq hp hlabel =>
    obtain ⟨queue, hqueue, -⟩ := Option.map_eq_some_iff.1 hq
    exact .retired hterminal (retire_queueState hqueue)
  | receipt hterminal =>
    cases h with
    | codex h => exact hcodex h
    | retired _ h => exact .retired hterminal h
    | owed op _ hgoose hclaimed hop hkind _ =>
      exact .owed op hterminal hgoose hclaimed hop hkind (by simp [exitProven])
  | reserve _ _ _ hnone _ hclaim =>
    cases h with
    | codex h => exact hcodex h
    | retired _ h => simp [isClaimant, h] at hclaim
    | owed op _ _ _ hop => simp [hnone] at hop
  | prepare op _ hop =>
    refine hkept rfl rfl rfl rfl fun op' hop' => ⟨_, rfl, ?_⟩
    obtain rfl : op = op' := Option.some.inj (hop.symm.trans hop')
    rfl
  | acknowledge op _ _ hop =>
    refine hkept rfl rfl rfl rfl fun op' hop' => ⟨_, rfl, ?_⟩
    obtain rfl : op = op' := Option.some.inj (hop.symm.trans hop')
    rfl
  | retryRecovery op hop =>
    refine hkept rfl rfl rfl rfl fun op' hop' => ⟨_, rfl, ?_⟩
    obtain rfl : op = op' := Option.some.inj (hop.symm.trans hop')
    rfl
  | finish op restored _ hop =>
    cases h with
    | codex h => exact hcodex h
    | retired _ h => simp [hclaims op hop] at h
    | owed op' hterminal hgoose hclaimed hop' hkind hproof =>
      obtain rfl : op = op' := Option.some.inj (hop.symm.trans hop')
      exact .retired hterminal
        (operationFinished_retires restored op.claimFingerprint hkind hgoose hterminal hproof
          hclaimed)
  | deliver => exact hkept rfl rfl rfl rfl fun op hop => ⟨op, hop, rfl⟩
  | publish => exact hkept rfl rfl rfl rfl fun op hop => ⟨op, hop, rfl⟩

/-! ### Moves of other steps -/

theorem ExitQuiet.refl (r : Run) : ExitQuiet r r := ⟨fun _ he _ => he, .inl⟩

theorem ExitQuiet.of_kept (hevents : r'.events = r.events) (hqueue : r'.queue = r.queue) :
    ExitQuiet r r' := by
  refine ⟨fun e he _ => hevents ▸ he, fun h => .inl ?_⟩
  rwa [Run.queueState, hqueue] at h

/-- A settlement by anyone but the executor. -/
theorem ExitQuiet.of_settlement {e : RunEvent} {s : Run} {given : Option String} (hclean : Cleaned given r s r')
    (hqueue : s.queue = r.queue) (hevents : s.events = r.events ++ [e])
    (hby : e.by_ ≠ .executor) : ExitQuiet r r' := by
  refine ⟨fun x hx hxby => ?_, fun h => .inl ?_⟩
  · have hcleaned : r'.events = s.events := by cases hclean <;> rfl
    rw [hcleaned, hevents, List.mem_append, List.mem_singleton] at hx
    rcases hx with hx | rfl
    · exact hx
    · exact absurd hxby hby
  · rwa [Run.queueState, hclean.queue, hqueue] at h

/-- A step that neither loses runs nor reports an exit leaves no evidence. -/
theorem Move.exitQuiet (hmove : Move label now r r') (hexit : label.exitOf = none)
    (hloses : label.loses = false) : ExitQuiet r r' := by
  have hne : ∀ id, label.exitOf ≠ some id := fun id h => by simp [hexit] at h
  cases hmove with
  | confirm =>
    refine ⟨fun e he hby => ?_, .inl⟩
    rcases List.mem_append.1 he with he | he
    · exact he
    · obtain rfl := List.mem_singleton.1 he
      cases hby
  | @observe q q' _ _ _ hq hc =>
    refine ⟨fun e he _ => he, fun h => .inl ?_⟩
    have hstate : q'.state = .retired := Option.some.inj h
    rw [Run.queueState, hq, Option.map_some, ← hc.state, hstate]
  | renewUnqueued => exact ⟨fun e he _ => he, fun h => by cases h⟩
  | enqueue => exact ⟨fun e he _ => he, fun h => by cases h⟩
  | claim => exact ⟨fun e he _ => he, fun h => by cases h⟩
  | release => exact ⟨fun e he _ => he, fun h => by cases h⟩
  | settle _ _ hs hc =>
    cases hs with
    | report => exact .of_settlement hc rfl rfl (by simp)
    | cancel => exact .of_settlement hc rfl rfl (by simp)
    | reroute => exact .of_settlement hc rfl rfl (by simp)
    | lose cause hlabel => rw [hloses] at hlabel; cases hlabel
  | complete op pending task restored hlive =>
    refine ⟨fun e he hby => ?_, fun h => ?_⟩
    · rcases List.mem_append.1 he with he | he
      · exact he
      · obtain rfl := List.mem_singleton.1 he
        cases hby
    · exact operationFinished_retired restored op.claimFingerprint h
  | retire _ _ _ _ hlabel => exact absurd hlabel (hne _)
  | receipt _ _ _ _ _ hlabel => exact absurd hlabel (hne _)
  | finish op restored => exact ⟨fun e he _ => he, operationFinished_retired restored op.claimFingerprint⟩
  | _ => exact .of_kept rfl rfl

/-! ### Accepted reports -/

/-- What an accepted exit report leaves on its run. -/
structure ExitAccepted (r : Run) (claimant : ExitClaimant) : Prop where
  own : OwnExit r claimant
  terminal : isLive r.state = false
  kept : ExitKept r

theorem executorLoss_own {claimant : ExitClaimant} (h : executorLoss now t r claimant = .ok d ∨
    refusalReason (executorLoss now t r claimant) = some .runNotLive) : OwnExit r claimant := by
  by_cases hown : isExitClaimant r claimant = true
  · exact isExitClaimant_own hown
  · exfalso
    unfold executorLoss at h
    rw [if_pos hown] at h
    rcases h with h | h
    · exact refused_ne_ok h
    · simp [refusalReason, refused] at h

/-- The pipelines whose claims retire and which use shared credentials. -/
theorem goose_of_usesCodexCredentials (hcodex : usesCodexCredentials r = true)
    (hretires : retiresOnExit r = true) : r.pipeline = "goose" := by
  simp only [usesCodexCredentials, retiresOnExit, decide_eq_true_eq] at hcodex hretires
  exact (hcodex.resolve_left hretires).1

/-- The settlement by an exit report retires the claim, or leaves a cleanup that will. -/
theorem lostRun_accepted (h : isExitClaimant r claimant = true)
    (htoken : r.queueState = some .claimed → r.tokenHash.isSome = true)
    (hlive : isLive r.state = true) {given : Option String}
    (hclean : Cleaned given r (lostRun now r .executor) r') :
    ExitAccepted r' claimant := by
  have hown := isExitClaimant_own h
  have hclaimed : r.queueState = some .claimed := by
    unfold isExitClaimant at h
    split at h
    · cases h
    · rename_i queue hqueue
      have hstate := (of_decide_eq_true h).1
      simp only [hlive, not_true, and_false, or_false] at hstate
      simp [Run.queueState, hqueue, hstate]
  have hterminal : isLive r'.state = false := by
    rw [hclean.state]
    rfl
  have hpipeline : r'.pipeline = r.pipeline := pipeline_of_frozen hclean.frozen
  obtain ⟨queue, hqueue, -⟩ := Option.map_eq_some_iff.1 hclaimed
  by_cases hretires : retiresOnExit r = true
  · by_cases hcodex : usesCodexCredentials r = true
    · have hkeeps : (lostRun now r .executor).queue = r.queue :=
        if_neg fun h => h.2.2 hcodex
      refine ⟨hown.kept (.inl (hclean.queue.trans hkeeps)), hterminal, ?_⟩
      cases hclean with
      | owed tokenHash cleanupId howes htoken =>
        refine .owed _ hterminal (goose_of_usesCodexCredentials hcodex hretires) ?_ rfl rfl ?_
        · show (lostRun now r .executor).queue.map (·.state) = _
          rw [hkeeps]
          exact hclaimed
        · simp [exitProven, cleanedRun, lostRun, LossCause.source]
      | free hfree =>
        have howes : owesCleanup r = true := decide_eq_true ⟨hcodex, hclaimed, htoken hclaimed⟩
        rw [howes] at hfree
        cases hfree
    · have hretired : (lostRun now r .executor).queue = r.queue.map (·.retire) :=
        if_pos ⟨rfl, hretires, hcodex⟩
      refine ⟨hown.kept (.inr (hclean.queue.trans hretired)), hterminal, .retired hterminal ?_⟩
      rw [Run.queueState, hclean.queue, hretired]
      exact retire_queueState hqueue
  · have hkeeps : (lostRun now r .executor).queue = r.queue := if_neg fun h => hretires h.2.1
    refine ⟨hown.kept (.inl (hclean.queue.trans hkeeps)), hterminal, .codex ?_⟩
    rw [hpipeline]
    simpa [retiresOnExit] using hretires

/-- The exit report of a settled run retires its claim, or leaves its receipt for the cleanup. -/
theorem retireSettledClaim_accepted (hown : OwnExit r claimant)
    (hterminal : isLive r.state = false) (hclaimed : r.queueState = some .claimed)
    (hdebt : ∀ op, r.credentialOperation = some op → op.kind = .cleanup)
    (h : retireSettledClaim now t r = .ok d) :
    ∃ s, d.run = some s ∧ s.runId = r.runId ∧ ExitAccepted s claimant := by
  unfold retireSettledClaim at h
  split at h
  · exact absurd h refused_ne_ok
  rename_i queue hqueue
  rw [ite_refused_eq_ok] at h
  obtain ⟨hretires, h⟩ := h
  split at h
  · rename_i hop
    obtain ⟨op, hop⟩ := Option.isSome_iff_exists.1 hop
    rw [ite_refused_eq_ok] at h
    obtain ⟨hcodex, h⟩ := h
    have hgoose := goose_of_usesCodexCredentials (not_not.1 hcodex) (not_not.1 hretires)
    obtain rfl := Except.ok.inj h
    refine ⟨_, rfl, ?_⟩
    split
    · rename_i hobserved
      refine ⟨rfl, hown, hterminal, .owed op hterminal hgoose hclaimed hop (hdebt op hop) ?_⟩
      obtain ⟨e, he, hreceipt⟩ := (Option.any_eq_true _ _).1 hobserved
      obtain ⟨hnote, hby⟩ := of_decide_eq_true hreceipt
      exact (Option.any_eq_true _ _).2 ⟨e, he, decide_eq_true ⟨hby, .inr hnote⟩⟩
    · refine ⟨rfl, hown.kept (.inl rfl), hterminal,
        .owed op hterminal hgoose hclaimed hop (hdebt op hop) ?_⟩
      simp [exitProven]
  · obtain rfl := Except.ok.inj h
    refine ⟨_, rfl, rfl, hown.kept (.inr ?_), hterminal, .retired hterminal rfl⟩
    show some queue.retire = r.queue.map (·.retire)
    rw [hqueue]
    rfl

/-- A settled run owes nothing but a cleanup. -/
theorem Move.cleanup_only (hmove : Move label now r r')
    (hfenced : ∀ op, r.credentialOperation = some op → Fenced r op)
    (h : isLive r.state = false → ∀ op, r.credentialOperation = some op → op.kind = .cleanup)
    (hterminal : isLive r'.state = false) {op : CredentialOperation}
    (hop : r'.credentialOperation = some op) : op.kind = .cleanup := by
  cases hmove with
  | settle hlive hfree hs hc =>
    cases hc with
    | owed => obtain rfl := Option.some.inj hop; rfl
    | free =>
      rw [hs.credentialOperation] at hop
      rcases hfree with hnone | hunclaimed
      · simp [hnone] at hop
      · exact absurd (hfenced op hop).claimed hunclaimed
  | confirm => cases hterminal
  | complete => cases hop
  | reserve f id kind _ _ _ hkind =>
    obtain rfl := Option.some.inj hop
    by_contra hne
    rw [hkind hne] at hterminal
    cases hterminal
  | prepare op' _ hop' => obtain rfl := Option.some.inj hop; exact h hterminal op' hop'
  | acknowledge op' _ _ hop' => obtain rfl := Option.some.inj hop; exact h hterminal op' hop'
  | retryRecovery op' hop' => obtain rfl := Option.some.inj hop; exact h hterminal op' hop'
  | finish => cases hop
  | _ => exact h hterminal op hop

theorem operationFinished_codex (hp : r.pipeline = "codex") (op : CredentialOperation)
    (restored : Bool) (f : String) : (operationFinished r op restored f).queue = r.queue :=
  if_neg fun h => by simp [hp] at h

/-- A codex claim outlives its settlement and its cleanup. -/
theorem Move.codex_unretired (hmove : Move label now r r') (hp : r.pipeline = "codex")
    (h : r.queueState ≠ some .retired) : r'.queueState ≠ some .retired := by
  have hkept : r'.queue = r.queue → r'.queueState ≠ some .retired := fun hqueue => by
    rwa [Run.queueState, hqueue]
  cases hmove with
  | @observe q q' _ _ _ hq hc =>
    intro hretired
    have hstate : q'.state = .retired := Option.some.inj hretired
    apply h
    rw [Run.queueState, hq, Option.map_some, ← hc.state, hstate]
  | renewUnqueued => intro h; cases h
  | enqueue => intro h; cases h
  | claim => intro h; cases h
  | release => intro h; cases h
  | settle _ _ hs hc =>
    refine hkept (hc.queue.trans ?_)
    cases hs with
    | lose cause =>
      exact if_neg fun h => by simp [retiresOnExit, hp] at h
    | _ => rfl
  | complete op _ _ restored =>
    exact hkept (operationFinished_codex hp op restored op.claimFingerprint)
  | retire _ _ _ hretires => simp [retiresOnExit, hp] at hretires
  | finish op restored => exact hkept (operationFinished_codex hp op restored op.claimFingerprint)
  | _ => exact hkept rfl

end Moves

/-! ### Steps of the system -/

/-- Every settled run owes nothing but a cleanup. -/
def CleanupOnly (s : Store) : Prop :=
  ∀ {id r op}, s.runs.get id = some r → isLive r.state = false → r.credentialOperation = some op →
    op.kind = .cleanup

theorem World.cleanupOnly_run (steps : List Step) :
    CleanupOnly (World.init.run steps).store := by
  refine (World.invariant_run (fun s => Fences s ∧ CleanupOnly s)
    ⟨⟨fun h => (by cases h), fun h => (by cases h)⟩, fun h => (by cases h)⟩ ?_ steps).2
  rintro label s s' hs hchange ⟨hfences, hinv⟩
  refine ⟨hchange.fences hs hfences, fun {id x op} hx hterminal hop => ?_⟩
  rcases hchange.run_cases hs hx with ⟨now, r, hr, hmove⟩ | ⟨-, hfresh⟩
  · exact hmove.cleanup_only (fun _ => hfences.fenced hr) (fun hdead _ => hinv hr hdead) hterminal hop
  · rw [hfresh.credentialOperation] at hop
    cases hop

section Steps

variable {w : World} {id : String} {r : Run}

/-- An accepted exit report is on record at once. -/
theorem World.acceptedExit_kept (hw : w.Coherent) (hfences : Fences w.store)
    (hdebt : CleanupOnly w.store) {now : Time} {cleanupId : String} {claimant : ExitClaimant}
    {d : Decision} (hd : w.decision (.onRun id now cleanupId (.executorExited claimant)) = some d) :
    ∃ r', (w.step (.onRun id now cleanupId (.executorExited claimant))).store.runs.get id = some r' ∧
      ExitAccepted r' claimant := by
  obtain ⟨vt, r, d₀, hr, hvt, hdecide, hattach, -⟩ := hw.onRun_decided hd
  have hid : r.runId = id := hw.store.runKeyed hr
  have hstored : ∀ s, d.run = some s → s.runId = r.runId →
      (w.step (.onRun id now cleanupId (.executorExited claimant))).store.runs.get id = some s := by
    intro s hs hsid
    have := (hw.stored hd).1 s (by simp [Decision.writes, hs])
    rwa [hsid, hid] at this
  simp only [RunOp.decide, executorExitedAndRetry] at hdecide
  split_ifs at hdecide with hretire
  · have hterminal := executorLoss_notLive hretire.1
    obtain ⟨s, hs, hsid, haccepted⟩ := retireSettledClaim_accepted
      (executorLoss_own (d := d₀) (.inr hretire.1)) hterminal hretire.2
      (fun op hop => hdebt hr hterminal hop) hdecide
    rw [attachCleanup_same fun _ _ => .inl hterminal] at hattach
    obtain rfl := Except.ok.inj hattach
    exact ⟨s, hstored s hs hsid, haccepted⟩
  · obtain ⟨lost, hlost, -⟩ := bind_eq_ok.1 hdecide
    have hclaimant : isExitClaimant r claimant = true := by
      by_contra hne
      unfold executorLoss at hlost
      rw [if_pos hne] at hlost
      exact refused_ne_ok hlost
    obtain ⟨hlive, -, hop, rfl⟩ := executorLoss_ok hlost
    rw [hlost] at hdecide
    have hrun := settleLostAndRetry_run rfl hdecide
    have hs : Settlement (.onRun id now cleanupId (.executorExited claimant)) now r
        (lostRun now r .executor) := .lose .executor rfl
    obtain ⟨r', hclean, hattach'⟩ := attachCleanup_settlement cleanupId hs hlive hop hrun
    obtain rfl := Except.ok.inj (hattach'.symm.trans hattach)
    refine ⟨r', hstored r' rfl (runId_of_frozen hclean.frozen), ?_⟩
    exact lostRun_accepted hclaimant (hfences.token hr) hlive hclean

/-- An accepted sweep gives the run up as expired. -/
theorem World.swept_lost (hw : w.Coherent) {now : Time} {cleanupId : String} {d : Decision}
    (hr : w.store.runs.get id = some r)
    (hd : w.decision (.onRun id now cleanupId .sweepExpired) = some d) :
    ∃ r', (w.step (.onRun id now cleanupId .sweepExpired)).store.runs.get id = some r' ∧
      Cleaned (some cleanupId) r (lostRun now r .expiry) r' := by
  obtain ⟨vt, q, d₀, hq, hvt, hdecide, hattach, -⟩ := hw.onRun_decided hd
  obtain rfl : q = r := Option.some.inj (hq.symm.trans hr)
  have hid : q.runId = id := hw.store.runKeyed hr
  simp only [RunOp.decide, expireLeaseAndRetry] at hdecide
  obtain ⟨lost, hlost, -⟩ := bind_eq_ok.1 hdecide
  obtain ⟨hlive, -, -, hop, rfl⟩ := expireLeaseLoss_ok hlost
  rw [hlost] at hdecide
  have hs : Settlement (.onRun id now cleanupId .sweepExpired) now q (lostRun now q .expiry) :=
    .lose .expiry rfl
  obtain ⟨r', hclean, hattach'⟩ := attachCleanup_settlement cleanupId hs hlive hop
    (settleLostAndRetry_run rfl hdecide)
  obtain rfl := Except.ok.inj (hattach'.symm.trans hattach)
  have hstored := (hw.stored hd).1 r' (by simp [Decision.writes])
  have hsame : r'.runId = id := (runId_of_frozen hclean.frozen).trans hid
  exact ⟨r', hsame ▸ hstored, hclean⟩

/-- A step reports the exit of the run, or leaves no evidence of one. -/
theorem World.exit_step (hw : w.Coherent) (hfences : Fences w.store) (hdebt : CleanupOnly w.store)
    (label : Step) (hr : w.store.runs.get id = some r) :
    ∃ r', (w.step label).store.runs.get id = some r' ∧
      ((∃ claimant, w.acceptedExit label = some (id, claimant) ∧ ExitAccepted r' claimant) ∨
        ExitQuiet r r') := by
  have hbeside : ∀ {runId now cleanupId op}, runId ≠ id →
      label = .onRun runId now cleanupId op → ∃ r', (w.step label).store.runs.get id = some r' ∧
        ((∃ claimant, w.acceptedExit label = some (id, claimant) ∧ ExitAccepted r' claimant) ∨
          ExitQuiet r r') := by
    rintro runId now cleanupId op hne rfl
    exact ⟨r, hw.onRun_beside hr hne, .inr (.refl r)⟩
  have hquiet : label.exitOf = none → label.loses = false →
      ∃ r', (w.step label).store.runs.get id = some r' ∧
        ((∃ claimant, w.acceptedExit label = some (id, claimant) ∧ ExitAccepted r' claimant) ∨
          ExitQuiet r r') := by
    intro hexit hloses
    obtain ⟨now, r', hr', hmove⟩ := (hw.change label).run_moves hw.store hr
    exact ⟨r', hr', .inr (hmove.exitQuiet hexit hloses)⟩
  cases label with
  | onRun runId now cleanupId op =>
    by_cases hid : runId = id
    · subst hid
      cases op with
      | executorExited claimant =>
        cases hd : w.decision (.onRun runId now cleanupId (.executorExited claimant)) with
        | none =>
          rw [World.onRun_refused hd]
          exact ⟨r, hr, .inr (.refl r)⟩
        | some d =>
          obtain ⟨r', hr', haccepted⟩ := World.acceptedExit_kept hw hfences hdebt hd
          exact ⟨r', hr', .inl ⟨claimant, by simp [World.acceptedExit, hd], haccepted⟩⟩
      | sweepExpired =>
        cases hd : w.decision (.onRun runId now cleanupId .sweepExpired) with
        | none =>
          rw [World.onRun_refused hd]
          exact ⟨r, hr, .inr (.refl r)⟩
        | some d =>
          obtain ⟨r', hr', hclean⟩ := World.swept_lost hw hr hd
          exact ⟨r', hr', .inr (.of_settlement hclean rfl rfl (by simp [LossCause.source]))⟩
      | _ => exact hquiet rfl rfl
    · exact hbeside hid rfl
  | _ => exact hquiet rfl rfl

/-- The evidence on a stored run, and what it rests on. -/
structure Evident (w : World) (exits : List (String × ExitClaimant)) : Prop where
  retired : ∀ {id r}, w.store.runs.get id = some r → r.queueState = some .retired →
    isLive r.state = false ∧ ∃ claimant, (id, claimant) ∈ exits ∧ OwnExit r claimant
  logged : ∀ {id r e}, w.store.runs.get id = some r → e ∈ r.events → e.by_ = .executor →
    isLive r.state = false ∧ ∃ claimant, (id, claimant) ∈ exits ∧ OwnExit r claimant
  kept : ∀ {id claimant}, (id, claimant) ∈ exits →
    ∃ r, w.store.runs.get id = some r ∧ ExitKept r

theorem exitProven_logged (h : exitProven r = true) : ∃ e ∈ r.events, e.by_ = .executor := by
  obtain ⟨e, he, hby⟩ := (Option.any_eq_true _ _).1 h
  exact ⟨e, List.mem_of_getLast? he, (of_decide_eq_true hby).1⟩

theorem Evident.step {exits : List (String × ExitClaimant)} (hw : w.Coherent)
    (hfences : Fences w.store) (hdebt : CleanupOnly w.store) (h : Evident w exits) (label : Step) :
    Evident (w.step label) (exits ++ (w.acceptedExit label).toList) := by
  have hearlier : ∀ {id claimant}, (id, claimant) ∈ exits →
      (id, claimant) ∈ exits ++ (w.acceptedExit label).toList := fun h =>
    List.mem_append_left _ h
  -- evidence that was there is still there
  have hfrom : ∀ {id r r'}, w.store.runs.get id = some r →
      (w.step label).store.runs.get id = some r' →
      (isLive r.state = false ∧ ∃ claimant, (id, claimant) ∈ exits ∧ OwnExit r claimant) →
      isLive r'.state = false ∧ ∃ claimant,
        (id, claimant) ∈ exits ++ (w.acceptedExit label).toList ∧ OwnExit r' claimant := by
    rintro id r r' hr hr' ⟨hterminal, claimant, hmem, hown⟩
    obtain ⟨now, r'', hr'', hmove⟩ := (hw.change label).run_moves hw.store hr
    obtain rfl : r'' = r' := Option.some.inj (hr''.symm.trans hr')
    have hqueue : r.queue.isSome = true := by
      obtain ⟨queue, hqueue, -⟩ := Option.bind_eq_some_iff.1 hown.subject
      rw [hqueue]
      rfl
    refine ⟨by rw [(hmove.terminal hterminal).1]; exact hterminal, claimant, hearlier hmem, ?_⟩
    exact hown.kept (hmove.terminal_queue hterminal hqueue)
  have haccepted : ∀ {id r' claimant}, w.acceptedExit label = some (id, claimant) →
      ExitAccepted r' claimant → isLive r'.state = false ∧ ∃ claimant,
        (id, claimant) ∈ exits ++ (w.acceptedExit label).toList ∧ OwnExit r' claimant := by
    intro id r' claimant hexit h
    exact ⟨h.terminal, claimant, List.mem_append_right _ (by simp [hexit]), h.own⟩
  refine ⟨?_, ?_, ?_⟩
  · intro id x hx hretired
    rcases (hw.change label).run_cases hw.store hx with ⟨now, r, hr, -⟩ | ⟨-, hfresh⟩
    · obtain ⟨r', hr', hcases⟩ := World.exit_step hw hfences hdebt label hr
      obtain rfl : r' = x := Option.some.inj (hr'.symm.trans hx)
      rcases hcases with ⟨claimant, hexit, hkept⟩ | hquiet
      · exact haccepted hexit hkept
      · rcases hquiet.retired hretired with hold | ⟨-, hproof⟩
        · exact hfrom hr hx (h.retired hr hold)
        · obtain ⟨e, he, hby⟩ := exitProven_logged hproof
          exact hfrom hr hx (h.logged hr he hby)
    · rw [Run.queueState, hfresh.queue] at hretired
      cases hretired
  · intro id x e hx he hby
    rcases (hw.change label).run_cases hw.store hx with ⟨now, r, hr, -⟩ | ⟨-, hfresh⟩
    · obtain ⟨r', hr', hcases⟩ := World.exit_step hw hfences hdebt label hr
      obtain rfl : r' = x := Option.some.inj (hr'.symm.trans hx)
      rcases hcases with ⟨claimant, hexit, hkept⟩ | hquiet
      · exact haccepted hexit hkept
      · exact hfrom hr hx (h.logged hr (hquiet.events e he hby) hby)
    · obtain ⟨at_, intervention, hevents⟩ := hfresh.events
      rw [hevents, List.mem_singleton] at he
      subst he
      cases hby
  · intro id claimant hmem
    rcases List.mem_append.1 hmem with hmem | hmem
    · obtain ⟨r, hr, hkept⟩ := h.kept hmem
      obtain ⟨now, r', hr', hmove⟩ := (hw.change label).run_moves hw.store hr
      exact ⟨r', hr', hmove.exitKept (fun _ => hfences.fenced hr) hkept⟩
    · have hexit : w.acceptedExit label = some (id, claimant) := by simpa using hmem
      unfold World.acceptedExit at hexit
      split at hexit
      · split_ifs at hexit with haccepts
        obtain ⟨rfl, rfl⟩ := Prod.mk.inj (Option.some.inj hexit)
        obtain ⟨d, hd⟩ := Option.isSome_iff_exists.1 haccepts
        obtain ⟨r', hr', haccepted⟩ := World.acceptedExit_kept hw hfences hdebt hd
        exact ⟨r', hr', haccepted.kept⟩
      · cases hexit

theorem World.evident_run (steps : List Step) :
    Evident (World.init.run steps) (World.acceptedExits steps) := by
  induction steps using List.reverseRecOn with
  | nil => exact ⟨fun h => (by cases h), fun h => (by cases h), fun h => (by cases h)⟩
  | append_singleton steps label ih =>
    have hrun : World.init.run (steps ++ [label]) = (World.init.run steps).step label :=
      World.run_append _ _ _
    have hexits : World.acceptedExits (steps ++ [label]) = World.acceptedExits steps ++
        ((World.init.run steps).acceptedExit label).toList := by
      simp [World.acceptedExits, Machine.events_append, World.run]
    rw [hrun, hexits]
    exact ih.step (World.coherent_run steps) (World.fences_run steps)
      (World.cleanupOnly_run steps) label

end Steps

theorem World.codex_unretired (steps : List Step) {id : String} {r : Run}
    (hr : (World.init.run steps).store.runs.get id = some r) (hp : r.pipeline = "codex") :
    r.queueState ≠ some .retired := by
  refine World.invariant_run
    (fun s => ∀ id r, s.runs.get id = some r → r.pipeline = "codex" → r.queueState ≠ some .retired)
    (fun id r hr => by cases hr) ?_ steps id r hr hp
  intro label s s' hs hchange hinv id x hx hp
  rcases hchange.run_cases hs hx with ⟨now, r, hr, hmove⟩ | ⟨-, hfresh⟩
  · have hp' : r.pipeline = "codex" := (pipeline_of_frozen hmove.frozen).symm.trans hp
    exact hmove.codex_unretired hp' (hinv id r hr hp')
  · rw [Run.queueState, hfresh.queue]
    intro h
    cases h

/-- A claim is retired only on an accepted exit report of its own claimant, for a settled run; where
one was accepted and no credential operation is left, it is retired; and a codex claim never is. -/
theorem World.exit_evidence (steps : List Step) (id : String) (r : Run)
    (hr : (World.init.run steps).store.runs.get id = some r) :
    (r.queueState = some .retired → isLive r.state = false ∧
      ∃ claimant, (id, claimant) ∈ World.acceptedExits steps ∧ OwnExit r claimant) ∧
    (r.pipeline ≠ "codex" → r.credentialOperation = none →
      (∃ claimant, (id, claimant) ∈ World.acceptedExits steps) →
      r.queueState = some .retired) ∧
    (r.pipeline = "codex" → r.queueState ≠ some .retired) := by
  have hevident := World.evident_run steps
  refine ⟨hevident.retired hr, fun hp hop hexit => ?_, World.codex_unretired steps hr⟩
  obtain ⟨claimant, hmem⟩ := hexit
  obtain ⟨r', hr', hkept⟩ := hevident.kept hmem
  obtain rfl : r' = r := Option.some.inj (hr'.symm.trans hr)
  cases hkept with
  | codex h => exact absurd h hp
  | retired _ h => exact h
  | owed op _ _ _ hop' => simp [hop] at hop'

/-- The claimant of the sample run reports its exit. -/
def Sample.exited : List Step :=
  Sample.claimed "claude" ++
    [.onRun Sample.runId 3 "cleanup" (.executorExited ⟨"subject", "runner", some "token"⟩)]

theorem World.exit_evidence_exited :
    ∃ r, (World.init.run Sample.exited).store.runs.get Sample.runId = some r ∧
      r.queueState = some .retired ∧ isLive r.state = false ∧
      ∃ claimant, (Sample.runId, claimant) ∈ World.acceptedExits Sample.exited ∧
        OwnExit r claimant := by
  have hstored : ((World.init.run Sample.exited).store.runs.get Sample.runId).any
      (fun r => r.queueState = some .retired) = true := by decide +kernel
  obtain ⟨r, hr, hretired⟩ := (Option.any_eq_true _ _).1 hstored
  have hretired : r.queueState = some .retired := of_decide_eq_true hretired
  exact ⟨r, hr, hretired, (World.exit_evidence _ _ r hr).1 hretired⟩

end AgentLcars
