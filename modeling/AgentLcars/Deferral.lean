import AgentLcars.CredentialFence

/-!
# Deferred results

A report that finds a credential operation outstanding is stored on the run and settles it when the
operation is finished.  `Deferral` is what the fields it passes through say about each other in
every reachable state: a live run has no result yet, a pending result stands for the outstanding
operation of a live run, and only a report of success leaves a publication behind.
-/

namespace AgentLcars

/-- Results, pending results and publications of a run agree. -/
structure Deferral (r : Run) : Prop where
  unsettled : isLive r.state = true → r.result = none
  pending : ∀ p ∈ r.credentialPendingResult, isLive r.state = true ∧
    ∃ op, r.credentialOperation = some op ∧ p.claimFingerprint = op.claimFingerprint
  triage : r.triagePublication.isSome = true → r.result.any (·.ok) = true ∨
    (r.credentialPendingResult.any fun p => p.result.ok) = true

theorem Fresh.deferral {m : Run} (h : Fresh m) : Deferral m where
  unsettled := fun _ => h.result
  pending := by simp [h.credentialPendingResult]
  triage := by simp [h.triagePublication]

section Moves

variable {label : Step} {now : Time} {r r' : Run}

/-- A move that touches none of the fields involved. -/
theorem Deferral.of_same (h : Deferral r) (hlive : isLive r'.state = isLive r.state)
    (hresult : r'.result = r.result) (hpending : r'.credentialPendingResult = r.credentialPendingResult)
    (hop : ∀ op ∈ r.credentialOperation, ∃ op', r'.credentialOperation = some op' ∧
      op'.claimFingerprint = op.claimFingerprint)
    (htriage : r'.triagePublication.isSome = r.triagePublication.isSome) : Deferral r' where
  unsettled := by
    rw [hlive, hresult]
    exact h.unsettled
  pending := by
    intro p hp
    rw [hpending] at hp
    obtain ⟨hlive', op, hop', hfingerprint⟩ := h.pending p hp
    obtain ⟨op', hop'', hsame⟩ := hop op hop'
    exact ⟨hlive.trans hlive', op', hop'', hfingerprint.trans hsame.symm⟩
  triage := by
    rw [htriage, hresult, hpending]
    exact h.triage

/-- A run that is neither settled nor deferred has nothing to publish. -/
theorem Deferral.unpublished (h : Deferral r) (hlive : isLive r.state = true)
    (hpending : r.credentialPendingResult = none) : r.triagePublication = none := by
  by_contra hne
  have hsome : r.triagePublication.isSome = true := Option.isSome_iff_ne_none.2 hne
  rcases h.triage hsome with hok | hok
  · rw [h.unsettled hlive] at hok
    cases hok
  · rw [hpending] at hok
    cases hok

theorem Deferral.terminal (h : Deferral r) (hterminal : isLive r.state = false) :
    r.credentialPendingResult = none := by
  by_contra hne
  obtain ⟨p, hp⟩ := Option.ne_none_iff_exists'.1 hne
  rw [(h.pending p hp).1] at hterminal
  cases hterminal

/-- Without an operation there is nothing pending. -/
theorem Deferral.undeferred (h : Deferral r) (hop : r.credentialOperation = none) :
    r.credentialPendingResult = none := by
  by_contra hne
  obtain ⟨p, hp⟩ := Option.ne_none_iff_exists'.1 hne
  obtain ⟨-, op, hop', -⟩ := h.pending p hp
  rw [hop] at hop'
  cases hop'

theorem settledPublication_isSome (t : Task) (r : Run) :
    (settledPublication t r).isSome = r.triagePublication.isSome := by
  unfold settledPublication
  split_ifs
  · rfl
  · rw [Option.isSome_map]

theorem reportedRun_published {result : RunResult} {delivery : Option DeliveryBinding}
    {publish : Bool} (h : (reportedRun r result delivery publish).triagePublication.isSome = true) :
    result.ok = true ∨ r.triagePublication.isSome = true := by
  unfold reportedRun at h
  dsimp only at h
  split_ifs at h with hpublish
  · exact .inl hpublish.2
  · exact .inr h

theorem Settlement.deferral {s : Run} (hs : Settlement label now r s)
    (htriage : r.triagePublication = none) (hpending : r.credentialPendingResult = none) :
    s.credentialPendingResult = none ∧
      (s.triagePublication.isSome = true → s.result.any (·.ok) = true) := by
  cases hs with
  | report task result delivery publish =>
    refine ⟨rfl, fun h => ?_⟩
    rw [show (finishedRun now task (reportedRun r result delivery publish) result).triagePublication =
      settledPublication task (reportedRun r result delivery publish) from rfl,
      settledPublication_isSome] at h
    rcases reportedRun_published h with hok | hsome
    · simpa [finishedRun, settledResult_ok] using hok
    · rw [htriage] at hsome
      cases hsome
  | cancel => exact ⟨hpending, fun h => by simp [canceledRun, htriage] at h⟩
  | reroute => exact ⟨hpending, fun h => by simp [reroutedRun, htriage] at h⟩
  | lose => exact ⟨hpending, fun h => by simp [lostRun, htriage] at h⟩

/-- Every move of a fenced run keeps the fields in agreement. -/
theorem Move.deferral (hmove : Move label now r r') (h : Deferral r)
    (hfence : ∀ op, r.credentialOperation = some op → Fenced r op) : Deferral r' := by
  have hkept : ∀ op ∈ r.credentialOperation, ∃ op', r.credentialOperation = some op' ∧
      op'.claimFingerprint = op.claimFingerprint := fun op hop => ⟨op, hop, rfl⟩
  -- an operation that is replaced stands for the same claim
  have hreplaced : ∀ {op op' : CredentialOperation}, r.credentialOperation = some op →
      op'.claimFingerprint = op.claimFingerprint → ∀ o ∈ r.credentialOperation,
        ∃ o', some op' = some o' ∧ o'.claimFingerprint = o.claimFingerprint := by
    rintro op op' hop hsame o ho
    obtain rfl : op = o := Option.some.inj (hop.symm.trans ho)
    exact ⟨op', rfl, hsame⟩
  cases hmove with
  | confirm hp =>
    refine h.of_same ?_ rfl rfl hkept rfl
    rw [hp]
    rfl
  | defer op result delivery publish hlive hop hpending =>
    refine ⟨fun _ => h.unsettled hlive, ?_, ?_⟩
    · intro p hp
      refine ⟨hlive, op, hop, ?_⟩
      cases hprev : r.credentialPendingResult with
      | none =>
        rw [hprev] at hp
        obtain rfl := Option.some.inj hp
        rfl
      | some p₀ =>
        rw [hprev] at hp
        obtain rfl : p₀ = p := Option.some.inj hp
        obtain ⟨-, op', hop', hfingerprint⟩ := h.pending p₀ hprev
        rw [hop] at hop'
        rw [hfingerprint, Option.some.inj hop']
    · intro hsome
      have hsome : (reportedRun r result delivery publish).triagePublication.isSome = true := hsome
      right
      -- a repeated report says what the first one said
      have hok : result.ok = true → ((r.credentialPendingResult.or (some
          { claimFingerprint := op.claimFingerprint, requestedAt := now, result })).any
            fun p => p.result.ok) = true := by
        intro hok
        cases hprev : r.credentialPendingResult with
        | none => simpa using hok
        | some p₀ =>
          have hsame := hpending p₀ hprev
          simp only [sameReport, decide_eq_true_eq] at hsame
          simpa [hsame.1] using hok
      rcases reportedRun_published hsome with hreported | hbefore
      · exact hok hreported
      · rcases h.triage hbefore with hsettled | hdeferred
        · rw [h.unsettled hlive] at hsettled
          cases hsettled
        · cases hprev : r.credentialPendingResult with
          | none => simp [hprev] at hdeferred
          | some p₀ => simpa [hprev] using hdeferred
  | @settle s _ hlive hfree hs hc =>
    have hpending : r.credentialPendingResult = none := by
      rcases hfree with hop | hclaim
      · exact h.undeferred hop
      · refine h.undeferred (Option.eq_none_iff_forall_ne_some.2 fun op hop => ?_)
        exact hclaim (hfence op hop).claimed
    obtain ⟨hnone, htriage⟩ := hs.deferral (h.unpublished hlive hpending) hpending
    have hterminal := hs.terminal
    have hsettled : s.credentialPendingResult = none → r'.credentialPendingResult = none ∧
        r'.triagePublication = s.triagePublication := by
      intro hnone
      cases hc <;> exact ⟨hnone, rfl⟩
    obtain ⟨hnone', htriage'⟩ := hsettled hnone
    refine ⟨fun hl => ?_, by simp [hnone'], fun hsome => .inl ?_⟩
    · rw [hc.state, hterminal] at hl
      cases hl
    · rw [hc.result]
      rw [htriage'] at hsome
      exact htriage hsome
  | complete op pending task restored hlive hop hpending =>
    refine ⟨fun hl => (by cases hl), fun p hp => (by cases hp), fun hsome => .inl ?_⟩
    have hbefore : r.triagePublication.isSome = true :=
      (settledPublication_isSome task (operationFinished r op restored op.claimFingerprint)).symm.trans
        hsome
    rcases h.triage hbefore with hsettled | hdeferred
    · rw [h.unsettled hlive] at hsettled
      cases hsettled
    · simpa [finishedRun, hpending, settledResult_ok] using hdeferred
  | reserve _ _ _ hop =>
    refine h.of_same rfl rfl rfl (fun op hop' => ?_) rfl
    rw [hop] at hop'
    cases hop'
  | prepare op _ hop => exact h.of_same rfl rfl rfl (hreplaced hop rfl) rfl
  | acknowledge op _ _ hop => exact h.of_same rfl rfl rfl (hreplaced hop rfl) rfl
  | retryRecovery op hop => exact h.of_same rfl rfl rfl (hreplaced hop rfl) rfl
  | finish op restored sequence hop hpending =>
    refine ⟨h.unsettled, fun p hp => ?_, h.triage⟩
    have hnone : (some p : Option CredentialPendingResult) = none := hp.symm.trans hpending
    cases hnone
  | publish state hsome => exact h.of_same rfl rfl rfl hkept hsome.symm
  | _ => exact h.of_same rfl rfl rfl hkept rfl

end Moves

/-! ### Reachable states -/

/-- Every stored run agrees with itself. -/
def Deferrals (s : Store) : Prop := ∀ {id r}, s.runs.get id = some r → Deferral r

theorem Change.deferrals {label : Step} {s s' : Store} (hs : s.Coherent) (h : Change label s s')
    (hinv : Fences s ∧ Deferrals s) : Fences s' ∧ Deferrals s' := by
  refine ⟨h.fences hs hinv.1, fun {id x} hx => ?_⟩
  rcases h.run_cases hs hx with ⟨now, r, hr, hmove⟩ | ⟨-, hfresh⟩
  · exact hmove.deferral (hinv.2 hr) fun op hop => hinv.1.fenced hr hop
  · exact hfresh.deferral

theorem World.deferrals_run (steps : List Step) : Deferrals (World.init.run steps).store :=
  (World.invariant_run (fun s => Fences s ∧ Deferrals s)
    ⟨⟨fun h => (by cases h), fun h => (by cases h)⟩, fun h => (by cases h)⟩
    (fun hs h hinv => h.deferrals hs hinv) steps).2

end AgentLcars
