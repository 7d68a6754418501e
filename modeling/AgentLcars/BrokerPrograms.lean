import AgentLcars.BrokerWrites

/-!
# Retiring and finishing

* `retire_serves`: the release of a lease, journalled, written and acknowledged;
* `finish_serves`: a finish names a sequence number only at which the claim's lease is retired.
-/

namespace AgentLcars

section Leases

variable {env : CodexEnv} {pid : Nat} {s s' : BrokerState} {r o f : String} {n : Nat}
  {g : Option String} {lease : CodexAuthLease}

/-- A claim is entitled to overwrite a lease of its own. -/
theorem StoredLease.entitled (h : StoredLease lease s) (howned : lease.ownedBy r f = true) :
    s.Entitled r f lease.generation lease.repository := by
  obtain ⟨v, hv, -, rfl⟩ := h
  obtain ⟨hrun, hclaim⟩ := CodexAuthLease.ownedBy_iff.1 howned
  exact .inr ⟨v, hv, rfl, .inr ⟨hrun, hclaim, rfl⟩⟩

/-- An expired lease may be overwritten by anybody. -/
theorem StoredLease.entitled_expired (h : StoredLease lease s) (hexpired : lease.expiresAt ≤ s.clock)
    (repository : String) : s.Entitled r f lease.generation repository := by
  obtain ⟨v, hv, -, rfl⟩ := h
  exact .inr ⟨v, hv, rfl, .inl hexpired⟩

/-- Either the lease is as it was read, or it is no live lease of the claim. -/
theorem ReadsLease.still (hstill : StillAt r o f n g s)
    {lease : Option CodexAuthLease} (h : ReadsLease env pid s s' lease) :
    (lease = none → StillAt r o f n none s') ∧
      ∀ given, lease = some given → StillAt r o f n (some given.generation) s' := by
  obtain ⟨s₁, hbefore, hs₁, hafter, hseen⟩ := h
  have hstill₁ := (hbefore.keep hstill).rebase
  cases hseen with
  | absent hnil => exact ⟨fun _ => hafter.keep (hstill₁.absent hnil), by rintro _ ⟨⟩⟩
  | replaced hgone => exact ⟨fun _ => (hafter.keep hstill₁).lapse hgone, by rintro _ ⟨⟩⟩
  | found v hhead hvalid =>
    refine ⟨by rintro ⟨⟩, ?_⟩
    rintro _ ⟨⟩
    rw [generationOf_eq hhead] at hstill₁
    exact hafter.keep hstill₁

/-- A lease that was read and is no live one of the claim. -/
theorem StillAt.notLive (hs : s.Sound env) (hstored : StoredLease lease s)
    (hstill : StillAt r o f n (some lease.generation) s)
    (hdead : ¬lease.toCodexLeaseRecord.LiveFor s.clock r f) : StillAt r o f n none s := by
  obtain ⟨v, hv, -, rfl⟩ := hstored
  exact hstill.dead hs hv hdead

end Leases

/-! ### Finishing -/

section Finishing

variable {env : CodexEnv} {pid : Nat} {s s' s₁ : BrokerState} {r o f : String} {n : Nat}
  {lease : CodexAuthLease}

/-- An operation that was read reserved and without a mutation. -/
theorem StillAt.read (hs : s.Sound env) {op : CredentialOperation}
    (hop : s.world.operation r = some op) (hmutation : op.mutation = none) :
    StillAt r op.id f op.mutationSequence (some (generationOf s.lease)) s where
  spent := hs.journalled.reserved hop
  bound op' hop' _ := by
    rw [hop] at hop'
    cases hop'
    exact Nat.le_refl _
  still op' hop' _ _ := by
    rw [hop] at hop'
    cases hop'
    rw [hmutation]
    exact ⟨OnlyRetires.none, .inl rfl⟩

/-- A retirement that is prepared takes the next number. -/
theorem AcceptedAt.stillAt {now : Time} {d : Decision} {id repository g : String}
    (h : AcceptedAt env pid s s' r (.changeCredentialOperation o f
      (.prepare (.leaseWrite id g repository 0))) d s₁ now) (hid : id = mutationIdOf o (n + 1))
    (hstill : StillAt r o f n (some g) s₁) : StillAt r o f (n + 1) (some g) s' := by
  obtain ⟨op, hop, rfl, hnumber, hafter, -⟩ := h.prepared
  have hn : op.mutationSequence = n := by
    have := (mutationIdOf_inj (hnumber.symm.trans hid)).2
    omega
  obtain rfl := h.after
  refine ⟨⟨hstill.spent.issued, fun q hq => hstill.spent.used q (List.mem_filter.1 hq).1⟩,
    fun op' hop' hid' => ?_, fun op' hop' hid' hn' => ⟨?_, ?_⟩⟩
  · rw [hafter] at hop'
    cases hop'
    exact Nat.le_of_eq (congrArg (· + 1) hn.symm)
  · rw [hafter] at hop'
    cases hop'
    rintro id' g' repository' expiresAt ⟨⟩
    rfl
  · exact (hstill.still op hop rfl hn).2

/-- The retirement of a lease: journalled, written and acknowledged. -/
theorem retire_serves (hstored : StoredLease lease s) (howned : lease.ownedBy r f = true) {p : Prop}
    (hstill : p → StillAt r o f n (some lease.generation) s) (at_ : Option Time) :
    Serves env pid s (Broker.retire r o f n lease at_)
      (Returns fun s' reply => p → ∀ d, reply = .ok d → ∃ run op', d.run = some run ∧
          run.credentialOperation = some op' ∧ StillAt r o f op'.mutationSequence none s') := by
  have hmay : ∀ s₁, InMeantime env pid s s₁ → s₁.Sound env →
      MayTransact env s₁ pid r (.changeCredentialOperation o f
        (.prepare (releaseMutation (mutationIdOf o (n + 1)) lease))) := fun s₁ hmeantime _ =>
    ⟨enduring_entitled.after hmeantime (hstored.entitled howned), fun _ _ _ _ => rfl⟩
  unfold Broker.retire Broker.change
  refine Serves.bind ((transact_serves hmay).keep hstored) ?_
  rintro s₁ reply ⟨hstored₁, hreply⟩
  cases reply with
  | error refusal => exact Serves.pure (by rintro _ d ⟨⟩)
  | ok d =>
    obtain ⟨s₂, now, haccepted⟩ := hreply d rfl
    have hstill₁ : p → StillAt r o f (n + 1) (some lease.generation) s₁ := fun hp =>
      haccepted.stillAt rfl (haccepted.before.keep (hstill hp))
    refine Serves.bind (Q := Returns fun s' _ => (p → StillAt r o f (n + 1) (some lease.generation) s') ∧
      Journals pid r o f (releaseMutation (mutationIdOf o (n + 1)) lease) s' ∧
      s'.LeaseSuperseded lease.generation) ?_ ?_
    · refine ((((releaseLease_serves haccepted.journals howned hstored₁).keep
        haccepted.journals).frame Enduring.imp hstill₁)).tryCatch (fun s₃ _ h => h) ?_
      rintro s₃ e ⟨-, hjournals, hgone⟩
      split
      · rename_i hdefinitive
        exact Serves.bind (transact_serves (hjournals.acknowledgeable (hgone hdefinitive)))
          fun _ _ _ => Serves.throw trivial
      · exact Serves.throw trivial
    · rintro s₃ _ ⟨hstill₃, hjournals, hgone⟩
      have hack : Serves env pid s₃ (Broker.transact r (.changeCredentialOperation o f
          (.acknowledge (mutationIdOf o (n + 1)) none)) at_) _ :=
        transact_serves (hjournals.acknowledgeable hgone)
      refine ((hack.frame Enduring.imp hstill₃).frame enduring_leaseSuperseded hgone).imp ?_
      rintro s₄ (e | reply) ⟨hgone₄, hstill₄, hreply⟩
      · trivial
      rintro hp d rfl
      obtain ⟨s₅, now', haccepted'⟩ := hreply d rfl
      obtain ⟨op', mutation, run, hop', hid', hmutation, hnumber, hrun, hrunop⟩ :=
        haccepted'.acknowledged
      refine ⟨run, _, hrun, hrunop, ?_⟩
      have hlast : op'.mutationSequence = n + 1 := by
        obtain ⟨steps, hsteps⟩ := haccepted'.sound.journalled.world
        have hlast := World.mutation_numbered (hsteps ▸ hop') hmutation
        rw [hnumber, hid'] at hlast
        exact (mutationIdOf_inj hlast).2.symm
      show StillAt r o f op'.mutationSequence none s₄
      rw [hlast]
      exact (hstill₄ hp).lapse hgone₄

theorem finishFrom_serves {restored : Bool} (attempts : Nat) : ∀ {s : BrokerState}
    {sequence : Option Nat}, (∀ n, sequence = some n → Concluding r o s ∧ StillAt r o f n none s) →
    Serves env pid s (env.finishFrom r o f restored attempts sequence) Anyhow := by
  induction attempts with
  | zero => exact fun _ => Serves.pure trivial
  | succ attempts ih =>
    intro s sequence hsequence
    unfold CodexEnv.finishFrom
    refine Serves.bind (transact_serves ?_) ?_
    · intro s₁ hmeantime _ n hn
      obtain ⟨hconcluding, hstill⟩ := hsequence n hn
      exact (hmeantime.keep hstill).retired (hmeantime.keep hconcluding)
    rintro s₁ reply -
    cases reply with
    | ok d => exact Serves.pure trivial
    | error refusal =>
      dsimp only
      split
      · exact Serves.pure trivial
      refine (readRun_serves r).bind ?_
      rintro s₂ current ⟨-, rfl⟩
      cases hoperation : (s₂.world.store.runs.get r).bind (·.credentialOperation) with
      | none => exact Serves.pure trivial
      | some op =>
        dsimp only
        split
        · exact Serves.pure trivial
        rename_i hsame
        split
        · exact Serves.pure trivial
        rename_i hfree
        simp only [not_or, not_not, ne_eq] at hsame
        obtain ⟨rfl, rfl⟩ := hsame
        have hop : s₂.world.operation r = some op := hoperation
        have hmutation : op.mutation = none := by
          by_contra hne
          exact hfree (.inl (Option.isSome_iff_ne_none.2 hne))
        refine Serves.known fun hs₂ => ?_
        have hconcluding : Concluding r op.id s₂ := by
          refine ⟨hs₂.journalled.reserved hop, fun op' hop' _ => ?_⟩
          rw [hop] at hop'
          cases hop'
          by_cases hkind : op.kind = .cleanup
          · exact .inl hkind
          · obtain ⟨run, hrun, -⟩ := World.operation_eq_some.1 hop
            refine .inr ⟨run, hrun, ?_⟩
            rw [Option.isSome_iff_ne_none]
            intro hnone
            exact hfree (.inr ⟨hkind, by rw [hrun]; exact hnone⟩)
        refine (readLease_serves.keep hconcluding).bind ?_
        rintro s₃ lease ⟨hconcluding₃, hread⟩
        obtain ⟨habsent, hfound⟩ := hread.still (StillAt.read hs₂ hop hmutation)
        refine ((liveOwned_serves r op.claimFingerprint lease).keep hconcluding₃).bind ?_
        rintro s₄ live ⟨hconcluding₄, hmeantime, hlive⟩
        cases hlive with
        | gone hdead =>
          refine Serves.known fun hs₄ => ih fun n hn => ⟨hconcluding₄, ?_⟩
          cases hn
          cases lease with
          | none => exact hmeantime.keep (habsent rfl)
          | some given =>
            exact StillAt.notLive hs₄ (hmeantime.keep hread.stored)
              (hmeantime.keep (hfound _ rfl)) (hdead _ rfl)
        | live given hgiven howned =>
          subst hgiven
          refine ((retire_serves (hmeantime.keep hread.stored) howned
            (fun _ : True => hmeantime.keep (hfound _ rfl)) none).keep hconcluding₄).bind ?_
          rintro s₅ reply ⟨hconcluding₅, hreply⟩
          cases reply with
          | error refusal => exact Serves.pure trivial
          | ok acknowledged =>
            obtain ⟨run, op', hrun, hrunop, hstill₅⟩ := hreply trivial acknowledged rfl
            refine (decidedRun_serves acknowledged).bind ?_
            rintro s₆ run' ⟨rfl, hrun'⟩
            rw [hrun] at hrun'
            cases hrun'
            refine ih fun n hn => ⟨hconcluding₅, ?_⟩
            rw [hrunop] at hn
            cases hn
            exact hstill₅

theorem finish_serves {restored : Bool} :
    Serves env pid s (env.finishCredentialOperation r o f restored) Anyhow :=
  finishFrom_serves 3 (by rintro n ⟨⟩)

end Finishing

end AgentLcars
