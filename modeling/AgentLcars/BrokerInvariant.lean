import AgentLcars.BrokerMoves

/-!
# The invariant of the broker system

* `BrokerMove.grows`: what moves only add to;
* `BrokerMove.journal_before`, `BrokerMove.lease_cases`, `BrokerMove.auth_cases`: how the journal and
  the objects change;
* `BrokerMove.outstanding`: a mutation stays outstanding until somebody acknowledges it;
* `BrokerMove.sound`: every move keeps `BrokerState.Sound`.
-/

namespace AgentLcars

/-! ### Growth -/

/-- What only grows. -/
structure BrokerState.Grows (s s' : BrokerState) : Prop where
  clock : s.clock ≤ s'.clock
  issued : ∀ id ∈ s.issued, id ∈ s'.issued
  journal : ∀ e ∈ s.journal, e ∈ s'.journal
  lease : ∀ v ∈ s.lease, v ∈ s'.lease
  auth : ∀ v ∈ s.auth, v ∈ s'.auth

section Growth

variable {env : CodexEnv} {by_ : Option Nat} {s s' : BrokerState}

theorem BrokerMove.grows (hmove : BrokerMove env by_ s s') : s.Grows s' := by
  have hrefl : s.Grows s :=
    ⟨Int.le_refl _, fun _ h => h, fun _ h => h, fun _ h => h, fun _ h => h⟩
  cases hmove with
  | advance n =>
    exact { hrefl with clock := Int.le_add_of_nonneg_right (Int.natCast_nonneg n) }
  | elsewhere => exact { hrefl with issued := fun id h => List.mem_append_right _ h }
  | drawn => exact { hrefl with issued := fun id h => List.mem_cons_of_mem _ h }
  | transacted => exact { hrefl with journal := fun e h => List.mem_append_right _ h }
  | leaseWritten => exact { hrefl with lease := fun v h => List.mem_cons_of_mem _ h }
  | authWritten => exact { hrefl with auth := fun v h => List.mem_cons_of_mem _ h }
  | _ => exact ⟨Int.le_refl _, fun _ h => h, fun _ h => h, fun _ h => h, fun _ h => h⟩

namespace BrokerState.Grows

variable (h : s.Grows s')

include h

theorem entitled {runId f g repo : String} (he : s.Entitled runId f g repo) :
    s'.Entitled runId f g repo := by
  refine he.imp_right ?_
  rintro ⟨v, hv, hg, hown⟩
  exact ⟨v, h.lease v hv, hg, hown.imp_left fun hexpired => Int.le_trans hexpired h.clock⟩

theorem rotation {receipt : CredentialWriteReceipt} {e : JournalEntry}
    {u : ObjectVersion CodexAuthObject} (hr : Rotation env s receipt e u) :
    Rotation env s' receipt e u :=
  { hr with journalled := h.journal e hr.journalled, version := h.auth u hr.version }

theorem rotated {receipt : CredentialWriteReceipt} (hr : Rotated env s receipt) :
    Rotated env s' receipt :=
  let ⟨e, u, hr⟩ := hr
  ⟨e, u, h.rotation hr⟩

theorem rotatedBy {runId : String} {receipt : CredentialWriteReceipt}
    (hr : RotatedBy env s runId receipt) : RotatedBy env s' runId receipt :=
  let ⟨e, u, hrun, hr⟩ := hr
  ⟨e, u, hrun, h.rotation hr⟩

theorem leaseWrite {w : ObjectWrite CodexLeaseRecord} (hw : LeaseWrite s w) : LeaseWrite s' w := by
  obtain ⟨e, he, repository, expiresAt, hmutation, hcontent⟩ := hw
  refine ⟨e, h.journal e he, repository, expiresAt, hmutation, ?_⟩
  generalize w.origin.fence = fence at hcontent ⊢
  generalize w.content = content at hcontent ⊢
  cases hcontent with
  | performed => exact .performed
  | created hgeneration record hexpired => exact .created hgeneration _ hexpired
  | kept v hv hgeneration => exact .kept v (h.lease v hv) hgeneration

theorem authWrite {w : ObjectWrite CodexAuthObject} (hw : AuthWrite env s w) :
    AuthWrite env s' w := by
  obtain ⟨e, he, sha256, hmutation, hcontent⟩ := hw
  refine ⟨e, h.journal e he, sha256, hmutation, ?_⟩
  generalize w.origin.fence = fence at hcontent ⊢
  generalize w.content = content at hcontent ⊢
  cases hcontent with
  | performed bytes hbytes => exact .performed bytes hbytes
  | kept v hv bytes => exact .kept v (h.auth v hv) bytes

end BrokerState.Grows

end Growth

/-! ### The objects -/

theorem isFreshGeneration_fresh {α : Type} {versions : List (ObjectVersion α)} {g : String}
    (h : isFreshGeneration versions g = true) : Versions.Fresh (·.generation) "0" versions g := by
  unfold isFreshGeneration at h
  simp only [Bool.decide_and, Bool.and_eq_true, decide_eq_true_eq, List.all_eq_true] at h
  refine ⟨?_, h.2⟩
  rintro rfl
  exact absurd h.1 (by decide)

theorem isFreshGeneration_positive {α : Type} {versions : List (ObjectVersion α)} {g : String}
    (h : isFreshGeneration versions g = true) : isPositiveDecimal g = true := by
  unfold isFreshGeneration at h
  simp only [Bool.decide_and, Bool.and_eq_true, decide_eq_true_eq] at h
  exact h.1

theorem mem_of_versionAt {α : Type} {versions : List (ObjectVersion α)} {g : String}
    {v : ObjectVersion α} (h : versionAt versions g = some v) : v ∈ versions ∧ v.generation = g :=
  ⟨List.mem_of_find?_eq_some h, by simpa using List.find?_some h⟩

section Objects

variable {env : CodexEnv} {by_ : Option Nat} {s s' : BrokerState}

/-- The lease object keeps its version, or a write is carried out. -/
theorem BrokerMove.lease_cases (hmove : BrokerMove env by_ s s') :
    s'.lease = s.lease ∨ ∃ write generation, LeaseWrite s write ∧
      generationOf s.lease = write.expectedGeneration ∧
      isFreshGeneration s.lease generation = true ∧
      s' = { s with lease := write.version generation :: s.lease } := by
  cases hmove with
  | leaseWritten write generation hwrite hcurrent hfresh =>
    exact .inr ⟨write, generation, hwrite, hcurrent, hfresh, rfl⟩
  | _ => exact .inl rfl

/-- The credential object keeps its version, or a write is carried out. -/
theorem BrokerMove.auth_cases (hmove : BrokerMove env by_ s s') :
    s'.auth = s.auth ∨ ∃ write generation, AuthWrite env s write ∧ AuthReady s write ∧
      generationOf s.auth = write.expectedGeneration ∧
      isFreshGeneration s.auth generation = true ∧
      s' = { s with auth := write.version generation :: s.auth } := by
  cases hmove with
  | authWritten write generation hwrite hready hcurrent hfresh =>
    exact .inr ⟨write, generation, hwrite, hready, hcurrent, hfresh, rfl⟩
  | _ => exact .inl rfl

/-- What is superseded stays so. -/
theorem BrokerMove.leaseSuperseded (hmove : BrokerMove env by_ s s') {g : String}
    (h : s.LeaseSuperseded g) : s'.LeaseSuperseded g := by
  rcases hmove.lease_cases with hsame | ⟨write, generation, -, -, hfresh, rfl⟩
  · unfold BrokerState.LeaseSuperseded
    rw [hsame]
    exact h
  · exact Versions.Superseded.push h (v := write.version generation)
      (isFreshGeneration_fresh hfresh)

theorem BrokerMove.authSuperseded (hmove : BrokerMove env by_ s s') {g : String}
    (h : s.AuthSuperseded g) : s'.AuthSuperseded g := by
  rcases hmove.auth_cases with hsame | ⟨write, generation, -, -, -, hfresh, rfl⟩
  · unfold BrokerState.AuthSuperseded
    rw [hsame]
    exact h
  · exact Versions.Superseded.push h (v := write.version generation)
      (isFreshGeneration_fresh hfresh)

/-- A UUID that is used stays so. -/
theorem BrokerMove.spent (hmove : BrokerMove env by_ s s') {id : String} (h : s.Spent id) :
    s'.Spent id := by
  refine ⟨hmove.grows.issued id h.issued, ?_⟩
  cases hmove with
  | drawn pid drawn hby hfresh =>
    intro q hq
    rcases List.mem_cons.1 hq with heq | hq
    · cases heq
      exact hfresh h.issued
    · exact h.used q hq
  | transacted => exact fun q hq => h.used q (List.mem_filter.1 hq).1
  | _ => exact h.used

end Objects

/-! ### Operations and their mutations -/

theorem mutationIdOf_inj {a b : String} {m n : Nat} (h : mutationIdOf a m = mutationIdOf b n) :
    a = b ∧ m = n :=
  Text.append_decimal_inj "" (c := ':') (by decide) h

section Operations

variable {env : CodexEnv} {by_ : Option Nat} {s s' : BrokerState}

/-- An operation was there before, or its id is new. -/
theorem BrokerMove.operation_before (hs : s.Journalled) (hmove : BrokerMove env by_ s s')
    {r : String} {op' : CredentialOperation} (hop' : s'.world.operation r = some op') :
    (∃ op, s.world.operation r = some op ∧ op'.id = op.id ∧ op'.kind = op.kind ∧
      op'.claimFingerprint = op.claimFingerprint ∧ op.mutationSequence ≤ op'.mutationSequence) ∨
    (¬s.Spent op'.id ∧ s'.Spent op'.id ∧ op'.mutationSequence = 0 ∧ op'.mutation = none ∧
      s.world.operation r = none ∧
      ∀ r', r' ≠ r → s'.world.operation r' = s.world.operation r') := by
  have hchange := hmove.operation hs r
  rw [hop'] at hchange
  generalize hbefore : s.world.operation r = before at hchange
  cases hchange with
  | same => exact .inl ⟨op', rfl, rfl, rfl, rfl, Nat.le_refl _⟩
  | begun _ hunspent hspent hzero hmutation halone =>
    exact .inr ⟨hunspent, hspent, hzero, hmutation, rfl, halone⟩
  | prepared op => exact .inl ⟨op, rfl, rfl, rfl, rfl, Nat.le_succ _⟩
  | acknowledged op => exact .inl ⟨op, rfl, rfl, rfl, rfl, Nat.le_refl _⟩
  | retried op => exact .inl ⟨op, rfl, rfl, rfl, rfl, Nat.le_refl _⟩

/-- An operation of a used id was there before. -/
theorem BrokerMove.operation_spent (hs : s.Journalled) (hmove : BrokerMove env by_ s s')
    {r : String} {op' : CredentialOperation} (hop' : s'.world.operation r = some op')
    (hspent : s.Spent op'.id) :
    ∃ op, s.world.operation r = some op ∧ op'.id = op.id ∧ op'.kind = op.kind ∧
      op'.claimFingerprint = op.claimFingerprint ∧ op.mutationSequence ≤ op'.mutationSequence := by
  rcases hmove.operation_before hs hop' with h | ⟨hnew, -⟩
  · exact h
  · exact absurd hspent hnew

/-- The journal stays, or a process prepares a mutation. -/
theorem BrokerMove.journal_cases (hs : s.Journalled) (hmove : BrokerMove env by_ s s') :
    s'.journal = s.journal ∨ ∃ r op mutation pid, by_ = some pid ∧
      s.world.operation r = some op ∧ op.mutation = none ∧
      mutation.id = mutationIdOf op.id (op.mutationSequence + 1) ∧
      MayPrepare s r op.id op.claimFingerprint mutation ∧
      s'.world.operation r = some { op with
        mutation := some mutation, mutationSequence := op.mutationSequence + 1 } ∧
      s'.journal = ⟨r, op.id, op.claimFingerprint, mutation, pid, s.knows mutation⟩ :: s.journal := by
  cases hmove with
  | transacted pid runId now directOp hby hmay =>
    rcases s.transacted_journal_cases pid runId now directOp with hsame |
      ⟨before, after, mutation, hbefore, hnone, hafter, hsome⟩
    · exact .inl hsame
    · have hchange := hmay.operation hs now runId
      rw [hbefore, hafter] at hchange
      cases hchange with
      | same => rw [hnone] at hsome; cases hsome
      | prepared op mutation' pid' hby' hid hmutation hmay' hjournal =>
        cases hby'
        exact .inr ⟨runId, before, mutation', pid, hby, hbefore, hmutation, hid, hmay', hafter,
          hjournal⟩
      | acknowledged => cases hsome
      | retried => rw [hnone] at hsome; cases hsome
  | _ => exact .inl rfl

/-- A process prepares the mutation of this entry. -/
structure JournalEntry.Prepared (s s' : BrokerState) (e : JournalEntry) : Prop where
  operation : ∃ op, s.world.operation e.runId = some op ∧ op.id = e.operationId ∧
    e.mutation.id = mutationIdOf op.id (op.mutationSequence + 1) ∧
    s'.world.operation e.runId = some { op with
      mutation := some e.mutation, mutationSequence := op.mutationSequence + 1 } ∧
    op.claimFingerprint = e.claimFingerprint
  may : MayPrepare s e.runId e.operationId e.claimFingerprint e.mutation
  known : e.known = s.knows e.mutation

theorem JournalEntry.Prepared.outstanding {e : JournalEntry} (h : e.Prepared s s') :
    e.Outstanding s' := by
  obtain ⟨op, -, hid, -, hafter, -⟩ := h.operation
  exact ⟨_, hafter, hid, rfl⟩

/-- An entry was there before, or its mutation is prepared now. -/
theorem BrokerMove.journal_before (hs : s.Journalled) (hmove : BrokerMove env by_ s s')
    {e : JournalEntry} (he : e ∈ s'.journal) : e ∈ s.journal ∨ e.Prepared s s' := by
  rcases hmove.journal_cases hs with hsame |
    ⟨r, op, mutation, pid, -, hop, -, hid, hmay, hafter, hjournal⟩
  · exact .inl (hsame ▸ he)
  · rw [hjournal] at he
    rcases List.mem_cons.1 he with rfl | he
    · exact .inr ⟨⟨op, hop, rfl, hid, hafter, rfl⟩, hmay, rfl⟩
    · exact .inl he

/-- An outstanding mutation stays so until somebody acknowledges it. -/
theorem BrokerMove.outstanding (hs : s.Journalled) (hmove : BrokerMove env by_ s s')
    {e : JournalEntry} (h : e.Outstanding s) :
    e.Outstanding s' ∨ ∃ pid receipt, by_ = some pid ∧
      MayAcknowledge env s pid e.runId e.mutation.id receipt := by
  obtain ⟨op, hop, hid, hmutation⟩ := h
  have hchange := hmove.operation hs e.runId
  rw [hop] at hchange
  generalize hafter : s'.world.operation e.runId = after at hchange
  cases hchange with
  | same => exact .inl ⟨op, hafter, hid, hmutation⟩
  | prepared _ _ _ _ _ hnone => rw [hnone] at hmutation; cases hmutation
  | acknowledged _ mutation receipt pid hby hmutation' hmay =>
    rw [hmutation] at hmutation'
    cases hmutation'
    exact .inr ⟨pid, receipt, hby, hmay⟩
  | retried => exact .inl ⟨_, hafter, hid, hmutation⟩
  | finished _ hnone => rw [hnone] at hmutation; cases hmutation

/-- No mutation becomes outstanding a second time. -/
theorem BrokerMove.outstanding_before (hs : s.Journalled) (hmove : BrokerMove env by_ s s')
    {e : JournalEntry} (he : e ∈ s.journal) (h : e.Outstanding s') : e.Outstanding s := by
  obtain ⟨op', hop', hid, hmutation⟩ := h
  have hchange := hmove.operation hs e.runId
  rw [hop'] at hchange
  generalize hbefore : s.world.operation e.runId = before at hchange
  cases hchange with
  | same => exact ⟨op', hbefore, hid, hmutation⟩
  | begun _ _ _ _ hnone => rw [hnone] at hmutation; cases hmutation
  | prepared op mutation _ _ hnumber =>
    cases hmutation
    obtain ⟨k, hk, hbound⟩ := hs.numbered e he
    obtain ⟨-, hk'⟩ := mutationIdOf_inj (hk.symm.trans hnumber)
    have hle := (hbound e.runId op hbefore hid).2.2
    omega
  | acknowledged => cases hmutation
  | retried op => exact ⟨op, hbefore, hid, hmutation⟩

/-- Only its own mutation is outstanding on a run. -/
theorem JournalEntry.Outstanding.entry {e : JournalEntry} (h : e.Outstanding s)
    {op : CredentialOperation} (hop : s.world.operation e.runId = some op) :
    op.id = e.operationId ∧ op.mutation = some e.mutation := by
  obtain ⟨op', hop', hid, hmutation⟩ := h
  rw [hop] at hop'
  cases hop'
  exact ⟨hid, hmutation⟩

end Operations

/-! ### The invariant is kept -/

section Kept

variable {env : CodexEnv} {by_ : Option Nat} {s s' : BrokerState}

theorem BrokerMove.journalled (hs : s.Journalled) (hmove : BrokerMove env by_ s s') :
    s'.Journalled := by
  have hgrows := hmove.grows
  refine
    { world := ?world, clock := Int.le_trans hs.clock hgrows.clock, drawn := ?drawn, owner := ?owner
      reserved := ?reserved, distinct := ?distinct, spent := ?spent, numbered := ?numbered
      unique := ?unique, entry := ?entry, cleanup := ?cleanup }
  case world =>
    obtain ⟨steps, hsteps⟩ := hs.world
    have hnext : ∀ label, ∃ steps', s.world.step label = World.init.run steps' := by
      intro label
      exact ⟨steps ++ [label], by rw [World.run_append, ← hsteps]; rfl⟩
    cases hmove with
    | elsewhere label => exact hnext label
    | transacted pid runId now op => exact hnext (.direct runId now op)
    | _ => exact ⟨steps, hsteps⟩
  case drawn =>
    intro x hx
    cases hmove with
    | drawn pid id =>
      rcases List.mem_cons.1 hx with rfl | hx
      · exact List.mem_cons_self
      · exact List.mem_cons_of_mem _ (hs.drawn x hx)
    | transacted => exact hs.drawn x (List.mem_filter.1 hx).1
    | elsewhere => exact List.mem_append_right _ (hs.drawn x hx)
    | _ => exact hs.drawn x hx
  case owner =>
    intro id p q hp hq
    cases hmove with
    | drawn pid drawn hby hfresh =>
      rcases List.mem_cons.1 hp with hp' | hp' <;> rcases List.mem_cons.1 hq with hq' | hq'
      · cases hp'
        cases hq'
        rfl
      · cases hp'
        exact absurd (hs.drawn (id, q) hq') hfresh
      · cases hq'
        exact absurd (hs.drawn (id, p) hp') hfresh
      · exact hs.owner hp' hq'
    | transacted => exact hs.owner (List.mem_filter.1 hp).1 (List.mem_filter.1 hq).1
    | _ => exact hs.owner hp hq
  case reserved =>
    intro r op' hop'
    rcases hmove.operation_before hs hop' with ⟨op, hop, hid, -⟩ | ⟨-, hspent, -⟩
    · rw [hid]
      exact hmove.spent (hs.reserved hop)
    · exact hspent
  case distinct =>
    intro r r' op op' hop hop' hid
    rcases hmove.operation_before hs hop with ⟨o, ho, hoid, -⟩ | ⟨hnew, -, -, -, hnone, halone⟩ <;>
      rcases hmove.operation_before hs hop' with ⟨o', ho', hoid', -⟩ | ⟨hnew', -, -, -, hnone', -⟩
    · exact hs.distinct ho ho' (by rw [← hoid, ← hoid', hid])
    · rw [← hid, hoid] at hnew'
      exact absurd (hs.reserved ho) hnew'
    · rw [hid, hoid'] at hnew
      exact absurd (hs.reserved ho') hnew
    · by_cases hr : r' = r
      · exact hr.symm
      · rw [halone r' hr, hnone'] at hop'
        cases hop'
  case spent =>
    intro e he
    rcases hmove.journal_before hs he with he | hnew
    · exact hmove.spent (hs.spent e he)
    · obtain ⟨op, hop, hid, -⟩ := hnew.operation
      exact hid ▸ hmove.spent (hs.reserved hop)
  case numbered =>
    intro e he
    rcases hmove.journal_before hs he with he | hnew
    · obtain ⟨k, hk, hbound⟩ := hs.numbered e he
      refine ⟨k, hk, fun r op' hop' hid => ?_⟩
      obtain ⟨op, hop, hid', -, hf, hle⟩ :=
        hmove.operation_spent hs hop' (hid ▸ hs.spent e he)
      obtain ⟨hr, hf', hk'⟩ := hbound r op hop (hid' ▸ hid)
      exact ⟨hr, hf.trans hf', hk'.trans hle⟩
    · obtain ⟨op, hop, hoid, hid, hafter, hf⟩ := hnew.operation
      refine ⟨_, hoid ▸ hid, fun r op' hop' hid' => ?_⟩
      obtain ⟨o, ho, hoid', -⟩ :=
        hmove.operation_spent hs hop' ((hid'.trans hoid.symm) ▸ hs.reserved hop)
      obtain rfl : r = e.runId := hs.distinct ho hop (hoid'.symm.trans (hid'.trans hoid.symm))
      rw [hafter] at hop'
      cases hop'
      exact ⟨rfl, hf, Nat.le_refl _⟩
  case unique =>
    intro e he e' he' heq
    rcases hmove.journal_cases hs with hsame |
      ⟨r, op, mutation, pid, -, hop, -, hid, -, -, hjournal⟩
    · rw [hsame] at he he'
      exact hs.unique e he e' he' heq
    · have hnew : ∀ x ∈ s.journal, x.mutation.id ≠ mutation.id := by
        intro x hx hxid
        obtain ⟨k, hk, hbound⟩ := hs.numbered x hx
        obtain ⟨hop', hk'⟩ := mutationIdOf_inj (hk.symm.trans (hxid.trans hid))
        have hle := (hbound r op hop hop'.symm).2.2
        omega
      rw [hjournal] at he he'
      rcases List.mem_cons.1 he with rfl | he <;> rcases List.mem_cons.1 he' with rfl | he'
      · rfl
      · exact absurd heq.symm (hnew e' he')
      · exact absurd heq (hnew e he)
      · exact hs.unique e he e' he' heq
  case entry =>
    intro r op' m hop' hm
    have hchange := hmove.operation hs r
    rw [hop'] at hchange
    generalize hbefore : s.world.operation r = before at hchange
    have hold : ∀ op, s.world.operation r = some op → op.mutation = some m → op'.id = op.id →
        op'.claimFingerprint = op.claimFingerprint → ∃ e ∈ s'.journal, e.runId = r ∧
          e.operationId = op'.id ∧ e.claimFingerprint = op'.claimFingerprint ∧ e.mutation = m := by
      intro op hop hmutation hid hf
      obtain ⟨e, he, hrun, heid, hef, hem⟩ := hs.entry hop hmutation
      exact ⟨e, hgrows.journal e he, hrun, heid.trans hid.symm, hef.trans hf.symm, hem⟩
    cases hchange with
    | same => exact hold op' hbefore hm rfl rfl
    | begun _ _ _ _ hnone => rw [hnone] at hm; cases hm
    | prepared op mutation pid _ _ _ _ hjournal =>
      cases hm
      rw [hjournal]
      exact ⟨_, List.mem_cons_self, rfl, rfl, rfl, rfl⟩
    | acknowledged => cases hm
    | retried op => exact hold op hbefore hm rfl rfl
  case cleanup =>
    intro r op' id generation repository expiresAt hop' hkind hm
    have hchange := hmove.operation hs r
    rw [hop'] at hchange
    generalize hbefore : s.world.operation r = before at hchange
    cases hchange with
    | same => exact hs.cleanup hbefore hkind hm
    | begun _ _ _ _ hnone => rw [hnone] at hm; cases hm
    | prepared op mutation pid _ _ _ hmay =>
      cases hm
      exact hmay.2 op hbefore rfl hkind
    | acknowledged => cases hm
    | retried op => exact hs.cleanup hbefore hkind hm

theorem BrokerMove.leased (hs : s.Journalled) (hl : s.Leased) (hmove : BrokerMove env by_ s s') :
    s'.Leased := by
  have hgrows := hmove.grows
  refine { distinct := ?distinct, entitled := ?entitled, settled := ?settled, flying := ?flying }
  case distinct =>
    rcases hmove.lease_cases with hsame | ⟨write, generation, -, -, hfresh, rfl⟩
    · rw [hsame]
      exact hl.distinct
    · exact Versions.Distinct.push (v := write.version generation) hl.distinct
        (isFreshGeneration_fresh hfresh)
  case entitled =>
    intro e he id generation repository expiresAt hmutation
    rcases hmove.journal_before hs he with he | hnew
    · exact hgrows.entitled (hl.entitled e he id generation repository expiresAt hmutation)
    · have hmay := hnew.may
      rw [hmutation] at hmay
      exact hgrows.entitled hmay.1
  case settled =>
    intro e he id generation repository expiresAt hmutation
    rcases hmove.journal_before hs he with he | hnew
    · rcases hl.settled e he id generation repository expiresAt hmutation with hout | hgone
      · rcases hmove.outstanding hs hout with hout | ⟨pid, receipt, -, hmay⟩
        · exact .inl hout
        · refine .inr (hmove.leaseSuperseded
            (hmay.lease e he generation repository expiresAt ?_))
          rw [hmutation]
          rfl
      · exact .inr (hmove.leaseSuperseded hgone)
    · exact .inl hnew.outstanding
  case flying =>
    intro w hw
    refine hgrows.leaseWrite ?_
    cases hmove with
    | leaseSent write hwrite =>
      rcases List.mem_append.1 hw with hw | hw
      · exact hl.flying w hw
      · obtain rfl := List.mem_singleton.1 hw
        exact hwrite
    | leaseDropped i => exact hl.flying w (List.mem_of_mem_eraseIdx hw)
    | _ => exact hl.flying w hw

/-- A write of an unacknowledged rotation remains one. -/
theorem BrokerMove.authReady (hs : s.Journalled) (hmove : BrokerMove env by_ s s')
    {w : ObjectWrite CodexAuthObject} (hw : AuthWrite env s w) (hready : AuthReady s w)
    (hkept : w ∈ s.authWrites ∨ s'.world = s.world) : AuthReady s' w := by
  intro hfence e he hid hknown
  obtain ⟨x, hx, sha256, hmutation, -⟩ := hw
  rcases hmove.journal_before hs he with he | hnew
  · rcases hready hfence e he hid hknown with hout | hgone
    · rcases hkept with hflying | hworld
      · rcases hmove.outstanding hs hout with hout | ⟨pid, receipt, -, hmay⟩
        · exact .inl hout
        · obtain rfl : e = x := hs.unique e he x hx (by rw [hid, hmutation]; rfl)
          rcases hmay.auth e he w.expectedGeneration sha256 (hid ▸ hmutation) hknown with
            hgone | ⟨-, hnone⟩
          · exact .inr (hmove.authSuperseded hgone)
          · refine absurd ?_ (hnone w hflying)
            rw [hid, ← hfence]
      · obtain ⟨op, hop, hop'⟩ := hout
        exact .inl ⟨op, hworld ▸ hop, hop'⟩
    · exact .inr (hmove.authSuperseded hgone)
  · exact .inl hnew.outstanding

theorem BrokerMove.authored (hs : s.Journalled) (ha : s.Authored env)
    (hmove : BrokerMove env by_ s s') : s'.Authored env := by
  have hgrows := hmove.grows
  refine
    { distinct := ?distinct, known := ?known, positive := ?positive, flying := ?flying
      stored := ?stored, confirmed := ?confirmed }
  case distinct =>
    rcases hmove.auth_cases with hsame | ⟨write, generation, -, -, -, hfresh, rfl⟩
    · rw [hsame]
      exact ha.distinct
    · exact Versions.Distinct.push (v := write.version generation) ha.distinct
        (isFreshGeneration_fresh hfresh)
  case known =>
    intro e he id generation sha256 hmutation hknown
    rcases hmove.journal_before hs he with he | hnew
    · obtain ⟨v, hv, hg⟩ := ha.known e he id generation sha256 hmutation hknown
      exact ⟨v, hgrows.auth v hv, hg⟩
    · rw [hnew.known, hmutation] at hknown
      obtain ⟨v, hv⟩ := Option.isSome_iff_exists.1 hknown
      obtain ⟨hmem, hg⟩ := mem_of_versionAt hv
      exact ⟨v, hgrows.auth v hmem, hg⟩
  case positive =>
    rcases hmove.auth_cases with hsame | ⟨write, generation, -, -, -, hfresh, rfl⟩
    · rw [hsame]
      exact ha.positive
    · intro v hv
      rcases List.mem_cons.1 hv with rfl | hv
      · exact isFreshGeneration_positive hfresh
      · exact ha.positive v hv
  case flying =>
    have hold : ∀ w ∈ s.authWrites, AuthWrite env s' w ∧ AuthReady s' w := fun w hw =>
      ⟨hgrows.authWrite (ha.flying w hw).1,
        hmove.authReady hs (ha.flying w hw).1 (ha.flying w hw).2 (.inl hw)⟩
    intro w hw
    cases hmove with
    | authSent write hwrite hready pid hby hown =>
      rcases List.mem_append.1 hw with hw | hw
      · exact hold w hw
      · obtain rfl := List.mem_singleton.1 hw
        exact ⟨hgrows.authWrite hwrite, hready⟩
    | authDropped i => exact hold w (List.mem_of_mem_eraseIdx hw)
    | _ => exact hold w hw
  case stored =>
    rcases hmove.auth_cases with hsame | ⟨write, generation, hwrite, -, -, -, rfl⟩
    · intro v hv receipt hreceipt
      exact hgrows.rotated (ha.stored v (hsame ▸ hv) receipt hreceipt)
    · intro v hv receipt hreceipt
      rcases List.mem_cons.1 hv with rfl | hv
      · obtain ⟨e, he, sha256, hmutation, hcontent⟩ := hwrite
        change write.content.receipt = some receipt at hreceipt
        generalize hfence : write.origin.fence = fence at hcontent
        generalize hobject : write.content = content at hcontent hreceipt
        cases hcontent with
        | performed bytes hbytes =>
          cases hreceipt
          refine ⟨e, write.version generation, he, List.mem_cons_self, ?_, hmutation, rfl, rfl, ?_⟩
          · show some write.origin = _
            rw [← hfence]
            rfl
          · show env.sha256 write.content.bytes = _
            rw [hobject]
            exact hbytes
        | kept u hu bytes =>
          have hkept := Option.eq_some_of_filter_eq_some hreceipt
          exact hgrows.rotated (ha.stored u hu receipt hkept)
      · exact hgrows.rotated (ha.stored v hv receipt hreceipt)
  case confirmed =>
    intro r run receipt hrun hreceipt
    obtain ⟨steps, hsteps⟩ := hs.world
    have hold : ∀ label, (s.world.step label).store.runs.get r = some run →
        (∀ f id change, label.credentialChange = some (r, id, f, change) → ∀ mutationId given,
          change = .acknowledge mutationId (some given) → RotatedBy env s r given) →
        RotatedBy env s' r receipt := by
      intro label hrun hmay
      rw [hsteps] at hrun
      rcases World.receipt_moves steps label hrun hreceipt with ⟨x, hx, hold⟩ |
        ⟨op, mutation, -, -, hlabel⟩
      · exact hgrows.rotatedBy (ha.confirmed (hsteps ▸ hx) hold)
      · exact hgrows.rotatedBy (hmay _ _ _ hlabel _ _ rfl)
    cases hmove with
    | elsewhere label hlabel hfresh =>
      refine hold label hrun fun f id change hchange => ?_
      rw [(Step.isBrokers_eq_false hlabel).1] at hchange
      cases hchange
    | transacted pid runId now op hby hmay =>
      refine hold _ hrun fun f id change hchange mutationId given hgiven => ?_
      subst hgiven
      obtain ⟨rfl, rfl | ⟨_, _, _, -, hne⟩⟩ := Step.credentialChange_direct hchange
      · exact hmay.receipt given rfl
      · cases hne
    | _ => exact hgrows.rotatedBy (ha.confirmed hrun hreceipt)

/-- Every move keeps the invariant. -/
theorem BrokerMove.sound (hs : s.Sound env) (hmove : BrokerMove env by_ s s') : s'.Sound env where
  journalled := hmove.journalled hs.journalled
  leased := hmove.leased hs.journalled hs.leased
  authored := hmove.authored hs.journalled hs.authored

end Kept

end AgentLcars
