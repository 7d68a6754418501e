import AgentLcars.BrokerInvariant

/-!
# Facts that broker processes rely on

* `brokers`: the processes as parties over what they share;
* `BrokerState.execute_move`: a call that a process may make is one move;
* `InMeantime`: what may happen while a process waits;
* `Enduring`: a fact that no move ends; `LeftAlone`: a fact that only the process itself can end;
* `NoCleanup`, `StillAt` and `Concluding` are what a process knows of its operation and of its lease.
-/

namespace AgentLcars

/-- The broker processes over what they share. -/
def brokers (env : CodexEnv) : Parties Nat BrokerState BrokerCall BrokerCall.Reply where
  inv s := s.Sound env
  allowed pid c s := MayCall env pid c s
  exec pid c s r s' := ∃ answer, s.execute pid answer c = some (r, s')
  surroundings s s' := BrokerMove env none s s'

/-! ### Calls are moves -/

section Execution

variable {env : CodexEnv} {pid : Nat} {answer : BrokerAnswer} {s s' : BrokerState}

section Writes

variable {α : Type} {write : ObjectWrite α} {versions : List (ObjectVersion α)}
  {written : List (ObjectVersion α) → BrokerState} {reply : SaveReply}

/-- A write that is carried out. -/
def ObjectWrite.CarriedOut (write : ObjectWrite α) (versions : List (ObjectVersion α))
    (written : List (ObjectVersion α) → BrokerState) (s' : BrokerState) : Prop :=
  ∃ fresh, generationOf versions = write.expectedGeneration ∧
    isFreshGeneration versions fresh = true ∧ s' = written (write.version fresh :: versions)

theorem ObjectWrite.carryOut_cases {fresh : String}
    (h : write.carryOut fresh versions s written = some (reply, s')) :
    (reply = .refused ∧ s' = s ∧ generationOf versions ≠ write.expectedGeneration) ∨
    (reply = .saved ∧ write.CarriedOut versions written s') := by
  unfold ObjectWrite.carryOut at h
  split_ifs at h with hne hfresh
  · cases h
    exact .inl ⟨rfl, rfl, hne⟩
  · cases h
    exact .inr ⟨rfl, fresh, not_not.1 hne, hfresh, rfl⟩

/-- What a conditional write comes to: it is refused, or carried out and answered or not, sent, or
not made. -/
theorem BrokerAnswer.save_cases {late : BrokerState}
    (h : answer.save s late (fun fresh => write.carryOut fresh versions s written) =
      some (reply, s')) :
    (reply = .refused ∧ s' = s ∧ generationOf versions ≠ write.expectedGeneration) ∨
    (reply = .saved ∧ write.CarriedOut versions written s') ∨
    (reply = .failed ∧ (write.CarriedOut versions written s' ∨ s' = late ∨ s' = s)) := by
  cases answer with
  | returns fresh => exact (ObjectWrite.carryOut_cases h).imp_right .inl
  | lost fresh =>
    obtain ⟨⟨given, after⟩, hwrite, heq⟩ := Option.map_eq_some_iff.1 h
    cases heq
    rcases ObjectWrite.carryOut_cases hwrite with ⟨-, rfl, -⟩ | ⟨-, hwritten⟩
    · exact .inr (.inr ⟨rfl, .inr (.inr rfl)⟩)
    · exact .inr (.inr ⟨rfl, .inl hwritten⟩)
  | late => cases h; exact .inr (.inr ⟨rfl, .inr (.inl rfl)⟩)
  | gone => cases h; exact .inr (.inr ⟨rfl, .inr (.inr rfl)⟩)
  | fails => cases h; exact .inr (.inr ⟨rfl, .inr (.inr rfl)⟩)

end Writes

/-- What a transaction comes to. -/
theorem BrokerAnswer.commit_cases {α : Type} {committed : BrokerState} {outcome : α}
    {reply : Option α} (h : answer.commit s committed outcome = some (reply, s')) :
    (s' = committed ∧ (reply = some outcome ∨ reply = none)) ∨ (s' = s ∧ reply = none) := by
  cases answer with
  | returns => cases h; exact .inl ⟨rfl, .inl rfl⟩
  | lost => cases h; exact .inl ⟨rfl, .inr rfl⟩
  | late => cases h; exact .inr ⟨rfl, rfl⟩
  | gone => cases h; exact .inr ⟨rfl, rfl⟩
  | fails => cases h; exact .inr ⟨rfl, rfl⟩

/-- A drawn UUID was never drawn before. -/
theorem BrokerState.randomUUID_cases {id : String}
    (h : s.execute pid answer .randomUUID = some (id, s')) :
    ∃ fresh, fresh ∉ s.issued ∧ id = fresh ∧
      s' = { s with issued := fresh :: s.issued, unspent := (fresh, pid) :: s.unspent } := by
  cases answer with
  | returns fresh =>
    change (if fresh ∈ s.issued then none else some (fresh, _)) = some (id, s') at h
    by_cases hissued : fresh ∈ s.issued
    · rw [if_pos hissued] at h
      cases h
    · rw [if_neg hissued] at h
      cases h
      exact ⟨_, hissued, rfl, rfl⟩
  | _ => cases h

/-- A heartbeat is a step of the run, or nothing. -/
theorem BrokerState.renew_cases {runId : String} {claimFingerprint : Option String} {started : Bool}
    {reply : Option Outcome}
    (h : s.execute pid answer (.renew runId claimFingerprint started) = some (reply, s')) :
    s' = s ∨ ∃ fresh, fresh ∉ s.issued ∧
      s' = { s with
        world := s.world.step (.onRun runId s.clock fresh (.renew claimFingerprint started))
        issued := fresh :: s.issued } := by
  have hcommit : ∀ fresh (answer : BrokerAnswer) committed (outcome : Outcome),
      (if fresh ∈ s.issued then none else answer.commit s committed outcome) = some (reply, s') →
        s' = s ∨ (fresh ∉ s.issued ∧ s' = committed) := by
    intro fresh answer committed outcome h
    by_cases hissued : fresh ∈ s.issued
    · rw [if_pos hissued] at h
      cases h
    · rw [if_neg hissued] at h
      rcases BrokerAnswer.commit_cases h with ⟨rfl, -⟩ | ⟨rfl, -⟩
      · exact .inr ⟨hissued, rfl⟩
      · exact .inl rfl
  cases answer with
  | returns fresh => exact (hcommit _ _ _ _ h).imp_right fun h => ⟨fresh, h⟩
  | lost fresh => exact (hcommit _ _ _ _ h).imp_right fun h => ⟨fresh, h⟩
  | late => cases h; exact .inl rfl
  | gone => cases h; exact .inl rfl
  | fails => cases h; exact .inl rfl

/-- A call that a process may make is one move, if it does anything. -/
theorem BrokerState.execute_move {c : BrokerCall} {r : c.Reply} (hmay : MayCall env pid c s)
    (h : s.execute pid answer c = some (r, s')) : s' = s ∨ BrokerMove env (some pid) s s' := by
  cases c with
  | now => cases h; exact .inl rfl
  | randomUUID =>
    obtain ⟨fresh, hissued, -, rfl⟩ := BrokerState.randomUUID_cases h
    exact .inr (.drawn pid fresh rfl hissued)
  | transact runId at_ op =>
    rcases BrokerAnswer.commit_cases h with ⟨rfl, -⟩ | ⟨rfl, -⟩
    · exact .inr (.transacted pid runId _ op rfl hmay)
    · exact .inl rfl
  | renew runId claimFingerprint started =>
    rcases BrokerState.renew_cases h with rfl | ⟨fresh, hissued, rfl⟩
    · exact .inl rfl
    · refine .inr (.elsewhere (.onRun runId s.clock fresh (.renew claimFingerprint started)) rfl ?_)
      rintro id ⟨⟩
      exact hissued
  | readRun runId => unfold BrokerState.execute at h; cases answer <;> cases h <;> exact .inl rfl
  | listCredentialOperations now limit =>
    unfold BrokerState.execute at h
    cases answer <;> cases h <;> exact .inl rfl
  | leaseMetadata => cases h; exact .inl rfl
  | leaseDownload generation => cases h; exact .inl rfl
  | authMetadata => cases h; exact .inl rfl
  | authDownload generation => cases h; exact .inl rfl
  | saveLease write =>
    rcases BrokerAnswer.save_cases h with ⟨-, rfl, -⟩ | ⟨-, fresh, hcurrent, hfresh, rfl⟩ |
      ⟨-, ⟨fresh, hcurrent, hfresh, rfl⟩ | rfl | rfl⟩
    · exact .inl rfl
    · exact .inr (.leaseWritten write fresh hmay hcurrent hfresh)
    · exact .inr (.leaseWritten write fresh hmay hcurrent hfresh)
    · exact .inr (.leaseSent write hmay)
    · exact .inl rfl
  | saveAuth write =>
    obtain ⟨hwrites, hready, hown⟩ := hmay
    rcases BrokerAnswer.save_cases h with ⟨-, rfl, -⟩ | ⟨-, fresh, hcurrent, hfresh, rfl⟩ |
      ⟨-, ⟨fresh, hcurrent, hfresh, rfl⟩ | rfl | rfl⟩
    · exact .inl rfl
    · exact .inr (.authWritten write fresh hwrites hready hcurrent hfresh)
    · exact .inr (.authWritten write fresh hwrites hready hcurrent hfresh)
    · exact .inr (.authSent write hwrites hready pid rfl hown)
    · exact .inl rfl

/-- A call that a process may make keeps the invariant. -/
theorem BrokerState.Sound.execute (hs : s.Sound env) {c : BrokerCall} {r : c.Reply}
    (hmay : MayCall env pid c s) (h : s.execute pid answer c = some (r, s')) : s'.Sound env := by
  rcases BrokerState.execute_move hmay h with rfl | hmove
  · exact hs
  · exact hmove.sound hs

end Execution

/-! ### While a process waits -/

section Waiting

variable {env : CodexEnv} {pid : Nat} {s s' : BrokerState} {R : BrokerState → Prop}

/-- What may have become of the state while the process waited. -/
abbrev InMeantime (env : CodexEnv) (pid : Nat) : BrokerState → BrokerState → Prop :=
  (brokers env).Later pid

/-- A fact that only the process itself can end. -/
class LeftAlone (env : CodexEnv) (pid : Nat) (R : BrokerState → Prop) : Prop where
  move : ∀ by_ s s', by_ ≠ some pid → s.Sound env → BrokerMove env by_ s s' → R s → R s'

/-- A fact that no move ends. -/
class Enduring (env : CodexEnv) (R : BrokerState → Prop) : Prop where
  move : ∀ by_ s s', s.Sound env → BrokerMove env by_ s s' → R s → R s'

instance Enduring.leftAlone [hR : Enduring env R] : LeftAlone env pid R where
  move by_ s s' _ := hR.move by_ s s'

theorem LeftAlone.rests (hR : LeftAlone env pid R) : (brokers env).Rests pid R := by
  rintro s s' hs (hmove | ⟨j, hne, c, r, hmay, answer, hexec⟩) - h
  · exact hR.move none s s' (by rintro ⟨⟩) hs hmove h
  · rcases BrokerState.execute_move hmay hexec with rfl | hmove
    · exact h
    · exact hR.move (some j) s s' (fun h => hne (Option.some.inj h)) hs hmove h

/-- What only the process itself can end holds after it has waited. -/
theorem InMeantime.keep [hR : LeftAlone env pid R] (h : InMeantime env pid s s') (hs : R s) : R s' :=
  hR.rests.later h hs

theorem Enduring.after (hR : Enduring env R) (h : InMeantime env pid s s') (hs : R s) : R s' :=
  h.keep hs

theorem Enduring.stable (hR : Enduring env R) : (brokers env).Stable R where
  surroundings s s' hs hmove _ := hR.move none s s' hs hmove
  exec i c s r s' hs hmay hexec _ h := by
    obtain ⟨answer, hexec⟩ := hexec
    rcases BrokerState.execute_move hmay hexec with rfl | hmove
    · exact h
    · exact hR.move _ s s' hs hmove h

theorem Enduring.grows {R : BrokerState → Prop} (h : ∀ s s', s.Grows s' → R s → R s') :
    Enduring env R where
  move _ s s' _ hmove := h s s' hmove.grows

instance Enduring.forall {ι : Sort*} {R : ι → BrokerState → Prop} [hR : ∀ i, Enduring env (R i)] :
    Enduring env fun s => ∀ i, R i s where
  move by_ s s' hs hmove h i := (hR i).move by_ s s' hs hmove (h i)

instance Enduring.trivial : Enduring env fun _ => True :=
  ⟨fun _ _ _ _ _ h => h⟩

instance Enduring.imp {p : Prop} [hR : Enduring env R] : Enduring env fun s => p → R s where
  move by_ s s' hs hmove h hp := hR.move by_ s s' hs hmove (h hp)

end Waiting

/-! ### The lease and its writers -/

section Leases

variable {env : CodexEnv} {by_ : Option Nat} {s s' : BrokerState} {r f : String}

/-- An outstanding mutation of the lease by this claim. -/
structure WrittenBy (s : BrokerState) (r f : String) (e : JournalEntry) (id g repository : String)
    (expiresAt : Time) : Prop where
  journalled : e ∈ s.journal
  outstanding : e.Outstanding s
  runId : e.runId = r
  claimFingerprint : e.claimFingerprint = f
  mutation : e.mutation = .leaseWrite id g repository expiresAt

theorem generationOf_eq {α : Type} {versions : List (ObjectVersion α)} {v : ObjectVersion α}
    (h : versions.head? = some v) : generationOf versions = v.generation := by
  unfold generationOf
  rw [h]
  rfl

/-- A write that is carried out is one of an outstanding mutation. -/
theorem LeaseWrite.outstanding (hs : s.Leased) {w : ObjectWrite CodexLeaseRecord}
    (hwrite : LeaseWrite s w) (hcurrent : generationOf s.lease = w.expectedGeneration) :
    ∃ e ∈ s.journal, e.Outstanding s ∧ ∃ repository expiresAt,
      e.mutation = .leaseWrite w.origin.mutationId w.expectedGeneration repository expiresAt ∧
      LeaseContent s e w.origin.mutationId w.expectedGeneration repository expiresAt w.origin.fence
        w.content := by
  obtain ⟨e, he, repository, expiresAt, hmutation, hcontent⟩ := hwrite
  refine ⟨e, he, ?_, repository, expiresAt, hmutation, hcontent⟩
  rcases hs.settled e he _ _ _ _ hmutation with hout | hgone
  · exact hout
  · exact absurd hcurrent hgone.passed

/-- An unexpired lease is overwritten only for a mutation of its own claim. -/
theorem BrokerMove.unexpired_overwritten (hs : s.Sound env) (hmove : BrokerMove env by_ s s')
    {v : ObjectVersion CodexLeaseRecord} (hhead : s.lease.head? = some v)
    (hunexpired : s.clock < v.content.expiresAt) : s'.lease = s.lease ∨
      ∃ (write : ObjectWrite CodexLeaseRecord) (generation : String) (e : JournalEntry)
        (repository : String) (expiresAt : Time), s'.lease = write.version generation :: s.lease ∧
        write.expectedGeneration = v.generation ∧ e ∈ s.journal ∧ e.Outstanding s ∧
        e.runId = v.content.runId ∧ v.content.claimFingerprint = some e.claimFingerprint ∧
        e.mutation = .leaseWrite write.origin.mutationId v.generation repository expiresAt := by
  rcases hmove.lease_cases with hsame | ⟨write, generation, hwrite, hcurrent, -, rfl⟩
  · exact .inl hsame
  · obtain ⟨e, he, hout, repository, expiresAt, hmutation, -⟩ :=
      hwrite.outstanding hs.leased hcurrent
    have hmem : v ∈ s.lease := List.mem_of_mem_head? (hhead ▸ rfl)
    have hg : write.expectedGeneration = v.generation := hcurrent ▸ generationOf_eq hhead
    rcases hs.leased.entitled e he _ _ _ _ hmutation with hzero | ⟨u, hu, hug, hown⟩
    · exact absurd (hg ▸ hzero) (hs.leased.distinct.present v hmem)
    · obtain rfl : u = v := hs.leased.distinct.unique hu hmem (hug.trans hg)
      rcases hown with hexpired | ⟨hrun, hclaim, -⟩
      · exact absurd hunexpired (Int.not_lt.2 hexpired)
      · exact .inr ⟨write, generation, e, repository, expiresAt, rfl, hg, he, hout, hrun.symm, hclaim,
          hg ▸ hmutation⟩

/-- A live lease is overwritten only by a mutation of its own claim. -/
theorem BrokerMove.live_overwritten (hs : s.Sound env) (hmove : BrokerMove env by_ s s')
    (hlive : s.LiveLease r f) : s'.lease = s.lease ∨ ∃ e id repository expiresAt,
      WrittenBy s r f e id (generationOf s.lease) repository expiresAt := by
  obtain ⟨v, hhead, hv⟩ := hlive
  rcases hmove.unexpired_overwritten hs hhead hv.unexpired with hsame |
    ⟨write, generation, e, repository, expiresAt, -, -, he, hout, hrun, hclaim, hmutation⟩
  · exact .inl hsame
  · refine .inr ⟨e, write.origin.mutationId, repository, expiresAt, he, hout, hrun.trans hv.runId,
      Option.some.inj (hclaim.symm.trans hv.claimFingerprint), ?_⟩
    rw [generationOf_eq hhead]
    exact hmutation

/-- A live lease was live before, or its own claim has just written it. -/
theorem BrokerMove.live_before (hs : s.Sound env) (hmove : BrokerMove env by_ s s')
    (hlive : s'.LiveLease r f) : (s.LiveLease r f ∧ s'.lease = s.lease) ∨
      ∃ e id g repository expiresAt, WrittenBy s r f e id g repository expiresAt ∧
        expiresAt ≠ 0 := by
  obtain ⟨v', hhead', hv'⟩ := hlive
  rcases hmove.lease_cases with hsame | ⟨write, generation, hwrite, hcurrent, -, rfl⟩
  · refine .inl ⟨⟨v', hsame ▸ hhead', hv'.runId, hv'.claimFingerprint, ?_⟩, hsame⟩
    exact Int.lt_of_le_of_lt hmove.grows.clock hv'.unexpired
  · obtain ⟨e, he, hout, repository, expiresAt, hmutation, hcontent⟩ :=
      hwrite.outstanding hs.leased hcurrent
    obtain rfl : write.version generation = v' := Option.some.inj hhead'
    have hclock : 0 ≤ s.clock := hs.journalled.clock
    have hwritten : write.content.LiveFor s.clock r f := hv'
    generalize hfence : write.origin.fence = fence at hcontent
    generalize hrecord : write.content = record at hcontent hwritten
    cases hcontent with
    | performed =>
      refine .inr ⟨e, _, _, repository, expiresAt,
        ⟨he, hout, hwritten.runId, Option.some.inj hwritten.claimFingerprint, hmutation⟩, ?_⟩
      have hlt := hwritten.unexpired
      unfold Time at *
      dsimp only at hlt
      omega
    | created hzero record hexpired =>
      have hlt := hwritten.unexpired
      rw [hexpired] at hlt
      exact absurd hlt (Int.not_lt.2 hclock)
    | kept v hv hgeneration =>
      have hhead : s.lease.head? = some v :=
        hs.leased.distinct.head_of_current hv (hcurrent.trans hgeneration.symm)
      have hbefore : v.content.LiveFor s.clock r f := by
        refine ⟨hwritten.runId, hwritten.claimFingerprint, ?_⟩
        have hlt := hwritten.unexpired
        unfold fencedLease at hlt
        dsimp only at hlt
        split_ifs at hlt with hzero
        · rw [hzero.1] at hlt
          exact absurd hlt (Int.not_lt.2 hclock)
        · exact hlt
      rcases hs.leased.entitled e he _ _ _ _ hmutation with hzero | ⟨u, hu, hug, hown⟩
      · exact absurd (hgeneration.trans hzero) (hs.leased.distinct.present v hv)
      · obtain rfl : u = v := hs.leased.distinct.unique hu hv (hug.trans hgeneration.symm)
        rcases hown with hexpired | ⟨hrun, hclaim, hrepository⟩
        · exact absurd hbefore.unexpired (Int.not_lt.2 hexpired)
        · refine .inr ⟨e, _, _, repository, expiresAt, ⟨he, hout, hrun ▸ hbefore.runId,
            Option.some.inj (hclaim.symm.trans hbefore.claimFingerprint), hmutation⟩, ?_⟩
          rintro rfl
          have hlt := hwritten.unexpired
          unfold fencedLease at hlt
          dsimp only at hlt
          rw [if_pos ⟨rfl, hrun, hclaim, hrepository⟩] at hlt
          exact absurd hlt (Int.not_lt.2 hclock)

end Leases

/-! ### What a process knows of its operation -/

/-- The operation `o` of run `r` is no cleanup, as long as it is reserved. -/
structure NoCleanup (r o : String) (s : BrokerState) : Prop where
  spent : s.Spent o
  kind : ∀ op, s.world.operation r = some op → op.id = o → op.kind ≠ .cleanup

/-- The mutation takes no lease. -/
def OnlyRetires (mutation : Option CredentialMutation) : Prop :=
  ∀ id g repository expiresAt, mutation = some (.leaseWrite id g repository expiresAt) →
    expiresAt = 0

/-- As long as the operation has made just `n` mutations it takes no lease, and the lease object has
the given generation or is no live lease of the claim. -/
structure StillAt (r o f : String) (n : Nat) (g : Option String) (s : BrokerState) : Prop where
  spent : s.Spent o
  bound : ∀ op, s.world.operation r = some op → op.id = o → n ≤ op.mutationSequence
  still : ∀ op, s.world.operation r = some op → op.id = o → op.mutationSequence = n →
    OnlyRetires op.mutation ∧ (g = some (generationOf s.lease) ∨ ¬s.LiveLease r f)

/-- The operation cleans up, or a completion of its run is accepted. -/
structure Concluding (r o : String) (s : BrokerState) : Prop where
  spent : s.Spent o
  concluding : ∀ op, s.world.operation r = some op → op.id = o →
    op.kind = .cleanup ∨ s.Pending r

section Knowledge

variable {env : CodexEnv} {by_ : Option Nat} {s s' : BrokerState} {r o f : String}
  {n : Nat} {g : Option String}

instance enduring_entitled {generation repository : String} :
    Enduring env fun s => s.Entitled r f generation repository :=
  .grows fun _ _ hgrows => hgrows.entitled

instance enduring_journal {e : JournalEntry} : Enduring env fun s => e ∈ s.journal :=
  .grows fun _ _ hgrows => hgrows.journal e

instance enduring_lease {v : ObjectVersion CodexLeaseRecord} : Enduring env fun s => v ∈ s.lease :=
  .grows fun _ _ hgrows => hgrows.lease v

instance enduring_auth {v : ObjectVersion CodexAuthObject} : Enduring env fun s => v ∈ s.auth :=
  .grows fun _ _ hgrows => hgrows.auth v

instance enduring_rotatedBy {receipt : CredentialWriteReceipt} :
    Enduring env fun s => RotatedBy env s r receipt :=
  .grows fun _ _ hgrows => hgrows.rotatedBy

instance enduring_leaseSuperseded {generation : String} :
    Enduring env fun s => s.LeaseSuperseded generation :=
  ⟨fun _ _ _ _ hmove => hmove.leaseSuperseded⟩

instance enduring_authSuperseded {generation : String} :
    Enduring env fun s => s.AuthSuperseded generation :=
  ⟨fun _ _ _ _ hmove => hmove.authSuperseded⟩

instance NoCleanup.enduring : Enduring env (NoCleanup r o) := by
  refine ⟨fun by_ s s' hs hmove h => ⟨hmove.spent h.spent, fun op' hop' hid => ?_⟩⟩
  obtain ⟨op, hop, hid', hkind, -⟩ := hmove.operation_spent hs.journalled hop' (hid ▸ h.spent)
  rw [hkind]
  exact h.kind op hop (hid'.symm.trans hid)

theorem OnlyRetires.none : OnlyRetires none := by
  rintro id g repository expiresAt ⟨⟩

/-- The mutation of an operation that has still made as many mutations. -/
theorem BrokerMove.onlyRetires (hs : s.Sound env) (hmove : BrokerMove env by_ s s')
    {op op' : CredentialOperation} (hop : s.world.operation r = some op)
    (hop' : s'.world.operation r = some op') (hid : op'.id = op.id)
    (hsequence : op'.mutationSequence = op.mutationSequence) (h : OnlyRetires op.mutation) :
    OnlyRetires op'.mutation := by
  have hchange := hmove.operation hs.journalled r
  rw [hop, hop'] at hchange
  cases hchange with
  | same => exact h
  | prepared => exact absurd hsequence (Nat.succ_ne_self _)
  | acknowledged => exact OnlyRetires.none
  | retried => exact h

instance StillAt.enduring : Enduring env (StillAt r o f n g) := by
  refine ⟨fun by_ s s' hs hmove h => ?_⟩
  have hbefore : ∀ op', s'.world.operation r = some op' → op'.id = o →
      ∃ op, s.world.operation r = some op ∧ op.id = o ∧
        op.mutationSequence ≤ op'.mutationSequence := by
    intro op' hop' hid
    obtain ⟨op, hop, hid', -, -, hle⟩ := hmove.operation_spent hs.journalled hop' (hid ▸ h.spent)
    exact ⟨op, hop, hid'.symm.trans hid, hle⟩
  refine ⟨hmove.spent h.spent, fun op' hop' hid => ?_, fun op' hop' hid hsequence => ?_⟩
  · obtain ⟨op, hop, hid', hle⟩ := hbefore op' hop' hid
    exact (h.bound op hop hid').trans hle
  · obtain ⟨op, hop, hid', hle⟩ := hbefore op' hop' hid
    have hop_n : op.mutationSequence = n := by
      have := h.bound op hop hid'
      omega
    obtain ⟨honly, hlease⟩ := h.still op hop hid' hop_n
    refine ⟨hmove.onlyRetires hs hop hop' (hid.trans hid'.symm) (hsequence.trans hop_n.symm) honly,
      ?_⟩
    -- only a mutation of this operation could make the lease a live one again
    by_cases hlive : s'.LiveLease r f
    · rcases hmove.live_before hs hlive with ⟨hbefore, hsame⟩ |
        ⟨e, id, generation, repository, expiresAt, hwritten, hne⟩
      · rw [hsame]
        exact .inl (hlease.resolve_right (not_not.2 hbefore))
      · obtain ⟨-, hmutation⟩ := hwritten.outstanding.entry (hwritten.runId ▸ hop)
        rw [hwritten.mutation] at hmutation
        exact absurd (honly _ _ _ _ hmutation) hne
    · exact .inr hlive

theorem StillAt.weaken {g' : Option String} (h : StillAt r o f n g s)
    (hg : g = some (generationOf s.lease) ∨ ¬s.LiveLease r f →
      g' = some (generationOf s.lease) ∨ ¬s.LiveLease r f) : StillAt r o f n g' s :=
  { h with still := fun op hop hid hn => (h.still op hop hid hn).imp_right hg }

/-- A lease of a superseded generation is none. -/
theorem StillAt.lapse {generation : String} (h : StillAt r o f n (some generation) s)
    (hgone : s.LeaseSuperseded generation) : StillAt r o f n none s :=
  h.weaken fun hlease => .inr <|
    hlease.resolve_left fun heq => hgone.passed (Option.some.inj heq).symm

/-- A version that is no live lease of the claim. -/
theorem StillAt.dead {v : ObjectVersion CodexLeaseRecord} (hs : s.Sound env)
    (h : StillAt r o f n (some v.generation) s) (hv : v ∈ s.lease)
    (hdead : ¬v.content.LiveFor s.clock r f) : StillAt r o f n none s := by
  refine h.weaken ?_
  rintro (heq | hnot)
  · refine .inr ?_
    rintro ⟨u, hhead, hlive⟩
    have hhead' := hs.leased.distinct.head_of_current hv (Option.some.inj heq).symm
    obtain rfl := Option.some.inj (hhead.symm.trans hhead')
    exact hdead hlive
  · exact .inr hnot

/-- An object without a version is no lease. -/
theorem StillAt.absent (h : StillAt r o f n g s) (hnil : s.lease = []) :
    StillAt r o f n none s := by
  refine h.weaken fun _ => .inr ?_
  rintro ⟨v, hhead, -⟩
  rw [hnil] at hhead
  cases hhead

/-- The world stays as it is, or takes a step. -/
theorem BrokerMove.world (hmove : BrokerMove env by_ s s') :
    s'.world = s.world ∨ ∃ label, s'.world = s.world.step label := by
  cases hmove with
  | elsewhere label => exact .inr ⟨label, rfl⟩
  | transacted pid runId now op => exact .inr ⟨.direct runId now op, rfl⟩
  | _ => exact .inl rfl

/-- An accepted completion waits for its operation. -/
theorem BrokerMove.pending (hs : s.Sound env) (hmove : BrokerMove env by_ s s')
    {op op' : CredentialOperation} (hop : s.world.operation r = some op)
    (hop' : s'.world.operation r = some op') (h : s.Pending r) : s'.Pending r := by
  obtain ⟨run, hrun, hpending⟩ := h
  obtain ⟨run', hrun', hop''⟩ := World.operation_eq_some.1 hop'
  refine ⟨run', hrun', ?_⟩
  rcases hmove.world with hsame | ⟨label, hstep⟩
  · rw [hsame] at hrun'
    obtain rfl := Option.some.inj (hrun.symm.trans hrun')
    exact hpending
  · obtain ⟨steps, hsteps⟩ := hs.journalled.world
    obtain ⟨x, hx, hxop⟩ := World.operation_eq_some.1 hop
    obtain rfl := Option.some.inj (hrun.symm.trans hx)
    rw [hsteps] at hrun
    rw [hstep, hsteps] at hrun'
    exact World.pending_stays steps label hrun hrun' hxop (by rw [hop'']; rfl) hpending

instance Concluding.enduring : Enduring env (Concluding r o) := by
  refine ⟨fun by_ s s' hs hmove h => ?_⟩
  refine ⟨hmove.spent h.spent, fun op' hop' hid => ?_⟩
  obtain ⟨op, hop, hid', hkind, -⟩ := hmove.operation_spent hs.journalled hop' (hid ▸ h.spent)
  rcases h.concluding op hop (hid'.symm.trans hid) with hcleanup | hpending
  · exact .inl (hkind.trans hcleanup)
  · exact .inr (hmove.pending hs hop hop' hpending)

/-- The lease object may have any generation at first. -/
theorem StillAt.rebase (h : StillAt r o f n g s) :
    StillAt r o f n (some (generationOf s.lease)) s :=
  h.weaken fun _ => .inl rfl

/-- What the last finish of an operation has to prove. -/
theorem StillAt.retired (h : StillAt r o f n none s) (hconcluding : Concluding r o s) :
    Retired s r o f n := by
  intro op hop hid
  refine ⟨hconcluding.concluding op hop hid, fun hn => ?_⟩
  exact (h.still op hop hid hn).2.resolve_left (by rintro ⟨⟩)

end Knowledge

end AgentLcars
