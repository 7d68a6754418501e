import AgentLcars.BrokerSystem
import AgentLcars.ExitEvidence

/-!
# What a step does to the credential operation of a run

* `OperationMove`, `World.operation_moves`: all that a step may do to it;
* `World.mutation_numbered`: a prepared mutation is the last one that its operation has made;
* `World.operation_beside`: other runs' transactions do nothing to it;
* `World.receipt_moves`: all that a step may do to the receipt of a run;
* `World.claim_ended`: how a settled run comes to hold its claim without an operation;
* `World.terminal_stays`, `World.pending_stays`: settled runs stay settled, accepted completions stay
  accepted.
-/

namespace AgentLcars

theorem World.operation_eq_some {w : World} {runId : String} {op : CredentialOperation} :
    w.operation runId = some op ↔
      ∃ r, w.store.runs.get runId = some r ∧ r.credentialOperation = some op :=
  Option.bind_eq_some_iff

/-- What a step may do to the operation of a run. -/
inductive OperationMove (label : Step) (runId : String) :
    Option CredentialOperation → Option CredentialOperation → Prop where
  | same (o : Option CredentialOperation) : OperationMove label runId o o
  | reserved (claimFingerprint id : String) (kind : CredentialKind) (now : Time)
      (hlabel : label.reservation = some (runId, claimFingerprint, id, kind)) :
      OperationMove label runId none (some
        { id, kind, claimFingerprint, startedAt := now, mutationSequence := 0
          recoverAfter := credentialRecoverAfter now })
  | owed (claimFingerprint id : String) (now : Time) (hlabel : label.cleanupId = some id) :
      OperationMove label runId none (some
        { id, kind := .cleanup, claimFingerprint, startedAt := now, mutationSequence := 0
          recoverAfter := credentialRecoverAfter now })
  | prepared (op : CredentialOperation) (mutation : CredentialMutation)
      (hlabel : label.credentialChange =
        some (runId, op.id, op.claimFingerprint, .prepare mutation))
      (hid : mutation.id = mutationIdOf op.id (op.mutationSequence + 1))
      (hmutation : op.mutation = none) :
      OperationMove label runId (some op) (some { op with
        mutation := some mutation, mutationSequence := op.mutationSequence + 1 })
  | acknowledged (op : CredentialOperation) (mutation : CredentialMutation)
      (receipt : Option CredentialWriteReceipt)
      (hlabel : label.credentialChange =
        some (runId, op.id, op.claimFingerprint, .acknowledge mutation.id receipt))
      (hmutation : op.mutation = some mutation) :
      OperationMove label runId (some op) (some { op with mutation := none })
  | retried (op : CredentialOperation) (recoverAfter : Time)
      (hlabel : label.credentialChange =
        some (runId, op.id, op.claimFingerprint, .retryRecovery)) :
      OperationMove label runId (some op) (some { op with recoverAfter })
  | finished (op : CredentialOperation) (restored : Bool) (sequence : Option Nat)
      (hlabel : label.credentialChange =
        some (runId, op.id, op.claimFingerprint, .finish restored sequence))
      (hmutation : op.mutation = none)
      (hcleanup : op.kind = .cleanup → sequence = some op.mutationSequence) :
      OperationMove label runId (some op) none

section Moves

variable {label : Step} {now : Time} {r r' : Run}

/-- A fenced step, on the operation alone. -/
theorem FencedStep.operationMove {op : CredentialOperation} (h : FencedStep label op r r') :
    OperationMove label r.runId (some op) r'.credentialOperation := by
  cases h with
  | held h =>
    rw [h.operation]
    exact .same _
  | prepare mutation hlabel hid hbound hmutation h =>
    rw [h.operation]
    exact .prepared op mutation hlabel hid hmutation
  | acknowledge mutation receipt hlabel hmutation h =>
    rw [h.operation]
    exact .acknowledged op mutation receipt hlabel hmutation
  | retryRecovery recoverAfter hlabel h =>
    rw [h.operation]
    exact .retried op recoverAfter hlabel
  | finish restored sequence hlabel hmutation hgone hsequence =>
    rw [hgone]
    exact .finished op restored sequence hlabel hmutation fun hkind => hsequence (.inl hkind)

/-- A run without an operation reserves one, owes its cleanup, or stays without one. -/
theorem Move.operationMove (hmove : Move label now r r') (hnone : r.credentialOperation = none) :
    OperationMove label r.runId none r'.credentialOperation := by
  have hkept : r'.credentialOperation = r.credentialOperation →
      OperationMove label r.runId none r'.credentialOperation := by
    intro h
    rw [h, hnone]
    exact .same none
  cases hmove with
  | settle hlive hfree hs hc =>
    cases hc with
    | owed tokenHash cleanupId howes htoken hgiven =>
      exact .owed tokenHash cleanupId _ hgiven
    | free => exact hkept hs.credentialOperation
  | reserve claimFingerprint id kind _ _ _ _ hlabel =>
    exact .reserved claimFingerprint id kind _ hlabel
  | complete op _ _ _ _ hop => simp [hnone] at hop
  | prepare op _ hop => simp [hnone] at hop
  | acknowledge op _ _ hop => simp [hnone] at hop
  | retryRecovery op hop => simp [hnone] at hop
  | finish op _ _ hop => simp [hnone] at hop
  | _ => exact hkept rfl

/-- An accepted completion stays accepted while the operation is there. -/
theorem Move.pending_stays (hmove : Move label now r r') {op : CredentialOperation}
    (hop : r.credentialOperation = some op) (hfenced : Fenced r op)
    (hkept : r'.credentialOperation.isSome = true)
    (hpending : r.credentialPendingResult.isSome = true) :
    r'.credentialPendingResult.isSome = true := by
  cases hmove with
  | defer op =>
    obtain ⟨p, hp⟩ := Option.isSome_iff_exists.1 hpending
    show (r.credentialPendingResult.or _).isSome = true
    rw [hp]
    rfl
  | settle _ hfree =>
    rcases hfree with hnone | hfree
    · rw [hop] at hnone
      cases hnone
    · exact absurd hfenced.claimed hfree
  | complete => cases hkept
  | finish => cases hkept
  | _ => exact hpending

/-- The receipt of a run changes with an acknowledgement that carries one. -/
theorem Move.receipt_moves (hmove : Move label now r r') :
    r'.credentialWriteReceipt = r.credentialWriteReceipt ∨
      ∃ op mutation receipt, r.credentialOperation = some op ∧ op.mutation = some mutation ∧
        label.credentialChange = some (r.runId, op.id, op.claimFingerprint,
          .acknowledge mutation.id (some receipt)) ∧ r'.credentialWriteReceipt = some receipt := by
  cases hmove with
  | acknowledge op mutation receipt hop hmutation hclaim hlabel =>
    cases receipt with
    | none => exact .inl rfl
    | some receipt => exact .inr ⟨op, mutation, receipt, hop, hmutation, hlabel, rfl⟩
  | settle hlive hfree hs hc => cases hc <;> cases hs <;> exact .inl rfl
  | _ => exact .inl rfl

/-- A queue record that is kept or retired is a claim only of the token that it was one of before. -/
theorem isClaimant_of_kept {f : String} (hqueue : r'.queue = r.queue ∨
    r'.queue = r.queue.map (·.retire)) (hclaim : isClaimant r' f = true) : isClaimant r f = true := by
  obtain ⟨hclaimed, htoken⟩ := of_decide_eq_true hclaim
  unfold Run.queueState at hclaimed
  unfold Run.tokenHash at htoken
  rcases hqueue with hqueue | hqueue
  · rw [hqueue] at hclaimed htoken
    exact decide_eq_true ⟨hclaimed, htoken⟩
  · rw [hqueue] at hclaimed
    cases hq : r.queue <;> simp [hq, RunQueue.retire] at hclaimed

/-- A run that settles holding its claim and no operation ends the operation that kept it. -/
theorem Settlement.claimant {s : Run} {f : String} (hs : Settlement label now r s)
    (hc : Cleaned label.cleanupId r s r') (hnone : r'.credentialOperation = none)
    (hcodex : usesCodexCredentials r' = true) : isClaimant r' f = false := by
  cases hclaim : isClaimant r' f with
  | false => rfl
  | true =>
    cases hc with
    | owed => cases hnone
    | free hfree =>
      obtain ⟨hclaimed, htoken⟩ := of_decide_eq_true (isClaimant_of_kept hs.queue_cases hclaim)
      have howes : owesCleanup r = true :=
        decide_eq_true ⟨(usesCodexCredentials_of_frozen hs.frozen).symm.trans hcodex, hclaimed,
          by rw [htoken]; rfl⟩
      rw [hfree] at howes
      cases howes

/-- How a settled run comes to hold its claim without an operation. -/
theorem Move.claim_ended {f : String} (hmove : Move label now r r')
    (hfenced : ∀ op, r.credentialOperation = some op → Fenced r op)
    (hdead : isLive r'.state = false) (hnone : r'.credentialOperation = none)
    (hcodex : usesCodexCredentials r' = true) (hclaim : isClaimant r' f = true)
    (hcleanup : isLive r.state = false → ∀ op, r.credentialOperation = some op →
      op.kind = .cleanup) :
    (isLive r.state = false ∧ r.credentialOperation = none ∧ isClaimant r f = true) ∨
      ∃ op restored, r.credentialOperation = some op ∧ op.claimFingerprint = f ∧
        label.credentialChange = some (r.runId, op.id, op.claimFingerprint,
          .finish restored (some op.mutationSequence)) := by
  have htoken : ∀ op, r.credentialOperation = some op → isClaimant r f = true →
      op.claimFingerprint = f := by
    intro op hop hclaim
    have htoken := (of_decide_eq_true hclaim).2
    rw [(hfenced op hop).token] at htoken
    exact Option.some.inj htoken
  cases hmove with
  | settle _ _ hs hc =>
    rw [hs.claimant hc hnone hcodex] at hclaim
    cases hclaim
  | complete op pending task restored _ hop _ _ _ hlabel =>
    exact .inr ⟨op, restored, hop, htoken op hop
      (isClaimant_of_kept (operationFinished_queue r op restored op.claimFingerprint) hclaim), hlabel⟩
  | finish op restored sequence hop _ _ hsequence _ hlabel =>
    obtain rfl := hsequence (hcleanup hdead op hop)
    exact .inr ⟨op, restored, hop, htoken op hop
      (isClaimant_of_kept (operationFinished_queue r op restored op.claimFingerprint) hclaim), hlabel⟩
  | confirm => cases hdead
  | observe _ _ hlive => exact absurd (hlive.symm.trans hdead) (by decide)
  | renewUnqueued hlive => exact absurd (hlive.symm.trans hdead) (by decide)
  | enqueue => cases (of_decide_eq_true hclaim).1
  | claim _ hlive => exact absurd (hlive.symm.trans hdead) (by decide)
  | release _ _ _ hlive => exact absurd (hlive.symm.trans hdead) (by decide)
  | defer _ _ _ _ hlive => exact absurd (hlive.symm.trans hdead) (by decide)
  | retire _ hop => exact .inl ⟨hdead, hop, isClaimant_of_kept (.inr rfl) hclaim⟩
  | reserve => cases hnone
  | prepare => cases hnone
  | acknowledge => cases hnone
  | retryRecovery => cases hnone
  | _ => exact .inl ⟨hdead, hnone, hclaim⟩

end Moves

section Steps

variable (steps : List Step) (label : Step) (runId : String)

/-- All that a step may do to the operation of a run. -/
theorem World.operation_moves : OperationMove label runId ((World.init.run steps).operation runId)
    (((World.init.run steps).step label).operation runId) := by
  have hw := World.coherent_run steps
  have hfences := World.fences_run steps
  unfold World.operation
  cases hr : (World.init.run steps).store.runs.get runId with
  | some r =>
    obtain ⟨now, r', hr', hmove⟩ := (hw.change label).run_moves hw.store hr
    have hid : r.runId = runId := hw.store.runKeyed hr
    rw [hr', Option.bind_some, Option.bind_some, ← hid]
    cases hop : r.credentialOperation with
    | none => exact hmove.operationMove hop
    | some op => exact (hmove.fencedStep (hfences.fenced hr hop) hop).operationMove
  | none =>
    cases hx : ((World.init.run steps).step label).store.runs.get runId with
    | none => exact .same none
    | some x =>
      rcases (hw.change label).run_cases hw.store hx with ⟨now, r, hr', -⟩ | ⟨-, hfresh⟩
      · rw [hr] at hr'
        cases hr'
      · rw [Option.bind_some, hfresh.credentialOperation]
        exact .same none

/-- The mutation of an operation carries the number of its last one. -/
theorem World.mutation_numbered {steps : List Step} {runId : String} {op : CredentialOperation}
    {mutation : CredentialMutation} (hop : (World.init.run steps).operation runId = some op)
    (hmutation : op.mutation = some mutation) :
    mutation.id = mutationIdOf op.id op.mutationSequence := by
  induction steps using List.reverseRecOn generalizing op with
  | nil => cases hop
  | append_singleton steps label ih =>
    have hmove := World.operation_moves steps label runId
    rw [World.run_append] at hop
    change ((World.init.run steps).step label).operation runId = some op at hop
    rw [hop] at hmove
    generalize hbefore : (World.init.run steps).operation runId = before at hmove
    cases hmove with
    | same => exact ih hbefore hmutation
    | reserved => cases hmutation
    | owed => cases hmutation
    | prepared op _ _ hid =>
      cases hmutation
      exact hid
    | acknowledged => cases hmutation
    | retried op =>
      have hid : mutation.id = mutationIdOf op.id op.mutationSequence := ih hbefore hmutation
      exact hid

/-- A transaction on a run leaves the operations of the other runs alone. -/
theorem World.operation_beside (r cleanupId : String) (now : Time) (op : RunOp) (hne : r ≠ runId) :
    ((World.init.run steps).step (.onRun r now cleanupId op)).operation runId =
      (World.init.run steps).operation runId := by
  have hw := World.coherent_run steps
  unfold World.operation
  cases hr : (World.init.run steps).store.runs.get runId with
  | some run => rw [hw.onRun_beside hr hne]
  | none =>
    cases hx : ((World.init.run steps).step (.onRun r now cleanupId op)).store.runs.get runId with
    | none => rfl
    | some x =>
      rcases (hw.change _).run_cases hw.store hx with ⟨_, x', hx', -⟩ | ⟨-, hfresh⟩
      · rw [hr] at hx'
        cases hx'
      · exact hfresh.credentialOperation

/-- A settled run stays settled. -/
theorem World.terminal_stays {runId : String} {r : Run}
    (hr : (World.init.run steps).store.runs.get runId = some r) (hdead : isLive r.state = false) :
    ∃ r', ((World.init.run steps).step label).store.runs.get runId = some r' ∧
      isLive r'.state = false := by
  have hw := World.coherent_run steps
  obtain ⟨now, r', hr', hmove⟩ := (hw.change label).run_moves hw.store hr
  exact ⟨r', hr', by rw [(hmove.terminal hdead).1]; exact hdead⟩

/-- How a settled run comes to hold its claim without an operation. -/
theorem World.claim_ended {runId f : String} {r' : Run}
    (hr' : ((World.init.run steps).step label).store.runs.get runId = some r')
    (hdead : isLive r'.state = false) (hnone : r'.credentialOperation = none)
    (hcodex : usesCodexCredentials r' = true) (hclaim : isClaimant r' f = true) :
    (∃ r, (World.init.run steps).store.runs.get runId = some r ∧ isLive r.state = false ∧
      r.credentialOperation = none ∧ usesCodexCredentials r = true ∧ isClaimant r f = true) ∨
    ∃ op restored, (World.init.run steps).operation runId = some op ∧ op.claimFingerprint = f ∧
      label.credentialChange = some (runId, op.id, op.claimFingerprint,
        .finish restored (some op.mutationSequence)) := by
  have hw := World.coherent_run steps
  rcases (hw.change label).run_cases hw.store hr' with ⟨now, r, hr, hmove⟩ | ⟨-, hfresh⟩
  · have hid : r.runId = runId := hw.store.runKeyed hr
    rcases hmove.claim_ended (fun op => (World.fences_run steps).fenced hr) hdead hnone hcodex hclaim
      (fun hdead op => World.cleanupOnly_run steps hr hdead) with
      ⟨hdead, hnone, hclaim⟩ | ⟨op, restored, hop, hclaim, hlabel⟩
    · exact .inl ⟨r, hr, hdead, hnone,
        (usesCodexCredentials_of_frozen hmove.frozen).symm.trans hcodex, hclaim⟩
    · rw [hid] at hlabel
      exact .inr ⟨op, restored, World.operation_eq_some.2 ⟨r, hr, hop⟩, hclaim, hlabel⟩
  · rw [hfresh.state] at hdead
    cases hdead

/-- A receipt was there before, or an acknowledgement carried it. -/
theorem World.receipt_moves {runId : String} {r' : Run} {receipt : CredentialWriteReceipt}
    (hr' : ((World.init.run steps).step label).store.runs.get runId = some r')
    (hreceipt : r'.credentialWriteReceipt = some receipt) :
    (∃ r, (World.init.run steps).store.runs.get runId = some r ∧
      r.credentialWriteReceipt = some receipt) ∨
    ∃ op mutation, (World.init.run steps).operation runId = some op ∧
      op.mutation = some mutation ∧ label.credentialChange =
        some (runId, op.id, op.claimFingerprint, .acknowledge mutation.id (some receipt)) := by
  have hw := World.coherent_run steps
  rcases (hw.change label).run_cases hw.store hr' with ⟨now, r, hr, hmove⟩ | ⟨-, hfresh⟩
  · have hid : r.runId = runId := hw.store.runKeyed hr
    rcases hmove.receipt_moves with hsame | ⟨op, mutation, given, hop, hmutation, hlabel, hgiven⟩
    · exact .inl ⟨r, hr, hsame ▸ hreceipt⟩
    · rw [hreceipt] at hgiven
      cases hgiven
      rw [hid] at hlabel
      exact .inr ⟨op, mutation, World.operation_eq_some.2 ⟨r, hr, hop⟩, hmutation, hlabel⟩
  · rw [hfresh.credentialWriteReceipt] at hreceipt
    cases hreceipt

/-- An accepted completion stays accepted while the run has an operation. -/
theorem World.pending_stays {runId : String} {r r' : Run}
    (hr : (World.init.run steps).store.runs.get runId = some r)
    (hr' : ((World.init.run steps).step label).store.runs.get runId = some r')
    {op : CredentialOperation} (hop : r.credentialOperation = some op)
    (hkept : r'.credentialOperation.isSome = true)
    (hpending : r.credentialPendingResult.isSome = true) :
    r'.credentialPendingResult.isSome = true := by
  have hw := World.coherent_run steps
  obtain ⟨now, x, hx, hmove⟩ := (hw.change label).run_moves hw.store hr
  obtain rfl : x = r' := Option.some.inj (hx.symm.trans hr')
  exact hmove.pending_stays hop ((World.fences_run steps).fenced hr hop) hkept hpending

end Steps

end AgentLcars
