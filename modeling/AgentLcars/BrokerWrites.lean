import AgentLcars.BrokerCalls

/-!
# What the journalled writes of broker code come to

* `saveLease_serves`, `takeLease_serves`, `releaseLease_serves`, `replace_serves`: the writes of a
  mutation that the process has journalled;
* `mutate_serves`: prepare, write, acknowledge;
* `fenceMutation_serves`: after a fence no write of the mutation is carried out any more.
-/

namespace AgentLcars

section Journal

variable {env : CodexEnv} {pid : Nat} {s : BrokerState} {r o f : String} {e : JournalEntry}

/-- A mutation that the process has journalled. -/
structure Journals (pid : Nat) (r o f : String) (mutation : CredentialMutation)
    (s : BrokerState) : Prop where
  entry : ∃ known, (⟨r, o, f, mutation, pid, known⟩ : JournalEntry) ∈ s.journal

instance Journals.enduring {mutation : CredentialMutation} :
    Enduring env (Journals pid r o f mutation) :=
  .grows fun _ _ hgrows ⟨known, h⟩ => ⟨known, hgrows.journal _ h⟩

theorem AcceptedAt.journals {s' s₁ : BrokerState} {d : Decision} {now : Time}
    {mutation : CredentialMutation}
    (h : AcceptedAt env pid s s' r (.changeCredentialOperation o f (.prepare mutation)) d s₁ now) :
    Journals pid r o f mutation s' := by
  obtain ⟨op, -, -, -, -, hjournal⟩ := h.prepared
  exact ⟨_, by rw [hjournal]; exact List.mem_cons_self⟩

/-- The process may acknowledge a mutation whenever it likes. -/
def Acknowledgeable (env : CodexEnv) (pid : Nat) (r id : String)
    (receipt : Option CredentialWriteReceipt) (s : BrokerState) : Prop :=
  ∀ s', InMeantime env pid s s' → s'.Sound env → MayAcknowledge env s' pid r id receipt

/-- A lease mutation whose generation is superseded may be acknowledged. -/
theorem acknowledgeable_lease (he : e ∈ s.journal) {id g repository : String} {expiresAt : Time}
    (hmutation : e.mutation = .leaseWrite id g repository expiresAt) (hgone : s.LeaseSuperseded g) :
    Acknowledgeable env pid r e.mutation.id none s := by
  intro s' hmeantime hs'
  have he := enduring_journal.after hmeantime he
  refine ⟨fun e' he' g' repository' expiresAt' h => ?_, fun e' he' g' sha256 h => ?_,
    by rintro _ ⟨⟩⟩
  · obtain rfl := hs'.journalled.unique e' he' e he (by rw [h]; rfl)
    rw [hmutation] at h
    cases h
    exact enduring_leaseSuperseded.after hmeantime hgone
  · obtain rfl := hs'.journalled.unique e' he' e he (by rw [h]; rfl)
    rw [hmutation] at h
    cases h

/-- A rotation whose write is over may be acknowledged. -/
theorem mayAcknowledge_auth (hs : s.Sound env) (he : e ∈ s.journal) {id g sha256 : String}
    (hmutation : e.mutation = .authWrite id g sha256)
    (hover : e.known = true → s.AuthSuperseded g ∨
      (e.by_ = pid ∧ ∀ w ∈ s.authWrites, w.origin ≠ ⟨id, false⟩))
    {receipt : Option CredentialWriteReceipt}
    (hreceipt : ∀ given, receipt = some given → RotatedBy env s r given) :
    MayAcknowledge env s pid r e.mutation.id receipt := by
  refine ⟨fun e' he' g' repository' expiresAt' h => ?_, fun e' he' g' sha256' h hknown => ?_,
    hreceipt⟩
  · obtain rfl := hs.journalled.unique e' he' e he (by rw [h]; rfl)
    rw [hmutation] at h
    cases h
  · obtain rfl := hs.journalled.unique e' he' e he (by rw [h]; rfl)
    rw [hmutation] at h ⊢
    cases h
    exact hover hknown

theorem acknowledgeable_auth (he : e ∈ s.journal) {id g sha256 : String}
    (hmutation : e.mutation = .authWrite id g sha256)
    (hgone : e.known = true → s.AuthSuperseded g) {receipt : Option CredentialWriteReceipt}
    (hreceipt : ∀ given, receipt = some given → RotatedBy env s r given) :
    Acknowledgeable env pid r e.mutation.id receipt s := fun _ hmeantime hs' =>
  mayAcknowledge_auth hs' (enduring_journal.after hmeantime he) hmutation
    (fun hk => .inl (enduring_authSuperseded.after hmeantime (hgone hk)))
    fun given hgiven => enduring_rotatedBy.after hmeantime (hreceipt given hgiven)

theorem acknowledgeable_rotated (he : e ∈ s.journal) {id g sha256 : String}
    (hmutation : e.mutation = .authWrite id g sha256) (hgone : s.AuthSuperseded g)
    {receipt : CredentialWriteReceipt} (hrotated : RotatedBy env s r receipt) :
    Acknowledgeable env pid r id (some receipt) s ∧ RotatedBy env s r receipt := by
  have hid : e.mutation.id = id := by rw [hmutation]; rfl
  refine ⟨hid ▸ acknowledgeable_auth he hmutation (fun _ => hgone) ?_, hrotated⟩
  rintro given ⟨⟩
  exact hrotated

theorem Journals.acknowledgeable {id g repository : String} {expiresAt : Time}
    (h : Journals pid r o f (.leaseWrite id g repository expiresAt) s)
    (hgone : s.LeaseSuperseded g) : Acknowledgeable env pid r id none s := by
  obtain ⟨known, he⟩ := h
  exact acknowledgeable_lease he rfl hgone

end Journal

/-! ### Writes of the lease -/

section LeaseWrites

variable {env : CodexEnv} {pid : Nat} {s s' : BrokerState} {r o f g : String}
  {lease : CodexAuthLease}

/-- The generation of a journalled mutation is one that the object has had. -/
theorem BrokerState.Leased.known (hs : s.Leased) {e : JournalEntry} (he : e ∈ s.journal)
    {id g repository : String} {expiresAt : Time}
    (hmutation : e.mutation = .leaseWrite id g repository expiresAt) :
    Versions.Known (·.generation) "0" s.lease g := by
  rcases hs.entitled e he _ _ _ _ hmutation with hzero | ⟨v, hv, hg, -⟩
  · exact .inl hzero
  · exact .inr ⟨v, hv, hg⟩

/-- A write that is carried out ends the generation it expects; a refused one finds another. -/
theorem saveLease_serves {origin : WriteOrigin} {record : CodexLeaseRecord}
    (hwrite : LeaseWrite s ⟨origin, g, record⟩) : Serves env pid s (saveLease origin record g)
      (Ends (fun s' _ => s'.LeaseSuperseded g)
        fun s' e => e.definitive = true → s'.LeaseSuperseded g) := by
  unfold saveLease
  refine Serves.call fun s₁ hmeantime hs₁ => ?_
  have hwrite₁ := (Enduring.grows fun _ _ hgrows => hgrows.leaseWrite).after hmeantime hwrite
  refine ⟨hwrite₁, ?_⟩
  rintro answer reply s₂ hexec
  rcases BrokerAnswer.save_cases hexec with
    ⟨rfl, rfl, hne⟩ | ⟨rfl, fresh, hcurrent, hfresh, rfl⟩ | ⟨rfl, -⟩
  · obtain ⟨e, he, repository, expiresAt, hmutation, -⟩ := hwrite₁
    exact Serves.throw fun _ => ⟨hne, hs₁.leased.known he hmutation⟩
  · exact Serves.pure (Versions.superseded_push (v := ObjectWrite.version _ fresh) hcurrent
      (isFreshGeneration_fresh hfresh))
  · exact Serves.throw (by rintro ⟨⟩)

/-- The write of a journalled lease mutation. -/
theorem Journals.leaseWrite {id repository : String} {expiresAt : Time}
    (h : Journals pid r o f (.leaseWrite id g repository expiresAt) s) :
    LeaseWrite s ⟨⟨id, false⟩, g,
      { runId := r, repository, expiresAt, claimFingerprint := some f, operationId := some id }⟩ := by
  obtain ⟨known, h⟩ := h
  exact ⟨_, h, repository, expiresAt, rfl, .performed⟩

/-- The write of an acquisition or a renewal. -/
theorem takeLease_serves {input : CodexLeaseWrite} (hjournal : Journals pid input.runId o
      input.claimFingerprint (.leaseWrite input.operationId g input.repository input.expiresAt) s) :
    Serves env pid s (takeLease input g)
      (Ends (fun s' lease => s'.LeaseSuperseded g ∧ StoredLease lease s' ∧
          lease.ownedBy input.runId input.claimFingerprint = true)
        fun s' e => e.definitive = true → s'.LeaseSuperseded g) := by
  unfold takeLease confirmLease
  refine (saveLease_serves hjournal.leaseWrite).bind (fun s₁ _ hgone => ?_) fun _ _ h => h
  refine (readLease_serves.frame enduring_leaseSuperseded hgone).bind ?_ fun _ _ h _ => h.1
  rintro s₂ lease ⟨hgone₂, hread⟩
  cases lease with
  | none => exact Serves.throw fun _ => hgone₂
  | some lease =>
    dsimp only
    split
    · exact Serves.throw fun _ => hgone₂
    · rename_i hsame
      simp only [not_or, not_not, ne_eq] at hsame
      exact Serves.pure ⟨hgone₂, hread.stored,
        CodexAuthLease.ownedBy_iff.2 ⟨hsame.1, hsame.2.2.1⟩⟩

/-- The write of a release: a replaced generation is as good as a retired lease. -/
theorem releaseLease_serves {id : String} (hjournal : Journals pid r o f (releaseMutation id lease) s)
    (howned : lease.ownedBy r f = true) (hstored : StoredLease lease s) :
    Serves env pid s (releaseLease lease id)
      (Ends (fun s' _ => s'.LeaseSuperseded lease.generation)
        fun s' e => e.definitive = true → s'.LeaseSuperseded lease.generation) := by
  obtain ⟨hrun, hclaim⟩ := CodexAuthLease.ownedBy_iff.1 howned
  have hhex : isHexText 64 f = true := by
    have hvalid := hstored.valid
    unfold CodexLeaseRecord.valid at hvalid
    simp only [hclaim, Bool.decide_and, Bool.and_eq_true] at hvalid
    simpa using hvalid.2.2.1
  have hwrite : LeaseWrite s ⟨⟨id, false⟩, lease.generation,
      { lease.toCodexLeaseRecord with operationId := some id, expiresAt := 0 }⟩ := by
    have h := Journals.leaseWrite hjournal
    rw [← hrun, ← hclaim] at h
    exact h
  have hhas : ¬(lease.claimFingerprint.all fun fingerprint => !isHexText 64 fingerprint) = true := by
    rw [hclaim]
    simp [hhex]
  unfold releaseLease
  dsimp only
  rw [if_neg hhas]
  refine (saveLease_serves hwrite).tryCatch (fun s₁ _ hgone => hgone) fun s₁ e hgone => ?_
  split
  · exact Serves.pure (hgone rfl)
  · exact Serves.throw hgone

end LeaseWrites

/-! ### Prepare, write, acknowledge -/

section Mutating

variable {env : CodexEnv} {pid : Nat} {s : BrokerState} (operation : ReservedCodexOperation)

theorem decidedRun_serves (d : Decision) : Serves env pid s (Broker.decidedRun d)
    (Returns fun s' run => s' = s ∧ d.run = some run) := by
  unfold Broker.decidedRun
  split
  · exact Serves.pure ⟨rfl, by assumption⟩
  · exact Serves.throw trivial

theorem accept_serves (outcome : Except Refusal Decision) :
    Serves env pid s (ReservedCodexOperation.accept outcome)
      (Returns fun s' run => s' = s ∧ ∃ d, outcome = .ok d ∧ d.run = some run) := by
  unfold ReservedCodexOperation.accept
  split
  · split
    · exact Serves.throw trivial
    · exact Serves.throw trivial
  · rename_i d
    refine (decidedRun_serves d).imp fun s' x hx => ?_
    cases x with
    | ok run => exact ⟨hx.1, d, rfl, hx.2⟩
    | error e => exact hx

/-- A change of the operation that is accepted. -/
theorem change_serves {next : CredentialChange} (hmay : ∀ s₁, InMeantime env pid s s₁ →
      s₁.Sound env → MayTransact env s₁ pid operation.run.runId
        (.changeCredentialOperation operation.id operation.claimFingerprint next)) :
    Serves env pid s (operation.change next)
      (Returns fun s' _ => ∃ d, Accepted env pid s s' operation.run.runId
        (.changeCredentialOperation operation.id operation.claimFingerprint next) d) := by
  unfold ReservedCodexOperation.change Broker.change
  refine (transact_serves hmay).bind fun s₁ reply hreply => (accept_serves reply).imp ?_
  rintro s₂ (e | run) hx
  · trivial
  · obtain ⟨rfl, d, rfl, hrun⟩ := hx
    exact ⟨d, hreply d rfl⟩

variable {mutation : CredentialMutation} {receipt : Option CredentialWriteReceipt}

/-- The write of a prepared mutation has to leave it so that it may be acknowledged, if it ends at
all or is definitively refused. -/
theorem mutate_serves {α : Type} {perform : BrokerM α} {R : α → BrokerState → Prop}
    [∀ a, Enduring env (R a)]
    (hprepare : ∀ s₁, InMeantime env pid s s₁ → s₁.Sound env →
      MayPrepare s₁ operation.run.runId operation.id operation.claimFingerprint mutation)
    (hperform : ∀ d s₁ s₂ now, AcceptedAt env pid s s₂ operation.run.runId (.changeCredentialOperation
        operation.id operation.claimFingerprint (.prepare mutation)) d s₁ now →
      Serves env pid s₂ perform
        (Ends (fun s' a => Acknowledgeable env pid operation.run.runId mutation.id receipt s' ∧ R a s')
          fun s' e => e.definitive = true →
            Acknowledgeable env pid operation.run.runId mutation.id none s')) :
    Serves env pid s (operation.mutate mutation perform receipt) (Returns fun s' a => R a s') := by
  unfold ReservedCodexOperation.mutate
  refine (change_serves operation hprepare).bind ?_
  rintro s₁ run ⟨d, s₀, now, haccepted⟩
  refine Serves.bind (Q := Returns fun s' a =>
    Acknowledgeable env pid operation.run.runId mutation.id receipt s' ∧ R a s') ?_ ?_
  · refine (hperform d s₀ s₁ now haccepted).tryCatch (fun s₂ a hQ => hQ) fun s₂ e hQ => ?_
    -- only a definitive refusal is acknowledged
    split
    · rename_i hdefinitive
      exact Serves.bind (change_serves operation (hQ hdefinitive)) fun s₃ _ _ => Serves.throw trivial
    · exact Serves.throw trivial
  · rintro s₂ a ⟨hmay, hR⟩
    have hack : Serves env pid s₂ (operation.change (.acknowledge mutation.id receipt)) _ :=
      change_serves operation hmay
    exact (hack.keep hR).bind fun s₃ _ h => Serves.pure h.1

end Mutating

/-! ### Rotations -/

section Rotations

variable {env : CodexEnv} {pid : Nat} {s s' s₁ : BrokerState} {r o f id g sha256 : String}

/-- A rotation that the process has journalled and not written: its mutation is outstanding, or the
generation it expects is gone. -/
structure Rotating (pid : Nat) (r f id g sha256 : String) (s : BrokerState) : Prop where
  entry : ∃ e ∈ s.journal, e.runId = r ∧ e.claimFingerprint = f ∧
    e.mutation = .authWrite id g sha256 ∧ e.by_ = pid ∧
    (e.known = true → e.Outstanding s ∨ s.AuthSuperseded g) ∧
    ∀ w ∈ s.authWrites, w.origin ≠ ⟨id, false⟩

instance Rotating.leftAlone : LeftAlone env pid (Rotating pid r f id g sha256) := by
  refine ⟨fun by_ s s' hne hs hmove h => ?_⟩
  obtain ⟨e, he, hrun, hclaim, hmutation, hby, hknown, hnone⟩ := h
  refine ⟨e, hmove.grows.journal e he, hrun, hclaim, hmutation, hby, fun hk => ?_, ?_⟩
  · rcases hknown hk with hout | hgone
    · rcases hmove.outstanding hs.journalled hout with hout | ⟨pid', receipt, hby', hmay⟩
      · exact .inl hout
      · rcases hmay.auth e he g sha256 (by rw [hmutation]; rfl) hk with hgone | ⟨hown, -⟩
        · exact .inr (hmove.authSuperseded hgone)
        · exact absurd (hby'.trans (congrArg some (hown.symm.trans hby))) hne
    · exact .inr (hmove.authSuperseded hgone)
  · intro w hw hid
    cases hmove with
    | authSent write hwrite hready pid' hby' hown =>
      rcases List.mem_append.1 hw with hw | hw
      · exact hnone w hw hid
      · obtain rfl := List.mem_singleton.1 hw
        have hmine := hown (by rw [hid]) e he (by rw [hid, hmutation]; rfl)
        exact hne (hby'.trans (congrArg some (hmine.symm.trans hby)))
    | authDropped i => exact hnone w (List.mem_of_mem_eraseIdx hw) hid
    | _ => exact hnone w hw hid

/-- A rotation that has just been journalled is not written yet. -/
theorem AcceptedAt.rotating {now : Time} {d : Decision} (h : AcceptedAt env pid s s' r
      (.changeCredentialOperation o f (.prepare (.authWrite id g sha256))) d s₁ now) :
    Rotating pid r f id g sha256 s' := by
  obtain ⟨op, hop, rfl, hid, hafter, hjournal⟩ := h.prepared
  refine ⟨_, by rw [hjournal]; exact List.mem_cons_self, rfl, rfl, rfl, rfl,
    fun _ => .inl ⟨_, hafter, rfl, rfl⟩, ?_⟩
  intro w hw horigin
  rw [h.after] at hw
  have hid : id = mutationIdOf op.id (op.mutationSequence + 1) := hid
  obtain ⟨⟨e, he, sha256', hmutation, -⟩, -⟩ := h.sound.authored.flying w hw
  obtain ⟨k, hk, hbound⟩ := h.sound.journalled.numbered e he
  rw [hmutation] at hk
  have hkey : w.origin.mutationId = mutationIdOf e.operationId k := hk
  rw [horigin] at hkey
  obtain ⟨heq, hk'⟩ := mutationIdOf_inj (hid.symm.trans hkey)
  have hle := (hbound r op hop heq).2.2
  omega

/-- A rotation that was never written may be acknowledged as well as one that is over. -/
theorem Rotating.acknowledgeable (h : Rotating pid r f id g sha256 s) :
    Acknowledgeable env pid r id none s := by
  intro s' hmeantime hs'
  obtain ⟨e, he, -, -, hmutation, hby, -, hnone⟩ := hmeantime.keep h
  have hid : e.mutation.id = id := by rw [hmutation]; rfl
  exact hid ▸ mayAcknowledge_auth hs' he hmutation (fun _ => .inr ⟨hby, hnone⟩) (by rintro _ ⟨⟩)

/-- The receipt of a rotation. -/
def rotationReceipt (f id g sha256 : String) : CredentialWriteReceipt :=
  { operationId := id, claimFingerprint := f, expectedGeneration := g, sha256 }

/-- A rotation that is carried out has its receipt. -/
theorem replace_serves (authBase64 : String) (h : Rotating pid r f id g sha256 s) :
    Serves env pid s (env.replace g authBase64 (rotationReceipt f id g sha256))
      (Ends (fun s' _ => Acknowledgeable env pid r id (some (rotationReceipt f id g sha256)) s' ∧
          RotatedBy env s' r (rotationReceipt f id g sha256))
        fun s' e => e.definitive = true → Acknowledgeable env pid r id none s') := by
  unfold CodexEnv.replace
  dsimp only
  split
  · exact Serves.throw_bind fun _ => h.acknowledgeable
  refine Serves.ofExcept_bind (fun bytes _ => ?_) fun e _ _ => h.acknowledgeable
  split
  · exact Serves.throw_bind fun _ => h.acknowledgeable
  rename_i hreceipt
  simp only [not_or, not_not, ne_eq] at hreceipt
  have hsha : env.sha256 bytes = sha256 := hreceipt.2.1.symm
  refine Serves.call fun s₁ hmeantime hs₁ => ?_
  have h₁ := hmeantime.keep h
  have hrotating := h₁
  obtain ⟨e, he, rfl, rfl, hmutation, hby, hknown, hnone⟩ := hrotating
  have hid : e.mutation.id = id := by rw [hmutation]; rfl
  have hsame : ∀ e' ∈ s₁.journal, e'.mutation.id = id → e' = e := fun e' he' hid' =>
    hs₁.journalled.unique e' he' e he (hid'.trans hid.symm)
  refine ⟨⟨⟨e, he, sha256, hmutation, .performed bytes hsha⟩, fun _ e' he' hid' hk => ?_,
    fun _ e' he' hid' => ?_⟩, ?_⟩
  · obtain rfl := hsame e' he' hid'
    exact hknown hk
  · obtain rfl := hsame e' he' hid'
    exact hby
  rintro answer reply s₂ hexec
  rcases BrokerAnswer.save_cases hexec with
    ⟨rfl, rfl, hne⟩ | ⟨rfl, fresh, hcurrent, hfresh, rfl⟩ | ⟨rfl, -⟩
  · exact Serves.throw fun _ => h₁.acknowledgeable
  · refine Serves.pure ?_
    show Acknowledgeable env pid e.runId id _ _ ∧ _
    refine acknowledgeable_rotated (e := e) ?_ hmutation ?_ ?_
    · exact he
    · exact Versions.superseded_push (v := ObjectWrite.version _ fresh) hcurrent
        (isFreshGeneration_fresh hfresh)
    · exact ⟨e, _, rfl, he, List.mem_cons_self, rfl, hmutation, rfl, rfl, hsha⟩
  · exact Serves.throw (by rintro ⟨⟩)

end Rotations

/-! ### The fence -/

section Fences

variable {env : CodexEnv} {pid : Nat} {s : BrokerState} {r f id g : String} {e : JournalEntry}

/-- What one attempt of a fence may come to: anybody may acknowledge the mutation, since no write of
it is carried out any more. -/
inductive FenceComesTo (env : CodexEnv) (pid : Nat) (e : JournalEntry) (s : BrokerState) :
    Fencing → Prop where
  | fenced {receipt : Option CredentialWriteReceipt}
      (hmay : Acknowledgeable env pid e.runId e.mutation.id receipt s) :
      FenceComesTo env pid e s (.fenced receipt)
  | again : FenceComesTo env pid e s .again

/-- A generation that the credential object had at one moment, and that was not its newest. -/
theorem authSuperseded_of_other (hs : s.Sound env) (he : e ∈ s.journal) {sha256 : String}
    (hmutation : e.mutation = .authWrite id g sha256) (hknown : e.known = true)
    (hne : generationOf s.auth ≠ g) : s.AuthSuperseded g := by
  obtain ⟨u, hu, hg⟩ := hs.authored.known e he id g sha256 hmutation hknown
  exact ⟨hne, .inr ⟨u, hu, hg⟩⟩

/-- The receipt that a rotation has left tells of that rotation. -/
theorem stored_receipt (hs : s.Sound env) (he : e ∈ s.journal) {v : ObjectVersion CodexAuthObject}
    (hv : v ∈ s.auth) {given : CredentialWriteReceipt}
    (hgiven : receiptFromMetadata v.content.receipt = some given)
    (hid : given.operationId = e.mutation.id) : RotatedBy env s e.runId given := by
  obtain ⟨e', u, hrotation⟩ :=
    hs.authored.stored v hv given (Option.eq_some_of_filter_eq_some hgiven)
  obtain rfl : e' = e := hs.journalled.unique e' hrotation.journalled e he
    (by rw [hrotation.mutation]; exact hid)
  exact ⟨e', u, rfl, hrotation⟩

theorem fenceAuth_serves (he : e ∈ s.journal) {sha256 : String}
    (hmutation : e.mutation = .authWrite id g sha256) {s₀ s₁ : BrokerState}
    {current : CodexAuthSnapshot} {v : ObjectVersion CodexAuthObject}
    (hread : ReadsAuth env pid s₀ s current s₁ v) (he₁ : e ∈ s₁.journal) (f : String) :
    Serves env pid s (env.fenceAuth f id g sha256 current) (Returns (FenceComesTo env pid e)) := by
  have hv := enduring_auth.after hread.after (mem_of_head? hread.head)
  have hcurrent : generationOf s₁.auth = current.generation := by
    rw [generationOf_eq hread.head, hread.current]
  refine Serves.known fun hs => ?_
  unfold CodexEnv.fenceAuth
  split
  · rename_i hne
    refine Serves.pure (FenceComesTo.fenced (acknowledgeable_auth he hmutation (fun hknown => ?_)
      fun given hgiven => ?_))
    · exact enduring_authSuperseded.after hread.after
        (authSuperseded_of_other hread.sound he₁ hmutation hknown (hcurrent ▸ hne))
    · obtain ⟨hstored, hsame⟩ := Option.filter_eq_some_iff.1 hgiven
      rw [hread.current] at hstored
      refine stored_receipt hs he hv hstored ?_
      rw [hmutation]
      exact (of_decide_eq_true hsame).1
  refine Serves.ofExcept_bind (fun bytes _ => ?_) fun _ _ => trivial
  refine Serves.call fun s₂ hmeantime hs₂ => ⟨⟨?_, by rintro ⟨⟩, by rintro ⟨⟩⟩, ?_⟩
  · refine ⟨e, enduring_journal.after hmeantime he, sha256, hmutation, ?_⟩
    rw [hread.current]
    exact .kept v (enduring_auth.after hmeantime hv) bytes
  rintro answer reply s₃ hexec
  rcases BrokerAnswer.save_cases hexec with
    ⟨rfl, rfl, hne⟩ | ⟨rfl, fresh, hnow, hfresh, rfl⟩ | ⟨rfl, -⟩
  · exact Serves.pure FenceComesTo.again
  · have he₂ := enduring_journal.after hmeantime he
    refine Serves.pure (FenceComesTo.fenced ?_)
    refine acknowledgeable_auth (e := e) ?_ hmutation (fun _ => ?_) ?_
    · exact he₂
    · exact Versions.superseded_push (v := ObjectWrite.version _ fresh) hnow
        (isFreshGeneration_fresh hfresh)
    · rintro given ⟨⟩
  · exact Serves.throw trivial

/-- The write of a fence over the lease. -/
theorem fenceWrite_serves (he : e ∈ s.journal) {repository : String} {expiresAt : Time}
    (hmutation : e.mutation = .leaseWrite id g repository expiresAt) {origin : WriteOrigin}
    {record : CodexLeaseRecord} (hwrite : LeaseWrite s ⟨origin, g, record⟩) :
    Serves env pid s (do
      saveLease origin record g
      return Fencing.fenced none) (Returns (FenceComesTo env pid e)) := by
  refine ((saveLease_serves hwrite).frame enduring_journal he).bind ?_
  rintro s₁ _ ⟨he₁, hgone⟩
  exact Serves.pure (FenceComesTo.fenced (acknowledgeable_lease he₁ hmutation hgone))

theorem fenceLease_serves (he : e ∈ s.journal) (hrun : e.runId = r) (hclaim : e.claimFingerprint = f)
    {repository : String} {expiresAt : Time}
    (hmutation : e.mutation = .leaseWrite id g repository expiresAt) {s₀ : BrokerState}
    (he₀ : e ∈ s₀.journal) {lease : Option CodexAuthLease} (hread : ReadsLease env pid s₀ s lease) :
    Serves env pid s (fenceLease r f id g repository expiresAt lease)
      (Returns (FenceComesTo env pid e)) := by
  obtain ⟨s₁, hbefore, hs₁, hafter, hseen⟩ := hread
  have hdone : s.LeaseSuperseded g → Serves env pid s (pure (Fencing.fenced none))
      (Returns (FenceComesTo env pid e)) :=
    fun hgone => Serves.pure (FenceComesTo.fenced (acknowledgeable_lease he hmutation hgone))
  have hother : generationOf s₁.lease ≠ g → s.LeaseSuperseded g := fun hne =>
    enduring_leaseSuperseded.after hafter
      ⟨hne, hs₁.leased.known (enduring_journal.after hbefore he₀) hmutation⟩
  have hcreates : g = "0" → Serves env pid s (do
      saveLease ⟨id, true⟩
        { runId := r, repository, expiresAt := 0, claimFingerprint := some f
          operationId := some (fenceIdOf id) } "0"
      return Fencing.fenced none) (Returns (FenceComesTo env pid e)) := by
    rintro rfl
    exact fenceWrite_serves he hmutation ⟨e, he, repository, expiresAt, hmutation,
      .created rfl _ rfl⟩
  unfold fenceLease
  cases hseen with
  | absent hnil =>
    dsimp only
    split
    · rename_i hne
      refine hdone (hother ?_)
      rw [hnil]
      exact fun h => hne h.symm
    · rename_i hzero
      exact hcreates (not_not.1 hzero)
  | replaced hgone =>
    dsimp only
    split
    · by_cases heq : generationOf s₁.lease = g
      · exact hdone (heq ▸ hgone)
      · exact hdone (hother heq)
    · rename_i hzero
      exact hcreates (not_not.1 hzero)
  | found v hhead hvalid =>
    dsimp only
    split
    · rename_i hne
      exact hdone (hother (generationOf_eq hhead ▸ hne))
    · rename_i heq
      obtain rfl : v.generation = g := not_not.1 heq
      subst hrun hclaim
      exact fenceWrite_serves he hmutation ⟨e, he, repository, expiresAt, hmutation,
        .kept v (enduring_lease.after hafter (mem_of_head? hhead)) rfl⟩

theorem fenceOnce_serves (he : e ∈ s.journal) (hrun : e.runId = r) (hclaim : e.claimFingerprint = f) :
    Serves env pid s (env.fenceOnce r f e.mutation) (Returns (FenceComesTo env pid e)) := by
  cases hmutation : e.mutation with
  | authWrite id g sha256 =>
    unfold CodexEnv.fenceOnce
    refine ((read_serves.frame enduring_journal he).attempt).bind ?_
    rintro s' result ⟨he', hread⟩
    cases result with
    | ok current =>
      obtain ⟨s₁, v, hread⟩ := hread
      exact fenceAuth_serves he' hmutation hread (enduring_journal.after hread.before he) f
    | error error =>
      split
      · rename_i message heq
        cases heq
        obtain ⟨s₁, hbefore, hs₁, hafter, hmisses⟩ := hread _ rfl
        have he₁ := enduring_journal.after hbefore he
        refine Serves.pure (FenceComesTo.fenced
          (acknowledgeable_auth he' hmutation (fun hk => ?_) (by rintro _ ⟨⟩)))
        by_cases heq : generationOf s₁.auth = g
        · rcases hmisses with hnil | hgone
          · obtain ⟨u, hu, -⟩ := hs₁.authored.known e he₁ id g sha256 hmutation hk
            rw [hnil] at hu
            cases hu
          · exact heq ▸ hgone
        · exact enduring_authSuperseded.after hafter
            (authSuperseded_of_other hs₁ he₁ hmutation hk heq)
      · exact Serves.throw trivial
      · rename_i heq
        cases heq
  | leaseWrite id g repository expiresAt =>
    unfold CodexEnv.fenceOnce
    refine (readLease_serves.frame enduring_journal he).bind ?_
    rintro s' lease ⟨he', hread⟩
    exact fenceLease_serves he' hrun hclaim hmutation he hread

theorem fenceFrom_serves (hrun : e.runId = r) (hclaim : e.claimFingerprint = f) (attempts : Nat) :
    ∀ {s : BrokerState}, e ∈ s.journal →
      Serves env pid s (env.fenceFrom r f e.mutation attempts)
        (Returns fun s' receipt => Acknowledgeable env pid e.runId e.mutation.id receipt s') := by
  induction attempts with
  | zero => exact fun _ => Serves.throw trivial
  | succ attempts ih =>
    intro s he
    unfold CodexEnv.fenceFrom
    refine (((fenceOnce_serves he hrun hclaim).frame enduring_journal he).attempt).bind ?_
    rintro s' result ⟨he', hfenced⟩
    split
    · cases hfenced with
      | fenced hmay => exact Serves.pure hmay
    · exact ih he'
    · exact ih he'
    · exact Serves.throw trivial

/-- After a fence no write of the mutation is carried out any more. -/
theorem fenceMutation_serves (he : e ∈ s.journal) {operation : CredentialOperation}
    (hclaim : e.claimFingerprint = operation.claimFingerprint) :
    Serves env pid s (env.fenceMutation e.runId operation e.mutation)
      (Returns fun s' receipt => Acknowledgeable env pid e.runId e.mutation.id receipt s') := by
  unfold CodexEnv.fenceMutation
  dsimp only
  split
  · split
    · exact Serves.throw_bind trivial
    · exact fenceFrom_serves rfl hclaim 5 he
  · exact fenceFrom_serves rfl hclaim 5 he

end Fences

end AgentLcars
