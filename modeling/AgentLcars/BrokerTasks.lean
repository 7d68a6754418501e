import AgentLcars.BrokerPrograms

/-!
# What the commands of the broker come to

* `begin_serves`: what is known of an operation that was just reserved;
* `acquire_serves`: an acquired lease is one of the claim;
* `restore_serves`, `renew_serves`, `release_serves`, `persist_serves` and `recover_serves`: the five
  commands make only calls that their process may make.
-/

namespace AgentLcars

/-! ### Beginning -/

section Beginning

variable {env : CodexEnv} {pid : Nat} {s s' : BrokerState} {id : String}

/-- A UUID that was drawn stays until its process uses it. -/
def Drawn (pid : Nat) (id : String) (s : BrokerState) : Prop := (id, pid) ∈ s.unspent

instance Drawn.leftAlone : LeftAlone env pid (Drawn pid id) := by
  refine ⟨fun by_ s s' hne hs hmove h => ?_⟩
  cases hmove with
  | drawn => exact List.mem_cons_of_mem _ h
  | transacted pid' runId now op hby hmay =>
    refine List.mem_filter.2 ⟨h, ?_⟩
    rw [decide_eq_true_iff]
    intro hspends
    cases op with
    | reserveCredentialOperation f' id' kind' =>
      cases hspends
      exact hne (hby.trans (congrArg some (hs.journalled.owner hmay h)))
    | _ => cases hspends
  | _ => exact h

theorem new_serves (run : Run) : Serves env pid s (ReservedCodexOperation.new run)
    (Ends (fun s' operation => Drawn pid operation.id s' ∧ operation.run = run ∧
      operation.claimFingerprint = run.tokenHash.getD "") fun _ _ => False) := by
  unfold ReservedCodexOperation.new
  refine randomUUID_serves.bind fun s₁ id hdrawn => ?_
  exact Serves.bind (Q := Ends (fun s' _ => Drawn pid id s') fun _ _ => False)
    (fun _ _ => hdrawn) fun s₂ _ hdrawn => Serves.pure ⟨hdrawn, rfl, rfl⟩

variable (operation : ReservedCodexOperation)

/-- The number of mutations that an operation has named does not matter to the state. -/
theorem nextMutationId_serves : Serves env pid s operation.nextMutationId
    (Ends (fun s' _ => s' = s) fun _ _ => False) := by
  intro _ n
  exact rfl

/-- What is known just after a reservation, and of the run as it is stored. -/
structure Begun (env : CodexEnv) (kind : CredentialKind) (s : BrokerState) (run : Run) : Prop where
  noCleanup : kind ≠ .cleanup → NoCleanup operation.run.runId operation.id s
  receipt : ∀ given, run.credentialWriteReceipt = some given →
    RotatedBy env s operation.run.runId given

theorem begin_serves (hdrawn : Drawn pid operation.id s) (kind : CredentialKind) :
    Serves env pid s (operation.begin kind) (Returns (Begun operation env kind)) := by
  unfold ReservedCodexOperation.begin
  refine Serves.bind (transact_serves fun s₁ hmeantime _ => hmeantime.keep hdrawn)
    fun s₁ reply hreply => Serves.known fun hs₁ => (accept_serves reply).imp ?_
  rintro s₂ (e | run) hx
  · trivial
  obtain ⟨rfl, d, rfl, hrun⟩ := hx
  obtain ⟨s₀, now, haccepted⟩ := hreply d rfl
  obtain ⟨run', op, hrun', hstored, hop, hid, -, hkind⟩ := haccepted.reserved
  obtain rfl := Option.some.inj (hrun.symm.trans hrun')
  refine ⟨fun hne => ⟨hid ▸ hs₁.journalled.reserved hop, fun op' hop' _ => ?_⟩, fun given hgiven =>
    hs₁.authored.confirmed hstored hgiven⟩
  obtain rfl := Option.some.inj (hop.symm.trans hop')
  rw [hkind]
  exact hne

end Beginning

/-! ### Writing the lease -/

section Writing

variable {env : CodexEnv} {pid : Nat} {s s' : BrokerState} {operation : ReservedCodexOperation}
  {lease : CodexAuthLease}

/-- A lease of the operation's claim that was read. -/
structure OwnLease (operation : ReservedCodexOperation) (lease : CodexAuthLease) (s : BrokerState) :
    Prop where
  stored : StoredLease lease s
  owned : lease.ownedBy operation.run.runId operation.claimFingerprint = true

instance OwnLease.enduring : Enduring env (OwnLease operation lease) :=
  ⟨fun by_ s s' hs hmove h => ⟨StoredLease.enduring.move by_ s s' hs hmove h.stored, h.owned⟩⟩

theorem ReservedCodexOperation.ownedBy_of_owned {repository : Option String}
    (h : operation.owned (some lease) repository = true) :
    lease.ownedBy operation.run.runId operation.claimFingerprint = true := by
  unfold ReservedCodexOperation.owned at h
  simp only [Option.any_some, Bool.decide_and, Bool.and_eq_true] at h
  simpa using h.1

/-- Releasing a lease of the claim. -/
theorem releasing_serves (hown : OwnLease operation lease s) :
    Serves env pid s (operation.release lease) Anyhow := by
  unfold ReservedCodexOperation.release
  refine (nextMutationId_serves operation).bind ?_
  rintro s₁ id rfl
  refine (mutate_serves operation (R := fun _ _ => True) ?_ ?_).imp fun _ _ _ => trivial
  · intro s₂ hmeantime _
    exact ⟨enduring_entitled.after hmeantime (hown.stored.entitled hown.owned), fun _ _ _ _ => rfl⟩
  · intro d s₂ s₃ now haccepted
    refine ((releaseLease_serves haccepted.journals hown.owned
      (haccepted.keep hown.stored)).keep haccepted.journals).imp ?_
    rintro s₄ (e | _) ⟨hjournals, hgone⟩
    · exact fun hdefinitive => hjournals.acknowledgeable (hgone hdefinitive)
    · exact ⟨hjournals.acknowledgeable hgone, trivial⟩

/-- A write of the lease that the claim is entitled to. -/
theorem taking_serves (hwork : NoCleanup operation.run.runId operation.id s)
    {id g repository : String} {expiresAt : Time}
    (hentitled : s.Entitled operation.run.runId operation.claimFingerprint g repository) :
    Serves env pid s (operation.mutate (.leaseWrite id g repository expiresAt)
        (takeLease
          { runId := operation.run.runId, repository, expiresAt
            claimFingerprint := operation.claimFingerprint, operationId := id } g))
      (Returns fun s' given => OwnLease operation given s') := by
  refine mutate_serves operation (R := OwnLease operation) ?_ ?_
  · intro s₂ hmeantime _
    refine ⟨enduring_entitled.after hmeantime hentitled, fun op hop hid hcleanup => ?_⟩
    exact absurd hcleanup ((hmeantime.keep hwork).kind op hop hid)
  · intro d s₂ s₃ now haccepted
    refine ((takeLease_serves haccepted.journals).keep haccepted.journals).imp ?_
    rintro s₄ (e | given) ⟨hjournals, hx⟩
    · exact fun hdefinitive => hjournals.acknowledgeable (hx hdefinitive)
    · obtain ⟨hgone, hstored, howned⟩ := hx
      exact ⟨hjournals.acknowledgeable hgone, hstored, howned⟩

end Writing

/-! ### Acquiring -/

section Acquiring

variable {env : CodexEnv} {pid : Nat} {s s' : BrokerState} {operation : ReservedCodexOperation}

/-- Only a lease of the claim serves as it is; without one, the claim may take the lease. -/
theorem serving_serves (repository : String) {lease : Option CodexAuthLease}
    (hstored : ∀ given, lease = some given → StoredLease given s) :
    Serves env pid s (operation.serving repository lease)
      (Returns fun s' serving => (∀ given, serving = some given → OwnLease operation given s') ∧
        (serving = none → s'.Entitled operation.run.runId operation.claimFingerprint
          ((lease.map (·.generation)).getD "0") repository)) := by
  unfold ReservedCodexOperation.serving
  cases lease with
  | none => exact Serves.pure ⟨by rintro given ⟨⟩, fun _ => .inl rfl⟩
  | some lease =>
    have hstored := hstored lease rfl
    -- whoever has it, an expired lease may be overwritten
    have hrest : ∀ {s₁}, StoredLease lease s₁ → Serves env pid s₁ (do
        let now ← Broker.now
        if now < lease.expiresAt then
          throw (.codexAuth .conflict "Codex subscription authentication is already in use")
        return none)
        (Returns fun s' serving => (∀ given, serving = some given → OwnLease operation given s') ∧
          (serving = none → s'.Entitled operation.run.runId operation.claimFingerprint
            lease.generation repository)) := by
      intro s₁ hstored
      refine (now_serves.keep hstored).bind ?_
      rintro s₂ now ⟨hstored₂, -, rfl⟩
      dsimp only
      split
      · exact Serves.throw_bind trivial
      · rename_i hexpired
        exact Serves.pure ⟨by rintro given ⟨⟩, fun _ =>
          hstored₂.entitled_expired (Int.not_lt.1 hexpired) repository⟩
    dsimp only
    split
    · rename_i howned
      refine (now_serves.keep hstored).bind ?_
      rintro s₁ now ⟨hstored₁, -, rfl⟩
      split
      · refine Serves.pure ⟨?_, by rintro ⟨⟩⟩
        rintro given ⟨⟩
        exact ⟨hstored₁, operation.ownedBy_of_owned howned⟩
      · exact hrest hstored₁
    · exact hrest hstored

theorem take_serves (hwork : NoCleanup operation.run.runId operation.id s)
    {repository id : String} {lease : Option CodexAuthLease}
    (hentitled : s.Entitled operation.run.runId operation.claimFingerprint
      ((lease.map (·.generation)).getD "0") repository) :
    Serves env pid s (operation.take repository id lease)
      (Returns fun s' given => OwnLease operation given s') := by
  unfold ReservedCodexOperation.take
  cases lease with
  | none => exact taking_serves hwork hentitled
  | some lease => exact taking_serves hwork hentitled

theorem acquireFrom_serves {repository : String} (attempts : Nat) : ∀ {s : BrokerState},
    NoCleanup operation.run.runId operation.id s →
      Serves env pid s (operation.acquireFrom repository attempts)
        (Returns fun s' given => OwnLease operation given s') := by
  induction attempts with
  | zero => exact fun _ => Serves.throw trivial
  | succ attempts ih =>
    intro s hwork
    unfold ReservedCodexOperation.acquireFrom
    refine (readLease_serves.keep hwork).bind ?_
    rintro s₁ lease ⟨hwork₁, hread⟩
    refine ((serving_serves repository ?_).keep hwork₁).bind ?_
    · rintro given rfl
      exact hread.stored
    rintro s₂ serving ⟨hwork₂, hserving, hnone⟩
    cases serving with
    | some given => exact Serves.pure (hserving given rfl)
    | none =>
      refine (nextMutationId_serves operation).bind ?_
      rintro s₃ id rfl
      refine (((take_serves hwork₂ (hnone rfl)).keep hwork₂).attempt).bind ?_
      rintro s₄ result ⟨hwork₄, hresult⟩
      split
      · unfold ReservedCodexOperation.acquired
        split
        · exact Serves.pure hresult
        · exact Serves.throw trivial
      · exact ih hwork₄
      · exact Serves.throw trivial

theorem acquire_serves {repository : String}
    (hwork : NoCleanup operation.run.runId operation.id s) :
    Serves env pid s (operation.acquire repository)
      (Returns fun s' given => OwnLease operation given s') :=
  acquireFrom_serves 5 hwork

end Acquiring

/-! ### Restoring and renewing -/

section Restoring

variable {env : CodexEnv} {pid : Nat} {s s' : BrokerState} {operation : ReservedCodexOperation}

theorem finishing_serves {restored : Bool} :
    Serves env pid s (operation.finish env restored) Anyhow := by
  unfold ReservedCodexOperation.finish
  exact finish_serves.bind fun s₁ outcome _ => (accept_serves outcome).imp fun _ _ _ => trivial

theorem finishIfResolved_serves : Serves env pid s (operation.finishIfResolved env) Anyhow := by
  unfold ReservedCodexOperation.finishIfResolved
  refine (readRun_serves operation.run.runId).bind fun s₁ current _ => ?_
  split
  · exact finishing_serves.bind fun _ _ _ => Serves.pure trivial
  · exact Serves.pure trivial

/-- What follows a failure: the operation is finished unless a write is unresolved. -/
theorem concluding_serves {α : Type} (error : BrokerError)
    {Q : BrokerState → Except BrokerError α → Prop}
    (hQ : ∀ s e, Q s (.error e) := by exact fun _ _ => trivial) : Serves env pid s (do
      operation.finishIfResolved env
      throw error) Q :=
  finishIfResolved_serves.bind (fun s₁ _ _ => Serves.throw (hQ s₁ error)) fun s₁ e _ => hQ s₁ e

theorem abandonRestore_serves {α : Type} {lease : Option CodexAuthLease}
    (hlease : ∀ given, lease = some given → OwnLease operation given s) (error : BrokerError)
    {Q : BrokerState → α → Prop} :
    Serves env pid s (env.abandonRestore operation lease error) (Returns Q) := by
  unfold CodexEnv.abandonRestore
  refine (readRun_serves operation.run.runId).bind ?_
  rintro s₁ current ⟨hmeantime, -⟩
  cases lease with
  | none => exact concluding_serves error
  | some given =>
    dsimp only
    split
    · exact (releasing_serves (hmeantime.keep (hlease given rfl))).attempt.bind fun _ _ _ =>
        concluding_serves error
    · exact concluding_serves error

/-- What a worker is handed is a version of the credential object. -/
structure HandedVersion (env : CodexEnv) (credential : RestoredCredential) (s : BrokerState) :
    Prop where
  version : ∃ v ∈ s.auth, credential =
    { authBase64 := env.encodeBase64 v.content.bytes, generation := v.generation
      sha256 := env.sha256 v.content.bytes }

instance HandedVersion.enduring {credential : RestoredCredential} :
    Enduring env (HandedVersion env credential) := by
  refine .grows fun _ _ hgrows => ?_
  rintro ⟨v, hv, h⟩
  exact ⟨v, hgrows.auth v hv, h⟩

theorem restoreUnder_serves : Serves env pid s (env.restoreUnder operation)
    (Returns fun s' credential => HandedVersion env credential s') := by
  unfold CodexEnv.restoreUnder
  refine read_serves.bind ?_
  rintro s₁ snapshot ⟨s₀, v, hread⟩
  have hhanded : HandedVersion env
      { authBase64 := snapshot.authBase64, generation := snapshot.generation
        sha256 := snapshot.sha256 } s₁ := by
    refine ⟨v, enduring_auth.after hread.after (mem_of_head? hread.head), ?_⟩
    rw [hread.current]
  refine (finishing_serves.keep hhanded).bind ?_
  rintro s₂ finished ⟨hhanded₂, -⟩
  dsimp only
  split
  · exact Serves.throw_bind trivial
  · exact Serves.pure hhanded₂

theorem restore_serves (run : Run) (repository : String) :
    Serves env pid s (env.restoreCodexCredential run repository)
      (Returns fun s' credential => HandedVersion env credential s') := by
  unfold CodexEnv.restoreCodexCredential
  refine (new_serves run).bind ?_
  rintro s₁ operation ⟨hdrawn, -, -⟩
  refine (begin_serves operation hdrawn .restore).bind ?_
  intro s₂ reserved hbegun
  refine (acquire_serves (hbegun.noCleanup (by decide))).attempt.bind ?_
  intro s₃ result hresult
  cases result with
  | error error => exact abandonRestore_serves (by rintro given ⟨⟩) error
  | ok lease =>
    have hresult : OwnLease operation lease s₃ := hresult
    refine (restoreUnder_serves.keep hresult).tryCatch (fun s₄ _ h => h.2) ?_
    rintro s₄ error ⟨hown, -⟩
    refine abandonRestore_serves ?_ error
    rintro given ⟨⟩
    exact hown

theorem renewCall_serves (run : Run) (started : Bool) :
    Serves env pid s (Broker.renew run started) Anyhow := by
  unfold Broker.renew
  refine Serves.call fun s₁ _ _ => ⟨trivial, fun answer outcome s₂ _ => ?_⟩
  rcases outcome with _ | ((_ | _) | decision)
  · exact Serves.throw trivial
  · exact Serves.throw trivial
  · exact Serves.throw trivial
  · exact Serves.pure trivial

theorem renew_serves (run heartbeat : Run) (started : Bool) :
    Serves env pid s (env.renewCodexCredentialLease run (Broker.renew heartbeat started)) Anyhow := by
  unfold CodexEnv.renewCodexCredentialLease
  refine (new_serves run).bind ?_
  rintro s₁ operation ⟨hdrawn, rfl, -⟩
  refine (begin_serves operation hdrawn .renew).bind ?_
  intro s₂ reserved hbegun
  refine Serves.tryCatch (Q := Anyhow) ?_ (fun _ _ _ => trivial) fun s₃ e _ =>
    concluding_serves e
  refine ((renewCall_serves heartbeat started).keep (hbegun.noCleanup (by decide))).bind ?_
  rintro s₃ renewed ⟨hwork₃, -⟩
  refine (readLease_serves.keep hwork₃).bind ?_
  rintro s₄ lease ⟨hwork₄, hread⟩
  -- a heartbeat before the restore
  have hrest : Serves env pid s₄ (do
      if renewed.credentialRestoredClaimFingerprint ≠ some operation.claimFingerprint then
        operation.finish env
      else throw (.codexAuth .conflict "Codex subscription lease is not owned by this claim"))
      Anyhow := by
    split
    · exact finishing_serves
    · exact Serves.throw trivial
  cases lease with
  | none => exact hrest
  | some lease =>
    dsimp only
    split
    · rename_i howned
      refine (nextMutationId_serves operation).bind ?_
      rintro s₅ id rfl
      exact (taking_serves hwork₄ (hread.stored.entitled (operation.ownedBy_of_owned howned))).bind
        fun _ _ _ => finishing_serves
    · exact hrest

end Restoring

/-! ### Releasing -/

section Releasing

variable {env : CodexEnv} {pid : Nat} {s : BrokerState}

theorem release_serves (run : Run) :
    Serves env pid s (env.releaseCodexCredentialLease run) Anyhow := by
  have hfinishing : ∀ {s : BrokerState} {operation : ReservedCodexOperation}, Serves env pid s
      (tryCatch (do let _ ← operation.finish env) fun error => do
        operation.finishIfResolved env
        throw error) Anyhow := by
    intro s operation
    refine Serves.tryCatch (Q := Anyhow) ?_ (fun _ _ _ => trivial) fun s₁ e _ =>
      concluding_serves e
    exact finishing_serves.bind fun _ _ _ => Serves.pure trivial
  unfold CodexEnv.releaseCodexCredentialLease
  refine (readRun_serves run.runId).bind fun s₁ current _ => ?_
  cases current with
  | none => exact Serves.throw trivial
  | some currentRun =>
    dsimp only
    split
    · exact Serves.throw_bind trivial
    split
    · refine (new_serves currentRun).bind ?_
      rintro s₂ operation ⟨hdrawn, -, -⟩
      exact (begin_serves operation hdrawn .cleanup).bind fun _ _ _ => hfinishing
    · refine Serves.bind (Q := Ends (fun _ _ => True) fun _ _ => False) (fun _ n => trivial) ?_
      refine fun s₂ operation _ => (readRun_serves run.runId).bind fun s₃ current _ => ?_
      split
      · exact Serves.pure trivial
      split
      · exact Serves.throw_bind trivial
      split
      · exact Serves.throw_bind trivial
      exact hfinishing

end Releasing

/-! ### Persisting -/

section Persisting

variable {env : CodexEnv} {pid : Nat} {s s' : BrokerState} {operation : ReservedCodexOperation}
  {input : PersistInput}

/-- The rotation that a worker asked for was carried out. -/
structure Persisted (env : CodexEnv) (r f : String) (input : PersistInput) (s : BrokerState) :
    Prop where
  rotated : ∃ receipt, RotatedBy env s r receipt ∧ receipt.claimFingerprint = f ∧
    receipt.expectedGeneration = input.generation ∧
    receipt.sha256 = env.sha256 (env.decodeBase64 input.authBase64)

instance Persisted.enduring {r f : String} : Enduring env (Persisted env r f input) := by
  refine .grows fun _ _ hgrows => ?_
  rintro ⟨receipt, h, hrest⟩
  exact ⟨receipt, hgrows.rotatedBy h, hrest⟩

/-- Only what was persisted is reported as updated. -/
def ReportsTruly (env : CodexEnv) (operation : ReservedCodexOperation) (input : PersistInput)
    (result : Except BrokerError PersistStatus) (s : BrokerState) : Prop :=
  result = .ok .updated → Persisted env operation.run.runId operation.claimFingerprint input s

instance ReportsTruly.enduring {result : Except BrokerError PersistStatus} :
    Enduring env (ReportsTruly env operation input result) :=
  Enduring.imp

theorem held_serves (repository : String) : Serves env pid s (operation.held repository)
    (Returns fun s' lease => OwnLease operation lease s') := by
  unfold ReservedCodexOperation.held
  refine readLease_serves.bind fun s₁ lease hread => ?_
  cases lease with
  | none => exact Serves.throw trivial
  | some lease =>
    have hread : ReadsLease env pid s s₁ (some lease) := hread
    dsimp only
    split
    · rename_i howned
      refine (now_serves.keep hread.stored).bind ?_
      rintro s₂ now ⟨hstored, -⟩
      split
      · exact Serves.pure ⟨hstored, operation.ownedBy_of_owned howned⟩
      · exact Serves.throw trivial
    · exact Serves.throw trivial

theorem rotate_serves : Serves env pid s (env.rotate operation input)
    (Returns fun s' status => ReportsTruly env operation input (.ok status) s') := by
  unfold CodexEnv.rotate
  dsimp only
  split
  · exact Serves.pure (by rintro ⟨⟩)
  split
  · exact Serves.pure (by rintro ⟨⟩)
  refine (nextMutationId_serves operation).bind ?_
  rintro s₁ id rfl
  refine Serves.bind (mutate_serves operation (R := fun _ s => RotatedBy env s operation.run.runId
    (rotationReceipt operation.claimFingerprint id input.generation
      (env.sha256 (env.decodeBase64 input.authBase64)))) (fun _ _ _ => trivial) ?_) ?_
  · exact fun d s₂ s₃ now haccepted => replace_serves input.authBase64 haccepted.rotating
  · exact fun s₂ _ hrotated => Serves.pure fun _ => ⟨_, hrotated, rfl, rfl, rfl⟩

theorem concludePersist_serves {lease : Option CodexAuthLease}
    (hlease : ∀ given, lease = some given → OwnLease operation given s)
    {result : Except BrokerError PersistStatus} (hreports : ReportsTruly env operation input result s) :
    Serves env pid s (env.concludePersist operation lease result)
      (Returns fun s' status => ReportsTruly env operation input (.ok status) s') := by
  -- whatever becomes of the release, it makes nothing updated
  have hrest : ∀ {s : BrokerState} {result : Except BrokerError PersistStatus},
      ReportsTruly env operation input result s → Serves env pid s (do
        operation.finishIfResolved env
        Broker.ofExcept result)
        (Returns fun s' status => ReportsTruly env operation input (.ok status) s') := by
    intro s result hreports
    refine (finishIfResolved_serves.keep hreports).bind ?_
    rintro s₁ _ ⟨hreports₁, -⟩
    refine Serves.ofExcept ?_
    cases result with
    | ok status => exact hreports₁
    | error e => trivial
  unfold CodexEnv.concludePersist
  refine ((readRun_serves operation.run.runId).keep hreports).bind ?_
  rintro s₁ current ⟨hreports₁, hmeantime, -⟩
  dsimp only
  split
  · refine ((releasing_serves (hmeantime.keep (hlease _ rfl))).keep hreports₁).attempt.bind ?_
    rintro s₂ released ⟨hreports₂, -⟩
    cases released with
    | ok => exact hrest hreports₂
    | error error =>
      dsimp only
      split
      · exact hrest hreports₂
      · exact hrest hreports₂
      · have hfails : ReportsTruly env operation input (.error error) s₂ := by rintro ⟨⟩
        exact hrest hfails
  · exact hrest hreports₁

/-- An exact retry repeats a rotation that was carried out. -/
theorem retries_persisted {run : Run} (hreceipt : ∀ given, run.credentialWriteReceipt = some given →
      RotatedBy env s operation.run.runId given)
    (h : env.retries operation input run.credentialWriteReceipt = true) :
    Persisted env operation.run.runId operation.claimFingerprint input s := by
  unfold CodexEnv.retries at h
  obtain ⟨receipt, hreceipt', hsame⟩ := (Option.any_eq_true _ _).1 (of_decide_eq_true h).2
  obtain ⟨hclaim, hgeneration, hsha⟩ := of_decide_eq_true hsame
  exact ⟨receipt, hreceipt receipt hreceipt', hclaim, hgeneration, hsha⟩

theorem persist_serves (run : Run) (repository : String) :
    Serves env pid s (env.persistCodexCredential run repository input)
      (Returns fun s' status => status = .updated →
        Persisted env run.runId (run.tokenHash.getD "") input s') := by
  unfold CodexEnv.persistCodexCredential
  refine (new_serves run).bind ?_
  rintro s₁ operation ⟨hdrawn, rfl, hclaim⟩
  rw [← hclaim]
  refine (begin_serves operation hdrawn .persist).bind ?_
  intro s₂ reserved hbegun
  have hconclude : ∀ {s : BrokerState} {lease result},
      (∀ given, lease = some given → OwnLease operation given s) →
      ReportsTruly env operation input result s →
      Serves env pid s (env.concludePersist operation lease result)
        (Returns fun s' status => status = .updated →
          Persisted env operation.run.runId operation.claimFingerprint input s') := by
    intro s lease result hlease hreports
    refine (concludePersist_serves hlease hreports).imp ?_
    rintro s' (e | status) h
    · trivial
    · rintro rfl
      exact h rfl
  split
  · rename_i hretries
    exact hconclude (by rintro given ⟨⟩) fun _ => retries_persisted hbegun.receipt hretries
  · refine (held_serves repository).attempt.bind ?_
    intro s₃ result hheld
    cases result with
    | error e => exact hconclude (by rintro given ⟨⟩) (by rintro ⟨⟩)
    | ok lease =>
      have hheld : OwnLease operation lease s₃ := hheld
      refine (rotate_serves.keep hheld).attempt.bind ?_
      rintro s₄ result ⟨hown, hresult⟩
      refine hconclude ?_ ?_
      · rintro given ⟨⟩
        exact hown
      · cases result with
        | ok status => exact hresult
        | error e => rintro ⟨⟩

end Persisting

/-! ### Recovering -/

section Recovering

variable {env : CodexEnv} {pid : Nat} {s s' : BrokerState} {run : Run} {op : CredentialOperation}

/-- The mutation of an operation that was read from the store is journalled. -/
structure Journaled (r : String) (op : CredentialOperation) (s : BrokerState) : Prop where
  entry : ∀ m, op.mutation = some m → ∃ e ∈ s.journal, e.runId = r ∧
    e.claimFingerprint = op.claimFingerprint ∧ e.mutation = m

instance Journaled.enduring {r : String} : Enduring env (Journaled r op) := by
  refine .grows fun _ _ hgrows h => ⟨fun m hm => ?_⟩
  obtain ⟨e, he, hrest⟩ := h.entry m hm
  exact ⟨e, hgrows.journal e he, hrest⟩

/-- The runs that are listed are stored. -/
theorem Store.mem_listCredentialOperations {store : Store} {now : Time} {limit : Nat}
    (h : run ∈ store.listCredentialOperations now limit) :
    ∃ r, store.runs.get r = some run := by
  unfold Store.listCredentialOperations at h
  obtain ⟨⟨after, run'⟩, hmem, rfl⟩ := List.mem_map.1 h
  have hmem := (List.mem_filter.1 ((List.mem_insertionSort _).1 (List.mem_of_mem_take hmem))).1
  obtain ⟨stored, hstored, hsome⟩ := List.mem_filterMap.1 hmem
  obtain ⟨op, -, heq⟩ := Option.map_eq_some_iff.1 hsome
  cases heq
  exact (OrderedMap.mem_values_iff _ _).1 hstored

/-- Recovery goes on when the mutation that it found, if any, is fenced and acknowledged. -/
theorem fencing_serves {α : Type} (now : Time) (hjournaled : Journaled run.runId op s)
    {rest skip : BrokerM α} (hrest : ∀ s, Serves env pid s rest Anyhow)
    (hskip : ∀ s, Serves env pid s skip Anyhow) :
    Serves env pid s (match op.mutation with
      | some m => do
        let receipt ← env.fenceMutation run.runId op m
        let outcome ← Broker.change run.runId op.id op.claimFingerprint
          (.acknowledge m.id receipt) (some now)
        match outcome with
        | .ok _ => rest
        | _ => skip
      | _ => rest) Anyhow := by
  cases hm : op.mutation with
  | none => exact hrest s
  | some m =>
    obtain ⟨e, he, hrun, hclaim, rfl⟩ := hjournaled.entry m hm
    have hfence : Serves env pid s (env.fenceMutation e.runId op e.mutation) _ :=
      fenceMutation_serves he hclaim
    rw [hrun] at hfence
    refine hfence.bind fun s₁ receipt hmay => ?_
    unfold Broker.change
    refine Serves.bind (transact_serves hmay) fun s₂ outcome _ => ?_
    cases outcome with
    | ok d => exact hrest s₂
    | error refusal => exact hskip s₂

theorem recoverOperation_serves (now : Time) (hjournaled : Journaled run.runId op s) :
    Serves env pid s (env.recoverOperation now run op) Anyhow := by
  have hfinish : ∀ {s : BrokerState} {conclude : Except Refusal Decision → BrokerM RecoveryResult},
      (∀ s outcome, Serves env pid s (conclude outcome) Anyhow) → Serves env pid s
        (env.finishCredentialOperation run.runId op.id op.claimFingerprint >>= conclude) Anyhow :=
    fun hconclude => finish_serves.bind fun s₁ outcome _ => hconclude s₁ outcome
  unfold CodexEnv.recoverOperation Broker.change
  dsimp only
  have hretry : Serves env pid s (Broker.transact run.runId (.changeCredentialOperation op.id
      op.claimFingerprint .retryRecovery) (some now)) _ := transact_serves fun _ _ _ => trivial
  refine (hretry.keep hjournaled).bind ?_
  rintro s₁ outcome ⟨hjournaled₁, -⟩
  cases outcome with
  | error refusal => exact Serves.pure trivial
  | ok d =>
    dsimp only
    refine fencing_serves now hjournaled₁ (fun s₂ => ?_) fun s => Serves.pure trivial
    refine (readRun_serves run.runId).bind fun s₃ current _ => ?_
    split
    · split
      · split
        · exact Serves.pure trivial
        · split
          · refine readLease_serves.bind fun s₄ lease hread => ?_
            refine (liveOwned_serves run.runId op.claimFingerprint lease).bind ?_
            rintro s₅ live ⟨hmeantime, hlive⟩
            cases hlive with
            | gone =>
              exact hfinish fun s₆ outcome => by cases outcome <;> exact Serves.pure trivial
            | live given hgiven howned =>
              subst hgiven
              have hread : ReadsLease env pid s₃ s₄ (some given) := hread
              -- a retirement by recovery is not yet known to be the last word
              refine (retire_serves (hmeantime.keep hread.stored) howned (p := False)
                (by rintro ⟨⟩) (some now)).bind fun s₆ outcome _ => ?_
              cases outcome with
              | ok d =>
                exact hfinish fun s₇ outcome => by cases outcome <;> exact Serves.pure trivial
              | error refusal => exact Serves.pure trivial
          · exact hfinish fun s₄ outcome => by cases outcome <;> exact Serves.pure trivial
      · exact Serves.pure trivial
    · exact Serves.pure trivial

/-- The mutations of the operations of these runs are journalled. -/
def AllJournaled (runs : List Run) (s : BrokerState) : Prop :=
  ∀ run ∈ runs, ∀ op, run.credentialOperation = some op → Journaled run.runId op s

instance AllJournaled.enduring {runs : List Run} : Enduring env (AllJournaled runs) :=
  ⟨fun by_ s s' hs hmove h run hrun op hop =>
    Journaled.enduring.move by_ s s' hs hmove (h run hrun op hop)⟩

theorem recoverAll_serves (now : Time) (runs : List Run) : ∀ {s : BrokerState},
    AllJournaled runs s → Serves env pid s (env.recoverAll now runs) Anyhow := by
  induction runs with
  | nil => exact fun _ => Serves.pure trivial
  | cons run runs ih =>
    intro s hlisted
    have hrest : AllJournaled runs s := fun run hrun => hlisted run (List.mem_cons_of_mem _ hrun)
    unfold CodexEnv.recoverAll
    cases hop : run.credentialOperation with
    | none =>
      refine (ih hrest).bind ?_
      rintro s₁ ⟨recovered, unresolved⟩ -
      exact Serves.pure trivial
    | some op =>
      have hjournaled := hlisted run List.mem_cons_self op hop
      have hrecovers : Serves env pid s (tryCatch (env.recoverOperation now run op)
          fun _ => pure .unresolved) Anyhow :=
        (recoverOperation_serves now hjournaled).tryCatch (fun _ _ _ => trivial)
          fun _ _ _ => Serves.pure trivial
      refine (hrecovers.keep hrest).bind ?_
      rintro s₁ result ⟨hrest₁, -⟩
      -- the other runs are recovered whatever becomes of this one
      refine (ih hrest₁).bind ?_
      rintro s₂ ⟨recovered, unresolved⟩ -
      cases result with
      | recovered => exact Serves.pure trivial
      | unresolved => exact Serves.pure trivial
      | skipped => exact Serves.pure trivial

theorem recover_serves : Serves env pid s env.recoverCodexCredentialOperations Anyhow := by
  unfold CodexEnv.recoverCodexCredentialOperations
  refine now_serves.bind fun s₁ now _ => ?_
  refine Serves.call fun s₂ _ hs₂ => ⟨trivial, ?_⟩
  rintro answer reply s₃ hexec
  cases answer <;> cases hexec
  · refine recoverAll_serves _ _ fun run hrun op hop => ⟨fun m hm => ?_⟩
    obtain ⟨r, hstored⟩ := Store.mem_listCredentialOperations hrun
    obtain ⟨e, he, hrunId, -, hclaim, hmutation⟩ :=
      hs₂.journalled.entry (World.operation_eq_some.2 ⟨run, hstored, hop⟩) hm
    exact ⟨e, he, hrunId.trans (hs₂.runId hstored).symm, hclaim, hmutation⟩
  all_goals exact Serves.throw trivial

end Recovering

end AgentLcars
