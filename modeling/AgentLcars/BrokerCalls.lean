import AgentLcars.BrokerFacts

/-!
# What the calls of broker code come to

* `Serves`: whatever else happens, a routine makes only calls that its process may make, and ends as
  a condition says; `Serves.bind` and its like are its rules;
* `readLease_serves`, `read_serves`: what a read of an object has seen, and when;
* `transact_serves` and the accepted changes of an operation after it.

The number of mutations that a routine has named decides no condition.
-/

namespace AgentLcars

/-- From a sound state, whatever else happens, the routine makes only calls that the process may make,
and ends as the condition says. -/
def Serves {α : Type} (env : CodexEnv) (pid : Nat) (s : BrokerState) (p : BrokerM α)
    (Q : BrokerState → Except BrokerError α → Prop) : Prop :=
  s.Sound env → ∀ n, p.Meets (brokers env) pid s n fun s x _ => Q s x

/-- A condition on what a routine returns, and one on what it throws. -/
def Ends {α : Type} (returns : BrokerState → α → Prop) (throws : BrokerState → BrokerError → Prop)
    (s : BrokerState) : Except BrokerError α → Prop
  | .ok a => returns s a
  | .error e => throws s e

/-- A condition on what a routine returns. -/
abbrev Returns {α : Type} (returns : BrokerState → α → Prop) :
    BrokerState → Except BrokerError α → Prop :=
  Ends returns fun _ _ => True

/-- Nothing is said of how a routine ends. -/
def Anyhow {α : Type} : BrokerState → Except BrokerError α → Prop := fun _ _ => True

namespace Serves

variable {α β : Type} {env : CodexEnv} {pid : Nat} {s : BrokerState} {p : BrokerM α}
  {Q Q' : BrokerState → Except BrokerError α → Prop}
  {T : BrokerState → Except BrokerError β → Prop}

theorem known (h : s.Sound env → Serves env pid s p Q) : Serves env pid s p Q :=
  fun hs => h hs hs

theorem imp (h : Serves env pid s p Q) (hQ : ∀ s x, Q s x → Q' s x) : Serves env pid s p Q' :=
  fun hs n => (h hs n).imp fun s x _ => hQ s x

/-- A fact that no move ends holds where a routine ends. -/
theorem frame {R : BrokerState → Prop} (h : Serves env pid s p Q) (hR : Enduring env R)
    (hs : R s) : Serves env pid s p fun s x => R s ∧ Q s x :=
  fun hsound n => (h hsound n).frame hR.stable hs

theorem keep {R : BrokerState → Prop} [hR : Enduring env R] (h : Serves env pid s p Q)
    (hs : R s) : Serves env pid s p fun s x => R s ∧ Q s x :=
  h.frame hR hs

theorem pure {a : α} (h : Q s (.ok a)) : Serves env pid s (Pure.pure a) Q :=
  fun _ _ => Routine.Meets.pure h

protected theorem throw {e : BrokerError} (h : Q s (.error e)) :
    Serves env pid s (MonadExcept.throw e) Q :=
  fun _ _ => Routine.Meets.throw h

/-- Nothing follows an exception. -/
theorem throw_bind {e : BrokerError} {f : α → BrokerM β} (h : T s (.error e)) :
    Serves env pid s (throw e >>= f) T :=
  fun _ _ => h

/-- A routine and what follows it; an exception ends both. -/
theorem bind {f : α → BrokerM β} (h : Serves env pid s p Q)
    (hok : ∀ s a, Q s (.ok a) → Serves env pid s (f a) T)
    (herror : ∀ s e, Q s (.error e) → T s (.error e) := by
      first | exact fun _ _ _ => trivial | rintro _ _ ⟨⟩) : Serves env pid s (p >>= f) T :=
  fun hs n => ((h hs n).inv hs).bind (fun s a t hQ => hok s a hQ.2 hQ.1 t)
    fun s e _ hQ => herror s e hQ.2

theorem tryCatch {handle : BrokerError → BrokerM α}
    {T : BrokerState → Except BrokerError α → Prop} (h : Serves env pid s p Q)
    (hok : ∀ s a, Q s (.ok a) → T s (.ok a))
    (herror : ∀ s e, Q s (.error e) → Serves env pid s (handle e) T) :
    Serves env pid s (tryCatch p handle) T :=
  fun hs n => ((h hs n).inv hs).tryCatch (fun s a _ hQ => hok s a hQ.2)
    fun s e t hQ => herror s e hQ.2 hQ.1 t

/-- What a routine throws is a value. -/
theorem attempt (h : Serves env pid s p Q) :
    Serves env pid s (Broker.attempt p) (Ends Q fun _ _ => False) := by
  refine tryCatch (Q := Ends Q fun s e => Q s (.error e)) ?_ (fun s y hQ => hQ) ?_
  · exact h.bind (fun s a hQ => Serves.pure hQ) fun s e hQ => hQ
  · exact fun s e hQ => Serves.pure hQ

/-- A pure function stops with an error or goes on. -/
theorem ofExcept {result : Except BrokerError α} (h : Q s result) :
    Serves env pid s (Broker.ofExcept result) Q := by
  cases result with
  | ok a => exact Serves.pure h
  | error e => exact Serves.throw h

theorem ofExcept_bind {result : Except BrokerError α} {f : α → BrokerM β}
    (hok : ∀ a, result = .ok a → Serves env pid s (f a) T)
    (herror : ∀ e, result = .error e → T s (.error e)) :
    Serves env pid s (Broker.ofExcept result >>= f) T := by
  cases result with
  | ok a => exact hok a rfl
  | error e => exact throw_bind (herror e rfl)

/-- A call that is allowed whenever it is made, and what follows it. -/
theorem call {c : BrokerCall} {f : c.Reply → BrokerM β}
    (h : ∀ s₁, InMeantime env pid s s₁ → s₁.Sound env → MayCall env pid c s₁ ∧
      ∀ answer r s₂, s₁.execute pid answer c = some (r, s₂) → Serves env pid s₂ (f r) T) :
    Serves env pid s (Routine.call c >>= f) T := by
  intro _ n s₁ hlater hs₁
  obtain ⟨hmay, hnext⟩ := h s₁ hlater hs₁
  exact ⟨hmay, fun r s₂ hexec hs₂ => hexec.elim fun answer hexec => hnext answer r s₂ hexec hs₂ n⟩

end Serves

/-! ### Reading -/

section Reading

variable {env : CodexEnv} {pid : Nat} {s : BrokerState}

theorem BrokerAnswer.read_cases {α : Type} {answer : BrokerAnswer} {replaced : Bool}
    {value : Option α} {reply : ReadReply α} (h : answer.read replaced value = reply) :
    (∃ v, reply = .found v ∧ value = some v) ∨
      (reply = .missing ∧ (value = none ∨ replaced = true)) ∨ reply = .failed := by
  subst h
  unfold BrokerAnswer.read
  split
  · exact .inl ⟨_, rfl, rfl⟩
  · exact .inr (.inl ⟨rfl, .inl rfl⟩)
  · cases replaced with
    | true => exact .inr (.inl ⟨rfl, .inr rfl⟩)
    | false => exact .inr (.inr rfl)
  · exact .inr (.inr rfl)

theorem now_serves : Serves env pid s Broker.now
    (Ends (fun s' now => InMeantime env pid s s' ∧ now = s'.clock) fun _ _ => False) := by
  intro _ n s₁ hmeantime hs₁
  refine ⟨trivial, ?_⟩
  rintro now s₂ ⟨answer, hexec⟩ -
  cases hexec
  exact ⟨hmeantime, rfl⟩

/-- A drawn UUID is this process's to use. -/
theorem randomUUID_serves : Serves env pid s Broker.randomUUID
    (Ends (fun s' id => (id, pid) ∈ s'.unspent) fun _ _ => False) := by
  intro _ n s₁ _ _
  refine ⟨trivial, ?_⟩
  rintro id s₂ ⟨answer, hexec⟩ -
  obtain ⟨fresh, -, rfl, rfl⟩ := BrokerState.randomUUID_cases hexec
  exact List.mem_cons_self

/-- A run as it was stored when it was read. -/
theorem readRun_serves (r : String) : Serves env pid s (Broker.readRun r)
    (Returns fun s' run => InMeantime env pid s s' ∧ run = s'.world.store.runs.get r) := by
  unfold Broker.readRun
  refine Serves.call fun s₁ hmeantime _ => ⟨trivial, ?_⟩
  rintro answer reply s₂ hexec
  cases answer <;> cases hexec
  · exact Serves.pure ⟨hmeantime, rfl⟩
  all_goals exact Serves.throw trivial

/-- What a read of the lease has seen at a moment before its end. -/
inductive LeaseSeen (s s' : BrokerState) : Option CodexAuthLease → Prop where
  | absent (hnil : s.lease = []) : LeaseSeen s s' none
  | replaced (hgone : s'.LeaseSuperseded (generationOf s.lease)) : LeaseSeen s s' none
  | found (v : ObjectVersion CodexLeaseRecord) (hhead : s.lease.head? = some v)
      (hvalid : v.content.valid = true) :
      LeaseSeen s s' (some { v.content with generation := v.generation })

/-- A read of the lease tells what the object was at one moment. -/
def ReadsLease (env : CodexEnv) (pid : Nat) (s s' : BrokerState) (lease : Option CodexAuthLease) :
    Prop :=
  ∃ s₁, InMeantime env pid s s₁ ∧ s₁.Sound env ∧ InMeantime env pid s₁ s' ∧ LeaseSeen s₁ s' lease

theorem mem_of_head? {α : Type} {versions : List α} {v : α} (h : versions.head? = some v) :
    v ∈ versions :=
  List.mem_of_mem_head? (h ▸ rfl)

theorem versionAt_eq {α : Type} {versions : List (ObjectVersion α)} {v : ObjectVersion α}
    (hdistinct : Versions.Distinct (·.generation) "0" versions) (hv : v ∈ versions) :
    versionAt versions v.generation = some v := by
  cases hfind : versionAt versions v.generation with
  | none =>
    have hnone := List.find?_eq_none.1 hfind v hv
    simp at hnone
  | some u =>
    obtain ⟨hu, hg⟩ := mem_of_versionAt hfind
    rw [hdistinct.unique hu hv hg]

theorem readLease_serves : Serves env pid s readLease (Returns (ReadsLease env pid s)) := by
  unfold readLease
  refine Serves.call fun s₁ hmeantime hs₁ => ⟨trivial, ?_⟩
  rintro answer reply s₁ hexec
  obtain ⟨hreply, rfl⟩ := Prod.mk.inj (Option.some.inj hexec)
  rcases BrokerAnswer.read_cases hreply with ⟨g, rfl, hg⟩ | ⟨rfl, hnone | hfalse⟩ | rfl
  · obtain ⟨v, hhead, rfl⟩ := Option.map_eq_some_iff.1 hg
    refine Serves.call fun s₂ hmeantime₂ hs₂ => ⟨trivial, ?_⟩
    rintro answer reply s₂ hexec
    obtain ⟨hreply, rfl⟩ := Prod.mk.inj (Option.some.inj hexec)
    have hv := enduring_lease.after hmeantime₂ (mem_of_head? hhead)
    rw [versionAt_eq hs₂.leased.distinct hv] at hreply
    rcases BrokerAnswer.read_cases hreply with ⟨record, rfl, hrecord⟩ | ⟨rfl, hnone | hne⟩ | rfl
    · cases hrecord
      dsimp only
      split
      · rename_i hvalid
        exact Serves.pure ⟨s₁, hmeantime, hs₁, hmeantime₂, .found v hhead hvalid⟩
      · exact Serves.throw trivial
    · cases hnone
    · refine Serves.pure ⟨s₁, hmeantime, hs₁, hmeantime₂, .replaced ?_⟩
      rw [generationOf_eq hhead]
      exact ⟨of_decide_eq_true hne, .inr ⟨v, hv, rfl⟩⟩
    · exact Serves.throw trivial
  · refine Serves.pure ⟨s₁, hmeantime, hs₁, .refl, .absent ?_⟩
    exact List.head?_eq_none_iff.1 (Option.map_eq_none_iff.1 hnone)
  · cases hfalse
  · exact Serves.throw trivial

/-- A lease that was read: a version of the object, which is valid. -/
structure StoredLease (lease : CodexAuthLease) (s : BrokerState) : Prop where
  version : ∃ v ∈ s.lease, v.content.valid = true ∧ lease = { v.content with generation := v.generation }

instance StoredLease.enduring {lease : CodexAuthLease} : Enduring env (StoredLease lease) := by
  refine .grows fun _ _ hgrows => ?_
  rintro ⟨v, hv, hvalid, rfl⟩
  exact ⟨v, hgrows.lease v hv, hvalid, rfl⟩

theorem StoredLease.valid {lease : CodexAuthLease} (h : StoredLease lease s) :
    lease.toCodexLeaseRecord.valid = true := by
  obtain ⟨v, -, hvalid, rfl⟩ := h
  exact hvalid

theorem ReadsLease.stored {s' : BrokerState} {lease : CodexAuthLease}
    (h : ReadsLease env pid s s' (some lease)) : StoredLease lease s' := by
  obtain ⟨s₁, -, -, hafter, hseen⟩ := h
  cases hseen with
  | found v hhead hvalid =>
    exact ⟨v, enduring_lease.after hafter (mem_of_head? hhead), hvalid, rfl⟩

/-- A snapshot is a version that was the newest at one moment. -/
structure ReadsAuth (env : CodexEnv) (pid : Nat) (s s' : BrokerState) (current : CodexAuthSnapshot)
    (s₁ : BrokerState) (v : ObjectVersion CodexAuthObject) : Prop where
  before : InMeantime env pid s s₁
  sound : s₁.Sound env
  after : InMeantime env pid s₁ s'
  head : s₁.auth.head? = some v
  current : current =
    { authBase64 := env.encodeBase64 v.content.bytes, generation := v.generation
      sha256 := env.sha256 v.content.bytes, receipt := receiptFromMetadata v.content.receipt }

/-- The object did not exist at one moment, or its version of that moment is replaced. -/
def MissesAuth (env : CodexEnv) (pid : Nat) (s s' : BrokerState) : Prop :=
  ∃ s₁, InMeantime env pid s s₁ ∧ s₁.Sound env ∧ InMeantime env pid s₁ s' ∧
    (s₁.auth = [] ∨ s'.AuthSuperseded (generationOf s₁.auth))

theorem read_serves : Serves env pid s env.read
    (Ends (fun s' current => ∃ s₁ v, ReadsAuth env pid s s' current s₁ v)
      fun s' e => ∀ message, e = .codexAuth .notFound message → MissesAuth env pid s s') := by
  unfold CodexEnv.read
  refine Serves.call fun s₁ hmeantime hs₁ => ⟨trivial, ?_⟩
  rintro answer reply s₁ hexec
  obtain ⟨hreply, rfl⟩ := Prod.mk.inj (Option.some.inj hexec)
  rcases BrokerAnswer.read_cases hreply with ⟨found, rfl, hg⟩ | ⟨rfl, hnone | hfalse⟩ | rfl
  · obtain ⟨v, hhead, rfl⟩ := Option.map_eq_some_iff.1 hg
    refine Serves.call fun s₂ hmeantime₂ hs₂ => ⟨trivial, ?_⟩
    rintro answer reply s₂ hexec
    obtain ⟨hreply, rfl⟩ := Prod.mk.inj (Option.some.inj hexec)
    have hv := enduring_auth.after hmeantime₂ (mem_of_head? hhead)
    rw [versionAt_eq hs₂.authored.distinct hv] at hreply
    rcases BrokerAnswer.read_cases hreply with ⟨bytes, rfl, hbytes⟩ | ⟨rfl, hnone | hne⟩ | rfl
    · cases hbytes
      unfold decodedAuth
      dsimp only
      split
      · exact Serves.throw (by rintro message ⟨⟩)
      · exact Serves.pure ⟨s₁, v, hmeantime, hs₁, hmeantime₂, hhead, rfl⟩
    · cases hnone
    · refine Serves.throw fun _ _ => ⟨s₁, hmeantime, hs₁, hmeantime₂, .inr ?_⟩
      rw [generationOf_eq hhead]
      exact ⟨of_decide_eq_true hne, .inr ⟨v, hv, rfl⟩⟩
    · exact Serves.throw (by rintro message ⟨⟩)
  · refine Serves.throw fun _ _ => ⟨s₁, hmeantime, hs₁, .refl, .inl ?_⟩
    exact List.head?_eq_none_iff.1 (Option.map_eq_none_iff.1 hnone)
  · cases hfalse
  · exact Serves.throw (by rintro message ⟨⟩)

/-- A lease of exactly this claim. -/
theorem CodexAuthLease.ownedBy_iff {lease : CodexAuthLease} {r f : String} :
    lease.ownedBy r f = true ↔ lease.runId = r ∧ lease.claimFingerprint = some f := by
  unfold CodexAuthLease.ownedBy
  exact decide_eq_true_iff

/-- A lease that is not handed on is no live lease of the claim any more. -/
inductive OwnedLive (r f : String) (lease : Option CodexAuthLease) (s : BrokerState) :
    Option CodexAuthLease → Prop where
  | live (given : CodexAuthLease) (hgiven : lease = some given)
      (howned : given.ownedBy r f = true) : OwnedLive r f lease s (some given)
  | gone (hdead : ∀ given, lease = some given →
      ¬given.toCodexLeaseRecord.LiveFor s.clock r f) : OwnedLive r f lease s none

theorem liveOwned_serves (r f : String) (lease : Option CodexAuthLease) :
    Serves env pid s (Broker.liveOwned r f lease)
      (Returns fun s' live => InMeantime env pid s s' ∧ OwnedLive r f lease s' live) := by
  unfold Broker.liveOwned
  cases lease with
  | none => exact Serves.pure ⟨.refl, .gone (by rintro _ ⟨⟩)⟩
  | some lease =>
    dsimp only
    split
    · rename_i howned
      refine Serves.pure ⟨.refl, .gone ?_⟩
      rintro _ ⟨⟩ hlive
      rw [CodexAuthLease.ownedBy_iff.2 ⟨hlive.runId, hlive.claimFingerprint⟩] at howned
      cases howned
    · rename_i howned
      refine now_serves.bind ?_
      rintro s₁ now ⟨hmeantime, rfl⟩
      refine Serves.pure ⟨hmeantime, ?_⟩
      split
      · exact .live lease rfl (by simpa using howned)
      · rename_i hexpired
        refine .gone ?_
        rintro _ ⟨⟩ hlive
        exact hexpired hlive.unexpired

end Reading

/-! ### Transactions -/

section Transactions

variable {env : CodexEnv} {pid : Nat} {s s' s₁ : BrokerState} {r o f : String} {now : Time}
  {d : Decision}

/-- A transaction on the run that was accepted, at some moment. -/
structure AcceptedAt (env : CodexEnv) (pid : Nat) (s s' : BrokerState) (r : String) (op : DirectOp)
    (d : Decision) (s₁ : BrokerState) (now : Time) : Prop where
  before : InMeantime env pid s s₁
  sound : s₁.Sound env
  may : MayTransact env s₁ pid r op
  after : s' = s₁.transacted pid r now op
  accepted : (Orchestrator.direct s₁.world.store r now op).1 = .ok d

/-- A transaction on the run that was accepted. -/
def Accepted (env : CodexEnv) (pid : Nat) (s s' : BrokerState) (r : String) (op : DirectOp)
    (d : Decision) : Prop :=
  ∃ s₁ now, AcceptedAt env pid s s' r op d s₁ now

theorem transact_serves {op : DirectOp} {at_ : Option Time}
    (hmay : ∀ s₁, InMeantime env pid s s₁ → s₁.Sound env → MayTransact env s₁ pid r op) :
    Serves env pid s (Broker.transact r op at_)
      (Ends (fun s' reply => ∀ d, reply = .ok d → Accepted env pid s s' r op d)
        fun _ e => e = .failed) := by
  unfold Broker.transact
  refine Serves.call fun s₁ hmeantime hs₁ => ⟨hmay s₁ hmeantime hs₁, ?_⟩
  rintro answer reply s₂ hexec
  rcases BrokerAnswer.commit_cases hexec with ⟨hafter, rfl | rfl⟩ | ⟨rfl, rfl⟩
  · cases houtcome : (Orchestrator.direct s₁.world.store r (at_.getD s₁.clock) op).1 with
    | ok d =>
      refine Serves.pure ?_
      rintro d ⟨⟩
      exact ⟨s₁, _, hmeantime, hs₁, hmay s₁ hmeantime hs₁, hafter, houtcome⟩
    | error stop =>
      cases stop with
      | refusal => exact Serves.pure (by rintro d ⟨⟩)
      | threw => exact Serves.throw rfl
  · exact Serves.throw rfl
  · exact Serves.throw rfl

theorem AcceptedAt.keep {R : BrokerState → Prop} [hR : Enduring env R] {op : DirectOp}
    (h : AcceptedAt env pid s s' r op d s₁ now) (hs : R s) : R s' := by
  rw [h.after]
  exact hR.move (some pid) s₁ _ h.sound (.transacted pid r now op rfl h.may) (h.before.keep hs)

/-- An accepted transaction was decided on the run and its task, and is stored. -/
theorem AcceptedAt.decided {op : DirectOp} (h : AcceptedAt env pid s s' r op d s₁ now) :
    ∃ run t eligibility, s₁.world.store.runs.get r = some run ∧
      op.decide now t run eligibility = .ok d ∧
      ∀ run', d.run = some run' → run'.runId = run.runId →
        s'.world.store.runs.get r = some run' := by
  obtain ⟨steps, hsteps⟩ := h.sound.journalled.world
  have hw : s₁.world.Coherent := hsteps ▸ World.coherent_run steps
  have hdecision : s₁.world.decision (.direct r now op) = some d := by
    show (Orchestrator.direct s₁.world.store r now op).1.toOption = some d
    rw [h.accepted]
    rfl
  obtain ⟨vt, run, hrun, -, hd, -⟩ := hw.direct_decided hdecision
  refine ⟨run, vt.task, _, hrun, hd, fun run' hrun' hid => ?_⟩
  have hstored := (hw.stored hdecision).1 run' (by simp [Decision.writes, hrun'])
  rw [h.after]
  rwa [hid, hw.store.runKeyed hrun] at hstored

/-- The run that was stored under an id. -/
theorem BrokerState.Sound.runId (hs : s.Sound env) {run : Run}
    (hrun : s.world.store.runs.get r = some run) : run.runId = r := by
  obtain ⟨steps, hsteps⟩ := hs.journalled.world
  exact (hsteps ▸ World.coherent_run steps : s.world.Coherent).store.runKeyed hrun

/-- A reservation that is accepted. -/
theorem AcceptedAt.reserved {kind : CredentialKind}
    (h : AcceptedAt env pid s s' r (.reserveCredentialOperation f o kind) d s₁ now) :
    ∃ run op, d.run = some run ∧ s'.world.store.runs.get r = some run ∧
      s'.world.operation r = some op ∧ op.id = o ∧ op.claimFingerprint = f ∧ op.kind = kind := by
  obtain ⟨run, t, eligibility, hrun, hd, hstored⟩ := h.decided
  simp only [DirectOp.decide, reserveCredentialOperation, ite_refused_eq_ok] at hd
  obtain ⟨-, -, -, -, hd⟩ := hd
  obtain rfl := Except.ok.inj hd
  have hafter := hstored _ rfl rfl
  exact ⟨_, _, rfl, hafter, World.operation_eq_some.2 ⟨_, hafter, rfl⟩, rfl, rfl, rfl⟩

/-- A prepared mutation that is accepted. -/
theorem AcceptedAt.prepared {mutation : CredentialMutation}
    (h : AcceptedAt env pid s s' r (.changeCredentialOperation o f (.prepare mutation)) d s₁ now) :
    ∃ op, s₁.world.operation r = some op ∧ op.id = o ∧
      mutation.id = mutationIdOf o (op.mutationSequence + 1) ∧
      s'.world.operation r = some { op with
        mutation := some mutation, mutationSequence := op.mutationSequence + 1 } ∧
      s'.journal = ⟨r, o, f, mutation, pid, s₁.knows mutation⟩ :: s₁.journal := by
  obtain ⟨run, t, eligibility, hrun, hd, hstored⟩ := h.decided
  have hd : changeCredentialOperation now t run o f (.prepare mutation) = .ok d := hd
  obtain ⟨op, ⟨hop, rfl, rfl, -⟩, hchange⟩ := changeCredentialOperation_ok hd
  cases hchange with
  | prepare _ hid hbound hmutation =>
    have hbefore := World.operation_eq_some.2 ⟨run, hrun, hop⟩
    have hafter := World.operation_eq_some.2 ⟨_, hstored _ rfl rfl, rfl⟩
    refine ⟨op, hbefore, rfl, hid, hafter, ?_⟩
    rw [h.after] at hafter ⊢
    exact BrokerState.transacted_journal hbefore hmutation hafter

/-- An acknowledgement that is accepted. -/
theorem AcceptedAt.acknowledged {mutationId : String} {receipt : Option CredentialWriteReceipt}
    (h : AcceptedAt env pid s s' r (.changeCredentialOperation o f (.acknowledge mutationId receipt))
      d s₁ now) :
    ∃ op mutation run, s₁.world.operation r = some op ∧ op.id = o ∧
      op.mutation = some mutation ∧ mutation.id = mutationId ∧ d.run = some run ∧
      run.credentialOperation = some { op with mutation := none } := by
  obtain ⟨run, t, eligibility, hrun, hd, hstored⟩ := h.decided
  have hd : changeCredentialOperation now t run o f (.acknowledge mutationId receipt) = .ok d := hd
  obtain ⟨op, ⟨hop, rfl, rfl, -⟩, hchange⟩ := changeCredentialOperation_ok hd
  cases hchange with
  | acknowledge mutation receipt hmutation =>
    exact ⟨op, mutation, _, World.operation_eq_some.2 ⟨run, hrun, hop⟩, rfl, hmutation, rfl, rfl, rfl⟩

/-- A finish that is accepted. -/
theorem AcceptedAt.finished {authority : Option ProviderFallbackAuthority} {restored : Bool}
    {sequence : Option Nat} (h : AcceptedAt env pid s s' r
      (.finishCredentialOperation authority o f restored sequence) d s₁ now) :
    ∃ run op, s₁.world.store.runs.get r = some run ∧ run.credentialOperation = some op ∧ op.id = o ∧
      op.claimFingerprint = f ∧ op.mutation = none ∧
      (op.kind = .cleanup ∨ run.credentialPendingResult.isSome = true →
        sequence = some op.mutationSequence) := by
  obtain ⟨run, t, eligibility, hrun, hd, -⟩ := h.decided
  obtain ⟨outcome, houtcome, -⟩ := bind_eq_ok.1 hd
  obtain ⟨op, ⟨hop, hid, hclaim, -⟩, hchange⟩ := changeCredentialOperation_ok houtcome
  refine ⟨run, op, hrun, hop, hid, hclaim, ?_⟩
  cases hchange with
  | finish _ _ hmutation hpending hcleanup =>
    refine ⟨hmutation, fun hretires => ?_⟩
    rcases hretires with hkind | hsome
    · exact hcleanup hkind
    · rw [hpending] at hsome
      cases hsome
  | complete _ _ hmutation => exact ⟨hmutation, fun _ => rfl⟩

end Transactions

end AgentLcars
