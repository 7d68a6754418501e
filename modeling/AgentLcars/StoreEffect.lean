import AgentLcars.RequestEffect
import AgentLcars.Selection

/-!
# The store under a step

`Change` describes what one step can do to the store: nothing the decisions read, a queue write, an
outbox write, or the commit of an accepted decision.  `Store.Coherent` is the invariant under which
a transaction's snapshot means what its decision takes it to mean: documents are filed under their
own ids, generations are counted, and the lock of a task names its one live run.
-/

namespace AgentLcars

/-! ### Commits -/

namespace Store

theorem foldl_putRun (s : Store) (runs : List Run) :
    runs.foldl putRun s =
      { s with
        runs := s.runs.setAll Run.runId id runs
        requestRuns := s.requestRuns.setAll
          (fun run => requestKey run.task run.requestSource run.requestId) Run.runId runs } := by
  induction runs generalizing s with
  | nil => rfl
  | cons run rest ih =>
    rw [List.foldl_cons, ih]
    rfl

theorem foldl_putEntry (s : Store) (entries : List OutboxEntry) :
    entries.foldl putEntry s =
      { s with outbox := s.outbox.setAll OutboxEntry.entryId id entries } := by
  induction entries generalizing s with
  | nil => rfl
  | cons entry rest ih =>
    rw [List.foldl_cons, ih]
    rfl

/-- The cooldowns after a list of written runs. -/
def cooldownsAfter (cooldowns : OrderedMap String ProviderCooldown) (runs : List Run) :
    OrderedMap String ProviderCooldown :=
  cooldowns.setAll ProviderCooldown.pipeline id (runs.filterMap providerCooldownForRun)

theorem foldl_noteCooldown (s : Store) (runs : List Run) :
    runs.foldl noteCooldown s =
      { s with providerCooldowns := cooldownsAfter s.providerCooldowns runs } := by
  induction runs generalizing s with
  | nil => rfl
  | cons run rest ih =>
    rw [List.foldl_cons, ih]
    unfold noteCooldown cooldownsAfter
    cases hc : providerCooldownForRun run with
    | none => rw [List.filterMap_cons_none hc]
    | some cooldown => rw [List.filterMap_cons_some hc]; rfl

theorem commit_eq (s : Store) (d : Decision) (revision : Nat) :
    s.commit d revision =
      { s with
        tasks := s.tasks.set (taskKey d.task.task) { task := d.task, revision }
        runs := s.runs.setAll Run.runId id d.writes
        requestRuns := s.requestRuns.setAll
          (fun run => requestKey run.task run.requestSource run.requestId) Run.runId d.writes
        providerCooldowns := cooldownsAfter s.providerCooldowns d.writes
        outbox := s.outbox.setAll OutboxEntry.entryId id d.outbox } := by
  simp only [commit, foldl_putRun, foldl_noteCooldown, foldl_putEntry]

end Store

/-- The store is the same, or a decision was committed to it. -/
def Commits (s s' : Store) : Prop := s' = s ∨ ∃ d revision, s' = s.commit d revision

theorem apply_commits {s s' : Store} {d : Decision} {expected : Option Nat}
    (h : s.apply d expected = some s') : Commits s s' := by
  unfold Store.apply at h
  split_ifs at h
  exact .inr ⟨d, _, (Option.some.inj h).symm⟩

theorem transactRun_commits (s : Store) (runId : String) (pipelines : Option (List String))
    (should : Option VersionedTask → Option Run → Bool)
    (decide : Store.RunTransactionState → Outcome) :
    Commits s (s.transactRun runId pipelines should decide).2 := by
  unfold Store.transactRun
  dsimp only
  split
  · exact .inl rfl
  split
  · exact .inl rfl
  · rename_i s' happly
    exact apply_commits happly

theorem resume_commits (call : Call) (s : Store) (now : Time) :
    Commits s (call.resume s now).2 := by
  unfold Call.resume
  split
  · exact .inl rfl
  · exact .inl rfl
  · unfold Call.finish
    split
    · exact .inl rfl
    split
    · rename_i s' happly
      exact apply_commits happly
    · exact .inl rfl
  · exact .inl rfl

/-! ### Coherence -/

/-- Documents are filed under their own ids, generations are counted, and the lock of a task names
its one live run. -/
structure Store.Coherent (s : Store) : Prop where
  taskKeyed : ∀ {k vt}, s.tasks.get k = some vt → taskKey vt.task.task = k
  runKeyed : ∀ {id r}, s.runs.get id = some r → r.runId = id
  counted : ∀ {id r}, s.runs.get id = some r → ∃ vt n, s.tasks.get (taskKey r.task) = some vt ∧
    n < vt.task.runCount ∧ r.runId = runIdOf (taskKey r.task) (n + 1)
  holder : ∀ {k vt id}, s.tasks.get k = some vt → vt.task.activeRunId = some id →
    ∃ r, s.runs.get id = some r ∧ isLive r.state = true ∧ taskKey r.task = k
  mutex : ∀ {id r vt}, s.runs.get id = some r → s.tasks.get (taskKey r.task) = some vt →
    isLive r.state = true → vt.task.activeRunId = some id
  source : ∀ {id r vt}, s.runs.get id = some r → s.tasks.get (taskKey r.task) = some vt →
    SameSource r.issue vt.task.issue
  closed : ∀ {k vt}, s.tasks.get k = some vt → vt.task.closedAt.isSome = true →
    vt.task.activeRunId = none
  entryKeyed : ∀ {id e}, s.outbox.get id = some e → e.entryId = id

theorem Store.coherent_empty : Store.empty.Coherent where
  taskKeyed := nofun
  runKeyed := nofun
  counted := nofun
  holder := nofun
  mutex := nofun
  source := nofun
  closed := nofun
  entryKeyed := nofun

/-- A task keyed under `k` counts a run under the same key. -/
theorem Store.Coherent.counted_of {s : Store} (h : s.Coherent) {k id : String} {vt : VersionedTask}
    {r : Run} (ht : s.tasks.get k = some vt) (hr : s.runs.get id = some r)
    (hk : taskKey r.task = k) : ∃ n, n < vt.task.runCount ∧ id = runIdOf k (n + 1) := by
  obtain ⟨vt', n, hvt', hn, hid⟩ := h.counted hr
  rw [hk, ht] at hvt'
  obtain rfl := Option.some.inj hvt'
  exact ⟨n, hn, by rw [← h.runKeyed hr, hid, hk]⟩

/-- No stored run has the id of a generation its task has not reached. -/
theorem Store.Coherent.fresh_id {s : Store} (h : s.Coherent) {k : String} {n : Nat}
    (hn : generations ((s.tasks.get k).map (·.task)) ≤ n) : s.runs.get (runIdOf k (n + 1)) = none := by
  by_contra hne
  obtain ⟨r, hr⟩ := Option.ne_none_iff_exists'.1 hne
  obtain ⟨vt, j, hvt, hj, hid⟩ := h.counted hr
  rw [h.runKeyed hr, runIdOf_inj] at hid
  obtain ⟨rfl, hid⟩ := hid
  simp only [hvt, generations, Option.map_some, Option.getD_some] at hn
  omega

/-! ### What one step does to the store -/

/-- The request id a step presents. -/
def Step.requestId : Step → Option String
  | .request _ input => some input.requestId
  | _ => none

/-- The request source a step presents. -/
def Step.requestSource : Step → Option RequestSource
  | .request _ input => some (input.requestSource.getD .caller)
  | _ => none

/-- Whether the step presents a request binding. -/
def Step.bound : Step → Bool
  | .request _ input => input.requestBinding.isSome
  | _ => false

/-- The current record under the binding of a request. -/
def Store.currentBinding (s : Store) (input : RequestInput) : Option BindingRecord :=
  input.requestBinding.bind fun binding =>
    s.requestBindings.get (taskKey input.taskId, binding.bindingKey)

/-- The id a request stands for, through its binding if it has one. -/
def Store.resolves (s : Store) (input : RequestInput) : Option String :=
  match Store.resolveRequestBinding input.requestId input.requestBinding
    (s.currentBinding input) with
  | .ok (requestId, _) => some requestId
  | .error _ => none

/-- The identity a request transaction found unused. -/
structure Admits (label : Step) (s : Store) (key : String) (source : RequestSource) (id : String) :
    Prop where
  requested : label.requestedKey = some key
  presented : label.requestSource = some source
  unused : (s.requestRuns.get (key, requestHistoryKey source id)).bind s.runs.get = none
  unbound : label.bound = false → label.requestId = some id
  revision : ∀ revision ∈ label.revision, label.requestId = some revision.key
  resolved : ∀ now input, label = .request now input → s.resolves input = some id

/-- What a decision may take as admitted: every request presents an identity that was unused. -/
structure Presents (label : Step) (s : Store) (key : String)
    (admitted : Option (RequestSource × String)) : Prop where
  admits : ∀ source id, admitted = some (source, id) → Admits label s key source id
  asked : label.requestId.isSome = true → admitted.isSome = true

theorem presents_none {label : Step} {s : Store} {key : String} (h : label.requestId = none) :
    Presents label s key none where
  admits := fun _ _ h => by cases h
  asked := by simp [h]

/-- Both successor layers answer the step. -/
def Step.doublesSuccessor (s : Store) : Step → Bool
  | .onRun runId now _ op =>
    let state := s.runState runId op.eligibilityPipelines (op.shouldReadQueueEligibility now)
    match state.task, state.run with
    | some vt, some r => op.doublesSuccessor now vt.task r state.queueEligibility
    | _, _ => false
  | .direct runId now op =>
    let state := s.runState runId op.eligibilityPipelines (op.shouldReadQueueEligibility now)
    match state.task, state.run with
    | some vt, some r => op.doublesSuccessor now vt.task r state.queueEligibility
    | _, _ => false
  | _ => false

/-- The store after the commit of a decision. -/
structure Written (s s' : Store) (d : Decision) : Prop where
  tasks : s'.tasks = s.tasks.set (taskKey d.task.task)
    { task := d.task
      revision := ((s.tasks.get (taskKey d.task.task)).map (·.revision)).getD 0 + 1 }
  runs : s'.runs = s.runs.setAll Run.runId id d.writes
  requestRuns : s'.requestRuns = s.requestRuns.setAll
    (fun run => Store.requestKey run.task run.requestSource run.requestId) Run.runId d.writes
  cooldowns : s'.providerCooldowns = Store.cooldownsAfter s.providerCooldowns d.writes
  outbox : s'.outbox = s.outbox.setAll OutboxEntry.entryId id d.outbox

/-- The store is the same to every decision. -/
structure Unread (s s' : Store) : Prop where
  tasks : s'.tasks = s.tasks
  runs : s'.runs = s.runs
  requestRuns : s'.requestRuns = s.requestRuns
  cooldowns : s'.providerCooldowns = s.providerCooldowns

/-- What the outbox workers do to an entry. -/
inductive EntryMove (label : Step) : OutboxEntry → OutboxEntry → Prop where
  | same {e} : EntryMove label e e
  | lease {e} (now leaseExpiresAt : Time) (claimId : String)
      (h : e.state = .pending ∨ Store.leaseExpired e now = true)
      (hlabel : ∃ limit excluded claimIds,
        label = .claimPendingOutbox limit now leaseExpiresAt excluded claimIds) :
      EntryMove label e (Store.leaseEntry e claimId leaseExpiresAt now)
  | settle {e e'} (input : OutboxSettlement) (h : settleOutboxEntry e input = some e')
      (hlabel : label = .settleOutbox input) : EntryMove label e e'
  | wake {e e'} (now : Time) (h : wakeOutboxEntry e now = some e')
      (hlabel : ∃ entryId, label = .wakeOutbox entryId now) : EntryMove label e e'

/-- What a step that commits no decision does to the store. -/
inductive Aside (label : Step) (s s' : Store) : Prop where
  | quiet (h : Unread s s') (hout : s'.outbox = s.outbox)
  | outbox (h : Unread s s')
      (hold : ∀ id e, s.outbox.get id = some e →
        ∃ e', s'.outbox.get id = some e' ∧ EntryMove label e e')
      (hnew : ∀ id, s.outbox.get id = none → s'.outbox.get id = none)
  | queue (now : Time) (r r' : Run) (hget : s.runs.get r.runId = some r)
      (hmove : Move label now r r') (hlive : isLive r'.state = isLive r.state)
      (htasks : s'.tasks = s.tasks) (hruns : s'.runs = s.runs.set r.runId r')
      (hrequests : s'.requestRuns = s.requestRuns)
      (hcooldowns : s'.providerCooldowns = s.providerCooldowns) (hout : s'.outbox = s.outbox)
      (hdelivery : r'.delivery = r.delivery) (hclock : label.clock = some now)

/-- What one step does to the store. -/
inductive Change (label : Step) (s s' : Store) : Prop where
  | aside (h : Aside label s s')
  | decide (now : Time) (admitted : Option (RequestSource × String)) (subject : Option Run)
      (d : Decision)
      (heffect : Effect label now admitted (label.doublesSuccessor s = true) subject
        ((s.tasks.get (taskKey d.task.task)).map (·.task)) d)
      (hsubject : ∀ r ∈ subject, s.runs.get r.runId = some r ∧
        taskKey r.task = taskKey d.task.task)
      (hadmits : Presents label s (taskKey d.task.task) admitted)
      (hwritten : Written s s' d) (hclock : label.clock = some now)

/-- The commit of an accepted decision. -/
inductive Committed (label : Step) (s s' : Store) (d : Decision) : Prop where
  | intro (now : Time) (admitted : Option (RequestSource × String)) (subject : Option Run)
      (heffect : Effect label now admitted (label.doublesSuccessor s = true) subject
        ((s.tasks.get (taskKey d.task.task)).map (·.task)) d)
      (hsubject : ∀ r ∈ subject, s.runs.get r.runId = some r ∧
        taskKey r.task = taskKey d.task.task)
      (hadmits : Presents label s (taskKey d.task.task) admitted)
      (hwritten : Written s s' d) (hclock : label.clock = some now)

theorem Committed.change {label : Step} {s s' : Store} {d : Decision}
    (h : Committed label s s' d) : Change label s s' := by
  obtain ⟨now, admitted, subject, heffect, hsubject, hadmits, hwritten, hclock⟩ := h
  exact .decide now admitted subject d heffect hsubject hadmits hwritten hclock

theorem Aside.tasks {label : Step} {s s' : Store} (h : Aside label s s') : s'.tasks = s.tasks := by
  cases h with
  | quiet h => exact h.tasks
  | outbox h => exact h.tasks
  | queue _ _ _ _ _ _ htasks => exact htasks

theorem Aside.cooldowns {label : Step} {s s' : Store} (h : Aside label s s') :
    s'.providerCooldowns = s.providerCooldowns := by
  cases h with
  | quiet h => exact h.cooldowns
  | outbox h => exact h.cooldowns
  | queue _ _ _ _ _ _ _ _ _ hcooldowns => exact hcooldowns

/-- Without a decision no entry is new. -/
theorem Aside.entry_back {label : Step} {s s' : Store} (h : Aside label s s') {id : String}
    {e' : OutboxEntry} (he' : s'.outbox.get id = some e') :
    ∃ e, s.outbox.get id = some e ∧ EntryMove label e e' := by
  cases h with
  | quiet _ hout => exact ⟨e', hout ▸ he', .same⟩
  | outbox _ hold hnew =>
    cases he : s.outbox.get id with
    | none =>
      rw [hnew id he] at he'
      cases he'
    | some e =>
      obtain ⟨e'', he'', hmove⟩ := hold id e he
      obtain rfl : e'' = e' := Option.some.inj (he''.symm.trans he')
      exact ⟨e, rfl, hmove⟩
  | queue _ _ _ _ _ _ _ _ _ _ hout => exact ⟨e', hout ▸ he', .same⟩

theorem Aside.entry_moves {label : Step} {s s' : Store} (h : Aside label s s') {id : String}
    {e : OutboxEntry} (he : s.outbox.get id = some e) :
    ∃ e', s'.outbox.get id = some e' ∧ EntryMove label e e' := by
  cases h with
  | quiet _ hout => exact ⟨e, by rw [hout]; exact he, .same⟩
  | outbox _ hold _ => exact hold id e he
  | queue _ _ _ _ _ _ _ _ _ _ hout => exact ⟨e, by rw [hout]; exact he, .same⟩

/-- What a settlement that succeeds does to its entry. -/
structure EntrySettled (e : OutboxEntry) (input : OutboxSettlement) (e' : OutboxEntry) : Prop where
  leased : ∃ leaseExpiresAt, e.state = .leased input.claimId leaseExpiresAt
  about : e'.entryId = e.entryId ∧ e'.runId = e.runId ∧ e'.task = e.task
  kind : e'.kind = e.kind
  attempts : e'.attempts = e.attempts
  state : e'.state = input.state.entryState
  updatedAt : e'.updatedAt = input.now
  firstFailedAt : ∀ firstFailedAt, input.firstFailedAt = some firstFailedAt →
    e'.firstFailedAt = some firstFailedAt

theorem settleOutboxEntry_eq_some {e e' : OutboxEntry} {input : OutboxSettlement}
    (h : settleOutboxEntry e input = some e') : EntrySettled e input e' := by
  unfold settleOutboxEntry at h
  split at h
  · rename_i claimId expires hstate
    split_ifs at h with hclaim
    all_goals
      obtain rfl := Option.some.inj h
      exact ⟨⟨expires, not_not.1 hclaim ▸ hstate⟩, ⟨rfl, rfl, rfl⟩, rfl, rfl, rfl, rfl,
        fun _ hfirst => by simp [hfirst]⟩
  · cases h

theorem wakeOutboxEntry_eq_some {e e' : OutboxEntry} {now : Time}
    (h : wakeOutboxEntry e now = some e') :
    e.state = .pending ∧ ∃ next, e.nextAttemptAt = some next ∧ now < next ∧
      e' = { e with nextAttemptAt := some now, updatedAt := now } := by
  unfold wakeOutboxEntry at h
  split at h
  · rename_i next hstate hnext
    split_ifs at h with hdue
    exact ⟨hstate, next, hnext, lt_of_not_ge hdue, (Option.some.inj h).symm⟩
  · cases h

theorem EntryMove.about {label : Step} {e e' : OutboxEntry} (h : EntryMove label e e') :
    e'.entryId = e.entryId ∧ e'.runId = e.runId ∧ e'.task = e.task := by
  cases h with
  | same => exact ⟨rfl, rfl, rfl⟩
  | lease => exact ⟨rfl, rfl, rfl⟩
  | settle input h => exact (settleOutboxEntry_eq_some h).about
  | wake now h =>
    obtain ⟨-, next, -, -, rfl⟩ := wakeOutboxEntry_eq_some h
    exact ⟨rfl, rfl, rfl⟩

/-! ### Transactions -/

section Transactions

variable {s : Store} {label : Step}

theorem apply_some {d : Decision} {expected : Option Nat} {s' : Store}
    (h : s.apply d expected = some s') :
    (s.tasks.get (taskKey d.task.task)).map (·.revision) = expected ∧ Written s s' d := by
  unfold Store.apply at h
  split_ifs at h with hrevision
  obtain rfl := Option.some.inj h
  refine ⟨hrevision, ?_⟩
  rw [Store.commit_eq, ← hrevision]
  exact ⟨rfl, rfl, rfl, rfl, rfl⟩

theorem noteBinding_unread (s : Store) (read : Store.RequestRead) (next : Option BindingRecord) :
    Unread s (s.noteBinding read next) ∧ (s.noteBinding read next).outbox = s.outbox := by
  unfold Store.noteBinding
  split
  all_goals exact ⟨⟨rfl, rfl, rfl, rfl⟩, rfl⟩

theorem noteRevision_unread (s : Store) (read : Store.RequestRead) (previous : Option WorkRevision)
    (d : Decision) :
    Unread s (s.noteRevision read previous d) ∧
      (s.noteRevision read previous d).outbox = s.outbox := by
  unfold Store.noteRevision
  split
  · split_ifs
    all_goals exact ⟨⟨rfl, rfl, rfl, rfl⟩, rfl⟩
  · exact ⟨⟨rfl, rfl, rfl, rfl⟩, rfl⟩

/-- A commit between two writes that no decision reads is a commit. -/
theorem Written.of_unread {s s₁ s₂ s' : Store} {d : Decision} (h : Written s₁ s₂ d)
    (h₁ : Unread s s₁) (hout₁ : s₁.outbox = s.outbox) (h₂ : Unread s₂ s')
    (hout₂ : s'.outbox = s₂.outbox) : Written s s' d where
  tasks := by rw [h₂.tasks, h.tasks, h₁.tasks]
  runs := by rw [h₂.runs, h.runs, h₁.runs]
  requestRuns := by rw [h₂.requestRuns, h.requestRuns, h₁.requestRuns]
  cooldowns := by rw [h₂.cooldowns, h.cooldowns, h₁.cooldowns]
  outbox := by rw [hout₂, h.outbox, hout₁]

/-- A run transaction commits an accepted decision, or leaves the store alone. -/
theorem transactRun_cases (s : Store) (runId : String) (pipelines : Option (List String))
    (should : Option VersionedTask → Option Run → Bool)
    (decide : Store.RunTransactionState → Outcome) :
    ((∃ stop, (s.transactRun runId pipelines should decide).1 = .error stop) ∧
      (s.transactRun runId pipelines should decide).2 = s) ∨
    ∃ d, (s.transactRun runId pipelines should decide).1 = .ok d ∧
      decide (s.runState runId pipelines should) = .ok d ∧
      Written s (s.transactRun runId pipelines should decide).2 d := by
  unfold Store.transactRun
  dsimp only
  split
  · exact .inl ⟨⟨_, rfl⟩, rfl⟩
  rename_i d hd
  split
  · exact .inl ⟨⟨_, rfl⟩, rfl⟩
  rename_i s' happly
  exact .inr ⟨d, rfl, hd, (apply_some happly).2⟩

theorem runState_committed {runId : String} {pipelines : Option (List String)}
    {should : Option VersionedTask → Option Run → Bool}
    {decide : Store.RunTransactionState → Outcome} {d : Decision} {s' : Store} (hs : s.Coherent)
    (hlabel : label.requestId = none)
    (hdecide : ∀ vt r, (s.runState runId pipelines should).task = some vt →
      (s.runState runId pipelines should).run = some r → r.runId = runId →
      taskKey vt.task.task = taskKey r.task → SameSource r.issue vt.task.issue →
      ∃ now, label.clock = some now ∧
        Effect label now none (label.doublesSuccessor s = true) (some r) (some vt.task) d)
    (hnone : (s.runState runId pipelines should).task = none ∨
      (s.runState runId pipelines should).run = none →
      decide (s.runState runId pipelines should) ≠ .ok d)
    (hd : decide (s.runState runId pipelines should) = .ok d) (hwritten : Written s s' d) :
    Committed label s s' d := by
  cases hrun : (s.runState runId pipelines should).run with
  | none => exact absurd hd (hnone (.inr hrun))
  | some r =>
    cases htask : (s.runState runId pipelines should).task with
    | none => exact absurd hd (hnone (.inl htask))
    | some vt =>
      have hget : s.runs.get runId = some r := hrun
      have hvt : s.tasks.get (taskKey r.task) = some vt := by
        have : s.taskOf (s.runs.get runId) = some vt := htask
        rwa [hget] at this
      have hid : r.runId = runId := hs.runKeyed hget
      have hkey : taskKey vt.task.task = taskKey r.task := hs.taskKeyed hvt
      obtain ⟨now, hclock, heffect⟩ := hdecide vt r htask hrun hid hkey (hs.source hget hvt)
      have hdkey : taskKey d.task.task = taskKey r.task :=
        (heffect.taskKey_eq.1 vt.task rfl).trans hkey
      refine ⟨now, none, some r, ?_, ?_, presents_none hlabel, hwritten, hclock⟩
      · rw [hdkey, hvt]
        exact heffect
      · rintro _ ⟨rfl⟩
        exact ⟨hid ▸ hget, hdkey.symm⟩

theorem onRun_committed {runId cleanupId : String} {now : Time} {op : RunOp} {d : Decision}
    {s' : Store} (hs : s.Coherent)
    (hd : decideOnRun op now cleanupId (s.runState runId op.eligibilityPipelines
      (op.shouldReadQueueEligibility now)) = .ok d) (hwritten : Written s s' d) :
    Committed (.onRun runId now cleanupId op) s s' d := by
  refine runState_committed hs rfl ?_ ?_ hd hwritten
  · intro vt r htask hrun hid hkey hsource
    unfold decideOnRun at hd
    rw [htask, hrun] at hd
    obtain ⟨decision, hdecision, hattach⟩ := bind_eq_ok.1 hd
    have heffect : Effect _ now none _ (some r) (some vt.task) d :=
      op.effect hkey hsource hdecision hattach
    refine ⟨now, rfl, ?_⟩
    simp only [Step.doublesSuccessor, htask, hrun]
    exact hid ▸ heffect
  · intro hnone hd
    unfold decideOnRun at hd
    rcases hnone with h | h
    · rw [h] at hd
      exact absurd hd refused_ne_ok
    · rw [h] at hd
      split at hd
      · rename_i heq
        cases heq
      · exact absurd hd refused_ne_ok

theorem direct_committed {runId : String} {now : Time} {op : DirectOp} {d : Decision} {s' : Store}
    (hs : s.Coherent)
    (hd : decideDirect op now (s.runState runId op.eligibilityPipelines
      (op.shouldReadQueueEligibility now)) = .ok d) (hwritten : Written s s' d) :
    Committed (.direct runId now op) s s' d := by
  refine runState_committed hs rfl ?_ ?_ hd hwritten
  · intro vt r htask hrun hid hkey hsource
    unfold decideDirect at hd
    rw [htask, hrun] at hd
    have heffect : Effect _ now none _ (some r) (some vt.task) d := op.effect hkey hsource hd
    refine ⟨now, rfl, ?_⟩
    simp only [Step.doublesSuccessor, htask, hrun]
    exact hid ▸ heffect
  · intro hnone hd
    unfold decideDirect at hd
    rcases hnone with h | h
    · rw [h] at hd
      exact absurd hd refused_ne_ok
    · rw [h] at hd
      split at hd
      · rename_i heq
        cases heq
      · exact absurd hd refused_ne_ok

/-- The compare-and-set of a run transaction never loses. -/
theorem transactRun_outcome {runId : String} {pipelines : Option (List String)}
    {should : Option VersionedTask → Option Run → Bool}
    {decide : Store.RunTransactionState → Outcome} {outcome : Outcome} {r : Run} {vt : VersionedTask}
    (hr : s.runs.get runId = some r) (hvt : s.tasks.get (taskKey r.task) = some vt)
    (hdecide : decide (s.runState runId pipelines should) = outcome)
    (hkey : ∀ d, outcome = .ok d → taskKey d.task.task = taskKey r.task) :
    (s.transactRun runId pipelines should decide).1 = outcome := by
  have htask : (s.runState runId pipelines should).task = some vt := by
    simp [Store.runState, Store.taskOf, hr, hvt]
  unfold Store.transactRun
  dsimp only
  rw [hdecide]
  cases outcome with
  | error stop => rfl
  | ok d =>
    have hdkey := hkey d rfl
    simp [Store.apply, hdkey, hvt, htask]

/-- The answer of an operation that settles through `transactOnRun`. -/
theorem Store.Coherent.onRun_outcome (hs : s.Coherent) {runId : String} {r : Run}
    {vt : VersionedTask} (hr : s.runs.get runId = some r)
    (hvt : s.tasks.get (taskKey r.task) = some vt) (now : Time) (cleanupId : String) (op : RunOp) :
    (Orchestrator.onRun s runId now cleanupId op).1 = (do
      let decision ← op.decide now vt.task r (s.runState runId op.eligibilityPipelines
        (op.shouldReadQueueEligibility now)).queueEligibility
      attachCleanup r cleanupId decision) := by
  have hkey : taskKey vt.task.task = taskKey r.task := hs.taskKeyed hvt
  refine transactRun_outcome hr hvt ?_ fun d hd => ?_
  · have htask : (s.runState runId op.eligibilityPipelines
        (op.shouldReadQueueEligibility now)).task = some vt := by
      simp [Store.runState, Store.taskOf, hr, hvt]
    have hrun : (s.runState runId op.eligibilityPipelines
        (op.shouldReadQueueEligibility now)).run = some r := hr
    unfold decideOnRun
    rw [htask, hrun]
  · obtain ⟨d₀, hdecide, hattach⟩ := bind_eq_ok.1 hd
    have heffect : Effect _ now none _ (some r) (some vt.task) d :=
      op.effect hkey (hs.source hr hvt) hdecide hattach
    exact (heffect.taskKey_eq.1 _ rfl).trans hkey

/-- The answer of a plain run transaction. -/
theorem Store.Coherent.direct_outcome (hs : s.Coherent) {runId : String} {r : Run}
    {vt : VersionedTask} (hr : s.runs.get runId = some r)
    (hvt : s.tasks.get (taskKey r.task) = some vt) (now : Time) (op : DirectOp) :
    (Orchestrator.direct s runId now op).1 =
      op.decide now vt.task r (s.runState runId op.eligibilityPipelines
        (op.shouldReadQueueEligibility now)).queueEligibility := by
  have hkey : taskKey vt.task.task = taskKey r.task := hs.taskKeyed hvt
  refine transactRun_outcome hr hvt ?_ fun d hd => ?_
  · have htask : (s.runState runId op.eligibilityPipelines
        (op.shouldReadQueueEligibility now)).task = some vt := by
      simp [Store.runState, Store.taskOf, hr, hvt]
    have hrun : (s.runState runId op.eligibilityPipelines
        (op.shouldReadQueueEligibility now)).run = some r := hr
    unfold decideDirect
    rw [htask, hrun]
  · have heffect : Effect _ now none _ (some r) (some vt.task) d :=
      op.effect hkey (hs.source hr hvt) hd
    exact (heffect.taskKey_eq.1 _ rfl).trans hkey

/-- The lock holder a transaction reads. -/
theorem Store.Coherent.activeRun {s : Store} (hs : s.Coherent) {k : String} {a : Run}
    (h : s.activeRun (s.tasks.get k) = some a) :
    ∃ vt, s.tasks.get k = some vt ∧ vt.task.activeRunId = some a.runId ∧
      s.runs.get a.runId = some a ∧ taskKey a.task = k ∧ isLive a.state = true := by
  obtain ⟨id, hid, hget⟩ := Option.bind_eq_some_iff.1 h
  obtain ⟨vt, hvt, hlock⟩ := Option.bind_eq_some_iff.1 hid
  obtain ⟨r, hr, hlive, hkey⟩ := hs.holder hvt hlock
  obtain rfl : r = a := Option.some.inj (hr.symm.trans hget)
  have hrid : r.runId = id := hs.runKeyed hget
  exact ⟨vt, hvt, hrid ▸ hlock, hrid ▸ hget, hkey, hlive⟩

theorem Store.Coherent.idle {s : Store} (hs : s.Coherent) {k : String} {vt : VersionedTask}
    (hvt : s.tasks.get k = some vt)
    (h : ((s.activeRun (s.tasks.get k)).filter fun run => isLive run.state) = none) :
    vt.task.activeRunId = none := by
  by_contra hne
  obtain ⟨id, hid⟩ := Option.ne_none_iff_exists'.1 hne
  obtain ⟨r, hr, hlive, -⟩ := hs.holder hvt hid
  simp [Store.activeRun, hvt, hid, hr, Option.filter, hlive] at h

/-- A request commits an accepted decision, or leaves alone what decisions read. -/
theorem request_cases (s : Store) (now : Time) (input : RequestInput) :
    ((∃ stop, (Orchestrator.request s now input).1 = .error stop) ∧
      Unread s (Orchestrator.request s now input).2 ∧
      (Orchestrator.request s now input).2.outbox = s.outbox) ∨
    ∃ requestId nextBinding d, (Orchestrator.request s now input).1 = .ok d ∧
      (∀ revision ∈ input.sourceRevision, revision.key = input.requestId) ∧
      Store.resolveRequestBinding input.requestId input.requestBinding (s.currentBinding input) =
        .ok (requestId, nextBinding) ∧
      decideRequest input now (s.requestState input.read requestId) = .ok d ∧
      Written s (Orchestrator.request s now input).2 d := by
  unfold Orchestrator.request
  split
  · exact .inl ⟨⟨_, rfl⟩, ⟨rfl, rfl, rfl, rfl⟩, rfl⟩
  rename_i hrevision
  unfold Store.transactRequest
  dsimp only
  split
  · exact .inl ⟨⟨_, rfl⟩, ⟨rfl, rfl, rfl, rfl⟩, rfl⟩
  rename_i requestId nextBinding hresolve
  split
  · exact .inl ⟨⟨_, rfl⟩, ⟨rfl, rfl, rfl, rfl⟩, rfl⟩
  · exact .inl ⟨⟨_, rfl⟩, noteBinding_unread s input.read nextBinding⟩
  rename_i d hd
  obtain ⟨hunread, hout⟩ := noteBinding_unread s input.read nextBinding
  split
  · exact .inl ⟨⟨_, rfl⟩, hunread, hout⟩
  rename_i s' happly
  obtain ⟨-, hwritten⟩ := apply_some happly
  obtain ⟨hunread', hout'⟩ := noteRevision_unread s' input.read
    (s.requestState input.read requestId).previousSourceRevision d
  refine .inr ⟨requestId, nextBinding, d, rfl, ?_, hresolve, hd,
    hwritten.of_unread hunread hout hunread' hout'⟩
  rintro revision hmem
  rw [Option.mem_def.1 hmem] at hrevision
  simpa using hrevision

/-- A request decides on the lock as the store has it. -/
theorem Store.Coherent.lockRead (hs : s.Coherent) (now : Time) (input : RequestInput)
    (requestId : String) : LockRead (.request now input)
      (input.args now (s.requestState input.read requestId)) := by
  refine ⟨rfl, ?_, ?_, ?_, ⟨_, rfl⟩, rfl, rfl⟩
  · intro t ht
    obtain ⟨vt, hvt, rfl⟩ := Option.map_eq_some_iff.1 ht
    exact hs.taskKeyed hvt
  · intro t ht a ha
    obtain ⟨vt, hvt, rfl⟩ := Option.map_eq_some_iff.1 ht
    obtain ⟨vt', hvt', hholder, -, hkey, -⟩ := hs.activeRun ha
    obtain rfl : vt = vt' := Option.some.inj (hvt.symm.trans hvt')
    exact ⟨hholder, hkey⟩
  · intro hidle t ht
    obtain ⟨vt, hvt, rfl⟩ := Option.map_eq_some_iff.1 ht
    exact hs.idle hvt hidle

/-- A request stays within the task it names. -/
theorem Effect.requested {now : Time} {input : RequestInput} {overrun : Prop}
    {admitted : Option (RequestSource × String)} {subject : Option Run} {d : Decision}
    (hs : s.Coherent) (h : Effect (.request now input) now admitted overrun subject
      ((s.tasks.get (taskKey input.taskId)).map (·.task)) d) :
    taskKey d.task.task = taskKey input.taskId := by
  cases hvt : s.tasks.get (taskKey input.taskId) with
  | none =>
    have hkey := h.taskKey_eq.2 (by rw [hvt]; rfl)
    exact (Option.some.inj hkey).symm
  | some vt => exact (h.taskKey_eq.1 vt.task (by rw [hvt]; rfl)).trans (hs.taskKeyed hvt)

theorem request_committed {now : Time} {input : RequestInput} {requestId : String}
    {nextBinding : Option BindingRecord} {d : Decision} {s' : Store} (hs : s.Coherent)
    (hrevision : ∀ revision ∈ input.sourceRevision, revision.key = input.requestId)
    (hresolve : Store.resolveRequestBinding input.requestId input.requestBinding
      (s.currentBinding input) = .ok (requestId, nextBinding))
    (hd : decideRequest input now (s.requestState input.read requestId) = .ok d)
    (hwritten : Written s s' d) : Committed (.request now input) s s' d := by
  obtain ⟨hprevious, heffect⟩ : _ ∧ Effect (.request now input) now _
      ((Step.request now input).doublesSuccessor s = true) _ _ d :=
    decideRequest_effect (hs.lockRead now input requestId) hd
  have hdkey : taskKey d.task.task = taskKey input.taskId := heffect.requested hs
  refine ⟨now, _, _, (by rw [hdkey]; exact heffect), ?_, ⟨?_, fun _ => rfl⟩, hwritten, rfl⟩
  · intro r hr
    obtain ⟨_, -, -, hget, hkey, -⟩ := hs.activeRun hr
    exact ⟨hget, hkey.trans hdkey.symm⟩
  · rintro source id ⟨rfl, rfl⟩
    refine ⟨congrArg some hdkey.symm, rfl, ?_, ?_,
      fun revision hmem => congrArg some (hrevision revision hmem).symm, ?_⟩
    · rw [hdkey]
      exact hprevious
    · intro hunbound
      have hnone : input.requestBinding = none := by simpa [Step.bound] using hunbound
      rw [hnone] at hresolve
      exact congrArg some (Prod.mk.inj (Except.ok.inj hresolve)).1
    · rintro _ _ ⟨rfl, rfl⟩
      unfold Store.resolves
      rw [hresolve]
      rfl

end Transactions

/-! ### Queue operations -/

section Queue

variable {s : Store}

theorem enqueueRun_aside {runId : String} {now : Time} (hs : s.Coherent) :
    Aside (.enqueueRun runId now) s (s.enqueueRun runId now) := by
  unfold Store.enqueueRun
  split
  · exact .quiet ⟨rfl, rfl, rfl, rfl⟩ rfl
  rename_i r hr
  split_ifs with hqueue
  · exact .quiet ⟨rfl, rfl, rfl, rfl⟩ rfl
  · have hid : r.runId = runId := hs.runKeyed hr
    subst hid
    exact .queue now r _ hr (.enqueue (by simpa using hqueue)) rfl rfl rfl rfl rfl rfl rfl rfl

theorem claimQueuedRun_aside {pipelines : List String} {input : ClaimInput} (hs : s.Coherent) :
    Aside (.claimQueuedRun pipelines input) s (s.claimQueuedRun pipelines input).2 := by
  unfold Store.claimQueuedRun
  split
  · exact .quiet ⟨rfl, rfl, rfl, rfl⟩ rfl
  rename_i r hr
  obtain ⟨-, -, hselected, -⟩ := selectFairQueuedRun_eq_some hr
  obtain ⟨hmem, hcandidate, -⟩ := mem_pipelineCandidates.1 hselected
  obtain ⟨id, hget⟩ := (OrderedMap.mem_values_iff _ _).1 hmem
  have hid : r.runId = id := hs.runKeyed hget
  subst hid
  simp only [isQueueAdmissionCandidate, decide_eq_true_eq] at hcandidate
  obtain ⟨hlive, hop, hqueued, -⟩ := hcandidate
  exact .queue input.now r _ hget (.claim input hlive hop hqueued ⟨_, rfl⟩) rfl rfl rfl rfl rfl rfl
    rfl rfl

theorem releaseQueuedRunClaim_aside {runId claimedBy tokenHash : String} {now : Time}
    {deferredUntil : Option Time} (hs : s.Coherent) :
    Aside (.releaseQueuedRunClaim runId claimedBy tokenHash now deferredUntil) s
      (s.releaseQueuedRunClaim runId claimedBy tokenHash now deferredUntil).2 := by
  unfold Store.releaseQueuedRunClaim
  split
  · exact .quiet ⟨rfl, rfl, rfl, rfl⟩ rfl
  rename_i r hr
  have hid : r.runId = runId := hs.runKeyed hr
  subst hid
  split_ifs with hrefuse
  · exact .quiet ⟨rfl, rfl, rfl, rfl⟩ rfl
  · simp only [not_or, not_not] at hrefuse
    obtain ⟨hlive, hop, hclaim, hby⟩ := hrefuse
    exact .queue now r _ hr
      (.release claimedBy tokenHash deferredUntil hlive (by simpa using hop) hclaim hby rfl)
      rfl rfl rfl rfl rfl rfl rfl rfl

/-! ### Outbox operations -/

theorem claimPendingOutbox_eq (s : Store) (limit : Nat) (now leaseExpiresAt : Time)
    (excluded : List String) (claimIds : Nat → String) :
    s.claimPendingOutbox limit now leaseExpiresAt excluded claimIds =
      { s with
        outbox := s.outbox.setAll (fun x : OutboxEntry × Nat => x.1.entryId)
          (fun x => Store.leaseEntry x.1 (claimIds x.2) leaseExpiresAt now)
          (s.claimableOutbox limit now excluded).zipIdx } := by
  unfold Store.claimPendingOutbox
  generalize (s.claimableOutbox limit now excluded).zipIdx = handed
  induction handed generalizing s with
  | nil => rfl
  | cons x rest ih =>
    rw [List.foldl_cons, ih]
    rfl

theorem claimableOutbox_due {limit : Nat} {now : Time} {excluded : List String} {e : OutboxEntry}
    (h : e ∈ s.claimableOutbox limit now excluded) : e ∈ s.outbox.values ∧
      (Store.isDue e now excluded = true ∨ Store.leaseExpired e now = true) := by
  have h := List.mem_of_mem_take h
  rw [List.mem_append, List.mem_insertionSort, List.mem_filter, List.mem_filter] at h
  rcases h with ⟨hmem, hexpired⟩ | ⟨hmem, hdue⟩
  · exact ⟨hmem, .inr hexpired⟩
  · exact ⟨hmem, .inl hdue⟩

theorem claimableOutbox_mem {limit : Nat} {now : Time} {excluded : List String} {e : OutboxEntry}
    (h : e ∈ s.claimableOutbox limit now excluded) :
    e ∈ s.outbox.values ∧ (e.state = .pending ∨ Store.leaseExpired e now = true) := by
  obtain ⟨hmem, hstate⟩ := claimableOutbox_due h
  refine ⟨hmem, hstate.imp_left fun hdue => ?_⟩
  simp only [Store.isDue, decide_eq_true_eq] at hdue
  exact hdue.1

theorem claimPendingOutbox_aside {limit : Nat} {now leaseExpiresAt : Time} {excluded : List String}
    {claimIds : Nat → String} (hs : s.Coherent) :
    Aside (.claimPendingOutbox limit now leaseExpiresAt excluded claimIds) s
      (s.claimPendingOutbox limit now leaseExpiresAt excluded claimIds) := by
  rw [claimPendingOutbox_eq]
  have hhanded : ∀ x ∈ (s.claimableOutbox limit now excluded).zipIdx,
      s.outbox.get x.1.entryId = some x.1 ∧
        (x.1.state = .pending ∨ Store.leaseExpired x.1 now = true) := by
    intro x hx
    obtain ⟨hmem, hstate⟩ := claimableOutbox_mem (List.fst_mem_of_mem_zipIdx hx)
    obtain ⟨id, hget⟩ := (OrderedMap.mem_values_iff _ _).1 hmem
    exact ⟨(hs.entryKeyed hget).symm ▸ hget, hstate⟩
  refine .outbox ⟨rfl, rfl, rfl, rfl⟩ ?_ ?_
  · intro id e he
    have hsome : (s.outbox.get id).isSome = true := by rw [he]; rfl
    obtain ⟨e', he'⟩ := Option.isSome_iff_exists.1 (OrderedMap.isSome_get_setAll
      (fun x : OutboxEntry × Nat => x.1.entryId)
      (fun x => Store.leaseEntry x.1 (claimIds x.2) leaseExpiresAt now)
      (s.claimableOutbox limit now excluded).zipIdx hsome)
    refine ⟨e', he', ?_⟩
    rcases OrderedMap.get_setAll_cases _ _ he' with ⟨x, hx, rfl, rfl⟩ | ⟨hsame, -⟩
    · obtain ⟨hget, hstate⟩ := hhanded x hx
      obtain rfl : x.1 = e := Option.some.inj (hget.symm.trans he)
      exact .lease now leaseExpiresAt _ hstate ⟨limit, excluded, claimIds, rfl⟩
    · obtain rfl : e = e' := Option.some.inj (he.symm.trans hsame)
      exact .same
  · intro id hnone
    by_contra hne
    obtain ⟨e', he'⟩ := Option.ne_none_iff_exists'.1 hne
    rcases OrderedMap.get_setAll_cases _ _ he' with ⟨x, hx, rfl, -⟩ | ⟨hsame, -⟩
    · rw [(hhanded x hx).1] at hnone
      cases hnone
    · rw [hnone] at hsame
      cases hsame

/-- One entry moved by a worker. -/
theorem entry_aside {label : Step} {id : String} {e e' : OutboxEntry}
    (he : s.outbox.get id = some e) (hmove : EntryMove label e e') :
    Aside label s { s with outbox := s.outbox.set id e' } := by
  refine .outbox ⟨rfl, rfl, rfl, rfl⟩ ?_ ?_
  · intro j f hf
    by_cases hj : j = id
    · subst hj
      obtain rfl : e = f := Option.some.inj (he.symm.trans hf)
      exact ⟨e', OrderedMap.get_set_self _ _ _, hmove⟩
    · exact ⟨f, by rw [OrderedMap.get_set_of_ne _ _ hj]; exact hf, .same⟩
  · intro j hj
    have hne : j ≠ id := by
      rintro rfl
      rw [he] at hj
      cases hj
    rw [OrderedMap.get_set_of_ne _ _ hne]
    exact hj

theorem settleOutbox_aside {input : OutboxSettlement} :
    Aside (.settleOutbox input) s (s.settleOutbox input) := by
  unfold Store.settleOutbox
  split
  · exact .quiet ⟨rfl, rfl, rfl, rfl⟩ rfl
  rename_i e' h
  obtain ⟨e, he, hsettle⟩ := Option.bind_eq_some_iff.1 h
  exact entry_aside he (.settle input hsettle rfl)

theorem wakeOutbox_aside {entryId : String} {now : Time} :
    Aside (.wakeOutbox entryId now) s (s.wakeOutbox entryId now) := by
  unfold Store.wakeOutbox
  split
  · exact .quiet ⟨rfl, rfl, rfl, rfl⟩ rfl
  rename_i e' h
  obtain ⟨e, he, hwake⟩ := Option.bind_eq_some_iff.1 h
  exact entry_aside he (.wake now hwake ⟨_, rfl⟩)

end Queue

end AgentLcars
