import AgentLcars.Coherence

/-!
# The outbox

Two laws of the outbox, each broken by one slip of the source.

* Every entry names a stored run, and the runs of a task are numbered without a gap.  A report that
  both retries a source revision and falls back to another provider drops the retry it minted but
  keeps its dispatch entry (`Step.doublesSuccessor`).
* A decision writes each entry once.  A claim released after its provider process was seen loses the
  note of it, so the next claim announces the start of the same run again (`Step.forgetsStart`).
-/

namespace AgentLcars

/-! ### Entries and the runs they name -/

section Contiguous

variable {label : Step} {now : Time} {admitted : Option (RequestSource × String)} {overrun : Prop}
  {subject : Option Run} {before : Option Task} {d : Decision} {s s' : Store}

/-- The runs of a task are numbered without a gap, and every entry names a stored run. -/
structure Contiguous (s : Store) : Prop where
  runs : ∀ {k vt n}, s.tasks.get k = some vt → n < vt.task.runCount →
    ∃ r, s.runs.get (runIdOf k (n + 1)) = some r ∧ taskKey r.task = k
  entries : ∀ {id e}, s.outbox.get id = some e →
    ∃ r, s.runs.get e.runId = some r ∧ r.task = e.task

/-- An emitted entry is about the run the decision is about, or about one it mints. -/
theorem Effect.emitted (h : Effect label now admitted overrun subject before d) {e : OutboxEntry}
    (he : e ∈ d.outbox) :
    (∃ r ∈ subject, e.runId = r.runId ∧ e.task = r.task) ∨
      (∃ m ∈ d.writes, e.runId = m.runId ∧ e.task = m.task) ∨ overrun := by
  have hcases : ∀ {old dispatched}, Emission before d.task old dispatched e →
      (∀ r r', old = some (r, r') → subject = some r) →
      (∃ r ∈ subject, e.runId = r.runId ∧ e.task = r.task) ∨
        ∃ m ∈ dispatched, e.runId = m.runId ∧ e.task = m.task := by
    intro old dispatched hemission hold
    cases hemission with
    | dispatch m hm h => exact .inr ⟨m, hm, h.runId, h.task⟩
    | settled _ r r' heq _ _ _ h => exact .inl ⟨r, hold r r' heq, h.runId, h.task⟩
    | delivered r r' heq _ _ _ h => exact .inl ⟨r, hold r r' heq, h.runId, h.task⟩
    | merged r r' _ _ heq _ _ _ _ _ _ h => exact .inl ⟨r, hold r r' heq, h.runId, h.task⟩
    | started r r' _ _ heq _ _ _ _ _ _ _ _ _ h => exact .inl ⟨r, hold r r' heq, h.runId, h.task⟩
  cases h with
  | touch => cases he
  | rewrite _ _ _ hout =>
    rcases hcases (hout e he) (by rintro _ _ ⟨rfl, rfl⟩; rfl) with h | ⟨m, hm, -⟩
    · exact .inl h
    · cases hm
  | settle _ _ _ _ hout =>
    rcases hcases (hout e he) (by rintro _ _ ⟨rfl, rfl⟩; rfl) with h | ⟨m, hm, -⟩
    · exact .inl h
    · cases hm
  | mint old dropped m hwrites hmove _ _ _ _ hdropped _ hout =>
    rcases hcases (hout e he) fun r r' heq => (hmove r r' heq).1 with h | ⟨x, hx, hid⟩
    · exact .inl h
    · rcases List.mem_append.1 hx with hx | hx
      · exact .inr (.inr (hdropped x (Option.mem_toList.1 hx)).2.2)
      · obtain rfl := List.mem_singleton.1 hx
        exact .inr (.inl ⟨x, (hwrites x).2 (.inr rfl), hid⟩)

/-- A decision that drops no mint uses exactly the generations it counts. -/
theorem Effect.counts (h : Effect label now admitted overrun subject before d) (hno : ¬overrun) :
    d.task.runCount = generations before ∨
      ∃ m ∈ d.writes, d.task.runCount = generations before + 1 ∧
        m.runId = runIdOf (taskKey d.task.task) d.task.runCount ∧
        taskKey m.task = taskKey d.task.task := by
  cases h with
  | touch h => exact .inl h.count
  | rewrite _ _ h => exact .inl h.count
  | settle _ _ _ h => exact .inl h.count
  | mint old dropped m hwrites _ _ _ _ hminted hdropped =>
    have hnone : dropped = none := by
      cases hd : dropped with
      | none => rfl
      | some x => exact absurd (hdropped x hd).2.2 hno
    refine .inr ⟨m, (hwrites m).2 (.inr rfl), ?_, ?_, hminted.key.symm⟩
    · rw [hminted.count, hnone]
      rfl
    · rw [hminted.key, hminted.runId]

/-- A stored run stays stored, under its id and its task. -/
theorem Change.stays (hs : s.Coherent) (h : Change label s s') {id : String} {r : Run}
    (hr : s.runs.get id = some r) : ∃ r', s'.runs.get id = some r' ∧ r'.task = r.task := by
  obtain ⟨now, r', hr', hmove⟩ := h.run_moves hs hr
  exact ⟨r', hr', task_of_frozen hmove.frozen⟩

/-- Numbering and references survive every step that drops no mint. -/
theorem Change.contiguous (hs : s.Coherent) (h : Change label s s')
    (hno : label.doublesSuccessor s = false) (hinv : Contiguous s) : Contiguous s' := by
  have hruns : ∀ {k vt n}, s.tasks.get k = some vt → n < vt.task.runCount →
      ∃ r, s'.runs.get (runIdOf k (n + 1)) = some r ∧ taskKey r.task = k := by
    intro k vt n hvt hn
    obtain ⟨r, hr, hkey⟩ := hinv.runs hvt hn
    obtain ⟨r', hr', htask⟩ := h.stays hs hr
    exact ⟨r', hr', by rw [htask, hkey]⟩
  have hentry : ∀ {e : OutboxEntry}, (∃ r, s.runs.get e.runId = some r ∧ r.task = e.task) →
      ∃ r, s'.runs.get e.runId = some r ∧ r.task = e.task := by
    rintro e ⟨r, hr, htask⟩
    obtain ⟨r', hr', htask'⟩ := h.stays hs hr
    exact ⟨r', hr', htask'.trans htask⟩
  have hstays : ∀ {id r}, s.runs.get id = some r →
      ∃ r', s'.runs.get id = some r' ∧ r'.task = r.task := fun hr => h.stays hs hr
  cases h with
  | aside h =>
    refine ⟨fun hvt hn => hruns (h.tasks ▸ hvt) hn, fun {id e'} he' => ?_⟩
    obtain ⟨e, he, hmove⟩ := h.entry_back he'
    obtain ⟨-, hid, htask⟩ := hmove.about
    rw [hid, htask]
    exact hentry (hinv.entries he)
  | decide now admitted subject d heffect hsubject _ hwritten =>
    have hmem : ∀ {x}, x ∈ d.writes → s'.runs.get x.runId = some x := fun hx =>
      hwritten.get_of_mem hs heffect hsubject hx
    have hnot : ¬label.doublesSuccessor s = true := by simp [hno]
    constructor
    · intro k vt n hvt hn
      rw [hwritten.get_task] at hvt
      split_ifs at hvt with hk
      · obtain rfl := Option.some.inj hvt
        have hbefore : n < generations ((s.tasks.get (taskKey d.task.task)).map (·.task)) →
            ∃ r, s'.runs.get (runIdOf k (n + 1)) = some r ∧ taskKey r.task = k := by
          intro hlt
          cases hvt₀ : s.tasks.get (taskKey d.task.task) with
          | none =>
            rw [hvt₀] at hlt
            cases hlt
          | some vt₀ =>
            rw [hvt₀] at hlt
            exact hruns (hk ▸ hvt₀) hlt
        rcases heffect.counts hnot with hcount | ⟨m, hm, hcount, hid, hkey⟩
        · exact hbefore (hcount ▸ hn)
        · rcases Nat.lt_succ_iff_lt_or_eq.1 (hcount ▸ hn) with hlt | heq
          · exact hbefore hlt
          · refine ⟨m, ?_, hkey.trans hk.symm⟩
            rw [hk, heq, ← hcount, ← hid]
            exact hmem hm
      · exact hruns hvt hn
    · intro id e he
      rw [hwritten.outbox] at he
      rcases OrderedMap.get_setAll_cases _ _ he with ⟨x, hx, -, rfl⟩ | ⟨hsame, -⟩
      · rcases heffect.emitted hx with ⟨r, hr, hid, htask⟩ | ⟨m, hm, hid, htask⟩ | hover
        · obtain ⟨r', hr', htask'⟩ := hstays (hsubject r hr).1
          exact ⟨r', hid ▸ hr', htask'.trans htask.symm⟩
        · exact ⟨m, hid ▸ hmem hm, htask.symm⟩
        · exact absurd hover hnot
      · exact hentry (hinv.entries hsame)

end Contiguous

/-- The stored runs of every task are those its counter has passed, and every entry names one. -/
def Store.Referential (s : Store) : Prop :=
  (∀ k id, (∃ r, s.runs.get id = some r ∧ taskKey r.task = k) ↔
    ∃ vt n, s.tasks.get k = some vt ∧ 1 ≤ n ∧ n ≤ vt.task.runCount ∧ id = runIdOf k n) ∧
  ∀ id e, s.outbox.get id = some e → ∃ r, s.runs.get e.runId = some r ∧ r.task = e.task

/-- No step of the run answers one report with two successors. -/
def SingleSuccessors (steps : List Step) : Prop :=
  Machine.Along World.step (fun w label => label.doublesSuccessor w.store = false) World.init steps

instance (steps : List Step) : Decidable (SingleSuccessors steps) :=
  inferInstanceAs (Decidable (Machine.Along World.step _ World.init steps))

/-- Unless a report is answered with two successors, runs are numbered without a gap and every
entry names a stored run. -/
theorem World.outbox_referential (steps : List Step) (h : SingleSuccessors steps) :
    (World.init.run steps).store.Referential := by
  have hs : (World.init.run steps).store.Coherent := (World.coherent_run steps).store
  have hinv : Contiguous (World.init.run steps).store := by
    refine World.invariant_along Contiguous ⟨fun h => (by cases h), fun h => (by cases h)⟩ ?_ h
    intro label s' w hw hno hchange hinv
    exact hchange.contiguous hw.store hno hinv
  refine ⟨fun k id => ⟨?_, ?_⟩, fun id e he => hinv.entries he⟩
  · rintro ⟨r, hr, rfl⟩
    obtain ⟨vt, n, hvt, hn, hid⟩ := hs.counted hr
    exact ⟨vt, n + 1, hvt, by omega, by omega, (hs.runKeyed hr).symm.trans hid⟩
  · rintro ⟨vt, n, hvt, hpos, hn, rfl⟩
    obtain ⟨n, rfl⟩ : ∃ m, n = m + 1 := ⟨n - 1, by omega⟩
    exact hinv.runs hvt (by omega)

/-- A result that names the provider's limit. -/
def Sample.limitResult : RunResult :=
  { ok := false, summary := some "provider-limit", ref := none, relatedRefs := none
    message := none, humanNeededActions := none }

/-- Either provider may work for the run. -/
def Sample.authority : ProviderFallbackAuthority :=
  { pipelines := ["claude", "codex"], allowedPipelines := fun _ _ => ["claude", "codex"] }

/-- A run with a fallback policy reports its provider's limit. -/
def Sample.fallenBack : List Step :=
  [.request 0 { Sample.request "claude" with
      providerFallback := some
        { principal := "p", allowedPipelines := ["codex"], sourceRepository := none } },
   .enqueueRun Sample.runId 1,
   .claimQueuedRun ["claude"] (Sample.claim 2),
   .onRun Sample.runId 3 "cleanup" (.report (some Sample.authority) Sample.limitResult (some "token")
    none false)]

/-- The entry of the fallback's run names a stored run. -/
theorem World.outbox_referential_fallback :
    (World.init.run Sample.fallenBack).store.Referential ∧
      ((World.init.run Sample.fallenBack).store.outbox.get "dispatch/work:w/r2").isSome = true :=
  ⟨World.outbox_referential Sample.fallenBack (by decide +kernel), by decide +kernel⟩

/-- A run with a source revision and a fallback policy reports its provider's limit. -/
def Sample.doubled : List Step :=
  [.request 0 { Sample.request "claude" with
      sourceRevision := some { key := "q1", input := [], observedAt := none }
      providerFallback := some
        { principal := "p", allowedPipelines := ["codex"], sourceRepository := none } },
   .enqueueRun Sample.runId 1,
   .claimQueuedRun ["claude"] (Sample.claim 2),
   .onRun Sample.runId 3 "cleanup" (.report (some Sample.authority) Sample.limitResult (some "token")
    none false)]

/-- The retry of the revision is dropped and its dispatch entry kept. -/
theorem World.doubled_not_referential : ¬(World.init.run Sample.doubled).store.Referential := by
  intro h
  have hkept : ((World.init.run Sample.doubled).store.outbox.get "dispatch/work:w/r2").any
      (fun e => ((World.init.run Sample.doubled).store.runs.get e.runId).isNone) = true := by
    decide +kernel
  obtain ⟨e, he, hnone⟩ := (Option.any_eq_true _ _).1 hkept
  obtain ⟨r, hr, -⟩ := h.2 _ e he
  rw [hr] at hnone
  cases hnone

/-! ### Each entry is written once -/

/-- The release of a claim whose provider process was announced at its tracker. -/
def Step.forgetsStart (s : Store) : Step → Bool
  | .releaseQueuedRunClaim runId claimedBy tokenHash _ _ =>
    (s.runs.get runId).any fun run => isLive run.state ∧ run.credentialOperation = none ∧
      isClaimant run tokenHash ∧ run.queue.bind (·.claimedBy) = some claimedBy ∧
      (run.queue.bind (·.providerProcessStartedAt)).isSome ∧
      (run.issue.any fun issue => issue.reference.isLinear) ∧ run.sourceRevision = none
  | _ => false

/-- The provider process of the run is on record for as long as the run lives. -/
def StartKept (r : Run) : Prop :=
  isLive r.state = false ∨
    ∃ q, r.queue = some q ∧ q.state = .claimed ∧ q.providerProcessStartedAt.isSome = true

/-- What stands behind a stored entry of each emitter, and keeps it from speaking again. -/
inductive EntryLaw (s : Store) : EntryTag → String → Prop where
  | dispatch (id k : String) (n : Nat) (vt : VersionedTask) (hid : id = runIdOf k n)
      (hvt : s.tasks.get k = some vt) (hn : n ≤ vt.task.runCount) : EntryLaw s .dispatch id
  | settled (tag : EntryTag) (id : String) (r : Run) (htag : tag.ofSettlement)
      (hr : s.runs.get id = some r) (hterminal : isLive r.state = false) : EntryLaw s tag id
  | delivered (id : String) (r : Run) (hr : s.runs.get id = some r)
      (hterminal : isLive r.state = false)
      (hdone : ∀ vt, s.tasks.get (taskKey r.task) = some vt → ∀ b ∈ vt.task.delivery,
        b.runId = id → b.state ≠ .waiting) : EntryLaw s .deliveryOutcome id
  | started (id : String) (r : Run) (hr : s.runs.get id = some r)
      (hlinear : (r.issue.any fun issue => issue.reference.isLinear) = true)
      (hplain : r.sourceRevision = none) (hkept : StartKept r) : EntryLaw s .issueStart id

/-- The store's entries are lawful, and its runs are bound to their own deliveries. -/
structure Spoken (s : Store) : Prop where
  own : ∀ id r, s.runs.get id = some r → OwnDelivery r
  entries : ∀ {id e}, s.outbox.get id = some e →
    ∃ tag x, e.entryId = entryIdOf tag x ∧ EntryLaw s tag x

section Spoken

variable {label : Step} {now : Time} {admitted : Option (RequestSource × String)} {overrun : Prop}
  {subject : Option Run} {before : Option Task} {d : Decision} {s s' : Store} {r r' : Run}

theorem Move.startKept (hmove : Move label now r r') (h : StartKept r)
    (hr : s.runs.get r.runId = some r)
    (hlinear : (r.issue.any fun issue => issue.reference.isLinear) = true)
    (hplain : r.sourceRevision = none) (hno : label.forgetsStart s = false) : StartKept r' := by
  rcases h with hterminal | ⟨q, hq, hclaimed, hstarted⟩
  · exact .inl (by rw [(hmove.terminal hterminal).1]; exact hterminal)
  have hstate : r.queueState = some .claimed := by rw [Run.queueState, hq, ← hclaimed]; rfl
  cases hmove with
  | observe _ _ _ hq' hclaim =>
    obtain rfl := Option.some.inj (hq.symm.trans hq')
    exact .inr ⟨_, rfl, hclaim.state.trans hclaimed, hclaim.started hstarted⟩
  | renewUnqueued _ hnone => rw [hnone] at hq; cases hq
  | enqueue hnone => rw [hnone] at hq; cases hq
  | claim _ _ _ hqueued _ => rw [hqueued] at hstate; cases hstate
  | release claimedBy tokenHash deferredUntil hlive hop hclaim hby hlabel =>
    rw [hq] at hby
    subst hlabel
    simp_all [Step.forgetsStart]
  | settle _ _ hs hc => exact .inl (by rw [hc.state]; exact hs.terminal)
  | complete => exact .inl rfl
  | retire hterminal => exact .inl hterminal
  | finish op restored =>
    cases hlive : isLive r.state with
    | false => exact .inl hlive
    | true =>
      have hqueue : (operationFinished r op restored op.claimFingerprint).queue = r.queue :=
        operationFinished_live hlive
      exact .inr ⟨q, hqueue.trans hq, hclaimed, hstarted⟩
  | _ => exact .inr ⟨q, hq, hclaimed, hstarted⟩

/-- What stands behind an entry stays. -/
theorem Change.entryLaw (hs : s.Coherent) (h : Change label s s')
    (hown : ∀ id r, s.runs.get id = some r → OwnDelivery r) (hno : label.forgetsStart s = false)
    {tag : EntryTag} {x : String} (hlaw : EntryLaw s tag x) : EntryLaw s' tag x := by
  cases hlaw with
  | dispatch _ k n vt hid hvt hn =>
    obtain ⟨vt', hvt', hcount⟩ := h.runCount_le hvt
    exact .dispatch _ k n vt' hid hvt' (hn.trans hcount)
  | settled tag id r htag hr hterminal =>
    obtain ⟨now, r', hr', hmove⟩ := h.run_moves hs hr
    exact .settled tag _ r' htag hr' (by rw [(hmove.terminal hterminal).1]; exact hterminal)
  | delivered id r hr hterminal hdone =>
    obtain ⟨now, r', hr', hmove⟩ := h.run_moves hs hr
    refine .delivered _ r' hr' (by rw [(hmove.terminal hterminal).1]; exact hterminal) ?_
    intro vt' hvt' b' hb' hid hwaiting
    rw [task_of_frozen hmove.frozen] at hvt'
    rcases h.delivery_from hs hown hvt' hb' with
      ⟨vt, b, hvt, hb, hout⟩ | ⟨q, hq, -, hlive, -⟩
    · exact hdone vt hvt b hb (hout.runId.symm.trans hid) (hout.waiting hwaiting)
    · rw [hid, hr] at hq
      obtain rfl := Option.some.inj hq
      rw [hterminal] at hlive
      cases hlive
  | started id r hr hlinear hplain hkept =>
    obtain ⟨now, r', hr', hmove⟩ := h.run_moves hs hr
    have hid := hs.runKeyed hr
    refine .started _ r' hr' ?_ ?_ (hmove.startKept hkept (hid ▸ hr) hlinear hplain hno)
    · rw [issue_of_frozen hmove.frozen]
      exact hlinear
    · rw [sourceRevision_of_frozen hmove.frozen]
      exact hplain

/-- Where an emitted entry comes from: a transition of the decision's own run, or a fresh
generation. -/
structure Cause (label : Step) (now : Time) (subject : Option Run) (before : Option Task)
    (d : Decision) (old : Option (Run × Run)) (dispatched : List Run) : Prop where
  old : ∀ r r', old = some (r, r') → subject = some r ∧ r' ∈ d.writes ∧ Move label now r r'
  dispatched : ∀ m ∈ dispatched, ∃ n, m.runId = runIdOf (taskKey d.task.task) n ∧
    generations before < n ∧ n ≤ d.task.runCount

theorem Effect.cause (h : Effect label now admitted overrun subject before d) {e : OutboxEntry}
    (he : e ∈ d.outbox) :
    ∃ old dispatched, Cause label now subject before d old dispatched ∧
      Emission before d.task old dispatched e := by
  cases h with
  | touch => cases he
  | rewrite hmove _ _ hout =>
    refine ⟨_, _, ⟨?_, by simp⟩, hout e he⟩
    rintro _ _ ⟨rfl, rfl⟩
    exact ⟨rfl, by simp [Decision.writes], hmove⟩
  | settle hmove _ _ _ hout =>
    refine ⟨_, _, ⟨?_, by simp⟩, hout e he⟩
    rintro _ _ ⟨rfl, rfl⟩
    exact ⟨rfl, by simp [Decision.writes], hmove⟩
  | mint old dropped m hwrites hmove _ _ _ hminted hdropped _ hout =>
    refine ⟨_, _, ⟨?_, ?_⟩, hout e he⟩
    · intro r r' hold
      obtain ⟨hsubject, hmove, -⟩ := hmove r r' hold
      exact ⟨hsubject, (hwrites r').2 (.inl ⟨r, hold⟩), hmove⟩
    · intro x hx
      have hcount := hminted.count
      rw [hminted.key]
      rcases List.mem_append.1 hx with hx | hx
      · obtain ⟨-, hid, -⟩ := hdropped x (Option.mem_toList.1 hx)
        exact ⟨_, hid, by omega, by omega⟩
      · obtain rfl := List.mem_singleton.1 hx
        exact ⟨_, hminted.runId, by omega, le_rfl⟩

variable (hs : s.Coherent) (hsubject : ∀ r ∈ subject,
  s.runs.get r.runId = some r ∧ taskKey r.task = taskKey d.task.task)
  (hbefore : (s.tasks.get (taskKey d.task.task)).map (·.task) = before)
include hsubject hbefore

/-- Nothing yet stands behind an entry that is emitted now. -/
theorem Emission.unspoken {old : Option (Run × Run)} {dispatched : List Run} {e : OutboxEntry}
    (hcause : Cause label now subject before d old dispatched)
    (h : Emission before d.task old dispatched e) :
    ∃ tag id, e.entryId = entryIdOf tag id ∧ ¬EntryLaw s tag id := by
  have hstored : ∀ {q q' x : Run}, old = some (q, q') → s.runs.get q.runId = some x → x = q := by
    intro q q' x hold hx
    have hget := (hsubject q (hcause.old q q' hold).1).1
    exact Option.some.inj (hx.symm.trans hget)
  cases h with
  | dispatch m hm h =>
    refine ⟨_, _, h.entryId, fun hlaw => ?_⟩
    obtain ⟨n, hid, hlater, -⟩ := hcause.dispatched m hm
    cases hlaw with
    | dispatch _ k n' vt hid' hvt hn' =>
      obtain ⟨rfl, rfl⟩ := runIdOf_inj.1 (hid.symm.trans hid')
      rw [← hbefore, hvt] at hlater
      exact absurd hn' (by simpa [generations] using hlater)
    | settled _ _ _ htag => simp [EntryTag.ofSettlement] at htag
  | settled tag r r' hold hr hr' htag h =>
    refine ⟨_, _, h.entryId, fun hlaw => ?_⟩
    cases hlaw with
    | settled _ _ x _ hx hterminal =>
      obtain rfl := hstored hold hx
      rw [hr] at hterminal
      cases hterminal
    | dispatch => simp [EntryTag.ofSettlement] at htag
    | delivered => simp [EntryTag.ofSettlement] at htag
    | started => simp [EntryTag.ofSettlement] at htag
  | delivered r r' hold hr hr' hdelivery h =>
    refine ⟨_, _, h.entryId, fun hlaw => ?_⟩
    cases hlaw with
    | settled _ _ _ htag => simp [EntryTag.ofSettlement] at htag
    | delivered _ x hx hterminal =>
      obtain rfl := hstored hold hx
      rw [hr] at hterminal
      cases hterminal
  | merged r r' t b hold ht hr hb hrun hwaiting hdelivery h =>
    refine ⟨_, _, h.entryId, fun hlaw => ?_⟩
    cases hlaw with
    | settled _ _ _ htag => simp [EntryTag.ofSettlement] at htag
    | delivered _ x hx hterminal hdone =>
      obtain rfl := hstored hold hx
      obtain ⟨vt, hvt, rfl⟩ := Option.map_eq_some_iff.1 (hbefore.trans ht)
      have hkey := (hsubject x (hcause.old x r' hold).1).2
      exact hdone vt (hkey ▸ hvt) b hb hrun hwaiting
  | started r r' q q' hold hr hq hclaimed hnew hq' hkept hstart hlinear hplain h =>
    refine ⟨_, _, h.entryId, fun hlaw => ?_⟩
    cases hlaw with
    | settled _ _ _ htag => simp [EntryTag.ofSettlement] at htag
    | started _ x hx _ _ hkept =>
      obtain rfl := hstored hold hx
      rcases hkept with hterminal | ⟨q₀, hq₀, -, hstarted⟩
      · rw [hr] at hterminal
        cases hterminal
      · obtain rfl : q = q₀ := Option.some.inj (hq.symm.trans hq₀)
        rw [hnew] at hstarted
        cases hstarted

omit hbefore in
include hs in
/-- What stands behind an entry once the decision that emits it is committed. -/
theorem Emission.spoken {old : Option (Run × Run)} {dispatched : List Run} {e : OutboxEntry}
    (heffect : Effect label now admitted overrun subject
      ((s.tasks.get (taskKey d.task.task)).map (·.task)) d) (hwritten : Written s s' d)
    (hcause : Cause label now subject before d old dispatched)
    (h : Emission before d.task old dispatched e) :
    ∃ tag id, e.entryId = entryIdOf tag id ∧ EntryLaw s' tag id := by
  have hafter : ∀ {q q' : Run}, old = some (q, q') → s'.runs.get q.runId = some q' := by
    intro q q' hold
    obtain ⟨-, hmem, hmove⟩ := hcause.old q q' hold
    rw [← runId_of_frozen hmove.frozen]
    exact hwritten.get_of_mem hs heffect hsubject hmem
  have hfrozen : ∀ {q q' : Run}, old = some (q, q') → q'.frozen = q.frozen := fun hold =>
    (hcause.old _ _ hold).2.2.frozen
  -- a delivery that no longer waits keeps every run of its task from reporting it again
  have hdone : ∀ {q q' : Run}, old = some (q, q') → deliveryWaiting d.task = false → ∀ vt,
      s'.tasks.get (taskKey q'.task) = some vt → ∀ b ∈ vt.task.delivery,
      b.runId = q.runId → b.state ≠ .waiting := by
    intro q q' hold hdelivery vt hvt b hb _ hwaiting
    have hkey := (hsubject q (hcause.old q q' hold).1).2
    rw [task_of_frozen (hfrozen hold), hkey, hwritten.get_task, if_pos rfl] at hvt
    obtain rfl := Option.some.inj hvt
    have hb : d.task.delivery = some b := hb
    simp [deliveryWaiting, hb, hwaiting] at hdelivery
  cases h with
  | dispatch m hm h =>
    obtain ⟨n, hid, -, hle⟩ := hcause.dispatched m hm
    have htask := hwritten.get_task (taskKey d.task.task)
    rw [if_pos rfl] at htask
    exact ⟨_, _, h.entryId, .dispatch _ _ n _ hid htask hle⟩
  | settled tag r r' hold hr hr' htag h =>
    exact ⟨_, _, h.entryId, .settled tag _ r' htag (hafter hold) hr'⟩
  | delivered r r' hold hr hr' hdelivery h =>
    exact ⟨_, _, h.entryId, .delivered _ r' (hafter hold) hr' (hdone hold hdelivery)⟩
  | merged r r' t b hold ht hr hb hrun hwaiting hdelivery h =>
    have hmove := (hcause.old r r' hold).2.2
    refine ⟨_, _, h.entryId, .delivered _ r' (hafter hold) ?_ (hdone hold hdelivery)⟩
    rw [(hmove.terminal hr).1]
    exact hr
  | started r r' q q' hold hr hq hclaimed hnew hq' hkept hstart hlinear hplain h =>
    refine ⟨_, _, h.entryId, .started _ r' (hafter hold) ?_ ?_ (.inr ⟨q', hq', hkept, hstart⟩)⟩
    · rw [issue_of_frozen (hfrozen hold)]
      exact hlinear
    · rw [sourceRevision_of_frozen (hfrozen hold)]
      exact hplain

omit hsubject hbefore in
theorem Change.spoken (hs : s.Coherent) (h : Change label s s')
    (hno : label.forgetsStart s = false) (hinv : Spoken s) : Spoken s' := by
  refine ⟨h.ownDelivery hs hinv.own, ?_⟩
  have hkept : ∀ {e : OutboxEntry}, (∃ tag x, e.entryId = entryIdOf tag x ∧ EntryLaw s tag x) →
      ∃ tag x, e.entryId = entryIdOf tag x ∧ EntryLaw s' tag x := by
    rintro e ⟨tag, x, hid, hlaw⟩
    exact ⟨tag, x, hid, h.entryLaw hs hinv.own hno hlaw⟩
  cases h with
  | aside h =>
    intro id e' he'
    obtain ⟨e, he, hmove⟩ := h.entry_back he'
    rw [hmove.about.1]
    exact hkept (hinv.entries he)
  | decide now admitted subject d heffect hsubject _ hwritten =>
    intro id e he
    rw [hwritten.outbox] at he
    rcases OrderedMap.get_setAll_cases _ _ he with ⟨x, hx, -, rfl⟩ | ⟨hsame, -⟩
    · obtain ⟨old, dispatched, hcause, hemission⟩ := heffect.cause hx
      exact hemission.spoken hs hsubject heffect hwritten hcause
    · exact hkept (hinv.entries hsame)

omit hsubject hbefore in
/-- A committed decision writes only entries that were not there. -/
theorem Committed.entries_new (hs : s.Coherent) (hinv : Spoken s) (h : Committed label s s' d) :
    (d.outbox.map (·.entryId)).Nodup ∧ ∀ e ∈ d.outbox, s.outbox.get e.entryId = none := by
  obtain ⟨now, admitted, subject, heffect, hsubject, -, -, -⟩ := h
  refine ⟨heffect.nodup, fun e he => ?_⟩
  obtain ⟨old, dispatched, hcause, hemission⟩ := heffect.cause he
  obtain ⟨tag, x, hid, hunspoken⟩ := hemission.unspoken hsubject rfl hcause
  by_contra hne
  obtain ⟨e₀, he₀⟩ := Option.ne_none_iff_exists'.1 hne
  obtain ⟨tag₀, x₀, hid₀, hlaw⟩ := hinv.entries he₀
  rw [hs.entryKeyed he₀, hid] at hid₀
  obtain ⟨rfl, rfl⟩ := entryIdOf_inj.1 hid₀
  exact hunspoken hlaw

end Spoken

/-! ### Entries between decisions -/

/-- A leased entry is moved only by the settlement of its lease or the recovery of an expired one;
a settled entry not at all. -/
inductive EntryStep (label : Step) (e e' : OutboxEntry) : Prop where
  | kept (h : e' = e)
  | pending (h : e.state = .pending)
  | settled (claimId : String) (leaseExpiresAt : Time) (input : OutboxSettlement)
      (h : e.state = .leased claimId leaseExpiresAt) (hlabel : label = .settleOutbox input)
      (hclaim : input.claimId = claimId)
  | recovered (claimId : String) (leaseExpiresAt : Time) (limit : Nat) (now next : Time)
      (excluded : List String) (claimIds : Nat → String)
      (h : e.state = .leased claimId leaseExpiresAt)
      (hlabel : label = .claimPendingOutbox limit now next excluded claimIds)
      (hexpired : leaseExpiresAt ≤ now)

theorem EntryMove.step {label : Step} {e e' : OutboxEntry} (h : EntryMove label e e') :
    EntryStep label e e' := by
  cases h with
  | same => exact .kept rfl
  | lease now next claimId hstate hlabel =>
    obtain ⟨limit, excluded, claimIds, rfl⟩ := hlabel
    rcases hstate with hpending | hexpired
    · exact .pending hpending
    · unfold Store.leaseExpired at hexpired
      split at hexpired
      · rename_i old expires hleased
        exact .recovered old expires limit now next excluded claimIds hleased rfl
          (by simpa using hexpired)
      · cases hexpired
  | settle input h hlabel =>
    obtain ⟨expires, hleased⟩ := (settleOutboxEntry_eq_some h).leased
    exact .settled input.claimId expires input hleased hlabel rfl
  | wake now h => exact .pending (wakeOutboxEntry_eq_some h).1

/-- Stored entries are left to their workers. -/
theorem World.entry_moves {w : World} (hw : w.Coherent) (hinv : Spoken w.store) (label : Step)
    {id : String} {e : OutboxEntry} (he : w.store.outbox.get id = some e) :
    ∃ e', (w.step label).store.outbox.get id = some e' ∧ EntryMove label e e' := by
  cases hw.change label with
  | aside h => exact h.entry_moves he
  | decide now admitted subject d heffect hsubject hadmits hwritten hclock =>
    have hnew := (Committed.entries_new hw.store hinv
      ⟨now, admitted, subject, heffect, hsubject, hadmits, hwritten, hclock⟩).2
    refine ⟨e, ?_, .same⟩
    rw [hwritten.outbox, OrderedMap.get_setAll_of_notMem OutboxEntry.entryId _ ?_]
    · exact he
    · rintro x hx rfl
      rw [hnew x hx] at he
      cases he

theorem World.entry_step {w : World} (hw : w.Coherent) (hinv : Spoken w.store) (label : Step)
    {id : String} {e : OutboxEntry} (he : w.store.outbox.get id = some e) :
    ∃ e', (w.step label).store.outbox.get id = some e' ∧ EntryStep label e e' := by
  obtain ⟨e', he', hmove⟩ := World.entry_moves hw hinv label he
  exact ⟨e', he', hmove.step⟩

/-- What a step may do to the outbox: its decision writes each entry once and none that is there,
and stored entries are left to their workers. -/
def World.WritesOnce (w : World) (label : Step) : Prop :=
  (∀ d, w.decision label = some d → (d.outbox.map (·.entryId)).Nodup ∧
    ∀ e ∈ d.outbox, w.store.outbox.get e.entryId = none) ∧
  ∀ id e, w.store.outbox.get id = some e →
    ∃ e', (w.step label).store.outbox.get id = some e' ∧ EntryStep label e e'

/-- No claim is released after its start was announced. -/
def StartsRemembered (steps : List Step) : Prop :=
  Machine.Along World.step (fun w label => label.forgetsStart w.store = false) World.init steps

instance (steps : List Step) : Decidable (StartsRemembered steps) :=
  inferInstanceAs (Decidable (Machine.Along World.step _ World.init steps))

theorem World.spoken_run {steps : List Step} (h : StartsRemembered steps) :
    Spoken (World.init.run steps).store := by
  refine World.invariant_along Spoken ⟨fun _ _ hr => (by cases hr), fun he => (by cases he)⟩ ?_ h
  intro label s' w hw hno hchange hinv
  exact hchange.spoken hw.store hno hinv

theorem World.settled_entry_stays {w : World} (hw : w.Coherent) (hinv : Spoken w.store)
    {id : String} {e : OutboxEntry} (he : w.store.outbox.get id = some e)
    (hstate : e.state = .done ∨ e.state = .failed) {more : List Step}
    (h : Machine.Along World.step (fun w label => label.forgetsStart w.store = false) w more) :
    (w.run more).store.outbox.get id = some e := by
  induction more generalizing w with
  | nil => exact he
  | cons label rest ih =>
    obtain ⟨hno, hrest⟩ := h
    refine ih (hw.step label) ((hw.change label).spoken hw.store hno hinv) ?_ hrest
    obtain ⟨e', he', hstep⟩ := World.entry_step hw hinv label he
    cases hstep with
    | kept h => exact h ▸ he'
    | pending h => simp [h] at hstate
    | settled _ _ _ h => simp [h] at hstate
    | recovered _ _ _ _ _ _ _ h => simp [h] at hstate

/-- Unless an announced start is forgotten, every decision writes each entry once and leaves stored
entries to their workers, and a settled entry stays as it is. -/
theorem World.entries_written_once (steps : List Step) (h : StartsRemembered steps) :
    (∀ label, (World.init.run steps).WritesOnce label) ∧
    ∀ more id e, StartsRemembered (steps ++ more) →
      (World.init.run steps).store.outbox.get id = some e → e.state = .done ∨ e.state = .failed →
      (World.init.run (steps ++ more)).store.outbox.get id = some e := by
  have hw : (World.init.run steps).Coherent := World.coherent_run steps
  have hinv : Spoken (World.init.run steps).store := World.spoken_run h
  refine ⟨fun label => ⟨fun d hd => ?_, fun id e he => ?_⟩, fun more id e hmore he hstate => ?_⟩
  · exact (hw.committed hd).entries_new hw.store hinv
  · exact World.entry_step hw hinv label he
  · have hrun : World.init.run (steps ++ more) = (World.init.run steps).run more :=
      Machine.run_append _ _ _ _
    rw [hrun]
    exact World.settled_entry_stays hw hinv he hstate (Machine.Along.append.1 hmore).2

theorem World.entries_written_once_claimed :
    (World.init.run (Sample.claimed "codex")).WritesOnce
      (.onRun Sample.runId 3 "cleanup" (.cancel none none none)) :=
  (World.entries_written_once (Sample.claimed "codex") (by decide +kernel)).1 _

/-- A heartbeat that reports the provider process. -/
def Sample.start (now : Time) : Step :=
  .onRun Sample.runId now "cleanup" (.renew (some "token") true)

/-- An open Linear issue. -/
def Sample.linearIssue : TrackerIssue :=
  { reference := .linear "8f14e45f-ceea-467f-9a3c-0e5b1c2d3f4a"
      "1c2d3e4f-5a6b-4c7d-8e9f-0a1b2c3d4e5f"
    state := .opened, updatedAt := 0 }

/-- A run of a Linear issue announces its start, the announcement is delivered, and the claim is
released and taken again. -/
def Sample.restarted : List Step :=
  [.request 0 { Sample.request "claude" with
      issue := some Sample.linearIssue },
   .enqueueRun Sample.runId 1,
   .claimQueuedRun ["claude"] (Sample.claim 2),
   Sample.start 3,
   .claimPendingOutbox 10 4 100 [] (fun _ => "lease"),
   .settleOutbox
    { entryId := "issue-start/work:w/r1", claimId := "lease", state := .done, now := 5
      firstFailedAt := none, nextAttemptAt := none, deliveryFailures := none, recovered := false },
   .releaseQueuedRunClaim Sample.runId "runner" "token" 6 none,
   .claimQueuedRun ["claude"] (Sample.claim 7)]

/-- The next heartbeat overwrites the delivered announcement. -/
theorem World.restarted_not_writesOnce :
    ¬(World.init.run Sample.restarted).WritesOnce (Sample.start 8) := by
  intro h
  have hdone : ((World.init.run Sample.restarted).store.outbox.get "issue-start/work:w/r1").any
      (·.state = .done) = true := by decide +kernel
  have hpending : (((World.init.run Sample.restarted).step (Sample.start 8)).store.outbox.get
      "issue-start/work:w/r1").any (·.state = .pending) = true := by decide +kernel
  obtain ⟨e, he, hstate⟩ := (Option.any_eq_true _ _).1 hdone
  obtain ⟨e', he', hstep⟩ := h.2 _ e he
  rw [he'] at hpending
  simp only [Option.any_some, decide_eq_true_eq] at hstate hpending
  cases hstep with
  | kept h =>
    rw [h, hstate] at hpending
    cases hpending
  | pending h => simp [h] at hstate
  | settled _ _ _ h => simp [h] at hstate
  | recovered _ _ _ _ _ _ _ h => simp [h] at hstate

end AgentLcars
