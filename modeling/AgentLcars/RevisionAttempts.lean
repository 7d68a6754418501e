import AgentLcars.Lib.Counting
import AgentLcars.Requests

/-!
# Attempts at a source revision

A source revision is admitted once: its receipt is written when it becomes the desired revision and
refuses every later request for it.  From then on its runs follow each other.  The first is minted
by the request or by the settlement of the run it waited for, and every further one by the failure
or the loss of the attempt before it, as long as that attempt was not the last one allowed.

* `Tries` says which attempt at which revision a run is.
* `Attempts` is the invariant; `Effect.tried` is what a minted run adds to it.
* `World.attempts_bounded`: a revision is tried at most `MAX_AUTO_RETRIES + 1` times.
-/

namespace AgentLcars

/-! ### Receipts -/

/-- The store holds the receipt of a revision. -/
def Received (s : Store) (k key : String) : Prop :=
  (s.sourceRevisions.get (k ++ ":" ++ key)).isSome = true

/-- What a committed decision has to do with receipts. -/
structure Receipts (label : Step) (s s' : Store) (d : Decision) : Prop where
  unseen : ∀ R ∈ label.revision, ¬Received s (taskKey d.task.task) R.key
  noted : ∀ R ∈ label.revision, d.task.desiredRevision.map (·.key) = some R.key →
    Received s' (taskKey d.task.task) R.key
  asked : label.requestId.isSome = true → d.writes ≠ [] →
    ∀ R ∈ d.task.desiredRevision, label.revision = some R

section Receipts

variable {s s' : Store} {label : Step} {now : Time} {input : RequestInput}

theorem received_noteRevision {read : Store.RequestRead} {d : Decision} :
    (∀ k key, Received s k key → Received (s.noteRevision read none d) k key) ∧
      ∀ R ∈ read.sourceRevision, d.task.desiredRevision.map (·.key) = some R.key →
        Received (s.noteRevision read none d) (taskKey read.taskId) R.key := by
  unfold Store.noteRevision Received
  cases read.sourceRevision with
  | none => exact ⟨fun _ _ h => h, fun R hR => (by cases hR)⟩
  | some revision =>
    dsimp only
    constructor
    · intro k key h
      split_ifs
      · rw [OrderedMap.get_set]
        split_ifs
        · rfl
        · exact h
      · exact h
    · rintro R ⟨rfl⟩ hdesired
      rw [if_pos ⟨rfl, hdesired⟩, Store.revisionKey, OrderedMap.get_set_self]
      rfl

/-- What a request does to the receipts. -/
theorem request_receipts (s : Store) (now : Time) (input : RequestInput) :
    ((∃ stop, (Orchestrator.request s now input).1 = .error stop) ∧
      (Orchestrator.request s now input).2.sourceRevisions = s.sourceRevisions) ∨
    ∃ (d : Decision) (s₁ : Store), (Orchestrator.request s now input).1 = .ok d ∧
      s₁.sourceRevisions = s.sourceRevisions ∧
      (∀ R ∈ input.sourceRevision, ¬Received s (taskKey input.taskId) R.key) ∧
      (Orchestrator.request s now input).2 = s₁.noteRevision input.read none d := by
  unfold Orchestrator.request
  split
  · exact .inl ⟨⟨_, rfl⟩, rfl⟩
  unfold Store.transactRequest
  dsimp only
  split
  · exact .inl ⟨⟨_, rfl⟩, rfl⟩
  rename_i requestId next hresolve
  split
  · exact .inl ⟨⟨_, rfl⟩, rfl⟩
  · exact .inl ⟨⟨_, rfl⟩, noteBinding_revisions _ _ _⟩
  rename_i d hd
  obtain ⟨hunseen, -, -⟩ := decideRequest_ok hd
  split
  · exact .inl ⟨⟨_, rfl⟩, noteBinding_revisions _ _ _⟩
  rename_i s' happly
  refine .inr ⟨d, s', rfl, ?_, ?_, by rw [hunseen]⟩
  · rw [(apply_commits happly).records.revisions, noteBinding_revisions]
  · intro R hR hreceived
    simp only [Store.requestState, RequestInput.read, Option.mem_def.1 hR, Option.bind_some,
      Store.revisionKey] at hunseen
    unfold Received at hreceived
    rw [hunseen] at hreceived
    cases hreceived

/-- A receipt is never withdrawn. -/
theorem World.step_received (w : World) (label : Step) {k key : String}
    (h : Received w.store k key) : Received (w.step label).store k key := by
  cases label with
  | request now input =>
    rcases request_receipts w.store now input with ⟨-, hsame⟩ | ⟨d, s₁, -, hsame, -, hnoted⟩
    · show Received (Orchestrator.request w.store now input).2 k key
      unfold Received
      rw [hsame]
      exact h
    · show Received (Orchestrator.request w.store now input).2 k key
      rw [hnoted]
      refine received_noteRevision.1 k key ?_
      unfold Received
      rw [hsame]
      exact h
  | _ =>
    unfold Received
    rw [(w.step_records rfl).revisions]
    exact h

/-- A request that writes a run has its revision desired, or none. -/
theorem World.Coherent.receipts {w : World} (hw : w.Coherent) {label : Step} {d : Decision}
    (h : w.decision label = some d) : Receipts label w.store (w.step label).store d := by
  cases label with
  | request now input =>
    obtain ⟨requestId, hdecide, heffect⟩ := hw.request_decided h
    have hkey : taskKey d.task.task = taskKey input.taskId := heffect.requested hw.store
    rcases request_receipts w.store now input with
      ⟨⟨stop, hstop⟩, -⟩ | ⟨d', s₁, hok, hsame, hunseen, hnoted⟩
    · simp [World.decision, hstop, Except.toOption] at h
    obtain rfl : d' = d := by simpa [World.decision, hok, Except.toOption] using h
    refine ⟨fun R hR => hkey ▸ hunseen R hR, fun R hR hdesired => ?_, fun _ hwrites R hR => ?_⟩
    · rw [hkey]
      show Received (Orchestrator.request w.store now input).2 _ _
      rw [hnoted]
      exact received_noteRevision.2 R hR hdesired
    · have hof := ((decideRequest_revision hdecide).resolve_left hwrites).desired
      rw [Option.mem_def.1 hR] at hof
      unfold RequestInput.askedRevision at hof
      split_ifs at hof
      exact hof.symm
  | _ =>
    exact ⟨fun R hR => (by cases hR), fun R hR => (by cases hR), fun hnone => (by cases hnone)⟩

end Receipts

/-! ### Attempts -/

/-- The run is the `n`-th attempt at a revision on a task. -/
structure Tries (r : Run) (k key : String) (n : Nat) : Prop where
  task : taskKey r.task = k
  revision : r.sourceRevision.map (·.key) = some key
  attempt : r.revisionAttempt = some n

/-- The run was lost, or finished and reported a failure. -/
def failedOrLost (r : Run) : Bool :=
  r.state = .lost ∨ (r.state = .finished ∧ (r.result.any fun result => result.ok = false) = true)

theorem tries_of_frozen {r r' : Run} (h : r'.frozen = r.frozen) {k key : String} {n : Nat} :
    Tries r' k key n ↔ Tries r k key n := by
  have hattempt : r'.revisionAttempt = r.revisionAttempt := congrArg Frozen.revisionAttempt h
  constructor
  · rintro ⟨htask, hrevision, hn⟩
    exact ⟨task_of_frozen h ▸ htask, sourceRevision_of_frozen h ▸ hrevision, hattempt ▸ hn⟩
  · rintro ⟨htask, hrevision, hn⟩
    exact ⟨(task_of_frozen h).symm ▸ htask, (sourceRevision_of_frozen h).symm ▸ hrevision,
      hattempt.trans hn⟩

/-- A run that failed or was lost stays so. -/
theorem Move.failedOrLost {label : Step} {now : Time} {r r' : Run} (h : Move label now r r')
    (hr : failedOrLost r = true) : failedOrLost r' = true := by
  unfold AgentLcars.failedOrLost at hr ⊢
  rw [decide_eq_true_eq] at hr ⊢
  have hterminal : isLive r.state = false := by
    rcases hr with hlost | ⟨hfinished, -⟩
    · rw [hlost]
      rfl
    · rw [hfinished]
      rfl
  obtain ⟨hstate, hresult⟩ := h.terminal hterminal
  rw [hstate, hresult]
  exact hr

/-- The run is no attempt at the revision. -/
def Untried (D : WorkRevision) (x : Run) : Prop := x.sourceRevision.map (·.key) ≠ some D.key

/-- The attempts at each revision of each task are numbered in the order in which they failed. -/
structure Attempts (s : Store) : Prop where
  numbered : ∀ {id r key}, s.runs.get id = some r → r.sourceRevision.map (·.key) = some key →
    ∃ n, Tries r (taskKey r.task) key n ∧ 1 ≤ n ∧ n ≤ MAX_AUTO_RETRIES + 1
  received : ∀ {id r k key n}, s.runs.get id = some r → Tries r k key n → Received s k key
  latest : ∀ {i j r x k key m n}, s.runs.get i = some r → s.runs.get j = some x →
    isLive r.state = true → Tries r k key n → Tries x k key m → m ≤ n
  distinct : ∀ {i j r x k key n}, s.runs.get i = some r → s.runs.get j = some x →
    Tries r k key n → Tries x k key n → i = j
  chained : ∀ {id r k key n}, s.runs.get id = some r → Tries r k key (n + 1) → 1 ≤ n →
    ∃ x, s.runs.get x.runId = some x ∧ Tries x k key n ∧ failedOrLost x = true
  desired : ∀ {k vt D}, s.tasks.get k = some vt → vt.task.desiredRevision = some D →
    Received s k D.key
  waiting : ∀ {k vt}, s.tasks.get k = some vt → InWaiting Untried s k vt.task

/-- What a minted run is to the revision it tries. -/
inductive Tried (s s' : Store) (k key : String) : Nat → Prop where
  | first (hnone : ∀ id x, s.runs.get id = some x → taskKey x.task = k →
      x.sourceRevision.map (·.key) ≠ some key) (hreceived : Received s' k key) : Tried s s' k key 1
  | again (r r' : Run) (j : Nat) (hr : s.runs.get r.runId = some r) (hlive : isLive r.state = true)
      (htries : Tries r k key j) (hbudget : j ≤ MAX_AUTO_RETRIES)
      (hr' : s'.runs.get r'.runId = some r') (htries' : Tries r' k key j)
      (hfailed : failedOrLost r' = true) : Tried s s' k key (j + 1)

section Attempts

variable {label : Step} {now : Time} {admitted : Option (RequestSource × String)} {overrun : Prop}
  {subject : Option Run} {before : Option Task} {d : Decision} {s s' : Store}

/-- Which attempt a minted run is. -/
theorem Origin.tried (hs : s.Coherent) (hinv : Attempts s) {k : String} {old : Option (Run × Run)}
    {m : Run} (hbefore : (s.tasks.get k).map (·.task) = before)
    (hold : ∀ r r', old = some (r, r') → s.runs.get r.runId = some r ∧ taskKey r.task = k ∧
      r'.frozen = r.frozen ∧ s'.runs.get r'.runId = some r')
    (hkept : ∀ k key, Received s k key → Received s' k key)
    {t' : Task} (hasked : admitted.isSome = true → ∀ R ∈ t'.desiredRevision,
      ¬Received s k R.key ∧ Received s' k R.key)
    (hkey : taskKey m.task = k) (horigin : Origin admitted before old t' m)
    {key : String} (hrevision : m.sourceRevision.map (·.key) = some key) :
    ∃ n, Tries m k key n ∧ Tried s s' k key n := by
  obtain ⟨R, hR, rfl⟩ := Option.map_eq_some_iff.1 hrevision
  cases horigin with
  | request hadmitted hdesired _ _ _ hask =>
    obtain ⟨hunseen, hnoted⟩ := hasked (by rw [hadmitted]; rfl) R (hdesired.trans hR)
    refine ⟨1, ⟨hkey, hrevision, by rw [hask.attempt, hR]; rfl⟩, .first ?_ hnoted⟩
    intro id x hx hxkey hxrevision
    obtain ⟨n, htries, -⟩ := hinv.numbered hx hxrevision
    exact hunseen (hinv.received hx (hxkey ▸ htries))
  | fallback _ _ _ _ _ _ _ _ _ _ _ hfalls =>
    rw [hfalls.plain] at hR
    cases hR
  | correction _ _ _ _ _ _ _ _ _ _ _ _ _ _ _ _ hcorrects =>
    rw [hcorrects.plain] at hR
    cases hR
  | retry r r' t hrr' hr ht _ _ _ _ _ hsame _ _ hretries =>
    obtain ⟨hget, hrk, hfrozen, hget'⟩ := hold r r' hrr'
    rw [hrevision] at hsame
    obtain ⟨j, htries, -⟩ := hinv.numbered hget hsame.symm
    have hbudget := hretries.bounded (by
      obtain ⟨R', hR', -⟩ := Option.map_eq_some_iff.1 hsame.symm
      rw [hR']
      rfl)
    rw [htries.attempt, Option.getD_some] at hbudget
    refine ⟨j + 1, ⟨hkey, hrevision, ?_⟩, .again r r' j hget hr (hrk ▸ htries) hbudget hget'
      (hrk ▸ (tries_of_frozen hfrozen).2 htries) ?_⟩
    · rw [hretries.attempt, hR, htries.attempt]
      rfl
    · unfold failedOrLost
      rw [decide_eq_true_eq]
      exact hretries.failed
  | supersede r r' t desired hrr' hr ht htd hsome hne _ _ hrevision' _ _ _ _ _ hsupersedes =>
    obtain ⟨hget, hrk, -, -⟩ := hold r r' hrr'
    obtain ⟨vt, hvt, rfl⟩ := Option.map_eq_some_iff.1 (hbefore.trans ht)
    obtain rfl : R = desired := Option.some.inj (hR.symm.trans hrevision')
    have hlock := hs.mutex hget (hrk ▸ hvt) hr
    exact ⟨1, ⟨hkey, hrevision, hsupersedes.attempt⟩,
      .first (hinv.waiting hvt R r htd hlock hget hrk hsome hne) (hkept _ _ (hinv.desired hvt htd))⟩

/-- A run of the store after a step: an old one, or a fresh one that tries what it tries. -/
def Attempted (label : Step) (s s' : Store) (id : String) (x' : Run) : Prop :=
  (∃ now x, s.runs.get id = some x ∧ Move label now x x') ∨
    (isLive x'.state = true ∧ ∀ key, x'.sourceRevision.map (·.key) = some key →
      ∃ n, Tries x' (taskKey x'.task) key n ∧ Tried s s' (taskKey x'.task) key n)

theorem Attempted.cases {id : String} {x' : Run} (h : Attempted label s s' id x') {k key : String}
    {n : Nat} (htries : Tries x' k key n) :
    (∃ now x, s.runs.get id = some x ∧ Move label now x x' ∧ Tries x k key n) ∨
      (isLive x'.state = true ∧ Tried s s' k key n) := by
  rcases h with ⟨now, x, hx, hmove⟩ | ⟨hlive, htried⟩
  · exact .inl ⟨now, x, hx, hmove, (tries_of_frozen hmove.frozen).1 htries⟩
  · obtain ⟨m, hm, htried⟩ := htried key htries.revision
    obtain rfl : m = n := Option.some.inj (hm.attempt.symm.trans htries.attempt)
    exact .inr ⟨hlive, htries.task ▸ htried⟩

/-- A fresh attempt comes after every attempt that was stored. -/
theorem Tried.after (hinv : Attempts s) {k key : String} {m n : Nat} (h : Tried s s' k key n)
    {id : String} {x : Run} (hx : s.runs.get id = some x) (htries : Tries x k key m) : m < n := by
  cases h with
  | first hnone => exact absurd htries.revision (hnone id x hx htries.task)
  | again r r' j hr hlive htried => exact Nat.lt_succ_of_le (hinv.latest hr hx hlive htried htries)

/-- The runs of a step keep the attempts in order. -/
theorem Attempts.of_attempted (hinv : Attempts s) (hs' : s'.Coherent)
    (hkept : ∀ k key, Received s k key → Received s' k key)
    (hruns : ∀ id x', s'.runs.get id = some x' → Attempted label s s' id x')
    (hforth : ∀ id x, s.runs.get id = some x →
      ∃ now x', s'.runs.get id = some x' ∧ Move label now x x')
    (hdesired : ∀ k vt D, s'.tasks.get k = some vt → vt.task.desiredRevision = some D →
      Received s' k D.key)
    (hwaiting : ∀ k vt, s'.tasks.get k = some vt → InWaiting Untried s' k vt.task) : Attempts s' where
  numbered := by
    intro id r key hr hkey
    rcases hruns id r hr with ⟨now, x, hx, hmove⟩ | ⟨-, htried⟩
    · rw [sourceRevision_of_frozen hmove.frozen] at hkey
      obtain ⟨n, htries, hbounds⟩ := hinv.numbered hx hkey
      exact ⟨n, task_of_frozen hmove.frozen ▸ (tries_of_frozen hmove.frozen).2 htries, hbounds⟩
    · obtain ⟨n, htries, htried⟩ := htried key hkey
      refine ⟨n, htries, ?_⟩
      cases htried with
      | first => exact ⟨le_rfl, by decide⟩
      | again r r' j _ _ _ hbudget => exact ⟨Nat.le_add_left 1 j, Nat.succ_le_succ hbudget⟩
  received := by
    intro id r k key n hr htries
    rcases (hruns id r hr).cases htries with ⟨now, x, hx, -, htries⟩ | ⟨-, htried⟩
    · exact hkept k key (hinv.received hx htries)
    · cases htried with
      | first _ hreceived => exact hreceived
      | again x _ _ hx _ htried => exact hkept k key (hinv.received hx htried)
  latest := by
    intro i j r x k key m n hr hx hlive htries htries'
    rcases (hruns i r hr).cases htries with ⟨now, r₀, hr₀, hmove, h₀⟩ | ⟨-, htried⟩ <;>
      rcases (hruns j x hx).cases htries' with ⟨now', x₀, hx₀, hmove', h₀'⟩ | ⟨hlive', htried'⟩
    · exact hinv.latest hr₀ hx₀ (hmove.live_of_live hlive) h₀ h₀'
    · -- the fresh run is the one live run of the task
      obtain rfl := hs'.live_unique hr hx (htries.task.trans htries'.task.symm) hlive hlive'
      obtain rfl := Option.some.inj (hr.symm.trans hx)
      exact (Option.some.inj (htries'.attempt.symm.trans htries.attempt)).le
    · exact (htried.after hinv hx₀ h₀').le
    · obtain rfl := hs'.live_unique hr hx (htries.task.trans htries'.task.symm) hlive hlive'
      obtain rfl := Option.some.inj (hr.symm.trans hx)
      exact (Option.some.inj (htries'.attempt.symm.trans htries.attempt)).le
  distinct := by
    intro i j r x k key n hr hx htries htries'
    rcases (hruns i r hr).cases htries with ⟨now, r₀, hr₀, hmove, h₀⟩ | ⟨hlive, htried⟩ <;>
      rcases (hruns j x hx).cases htries' with ⟨now', x₀, hx₀, hmove', h₀'⟩ | ⟨hlive', htried'⟩
    · exact hinv.distinct hr₀ hx₀ h₀ h₀'
    · exact absurd (htried'.after hinv hr₀ h₀) (lt_irrefl n)
    · exact absurd (htried.after hinv hx₀ h₀') (lt_irrefl n)
    · exact hs'.live_unique hr hx (htries.task.trans htries'.task.symm) hlive hlive'
  chained := by
    intro id r k key n hr htries hn
    rcases (hruns id r hr).cases htries with ⟨now, r₀, hr₀, -, h₀⟩ | ⟨-, htried⟩
    · obtain ⟨x, hx, hxtries, hfailed⟩ := hinv.chained hr₀ h₀ hn
      obtain ⟨now', x', hx', hmove⟩ := hforth _ _ hx
      exact ⟨x', by rw [runId_of_frozen hmove.frozen]; exact hx',
        (tries_of_frozen hmove.frozen).2 hxtries, hmove.failedOrLost hfailed⟩
    · cases htried with
      | first => exact absurd hn (by decide)
      | again _ r' _ _ _ _ _ hr' htries' hfailed => exact ⟨r', hr', htries', hfailed⟩
  desired := fun {k vt D} => hdesired k vt D
  waiting := fun {k vt} => hwaiting k vt

theorem tried_of_frozen (D : WorkRevision) (x x' : Run) (hfrozen : x'.frozen = x.frozen)
    (h : Untried D x) : Untried D x' := by
  rw [Untried, sourceRevision_of_frozen hfrozen]
  exact h

theorem Presents.isRequest {k : String} (h : Presents label s k admitted)
    (hadmitted : admitted.isSome = true) : label.requestId.isSome = true := by
  obtain ⟨⟨source, id⟩, hadmitted⟩ := Option.isSome_iff_exists.1 hadmitted
  have hpresented := (h.admits _ _ hadmitted).presented
  cases label with
  | request now input => rfl
  | _ => cases hpresented

/-- The desired revision was desired before, or comes with its receipt. -/
theorem Effect.desired_received (hinv : Attempts s)
    (heffect : Effect label now admitted overrun subject
      ((s.tasks.get (taskKey d.task.task)).map (·.task)) d)
    (hadmits : Presents label s (taskKey d.task.task) admitted) (hreceipts : Receipts label s s' d)
    (hkept : ∀ k key, Received s k key → Received s' k key) {D : WorkRevision}
    (hD : d.task.desiredRevision = some D) : Received s' (taskKey d.task.task) D.key := by
  have hold : ∀ t ∈ (s.tasks.get (taskKey d.task.task)).map (·.task),
      t.desiredRevision = some D → Received s' (taskKey d.task.task) D.key := by
    intro t ht htd
    obtain ⟨vt, hvt, rfl⟩ := Option.map_eq_some_iff.1 (Option.mem_def.1 ht)
    exact hkept _ _ (hinv.desired hvt htd)
  have hnew : label.revision = some D → Received s' (taskKey d.task.task) D.key := fun h =>
    hreceipts.noted D h (by rw [hD]; rfl)
  generalize hbefore : (s.tasks.get (taskKey d.task.task)).map (·.task) = before at heffect hold
  cases heffect with
  | touch h =>
    rcases h.desired with hsame | hnone | ⟨revision, hrevision, hlabel, -⟩
    · exact hold _ rfl (hsame ▸ hD)
    · rw [hnone] at hD
      cases hD
    · obtain rfl := Option.some.inj (hrevision.symm.trans hD)
      exact hnew hlabel
  | rewrite _ _ h =>
    rcases h.desired with hsame | hnone
    · exact hold _ rfl (hsame ▸ hD)
    · rw [hnone] at hD
      cases hD
  | settle _ _ _ h =>
    rcases h.desired with hsame | hnone
    · exact hold _ rfl (hsame ▸ hD)
    · rw [hnone] at hD
      cases hD
  | mint old dropped m hwrites _ _ _ _ _ _ horigin =>
    cases horigin with
    | request hadmitted =>
      have hmem : m ∈ d.writes := (hwrites m).2 (.inr rfl)
      have hrequest := hadmits.isRequest (by rw [hadmitted]; rfl)
      exact hnew (hreceipts.asked hrequest (List.ne_nil_of_mem hmem) D hD)
    | fallback _ _ _ _ _ _ hdesired =>
      rw [hdesired] at hD
      cases hD
    | correction _ _ _ _ _ _ _ _ _ _ _ hdesired =>
      rw [hdesired] at hD
      cases hD
    | retry _ _ t _ _ ht _ _ hdesired => exact hold t ht (hdesired ▸ hD)
    | supersede _ _ t desired _ _ ht htd _ _ _ _ _ hdesired =>
      obtain rfl := Option.some.inj (hdesired.symm.trans hD)
      exact hold t ht htd

/-- Every step keeps the attempts in order. -/
theorem World.Coherent.attempts {w : World} (hw : w.Coherent) (label : Step)
    (hinv : Attempts w.store) : Attempts (w.step label).store := by
  have hkept : ∀ k key, Received w.store k key → Received (w.step label).store k key :=
    fun _ _ => w.step_received label
  have hs' := (hw.step label).store
  have hforth : ∀ id x, w.store.runs.get id = some x →
      ∃ now x', (w.step label).store.runs.get id = some x' ∧ Move label now x x' :=
    fun id x hx => (hw.change label).run_moves hw.store hx
  cases hd : w.decision label with
  | none =>
    have haside := hw.undecided hd
    refine hinv.of_attempted hs' hkept (fun id x' hx' => .inl (haside.run_back hx')) hforth ?_ ?_
    · intro k vt D hvt hD
      rw [haside.tasks] at hvt
      exact hkept _ _ (hinv.desired hvt hD)
    · intro k vt hvt
      rw [haside.tasks] at hvt
      refine (hinv.waiting hvt).kept tried_of_frozen rfl rfl fun id x' hx' _ => ?_
      obtain ⟨now, x, hx, hmove⟩ := haside.run_back hx'
      exact ⟨x, hx, hmove.frozen⟩
  | some d =>
    have hreceipts := hw.receipts hd
    obtain ⟨now, admitted, subject, heffect, hsubject, hadmits, hwritten, -⟩ := hw.committed hd
    refine hinv.of_attempted hs' hkept ?_ hforth ?_ ?_
    · intro id x' hx'
      rcases hwritten.run_cases heffect hsubject hx' with hmoved | ⟨hmem, rfl, hminted⟩
      · exact .inl hmoved
      · refine .inr ⟨by rw [hminted.fresh.state]; rfl, fun key hkey => ?_⟩
        obtain ⟨old, hold, -, horigin⟩ := heffect.origin (fun r hr => (hsubject r hr).1) hmem
          (hminted.unstored hw.store)
        rw [hminted.key]
        refine horigin.tried hw.store hinv rfl ?_ hkept ?_ hminted.key hkey
        · intro r r' hrr'
          obtain ⟨hr, hmove, -, hwrite⟩ := hold r r' hrr'
          obtain ⟨hget, hrk⟩ := hsubject r hr
          exact ⟨hget, hrk, hmove.frozen, hwritten.get_of_mem hw.store heffect hsubject hwrite⟩
        · intro hadmitted R hR
          have hlabel := hreceipts.asked (hadmits.isRequest hadmitted) (List.ne_nil_of_mem hmem) R hR
          exact ⟨hreceipts.unseen R hlabel, hreceipts.noted R hlabel (by rw [hR]; rfl)⟩
    · intro k vt D hvt hD
      rw [hwritten.get_task] at hvt
      split_ifs at hvt with hk
      · obtain rfl := Option.some.inj hvt
        subst hk
        exact heffect.desired_received hinv hadmits hreceipts hkept hD
      · exact hkept _ _ (hinv.desired hvt hD)
    · intro k vt hvt
      rw [hwritten.get_task] at hvt
      split_ifs at hvt with hk
      · obtain rfl := Option.some.inj hvt
        subst hk
        refine heffect.awaits tried_of_frozen hw.store hsubject hwritten hinv.waiting ?_
        intro revision id x hlabel hx hkey hrevision
        obtain ⟨n, htries, -⟩ := hinv.numbered hx hrevision
        exact hreceipts.unseen revision hlabel (hkey ▸ hinv.received hx htries)
      · refine (hinv.waiting hvt).kept tried_of_frozen rfl rfl fun id x hx hkey => ?_
        rcases hwritten.get_cases hx with ⟨hmem, rfl⟩ | ⟨hget, -⟩
        · rcases heffect.write_cases hmem with ⟨r, hr, hmove⟩ | hminted
          · rw [task_of_frozen hmove.frozen, (hsubject r hr).2] at hkey
            exact absurd hkey.symm hk
          · exact absurd (hkey.symm.trans hminted.key) hk
        · exact ⟨x, hget, rfl⟩

theorem attempts_empty : Attempts .empty where
  numbered := fun h => by cases h
  received := fun h => by cases h
  latest := fun h => by cases h
  distinct := fun h => by cases h
  chained := fun h => by cases h
  desired := fun h => by cases h
  waiting := fun h => by cases h

theorem World.attempts_run (steps : List Step) : Attempts (World.init.run steps).store := by
  refine (Machine.invariant_run (fun w : World => w.Coherent ∧ Attempts w.store) ?_
    ⟨World.coherent_init, attempts_empty⟩ steps).2
  rintro w label ⟨hw, hinv⟩
  exact ⟨hw.step label, hw.attempts label hinv⟩

end Attempts

/-! ### The bound -/

/-- The runs of a task at a revision. -/
def Store.runsAt (s : Store) (k key : String) : List Run :=
  s.runs.values.filter fun r => taskKey r.task = k ∧ r.sourceRevision.map (·.key) = some key

theorem Store.mem_runsAt {s : Store} {k key : String} {r : Run} :
    r ∈ s.runsAt k key ↔ (∃ id, s.runs.get id = some r) ∧ taskKey r.task = k ∧
      r.sourceRevision.map (·.key) = some key := by
  simp [Store.runsAt, OrderedMap.mem_values_iff]

theorem Attempts.tries {s : Store} (h : Attempts s) {k key : String} {r : Run}
    (hr : r ∈ s.runsAt k key) :
    ∃ n, Tries r k key n ∧ 1 ≤ n ∧ n ≤ MAX_AUTO_RETRIES + 1 := by
  obtain ⟨⟨id, hget⟩, rfl, hkey⟩ := Store.mem_runsAt.1 hr
  exact h.numbered hget hkey

/-- An attempt other than the first is minted with the failure or loss of the attempt before it. -/
theorem World.Coherent.attempt_minted {w : World} (hw : w.Coherent) (hinv : Attempts w.store)
    {label : Step} {m : Run} {k key : String} {n : Nat}
    (hm : (w.step label).store.runs.get m.runId = some m) (htries : Tries m k key (n + 1)) :
    n = 0 ∨ ∃ x x', w.store.runs.get x.runId = some x ∧ Tries x k key n ∧
      (w.step label).store.runs.get x.runId = some x' ∧ x'.frozen = x.frozen ∧
      failedOrLost x' = true := by
  rcases Nat.eq_zero_or_pos n with hzero | hpos
  · exact .inl hzero
  obtain ⟨x', hx', hxtries, hfailed⟩ := (hw.attempts label hinv).chained hm htries hpos
  rcases (hw.change label).run_cases hw.store hx' with ⟨now, x, hx, hmove⟩ | ⟨-, hfresh⟩
  · have hid := runId_of_frozen hmove.frozen
    rw [hid] at hx hx'
    exact .inr ⟨x, x', hx, (tries_of_frozen hmove.frozen).1 hxtries, hx', hmove.frozen, hfailed⟩
  · -- a fresh run has neither failed nor been lost
    simp [failedOrLost, hfresh.state] at hfailed

/-- A revision of a task is tried at most `MAX_AUTO_RETRIES + 1` times, under numbers that are all
different, and never again before the last attempt failed or was lost. -/
theorem World.attempts_bounded (steps : List Step) (k key : String) :
    let runs := (World.init.run steps).store.runsAt k key
    runs.length ≤ MAX_AUTO_RETRIES + 1 ∧
    (∀ a ∈ runs, ∃ n, a.revisionAttempt = some n ∧ 1 ≤ n ∧ n ≤ MAX_AUTO_RETRIES + 1) ∧
    (∀ a ∈ runs, ∀ b ∈ runs, a.revisionAttempt = b.revisionAttempt → a = b) ∧
    ∀ first label rest m n, steps = first ++ label :: rest →
      (World.init.run first).store.runs.get m.runId = none →
      ((World.init.run first).step label).store.runs.get m.runId = some m →
      Tries m k key (n + 1) →
      n = 0 ∨ ∃ x x', (World.init.run first).store.runs.get x.runId = some x ∧ Tries x k key n ∧
        ((World.init.run first).step label).store.runs.get x.runId = some x' ∧
        x'.frozen = x.frozen ∧ failedOrLost x' = true := by
  intro runs
  have hs := (World.coherent_run steps).store
  have hinv := World.attempts_run steps
  have hnumbered : ∀ a ∈ runs, ∃ n, a.revisionAttempt = some n ∧ 1 ≤ n ∧
      n ≤ MAX_AUTO_RETRIES + 1 := by
    intro a ha
    obtain ⟨n, htries, hbounds⟩ := hinv.tries ha
    exact ⟨n, htries.attempt, hbounds⟩
  have hapart : ∀ a ∈ runs, ∀ b ∈ runs, a.revisionAttempt = b.revisionAttempt → a = b := by
    intro a ha b hb hab
    obtain ⟨⟨i, hi⟩, -⟩ := Store.mem_runsAt.1 ha
    obtain ⟨⟨j, hj⟩, -⟩ := Store.mem_runsAt.1 hb
    obtain ⟨n, htries, -⟩ := hinv.tries ha
    obtain ⟨m, htries', -⟩ := hinv.tries hb
    rw [htries.attempt, htries'.attempt] at hab
    obtain rfl := Option.some.inj hab
    obtain rfl := hinv.distinct hi hj htries htries'
    exact Option.some.inj (hi.symm.trans hj)
  have hnodup : runs.Nodup :=
    ((World.init.run steps).store.runs.nodup_values fun _ _ h => hs.runKeyed h).filter _
  refine ⟨?_, hnumbered, hapart, ?_⟩
  · refine Counting.length_le_of_numbered (fun a : Run => a.revisionAttempt.getD 0) hnodup
      (fun a ha b hb hab => hapart a ha b hb ?_) fun a ha => ?_
    · obtain ⟨n, hn, -⟩ := hnumbered a ha
      obtain ⟨m, hm, -⟩ := hnumbered b hb
      rw [hn, hm] at hab ⊢
      exact congrArg some hab
    · obtain ⟨n, hn, hbounds⟩ := hnumbered a ha
      rw [hn]
      exact hbounds
  intro first label rest m n _ _ hm htries
  exact (World.coherent_run first).attempt_minted (World.attempts_run first) hm htries

end AgentLcars
