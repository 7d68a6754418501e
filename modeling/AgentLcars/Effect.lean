import AgentLcars.Lib.Text
import AgentLcars.Transition

/-!
# What an accepted decision does

`Effect` is the one description of an accepted decision that every invariant is derived from.  It
has four shapes: only the task document moves, a stored run is rewritten and keeps its liveness, a
live run is settled, or a run is minted, possibly beside the run it replaces or succeeds.  Each
shape carries the laws of the task document that goes with it.

* `Emission` says which outbox entries may come with it, each with the transition that causes it.
* `Origin` says where a minted run takes its request identity from.
-/

namespace AgentLcars

/-! ### Ids of runs and outbox entries -/

@[simp] theorem runIdOf_inj {k l : String} {m n : Nat} :
    runIdOf k m = runIdOf l n ↔ k = l ∧ m = n := by
  refine ⟨fun h => ?_, by rintro ⟨rfl, rfl⟩; rfl⟩
  exact Text.append_decimal_inj "/" (c := 'r') (by decide) h

/-- The emitters of outbox entries. -/
inductive EntryTag where
  | dispatch
  | outcome
  | triage
  | handoffSummary
  | delivery
  | deliveryOutcome
  | issueStart
  deriving DecidableEq

/-- The word an entry id starts with. -/
def EntryTag.word : EntryTag → String
  | .dispatch => "dispatch"
  | .outcome => "outcome"
  | .triage => "triage"
  | .handoffSummary => "handoff-summary"
  | .delivery => "delivery"
  | .deliveryOutcome => "delivery-outcome"
  | .issueStart => "issue-start"

/-- The kind of the entries an emitter makes. -/
def EntryTag.kind : EntryTag → OutboxKind
  | .dispatch => .dispatchRun
  | .outcome => .reportOutcome
  | .triage => .publishTriage
  | .handoffSummary => .admitHandoffSummary
  | .delivery => .monitorDelivery
  | .deliveryOutcome => .reportOutcome
  | .issueStart => .publishIssueStart

/-- The id of the entry an emitter makes about a run. -/
def entryIdOf (tag : EntryTag) (runId : String) : String := tag.word ++ "/" ++ runId

@[simp] theorem entryIdOf_inj {k l : EntryTag} {a b : String} :
    entryIdOf k a = entryIdOf l b ↔ k = l ∧ a = b := by
  refine ⟨fun h => ?_, by rintro ⟨rfl, rfl⟩; rfl⟩
  have hslash : ∀ tag : EntryTag, '/' ∉ tag.word.toList := by
    intro tag
    cases tag <;> decide
  obtain ⟨hw, hb⟩ := Text.tag_inj (c := '/') (hslash k) (hslash l) h
  refine ⟨?_, hb⟩
  cases k <;> cases l <;> first | rfl | exact absurd hw (by decide)

/-- The entry is what an emitter says about a run. -/
structure About (entry : OutboxEntry) (tag : EntryTag) (run : Run) : Prop where
  entryId : entry.entryId = entryIdOf tag run.runId
  runId : entry.runId = run.runId
  task : entry.task = run.task
  kind : entry.kind = tag.kind
  state : entry.state = .pending
  attempts : entry.attempts = 0
  untried : entry.firstFailedAt = none ∧ entry.deliveryFailures = none ∧
    (tag ≠ .delivery → entry.nextAttemptAt = none)

/-- The emitters that speak of a run once, when it settles. -/
def EntryTag.ofSettlement (tag : EntryTag) : Prop :=
  tag = .outcome ∨ tag = .triage ∨ tag = .handoffSummary ∨ tag = .delivery

/-- The entries a decision may emit, each with the transition that causes it. -/
inductive Emission (before : Option Task) (after : Task) (old : Option (Run × Run))
    (dispatched : List Run) : OutboxEntry → Prop where
  | dispatch {e} (m : Run) (hm : m ∈ dispatched) (h : About e .dispatch m) :
      Emission before after old dispatched e
  | settled {e} (tag : EntryTag) (r r' : Run) (hold : old = some (r, r'))
      (hr : isLive r.state = true) (hr' : isLive r'.state = false) (htag : tag.ofSettlement)
      (h : About e tag r) : Emission before after old dispatched e
  | delivered {e} (r r' : Run) (hold : old = some (r, r')) (hr : isLive r.state = true)
      (hr' : isLive r'.state = false) (hdelivery : deliveryWaiting after = false)
      (h : About e .deliveryOutcome r) : Emission before after old dispatched e
  | merged {e} (r r' : Run) (t : Task) (b : DeliveryBinding) (hold : old = some (r, r'))
      (ht : before = some t) (hr : isLive r.state = false) (hb : t.delivery = some b)
      (hrun : b.runId = r.runId) (hwaiting : b.state = .waiting)
      (hdelivery : deliveryWaiting after = false)
      (h : About e .deliveryOutcome r) : Emission before after old dispatched e
  | started {e} (r r' : Run) (q q' : RunQueue) (hold : old = some (r, r'))
      (hr : isLive r.state = true) (hq : r.queue = some q) (hclaimed : q.state = .claimed)
      (hnew : q.providerProcessStartedAt = none) (hq' : r'.queue = some q')
      (hkept : q'.state = .claimed) (hstart : q'.providerProcessStartedAt.isSome = true)
      (hlinear : (r.issue.any fun issue => issue.reference.isLinear) = true)
      (hplain : r.sourceRevision = none) (h : About e .issueStart r) :
      Emission before after old dispatched e

/-! ### Laws of the task document -/

/-- An issue copied onto a run is about the source of the task's issue. -/
def SameSource (copied issue : Option TrackerIssue) : Prop :=
  ∀ i ∈ copied, ∃ j ∈ issue, issueSourceKey j.reference = issueSourceKey i.reference

/-- The issue of a task is never about another source than before. -/
def IssueKept (before after : Option TrackerIssue) : Prop :=
  after = before ∨ ∃ issue, after = some issue ∧ issueIdentityChanges (some issue) before = false

/-- The source watermark stays, or is replaced by an observation that is behind it nowhere. -/
def ObservedOn (before after : Option (List (String × String))) : Prop :=
  after = before ∨ ∃ observed, after = some observed ∧ observesOlder before (some observed) = false

/-- A reply to a person. -/
def isReply (params : Option Params) : Bool :=
  params.bind (·.lookup "mode") = some "reply" ∧ params.bind (·.lookup "replyPrincipal") ≠ none

/-- A run that names the run whose delivery its task waits for. -/
def succeedsDelivery (params : Option Params) (t : Task) : Bool :=
  params.bind (·.lookup "deliveryPredecessor") = t.delivery.map (·.runId)

/-- The parameters under which a run may start beside the waiting delivery of its task. -/
def carriesDelivery (params : Option Params) (t : Task) : Bool :=
  (params.bind (·.lookup "mode") = some "reply" ∧ params.bind (·.lookup "replyPrincipal") ≠ none) ∨
    params.bind (·.lookup "deliveryPredecessor") = t.delivery.map (·.runId)

/-- What is recorded about labels stays, unless the step stands for one, and the work is written
once, unless the step edits it. -/
structure Kept (label : Step) (before : Option Task) (after : Task) : Prop where
  routing : label.labels = true ∨ after.providerRouting = before.bind (·.providerRouting)
  work : label.edits = true ∨ (before.map (·.work)).or label.work = some after.work

/-- A decision that writes no run. -/
structure Touched (label : Step) (t t' : Task) : Prop where
  task : t'.task = t.task
  lock : t'.activeRunId = t.activeRunId
  count : t'.runCount = t.runCount
  delivery : t'.delivery = t.delivery
  desired : t'.desiredRevision = t.desiredRevision ∨ t'.desiredRevision = none ∨
    ∃ revision, t'.desiredRevision = some revision ∧ label.revision = some revision ∧
      t.activeRunId.isSome = true
  closed : t'.closedAt = t.closedAt ∨
    (t.activeRunId = none ∧ t.closedAt = none ∧ t'.closedAt.isSome = true)
  issue : IssueKept t.issue t'.issue
  lost : t'.consecutiveLost = t.consecutiveLost
  observed : ObservedOn t.sourceObservedAt t'.sourceObservedAt

/-- A decision that rewrites a run without settling it. -/
structure Rewritten (t t' : Task) (r r' : Run) : Prop where
  task : t'.task = t.task
  lock : t'.activeRunId = t.activeRunId
  count : t'.runCount = t.runCount
  desired : t'.desiredRevision = t.desiredRevision ∨ t'.desiredRevision = none
  closed : t'.closedAt = t.closedAt
  issue : t'.issue = t.issue
  delivery : (t'.delivery = t.delivery ∧ (isLive r.state = false → r'.delivery = r.delivery)) ∨
    ∃ b, t.delivery = some b ∧ b.runId = r.runId ∧ b.state = .waiting ∧ isLive r.state = false ∧
      t.activeRunId = none ∧ t'.delivery = r'.delivery ∧
      ∀ b' ∈ t'.delivery, b'.runId = b.runId ∧ b'.correctionRunId = b.correctionRunId
  lost : t'.consecutiveLost = t.consecutiveLost
  observed : ObservedOn t.sourceObservedAt t'.sourceObservedAt

/-- The settlements that never look at the desired revision. -/
def IgnoresRevision (r r' : Run) : Prop :=
  r'.state = .canceled ∨ (r'.state = .lost ∧ r.pipeline = "goose") ∨
    (r'.state = .finished ∧ r'.delivery.isSome = true ∧ r'.result.any (·.ok) = true)

/-- Nothing is left to try after the loss of the run. -/
def GaveUp (t : Task) (r : Run) : Prop :=
  r.pipeline = "goose" ∨ MAX_AUTO_RETRIES < t.consecutiveLost ∨ (r.sourceRevision.isSome = true ∧
    (t.desiredRevision = none ∨ MAX_AUTO_RETRIES < r.revisionAttempt.getD 1))

/-- A decision that settles a run and mints none. -/
structure SettledOnly (t t' : Task) (r r' : Run) : Prop where
  task : t'.task = t.task
  lock : t'.activeRunId = if t.activeRunId = some r.runId then none else t.activeRunId
  count : t'.runCount = t.runCount
  desired : t'.desiredRevision = t.desiredRevision ∨ t'.desiredRevision = none
  closed : t'.closedAt = t.closedAt ∨ t'.closedAt.isSome = true
  issue : t'.issue = t.issue
  delivery : t'.delivery = t.delivery ∨ (t'.delivery = r'.delivery ∧ r'.delivery.isSome = true ∧
    r'.state = .finished ∧ r'.result.any (·.ok) = true)
  successor : t'.closedAt = none → ∀ desired ∈ t'.desiredRevision,
    r.sourceRevision.map (·.key) = some desired.key ∨ r.sourceRevision = none ∨ IgnoresRevision r r'
  observed : ObservedOn t.sourceObservedAt t'.sourceObservedAt
  gaveUp : r'.state = .lost → GaveUp t' r'

/-- What a run is when it is minted. -/
structure Fresh (m : Run) : Prop where
  state : m.state = .pending
  queue : m.queue = none
  delivery : m.delivery = none
  triagePublication : m.triagePublication = none
  credentialOperation : m.credentialOperation = none
  credentialPendingResult : m.credentialPendingResult = none
  credentialWriteReceipt : m.credentialWriteReceipt = none
  result : m.result = none
  events : ∃ at_ intervention, m.events = [{ at_, to_ := .pending, by_ := .request, intervention }]

/-- The generations a task has used. -/
def generations (task : Option Task) : Nat := (task.map (·.runCount)).getD 0

/-- The lock, the counter and the issue beside a fresh run. -/
structure Minted (before : Option Task) (skipped : Nat) (t' : Task) (m : Run) : Prop where
  fresh : Fresh m
  key : taskKey t'.task = taskKey m.task
  runId : m.runId = runIdOf (taskKey m.task) t'.runCount
  lock : t'.activeRunId = some m.runId
  count : t'.runCount = generations before + skipped + 1
  issue : SameSource m.issue t'.issue
  issueKept : IssueKept (before.bind (·.issue)) t'.issue

/-! ### What a minted run takes over -/

/-- A run that was asked for: it carries what the request says. -/
structure Asked (before : Option Task) (t' : Task) (m : Run) : Prop where
  carries : deliveryWaiting t' = true → isReply m.params = true ∨
    (m.requestSource ≠ .caller ∧ succeedsDelivery m.params t' = true)
  policy : ∃ policy : Option ProviderFallbackRequest,
    m.providerFallback = mintedFallback (policy.map .request) m.pipeline m.runId
  attempt : m.revisionAttempt = m.sourceRevision.map fun _ => 1
  observed : t'.sourceObservedAt = m.sourceRevision.bind (·.observedAt)
  fresher : ∀ t ∈ before, ∀ observed ∈ t'.sourceObservedAt,
    observesOlder t.sourceObservedAt (some observed) = false

/-- A run on another pipeline that the policy of its predecessor allows. -/
structure FallsBack (before : Option Task) (t' : Task) (r m : Run) : Prop where
  params : m.params = freshParams r.params
  policy : ∃ policy fromRunId trigger, r.providerFallback = some policy ∧
    m.pipeline ∈ policy.allowedPipelines ∧ m.pipeline ∉ policy.attemptedPipelines ∧
    m.providerFallback = some { policy with
      attemptedPipelines := policy.attemptedPipelines ++ [m.pipeline], fromRunId, trigger }
  plain : m.sourceRevision = none
  lost : ∀ t ∈ before, t'.consecutiveLost ≤ t.consecutiveLost
  observed : t'.sourceObservedAt = none

/-- A run that corrects the delivery of its predecessor. -/
structure Corrects (t' : Task) (r m : Run) : Prop where
  predecessor : m.params.bind (·.lookup "deliveryPredecessor") = some r.runId
  pipeline : m.pipeline = r.pipeline
  policy : m.providerFallback =
    mintedFallback (r.providerFallback.map .inherited) m.pipeline m.runId
  plain : m.sourceRevision = none
  observed : t'.sourceObservedAt = none

/-- A run that tries again what its predecessor failed or lost. -/
structure Retries (t t' : Task) (r r' m : Run) : Prop where
  params : m.params = r.params
  pipeline : m.pipeline = r.pipeline
  failed : r'.state = .lost ∨
    (r'.state = .finished ∧ (r'.result.any fun result => result.ok = false) = true)
  policy : m.providerFallback = none ∨ m.providerFallback =
    mintedFallback (r.providerFallback.map .inherited) m.pipeline m.runId
  budget : r.sourceRevision = none →
    t'.consecutiveLost = t.consecutiveLost + 1 ∧ t'.consecutiveLost ≤ MAX_AUTO_RETRIES
  attempt : m.revisionAttempt = m.sourceRevision.map fun _ => r.revisionAttempt.getD 1 + 1
  bounded : r.sourceRevision.isSome = true → r.revisionAttempt.getD 1 ≤ MAX_AUTO_RETRIES
  observed : t'.sourceObservedAt = t.sourceObservedAt
  recipe : r.sourceRevision = none → r.pipeline ≠ "goose"

/-- A run of the revision its predecessor was overtaken by. -/
structure Supersedes (t t' : Task) (r m : Run) : Prop where
  params : m.params = r.params
  policy : m.providerFallback = none
  attempt : m.revisionAttempt = some 1
  observed : t'.sourceObservedAt = t.sourceObservedAt

/-- Where a minted run takes its identity from, and what happens to the desired revision. -/
inductive Origin (admitted : Option (RequestSource × String)) (before : Option Task)
    (old : Option (Run × Run)) (t' : Task) (m : Run) : Prop where
  | request (hadmitted : admitted = some (m.requestSource, m.requestId))
      (hdesired : t'.desiredRevision = m.sourceRevision) (hclosed : t'.closedAt = none)
      (hopen : before.bind (·.closedAt) = none) (hdelivery : t'.delivery = before.bind (·.delivery))
      (hasked : Asked before t' m) (hcanceled : ∀ r r', old = some (r, r') → isLive r.state = true)
  | fallback (r r' : Run) (hold : old = some (r, r')) (hr : isLive r.state = true)
      (hsource : m.requestSource = .providerFallback) (hid : m.requestId = "fallback:" ++ r.runId)
      (hdesired : t'.desiredRevision = none) (hclosed : t'.closedAt = none)
      (hopen : before.bind (·.closedAt) = none) (hdelivery : t'.delivery = before.bind (·.delivery))
      (hinternal : admitted = none) (hfalls : FallsBack before t' r m)
  | correction (r : Run) (t : Task) (b : DeliveryBinding) (hold : old = some (r, r))
      (hr : isLive r.state = false) (ht : before = some t) (hb : t.delivery = some b)
      (hrun : b.runId = r.runId) (hnew : b.correctionRunId = none)
      (hsource : m.requestSource = .deliveryCorrection) (hid : m.requestId = "delivery:" ++ r.runId)
      (hdesired : t'.desiredRevision = none) (hclosed : t'.closedAt = none)
      (hopen : before.bind (·.closedAt) = none)
      (hdelivery : t'.delivery = some { b with correctionRunId := some m.runId })
      (hinternal : admitted = none) (hcorrects : Corrects t' r m)
  | retry (r r' : Run) (t : Task) (hold : old = some (r, r')) (hr : isLive r.state = true)
      (ht : before = some t) (hsource : m.requestSource = .autoRetry)
      (hid : m.requestId = "retry:" ++ r.runId) (hdesired : t'.desiredRevision = t.desiredRevision)
      (hclosed : t'.closedAt = t.closedAt) (hdelivery : t'.delivery = t.delivery)
      (hkey : m.sourceRevision.map (·.key) = r.sourceRevision.map (·.key))
      (hrevision : t.closedAt = none → ∀ desired ∈ t.desiredRevision, r.sourceRevision = none ∨
        r.sourceRevision.map (·.key) = some desired.key)
      (hinternal : admitted = none) (hretries : Retries t t' r r' m)
  | supersede (r r' : Run) (t : Task) (desired : WorkRevision) (hold : old = some (r, r'))
      (hr : isLive r.state = true) (ht : before = some t)
      (htd : t.desiredRevision = some desired) (hsome : r.sourceRevision.isSome = true)
      (hkey : r.sourceRevision.map (·.key) ≠ some desired.key)
      (hsource : m.requestSource = .caller) (hid : m.requestId = desired.key)
      (hrevision : m.sourceRevision = some desired) (hdesired : t'.desiredRevision = some desired)
      (hopen : t.closedAt = none) (hclosed : t'.closedAt = none)
      (hdelivery : t'.delivery = t.delivery) (hinternal : admitted = none)
      (hsupersedes : Supersedes t t' r m)

theorem SameSource.refl (issue : Option TrackerIssue) : SameSource issue issue :=
  fun i hi => ⟨i, hi, rfl⟩

theorem SameSource.kept {copied before after : Option TrackerIssue}
    (h : SameSource copied before) (hkept : IssueKept before after) : SameSource copied after := by
  rcases hkept with rfl | ⟨issue, rfl, hidentity⟩
  · exact h
  · intro i hi
    obtain ⟨j, hj, hij⟩ := h i hi
    rw [Option.mem_def.1 hj] at hidentity
    simp only [issueIdentityChanges, decide_eq_false_iff_not, not_not] at hidentity
    exact ⟨issue, rfl, hidentity.symm.trans hij⟩

/-! ### Effects -/

/-- What an accepted decision did to its task and its runs.  `admitted` is the identity a request
transaction found unused; `overrun` is what must hold for a mint to be dropped.  The first index is
the stored run that the decision may rewrite. -/
inductive Effect (label : Step) (now : Time) (admitted : Option (RequestSource × String))
    (overrun : Prop) : Option Run → Option Task → Decision → Prop where
  | touch {subject : Option Run} {t t' : Task} (h : Touched label t t')
      (hkept : Kept label (some t) t') :
      Effect label now admitted overrun subject (some t) { task := t' }
  | rewrite {t t' : Task} {r r' : Run} {outbox : List OutboxEntry} (hmove : Move label now r r')
      (hlive : isLive r'.state = isLive r.state) (htask : Rewritten t t' r r')
      (hout : ∀ e ∈ outbox, Emission (some t) t' (some (r, r')) [] e)
      (hnodup : (outbox.map (·.entryId)).Nodup) (hkept : Kept label (some t) t') :
      Effect label now admitted overrun (some r) (some t) { task := t', run := some r', outbox }
  | settle {t t' : Task} {r r' : Run} {outbox : List OutboxEntry} (hmove : Move label now r r')
      (hr : isLive r.state = true) (hr' : isLive r'.state = false) (htask : SettledOnly t t' r r')
      (hout : ∀ e ∈ outbox, Emission (some t) t' (some (r, r')) [] e)
      (hnodup : (outbox.map (·.entryId)).Nodup) (hinternal : admitted = none)
      (hkept : Kept label (some t) t') :
      Effect label now admitted overrun (some r) (some t) { task := t', run := some r', outbox }
  | mint {subject : Option Run} {before : Option Task} {d : Decision} (old : Option (Run × Run))
      (dropped : Option Run)
      (m : Run) (hwrites : ∀ x, x ∈ d.writes ↔ (∃ r, old = some (r, x)) ∨ x = m)
      (hmove : ∀ r r', old = some (r, r') → subject = some r ∧ Move label now r r' ∧
        isLive r'.state = false ∧ taskKey r.task = taskKey m.task)
      (hkey : ∀ t ∈ before, taskKey t.task = taskKey m.task)
      (hfirst : before = none → label.requestedKey = some (taskKey m.task))
      (hfree : ∀ t ∈ before, ∀ id ∈ t.activeRunId, ∃ r r', old = some (r, r') ∧ r.runId = id)
      (hminted : Minted before dropped.toList.length d.task m)
      (hdropped : ∀ x ∈ dropped, x.task = m.task ∧
        x.runId = runIdOf (taskKey m.task) (generations before + 1) ∧ overrun)
      (horigin : Origin admitted before old d.task m)
      (hout : ∀ e ∈ d.outbox, Emission before d.task old (dropped.toList ++ [m]) e)
      (hnodup : (d.outbox.map (·.entryId)).Nodup)
      (hdispatch : ∃ e ∈ d.outbox, About e .dispatch m)
      (hkept : Kept label before d.task) (hcreated : m.createdAt = now) :
      Effect label now admitted overrun subject before d

/-- A decision names each of its entries once. -/
theorem Effect.nodup {label : Step} {now : Time} {admitted : Option (RequestSource × String)}
    {overrun : Prop} {subject : Option Run} {before : Option Task} {d : Decision}
    (h : Effect label now admitted overrun subject before d) :
    (d.outbox.map (·.entryId)).Nodup := by
  cases h with
  | touch => exact List.nodup_nil
  | rewrite _ _ _ _ hnodup => exact hnodup
  | settle _ _ _ _ _ hnodup => exact hnodup
  | mint _ _ _ _ _ _ _ _ _ _ _ _ hnodup => exact hnodup

theorem Effect.kept {label : Step} {now : Time} {admitted : Option (RequestSource × String)}
    {overrun : Prop} {subject : Option Run} {before : Option Task} {d : Decision}
    (h : Effect label now admitted overrun subject before d) : Kept label before d.task := by
  cases h with
  | touch _ h => exact h
  | rewrite _ _ _ _ _ h => exact h
  | settle _ _ _ _ _ _ _ h => exact h
  | mint _ _ _ _ _ _ _ _ _ _ _ _ _ _ h => exact h

/-- Every emission is about some run. -/
theorem Emission.about {before : Option Task} {after : Task} {old : Option (Run × Run)}
    {dispatched : List Run} {e : OutboxEntry} (h : Emission before after old dispatched e) :
    ∃ tag r, About e tag r := by
  cases h with
  | dispatch m _ h => exact ⟨_, m, h⟩
  | settled _ r _ _ _ _ _ h => exact ⟨_, r, h⟩
  | delivered r _ _ _ _ _ h => exact ⟨_, r, h⟩
  | merged r _ _ _ _ _ _ _ _ _ _ h => exact ⟨_, r, h⟩
  | started r _ _ _ _ _ _ _ _ _ _ _ _ _ h => exact ⟨_, r, h⟩

theorem Effect.about {label : Step} {now : Time} {admitted : Option (RequestSource × String)}
    {overrun : Prop} {subject : Option Run} {before : Option Task} {d : Decision}
    (h : Effect label now admitted overrun subject before d) {e : OutboxEntry} (he : e ∈ d.outbox) :
    ∃ tag r, About e tag r := by
  cases h with
  | touch => cases he
  | rewrite _ _ _ hout => exact (hout e he).about
  | settle _ _ _ _ hout => exact (hout e he).about
  | mint _ _ _ _ _ _ _ _ _ _ _ hout => exact (hout e he).about

/-- A decision stays within its task. -/
theorem Effect.taskKey_eq {label : Step} {now : Time} {admitted : Option (RequestSource × String)}
    {overrun : Prop} {subject : Option Run} {before : Option Task} {d : Decision}
    (h : Effect label now admitted overrun subject before d) :
    (∀ t ∈ before, taskKey d.task.task = taskKey t.task) ∧
      (before = none → label.requestedKey = some (taskKey d.task.task)) := by
  cases h with
  | touch h => exact ⟨by rintro _ ⟨rfl⟩; rw [h.task], nofun⟩
  | rewrite _ _ h => exact ⟨by rintro _ ⟨rfl⟩; rw [h.task], nofun⟩
  | settle _ _ _ h => exact ⟨by rintro _ ⟨rfl⟩; rw [h.task], nofun⟩
  | mint _ _ m _ _ hkey hfirst _ hminted =>
    exact ⟨fun t ht => hminted.key.trans (hkey t ht).symm,
      fun hnone => by rw [hminted.key, hfirst hnone]⟩

end AgentLcars
