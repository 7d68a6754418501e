import AgentLcars.Lib.Failing
import AgentLcars.Effect

/-!
# Effects of the decision functions

One inversion lemma for each decision function: what an accepted answer looks like and under which
guards it was given.  Callers cite these and never unfold the function again.
-/

namespace AgentLcars

/-! ### Outcomes -/

export Failing (bind_eq_ok bind_eq_error)

theorem toOption_eq_ok {outcome : Outcome} {d : Decision} (h : outcome.toOption = some d) :
    outcome = .ok d := by
  cases outcome with
  | error stop => cases h
  | ok decision => exact congrArg Except.ok (Option.some.inj h)

@[simp] theorem refused_ne_ok {α : Type} {reason : Reason} {run : Option Run} {a : α} :
    (refused reason run : Except Stop α) ≠ .ok a := nofun

theorem ite_refused_eq_ok {α : Type} {p : Prop} [Decidable p] {reason : Reason} {run : Option Run}
    {x : Except Stop α} {a : α} : (if p then refused reason run else x) = .ok a ↔ ¬p ∧ x = .ok a := by
  by_cases hp : p <;> simp [hp]

@[simp] theorem decidedRun_eq_ok {d : Decision} {r : Run} :
    decidedRun d = .ok r ↔ d.run = some r := by
  unfold decidedRun
  cases d.run <;> simp

/-! ### Locks and released tasks -/

theorem releaseLock_eq (task : Task) (runId : String) (now : Time) :
    releaseLock task runId now =
      { task with
        activeRunId := if task.activeRunId = some runId then none else task.activeRunId
        updatedAt := now } := by
  unfold releaseLock
  split_ifs <;> rfl

/-! ### Entries of a settlement -/

/-- Every entry a settlement can emit about its run. -/
def settlementIds (runId : String) : List String :=
  [entryIdOf .outcome runId, entryIdOf .triage runId, entryIdOf .handoffSummary runId] ++
    [entryIdOf .delivery runId, entryIdOf .deliveryOutcome runId]

theorem settlementIds_nodup (runId : String) : (settlementIds runId).Nodup := by
  simp [settlementIds]

theorem dispatch_notMem_settlementIds (runId other : String) :
    entryIdOf .dispatch other ∉ settlementIds runId := by
  simp [settlementIds]

theorem ite_sublist {α : Type} (p : Prop) [Decidable p] (l : List α) :
    (if p then l else []).Sublist l := by
  split_ifs
  · exact List.Sublist.refl l
  · exact List.nil_sublist l

theorem settle_ids (task : Task) (s : Run) (now : Time) :
    ((settle task s now).outbox.map (·.entryId)).Sublist
      [entryIdOf .outcome s.runId, entryIdOf .triage s.runId,
        entryIdOf .handoffSummary s.runId] := by
  have h := ((List.Sublist.refl [outcomeEntry s now]).append
    (ite_sublist (publishesTriage s = true)
      [freshEntry ("triage/" ++ s.runId) .publishTriage s now])).append
    (ite_sublist (parksWithMessage s = true)
      [freshEntry ("handoff-summary/" ++ s.runId) .admitHandoffSummary s now])
  exact h.map (·.entryId)

theorem deliveryOutbox_ids (task : Task) (s : Run) (delivery : DeliveryBinding) (now : Time) :
    ((deliveryOutbox task s delivery now).map (·.entryId)).Sublist
      [entryIdOf .delivery s.runId, entryIdOf .deliveryOutcome s.runId] := by
  unfold deliveryOutbox finalDeliveryOutbox
  split_ifs
  · exact List.nil_sublist _
  · exact List.sublist_cons_of_sublist _ (List.Sublist.refl _)
  · exact List.cons_sublist_cons.2 (List.nil_sublist _)

theorem About.of_frozen {e : OutboxEntry} {tag : EntryTag} {r s : Run} (h : About e tag s)
    (hf : s.frozen = r.frozen) : About e tag r :=
  ⟨by rw [h.entryId, runId_of_frozen hf], by rw [h.runId, runId_of_frozen hf],
    by rw [h.task, task_of_frozen hf], h.kind, h.state, h.attempts, h.untried⟩

/-- The entry of an emitter. -/
theorem about_freshEntry (tag : EntryTag) (r : Run) (now : Time) :
    About (freshEntry (entryIdOf tag r.runId) tag.kind r now) tag r :=
  ⟨rfl, rfl, rfl, rfl, rfl, rfl, rfl, rfl, fun _ => rfl⟩

/-- The dispatch entry that goes with a mint. -/
theorem about_dispatch (m : Run) (now : Time) :
    About (freshEntry ("dispatch/" ++ m.runId) .dispatchRun m now) .dispatch m :=
  about_freshEntry .dispatch m now

section Emission

variable {before : Option Task} {after : Task} {dispatched : List Run} {r r' s : Run}
  (hf : s.frozen = r.frozen) (hr : isLive r.state = true) (hr' : isLive r'.state = false)
include hf hr hr'

theorem emission_settle (task : Task) (now : Time) :
    ∀ e ∈ (settle task s now).outbox, Emission before after (some (r, r')) dispatched e := by
  intro e he
  simp only [settle, List.mem_append, List.mem_ite_nil_right, List.mem_singleton] at he
  rcases he with (rfl | ⟨-, rfl⟩) | ⟨-, rfl⟩
  · exact .settled .outcome r r' rfl hr hr' (.inl rfl) ((about_freshEntry .outcome s now).of_frozen hf)
  · exact .settled .triage r r' rfl hr hr' (.inr (.inl rfl)) ((about_freshEntry .triage s now).of_frozen hf)
  · exact .settled .handoffSummary r r' rfl hr hr' (.inr (.inr (.inl rfl)))
      ((about_freshEntry .handoffSummary s now).of_frozen hf)

theorem emission_deliveryOutbox (task : Task) (delivery : DeliveryBinding) (now : Time)
    (hd : after.delivery = some delivery) :
    ∀ e ∈ deliveryOutbox task s delivery now, Emission before after (some (r, r')) dispatched e := by
  intro e he
  unfold deliveryOutbox finalDeliveryOutbox at he
  split_ifs at he with h1 h2
  · cases he
  · obtain rfl := List.mem_singleton.1 he
    refine .delivered r r' rfl hr hr' ?_ ((about_freshEntry .deliveryOutcome s now).of_frozen hf)
    simp [deliveryWaiting, hd, h1.2]
  · obtain rfl := List.mem_singleton.1 he
    exact .settled .delivery r r' rfl hr hr' (.inr (.inr (.inr rfl)))
      (About.of_frozen ⟨rfl, rfl, rfl, rfl, rfl, rfl, rfl, rfl, fun h => absurd rfl h⟩ hf)

end Emission

/-! ### Minting -/

theorem fresh_mintedRun (input : MintInput) : Fresh (mintedRun input) :=
  ⟨rfl, rfl, rfl, rfl, rfl, rfl, rfl, rfl, _, _, rfl⟩

theorem minted_mintRun {input : MintInput} {before : Option Task} {skipped : Nat}
    (hkey : taskKey input.task.task = taskKey input.taskId)
    (hcount : input.task.runCount = generations before + skipped)
    (hissue : SameSource input.issue input.task.issue)
    (hkept : IssueKept (before.bind (·.issue)) input.task.issue) :
    Minted before skipped (mintRun input).task (mintedRun input) where
  fresh := fresh_mintedRun input
  key := hkey
  runId := rfl
  lock := rfl
  count := by simp [mintRun, hcount]
  issue := hissue
  issueKept := hkept

/-- What a request that mints was told and has found. -/
theorem requestRun_ok {input : RequestRunInput} {d : Decision} (h : requestRun input = .ok d) :
    ∃ work, (input.task.map (·.work)).or input.work = some work ∧
      (input.activeRun.filter fun run => isLive run.state) = none ∧
      input.task.bind (·.closedAt) = none ∧
      (∀ t ∈ input.task, deliveryWaiting t = true → input.passesDelivery t = true) ∧
      issueIdentityChanges input.issue.join (input.task.bind (·.issue)) = false ∧
      d = mintRun (requestMint input
        (requestedTask input work (newerIssue input.issue.join (input.task.bind (·.issue))))
        (newerIssue input.issue.join (input.task.bind (·.issue)))) := by
  unfold requestRun at h
  split at h
  · split_ifs at h <;> simp at h
  · rename_i hidle
    split_ifs at h with hclosed hbusy
    · simp at h
    · simp at h
    · split at h
      · simp at h
      · rename_i work hwork
        dsimp only at h
        split_ifs at h with hissue
        · refine ⟨work, hwork, hidle, by simpa using hclosed, ?_, by simpa using hissue,
            (Except.ok.inj h).symm⟩
          intro t ht hw
          by_contra hp
          exact hbusy (by simp [Option.mem_def.1 ht, hw, hp])

theorem newerIssue_kept {given previous : Option TrackerIssue}
    (h : issueIdentityChanges given previous = false) : IssueKept previous (newerIssue given previous) := by
  unfold newerIssue
  split
  · split_ifs
    · exact .inr ⟨_, rfl, h⟩
    · exact .inl rfl
  · exact .inr ⟨_, rfl, rfl⟩
  · exact .inl rfl

theorem sameSource_newer {given previous : Option TrackerIssue}
    (h : issueIdentityChanges given previous = false) :
    SameSource given (newerIssue given previous) := by
  unfold newerIssue
  split
  · split_ifs
    · exact SameSource.refl _
    · rintro _ ⟨rfl⟩
      simp only [issueIdentityChanges, decide_eq_false_iff_not, not_not] at h
      exact ⟨_, rfl, h⟩
  · exact SameSource.refl _
  · intro i hi
    cases hi

/-- The run a request mints, and the task document it leaves. -/
structure Requested (input : RequestRunInput) (d : Decision) (m : Run) : Prop where
  form : d = { task := d.task, run := some m
               outbox := [freshEntry ("dispatch/" ++ m.runId) .dispatchRun m input.now] }
  minted : Minted input.task 0 d.task m
  task : m.task = input.taskId
  source : m.requestSource = input.requestSource.getD .caller
  requestId : m.requestId = input.requestId
  revision : m.sourceRevision = input.sourceRevision
  desired : d.task.desiredRevision = input.sourceRevision
  closed : d.task.closedAt = none
  wasOpen : input.task.bind (·.closedAt) = none
  delivery : d.task.delivery = input.task.bind (·.delivery)
  idle : (input.activeRun.filter fun run => isLive run.state) = none
  params : m.params = input.params
  pipeline : m.pipeline = input.pipeline
  policy : m.providerFallback = mintedFallback input.providerFallback m.pipeline m.runId
  attempt : m.revisionAttempt = input.sourceRevision.map fun _ => input.revisionAttempt.getD 1
  observed : d.task.sourceObservedAt = input.sourceRevision.bind (·.observedAt)
  lost : d.task.consecutiveLost = (input.task.map (·.consecutiveLost)).getD 0
  passes : ∀ t ∈ input.task, deliveryWaiting t = true → input.passesDelivery t = true
  routing : d.task.providerRouting = input.task.bind (·.providerRouting)
  work : (input.task.map (·.work)).or input.work = some d.task.work
  created : m.createdAt = input.now

theorem requested_of_ok {input : RequestRunInput} {d : Decision} (h : requestRun input = .ok d) :
    ∃ m, Requested input d m := by
  obtain ⟨work, hwork, hidle, hopen, hpasses, hissue, rfl⟩ := requestRun_ok h
  refine ⟨mintedRun (requestMint input _ _), ⟨rfl, minted_mintRun rfl rfl ?_ ?_, rfl, rfl, rfl, rfl,
    rfl, rfl, hopen, rfl, hidle, rfl, rfl, rfl, rfl, rfl, rfl, hpasses, rfl,
    hwork, rfl⟩⟩
  · show SameSource (input.issue.getD _) (newerIssue _ _)
    cases hgiven : input.issue with
    | none => exact SameSource.refl _
    | some given =>
      rw [hgiven] at hissue
      exact sameSource_newer hissue
  · exact newerIssue_kept hissue

/-- A run that passed the delivery check carries the parameters it was passed for. -/
theorem Requested.carries {input : RequestRunInput} {d : Decision} {m : Run}
    (h : Requested input d m) (hwaiting : deliveryWaiting d.task = true) :
    isReply m.params = true ∨
      (m.requestSource ≠ .caller ∧ succeedsDelivery m.params d.task = true) := by
  have hbefore := h.delivery
  cases ht : input.task with
  | none => simp [deliveryWaiting, hbefore, ht] at hwaiting
  | some t =>
    have hsame : d.task.delivery = t.delivery := by simpa [ht] using hbefore
    have hpasses := h.passes t ht (by simpa [deliveryWaiting, hsame] using hwaiting)
    unfold RequestRunInput.passesDelivery RequestRunInput.param at hpasses
    rw [decide_eq_true_eq] at hpasses
    simp only [isReply, succeedsDelivery, decide_eq_true_eq, h.params, hsame]
    rcases hpasses with hreply | ⟨hsome, hsource, hnames⟩
    · exact .inl hreply
    · refine .inr ⟨?_, hnames⟩
      rw [h.source]
      obtain ⟨source, hgiven⟩ := Option.ne_none_iff_exists'.1 hsome
      rw [hgiven] at hsource ⊢
      exact fun hcaller => hsource (congrArg some hcaller)

/-- A run that a request with a policy of its own asked for. -/
theorem Requested.asked {input : RequestRunInput} {d : Decision} {m : Run} {before : Option Task}
    (h : Requested input d m) (policy : Option ProviderFallbackRequest)
    (hpolicy : input.providerFallback = policy.map .request) (hattempt : input.revisionAttempt = none)
    (hfresher : ∀ t ∈ before, ∀ observed ∈ input.sourceRevision.bind (·.observedAt),
      observesOlder t.sourceObservedAt (some observed) = false) :
    Asked before d.task m where
  carries := h.carries
  policy := ⟨policy, by rw [h.policy, hpolicy]⟩
  attempt := by rw [h.attempt, h.revision, hattempt]; rfl
  observed := by rw [h.observed, h.revision]
  fresher := by rw [h.observed]; exact hfresher

/-- A mint on a released copy of the task is a mint on the task. -/
theorem Minted.rebase {t t₁ t' : Task} {skipped more : Nat} {m : Run}
    (h : Minted (some t₁) skipped t' m) (hcount : t₁.runCount = t.runCount + more)
    (hissue : t₁.issue = t.issue) : Minted (some t) (more + skipped) t' m where
  fresh := h.fresh
  key := h.key
  runId := h.runId
  lock := h.lock
  count := by
    have := h.count
    simp only [generations, Option.map_some, Option.getD_some] at this ⊢
    omega
  issue := h.issue
  issueKept := by simpa [hissue] using h.issueKept

theorem nodup_ids {ids : List String} (runId : String) (minted : List String)
    (h : ids.Sublist (settlementIds runId ++ minted.map (entryIdOf .dispatch)))
    (hm : minted.Nodup) : ids.Nodup := by
  refine List.Nodup.sublist h (List.Nodup.append (settlementIds_nodup runId) ?_ ?_)
  · exact hm.map fun a b hab => (entryIdOf_inj.1 hab).2
  · intro id hid hdispatch
    obtain ⟨other, -, rfl⟩ := List.mem_map.1 hdispatch
    exact dispatch_notMem_settlementIds runId other hid

/-! ### A settlement and what follows it -/

/-- A decision that settles a lock holder and nothing else yet.  `s` is the run as the decision
function settles it, `r'` the run as it is stored. -/
structure Settles (label : Step) (now : Time) (t : Task) (r s r' : Run) (d : Decision) : Prop where
  run : d.run = some s
  alone : d.additionalRuns = []
  move : Move label now r r'
  live : isLive r.state = true
  terminal : isLive r'.state = false
  frozen : s.frozen = r.frozen
  state : r'.state = s.state
  result : r'.result = s.result
  key : taskKey t.task = taskKey r.task
  source : SameSource r.issue t.issue
  lock : t.activeRunId = some r.runId
  task : d.task.task = t.task
  released : d.task.activeRunId = none
  count : d.task.runCount = t.runCount
  desired : d.task.desiredRevision = t.desiredRevision
  closed : d.task.closedAt = t.closedAt
  issue : d.task.issue = t.issue
  delivery : d.task.delivery = t.delivery
  observed : d.task.sourceObservedAt = t.sourceObservedAt
  routing : d.task.providerRouting = t.providerRouting
  work : d.task.work = t.work
  ids : (d.outbox.map (·.entryId)).Sublist (settlementIds r.runId)
  out : ∀ after dispatched, ∀ e ∈ d.outbox, Emission (some t) after (some (r, r')) dispatched e

section Settles

variable {label : Step} {now : Time} {admitted : Option (RequestSource × String)}
  {overrun : Prop} {t : Task} {r s r' : Run} {d : Decision}

/-- The settlement stands alone. -/
theorem Settles.effect (h : Settles label now t r s r' d)
    (hsuccessor : t.closedAt = none → ∀ desired ∈ t.desiredRevision,
      r.sourceRevision.map (·.key) = some desired.key ∨ r.sourceRevision = none ∨
        IgnoresRevision r r') (hgave : r'.state = .lost → GaveUp d.task r') :
    Effect label now none overrun (some r) (some t) { d with run := some r' } := by
  have hform : ({ d with run := some r' } : Decision) =
      { task := d.task, run := some r', outbox := d.outbox } := by
    simp [h.alone]
  rw [hform]
  refine .settle h.move h.live h.terminal ⟨h.task, ?_, h.count, .inl h.desired, .inl h.closed,
    h.issue, .inl h.delivery, ?_, .inl h.observed, hgave⟩ (h.out _ _)
    ((settlementIds_nodup r.runId).sublist h.ids) rfl
    ⟨.inr h.routing, .inr (congrArg some h.work.symm)⟩
  · rw [h.released, if_pos h.lock]
  · intro hopen desired hd
    exact hsuccessor (h.closed ▸ hopen) desired (h.desired ▸ hd)

/-- The settlement is followed by one mint. -/
theorem Settles.effect_followedBy (h : Settles label now t r s r' d) {next : Decision} {m : Run}
    (hnext : next = { task := next.task, run := some m
                      outbox := [freshEntry ("dispatch/" ++ m.runId) .dispatchRun m now] })
    (hminted : Minted (some t) 0 next.task m) (hkey : taskKey r.task = taskKey m.task)
    (horigin : Origin admitted (some t) (some (r, r')) next.task m)
    (hrouting : next.task.providerRouting = t.providerRouting) (hwork : next.task.work = t.work)
    (hcreated : m.createdAt = now) :
    Effect label now admitted overrun (some r) (some t) { d.followedBy next with run := some r' } := by
  have hout : next.outbox = [freshEntry ("dispatch/" ++ m.runId) .dispatchRun m now] := by
    rw [hnext]
  have hrun : next.run = some m := by rw [hnext]
  refine .mint (some (r, r')) none m ?_ ?_ ?_ nofun ?_ hminted (by simp) horigin ?_ ?_
    ⟨_, ?_, about_dispatch m now⟩ ⟨.inr hrouting, .inr (congrArg some hwork.symm)⟩ hcreated
  · intro x
    simp [Decision.writes, Decision.followedBy, hrun, eq_comm]
  · rintro _ _ ⟨rfl, rfl⟩
    exact ⟨rfl, h.move, h.terminal, hkey⟩
  · rintro _ ⟨rfl⟩
    exact h.key.trans hkey
  · rintro _ ⟨rfl⟩ id hid
    exact ⟨r, r', rfl, Option.some.inj (h.lock.symm.trans hid)⟩
  · intro e he
    rcases List.mem_append.1 he with he | he
    · exact h.out _ _ e he
    · rw [hout, List.mem_singleton] at he
      exact .dispatch m (by simp) (he ▸ about_dispatch _ now)
  · refine nodup_ids r.runId [m.runId] ?_ (List.nodup_singleton _)
    show ((d.outbox ++ next.outbox).map (·.entryId)).Sublist _
    rw [hout, List.map_append]
    exact h.ids.append (List.Sublist.refl _)
  · exact List.mem_append.2 (.inr (by rw [hout]; exact List.mem_singleton_self _))

/-- The settlement is followed by a mint that is dropped, and by a second one. -/
theorem Settles.effect_overrun (h : Settles label now t r s r' d) {first next : Decision}
    {x m : Run}
    (hfirst : first = { task := first.task, run := some x
                        outbox := [freshEntry ("dispatch/" ++ x.runId) .dispatchRun x now] })
    (hx : Minted (some t) 0 first.task x) (hxtask : x.task = m.task)
    (hnext : next = { task := next.task, run := some m
                      outbox := [freshEntry ("dispatch/" ++ m.runId) .dispatchRun m now] })
    (hminted : Minted (some t) 1 next.task m) (hkey : taskKey r.task = taskKey m.task)
    (hne : x.runId ≠ m.runId) (hoverrun : overrun)
    (horigin : Origin admitted (some t) (some (r, r')) next.task m)
    (hrouting : next.task.providerRouting = t.providerRouting) (hwork : next.task.work = t.work)
    (hcreated : m.createdAt = now) :
    Effect label now admitted overrun (some r) (some t)
      { (d.followedBy first).followedBy next with run := some r' } := by
  have hout : next.outbox = [freshEntry ("dispatch/" ++ m.runId) .dispatchRun m now] := by
    rw [hnext]
  have hxout : first.outbox = [freshEntry ("dispatch/" ++ x.runId) .dispatchRun x now] := by
    rw [hfirst]
  have hrun : next.run = some m := by rw [hnext]
  refine .mint (some (r, r')) (some x) m ?_ ?_ ?_ nofun ?_ hminted ?_ horigin ?_ ?_
    ⟨_, ?_, about_dispatch m now⟩ ⟨.inr hrouting, .inr (congrArg some hwork.symm)⟩ hcreated
  · intro y
    simp [Decision.writes, Decision.followedBy, hrun, eq_comm]
  · rintro _ _ ⟨rfl, rfl⟩
    exact ⟨rfl, h.move, h.terminal, hkey⟩
  · rintro _ ⟨rfl⟩
    exact h.key.trans hkey
  · rintro _ ⟨rfl⟩ id hid
    exact ⟨r, r', rfl, Option.some.inj (h.lock.symm.trans hid)⟩
  · rintro _ ⟨rfl⟩
    exact ⟨hxtask, by rw [hx.runId, hx.count, hxtask], hoverrun⟩
  · intro e he
    rcases List.mem_append.1 he with he | he
    · rcases List.mem_append.1 he with he | he
      · exact h.out _ _ e he
      · rw [hxout, List.mem_singleton] at he
        exact .dispatch x (by simp) (he ▸ about_dispatch _ now)
    · rw [hout, List.mem_singleton] at he
      exact .dispatch m (by simp) (he ▸ about_dispatch _ now)
  · refine nodup_ids r.runId [x.runId, m.runId] ?_ (by simp [hne])
    show ((d.outbox ++ first.outbox ++ next.outbox).map (·.entryId)).Sublist _
    rw [hout, hxout, List.map_append, List.map_append, List.append_assoc]
    exact h.ids.append (List.Sublist.refl _)
  · exact List.mem_append.2 (.inr (by rw [hout]; exact List.mem_singleton_self _))

end Settles

/-! ### Cancellations -/

/-- A cancellation that is granted. -/
theorem cancelRun_ok {now : Time} {t : Task} {r : Run} {note : Option String}
    {intervention : Option OperationalIntervention} {nativeTask : Option String} {c : Decision}
    (h : cancelRun now t r note intervention nativeTask = .ok c) :
    isLive r.state = true ∧ r.credentialOperation = none ∧
      ∃ closedAt, (closedAt = t.closedAt ∨ closedAt = some now) ∧
        (nativeTask = none → closedAt = t.closedAt) ∧
        c = settle
          { t with
            activeRunId := if t.activeRunId = some r.runId then none else t.activeRunId
            consecutiveLost := 0
            closedAt
            updatedAt := now }
          (canceledRun now r note intervention) now := by
  unfold cancelRun at h
  split_ifs at h with hlive hop hnative hbusy hclose
  all_goals try exact absurd h refused_ne_ok
  all_goals
    dsimp only at h
    rw [releaseLock_eq] at h
    refine ⟨by simpa using hlive, by simpa using hop, ?_⟩
  · refine ⟨some now, .inr rfl, fun hn => ?_, (Except.ok.inj h).symm⟩
    simp [hn] at hclose
  · exact ⟨t.closedAt, .inl rfl, fun _ => rfl, (Except.ok.inj h).symm⟩

theorem cancelRun_run {now : Time} {t : Task} {r : Run} {note : Option String}
    {intervention : Option OperationalIntervention} {nativeTask : Option String} {c : Decision}
    (h : cancelRun now t r note intervention nativeTask = .ok c) :
    c.run = some (canceledRun now r note intervention) := by
  obtain ⟨-, -, _, -, -, rfl⟩ := cancelRun_ok h
  rfl

section Cancel

variable {label : Step} {now : Time} {admitted : Option (RequestSource × String)}
  {overrun : Prop}

theorem owesCleanup_of_unclaimed {r : Run} (h : r.queueState ≠ some .claimed) :
    owesCleanup r = false := by
  simp [owesCleanup, h]

/-- A cancellation, as it is stored. -/
theorem move_cancel {r r' : Run} (hlabel : label.cancels = true) (hlive : isLive r.state = true)
    (hop : r.credentialOperation = none) (note : Option String)
    (intervention : Option OperationalIntervention)
    (hc : Cleaned label.cleanupId r (canceledRun now r note intervention) r') : Move label now r r' :=
  .settle hlive (.inl hop) (.cancel note intervention hlabel) hc

/-- A plain cancellation, of a task whose desired revision may have been dropped first. -/
theorem effect_cancel {t t₀ : Task} {r r' : Run} {note : Option String}
    {intervention : Option OperationalIntervention} {nativeTask : Option String} {c : Decision}
    (hlabel : label.cancels = true)
    (hc : cancelRun now t r note intervention nativeTask = .ok c)
    (ht : t = t₀ ∨ ∃ observed updated, t = { t₀ with
      desiredRevision := none, sourceObservedAt := observed, updatedAt := updated } ∧
      ObservedOn t₀.sourceObservedAt observed)
    (hclean : Cleaned label.cleanupId r (canceledRun now r note intervention) r') :
    Effect label now none overrun (some r) (some t₀) { c with run := some r' } := by
  obtain ⟨hlive, hop, closedAt, hclosed, -, rfl⟩ := cancelRun_ok hc
  have hterminal : isLive r'.state = false := by rw [hclean.state]; rfl
  have hids := (settle_ids t (canceledRun now r note intervention) now).trans
    (List.sublist_append_left _ [entryIdOf .delivery r.runId, entryIdOf .deliveryOutcome r.runId])
  have hfrozen : (canceledRun now r note intervention).frozen = r.frozen := rfl
  refine .settle (move_cancel hlabel hlive hop note intervention hclean) hlive hterminal ?_
    (emission_settle hfrozen hlive hterminal t now) ((settlementIds_nodup r.runId).sublist hids) rfl
    ⟨.inr ?_, .inr ?_⟩
  rotate_left
  · rcases ht with rfl | ⟨_, _, rfl, -⟩ <;> rfl
  · rcases ht with rfl | ⟨_, _, rfl, -⟩ <;> rfl
  have hignores : IgnoresRevision r r' := .inl (by rw [hclean.state]; rfl)
  have hcanceled : ∀ {t' : Task}, r'.state = .lost → GaveUp t' r' := fun hlost => by
    cases hclean.state.symm.trans hlost
  rcases ht with rfl | ⟨observed, updated, rfl, hobserved⟩
  · exact ⟨rfl, rfl, rfl, .inl rfl, hclosed.imp_right (by rintro rfl; rfl), rfl, .inl rfl,
      fun _ _ _ => .inr (.inr hignores), .inl rfl, hcanceled⟩
  · exact ⟨rfl, rfl, rfl, .inr rfl, hclosed.imp_right (by rintro rfl; rfl), rfl, .inl rfl,
      fun _ _ _ => .inr (.inr hignores), hobserved, hcanceled⟩

/-- A request that cancels the unclaimed lock holder and mints in its place. -/
theorem effect_replace {t t₀ : Task} {r : Run} {note : Option String} {c n : Decision}
    (req : RequestRunInput) {outbox : List OutboxEntry} (hlabel : label.cancels = true)
    (hnow : req.now = now)
    (ht : ∃ desired observed updated, t = { t₀ with
      desiredRevision := desired, sourceObservedAt := observed, updatedAt := updated })
    (hlock : t₀.activeRunId = some r.runId) (hkey : taskKey r.task = taskKey req.taskId)
    (htaskKey : taskKey t₀.task = taskKey req.taskId)
    (hunclaimed : r.queueState ≠ some .claimed) (hc : cancelRun now t r note = .ok c)
    (hn : requestRun { req with task := some c.task, activeRun := none } = .ok n)
    (hadmitted : admitted = some (req.requestSource.getD .caller, req.requestId))
    (policy : Option ProviderFallbackRequest) (hpolicy : req.providerFallback = policy.map .request)
    (hattempt : req.revisionAttempt = none)
    (hfresher : ∀ observed ∈ req.sourceRevision.bind (·.observedAt),
      observesOlder t₀.sourceObservedAt (some observed) = false)
    (hout : outbox = n.outbox ∨ outbox = c.outbox ++ n.outbox) :
    Effect label now admitted overrun (some r) (some t₀)
      { n with additionalRuns := [canceledRun now r note none], outbox } := by
  obtain ⟨hlive, hop, closedAt, -, hclosed, rfl⟩ := cancelRun_ok hc
  obtain rfl := hclosed rfl
  obtain ⟨desired, observed, updated, rfl⟩ := ht
  obtain ⟨m, hm⟩ := requested_of_ok hn
  have hnout : n.outbox = [freshEntry ("dispatch/" ++ m.runId) .dispatchRun m now] := by
    rw [hm.form, ← hnow]
  have hnrun : n.run = some m := by rw [hm.form]
  have hfrozen : (canceledRun now r note none).frozen = r.frozen := rfl
  have hids := (settle_ids t₀ (canceledRun now r note none) now).trans
    (List.sublist_append_left _ [entryIdOf .delivery r.runId, entryIdOf .deliveryOutcome r.runId])
  refine .mint (some (r, canceledRun now r note none)) none m ?_ ?_ ?_ nofun ?_ ?_ (by simp) ?_ ?_ ?_
    ⟨_, ?_, about_dispatch m now⟩ ⟨.inr hm.routing, .inr hm.work⟩ (hm.created.trans hnow)
  · intro x
    simp [Decision.writes, hnrun, or_comm, eq_comm]
  · rintro _ _ ⟨rfl, rfl⟩
    refine ⟨rfl, move_cancel hlabel hlive hop note none (.free (owesCleanup_of_unclaimed hunclaimed)),
      rfl, ?_⟩
    rw [hkey, hm.task]
  · rintro _ ⟨rfl⟩
    rw [htaskKey, hm.task]
  · rintro _ ⟨rfl⟩ id hid
    exact ⟨r, _, rfl, Option.some.inj (hlock.symm.trans hid)⟩
  · exact hm.minted.rebase rfl rfl
  · refine .request ?_ (hm.desired.trans hm.revision.symm) hm.closed hm.wasOpen hm.delivery
      (hm.asked policy hpolicy hattempt ?_) (by rintro _ _ ⟨rfl, rfl⟩; exact hlive)
    · rw [hadmitted, hm.source, hm.requestId]
    · rintro _ ⟨rfl⟩
      exact hfresher
  · intro e he
    rcases hout with rfl | rfl
    · rw [hnout, List.mem_singleton] at he
      exact .dispatch m (by simp) (he ▸ about_dispatch _ now)
    · rcases List.mem_append.1 he with he | he
      · exact emission_settle hfrozen hlive rfl _ now e he
      · rw [hnout, List.mem_singleton] at he
        exact .dispatch m (by simp) (he ▸ about_dispatch _ now)
  · refine nodup_ids r.runId [m.runId] ?_ (List.nodup_singleton _)
    rcases hout with rfl | rfl
    · rw [hnout]
      exact List.sublist_append_right _ _
    · rw [hnout, List.map_append]
      exact hids.append (List.Sublist.refl _)
  · rcases hout with rfl | rfl
    · rw [hnout]
      exact List.mem_singleton_self _
    · rw [hnout]
      exact List.mem_append.2 (.inr (List.mem_singleton_self _))

end Cancel

/-! ### Source revisions -/

theorem revisionSuccessor_some {d d' : Decision} {s : Run} {now : Time}
    (h : revisionSuccessor d s now = some d') :
    ∃ revision desired superseded, s.sourceRevision = some revision ∧
      d.task.desiredRevision = some desired ∧ d.task.closedAt = none ∧
      superseded = decide (revision.key ≠ desired.key) ∧
      (superseded = false → retriesRevision s = true) ∧
      d' = d.followedBy (mintRun (revisionMint d.task s desired superseded now)) := by
  unfold revisionSuccessor at h
  split at h
  · rename_i revision desired hs hd
    dsimp only at h
    split_ifs at h with hclosed hnone
    refine ⟨revision, desired, _, hs, hd, by simpa using hclosed, rfl, fun hsup => ?_,
      (Option.some.inj h).symm⟩
    by_contra hretry
    exact hnone ⟨by simpa using hsup, hretry⟩
  · cases h

theorem revisionSuccessor_none {d : Decision} {s : Run} {now : Time}
    (h : revisionSuccessor d s now = none) (hopen : d.task.closedAt = none) :
    ∀ desired ∈ d.task.desiredRevision, s.sourceRevision.map (·.key) = some desired.key ∨
      s.sourceRevision = none := by
  intro desired hd
  unfold revisionSuccessor at h
  cases hs : s.sourceRevision with
  | none => exact .inr rfl
  | some revision =>
    rw [hs, Option.mem_def.1 hd] at h
    simp only [hopen, Option.isSome_none, Bool.false_eq_true, if_false] at h
    split_ifs at h with hnone
    refine .inl (congrArg some ?_)
    simpa using hnone.1

section Successors

variable {label : Step} {now : Time}
  {overrun : Prop} {t : Task} {r s r' : Run} {d : Decision}

/-- The successor a settlement owes its revision, as a mint of the task. -/
theorem Settles.minted_revision (h : Settles label now t r s r' d) (desired : WorkRevision)
    (superseded : Bool) :
    Minted (some t) 0 (mintRun (revisionMint d.task s desired superseded now)).task
      (mintedRun (revisionMint d.task s desired superseded now)) := by
  have hmint : Minted (some d.task) 0 (mintRun (revisionMint d.task s desired superseded now)).task
      (mintedRun (revisionMint d.task s desired superseded now)) := by
    refine minted_mintRun ?_ rfl ?_ (.inl rfl)
    · show taskKey d.task.task = taskKey s.task
      rw [h.task, h.key, task_of_frozen h.frozen]
    · show SameSource (if superseded then d.task.issue else s.issue) d.task.issue
      split_ifs
      · exact SameSource.refl _
      · rw [h.issue, issue_of_frozen h.frozen]
        exact h.source
  exact hmint.rebase h.count h.issue

theorem Settles.origin_revision (h : Settles label now t r s r' d) {revision desired : WorkRevision}
    {superseded : Bool} (hs : s.sourceRevision = some revision)
    (hd : d.task.desiredRevision = some desired) (hopen : d.task.closedAt = none)
    (hsup : superseded = decide (revision.key ≠ desired.key))
    (hretry : superseded = false → retriesRevision s = true) :
    Origin none (some t) (some (r, r'))
      (mintRun (revisionMint d.task s desired superseded now)).task
      (mintedRun (revisionMint d.task s desired superseded now)) := by
  have hr : r.sourceRevision = some revision := by rw [← sourceRevision_of_frozen h.frozen, hs]
  have htd : t.desiredRevision = some desired := by rw [← h.desired, hd]
  have htc : t.closedAt = none := by rw [← h.closed, hopen]
  cases superseded with
  | true =>
    have hne : revision.key ≠ desired.key := of_decide_eq_true hsup.symm
    exact .supersede r r' t desired rfl h.live rfl htd (by simp [hr])
      (by simpa [hr] using hne) rfl rfl rfl hd htc hopen h.delivery rfl
      ⟨congrArg Frozen.params h.frozen, rfl, rfl, h.observed⟩
  | false =>
    have heq : revision.key = desired.key := by simpa using hsup.symm
    have hretry := hretry rfl
    simp only [retriesRevision, decide_eq_true_eq] at hretry
    obtain ⟨hfinished, hfailed, hbounded⟩ := hretry
    have hattempt : s.revisionAttempt = r.revisionAttempt := congrArg Frozen.revisionAttempt h.frozen
    refine .retry r r' t rfl h.live rfl rfl ?_ h.desired h.closed h.delivery ?_ ?_ rfl
      ⟨congrArg Frozen.params h.frozen, congrArg Frozen.pipeline h.frozen, .inr ⟨?_, ?_⟩, .inl rfl, ?_, ?_,
        ?_, h.observed, fun hnone => by rw [hr] at hnone; cases hnone⟩
    · show "retry:" ++ s.runId = "retry:" ++ r.runId
      rw [runId_of_frozen h.frozen]
    · show some desired.key = r.sourceRevision.map (·.key)
      rw [hr, ← heq]
      rfl
    · intro _ desired' hd'
      obtain rfl : desired = desired' := Option.some.inj (htd.symm.trans hd')
      exact .inr (by rw [hr, ← heq]; rfl)
    · rw [h.state, hfinished]
    · rw [h.result]
      exact hfailed
    · intro hnone
      rw [hr] at hnone
      cases hnone
    · rw [← hattempt]
      rfl
    · intro _
      rw [← hattempt]
      exact hbounded

/-- A settlement with the successor it owes its revision. -/
theorem Settles.effect_advance (h : Settles label now t r s r' d)
    (hgave : r'.state = .lost → revisionSuccessor d s now = none → GaveUp d.task r') :
    Effect label now none overrun (some r) (some t)
      { (revisionSuccessor d s now).getD d with run := some r' } := by
  cases hsucc : revisionSuccessor d s now with
  | none =>
    refine h.effect (fun hopen desired hd => ?_) fun hlost => hgave hlost hsucc
    rw [← sourceRevision_of_frozen h.frozen]
    rcases revisionSuccessor_none hsucc (h.closed ▸ hopen) desired (h.desired ▸ hd) with hk | hk
    · exact .inl hk
    · exact .inr (.inl hk)
  | some d' =>
    obtain ⟨revision, desired, superseded, hs, hd, hopen, hsup, hretry, rfl⟩ :=
      revisionSuccessor_some hsucc
    exact h.effect_followedBy rfl (h.minted_revision desired superseded)
      (congrArg taskKey (task_of_frozen h.frozen)).symm (h.origin_revision hs hd hopen hsup hretry)
      h.routing h.work rfl

/-! ### Provider fallback -/

theorem successor_ok {pipeline failureRunId : String} {reason : FallbackReason} {d' : Decision}
    (hrun : d.run = some s) (h : successor now d pipeline reason failureRunId = .ok d') :
    ∃ policy next, s.providerFallback = some policy ∧
      requestRun (successorRequest now d s policy pipeline reason failureRunId) = .ok next ∧
      d' = d.followedBy next := by
  simp only [successor, bind_eq_ok, decidedRun_eq_ok] at h
  obtain ⟨previous, hprev, h⟩ := h
  obtain rfl : previous = s := Option.some.inj (hprev.symm.trans hrun)
  split at h
  · exact absurd h refused_ne_ok
  · rename_i policy hpolicy
    obtain ⟨next, hnext, h⟩ := bind_eq_ok.1 h
    obtain ⟨_, -, h⟩ := bind_eq_ok.1 h
    exact ⟨policy, next, hpolicy, hnext, (Except.ok.inj h).symm⟩

theorem settleProviderFallback_ok {authorized available : List String} {d' : Decision}
    (hrun : d.run = some s) (h : settleProviderFallback now d authorized available = .ok d') :
    d' = d ∨ ((providerCooldownForRun s).isSome = true ∧ ∃ pipeline,
      fallbackPipeline s authorized available = some pipeline ∧
      successor now d pipeline .providerLimit s.runId = .ok d') := by
  simp only [settleProviderFallback, bind_eq_ok, decidedRun_eq_ok] at h
  obtain ⟨previous, hprev, h⟩ := h
  obtain rfl : previous = s := Option.some.inj (hprev.symm.trans hrun)
  split at h
  · exact .inl (Except.ok.inj h).symm
  · rename_i cooldown hcooldown
    split at h
    · exact .inl (Except.ok.inj h).symm
    · rename_i pipeline hpipeline
      exact .inr ⟨by rw [hcooldown]; rfl, pipeline, hpipeline, h⟩

/-- The pipeline is one the policy of the run still offers. -/
def Offers (r : Run) (pipeline : String) : Prop :=
  ∀ policy ∈ r.providerFallback,
    pipeline ∈ policy.allowedPipelines ∧ pipeline ∉ policy.attemptedPipelines

theorem offers_of_select {r : Run} {authorized available : List String} {pipeline : String}
    (h : selectFallbackPipeline r authorized available = some pipeline) : Offers r pipeline := by
  rintro policy hpolicy
  simp only [selectFallbackPipeline, Option.mem_def.1 hpolicy] at h
  have hfound := List.find?_some h
  simp only [decide_eq_true_eq] at hfound
  exact ⟨List.mem_of_find?_eq_some h, hfound.2.1⟩

theorem offers_of_fallbackPipeline {r : Run} {authorized available : List String}
    {pipeline : String} (h : fallbackPipeline r authorized available = some pipeline) :
    Offers r pipeline := by
  rcases Option.or_eq_some_iff.1 h with h | ⟨-, h⟩
  · exact offers_of_select h
  · exact offers_of_select h

/-- The run a policy falls back to. -/
theorem Requested.fallsBack {base : Decision} {policy : ProviderFallback}
    {pipeline failureRunId : String} {reason : FallbackReason} {next : Decision} {m : Run}
    {before : Option Task}
    (hm : Requested (successorRequest now base s policy pipeline reason failureRunId) next m)
    (hfrozen : s.frozen = r.frozen) (hpolicy : s.providerFallback = some policy)
    (hoffers : Offers s pipeline) (hlost : ∀ t ∈ before, base.task.consecutiveLost ≤ t.consecutiveLost) :
    FallsBack before next.task r m := by
  obtain ⟨hallowed, hfresh⟩ := hoffers policy hpolicy
  have hnonempty : policy.allowedPipelines ≠ [] := List.ne_nil_of_mem hallowed
  have hpipeline : m.pipeline = pipeline := hm.pipeline
  refine ⟨?_, ⟨policy, some s.runId,
    some { reason, failureRunId, limitedPipeline := s.pipeline }, ?_, hpipeline ▸ hallowed,
    hpipeline ▸ hfresh, ?_⟩, hm.revision, ?_, hm.observed⟩
  · rw [hm.params, ← show s.params = r.params from congrArg Frozen.params hfrozen]
    rfl
  · rw [← show s.providerFallback = r.providerFallback from
      congrArg Frozen.providerFallback hfrozen, hpolicy]
  · rw [hm.policy, hpipeline]
    simp only [successorRequest, mintedFallback, if_neg hnonempty]
  · intro t ht
    rw [hm.lost]
    exact hlost t ht

/-- A settlement followed by its fallback. -/
theorem Settles.effect_fallback (h : Settles label now t r s r' d) {pipeline failureRunId : String}
    {reason : FallbackReason} {d' : Decision} (hoffers : Offers s pipeline)
    (hlost : d.task.consecutiveLost ≤ t.consecutiveLost)
    (hd : successor now d pipeline reason failureRunId = .ok d') :
    Effect label now none overrun (some r) (some t) { d' with run := some r' } := by
  obtain ⟨policy, next, hpolicy, hnext, rfl⟩ := successor_ok h.run hd
  obtain ⟨m, hm⟩ := requested_of_ok hnext
  refine h.effect_followedBy hm.form (hm.minted.rebase h.count h.issue) ?_ ?_
    (hm.routing.trans h.routing) ((Option.some.inj hm.work).symm.trans h.work) hm.created
  · rw [hm.task]
    exact (congrArg taskKey (task_of_frozen h.frozen)).symm
  · refine .fallback r r' rfl h.live hm.source ?_ hm.desired hm.closed ?_ ?_ rfl
      (hm.fallsBack h.frozen hpolicy hoffers ?_)
    · rw [hm.requestId, ← runId_of_frozen h.frozen]
      rfl
    · exact h.closed.symm.trans hm.wasOpen
    · exact hm.delivery.trans h.delivery
    · rintro _ ⟨rfl⟩
      exact hlost

/-- A settlement whose retry is dropped for the fallback that comes after it. -/
theorem Settles.effect_retry_fallback (h : Settles label now t r s r' d)
    {first d' : Decision} {pipeline failureRunId : String} {reason : FallbackReason}
    (hfirst : revisionSuccessor d s now = some first) (hoffers : Offers s pipeline)
    (hd : successor now first pipeline reason failureRunId = .ok d') (hoverrun : overrun) :
    Effect label now none overrun (some r) (some t) { d' with run := some r' } := by
  obtain ⟨revision, desired, superseded, hs, hdd, hopen, hsup, -, rfl⟩ :=
    revisionSuccessor_some hfirst
  have hrun : (d.followedBy (mintRun (revisionMint d.task s desired superseded now))).run =
      some s := h.run
  obtain ⟨policy, next, hpolicy, hnext, rfl⟩ := successor_ok hrun hd
  obtain ⟨m, hm⟩ := requested_of_ok hnext
  have hx := h.minted_revision desired superseded
  have hcount : (mintRun (revisionMint d.task s desired superseded now)).task.runCount =
      t.runCount + 1 := congrArg (· + 1) h.count
  have hissue : (mintRun (revisionMint d.task s desired superseded now)).task.issue = t.issue :=
    h.issue
  have hmm : Minted (some t) 1 next.task m := hm.minted.rebase hcount hissue
  refine h.effect_overrun rfl hx hm.task.symm hm.form hmm ?_ ?_ hoverrun ?_
    (hm.routing.trans h.routing) ((Option.some.inj hm.work).symm.trans h.work) hm.created
  · rw [hm.task]
    exact (congrArg taskKey (task_of_frozen h.frozen)).symm
  · rw [hx.runId, hmm.runId, Ne, runIdOf_inj, hx.count, hmm.count]
    omega
  · refine .fallback r r' rfl h.live hm.source ?_ hm.desired hm.closed ?_ ?_ rfl
      (hm.fallsBack h.frozen hpolicy hoffers ?_)
    · rw [hm.requestId, ← runId_of_frozen h.frozen]
      rfl
    · exact h.closed.symm.trans hopen
    · exact hm.delivery.trans h.delivery
    · -- the dropped retry had reset the loss streak
      rintro _ ⟨rfl⟩
      exact Nat.zero_le _

end Successors

/-! ### Reports -/

/-- The instant a report counts as admitted: when its deferred form was. -/
def admittedAt (now : Time) (r : Run) : Time :=
  (r.credentialPendingResult.map (·.requestedAt)).getD now

/-- The guards of a report. -/
def reportAdmitted (now : Time) (t : Task) (r : Run) (result : RunResult)
    (claimFingerprint : Option String) : Bool :=
  (claimFingerprint.all fun fingerprint => isClaimant r fingerprint) ∧ isLive r.state ∧
    t.activeRunId = some r.runId ∧
    (r.credentialPendingResult.all fun pending =>
      some pending.claimFingerprint = r.tokenHash ∧ sameReport pending.result result) ∧
    startDeadlineElapsed r (admittedAt now r) = false ∧
    (claimFingerprint.isSome → recoveryDeadlineElapsed r (admittedAt now r) = false)

/-- The run of a deferred report. -/
def deferredRun (now : Time) (r : Run) (op : CredentialOperation) (result : RunResult) : Run :=
  { r with
    credentialPendingResult := r.credentialPendingResult.or (some
      { claimFingerprint := op.claimFingerprint, requestedAt := now, result })
    updatedAt := now }

/-- The decision of a report that settles. -/
def reportDecision (now : Time) (t : Task) (r : Run) (result : RunResult) : Decision :=
  match r.delivery, result.ok with
  | some delivery, true => deliveredSettlement now t r result delivery
  | _, _ =>
    (revisionSuccessor (reportSettlement now t r result) (finishedRun now t r result) now).getD
      (reportSettlement now t r result)

theorem reportDecision_run (now : Time) (t : Task) (r : Run) (result : RunResult) :
    (reportDecision now t r result).run = some (finishedRun now t r result) := by
  unfold reportDecision
  split
  · rfl
  · cases hs : revisionSuccessor (reportSettlement now t r result) (finishedRun now t r result) now with
    | none => rfl
    | some d' =>
      obtain ⟨_, _, _, -, -, -, -, -, rfl⟩ := revisionSuccessor_some hs
      rfl

theorem reportResult_eq {now : Time} {t : Task} {r : Run} {result : RunResult}
    {claimFingerprint : Option String}
    (h : reportAdmitted now t r result claimFingerprint = true) :
    reportResult now t r result claimFingerprint = .ok (match r.credentialOperation with
      | some op => { task := t, run := some (deferredRun now r op result) }
      | none => reportDecision now t r result) := by
  simp only [reportAdmitted, decide_eq_true_eq] at h
  obtain ⟨hclaim, hlive, hlock, hpending, hstart, hrecover⟩ := h
  have hne : r.state ≠ .finished := by
    intro hf
    simp [hf, isLive] at hlive
  unfold reportResult
  rw [if_neg, if_neg hne, if_neg (by simpa using hlive), if_neg (by simpa using hlock), if_neg]
  · simp only [admittedAt] at hstart hrecover
    simp only [hstart, Bool.false_eq_true, if_false]
    rw [if_neg (fun hc => by simp [hrecover hc.1] at hc)]
    cases hop : r.credentialOperation with
    | some op => simp only [deferredRun, hop]
    | none =>
      unfold reportDecision
      cases r.delivery with
      | none => rfl
      | some delivery => cases result.ok <;> rfl
  · cases hp : r.credentialPendingResult <;> simp_all
  · cases claimFingerprint <;> simp_all

theorem reportResult_ok {now : Time} {t : Task} {r : Run} {result : RunResult}
    {claimFingerprint : Option String} {d : Decision}
    (h : reportResult now t r result claimFingerprint = .ok d) :
    reportAdmitted now t r result claimFingerprint = true := by
  simp only [reportResult, ite_refused_eq_ok, not_not] at h
  obtain ⟨hclaim, -, hlive, hlock, hpending, hstart, hrecover, -⟩ := h
  simp only [reportAdmitted, decide_eq_true_eq]
  refine ⟨?_, hlive, hlock, ?_, by simpa [admittedAt] using hstart, fun hc => ?_⟩
  · cases claimFingerprint <;> simp_all
  · cases hp : r.credentialPendingResult <;> simp_all
  · simpa [hc, admittedAt] using hrecover

theorem reportAdmitted_live {now : Time} {t : Task} {r : Run} {result : RunResult}
    {claimFingerprint : Option String}
    (h : reportAdmitted now t r result claimFingerprint = true) :
    isLive r.state = true ∧ t.activeRunId = some r.runId := by
  simp only [reportAdmitted, decide_eq_true_eq] at h
  exact ⟨h.2.1, h.2.2.1⟩

/-- Both successor layers answer one failed report: the source revision retries and the provider
policy falls back. -/
def doublesSuccessor (t : Task) (r : Run) (result : RunResult)
    (authorized available : List String) : Bool :=
  t.closedAt = none ∧ r.sourceRevision.isSome ∧
    t.desiredRevision.map (·.key) = r.sourceRevision.map (·.key) ∧
    r.revisionAttempt.getD 1 ≤ MAX_AUTO_RETRIES ∧ result.isProviderStop ∧
    (fallbackPipeline r authorized available).isSome

theorem fallbackPipeline_of_frozen {r s : Run} (h : s.frozen = r.frozen)
    (authorized available : List String) :
    fallbackPipeline s authorized available = fallbackPipeline r authorized available := by
  have hp : s.pipeline = r.pipeline := pipeline_of_frozen h
  have hf : s.providerFallback = r.providerFallback := congrArg Frozen.providerFallback h
  simp only [fallbackPipeline, selectFallbackPipeline, hp, hf]

/-- A settled run that opens a cooldown was stopped by its provider, and is of the desired
revision. -/
theorem isProviderStop_of_cooldown {now : Time} {t : Task} {r : Run} {result : RunResult}
    (h : (providerCooldownForRun (finishedRun now t r result)).isSome = true) :
    result.isProviderStop = true ∧ (r.sourceRevision.isSome = true →
      t.desiredRevision.map (·.key) = r.sourceRevision.map (·.key)) := by
  have hstop : (settledResult t r result).isProviderStop = true := by
    by_contra hno
    simp [providerCooldownForRun, finishedRun, hno] at h
  unfold settledResult at hstop
  split at hstop
  · rename_i revision hrevision
    split_ifs at hstop with hkey
    · exact ⟨hstop, fun _ => by rw [hkey, hrevision]; rfl⟩
    · simp [RunResult.isProviderStop] at hstop
  · rename_i hnone
    exact ⟨hstop, fun hsome => by simp [hnone] at hsome⟩

section Report

variable {label : Step} {now : Time}
  {overrun : Prop} {t : Task} {r r₀ r' : Run} {result : RunResult}

/-- How the run a report was decided on, the run it was about and the run that is stored for it
hang together. -/
structure Reported (label : Step) (now : Time) (t : Task) (r r₀ r' : Run) (result : RunResult) :
    Prop where
  move : Move label now r r'
  live : isLive r.state = true
  frozen : r₀.frozen = r.frozen
  key : taskKey t.task = taskKey r.task
  source : SameSource r.issue t.issue
  lock : t.activeRunId = some r.runId
  state : r'.state = .finished
  delivery : r'.delivery = r₀.delivery
  result : r'.result = some (settledResult t r₀ result)

theorem Reported.terminal (h : Reported label now t r r₀ r' result) : isLive r'.state = false := by
  rw [h.state]
  rfl

theorem Reported.not_lost (h : Reported label now t r r₀ r' result) {t' : Task}
    (hlost : r'.state = .lost) : GaveUp t' r' := by
  cases h.state.symm.trans hlost

theorem Reported.settles (h : Reported label now t r r₀ r' result) :
    Settles label now t r (finishedRun now t r₀ result) r' (reportSettlement now t r₀ result) := by
  have hid : r₀.runId = r.runId := runId_of_frozen h.frozen
  have htask : (reportSettlement now t r₀ result).task =
      { t with activeRunId := none, consecutiveLost := 0, updatedAt := now } := by
    simp only [reportSettlement, settle, resetLossBudgets, releaseLock_eq, hid, h.lock, if_true]
  have hids := (settle_ids t (finishedRun now t r₀ result) now).trans
    (List.sublist_append_left _ [entryIdOf .delivery r₀.runId, entryIdOf .deliveryOutcome r₀.runId])
  refine ⟨rfl, rfl, h.move, h.live, h.terminal, h.frozen, h.state, h.result, h.key, h.source, h.lock,
    ?_, ?_, ?_, ?_, ?_, ?_, ?_, ?_, ?_, ?_, hid ▸ hids, ?_⟩
  all_goals try rw [htask]
  intro after dispatched
  exact emission_settle (s := finishedRun now t r₀ result) h.frozen h.live h.terminal _ now

theorem settledResult_ok (t : Task) (r : Run) (result : RunResult) :
    (settledResult t r result).ok = result.ok := by
  unfold settledResult
  split
  · split_ifs <;> rfl
  · rfl

/-- A report that settles, with the successor it owes its revision. -/
theorem Reported.effect (h : Reported label now t r r₀ r' result) :
    Effect label now none overrun (some r) (some t)
      { reportDecision now t r₀ result with run := some r' } := by
  unfold reportDecision
  split
  · rename_i delivery hdelivery hok
    have hs := h.settles
    have hid : r₀.runId = r.runId := runId_of_frozen h.frozen
    refine .settle hs.move hs.live hs.terminal ⟨hs.task, ?_, hs.count, .inl hs.desired,
      .inl hs.closed, hs.issue, .inr ?_, ?_, .inl hs.observed, h.not_lost⟩ ?_ ?_ rfl ?_
    · show (reportSettlement now t r₀ result).task.activeRunId = _
      rw [hs.released, if_pos hs.lock]
    · rw [h.delivery, hdelivery, h.result]
      exact ⟨rfl, rfl, h.state, by simp [settledResult_ok, hok]⟩
    · intro _ _ _
      refine .inr (.inr (.inr (.inr ⟨h.state, ?_, ?_⟩)))
      · rw [h.delivery, hdelivery]
        rfl
      · rw [h.result]
        simp [settledResult_ok, hok]
    · intro e he
      rcases List.mem_append.1 he with he | he
      · exact hs.out _ _ e he
      · exact emission_deliveryOutbox (s := finishedRun now t r₀ result) h.frozen h.live h.terminal
          _ delivery now rfl e he
    · refine (settlementIds_nodup r.runId).sublist ?_
      rw [← hid]
      show (((reportSettlement now t r₀ result).outbox ++ _).map (·.entryId)).Sublist _
      rw [List.map_append]
      exact (settle_ids _ _ now).append (deliveryOutbox_ids _ _ delivery now)
    · exact ⟨.inr hs.routing, .inr (congrArg some hs.work.symm)⟩
  · exact h.settles.effect_advance fun hlost _ => h.not_lost hlost

/-- A report that settles, with its revision successor and its fallback. -/
theorem Reported.effect_fallback (h : Reported label now t r r₀ r' result)
    {authorized available : List String} {d : Decision}
    (hd : settleProviderFallback now (reportDecision now t r₀ result) authorized available = .ok d)
    (hoverrun : doublesSuccessor t r result authorized available = true → overrun) :
    Effect label now none overrun (some r) (some t) { d with run := some r' } := by
  have hrun := reportDecision_run now t r₀ result
  rcases settleProviderFallback_ok hrun hd with rfl | ⟨hcooldown, pipeline, hpipeline, hd⟩
  · exact h.effect
  · obtain ⟨hstop, hkeys⟩ := isProviderStop_of_cooldown hcooldown
    have hfail : result.ok = false := by
      simp only [RunResult.isProviderStop, decide_eq_true_eq] at hstop
      exact hstop.1
    have hform : reportDecision now t r₀ result =
        (revisionSuccessor (reportSettlement now t r₀ result)
          (finishedRun now t r₀ result) now).getD (reportSettlement now t r₀ result) := by
      unfold reportDecision
      split
      · rename_i hok
        simp [hfail] at hok
      · rfl
    rw [hform] at hd
    cases hs : revisionSuccessor (reportSettlement now t r₀ result)
        (finishedRun now t r₀ result) now with
    | none =>
      rw [hs] at hd
      refine h.settles.effect_fallback (offers_of_fallbackPipeline hpipeline) ?_ hd
      exact Nat.zero_le _
    | some first =>
      rw [hs] at hd
      refine h.settles.effect_retry_fallback hs (offers_of_fallbackPipeline hpipeline) hd
        (hoverrun ?_)
      obtain ⟨revision, desired, superseded, hrev, hdes, hopen, hsup, hretry, -⟩ :=
        revisionSuccessor_some hs
      have hr : r₀.sourceRevision = r.sourceRevision := sourceRevision_of_frozen h.frozen
      have hrev : r₀.sourceRevision = some revision := hrev
      have hattempt : r₀.revisionAttempt = r.revisionAttempt :=
        congrArg Frozen.revisionAttempt h.frozen
      have htd : t.desiredRevision = some desired := h.settles.desired.symm.trans hdes
      have hkey : t.desiredRevision.map (·.key) = r₀.sourceRevision.map (·.key) :=
        hkeys (by simp [hrev])
      have hnot : superseded = false := by
        rw [htd, hrev] at hkey
        rw [hsup]
        simpa using (Option.some.inj hkey).symm
      have hbudget : r₀.revisionAttempt.getD 1 ≤ MAX_AUTO_RETRIES := by
        have := hretry hnot
        simp only [retriesRevision, decide_eq_true_eq] at this
        exact this.2.2
      simp only [doublesSuccessor, decide_eq_true_eq]
      refine ⟨h.settles.closed.symm.trans hopen, by rw [← hr, hrev]; rfl, by rw [hkey, hr],
        hattempt ▸ hbudget, hstop, ?_⟩
      rw [← fallbackPipeline_of_frozen (s := finishedRun now t r₀ result) h.frozen, hpipeline]
      rfl

end Report

end AgentLcars
