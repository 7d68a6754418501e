import AgentLcars.Drain
import AgentLcars.Outbox

/-!
# No dispatch is lost

Delivery is enqueue, then confirm, then settle, each interruptible and each raced by other drains, by
a claim of the run and by its cancellation.  A drain that is about to settle has seen the run queued
or past `pending`, and neither is ever undone; so an entry that is done speaks of such a run.

* `Dispatches` is the law of the store, `Drain.Sound` what a drain may rely on where it stands.
* `Fleet.Sound.step` keeps both under every act.
* `Fleet.no_dispatch_lost` is the result.
-/

namespace AgentLcars

/-! ### Runs -/

section Move

variable {label : Step} {now : Time} {r r' : Run}

theorem queued_of_kept (hqueue : r'.queue = r.queue ∨ r'.queue = r.queue.map (·.retire))
    (hq : r.queue.isSome = true) : r'.queue.isSome = true := by
  rcases hqueue with hqueue | hqueue
  · rw [hqueue, hq]
  · rw [hqueue, Option.isSome_map, hq]

/-- A queue record is never removed. -/
theorem Move.queue_kept (h : Move label now r r') (hq : r.queue.isSome = true) :
    r'.queue.isSome = true := by
  cases h with
  | observe => rfl
  | renewUnqueued _ hnone =>
    rw [hnone] at hq
    cases hq
  | enqueue => rfl
  | claim => rfl
  | release => rfl
  | settle _ _ hs hc => exact queued_of_kept (hc.queue ▸ hs.queue_cases) hq
  | complete op _ _ restored =>
    exact queued_of_kept (operationFinished_queue r op restored op.claimFingerprint) hq
  | retire => simpa using hq
  | finish op restored =>
    exact queued_of_kept (operationFinished_queue r op restored op.claimFingerprint) hq
  | _ => exact hq

/-- No run becomes pending again. -/
theorem Move.pending_back (h : Move label now r r') (hr' : r'.state = .pending) :
    r.state = .pending := by
  cases h with
  | confirm hp => exact hp
  | settle _ _ hs hc =>
    have hdead := hs.terminal
    rw [← hc.state, hr'] at hdead
    cases hdead
  | complete => cases hr'
  | _ => exact hr'

/-- Only a confirmation makes a run running. -/
theorem Move.running_back (h : Move label now r r') (hlabel : label.confirms = false)
    (hr' : r'.state = .running) : r.state = .running := by
  cases h with
  | confirm _ hconfirms =>
    rw [hlabel] at hconfirms
    cases hconfirms
  | settle _ _ hs hc =>
    have hdead := hs.terminal
    rw [← hc.state, hr'] at hdead
    cases hdead
  | complete => cases hr'
  | _ => exact hr'

end Move

/-! ### Entries -/

/-- The id of an entry tells whom it is about, and whether it dispatches. -/
def Addressed (e : OutboxEntry) : Prop :=
  ∃ tag, e.entryId = entryIdOf tag e.runId ∧ (e.kind = .dispatchRun ↔ tag = .dispatch)

/-- The generation of the run has been counted. -/
def Issued (s : Store) (id : String) : Prop :=
  ∃ k n vt, id = runIdOf k n ∧ s.tasks.get k = some vt ∧ n ≤ vt.task.runCount

/-- The entry had been failing for too long when it was retired. -/
def RetiredByRule (e : OutboxEntry) : Prop :=
  ∃ firstFailedAt, e.firstFailedAt = some firstFailedAt ∧
    OUTBOX_RETIRE_AFTER_MS ≤ e.updatedAt - firstFailedAt

/-- The entry is still to be delivered, or was given up by the retirement rule. -/
def Undelivered (e : OutboxEntry) : Prop :=
  e.state = .pending ∨ (∃ claimId expires, e.state = .leased claimId expires) ∨
    (e.state = .failed ∧ RetiredByRule e)

theorem About.addressed {e : OutboxEntry} {tag : EntryTag} {r : Run} (h : About e tag r) : Addressed e :=
  ⟨tag, by rw [h.entryId, h.runId], by rw [h.kind]; cases tag <;> simp [EntryTag.kind]⟩

theorem Addressed.dispatch {e : OutboxEntry} (h : Addressed e) :
    e.kind = .dispatchRun ↔ e.entryId = entryIdOf .dispatch e.runId := by
  obtain ⟨tag, hid, hkind⟩ := h
  rw [hkind, hid, entryIdOf_inj]
  exact ⟨fun h => ⟨h, rfl⟩, fun h => h.1⟩

section Entries

variable {label : Step} {s s' : Store} {e e' : OutboxEntry}

theorem EntryMove.kind (h : EntryMove label e e') : e'.kind = e.kind := by
  cases h with
  | same => rfl
  | lease => rfl
  | settle input h => exact (settleOutboxEntry_eq_some h).kind
  | wake now h =>
    obtain ⟨-, next, -, -, rfl⟩ := wakeOutboxEntry_eq_some h
    rfl

theorem EntryMove.addressed (h : EntryMove label e e') (haddressed : Addressed e) : Addressed e' := by
  obtain ⟨tag, hid, hkind⟩ := haddressed
  exact ⟨tag, by rw [h.about.1, h.about.2.1, hid], by rw [h.kind, hkind]⟩

/-- Only a settlement delivers an entry. -/
theorem EntryMove.undelivered (h : EntryMove label e e') (hlabel : ∀ input, label ≠ .settleOutbox input)
    (hentry : Undelivered e) : Undelivered e' := by
  cases h with
  | same => exact hentry
  | lease => exact .inr (.inl ⟨_, _, rfl⟩)
  | settle input _ hsettle => exact absurd hsettle (hlabel input)
  | wake now h =>
    obtain ⟨hpending, next, -, -, rfl⟩ := wakeOutboxEntry_eq_some h
    exact .inl hpending

theorem Store.Coherent.issued (hs : s.Coherent) {id : String} {r : Run}
    (hr : s.runs.get id = some r) : Issued s id := by
  obtain ⟨vt, n, hvt, hn, hid⟩ := hs.counted hr
  exact ⟨_, n + 1, vt, (hs.runKeyed hr).symm.trans hid, hvt, hn⟩

theorem Change.issued (h : Change label s s') {id : String} (hid : Issued s id) : Issued s' id := by
  obtain ⟨k, n, vt, rfl, hvt, hn⟩ := hid
  obtain ⟨vt', hvt', hle⟩ := h.runCount_le hvt
  exact ⟨k, n, vt', rfl, hvt', hn.trans hle⟩

/-- A generation that has been counted is never minted again. -/
theorem Change.unstored (h : Change label s s') {id : String} (hid : Issued s id)
    (hnone : s.runs.get id = none) : s'.runs.get id = none := by
  cases hx : s'.runs.get id with
  | none => rfl
  | some x =>
    cases h with
    | aside h =>
      obtain ⟨_, r, hr, -⟩ := h.run_back hx
      rw [hnone] at hr
      cases hr
    | decide now admitted subject d heffect hsubject _ hwritten =>
      rcases hwritten.run_cases heffect hsubject hx with ⟨_, r, hr, -⟩ | ⟨-, rfl, hminted⟩
      · cases hnone.symm.trans hr
      · obtain ⟨k, n, vt, hk, hvt, hn⟩ := hid
        obtain ⟨rfl, rfl⟩ := runIdOf_inj.1 (hminted.runId.symm.trans hk)
        have hlater := hminted.later
        rw [hvt] at hlater
        exact absurd hn (Nat.not_le.2 hlater)

end Entries

/-! ### The law of the store -/

/-- Every entry is named after a run whose generation is counted, a running run is queued, and a
pending run that is not queued has a dispatch entry that is still to be delivered. -/
structure Dispatches (s : Store) : Prop where
  addressed : ∀ {id e}, s.outbox.get id = some e → Addressed e
  issued : ∀ {id e}, s.outbox.get id = some e → Issued s e.runId
  queued : ∀ {id r}, s.runs.get id = some r → r.state = .running → r.queue.isSome = true
  waiting : ∀ {id r}, s.runs.get id = some r → r.state = .pending → r.queue = none →
    ∃ e, s.outbox.get (entryIdOf .dispatch id) = some e ∧ Undelivered e

section Store

variable {label : Step} {s s' : Store}

/-- What is in the outbox was there before, or is emitted by the decision of the step. -/
theorem Change.entry_cases (h : Change label s s') {id : String} {e' : OutboxEntry}
    (he' : s'.outbox.get id = some e') :
    (∃ e, s.outbox.get id = some e ∧ EntryMove label e e') ∨ ∃ tag r, About e' tag r := by
  cases h with
  | aside h => exact .inl (h.entry_back he')
  | decide now admitted subject d heffect _ _ hwritten =>
    rw [hwritten.outbox] at he'
    rcases OrderedMap.get_setAll_cases _ _ he' with ⟨x, hx, -, rfl⟩ | ⟨hsame, -⟩
    · exact .inr (heffect.about hx)
    · exact .inl ⟨e', hsame, .same⟩

/-- Outside a settlement an entry still to be delivered stays so. -/
theorem Change.undelivered (h : Change label s s') (hlabel : ∀ input, label ≠ .settleOutbox input)
    {k : String} {e : OutboxEntry} (he : s.outbox.get k = some e) (hentry : Undelivered e) :
    ∃ e', s'.outbox.get k = some e' ∧ Undelivered e' := by
  cases h with
  | aside h =>
    obtain ⟨e', he', hmove⟩ := h.entry_moves he
    exact ⟨e', he', hmove.undelivered hlabel hentry⟩
  | decide now admitted subject d heffect _ _ hwritten =>
    rw [hwritten.outbox]
    have hsome : (s.outbox.get k).isSome = true := by rw [he]; rfl
    obtain ⟨e', he'⟩ := Option.isSome_iff_exists.1
      (OrderedMap.isSome_get_setAll OutboxEntry.entryId id d.outbox hsome)
    refine ⟨e', he', ?_⟩
    rcases OrderedMap.get_setAll_cases _ _ he' with ⟨x, hx, -, rfl⟩ | ⟨hsame, -⟩
    · obtain ⟨tag, r, habout⟩ := heffect.about hx
      exact .inl habout.state
    · obtain rfl := Option.some.inj (he.symm.trans hsame)
      exact hentry

/-- An entry names a run whose generation is counted. -/
theorem Change.entry_issued (hs : s.Coherent) (h : Change label s s') {k : String}
    {e' : OutboxEntry} (he' : s'.outbox.get k = some e')
    (hinv : ∀ e, s.outbox.get k = some e → Issued s e.runId) : Issued s' e'.runId := by
  have hchange := h
  cases h with
  | aside h =>
    obtain ⟨e, he, hmove⟩ := h.entry_back he'
    rw [hmove.about.2.1]
    exact hchange.issued (hinv e he)
  | decide now admitted subject d heffect hsubject _ hwritten =>
    rw [hwritten.outbox] at he'
    rcases OrderedMap.get_setAll_cases _ _ he' with ⟨x, hx, -, rfl⟩ | ⟨hsame, -⟩
    · obtain ⟨old, dispatched, hcause, hemission⟩ := heffect.cause hx
      have hold : ∀ {r r'}, old = some (r, r') → Issued s' r.runId := fun h =>
        hchange.issued (hs.issued (hsubject _ (hcause.old _ _ h).1).1)
      cases hemission with
      | dispatch m hm habout =>
        obtain ⟨n, hid, -, hn⟩ := hcause.dispatched m hm
        have htask := hwritten.get_task (taskKey d.task.task)
        rw [if_pos rfl] at htask
        exact ⟨_, n, _, habout.runId.trans hid, htask, hn⟩
      | settled tag r r' h _ _ _ habout => exact habout.runId ▸ hold h
      | delivered r r' h _ _ _ habout => exact habout.runId ▸ hold h
      | merged r r' _ _ h _ _ _ _ _ _ habout => exact habout.runId ▸ hold h
      | started r r' _ _ h _ _ _ _ _ _ _ _ _ habout => exact habout.runId ▸ hold h
    · exact hchange.issued (hinv e' hsame)

/-- A fresh run comes with its dispatch entry. -/
theorem Change.dispatched (h : Change label s s') {k : String} {x : Run}
    (hx : s'.runs.get k = some x) (hnone : s.runs.get k = none) :
    ∃ e, s'.outbox.get (entryIdOf .dispatch k) = some e ∧ e.state = .pending := by
  cases h with
  | aside h =>
    obtain ⟨_, r, hr, -⟩ := h.run_back hx
    rw [hnone] at hr
    cases hr
  | decide now admitted subject d heffect hsubject _ hwritten =>
    rcases hwritten.run_cases heffect hsubject hx with ⟨_, r, hr, -⟩ | ⟨-, rfl, hminted⟩
    · cases hnone.symm.trans hr
    · obtain ⟨e, he, habout⟩ := hminted.dispatch
      refine ⟨e, ?_, habout.state⟩
      rw [hwritten.outbox, ← habout.entryId]
      refine OrderedMap.get_setAll_of_mem _ _ he fun y hy hye => ?_
      exact List.inj_on_of_nodup_map heffect.nodup hy he hye

/-- Every step but a settlement keeps the law, if what it makes running is queued. -/
theorem Dispatches.change (hs : s.Coherent) (hinv : Dispatches s) (h : Change label s s')
    (hlabel : ∀ input, label ≠ .settleOutbox input)
    (hconfirm : ∀ {k r now r'}, s.runs.get k = some r → s'.runs.get k = some r' →
      Move label now r r' → r'.state = .running → r.state = .running ∨ r.queue.isSome = true) :
    Dispatches s' where
  addressed := by
    intro k e' he'
    rcases h.entry_cases he' with ⟨e, he, hmove⟩ | ⟨tag, r, habout⟩
    · exact hmove.addressed (hinv.addressed he)
    · exact habout.addressed
  issued := fun he' => h.entry_issued hs he' fun e he => hinv.issued he
  queued := by
    intro k x hx hrunning
    rcases h.run_cases hs hx with ⟨now, r, hr, hmove⟩ | ⟨-, hfresh⟩
    · rcases hconfirm hr hx hmove hrunning with hstate | hq
      · exact hmove.queue_kept (hinv.queued hr hstate)
      · exact hmove.queue_kept hq
    · rw [hfresh.state] at hrunning
      cases hrunning
  waiting := by
    intro k x hx hpending hnone
    cases hr : s.runs.get k with
    | none =>
      obtain ⟨e, he, hstate⟩ := h.dispatched hx hr
      exact ⟨e, he, .inl hstate⟩
    | some r =>
      obtain ⟨now, x', hx', hmove⟩ := h.run_moves hs hr
      obtain rfl := Option.some.inj (hx.symm.trans hx')
      have hunqueued : r.queue = none := by
        by_contra hq
        have hkept := hmove.queue_kept (Option.isSome_iff_ne_none.2 hq)
        rw [hnone] at hkept
        cases hkept
      obtain ⟨e, he, hentry⟩ := hinv.waiting hr (hmove.pending_back hpending) hunqueued
      exact h.undelivered hlabel he hentry

/-- A settlement keeps the law, if it delivers no entry whose run still waits. -/
theorem Dispatches.settle (hinv : Dispatches s) {input : OutboxSettlement}
    (h : ∀ {k r e e'}, input.entryId = entryIdOf .dispatch k → s.runs.get k = some r →
      r.state = .pending → r.queue = none → settleOutboxEntry e input = some e' → Undelivered e') :
    Dispatches (s.settleOutbox input) := by
  unfold Store.settleOutbox
  split
  · exact hinv
  rename_i e' hsettled
  obtain ⟨e, he, hsettle⟩ := Option.bind_eq_some_iff.1 hsettled
  have hmove : EntryMove (.settleOutbox input) e e' := .settle input hsettle rfl
  have hcases : ∀ {k x}, (s.outbox.set input.entryId e').get k = some x →
      (k = input.entryId ∧ x = e') ∨ s.outbox.get k = some x := by
    intro k x hx
    rw [OrderedMap.get_set] at hx
    split_ifs at hx with hk
    · exact .inl ⟨hk, (Option.some.inj hx).symm⟩
    · exact .inr hx
  refine ⟨?_, ?_, hinv.queued, ?_⟩
  · intro k x hx
    rcases hcases hx with ⟨-, rfl⟩ | hx
    · exact hmove.addressed (hinv.addressed he)
    · exact hinv.addressed hx
  · intro k x hx
    rcases hcases hx with ⟨-, rfl⟩ | hx
    · exact hmove.about.2.1 ▸ hinv.issued he
    · exact hinv.issued hx
  · intro k r hr hpending hnone
    obtain ⟨f, hf, hentry⟩ := hinv.waiting hr hpending hnone
    by_cases hk : entryIdOf .dispatch k = input.entryId
    · exact ⟨e', by rw [hk, OrderedMap.get_set_self], h hk.symm hr hpending hnone hsettle⟩
    · exact ⟨f, by rw [OrderedMap.get_set_of_ne _ _ hk, hf], hentry⟩

end Store

/-! ### The law of a drain -/

/-- A drain holds an entry of the store. -/
structure Holds (s : Store) (leased : LeasedOutboxEntry) : Prop where
  addressed : Addressed leased.entry
  issued : Issued s leased.entry.runId

/-- The run, if there is one, is queued or past `pending`. -/
def Handed (s : Store) (id : String) : Prop :=
  ∀ r, s.runs.get id = some r → r.queue.isSome = true ∨ r.state ≠ .pending

/-- What a drain may rely on where it stands. -/
def DrainPhase.Sound (s : Store) : DrainPhase → Prop
  | .claiming | .ended => True
  | .handling leased | .failing leased _ => Holds s leased
  | .enqueueing leased => Holds s leased ∧ (s.runs.get leased.entry.runId).isSome = true
  | .confirming leased =>
    Holds s leased ∧ ∃ r, s.runs.get leased.entry.runId = some r ∧ r.queue.isSome = true
  | .settling leased _ => Holds s leased ∧ Handed s leased.entry.runId

section Drain

variable {label : Step} {s s' : Store} {w : World} {drain : Drain}

theorem Holds.change {leased : LeasedOutboxEntry} (h : Change label s s') (hold : Holds s leased) :
    Holds s' leased := ⟨hold.addressed, h.issued hold.issued⟩

theorem Handed.change (hs : s.Coherent) (h : Change label s s') {id : String} (hid : Issued s id)
    (hhanded : Handed s id) : Handed s' id := by
  intro r' hr'
  cases hr : s.runs.get id with
  | none =>
    rw [h.unstored hid hr] at hr'
    cases hr'
  | some r =>
    obtain ⟨now, x, hx, hmove⟩ := h.run_moves hs hr
    obtain rfl := Option.some.inj (hr'.symm.trans hx)
    exact (hhanded r hr).imp hmove.queue_kept fun hstate hpending =>
      hstate (hmove.pending_back hpending)

/-- What a drain relies on survives every step. -/
theorem DrainPhase.Sound.change (hs : s.Coherent) (h : Change label s s') {phase : DrainPhase}
    (hphase : phase.Sound s) : phase.Sound s' := by
  cases phase with
  | claiming => trivial
  | ended => trivial
  | handling => exact Holds.change h hphase
  | failing => exact Holds.change h hphase
  | enqueueing leased =>
    obtain ⟨r, hr⟩ := Option.isSome_iff_exists.1 hphase.2
    obtain ⟨_, r', hr', -⟩ := h.run_moves hs hr
    exact ⟨hphase.1.change h, by rw [hr']; rfl⟩
  | confirming leased =>
    obtain ⟨hold, r, hr, hq⟩ := hphase
    obtain ⟨_, r', hr', hmove⟩ := h.run_moves hs hr
    exact ⟨hold.change h, r', hr', hmove.queue_kept hq⟩
  | settling leased => exact ⟨hphase.1.change h, hphase.2.change hs h hphase.1.issued⟩

/-- A step that is neither a confirmation nor a settlement keeps the law. -/
theorem Dispatches.other (hs : s.Coherent) (hinv : Dispatches s) (h : Change label s s')
    (hlabel : label.ofDrain = false) : Dispatches s' := by
  refine hinv.change hs h ?_ fun _ _ hmove hrunning => .inl (hmove.running_back ?_ hrunning)
  · rintro input rfl
    cases hlabel
  · cases label with
    | onRun _ _ _ op => cases op <;> first | rfl | cases hlabel
    | _ => rfl

/-- A confirmation keeps the law, if the run is queued. -/
theorem Dispatches.confirm (hw : w.Coherent) (hinv : Dispatches w.store) {runId cleanupId : String}
    {now : Time} (hqueued : ∃ r, w.store.runs.get runId = some r ∧ r.queue.isSome = true) :
    Dispatches (w.step (.onRun runId now cleanupId .confirmDispatch)).store := by
  refine hinv.change hw.store (hw.change _) (fun _ h => by cases h) ?_
  intro k r _ r' hr hr' _ hrunning
  by_cases hk : runId = k
  · obtain ⟨q, hq, hsome⟩ := hqueued
    rw [hk, hr] at hq
    exact .inr (Option.some.inj hq ▸ hsome)
  · rw [hw.onRun_beside hr hk] at hr'
    exact .inl (Option.some.inj hr' ▸ hrunning)

/-- A run that was there is queued after `enqueueRun`. -/
theorem enqueueRun_queued {runId : String} {r : Run} (hr : s.runs.get runId = some r) (now : Time) :
    ∃ r', (s.enqueueRun runId now).runs.get runId = some r' ∧ r'.queue.isSome = true := by
  simp only [Store.enqueueRun, hr]
  split_ifs with hq
  · exact ⟨r, hr, hq⟩
  · exact ⟨_, OrderedMap.get_set_self .., rfl⟩

/-- What a claim hands to a drain. -/
theorem Dispatches.claimed (hinv : Dispatches s) {now leaseExpiresAt : Time}
    {excluded : List String} {claimId : String} {e : OutboxEntry}
    (he : e ∈ (s.claimedOutbox 1 now leaseExpiresAt excluded fun _ => claimId).head?) :
    Holds s ⟨e, claimId⟩ := by
  obtain ⟨⟨x, i⟩, hx, rfl⟩ := List.mem_map.1 (List.mem_of_mem_head? he)
  have hmem := (claimableOutbox_mem (List.fst_mem_of_mem_zipIdx hx)).1
  obtain ⟨id, hget⟩ := (OrderedMap.mem_values_iff _ _).1 hmem
  obtain ⟨tag, hid, hkind⟩ := hinv.addressed hget
  have hissued : Issued s x.runId := hinv.issued hget
  exact ⟨⟨tag, hid, hkind⟩, hissued⟩

/-- A drain settles no other dispatch entry than that of the run it was handed. -/
theorem Holds.dispatch {leased : LeasedOutboxEntry} (h : Holds s leased) {k : String}
    (hk : leased.entry.entryId = entryIdOf .dispatch k) :
    leased.entry.kind = .dispatchRun ∧ leased.entry.runId = k := by
  obtain ⟨tag, hid, hkind⟩ := h.addressed
  obtain ⟨rfl, hrun⟩ := entryIdOf_inj.1 (hid.symm.trans hk)
  exact ⟨hkind.2 rfl, hrun⟩

/-- A retryable failure gives an entry up by the retirement rule only. -/
theorem settleRetryableFailure_undelivered {leased : LeasedOutboxEntry} {now : Time}
    {e e' : OutboxEntry} (h : settleOutboxEntry e (settleRetryableFailure leased now) = some e') :
    Undelivered e' := by
  have hsettled := settleOutboxEntry_eq_some h
  have hstate := hsettled.state
  have hupdated := hsettled.updatedAt
  have hfirst := hsettled.firstFailedAt (leased.entry.firstFailedAt.getD now)
  unfold settleRetryableFailure at hstate hupdated hfirst
  by_cases hretired : OUTBOX_RETIRE_AFTER_MS ≤ now - leased.entry.firstFailedAt.getD now
  · simp only [if_pos hretired] at hstate hupdated hfirst
    exact .inr (.inr ⟨hstate, _, hfirst rfl, hupdated.symm ▸ hretired⟩)
  · simp only [if_neg hretired] at hstate
    exact .inl hstate

/-- A drain settles its own entry: with an outcome that leaves it to be delivered, or once the run is
handed over, or when it is no dispatch. -/
theorem Dispatches.settleOwn (hinv : Dispatches s) {leased : LeasedOutboxEntry}
    {input : OutboxSettlement} (hold : Holds s leased) (hid : input.entryId = leased.entry.entryId)
    (h : leased.entry.kind ≠ .dispatchRun ∨ Handed s leased.entry.runId ∨
      ∀ {e e'}, settleOutboxEntry e input = some e' → Undelivered e') :
    Dispatches (s.settleOutbox input) := by
  refine hinv.settle fun hk hr hpending hnone hsettle => ?_
  obtain ⟨hkind, rfl⟩ := hold.dispatch (hid.symm.trans hk)
  rcases h with hother | hhanded | hundelivered
  · exact absurd hkind hother
  · rcases hhanded _ hr with hq | hstate
    · rw [hnone] at hq
      cases hq
    · exact absurd hpending hstate
  · exact hundelivered hsettle

/-- The law of the system and of one drain. -/
def Fits (w : World) (drain : Drain) : Prop := Dispatches w.store ∧ drain.phase.Sound w.store

/-- A call that may throw does what it does when it returns, or leaves the store alone. -/
theorem attempt_rule {P : World → Drain → Prop} {reply : Reply} {returned : Drain}
    {thrown : String → Drain} (hreturned : P (w.step label) returned)
    (happlied : ∀ error, P (w.step label) (thrown error)) (hthrown : ∀ error, P w (thrown error)) :
    P (w.stepIf (attempt reply label returned thrown).1)
      (attempt reply label returned thrown).2 := by
  cases reply with
  | throws error applied =>
    cases applied with
    | true => exact happlied error
    | false => exact hthrown error
  | _ => exact hreturned

section Act

variable (now : Time) (claimId cleanupId : String) (reply : Reply)

/-- A drain claims. -/
theorem Drain.claiming_fits (hw : w.Coherent) (h : Fits w drain) (hphase : drain.phase = .claiming) :
    Fits (w.stepIf (drain.act w.store now claimId cleanupId reply).1)
      (drain.act w.store now claimId cleanupId reply).2 := by
  simp only [Drain.act, hphase]
  split_ifs
  · exact ⟨h.1, trivial⟩
  have hchange := hw.change (.claimPendingOutbox 1 now (now + OUTBOX_LEASE_MS)
    drain.failedThisDrain fun _ => claimId)
  have hclaimed := h.1.other hw.store hchange rfl
  refine attempt_rule ⟨hclaimed, ?_⟩ (fun _ => ⟨hclaimed, trivial⟩) fun _ => ⟨h.1, trivial⟩
  split
  · trivial
  · rename_i entry hentry
    exact (h.1.claimed hentry).change hchange

/-- A drain delivers. -/
theorem Drain.handling_fits (hw : w.Coherent) (h : Fits w drain) {leased : LeasedOutboxEntry}
    (hphase : drain.phase = .handling leased) :
    Fits (w.stepIf (drain.act w.store now claimId cleanupId reply).1)
      (drain.act w.store now claimId cleanupId reply).2 := by
  obtain ⟨hinv, hsound⟩ := h
  have hold : Holds w.store leased := by simpa only [hphase, DrainPhase.Sound] using hsound
  simp only [Drain.act, hphase]
  split_ifs with hkind
  · split
    · exact ⟨hinv, hold⟩
    split
    · rename_i hnone
      have hhanded : Handed w.store leased.entry.runId := fun r hr => by
        rw [hnone] at hr
        cases hr
      exact ⟨hinv, hold, hhanded⟩
    · rename_i run hrun
      split_ifs with hstate
      · refine ⟨hinv, hold, fun r hr => .inr ?_⟩
        exact Option.some.inj (hrun.symm.trans hr) ▸ hstate
      · exact ⟨hinv, hold, Option.isSome_iff_exists.2 ⟨run, hrun⟩⟩
  · split
    · exact ⟨hinv, hsound⟩
    · exact ⟨hinv, hold⟩
    · exact ⟨hinv.settleOwn hold rfl (.inl hkind), trivial⟩
    · rename_i state failureState error
      have hkept : Holds (w.store.settleOutbox (settleClaim leased state now failureState)) leased :=
        hold.change (hw.change (.settleOutbox (settleClaim leased state now failureState)))
      exact ⟨hinv.settleOwn hold rfl (.inl hkind), hkept⟩

/-- A drain queues the run, confirms it, and settles the entry. -/
theorem Drain.act_fits (hw : w.Coherent) (h : Fits w drain) :
    Fits (w.stepIf (drain.act w.store now claimId cleanupId reply).1)
      (drain.act w.store now claimId cleanupId reply).2 := by
  obtain ⟨hinv, hsound⟩ := h
  cases hphase : drain.phase with
  | claiming => exact Drain.claiming_fits now claimId cleanupId reply hw ⟨hinv, hsound⟩ hphase
  | handling leased => exact Drain.handling_fits now claimId cleanupId reply hw ⟨hinv, hsound⟩ hphase
  | enqueueing leased =>
    rw [hphase] at hsound
    obtain ⟨hold, hsome⟩ := hsound
    simp only [Drain.act, hphase]
    have hchange := hw.change (.enqueueRun leased.entry.runId now)
    have hqueued := hinv.other hw.store hchange rfl
    obtain ⟨r, hr⟩ := Option.isSome_iff_exists.1 hsome
    exact attempt_rule ⟨hqueued, hold.change hchange, enqueueRun_queued hr now⟩
      (fun _ => ⟨hqueued, hold.change hchange⟩) fun _ => ⟨hinv, hold⟩
  | confirming leased =>
    rw [hphase] at hsound
    simp only [Drain.act, hphase]
    have hchange := hw.change (.onRun leased.entry.runId now cleanupId .confirmDispatch)
    have hconfirmed : Dispatches
        (w.step (.onRun leased.entry.runId now cleanupId .confirmDispatch)).store :=
      hinv.confirm hw hsound.2
    obtain ⟨hold, r, hr, hq⟩ := DrainPhase.Sound.change hw.store hchange hsound
    refine attempt_rule ⟨hconfirmed, ?_⟩ (fun _ => ⟨hconfirmed, hold⟩) fun _ => ⟨hinv, hsound.1⟩
    split
    · exact hold
    · exact ⟨hold, fun x hx => .inl (Option.some.inj (hr.symm.trans hx) ▸ hq)⟩
  | settling leased dispatched =>
    rw [hphase] at hsound
    obtain ⟨hold, hhanded⟩ := hsound
    simp only [Drain.act, hphase]
    have hsettled : Dispatches (w.store.settleOutbox (settleClaim leased .done now {})) :=
      hinv.settleOwn hold rfl (.inr (.inl hhanded))
    have hkept : Holds (w.store.settleOutbox (settleClaim leased .done now {})) leased :=
      hold.change (hw.change (.settleOutbox (settleClaim leased .done now {})))
    refine attempt_rule ⟨hsettled, ?_⟩ (fun _ => ⟨hsettled, hkept⟩) fun _ => ⟨hinv, hold⟩
    trivial
  | failing leased error =>
    rw [hphase] at hsound
    simp only [Drain.act, hphase]
    have hid : (settleRetryableFailure leased now).entryId = leased.entry.entryId := by
      simp only [settleRetryableFailure]
      split_ifs <;> rfl
    have hsettled : Dispatches (w.store.settleOutbox (settleRetryableFailure leased now)) :=
      hinv.settleOwn hsound hid (.inr (.inr settleRetryableFailure_undelivered))
    exact attempt_rule ⟨hsettled, trivial⟩ (fun _ => ⟨hsettled, trivial⟩) fun _ => ⟨hinv, trivial⟩
  | ended =>
    simp only [Drain.act, hphase]
    exact ⟨hinv, hsound⟩

end Act

/-! ### What a delivery leaves alone -/

/-- A queue record is kept with its claim, so is every state but `pending`, and a run that has both
is not written at all. -/
structure Spares (r r' : Run) : Prop where
  queue : r.queue.isSome = true → r'.queue = r.queue
  state : r.state ≠ .pending → r'.state = r.state
  whole : r.queue.isSome = true → r.state ≠ .pending → r' = r

theorem Spares.refl (r : Run) : Spares r r := ⟨fun _ => rfl, fun _ => rfl, fun _ _ => rfl⟩

/-- The store operations a drain issues. -/
def Step.Delivers : Step → Prop
  | .claimPendingOutbox .. | .enqueueRun .. | .settleOutbox _ | .onRun _ _ _ .confirmDispatch => True
  | _ => False

theorem attempt_step {P : Step → Prop} {reply : Reply} {returned : Drain} {thrown : String → Drain}
    (h : P label) : ∀ step ∈ (attempt reply label returned thrown).1, P step := by
  rintro step hstep
  cases reply with
  | throws error applied =>
    cases applied with
    | true => exact Option.some.inj hstep ▸ h
    | false => cases hstep
  | _ => exact Option.some.inj hstep ▸ h

theorem Drain.act_delivers {now : Time} {claimId cleanupId : String} {reply : Reply} :
    ∀ step ∈ (drain.act s now claimId cleanupId reply).1, step.Delivers := by
  have hnone : ∀ step ∈ (none : Option Step), step.Delivers := fun _ h =>
    absurd h (Option.not_mem_none _)
  cases hphase : drain.phase with
  | claiming =>
    simp only [Drain.act, hphase]
    split_ifs
    · exact hnone
    · exact attempt_step (P := Step.Delivers) trivial
  | handling leased =>
    simp only [Drain.act, hphase]
    split_ifs
    · split
      · exact hnone
      split
      · exact hnone
      · split_ifs <;> exact hnone
    · split
      · exact hnone
      · exact hnone
      · rintro step ⟨rfl⟩
        trivial
      · rintro step ⟨rfl⟩
        trivial
  | ended =>
    simp only [Drain.act, hphase]
    exact hnone
  | _ =>
    simp only [Drain.act, hphase]
    exact attempt_step (P := Step.Delivers) trivial

/-- `confirmDispatch` writes a pending run only, and not its queue record. -/
theorem confirmDispatch_spares {now : Time} {t : Task} {r : Run} {d : Decision}
    (h : confirmDispatch now t r = .ok d) :
    ∃ r', d.run = some r' ∧ r'.runId = r.runId ∧ isLive r'.state = true ∧ Spares r r' := by
  unfold confirmDispatch at h
  split_ifs at h with hrunning hpending
  · obtain rfl := Except.ok.inj h
    exact ⟨r, rfl, rfl, by rw [hrunning]; rfl, .refl r⟩
  · exact absurd h refused_ne_ok
  · obtain rfl := Except.ok.inj h
    have hstate : r.state = .pending := not_not.1 hpending
    exact ⟨_, rfl, rfl, rfl, fun _ => rfl, fun h => absurd hstate h, fun _ h => absurd hstate h⟩

/-- Nothing a drain does resets a run. -/
theorem World.Coherent.delivers_spares (hw : w.Coherent) (hlabel : label.Delivers) {id : String}
    {r : Run} (hr : w.store.runs.get id = some r) :
    ∃ r', (w.step label).store.runs.get id = some r' ∧ Spares r r' := by
  cases label with
  | claimPendingOutbox limit now leaseExpiresAt excluded claimIds =>
    refine ⟨r, ?_, .refl r⟩
    simp only [World.step, claimPendingOutbox_eq]
    exact hr
  | settleOutbox input =>
    refine ⟨r, ?_, .refl r⟩
    simp only [World.step, Store.settleOutbox]
    split <;> exact hr
  | enqueueRun runId now =>
    simp only [World.step, Store.enqueueRun]
    split
    · exact ⟨r, hr, .refl r⟩
    rename_i q hq
    split_ifs with hqueue
    · exact ⟨r, hr, .refl r⟩
    by_cases hid : id = runId
    · subst hid
      obtain rfl := Option.some.inj (hr.symm.trans hq)
      exact ⟨_, OrderedMap.get_set_self .., fun h => absurd h hqueue, fun _ => rfl,
        fun h => absurd h hqueue⟩
    · exact ⟨r, by rw [OrderedMap.get_set_of_ne _ _ hid, hr], .refl r⟩
  | onRun runId now cleanupId op =>
    by_cases hid : runId = id
    · cases op with
      | confirmDispatch =>
        cases hd : w.decision (.onRun runId now cleanupId .confirmDispatch) with
        | none =>
          rw [World.onRun_refused hd]
          exact ⟨r, hr, .refl r⟩
        | some d =>
          obtain ⟨vt, q, d₀, hq, -, hdecide, hattach, -⟩ := hw.onRun_decided hd
          obtain rfl := Option.some.inj (hr.symm.trans (hid ▸ hq))
          obtain ⟨r', hrun, hsame, hlive, hspares⟩ := confirmDispatch_spares hdecide
          rw [attachCleanup_same fun s hs => .inr (Option.some.inj (hrun.symm.trans hs) ▸ hlive)]
            at hattach
          obtain rfl := Except.ok.inj hattach
          have hstored := (hw.stored hd).1 r' (by simp [Decision.writes, hrun])
          rw [hsame, hw.store.runKeyed hr] at hstored
          exact ⟨r', hstored, hspares⟩
      | _ => cases hlabel
    · exact ⟨r, hw.onRun_beside hr hid, .refl r⟩
  | _ => cases hlabel

end Drain

/-! ### Every interleaving -/

/-- The law of the system and of every drain at work on it. -/
structure Fleet.Sound (f : Fleet) : Prop where
  coherent : f.world.Coherent
  dispatches : Dispatches f.world.store
  drains : ∀ {id drain}, f.drains.get id = some drain → drain.phase.Sound f.world.store

theorem Fleet.sound_init : Fleet.init.Sound :=
  ⟨World.coherent_init,
    ⟨fun h => (by cases h), fun h => (by cases h), fun h => (by cases h), fun h => (by cases h)⟩,
    fun h => (by cases h)⟩

section Fleet

variable {w : World} {f : Fleet}

theorem World.Coherent.stepIf (hw : w.Coherent) (label : Option Step) : (w.stepIf label).Coherent := by
  cases label with
  | none => exact hw
  | some label => exact hw.step label

theorem DrainPhase.Sound.stepIf (hw : w.Coherent) {phase : DrainPhase} (h : phase.Sound w.store)
    (label : Option Step) : phase.Sound (w.stepIf label).store := by
  cases label with
  | none => exact h
  | some label => exact h.change hw.store (hw.change label)

/-- Every act of every party keeps the law. -/
theorem Fleet.Sound.step (h : f.Sound) (act : Act) : (f.step act).Sound := by
  cases act with
  | other label hlabel =>
    refine ⟨h.coherent.step label, ?_, fun hget => ?_⟩
    · exact h.dispatches.other h.coherent.store (h.coherent.change label) hlabel
    · exact (h.drains hget).change h.coherent.store (h.coherent.change label)
  | drainOutbox id limit =>
    refine ⟨h.coherent, h.dispatches, fun {id' drain} hget => ?_⟩
    simp only [Fleet.step, OrderedMap.get_set] at hget
    split_ifs at hget
    · exact Option.some.inj hget ▸ trivial
    · exact h.drains hget
  | drain id now claimId cleanupId reply =>
    simp only [Fleet.step]
    split
    · exact h
    rename_i drain hdrain
    obtain ⟨hinv, hphase⟩ := Drain.act_fits now claimId cleanupId reply h.coherent
      ⟨h.dispatches, h.drains hdrain⟩
    refine ⟨h.coherent.stepIf _, hinv, fun {id' other} hget => ?_⟩
    rw [OrderedMap.get_set] at hget
    split_ifs at hget
    · exact Option.some.inj hget ▸ hphase
    · exact (h.drains hget).stepIf h.coherent _
  | crash id =>
    simp only [Fleet.step]
    split
    · exact h
    refine ⟨h.coherent, h.dispatches, fun {id' drain} hget => ?_⟩
    rw [OrderedMap.get_set] at hget
    split_ifs at hget
    · exact Option.some.inj hget ▸ trivial
    · exact h.drains hget

theorem Fleet.sound_run (acts : List Act) : (Fleet.init.run acts).Sound :=
  Machine.invariant_run Fleet.Sound (fun _ act h => h.step act) Fleet.sound_init acts

/-- Nothing a drain does resets a run, wherever it stands and whatever it is answered. -/
theorem Fleet.Sound.spares (h : f.Sound) (worker : Nat) (now : Time) (claimId cleanupId : String)
    (reply : Reply) {id : String} {r : Run} (hr : f.world.store.runs.get id = some r) :
    ∃ r', (f.step (.drain worker now claimId cleanupId reply)).world.store.runs.get id = some r' ∧
      Spares r r' := by
  simp only [Fleet.step]
  split
  · exact ⟨r, hr, .refl r⟩
  rename_i drain _
  cases hact : (drain.act f.world.store now claimId cleanupId reply).1 with
  | none => exact ⟨r, hr, .refl r⟩
  | some label => exact h.coherent.delivers_spares (Drain.act_delivers label hact) hr

/-- No dispatch is lost. -/
structure Fleet.Dispatched (f : Fleet) : Prop where
  /-- The run of a delivered dispatch is queued or no longer live. -/
  done : ∀ k e, f.world.store.outbox.get k = some e → e.kind = .dispatchRun → e.state = .done →
    ∀ r, f.world.store.runs.get e.runId = some r → r.queue.isSome = true ∨ isLive r.state = false
  /-- A pending run that is not queued has its dispatch still to be delivered. -/
  waiting : ∀ id r, f.world.store.runs.get id = some r → r.state = .pending → r.queue = none →
    ∃ e, f.world.store.outbox.get (entryIdOf .dispatch id) = some e ∧ e.kind = .dispatchRun ∧
      e.runId = id ∧ Undelivered e
  /-- No delivery resets a run. -/
  spares : ∀ worker now claimId cleanupId reply id r, f.world.store.runs.get id = some r →
    ∃ r', (f.step (.drain worker now claimId cleanupId reply)).world.store.runs.get id = some r' ∧
      Spares r r'

theorem Undelivered.state_ne_done {e : OutboxEntry} (h : Undelivered e) : e.state ≠ .done := by
  rintro hdone
  rcases h with hstate | ⟨_, _, hstate⟩ | ⟨hstate, -⟩
  all_goals
    rw [hdone] at hstate
    cases hstate

/-- Whatever drains, crashes and other operations do, and in whatever order. -/
theorem Fleet.no_dispatch_lost (acts : List Act) : (Fleet.init.run acts).Dispatched := by
  have h := Fleet.sound_run acts
  have hs := h.coherent.store
  refine ⟨fun k e he hkind hdone r hr => ?_, fun id r hr hpending hnone => ?_,
    fun worker now claimId cleanupId reply id r hr => h.spares worker now claimId cleanupId reply hr⟩
  · have haddressed := (h.dispatches.addressed he).dispatch.1 hkind
    rw [hs.entryKeyed he] at haddressed
    cases hstate : r.state with
    | pending =>
      cases hqueue : r.queue with
      | some _ => exact .inl rfl
      | none =>
        obtain ⟨x, hx, hundelivered⟩ := h.dispatches.waiting hr hstate hqueue
        rw [← haddressed, he] at hx
        exact absurd (Option.some.inj hx ▸ hdone) hundelivered.state_ne_done
    | running => exact .inl (h.dispatches.queued hr hstate)
    | _ => exact .inr rfl
  · obtain ⟨e, he, hundelivered⟩ := h.dispatches.waiting hr hpending hnone
    obtain ⟨tag, hid, hkind⟩ := h.dispatches.addressed he
    obtain ⟨rfl, hrun⟩ := entryIdOf_inj.1 (hid.symm.trans (hs.entryKeyed he))
    exact ⟨e, he, hkind.2 rfl, hrun, hundelivered⟩

end Fleet

end AgentLcars
