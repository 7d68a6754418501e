import AgentLcars.Dispatch
import AgentLcars.Lease
import AgentLcars.Lib.Spacing

/-!
# Backoff and retirement

Any number of drains deliver the entries, and each settles under the claim it holds, whatever has
become of the entry since.  What is carried from one attempt to the next is on the record alone.

* `HandlerSettles` is how the handlers settle, and `Fleet.Faithful` says that a drain's handler is
  one of them.
* `Tracked` is what a drain knows of the entry it holds: while its claim is the current one, the
  stored entry is the one it was handed.
* `BackoffLaw` ties the failure history of the stored entry to the failures recorded for it.
* `Fleet.failures_back_off` is the result.
-/

namespace AgentLcars

/-- How old an outcome report is when its anchor is looked up before delivery. -/
def OUTBOX_STALE_REPORT_AGE_MS : Time := 24 * 60 * 60 * 1000

/-- How long a waiting delivery monitor sleeps between unprompted reads. -/
def DELIVERY_MONITOR_FALLBACK_MS : Time := 60 * 60000

/-- How the handlers settle the entry they were handed. -/
inductive HandlerSettles (leased : LeasedOutboxEntry) (now : Time) : OutboxSettlement → Prop where
  | done : HandlerSettles leased now (settleClaim leased .done now {})
  | anchorClosed (hkind : leased.entry.kind = .reportOutcome)
      (hstale : OUTBOX_STALE_REPORT_AGE_MS ≤ now - leased.entry.createdAt) :
      HandlerSettles leased now (settleClaim leased .failed now {})
  | failed : HandlerSettles leased now (settleRetryableFailure leased now)
  | waiting (hkind : leased.entry.kind = .monitorDelivery) (readAt : Time) :
      HandlerSettles leased now (settleClaim leased .pending now
        { nextAttemptAt := some (readAt + DELIVERY_MONITOR_FALLBACK_MS), recovered := true })

/-- The settlement a handler answers with. -/
def Reply.settlement (leased : LeasedOutboxEntry) (now : Time) : Reply → Option OutboxSettlement
  | .delivered state failureState _ _ | .unsettled state failureState _ =>
    some (settleClaim leased state now failureState)
  | _ => none

/-- The entry a drain holds. -/
def DrainPhase.held : DrainPhase → Option LeasedOutboxEntry
  | .handling leased | .enqueueing leased | .confirming leased | .settling leased _
  | .failing leased _ => some leased
  | _ => none

/-- The clock reading of a drain's act. -/
def Act.clockOf (worker : Nat) : Act → Option Time
  | .drain id now _ _ _ => if id = worker then some now else none
  | _ => none

/-- Only drains claim, their handlers settle as the source does, and `wakeDeliveryMonitor` wakes the
entry of a delivery. -/
def Fleet.Faithful (f : Fleet) : Act → Prop
  | .other label _ =>
    (∀ limit now leaseExpiresAt excluded claimIds,
      label ≠ .claimPendingOutbox limit now leaseExpiresAt excluded claimIds) ∧
    ∀ entryId now, label = .wakeOutbox entryId now → ∃ runId, entryId = entryIdOf .delivery runId
  | .drain worker now _ _ reply =>
    ∀ drain leased, f.drains.get worker = some drain → drain.phase = .handling leased →
      ∀ input, reply.settlement leased now = some input → HandlerSettles leased now input
  | _ => True

/-! ### The acts of a drain -/

section Act

variable {drain : Drain} {s : Store} {now : Time} {claimId cleanupId : String} {reply : Reply}

theorem attempt_held {step : Step} {returned : Drain} {thrown : String → Drain}
    {leased : LeasedOutboxEntry}
    (h : (attempt reply step returned thrown).2.phase.held = some leased) :
    ((attempt reply step returned thrown).1 = some step ∧ returned.phase.held = some leased) ∨
      ∃ error, (thrown error).phase.held = some leased := by
  cases reply with
  | throws error applied => exact .inr ⟨error, h⟩
  | _ => exact .inl ⟨rfl, h⟩

/-- A drain goes on with the entry it holds, or holds the one it has just claimed. -/
theorem Drain.act_held {leased : LeasedOutboxEntry}
    (h : (drain.act s now claimId cleanupId reply).2.phase.held = some leased) :
    drain.phase.held = some leased ∨
      ∃ excluded, (drain.act s now claimId cleanupId reply).1 =
          some (.claimPendingOutbox 1 now (now + OUTBOX_LEASE_MS) excluded fun _ => claimId) ∧
        leased.claimId = claimId ∧
        (s.claimedOutbox 1 now (now + OUTBOX_LEASE_MS) excluded fun _ => claimId).head? =
          some leased.entry := by
  cases hphase : drain.phase with
  | claiming =>
    simp only [Drain.act, hphase] at h ⊢
    split_ifs at h with hlimit
    · cases h
    · rw [if_neg hlimit]
      rcases attempt_held h with ⟨hstep, hreturned⟩ | ⟨_, hthrown⟩
      · refine .inr ⟨_, hstep, ?_⟩
        split at hreturned
        · cases hreturned
        · rename_i entry hentry
          cases hreturned
          exact ⟨rfl, hentry⟩
      · cases hthrown
  | handling held =>
    refine .inl ?_
    simp only [Drain.act, hphase] at h
    split_ifs at h
    · split at h
      · exact h
      split at h
      · exact h
      · split_ifs at h <;> exact h
    · split at h
      · rwa [hphase] at h
      · exact h
      · cases h
      · exact h
  | enqueueing held =>
    simp only [Drain.act, hphase] at h
    rcases attempt_held h with ⟨-, hreturned⟩ | ⟨_, hthrown⟩
    · exact .inl hreturned
    · exact .inl hthrown
  | confirming held =>
    simp only [Drain.act, hphase] at h
    rcases attempt_held h with ⟨-, hreturned⟩ | ⟨_, hthrown⟩
    · refine .inl ?_
      dsimp only at hreturned
      split at hreturned <;> exact hreturned
    · exact .inl hthrown
  | settling held =>
    simp only [Drain.act, hphase] at h
    rcases attempt_held h with ⟨-, hreturned⟩ | ⟨_, hthrown⟩
    · cases hreturned
    · exact .inl hthrown
  | failing held =>
    simp only [Drain.act, hphase] at h
    rcases attempt_held h with ⟨-, hreturned⟩ | ⟨_, hthrown⟩
    · cases hreturned
    · cases hthrown
  | ended =>
    simp only [Drain.act, hphase] at h
    cases h
/-- The store operations of a drain, each under the clock it has just read. -/
inductive Drain.Issues (drain : Drain) (now : Time) (claimId : String) : Step → Prop where
  | claim (excluded : List String) : Drain.Issues drain now claimId
      (.claimPendingOutbox 1 now (now + OUTBOX_LEASE_MS) excluded fun _ => claimId)
  | enqueue (runId : String) : Drain.Issues drain now claimId (.enqueueRun runId now)
  | confirm (runId cleanupId : String) :
      Drain.Issues drain now claimId (.onRun runId now cleanupId .confirmDispatch)
  | settle {leased : LeasedOutboxEntry} {input : OutboxSettlement}
      (hheld : drain.phase.held = some leased) (h : HandlerSettles leased now input) :
      Drain.Issues drain now claimId (.settleOutbox input)

theorem Drain.act_issues
    (hreply : ∀ leased, drain.phase = .handling leased →
      ∀ input, reply.settlement leased now = some input → HandlerSettles leased now input) :
    ∀ step ∈ (drain.act s now claimId cleanupId reply).1, drain.Issues now claimId step := by
  have hnone : ∀ step ∈ (none : Option Step), drain.Issues now claimId step := fun _ h =>
    absurd h (Option.not_mem_none _)
  cases hphase : drain.phase with
  | claiming =>
    simp only [Drain.act, hphase]
    split_ifs
    · exact hnone
    · exact attempt_step (.claim _)
  | handling leased =>
    have hheld : drain.phase.held = some leased := by rw [hphase]; rfl
    simp only [Drain.act, hphase]
    split_ifs
    · split
      · exact hnone
      split
      · exact hnone
      · split_ifs <;> exact hnone
    · split
      · exact hnone
      · exact hnone
      · rintro step ⟨rfl⟩
        exact .settle hheld (hreply leased hphase _ rfl)
      · rintro step ⟨rfl⟩
        exact .settle hheld (hreply leased hphase _ rfl)
  | enqueueing leased =>
    simp only [Drain.act, hphase]
    exact attempt_step (.enqueue _)
  | confirming leased =>
    simp only [Drain.act, hphase]
    exact attempt_step (.confirm _ _)
  | settling leased =>
    simp only [Drain.act, hphase]
    exact attempt_step (.settle (by rw [hphase]; rfl) .done)
  | failing leased =>
    simp only [Drain.act, hphase]
    exact attempt_step (.settle (by rw [hphase]; rfl) .failed)
  | ended =>
    simp only [Drain.act, hphase]
    exact hnone

end Act

/-! ### An entry among the acts -/

/-- The store operation of an act. -/
def Fleet.label (f : Fleet) : Act → Option Step
  | .other label _ => some label
  | .drain id now claimId cleanupId reply =>
    (f.drains.get id).bind fun drain => (drain.act f.world.store now claimId cleanupId reply).1
  | _ => none

/-- The act commits a decision that emits the entry. -/
def Fleet.emits (f : Fleet) (id : String) (act : Act) : Bool := (f.label act).any (f.world.emits id)

/-- The leased entry an act hands to a worker. -/
def Fleet.handout (f : Fleet) (id : String) (act : Act) : Option OutboxEntry :=
  (f.label act).bind (f.world.handout id)

/-- The time of the delivery failure a settlement records. -/
def OutboxSettlement.failedAt (input : OutboxSettlement) : Option Time :=
  input.firstFailedAt.map fun _ => input.now

/-- The time of the delivery failure an act records for the entry. -/
def Fleet.failure (f : Fleet) (id : String) (act : Act) : Option Time :=
  ((f.label act).bind (f.world.settlement id)).bind (·.failedAt)

/-- The hand-outs of an entry along a list of acts. -/
def Fleet.handouts (f : Fleet) (id : String) (acts : List Act) : List OutboxEntry :=
  Machine.events Fleet.step (fun f act => f.handout id act) f acts

/-- The times of the delivery failures recorded for an entry along a list of acts. -/
def Fleet.failures (f : Fleet) (id : String) (acts : List Act) : List Time :=
  Machine.events Fleet.step (fun f act => f.failure id act) f acts

theorem Fleet.step_world (f : Fleet) (act : Act) :
    (f.step act).world = f.world.stepIf (f.label act) := by
  cases act with
  | other => rfl
  | drainOutbox => rfl
  | drain id =>
    simp only [Fleet.step, Fleet.label]
    cases f.drains.get id <;> rfl
  | crash id =>
    simp only [Fleet.step, Fleet.label]
    cases f.drains.get id <;> rfl

section Entry

variable {w : World} {f : Fleet} {id : String} {label : Step} {act : Act} {e e' : OutboxEntry}

/-- What is handed out was due, or under a lease that has run out, and is stored as handed out. -/
theorem World.Coherent.handed_out (hw : w.Coherent) (h : w.handout id label = some e') :
    ∃ limit now leaseExpiresAt excluded claimIds e claimId,
      label = .claimPendingOutbox limit now leaseExpiresAt excluded claimIds ∧
      w.store.outbox.get id = some e ∧
      (Store.isDue e now excluded = true ∨ Store.leaseExpired e now = true) ∧
      e' = Store.leaseEntry e claimId leaseExpiresAt now ∧
      (w.step label).store.outbox.get id = some e' := by
  cases label with
  | claimPendingOutbox limit now leaseExpiresAt excluded claimIds =>
    have hid : decide (e'.entryId = id) = true :=
      List.find?_some (p := fun y : OutboxEntry => decide (y.entryId = id)) h
    obtain ⟨⟨x, i⟩, hx, rfl⟩ := List.mem_map.1 (List.mem_of_find?_eq_some h)
    obtain rfl : x.entryId = id := of_decide_eq_true hid
    obtain ⟨k, hk⟩ := (OrderedMap.mem_values_iff _ _).1
      (claimableOutbox_mem (List.fst_mem_of_mem_zipIdx hx)).1
    have hget : w.store.outbox.get x.entryId = some x := by rw [hw.store.entryKeyed hk, hk]
    rcases w.store.claimPendingOutbox_get hw.store hget with
      ⟨hnone, -⟩ | ⟨claimId, hdue, hfind, hstored⟩
    · exact absurd (hnone.symm.trans h) nofun
    · exact ⟨limit, now, leaseExpiresAt, excluded, claimIds, x, claimId, rfl, hget, hdue,
        Option.some.inj (h.symm.trans hfind), hstored.trans (hfind.symm.trans h)⟩
  | _ => cases h

/-- An entry under a claim was under it before, or is handed out under it. -/
theorem World.Coherent.leased_back (hw : w.Coherent)
    (he' : (w.step label).store.outbox.get id = some e') {claimId : String}
    (hclaim : e'.claimId = some claimId) :
    w.store.outbox.get id = some e' ∨ w.handout id label = some e' := by
  have hnot : e'.state ≠ .pending := by
    intro hpending
    rw [OutboxEntry.claimId, hpending] at hclaim
    cases hclaim
  cases hemits : w.emits id label with
  | true =>
    obtain ⟨x, hx, hstate, -⟩ := hw.emitted hemits
    obtain rfl := Option.some.inj (hx.symm.trans he')
    exact absurd hstate hnot
  | false =>
    cases hd : w.decision label with
    | some d => exact .inl (hw.unemitted hd hemits ▸ he')
    | none =>
      obtain ⟨e, he, -⟩ := (hw.undecided hd).entry_back he'
      obtain ⟨x, hx, hhandled⟩ := hw.handled he hemits
      obtain rfl := Option.some.inj (hx.symm.trans he')
      cases hhandled with
      | kept => exact .inl he
      | handed _ _ _ _ _ _ hhandout => exact .inr hhandout
      | settled input hsettle =>
        rw [OutboxEntry.claimId, (settleOutboxEntry_eq_some hsettle).state] at hclaim
        cases hstate : input.state <;> simp [hstate, SettlementState.entryState] at hclaim
      | woken now hwake =>
        obtain ⟨hpending, next, -, -, rfl⟩ := wakeOutboxEntry_eq_some hwake
        exact absurd hpending hnot

end Entry

/-! ### What a drain knows of its entry -/

/-- While the claim a drain holds is the current one, the stored entry is the one it was handed, and
was due by a clock reading of this drain. -/
structure Knows (f : Fleet) (id : String) (handouts : List OutboxEntry) (clocks : List Time)
    (leased : LeasedOutboxEntry) : Prop where
  known : some leased.claimId ∈ handouts.map (·.claimId)
  current : ∀ e, f.world.store.outbox.get id = some e → e.claimId = some leased.claimId →
    e = leased.entry ∧ ∃ c ∈ clocks, ∀ next, e.nextAttemptAt = some next → next ≤ c

/-- What all drains know of an entry. -/
structure Tracked (f : Fleet) (id : String) (handouts : List OutboxEntry)
    (clocks : Nat → List Time) : Prop where
  knows : ∀ worker drain leased, f.drains.get worker = some drain →
    drain.phase.held = some leased → leased.entry.entryId = id →
    Knows f id handouts (clocks worker) leased
  leased : ∀ e claimId expires, f.world.store.outbox.get id = some e →
    e.state = .leased claimId expires → ∀ next, e.nextAttemptAt = some next → next ≤ expires

section Tracking

variable {f : Fleet} {id : String} {act : Act} {e e' : OutboxEntry} {handouts : List OutboxEntry}
  {clocks : Nat → List Time}

/-- What an act hands out, it hands to the drain that acts. -/
theorem Tracked.handed_out (h : Tracked f id handouts clocks) (hf : f.Sound) (hact : f.Faithful act)
    (hhandout : f.handout id act = some e') :
    ∃ worker now claimId, act.clockOf worker = some now ∧
      (f.step act).world.store.outbox.get id = some e' ∧
      e'.state = .leased claimId (now + OUTBOX_LEASE_MS) ∧
      ∀ next, e'.nextAttemptAt = some next → next ≤ now := by
  obtain ⟨label, hlabel, hsome⟩ := Option.bind_eq_some_iff.1 hhandout
  obtain ⟨limit, now, expires, excluded, claimIds, e, claimId, rfl, he, hdue, rfl, hstored⟩ :=
    hf.coherent.handed_out hsome
  have hnext : ∀ next, e.nextAttemptAt = some next → next ≤ now := by
    intro next hnext
    rcases hdue with hdue | hexpired
    · simp only [Store.isDue, decide_eq_true_eq, hnext, Option.all_some] at hdue
      exact hdue.2.2
    · unfold Store.leaseExpired at hexpired
      split at hexpired
      · rename_i owner expires hstate
        exact le_trans (h.leased e owner expires he hstate next hnext) (of_decide_eq_true hexpired)
      · cases hexpired
  rw [Fleet.step_world, hlabel]
  cases act with
  | other label _ =>
    obtain rfl := Option.some.inj hlabel
    exact absurd rfl (hact.1 _ _ _ _ _)
  | drain worker at_ own cleanupId reply =>
    obtain ⟨drain, hdrain, hlabel⟩ := Option.bind_eq_some_iff.1 hlabel
    have hissues := Drain.act_issues (fun leased => hact drain leased hdrain) _ hlabel
    cases hissues
    exact ⟨worker, now, claimId, if_pos rfl, hstored, rfl, hnext⟩
  | drainOutbox => cases hlabel
  | crash => cases hlabel

/-- An entry under a claim was under it before the act, or is handed out by it. -/
theorem Fleet.Sound.leased_back (hf : f.Sound)
    (he' : (f.step act).world.store.outbox.get id = some e') {claimId : String}
    (hclaim : e'.claimId = some claimId) :
    f.world.store.outbox.get id = some e' ∨ f.handout id act = some e' := by
  rw [Fleet.step_world] at he'
  unfold Fleet.handout
  cases hlabel : f.label act with
  | none =>
    rw [hlabel] at he'
    exact .inl he'
  | some label =>
    rw [hlabel] at he'
    exact hf.coherent.leased_back he' hclaim

/-- What a drain holds after an act it held before, or it has just been handed it. -/
theorem Fleet.held_back {worker : Nat} {drain' : Drain} {leased : LeasedOutboxEntry}
    (hdrain' : (f.step act).drains.get worker = some drain')
    (hheld : drain'.phase.held = some leased) :
    (∃ drain, f.drains.get worker = some drain ∧ drain.phase.held = some leased) ∨
      ∃ now excluded, act.clockOf worker = some now ∧
        f.label act = some (.claimPendingOutbox 1 now (now + OUTBOX_LEASE_MS) excluded
          fun _ => leased.claimId) ∧
        (f.world.store.claimedOutbox 1 now (now + OUTBOX_LEASE_MS) excluded
          fun _ => leased.claimId).head? = some leased.entry := by
  cases act with
  | other => exact .inl ⟨drain', hdrain', hheld⟩
  | drainOutbox id limit =>
    simp only [Fleet.step, OrderedMap.get_set] at hdrain'
    split_ifs at hdrain'
    · obtain rfl := Option.some.inj hdrain'
      cases hheld
    · exact .inl ⟨drain', hdrain', hheld⟩
  | crash id =>
    simp only [Fleet.step] at hdrain'
    split at hdrain'
    · exact .inl ⟨drain', hdrain', hheld⟩
    rw [OrderedMap.get_set] at hdrain'
    split_ifs at hdrain'
    · obtain rfl := Option.some.inj hdrain'
      cases hheld
    · exact .inl ⟨drain', hdrain', hheld⟩
  | drain id now claimId cleanupId reply =>
    simp only [Fleet.step] at hdrain'
    split at hdrain'
    · exact .inl ⟨drain', hdrain', hheld⟩
    rename_i drain hdrain
    rw [OrderedMap.get_set] at hdrain'
    split_ifs at hdrain' with hworker
    · subst hworker
      obtain rfl := Option.some.inj hdrain'
      rcases Drain.act_held hheld with hheld | ⟨excluded, hlabel, rfl, hhead⟩
      · exact .inl ⟨drain, hdrain, hheld⟩
      · refine .inr ⟨now, excluded, if_pos rfl, ?_, hhead⟩
        rw [Fleet.label, hdrain]
        exact hlabel
    · exact .inl ⟨drain', hdrain', hheld⟩

/-- Another act leaves a drain what it knows. -/
theorem Knows.step {leased : LeasedOutboxEntry} {own : List Time}
    (h : Knows f id handouts own leased) (hf : f.Sound)
    (hfresh : ((handouts ++ (f.handout id act).toList).map (·.claimId)).Nodup) (more : List Time) :
    Knows (f.step act) id (handouts ++ (f.handout id act).toList) (own ++ more) leased := by
  refine ⟨?_, fun e' he' hclaim => ?_⟩
  · rw [List.map_append]
    exact List.mem_append_left _ h.known
  · rcases hf.leased_back he' hclaim with he | hhandout
    · obtain ⟨heq, c, hc, hnext⟩ := h.current e' he hclaim
      exact ⟨heq, c, List.mem_append_left _ hc, hnext⟩
    · rw [hhandout, List.map_append, List.nodup_append] at hfresh
      exact absurd hclaim.symm (hfresh.2.2 _ h.known _ (by simp))

/-- Every act keeps track, as long as no claim id is reused. -/
theorem Tracked.step (h : Tracked f id handouts clocks) (hf : f.Sound) (hact : f.Faithful act)
    (hfresh : ((handouts ++ (f.handout id act).toList).map (·.claimId)).Nodup) :
    Tracked (f.step act) id (handouts ++ (f.handout id act).toList)
      fun worker => clocks worker ++ (act.clockOf worker).toList := by
  refine ⟨fun worker drain' leased hdrain' hheld hid => ?_, fun e' claimId expires he' hstate => ?_⟩
  · rcases Fleet.held_back hdrain' hheld with
      ⟨drain, hdrain, hheld⟩ | ⟨now, excluded, hclock, hlabel, hhead⟩
    · exact (h.knows worker drain leased hdrain hheld hid).step hf hfresh _
    · have hhandout : f.handout id act = some leased.entry := by
        rw [Fleet.handout, hlabel, Option.bind_some, World.handout]
        obtain ⟨rest, hrest⟩ := List.head?_eq_some_iff.1 hhead
        rw [hrest, List.find?_cons_of_pos (by simp [hid])]
      obtain ⟨⟨x, i⟩, -, hentry⟩ := List.mem_map.1 (List.mem_of_mem_head? hhead)
      obtain ⟨worker', now', claimId, hclock', hstored, hstate, hnext⟩ :=
        h.handed_out hf hact hhandout
      refine ⟨?_, fun e' he' _ => ?_⟩
      · rw [hhandout, List.map_append, List.mem_append]
        refine .inr (List.mem_singleton.2 ?_)
        rw [← hentry]
        rfl
      · obtain rfl := Option.some.inj (hstored.symm.trans he')
        refine ⟨rfl, now, ?_, ?_⟩
        · rw [hclock]
          simp
        · have hsame : now' = now := by
            cases act with
            | drain =>
              simp only [Act.clockOf, Option.ite_none_right_eq_some, Option.some.injEq]
                at hclock hclock'
              rw [← hclock.2, ← hclock'.2]
            | _ => cases hclock
          exact hsame ▸ hnext
  · have hclaim : e'.claimId = some claimId := by rw [OutboxEntry.claimId, hstate]
    rcases hf.leased_back he' hclaim with he | hhandout
    · exact h.leased e' claimId expires he hstate
    · obtain ⟨_, now, _, -, -, hleased, hnext⟩ := h.handed_out hf hact hhandout
      obtain ⟨rfl, rfl⟩ := OutboxState.leased.inj (hleased.symm.trans hstate)
      intro next hsome
      exact le_trans (hnext next hsome) (Int.le_add_of_nonneg_right (by decide))

end Tracking

/-! ### One act of one entry -/

/-- The anchor of an outcome report that has grown stale is closed: the handler gives the report up
without an attempt. -/
def Fleet.AnchorClosed (f : Fleet) (e : OutboxEntry) (act : Act) : Prop :=
  e.kind = .reportOutcome ∧ ∃ worker now claimId, act.clockOf worker = some now ∧
    OUTBOX_STALE_REPORT_AGE_MS ≤ now - e.createdAt ∧
    f.label act = some (.settleOutbox (settleClaim ⟨e, claimId⟩ .failed now {}))

/-- The failure history is carried along. -/
structure Carried (e e' : OutboxEntry) : Prop where
  firstFailedAt : e'.firstFailedAt = e.firstFailedAt
  deliveryFailures : e'.deliveryFailures = e.deliveryFailures
  nextAttemptAt : e'.nextAttemptAt = e.nextAttemptAt

/-- What an act does to an entry that is no delivery monitor. -/
inductive EntryAttempted (f : Fleet) (id : String) (act : Act) (e : OutboxEntry) :
    OutboxEntry → Prop where
  | carried {e'} (hfailure : f.failure id act = none) (h : Carried e e')
      (hstays : e.state = .failed → e'.state = .failed)
      (hfailed : e'.state = .failed → e.state = .failed ∨ f.AnchorClosed e act) :
      EntryAttempted f id act e e'
  | failed {e'} (worker : Nat) (now : Time) (claimId : String)
      (hclock : act.clockOf worker = some now) (hfailure : f.failure id act = some now)
      (hdue : ∀ next, e.nextAttemptAt = some next → next ≤ now)
      (hsettle : settleOutboxEntry e (settleRetryableFailure ⟨e, claimId⟩ now) = some e') :
      EntryAttempted f id act e e'

theorem Handled.kind {w : World} {id : String} {label : Step} {e e' : OutboxEntry}
    (h : Handled w id label e e') : e'.kind = e.kind := by
  cases h with
  | kept => rfl
  | handed => rfl
  | settled _ hsettle => exact (settleOutboxEntry_eq_some hsettle).kind
  | woken _ hwake =>
    obtain ⟨-, _, -, -, rfl⟩ := wakeOutboxEntry_eq_some hwake
    rfl

theorem HandlerSettles.fits {leased : LeasedOutboxEntry} {now : Time} {input : OutboxSettlement}
    (h : HandlerSettles leased now input) :
    input.entryId = leased.entry.entryId ∧ input.claimId = leased.claimId := by
  cases h with
  | failed =>
    unfold settleRetryableFailure
    dsimp only
    split_ifs <;> exact ⟨rfl, rfl⟩
  | _ => exact ⟨rfl, rfl⟩

/-- A failure is recorded at the time of its settlement. -/
theorem settleRetryableFailure_failedAt (leased : LeasedOutboxEntry) (now : Time) :
    (settleRetryableFailure leased now).failedAt = some now := by
  unfold settleRetryableFailure
  dsimp only
  split_ifs <;> rfl

/-- A settlement that is no recovery keeps what it does not replace. -/
theorem settleOutboxEntry_history {e e' : OutboxEntry} {input : OutboxSettlement}
    (h : settleOutboxEntry e input = some e') (hrecovered : input.recovered = false) :
    e'.firstFailedAt = input.firstFailedAt.or e.firstFailedAt ∧
      e'.deliveryFailures = input.deliveryFailures.or e.deliveryFailures ∧
      e'.nextAttemptAt = input.nextAttemptAt.or e.nextAttemptAt := by
  unfold settleOutboxEntry at h
  split at h
  · split_ifs at h with hclaim hyes
    · rw [hrecovered] at hyes
      cases hyes
    · obtain rfl := Option.some.inj h
      exact ⟨rfl, rfl, rfl⟩
  · cases h

section Attempt

variable {f : Fleet} {id : String} {act : Act} {e e' : OutboxEntry} {handouts : List OutboxEntry}
  {clocks : Nat → List Time}

/-- A settlement comes from a drain that holds the entry as it is stored. -/
theorem Tracked.settled (h : Tracked f id handouts clocks) (hact : f.Faithful act)
    {input : OutboxSettlement} (hlabel : f.label act = some (.settleOutbox input))
    (hid : input.entryId = id) (he : f.world.store.outbox.get id = some e)
    (hsettle : settleOutboxEntry e input = some e') :
    ∃ worker now, act.clockOf worker = some now ∧ HandlerSettles ⟨e, input.claimId⟩ now input ∧
      ∃ c ∈ clocks worker, ∀ next, e.nextAttemptAt = some next → next ≤ c := by
  cases act with
  | other label hno =>
    obtain rfl := Option.some.inj hlabel
    cases hno
  | drain worker now claimId cleanupId reply =>
    obtain ⟨drain, hdrain, hlabel⟩ := Option.bind_eq_some_iff.1 hlabel
    have hissues := Drain.act_issues (fun leased => hact drain leased hdrain) _ hlabel
    cases hissues with
    | settle hheld hsettles =>
      rename_i leased
      obtain ⟨hentry, hclaim⟩ := hsettles.fits
      obtain ⟨expires, hleased⟩ := (settleOutboxEntry_eq_some hsettle).leased
      have howner : e.claimId = some leased.claimId := by
        rw [OutboxEntry.claimId, hleased, hclaim]
      have hknows := h.knows worker drain leased hdrain hheld (hentry ▸ hid)
      obtain ⟨heq, hdue⟩ := hknows.current e he howner
      refine ⟨worker, now, if_pos rfl, ?_, hdue⟩
      rw [heq, hclaim]
      exact hsettles
  | drainOutbox => cases hlabel
  | crash => cases hlabel

/-- Claims, crashes and lease recoveries carry the history along; a delivery that failed is recorded
when the entry is due. -/
theorem Tracked.attempted (h : Tracked f id handouts clocks) (hf : f.Sound) (hact : f.Faithful act)
    (hkept : f.emits id act = false) (hid : ∀ runId, id ≠ entryIdOf .delivery runId)
    (he : f.world.store.outbox.get id = some e) (hkind : e.kind ≠ .monitorDelivery)
    (hclock : ∀ worker now, act.clockOf worker = some now → ∀ c ∈ clocks worker, c ≤ now) :
    ∃ e', (f.step act).world.store.outbox.get id = some e' ∧ EntryAttempted f id act e e' := by
  rw [Fleet.step_world]
  cases hlabel : f.label act with
  | none =>
    refine ⟨e, he, .carried ?_ ⟨rfl, rfl, rfl⟩ (fun h => h) fun h => .inl h⟩
    rw [Fleet.failure, hlabel]
    rfl
  | some label =>
    have hfailure : f.failure id act = (f.world.settlement id label).bind (·.failedAt) := by
      rw [Fleet.failure, hlabel, Option.bind_some]
    rw [Fleet.emits, hlabel, Option.any_some] at hkept
    obtain ⟨e', he', hhandled⟩ := hf.coherent.handled he hkept
    refine ⟨e', he', ?_⟩
    cases hhandled with
    | kept _ hnone =>
      refine .carried ?_ ⟨rfl, rfl, rfl⟩ (fun h => h) fun h => .inl h
      rw [hfailure, hnone]
      rfl
    | handed claimId now leaseExpiresAt excluded hdue _ _ hnone =>
      refine .carried (by rw [hfailure, hnone]; rfl) ⟨rfl, rfl, rfl⟩ (fun hfailed => ?_)
        fun h => by cases h
      -- A failed entry is neither due nor under a lease.
      rcases hdue with hdue | hexpired
      · simp [Store.isDue, hfailed] at hdue
      · simp [Store.leaseExpired, hfailed] at hexpired
    | woken now hwake hwakes =>
      subst hwakes
      cases act with
      | other label _ =>
        obtain rfl := Option.some.inj hlabel
        obtain ⟨runId, hrun⟩ := hact.2 _ _ rfl
        exact absurd hrun (hid runId)
      | drain worker now claimId cleanupId reply =>
        obtain ⟨drain, hdrain, hissued⟩ := Option.bind_eq_some_iff.1 hlabel
        cases Drain.act_issues (fun leased => hact drain leased hdrain) _ hissued
      | drainOutbox => cases hlabel
      | crash => cases hlabel
    | settled input hsettle _ hsettlement =>
      have hinput : label = .settleOutbox input ∧ input.entryId = id := by
        cases label with
        | settleOutbox given =>
          simp only [World.settlement, Option.ite_none_right_eq_some, Option.some.injEq]
            at hsettlement
          exact ⟨congrArg _ hsettlement.2, hsettlement.2 ▸ hsettlement.1.1⟩
        | _ => cases hsettlement
      obtain ⟨rfl, hentry⟩ := hinput
      obtain ⟨worker, now, hnow, hsettles, c, hc, hdue⟩ := h.settled hact hlabel hentry he hsettle
      have hstate := (settleOutboxEntry_eq_some hsettle).state
      obtain ⟨_, hleased⟩ := (settleOutboxEntry_eq_some hsettle).leased
      have hlive : e.state ≠ .failed := by
        rw [hleased]
        intro h
        cases h
      generalize hclaim : input.claimId = claimId at hsettles
      rw [hsettlement, Option.bind_some] at hfailure
      cases hsettles with
      | done =>
        obtain ⟨hfirst, hcount, hnext⟩ := settleOutboxEntry_history hsettle rfl
        refine .carried hfailure ⟨hfirst, hcount, hnext⟩ (fun h => absurd h hlive) fun hfailed => ?_
        cases hstate.symm.trans hfailed
      | anchorClosed hkind hstale =>
        obtain ⟨hfirst, hcount, hnext⟩ := settleOutboxEntry_history hsettle rfl
        refine .carried hfailure ⟨hfirst, hcount, hnext⟩ (fun h => absurd h hlive) fun _ => .inr ?_
        exact ⟨hkind, worker, now, claimId, hnow, hstale, hlabel⟩
      | failed =>
        rw [settleRetryableFailure_failedAt] at hfailure
        exact .failed worker now claimId hnow hfailure
          (fun next hnext => le_trans (hdue next hnext) (hclock worker now hnow c hc)) hsettle
      | waiting hmonitor => exact absurd hmonitor hkind

end Attempt

/-! ### The law of the failures -/

/-- The pause before the next attempt, by the number of failures before the last. -/
def backoffMs (before : Nat) : Time :=
  min OUTBOX_BACKOFF_CAP_MS (OUTBOX_BACKOFF_BASE_MS * 2 ^ before)

/-- 148 pauses fill the window of retirement. -/
theorem retirement_filled : OUTBOX_RETIRE_AFTER_MS ≤ ∑ i ∈ Finset.range 148, backoffMs i := by
  decide +kernel

/-- The history of an entry that has not failed for good. -/
structure Retrying (e : OutboxEntry) (failures : List Time) : Prop where
  count : e.deliveryFailures.getD 0 = failures.length
  next : e.nextAttemptAt = failures.getLast?.map (· + backoffMs (failures.length - 1))
  within : ∀ first, failures.head? = some first → ∀ t ∈ failures, t < first + OUTBOX_RETIRE_AFTER_MS

/-- The history of an entry accounts for the failures recorded for it. -/
structure BackoffLaw (e : OutboxEntry) (failures : List Time) : Prop where
  first : e.firstFailedAt = failures.head?
  spaced : Spacing.Spaced backoffMs failures
  bounded : failures.length ≤ 149
  retrying : e.state ≠ .failed → Retrying e failures

/-- The entry is given up at a failure recorded when the window has passed. -/
def Retires (failures : List Time) (t : Time) : Prop :=
  ∃ first, (failures ++ [t]).head? = some first ∧ first + OUTBOX_RETIRE_AFTER_MS ≤ t

section Law

variable {f : Fleet} {id : String} {act : Act} {e e' : OutboxEntry} {failures : List Time}

theorem head_concat (failures : List Time) (now : Time) :
    (failures ++ [now]).head? = some (failures.head?.getD now) := by
  cases failures <;> rfl

/-- A recorded failure extends the history, and gives the entry up if the window has passed. -/
theorem BackoffLaw.fails (h : BackoffLaw e failures) {claimId : String} {now : Time}
    (hdue : ∀ next, e.nextAttemptAt = some next → next ≤ now)
    (hsettle : settleOutboxEntry e (settleRetryableFailure ⟨e, claimId⟩ now) = some e') :
    BackoffLaw e' (failures ++ [now]) ∧ (e'.state = .failed → Retires failures now) := by
  obtain ⟨_, hleased⟩ := (settleOutboxEntry_eq_some hsettle).leased
  have hlive : e.state ≠ .failed := by
    rw [hleased]
    nofun
  obtain ⟨hcount, hnext, hwithin⟩ := h.retrying hlive
  have hspaced : Spacing.Spaced backoffMs (failures ++ [now]) := by
    refine h.spaced.concat fun last hlast => hdue _ ?_
    rw [hnext, hlast]
    rfl
  have hlength : failures.length ≤ 148 := h.spaced.length_le hwithin retirement_filled
  have hbounded : (failures ++ [now]).length ≤ 149 := by
    rw [List.length_append, List.length_singleton]
    omega
  have hstate := (settleOutboxEntry_eq_some hsettle).state
  by_cases hretired : OUTBOX_RETIRE_AFTER_MS ≤ now - e.firstFailedAt.getD now
  · have hsettlement : settleRetryableFailure ⟨e, claimId⟩ now =
        settleClaim ⟨e, claimId⟩ .failed now
        { now := some now, firstFailedAt := some (e.firstFailedAt.getD now) } := if_pos hretired
    rw [hsettlement] at hsettle hstate
    obtain ⟨hfirst, -, -⟩ := settleOutboxEntry_history hsettle rfl
    refine ⟨⟨?_, hspaced, hbounded, fun hne => absurd hstate hne⟩, fun _ => ?_⟩
    · rw [hfirst, head_concat, ← h.first]
      rfl
    · refine ⟨_, head_concat failures now, ?_⟩
      rw [← h.first]
      exact Int.add_le_of_le_sub_left hretired
  · have hsettlement : settleRetryableFailure ⟨e, claimId⟩ now =
        settleClaim ⟨e, claimId⟩ .pending now
        { now := some now, firstFailedAt := some (e.firstFailedAt.getD now)
          nextAttemptAt := some (now + backoffMs (e.deliveryFailures.getD 0))
          deliveryFailures := some (e.deliveryFailures.getD 0 + 1) } := if_neg hretired
    rw [hsettlement] at hsettle hstate
    obtain ⟨hfirst, hcount', hnext'⟩ := settleOutboxEntry_history hsettle rfl
    refine ⟨⟨?_, hspaced, hbounded, fun _ => ⟨?_, ?_, ?_⟩⟩, fun hfailed => ?_⟩
    · rw [hfirst, head_concat, ← h.first]
      rfl
    · rw [hcount', List.length_append, List.length_singleton, ← hcount]
      rfl
    · rw [hnext', List.getLast?_concat, List.length_append, List.length_singleton,
        Nat.add_sub_cancel, ← hcount]
      rfl
    · intro first hhead t ht
      rw [head_concat] at hhead
      obtain rfl := Option.some.inj hhead
      rcases List.mem_append.1 ht with ht | ht
      · cases hfailures : failures.head? with
        | none => simp [List.head?_eq_none_iff.1 hfailures] at ht
        | some first => exact hwithin first hfailures t ht
      · obtain rfl := List.mem_singleton.1 ht
        rw [← h.first]
        exact Int.lt_add_of_sub_left_lt (Int.not_le.1 hretired)
    · exact absurd (hstate.symm.trans hfailed) nofun

/-- Every act keeps the law. -/
theorem BackoffLaw.step (h : BackoffLaw e failures) (hact : EntryAttempted f id act e e') :
    BackoffLaw e' (failures ++ (f.failure id act).toList) := by
  cases hact with
  | carried hfailure hcarried hstays =>
    rw [hfailure, Option.toList_none, List.append_nil]
    refine ⟨hcarried.firstFailedAt.trans h.first, h.spaced, h.bounded, fun hlive => ?_⟩
    obtain ⟨hcount, hnext, hwithin⟩ := h.retrying fun hfailed => hlive (hstays hfailed)
    refine ⟨?_, ?_, hwithin⟩
    · rw [hcarried.deliveryFailures, hcount]
    · rw [hcarried.nextAttemptAt, hnext]
  | failed _ now _ _ hfailure hdue hsettle =>
    rw [hfailure, Option.toList_some]
    exact (h.fails hdue hsettle).1

end Law

/-! ### Whole runs -/

theorem Fleet.run_concat (f : Fleet) (acts : List Act) (act : Act) :
    f.run (acts ++ [act]) = (f.run acts).step act := Machine.run_append _ _ _ _

/-- Every drain keeps track of every entry. -/
theorem Fleet.tracked_run (id : String) {acts : List Act}
    (hfaithful : Machine.Along Fleet.step Fleet.Faithful Fleet.init acts)
    (hfresh : ((Fleet.init.handouts id acts).map (·.claimId)).Nodup) :
    Tracked (Fleet.init.run acts) id (Fleet.init.handouts id acts)
      fun worker => acts.filterMap (Act.clockOf worker) := by
  induction acts using List.reverseRecOn with
  | nil => exact ⟨fun _ _ _ h => (by cases h), fun _ _ _ h => (by cases h)⟩
  | append_singleton acts act ih =>
    obtain ⟨hacts, hact, -⟩ := Machine.Along.append.1 hfaithful
    have hhandouts : Fleet.init.handouts id (acts ++ [act]) =
        Fleet.init.handouts id acts ++ ((Fleet.init.run acts).handout id act).toList := by
      simp [Fleet.handouts, Machine.events_append, Fleet.run]
    have hclocks : ∀ worker, (acts ++ [act]).filterMap (Act.clockOf worker) =
        acts.filterMap (Act.clockOf worker) ++ (act.clockOf worker).toList := by
      intro worker
      cases hclock : act.clockOf worker <;> simp [hclock]
    rw [hhandouts] at hfresh ⊢
    simp only [hclocks, Fleet.run_concat]
    exact (ih hacts (hfresh.sublist ((List.sublist_append_left _ _).map _))).step
      (Fleet.sound_run acts) hact hfresh

section Life

variable {first more : List Act} {born : Act} {id : String}

/-- An entry starts without failures. -/
theorem Fleet.Sound.born_untried {f : Fleet} (hf : f.Sound) (hborn : f.emits id born = true) :
    ∃ e, (f.step born).world.store.outbox.get id = some e ∧ (e.kind ≠ .monitorDelivery →
      (∀ runId, id ≠ entryIdOf .delivery runId) ∧ BackoffLaw e []) := by
  obtain ⟨label, hlabel, hemits⟩ := (Option.any_eq_true _ _).1 hborn
  obtain ⟨e, tag, r, he, habout⟩ := hf.coherent.emitted_about hemits
  have hid : id = entryIdOf tag r.runId :=
    ((hf.coherent.step label).store.entryKeyed he).symm.trans habout.entryId
  rw [Fleet.step_world, hlabel]
  refine ⟨e, he, fun hkind => ?_⟩
  have htag : tag ≠ .delivery := by
    rintro rfl
    exact hkind habout.kind
  obtain ⟨hfirst, hcount, hnext⟩ := habout.untried
  refine ⟨fun runId hrun => htag (entryIdOf_inj.1 (hid.symm.trans hrun)).1, ?_⟩
  refine ⟨hfirst, .nil, Nat.zero_le _, fun _ => ⟨?_, hnext htag, fun _ h => by cases h⟩⟩
  rw [hcount]
  rfl

/-- An entry keeps its kind. -/
theorem Fleet.Sound.kind_kept {f : Fleet} (hf : f.Sound) {act : Act} {e : OutboxEntry}
    (he : f.world.store.outbox.get id = some e) (hkept : f.emits id act = false) :
    ∃ e', (f.step act).world.store.outbox.get id = some e' ∧ e'.kind = e.kind := by
  rw [Fleet.step_world]
  cases hlabel : f.label act with
  | none => exact ⟨e, he, rfl⟩
  | some label =>
    rw [Fleet.emits, hlabel, Option.any_some] at hkept
    obtain ⟨e', he', hhandled⟩ := hf.coherent.handled he hkept
    exact ⟨e', he', hhandled.kind⟩

/-- The law holds from the emission of an entry until it is emitted anew. -/
theorem Fleet.backoffLaw_run (hborn : (Fleet.init.run first).emits id born = true)
    (hkept : Machine.Along Fleet.step (fun f act => f.emits id act = false)
      ((Fleet.init.run first).step born) more)
    (hfaithful : Machine.Along Fleet.step Fleet.Faithful Fleet.init (first ++ born :: more))
    (hclock : ∀ worker, ((first ++ born :: more).filterMap (Act.clockOf worker)).Pairwise (· ≤ ·))
    (hfresh : ((Fleet.init.handouts id (first ++ born :: more)).map (·.claimId)).Nodup) :
    ∃ e, (((Fleet.init.run first).step born).run more).world.store.outbox.get id = some e ∧
      (e.kind ≠ .monitorDelivery → (∀ runId, id ≠ entryIdOf .delivery runId) ∧
        BackoffLaw e (((Fleet.init.run first).step born).failures id more)) := by
  induction more using List.reverseRecOn with
  | nil => exact (Fleet.sound_run first).born_untried hborn
  | append_singleton more act ih =>
    have hacts : first ++ born :: (more ++ [act]) = (first ++ born :: more) ++ [act] := by simp
    have hreached : Fleet.init.run (first ++ born :: more) =
        ((Fleet.init.run first).step born).run more := Machine.run_append _ _ _ _
    have hfailures : ((Fleet.init.run first).step born).failures id (more ++ [act]) =
        ((Fleet.init.run first).step born).failures id more ++
          ((((Fleet.init.run first).step born).run more).failure id act).toList := by
      simp [Fleet.failures, Machine.events_append, Fleet.run]
    obtain ⟨hmore, hact, -⟩ := Machine.Along.append.1 hkept
    rw [hacts] at hfaithful hclock hfresh
    obtain ⟨hfaithful, hfits, -⟩ := Machine.Along.append.1 hfaithful
    have hhandouts : ((Fleet.init.handouts id (first ++ born :: more)).map (·.claimId)).Nodup := by
      refine hfresh.sublist (List.Sublist.map _ ?_)
      unfold Fleet.handouts
      rw [Machine.events_append Fleet.step _ _ (first ++ born :: more)]
      exact List.sublist_append_left _ _
    have hclocks : ∀ worker,
        ((first ++ born :: more).filterMap (Act.clockOf worker)).Pairwise (· ≤ ·) ∧
        ∀ now, act.clockOf worker = some now →
          ∀ c ∈ (first ++ born :: more).filterMap (Act.clockOf worker), c ≤ now := by
      intro worker
      have h := hclock worker
      rw [List.filterMap_append, List.pairwise_append] at h
      refine ⟨h.1, fun now hnow c hc => h.2.2 c hc now ?_⟩
      simp [hnow]
    obtain ⟨e, he, hlaw⟩ := ih hmore hfaithful (fun worker => (hclocks worker).1) hhandouts
    have htracked := Fleet.tracked_run id hfaithful hhandouts
    have hsound := Fleet.sound_run (first ++ born :: more)
    change Fleet.Faithful (Fleet.init.run _) act at hfits
    rw [hreached] at htracked hsound hfits
    obtain ⟨e', he', hsame⟩ := hsound.kind_kept he hact
    rw [Fleet.run_concat, hfailures]
    refine ⟨e', he', fun hkind => ?_⟩
    obtain ⟨hid, hlaw⟩ := hlaw (hsame ▸ hkind)
    obtain ⟨x, hx, hattempted⟩ := htracked.attempted hsound hfits hact hid he (hsame ▸ hkind)
      fun worker => (hclocks worker).2
    obtain rfl := Option.some.inj (hx.symm.trans he')
    exact ⟨hid, hlaw.step hattempted⟩

theorem backoffMs_minutes (before : Nat) : backoffMs before = min 30 (2 ^ before) * 60000 := by
  have hscale : ∀ p : Int, min (30 * 60000) (60000 * p) = min 30 p * 60000 := by omega
  exact hscale (2 ^ before)

end Life

/-- From the decision that emits an entry until one emits it anew, whatever drains and their crashes
do and in whatever order: of an entry that is no delivery monitor, the recorded failures are spaced
by the backoff and at most 149; what records no failure leaves the failure history alone; and the
entry is given up at a failure recorded 72 hours after the first or later, or with its anchor
closed.  Each drain's clock does not go back, and claim ids are not reused. -/
theorem Fleet.failures_back_off (first : List Act) (born : Act) (more : List Act) (id : String)
    (hborn : (Fleet.init.run first).emits id born = true)
    (hkept : Machine.Along Fleet.step (fun f act => f.emits id act = false)
      ((Fleet.init.run first).step born) more)
    (hfaithful : Machine.Along Fleet.step Fleet.Faithful Fleet.init (first ++ born :: more))
    (hclock : ∀ worker, ((first ++ born :: more).filterMap (Act.clockOf worker)).Pairwise (· ≤ ·))
    (hfresh : ((Fleet.init.handouts id (first ++ born :: more)).map (·.claimId)).Nodup) :
    let f := ((Fleet.init.run first).step born).run more
    let failures := ((Fleet.init.run first).step born).failures id more
    ∃ e, f.world.store.outbox.get id = some e ∧ (e.kind ≠ .monitorDelivery →
      (∀ k a b, failures[k]? = some a → failures[k + 1]? = some b →
        a + min 30 (2 ^ k) * 60000 ≤ b) ∧
      failures.length ≤ 149 ∧
      ∀ act, f.emits id act = false → f.Faithful act →
        (∀ worker now, act.clockOf worker = some now →
          ∀ c ∈ (first ++ born :: more).filterMap (Act.clockOf worker), c ≤ now) →
        ∃ e', (f.step act).world.store.outbox.get id = some e' ∧
          (f.failure id act = none → Carried e e') ∧
          (e'.state = .failed → e.state = .failed ∨ f.AnchorClosed e act ∨
            ∃ t, f.failure id act = some t ∧ Retires failures t)) := by
  intro f failures
  have hreached : Fleet.init.run (first ++ born :: more) = f := Machine.run_append _ _ _ _
  have hsound : f.Sound := hreached ▸ Fleet.sound_run (first ++ born :: more)
  have htracked := Fleet.tracked_run id hfaithful hfresh
  rw [hreached] at htracked
  obtain ⟨e, he, hlaw⟩ := Fleet.backoffLaw_run hborn hkept hfaithful hclock hfresh
  refine ⟨e, he, fun hkind => ?_⟩
  obtain ⟨hid, hlaw⟩ := hlaw hkind
  refine ⟨fun k a b ha hb => ?_, hlaw.bounded, fun act hact hfits hnow => ?_⟩
  · rw [← backoffMs_minutes]
    exact hlaw.spaced k a b ha hb
  · obtain ⟨e', he', hattempted⟩ := htracked.attempted hsound hfits hact hid he hkind hnow
    refine ⟨e', he', ?_⟩
    cases hattempted with
    | carried _ hcarried _ hfailed => exact ⟨fun _ => hcarried, fun h => (hfailed h).imp_right .inl⟩
    | failed _ now _ _ hfailure hdue hsettle =>
      refine ⟨fun hnone => absurd (hnone.symm.trans hfailure) nofun, fun h => .inr (.inr ?_)⟩
      exact ⟨now, hfailure, (hlaw.fails hdue hsettle).2 h⟩

/-- A run is admitted. -/
def Sample.admitted : Act := .other (.request 0 (Sample.request "codex")) rfl

/-- One drain fails to deliver the dispatch of a run, and another fails again. -/
def Sample.failing : List Act :=
  [.drainOutbox 0 (some 1), .drain 0 1 "first" "" .returns, .drain 0 2 "" "" (.throws "down" false),
   .drain 0 3 "" "" .returns, .drainOutbox 1 (some 1), .drain 1 60003 "second" "" .returns,
   .drain 1 60004 "" "" (.throws "down" false), .drain 1 60005 "" "" .returns]

theorem Fleet.failures_back_off_twice :
    let f := Fleet.init.step Sample.admitted
    f.failures "dispatch/work:w/r1" Sample.failing = [3, 60005] ∧
      ∃ e, (f.run Sample.failing).world.store.outbox.get "dispatch/work:w/r1" = some e ∧
        (e.kind ≠ .monitorDelivery →
          (f.failures "dispatch/work:w/r1" Sample.failing).length ≤ 149) := by
  have hfailures : (Fleet.init.step Sample.admitted).failures "dispatch/work:w/r1" Sample.failing =
      [3, 60005] := by decide +kernel
  have hfaithful : Machine.Along Fleet.step Fleet.Faithful Fleet.init
      (Sample.admitted :: Sample.failing) := by
    have hsilent : ∀ {f : Fleet} {worker now claimId cleanupId reply},
        (∀ leased, Reply.settlement leased now reply = none) →
        f.Faithful (.drain worker now claimId cleanupId reply) := by
      intro f worker now claimId cleanupId reply hnone drain leased _ _ input hsome
      exact absurd ((hnone leased).symm.trans hsome) nofun
    refine ⟨⟨fun _ _ _ _ _ => nofun, fun _ _ => nofun⟩, trivial, hsilent fun _ => rfl,
      hsilent fun _ => rfl, hsilent fun _ => rfl, trivial, hsilent fun _ => rfl,
      hsilent fun _ => rfl, hsilent fun _ => rfl, trivial⟩
  have hclock : ∀ worker,
      ((Sample.admitted :: Sample.failing).filterMap (Act.clockOf worker)).Pairwise (· ≤ ·) := by
    rintro (_ | _ | worker)
    · decide
    · decide
    · exact List.Pairwise.nil
  obtain ⟨e, he, hlaw⟩ := Fleet.failures_back_off [] Sample.admitted Sample.failing
    "dispatch/work:w/r1" (by decide +kernel) (by decide +kernel) hfaithful hclock
    (by decide +kernel)
  exact ⟨hfailures, e, he, fun hkind => (hlaw hkind).2.1⟩

end AgentLcars
