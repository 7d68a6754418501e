import AgentLcars.CronSlots
import AgentLcars.ScheduleChanges

/-!
# Checks of cron expressions

A check looks a year and a day ahead, and is made again on every tick.

* `checkedCron_ok_iff`, `dueOccurrence_isSome`: what passes the checks of operators and ticks.
* `Scheduler.Traced`: a snapshot of the current revision has the current configuration, and admitted
  specifications parse.
* `Scheduler.valid_kept`: where every check comes in time, no valid schedule is disabled and no
  expression that fires is rejected.
* `Scheduler.leapDay_disabled`: a check in the years between two leap days disables or rejects.
-/

namespace AgentLcars

/-! ### What passes a check -/

section Checks

variable {cron : String} {now : Time} {snapshot : Schedule}

/-- An operator's check passes what parses and fires within the window. -/
theorem checkedCron_ok_iff :
    checkedCron cron now = .ok () ↔ ∃ spec, parseCron cron = .ok spec ∧ spec.FiresFrom now := by
  unfold checkedCron
  cases hparse : parseCron cron with
  | error message =>
    constructor
    · intro h
      cases h
    · rintro ⟨spec, hspec, -⟩
      cases hspec
  | ok spec =>
    dsimp only
    constructor
    · intro h
      split_ifs at h with hnext
      exact ⟨spec, rfl, nextDueSlot_isSome.1 hnext⟩
    · rintro ⟨_, ⟨rfl⟩, hfires⟩
      rw [if_pos (nextDueSlot_isSome.2 hfires)]

/-- A tick's check passes a snapshot that parses and fires within the window. -/
theorem dueOccurrence_isSome : (dueOccurrence snapshot now).isSome = true ↔
    (workSpecSchema snapshot.spec).isSome = true ∧
      ∃ cron, parseCron snapshot.cron = .ok cron ∧ cron.FiresFrom now := by
  unfold dueOccurrence
  cases workSpecSchema snapshot.spec with
  | none =>
    constructor
    · intro h
      cases h
    · rintro ⟨h, -⟩
      cases h
  | some spec =>
    cases parseCron snapshot.cron with
    | error message =>
      constructor
      · intro h
        cases h
      · rintro ⟨-, cron, h, -⟩
        cases h
    | ok cron =>
      constructor
      · intro h
        cases hnext : nextDueSlot cron now with
        | none =>
          simp only [Except.toOption, Option.bind_eq_bind, Option.bind_some, hnext, Option.bind_none,
            Option.isSome_none, Bool.false_eq_true] at h
        | some next => exact ⟨rfl, cron, rfl, nextDueSlot_isSome.1 (hnext ▸ rfl)⟩
      · rintro ⟨-, _, ⟨rfl⟩, hfires⟩
        obtain ⟨next, hnext⟩ := Option.isSome_iff_exists.1 (nextDueSlot_isSome.2 hfires)
        simp only [Except.toOption, Option.bind_eq_bind, Option.bind_some, hnext, Option.pure_def,
          Option.isSome_some]

/-- The specification of an occurrence that is due was checked. -/
theorem dueOccurrence_valid {spec : WorkSpec} {slot : Time}
    (h : dueOccurrence snapshot now = some (some (spec, slot))) : spec.Valid := by
  unfold dueOccurrence at h
  obtain ⟨parsed, hparsed, h⟩ := Option.bind_eq_some_iff.1 h
  obtain ⟨cron, -, h⟩ := Option.bind_eq_some_iff.1 h
  obtain ⟨next, -, h⟩ := Option.bind_eq_some_iff.1 h
  obtain ⟨latest, -, heq⟩ := Option.map_eq_some_iff.1 (Option.some.inj h)
  obtain ⟨rfl, rfl⟩ := Prod.mk.inj heq
  exact workSpecSchema_valid hparsed

end Checks

/-! ### Configurations and their revisions -/

/-- The schedule is of a later revision than the snapshot, or has the same configuration. -/
def Schedule.Follows (current snapshot : Schedule) : Prop :=
  snapshot.currentRevision < current.currentRevision ∨
    current.currentRevision = snapshot.currentRevision ∧ current.cron = snapshot.cron ∧
      current.spec = snapshot.spec

theorem Schedule.Follows.refl (schedule : Schedule) : schedule.Follows schedule := .inr ⟨rfl, rfl, rfl⟩

theorem Schedule.Follows.trans {a b c : Schedule} (h : a.Follows b) (h' : b.Follows c) :
    a.Follows c := by
  unfold Schedule.Follows at *
  rcases h with h | ⟨hrev, hcron, hspec⟩
  · rcases h' with h' | ⟨hrev', -, -⟩
    · exact .inl (by omega)
    · exact .inl (by omega)
  · rcases h' with h' | ⟨hrev', hcron', hspec'⟩
    · exact .inl (by omega)
    · exact .inr ⟨by omega, hcron.trans hcron', hspec.trans hspec'⟩

/-- A revision that is one further. -/
theorem Schedule.Follows.advance {current next : Schedule}
    (h : next.revision = some (current.currentRevision + 1)) : next.Follows current := by
  left
  unfold Schedule.currentRevision at *
  rw [h, Option.getD_some]
  omega

section Follows

variable {env : ScheduleEnv} {context : OperatorContext} {schedules : Schedules} {id : String}
  {current next : Schedule} {given : Option Schedule}

theorem createChange_follows {cron : String} {spec : WorkSpec} {enabled : Option Bool} {now : Time}
    (h : createChange context id cron spec enabled now (some current) = .ok (some next)) :
    next.Follows current := by
  unfold createChange at h
  dsimp only at h
  split_ifs at h
  obtain rfl := Option.some.inj (Except.ok.inj h)
  exact .refl current

theorem Edits.follows {expected : Nat} (h : ∃ before ∈ some current, Edits expected before next) :
    next.Follows current := by
  obtain ⟨before, hbefore, hedits⟩ := h
  obtain rfl := Option.some.inj hbefore
  exact .advance hedits.advances

/-- A change that follows what it changes leaves every schedule followed. -/
theorem mutateSchedule_follows
    {change : Option Schedule → Except ScheduleError (Option Schedule)}
    (h : ∀ current next, schedules.get id = some current →
      change (some current) = .ok (some next) → next.Follows current)
    {k : String} {before : Schedule} (hbefore : schedules.get k = some before) :
    ∃ after, (mutateSchedule env schedules id change).2.get k = some after ∧ after.Follows before := by
  refine mutateSchedule_keeps (fun s => ∃ after, s = some after ∧ after.Follows before)
    ⟨before, hbefore, .refl before⟩ ?_
  rintro next rfl hnext
  rw [hbefore] at hnext
  exact ⟨next, rfl, h before next hbefore hnext⟩

/-- Operators admit nothing. -/
theorem ScheduleOp.run_pending (op : ScheduleOp) {k : String} {pending : PendingTick}
    (h : pending ∈ (ledgerOf ((op.run env context schedules).2.get k)).pending) :
    pending ∈ (ledgerOf (schedules.get k)).pending := by
  have hedits : ∀ {id : String} {expected : Nat} {next : Schedule}, k = id →
      (∃ before ∈ schedules.get id, Edits expected before next) →
      pending ∈ (ledgerOf (some next)).pending → pending ∈ (ledgerOf (schedules.get k)).pending := by
    rintro id expected next rfl ⟨before, hbefore, hedits⟩ hmem
    rw [Option.mem_def.1 hbefore]
    exact hedits.pending.symm.trans (Option.mem_def.1 hmem)
  revert h
  unfold ScheduleOp.run
  split_ifs
  swap
  · exact id
  cases op with
  | create id cron spec enabled =>
    dsimp only
    split
    · exact fun h => h
    refine mutateSchedule_keeps (fun s => pending ∈ (ledgerOf s).pending →
      pending ∈ (ledgerOf (schedules.get k)).pending) (fun h => h) ?_
    rintro next rfl hnext hmem
    unfold createChange at hnext
    split at hnext
    · rename_i existing hexisting
      split_ifs at hnext
      obtain rfl := Option.some.inj (Except.ok.inj hnext)
      exact hexisting ▸ hmem
    · obtain rfl := Option.some.inj (Except.ok.inj hnext)
      cases hmem
  | update id expected cron spec enabled =>
    dsimp only
    split
    · exact fun h => h
    · exact mutateSchedule_keeps (fun s => pending ∈ (ledgerOf s).pending →
        pending ∈ (ledgerOf (schedules.get k)).pending) (fun h => h)
        fun next hk hnext => hedits hk (updateChange_ok hnext)
  | delete id expected =>
    exact mutateSchedule_keeps (fun s => pending ∈ (ledgerOf s).pending →
      pending ∈ (ledgerOf (schedules.get k)).pending) (fun h => h)
      fun next hk hnext => hedits hk (deleteChange_ok hnext)
  | toggle id expected enabled =>
    exact mutateSchedule_keeps (fun s => pending ∈ (ledgerOf s).pending →
      pending ∈ (ledgerOf (schedules.get k)).pending) (fun h => h)
      fun next hk hnext => hedits hk (toggleChange_ok hnext)

theorem ScheduleOp.run_follows (op : ScheduleOp) {k : String} {before : Schedule}
    (hbefore : schedules.get k = some before) :
    ∃ after, (op.run env context schedules).2.get k = some after ∧ after.Follows before := by
  unfold ScheduleOp.run
  split_ifs
  swap
  · exact ⟨before, hbefore, .refl before⟩
  cases op with
  | create id cron spec enabled =>
    dsimp only
    split
    · exact ⟨before, hbefore, .refl before⟩
    · exact mutateSchedule_follows (fun _ _ _ h => createChange_follows h) hbefore
  | update id expected cron spec enabled =>
    dsimp only
    split
    · exact ⟨before, hbefore, .refl before⟩
    · exact mutateSchedule_follows (fun _ _ _ h => Edits.follows (updateChange_ok h)) hbefore
  | delete id expected => exact mutateSchedule_follows (fun _ _ _ h => Edits.follows (deleteChange_ok h)) hbefore
  | toggle id expected enabled =>
    exact mutateSchedule_follows (fun _ _ _ h => Edits.follows (toggleChange_ok h)) hbefore

end Follows

section TickFollows

variable {env : ScheduleEnv} {tick : Tick} {snapshot : Schedule} {schedules schedules' : Schedules}

theorem invalidateChange_follows {now : Time} {current next : Schedule}
    (h : invalidateChange snapshot now (some current) = some next) : next.Follows current := by
  unfold invalidateChange at h
  dsimp only at h
  split_ifs at h
  obtain rfl := Option.some.inj h
  exact .advance rfl

theorem admitChange_follows {spec : WorkSpec} {slot : Time} {itemId : String} {current next : Schedule}
    (h : admitChange snapshot spec slot itemId (some current) = some next) : next.Follows current := by
  unfold admitChange at h
  dsimp only at h
  split_ifs at h
  obtain rfl := Option.some.inj h
  exact .refl current

theorem closeChange_follows {admitted : PendingTick} {reason : DisabledReason} {now : Time}
    {current next : Schedule} (h : closeChange admitted reason now (some current) = some next) :
    next.Follows current := by
  unfold closeChange at h
  dsimp only at h
  split_ifs at h
  · obtain rfl := Option.some.inj h
    exact .advance rfl
  · obtain rfl := Option.some.inj h
    exact .refl current

theorem settleChange_follows {admitted : PendingTick} {now : Time} {current next : Schedule}
    (h : settleChange admitted now (some current) = some next) : next.Follows current := by
  unfold settleChange at h
  dsimp only at h
  split_ifs at h
  obtain rfl := Option.some.inj h
  exact .refl current

/-- A tick's change follows what it changes. -/
theorem TickChange.follows (h : TickChange env tick snapshot schedules schedules') {k : String}
    {before : Schedule} (hbefore : schedules.get k = some before) :
    ∃ after, schedules'.get k = some after ∧ after.Follows before := by
  cases h with
  | same => exact ⟨before, hbefore, .refl before⟩
  | invalidates =>
    exact mutateSchedule_follows (fun _ _ _ h => invalidateChange_follows (Except.ok.inj h)) hbefore
  | admits =>
    exact mutateSchedule_follows (fun _ _ _ h => admitChange_follows (Except.ok.inj h)) hbefore
  | closes =>
    exact mutateSchedule_follows (fun _ _ _ h => closeChange_follows (Except.ok.inj h)) hbefore
  | settles =>
    exact mutateSchedule_follows (fun _ _ _ h => settleChange_follows (Except.ok.inj h)) hbefore

/-- What a tick admits parses. -/
theorem TickChange.pending_parses (h : TickChange env tick snapshot schedules schedules') {k : String}
    (hpending : ∀ pending ∈ (ledgerOf (schedules.get k)).pending,
      (workSpecSchema pending.spec).isSome = true) :
    ∀ pending ∈ (ledgerOf (schedules'.get k)).pending,
      (workSpecSchema pending.spec).isSome = true := by
  let Parses : Option Schedule → Prop := fun s =>
    ∀ pending ∈ (ledgerOf s).pending, (workSpecSchema pending.spec).isSome = true
  cases h with
  | same => exact hpending
  | invalidates =>
    refine mutateSchedule_keeps Parses hpending ?_
    rintro next rfl hnext
    have hnext := Except.ok.inj hnext
    unfold invalidateChange at hnext
    split at hnext
    · cases hnext
    rename_i current hcurrent
    split_ifs at hnext
    obtain rfl := Option.some.inj hnext
    rw [hcurrent] at hpending
    exact hpending
  | admits spec slot _ _ hdue =>
    refine mutateSchedule_keeps Parses hpending ?_
    rintro next rfl hnext
    have hnext := Except.ok.inj hnext
    unfold admitChange at hnext
    split at hnext
    · cases hnext
    split_ifs at hnext
    obtain rfl := Option.some.inj hnext
    rintro pending ⟨rfl⟩
    rw [(dueOccurrence_valid hdue).roundTrip]
    rfl
  | closes pending reason =>
    refine mutateSchedule_keeps Parses hpending ?_
    rintro next rfl hnext
    have hnext := Except.ok.inj hnext
    unfold closeChange at hnext
    split at hnext
    · cases hnext
    split_ifs at hnext
    · obtain rfl := Option.some.inj hnext
      exact nofun
    · obtain rfl := Option.some.inj hnext
      exact nofun
  | settles pending =>
    refine mutateSchedule_keeps Parses hpending ?_
    rintro next rfl hnext
    have hnext := Except.ok.inj hnext
    unfold settleChange at hnext
    split at hnext
    · cases hnext
    split_ifs at hnext
    obtain rfl := Option.some.inj hnext
    exact nofun

end TickFollows

/-! ### What ticks know -/

/-- What is admitted parses, no tick is about to close an occurrence as invalid, and every schedule
follows the snapshots of it. -/
structure Scheduler.Traced (σ : Scheduler) : Prop where
  pending : ∀ id, ∀ pending ∈ (ledgerOf (σ.schedules.get id)).pending,
    (workSpecSchema pending.spec).isSome = true
  held : ∀ tid tick, σ.ticks.get tid = some tick → ∀ id pending, tick.Holds id pending →
    (workSpecSchema pending.spec).isSome = true
  closing : ∀ tid tick, σ.ticks.get tid = some tick → ∀ pending, tick.phase ≠ .closing pending .invalid
  snapshots : ∀ tid tick, σ.ticks.get tid = some tick → ∀ snapshot ∈ tick.remaining,
    ∃ current, σ.schedules.get snapshot.scheduleId = some current ∧ current.Follows snapshot

section Traced

variable {env : ScheduleEnv} {σ : Scheduler} {grants : List WorkGrant} {clock : Time}
  {awaited : Awaited} {tick tick' : Tick} {w : World} {schedules schedules' : Schedules}

/-- An act of a tick leaves every schedule followed. -/
theorem Tick.act_follows {k : String} {before : Schedule} (hbefore : schedules.get k = some before) :
    ∃ after, (tick.act env grants clock awaited w.store schedules).schedules.get k = some after ∧
      after.Follows before := by
  rcases @Tick.act_change env grants clock awaited tick w.store schedules with hsame |
    ⟨snapshot, -, hchange⟩
  · rw [hsame]
    exact ⟨before, hbefore, .refl before⟩
  · exact hchange.follows hbefore

theorem Tick.act_pending_parses {k : String}
    (hpending : ∀ pending ∈ (ledgerOf (schedules.get k)).pending,
      (workSpecSchema pending.spec).isSome = true) :
    ∀ pending ∈ (ledgerOf ((tick.act env grants clock awaited w.store schedules).schedules.get k)).pending,
      (workSpecSchema pending.spec).isSome = true := by
  rcases @Tick.act_change env grants clock awaited tick w.store schedules with hsame |
    ⟨snapshot, -, hchange⟩
  · rw [hsame]
    exact hpending
  · exact hchange.pending_parses hpending

/-- A tick's list after an act was its list before, or is what is stored. -/
theorem Tick.act_remaining {snapshot : Schedule}
    (h : snapshot ∈ (tick.act env grants clock awaited w.store schedules).tick.remaining) :
    snapshot ∈ tick.remaining ∨ tick.phase = .listing ∧ snapshot ∈ listTickSchedules schedules := by
  by_cases hlisting : tick.phase = .listing
  · cases awaited with
    | throws message applied =>
      unfold Tick.act at h
      rw [hlisting] at h
      exact .inl h
    | returns =>
      rw [Tick.act_lists hlisting] at h
      exact .inr ⟨hlisting, h⟩
  · have hgoes := @Tick.act_goes env grants clock awaited tick w.store schedules hlisting
    generalize (tick.act env grants clock awaited w.store schedules).tick = tick' at h hgoes
    cases hgoes with
    | stays => exact .inl h
    | passes => exact .inl (List.mem_of_mem_tail h)

/-- No act prepares to close as invalid what parses. -/
theorem Tick.act_closing {pending : PendingTick}
    (hheld : ∀ id pending, tick.Holds id pending → (workSpecSchema pending.spec).isSome = true) :
    (tick.act env grants clock awaited w.store schedules).tick.phase ≠ .closing pending .invalid := by
  intro h
  by_cases hlisting : tick.phase = .listing
  · unfold Tick.act at h
    rw [hlisting] at h
    cases awaited <;> cases h
  cases hremaining : tick.remaining with
  | nil =>
    -- a tick without snapshots ends
    unfold Tick.act at h
    rw [hremaining] at h
    split at h
    · split at h <;> cases h
    · rename_i hended
      rw [hended] at h
      cases h
    · cases h
  | cons snapshot rest =>
    have hgoes := @Tick.act_goes env grants clock awaited tick w.store schedules hlisting
    generalize (tick.act env grants clock awaited w.store schedules).tick = tick' at h hgoes
    cases hgoes with
    | passes => cases h
    | stays phase _ hinvalid =>
      obtain ⟨hphase, hspec⟩ := hinvalid pending h
      have hparses := hheld snapshot.scheduleId pending
        (.inr ⟨snapshot, by rw [hremaining]; rfl, rfl, by rw [hphase]; rfl⟩)
      rw [hspec] at hparses
      cases hparses

theorem Scheduler.traced_init : Scheduler.init.Traced where
  pending := fun _ _ h => by cases h
  held := fun _ _ h => by cases h
  closing := fun _ _ h => by cases h
  snapshots := fun _ _ h => by cases h

theorem Scheduler.Traced.step (h : σ.Traced) (hsound : σ.Sound env) (act : ScheduleAct) :
    (σ.step env act).Traced := by
  cases act with
  | elsewhere label => exact ⟨h.pending, h.held, h.closing, h.snapshots⟩
  | operate context op =>
    refine ⟨fun id pending hpending => h.pending id pending (op.run_pending hpending), h.held,
      h.closing, fun tid tick htick snapshot hmem => ?_⟩
    obtain ⟨current, hcurrent, hfollows⟩ := h.snapshots tid tick htick snapshot hmem
    obtain ⟨after, hafter, hfollows'⟩ := @ScheduleOp.run_follows env context _ op _ _ hcurrent
    exact ⟨after, hafter, hfollows'.trans hfollows⟩
  | start id scopes =>
    simp only [Scheduler.step]
    split_ifs
    swap
    · exact h
    refine ⟨h.pending, fun tid tick htick => ?_, fun tid tick htick => ?_, fun tid tick htick => ?_⟩
    all_goals
      simp only [OrderedMap.get_set] at htick
      split_ifs at htick
    · obtain rfl := Option.some.inj htick
      rintro id pending (⟨_, hmem, _⟩ | ⟨_, hmem, _⟩) <;> cases hmem
    · exact h.held tid tick htick
    · obtain rfl := Option.some.inj htick
      intro pending hphase
      cases hphase
    · exact h.closing tid tick htick
    · obtain rfl := Option.some.inj htick
      intro snapshot hmem
      cases hmem
    · exact h.snapshots tid tick htick
  | crash id =>
    simp only [Scheduler.step]
    split
    · exact h
    rename_i tick htick
    refine ⟨h.pending, fun tid tick' htick' => ?_, fun tid tick' htick' => ?_,
      fun tid tick' htick' => ?_⟩
    all_goals
      simp only [OrderedMap.get_set] at htick'
      split_ifs at htick'
    · obtain rfl := Option.some.inj htick'
      rintro k pending (hlisted | ⟨_, _, _, hnone⟩)
      · exact h.held id tick htick k pending (.inl hlisted)
      · cases hnone
    · exact h.held tid tick' htick'
    · obtain rfl := Option.some.inj htick'
      intro pending hphase
      cases hphase
    · exact h.closing tid tick' htick'
    · obtain rfl := Option.some.inj htick'
      exact h.snapshots id tick htick
    · exact h.snapshots tid tick' htick'
  | tick id grants clock awaited =>
    simp only [Scheduler.step]
    split
    · exact h
    rename_i tick htick
    have hacts := tick.acts env grants clock awaited σ.world σ.schedules hsound.keyed
    have hpending : ∀ k, ∀ pending ∈ (ledgerOf ((tick.act env grants clock awaited σ.world.store
        σ.schedules).schedules.get k)).pending, (workSpecSchema pending.spec).isSome = true :=
      fun k => Tick.act_pending_parses (h.pending k)
    refine ⟨hpending, fun tid tick' htick' => ?_, fun tid tick' htick' => ?_,
      fun tid tick' htick' snapshot hmem => ?_⟩
    · simp only [OrderedMap.get_set] at htick'
      split_ifs at htick'
      · obtain rfl := Option.some.inj htick'
        intro k pending hholds
        rcases hacts.held k pending hholds with hheld | hstored
        · exact h.held id tick htick k pending hheld
        · exact hpending k pending hstored
      · exact h.held tid tick' htick'
    · simp only [OrderedMap.get_set] at htick'
      split_ifs at htick'
      · obtain rfl := Option.some.inj htick'
        exact fun pending => Tick.act_closing (h.held id tick htick)
      · exact h.closing tid tick' htick'
    · have hfollowed : ∃ current, σ.schedules.get snapshot.scheduleId = some current ∧
          current.Follows snapshot := by
        simp only [OrderedMap.get_set] at htick'
        split_ifs at htick'
        · obtain rfl := Option.some.inj htick'
          rcases Tick.act_remaining hmem with hmem | ⟨-, hlisted⟩
          · exact h.snapshots id tick htick snapshot hmem
          · obtain ⟨k, hk⟩ := (σ.schedules.mem_values_iff snapshot).1 (List.mem_filter.1 hlisted).1
            exact ⟨snapshot, hsound.keyed k snapshot hk ▸ hk, .refl snapshot⟩
        · exact h.snapshots tid tick' htick' snapshot hmem
      obtain ⟨current, hcurrent, hfollows⟩ := hfollowed
      obtain ⟨after, hafter, hfollows'⟩ := Tick.act_follows hcurrent
      exact ⟨after, hafter, hfollows'.trans hfollows⟩

end Traced

/-! ### The law -/

/-- The specification and the expression parse, and the expression fires, and so fires again and
again (`CronSpec.Fires.forever`). -/
def Schedule.Valid (schedule : Schedule) : Prop :=
  (workSpecSchema schedule.spec).isSome = true ∧
    ∃ cron, parseCron schedule.cron = .ok cron ∧ cron.Fires

/-- An expression that fires at all fires within the window from the instant. -/
def FiresInTime (cron : String) (now : Time) : Prop :=
  ∀ spec, parseCron cron = .ok spec → spec.Fires → spec.FiresFrom now

/-- The expressions that a step checks, and the instants it checks them at. -/
inductive ChecksAt (σ : Scheduler) : ScheduleAct → String → Time → Prop where
  | creates (context : OperatorContext) (id cron : String) (spec : WorkSpec) (enabled : Option Bool) :
      ChecksAt σ (.operate context (.create id cron spec enabled)) cron (context.clock 0)
  | updates (context : OperatorContext) (id : String) (expected : Nat) (cron : String) (spec : WorkSpec)
      (enabled : Bool) (reading : Nat) (hreading : reading = 0 ∨ reading = 1 ∧ enabled = true) :
      ChecksAt σ (.operate context (.update id expected cron spec enabled)) cron (context.clock reading)
  | enables (context : OperatorContext) (id : String) (expected : Nat) (schedule : Schedule)
      (hschedule : σ.schedules.get id = some schedule) :
      ChecksAt σ (.operate context (.toggle id expected true)) schedule.cron (context.clock 0)
  | looks (tid : Nat) (grants : List WorkGrant) (clock : Time) (awaited : Awaited) (tick : Tick)
      (snapshot : Schedule) (htick : σ.ticks.get tid = some tick) (hphase : tick.phase = .looking)
      (hhead : snapshot ∈ tick.remaining.head?) :
      ChecksAt σ (.tick tid grants clock awaited) snapshot.cron tick.now

/-- Every expression that the step checks, and that fires at all, fires within the window. -/
def InTime (σ : Scheduler) (act : ScheduleAct) : Prop :=
  ∀ cron now, ChecksAt σ act cron now → FiresInTime cron now

/-- The expression an operation is about. -/
def ScheduleOp.expression (schedules : Schedules) : ScheduleOp → Option String
  | .create _ cron _ _ | .update _ _ cron _ _ => some cron
  | .toggle id _ _ => (schedules.get id).map (·.cron)
  | .delete _ _ => none

/-- The answers that reject an expression. -/
def cronRejections : List String :=
  ["Malformed cron expression", "cron expression never fires within a year"]

/-- What an act does to valid schedules and to expressions that fire: it disables no valid schedule as
invalid, and an operation that rejects its expression has one that does not parse or never fires. -/
structure ValidKept (env : ScheduleEnv) (σ : Scheduler) (act : ScheduleAct) : Prop where
  disabled : ∀ id before after, σ.schedules.get id = some before →
    (σ.step env act).schedules.get id = some after → before.enabled = true → after.enabled = false →
      after.disabledReason = some .invalid → ¬before.Valid
  rejected : ∀ context op message, act = .operate context op →
    (op.run env context σ.schedules).1 = .error (.orpc .badRequest (some message)) →
      message ∈ cronRejections → ∃ cron, op.expression σ.schedules = some cron ∧
        ¬∃ spec, parseCron cron = .ok spec ∧ spec.Fires

section Kept

variable {env : ScheduleEnv} {σ : Scheduler} {context : OperatorContext} {schedules : Schedules}
  {message : String} {cron : String} {now : Time}

/-- The error that rejects an expression. -/
def Rejects (message : String) : ScheduleError := .orpc .badRequest (some message)

theorem checkedCron_rejects {e : ScheduleError} (hin : FiresInTime cron now)
    (h : checkedCron cron now = .error e) : ¬∃ spec, parseCron cron = .ok spec ∧ spec.Fires := by
  rintro ⟨spec, hspec, hfires⟩
  rw [checkedCron_ok_iff.2 ⟨spec, hspec, hin spec hspec hfires⟩] at h
  cases h

theorem authorizeSpec_ne {authority : WorkAuthority} {spec : WorkSpec} {given : Option String} :
    authorizeSpec env authority spec given ≠ .error (Rejects message) := by
  unfold authorizeSpec Rejects
  split <;> exact nofun

theorem currentSchedule_ne {current : Option Schedule} {expected : Option Nat} :
    currentSchedule current expected ≠ .error (Rejects message) := by
  unfold currentSchedule Rejects
  split
  · exact nofun
  · split_ifs <;> exact nofun

theorem authorizeSchedule_ne {schedule : Schedule} :
    authorizeSchedule env context schedule ≠ .error (Rejects message) := by
  intro h
  unfold authorizeSchedule at h
  dsimp only at h
  split_ifs at h
  · split at h
    · cases h
    · exact authorizeSpec_ne h
  · cases h

theorem enabledConfiguration_rejects {spec : Json} {createdBy : String}
    (hmessage : message ∈ cronRejections)
    (h : enabledConfiguration env context cron spec createdBy now = .error (Rejects message)) :
    checkedCron cron now = .error (Rejects message) := by
  unfold enabledConfiguration at h
  split at h
  · -- the third message is no rejection
    obtain rfl := Option.some.inj (ScheduleError.orpc.inj (Except.error.inj h)).2
    exact absurd hmessage (by decide)
  · rcases bind_eq_error.1 h with h | ⟨_, -, h⟩
    · exact h
    rcases bind_eq_error.1 h with h | ⟨_, -, h⟩
    · exact absurd h authorizeSpec_ne
    · exact absurd h authorizeSpec_ne

/-- A change that is answered with an error was refused, or is not accepted. -/
theorem mutateSchedule_error {id : String}
    {change : Option Schedule → Except ScheduleError (Option Schedule)}
    (h : (mutateSchedule env schedules id change).1 = .error (Rejects message)) :
    change (schedules.get id) = .error (Rejects message) := by
  unfold mutateSchedule at h
  split at h
  · rename_i e herror
    rw [herror, Except.error.inj h]
  · cases h
  · split_ifs at h
    cases h

theorem createChange_ne {id : String} {spec : WorkSpec} {enabled : Option Bool}
    {existing : Option Schedule} :
    createChange context id cron spec enabled now existing ≠ .error (Rejects message) := by
  intro h
  unfold createChange at h
  split at h
  · split_ifs at h
    cases h
  · cases h

theorem updateChange_rejects {expected : Nat} {spec : WorkSpec} {enabled : Bool}
    {current : Option Schedule} (hmessage : message ∈ cronRejections)
    (h : updateChange env context expected cron spec enabled current = .error (Rejects message)) :
    enabled = true ∧ checkedCron cron (context.clock 1) = .error (Rejects message) := by
  rcases bind_eq_error.1 h with h | ⟨schedule, -, h⟩
  · exact absurd h currentSchedule_ne
  rcases bind_eq_error.1 h with h | ⟨_, -, h⟩
  · exact absurd h authorizeSchedule_ne
  split at h
  · rename_i henabled
    rcases bind_eq_error.1 h with h | ⟨_, -, h⟩
    · exact ⟨henabled, enabledConfiguration_rejects hmessage h⟩
    · cases h
  · cases h

theorem deleteChange_ne {expected : Nat} {current : Option Schedule} :
    deleteChange env context expected current ≠ .error (Rejects message) := by
  intro h
  rcases bind_eq_error.1 h with h | ⟨schedule, -, h⟩
  · exact currentSchedule_ne h
  rcases bind_eq_error.1 h with h | ⟨_, -, h⟩
  · exact authorizeSchedule_ne h
  · cases h

theorem toggleChange_rejects {expected : Nat} {enabled : Bool} {current : Option Schedule}
    (hmessage : message ∈ cronRejections)
    (h : toggleChange env context expected enabled current = .error (Rejects message)) :
    ∃ schedule, current = some schedule ∧ enabled = true ∧
      checkedCron schedule.cron (context.clock 0) = .error (Rejects message) := by
  rcases bind_eq_error.1 h with h | ⟨schedule, hschedule, h⟩
  · exact absurd h currentSchedule_ne
  refine ⟨schedule, (currentSchedule_ok hschedule).1, ?_⟩
  rcases bind_eq_error.1 h with h | ⟨_, -, h⟩
  · exact absurd h authorizeSchedule_ne
  split at h
  · rename_i henabled
    rcases bind_eq_error.1 h with h | ⟨_, -, h⟩
    · exact ⟨henabled, enabledConfiguration_rejects hmessage h⟩
    · cases h
  · cases h

/-- An operation that rejects its expression, with checks that come in time. -/
theorem ScheduleOp.run_rejects {op : ScheduleOp} (hin : InTime σ (.operate context op))
    (hmessage : message ∈ cronRejections)
    (h : (op.run env context σ.schedules).1 = .error (Rejects message)) :
    ∃ cron, op.expression σ.schedules = some cron ∧
      ¬∃ spec, parseCron cron = .ok spec ∧ spec.Fires := by
  unfold ScheduleOp.run at h
  split_ifs at h
  swap
  · cases h
  cases op with
  | create id cron spec enabled =>
    refine ⟨cron, rfl, ?_⟩
    have hcheck : checkedCron cron (context.clock 0) = .error (Rejects message) := by
      dsimp only at h
      split at h
      · rename_i e hchecked
        obtain rfl := Except.error.inj h
        rcases bind_eq_error.1 hchecked with hchecked | ⟨_, -, hchecked⟩
        · exact absurd hchecked authorizeSpec_ne
        · exact hchecked
      · exact absurd (mutateSchedule_error h) createChange_ne
    exact checkedCron_rejects (hin _ _ (.creates context id cron spec enabled)) hcheck
  | update id expected cron spec enabled =>
    refine ⟨cron, rfl, ?_⟩
    dsimp only at h
    split at h
    · rename_i e hchecked
      obtain rfl := Except.error.inj h
      rcases bind_eq_error.1 hchecked with hchecked | ⟨_, -, hchecked⟩
      · exact absurd hchecked authorizeSpec_ne
      · exact checkedCron_rejects
          (hin _ _ (.updates context id expected cron spec enabled 0 (.inl rfl))) hchecked
    · obtain ⟨henabled, hchecked⟩ := updateChange_rejects hmessage (mutateSchedule_error h)
      exact checkedCron_rejects
        (hin _ _ (.updates context id expected cron spec enabled 1 (.inr ⟨rfl, henabled⟩))) hchecked
  | delete id expected => exact absurd (mutateSchedule_error h) deleteChange_ne
  | toggle id expected enabled =>
    obtain ⟨schedule, hschedule, rfl, hchecked⟩ :=
      toggleChange_rejects hmessage (mutateSchedule_error h)
    refine ⟨schedule.cron, by rw [ScheduleOp.expression, hschedule]; rfl, ?_⟩
    exact checkedCron_rejects (hin _ _ (.enables context id expected schedule hschedule)) hchecked

/-- An operator disables nothing as invalid. -/
theorem ScheduleOp.run_disabled (op : ScheduleOp) {id : String} {before after : Schedule}
    (hbefore : schedules.get id = some before)
    (hafter : (op.run env context schedules).2.get id = some after) (henabled : before.enabled = true)
    (hdisabled : after.enabled = false) : after.disabledReason ≠ some .invalid := by
  let Kept : Option Schedule → Prop := fun s => ∀ after, s = some after → after.enabled = false →
    after.disabledReason ≠ some .invalid
  have hkept : Kept (schedules.get id) := by
    rintro s hs hoff
    obtain rfl : before = s := Option.some.inj (hbefore.symm.trans hs)
    rw [henabled] at hoff
    cases hoff
  suffices h : Kept ((op.run env context schedules).2.get id) from h after hafter hdisabled
  unfold ScheduleOp.run
  split_ifs
  swap
  · exact hkept
  cases op with
  | create k cron spec enabled =>
    dsimp only
    split
    · exact hkept
    refine mutateSchedule_keeps Kept hkept ?_
    rintro next rfl hnext _ ⟨rfl⟩ hoff
    rw [hbefore] at hnext
    unfold createChange at hnext
    dsimp only at hnext
    split_ifs at hnext
    obtain rfl := Option.some.inj (Except.ok.inj hnext)
    rw [henabled] at hoff
    cases hoff
  | update k expected cron spec enabled =>
    dsimp only
    split
    · exact hkept
    refine mutateSchedule_keeps Kept hkept ?_
    rintro next rfl hnext _ ⟨rfl⟩ hoff
    obtain ⟨_, -, hedits⟩ := updateChange_ok hnext
    rw [hedits.disabled hoff]
    rintro ⟨⟩
  | delete k expected =>
    refine mutateSchedule_keeps Kept hkept ?_
    rintro next rfl hnext _ ⟨rfl⟩ hoff
    obtain ⟨_, -, hedits⟩ := deleteChange_ok hnext
    rw [hedits.disabled hoff]
    rintro ⟨⟩
  | toggle k expected enabled =>
    refine mutateSchedule_keeps Kept hkept ?_
    rintro next rfl hnext _ ⟨rfl⟩ hoff
    obtain ⟨_, -, hedits⟩ := toggleChange_ok hnext
    rw [hedits.disabled hoff]
    rintro ⟨⟩

/-- A tick disables no valid schedule as invalid when its check comes in time. -/
theorem TickChange.disabled {tick : Tick} {snapshot : Schedule} {schedules' : Schedules}
    (h : TickChange env tick snapshot schedules schedules') {current : Schedule}
    (hcurrent : schedules.get snapshot.scheduleId = some current) (hfollows : current.Follows snapshot)
    (hclosing : ∀ pending, tick.phase ≠ .closing pending .invalid)
    (hin : tick.phase = .looking → FiresInTime snapshot.cron tick.now) {id : String}
    {before after : Schedule} (hbefore : schedules.get id = some before)
    (hafter : schedules'.get id = some after) (henabled : before.enabled = true)
    (hdisabled : after.enabled = false) (hreason : after.disabledReason = some .invalid) :
    ¬before.Valid := by
  let Kept : Option Schedule → Prop := fun s => ∀ after, s = some after → after.enabled = false →
    after.disabledReason = some .invalid → ¬before.Valid
  have hkept : Kept (schedules.get id) := by
    rintro s hs hoff
    obtain rfl : before = s := Option.some.inj (hbefore.symm.trans hs)
    rw [henabled] at hoff
    cases hoff
  suffices hall : Kept (schedules'.get id) from hall after hafter hdisabled hreason
  cases h with
  | same => exact hkept
  | invalidates hphase _ hdue =>
    refine mutateSchedule_keeps Kept hkept ?_
    rintro next rfl hnext _ ⟨rfl⟩ - -
    obtain rfl : current = before := Option.some.inj (hcurrent.symm.trans hbefore)
    have hnext := Except.ok.inj hnext
    rw [hcurrent] at hnext
    unfold invalidateChange at hnext
    dsimp only at hnext
    split_ifs at hnext with hconfigured
    -- the snapshot is of the current revision, so that its configuration is the current one
    have hrevision := (of_decide_eq_true hconfigured).2.2
    rcases hfollows with hlt | ⟨-, hcron, hspec⟩
    · omega
    rintro ⟨hparses, cron, hparse, hfires⟩
    rw [hspec] at hparses
    rw [hcron] at hparse
    have hsome := dueOccurrence_isSome.2 ⟨hparses, cron, hparse, hin hphase cron hparse hfires⟩
    rw [hdue] at hsome
    cases hsome
  | admits =>
    refine mutateSchedule_keeps Kept hkept ?_
    rintro next rfl hnext _ ⟨rfl⟩ hoff
    have hnext := Except.ok.inj hnext
    rw [hbefore] at hnext
    unfold admitChange at hnext
    dsimp only at hnext
    split_ifs at hnext
    obtain rfl := Option.some.inj hnext
    rw [henabled] at hoff
    cases hoff
  | closes pending reason hphase =>
    refine mutateSchedule_keeps Kept hkept ?_
    rintro next rfl hnext _ ⟨rfl⟩ hoff hinvalid
    have hnext := Except.ok.inj hnext
    rw [hbefore] at hnext
    unfold closeChange at hnext
    dsimp only at hnext
    split_ifs at hnext
    · obtain rfl := Option.some.inj hnext
      obtain rfl : reason = .invalid := Option.some.inj hinvalid
      exact absurd hphase (hclosing pending)
    · obtain rfl := Option.some.inj hnext
      rw [henabled] at hoff
      cases hoff
  | settles =>
    refine mutateSchedule_keeps Kept hkept ?_
    rintro next rfl hnext _ ⟨rfl⟩ hoff
    have hnext := Except.ok.inj hnext
    rw [hbefore] at hnext
    unfold settleChange at hnext
    dsimp only at hnext
    split_ifs at hnext
    obtain rfl := Option.some.inj hnext
    rw [henabled] at hoff
    cases hoff

/-- A step whose checks come in time keeps valid schedules and expressions that fire. -/
theorem Scheduler.Traced.validKept (h : σ.Traced) {act : ScheduleAct} (hin : InTime σ act) :
    ValidKept env σ act where
  rejected := by
    rintro context op message rfl hrejected hmessage
    exact ScheduleOp.run_rejects hin hmessage hrejected
  disabled := by
    intro id before after hbefore hafter henabled hdisabled hreason
    have hunchanged : σ.schedules = (σ.step env act).schedules → ¬before.Valid := by
      intro hsame
      rw [← hsame, hbefore] at hafter
      obtain rfl := Option.some.inj hafter
      rw [henabled] at hdisabled
      cases hdisabled
    cases act with
    | elsewhere label => exact hunchanged rfl
    | operate context op => exact absurd hreason (op.run_disabled hbefore hafter henabled hdisabled)
    | start tid scopes =>
      refine hunchanged ?_
      simp only [Scheduler.step]
      split_ifs <;> rfl
    | crash tid =>
      refine hunchanged ?_
      simp only [Scheduler.step]
      split <;> rfl
    | tick tid grants clock awaited =>
      cases htick : σ.ticks.get tid with
      | none =>
        refine hunchanged ?_
        simp only [Scheduler.step, htick]
      | some tick =>
        simp only [Scheduler.step, htick] at hafter hunchanged
        rcases @Tick.act_change env grants clock awaited tick σ.world.store σ.schedules with hsame |
          ⟨snapshot, hhead, hchange⟩
        · exact hunchanged hsame.symm
        obtain ⟨current, hcurrent, hfollows⟩ :=
          h.snapshots tid tick htick snapshot (List.mem_of_mem_head? hhead)
        exact hchange.disabled hcurrent hfollows (h.closing tid tick htick)
          (fun hphase => hin _ _ (.looks tid grants clock awaited tick snapshot htick hphase hhead))
          hbefore hafter henabled hdisabled hreason

/-- In every run whose checks come in time, no tick disables a valid schedule as invalid, and no
operation rejects an expression that parses and fires. -/
theorem Scheduler.valid_kept (env : ScheduleEnv) (acts : List ScheduleAct)
    (h : Machine.Along (Scheduler.step env) InTime .init acts) :
    Machine.Along (Scheduler.step env) (ValidKept env) .init acts := by
  suffices hrun : ∀ σ : Scheduler, σ.Sound env → σ.Traced →
      Machine.Along (Scheduler.step env) InTime σ acts →
      Machine.Along (Scheduler.step env) (ValidKept env) σ acts from
    hrun _ (Scheduler.sound_init env) Scheduler.traced_init h
  clear h
  induction acts with
  | nil => exact fun _ _ _ _ => trivial
  | cons act acts ih =>
    intro σ hsound htraced h
    exact ⟨htraced.validKept h.1, ih _ (hsound.step act) (htraced.step hsound act) h.2⟩

end Kept

/-! ### Leap days -/

/-- Between the end of February of one year and the next but one, with no leap year between, an
expression for the 29th of February does not fire. -/
theorem leapDay_not_fires {spec : CronSpec} (hmonth : ∀ month ∈ spec.month, month = 2)
    (hday : ∀ day ∈ spec.dayOfMonth, day = 29) {start year : Int}
    (hafter : dayFromYear year + 60 ≤ start / msPerDay)
    (hbefore : start / msPerDay + 367 ≤ dayFromYear (year + 2))
    (hleap : inLeapYear (year + 1) = false) : ¬spec.FiresFrom start := by
  rintro ⟨m, hm, hmatch, hge, hlt⟩
  have hrange : start / msPerDay ≤ m / msPerDay ∧ m / msPerDay < start / msPerDay + 367 := by
    have hminutes : start / 86400000 = start / 60000 / 1440 := by omega
    unfold Time truncateToMinute msPerMinute horizonMs at *
    unfold msPerDay
    omega
  simp only [matchesSpec, Bool.and_eq_true, List.contains_iff_mem] at hmatch
  have hdate := dateOf_utcDate m
  have hmonth1 : (utcDate m).month = 1 := by
    have := hmonth _ hmatch.1.2
    omega
  have hday29 : (utcDate m).day = 29 := by
    have := hday _ hmatch.1.1.2
    omega
  have hleap' := leap_of_feb29 hdate hmonth1 hday29
  obtain ⟨hfrom, hto⟩ := hdate.within
  have hofDay := hdate.day
  rw [hmonth1, hday29, hleap'] at hofDay
  have hstart : monthStart true 1 = 31 := rfl
  -- the year is one of two, the second is no leap year and in the first the day is over
  rcases lt_trichotomy (utcDate m).year (year + 1) with hlt' | heq | hgt
  · have := dayFromYear_mono (show (utcDate m).year ≤ year by omega)
    omega
  · rw [heq, hleap] at hleap'
    cases hleap'
  · have := dayFromYear_mono (show year + 2 ≤ (utcDate m).year by omega)
    omega

theorem checkedCron_never {cron : String} {spec : CronSpec} {now : Time}
    (hparse : parseCron cron = .ok spec) (hfires : ¬spec.FiresFrom now) :
    checkedCron cron now = .error (Rejects "cron expression never fires within a year") := by
  unfold checkedCron
  rw [hparse]
  exact if_neg fun hnext => hfires (nextDueSlot_isSome.1 hnext)

/-- A creation whose expression is rejected. -/
theorem ScheduleOp.create_rejected {env : ScheduleEnv} {context : OperatorContext}
    {schedules : Schedules} {id cron : String} {spec : WorkSpec} {enabled : Option Bool}
    {e : ScheduleError} (hscope : context.principal.scopes.contains "work.operator" = true)
    (hspec : authorizeSpec env context.principal.toWorkAuthority spec = .ok ())
    (hcheck : checkedCron cron (context.clock 0) = .error e) :
    (ScheduleOp.run env context (.create id cron spec enabled) schedules).1 = .error e := by
  unfold ScheduleOp.run
  rw [if_neg (not_not.2 hscope)]
  dsimp only
  rw [hspec, hcheck]
  rfl

/-- A tick disables the schedule of a snapshot that its check does not pass. -/
theorem Scheduler.look_disables {env : ScheduleEnv} {σ : Scheduler} {tid : Nat} {grants : List WorkGrant}
    {clock : Time} {tick : Tick} {snapshot current : Schedule} {rest : List Schedule}
    (htick : σ.ticks.get tid = some tick) (hphase : tick.phase = .looking)
    (hremaining : tick.remaining = snapshot :: rest) (hpending : snapshot.pendingTick = none)
    (hdue : dueOccurrence snapshot tick.now = none)
    (hcurrent : σ.schedules.get snapshot.scheduleId = some current)
    (hconfigured : stillConfigured snapshot current = true)
    (haccepts : ∀ next, invalidateChange snapshot tick.now (some current) = some next →
      env.acceptsSchedule next = true) :
    ∃ after, (σ.step env (.tick tid grants clock .returns)).schedules.get snapshot.scheduleId =
      some after ∧ after.enabled = false ∧ after.disabledReason = some .invalid := by
  have hnext : ∃ next, invalidateChange snapshot tick.now (some current) = some next ∧
      next.enabled = false ∧ next.disabledReason = some .invalid := by
    unfold invalidateChange
    dsimp only
    rw [if_neg (not_not.2 hconfigured)]
    exact ⟨_, rfl, rfl, rfl⟩
  obtain ⟨next, hnext, hoff, hreason⟩ := hnext
  refine ⟨next, ?_, hoff, hreason⟩
  have hwritten : (mutateSchedule env σ.schedules snapshot.scheduleId
      fun current => .ok (invalidateChange snapshot tick.now current)) =
        (.ok (some next), σ.schedules.set snapshot.scheduleId next) := by
    unfold mutateSchedule
    simp only [hcurrent, hnext, haccepts next hnext, if_true]
  simp only [Scheduler.step, htick, Tick.act, hphase, hremaining, Tick.look, hpending, hdue,
    Tick.mutate, hwritten, OrderedMap.get_set_self]

namespace Sample

/-- The operator at an instant. -/
def operatorAt (t : Time) : OperatorContext := { operator with clock := fun _ => t }

/-- A schedule for every 29th of February. -/
def leapDay : ScheduleOp :=
  .create scheduleId "0 0 29 2 *"
    { title := "t", description := "d", pipeline := "claude", priority := .normal
      fallbackPipelines := none, deliveryRuntime := none, deliverable := none, repo := "a/b" } none

def leapDaySpec : CronSpec :=
  { minute := [0], hour := [0], dayOfMonth := [29], month := [2], dayOfWeek := [0, 1, 2, 3, 4, 5, 6] }

/-- The schedule as it is created. -/
def leapDayStored : Schedule :=
  { scheduleId, cron := "0 0 29 2 *"
    spec := WorkSpec.toJson
      { title := "t", description := "d", pipeline := "claude", priority := .normal
        fallbackPipelines := none, deliveryRuntime := none, deliverable := none, repo := "a/b" }
    enabled := true, createdBy := "user", createdAt := 1835395230000, updatedAt := 1835395230000
    lastSlotAt := some 1835395230000, revision := some 1 }

theorem leapDay_parses : parseCron "0 0 29 2 *" = .ok leapDaySpec := by decide +kernel

/-- Created on a 29th of February, and listed by a tick on the next day. -/
def dayAfterLeapDay : List ScheduleAct :=
  [.operate (operatorAt 1835395230000) leapDay, .start 1 ["work.cron"],
    .tick 1 grants 1835481600000 .returns]

theorem dayAfterLeapDay_tick : ∃ tick, (Scheduler.init.run scheduleEnv dayAfterLeapDay).ticks.get 1 =
    some tick ∧ tick.phase = .looking ∧ tick.remaining = [leapDayStored] ∧ tick.now = 1835481600000 := by
  have hread : ((Scheduler.init.run scheduleEnv dayAfterLeapDay).ticks.get 1).map (fun tick =>
      (tick.now, tick.remaining, match tick.phase with | .looking => true | _ => false)) =
        some (1835481600000, [leapDayStored], true) := by decide +kernel
  obtain ⟨tick, htick, heq⟩ := Option.map_eq_some_iff.1 hread
  obtain ⟨hnow, hrest⟩ := Prod.mk.inj heq
  obtain ⟨hremaining, hlooking⟩ := Prod.mk.inj hrest
  refine ⟨tick, htick, ?_, hremaining, hnow⟩
  revert hlooking
  cases tick.phase with
  | looking => exact fun _ => rfl
  | _ => exact nofun

end Sample

open Sample in
/-- A schedule for leap days fires again and again, but the tick on the day after one disables it as
invalid, and in another year an operator cannot create it. -/
theorem Scheduler.leapDay_disabled :
    ∃ before after, (Scheduler.init.run scheduleEnv dayAfterLeapDay).schedules.get scheduleId =
        some before ∧ before.enabled = true ∧ before.Valid ∧
      (∀ bound : Int, ∃ m, Minute m ∧ bound < m ∧ matchesSpec leapDaySpec m = true) ∧
      ((Scheduler.init.run scheduleEnv dayAfterLeapDay).step scheduleEnv
        (.tick 1 grants 1835481600000 .returns)).schedules.get scheduleId = some after ∧
      after.enabled = false ∧ after.disabledReason = some .invalid ∧
      (leapDay.run scheduleEnv (operatorAt 1780272000000) .empty).1 =
        .error (Rejects "cron expression never fires within a year") := by
  have hfires : leapDaySpec.Fires := ⟨1835395200000, rfl, by decide +kernel⟩
  have hstored : (Scheduler.init.run scheduleEnv dayAfterLeapDay).schedules.get scheduleId =
      some leapDayStored := by decide +kernel
  obtain ⟨tick, htick, hphase, hremaining, hnow⟩ := dayAfterLeapDay_tick
  have hdue : dueOccurrence leapDayStored tick.now = none := by
    rw [← Option.not_isSome_iff_eq_none, dueOccurrence_isSome, hnow]
    rintro ⟨-, spec, hspec, hfrom⟩
    obtain rfl : leapDaySpec = spec := Except.ok.inj (leapDay_parses.symm.trans hspec)
    exact @leapDay_not_fires leapDaySpec (by decide) (by decide) 1835481600000 2028 (by decide)
      (by decide) (by decide) hfrom
  obtain ⟨after, hafter, hoff, hreason⟩ := @Scheduler.look_disables scheduleEnv _ 1 grants
    1835481600000 tick leapDayStored leapDayStored [] htick hphase hremaining rfl hdue hstored
    (by decide +kernel) (by
      intro next hnext
      obtain rfl := Option.some.inj hnext
      rw [hnow]
      decide +kernel)
  refine ⟨leapDayStored, after, hstored, rfl, ⟨by decide +kernel, leapDaySpec, leapDay_parses, hfires⟩,
    hfires.forever, hafter, hoff, hreason, ?_⟩
  refine ScheduleOp.create_rejected (by decide) (by decide +kernel) (checkedCron_never leapDay_parses ?_)
  exact @leapDay_not_fires leapDaySpec (by decide) (by decide) 1780272000000 2026 (by decide)
    (by decide) (by decide)

namespace Sample

/-- The schedule for leap days, made just before the day and looked at on it. -/
def onLeapDay : List ScheduleAct :=
  .operate (operatorAt 1835395080000) leapDay :: .start 1 ["work.cron"] ::
    List.replicate 2 (.tick 1 grants 1835395230000 .returns)

theorem leapDay_inTime {now : Time} (h : now = 1835395080000 ∨ now = 1835395230000) :
    FiresInTime "0 0 29 2 *" now := by
  intro spec hparse _
  obtain rfl := Except.ok.inj (leapDay_parses.symm.trans hparse)
  refine ⟨1835395200000, rfl, by decide +kernel, ?_⟩
  rcases h with rfl | rfl <;> decide +kernel

/-- What the tick looks at, and when. -/
theorem leapDay_looked {σ : Scheduler}
    (h : (σ.ticks.get 1).all (fun tick => tick.remaining.all fun snapshot =>
      snapshot.cron = "0 0 29 2 *" ∧ tick.now = 1835395230000) = true) :
    InTime σ (.tick 1 grants 1835395230000 .returns) := by
  intro cron now hchecks
  cases hchecks with
  | looks _ _ _ _ tick snapshot htick _ hhead =>
  rw [htick] at h
  obtain ⟨hcron, hnow⟩ := of_decide_eq_true (List.all_eq_true.1 h snapshot (List.mem_of_mem_head? hhead))
  rw [hcron, hnow]
  exact leapDay_inTime (.inr rfl)

end Sample

open Sample in
/-- The tick that looks at the schedule on the leap day keeps it. -/
theorem Scheduler.valid_kept_onLeapDay :
    ((Scheduler.init.run scheduleEnv onLeapDay).schedules.get scheduleId).any (·.enabled) = true ∧
      Machine.Along (Scheduler.step scheduleEnv) (ValidKept scheduleEnv) .init onLeapDay := by
  refine ⟨by decide +kernel, Scheduler.valid_kept scheduleEnv onLeapDay ⟨?_, ?_, ?_, ?_, trivial⟩⟩
  · rintro _ _ ⟨⟩
    exact leapDay_inTime (.inl rfl)
  · rintro _ _ ⟨⟩
  · exact leapDay_looked (by decide +kernel)
  · exact leapDay_looked (by decide +kernel)

end AgentLcars
