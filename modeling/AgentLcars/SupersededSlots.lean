import AgentLcars.CronGrammar
import AgentLcars.ScheduleChecks

/-!
# Superseded slots

One schedule whose ticks run to completion one after another, whatever the other parties do.

* `RunsThrough`: what is asked of a step of such a run.
* `Sweep`: where the schedule and the tick that has it in hand stand, between any two steps.
* `Sweep.step`: the look of a tick admits the latest slot that is due, and no other step admits one.
* `Scheduler.slots_exact`: the walks are exact, and a matching minute is skipped if and only if a
  later one was due at the first tick at or after it.
-/

namespace AgentLcars

open Reservations

/-! ### Ticks that run to completion -/

/-- No snapshot of the schedule is left in the tick's list. -/
def Tick.FreeOf (id : String) (tick : Tick) : Prop :=
  ∀ snapshot ∈ tick.remaining, snapshot.scheduleId ≠ id

/-- The tick is about to work on the schedule. -/
def Tick.isAt (id : String) (tick : Tick) : Bool := tick.remaining.head?.any (·.scheduleId = id)

/-- The creator of an occurrence that is about to be minted has the grant for it. -/
def TickPhase.Granted (env : ScheduleEnv) (grants : List WorkGrant) : TickPhase → Prop
  | .admitted pending => ∀ spec ∈ workSpecSchema pending.spec,
      workForbiddenReason env.isControlPlaneRepository
        { principal := pending.createdBy
          pipelines := ((grantForPrincipal pending.createdBy grants).map (·.pipelines)).getD [] }
        spec.pipeline spec.repo = none
  | _ => True

def TickPhase.isListing : TickPhase → Bool
  | .listing => true
  | _ => false

def Awaited.isReturns : Awaited → Bool
  | .returns => true
  | .throws _ _ => false

/-- A step of a run in which the schedule is not edited and its ticks run to completion, one at a
time: operators leave it as it is; a tick takes its list when no tick has the schedule left to do;
and what a tick awaits while it works on the schedule returns, under a grant for its creator, without
an error. -/
def RunsThrough (env : ScheduleEnv) (id : String) (σ : Scheduler) : ScheduleAct → Prop
  | .elsewhere _ => True
  | .start _ _ => True
  | .operate context op => (op.run env context σ.schedules).2.get id = σ.schedules.get id
  | .crash tid => ∀ tick ∈ σ.ticks.get tid, tick.FreeOf id
  | .tick tid grants clock awaited => ∀ tick ∈ σ.ticks.get tid,
      (tick.phase.isListing = true → ∀ other ∈ σ.ticks.values, other.FreeOf id) ∧
      (tick.isAt id = true → awaited.isReturns = true ∧ tick.phase.Granted env grants ∧
        (tick.act env grants clock awaited σ.world.store σ.schedules).tick.report.errors =
          tick.report.errors)

/-- The instant of the tick that looks at the schedule. -/
def lookTime (id : String) (σ : Scheduler) : ScheduleAct → Option Time
  | .tick tid _ _ _ => (σ.ticks.get tid).bind fun tick =>
      match tick.phase with
      | .looking => if tick.isAt id then some tick.now else none
      | _ => none
  | _ => none

/-- The instants of the ticks of the schedule, in the order of their looks. -/
def lookTimes (env : ScheduleEnv) (id : String) (σ : Scheduler) (acts : List ScheduleAct) :
    List Time :=
  Machine.events (Scheduler.step env) (lookTime id) σ acts

/-- The run admits the slot. -/
def Scheduler.AdmitsSlot (env : ScheduleEnv) (σ : Scheduler) (acts : List ScheduleAct) (id : String)
    (slot : Time) : Prop :=
  ∃ first act more pending, acts = first ++ act :: more ∧
    (σ.run env first).Admits env act id pending ∧
    pending.slotAt = slot

section Decisions

variable {env : ScheduleEnv} {id : String}

instance (tick : Tick) : Decidable (tick.FreeOf id) :=
  inferInstanceAs (Decidable (∀ snapshot ∈ tick.remaining, snapshot.scheduleId ≠ id))

instance (grants : List WorkGrant) : (phase : TickPhase) → Decidable (phase.Granted env grants)
  | .admitted pending => inferInstanceAs (Decidable (∀ spec ∈ workSpecSchema pending.spec,
      workForbiddenReason env.isControlPlaneRepository
        { principal := pending.createdBy
          pipelines := ((grantForPrincipal pending.createdBy grants).map (·.pipelines)).getD [] }
        spec.pipeline spec.repo = none))
  | .listing | .looking | .requesting _ _ _ | .draining _ | .denied _ _ | .conflicted _ _
  | .closing _ _ | .settling _ | .ended => isTrue trivial

instance (σ : Scheduler) : (act : ScheduleAct) → Decidable (RunsThrough env id σ act)
  | .elsewhere _ | .start _ _ => isTrue trivial
  | .operate context op => inferInstanceAs (Decidable
      ((op.run env context σ.schedules).2.get id = σ.schedules.get id))
  | .crash tid => inferInstanceAs (Decidable (∀ tick ∈ σ.ticks.get tid, tick.FreeOf id))
  | .tick tid grants clock awaited => inferInstanceAs (Decidable (∀ tick ∈ σ.ticks.get tid,
      (tick.phase.isListing = true → ∀ other ∈ σ.ticks.values, other.FreeOf id) ∧
      (tick.isAt id = true → awaited.isReturns = true ∧ tick.phase.Granted env grants ∧
        (tick.act env grants clock awaited σ.world.store σ.schedules).tick.report.errors =
          tick.report.errors)))

end Decisions

/-! ### The schedule between two steps -/

/-- The tick works on the occurrence. -/
inductive InHand (pending : PendingTick) : TickPhase → Prop where
  | admitted : InHand pending (.admitted pending)
  | requesting (spec : WorkSpec) (pipelines : List String) :
      InHand pending (.requesting pending spec pipelines)
  | draining : InHand pending (.draining pending)
  | conflicted (spec : WorkSpec) : InHand pending (.conflicted pending spec)
  | settling : InHand pending (.settling pending)

/-- A tick has the schedule left to do, as it is stored, or works on its pending occurrence. -/
inductive Stage (id : String) (s : Schedule) (tick : Tick) : Prop where
  | listed (before after : List Schedule) (hremaining : tick.remaining = before ++ s :: after)
      (hbefore : ∀ x ∈ before, x.scheduleId ≠ id) (hafter : ∀ x ∈ after, x.scheduleId ≠ id)
      (hlisting : tick.phase ≠ .listing) (hlooking : before = [] → tick.phase = .looking)
      (hnone : s.pendingTick = none)
  | working (snapshot : Schedule) (rest : List Schedule) (pending : PendingTick)
      (hremaining : tick.remaining = snapshot :: rest) (hid : snapshot.scheduleId = id)
      (hrest : ∀ x ∈ rest, x.scheduleId ≠ id) (hpending : s.pendingTick = some pending)
      (hphase : InHand pending tick.phase)

/-- Which tick has the schedule in hand. -/
inductive TickTurn (id : String) (s : Schedule) (ticks : OrderedMap Nat Tick) : Prop where
  | idle (hnone : s.pendingTick = none)
      (hfree : ∀ tid tick, ticks.get tid = some tick → tick.FreeOf id)
  | busy (tid : Nat) (tick : Tick) (htick : ticks.get tid = some tick) (hstage : Stage id s tick)
      (hfree : ∀ other tick, other ≠ tid → ticks.get other = some tick → tick.FreeOf id)

/-- The schedule has the configuration it was created with, and no slot after the last tick. -/
structure Sweep (id : String) (cron : String) (σ : Scheduler) (last : Time) (s : Schedule) :
    Prop where
  stored : σ.schedules.get id = some s
  named : s.scheduleId = id
  enabled : s.enabled = true
  live : s.deletedAt = none
  cron : s.cron = cron
  parses : (workSpecSchema s.spec).isSome = true
  open_ : s.lastClosedSlotAt = none
  mark : ∃ m, s.lastSlotAt = some m ∧ m ≤ last
  pending : ∀ pending ∈ s.pendingTick, pending.slotAt ≤ last ∧
    ∃ work : WorkSpec, work.Valid ∧ pending.spec = work.toJson
  turn : TickTurn id s σ.ticks

section Steps

variable {env : ScheduleEnv} {id cron : String} {σ : Scheduler} {last : Time} {s : Schedule}
  {grants : List WorkGrant} {clock : Time} {tick : Tick} {store : Store} {schedules : Schedules}

/-- A failed act of a tick reports an error. -/
theorem Tick.fail_errors (scheduleId message : String) :
    (tick.fail scheduleId message).report.errors ≠ tick.report.errors := by
  intro h
  have hlength := congrArg List.length h
  simp only [Tick.fail, List.length_append, List.length_singleton] at hlength
  omega

/-- A change that is awaited without an error is stored, and its outcome is the answer. -/
theorem Tick.mutate_returns {change : Option Schedule → Option Schedule} {next : Schedule}
    {returned : Option Schedule → Tick} (hnext : change (schedules.get id) = some next)
    (h : (tick.mutate env .returns schedules id change returned).tick.report.errors =
      tick.report.errors) :
    tick.mutate env .returns schedules id change returned =
      { tick := returned (some next), schedules := schedules.set id next } := by
  unfold Tick.mutate mutateSchedule at h ⊢
  simp only [hnext] at h ⊢
  by_cases haccepts : env.acceptsSchedule next = true
  · simp only [haccepts, if_true]
  · rw [if_neg haccepts] at h
    exact absurd h (Tick.fail_errors _ _)

/-- What a tick finds due in a schedule that parses and always fires. -/
theorem dueOccurrence_eq {spec : CronSpec} {work : WorkSpec}
    (hwork : workSpecSchema s.spec = some work)
    (hparse : parseCron s.cron = .ok spec) (hfires : spec.FiresFrom clock) :
    dueOccurrence s clock =
      some ((latestDueSlot spec clock (admissionWatermark s)).map fun slot => (work, slot)) := by
  unfold dueOccurrence
  obtain ⟨next, hnext⟩ := Option.isSome_iff_exists.1 (nextDueSlot_isSome.2 hfires)
  simp only [hwork, hparse, Except.toOption, Option.bind_eq_bind, Option.bind_some, hnext,
    Option.pure_def]

theorem Sweep.watermark (h : Sweep id cron σ last s) :
    admissionWatermark s = s.lastSlotAt := by
  unfold admissionWatermark
  rw [h.open_]
  cases s.lastSlotAt <;> rfl

/-- The occurrence a tick admits for a schedule. -/
def admittedTick (s : Schedule) (work : WorkSpec) (slot : Time) (itemId : String) : PendingTick :=
  { slotAt := slot, itemId, revision := s.currentRevision, spec := work.toJson,
    createdBy := s.createdBy }

/-- An enabled schedule admits what is due. -/
theorem Sweep.admitChange_eq (h : Sweep id cron σ last s) {work : WorkSpec} {slot : Time}
    {itemId : String} (hnone : s.pendingTick = none)
    (hbelow : ∀ m ∈ admissionWatermark s, m < slot) :
    admitChange s work slot itemId (some s) =
      some { s with pendingTick := some (admittedTick s work slot itemId) } := by
  unfold admitChange
  dsimp only
  rw [if_neg]
  · rfl
  · rintro (hconfigured | hpending | hreached)
    · exact hconfigured (decide_eq_true ⟨h.enabled, h.live, rfl⟩)
    · exact hpending hnone
    · obtain ⟨m, hm, hle⟩ := (Option.any_eq_true ..).1 hreached
      have hlt := hbelow m hm
      have hle := of_decide_eq_true hle
      unfold Time at *
      omega

/-- The look of a tick at its own snapshot. -/
theorem Sweep.look (h : Sweep id cron σ last s) {spec : CronSpec} {work : WorkSpec}
    (hwork : workSpecSchema s.spec = some work) (hparse : parseCron cron = .ok spec)
    (hfires : spec.FiresFrom tick.now) (hnone : s.pendingTick = none)
    (herrors : (tick.look env .returns σ.schedules s).tick.report.errors = tick.report.errors) :
    (latestDueSlot spec tick.now s.lastSlotAt = none ∧
      tick.look env .returns σ.schedules s = { tick := tick.next, schedules := σ.schedules }) ∨
    ∃ slot pending, latestDueSlot spec tick.now s.lastSlotAt = some slot ∧ pending.slotAt = slot ∧
      (∃ work : WorkSpec, work.Valid ∧ pending.spec = work.toJson) ∧
      tick.look env .returns σ.schedules s =
        { tick := { tick with phase := .admitted pending }
          schedules := σ.schedules.set id { s with pendingTick := some pending } } := by
  have hdue := dueOccurrence_eq hwork (h.cron ▸ hparse) hfires
  rw [h.watermark] at hdue
  unfold Tick.look at herrors ⊢
  simp only [hnone, hdue] at herrors ⊢
  cases hlatest : latestDueSlot spec tick.now s.lastSlotAt with
  | none => exact .inl ⟨rfl, rfl⟩
  | some slot =>
    right
    simp only [hlatest, Option.map_some, h.named] at herrors ⊢
    have hbelow : ∀ m ∈ admissionWatermark s, m < slot := by
      rw [h.watermark]
      exact (latestDueSlot_some hlatest).2.2
    have hchange : admitChange s work slot (slotItemId env.sha256 id slot) (σ.schedules.get id) =
        some { s with pendingTick := some (admittedTick s work slot (slotItemId env.sha256 id slot)) } := by
      rw [h.stored]
      exact h.admitChange_eq hnone hbelow
    refine ⟨slot, admittedTick s work slot (slotItemId env.sha256 id slot), rfl, rfl,
      ⟨work, workSpecSchema_valid hwork, rfl⟩, ?_⟩
    rw [Tick.mutate_returns hchange herrors]
    simp only [Option.bind_some, h.named]

/-- The schedule after its occurrence is settled. -/
def settledSchedule (s : Schedule) (pending : PendingTick) (now : Time) : Schedule :=
  { s with
    pendingTick := none
    lastSlotAt := some (laterSlot s.lastSlotAt pending.slotAt)
    lastItemId := some pending.itemId
    updatedAt := now }

/-- What an act on a pending occurrence comes to: it is still in hand, or settled. -/
inductive Works (id : String) (s : Schedule) (pending : PendingTick) (tick : Tick)
    (schedules : Schedules) : TickResult → Prop where
  | goesOn (phase : TickPhase) (label : Option Step) (hphase : InHand pending phase) :
      Works id s pending tick schedules { tick := { tick with phase }, schedules, label }
  | settles (report : TickReport) :
      Works id s pending tick schedules
        { tick := { tick with remaining := tick.remaining.tail, phase := .looking, report }
          schedules := schedules.set id (settledSchedule s pending tick.now) }

theorem deepStrictEqualItems_strings (texts : List String) :
    deepStrictEqualItems (texts.map .str) (texts.map .str) = true := by
  induction texts with
  | nil => rfl
  | cons text texts ih =>
    simp only [List.map_cons, deepStrictEqualItems, isDeepStrictEqual, ih, decide_true,
      Bool.and_self]

/-- A specification is deeply equal to itself. -/
theorem WorkSpec.isDeepStrictEqual_toJson (work : WorkSpec) :
    isDeepStrictEqual work.toJson work.toJson = true := by
  obtain ⟨title, description, pipeline, priority, fallbacks, runtime, deliverable, repo⟩ := work
  cases fallbacks <;> cases runtime <;> cases deliverable <;>
    simp [WorkSpec.toJson, optionalField, isDeepStrictEqual, deepStrictEqualFields,
      List.lookup_cons,
      deepStrictEqualItems_strings]

theorem samePending_self {pending : PendingTick} {work : WorkSpec}
    (h : pending.spec = work.toJson) :
    samePending (some pending) pending = true := by
  unfold samePending
  rw [Option.any_some, decide_eq_true_eq, h]
  exact ⟨rfl, rfl, rfl, rfl, work.isDeepStrictEqual_toJson⟩

/-- An act on the pending occurrence that awaits without an error, under the creator's grant. -/
theorem Sweep.works (h : Sweep id cron σ last s) {snapshot : Schedule} {rest : List Schedule}
    {pending : PendingTick} {work : WorkSpec} (hremaining : tick.remaining = snapshot :: rest)
    (hid : snapshot.scheduleId = id) (hpending : s.pendingTick = some pending)
    (hwork : work.Valid) (hspec : pending.spec = work.toJson) (hphase : InHand pending tick.phase)
    (hgranted : tick.phase.Granted env grants)
    (herrors : (tick.act env grants clock .returns store σ.schedules).tick.report.errors =
      tick.report.errors) :
    Works id s pending tick σ.schedules (tick.act env grants clock .returns store σ.schedules) := by
  have hparse : workSpecSchema pending.spec = some work := by rw [hspec, hwork.roundTrip]
  have hreconcile : ∀ spec,
    (tick.reconcile store id pending spec).report.errors = tick.report.errors →
      Works id s pending tick σ.schedules
        { tick := tick.reconcile store id pending spec, schedules := σ.schedules } := by
    intro spec herrors
    unfold Tick.reconcile at herrors ⊢
    split_ifs at herrors ⊢
    · exact .goesOn _ none .settling
    · exact absurd herrors (Tick.fail_errors _ _)
  generalize htick : tick.phase = phase at hphase hgranted
  cases hphase with
  | admitted =>
    simp only [Tick.act, htick, hremaining, hid] at herrors ⊢
    have hallowed := hgranted work hparse
    unfold Tick.mint at herrors ⊢
    simp only [hparse, hallowed, Option.isSome_none, Bool.false_eq_true, if_false] at herrors ⊢
    split at herrors
    · exact .goesOn _ none (.requesting _ _)
    · exact .goesOn _ none .settling
    · exact .goesOn _ none (.conflicted _)
    · exact absurd herrors (Tick.fail_errors _ _)
  | requesting spec pipelines =>
    simp only [Tick.act, htick, hremaining, hid] at herrors ⊢
    unfold Tick.request at herrors ⊢
    dsimp only at herrors ⊢
    split at herrors
    · exact absurd herrors (Tick.fail_errors _ _)
    · split at herrors
      · exact .goesOn _ _ .draining
      · exact .goesOn _ _ (.conflicted _)
      · exact absurd herrors (Tick.fail_errors _ _)
  | draining =>
    simp only [Tick.act, htick, hremaining]
    rw [← hremaining]
    exact .goesOn _ none .settling
  | conflicted spec =>
    simp only [Tick.act, htick, hremaining, hid] at herrors ⊢
    exact hreconcile spec herrors
  | settling =>
    simp only [Tick.act, htick, hremaining, hid] at herrors ⊢
    have hchange : settleChange pending tick.now (σ.schedules.get id) =
        some (settledSchedule s pending tick.now) := by
      rw [h.stored]
      unfold settleChange
      dsimp only
      rw [hpending, if_neg (not_not.2 (samePending_self hspec))]
      rfl
    rw [Tick.mutate_returns hchange herrors]
    exact .settles _

end Steps

/-! ### Turns -/

section Turns

variable {env : ScheduleEnv} {id cron : String} {σ : Scheduler} {last : Time} {s s' : Schedule}
  {ticks : OrderedMap Nat Tick} {tid : Nat} {tick tick' : Tick}

/-- A tick with the schedule in hand is not free of it. -/
theorem Stage.not_free (h : Stage id s tick) (hnamed : s.scheduleId = id) : ¬tick.FreeOf id := by
  intro hfree
  cases h with
  | listed before after hremaining =>
    exact hfree s (by rw [hremaining]; exact List.mem_append_right _ (List.mem_cons_self ..)) hnamed
  | working snapshot rest pending hremaining hid =>
    exact hfree snapshot (by rw [hremaining]; exact List.mem_cons_self ..) hid

/-- A free tick stays out of the way. -/
theorem TickTurn.beside (h : TickTurn id s ticks) (hnamed : s.scheduleId = id)
    (hfree : ∀ tick, ticks.get tid = some tick → tick.FreeOf id) (hfree' : tick'.FreeOf id) :
    TickTurn id s (ticks.set tid tick') := by
  have hset : ∀ other tick, (ticks.set tid tick').get other = some tick →
      tick.FreeOf id ∨ ticks.get other = some tick := by
    intro other tick htick
    rw [OrderedMap.get_set] at htick
    split_ifs at htick
    · exact .inl (Option.some.inj htick ▸ hfree')
    · exact .inr htick
  cases h with
  | idle hnone hall =>
    exact .idle hnone fun other tick htick =>
      (hset other tick htick).elim (fun h => h) (hall other tick)
  | busy mine tick htick hstage hothers =>
    have hne : mine ≠ tid := by
      rintro rfl
      exact hstage.not_free hnamed (hfree tick htick)
    refine .busy mine tick (by rw [OrderedMap.get_set_of_ne _ _ hne]; exact htick) hstage ?_
    exact fun other tick hother htick =>
      (hset other tick htick).elim (fun h => h) (hothers other tick hother)

/-- The tick that has the schedule in hand goes on. -/
theorem TickTurn.goesOn (hothers : ∀ other tick, other ≠ tid → ticks.get other = some tick →
      tick.FreeOf id) (hstage : Stage id s' tick') : TickTurn id s' (ticks.set tid tick') := by
  refine .busy tid tick' (OrderedMap.get_set_self ..) hstage fun other tick hother htick => ?_
  rw [OrderedMap.get_set_of_ne _ _ hother] at htick
  exact hothers other tick hother htick

/-- The tick that had the schedule in hand is done with it. -/
theorem TickTurn.done (hothers : ∀ other tick, other ≠ tid → ticks.get other = some tick →
      tick.FreeOf id) (hfree : tick'.FreeOf id) (hnone : s'.pendingTick = none) :
    TickTurn id s' (ticks.set tid tick') := by
  refine .idle hnone fun other tick htick => ?_
  rw [OrderedMap.get_set] at htick
  split_ifs at htick with hother
  · exact Option.some.inj htick ▸ hfree
  · exact hothers other tick hother htick

/-- A tick that is not free has the schedule in hand, and the others are free. -/
theorem TickTurn.stage (h : TickTurn id s ticks) (htick : ticks.get tid = some tick)
    (hnot : ¬tick.FreeOf id) :
    Stage id s tick ∧ ∀ other tick, other ≠ tid → ticks.get other = some tick → tick.FreeOf id := by
  cases h with
  | idle _ hall => exact absurd (hall tid tick htick) hnot
  | busy mine tick' htick' hstage hothers =>
    by_cases heq : tid = mine
    · subst heq
      obtain rfl : tick' = tick := Option.some.inj (htick'.symm.trans htick)
      exact ⟨hstage, hothers⟩
    · exact absurd (hothers tid tick heq htick) hnot

/-- A list just taken holds the schedule once, as it is stored. -/
theorem Sweep.listed (h : Sweep id cron σ last s)
    (hkeyed : ∀ id schedule, σ.schedules.get id = some schedule → schedule.scheduleId = id)
    (hnone : s.pendingTick = none) {now : Time} {report : TickReport} :
    Stage id s { now, remaining := listTickSchedules σ.schedules, phase := .looking, report } := by
  have hmem : s ∈ listTickSchedules σ.schedules := by
    refine List.mem_filter.2 ⟨(σ.schedules.mem_values_iff s).2 ⟨id, h.stored⟩, ?_⟩
    exact decide_eq_true (.inl ⟨h.enabled, h.live⟩)
  have hnodup : ((listTickSchedules σ.schedules).map (·.scheduleId)).Nodup :=
    ((List.filter_sublist).map _).nodup (σ.schedules.nodup_keys hkeyed)
  obtain ⟨before, after, hsplit⟩ := List.append_of_mem hmem
  rw [hsplit, List.map_append, List.map_cons, h.named, List.nodup_append] at hnodup
  obtain ⟨-, hcons, hdisjoint⟩ := hnodup
  refine .listed before after hsplit (fun x hx hid => ?_) (fun x hx hid => ?_) nofun (fun _ => rfl) hnone
  · exact hdisjoint _ (List.mem_map_of_mem hx) id (List.mem_cons_self ..) hid
  · exact (List.nodup_cons.1 hcons).1 (hid ▸ List.mem_map_of_mem hx)

end Turns

/-! ### Steps of a sweep -/

/-- What one step comes to: it is no look at the schedule and admits nothing, or it admits the latest
slot that is due, if there is one. -/
inductive Swept (env : ScheduleEnv) (id cron : String) (spec : CronSpec) (σ : Scheduler)
    (act : ScheduleAct)
    (last : Time) (s : Schedule) : Prop where
  | beside (s' : Schedule) (hlook : lookTime id σ act = none)
      (hsweep : Sweep id cron (σ.step env act) last s') (hnone : ∀ p, ¬σ.Admits env act id p)
  | looked (t : Time) (s' : Schedule) (hlook : lookTime id σ act = some t)
      (hsweep : Sweep id cron (σ.step env act) t s')
      (hadmits : ∀ slot, latestDueSlot spec t s.lastSlotAt = some slot →
        ∃ p, σ.Admits env act id p ∧ p.slotAt = slot)
      (honly : ∀ p, σ.Admits env act id p → latestDueSlot spec t s.lastSlotAt = some p.slotAt)

section Swept

variable {env : ScheduleEnv} {id cron : String} {spec : CronSpec} {σ : Scheduler} {last : Time}
  {s s' : Schedule} {act : ScheduleAct}

theorem not_admits_of_eq (h : (σ.step env act).schedules.get id = σ.schedules.get id)
    (p : PendingTick) :
    ¬σ.Admits env act id p := by
  rintro ⟨hnew, hp⟩
  rw [h] at hp
  exact hnew hp

/-- A step that changes neither the schedule nor whose turn it is. -/
theorem Sweep.beside (h : Sweep id cron σ last s) (hlook : lookTime id σ act = none)
    (hsame : (σ.step env act).schedules.get id = σ.schedules.get id)
    (hturn : TickTurn id s (σ.step env act).ticks) : Swept env id cron spec σ act last s :=
  .beside s hlook { h with stored := hsame.trans h.stored, turn := hturn } (not_admits_of_eq hsame)

theorem lookTime_none {tid : Nat} {grants : List WorkGrant} {clock : Time} {awaited : Awaited}
    {tick : Tick} (htick : σ.ticks.get tid = some tick)
    (h : tick.phase = .looking → tick.isAt id = false) :
    lookTime id σ (.tick tid grants clock awaited) = none := by
  show (σ.ticks.get tid).bind _ = none
  rw [htick, Option.bind_some]
  split
  · rename_i hphase
    rw [h hphase]
    rfl
  · rfl

theorem lookTime_some {tid : Nat} {grants : List WorkGrant} {clock : Time} {awaited : Awaited}
    {tick : Tick} (htick : σ.ticks.get tid = some tick) (hphase : tick.phase = .looking)
    (hat : tick.isAt id = true) :
      lookTime id σ (.tick tid grants clock awaited) = some tick.now := by
  show (σ.ticks.get tid).bind _ = some tick.now
  rw [htick, Option.bind_some]
  simp only [hphase, hat, if_true]

theorem isAt_cons {tick : Tick} {snapshot : Schedule} {rest : List Schedule}
    (hremaining : tick.remaining = snapshot :: rest) :
    tick.isAt id = decide (snapshot.scheduleId = id) := by
  unfold Tick.isAt
  rw [hremaining]
  rfl

/-- A tick that is free of the schedule. -/
theorem Sweep.tick_free (hsound : σ.Sound env) (h : Sweep id cron σ last s) {tid : Nat}
    {grants : List WorkGrant} {clock : Time} {awaited : Awaited} {tick : Tick}
    (htick : σ.ticks.get tid = some tick) (hfree : tick.FreeOf id)
    (halone : tick.phase.isListing = true → ∀ other ∈ σ.ticks.values, other.FreeOf id) :
    Swept env id cron spec σ (.tick tid grants clock awaited) last s := by
  have hlook : lookTime id σ (.tick tid grants clock awaited) = none := by
    refine lookTime_none htick fun _ => ?_
    unfold Tick.isAt
    rw [Option.any_eq_false]
    intro snapshot hhead
    exact decide_eq_false (hfree snapshot (List.mem_of_mem_head? hhead))
  have hsame : (σ.step env (.tick tid grants clock awaited)).schedules.get id = σ.schedules.get id := by
    simp only [Scheduler.step, htick]
    rcases @Tick.act_change env grants clock awaited tick σ.world.store σ.schedules with hsame |
      ⟨snapshot, hhead, hchange⟩
    · rw [hsame]
    · exact hchange.get_ne fun heq => hfree snapshot (List.mem_of_mem_head? hhead) heq.symm
  refine h.beside hlook hsame ?_
  simp only [Scheduler.step, htick]
  by_cases hlists : tick.phase = .listing ∧ awaited = .returns
  · obtain ⟨hphase, rfl⟩ := hlists
    rw [Tick.act_lists hphase]
    have hall : ∀ other tick, σ.ticks.get other = some tick → tick.FreeOf id :=
      fun other tick hother =>
      halone (by rw [hphase]; rfl) tick ((σ.ticks.mem_values_iff tick).2 ⟨other, hother⟩)
    refine .goesOn (fun other tick _ hother => hall other tick hother) (h.listed hsound.keyed ?_)
    cases h.turn with
    | idle hnone => exact hnone
    | busy mine tick' htick' hstage =>
      exact absurd (hall mine tick' htick') (hstage.not_free h.named)
  · refine h.turn.beside h.named (fun other hother => ?_) (fun snapshot hmem => ?_)
    · exact Option.some.inj (htick.symm.trans hother) ▸ hfree
    · by_cases hphase : tick.phase = .listing
      · cases awaited with
        | returns => exact absurd ⟨hphase, rfl⟩ hlists
        | throws message applied =>
          simp only [Tick.act, hphase] at hmem
          exact hfree snapshot hmem
      · rcases @Tick.act_remaining env grants clock awaited tick σ.world σ.schedules snapshot
          hmem with
          hmem | ⟨hlisting, -⟩
        · exact hfree snapshot hmem
        · exact absurd hlisting hphase

/-- A tick that still has others to do before the schedule. -/
theorem Sweep.tick_before (h : Sweep id cron σ last s) {tid : Nat} {grants : List WorkGrant}
    {clock : Time} {awaited : Awaited} {tick : Tick} (htick : σ.ticks.get tid = some tick)
    {x : Schedule} {before after : List Schedule}
    (hremaining : tick.remaining = (x :: before) ++ s :: after)
    (hbefore : ∀ y ∈ x :: before, y.scheduleId ≠ id) (hafter : ∀ y ∈ after, y.scheduleId ≠ id)
    (hlisting : tick.phase ≠ .listing) (hnone : s.pendingTick = none)
    (hothers : ∀ other tick, other ≠ tid → σ.ticks.get other = some tick → tick.FreeOf id) :
    Swept env id cron spec σ (.tick tid grants clock awaited) last s := by
  have hx : x.scheduleId ≠ id := hbefore x (List.mem_cons_self ..)
  refine h.beside (lookTime_none htick fun _ => ?_) ?_ ?_
  · rw [isAt_cons hremaining]
    exact decide_eq_false hx
  · simp only [Scheduler.step, htick]
    rcases @Tick.act_change env grants clock awaited tick σ.world.store σ.schedules with hsame |
      ⟨snapshot, hhead, hchange⟩
    · rw [hsame]
    · rw [hremaining] at hhead
      obtain rfl : x = snapshot := Option.some.inj hhead
      exact hchange.get_ne hx.symm
  · simp only [Scheduler.step, htick]
    have hgoes := @Tick.act_goes env grants clock awaited tick σ.world.store σ.schedules hlisting
    generalize (tick.act env grants clock awaited σ.world.store σ.schedules).tick = tick' at hgoes
    refine .goesOn hothers ?_
    cases hgoes with
    | stays phase hphase =>
      exact .listed (x :: before) after hremaining hbefore hafter hphase (by rintro ⟨⟩) hnone
    | passes report =>
      refine .listed before after ?_ (fun y hy => hbefore y (List.mem_cons_of_mem _ hy)) hafter (by rintro ⟨⟩)
        (fun _ => rfl) hnone
      show tick.remaining.tail = _
      rw [hremaining]
      rfl

/-- A tick that looks at the schedule. -/
theorem Sweep.tick_look (h : Sweep id cron σ last s) (hparse : parseCron cron = .ok spec)
    (hfires : ∀ now, spec.FiresFrom now) {tid : Nat} {grants : List WorkGrant} {clock : Time}
    {tick : Tick} (htick : σ.ticks.get tid = some tick) {after : List Schedule}
    (hremaining : tick.remaining = s :: after) (hafter : ∀ y ∈ after, y.scheduleId ≠ id)
    (hphase : tick.phase = .looking) (hnone : s.pendingTick = none)
    (hothers : ∀ other tick, other ≠ tid → σ.ticks.get other = some tick → tick.FreeOf id)
    (herrors : (tick.act env grants clock .returns σ.world.store σ.schedules).tick.report.errors =
      tick.report.errors) (hlater : last ≤ tick.now) :
    Swept env id cron spec σ (.tick tid grants clock .returns) last s := by
  obtain ⟨work, hwork⟩ := Option.isSome_iff_exists.1 h.parses
  obtain ⟨m, hm, hle⟩ := h.mark
  have hlook : lookTime id σ (.tick tid grants clock .returns) = some tick.now := by
    refine lookTime_some htick hphase ?_
    rw [isAt_cons hremaining]
    exact decide_eq_true h.named
  have hact : tick.act env grants clock .returns σ.world.store σ.schedules =
      tick.look env .returns σ.schedules s := by
    simp only [Tick.act, hphase, hremaining]
  rw [hact] at herrors
  have hmark : ∃ m, s.lastSlotAt = some m ∧ m ≤ tick.now := ⟨m, hm, Int.le_trans hle hlater⟩
  rcases h.look hwork hparse (hfires tick.now) hnone herrors with
    ⟨hlatest, hresult⟩ | ⟨slot, pending, hlatest, hslot, hpending, hresult⟩
  · have hstep : σ.step env (.tick tid grants clock .returns) =
        { σ with ticks := σ.ticks.set tid tick.next } := by
      simp only [Scheduler.step, htick, hact, hresult]
      rfl
    have hsame : (σ.step env (.tick tid grants clock .returns)).schedules.get id =
        σ.schedules.get id := by rw [hstep]
    refine .looked tick.now s hlook
      { h with stored := hsame.trans h.stored, mark := hmark, turn := ?_, pending := ?_ } ?_ ?_
    · rw [hnone]
      rintro _ ⟨⟩
    · rw [hstep]
      refine .done hothers (fun y hy => hafter y ?_) hnone
      have hy : y ∈ tick.remaining.tail := hy
      rw [hremaining] at hy
      exact hy
    · intro slot hslot
      rw [hlatest] at hslot
      cases hslot
    · exact fun p hp => absurd hp (not_admits_of_eq hsame p)
  · have hstep : σ.step env (.tick tid grants clock .returns) =
        { σ with
          schedules := σ.schedules.set id { s with pendingTick := some pending }
          ticks := σ.ticks.set tid { tick with phase := .admitted pending } } := by
      simp only [Scheduler.step, htick, hact, hresult]
      rfl
    have hafterwards : (σ.step env (.tick tid grants clock .returns)).schedules.get id =
        some { s with pendingTick := some pending } := by
      rw [hstep, OrderedMap.get_set_self]
    have hadmits : σ.Admits env (.tick tid grants clock .returns) id pending := by
      unfold Scheduler.Admits Reserves
      rw [h.stored, hafterwards]
      refine ⟨fun hsome => ?_, rfl⟩
      have hsome : s.pendingTick = some pending := hsome
      rw [hnone] at hsome
      cases hsome
    refine .looked tick.now { s with pendingTick := some pending } hlook
      { h with stored := hafterwards, mark := hmark, turn := ?_, pending := ?_ } ?_ ?_
    · rintro _ ⟨rfl⟩
      exact ⟨hslot ▸ (latestDueSlot_some hlatest).2.1, hpending⟩
    · rw [hstep]
      exact .goesOn hothers (.working s after pending hremaining h.named hafter rfl .admitted)
    · intro slot' hslot'
      rw [hlatest] at hslot'
      exact ⟨pending, hadmits, hslot.trans (Option.some.inj hslot')⟩
    · intro p hp
      have heq : some pending = some p := by
        have := hp.2
        rw [hafterwards] at this
        exact this
      obtain rfl := Option.some.inj heq
      rw [hlatest, hslot]

/-- A tick that works on the pending occurrence. -/
theorem Sweep.tick_works (h : Sweep id cron σ last s) {tid : Nat} {grants : List WorkGrant}
    {clock : Time} {tick : Tick} (htick : σ.ticks.get tid = some tick) {snapshot : Schedule}
    {rest : List Schedule} {pending : PendingTick} (hremaining : tick.remaining = snapshot :: rest)
    (hid : snapshot.scheduleId = id) (hrest : ∀ y ∈ rest, y.scheduleId ≠ id)
    (hpending : s.pendingTick = some pending) (hphase : InHand pending tick.phase)
    (hothers : ∀ other tick, other ≠ tid → σ.ticks.get other = some tick → tick.FreeOf id)
    (hgranted : tick.phase.Granted env grants)
    (herrors : (tick.act env grants clock .returns σ.world.store σ.schedules).tick.report.errors =
      tick.report.errors) : Swept env id cron spec σ (.tick tid grants clock .returns) last s := by
  obtain ⟨hle, work, hwork, hspec⟩ := h.pending pending hpending
  have hworks := h.works hremaining hid hpending hwork hspec hphase hgranted herrors
  have hlook : lookTime id σ (.tick tid grants clock .returns) = none := by
    refine lookTime_none htick fun hlooking => ?_
    rw [hlooking] at hphase
    cases hphase
  generalize hresult : tick.act env grants clock .returns σ.world.store σ.schedules = result at hworks
  cases hworks with
  | goesOn phase label hphase' =>
    refine h.beside hlook ?_ ?_
    · simp only [Scheduler.step, htick, hresult]
    · simp only [Scheduler.step, htick, hresult]
      exact .goesOn hothers (.working snapshot rest pending hremaining hid hrest hpending hphase')
  | settles report =>
    have hstored : (σ.step env (.tick tid grants clock .returns)).schedules.get id =
        some (settledSchedule s pending tick.now) := by
      simp only [Scheduler.step, htick, hresult, OrderedMap.get_set_self]
    obtain ⟨m, hm, hle'⟩ := h.mark
    refine .beside (settledSchedule s pending tick.now) hlook
      { h with stored := hstored, mark := ?_, pending := (by rintro _ ⟨⟩), turn := ?_ } fun p hp => ?_
    · refine ⟨_, rfl, ?_⟩
      rw [hm]
      unfold laterSlot
      dsimp only
      split_ifs
      · exact hle
      · exact hle'
    · simp only [Scheduler.step, htick, hresult]
      refine .done hothers (fun y hy => hrest y ?_) rfl
      have hy : y ∈ tick.remaining.tail := hy
      rw [hremaining] at hy
      exact hy
    · have hnone := hp.2
      rw [hstored] at hnone
      cases hnone

theorem eq_returns {awaited : Awaited} (h : awaited.isReturns = true) : awaited = .returns := by
  cases awaited with
  | returns => rfl
  | throws => cases h

/-- Every step of a run whose ticks run to completion. -/
theorem Sweep.step (hsound : σ.Sound env) (h : Sweep id cron σ last s)
    (hparse : parseCron cron = .ok spec) (hfires : ∀ now, spec.FiresFrom now)
    (hrun : RunsThrough env id σ act) (hlater : ∀ t ∈ lookTime id σ act, last ≤ t) :
    Swept env id cron spec σ act last s := by
  cases act with
  | elsewhere label => exact h.beside rfl rfl h.turn
  | operate context op => exact h.beside rfl hrun h.turn
  | start tid scopes =>
    refine h.beside rfl ?_ ?_
    · simp only [Scheduler.step]
      split_ifs <;> rfl
    · simp only [Scheduler.step]
      split_ifs with hstart
      · refine h.turn.beside h.named (fun tick htick => ?_) (fun _ hmem => by cases hmem)
        rw [hstart.2] at htick
        cases htick
      · exact h.turn
  | crash tid =>
    cases htick : σ.ticks.get tid with
    | none =>
      refine h.beside rfl ?_ ?_
      · simp only [Scheduler.step, htick]
      · simp only [Scheduler.step, htick]
        exact h.turn
    | some tick =>
      have hfree : tick.FreeOf id := hrun tick htick
      refine h.beside rfl ?_ ?_
      · simp only [Scheduler.step, htick]
      · simp only [Scheduler.step, htick]
        refine h.turn.beside h.named (fun other hother => ?_) hfree
        exact Option.some.inj (htick.symm.trans hother) ▸ hfree
  | tick tid grants clock awaited =>
    cases htick : σ.ticks.get tid with
    | none =>
      have hidle : σ.step env (.tick tid grants clock awaited) = σ := by
        simp only [Scheduler.step, htick]
      refine h.beside ?_ (by rw [hidle]) (by rw [hidle]; exact h.turn)
      show (σ.ticks.get tid).bind _ = none
      rw [htick]
      rfl
    | some tick =>
      obtain ⟨halone, hat⟩ := hrun tick htick
      by_cases hfree : tick.FreeOf id
      · exact h.tick_free hsound htick hfree halone
      obtain ⟨hstage, hothers⟩ := h.turn.stage htick hfree
      cases hstage with
      | listed before after hremaining hbefore hafter hlisting hlooking hnone =>
        cases before with
        | cons x before =>
          exact h.tick_before htick hremaining hbefore hafter hlisting hnone hothers
        | nil =>
          have hphase := hlooking rfl
          have hisAt : tick.isAt id = true := by
            rw [isAt_cons hremaining]
            exact decide_eq_true h.named
          obtain ⟨hreturns, -, herrors⟩ := hat hisAt
          obtain rfl := eq_returns hreturns
          exact h.tick_look hparse hfires htick hremaining hafter hphase hnone hothers herrors
            (hlater _ (lookTime_some htick hphase hisAt))
      | working snapshot rest pending hremaining hid hrest hpending hphase =>
        have hisAt : tick.isAt id = true := by
          rw [isAt_cons hremaining]
          exact decide_eq_true hid
        obtain ⟨hreturns, hgranted, herrors⟩ := hat hisAt
        obtain rfl := eq_returns hreturns
        exact h.tick_works htick hremaining hid hrest hpending hphase hothers hgranted herrors

end Swept

/-! ### Runs -/

section Runs

variable {env : ScheduleEnv} {id cron : String} {spec : CronSpec} {σ : Scheduler} {last : Time}
  {s : Schedule} {act : ScheduleAct} {acts : List ScheduleAct} {m : Time}

/-- The instants follow one another, by less than a year and a day. -/
def Spaced (times : List Time) : Prop := times.IsChain fun t t' : Int => t ≤ t' ∧ t' - t < horizonMs

/-- A run admits a slot at its first step or later. -/
theorem admitsSlot_cons : σ.AdmitsSlot env (act :: acts) id m ↔
    (∃ p, σ.Admits env act id p ∧ p.slotAt = m) ∨ (σ.step env act).AdmitsSlot env acts id m := by
  constructor
  · rintro ⟨first, act', more, p, hsplit, hadmits, hslot⟩
    cases first with
    | nil =>
      obtain ⟨rfl, rfl⟩ := List.cons.inj hsplit
      exact .inl ⟨p, hadmits, hslot⟩
    | cons act'' first =>
      obtain ⟨rfl, rfl⟩ := List.cons.inj hsplit
      exact .inr ⟨first, act', more, p, rfl, hadmits, hslot⟩
  · rintro (⟨p, hadmits, hslot⟩ | ⟨first, act', more, p, rfl, hadmits, hslot⟩)
    · exact ⟨[], act, acts, p, rfl, hadmits, hslot⟩
    · exact ⟨act :: first, act', more, p, rfl, hadmits, hslot⟩

/-- The latest slot that is due at a tick, for a minute that is due since the tick before. -/
theorem latestDueSlot_of_due {t : Int} {mark : Option Time} (hmark : ∀ w ∈ mark, w ≤ last)
    (hm : Minute m) (hmatch : matchesSpec spec m = true) (hlast : last < m) (hle : m ≤ t)
    (hgap : t - last < horizonMs) :
    ∃ slot, latestDueSlot spec t mark = some slot ∧ IsLatestSlot spec t mark slot ∧ m ≤ slot := by
  have hsome : (latestDueSlot spec t mark).isSome = true := by
    refine latestDueSlot_isSome.2 ⟨m, hm, hmatch, hle, ?_, fun bound hbound => ?_⟩
    · have := truncate_le t
      unfold Time at *
      omega
    · have := hmark bound hbound
      unfold Time at *
      omega
  obtain ⟨slot, hslot⟩ := Option.isSome_iff_exists.1 hsome
  have hlatest := latestDueSlot_iff.1 hslot
  refine ⟨slot, hslot, hlatest, ?_⟩
  by_contra hlt
  rw [hlatest.greatest m hm hle (by unfold Time at *; omega)] at hmatch
  cases hmatch

/-- What is admitted later lies above what was admitted before. -/
theorem later_of_admits (hsound : σ.Sound env) {p : PendingTick} (hp : σ.Admits env act id p)
    (hlater : (σ.step env act).AdmitsSlot env acts id m) : p.slotAt < m := by
  obtain ⟨first, later, more, q, rfl, hq, rfl⟩ := hlater
  exact hsound.admits_lt hp hq

/-- From a sweep on, a matching minute is skipped exactly if a later one is due at its first
tick. -/
theorem Sweep.skipped_iff (hsound : σ.Sound env) (h : Sweep id cron σ last s)
    (hparse : parseCron cron = .ok spec) (hfires : ∀ now, spec.FiresFrom now)
    (hrun : Machine.Along (Scheduler.step env) (RunsThrough env id) σ acts)
    (hspaced : Spaced (last :: lookTimes env id σ acts)) (hm : Minute m)
    (hmatch : matchesSpec spec m = true) (hlast : last < m) {t : Time}
    (ht : (lookTimes env id σ acts).find? (m ≤ ·) = some t) :
    ¬σ.AdmitsSlot env acts id m ↔ ∃ m', Minute m' ∧ matchesSpec spec m' = true ∧ m < m' ∧
      m' ≤ t := by
  induction acts generalizing σ last s with
  | nil => cases ht
  | cons act acts ih =>
    have htimes : lookTimes env id σ (act :: acts) =
        (lookTime id σ act).toList ++ lookTimes env id (σ.step env act) acts :=
      Machine.events_cons ..
    have hlater : ∀ t ∈ lookTime id σ act, last ≤ t := by
      intro t hlook
      rw [htimes, Option.mem_def.1 hlook] at hspaced
      exact (List.isChain_cons_cons.1 hspaced).1.1
    rw [admitsSlot_cons]
    cases h.step hsound hparse hfires hrun.1 hlater with
    | beside s' hlook hsweep hnone =>
      rw [hlook] at htimes
      rw [htimes] at hspaced ht
      rw [← ih (hsound.step act) hsweep hrun.2 hspaced hlast ht]
      constructor
      · exact fun hnot hadmits => hnot (.inr hadmits)
      · rintro hnot (⟨p, hp, -⟩ | hadmits)
        · exact hnone p hp
        · exact hnot hadmits
    | looked t' s' hlook hsweep hadmits honly =>
      rw [hlook] at htimes
      rw [htimes] at hspaced ht
      obtain ⟨⟨hle, hgap⟩, hspaced⟩ := List.isChain_cons_cons.1 hspaced
      by_cases hdue : m ≤ t'
      · -- this is the first tick at or after the minute
        have hfirst : ((some t').toList ++ lookTimes env id (σ.step env act) acts).find? (m ≤ ·) =
            some t' := List.find?_cons_of_pos (decide_eq_true hdue)
        obtain rfl : t' = t := Option.some.inj (hfirst.symm.trans ht)
        obtain ⟨w, hw, hwle⟩ := h.mark
        have hmark : ∀ x ∈ s.lastSlotAt, x ≤ last := by
          intro x hx
          obtain rfl := Option.some.inj (hw.symm.trans hx)
          exact hwle
        obtain ⟨slot, hslot, hlatest, hmle⟩ :=
          latestDueSlot_of_due hmark hm hmatch hlast hdue hgap
        obtain ⟨p, hp, rfl⟩ := hadmits slot hslot
        constructor
        · intro hnot
          refine ⟨p.slotAt, hlatest.minute, hlatest.matches_, ?_, hlatest.le⟩
          exact lt_of_le_of_ne hmle fun heq => hnot (.inl ⟨p, hp, heq.symm⟩)
        · rintro ⟨m', hm', hmatch', hlt, hle'⟩ (⟨q, hq, heq⟩ | hlater')
          · -- the tick admits the latest match, which is the later one at least
            have hqslot := honly q hq
            rw [hslot, heq] at hqslot
            have heq' : p.slotAt = m := Option.some.inj hqslot
            rw [hlatest.greatest m' hm' hle' (heq' ▸ hlt)] at hmatch'
            cases hmatch'
          · exact absurd (later_of_admits hsound hp hlater') (not_lt.2 hmle)
      · -- the minute is still to come
        have hrest : (lookTimes env id (σ.step env act) acts).find? (m ≤ ·) = some t := by
          rw [← ht]
          exact (List.find?_cons_of_neg (by simpa using hdue)).symm
        rw [← ih (hsound.step act) hsweep hrun.2 hspaced (not_le.1 hdue) hrest]
        constructor
        · exact fun hnot hlater' => hnot (.inr hlater')
        · rintro hnot (⟨p, hp, heq⟩ | hlater')
          · have hslot := (latestDueSlot_some (honly p hp)).2.1
            rw [heq] at hslot
            exact hdue hslot
          · exact hnot hlater'

end Runs

/-! ### The laws -/

/-- What the walks find for an expression: the greatest match of the one window and the least of the
other, and always one when it is unrestricted by the day of the week and names a yearly date. -/
structure WalksExact (spec : CronSpec) : Prop where
  latest : ∀ now after slot, latestDueSlot spec now after = some slot ↔
    IsLatestSlot spec now after slot
  noLatest : ∀ (now : Int) (after : Option Time), latestDueSlot spec now after = none ↔
    ∀ m, Minute m → m ≤ now → truncateToMinute now - horizonMs < m → (∀ bound ∈ after, bound < m) →
      matchesSpec spec m = false
  next : ∀ start slot, nextDueSlot spec start = some slot ↔ IsNextSlot spec start slot
  noNext : ∀ start : Int, nextDueSlot spec start = none ↔
    ∀ m, Minute m → truncateToMinute start ≤ m → m < truncateToMinute start + horizonMs →
      matchesSpec spec m = false
  yearly : (∀ weekday < 7, weekday ∈ spec.dayOfWeek) →
    (∃ month day, month + 1 ∈ spec.month ∧ day ∈ spec.dayOfMonth ∧ Yearly month day) →
      ∀ now, (nextDueSlot spec now).isSome = true ∧ (latestDueSlot spec now none).isSome = true

section Laws

variable {env : ScheduleEnv} {expr : String} {spec : CronSpec}

/-- An accepted expression that names a yearly date for every day of the week. -/
theorem namesYearly (h : parseCron expr = .ok spec)
    (hweekdays : ∀ weekday < 7, weekday ∈ spec.dayOfWeek)
    (hdate : ∃ month day, month + 1 ∈ spec.month ∧ day ∈ spec.dayOfMonth ∧ Yearly month day) :
    spec.NamesYearly :=
  ⟨hweekdays, hdate, (parseCron_clock h).1, (parseCron_clock h).2⟩

theorem walksExact (h : parseCron expr = .ok spec) : WalksExact spec where
  latest := fun _ _ _ => latestDueSlot_iff
  noLatest := by
    intro now after
    rw [← Option.not_isSome_iff_eq_none, latestDueSlot_isSome]
    constructor
    · intro hnone m hm hle hgt hafter
      exact Bool.eq_false_iff.2 fun hmatch => hnone ⟨m, hm, hmatch, hle, hgt, hafter⟩
    · rintro hall ⟨m, hm, hmatch, hle, hgt, hafter⟩
      rw [hall m hm hle hgt hafter] at hmatch
      cases hmatch
  next := fun _ _ => nextDueSlot_iff
  noNext := by
    intro start
    rw [← Option.not_isSome_iff_eq_none, nextDueSlot_isSome]
    constructor
    · intro hnone m hm hge hlt
      exact Bool.eq_false_iff.2 fun hmatch => hnone ⟨m, hm, hmatch, hge, hlt⟩
    · rintro hall ⟨m, hm, hmatch, hge, hlt⟩
      rw [hall m hm hge hlt] at hmatch
      cases hmatch
  yearly := fun hweekdays hdate now =>
    ⟨(namesYearly h hweekdays hdate).next_isSome now,
      (namesYearly h hweekdays hdate).latest_isSome now⟩

/-- A schedule that has just been created. -/
theorem Sweep.created {σ : Scheduler} (htraced : σ.Traced)
    {context : OperatorContext} {id : String} {work : WorkSpec} {enabled : Option Bool}
    {s : Schedule}
    (hwork : work.Valid) (hnew : σ.schedules.get id = none)
    (hcreated : (σ.step env (.operate context (.create id expr work enabled))).schedules.get id =
      some s)
    (henabled : s.enabled = true) :
    Sweep id expr (σ.step env (.operate context (.create id expr work enabled))) s.createdAt s := by
  have hstored := hcreated
  have hs : s = { scheduleId := id, cron := expr, spec := work.toJson, enabled := enabled.getD true
                  createdBy := context.principal.principal, createdAt := context.clock 1
                  updatedAt := context.clock 1, lastSlotAt := some (context.clock 1)
                  revision := some 1 } := by
    simp only [Scheduler.step, ScheduleOp.run] at hcreated
    split_ifs at hcreated
    swap
    · cases hnew.symm.trans hcreated
    split at hcreated
    · cases hnew.symm.trans hcreated
    unfold mutateSchedule at hcreated
    simp only [hnew, createChange] at hcreated
    split_ifs at hcreated
    · rw [OrderedMap.get_set_self] at hcreated
      exact (Option.some.inj hcreated).symm
    · cases hnew.symm.trans hcreated
  subst hs
  refine ⟨hstored, rfl, henabled, rfl, rfl, ?_, rfl, ⟨_, rfl, le_rfl⟩, (by rintro _ ⟨⟩),
    .idle rfl ?_⟩
  · show (workSpecSchema work.toJson).isSome = true
    rw [hwork.roundTrip]
    rfl
  · intro tid tick htick snapshot hmem hid
    obtain ⟨current, hcurrent, -⟩ := htraced.snapshots tid tick htick snapshot hmem
    rw [hid, hnew] at hcurrent
    cases hcurrent

/-- For an accepted expression the walks find the greatest match of the one window and the least of
the other.  And for a schedule from its creation on, with an expression that names a yearly date for
every day of the week, that is enabled and not edited, and whose ticks run to completion one after
another with less than a year and a day between them: a matching minute up to the last tick is never
admitted if and only if a later one was due at the first tick at or after it. -/
theorem Scheduler.slots_exact (env : ScheduleEnv) :
    (∀ expr spec, parseCron expr = .ok spec → WalksExact spec) ∧
    ∀ (before acts : List ScheduleAct) (context : OperatorContext) (id expr : String)
    (work : WorkSpec)
      (enabled : Option Bool) (s : Schedule) (spec : CronSpec) (σ : Scheduler),
      σ = Scheduler.init.run env (before ++ [.operate context (.create id expr work enabled)]) →
      (Scheduler.init.run env before).schedules.get id = none → work.Valid →
      σ.schedules.get id = some s → s.enabled = true → parseCron expr = .ok spec →
      (∀ weekday < 7, weekday ∈ spec.dayOfWeek) →
      (∃ month day, month + 1 ∈ spec.month ∧ day ∈ spec.dayOfMonth ∧ Yearly month day) →
      Machine.Along (Scheduler.step env) (RunsThrough env id) σ acts →
      Spaced (s.createdAt :: lookTimes env id σ acts) →
      ∀ m, Minute m → matchesSpec spec m = true → s.createdAt < m →
      ∀ t, (lookTimes env id σ acts).find? (m ≤ ·) = some t →
        (¬σ.AdmitsSlot env acts id m ↔
          ∃ m', Minute m' ∧ matchesSpec spec m' = true ∧ m < m' ∧ m' ≤ t) := by
  refine ⟨fun expr spec h => walksExact h, ?_⟩
  rintro before acts context id expr work enabled s spec _ rfl hnew hwork hcreated henabled hparse
    hweekdays hdate hrun hspaced m hm hmatch hafter t ht
  rw [Scheduler.run, Machine.run_append] at hcreated hrun hspaced ht ⊢
  have hsound := (Scheduler.sound_init env).run before
  have htraced : (Scheduler.init.run env before).Sound env ∧
    (Scheduler.init.run env before).Traced :=
    Machine.invariant_run (fun σ : Scheduler => σ.Sound env ∧ σ.Traced)
      (fun _ act hσ => ⟨hσ.1.step act, hσ.2.step hσ.1 act⟩)
      ⟨Scheduler.sound_init env, Scheduler.traced_init⟩ before
  have hsweep := Sweep.created htraced.2 hwork hnew hcreated henabled
  exact hsweep.skipped_iff (hsound.step _) hparse
    (fun now => nextDueSlot_isSome.1 ((namesYearly hparse hweekdays hdate).next_isSome now))
    hrun hspaced hm hmatch hafter ht

end Laws

namespace Sample

def work : WorkSpec :=
  { title := "t", description := "d", pipeline := "claude", priority := .normal
    fallbackPipelines := none, deliveryRuntime := none, deliverable := none, repo := "a/b" }

theorem work_valid : work.Valid where
  title := by decide
  description := by decide
  pipeline := by decide
  fallbacks := nofun
  runtime := nofun
  deliverable := nofun
  repo := by decide +kernel

def everyMinuteSpec : CronSpec :=
  { minute := List.range 60, hour := List.range 24, dayOfMonth := (List.range 31).map (1 + ·)
    month := (List.range 12).map (1 + ·), dayOfWeek := List.range 7 }

/-- The schedule as it is created. -/
def everyMinuteStored : Schedule :=
  { scheduleId, cron := "* * * * *", spec := work.toJson, enabled := true, createdBy := "user"
    createdAt := 1721000000123, updatedAt := 1721000000123, lastSlotAt := some 1721000000123
    revision := some 1 }

end Sample

open Sample in
/-- Of the two minutes between the creation and the first tick, the first is never admitted. -/
theorem Scheduler.slots_exact_everyMinute :
    ¬(Scheduler.init.run scheduleEnv [.operate operator everyMinute]).AdmitsSlot scheduleEnv
      (undisturbed 1 1721000100000) scheduleId 1721000040000 := by
  have hcreated : (Scheduler.init.run scheduleEnv [.operate operator everyMinute]).schedules.get
      scheduleId = some everyMinuteStored := by decide +kernel
  have htimes : lookTimes scheduleEnv scheduleId
      (Scheduler.init.run scheduleEnv [.operate operator everyMinute]) (undisturbed 1 1721000100000) =
        [1721000100000] := by decide +kernel
  have hspaced : Spaced [1721000000123, 1721000100000] := by
    unfold Spaced
    decide
  exact ((Scheduler.slots_exact scheduleEnv).2 [] (undisturbed 1 1721000100000) operator scheduleId
    "* * * * *" work none everyMinuteStored everyMinuteSpec _ rfl rfl work_valid hcreated rfl
    (by decide +kernel) (by decide) ⟨0, 1, by decide, by decide, by decide, by decide, by decide⟩
    (by decide +kernel) (htimes.symm ▸ hspaced) 1721000040000 rfl (by decide +kernel) (by decide)
    1721000100000 (by rw [List.nil_append]; exact htimes ▸ rfl)).2
    ⟨1721000100000, rfl, by decide +kernel, by decide, by decide⟩

end AgentLcars
