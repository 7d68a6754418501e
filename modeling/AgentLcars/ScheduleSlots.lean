import AgentLcars.ScheduleActs

/-!
# Slots of a schedule

* `Scheduler.Sound` ties what a tick holds, from its list or its own admission, to the ledger.
* `Scheduler.Faithful` is what ticks know about items as long as none is edited.
* `Scheduler.slots_admitted_once` is the result.
-/

namespace AgentLcars

open Reservations

/-! ### Every run -/

/-- The acts that begin an item edit. -/
def ScheduleAct.beginsEdit : ScheduleAct → Bool
  | .elsewhere label => label.beginsEdit
  | _ => false

/-- Schedules are stored under their ids, and ticks hold what is, or was, reserved. -/
structure Scheduler.Sound (env : ScheduleEnv) (σ : Scheduler) : Prop where
  world : σ.world.Coherent
  keyed : ∀ id schedule, σ.schedules.get id = some schedule → schedule.scheduleId = id
  ledger : ∀ id, (ledgerOf (σ.schedules.get id)).Sound PendingTick.slotAt
  named : ∀ id, ∀ pending ∈ (ledgerOf (σ.schedules.get id)).pending,
    pending.itemId = slotItemId env.sha256 id pending.slotAt
  held : ∀ tid tick, σ.ticks.get tid = some tick → ∀ id pending, tick.Holds id pending →
    (ledgerOf (σ.schedules.get id)).Recorded PendingTick.slotAt pending

/-- No item edit is in flight, and ticks know the items they are about to settle. -/
structure Scheduler.Faithful (σ : Scheduler) : Prop where
  edits : σ.world.NoEdits
  phases : ∀ tid tick, σ.ticks.get tid = some tick → tick.phase.Faithful σ.world.store

/-- The item of the occurrence exists, and its stored specification is the frozen one. -/
def Scheduler.Minted (σ : Scheduler) (pending : PendingTick) : Prop :=
  ∃ spec task, workSpecSchema pending.spec = some spec ∧
    σ.world.store.tasks.get (taskKey (.work pending.itemId)) = some task ∧
    task.task.work.workSpec = some spec

/-- What an act does to the system. -/
inductive Stepped (env : ScheduleEnv) (σ : Scheduler) : ScheduleAct → Scheduler → Prop where
  | idle (act : ScheduleAct) : Stepped env σ act σ
  | elsewhere (label : Step) :
      Stepped env σ (.elsewhere label) { σ with world := σ.world.step label }
  | operated (context : OperatorContext) (op : ScheduleOp) :
      Stepped env σ (.operate context op)
        { σ with schedules := (op.run env context σ.schedules).2 }
  | started (id : Nat) (scopes : List String) :
      Stepped env σ (.start id scopes) { σ with ticks := σ.ticks.set id .start }
  | ticked (id : Nat) (grants : List WorkGrant) (clock : Time) (awaited : Awaited) (tick : Tick)
      (result : TickResult) (htick : σ.ticks.get id = some tick)
      (hacts : Acts env σ.world tick σ.schedules result) :
      Stepped env σ (.tick id grants clock awaited)
        { world := (result.label.map σ.world.step).getD σ.world, schedules := result.schedules
          ticks := σ.ticks.set id result.tick }
  | crashed (id : Nat) (tick : Tick) (htick : σ.ticks.get id = some tick) :
      Stepped env σ (.crash id) { σ with ticks := σ.ticks.set id { tick with phase := .ended } }

section Runs

variable {env : ScheduleEnv} {σ : Scheduler}

theorem Scheduler.Sound.stepped (h : σ.Sound env) (act : ScheduleAct) :
    Stepped env σ act (σ.step env act) := by
  cases act with
  | elsewhere label => exact .elsewhere label
  | operate context op => exact .operated context op
  | start id scopes =>
    simp only [Scheduler.step]
    split_ifs
    · exact .started id scopes
    · exact .idle _
  | tick id grants clock awaited =>
    simp only [Scheduler.step]
    split
    · exact .idle _
    · rename_i tick htick
      exact .ticked id grants clock awaited tick _ htick (tick.acts env _ _ _ _ _ h.keyed)
  | crash id =>
    simp only [Scheduler.step]
    split
    · exact .idle _
    · rename_i tick htick
      exact .crashed id tick htick

/-- Every act is a move of every schedule. -/
theorem Scheduler.Sound.move (h : σ.Sound env) (act : ScheduleAct) (k : String) :
    ScheduleMove env k (fun pending => σ.Faithful → σ.Minted pending) (σ.schedules.get k)
      ((σ.step env act).schedules.get k) := by
  have hstepped := h.stepped act
  generalize σ.step env act = σ' at hstepped
  cases hstepped with
  | operated context op => exact op.run_move k
  | ticked id _ _ _ tick result htick hacts =>
    refine hacts.move _ k ?_
    intro snapshot hhead admitted hphase pending hpending hslot hfaithful
    -- the occurrence at hand is the one the tick holds
    have hholds : tick.Holds snapshot.scheduleId admitted :=
      .inr ⟨snapshot, hhead, rfl, by rw [hphase]; rfl⟩
    have hadmitted := (h.held id tick htick _ _ hholds).pending_eq (h.ledger _) hpending hslot
    obtain rfl : pending = admitted := Option.some.inj (hpending.symm.trans hadmitted)
    have hknown := hfaithful.phases id tick htick
    rw [hphase] at hknown
    obtain ⟨spec, hspec, task, htask, hwork⟩ := hknown
    exact ⟨spec, task, hspec, htask, hwork⟩
  | _ => exact .same

/-- What was reserved stays reserved, or its slot is used up. -/
theorem Scheduler.Sound.recorded (h : σ.Sound env) (act : ScheduleAct) {id : String}
    {pending : PendingTick}
    (hrecorded : (ledgerOf (σ.schedules.get id)).Recorded PendingTick.slotAt pending) :
    (ledgerOf ((σ.step env act).schedules.get id)).Recorded PendingTick.slotAt pending :=
  (h.move act id).ledger.recorded hrecorded

/-- Whatever a tick holds after an act it held before, or it is reserved now. -/
theorem Scheduler.Sound.held_back (h : σ.Sound env) (act : ScheduleAct) {tid : Nat} {tick' : Tick}
    (htick' : (σ.step env act).ticks.get tid = some tick') {id : String} {pending : PendingTick}
    (hholds : tick'.Holds id pending) :
    (∃ tick, σ.ticks.get tid = some tick ∧ tick.Holds id pending) ∨
      (ledgerOf ((σ.step env act).schedules.get id)).pending = some pending := by
  have hstepped := h.stepped act
  generalize σ.step env act = σ' at htick' hstepped
  cases hstepped with
  | started id' scopes =>
    simp only [OrderedMap.get_set] at htick'
    split_ifs at htick'
    · obtain rfl := Option.some.inj htick'
      rcases hholds with ⟨_, hmem, _⟩ | ⟨_, hmem, _⟩ <;> cases hmem
    · exact .inl ⟨tick', htick', hholds⟩
  | ticked id' _ _ _ tick result htick hacts =>
    simp only [OrderedMap.get_set] at htick'
    split_ifs at htick' with hid
    · obtain rfl := Option.some.inj htick'
      exact (hacts.held id pending hholds).imp_left fun hheld => ⟨tick, hid ▸ htick, hheld⟩
    · exact .inl ⟨tick', htick', hholds⟩
  | crashed id' tick htick =>
    simp only [OrderedMap.get_set] at htick'
    split_ifs at htick' with hid
    · obtain rfl := Option.some.inj htick'
      rcases hholds with hlisted | ⟨_, _, _, hnone⟩
      · exact .inl ⟨tick, hid ▸ htick, .inl hlisted⟩
      · cases hnone
    · exact .inl ⟨tick', htick', hholds⟩
  | _ => exact .inl ⟨tick', htick', hholds⟩

theorem Scheduler.Sound.world_step (h : σ.Sound env) (act : ScheduleAct) :
    (σ.step env act).world.Coherent := by
  have hstepped := h.stepped act
  generalize σ.step env act = σ' at hstepped
  cases hstepped with
  | elsewhere label => exact h.world.step label
  | ticked _ _ _ _ _ result =>
    cases result.label with
    | none => exact h.world
    | some label => exact h.world.step label
  | _ => exact h.world

theorem Scheduler.Sound.step (h : σ.Sound env) (act : ScheduleAct) : (σ.step env act).Sound env where
  world := h.world_step act
  keyed := fun id schedule hschedule => (h.move act id).keyed (h.keyed id) schedule hschedule
  ledger := fun id => (h.move act id).ledger.sound (h.ledger id)
  named := fun id => (h.move act id).itemId (h.named id)
  held := by
    intro tid tick' htick' id pending hholds
    rcases h.held_back act htick' hholds with ⟨tick, htick, hheld⟩ | hpending
    · exact h.recorded act (h.held tid tick htick id pending hheld)
    · exact .inl hpending

theorem Scheduler.sound_init (env : ScheduleEnv) : Scheduler.init.Sound env where
  world := World.coherent_init
  keyed := fun _ _ h => by cases h
  ledger := fun _ _ h => by cases h
  named := fun _ _ h => by cases h
  held := fun _ _ h => by cases h

theorem Scheduler.Sound.run (h : σ.Sound env) (acts : List ScheduleAct) : (σ.run env acts).Sound env :=
  Machine.invariant_run (Scheduler.Sound env) (fun _ act h => h.step act) h acts

/-- What a tick knows outlasts every step but an edit. -/
theorem TickPhase.Faithful.step {w : World} {phase : TickPhase} (hw : w.Coherent)
    (hedits : w.NoEdits) (label : Step) (h : phase.Faithful w.store) :
    phase.Faithful (w.step label).store := by
  cases phase with
  | draining pending =>
    obtain ⟨spec, hspec, hitem⟩ := h
    exact ⟨spec, hspec, hw.itemHolds_step hedits label hitem⟩
  | settling pending =>
    obtain ⟨spec, hspec, hitem⟩ := h
    exact ⟨spec, hspec, hw.itemHolds_step hedits label hitem⟩
  | _ => exact h

theorem Scheduler.Faithful.step (hfaithful : σ.Faithful) (h : σ.Sound env) {act : ScheduleAct}
    (hact : act.beginsEdit = false) : (σ.step env act).Faithful := by
  have hstepped := h.stepped act
  generalize σ.step env act = σ' at hstepped
  cases hstepped with
  | elsewhere label =>
    exact ⟨hfaithful.edits.step hact, fun tid tick htick =>
      (hfaithful.phases tid tick htick).step h.world hfaithful.edits label⟩
  | started id scopes =>
    refine ⟨hfaithful.edits, fun tid tick htick => ?_⟩
    simp only [OrderedMap.get_set] at htick
    split_ifs at htick
    · obtain rfl := Option.some.inj htick
      exact trivial
    · exact hfaithful.phases tid tick htick
  | ticked id _ _ _ tick result htick hacts =>
    refine ⟨?_, fun tid tick' htick' => ?_⟩
    · cases hlabel : result.label with
      | none => exact hfaithful.edits
      | some label => exact hfaithful.edits.step (hacts.label label hlabel)
    · simp only [OrderedMap.get_set] at htick'
      split_ifs at htick'
      · obtain rfl := Option.some.inj htick'
        exact hacts.faithful h.world (hfaithful.phases id tick htick)
      · cases result.label with
        | none => exact hfaithful.phases tid tick' htick'
        | some label =>
          exact (hfaithful.phases tid tick' htick').step h.world hfaithful.edits label
  | crashed id tick htick =>
    refine ⟨hfaithful.edits, fun tid tick' htick' => ?_⟩
    simp only [OrderedMap.get_set] at htick'
    split_ifs at htick'
    · obtain rfl := Option.some.inj htick'
      exact trivial
    · exact hfaithful.phases tid tick' htick'
  | _ => exact ⟨hfaithful.edits, hfaithful.phases⟩

theorem Scheduler.faithful_init : Scheduler.init.Faithful where
  edits := fun _ _ h => by cases h
  phases := fun _ _ h => by cases h

/-- Without item edits ticks know the items they settle. -/
theorem Scheduler.faithful_run (env : ScheduleEnv) (acts : List ScheduleAct)
    (hedits : ∀ act ∈ acts, act.beginsEdit = false) : (Scheduler.init.run env acts).Faithful := by
  have hrun : (Scheduler.init.run env acts).Sound env ∧ (Scheduler.init.run env acts).Faithful :=
    Machine.Along.invariant (fun σ : Scheduler => σ.Sound env ∧ σ.Faithful)
      (fun _ act hσ hact => ⟨hσ.1.step act, hσ.2.step hσ.1 hact⟩)
      ⟨Scheduler.sound_init env, Scheduler.faithful_init⟩ (Machine.Along.of_forall_mem hedits)
  exact hrun.2

end Runs

/-! ### Slots are admitted once and never vanish -/

/-- The watermark has reached the slot. -/
def Schedule.PastSlot (schedule : Schedule) (slot : Time) : Prop :=
  ∃ m ∈ admissionWatermark schedule, slot ≤ m

/-- What an act does to the schedules; `edited` says that an item edit has begun before it. -/
structure SlotLaw (env : ScheduleEnv) (edited : Prop) (σ : Scheduler) (act : ScheduleAct) : Prop where
  named : ∀ id before pending, σ.schedules.get id = some before →
    before.pendingTick = some pending → pending.itemId = slotItemId env.sha256 id pending.slotAt
  frozen : ∀ id before pending, σ.schedules.get id = some before →
    before.pendingTick = some pending → ∃ after, (σ.step env act).schedules.get id = some after ∧
      (after.pendingTick = some pending ∨ (after.pendingTick = none ∧
        ¬before.PastSlot pending.slotAt ∧ after.PastSlot pending.slotAt))
  watermark : ∀ id before, σ.schedules.get id = some before →
    ∃ after, (σ.step env act).schedules.get id = some after ∧
      ∀ m ∈ admissionWatermark before, after.PastSlot m
  settled : ∀ id before after, σ.schedules.get id = some before →
    (σ.step env act).schedules.get id = some after → after.lastSlotAt ≠ before.lastSlotAt →
      ∃ pending, before.pendingTick = some pending ∧ after.lastSlotAt = some pending.slotAt ∧
        (¬edited → σ.Minted pending)
  deleted : ∀ id before, σ.schedules.get id = some before → before.deletedAt.isSome = true →
    ∃ after, (σ.step env act).schedules.get id = some after ∧
      after.deletedAt = before.deletedAt ∧
      ∀ pending, after.pendingTick = some pending → before.pendingTick = some pending
  stale : ∀ context op id expected current, act = .operate context op →
    op.expects = some (id, expected) → σ.schedules.get id = some current →
      current.currentRevision ≠ expected → σ.step env act = σ

section Law

variable {env : ScheduleEnv} {σ : Scheduler}

/-- A schedule is never removed. -/
theorem ScheduleMove.stays {id : String} {Minted : PendingTick → Prop} {before : Schedule}
    {s' : Option Schedule} (h : ScheduleMove env id Minted (some before) s') :
    ∃ after, s' = some after := by
  cases h <;> exact ⟨_, rfl⟩

/-- What is below a reserved slot settles as that slot. -/
theorem laterSlot_eq {previous : Option Time} {slot : Time} (h : ∀ m ∈ previous, m < slot) :
    laterSlot previous slot = slot := by
  unfold laterSlot
  split
  · rfl
  · exact if_pos (h _ rfl)

theorem lastSlotAt_lt {schedule : Schedule} {slot : Time}
    (h : ∀ m ∈ admissionWatermark schedule, m < slot) : ∀ m ∈ schedule.lastSlotAt, m < slot := by
  intro m hm
  obtain ⟨m', hm', hle⟩ := admissionWatermark_reached (.inl ⟨m, hm, le_rfl⟩)
  exact lt_of_le_of_lt hle (h m' hm')

theorem Scheduler.Sound.slotLaw (h : σ.Sound env) {edited : Prop}
    (hfaithful : ¬edited → σ.Faithful) (act : ScheduleAct) : SlotLaw env edited σ act where
  named := by
    intro id before pending hbefore hpending
    exact h.named id pending (by rw [hbefore]; exact hpending)
  frozen := by
    intro id before pending hbefore hpending
    have hmove := h.move act id
    have hsound := h.ledger id
    rw [hbefore] at hmove hsound
    obtain ⟨after, hafter⟩ := hmove.stays
    rw [hafter] at hmove
    refine ⟨after, hafter, (hmove.ledger.held hpending).imp_right fun ⟨hnone, hreached⟩ => ?_⟩
    exact ⟨hnone, (hsound pending hpending).not_reached, hreached⟩
  watermark := by
    intro id before hbefore
    have hmove := h.move act id
    rw [hbefore] at hmove
    obtain ⟨after, hafter⟩ := hmove.stays
    rw [hafter] at hmove
    exact ⟨after, hafter, hmove.ledger.mark_le⟩
  settled := by
    intro id before after hbefore hafter hne
    have hmove := h.move act id
    have hsound := h.ledger id
    rw [hbefore] at hmove hsound
    rw [hafter] at hmove
    obtain ⟨pending, hpending, -, hlast, hminted⟩ := hmove.lastSlot hne
    refine ⟨pending, hpending, ?_, fun hedits => hminted (hfaithful hedits)⟩
    rw [hlast, laterSlot_eq (lastSlotAt_lt (hsound pending hpending))]
  deleted := by
    intro id before hbefore hdeleted
    have hmove := h.move act id
    rw [hbefore] at hmove
    exact hmove.deleted_stays hdeleted
  stale := by
    rintro context op id expected current rfl hop hcurrent hstale
    show { σ with schedules := (op.run env context σ.schedules).2 } = σ
    rw [ScheduleOp.run_stale hop hcurrent hstale]

end Law

/-- The act writes the pending occurrence of a schedule. -/
def Scheduler.Admits (env : ScheduleEnv) (σ : Scheduler) (act : ScheduleAct) (id : String)
    (pending : PendingTick) : Prop :=
  Reserves (ledgerOf (σ.schedules.get id)) (ledgerOf ((σ.step env act).schedules.get id)) pending

/-- Two occurrences that a run admits one after the other are of different slots, in order. -/
theorem Scheduler.Sound.admits_lt {env : ScheduleEnv} {σ : Scheduler} (h : σ.Sound env)
    {act later : ScheduleAct} {more : List ScheduleAct} {id : String} {p q : PendingTick}
    (hp : σ.Admits env act id p) (hq : ((σ.step env act).run env more).Admits env later id q) :
    p.slotAt < q.slotAt := by
  have hrun : ((σ.step env act).run env more).Sound env ∧
      (ledgerOf (((σ.step env act).run env more).schedules.get id)).Recorded PendingTick.slotAt p :=
    Machine.invariant_run (fun σ : Scheduler => σ.Sound env ∧
        (ledgerOf (σ.schedules.get id)).Recorded PendingTick.slotAt p)
      (fun _ act hσ => ⟨hσ.1.step act, hσ.1.recorded act hσ.2⟩) ⟨h.step act, .inl hp.2⟩ more
  exact (hrun.1.move later id).ledger.reserves_lt hrun.2 hq

/-- In every run of any number of ticks, operators and other callers, in which any tick may stop
anywhere: each slot of a schedule is admitted at most once, under the item id of the slot; what was
admitted stays as it is until the watermark reaches its slot; the watermark never goes back, and the
last slot moves only to the slot of an item that exists with the admitted specification, provided
that no item is edited meanwhile; a deleted schedule stays deleted and admits nothing; and an edit
that expects another revision changes nothing. -/
theorem Scheduler.slots_admitted_once (env : ScheduleEnv) :
    (∀ acts act, SlotLaw env (∃ a ∈ acts, a.beginsEdit = true) (Scheduler.init.run env acts) act) ∧
    ∀ acts act more later id p q, (Scheduler.init.run env acts).Admits env act id p →
      (Scheduler.init.run env (acts ++ act :: more)).Admits env later id q → p.slotAt < q.slotAt := by
  have hsound := fun acts => (Scheduler.sound_init env).run acts
  constructor
  · intro acts act
    refine (hsound acts).slotLaw (fun hedits => Scheduler.faithful_run env acts fun a ha => ?_) act
    exact Bool.eq_false_iff.2 fun hedit => hedits ⟨a, ha, hedit⟩
  · intro acts act more later id p q hp hq
    rw [Scheduler.run, Machine.run_append] at hq
    exact (hsound acts).admits_lt hp hq

namespace Sample

/-- One control-plane repository, and a hash that does not matter. -/
def scheduleEnv : ScheduleEnv :=
  { sha256 := fun _ => List.replicate 16 3, jsonBytes := fun _ => 0
    isControlPlaneRepository := fun repository => repository = "a/b" }

def scheduleId : String := "01J2SSFYKV0000000000000000"

def grants : List WorkGrant := [{ principal := "user", pipelines := ["claude"] }]

def operator : OperatorContext :=
  { principal := { principal := "user", pipelines := ["claude"], scopes := ["work.operator"] }
    grants, clock := fun _ => 1721000000123 }

def everyMinute : ScheduleOp :=
  .create scheduleId "* * * * *"
    { title := "t", description := "d", pipeline := "claude", priority := .normal
      fallbackPipelines := none, deliveryRuntime := none, deliverable := none, repo := "a/b" } none

/-- A tick that runs undisturbed. -/
def undisturbed (id : Nat) (clock : Time) : List ScheduleAct :=
  .start id ["work.cron"] :: List.replicate 6 (.tick id grants clock .returns)

/-- An act of the first tick, and of the second. -/
def firstLook : ScheduleAct := .tick 1 grants 1721000100000 .returns

def secondLook : ScheduleAct := .tick 2 grants 1721000160000 .returns

/-- Up to the act with which the first tick admits a slot. -/
def untilFirst : List ScheduleAct :=
  [.operate operator everyMinute, .start 1 ["work.cron"], firstLook]

/-- From there up to that of the second. -/
def untilSecond : List ScheduleAct :=
  List.replicate 4 firstLook ++ [.start 2 ["work.cron"], secondLook]

end Sample

theorem Scheduler.admits_of {env : ScheduleEnv} {σ : Scheduler} {act : ScheduleAct} {id : String}
    (h : (ledgerOf (σ.schedules.get id)).pending = none)
    (h' : (ledgerOf ((σ.step env act).schedules.get id)).pending.isSome = true) :
    ∃ pending, σ.Admits env act id pending := by
  obtain ⟨pending, hpending⟩ := Option.isSome_iff_exists.1 h'
  exact ⟨pending, by simp [h], hpending⟩

open Sample in
/-- The tick of the next minute admits the next slot. -/
theorem Scheduler.slots_admitted_once_nextMinute :
    ∃ p q, (Scheduler.init.run scheduleEnv untilFirst).Admits scheduleEnv firstLook scheduleId p ∧
      (Scheduler.init.run scheduleEnv (untilFirst ++ firstLook :: untilSecond)).Admits scheduleEnv
        secondLook scheduleId q ∧ p.slotAt < q.slotAt := by
  obtain ⟨p, hp⟩ := @Scheduler.admits_of scheduleEnv (Scheduler.init.run scheduleEnv untilFirst) firstLook
    scheduleId (by decide +kernel) (by decide +kernel)
  obtain ⟨q, hq⟩ := @Scheduler.admits_of scheduleEnv
    (Scheduler.init.run scheduleEnv (untilFirst ++ firstLook :: untilSecond)) secondLook scheduleId
    (by decide +kernel) (by decide +kernel)
  exact ⟨p, q, hp, hq, (Scheduler.slots_admitted_once scheduleEnv).2 _ _ _ _ _ _ _ hp hq⟩

end AgentLcars
