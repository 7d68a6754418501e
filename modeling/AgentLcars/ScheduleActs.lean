import AgentLcars.ItemWork
import AgentLcars.ScheduleMoves

/-!
# What a tick does

`Acts` is the one description of an act of a tick that every invariant is derived from: how it moves
the schedules, where the occurrences it holds come from, and what it knows about the item it is
about to settle.
-/

namespace AgentLcars

open Reservations

/-! ### What a tick holds and knows -/

/-- The occurrence a phase is about. -/
def TickPhase.pending : TickPhase → Option PendingTick
  | .admitted pending | .requesting pending _ _ | .draining pending | .denied pending _
  | .conflicted pending _ | .closing pending _ | .settling pending => some pending
  | _ => none

/-- The tick took an occurrence from its list or admitted it itself. -/
def Tick.Holds (tick : Tick) (id : String) (pending : PendingTick) : Prop :=
  (∃ snapshot ∈ tick.remaining, snapshot.scheduleId = id ∧ snapshot.pendingTick = some pending) ∨
    ∃ snapshot ∈ tick.remaining.head?, snapshot.scheduleId = id ∧ tick.phase.pending = some pending

/-- What a tick knows about the item of its occurrence. -/
def TickPhase.Faithful (s : Store) : TickPhase → Prop
  | .requesting pending spec _ | .denied pending spec | .conflicted pending spec =>
    workSpecSchema pending.spec = some spec
  | .draining pending | .settling pending =>
    ∃ spec, workSpecSchema pending.spec = some spec ∧ s.ItemHolds pending.itemId spec
  | _ => True

/-- What one act of a tick comes to. -/
structure Acts (env : ScheduleEnv) (w : World) (tick : Tick) (schedules : Schedules)
    (result : TickResult) : Prop where
  move : ∀ (Minted : PendingTick → Prop) k, (∀ snapshot ∈ tick.remaining.head?,
    ∀ admitted, tick.phase = .settling admitted →
      ∀ pending ∈ (ledgerOf (schedules.get snapshot.scheduleId)).pending,
        pending.slotAt = admitted.slotAt → Minted pending) →
    ScheduleMove env k Minted (schedules.get k) (result.schedules.get k)
  held : ∀ id pending, result.tick.Holds id pending →
    tick.Holds id pending ∨ (ledgerOf (result.schedules.get id)).pending = some pending
  faithful : w.Coherent → tick.phase.Faithful w.store →
    result.tick.phase.Faithful ((result.label.map w.step).getD w).store
  label : ∀ label ∈ result.label, label.beginsEdit = false

section Acts

variable {env : ScheduleEnv} {w : World} {tick tick' : Tick} {schedules : Schedules}
  {snapshot : Schedule} {id : String} {pending : PendingTick} {awaited : Awaited}

/-- A tick that went on to the next snapshot holds what it held of the others. -/
theorem Tick.Holds.of_tail (hremaining : tick'.remaining = tick.remaining.tail)
    (hphase : tick'.phase.pending = none) (h : tick'.Holds id pending) : tick.Holds id pending := by
  rcases h with ⟨snapshot, hmem, hsnapshot⟩ | ⟨_, _, _, hpending⟩
  · exact .inl ⟨snapshot, List.mem_of_mem_tail (hremaining ▸ hmem), hsnapshot⟩
  · cases hphase.symm.trans hpending

/-- An act that ends, or leaves the snapshot behind. -/
theorem Acts.passes (hremaining : tick'.remaining = tick.remaining.tail)
    (hphase : tick'.phase = .looking) : Acts env w tick schedules { tick := tick', schedules } where
  move := fun _ _ _ => .same
  held := fun _ _ h => .inl (h.of_tail hremaining (by rw [hphase]; rfl))
  faithful := fun _ _ => by rw [hphase]; exact trivial
  label := fun _ hlabel => by cases hlabel

/-- An act that only moves the tick from phase to phase. -/
theorem Acts.proceeds {phase : TickPhase} (hpending : phase.pending = none ∨
      phase.pending = tick.phase.pending ∨
      ∃ snapshot ∈ tick.remaining.head?, phase.pending = snapshot.pendingTick)
    (hfaithful : tick.phase.Faithful w.store → phase.Faithful w.store) :
    Acts env w tick schedules { tick := { tick with phase }, schedules } where
  move := fun _ _ _ => .same
  held := by
    rintro id pending (hlisted | ⟨snapshot, hhead, hid, hheld⟩)
    · exact .inl (.inl hlisted)
    · rcases hpending with hnone | hsame | ⟨snapshot', hhead', hsame⟩
      · cases hnone.symm.trans hheld
      · exact .inl (.inr ⟨snapshot, hhead, hid, hsame.symm.trans hheld⟩)
      · obtain rfl : snapshot = snapshot' := Option.some.inj (hhead.symm.trans hhead')
        exact .inl (.inl ⟨snapshot, List.mem_of_mem_head? hhead, hid, hsame.symm.trans hheld⟩)
  faithful := fun _ h => hfaithful h
  label := fun _ hlabel => by cases hlabel

theorem Acts.idle : Acts env w tick schedules { tick, schedules } where
  move := fun _ _ _ => .same
  held := fun _ _ h => .inl h
  faithful := fun _ h => h
  label := fun _ hlabel => by cases hlabel

theorem Acts.fails (id message : String) :
    Acts env w tick schedules { tick := tick.fail id message, schedules } :=
  .passes rfl rfl

/-- A change of the schedule at hand, after which the tick goes on with what it was answered. -/
theorem Acts.mutates {change : Option Schedule → Option Schedule} {returned : Option Schedule → Tick}
    (hhead : snapshot ∈ tick.remaining.head?)
    (hmove : ∀ Minted : PendingTick → Prop, (∀ admitted, tick.phase = .settling admitted →
        ∀ pending ∈ (ledgerOf (schedules.get snapshot.scheduleId)).pending,
          pending.slotAt = admitted.slotAt → Minted pending) →
      ∀ next, change (schedules.get snapshot.scheduleId) = some next →
        ScheduleMove env snapshot.scheduleId Minted (schedules.get snapshot.scheduleId) (some next))
    (hreturned : ∀ answer, ((returned answer).remaining = tick.remaining.tail ∧
        (returned answer).phase = .looking) ∨
      (returned answer).remaining = tick.remaining ∧
        ∃ next pending, answer = some next ∧ next.pendingTick = some pending ∧
          (returned answer).phase = .admitted pending) :
    Acts env w tick schedules
      (tick.mutate env awaited schedules snapshot.scheduleId change returned) := by
  have hwritten : ∀ Minted k, (∀ snapshot ∈ tick.remaining.head?,
      ∀ admitted, tick.phase = .settling admitted →
        ∀ pending ∈ (ledgerOf (schedules.get snapshot.scheduleId)).pending,
          pending.slotAt = admitted.slotAt → Minted pending) →
      ScheduleMove env k Minted (schedules.get k) ((mutateSchedule env schedules
        snapshot.scheduleId fun current => .ok (change current)).2.get k) := by
    intro Minted k hminted
    exact mutateSchedule_move
      (fun next hnext => hmove Minted (hminted snapshot hhead) next (Except.ok.inj hnext)) k
  have hfailed : ∀ message written, (∀ Minted k, (∀ snapshot ∈ tick.remaining.head?,
      ∀ admitted, tick.phase = .settling admitted →
        ∀ pending ∈ (ledgerOf (schedules.get snapshot.scheduleId)).pending,
          pending.slotAt = admitted.slotAt → Minted pending) →
      ScheduleMove env k Minted (schedules.get k) (written.get k)) →
      Acts env w tick schedules
        { tick := tick.fail snapshot.scheduleId message, schedules := written } := by
    intro message written hmoves
    exact ⟨hmoves, fun _ _ h => .inl (h.of_tail rfl rfl), fun _ _ => trivial,
      fun _ hlabel => by cases hlabel⟩
  unfold Tick.mutate
  split
  · refine hfailed _ _ ?_
    split_ifs
    · exact hwritten
    · exact fun _ _ _ => .same
  · dsimp only
    split
    · rename_i answer hanswer
      refine ⟨hwritten, fun id pending hholds => ?_, fun _ _ => ?_, fun _ hlabel => by cases hlabel⟩
      · rcases hreturned answer with ⟨htail, hphase⟩ | ⟨hsame, next, admitted, rfl, hpending, hphase⟩
        · exact .inl (hholds.of_tail htail (by rw [hphase]; rfl))
        · rcases hholds with ⟨listed, hmem, hlisted⟩ | ⟨current, hcurrent, hid, hheld⟩
          · exact .inl (.inl ⟨listed, hsame ▸ hmem, hlisted⟩)
          · rw [hsame] at hcurrent
            obtain rfl : current = snapshot := Option.some.inj (hcurrent.symm.trans hhead)
            rw [hphase] at hheld
            obtain rfl : admitted = pending := Option.some.inj hheld
            refine .inr ?_
            rw [← hid, mutateSchedule_answer hanswer]
            exact hpending
      · rcases hreturned answer with ⟨-, hphase⟩ | ⟨-, next, admitted, -, -, hphase⟩
        · rw [hphase]
          exact trivial
        · rw [hphase]
          exact trivial
    · exact hfailed _ _ hwritten
    · exact hfailed _ _ hwritten

/-- An item that matches holds the specification. -/
theorem itemHolds_of_matches {s : Store} {spec : WorkSpec} (hspec : spec.Valid)
    (h : itemMatches (s.tasks.get (taskKey (.work id))) spec = true) : s.ItemHolds id spec := by
  unfold itemMatches at h
  cases htask : s.tasks.get (taskKey (.work id)) with
  | none =>
    rw [htask] at h
    cases h
  | some task =>
    rw [htask, Option.bind_some] at h
    cases hstored : task.task.work.workSpec with
    | none =>
      rw [hstored] at h
      cases h
    | some stored =>
      rw [hstored] at h
      have hjson : stored.toJson = spec.toJson := of_decide_eq_true h
      obtain ⟨_, -, hparsed⟩ := Option.bind_eq_some_iff.1 hstored
      have hround := (workSpecSchema_valid hparsed).roundTrip
      rw [hjson, hspec.roundTrip] at hround
      exact ⟨task, htask, by rw [hstored, hround]⟩

/-! Each handler, in the order of a tick. -/

theorem Acts.look (hhead : snapshot ∈ tick.remaining.head?) (hphase : tick.phase = .looking) :
    Acts env w tick schedules (tick.look env awaited schedules snapshot) := by
  have hunsettled : ∀ admitted, tick.phase ≠ .settling admitted := by simp [hphase]
  unfold Tick.look
  dsimp only
  split
  · rename_i pending hpending
    exact .proceeds (.inr (.inr ⟨snapshot, hhead, hpending.symm⟩)) fun _ => trivial
  split
  · exact .mutates hhead (fun Minted _ next hnext => invalidateChange_move hnext)
      fun answer => .inl ⟨rfl, rfl⟩
  · exact .passes rfl rfl
  · refine .mutates hhead (fun Minted _ next hnext => admitChange_move hnext) fun answer => ?_
    cases hpending : answer.bind (·.pendingTick) with
    | none => exact .inl ⟨rfl, rfl⟩
    | some pending =>
      obtain ⟨next, hanswer, hnext⟩ := Option.bind_eq_some_iff.1 hpending
      exact .inr ⟨rfl, next, pending, hanswer, hnext, rfl⟩

theorem Acts.mint {grants : List WorkGrant} (hphase : tick.phase = .admitted pending) :
    Acts env w tick schedules
      { tick := tick.mint env grants awaited w.store id pending, schedules } := by
  have hsame : ∀ phase : TickPhase, phase.pending = some pending →
      phase.pending = none ∨ phase.pending = tick.phase.pending ∨
        ∃ snapshot ∈ tick.remaining.head?, phase.pending = snapshot.pendingTick :=
    fun phase h => .inr (.inl (h.trans (by rw [hphase]; rfl)))
  unfold Tick.mint
  split
  · exact .proceeds (hsame _ rfl) fun _ => trivial
  rename_i spec hspec
  dsimp only
  split_ifs
  · exact .proceeds (hsame _ rfl) fun _ => hspec
  split
  · exact .fails _ _
  split
  · exact .proceeds (hsame _ rfl) fun _ => hspec
  · rename_i hexisting
    exact .proceeds (hsame _ rfl) fun _ =>
      ⟨spec, hspec, existingItem_same (workSpecSchema_valid hspec) hexisting⟩
  · exact .proceeds (hsame _ rfl) fun _ => hspec
  · exact .fails _ _

theorem Acts.request {clock : Time} {spec : WorkSpec} {pipelines : List String}
    (hphase : tick.phase = .requesting pending spec pipelines) :
    Acts env w tick schedules
      (tick.request clock awaited w.store schedules id pending spec pipelines) := by
  have hspec : tick.phase.Faithful w.store → workSpecSchema pending.spec = some spec := by
    rw [hphase]
    exact fun h => h
  have hsame : ∀ phase : TickPhase, phase.pending = some pending →
      ∀ other pending', ({ tick with phase } : Tick).Holds other pending' →
        tick.Holds other pending' := by
    rintro phase hphase' other pending' (hlisted | ⟨snapshot, hhead, hid, hheld⟩)
    · exact .inl hlisted
    · exact .inr ⟨snapshot, hhead, hid, by rw [hphase]; exact hphase'.symm.trans hheld⟩
  unfold Tick.request
  dsimp only
  split
  · exact .fails _ _
  split
  · refine ⟨fun _ _ _ => .same, fun _ _ h => .inl (h.of_tail rfl rfl), fun _ _ => trivial, ?_⟩
    intro label hlabel
    split_ifs at hlabel
    · split at hlabel
      · cases hlabel
      · obtain rfl := Option.some.inj hlabel
        rfl
    · cases hlabel
  split
  · rename_i hminted
    rw [hminted]
    refine ⟨fun _ _ _ => .same, fun _ _ h => .inl (hsame _ rfl _ _ h), fun hw hfaithful => ?_, ?_⟩
    · have hvalid := workSpecSchema_valid (hspec hfaithful)
      exact ⟨spec, hspec hfaithful, hw.minted_holds hvalid hminted⟩
    · rintro label ⟨rfl⟩
      rfl
  · rename_i hconflict
    rw [hconflict]
    refine ⟨fun _ _ _ => .same, fun _ _ h => .inl (hsame _ rfl _ _ h),
      fun _ hfaithful => hspec hfaithful, ?_⟩
    rintro label ⟨rfl⟩
    rfl
  · exact .fails _ _

theorem Acts.reconcile {spec : WorkSpec}
    (hphase : tick.phase = .denied pending spec ∨ tick.phase = .conflicted pending spec) :
    Acts env w tick schedules { tick := tick.reconcile w.store id pending spec, schedules } := by
  have hpending : tick.phase.pending = some pending := by
    rcases hphase with hphase | hphase <;> rw [hphase] <;> rfl
  have hspec : tick.phase.Faithful w.store → workSpecSchema pending.spec = some spec := by
    rcases hphase with hphase | hphase <;> rw [hphase] <;> exact fun h => h
  unfold Tick.reconcile
  split_ifs with hmatches
  · exact .proceeds (.inr (.inl hpending.symm)) fun hfaithful =>
      ⟨spec, hspec hfaithful, itemHolds_of_matches (workSpecSchema_valid (hspec hfaithful)) hmatches⟩
  · exact .fails _ _

theorem Acts.close {reason : DisabledReason} (hhead : snapshot ∈ tick.remaining.head?) :
    Acts env w tick schedules
      (tick.close env awaited schedules snapshot.scheduleId pending reason) := by
  refine .mutates hhead (fun Minted _ next hnext => closeChange_move hnext) fun answer => .inl ?_
  dsimp only
  split_ifs
  · exact ⟨rfl, rfl⟩
  · exact ⟨rfl, rfl⟩

/-- Every act of a tick. -/
theorem Tick.acts (env : ScheduleEnv) (grants : List WorkGrant) (clock : Time) (awaited : Awaited)
    (tick : Tick) (w : World) (schedules : Schedules)
    (hkeyed : ∀ id schedule, schedules.get id = some schedule → schedule.scheduleId = id) :
    Acts env w tick schedules (tick.act env grants clock awaited w.store schedules) := by
  unfold Tick.act
  split
  · split
    · exact .proceeds (.inl rfl) fun _ => trivial
    · refine ⟨fun _ _ _ => .same, ?_, fun _ _ => trivial, fun _ hlabel => by cases hlabel⟩
      rintro id pending (⟨listed, hmem, hid, hpending⟩ | ⟨_, _, _, hpending⟩)
      · obtain ⟨k, hget⟩ := (schedules.mem_values_iff listed).1 (List.mem_filter.1 hmem).1
        refine .inr ?_
        rw [← hid, hkeyed k listed hget, hget]
        exact hpending
      · cases hpending
  · exact .idle
  split
  · exact .proceeds (.inl rfl) fun _ => trivial
  rename_i snapshot rest hremaining
  have hhead : snapshot ∈ tick.remaining.head? := by rw [hremaining]; rfl
  dsimp only
  split
  · rename_i hphase
    exact .look hhead hphase
  · rename_i hphase
    exact .mint hphase
  · rename_i hphase
    exact .request hphase
  · rename_i pending hphase
    split
    · exact .fails _ _
    · refine .proceeds (.inr (.inl (by rw [hphase]; rfl))) fun hfaithful => ?_
      rw [hphase] at hfaithful
      exact hfaithful
  · rename_i pending spec hphase
    split
    · exact .fails _ _
    split_ifs
    · exact .proceeds (.inr (.inl (by rw [hphase]; rfl))) fun _ => trivial
    · exact .reconcile (.inl hphase)
  · rename_i pending spec hphase
    split
    · exact .fails _ _
    · exact .reconcile (.inr hphase)
  · exact .close hhead
  · rename_i pending hphase
    exact .mutates hhead (fun Minted hminted next hnext =>
      settleChange_move hnext (hminted pending hphase)) fun answer => .inl ⟨rfl, rfl⟩
  · exact .idle
  · exact .idle

end Acts

end AgentLcars
