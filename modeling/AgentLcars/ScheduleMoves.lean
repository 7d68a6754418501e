import Mathlib.Order.MinMax
import AgentLcars.DecideEffect
import AgentLcars.Lib.Reservations
import AgentLcars.ScheduleTick

/-!
# What happens to one schedule

To admission a schedule is a ledger: the pending occurrence is its reservation, and the later of the
settled and the closed slot is its mark.

* `ScheduleMove` says what any step does to one schedule, and is a move of its ledger.
* Each operator's change, and each change a tick makes, is such a move.
-/

namespace AgentLcars

open Reservations

/-! ### What a step does to one schedule -/

/-- What a step does to the schedule of an id; `Minted` holds of an occurrence that is settled. -/
inductive ScheduleMove (env : ScheduleEnv) (id : String) (Minted : PendingTick → Prop) :
    Option Schedule → Option Schedule → Prop where
  | same {s} : ScheduleMove env id Minted s s
  | created {s'} (hid : s'.scheduleId = id) (hpending : s'.pendingTick = none)
      (hdeleted : s'.deletedAt = none) : ScheduleMove env id Minted none (some s')
  | configured {s s'} (hid : s'.scheduleId = s.scheduleId) (hdeleted : s.deletedAt = none)
      (hpending : s'.pendingTick = s.pendingTick) (hlast : s'.lastSlotAt = s.lastSlotAt)
      (hclosed : s'.lastClosedSlotAt = s.lastClosedSlotAt) :
      ScheduleMove env id Minted (some s) (some s')
  | admitted {s} (pending : PendingTick) (hdeleted : s.deletedAt = none)
      (hnone : s.pendingTick = none) (hbelow : ∀ m ∈ admissionWatermark s, m < pending.slotAt)
      (hitem : pending.itemId = slotItemId env.sha256 id pending.slotAt) :
      ScheduleMove env id Minted (some s) (some { s with pendingTick := some pending })
  | closed {s s'} (pending : PendingTick) (hid : s'.scheduleId = s.scheduleId)
      (hdeleted : s'.deletedAt = s.deletedAt) (hpending : s.pendingTick = some pending)
      (hnone : s'.pendingTick = none) (hlast : s'.lastSlotAt = s.lastSlotAt)
      (hclosed : s'.lastClosedSlotAt = some (laterSlot s.lastClosedSlotAt pending.slotAt)) :
      ScheduleMove env id Minted (some s) (some s')
  | settled {s s'} (pending : PendingTick) (hid : s'.scheduleId = s.scheduleId)
      (hdeleted : s'.deletedAt = s.deletedAt) (hpending : s.pendingTick = some pending)
      (hnone : s'.pendingTick = none)
      (hlast : s'.lastSlotAt = some (laterSlot s.lastSlotAt pending.slotAt))
      (hclosed : s'.lastClosedSlotAt = s.lastClosedSlotAt) (hminted : Minted pending) :
      ScheduleMove env id Minted (some s) (some s')

/-- A schedule as its admissions see it. -/
def ledgerOf (schedule : Option Schedule) : Ledger PendingTick Time where
  pending := schedule.bind (·.pendingTick)
  mark := schedule.bind admissionWatermark

section Moves

variable {env : ScheduleEnv} {id : String} {Minted : PendingTick → Prop} {s s' : Option Schedule}
  {schedule schedule' : Schedule} {pending : PendingTick}

theorem laterSlot_ge (previous : Option Time) (slot : Time) : slot ≤ laterSlot previous slot := by
  unfold laterSlot
  split
  · exact le_rfl
  · split_ifs with h
    · exact le_rfl
    · exact not_lt.1 h

theorem le_laterSlot (previous : Option Time) (slot : Time) :
    ∀ m ∈ previous, m ≤ laterSlot previous slot := by
  rintro m ⟨rfl⟩
  unfold laterSlot
  dsimp only
  split_ifs with h
  · exact le_of_lt h
  · exact le_rfl

/-- The watermark reaches whatever one of its two parts reaches. -/
theorem admissionWatermark_reached {slot : Time}
    (h : (∃ m ∈ schedule.lastSlotAt, slot ≤ m) ∨ ∃ m ∈ schedule.lastClosedSlotAt, slot ≤ m) :
    ∃ m ∈ admissionWatermark schedule, slot ≤ m := by
  unfold admissionWatermark
  rcases h with ⟨m, hm, hle⟩ | ⟨m, hm, hle⟩
  · rw [Option.mem_def.1 hm]
    cases schedule.lastClosedSlotAt with
    | none => exact ⟨m, rfl, hle⟩
    | some closed => exact ⟨_, rfl, le_trans hle (le_max_left m closed)⟩
  · rw [Option.mem_def.1 hm]
    cases schedule.lastSlotAt with
    | none => exact ⟨m, rfl, hle⟩
    | some settled => exact ⟨_, rfl, le_trans hle (le_max_right settled m)⟩

theorem mem_admissionWatermark {m : Time} (h : m ∈ admissionWatermark schedule) :
    m ∈ schedule.lastSlotAt ∨ m ∈ schedule.lastClosedSlotAt := by
  unfold admissionWatermark at h
  split at h
  · exact .inr h
  · exact .inl h
  · rename_i settled closed hsettled hclosed
    obtain rfl : max settled closed = m := Option.some.inj h
    rcases max_choice settled closed with hmax | hmax
    · exact .inl (hmax.symm ▸ hsettled)
    · exact .inr (hmax.symm ▸ hclosed)

theorem admissionWatermark_congr (hlast : schedule'.lastSlotAt = schedule.lastSlotAt)
    (hclosed : schedule'.lastClosedSlotAt = schedule.lastClosedSlotAt) :
    admissionWatermark schedule' = admissionWatermark schedule := by
  rw [admissionWatermark, admissionWatermark, hlast, hclosed]

/-- The watermark does not go back when neither of its parts does. -/
theorem atMost_of_parts
    (hlast : ∀ m ∈ schedule.lastSlotAt, ∃ m' ∈ schedule'.lastSlotAt, m ≤ m')
    (hclosed : ∀ m ∈ schedule.lastClosedSlotAt, ∃ m' ∈ schedule'.lastClosedSlotAt, m ≤ m') :
    (ledgerOf (some schedule)).AtMost (ledgerOf (some schedule')) := by
  intro m hm
  rcases mem_admissionWatermark hm with hm | hm
  · exact admissionWatermark_reached (.inl (hlast m hm))
  · exact admissionWatermark_reached (.inr (hclosed m hm))

/-- Every move of a schedule is a move of its ledger. -/
theorem ScheduleMove.ledger (h : ScheduleMove env id Minted s s') :
    Reservations.Move PendingTick.slotAt (ledgerOf s) (ledgerOf s') := by
  cases h with
  | same => exact .keep rfl rfl
  | created _ hpending => exact .raise rfl hpending nofun
  | configured _ _ hpending hlast hclosed =>
    exact .keep hpending (admissionWatermark_congr hlast hclosed)
  | admitted pending _ hnone hbelow => exact .reserve pending hnone hbelow rfl rfl
  | closed pending _ _ hpending hnone hlast hclosed =>
    refine .release pending hpending hnone (atMost_of_parts (fun m hm => ⟨m, hlast ▸ hm, le_rfl⟩)
      fun m hm => ⟨_, hclosed, le_laterSlot _ _ m hm⟩) ?_
    exact admissionWatermark_reached (.inr ⟨_, hclosed, laterSlot_ge _ _⟩)
  | settled pending _ _ hpending hnone hlast hclosed =>
    refine .release pending hpending hnone (atMost_of_parts
      (fun m hm => ⟨_, hlast, le_laterSlot _ _ m hm⟩) fun m hm => ⟨m, hclosed ▸ hm, le_rfl⟩) ?_
    exact admissionWatermark_reached (.inl ⟨_, hlast, laterSlot_ge _ _⟩)

/-- A schedule is never removed, and a deleted one stays deleted and admits nothing. -/
theorem ScheduleMove.deleted_stays (h : ScheduleMove env id Minted (some schedule) s')
    (hdeleted : schedule.deletedAt.isSome = true) :
    ∃ after, s' = some after ∧ after.deletedAt = schedule.deletedAt ∧
      ∀ pending, after.pendingTick = some pending → schedule.pendingTick = some pending := by
  cases h with
  | same => exact ⟨schedule, rfl, rfl, fun _ h => h⟩
  | configured _ hlive => rw [hlive] at hdeleted; cases hdeleted
  | admitted _ hlive => rw [hlive] at hdeleted; cases hdeleted
  | closed _ _ hsame _ hnone =>
    exact ⟨_, rfl, hsame, fun pending h => by cases hnone.symm.trans h⟩
  | settled _ _ hsame _ hnone =>
    exact ⟨_, rfl, hsame, fun pending h => by cases hnone.symm.trans h⟩

theorem ScheduleMove.keyed (h : ScheduleMove env id Minted s s')
    (hkey : ∀ schedule ∈ s, schedule.scheduleId = id) : ∀ schedule ∈ s', schedule.scheduleId = id := by
  rintro after hafter
  cases h with
  | same => exact hkey after hafter
  | created hid => cases hafter; exact hid
  | configured hid => cases hafter; exact hid.trans (hkey _ rfl)
  | @admitted before => cases hafter; exact hkey before rfl
  | closed _ hid => cases hafter; exact hid.trans (hkey _ rfl)
  | settled _ hid => cases hafter; exact hid.trans (hkey _ rfl)

/-- A pending occurrence has the item id of its slot. -/
theorem ScheduleMove.itemId (h : ScheduleMove env id Minted s s')
    (hitem : ∀ pending ∈ (ledgerOf s).pending,
      pending.itemId = slotItemId env.sha256 id pending.slotAt) :
    ∀ pending ∈ (ledgerOf s').pending,
      pending.itemId = slotItemId env.sha256 id pending.slotAt := by
  rintro pending hpending
  cases h with
  | same => exact hitem pending hpending
  | created _ hnone => cases hnone.symm.trans hpending
  | configured _ _ hsame => exact hitem pending (hsame.symm.trans hpending)
  | admitted _ _ _ _ hid => cases hpending; exact hid
  | closed _ _ _ _ hnone => cases hnone.symm.trans hpending
  | settled _ _ _ _ hnone => cases hnone.symm.trans hpending

/-- The last slot of an existing schedule moves only when its occurrence is settled. -/
theorem ScheduleMove.lastSlot (h : ScheduleMove env id Minted (some schedule) (some schedule'))
    (hne : schedule'.lastSlotAt ≠ schedule.lastSlotAt) : ∃ pending,
      schedule.pendingTick = some pending ∧ schedule'.pendingTick = none ∧
      schedule'.lastSlotAt = some (laterSlot schedule.lastSlotAt pending.slotAt) ∧
      Minted pending := by
  cases h with
  | same => exact absurd rfl hne
  | configured _ _ _ hlast => exact absurd hlast hne
  | admitted => exact absurd rfl hne
  | closed _ _ _ _ _ hlast => exact absurd hlast hne
  | settled pending _ _ hpending hnone hlast _ hminted =>
    exact ⟨pending, hpending, hnone, hlast, hminted⟩

end Moves

/-! ### Where the moves come from -/

section Changes

variable {env : ScheduleEnv} {context : OperatorContext} {schedules : Schedules} {id k : String}
  {Minted : PendingTick → Prop} {current next : Schedule} {given : Option Schedule}

/-- What holds of a schedule before a change, and of what it is changed to, holds of it after. -/
theorem mutateSchedule_keeps
    {change : Option Schedule → Except ScheduleError (Option Schedule)}
    (Q : Option Schedule → Prop) (hQ : Q (schedules.get k))
    (h : ∀ next, k = id → change (schedules.get id) = .ok (some next) → Q (some next)) :
    Q ((mutateSchedule env schedules id change).2.get k) := by
  unfold mutateSchedule
  split
  · exact hQ
  · exact hQ
  · rename_i next hnext
    split_ifs
    · rw [OrderedMap.get_set]
      split_ifs with hk
      · exact h next hk hnext
      · exact hQ
    · exact hQ

/-- A change of one schedule is a move of every schedule if it is one of its own. -/
theorem mutateSchedule_move
    {change : Option Schedule → Except ScheduleError (Option Schedule)}
    (h : ∀ next, change (schedules.get id) = .ok (some next) →
      ScheduleMove env id Minted (schedules.get id) (some next)) (k : String) :
    ScheduleMove env k Minted (schedules.get k) ((mutateSchedule env schedules id change).2.get k) := by
  refine mutateSchedule_keeps (ScheduleMove env k Minted (schedules.get k)) .same ?_
  rintro next rfl hnext
  exact h next hnext

/-- The schedule a change is answered with is the one stored. -/
theorem mutateSchedule_answer
    {change : Option Schedule → Except ScheduleError (Option Schedule)}
    (h : (mutateSchedule env schedules id change).1 = .ok (some next)) :
    (mutateSchedule env schedules id change).2.get id = some next := by
  unfold mutateSchedule at h ⊢
  split at h
  · cases h
  · cases h
  · rename_i written hwritten
    split_ifs at h with haccepts
    obtain rfl := Option.some.inj (Except.ok.inj h)
    simp only [haccepts, if_true, OrderedMap.get_set_self]

theorem currentSchedule_ok {expectedRevision : Option Nat}
    (h : currentSchedule given expectedRevision = .ok current) :
    given = some current ∧ current.deletedAt = none ∧
      ∀ expected ∈ expectedRevision, current.currentRevision = expected := by
  unfold currentSchedule at h
  split at h
  · cases h
  · split_ifs at h with hdeleted hrevision
    obtain rfl := Except.ok.inj h
    refine ⟨rfl, by simpa using hdeleted, fun expected hexpected => ?_⟩
    rw [Option.mem_def.1 hexpected] at hrevision
    simpa using hrevision

theorem createChange_move {cron : String} {spec : WorkSpec} {enabled : Option Bool} {now : Time}
    (h : createChange context id cron spec enabled now given = .ok (some next)) :
    ScheduleMove env id Minted given (some next) := by
  unfold createChange at h
  split at h
  · split_ifs at h
    obtain rfl := Option.some.inj (Except.ok.inj h)
    exact .same
  · obtain rfl := Option.some.inj (Except.ok.inj h)
    exact .created rfl rfl rfl

/-- An edit of a schedule that is not deleted, at the revision it expects. -/
structure Edits (expected : Nat) (before after : Schedule) : Prop where
  revision : before.currentRevision = expected
  live : before.deletedAt = none
  advances : after.revision = some (before.currentRevision + 1)
  disabled : after.enabled = false → after.disabledReason = some .operator
  scheduleId : after.scheduleId = before.scheduleId
  pending : after.pendingTick = before.pendingTick
  last : after.lastSlotAt = before.lastSlotAt
  closed : after.lastClosedSlotAt = before.lastClosedSlotAt

theorem Edits.move {expected : Nat} (h : ∃ current ∈ given, Edits expected current next) :
    ScheduleMove env id Minted given (some next) := by
  obtain ⟨current, rfl, hedits⟩ := h
  exact .configured hedits.scheduleId hedits.live hedits.pending hedits.last hedits.closed

theorem updateChange_ok {expectedRevision : Nat} {cron : String} {spec : WorkSpec} {enabled : Bool}
    (h : updateChange env context expectedRevision cron spec enabled given = .ok (some next)) :
    ∃ current ∈ given, Edits expectedRevision current next := by
  obtain ⟨current, hcurrent, hchecked⟩ := bind_eq_ok.1 h
  obtain ⟨_, -, hnext⟩ := bind_eq_ok.1 hchecked
  obtain ⟨hgiven, hdeleted, hrevision⟩ := currentSchedule_ok hcurrent
  refine ⟨current, hgiven, ?_⟩
  split at hnext
  · rename_i hon
    obtain ⟨_, -, hnext⟩ := bind_eq_ok.1 hnext
    obtain rfl := Option.some.inj (Except.ok.inj hnext)
    exact ⟨hrevision _ rfl, hdeleted, rfl, fun hoff => Bool.noConfusion (hon.symm.trans hoff), rfl,
      rfl, rfl, rfl⟩
  · obtain rfl := Option.some.inj (Except.ok.inj hnext)
    exact ⟨hrevision _ rfl, hdeleted, rfl, fun _ => rfl, rfl, rfl, rfl, rfl⟩

theorem deleteChange_ok {expectedRevision : Nat}
    (h : deleteChange env context expectedRevision given = .ok (some next)) :
    ∃ current ∈ given, Edits expectedRevision current next := by
  obtain ⟨current, hcurrent, hchecked⟩ := bind_eq_ok.1 h
  obtain ⟨_, -, hnext⟩ := bind_eq_ok.1 hchecked
  obtain ⟨hgiven, hdeleted, hrevision⟩ := currentSchedule_ok hcurrent
  obtain rfl := Option.some.inj (Except.ok.inj hnext)
  exact ⟨current, hgiven, hrevision _ rfl, hdeleted, rfl, fun _ => rfl, rfl, rfl, rfl, rfl⟩

theorem toggleChange_ok {expectedRevision : Nat} {enabled : Bool}
    (h : toggleChange env context expectedRevision enabled given = .ok (some next)) :
    ∃ current ∈ given, Edits expectedRevision current next := by
  obtain ⟨current, hcurrent, hchecked⟩ := bind_eq_ok.1 h
  obtain ⟨_, -, hnext⟩ := bind_eq_ok.1 hchecked
  obtain ⟨hgiven, hdeleted, hrevision⟩ := currentSchedule_ok hcurrent
  refine ⟨current, hgiven, ?_⟩
  split at hnext
  · rename_i hon
    obtain ⟨_, -, hnext⟩ := bind_eq_ok.1 hnext
    obtain rfl := Option.some.inj (Except.ok.inj hnext)
    exact ⟨hrevision _ rfl, hdeleted, rfl, fun hoff => Bool.noConfusion (hon.symm.trans hoff), rfl,
      rfl, rfl, rfl⟩
  · obtain rfl := Option.some.inj (Except.ok.inj hnext)
    exact ⟨hrevision _ rfl, hdeleted, rfl, fun _ => rfl, rfl, rfl, rfl, rfl⟩

/-- The revision an operation expects, and the schedule it is about. -/
def ScheduleOp.expects : ScheduleOp → Option (String × Nat)
  | .create _ _ _ _ => none
  | .update id expected _ _ _ | .delete id expected | .toggle id expected _ => some (id, expected)

theorem ScheduleOp.run_move (op : ScheduleOp) (k : String) :
    ScheduleMove env k Minted (schedules.get k) ((op.run env context schedules).2.get k) := by
  unfold ScheduleOp.run
  split_ifs
  swap
  · exact .same
  cases op with
  | create id cron spec enabled =>
    dsimp only
    split
    · exact .same
    · exact mutateSchedule_move (fun next hnext => createChange_move hnext) k
  | update id expected cron spec enabled =>
    dsimp only
    split
    · exact .same
    · exact mutateSchedule_move (fun next hnext => Edits.move (updateChange_ok hnext)) k
  | delete id expected => exact mutateSchedule_move (fun next hnext => Edits.move (deleteChange_ok hnext)) k
  | toggle id expected enabled =>
    exact mutateSchedule_move (fun next hnext => Edits.move (toggleChange_ok hnext)) k

/-- A change that does not answer with a schedule writes none. -/
theorem mutateSchedule_unchanged
    {change : Option Schedule → Except ScheduleError (Option Schedule)}
    (h : ∀ next, change (schedules.get id) ≠ .ok (some next)) :
    (mutateSchedule env schedules id change).2 = schedules := by
  unfold mutateSchedule
  split
  · rfl
  · rfl
  · rename_i next hnext
    exact absurd hnext (h next)

/-- An edit that expects another revision changes nothing. -/
theorem ScheduleOp.run_stale {op : ScheduleOp} {expected : Nat} (hop : op.expects = some (id, expected))
    (hcurrent : schedules.get id = some current) (hstale : current.currentRevision ≠ expected) :
    (op.run env context schedules).2 = schedules := by
  have hunedited : ∀ next, ¬∃ before ∈ schedules.get id, Edits expected before next := by
    rintro next ⟨before, hbefore, hedits⟩
    obtain rfl : current = before := Option.some.inj (hcurrent.symm.trans hbefore)
    exact hstale hedits.revision
  unfold ScheduleOp.run
  split_ifs
  swap
  · rfl
  cases op with
  | create => cases hop
  | update k expected' cron spec enabled =>
    cases hop
    dsimp only
    split
    · rfl
    · exact mutateSchedule_unchanged fun next hnext => hunedited next (updateChange_ok hnext)
  | delete k expected' =>
    cases hop
    exact mutateSchedule_unchanged fun next hnext => hunedited next (deleteChange_ok hnext)
  | toggle k expected' enabled =>
    cases hop
    exact mutateSchedule_unchanged fun next hnext => hunedited next (toggleChange_ok hnext)

end Changes

section TickChanges

variable {env : ScheduleEnv} {id : String} {Minted : PendingTick → Prop} {next : Schedule}
  {given : Option Schedule} {snapshot : Schedule} {admitted : PendingTick} {now : Time}

theorem samePending_slot {pending : Option PendingTick} (h : samePending pending admitted = true) :
    ∃ current, pending = some current ∧ current.slotAt = admitted.slotAt := by
  cases pending with
  | none => cases h
  | some current => exact ⟨current, rfl, (of_decide_eq_true h).2.1⟩

theorem invalidateChange_move (h : invalidateChange snapshot now given = some next) :
    ScheduleMove env id Minted given (some next) := by
  unfold invalidateChange at h
  split at h
  · cases h
  · split_ifs at h with hconfigured
    obtain rfl := Option.some.inj h
    exact .configured rfl (of_decide_eq_true hconfigured).2.1 rfl rfl rfl

theorem admitChange_move {spec : WorkSpec} {slot : Time}
    (h : admitChange snapshot spec slot (slotItemId env.sha256 id slot) given = some next) :
    ScheduleMove env id Minted given (some next) := by
  unfold admitChange at h
  split at h
  · cases h
  · rename_i current
    split_ifs at h with hrefused
    obtain rfl := Option.some.inj h
    obtain ⟨hconfigured, hnone, hbelow⟩ := not_or.1 hrefused |>.imp_right not_or.1
    refine .admitted _ (of_decide_eq_true (not_not.1 hconfigured)).2.1 (not_not.1 hnone)
      (fun m hm => ?_) rfl
    rw [Option.mem_def.1 hm] at hbelow
    simpa using hbelow

theorem closeChange_move {reason : DisabledReason}
    (h : closeChange admitted reason now given = some next) :
    ScheduleMove env id Minted given (some next) := by
  unfold closeChange at h
  split at h
  · cases h
  · split_ifs at h with hsame
    all_goals
      obtain ⟨pending, hpending, hslot⟩ := samePending_slot hsame
      obtain rfl := Option.some.inj h
      rw [← hslot]
      exact .closed pending rfl rfl hpending rfl rfl rfl

theorem settleChange_move (h : settleChange admitted now given = some next)
    (hminted : ∀ pending ∈ (ledgerOf given).pending, pending.slotAt = admitted.slotAt →
      Minted pending) : ScheduleMove env id Minted given (some next) := by
  unfold settleChange at h
  split at h
  · cases h
  · split_ifs at h with hsame
    obtain ⟨pending, hpending, hslot⟩ := samePending_slot hsame
    obtain rfl := Option.some.inj h
    rw [← hslot]
    exact .settled pending rfl rfl hpending rfl rfl rfl (hminted pending hpending hslot)

end TickChanges

end AgentLcars
