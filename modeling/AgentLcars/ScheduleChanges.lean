import AgentLcars.ScheduleSlots

/-!
# What one act of a tick comes to

* `Tick.act_change`: which change an act makes to the schedule at hand, and in which phase.
* `Tick.act_goes`: where the act leaves the tick in its list; an occurrence is to be closed as invalid
  only when its specification does not parse.
-/

namespace AgentLcars

/-- The schedules after a change of one of them. -/
def changed (env : ScheduleEnv) (schedules : Schedules) (id : String)
    (change : Option Schedule → Option Schedule) : Schedules :=
  (mutateSchedule env schedules id fun current => .ok (change current)).2

/-- What an act of a tick does to the schedules, with the phase it does it in. -/
inductive TickChange (env : ScheduleEnv) (tick : Tick) (snapshot : Schedule) (schedules : Schedules) :
    Schedules → Prop where
  | same : TickChange env tick snapshot schedules schedules
  | invalidates (hphase : tick.phase = .looking) (hpending : snapshot.pendingTick = none)
      (hdue : dueOccurrence snapshot tick.now = none) :
      TickChange env tick snapshot schedules
        (changed env schedules snapshot.scheduleId (invalidateChange snapshot tick.now))
  | admits (spec : WorkSpec) (slot : Time) (hphase : tick.phase = .looking)
      (hpending : snapshot.pendingTick = none)
      (hdue : dueOccurrence snapshot tick.now = some (some (spec, slot))) :
      TickChange env tick snapshot schedules
        (changed env schedules snapshot.scheduleId
          (admitChange snapshot spec slot (slotItemId env.sha256 snapshot.scheduleId slot)))
  | closes (pending : PendingTick) (reason : DisabledReason)
      (hphase : tick.phase = .closing pending reason) :
      TickChange env tick snapshot schedules
        (changed env schedules snapshot.scheduleId (closeChange pending reason tick.now))
  | settles (pending : PendingTick) (hphase : tick.phase = .settling pending) :
      TickChange env tick snapshot schedules
        (changed env schedules snapshot.scheduleId (settleChange pending tick.now))

/-- Where an act leaves a tick that has its list. -/
inductive TickGoes (tick : Tick) : Tick → Prop where
  | stays (phase : TickPhase) (hlisting : phase ≠ .listing) (hinvalid : ∀ pending, phase = .closing pending .invalid →
      tick.phase = .admitted pending ∧ workSpecSchema pending.spec = none) :
      TickGoes tick { tick with phase }
  | passes (report : TickReport) :
      TickGoes tick { tick with remaining := tick.remaining.tail, phase := .looking, report }

section Changed

variable {env : ScheduleEnv} {schedules : Schedules} {id k : String}
  {change : Option Schedule → Option Schedule}

/-- A change is stored when its outcome is accepted. -/
theorem changed_cases : changed env schedules id change = schedules ∨
    ∃ next, change (schedules.get id) = some next ∧ env.acceptsSchedule next = true ∧
      changed env schedules id change = schedules.set id next := by
  unfold changed mutateSchedule
  dsimp only
  cases change (schedules.get id) with
  | none => exact .inl rfl
  | some next =>
    by_cases haccepts : env.acceptsSchedule next = true
    · exact .inr ⟨next, rfl, haccepts, by simp only [haccepts, if_true]⟩
    · exact .inl (by simp only [haccepts, Bool.false_eq_true, if_false])

theorem changed_get_ne (h : k ≠ id) : (changed env schedules id change).get k = schedules.get k := by
  rcases @changed_cases env schedules id change with
    hsame | ⟨next, -, -, hset⟩
  · rw [hsame]
  · rw [hset, OrderedMap.get_set_of_ne _ _ h]

end Changed

section Acts

variable {env : ScheduleEnv} {grants : List WorkGrant} {clock : Time} {awaited : Awaited}
  {tick : Tick} {s : Store} {schedules : Schedules} {snapshot : Schedule}

theorem Tick.mutate_schedules {id : String} {change : Option Schedule → Option Schedule}
    {returned : Option Schedule → Tick} :
    (tick.mutate env awaited schedules id change returned).schedules = schedules ∨
      (tick.mutate env awaited schedules id change returned).schedules =
        changed env schedules id change := by
  unfold Tick.mutate
  cases awaited with
  | throws message applied =>
    cases applied with
    | true => exact .inr rfl
    | false => exact .inl rfl
  | returns =>
    refine .inr ?_
    dsimp only
    split <;> rfl

theorem Tick.look_change (hphase : tick.phase = .looking) :
    TickChange env tick snapshot schedules (tick.look env awaited schedules snapshot).schedules := by
  unfold Tick.look
  dsimp only
  split
  · exact .same
  rename_i hpending
  split
  · rename_i hdue
    rcases @Tick.mutate_schedules env awaited tick schedules _ _ _ with h | h
    · rw [h]
      exact .same
    · rw [h]
      exact .invalidates hphase hpending hdue
  · exact .same
  · rename_i spec slot hdue
    rcases @Tick.mutate_schedules env awaited tick schedules _ _ _ with h | h
    · rw [h]
      exact .same
    · rw [h]
      exact .admits spec slot hphase hpending hdue

/-- Every change of the schedules. -/
theorem Tick.act_change :
    (tick.act env grants clock awaited s schedules).schedules = schedules ∨
      ∃ snapshot ∈ tick.remaining.head?, TickChange env tick snapshot schedules
        (tick.act env grants clock awaited s schedules).schedules := by
  unfold Tick.act
  split
  · split <;> exact .inl rfl
  · exact .inl rfl
  split
  · exact .inl rfl
  rename_i snapshot rest hremaining
  refine .inr ⟨snapshot, by rw [hremaining]; rfl, ?_⟩
  dsimp only
  split
  · rename_i hphase
    exact Tick.look_change hphase
  · exact .same
  · unfold Tick.request
    dsimp only
    split
    · exact .same
    split
    · exact .same
    · split <;> exact .same
  · split <;> exact .same
  · split
    · exact .same
    · split_ifs <;> exact .same
  · split <;> exact .same
  · rename_i pending reason hphase
    rcases @Tick.mutate_schedules env awaited tick schedules _ _ _ with h | h
    · unfold Tick.close
      rw [h]
      exact .same
    · unfold Tick.close
      rw [h]
      exact .closes pending reason hphase
  · rename_i pending hphase
    rcases @Tick.mutate_schedules env awaited tick schedules _ _ _ with h | h
    · rw [h]
      exact .same
    · rw [h]
      exact .settles pending hphase
  · exact .same
  · exact .same

/-- A tick does not change schedules but the one at hand. -/
theorem TickChange.get_ne {schedules' : Schedules} (h : TickChange env tick snapshot schedules schedules')
    {k : String} (hk : k ≠ snapshot.scheduleId) : schedules'.get k = schedules.get k := by
  cases h with
  | same => rfl
  | _ => exact changed_get_ne hk

/-- A failed act goes on to the next snapshot. -/
theorem TickGoes.fails (id message : String) : TickGoes tick (tick.fail id message) :=
  .passes { tick.report with errors := tick.report.errors ++ [(id, message)] }

theorem TickGoes.next : TickGoes tick tick.next := .passes tick.report

theorem TickGoes.disabled (id : String) (noted : Bool) : TickGoes tick (tick.disabled id noted) :=
  .passes { tick.report with
    disabled := if noted then tick.report.disabled ++ [id] else tick.report.disabled }

/-- A change goes on with what it was answered, or fails. -/
theorem Tick.mutate_goes {id : String} {change : Option Schedule → Option Schedule}
    {returned : Option Schedule → Tick} (h : ∀ answer, TickGoes tick (returned answer)) :
    TickGoes tick (tick.mutate env awaited schedules id change returned).tick := by
  unfold Tick.mutate
  cases awaited with
  | throws message applied => exact .fails id message
  | returns =>
    dsimp only
    split
    · exact h _
    · exact .fails id _
    · exact .fails id _

theorem Tick.look_goes :
    TickGoes tick (tick.look env awaited schedules snapshot).tick := by
  unfold Tick.look
  dsimp only
  split
  · exact .stays _ nofun nofun
  split
  · exact Tick.mutate_goes fun answer => .disabled _ _
  · exact .next
  · refine Tick.mutate_goes fun answer => ?_
    split
    · exact .next
    · exact .stays _ nofun nofun

theorem Tick.mint_goes {id : String} {pending : PendingTick} (hphase : tick.phase = .admitted pending) :
    TickGoes tick (tick.mint env grants awaited s id pending) := by
  unfold Tick.mint
  split
  · rename_i hspec
    refine .stays _ nofun ?_
    rintro _ ⟨⟩
    exact ⟨hphase, hspec⟩
  dsimp only
  split_ifs
  · exact .stays _ nofun nofun
  split
  · exact .fails id _
  split
  · exact .stays _ nofun nofun
  · exact .stays _ nofun nofun
  · exact .stays _ nofun nofun
  · exact .fails id _

theorem Tick.reconcile_goes {id : String} {pending : PendingTick} {spec : WorkSpec} :
    TickGoes tick (tick.reconcile s id pending spec) := by
  unfold Tick.reconcile
  split_ifs
  · exact .stays _ (by rintro ⟨⟩) (by rintro _ ⟨⟩)
  · exact .fails id _

theorem Tick.close_goes {id : String} {pending : PendingTick} {reason : DisabledReason} :
    TickGoes tick (tick.close env awaited schedules id pending reason).tick := by
  unfold Tick.close
  refine Tick.mutate_goes fun answer => ?_
  dsimp only
  split_ifs
  · exact .passes _
  · exact .disabled _ _

/-- An act of a tick that has its list. -/
theorem Tick.act_goes (hlisted : tick.phase ≠ .listing) :
    TickGoes tick (tick.act env grants clock awaited s schedules).tick := by
  unfold Tick.act
  split
  · rename_i hphase
    exact absurd hphase hlisted
  · rename_i hphase
    exact .stays tick.phase hlisted (by rw [hphase]; rintro _ ⟨⟩)
  split
  · exact .stays _ (by rintro ⟨⟩) (by rintro _ ⟨⟩)
  rename_i snapshot rest hremaining
  dsimp only
  split
  · exact Tick.look_goes
  · rename_i hphase
    exact Tick.mint_goes hphase
  · unfold Tick.request
    dsimp only
    split
    · exact .fails _ _
    split
    · exact .fails _ _
    split
    · exact .stays _ (by rintro ⟨⟩) (by rintro _ ⟨⟩)
    · exact .stays _ (by rintro ⟨⟩) (by rintro _ ⟨⟩)
    · exact .fails _ _
  · split
    · exact .fails _ _
    · exact .stays _ (by rintro ⟨⟩) (by rintro _ ⟨⟩)
  · split
    · exact .fails _ _
    split_ifs
    · exact .stays _ (by rintro ⟨⟩) (by rintro _ ⟨⟩)
    · exact Tick.reconcile_goes
  · split
    · exact .fails _ _
    · exact Tick.reconcile_goes
  · exact Tick.close_goes
  · exact Tick.mutate_goes fun answer => .passes _
  · rename_i hphase
    exact absurd hphase hlisted
  · rename_i hphase
    exact .stays tick.phase hlisted (by rw [hphase]; rintro _ ⟨⟩)

/-- A tick takes its list. -/
theorem Tick.act_lists (hphase : tick.phase = .listing) :
    (tick.act env grants clock .returns s schedules).tick =
      { tick with now := clock, remaining := listTickSchedules schedules, phase := .looking } := by
  unfold Tick.act
  rw [hphase]

end Acts

end AgentLcars
