import AgentLcars.StoreEffect

/-!
# Coherence of the running system

Every step of the system is a `Change` of its store, and every change keeps the store coherent.
Beside the store, a call in flight holds documents it read earlier; `Call.Sound` says what they are
still worth: a task document that is at the revision the call saw is the one it saw.

* `Change.run_cases`: a stored run came from a stored run by one move, or is fresh.
* `World.coherent_run`: every reachable state is coherent.
* `World.invariant_run`, `World.invariant_along`: the induction rules for everything else.
-/

namespace AgentLcars

/-! ### Runs across a commit -/

section Commit

variable {label : Step} {now : Time} {admitted : Option (RequestSource × String)} {overrun : Prop}
  {subject : Option Run} {before : Option Task} {d : Decision} {s s' : Store}

/-- The fresh run of a decision. -/
structure MintedHere (before : Option Task) (d : Decision) (m : Run) : Prop where
  fresh : Fresh m
  key : taskKey m.task = taskKey d.task.task
  runId : m.runId = runIdOf (taskKey d.task.task) d.task.runCount
  later : generations before < d.task.runCount
  lock : d.task.activeRunId = some m.runId
  issue : SameSource m.issue d.task.issue
  dispatch : ∃ e ∈ d.outbox, About e .dispatch m

theorem Minted.here {skipped : Nat} {m : Run} (h : Minted before skipped d.task m)
    (hdispatch : ∃ e ∈ d.outbox, About e .dispatch m) : MintedHere before d m := by
  refine ⟨h.fresh, h.key.symm, ?_, ?_, h.lock, h.issue, hdispatch⟩
  · rw [h.key, h.runId]
  · have := h.count
    omega

/-- What a decision writes is the rewritten run or the fresh one. -/
theorem Effect.write_cases (h : Effect label now admitted overrun subject before d) {x : Run}
    (hx : x ∈ d.writes) :
    (∃ r, subject = some r ∧ Move label now r x) ∨ MintedHere before d x := by
  cases h with
  | touch => cases hx
  | rewrite hmove =>
    obtain rfl : x = _ := by simpa [Decision.writes] using hx
    exact .inl ⟨_, rfl, hmove⟩
  | settle hmove =>
    obtain rfl : x = _ := by simpa [Decision.writes] using hx
    exact .inl ⟨_, rfl, hmove⟩
  | mint old dropped m hwrites hmove hkey hfirst hfree hminted _ _ _ _ hdispatch =>
    rcases (hwrites x).1 hx with ⟨r, hold⟩ | rfl
    · obtain ⟨hsubject, hmove, -⟩ := hmove r x hold
      exact .inl ⟨r, hsubject, hmove⟩
    · exact .inr (hminted.here hdispatch)

/-- Two writes of a decision are about different runs. -/
theorem Effect.writes_inj (h : Effect label now admitted overrun subject before d)
    (hstored : ∀ r ∈ subject, s.runs.get r.runId = some r)
    (hfresh : ∀ m, MintedHere before d m → s.runs.get m.runId = none) {x y : Run}
    (hx : x ∈ d.writes) (hy : y ∈ d.writes) (hxy : x.runId = y.runId) : x = y := by
  cases h with
  | touch => cases hx
  | rewrite =>
    simp only [Decision.writes, Option.toList_some, List.append_nil, List.mem_singleton] at hx hy
    rw [hx, hy]
  | settle =>
    simp only [Decision.writes, Option.toList_some, List.append_nil, List.mem_singleton] at hx hy
    rw [hx, hy]
  | mint old dropped m hwrites hmove hkey hfirst hfree hminted _ horigin hout hnodup hdispatch =>
    have hm : s.runs.get m.runId = none := hfresh m (hminted.here hdispatch)
    have hold : ∀ r z, old = some (r, z) → s.runs.get z.runId = some r := by
      intro r z h
      obtain ⟨hr, hmove, -⟩ := hmove r z h
      rw [runId_of_frozen hmove.frozen]
      exact hstored r hr
    rcases (hwrites x).1 hx with ⟨r, hr⟩ | rfl <;> rcases (hwrites y).1 hy with ⟨q, hq⟩ | rfl
    · rw [hr] at hq
      exact (Prod.mk.inj (Option.some.inj hq)).2
    · rw [← hxy, hold r x hr] at hm
      cases hm
    · rw [hxy, hold q y hq] at hm
      cases hm
    · rfl

theorem MintedHere.unstored (hs : s.Coherent) {m : Run}
    (h : MintedHere ((s.tasks.get (taskKey d.task.task)).map (·.task)) d m) :
    s.runs.get m.runId = none := by
  obtain ⟨n, hn⟩ : ∃ n, d.task.runCount = n + 1 := ⟨d.task.runCount - 1, by have := h.later; omega⟩
  rw [h.runId, hn]
  exact hs.fresh_id (by have := h.later; omega)

variable (hs : s.Coherent)
  (heffect : Effect label now admitted overrun subject
    ((s.tasks.get (taskKey d.task.task)).map (·.task)) d)
  (hsubject : ∀ r ∈ subject, s.runs.get r.runId = some r ∧ taskKey r.task = taskKey d.task.task)
include hs heffect hsubject

variable (hwritten : Written s s' d)
include hwritten

theorem Written.get_of_mem {x : Run} (hx : x ∈ d.writes) : s'.runs.get x.runId = some x := by
  rw [hwritten.runs]
  refine OrderedMap.get_setAll_of_mem Run.runId id hx fun y hy hyx => ?_
  exact heffect.writes_inj (fun r hr => (hsubject r hr).1) (fun m hm => hm.unstored hs) hy hx hyx

omit hs heffect hsubject in
theorem Written.get_of_notMem {id : String} (h : ∀ x ∈ d.writes, x.runId ≠ id) :
    s'.runs.get id = s.runs.get id := by
  rw [hwritten.runs]
  exact OrderedMap.get_setAll_of_notMem Run.runId _ h

omit hs heffect hsubject in
theorem Written.get_task (k : String) :
    s'.tasks.get k = if k = taskKey d.task.task then
      some { task := d.task
             revision := ((s.tasks.get (taskKey d.task.task)).map (·.revision)).getD 0 + 1 }
      else s.tasks.get k := by
  rw [hwritten.tasks, OrderedMap.get_set]

omit hs heffect hsubject in
theorem Written.get_cases {id : String} {x : Run} (hx : s'.runs.get id = some x) :
    (x ∈ d.writes ∧ x.runId = id) ∨ (s.runs.get id = some x ∧ ∀ y ∈ d.writes, y.runId ≠ id) := by
  rw [hwritten.runs] at hx
  rcases OrderedMap.get_setAll_cases Run.runId _ hx with ⟨y, hy, hid, rfl⟩ | h
  · exact .inl ⟨hy, hid⟩
  · exact .inr h

omit hs in
/-- A run stored after the decision came from a stored run by one move, or was minted. -/
theorem Written.run_cases {id : String} {x : Run} (hx : s'.runs.get id = some x) :
    (∃ now r, s.runs.get id = some r ∧ Move label now r x) ∨ (x ∈ d.writes ∧ x.runId = id ∧
      MintedHere ((s.tasks.get (taskKey d.task.task)).map (·.task)) d x) := by
  rcases hwritten.get_cases hx with ⟨hmem, rfl⟩ | ⟨hsame, -⟩
  · rcases heffect.write_cases hmem with ⟨r, hr, hmove⟩ | hminted
    · refine .inl ⟨now, r, ?_, hmove⟩
      rw [runId_of_frozen hmove.frozen]
      exact (hsubject r hr).1
    · exact .inr ⟨hmem, rfl, hminted⟩
  · exact .inl ⟨0, x, hsame, .same⟩

end Commit

/-! ### Runs across a step -/

section Runs

variable {label : Step} {s s' : Store}

/-- Without a decision no run is new. -/
theorem Aside.run_back (h : Aside label s s') {id : String} {x : Run}
    (hx : s'.runs.get id = some x) : ∃ now r, s.runs.get id = some r ∧ Move label now r x := by
  cases h with
  | quiet h => exact ⟨0, x, h.runs ▸ hx, .same⟩
  | outbox h => exact ⟨0, x, h.runs ▸ hx, .same⟩
  | queue now r r' hget hmove _ _ hruns =>
    rw [hruns, OrderedMap.get_set] at hx
    split_ifs at hx with hid
    · obtain rfl := Option.some.inj hx
      exact ⟨now, r, hid ▸ hget, hmove⟩
    · exact ⟨0, x, hx, .same⟩

/-- A stored run came from a stored run by one move, or is fresh. -/
theorem Change.run_cases (hs : s.Coherent) (h : Change label s s') {id : String} {x : Run}
    (hx : s'.runs.get id = some x) :
    (∃ now r, s.runs.get id = some r ∧ Move label now r x) ∨ (s.runs.get id = none ∧ Fresh x) := by
  cases h with
  | aside h => exact .inl (h.run_back hx)
  | decide now admitted subject d heffect hsubject _ hwritten =>
    rcases hwritten.run_cases heffect hsubject hx with hmoved | ⟨-, rfl, hminted⟩
    · exact .inl hmoved
    · exact .inr ⟨hminted.unstored hs, hminted.fresh⟩

/-- A stored run makes one move, at the clock of the step unless it stays as it is. -/
theorem Change.run_moves_at (hs : s.Coherent) (h : Change label s s') {id : String} {r : Run}
    (hr : s.runs.get id = some r) : ∃ now r', s'.runs.get id = some r' ∧ Move label now r r' ∧
      (r' = r ∨ label.clock = some now) := by
  cases h with
  | aside h =>
    cases h with
    | quiet h => exact ⟨0, r, by rw [h.runs]; exact hr, .same, .inl rfl⟩
    | outbox h => exact ⟨0, r, by rw [h.runs]; exact hr, .same, .inl rfl⟩
    | queue now q q' hget hmove _ _ hruns _ _ _ _ hclock =>
      rw [hruns]
      by_cases hid : id = q.runId
      · subst hid
        obtain rfl : r = q := Option.some.inj (hr.symm.trans hget)
        exact ⟨now, q', OrderedMap.get_set_self _ _ _, hmove, .inr hclock⟩
      · exact ⟨0, r, by rw [OrderedMap.get_set_of_ne _ _ hid]; exact hr, .same, .inl rfl⟩
  | decide now admitted subject d heffect hsubject _ hwritten hclock =>
    by_cases hid : ∃ x ∈ d.writes, x.runId = id
    · obtain ⟨x, hx, rfl⟩ := hid
      refine ⟨now, x, hwritten.get_of_mem hs heffect hsubject hx, ?_, .inr hclock⟩
      rcases heffect.write_cases hx with ⟨q, hq, hmove⟩ | hminted
      · have hget := (hsubject q hq).1
        rw [← runId_of_frozen hmove.frozen, hr] at hget
        exact (Option.some.inj hget) ▸ hmove
      · rw [hminted.unstored hs] at hr
        cases hr
    · refine ⟨0, r, ?_, .same, .inl rfl⟩
      rw [hwritten.get_of_notMem fun x hx he => hid ⟨x, hx, he⟩]
      exact hr

/-- A stored run makes one move. -/
theorem Change.run_moves (hs : s.Coherent) (h : Change label s s') {id : String} {r : Run}
    (hr : s.runs.get id = some r) : ∃ now r', s'.runs.get id = some r' ∧ Move label now r r' :=
  let ⟨now, r', hr', hmove, _⟩ := h.run_moves_at hs hr
  ⟨now, r', hr', hmove⟩

end Runs

/-! ### Deliveries across a step -/

section Deliveries

variable {label : Step} {now : Time} {r r' : Run} {s s' : Store}

/-- A run is bound to its own delivery only. -/
def OwnDelivery (r : Run) : Prop := ∀ b ∈ r.delivery, b.runId = r.runId

theorem ownDelivery_reported {result : RunResult} {delivery : Option DeliveryBinding}
    (publish : Bool) (h : OwnDelivery r)
    (hdelivery : ∀ b ∈ delivery, b.runId = r.runId ∧ result.ok = true) :
    OwnDelivery (reportedRun r result delivery publish) := by
  intro b hb
  cases hd : delivery with
  | none =>
    rw [hd] at hb
    exact h b hb
  | some b' =>
    rw [hd] at hb
    obtain rfl := Option.some.inj hb
    exact (hdelivery b' hd).1

theorem Move.ownDelivery (hmove : Move label now r r') (h : OwnDelivery r) : OwnDelivery r' := by
  cases hmove with
  | defer _ _ _ publish _ _ _ hdelivery => exact ownDelivery_reported publish h hdelivery
  | settle _ _ hs hc =>
    intro b hb
    rw [runId_of_frozen (hc.frozen.trans hs.frozen)]
    rw [hc.delivery] at hb
    cases hs with
    | report _ _ _ publish _ hdelivery => exact ownDelivery_reported publish h hdelivery b hb
    | _ => exact h b hb
  | deliver _ _ _ hown => exact hown
  | _ => exact h

/-- Every stored run is bound to its own delivery only. -/
theorem Change.ownDelivery (hs : s.Coherent) (h : Change label s s')
    (hinv : ∀ id r, s.runs.get id = some r → OwnDelivery r) :
    ∀ id r, s'.runs.get id = some r → OwnDelivery r := by
  intro id x hx
  rcases h.run_cases hs hx with ⟨now, r, hr, hmove⟩ | ⟨-, hfresh⟩
  · exact hmove.ownDelivery (hinv id r hr)
  · intro b hb
    rw [hfresh.delivery] at hb
    cases hb

/-- Where the delivery of a task comes from: the one it had, which can only have moved on, or a run
that settled in this step. -/
structure Outlives (before after : DeliveryBinding) : Prop where
  runId : after.runId = before.runId
  waiting : after.state = .waiting → before.state = .waiting
  uncorrected : after.correctionRunId = none → before.correctionRunId = none

theorem Outlives.refl (b : DeliveryBinding) : Outlives b b := ⟨rfl, id, id⟩

theorem Effect.delivery_from {admitted : Option (RequestSource × String)} {overrun : Prop}
    {subject : Option Run} {before : Option Task} {d : Decision}
    (h : Effect label now admitted overrun subject before d)
    (hown : ∀ r ∈ subject, OwnDelivery r) {b' : DeliveryBinding} (hb' : b' ∈ d.task.delivery) :
    (∃ t ∈ before, ∃ b ∈ t.delivery, Outlives b b') ∨
      ∃ r ∈ subject, b'.runId = r.runId ∧ isLive r.state = true ∧
        ∀ t ∈ before, t.activeRunId = some r.runId → d.task.activeRunId = none := by
  have hsame : d.task.delivery = before.bind (·.delivery) →
      ∃ t ∈ before, ∃ b ∈ t.delivery, Outlives b b' := by
    intro heq
    rw [heq] at hb'
    obtain ⟨t, ht, hb⟩ := Option.bind_eq_some_iff.1 hb'
    exact ⟨t, ht, b', hb, .refl b'⟩
  cases h with
  | touch h => exact .inl (hsame h.delivery)
  | rewrite _ _ h =>
    rcases h.delivery with ⟨heq, -⟩ | ⟨b, hb, -, hwaiting, -, -, -, hmoved⟩
    · exact .inl (hsame heq)
    · obtain ⟨hid, hcorrection⟩ := hmoved b' hb'
      exact .inl ⟨_, rfl, b, hb, hid, fun _ => hwaiting, fun hnone => hcorrection ▸ hnone⟩
  | @settle t t' r r' outbox hmove hr _ h =>
    rcases h.delivery with heq | ⟨heq, -⟩
    · exact .inl (hsame heq)
    · have hid := hmove.ownDelivery (hown r rfl) b' (heq ▸ hb')
      refine .inr ⟨r, rfl, hid.trans (runId_of_frozen hmove.frozen), hr, ?_⟩
      rintro _ ⟨rfl⟩ hlock
      rw [h.lock, if_pos hlock]
  | mint old dropped m _ _ _ _ _ _ _ horigin =>
    cases horigin with
    | request _ _ _ _ hdelivery => exact .inl (hsame hdelivery)
    | fallback _ _ _ _ _ _ _ _ _ hdelivery => exact .inl (hsame hdelivery)
    | correction r t b _ _ ht hb _ _ _ _ _ _ _ hdelivery =>
      rw [hdelivery] at hb'
      obtain rfl := Option.some.inj hb'
      exact .inl ⟨t, ht, b, hb, rfl, id, nofun⟩
    | retry r r' t _ _ ht _ _ _ _ hdelivery =>
      subst ht
      exact .inl (hsame hdelivery)
    | supersede r r' t _ _ _ ht _ _ _ _ _ _ _ _ _ hdelivery =>
      subst ht
      exact .inl (hsame hdelivery)

theorem Change.delivery_from (hs : s.Coherent) (h : Change label s s')
    (hown : ∀ id r, s.runs.get id = some r → OwnDelivery r) {k : String} {vt : VersionedTask}
    (hvt : s'.tasks.get k = some vt) {b' : DeliveryBinding} (hb' : b' ∈ vt.task.delivery) :
    (∃ vt₀ b, s.tasks.get k = some vt₀ ∧ b ∈ vt₀.task.delivery ∧ Outlives b b') ∨
      ∃ r, s.runs.get b'.runId = some r ∧ taskKey r.task = k ∧ isLive r.state = true ∧
        vt.task.activeRunId = none := by
  cases h with
  | aside h =>
    rw [h.tasks] at hvt
    exact .inl ⟨vt, b', hvt, hb', .refl b'⟩
  | decide now admitted subject d heffect hsubject _ hwritten =>
    rw [hwritten.get_task] at hvt
    split_ifs at hvt with hk
    · obtain rfl := Option.some.inj hvt
      rcases heffect.delivery_from (fun r hr => hown r.runId r (hsubject r hr).1) hb' with
        ⟨t, ht, b, hb, hout⟩ | ⟨r, hr, hid, hlive, hrelease⟩
      · obtain ⟨vt₀, hvt₀, rfl⟩ := Option.map_eq_some_iff.1 ht
        exact .inl ⟨vt₀, b, hk ▸ hvt₀, hb, hout⟩
      · obtain ⟨hget, hkey⟩ := hsubject r hr
        obtain ⟨vt₀, -, hvt₀, -⟩ := hs.counted hget
        refine .inr ⟨r, hid ▸ hget, hkey.trans hk.symm, hlive, hrelease vt₀.task ?_ ?_⟩
        · rw [← hkey, hvt₀]
          rfl
        · exact hs.mutex hget hvt₀ hlive
    · exact .inl ⟨vt, b', hvt, hb', .refl b'⟩

end Deliveries

/-! ### Decisions keep the lock -/

section Locks

variable {label : Step} {now : Time} {admitted : Option (RequestSource × String)} {overrun : Prop}
  {subject : Option Run} {before : Option Task} {d : Decision} {s s' : Store}
  (hs : s.Coherent) (hbefore : (s.tasks.get (taskKey d.task.task)).map (·.task) = before)
  (heffect : Effect label now admitted overrun subject before d)
  (hsubject : ∀ r ∈ subject, s.runs.get r.runId = some r ∧ taskKey r.task = taskKey d.task.task)
  (hwritten : Written s s' d)
include hs hbefore heffect hsubject hwritten

/-- The lock names a live run of the task. -/
theorem holder_after {id : String} (hid : d.task.activeRunId = some id) :
    ∃ x, s'.runs.get id = some x ∧ isLive x.state = true ∧ taskKey x.task = taskKey d.task.task := by
  have hmem : ∀ {x}, x ∈ d.writes → s'.runs.get x.runId = some x := fun hx =>
    hwritten.get_of_mem hs (hbefore ▸ heffect) hsubject hx
  have hother : (∀ x ∈ d.writes, x.runId ≠ id) → s'.runs.get id = s.runs.get id := fun h =>
    hwritten.get_of_notMem h
  have hheld : ∀ t ∈ before, t.activeRunId = some id →
      ∃ r, s.runs.get id = some r ∧ isLive r.state = true ∧ taskKey r.task = taskKey d.task.task := by
    intro t ht hlock
    obtain ⟨vt, hvt, rfl⟩ := Option.map_eq_some_iff.1 (hbefore.trans ht)
    exact hs.holder hvt hlock
  cases heffect with
  | touch h =>
    obtain ⟨r, hr, hlive, hkey⟩ := hheld _ rfl (h.lock ▸ hid)
    exact ⟨r, by rw [hother (by simp [Decision.writes])]; exact hr, hlive, hkey⟩
  | @rewrite t t' r r' outbox hmove hlive h =>
    obtain ⟨r₀, hr₀, hlive₀, hkey⟩ := hheld _ rfl (h.lock ▸ hid)
    have hr'id : r'.runId = r.runId := runId_of_frozen hmove.frozen
    by_cases hrid : r'.runId = id
    · have hr : s.runs.get id = some r := by
        rw [← hrid, hr'id]
        exact (hsubject r rfl).1
      obtain rfl : r₀ = r := Option.some.inj (hr₀.symm.trans hr)
      refine ⟨r', hrid ▸ hmem (by simp [Decision.writes]), hlive.trans hlive₀, ?_⟩
      rw [task_of_frozen hmove.frozen]
      exact hkey
    · refine ⟨r₀, ?_, hlive₀, hkey⟩
      rw [hother (by simpa [Decision.writes] using hrid)]
      exact hr₀
  | @settle t t' r r' outbox hmove hr hr' h =>
    rw [h.lock] at hid
    split_ifs at hid with hlock
    obtain ⟨r₀, hr₀, hlive₀, hkey⟩ := hheld _ rfl hid
    refine ⟨r₀, ?_, hlive₀, hkey⟩
    rw [hother]
    · exact hr₀
    · intro x hx hxid
      obtain rfl : x = r' := by simpa [Decision.writes] using hx
      rw [runId_of_frozen hmove.frozen] at hxid
      exact hlock (hxid ▸ hid)
  | mint old dropped m hwrites hmove hkey hfirst hfree hminted =>
    have hmid : m.runId = id := Option.some.inj (hminted.lock.symm.trans hid)
    refine ⟨m, hmid ▸ hmem ((hwrites m).2 (.inr rfl)), ?_, hminted.key.symm⟩
    rw [hminted.fresh.state]
    rfl

omit hs hbefore hsubject hwritten in
/-- A lock whose holder is not written stays. -/
theorem lock_of_unwritten {t : Task} {id : String} (ht : t ∈ before) (hlock : t.activeRunId = some id)
    (hother : ∀ x ∈ d.writes, x.runId ≠ id) : d.task.activeRunId = some id := by
  cases heffect with
  | touch h =>
    obtain rfl := Option.some.inj ht
    exact h.lock.trans hlock
  | rewrite _ _ h =>
    obtain rfl := Option.some.inj ht
    exact h.lock.trans hlock
  | @settle t₀ t' r r' outbox hmove _ _ h =>
    obtain rfl := Option.some.inj ht
    have hne : r.runId ≠ id := by
      rw [← runId_of_frozen hmove.frozen]
      exact hother r' (by simp [Decision.writes])
    refine h.lock.trans ?_
    rw [if_neg, hlock]
    rintro hr
    exact hne (Option.some.inj (hr.symm.trans hlock))
  | mint old dropped m hwrites hmove hkey hfirst hfree =>
    obtain ⟨r, r', hold, hrid⟩ := hfree t ht id hlock
    obtain ⟨-, hmove, -⟩ := hmove r r' hold
    refine absurd ?_ (hother r' ((hwrites r').2 (.inl ⟨r, hold⟩)))
    rw [runId_of_frozen hmove.frozen, hrid]

/-- A live run of the task holds its lock. -/
theorem mutex_after {id : String} {x : Run} (hx : s'.runs.get id = some x)
    (hkey : taskKey x.task = taskKey d.task.task) (hlive : isLive x.state = true) :
    d.task.activeRunId = some id := by
  have hheld : ∀ {r : Run}, s.runs.get id = some r → taskKey r.task = taskKey d.task.task →
      isLive r.state = true → ∃ t ∈ before, t.activeRunId = some id := by
    intro r hr hrkey hrlive
    obtain ⟨vt, -, hvt, -⟩ := hs.counted hr
    have hlock := hs.mutex hr hvt hrlive
    rw [hrkey] at hvt
    exact ⟨vt.task, by rw [← hbefore, hvt]; rfl, hlock⟩
  rcases hwritten.get_cases hx with ⟨hmem, hxid⟩ | ⟨hsame, hother⟩
  · cases heffect with
    | touch => cases hmem
    | @rewrite t t' r r' outbox hmove hl h =>
      obtain rfl : x = r' := by simpa [Decision.writes] using hmem
      obtain ⟨hget, hrkey⟩ := hsubject r rfl
      rw [← runId_of_frozen hmove.frozen, hxid] at hget
      obtain ⟨t₀, ht₀, hlock⟩ := hheld hget hrkey (hl.symm.trans hlive)
      obtain rfl := Option.some.inj ht₀
      exact h.lock.trans hlock
    | @settle t t' r r' outbox hmove hr hr' h =>
      obtain rfl : x = r' := by simpa [Decision.writes] using hmem
      rw [hlive] at hr'
      cases hr'
    | mint old dropped m hwrites hmove _ _ _ hminted =>
      rcases (hwrites x).1 hmem with ⟨r, hold⟩ | rfl
      · rw [(hmove r x hold).2.2.1] at hlive
        cases hlive
      · exact hxid ▸ hminted.lock
  · obtain ⟨t, ht, hlock⟩ := hheld hsame hkey hlive
    exact lock_of_unwritten heffect ht hlock hother

omit hs hbefore hsubject hwritten in
theorem generations_after : generations before ≤ d.task.runCount := by
  cases heffect with
  | touch h => exact h.count.ge
  | rewrite _ _ h => exact h.count.ge
  | settle _ _ _ h => exact h.count.ge
  | mint _ _ _ _ _ _ _ _ h =>
    have := h.count
    omega

omit hs hbefore hsubject hwritten in
theorem issue_after : IssueKept (before.bind (·.issue)) d.task.issue := by
  cases heffect with
  | touch h => exact h.issue
  | rewrite _ _ h => exact .inl h.issue
  | settle _ _ _ h => exact .inl h.issue
  | mint _ _ _ _ _ _ _ _ h => exact h.issueKept

omit heffect hwritten in
/-- The task of a live subject is the one it locks. -/
theorem subject_locks {r : Run} (hr : subject = some r) (hlive : isLive r.state = true) :
    ∃ t ∈ before, t.activeRunId = some r.runId := by
  obtain ⟨hget, hkey⟩ := hsubject r hr
  obtain ⟨vt, -, hvt, -⟩ := hs.counted hget
  have hlock := hs.mutex hget hvt hlive
  rw [hkey] at hvt
  exact ⟨vt.task, by rw [← hbefore, hvt]; rfl, hlock⟩

omit hwritten in
theorem closed_after (hclosed : d.task.closedAt.isSome = true) : d.task.activeRunId = none := by
  have hwas : ∀ t ∈ before, t.closedAt.isSome = true → t.activeRunId = none := by
    intro t ht h
    obtain ⟨vt, hvt, rfl⟩ := Option.map_eq_some_iff.1 (hbefore.trans ht)
    exact hs.closed hvt h
  have hlocks := fun r hr hlive => subject_locks (r := r) hs hbefore hsubject hr hlive
  cases heffect with
  | @touch _ t t' h =>
    rw [h.lock]
    rcases h.closed with hsame | hfree
    · exact hwas t rfl (hsame ▸ hclosed)
    · exact hfree.1
  | @rewrite t t' r r' outbox _ _ h =>
    rw [h.lock]
    exact hwas t rfl (h.closed ▸ hclosed)
  | @settle t t' r r' outbox hmove hr hr' h =>
    obtain ⟨_, ⟨rfl⟩, hlock⟩ := hlocks r rfl hr
    rw [h.lock, if_pos hlock]
  | mint old dropped m hwrites hmove hkey hfirst hfree hminted hdropped horigin =>
    cases horigin with
    | request _ _ h => simp [h] at hclosed
    | fallback _ _ _ _ _ _ _ h => simp [h] at hclosed
    | correction _ _ _ _ _ _ _ _ _ _ _ _ h => simp [h] at hclosed
    | retry r r' t hold hr ht _ _ _ h =>
      obtain ⟨hsub, -⟩ := hmove r r' hold
      obtain ⟨t₀, ht₀, hlock⟩ := hlocks r hsub hr
      rw [ht] at ht₀
      obtain rfl := Option.some.inj ht₀
      rw [hwas t ht (h ▸ hclosed)] at hlock
      cases hlock
    | supersede _ _ _ _ _ _ _ _ _ _ _ _ _ _ _ h => simp [h] at hclosed

end Locks

/-! ### Changes keep the store coherent -/

section Coherent

variable {label : Step} {s s' : Store}

theorem Store.Coherent.of_unread (hs : s.Coherent) (h : Unread s s')
    (hentries : ∀ {id e}, s'.outbox.get id = some e → e.entryId = id) : s'.Coherent where
  taskKeyed := by rw [h.tasks]; exact hs.taskKeyed
  runKeyed := by rw [h.runs]; exact hs.runKeyed
  counted := by rw [h.runs, h.tasks]; exact hs.counted
  holder := by rw [h.runs, h.tasks]; exact hs.holder
  mutex := by rw [h.runs, h.tasks]; exact hs.mutex
  source := by rw [h.runs, h.tasks]; exact hs.source
  closed := by rw [h.tasks]; exact hs.closed
  entryKeyed := hentries

/-- A queue write moves one run and nothing else. -/
theorem Store.Coherent.of_queue (hs : s.Coherent) {now : Time} {r r' : Run}
    (hget : s.runs.get r.runId = some r) (hmove : Move label now r r')
    (hlive : isLive r'.state = isLive r.state) (htasks : s'.tasks = s.tasks)
    (hruns : s'.runs = s.runs.set r.runId r') (hout : s'.outbox = s.outbox) : s'.Coherent := by
  -- every stored run has a stored predecessor of the same admission and liveness
  have hback : ∀ {id x}, s'.runs.get id = some x →
      ∃ x₀, s.runs.get id = some x₀ ∧ x.frozen = x₀.frozen ∧ isLive x.state = isLive x₀.state := by
    intro id x hx
    rw [hruns, OrderedMap.get_set] at hx
    split_ifs at hx with hid
    · obtain rfl := Option.some.inj hx
      exact ⟨r, hid ▸ hget, hmove.frozen, hlive⟩
    · exact ⟨x, hx, rfl, rfl⟩
  constructor
  · rw [htasks]
    exact hs.taskKeyed
  · intro id x hx
    obtain ⟨x₀, hx₀, hf, -⟩ := hback hx
    rw [runId_of_frozen hf]
    exact hs.runKeyed hx₀
  · intro id x hx
    obtain ⟨x₀, hx₀, hf, -⟩ := hback hx
    rw [htasks, task_of_frozen hf, runId_of_frozen hf]
    exact hs.counted hx₀
  · intro k vt id hvt hid
    rw [htasks] at hvt
    obtain ⟨x₀, hx₀, hl, hk⟩ := hs.holder hvt hid
    rw [hruns, OrderedMap.get_set]
    split_ifs with he
    · subst he
      obtain rfl : r = x₀ := Option.some.inj (hget.symm.trans hx₀)
      exact ⟨r', rfl, hlive.trans hl, by rw [task_of_frozen hmove.frozen]; exact hk⟩
    · exact ⟨x₀, hx₀, hl, hk⟩
  · intro id x vt hx hvt hl
    obtain ⟨x₀, hx₀, hf, hl₀⟩ := hback hx
    rw [htasks, task_of_frozen hf] at hvt
    exact hs.mutex hx₀ hvt (hl₀ ▸ hl)
  · intro id x vt hx hvt
    obtain ⟨x₀, hx₀, hf, -⟩ := hback hx
    rw [htasks, task_of_frozen hf] at hvt
    rw [issue_of_frozen hf]
    exact hs.source hx₀ hvt
  · rw [htasks]
    exact hs.closed
  · rw [hout]
    exact hs.entryKeyed

theorem Store.Coherent.of_decide (hs : s.Coherent) {now : Time}
    {admitted : Option (RequestSource × String)} {overrun : Prop} {subject : Option Run}
    {d : Decision}
    (heffect : Effect label now admitted overrun subject
      ((s.tasks.get (taskKey d.task.task)).map (·.task)) d)
    (hsubject : ∀ r ∈ subject, s.runs.get r.runId = some r ∧ taskKey r.task = taskKey d.task.task)
    (hwritten : Written s s' d) : s'.Coherent := by
  have hwkey : ∀ x ∈ d.writes, taskKey x.task = taskKey d.task.task := by
    intro x hx
    rcases heffect.write_cases hx with ⟨r, hr, hmove⟩ | hminted
    · rw [task_of_frozen hmove.frozen]
      exact (hsubject r hr).2
    · exact hminted.key
  -- the predecessor of a stored run that is not fresh
  have hback : ∀ {id x}, s'.runs.get id = some x →
      (∃ x₀, s.runs.get id = some x₀ ∧ x.frozen = x₀.frozen) ∨
        (x.runId = id ∧ MintedHere ((s.tasks.get (taskKey d.task.task)).map (·.task)) d x) := by
    intro id x hx
    rcases hwritten.get_cases hx with ⟨hmem, hid⟩ | ⟨hsame, -⟩
    · rcases heffect.write_cases hmem with ⟨r, hr, hmove⟩ | hminted
      · refine .inl ⟨r, ?_, hmove.frozen⟩
        rw [← hid, runId_of_frozen hmove.frozen]
        exact (hsubject r hr).1
      · exact .inr ⟨hid, hminted⟩
    · exact .inl ⟨x, hsame, rfl⟩
  constructor
  · intro k vt hvt
    rw [hwritten.get_task] at hvt
    split_ifs at hvt with hk
    · obtain rfl := Option.some.inj hvt
      exact hk.symm
    · exact hs.taskKeyed hvt
  · intro id x hx
    rcases hback hx with ⟨x₀, hx₀, hf⟩ | ⟨hid, -⟩
    · rw [runId_of_frozen hf]
      exact hs.runKeyed hx₀
    · exact hid
  · intro id x hx
    rw [hwritten.get_task]
    rcases hback hx with ⟨x₀, hx₀, hf⟩ | ⟨-, hminted⟩
    · rw [task_of_frozen hf, runId_of_frozen hf]
      obtain ⟨vt, n, hvt, hn, hid⟩ := hs.counted hx₀
      split_ifs with hk
      · rw [hk] at hvt
        have hle := generations_after heffect
        simp only [hvt, Option.map_some, generations, Option.getD_some] at hle
        exact ⟨_, n, rfl, hn.trans_le hle, hid⟩
      · exact ⟨vt, n, hvt, hn, hid⟩
    · rw [if_pos hminted.key, hminted.key]
      have hlater := hminted.later
      refine ⟨_, d.task.runCount - 1, rfl, by dsimp only; omega, ?_⟩
      rw [hminted.runId, Nat.sub_add_cancel (by omega)]
  · intro k vt id hvt hid
    rw [hwritten.get_task] at hvt
    split_ifs at hvt with hk
    · obtain rfl := Option.some.inj hvt
      rw [hk]
      exact holder_after hs rfl heffect hsubject hwritten hid
    · obtain ⟨r, hr, hlive, hkey⟩ := hs.holder hvt hid
      refine ⟨r, ?_, hlive, hkey⟩
      rw [hwritten.get_of_notMem]
      · exact hr
      · intro x hx hxid
        have hfrozen : taskKey x.task = k := by
          rcases heffect.write_cases hx with ⟨q, hq, hmove⟩ | hminted
          · have hget := (hsubject q hq).1
            rw [← runId_of_frozen hmove.frozen, hxid, hr] at hget
            rw [task_of_frozen hmove.frozen, ← Option.some.inj hget, hkey]
          · have hnone := hminted.unstored hs
            rw [hxid, hr] at hnone
            cases hnone
        exact hk (hfrozen.symm.trans (hwkey x hx))
  · intro id x vt hx hvt hlive
    rw [hwritten.get_task] at hvt
    split_ifs at hvt with hk
    · obtain rfl := Option.some.inj hvt
      exact mutex_after hs rfl heffect hsubject hwritten hx hk hlive
    · rcases hwritten.get_cases hx with ⟨hmem, -⟩ | ⟨hsame, -⟩
      · exact absurd (hwkey x hmem) hk
      · exact hs.mutex hsame hvt hlive
  · intro id x vt hx hvt
    rw [hwritten.get_task] at hvt
    split_ifs at hvt with hk
    · obtain rfl := Option.some.inj hvt
      rcases hback hx with ⟨x₀, hx₀, hf⟩ | ⟨-, hminted⟩
      · rw [issue_of_frozen hf]
        obtain ⟨vt, n, hvt, -⟩ := hs.counted hx₀
        have hsource := hs.source hx₀ hvt
        rw [← task_of_frozen hf, hk] at hvt
        have hkept := issue_after heffect
        rw [hvt] at hkept
        exact hsource.kept hkept
      · exact hminted.issue
    · rcases hwritten.get_cases hx with ⟨hmem, -⟩ | ⟨hsame, -⟩
      · exact absurd (hwkey x hmem) hk
      · exact hs.source hsame hvt
  · intro k vt hvt hclosed
    rw [hwritten.get_task] at hvt
    split_ifs at hvt with hk
    · obtain rfl := Option.some.inj hvt
      exact closed_after hs rfl heffect hsubject hclosed
    · exact hs.closed hvt hclosed
  · intro id e he
    rw [hwritten.outbox] at he
    rcases OrderedMap.get_setAll_cases _ _ he with ⟨x, -, hid, rfl⟩ | ⟨hsame, -⟩
    · exact hid
    · exact hs.entryKeyed hsame

/-- Every change keeps the store coherent. -/
theorem Change.coherent (hs : s.Coherent) (h : Change label s s') : s'.Coherent := by
  cases h with
  | aside h =>
    have hentries : ∀ {id e'}, s'.outbox.get id = some e' → e'.entryId = id := by
      intro id e' he'
      obtain ⟨e, he, hmove⟩ := h.entry_back he'
      rw [hmove.about.1]
      exact hs.entryKeyed he
    cases h with
    | quiet h => exact hs.of_unread h hentries
    | outbox h => exact hs.of_unread h hentries
    | queue now r r' hget hmove hlive htasks hruns _ _ hout =>
      exact hs.of_queue hget hmove hlive htasks hruns hout
  | decide now admitted subject d heffect hsubject _ hwritten =>
    exact hs.of_decide heffect hsubject hwritten

end Coherent

/-! ### Calls in flight -/

/-- A task is never forgotten, and its counter never falls. -/
theorem Change.runCount_le {label : Step} {s s' : Store} (h : Change label s s') {k : String}
    {vt : VersionedTask} (hvt : s.tasks.get k = some vt) :
    ∃ vt', s'.tasks.get k = some vt' ∧ vt.task.runCount ≤ vt'.task.runCount := by
  cases h with
  | aside h => exact ⟨vt, by rw [h.tasks]; exact hvt, le_rfl⟩
  | decide now admitted subject d heffect _ _ hwritten =>
    rw [hwritten.get_task]
    split_ifs with hk
    · refine ⟨_, rfl, ?_⟩
      have hle := generations_after heffect
      rw [← hk, hvt] at hle
      exact hle
    · exact ⟨vt, hvt, le_rfl⟩

/-- What an earlier read of a task document is still worth. -/
def Seen (s : Store) (k : String) (vt : VersionedTask) : Prop :=
  taskKey vt.task.task = k ∧ ∃ current, s.tasks.get k = some current ∧
    vt.revision ≤ current.revision ∧ (current.revision = vt.revision → current.task = vt.task)

/-- What the documents a call has read are still worth. -/
def Call.Sound (s : Store) (call : Call) : Prop :=
  match call.phase with
  | .readTask (some vt) => Seen s (taskKey call.taskId) vt
  | .readBoth (some vt) activeRun => Seen s (taskKey call.taskId) vt ∧
    ((∀ current, s.tasks.get (taskKey call.taskId) = some current →
      current.revision = vt.revision →
      (activeRun.filter fun run => isLive run.state) = none → vt.task.activeRunId = none))
  | _ => True

/-- A coherent store, with sound calls. -/
structure World.Coherent (w : World) : Prop where
  store : w.store.Coherent
  calls : ∀ {id call}, w.calls.get id = some call → call.Sound w.store

theorem World.coherent_init : World.init.Coherent := ⟨Store.coherent_empty, nofun⟩

section Calls

variable {label : Step} {s s' : Store}

/-- A task document is replaced only by one with a later revision. -/
theorem Change.task_progress (h : Change label s s') {k : String} {vt : VersionedTask}
    (hvt : s.tasks.get k = some vt) :
    ∃ vt', s'.tasks.get k = some vt' ∧ (vt' = vt ∨ vt.revision < vt'.revision) := by
  cases h with
  | aside h => exact ⟨vt, by rw [h.tasks]; exact hvt, .inl rfl⟩
  | decide now admitted subject d _ _ _ hwritten =>
    rw [hwritten.get_task]
    split_ifs with hk
    · refine ⟨_, rfl, .inr ?_⟩
      rw [← hk, hvt]
      exact Nat.lt_succ_self _
    · exact ⟨vt, hvt, .inl rfl⟩

theorem Change.seen (h : Change label s s') {k : String} {vt : VersionedTask} (hseen : Seen s k vt) :
    Seen s' k vt := by
  obtain ⟨hkey, current, hcurrent, hle, hsame⟩ := hseen
  obtain ⟨current', hcurrent', rfl | hlt⟩ := h.task_progress hcurrent
  · exact ⟨hkey, current', hcurrent', hle, hsame⟩
  · exact ⟨hkey, current', hcurrent', by omega, by omega⟩

theorem Change.sound (h : Change label s s') {call : Call} (hcall : call.Sound s) :
    call.Sound s' := by
  unfold Call.Sound at hcall ⊢
  split
  · rename_i vt hphase
    rw [hphase] at hcall
    exact h.seen hcall
  · rename_i vt activeRun hphase
    rw [hphase] at hcall
    obtain ⟨hseen, hidle⟩ := hcall
    refine ⟨h.seen hseen, fun current' hcurrent' hrevision => ?_⟩
    obtain ⟨-, current, hcurrent, hle, -⟩ := hseen
    obtain ⟨current'', hcurrent'', rfl | hlt⟩ := h.task_progress hcurrent
    · obtain rfl : current'' = current' := Option.some.inj (hcurrent''.symm.trans hcurrent')
      exact hidle current'' hcurrent hrevision
    · obtain rfl : current'' = current' := Option.some.inj (hcurrent''.symm.trans hcurrent')
      omega
  · trivial

theorem TaskOp.decide_none {op : TaskOp} {now : Time} {activeRun : Option Run} {d : Decision} :
    op.decide now none activeRun ≠ .ok d := by
  cases op <;> exact refused_ne_ok

/-- A task call decides about the task it read. -/
theorem TaskOp.decide_task {op : TaskOp} {now : Time} {t : Task} {activeRun : Option Run}
    {d : Decision} (hd : op.decide now (some t) activeRun = .ok d) : d.task.task = t.task := by
  cases op with
  | close =>
    simp only [TaskOp.decide, closeTask, ite_refused_eq_ok] at hd
    obtain ⟨-, -, hd⟩ := hd
    split at hd
    · exact absurd hd refused_ne_ok
    · obtain rfl := Except.ok.inj hd
      rfl
  | updateWork work =>
    simp only [TaskOp.decide, updateTaskWork, ite_refused_eq_ok] at hd
    obtain ⟨-, hd⟩ := hd
    split at hd
    · exact absurd hd refused_ne_ok
    · obtain rfl := Except.ok.inj hd
      rfl
  | refreshIssue issue =>
    simp only [TaskOp.decide, refreshTaskIssue] at hd
    split at hd
    · cases hd
    split at hd
    · obtain rfl := Except.ok.inj hd
      rfl
    · obtain rfl := Except.ok.inj hd
      rfl

/-- The compare-and-set of a sound call commits its decision. -/
theorem finish_committed {call : Call} {id : Nat} {now : Time} {task : Option VersionedTask}
    {activeRun : Option Run} {d : Decision} (hphase : call.phase = .readBoth task activeRun)
    (hcall : call.Sound s) (hd : call.op.decide now (task.map (·.task)) activeRun = .ok d)
    (happly : s.apply d (task.map (·.revision)) = some s') :
    Committed (.resume id now) s s' d := by
  obtain ⟨hrevision, hwritten⟩ := apply_some happly
  cases task with
  | none => exact absurd hd TaskOp.decide_none
  | some vt =>
    simp only [Call.Sound, hphase] at hcall
    obtain ⟨⟨hkey, current, hcurrent, -, hsame⟩, hidle⟩ := hcall
    -- the document decided on is still the stored one
    have hdkey : taskKey d.task.task = taskKey call.taskId := by
      rw [TaskOp.decide_task hd, hkey]
    rw [hdkey, hcurrent] at hrevision
    have hrev : current.revision = vt.revision := Option.some.inj hrevision
    have heffect : Effect (.resume id now) now none ((Step.resume id now).doublesSuccessor s = true)
        none (some vt.task) d :=
      TaskOp.effect (fun hnone t ht => by
        obtain rfl := Option.some.inj ht
        exact hidle current hcurrent hrev hnone) rfl hd none
    refine ⟨now, none, none, ?_, (fun r hr => by cases hr), presents_none rfl, hwritten, rfl⟩
    rw [hdkey, hcurrent, Option.map_some, hsame hrev]
    exact heffect

/-- A resumed call commits a decision, or leaves the store alone. -/
theorem resume_cases {call : Call} (id : Nat) (now : Time) (hcall : call.Sound s) :
    (call.decision s now = none ∧ (call.resume s now).2 = s) ∨
      ∃ d, call.decision s now = some d ∧ Committed (.resume id now) s (call.resume s now).2 d := by
  unfold Call.resume Call.decision
  cases hphase : call.phase with
  | reading => exact .inl ⟨rfl, rfl⟩
  | readTask task => exact .inl ⟨rfl, rfl⟩
  | readBoth task activeRun =>
    dsimp only
    unfold Call.finish
    cases hd : call.op.decide now (task.map (·.task)) activeRun with
    | error stop => exact .inl ⟨rfl, rfl⟩
    | ok d =>
      cases happly : s.apply d (task.map (·.revision)) with
      | none => exact .inl ⟨by simp [happly], by simp only [happly]⟩
      | some s' =>
        refine .inr ⟨d, by simp [happly], ?_⟩
        simp only [happly]
        exact finish_committed hphase hcall hd happly
  | ended => exact .inl ⟨rfl, rfl⟩

/-- The documents a call reads are sound when it reads them. -/
theorem resume_sound {call : Call} {now : Time} (hs : s.Coherent) (hcall : call.Sound s) :
    (call.resume s now).1.Sound (call.resume s now).2 := by
  unfold Call.resume
  split
  · cases hvt : s.tasks.get (taskKey call.taskId) with
    | none => exact trivial
    | some vt => exact ⟨hs.taskKeyed hvt, vt, hvt, le_rfl, fun _ => rfl⟩
  · rename_i task hphase
    cases task with
    | none => exact trivial
    | some vt =>
      simp only [Call.Sound, hphase] at hcall
      refine ⟨hcall, fun current hcurrent hrevision hnone => ?_⟩
      obtain ⟨-, current', hcurrent', -, hsame⟩ := hcall
      obtain rfl : current = current' := Option.some.inj (hcurrent.symm.trans hcurrent')
      rw [← hsame hrevision]
      exact hs.idle hcurrent hnone
  · -- a finished call has ended or starts over
    unfold Call.finish
    split
    · exact trivial
    split
    · exact trivial
    · unfold Call.Sound
      dsimp only
      cases call.retried <;> exact trivial
  · exact hcall

end Calls

/-! ### Runs of the system -/

/-- A step that commits a decision commits it as its effect says. -/
theorem World.Coherent.committed {w : World} (hw : w.Coherent) {label : Step} {d : Decision}
    (h : w.decision label = some d) : Committed label w.store (w.step label).store d := by
  cases label with
  | request now input =>
    rcases request_cases w.store now input with
      ⟨⟨stop, hstop⟩, -⟩ | ⟨requestId, _, d', hok, hrevision, hresolve, hd, hwritten⟩
    · simp [World.decision, hstop, Except.toOption] at h
    · obtain rfl : d' = d := by simpa [World.decision, hok, Except.toOption] using h
      exact request_committed hw.store hrevision hresolve hd hwritten
  | onRun runId now cleanupId op =>
    rcases transactRun_cases w.store runId op.eligibilityPipelines
      (op.shouldReadQueueEligibility now) (decideOnRun op now cleanupId) with
      ⟨⟨stop, hstop⟩, -⟩ | ⟨d', hok, hd, hwritten⟩
    · simp [World.decision, Orchestrator.onRun, hstop, Except.toOption] at h
    · obtain rfl : d' = d := by
        simpa [World.decision, Orchestrator.onRun, hok, Except.toOption] using h
      exact onRun_committed hw.store hd hwritten
  | direct runId now op =>
    rcases transactRun_cases w.store runId op.eligibilityPipelines
      (op.shouldReadQueueEligibility now) (decideDirect op now) with
      ⟨⟨stop, hstop⟩, -⟩ | ⟨d', hok, hd, hwritten⟩
    · simp [World.decision, Orchestrator.direct, hstop, Except.toOption] at h
    · obtain rfl : d' = d := by
        simpa [World.decision, Orchestrator.direct, hok, Except.toOption] using h
      exact direct_committed hw.store hd hwritten
  | resume id now =>
    obtain ⟨call, hcall, hdecision⟩ := Option.bind_eq_some_iff.1 h
    rcases resume_cases id now (hw.calls hcall) with
      ⟨hnone, -⟩ | ⟨d', hd', hcommitted⟩
    · rw [hnone] at hdecision
      cases hdecision
    · obtain rfl : d' = d := Option.some.inj (hd'.symm.trans hdecision)
      simp only [World.step, hcall]
      exact hcommitted
  | _ => cases h

/-- The decision of a request. -/
theorem World.Coherent.request_decided {w : World} (hw : w.Coherent) {now : Time}
    {input : RequestInput} {d : Decision} (h : w.decision (.request now input) = some d) :
    ∃ requestId, decideRequest input now (w.store.requestState input.read requestId) = .ok d ∧
      Effect (.request now input) now (some (input.requestSource.getD .caller, requestId))
        ((Step.request now input).doublesSuccessor w.store = true)
        (w.store.activeRun (w.store.tasks.get (taskKey input.taskId)))
        ((w.store.tasks.get (taskKey input.taskId)).map (·.task)) d := by
  rcases request_cases w.store now input with
    ⟨⟨stop, hstop⟩, -⟩ | ⟨requestId, _, d', hok, -, -, hd, -⟩
  · simp [World.decision, hstop, Except.toOption] at h
  · obtain rfl : d' = d := by simpa [World.decision, hok, Except.toOption] using h
    exact ⟨requestId, hd, (decideRequest_effect (hw.store.lockRead now input requestId) hd).2⟩

/-- The decision of an operation that settles through `transactOnRun`. -/
theorem World.Coherent.onRun_decided {w : World} (hw : w.Coherent) {runId cleanupId : String}
    {now : Time} {op : RunOp} {d : Decision}
    (h : w.decision (.onRun runId now cleanupId op) = some d) :
    ∃ vt r d₀, w.store.runs.get runId = some r ∧ w.store.tasks.get (taskKey r.task) = some vt ∧
      op.decide now vt.task r (w.store.runState runId op.eligibilityPipelines
        (op.shouldReadQueueEligibility now)).queueEligibility = .ok d₀ ∧
      attachCleanup r cleanupId d₀ = .ok d ∧
      Effect (.onRun runId now cleanupId op) now none
        ((Step.onRun runId now cleanupId op).doublesSuccessor w.store = true) (some r)
        (some vt.task) d := by
  rcases transactRun_cases w.store runId op.eligibilityPipelines
    (op.shouldReadQueueEligibility now) (decideOnRun op now cleanupId) with
    ⟨⟨stop, hstop⟩, -⟩ | ⟨d', hok, hd, -⟩
  · simp [World.decision, Orchestrator.onRun, hstop, Except.toOption] at h
  obtain rfl : d' = d := by
    simpa [World.decision, Orchestrator.onRun, hok, Except.toOption] using h
  unfold decideOnRun at hd
  split at hd
  · rename_i vt r htask hrun
    obtain ⟨d₀, hdecide, hattach⟩ := bind_eq_ok.1 hd
    have hget : w.store.runs.get runId = some r := hrun
    have hvt : w.store.tasks.get (taskKey r.task) = some vt := by
      simpa [Store.runState, Store.taskOf, hget] using htask
    have hid : r.runId = runId := hw.store.runKeyed hget
    have heffect : Effect _ now none _ (some r) (some vt.task) d' :=
      op.effect (hw.store.taskKeyed hvt) (hw.store.source hget hvt) hdecide hattach
    refine ⟨vt, r, d₀, hget, hvt, hdecide, hattach, ?_⟩
    simp only [Step.doublesSuccessor, htask, hrun]
    exact hid ▸ heffect
  · exact absurd hd refused_ne_ok

/-- The decision of a plain run transaction. -/
theorem World.Coherent.direct_decided {w : World} (hw : w.Coherent) {runId : String} {now : Time}
    {op : DirectOp} {d : Decision} (h : w.decision (.direct runId now op) = some d) :
    ∃ vt r, w.store.runs.get runId = some r ∧ w.store.tasks.get (taskKey r.task) = some vt ∧
      op.decide now vt.task r (w.store.runState runId op.eligibilityPipelines
        (op.shouldReadQueueEligibility now)).queueEligibility = .ok d ∧
      Effect (.direct runId now op) now none
        ((Step.direct runId now op).doublesSuccessor w.store = true) (some r) (some vt.task) d := by
  rcases transactRun_cases w.store runId op.eligibilityPipelines
    (op.shouldReadQueueEligibility now) (decideDirect op now) with
    ⟨⟨stop, hstop⟩, -⟩ | ⟨d', hok, hd, -⟩
  · simp [World.decision, Orchestrator.direct, hstop, Except.toOption] at h
  obtain rfl : d' = d := by
    simpa [World.decision, Orchestrator.direct, hok, Except.toOption] using h
  unfold decideDirect at hd
  split at hd
  · rename_i vt r htask hrun
    have hget : w.store.runs.get runId = some r := hrun
    have hvt : w.store.tasks.get (taskKey r.task) = some vt := by
      simpa [Store.runState, Store.taskOf, hget] using htask
    have hid : r.runId = runId := hw.store.runKeyed hget
    have heffect : Effect _ now none _ (some r) (some vt.task) d' :=
      op.effect (hw.store.taskKeyed hvt) (hw.store.source hget hvt) hd
    refine ⟨vt, r, hget, hvt, hd, ?_⟩
    simp only [Step.doublesSuccessor, htask, hrun]
    exact hid ▸ heffect
  · exact absurd hd refused_ne_ok

/-- A refused operation leaves the store alone. -/
theorem World.onRun_refused {w : World} {runId cleanupId : String} {now : Time} {op : RunOp}
    (h : w.decision (.onRun runId now cleanupId op) = none) :
    (w.step (.onRun runId now cleanupId op)).store = w.store := by
  rcases transactRun_cases w.store runId op.eligibilityPipelines
    (op.shouldReadQueueEligibility now) (decideOnRun op now cleanupId) with
    ⟨-, hsame⟩ | ⟨d, hok, -⟩
  · exact hsame
  · simp [World.decision, Orchestrator.onRun, hok, Except.toOption] at h

/-- A refused plain transaction leaves the store alone. -/
theorem World.direct_refused {w : World} {runId : String} {now : Time} {op : DirectOp}
    (h : w.decision (.direct runId now op) = none) :
    (w.step (.direct runId now op)).store = w.store := by
  rcases transactRun_cases w.store runId op.eligibilityPipelines
    (op.shouldReadQueueEligibility now) (decideDirect op now) with ⟨-, hsame⟩ | ⟨d, hok, -⟩
  · exact hsame
  · simp [World.decision, Orchestrator.direct, hok, Except.toOption] at h

/-- What a committed decision leaves in the store. -/
theorem World.Coherent.stored {w : World} (hw : w.Coherent) {label : Step} {d : Decision}
    (h : w.decision label = some d) :
    (∀ x ∈ d.writes, (w.step label).store.runs.get x.runId = some x) ∧
      (∀ id, (∀ x ∈ d.writes, x.runId ≠ id) →
        (w.step label).store.runs.get id = w.store.runs.get id) ∧
      (∃ vt, (w.step label).store.tasks.get (taskKey d.task.task) = some vt ∧ vt.task = d.task) ∧
      ∀ k, k ≠ taskKey d.task.task → (w.step label).store.tasks.get k = w.store.tasks.get k := by
  obtain ⟨now, admitted, subject, heffect, hsubject, -, hwritten, -⟩ := hw.committed h
  refine ⟨fun x hx => hwritten.get_of_mem hw.store heffect hsubject hx,
    fun id hid => hwritten.get_of_notMem hid, ⟨_, by rw [hwritten.get_task, if_pos rfl], rfl⟩,
    fun k hk => ?_⟩
  rw [hwritten.get_task, if_neg hk]

/-- A decision leaves every run alone that it was not about. -/
theorem World.Coherent.beside {w : World} (hw : w.Coherent) {label : Step} {d : Decision}
    (h : w.decision label = some d) {id : String} {r : Run} (hr : w.store.runs.get id = some r)
    {later : Time} {admitted : Option (RequestSource × String)} {overrun : Prop}
    {subject : Option Run} (heffect : Effect label later admitted overrun subject
      ((w.store.tasks.get (taskKey d.task.task)).map (·.task)) d)
    (hne : ∀ q ∈ subject, q.runId ≠ id) : (w.step label).store.runs.get id = some r := by
  rw [(hw.stored h).2.1 id, hr]
  intro x hx hxid
  rcases heffect.write_cases hx with ⟨q, hq, hmove⟩ | hminted
  · exact hne q hq ((runId_of_frozen hmove.frozen).symm.trans hxid)
  · have hnone := hminted.unstored hw.store
    rw [hxid, hr] at hnone
    cases hnone

/-- A decision leaves the runs of other tasks alone. -/
theorem World.Coherent.other_task {w : World} (hw : w.Coherent) {label : Step} {d : Decision}
    (h : w.decision label = some d) {id : String} {r : Run} (hr : w.store.runs.get id = some r)
    (hne : taskKey r.task ≠ taskKey d.task.task) : (w.step label).store.runs.get id = some r := by
  obtain ⟨now, admitted, subject, heffect, hsubject, -⟩ := hw.committed h
  refine hw.beside h hr heffect fun q hq hid => hne ?_
  obtain ⟨hget, hkey⟩ := hsubject q hq
  rw [hid, hr] at hget
  rw [Option.some.inj hget, hkey]

/-- What a decision about a run is made before. -/
theorem World.Coherent.effect_before {w : World} (hw : w.Coherent) {label : Step} {later : Time}
    {admitted : Option (RequestSource × String)} {overrun : Prop} {subject : Option Run} {k : String}
    {vt : VersionedTask} {d : Decision} (hvt : w.store.tasks.get k = some vt)
    (heffect : Effect label later admitted overrun subject (some vt.task) d) :
    (w.store.tasks.get (taskKey d.task.task)).map (·.task) = some vt.task := by
  rw [(heffect.taskKey_eq.1 _ rfl).trans (hw.store.taskKeyed hvt), hvt]
  rfl

/-- A transaction on a run leaves the other runs alone. -/
theorem World.Coherent.onRun_beside {w : World} (hw : w.Coherent) {runId cleanupId : String}
    {now : Time} {op : RunOp} {id : String} {r : Run} (hr : w.store.runs.get id = some r)
    (hne : runId ≠ id) : (w.step (.onRun runId now cleanupId op)).store.runs.get id = some r := by
  cases hd : w.decision (.onRun runId now cleanupId op) with
  | none =>
    rw [World.onRun_refused hd]
    exact hr
  | some d =>
    obtain ⟨vt, q, d₀, hq, hvt, -, -, heffect⟩ := hw.onRun_decided hd
    refine hw.beside hd hr ((hw.effect_before hvt heffect).symm ▸ heffect) ?_
    rintro _ ⟨rfl⟩
    rw [hw.store.runKeyed hq]
    exact hne

theorem World.Coherent.direct_beside {w : World} (hw : w.Coherent) {runId : String} {now : Time}
    {op : DirectOp} {id : String} {r : Run} (hr : w.store.runs.get id = some r)
    (hne : runId ≠ id) : (w.step (.direct runId now op)).store.runs.get id = some r := by
  cases hd : w.decision (.direct runId now op) with
  | none =>
    rw [World.direct_refused hd]
    exact hr
  | some d =>
    obtain ⟨vt, q, hq, hvt, -, heffect⟩ := hw.direct_decided hd
    refine hw.beside hd hr ((hw.effect_before hvt heffect).symm ▸ heffect) ?_
    rintro _ ⟨rfl⟩
    rw [hw.store.runKeyed hq]
    exact hne

/-- A step that commits no decision. -/
theorem World.Coherent.undecided {w : World} (hw : w.Coherent) {label : Step}
    (hdecision : w.decision label = none) : Aside label w.store (w.step label).store := by
  cases label with
  | request now input =>
    rcases request_cases w.store now input with ⟨-, hunread, hout⟩ | ⟨_, _, d, hok, -⟩
    · exact .quiet hunread hout
    · simp [World.decision, hok, Except.toOption] at hdecision
  | onRun runId now cleanupId op =>
    rw [World.onRun_refused hdecision]
    exact .quiet ⟨rfl, rfl, rfl, rfl⟩ rfl
  | direct runId now op =>
    rw [World.direct_refused hdecision]
    exact .quiet ⟨rfl, rfl, rfl, rfl⟩ rfl
  | enqueueRun runId now => exact enqueueRun_aside hw.store
  | claimQueuedRun pipelines input => exact claimQueuedRun_aside hw.store
  | releaseQueuedRunClaim => exact releaseQueuedRunClaim_aside hw.store
  | claimPendingOutbox => exact claimPendingOutbox_aside hw.store
  | settleOutbox input => exact settleOutbox_aside
  | wakeOutbox entryId now => exact wakeOutbox_aside
  | call id taskId op => exact .quiet ⟨rfl, rfl, rfl, rfl⟩ rfl
  | resume id now =>
    cases hcall : w.calls.get id with
    | none =>
      simp only [World.step, hcall]
      exact .quiet ⟨rfl, rfl, rfl, rfl⟩ rfl
    | some call =>
      rcases resume_cases id now (hw.calls hcall) with ⟨-, hsame⟩ | ⟨d, hd, -⟩
      · simp only [World.step, hcall, hsame]
        exact .quiet ⟨rfl, rfl, rfl, rfl⟩ rfl
      · simp [World.decision, hcall, hd] at hdecision

/-- Every step of a coherent system is a change of its store. -/
theorem World.Coherent.change {w : World} (hw : w.Coherent) (label : Step) :
    Change label w.store (w.step label).store := by
  cases hdecision : w.decision label with
  | some d => exact (hw.committed hdecision).change
  | none => exact .aside (hw.undecided hdecision)

/-- Every step keeps the system coherent. -/
theorem World.Coherent.step {w : World} (hw : w.Coherent) (label : Step) :
    (w.step label).Coherent := by
  have hchange := hw.change label
  have hkept : ∀ {id call}, w.calls.get id = some call → call.Sound (w.step label).store :=
    fun hcall => hchange.sound (hw.calls hcall)
  refine ⟨hchange.coherent hw.store, ?_⟩
  cases label with
  | call id taskId op =>
    intro id' call' hcall'
    simp only [World.step, OrderedMap.get_set] at hcall'
    split_ifs at hcall' with hid
    · obtain rfl := Option.some.inj hcall'
      exact trivial
    · exact hkept hcall'
  | resume id now =>
    intro id' call' hcall'
    cases hcall : w.calls.get id with
    | none =>
      have hsame : w.step (.resume id now) = w := by simp only [World.step, hcall]
      rw [hsame] at hcall' ⊢
      exact hw.calls hcall'
    | some call =>
      have hnext : w.step (.resume id now) =
          { store := (call.resume w.store now).2
            calls := w.calls.set id (call.resume w.store now).1 } := by
        simp only [World.step, hcall]
      simp only [hnext, OrderedMap.get_set] at hcall'
      split_ifs at hcall' with hid
      · obtain rfl := Option.some.inj hcall'
        rw [hnext]
        exact resume_sound hw.store (hw.calls hcall)
      · exact hkept hcall'
  | _ => exact hkept

theorem World.Coherent.run {w : World} (hw : w.Coherent) (steps : List Step) :
    (w.run steps).Coherent :=
  Machine.invariant_run World.Coherent (fun _ label hw => hw.step label) hw steps

/-- Every reachable system is coherent. -/
theorem World.coherent_run (steps : List Step) : (World.init.run steps).Coherent :=
  World.coherent_init.run steps

/-- What every change of a coherent store preserves holds after every run. -/
theorem World.invariant_run (Inv : Store → Prop) (h0 : Inv .empty)
    (hchange : ∀ {label s s'}, s.Coherent → Change label s s' → Inv s → Inv s')
    (steps : List Step) : Inv (World.init.run steps).store := by
  refine (Machine.invariant_run (fun w : World => w.Coherent ∧ Inv w.store) ?_
    ⟨World.coherent_init, h0⟩ steps).2
  rintro w label ⟨hw, hinv⟩
  exact ⟨hw.step label, hchange hw.store (hw.change label) hinv⟩

/-- The same for runs whose steps all meet a condition. -/
theorem World.invariant_along {C : World → Step → Prop} (Inv : Store → Prop) (h0 : Inv .empty)
    (hchange : ∀ {label s'} {w : World}, w.Coherent → C w label → Change label w.store s' →
      Inv w.store → Inv s')
    {steps : List Step} (h : Machine.Along World.step C World.init steps) :
    Inv (World.init.run steps).store := by
  refine (Machine.Along.invariant (fun w : World => w.Coherent ∧ Inv w.store) ?_
    ⟨World.coherent_init, h0⟩ h).2
  rintro w label ⟨hw, hinv⟩ hc
  exact ⟨hw.step label, hchange hw hc (hw.change label) hinv⟩

/-! ### The lock of a task -/

/-- Two live runs of one task are one run. -/
theorem Store.Coherent.live_unique {s : Store} (hs : s.Coherent) {i j : String} {a b : Run}
    (ha : s.runs.get i = some a) (hb : s.runs.get j = some b)
    (hkey : taskKey a.task = taskKey b.task) (hlive : isLive a.state = true)
    (hlive' : isLive b.state = true) : i = j := by
  obtain ⟨vt, -, hvt, -⟩ := hs.counted ha
  have hlock := hs.mutex ha hvt hlive
  exact Option.some.inj (hlock.symm.trans (hs.mutex hb (hkey ▸ hvt) hlive'))

/-- The lock of a task names exactly its live runs, and there is at most one of them. -/
theorem World.live_run_holds_lock (steps : List Step) :
    let s := (World.init.run steps).store
    (∀ id₁ id₂ r₁ r₂, s.runs.get id₁ = some r₁ → s.runs.get id₂ = some r₂ →
      taskKey r₁.task = taskKey r₂.task → isLive r₁.state = true → isLive r₂.state = true →
      id₁ = id₂ ∧ r₁ = r₂) ∧
    ∀ k id, (∃ vt, s.tasks.get k = some vt ∧ vt.task.activeRunId = some id) ↔
      ∃ r, s.runs.get id = some r ∧ taskKey r.task = k ∧ isLive r.state = true := by
  intro s
  have hs : s.Coherent := (World.coherent_run steps).store
  constructor
  · intro id₁ id₂ r₁ r₂ hr₁ hr₂ hkey hlive₁ hlive₂
    obtain rfl := hs.live_unique hr₁ hr₂ hkey hlive₁ hlive₂
    exact ⟨rfl, Option.some.inj (hr₁.symm.trans hr₂)⟩
  · intro k id
    constructor
    · rintro ⟨vt, hvt, hlock⟩
      obtain ⟨r, hr, hlive, hkey⟩ := hs.holder hvt hlock
      exact ⟨r, hr, hkey, hlive⟩
    · rintro ⟨r, hr, rfl, hlive⟩
      obtain ⟨vt, -, hvt, -⟩ := hs.counted hr
      exact ⟨vt, hvt, hs.mutex hr hvt hlive⟩

end AgentLcars
