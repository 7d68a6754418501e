import AgentLcars.Requests

/-!
# The delivery a task waits for

A run that settles with a delivery leaves a copy of it on the task.  The two copies are written by
different decisions, and only the one of the task knows which run corrects the delivery.  They agree
because a settled run is not written again, except together with its task.

* `Deliveries` is the invariant: the delivery of a task is that of a run that finished well.
* `Corrections` is the invariant of the corrections: each is of a delivery marked as corrected.
* `World.deliveries_agree` is the result.
-/

namespace AgentLcars

/-! ### The delivery of a settled run -/

/-- Two copies of a delivery that may differ only in the run that corrects it. -/
def SameBinding (own binding : DeliveryBinding) : Prop :=
  { own with correctionRunId := binding.correctionRunId } = binding

theorem SameBinding.refl (b : DeliveryBinding) : SameBinding b b := rfl

theorem SameBinding.trans {a b c : DeliveryBinding} (hab : SameBinding a b)
    (hbc : SameBinding b c) : SameBinding a c := by
  unfold SameBinding at *
  rw [← hbc, ← hab]

theorem SameBinding.state {a b : DeliveryBinding} (h : SameBinding a b) : b.state = a.state := by
  rw [← h]

/-- The delivery of the task `k` is that of the run, which finished well. -/
structure BoundBy (k : String) (b : DeliveryBinding) (r : Run) : Prop where
  runId : r.runId = b.runId
  task : taskKey r.task = k
  state : r.state = .finished
  ok : r.result.any (·.ok) = true
  delivery : ∃ own ∈ r.delivery, SameBinding own b

/-- The task `k` waits for the delivery of the run `id`. -/
def Awaits (s : Store) (k id : String) : Prop :=
  ∃ vt b, s.tasks.get k = some vt ∧ b ∈ vt.task.delivery ∧ b.runId = id ∧ b.state = .waiting

/-- What a step leaves of a settled run: its delivery moves only together with the copy on a task
that waits for it. -/
structure Rests (s s' : Store) (x x' : Run) : Prop where
  frozen : x'.frozen = x.frozen
  state : x'.state = x.state
  result : x'.result = x.result
  delivery : x'.delivery = x.delivery ∨ (Awaits s (taskKey x.task) x.runId ∧
    ∀ vt, s'.tasks.get (taskKey x.task) = some vt → vt.task.delivery = x'.delivery)

section Settled

variable {label : Step} {now : Time} {s s' : Store}

theorem Move.rests {x x' : Run} (h : Move label now x x') (hx : isLive x.state = false)
    (hdelivery : x'.delivery = x.delivery) : Rests s s' x x' :=
  ⟨h.frozen, (h.terminal hx).1, (h.terminal hx).2, .inl hdelivery⟩

theorem Aside.rests (h : Aside label s s') {id : String} {x : Run}
    (hx : s.runs.get id = some x) (hdead : isLive x.state = false) :
    ∃ x', s'.runs.get id = some x' ∧ Rests s s' x x' := by
  have hsame : Rests s s' x x := ⟨rfl, rfl, rfl, .inl rfl⟩
  cases h with
  | quiet h => exact ⟨x, h.runs ▸ hx, hsame⟩
  | outbox h => exact ⟨x, h.runs ▸ hx, hsame⟩
  | queue now r r' hget hmove _ _ hruns _ _ _ hdelivery =>
    rw [hruns, OrderedMap.get_set]
    split_ifs with hid
    · rw [hid, hget] at hx
      obtain rfl := Option.some.inj hx
      exact ⟨r', rfl, hmove.rests hdead hdelivery⟩
    · exact ⟨x, hx, hsame⟩

/-- What a decision does to a settled run it writes. -/
theorem Effect.rests {admitted : Option (RequestSource × String)} {overrun : Prop}
    {subject : Option Run} {before : Option Task} {d : Decision}
    (h : Effect label now admitted overrun subject before d)
    (hbefore : (s.tasks.get (taskKey d.task.task)).map (·.task) = before)
    (hnew : ∀ m, MintedHere before d m → s.runs.get m.runId = none)
    (hafter : ∀ vt, s'.tasks.get (taskKey d.task.task) = some vt → vt.task = d.task)
    {x x' : Run} (hx : s.runs.get x'.runId = some x) (hsubject : ∀ r ∈ subject, r.runId = x'.runId →
      r = x ∧ taskKey x.task = taskKey d.task.task)
    (hx' : x' ∈ d.writes) (hdead : isLive x.state = false) : Rests s s' x x' := by
  cases h with
  | touch => cases hx'
  | @rewrite t t' r r' outbox hmove _ h =>
    obtain rfl : x' = r' := by simpa [Decision.writes] using hx'
    obtain ⟨rfl, hkey⟩ := hsubject r rfl (runId_of_frozen hmove.frozen).symm
    rcases h.delivery with ⟨-, hsame⟩ | ⟨b, hb, hrun, hwaiting, -, -, hmoved, -⟩
    · exact hmove.rests hdead (hsame hdead)
    · obtain ⟨vt, hvt, rfl⟩ := Option.map_eq_some_iff.1 hbefore
      refine ⟨hmove.frozen, (hmove.terminal hdead).1, (hmove.terminal hdead).2,
        .inr ⟨⟨vt, b, hkey ▸ hvt, hb, hrun, hwaiting⟩, fun vt' hvt' => ?_⟩⟩
      rw [hafter vt' (hkey ▸ hvt'), ← hmoved]
  | @settle t t' r r' outbox hmove hr =>
    obtain rfl : x' = r' := by simpa [Decision.writes] using hx'
    obtain ⟨rfl, -⟩ := hsubject r rfl (runId_of_frozen hmove.frozen).symm
    cases hdead.symm.trans hr
  | mint old dropped m hwrites hmove _ _ _ hminted _ horigin _ _ hdispatch =>
    rcases (hwrites x').1 hx' with ⟨r, hold⟩ | rfl
    swap
    · cases (hnew x' (hminted.here hdispatch)).symm.trans hx
    obtain ⟨hr, hmoved, -⟩ := hmove r x' hold
    obtain ⟨rfl, -⟩ := hsubject r hr (runId_of_frozen hmoved.frozen).symm
    -- only a correction is made beside a run that was settled before
    have hlive : isLive r.state = true → Rests s s' r x' := fun hr => by
      cases hdead.symm.trans hr
    cases horigin with
    | request _ _ _ _ _ _ hcanceled => exact hlive (hcanceled r x' hold)
    | fallback q q' hqq hq =>
      obtain ⟨rfl, rfl⟩ := Prod.mk.inj (Option.some.inj (hold.symm.trans hqq))
      exact hlive hq
    | correction q t b hqq =>
      obtain ⟨rfl, rfl⟩ := Prod.mk.inj (Option.some.inj (hold.symm.trans hqq))
      exact ⟨rfl, rfl, rfl, .inl rfl⟩
    | retry q q' t hqq hq =>
      obtain ⟨rfl, rfl⟩ := Prod.mk.inj (Option.some.inj (hold.symm.trans hqq))
      exact hlive hq
    | supersede q q' t D hqq hq =>
      obtain ⟨rfl, rfl⟩ := Prod.mk.inj (Option.some.inj (hold.symm.trans hqq))
      exact hlive hq

/-- A settled run stays as it is, but for a delivery that moves together with its task. -/
theorem Change.rests (hs : s.Coherent) (h : Change label s s') {id : String} {x : Run}
    (hx : s.runs.get id = some x) (hdead : isLive x.state = false) :
    ∃ x', s'.runs.get id = some x' ∧ Rests s s' x x' := by
  cases h with
  | aside h => exact h.rests hx hdead
  | decide now admitted subject d heffect hsubject _ hwritten =>
    by_cases hid : ∃ y ∈ d.writes, y.runId = id
    · obtain ⟨y, hy, rfl⟩ := hid
      refine ⟨y, hwritten.get_of_mem hs heffect hsubject hy,
        heffect.rests rfl (fun m hm => hm.unstored hs) (fun vt hvt => ?_) hx (fun r hr hrid => ?_)
          hy hdead⟩
      · rw [hwritten.get_task, if_pos rfl] at hvt
        rw [← Option.some.inj hvt]
      · obtain ⟨hget, hkey⟩ := hsubject r hr
        rw [hrid, hx] at hget
        obtain rfl := Option.some.inj hget
        exact ⟨rfl, hkey⟩
    · refine ⟨x, ?_, rfl, rfl, rfl, .inl rfl⟩
      rw [hwritten.get_of_notMem fun y hy hyid => hid ⟨y, hy, hyid⟩]
      exact hx

end Settled

/-! ### Where the delivery of a task comes from -/

/-- The delivery of the task `k` after a step: the copy it had before, one that was moved together
with that of the run, or that of a run which settles in this step. -/
inductive Descends (s s' : Store) (k : String) (b' : DeliveryBinding) : Prop where
  | kept (vt : VersionedTask) (b : DeliveryBinding) (hvt : s.tasks.get k = some vt)
      (hb : b ∈ vt.task.delivery) (hrun : b.runId = b'.runId) (hsame : SameBinding b b') :
      Descends s s' k b'
  | moved (vt : VersionedTask) (b : DeliveryBinding) (hvt : s.tasks.get k = some vt)
      (hb : b ∈ vt.task.delivery) (hrun : b.runId = b'.runId)
      (hown : ∀ x', s'.runs.get b'.runId = some x' → b' ∈ x'.delivery) : Descends s s' k b'
  | settled (r' : Run) (hr' : s'.runs.get b'.runId = some r') (hbound : BoundBy k b' r') :
      Descends s s' k b'

section Origin

variable {label : Step} {now : Time} {s s' : Store}

theorem Effect.descends {admitted : Option (RequestSource × String)} {overrun : Prop}
    {subject : Option Run} {before : Option Task} {d : Decision}
    (h : Effect label now admitted overrun subject before d)
    (hbefore : (s.tasks.get (taskKey d.task.task)).map (·.task) = before)
    (hown : ∀ r ∈ subject, OwnDelivery r ∧ taskKey r.task = taskKey d.task.task)
    (hstored : ∀ x ∈ d.writes, s'.runs.get x.runId = some x) {b' : DeliveryBinding}
    (hb' : b' ∈ d.task.delivery) : Descends s s' (taskKey d.task.task) b' := by
  have hsame : d.task.delivery = before.bind (·.delivery) →
      Descends s s' (taskKey d.task.task) b' := by
    intro heq
    rw [heq] at hb'
    obtain ⟨t, ht, hb⟩ := Option.bind_eq_some_iff.1 hb'
    obtain ⟨vt, hvt, rfl⟩ := Option.map_eq_some_iff.1 (hbefore.trans ht)
    exact .kept vt b' hvt hb rfl (.refl b')
  cases h with
  | touch h => exact hsame h.delivery
  | @rewrite t t' r r' outbox hmove _ h =>
    rcases h.delivery with ⟨heq, -⟩ | ⟨b, hb, hrun, -, -, -, hmoved, hkept⟩
    · exact hsame heq
    · obtain ⟨vt, hvt, rfl⟩ := Option.map_eq_some_iff.1 hbefore
      have hid : b'.runId = b.runId := (hkept b' hb').1
      refine .moved vt b hvt hb hid.symm fun x' hx' => ?_
      have hr' : s'.runs.get b'.runId = some r' := by
        rw [hid, hrun, ← runId_of_frozen hmove.frozen]
        exact hstored r' (by simp [Decision.writes])
      obtain rfl := Option.some.inj (hr'.symm.trans hx')
      exact hmoved ▸ hb'
  | @settle t t' r r' outbox hmove hr _ h =>
    rcases h.delivery with heq | ⟨heq, -, hstate, hok⟩
    · exact hsame heq
    · have hb : b' ∈ r'.delivery := heq ▸ hb'
      obtain ⟨hdelivery, hkey⟩ := hown r rfl
      have hid : b'.runId = r'.runId := hmove.ownDelivery hdelivery b' hb
      refine .settled r' (hid ▸ hstored r' (by simp [Decision.writes]))
        ⟨hid.symm, ?_, hstate, hok, b', hb, .refl b'⟩
      rw [task_of_frozen hmove.frozen, hkey]
  | mint old dropped m _ _ _ _ _ _ _ horigin =>
    cases horigin with
    | request _ _ _ _ hdelivery => exact hsame hdelivery
    | fallback _ _ _ _ _ _ _ _ _ hdelivery => exact hsame hdelivery
    | correction r t b _ _ ht hb _ _ _ _ _ _ _ hdelivery =>
      rw [hdelivery] at hb'
      obtain rfl := Option.some.inj hb'
      obtain ⟨vt, hvt, rfl⟩ := Option.map_eq_some_iff.1 (hbefore.trans ht)
      exact .kept vt b hvt hb rfl rfl
    | retry _ _ t _ _ ht _ _ _ _ hdelivery =>
      subst ht
      exact hsame hdelivery
    | supersede _ _ t _ _ _ ht _ _ _ _ _ _ _ _ _ hdelivery =>
      subst ht
      exact hsame hdelivery

theorem Change.descends (hs : s.Coherent) (h : Change label s s')
    (hown : ∀ id r, s.runs.get id = some r → OwnDelivery r) {k : String} {vt : VersionedTask}
    (hvt : s'.tasks.get k = some vt) {b' : DeliveryBinding} (hb' : b' ∈ vt.task.delivery) :
    Descends s s' k b' := by
  cases h with
  | aside h =>
    rw [h.tasks] at hvt
    exact .kept vt b' hvt hb' rfl (.refl b')
  | decide now admitted subject d heffect hsubject _ hwritten =>
    rw [hwritten.get_task] at hvt
    split_ifs at hvt with hk
    · obtain rfl := Option.some.inj hvt
      rw [hk]
      exact heffect.descends rfl
        (fun r hr => ⟨hown r.runId r (hsubject r hr).1, (hsubject r hr).2⟩)
        (fun x hx => hwritten.get_of_mem hs heffect hsubject hx) hb'
    · exact .kept vt b' hvt hb' rfl (.refl b')

end Origin

/-! ### The two copies agree -/

/-- The delivery of every task is that of a run of its own that finished well. -/
structure Deliveries (s : Store) : Prop where
  own : ∀ id r, s.runs.get id = some r → OwnDelivery r
  bound : ∀ {k vt b}, s.tasks.get k = some vt → b ∈ vt.task.delivery →
    ∃ r, s.runs.get b.runId = some r ∧ BoundBy k b r

section Agreement

variable {label : Step} {s s' : Store}

theorem deliveries_empty : Deliveries .empty where
  own := by
    intro id r h
    cases h
  bound := by
    intro k vt b h
    cases h

/-- The run whose delivery the task had, after the step. -/
theorem Deliveries.rests (hs : s.Coherent) (hinv : Deliveries s) (h : Change label s s')
    {k : String} {vt : VersionedTask} {b : DeliveryBinding} (hvt : s.tasks.get k = some vt)
    (hb : b ∈ vt.task.delivery) :
    ∃ x x', BoundBy k b x ∧ s'.runs.get b.runId = some x' ∧ Rests s s' x x' := by
  obtain ⟨x, hx, hbound⟩ := hinv.bound hvt hb
  obtain ⟨x', hx', hrests⟩ := h.rests hs hx (by rw [hbound.state]; rfl)
  exact ⟨x, x', hbound, hx', hrests⟩

theorem Change.deliveries (hs : s.Coherent) (h : Change label s s') (hinv : Deliveries s) :
    Deliveries s' := by
  refine ⟨h.ownDelivery hs hinv.own, fun {k vt' b'} hvt' hb' => ?_⟩
  -- the run stays bound by whatever copy it has afterwards
  have hstays : ∀ {x x' : Run} {b : DeliveryBinding}, BoundBy k b x → b.runId = b'.runId →
      Rests s s' x x' → (∃ own ∈ x'.delivery, SameBinding own b') → BoundBy k b' x' := by
    intro x x' b hbound hrun hrests hown
    refine ⟨?_, ?_, hrests.state.trans hbound.state, ?_, hown⟩
    · rw [runId_of_frozen hrests.frozen, hbound.runId, hrun]
    · rw [task_of_frozen hrests.frozen, hbound.task]
    · rw [hrests.result]
      exact hbound.ok
  cases h.descends hs hinv.own hvt' hb' with
  | kept vt b hvt hb hrun hsame =>
    obtain ⟨x, x', hbound, hx', hrests⟩ := hinv.rests hs h hvt hb
    refine ⟨x', hrun ▸ hx', hstays hbound hrun hrests ?_⟩
    rcases hrests.delivery with heq | ⟨-, hcopy⟩
    · obtain ⟨own, hown, hb⟩ := hbound.delivery
      exact ⟨own, heq ▸ hown, hb.trans hsame⟩
    · rw [hbound.task] at hcopy
      exact ⟨b', hcopy vt' hvt' ▸ hb', .refl b'⟩
  | moved vt b hvt hb hrun hown =>
    obtain ⟨x, x', hbound, hx', hrests⟩ := hinv.rests hs h hvt hb
    rw [hrun] at hx'
    exact ⟨x', hx', hstays hbound hrun hrests ⟨b', hown x' hx', .refl b'⟩⟩
  | settled r' hr' hbound => exact ⟨r', hr', hbound⟩

end Agreement

/-! ### A delivery that was waited for -/

section Final

variable {label : Step} {s s' : Store} {k id : String}

/-- A settled run that the task does not wait for is not waited for again. -/
theorem Change.awaits (hs : s.Coherent) (h : Change label s s')
    (hown : ∀ id r, s.runs.get id = some r → OwnDelivery r) {x : Run}
    (hx : s.runs.get id = some x) (hdead : isLive x.state = false) (hnot : ¬Awaits s k id) :
    ¬Awaits s' k id := by
  rintro ⟨vt', b', hvt', hb', rfl, hwaiting⟩
  rcases h.delivery_from hs hown hvt' hb' with ⟨vt, b, hvt, hb, hout⟩ | ⟨r, hr, -, hlive, -⟩
  · exact hnot ⟨vt, b, hvt, hb, hout.runId.symm, hout.waiting hwaiting⟩
  · obtain rfl := Option.some.inj (hr.symm.trans hx)
    cases hdead.symm.trans hlive

/-- A settled run whose delivery waits for nothing. -/
def AtRest (s : Store) (id : String) : Prop :=
  ∃ x, s.runs.get id = some x ∧ isLive x.state = false ∧
    ∀ own ∈ x.delivery, own.state ≠ .waiting

/-- The run's own copy does not come to wait again either. -/
theorem Change.atRest (hs : s.Coherent) (h : Change label s s') (hinv : Deliveries s)
    (hrest : AtRest s id) : AtRest s' id := by
  obtain ⟨x, hx, hdead, hnot⟩ := hrest
  obtain ⟨x', hx', hrests⟩ := h.rests hs hx hdead
  refine ⟨x', hx', by rw [hrests.state]; exact hdead, ?_⟩
  rcases hrests.delivery with heq | ⟨⟨vt, b, hvt, hb, hrun, hwaiting⟩, -⟩
  · rw [heq]
    exact hnot
  · -- the task waits for the run only while its own copy does
    obtain ⟨r, hr, hbound⟩ := hinv.bound hvt hb
    rw [hrun, hs.runKeyed hx, hx] at hr
    obtain rfl := Option.some.inj hr
    obtain ⟨own, hown, hsame⟩ := hbound.delivery
    exact absurd (hsame.state.symm.trans hwaiting) (hnot own hown)

end Final

theorem World.deliveries_run (steps : List Step) : Deliveries (World.init.run steps).store :=
  World.invariant_run Deliveries deliveries_empty (fun hs h hinv => h.deliveries hs hinv) steps

/-- What holds of a store and is kept by every change holds after every further run. -/
theorem World.Coherent.kept_run {w : World} (hw : w.Coherent) (hdeliveries : Deliveries w.store)
    (P : Store → Prop) (hP : P w.store)
    (hchange : ∀ {label s s'}, s.Coherent → Deliveries s → Change label s s' → P s → P s')
    (steps : List Step) : P (w.run steps).store := by
  have hall : (w.run steps).Coherent ∧ Deliveries (w.run steps).store ∧ P (w.run steps).store := by
    refine Machine.invariant_run
      (fun v : World => v.Coherent ∧ Deliveries v.store ∧ P v.store) ?_ ⟨hw, hdeliveries, hP⟩ steps
    rintro v label ⟨hv, hinv, h⟩
    have hstep := hv.change label
    exact ⟨hv.step label, hstep.deliveries hv.store hinv, hchange hv.store hinv hstep h⟩
  exact hall.2.2

/-! ### Corrections -/

/-- A run that corrects the delivery of another one, which is marked as corrected. -/
structure CorrectionOf (s : Store) (x y : Run) : Prop where
  requestId : x.requestId = "delivery:" ++ y.runId
  stored : s.runs.get y.runId = some y
  settled : isLive y.state = false
  task : taskKey y.task = taskKey x.task
  marked : ∀ vt, s.tasks.get (taskKey x.task) = some vt → ∀ b ∈ vt.task.delivery,
    b.runId = y.runId → b.correctionRunId ≠ none

/-- Every correction is of a delivery, and no delivery has two. -/
structure Corrections (s : Store) : Prop where
  own : ∀ id r, s.runs.get id = some r → OwnDelivery r
  corrects : ∀ {id x}, s.runs.get id = some x → x.requestSource = .deliveryCorrection →
    ∃ y, CorrectionOf s x y
  once : ∀ {i j x y}, s.runs.get i = some x → s.runs.get j = some y →
    x.requestSource = .deliveryCorrection → y.requestSource = .deliveryCorrection →
    x.requestId = y.requestId → i = j

section Corrections

variable {label : Step} {s s' : Store}

theorem corrections_empty : Corrections .empty where
  own := by
    intro id r h
    cases h
  corrects := by
    intro id x h
    cases h
  once := by
    intro i j x y h
    cases h

/-- A correction stays one, and its delivery stays marked. -/
theorem CorrectionOf.kept (hs : s.Coherent) (h : Change label s s')
    (hown : ∀ id r, s.runs.get id = some r → OwnDelivery r) {x x' y : Run}
    (hc : CorrectionOf s x y) (hfrozen : x'.frozen = x.frozen) : ∃ y', CorrectionOf s' x' y' := by
  obtain ⟨y', hy', hrests⟩ := h.rests hs hc.stored hc.settled
  have hid : y'.runId = y.runId := runId_of_frozen hrests.frozen
  refine ⟨y', ?_, hid ▸ hy', by rw [hrests.state]; exact hc.settled, ?_, ?_⟩
  · rw [requestId_of_frozen hfrozen, hc.requestId, hid]
  · rw [task_of_frozen hrests.frozen, task_of_frozen hfrozen, hc.task]
  · intro vt' hvt' b' hb' hrun hnone
    rw [task_of_frozen hfrozen] at hvt'
    rcases h.delivery_from hs hown hvt' hb' with ⟨vt, b, hvt, hb, hout⟩ | ⟨r, hr, -, hlive, -⟩
    · exact hc.marked vt hvt b hb (hout.runId.symm.trans (hrun.trans hid)) (hout.uncorrected hnone)
    · rw [hrun, hid, hc.stored] at hr
      obtain rfl := Option.some.inj hr
      cases hc.settled.symm.trans hlive

/-- A correction is minted for a delivery that was not marked before, and marks it. -/
theorem Change.new_correction (hs : s.Coherent) (h : Change label s s')
    (hlabel : label.requestSource ≠ some .deliveryCorrection) {id : String} {x : Run}
    (hx : s'.runs.get id = some x) (hnone : s.runs.get id = none)
    (hsource : x.requestSource = .deliveryCorrection) :
    ∃ r vt b, s.runs.get r.runId = some r ∧ s.tasks.get (taskKey r.task) = some vt ∧
      b ∈ vt.task.delivery ∧ b.runId = r.runId ∧ b.correctionRunId = none ∧
      CorrectionOf s' x r := by
  cases h with
  | aside h =>
    obtain ⟨now, r, hr, -⟩ := h.run_back hx
    cases hnone.symm.trans hr
  | decide now admitted subject d heffect hsubject hadmits hwritten =>
    rcases hwritten.get_cases hx with ⟨hmem, rfl⟩ | ⟨hsame, -⟩
    swap
    · cases hnone.symm.trans hsame
    obtain ⟨old, hold, hkey, horigin⟩ :=
      heffect.origin (fun r hr => (hsubject r hr).1) hmem hnone
    cases horigin with
    | request hadmitted =>
      rw [hsource] at hadmitted
      exact absurd (hadmits.admits _ _ hadmitted).presented hlabel
    | correction r t b hrr hdead ht hb hrun hnew _ hid _ _ _ hdelivery =>
      obtain ⟨hr, -, -, hwrite⟩ := hold r r hrr
      obtain ⟨hget, hrk⟩ := hsubject r hr
      obtain ⟨vt, hvt, rfl⟩ := Option.map_eq_some_iff.1 ht
      refine ⟨r, vt, b, hget, hrk ▸ hvt, hb, hrun, hnew, hid,
        hwritten.get_of_mem hs heffect hsubject hwrite, hdead, hrk.trans hkey, ?_⟩
      intro vt' hvt' b' hb' _ hunmarked
      rw [← hkey, hwritten.get_task, if_pos rfl] at hvt'
      obtain rfl := Option.some.inj hvt'
      rw [hdelivery] at hb'
      obtain rfl := Option.some.inj hb'
      cases hunmarked
    | fallback _ _ _ _ hother => cases hsource.symm.trans hother
    | retry _ _ _ _ _ _ hother => cases hsource.symm.trans hother
    | supersede _ _ _ _ _ _ _ _ _ _ hother => cases hsource.symm.trans hother

/-- A step mints one run. -/
theorem Change.new_unique (h : Change label s s') {i j : String} {x y : Run}
    (hx : s'.runs.get i = some x) (hy : s'.runs.get j = some y) (hi : s.runs.get i = none)
    (hj : s.runs.get j = none) : i = j := by
  cases h with
  | aside h =>
    obtain ⟨now, r, hr, -⟩ := h.run_back hx
    cases hi.symm.trans hr
  | decide now admitted subject d heffect hsubject _ hwritten =>
    have hminted : ∀ {id : String} {z : Run}, s'.runs.get id = some z → s.runs.get id = none →
        id = runIdOf (taskKey d.task.task) d.task.runCount := by
      intro id z hz hnone
      rcases hwritten.run_cases heffect hsubject hz with ⟨_, r, hr, -⟩ | ⟨-, rfl, hminted⟩
      · cases hnone.symm.trans hr
      · exact hminted.runId
    rw [hminted hx hi, hminted hy hj]

theorem Change.corrections (hs : s.Coherent) (h : Change label s s')
    (hlabel : label.requestSource ≠ some .deliveryCorrection) (hinv : Corrections s) :
    Corrections s' := by
  have hback : ∀ {id : String} {x' : Run}, s'.runs.get id = some x' →
      (∃ x, s.runs.get id = some x ∧ x'.frozen = x.frozen) ∨ s.runs.get id = none := by
    intro id x' hx'
    rcases h.run_cases hs hx' with ⟨now, x, hx, hmove⟩ | ⟨hnone, -⟩
    · exact .inl ⟨x, hx, hmove.frozen⟩
    · exact .inr hnone
  -- the delivery of a stored correction is marked, so it gets no second one
  have hsecond : ∀ {i j : String} {x y x' : Run}, s'.runs.get i = some x' → s.runs.get i = none →
      s.runs.get j = some y → x'.requestSource = .deliveryCorrection →
      y.requestSource = .deliveryCorrection → x'.requestId ≠ y.requestId := by
    intro i j x y x' hx' hnone hy hx's hys hid
    obtain ⟨r, vt, b, hr, hvt, hb, hrun, hunmarked, hnew⟩ :=
      h.new_correction hs hlabel hx' hnone hx's
    obtain ⟨z, hz⟩ := hinv.corrects hy hys
    have hzr : z.runId = r.runId := by
      refine (String.append_right_inj "delivery:").1 ?_
      rw [← hz.requestId, ← hid, hnew.requestId]
    have hstored := hz.stored
    rw [hzr, hr] at hstored
    obtain rfl := Option.some.inj hstored
    exact hz.marked vt (hz.task ▸ hvt) b hb hrun hunmarked
  refine ⟨h.ownDelivery hs hinv.own, fun {id x'} hx' hsource => ?_,
    fun {i j x' y'} hx' hy' hx's hy's hid => ?_⟩
  · rcases hback hx' with ⟨x, hx, hfrozen⟩ | hnone
    · obtain ⟨y, hy⟩ := hinv.corrects hx ((requestSource_of_frozen hfrozen).symm.trans hsource)
      exact hy.kept hs h hinv.own hfrozen
    · obtain ⟨r, -, -, -, -, -, -, -, hnew⟩ := h.new_correction hs hlabel hx' hnone hsource
      exact ⟨r, hnew⟩
  · rcases hback hx' with ⟨x, hx, hxf⟩ | hi <;> rcases hback hy' with ⟨y, hy, hyf⟩ | hj
    · refine hinv.once hx hy ?_ ?_ ?_
      · rw [← requestSource_of_frozen hxf, hx's]
      · rw [← requestSource_of_frozen hyf, hy's]
      · rw [← requestId_of_frozen hxf, ← requestId_of_frozen hyf, hid]
    · refine absurd (hid.symm.trans (requestId_of_frozen hxf)) (hsecond (x := x) hy' hj hx hy's ?_)
      rw [← requestSource_of_frozen hxf, hx's]
    · refine absurd (hid.trans (requestId_of_frozen hyf)) (hsecond (x := y) hx' hi hy hx's ?_)
      rw [← requestSource_of_frozen hyf, hy's]
    · exact h.new_unique hx' hy' hi hj

end Corrections

/-! ### Requests beside a waiting delivery -/

/-- A request that mints while a delivery waits is a reply, or an internal successor of the run
whose delivery it is. -/
theorem request_beside_delivery {s : Store} {now : Time} {input : RequestInput} (hs : s.Coherent)
    {d : Decision} {m : Run} {vt : VersionedTask} {b : DeliveryBinding}
    (hd : (Orchestrator.request s now input).1 = .ok d) (hm : m ∈ d.writes)
    (hnew : s.runs.get m.runId = none) (hvt : s.tasks.get (taskKey input.taskId) = some vt)
    (hb : b ∈ vt.task.delivery) (hwaiting : b.state = .waiting) :
    isReply m.params = true ∨ (m.requestSource ≠ .caller ∧
      m.params.bind (·.lookup "deliveryPredecessor") = some b.runId) := by
  rcases request_cases s now input with ⟨⟨stop, hstop⟩, -⟩ |
    ⟨requestId, next, d', hd', hrevision, hresolve, hdecide, hwritten⟩
  · cases hstop.symm.trans hd
  obtain rfl : d' = d := Except.ok.inj (hd'.symm.trans hd)
  obtain ⟨now', admitted, subject, heffect, hsubject, hadmits, -, -⟩ :=
    request_committed hs hrevision hresolve hdecide hwritten
  obtain ⟨old, -, hkey, horigin⟩ := heffect.origin (fun r hr => (hsubject r hr).1) hm hnew
  have hasked : Option.isSome admitted = true := hadmits.asked rfl
  cases horigin with
  | request hadmitted _ _ _ hdelivery hasks =>
    have hrequested : taskKey input.taskId = taskKey d'.task.task :=
      Option.some.inj (hadmits.admits _ _ hadmitted).requested
    have hbinding : d'.task.delivery = some b := by
      rw [hdelivery, ← hrequested, hvt]
      exact hb
    have hcarries := hasks.carries (by simp [deliveryWaiting, hbinding, hwaiting])
    simpa [succeedsDelivery, hbinding] using hcarries
  | _ => simp [*] at hasked

/-! ### Whole histories -/

/-- The binding of every task after the steps, and what becomes of it. -/
structure DeliveriesAgree (steps : List Step) : Prop where
  /-- It is that of a run of the task that finished well. -/
  bound : ∀ k vt b, (World.init.run steps).store.tasks.get k = some vt → b ∈ vt.task.delivery →
    ∃ r, (World.init.run steps).store.runs.get b.runId = some r ∧ BoundBy k b r
  /-- Callers never ask in the name of a correction; then no run is corrected twice. -/
  corrected : (∀ label ∈ steps, label.requestSource ≠ some .deliveryCorrection) →
    ∀ runId i j x y, (World.init.run steps).store.runs.get i = some x →
      (World.init.run steps).store.runs.get j = some y → x.requestSource = .deliveryCorrection →
      y.requestSource = .deliveryCorrection → x.requestId = "delivery:" ++ runId →
      y.requestId = "delivery:" ++ runId → i = j
  /-- While it waits, a request mints only a reply or an internal successor of its run. -/
  beside : ∀ now input d m vt b,
    (Orchestrator.request (World.init.run steps).store now input).1 = .ok d → m ∈ d.writes →
    (World.init.run steps).store.runs.get m.runId = none →
    (World.init.run steps).store.tasks.get (taskKey input.taskId) = some vt →
    b ∈ vt.task.delivery → b.state = .waiting →
    isReply m.params = true ∨ (m.requestSource ≠ .caller ∧
      m.params.bind (·.lookup "deliveryPredecessor") = some b.runId)
  /-- Once its run is no longer waited for, complete or withdrawn, it never is again. -/
  final : ∀ k vt b more further, (World.init.run steps).store.tasks.get k = some vt →
    b ∈ vt.task.delivery → ¬Awaits (World.init.run (steps ++ more)).store k b.runId →
    ¬Awaits (World.init.run (steps ++ more ++ further)).store k b.runId
  /-- The copy of the run does not come to wait again either. -/
  atRest : ∀ id more, AtRest (World.init.run steps).store id →
    AtRest (World.init.run (steps ++ more)).store id

/-- The two copies of a delivery agree, each delivery is corrected at most once, and only what
belongs to it starts while it waits. -/
theorem World.deliveries_agree (steps : List Step) : DeliveriesAgree steps := by
  have hw := World.coherent_run steps
  have hinv := World.deliveries_run steps
  refine ⟨fun k vt b hvt hb => hinv.bound hvt hb, fun hsource runId i j x y hx hy hxs hys hxid hyid =>
    ?_, fun now input d m vt b hd hm hnew hvt hb hwaiting =>
    request_beside_delivery hw.store hd hm hnew hvt hb hwaiting,
    fun k vt b more further hvt hb hnot => ?_, fun id more hrest => ?_⟩
  · have hcorrections : Corrections (World.init.run steps).store :=
      World.invariant_along Corrections corrections_empty
        (fun hv hlabel hchange h => hchange.corrections hv.store hlabel h)
        (Machine.Along.of_forall_mem hsource)
    exact hcorrections.once hx hy hxs hys (hxid.trans hyid.symm)
  · -- the run settled before the task got its delivery
    obtain ⟨x, hx, hbound⟩ := hinv.bound hvt hb
    have hsettled : ∀ {label s s'}, s.Coherent → Deliveries s → Change label s s' →
        (∃ y, s.runs.get b.runId = some y ∧ isLive y.state = false) →
        ∃ y, s'.runs.get b.runId = some y ∧ isLive y.state = false := by
      rintro label s s' hs - hchange ⟨y, hy, hdead⟩
      obtain ⟨y', hy', hrests⟩ := hchange.rests hs hy hdead
      exact ⟨y', hy', by rw [hrests.state]; exact hdead⟩
    have hafter := hw.kept_run hinv _ ⟨x, hx, by rw [hbound.state]; rfl⟩ hsettled more
    rw [← World.run_append] at hafter
    rw [World.run_append _ (steps ++ more)]
    refine ((World.coherent_run (steps ++ more)).kept_run (World.deliveries_run (steps ++ more))
      (fun s => (∃ y, s.runs.get b.runId = some y ∧ isLive y.state = false) ∧
        ¬Awaits s k b.runId) ⟨hafter, hnot⟩ ?_ further).2
    rintro label s s' hs hdeliveries hchange ⟨⟨y, hy, hdead⟩, hnone⟩
    exact ⟨hsettled hs hdeliveries hchange ⟨y, hy, hdead⟩,
      hchange.awaits hs hdeliveries.own hy hdead hnone⟩
  · rw [World.run_append]
    exact hw.kept_run hinv (AtRest · id) hrest (fun hs hdeliveries hchange h =>
      hchange.atRest hs hdeliveries h) more

/-- A caller asks for a work item in the name of a correction of the run `work:w/r1`. -/
def Sample.correcting (work : String) : Step :=
  .request 0 { Sample.request "claude" with
    taskId := .work work
    requestId := "delivery:work:w/r1"
    requestSource := some .deliveryCorrection }

/-- A caller who asks in the name of a correction gets a second one of the same run. -/
theorem World.correction_minted_twice :
    ¬∀ (steps : List Step) (runId i j : String) (x y : Run),
      (World.init.run steps).store.runs.get i = some x →
      (World.init.run steps).store.runs.get j = some y → x.requestSource = .deliveryCorrection →
      y.requestSource = .deliveryCorrection → x.requestId = "delivery:" ++ runId →
      y.requestId = "delivery:" ++ runId → i = j := by
  intro h
  have hfalse := h [Sample.correcting "v", Sample.correcting "w"] "work:w/r1" "work:v/r1"
    "work:w/r1" _ _ rfl rfl rfl rfl (by decide) (by decide)
  revert hfalse
  decide

end AgentLcars
