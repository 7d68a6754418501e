import AgentLcars.Requests

/-!
# Request bindings

One event may be delivered under several source ids that share a binding key.  The first of them
that a transaction ran for, accepted or refused, stands for the canonical id from then on; the
others keep their own.  An aborted transaction leaves nothing, so it does not count.

* `World.deliveries` lists the deliveries under a key; the store remembers the first.
* `World.binding_first_delivery` is the result.
-/

namespace AgentLcars

/-- What a step presents under a binding key of a task, if its transaction is not aborted. -/
def World.presents (key bindingKey : String) (w : World) : Step → Option BindingRecord
  | .request now input =>
    match (Orchestrator.request w.store now input).1 with
    | .error (.threw _) => none
    | _ => (input.requestBinding.filter fun binding =>
        taskKey input.taskId = key ∧ binding.bindingKey = bindingKey).map fun binding =>
          { canonicalRequestId := binding.canonicalRequestId
            firstSourceRequestId := input.requestId }
  | _ => none

/-- The deliveries under a binding key of a task, in order. -/
def World.deliveries (key bindingKey : String) (w : World) (steps : List Step) :
    List BindingRecord :=
  Machine.events World.step (World.presents key bindingKey) w steps

section Bindings

variable {w : World} {key bindingKey : String}

/-- An accepted request is never lost to a conflict. -/
theorem Store.Coherent.applies {s : Store} (hs : s.Coherent) {now : Time} {input : RequestInput}
    {requestId : String} {d : Decision} (next : Option BindingRecord)
    (hd : decideRequest input now (s.requestState input.read requestId) = .ok d) :
    ∃ s', (s.noteBinding input.read next).apply d
      ((s.requestState input.read requestId).task.map (·.revision)) = some s' := by
  have heffect : Effect (.request now input) now _ False _ _ d :=
    (decideRequest_effect (hs.lockRead now input requestId) hd).2
  have hkey : taskKey d.task.task = taskKey input.taskId := heffect.requested hs
  unfold Store.apply
  rw [(noteBinding_unread s input.read next).1.tasks, hkey]
  exact ⟨_, if_pos rfl⟩

/-- A request records its binding, unless it is aborted. -/
theorem Store.Coherent.records {s : Store} (hs : s.Coherent) (now : Time) (input : RequestInput) :
    (∃ message, (Orchestrator.request s now input).1 = .error (.threw message) ∧
      (Orchestrator.request s now input).2.requestBindings = s.requestBindings) ∨
    ((∀ message, (Orchestrator.request s now input).1 ≠ .error (.threw message)) ∧
      ∃ requestId next, Store.resolveRequestBinding input.requestId input.requestBinding
          (s.currentBinding input) = .ok (requestId, next) ∧
        (Orchestrator.request s now input).2.requestBindings =
          (s.noteBinding input.read next).requestBindings) := by
  unfold Orchestrator.request
  split
  · exact .inl ⟨_, rfl, rfl⟩
  unfold Store.transactRequest
  dsimp only
  split
  · rename_i stop hresolve
    refine .inl ?_
    unfold Store.resolveRequestBinding at hresolve
    split at hresolve
    · cases hresolve
    · cases hresolve
    · split_ifs at hresolve
      obtain rfl := Except.error.inj hresolve
      exact ⟨_, rfl, rfl⟩
  rename_i requestId next hresolve
  split
  · exact .inl ⟨_, rfl, rfl⟩
  · exact .inr ⟨nofun, requestId, next, hresolve, rfl⟩
  rename_i d hd
  obtain ⟨s', happly⟩ := hs.applies next hd
  simp only [happly]
  exact .inr ⟨nofun, requestId, next, hresolve,
    (noteRevision_bindings s' _ _ _).trans (apply_commits happly).records.bindings⟩

/-- A resolved binding is recorded where there was no record. -/
theorem noteBinding_get {s : Store} {input : RequestInput} {requestId : String}
    {next : Option BindingRecord}
    (h : Store.resolveRequestBinding input.requestId input.requestBinding (s.currentBinding input) =
      .ok (requestId, next)) :
    (s.noteBinding input.read next).requestBindings.get (key, bindingKey) =
      (s.requestBindings.get (key, bindingKey)).or
        ((input.requestBinding.filter fun binding =>
          taskKey input.taskId = key ∧ binding.bindingKey = bindingKey).map fun binding =>
            { canonicalRequestId := binding.canonicalRequestId
              firstSourceRequestId := input.requestId }) := by
  unfold Store.noteBinding RequestInput.read
  unfold Store.currentBinding at h
  cases hbinding : input.requestBinding with
  | none => exact (Option.or_none).symm
  | some binding =>
    simp only [hbinding, Option.bind_some] at h
    by_cases hmine : taskKey input.taskId = key ∧ binding.bindingKey = bindingKey
    · obtain ⟨rfl, rfl⟩ := hmine
      cases hcurrent : s.requestBindings.get (taskKey input.taskId, binding.bindingKey) with
      | none =>
        simp only [hcurrent, Store.resolveRequestBinding, Except.ok.injEq, Prod.mk.injEq] at h
        obtain ⟨-, rfl⟩ := h
        simp
      | some current =>
        simp only [hcurrent, Store.resolveRequestBinding] at h
        split_ifs at h
        all_goals
          obtain ⟨-, rfl⟩ := Prod.mk.inj (Except.ok.inj h)
          simpa using hcurrent
    · have hother : (key, bindingKey) ≠ (taskKey input.taskId, binding.bindingKey) := fun he =>
        hmine ⟨(Prod.mk.inj he).1.symm, (Prod.mk.inj he).2.symm⟩
      have hnone : ((some binding).filter fun binding : RequestBinding =>
          taskKey input.taskId = key ∧ binding.bindingKey = bindingKey) = none := by
        simp [Option.filter, hmine]
      rw [hnone, Option.map_none, Option.or_none]
      cases next with
      | none => rfl
      | some record => exact OrderedMap.get_set_of_ne _ _ hother

/-- The store records what is presented first. -/
theorem World.Coherent.presented (hw : w.Coherent) (label : Step) :
    (w.step label).store.requestBindings.get (key, bindingKey) =
      (w.store.requestBindings.get (key, bindingKey)).or (w.presents key bindingKey label) := by
  cases label with
  | request now input =>
    simp only [World.presents]
    rcases hw.store.records now input with ⟨message, hthrew, hsame⟩ | ⟨hno, requestId, next, hresolve, h⟩
    · rw [show (w.step (.request now input)).store = (Orchestrator.request w.store now input).2
        from rfl, hsame, hthrew, Option.or_none]
    · rw [show (w.step (.request now input)).store = (Orchestrator.request w.store now input).2
        from rfl, h]
      have hpresents : ∀ o : Option BindingRecord,
          (match (Orchestrator.request w.store now input).1 with
            | .error (.threw _) => none
            | _ => o) = o := by
        intro o
        split
        · rename_i message hthrew
          exact absurd hthrew (hno message)
        · rfl
      rw [hpresents]
      exact noteBinding_get hresolve
  | _ => 
    rw [(w.step_records rfl).bindings]
    exact (Option.or_none).symm

/-- What is recorded under a key is the first delivery. -/
theorem World.Coherent.recorded (hw : w.Coherent) (steps : List Step) :
    (w.run steps).store.requestBindings.get (key, bindingKey) =
      (w.store.requestBindings.get (key, bindingKey)).or
        (w.deliveries key bindingKey steps).head? := by
  induction steps generalizing w with
  | nil => exact (Option.or_none).symm
  | cons label rest ih =>
    have hrun : w.run (label :: rest) = (w.step label).run rest := rfl
    have hevents : w.deliveries key bindingKey (label :: rest) =
        (w.presents key bindingKey label).toList ++
          (w.step label).deliveries key bindingKey rest := Machine.events_cons ..
    rw [hrun, ih (hw.step label), hw.presented label, hevents, Option.or_assoc]
    cases w.presents key bindingKey label with
    | none => rfl
    | some record => rfl

/-- The first delivery under a key stays the first. -/
theorem World.deliveries_head {first : BindingRecord} {steps : List Step}
    (h : (w.deliveries key bindingKey steps).head? = some first) (more : List Step) :
    (w.deliveries key bindingKey (steps ++ more)).head? = some first := by
  rw [World.deliveries, Machine.events_append, List.head?_append]
  exact Option.or_eq_some_iff.2 (.inl h)

end Bindings

/-! ### One run for the canonical id -/

/-- A run that a request adds to the store is its caller's. -/
theorem request_adds {s : Store} {now : Time} {input : RequestInput} {id : String} {x : Run}
    (hs : s.Coherent) (hx : (Orchestrator.request s now input).2.runs.get id = some x)
    (hnone : s.runs.get id = none) : x.requestSource = input.requestSource.getD .caller := by
  rcases request_cases s now input with ⟨-, hunread, -⟩ | ⟨_, _, d, hd, -, -, -, hwritten⟩
  · rw [hunread.runs, hnone] at hx
    cases hx
  · rcases hwritten.get_cases hx with ⟨hmem, rfl⟩ | ⟨hsame, -⟩
    · exact (request_minted hs hd hmem hnone).2.1
    · rw [hnone] at hsame
      cases hsame

/-- Where there are only requests, every run is a caller's. -/
theorem World.callers_run {steps : List Step} (hexternal : ∀ label ∈ steps, label.external = true)
    (hrequests : ∀ label ∈ steps, label.requestedKey.isSome = true) :
    ∀ id x, (World.init.run steps).store.runs.get id = some x → x.requestSource = .caller := by
  refine (Machine.Along.invariant (fun w : World => w.Coherent ∧
    ∀ id x, w.store.runs.get id = some x → x.requestSource = .caller) ?_
    ⟨World.coherent_init, fun _ _ h => by cases h⟩ (Machine.Along.of_forall_mem fun label hmem =>
      And.intro (hexternal label hmem) (hrequests label hmem))).2
  rintro w label ⟨hw, hinv⟩ ⟨hlabel, hrequest⟩
  refine ⟨hw.step label, fun id x hx => ?_⟩
  cases hr : w.store.runs.get id with
  | some r =>
    obtain ⟨_, x', hx', hmove⟩ := (hw.change label).run_moves hw.store hr
    obtain rfl := Option.some.inj (hx.symm.trans hx')
    exact (requestSource_of_frozen hmove.frozen).trans (hinv id r hr)
  | none =>
    cases label with
    | request now input =>
      rw [request_adds hw.store hx hr]
      exact Step.external_caller hlabel rfl
    | _ => cases hrequest

/-- How the deliveries under a binding key of a task are told apart. -/
structure BindsOnce (key bindingKey : String) (steps : List Step) : Prop where
  /-- The first delivery stands for the canonical id, and every other one for itself. -/
  resolves : ∀ input canonicalRequestId, taskKey input.taskId = key →
    input.requestBinding = some { bindingKey, canonicalRequestId } →
    (World.init.run steps).store.resolves input =
      match (World.init.deliveries key bindingKey steps).head? with
      | none => some canonicalRequestId
      | some first =>
        if first.canonicalRequestId ≠ canonicalRequestId then none
        else some (if first.firstSourceRequestId = input.requestId then canonicalRequestId
          else input.requestId)
  /-- The first delivery stays the first. -/
  kept : ∀ first more, (World.init.deliveries key bindingKey steps).head? = some first →
    (World.init.deliveries key bindingKey (steps ++ more)).head? = some first
  /-- A run minted for a delivery carries the id it stands for. -/
  minted : ∀ now input d m, (Orchestrator.request (World.init.run steps).store now input).1 = .ok d →
    m ∈ d.writes → (World.init.run steps).store.runs.get m.runId = none →
    (World.init.run steps).store.resolves input = some m.requestId
  /-- At most one run of the task carries an id in the name of the same source. -/
  unique : ∀ i j x y, (World.init.run steps).store.runs.get i = some x →
    (World.init.run steps).store.runs.get j = some y → taskKey x.task = key →
    taskKey y.task = key → x.requestId = y.requestId → x.requestSource = y.requestSource → x = y
  /-- Where there are only requests, every run is in the name of a caller. -/
  callers : (∀ label ∈ steps, label.requestedKey.isSome = true) →
    ∀ i x, (World.init.run steps).store.runs.get i = some x → x.requestSource = .caller

/-- The first delivery under a key stands for the canonical id for good, even if it was refused, and
at most one run carries that id. -/
theorem World.binding_first_delivery {steps : List Step}
    (hexternal : ∀ label ∈ steps, label.external = true) (key bindingKey : String) :
    BindsOnce key bindingKey steps := by
  have hw := World.coherent_run steps
  have hrecorded : (World.init.run steps).store.requestBindings.get (key, bindingKey) =
      (World.init.store.requestBindings.get (key, bindingKey)).or
        (World.init.deliveries key bindingKey steps).head? := World.coherent_init.recorded steps
  refine ⟨fun input canonicalRequestId hkey hbinding => ?_, fun first more h =>
    World.deliveries_head h more, fun now input d m hd hm hnew => ?_,
    fun i j x y hx hy hxkey hykey hid hsource => ?_, World.callers_run hexternal⟩
  · have hcurrent : (World.init.run steps).store.currentBinding input =
        (World.init.deliveries key bindingKey steps).head? := by
      rw [Store.currentBinding, hbinding, Option.bind_some, hkey, hrecorded]
      rfl
    unfold Store.resolves
    rw [hcurrent, hbinding]
    cases (World.init.deliveries key bindingKey steps).head? with
    | none => rfl
    | some first =>
      simp only [Store.resolveRequestBinding]
      split_ifs <;> rfl
  · exact (request_minted hw.store hd hm hnew).1
  · exact (World.history_run hexternal).unique hw.store hx hy ⟨hxkey.trans hykey.symm, hsource, hid⟩

/-- Two deliveries of one event while another run is at work: both are refused. -/
def Sample.delivered : List Step :=
  [.request 0 (Sample.request "claude"),
   .request 1 { Sample.rebound with requestId := "a" },
   .request 2 { Sample.rebound with requestId := "b" }]

/-- The first of them keeps its right to the canonical id, and the second keeps its own. -/
theorem World.binding_first_delivery_refused :
    (World.init.run Sample.delivered).store.resolves { Sample.rebound with requestId := "a" } =
        some "c" ∧
      (World.init.run Sample.delivered).store.resolves { Sample.rebound with requestId := "b" } =
        some "b" := by
  have hfirst : (World.init.deliveries "work:w" "b" Sample.delivered).head? =
      some { canonicalRequestId := "c", firstSourceRequestId := "a" } := by decide +kernel
  have h := World.binding_first_delivery
    (by decide : ∀ label ∈ Sample.delivered, label.external = true) "work:w" "b"
  constructor
  · rw [h.resolves { Sample.rebound with requestId := "a" } "c" rfl rfl, hfirst]
    rfl
  · rw [h.resolves { Sample.rebound with requestId := "b" } "c" rfl rfl, hfirst]
    rfl

end AgentLcars
