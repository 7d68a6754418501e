import AgentLcars.HookSessions

/-!
# The numbers of a session's events

While no hook appends after another was killed between its append and its state write, the spooled
events of the session are numbered in spool order, and the stored document is from the latest event
that was delivered.

* `HookWorld.Sound`: the state file, or the process that is about to write it, has the last number.
* `hooks_numbered`: what holds of a run.
-/

namespace AgentLcars

/-! ### The invariant -/

/-- The number of the last spooled event, 0 when there is none. -/
def lastSeq (spool : List HookEvent) : Nat := (spool.getLast?.map (·.seq)).getD 0

/-- The process holds the lock. -/
def HookPhase.Held : HookPhase → Prop
  | .locking | .returned => False
  | _ => True

/-- What a process knows of the last number. -/
def HookPhase.Knows (last : Nat) : HookPhase → Prop
  | .appending seq _ => seq = last + 1
  | .writing next _ | .replacing next _ => next.seq = last
  | _ => True

/-- The observer that an event leaves in the document. -/
def observerOf (host : String) (number : Nat) (event : HookEvent) : SessionObserver :=
  { host, seq := event.seq, eventId := event.eventId, number }

structure HookWorld.Sound (w : HookWorld) : Prop where
  increasing : w.spool.Pairwise fun a b => a.seq < b.seq
  bounded : ∀ event ∈ w.spool, event.seq ≤ lastSeq w.spool
  safe : lastSeq w.spool ≤ MAX_SAFE_INTEGER
  held : ∀ {id p}, w.processes.get id = some p → p.phase.Held → w.lock = some id
  counter : w.torn = false → (∀ {id p}, w.processes.get id = some p → p.phase.tears = false) →
    (w.file.map (·.seq)).getD 0 = lastSeq w.spool
  knows : w.torn = false → ∀ {id p}, w.processes.get id = some p →
    p.phase.Knows (lastSeq w.spool)
  doc : ∀ {d}, w.doc = some d → ∃ event, w.spool[d.number]? = some event ∧
    d = observerOf w.host d.number event
  delivered : ∀ number ∈ w.delivered, ∃ event d, w.spool[number]? = some event ∧
    w.doc = some d ∧ event.seq ≤ d.seq

/-- An event is appended with a safe number, and not after a hook was torn. -/
def HookPhase.Whole (torn : Bool) : HookPhase → Prop
  | .appending seq _ => torn = false ∧ seq ≤ MAX_SAFE_INTEGER
  | _ => True

instance (torn : Bool) : ∀ phase : HookPhase, Decidable (phase.Whole torn)
  | .appending seq _ => inferInstanceAs (Decidable (torn = false ∧ seq ≤ MAX_SAFE_INTEGER))
  | .locking | .checking | .reading | .writing .. | .replacing .. | .releasing | .returned =>
    isTrue trivial

/-- No hook appends an event after another was killed between its append and its state write, and
the numbers stay safe integers. -/
def HookWorld.Whole (w : HookWorld) : HookStep → Prop
  | .advance id => ∀ p ∈ w.processes.get id, p.phase.Whole w.torn
  | _ => True

instance (w : HookWorld) : ∀ step, Decidable (w.Whole step)
  | .advance id => inferInstanceAs (Decidable (∀ p ∈ w.processes.get id, p.phase.Whole w.torn))
  | .start .. | .giveUp .. | .kill .. | .fence | .deliver .. => isTrue trivial

section Steps

variable {env : HookEnv} {w : HookWorld} {id : Nat} {p : HookProcess}

theorem lastSeq_append (spool : List HookEvent) (event : HookEvent) :
    lastSeq (spool ++ [event]) = event.seq := by
  unfold lastSeq
  rw [List.getLast?_append, List.getLast?_singleton]
  rfl

theorem HookPhase.held_of_tears {phase : HookPhase} (h : phase.tears = true) : phase.Held := by
  unfold HookPhase.tears at h
  split at h <;> trivial

/-- While a process holds the lock, no other does. -/
theorem HookWorld.Sound.alone (hw : w.Sound) (hlock : w.lock = some id) {other : Nat}
    {q : HookProcess} (hget : w.processes.get other = some q) (hother : other ≠ id) :
    ¬q.phase.Held := fun hheld =>
  hother (Option.some.inj ((hw.held hget hheld).symm.trans hlock))

theorem HookWorld.Sound.quiet (hw : w.Sound) (hget : w.processes.get id = some p)
    (hheld : p.phase.Held) (htears : p.phase.tears = false) {other : Nat} {q : HookProcess}
    (hother : w.processes.get other = some q) : q.phase.tears = false := by
  by_cases hsame : other = id
  · subst hsame
    obtain rfl := Option.some.inj (hget.symm.trans hother)
    exact htears
  · have hnot := hw.alone (hw.held hget hheld) hother hsame
    exact Bool.eq_false_iff.2 fun h => hnot (HookPhase.held_of_tears h)

/-- One process moves, and the rest stays as it is. -/
theorem HookWorld.Sound.moved (hw : w.Sound) {p' : HookProcess} {lock' : Option Nat} {torn' : Bool}
    {file' : Option HookSessionState} (htorn : torn' = false → w.torn = false)
    (hlock : ∀ other, other ≠ id → w.lock = some other → lock' = some other)
    (hheld : p'.phase.Held → lock' = some id)
    (hcounter : torn' = false → p'.phase.tears = false →
      (∀ other q, other ≠ id → w.processes.get other = some q → q.phase.tears = false) →
      (file'.map (·.seq)).getD 0 = lastSeq w.spool)
    (hknows : torn' = false → p'.phase.Knows (lastSeq w.spool)) :
    HookWorld.Sound { w with
      lock := lock', torn := torn', file := file', processes := w.processes.set id p' } := by
  refine ⟨hw.increasing, hw.bounded, hw.safe, ?_, ?_, ?_, hw.doc, hw.delivered⟩
  · intro other q hget hphase
    rw [OrderedMap.get_set] at hget
    split_ifs at hget with hsame
    · obtain rfl := Option.some.inj hget
      exact hsame ▸ hheld hphase
    · exact hlock other hsame (hw.held hget hphase)
  · intro htorn' hall
    have hself : p'.phase.tears = false := hall (OrderedMap.get_set_self _ _ _)
    refine hcounter htorn' hself ?_
    intro other q hother hget
    exact @hall other q (by rw [OrderedMap.get_set, if_neg hother]; exact hget)
  · intro htorn' other q hget
    rw [OrderedMap.get_set] at hget
    split_ifs at hget
    · obtain rfl := Option.some.inj hget
      exact hknows htorn'
    · exact hw.knows (htorn htorn') hget

/-- Another phase of a process that leaves the files and the lock alone. -/
theorem HookWorld.Sound.phase (hw : w.Sound) (hget : w.processes.get id = some p)
    {phase' : HookPhase} (hheld : phase'.Held → p.phase.Held)
    (htears : phase'.tears = p.phase.tears)
    (hknows : w.torn = false → phase'.Knows (lastSeq w.spool)) :
    HookWorld.Sound { w with processes := w.processes.set id { p with phase := phase' } } := by
  refine hw.moved (fun h => h) (fun _ _ h => h) (fun h => hw.held hget (hheld h)) ?_ hknows
  intro htorn hself hothers
  refine hw.counter htorn fun {other q} hother => ?_
  by_cases hsame : other = id
  · subst hsame
    obtain rfl := Option.some.inj (hget.symm.trans hother)
    exact htears.symm.trans hself
  · exact hothers other q hsame hother

/-- What a process reads of the state file has the last number. -/
theorem HookWorld.Sound.read (hw : w.Sound) (htorn : w.torn = false)
    (hget : w.processes.get id = some p) (hphase : p.phase = .reading) :
    ((readHookSessionState w.file).map (·.seq)).getD 0 = lastSeq w.spool := by
  have hcounter := hw.counter htorn fun hother =>
    hw.quiet hget (by rw [hphase]; trivial) (by rw [hphase]; rfl) hother
  rw [← hcounter]
  unfold readHookSessionState
  cases hfile : w.file with
  | none => rfl
  | some state =>
    have hsafe : state.seq ≤ MAX_SAFE_INTEGER := by
      have hsafe := hw.safe
      rw [← hcounter, hfile] at hsafe
      exact hsafe
    rw [Option.filter_some, if_pos (by simpa using hsafe)]

theorem HookCall.decide_knows (call : HookCall) {state : Option HookSessionState} {last : Nat}
    (h : (state.map (·.seq)).getD 0 = last) :
    (call.decide env state).Knows last ∧ (call.decide env state).tears = false := by
  unfold HookCall.decide
  split_ifs
  · exact ⟨trivial, rfl⟩
  · exact ⟨trivial, rfl⟩
  · exact ⟨congrArg (· + 1) h, rfl⟩
  · exact ⟨h, rfl⟩

theorem deliveredState_seq (state : Option HookSessionState) (now : String) :
    (deliveredState state now).seq = (state.map (·.seq)).getD 0 := by
  cases state <;> rfl

/-- A hook appends its event. -/
theorem HookWorld.Sound.append (hw : w.Sound) {call : HookCall} {seq : Nat}
    {state : Option HookSessionState}
    (hget : w.processes.get id = some { task := .hook call, phase := .appending seq state })
    (htorn : w.torn = false) (hsafe : seq ≤ MAX_SAFE_INTEGER) :
    HookWorld.Sound { w with
      spool := w.spool ++ [call.event seq]
      processes := w.processes.set id
        { task := .hook call, phase := .writing (call.shippedState seq state) true } } := by
  have hlast : seq = lastSeq w.spool + 1 := hw.knows htorn hget
  have hlock := hw.held hget trivial
  have hnew : lastSeq (w.spool ++ [call.event seq]) = seq := lastSeq_append _ _
  have hkept : ∀ {number : Nat} {event : HookEvent}, w.spool[number]? = some event →
      (w.spool ++ [call.event seq])[number]? = some event := by
    intro number event hevent
    rw [List.getElem?_append_left (List.getElem?_eq_some_iff.1 hevent).1]
    exact hevent
  refine ⟨?_, ?_, hnew.symm ▸ hsafe, ?_, ?_, ?_, ?_, ?_⟩
  · refine List.pairwise_append.2 ⟨hw.increasing, List.pairwise_singleton _ _, ?_⟩
    intro event hevent last hmem
    obtain rfl := List.mem_singleton.1 hmem
    have hle := hw.bounded event hevent
    show event.seq < seq
    omega
  · intro event hevent
    rw [hnew]
    rcases List.mem_append.1 hevent with hevent | hevent
    · have hle := hw.bounded event hevent
      omega
    · obtain rfl := List.mem_singleton.1 hevent
      exact le_rfl
  · intro other q hother hheld
    rw [OrderedMap.get_set] at hother
    split_ifs at hother with hsame
    · exact hsame ▸ hlock
    · exact absurd hheld (hw.alone hlock hother hsame)
  · intro _ hall
    have htears : true = false := hall (OrderedMap.get_set_self _ _ _)
    cases htears
  · intro _ other q hother
    rw [OrderedMap.get_set] at hother
    split_ifs at hother with hsame
    · obtain rfl := Option.some.inj hother
      exact hnew.symm
    · -- no other process holds the lock
      have hnot := hw.alone hlock hother hsame
      obtain ⟨task, phase⟩ := q
      cases phase <;> first | trivial | exact absurd trivial hnot
  · intro d hd
    obtain ⟨event, hevent, hobserver⟩ := hw.doc hd
    exact ⟨event, hkept hevent, hobserver⟩
  · intro number hnumber
    obtain ⟨event, d, hevent, hd, hle⟩ := hw.delivered number hnumber
    exact ⟨event, d, hkept hevent, hd, hle⟩

theorem HookWorld.Sound.advance (hw : w.Sound) (hget : w.processes.get id = some p)
    (hwhole : p.phase.Whole w.torn) : (w.advance env id p).Sound := by
  obtain ⟨task, phase⟩ := p
  unfold HookWorld.advance
  cases phase with
  | locking =>
    dsimp only
    split_ifs with hlocked
    · exact hw
    rw [Option.not_isSome_iff_eq_none] at hlocked
    have hphase : ∀ phase' : HookPhase, phase'.tears = false →
        phase'.Knows (lastSeq w.spool) → HookWorld.Sound { w with
          lock := some id, processes := w.processes.set id { task, phase := phase' } } := by
      intro phase' htears hknows
      refine hw.moved (fun h => h) ?_ (fun _ => rfl) ?_ fun _ => hknows
      · intro other _ hother
        rw [hlocked] at hother
        cases hother
      · intro htorn _ hothers
        refine hw.counter htorn fun {other q} hother => ?_
        by_cases hsame : other = id
        · subst hsame
          obtain rfl := Option.some.inj (hget.symm.trans hother)
          rfl
        · exact hothers other q hsame hother
    cases task with
    | hook call => exact hphase .checking rfl trivial
    | mark now => exact hphase .reading rfl trivial
  | checking =>
    dsimp only
    split_ifs
    · exact hw.phase hget (fun h => h) rfl fun _ => trivial
    · exact hw.phase hget (fun h => h) rfl fun _ => trivial
  | reading =>
    cases task with
    | hook call =>
      dsimp only
      have htears : (call.decide env (readHookSessionState w.file)).tears = false :=
        (call.decide_knows rfl).2
      refine hw.phase hget (fun _ => trivial) htears fun htorn => ?_
      exact (call.decide_knows (hw.read htorn hget rfl)).1
    | mark now =>
      dsimp only
      refine hw.phase hget (fun _ => trivial) rfl fun htorn => ?_
      exact (deliveredState_seq _ _).trans (hw.read htorn hget rfl)
  | appending seq state =>
    cases task with
    | hook call => exact hw.append hget hwhole.1 hwhole.2
    | mark now => exact hw
  | writing next shipped =>
    exact hw.phase hget (fun h => h) rfl fun htorn => hw.knows htorn hget
  | replacing next shipped =>
    refine hw.moved (fun h => h) (fun _ _ h => h) (fun _ => hw.held hget trivial) ?_
      fun _ => trivial
    intro htorn _ _
    exact hw.knows htorn hget
  | releasing =>
    refine hw.moved (fun h => h) ?_ (fun h => h.elim) ?_ fun _ => trivial
    · intro other hother hlock
      exact absurd (Option.some.inj (hlock.symm.trans (hw.held hget trivial))) hother
    · intro htorn _ _
      exact hw.counter htorn fun hother => hw.quiet hget trivial rfl hother
  | returned => exact hw

/-- What a delivery leaves: the document as it was, or one of a larger number. -/
theorem applyHookEvent_cases {doc : Option SessionObserver} {event : HookEvent} {number : Nat}
    {host : String} (valid : Bool)
    (hdoc : ∀ {d}, doc = some d → d.host = host) :
    ((applyHookEvent doc event (observerOf host number event) valid).2 = doc ∧
      ((applyHookEvent doc event (observerOf host number event) valid).1 ≠ .invalid →
        ∃ d, doc = some d ∧ event.seq ≤ d.seq)) ∨
    ((applyHookEvent doc event (observerOf host number event) valid).2 =
        some (observerOf host number event) ∧ ∀ {d}, doc = some d → d.seq < event.seq) := by
  unfold applyHookEvent
  split_ifs with hinvalid hnewer
  · exact .inl ⟨rfl, fun h => absurd rfl h⟩
  · refine .inr ⟨rfl, fun {d} hd => ?_⟩
    subst hd
    have hlarger : ¬d.host = host ∨ d.seq < event.seq := by
      simpa [isNewerHookWrite, observerOf] using hnewer
    exact hlarger.resolve_left fun hother => hother (hdoc rfl)
  · refine .inl ⟨rfl, fun _ => ?_⟩
    cases doc with
    | none => exact absurd rfl hnewer
    | some d =>
      have hold : d.host = host ∧ event.seq ≤ d.seq := by
        simpa [isNewerHookWrite, observerOf] using hnewer
      exact ⟨d, rfl, hold.2⟩

/-- The number in the document never goes down. -/
theorem HookWorld.Sound.deliver (hw : w.Sound) (number : Nat) (answer : DeliveryAnswer) :
    (w.deliver number answer).Sound ∧ (w.deliver number answer).host = w.host ∧
      ∀ {d}, w.doc = some d → ∃ d', (w.deliver number answer).doc = some d' ∧ d.seq ≤ d'.seq := by
  unfold HookWorld.deliver
  cases hevent : w.spool[number]? with
  | none => exact ⟨hw, rfl, fun hd => ⟨_, hd, le_rfl⟩⟩
  | some event =>
    dsimp only
    have hhost : ∀ {d}, w.doc = some d → d.host = w.host := by
      intro d hd
      obtain ⟨written, -, hd⟩ := hw.doc hd
      rw [hd]
      rfl
    -- a committed delivery, with what the writer confirmed of it
    have hcommit : ∀ (valid : Bool) (delivered : List Nat),
        (∀ n ∈ delivered, n ∈ w.delivered ∨ n = number ∧
          (applyHookEvent w.doc event (observerOf w.host number event) valid).1 ≠ .invalid) →
        HookWorld.Sound { w with
          doc := (applyHookEvent w.doc event (observerOf w.host number event) valid).2, delivered } ∧
        ∀ {d}, w.doc = some d → ∃ d',
          (applyHookEvent w.doc event (observerOf w.host number event) valid).2 = some d' ∧
            d.seq ≤ d'.seq := by
      intro valid delivered hdelivered
      rcases applyHookEvent_cases valid hhost with ⟨hsame, hknown⟩ | ⟨hnew, hlarger⟩
      · rw [hsame]
        refine ⟨⟨hw.increasing, hw.bounded, hw.safe, hw.held, hw.counter, hw.knows, hw.doc, ?_⟩,
          fun hd => ⟨_, hd, le_rfl⟩⟩
        intro n hn
        rcases hdelivered n hn with hold | ⟨rfl, hvalid⟩
        · exact hw.delivered n hold
        · obtain ⟨d, hd, hle⟩ := hknown hvalid
          exact ⟨event, d, hevent, hd, hle⟩
      · rw [hnew]
        refine ⟨⟨hw.increasing, hw.bounded, hw.safe, hw.held, hw.counter, hw.knows, ?_, ?_⟩,
          fun hd => ⟨_, rfl, Nat.le_of_lt (hlarger hd)⟩⟩
        · intro d hd
          obtain rfl := Option.some.inj hd
          exact ⟨event, hevent, rfl⟩
        · intro n hn
          rcases hdelivered n hn with hold | ⟨rfl, -⟩
          · obtain ⟨other, d, hother, hd, hle⟩ := hw.delivered n hold
            exact ⟨other, _, hother, rfl, Nat.le_trans hle (Nat.le_of_lt (hlarger hd))⟩
          · exact ⟨event, _, hevent, rfl, le_rfl⟩
    cases answer with
    | failed => exact ⟨hw, rfl, fun hd => ⟨_, hd, le_rfl⟩⟩
    | lost valid =>
      obtain ⟨hsound, hdoc⟩ := hcommit valid w.delivered fun n hn => .inl hn
      exact ⟨hsound, rfl, hdoc⟩
    | answered valid =>
      obtain ⟨hsound, hdoc⟩ := hcommit valid
        (if (applyHookEvent w.doc event (observerOf w.host number event) valid).1 = .invalid then
          w.delivered else number :: w.delivered) (by
        intro n hn
        split_ifs at hn with hinvalid
        · exact .inl hn
        · rcases List.mem_cons.1 hn with rfl | hn
          · exact .inr ⟨rfl, hinvalid⟩
          · exact .inl hn)
      exact ⟨hsound, rfl, hdoc⟩

theorem HookWorld.advance_kept (w : HookWorld) (id : Nat) (p : HookProcess) :
    (w.advance env id p).doc = w.doc ∧ (w.advance env id p).host = w.host := by
  obtain ⟨task, phase⟩ := p
  unfold HookWorld.advance
  cases phase with
  | locking =>
    dsimp only
    split_ifs <;> exact ⟨rfl, rfl⟩
  | _ => cases task <;> exact ⟨rfl, rfl⟩

theorem HookWorld.Sound.step (hw : w.Sound) (step : HookStep) (hwhole : w.Whole step) :
    (w.step env step).Sound := by
  cases step with
  | start id task =>
    unfold HookWorld.step
    dsimp only
    by_cases hknown : (w.processes.get id).isSome = true
    · rw [if_pos hknown]
      exact hw
    rw [if_neg hknown]
    rw [Option.not_isSome_iff_eq_none] at hknown
    refine hw.moved (fun h => h) (fun _ _ h => h) (fun h => h.elim) ?_ fun _ => trivial
    intro htorn _ hothers
    refine hw.counter htorn fun {other q} hother => hothers other q ?_ hother
    rintro rfl
    rw [hknown] at hother
    cases hother
  | advance id =>
    unfold HookWorld.step
    dsimp only
    cases hget : w.processes.get id with
    | none => exact hw
    | some p => exact hw.advance hget (hwhole p hget)
  | giveUp id =>
    unfold HookWorld.step
    dsimp only
    split
    · rename_i task hget
      exact hw.phase hget (fun h => h) rfl fun _ => trivial
    · exact hw
  | kill id =>
    unfold HookWorld.step
    dsimp only
    cases hget : w.processes.get id with
    | none => exact hw
    | some p =>
      refine hw.moved ?_ ?_ (fun h => h.elim) ?_ fun _ => trivial
      · intro htorn
        exact (Bool.or_eq_false_iff.1 htorn).1
      · intro other hother hlock
        rw [if_neg, hlock]
        rw [hlock]
        exact fun hsame => hother (Option.some.inj hsame)
      · intro htorn _ hothers
        refine hw.counter (Bool.or_eq_false_iff.1 htorn).1 fun {other q} hother => ?_
        by_cases hsame : other = id
        · subst hsame
          obtain rfl := Option.some.inj (hget.symm.trans hother)
          exact (Bool.or_eq_false_iff.1 htorn).2
        · exact hothers other q hsame hother
  | fence => exact ⟨hw.increasing, hw.bounded, hw.safe, hw.held, hw.counter, hw.knows, hw.doc,
      hw.delivered⟩
  | deliver number answer => exact (hw.deliver number answer).1

theorem HookWorld.Sound.step_doc (hw : w.Sound) (step : HookStep) :
    (w.step env step).host = w.host ∧
      ∀ {d}, w.doc = some d → ∃ d', (w.step env step).doc = some d' ∧ d.seq ≤ d'.seq := by
  have hsame : ∀ v : HookWorld, v.doc = w.doc ∧ v.host = w.host → v.host = w.host ∧
      ∀ {d}, w.doc = some d → ∃ d', v.doc = some d' ∧ d.seq ≤ d'.seq :=
    fun v hv => ⟨hv.2, fun hd => ⟨_, hv.1.trans hd, le_rfl⟩⟩
  cases step with
  | deliver number answer => exact (hw.deliver number answer).2
  | start id task =>
    unfold HookWorld.step
    dsimp only
    split_ifs <;> exact hsame _ ⟨rfl, rfl⟩
  | advance id =>
    unfold HookWorld.step
    dsimp only
    split
    · exact hsame _ ⟨rfl, rfl⟩
    · exact hsame _ (w.advance_kept id _)
  | giveUp id =>
    unfold HookWorld.step
    dsimp only
    split <;> exact hsame _ ⟨rfl, rfl⟩
  | kill id =>
    unfold HookWorld.step
    dsimp only
    split <;> exact hsame _ ⟨rfl, rfl⟩
  | fence => exact hsame _ ⟨rfl, rfl⟩

theorem HookWorld.sound_init (host : String) : (HookWorld.init host).Sound where
  increasing := .nil
  bounded _ hevent := absurd hevent List.not_mem_nil
  safe := by
    show 0 ≤ MAX_SAFE_INTEGER
    exact Nat.zero_le _
  held h := by cases h
  counter _ _ := rfl
  knows _ _ _ h := by cases h
  doc h := by cases h
  delivered _ hnumber := absurd hnumber List.not_mem_nil

theorem HookWorld.sound_run {host : String} {steps : List HookStep}
    (h : Machine.Along (HookWorld.step env) HookWorld.Whole (HookWorld.init host) steps) :
    ((HookWorld.init host).run env steps).Sound ∧
      ((HookWorld.init host).run env steps).host = host := by
  refine h.invariant (fun w : HookWorld => w.Sound ∧ w.host = host) ?_ ⟨sound_init host, rfl⟩
  rintro w step ⟨hw, hhost⟩ hwhole
  exact ⟨hw.step step hwhole, (hw.step_doc step).1.trans hhost⟩

/-- A delivered event is not later than the one that the document is from. -/
theorem HookWorld.Sound.not_shadowed (hw : w.Sound) {number : Nat} (hnumber : number ∈ w.delivered) :
    ∃ d, w.doc = some d ∧ number ≤ d.number := by
  obtain ⟨event, d, hevent, hd, hle⟩ := hw.delivered number hnumber
  obtain ⟨written, hwritten, hobserver⟩ := hw.doc hd
  refine ⟨d, hd, Nat.le_of_not_lt fun hearlier => ?_⟩
  obtain ⟨hlt, rfl⟩ := List.getElem?_eq_some_iff.1 hevent
  obtain ⟨hlt', rfl⟩ := List.getElem?_eq_some_iff.1 hwritten
  have hseq := List.pairwise_iff_getElem.1 hw.increasing _ _ hlt' hlt hearlier
  have hsame : d.seq = w.spool[d.number].seq := by
    conv_lhs => rw [hobserver]
    rfl
  omega

/-- From a sound state on, the document keeps its host and its number never goes down. -/
theorem HookWorld.Sound.run_doc (hw : w.Sound) {steps : List HookStep}
    (h : Machine.Along (HookWorld.step env) HookWorld.Whole w steps) {d : SessionObserver}
    (hd : w.doc = some d) :
    ∃ d', (w.run env steps).doc = some d' ∧ d'.host = d.host ∧ d.seq ≤ d'.seq := by
  have hhost : d.host = w.host := by
    obtain ⟨event, -, hd⟩ := hw.doc hd
    rw [hd]
    rfl
  obtain ⟨hsound, hsame, d', hd', hle⟩ := h.invariant (fun v : HookWorld => v.Sound ∧
    v.host = w.host ∧ ∃ d', v.doc = some d' ∧ d.seq ≤ d'.seq) (by
      rintro v step ⟨hv, hsame, d', hd', hle⟩ hwhole
      obtain ⟨hstep, hdoc⟩ := @HookWorld.Sound.step_doc env v hv step
      obtain ⟨d'', hd'', hle'⟩ := hdoc hd'
      exact ⟨hv.step step hwhole, hstep.trans hsame, d'', hd'', Nat.le_trans hle hle'⟩)
    ⟨hw, rfl, d, hd, le_rfl⟩
  refine ⟨d', hd', ?_, hle⟩
  obtain ⟨event, -, hobserver⟩ := hsound.doc hd'
  rw [hobserver, hhost, ← hsame]
  rfl

end Steps

/-- While no hook appends after another was killed between its append and its state write, and the
numbers stay safe integers: the spooled events have increasing numbers in spool order, the number in
the stored document never goes down, no delivered event is shadowed by an earlier one, and when every
spooled event was delivered the document is from the last of them. -/
theorem hooks_numbered (env : HookEnv) (host : String) (steps : List HookStep)
    (hwhole : Machine.Along (HookWorld.step env) HookWorld.Whole (HookWorld.init host) steps) :
    let w := (HookWorld.init host).run env steps
    (w.spool.map (·.seq)).Pairwise (· < ·) ∧
      (∀ first rest d, steps = first ++ rest →
        ((HookWorld.init host).run env first).doc = some d →
        ∃ d', w.doc = some d' ∧ d'.host = d.host ∧ d.seq ≤ d'.seq) ∧
      (∀ number ∈ w.delivered, ∃ d, w.doc = some d ∧ number ≤ d.number) ∧
      ∀ event, w.spool.getLast? = some event → (∀ number < w.spool.length, number ∈ w.delivered) →
        w.doc = some (observerOf host (w.spool.length - 1) event) := by
  obtain ⟨hw, hhost⟩ := HookWorld.sound_run hwhole
  refine ⟨List.pairwise_map.2 hw.increasing, ?_, fun number hnumber => hw.not_shadowed hnumber, ?_⟩
  · rintro first rest d rfl hd
    obtain ⟨hfirst, hrest⟩ := Machine.Along.append.1 hwhole
    obtain ⟨d', hd', hsame, hle⟩ := (HookWorld.sound_run hfirst).1.run_doc hrest hd
    refine ⟨d', ?_, hsame, hle⟩
    unfold HookWorld.run
    rw [Machine.run_append]
    exact hd'
  · intro event hlast hall
    rw [List.getLast?_eq_getElem?] at hlast
    have hlt := (List.getElem?_eq_some_iff.1 hlast).1
    obtain ⟨d, hd, hle⟩ := hw.not_shadowed (hall _ hlt)
    obtain ⟨written, hwritten, hobserver⟩ := hw.doc hd
    have hlt' := (List.getElem?_eq_some_iff.1 hwritten).1
    have hnumber : d.number = ((HookWorld.init host).run env steps).spool.length - 1 := by omega
    rw [hnumber, hlast] at hwritten
    rw [hd, hobserver, hhost, hnumber, ← Option.some.inj hwritten]

/-! ### A hook that is killed -/

namespace Sample

def hookEnv : HookEnv := { dateParse := fun _ => none }

/-- The hook of a prompt, up to its append: it locks, checks the fence, reads and appends. -/
def promptHook : List HookStep :=
  .start 0 (.hook { eventId := "e1", kind := .prompt, now := "2026-01-01T00:00:00.000Z" }) ::
    List.replicate 4 (.advance 0)

/-- The hook of the session's end, from its start to its return. -/
def endHook : List HookStep :=
  .start 1 (.hook { eventId := "e2", kind := .end_, now := "2026-01-01T00:01:00.000Z" }) ::
    List.replicate 7 (.advance 1)

def deliveries : List HookStep := [.deliver 0 (.answered true), .deliver 1 (.answered true)]

/-- The first hook is killed before it writes its number. -/
def tornHook : List HookStep := promptHook ++ [.kill 0] ++ endHook ++ deliveries

/-- The first hook writes its number and returns. -/
def wholeHooks : List HookStep := promptHook ++ List.replicate 3 (.advance 0) ++ endHook ++ deliveries

end Sample

/-- The second event has the number of the first, and its delivery changes nothing. -/
theorem torn_number_reused :
    (((HookWorld.init "host").run Sample.hookEnv Sample.tornHook).spool.map (·.seq)) = [1, 1] ∧
      (((HookWorld.init "host").run Sample.hookEnv Sample.tornHook).spool.map (·.kind)) =
        [.prompt, .end_] ∧
      ((HookWorld.init "host").run Sample.hookEnv Sample.tornHook).delivered = [1, 0] ∧
      ((HookWorld.init "host").run Sample.hookEnv Sample.tornHook).doc =
        some { host := "host", seq := 1, eventId := "e1", number := 0 } := by
  decide +kernel

theorem hooks_numbered_whole :
    ((HookWorld.init "host").run Sample.hookEnv Sample.wholeHooks).doc =
      some { host := "host", seq := 2, eventId := "e2", number := 1 } := by
  have hwhole : Machine.Along (HookWorld.step Sample.hookEnv) HookWorld.Whole
      (HookWorld.init "host") Sample.wholeHooks := by
    decide +kernel
  have hall : ∀ number <
      ((HookWorld.init "host").run Sample.hookEnv Sample.wholeHooks).spool.length,
      number ∈ ((HookWorld.init "host").run Sample.hookEnv Sample.wholeHooks).delivered := by
    decide +kernel
  have hlast : ((HookWorld.init "host").run Sample.hookEnv Sample.wholeHooks).spool.getLast? =
      some { eventId := "e2", seq := 2, occurredAt := "2026-01-01T00:01:00.000Z", kind := .end_
             hasSummary := true } := by
    decide +kernel
  have hdoc := (hooks_numbered Sample.hookEnv "host" Sample.wholeHooks hwhole).2.2.2 _ hlast hall
  have hlength : ((HookWorld.init "host").run Sample.hookEnv Sample.wholeHooks).spool.length = 2 := by
    decide +kernel
  rw [hlength] at hdoc
  exact hdoc

end AgentLcars
