import Mathlib.Data.List.Chain
import AgentLcars.Coherence

/-!
# The event log of a run

Every transition appends to the log by hand, each in its own function.  The log of a stored run is
nevertheless a path of the run's state machine, with at most one receipt behind it: the executor's
word that the worker of an already settled run exited.

* `Recorded` is that shape, with the receipt apart.
* `World.event_log_recorded`: it holds of every stored run, and a terminal run stays as it is.
-/

namespace AgentLcars

/-! ### Paths of the state machine -/

/-- The transitions a log may record. -/
inductive Follows : RunEvent → RunEvent → Prop where
  | start {a b} (ha : a.to_ = .pending) (hb : b.to_ = .running) : Follows a b
  | settle {a b} (ha : isLive a.to_ = true) (hb : isLive b.to_ = false) : Follows a b

/-- How far a state is from admission. -/
def RunState.rank : RunState → Nat
  | .pending => 0
  | .running => 1
  | .finished | .canceled | .lost => 2

theorem RunState.rank_le (state : RunState) : state.rank ≤ 2 := by
  cases state <;> decide

theorem Follows.rank_lt {a b : RunEvent} (h : Follows a b) : a.to_.rank < b.to_.rank := by
  cases h with
  | start ha hb =>
    rw [ha, hb]
    decide
  | settle ha hb =>
    revert ha hb
    cases a.to_ <;> cases b.to_ <;> decide

/-- A path of the state machine has at most three events. -/
theorem length_le_of_follows {log : List RunEvent} (h : log.IsChain Follows) : log.length ≤ 3 := by
  match log with
  | [] | [_] | [_, _] | [_, _, _] => simp
  | a :: b :: c :: d :: rest =>
    simp only [List.isChain_cons_cons] at h
    obtain ⟨hab, hbc, hcd, -⟩ := h
    have hd := d.to_.rank_le
    have hlt := hab.rank_lt
    have hlt' := hbc.rank_lt
    have hlt'' := hcd.rank_lt
    omega

/-! ### The log of a run -/

/-- The log of a run is a path of the state machine that ends in the run's state, and after it at
most the receipt of an exit. -/
structure Recorded (r : Run) (log : List RunEvent) (receipt : Option RunEvent) : Prop where
  events : r.events = log ++ receipt.toList
  first : ∃ e ∈ log.head?, e.to_ = .pending ∧ e.by_ = .request
  chain : log.IsChain Follows
  last : ∃ e ∈ log.getLast?, e.to_ = r.state
  receipt : ∀ e ∈ receipt, isLive r.state = false ∧ e.to_ = r.state ∧ e.by_ = .executor ∧
    e.note = some RECIPE_EXIT_PENDING_CREDENTIAL_CLEANUP

section Recorded

variable {r r' : Run} {log : List RunEvent} {receipt : Option RunEvent}

theorem Recorded.length_le (h : Recorded r log receipt) : r.events.length ≤ 4 := by
  rw [h.events, List.length_append]
  have hlog := length_le_of_follows h.chain
  have hreceipt : receipt.toList.length ≤ 1 := by cases receipt <;> simp
  omega

theorem Recorded.getLast (h : Recorded r log receipt) :
    ∃ e ∈ r.events.getLast?, e.to_ = r.state := by
  rw [h.events]
  cases hr : receipt with
  | none => simpa using h.last
  | some e => exact ⟨e, by simp, (h.receipt e hr).2.1⟩

theorem Recorded.head (h : Recorded r log receipt) :
    ∃ e ∈ r.events.head?, e.to_ = .pending ∧ e.by_ = .request := by
  obtain ⟨e, he, hfirst⟩ := h.first
  refine ⟨e, ?_, hfirst⟩
  rw [h.events, List.head?_append, Option.mem_def.1 he]
  rfl

/-- A live run has no receipt. -/
theorem Recorded.receipt_none (h : Recorded r log receipt) (hlive : isLive r.state = true) :
    receipt = none := by
  cases hr : receipt with
  | none => rfl
  | some e =>
    rw [(h.receipt e hr).1] at hlive
    cases hlive

theorem Recorded.kept (h : Recorded r log receipt) (hevents : r'.events = r.events)
    (hstate : r'.state = r.state) : Recorded r' log receipt where
  events := hevents.trans h.events
  first := h.first
  chain := h.chain
  last := hstate ▸ h.last
  receipt := hstate ▸ h.receipt

/-- A live run's log grows along the state machine. -/
theorem Recorded.extend (h : Recorded r log receipt) (hlive : isLive r.state = true) (e : RunEvent)
    (hfollows : ∀ a : RunEvent, a.to_ = r.state → Follows a e) (hevents : r'.events = r.events ++ [e])
    (hstate : r'.state = e.to_) : Recorded r' (log ++ [e]) none where
  events := by
    rw [hevents, h.events, h.receipt_none hlive]
    simp
  first := by
    obtain ⟨f, hf, hfirst⟩ := h.first
    refine ⟨f, ?_, hfirst⟩
    rw [List.head?_append, Option.mem_def.1 hf]
    rfl
  chain := by
    obtain ⟨a, ha, hto⟩ := h.last
    refine h.chain.append (.singleton e) ?_
    intro x hx y hy
    obtain rfl : a = x := Option.some.inj ((Option.mem_def.1 ha).symm.trans hx)
    obtain rfl : e = y := Option.some.inj hy
    exact hfollows a hto
  last := ⟨e, by simp, hstate.symm⟩
  receipt := fun _ he => by cases he

theorem Recorded.settled (h : Recorded r log receipt) (hlive : isLive r.state = true) (e : RunEvent)
    (hevents : r'.events = r.events ++ [e]) (hstate : r'.state = e.to_)
    (hterminal : isLive e.to_ = false) : Recorded r' (log ++ [e]) none :=
  h.extend hlive e (fun a ha => .settle (by rw [ha]; exact hlive) hterminal) hevents hstate

/-- The executor's receipt is written once. -/
theorem Recorded.noteExit (h : Recorded r log receipt) (hterminal : isLive r.state = false)
    (hnew : exitObserved r = false) (e : RunEvent) (hevents : r'.events = r.events ++ [e])
    (hstate : r'.state = r.state) (hto : e.to_ = r.state) (hby : e.by_ = .executor)
    (hnote : e.note = some RECIPE_EXIT_PENDING_CREDENTIAL_CLEANUP) :
    Recorded r' log (some e) where
  events := by
    cases hr : receipt with
    | none =>
      rw [hevents, h.events, hr]
      simp
    | some e' =>
      obtain ⟨-, -, hby', hnote'⟩ := h.receipt e' hr
      simp [exitObserved, h.events, hr, hby', hnote'] at hnew
  first := h.first
  chain := h.chain
  last := hstate ▸ h.last
  receipt := by
    rintro _ ⟨rfl⟩
    rw [hstate]
    exact ⟨hterminal, hto, hby, hnote⟩

end Recorded

/-! ### Every move keeps the log -/

/-- A settlement appends one terminal event. -/
theorem Settlement.event {label : Step} {now : Time} {r s : Run} (h : Settlement label now r s) :
    ∃ e, s.events = r.events ++ [e] ∧ s.state = e.to_ ∧ isLive e.to_ = false := by
  cases h with
  | report => exact ⟨_, rfl, rfl, rfl⟩
  | cancel => exact ⟨_, rfl, rfl, rfl⟩
  | reroute => exact ⟨_, rfl, rfl, rfl⟩
  | lose => exact ⟨_, rfl, rfl, rfl⟩

theorem Cleaned.events {given : Option String} {r s r' : Run} (h : Cleaned given r s r') : r'.events = s.events := by
  cases h <;> rfl

theorem Fresh.recorded {m : Run} (h : Fresh m) : Recorded m m.events none := by
  obtain ⟨at_, intervention, hevents⟩ := h.events
  rw [hevents]
  refine ⟨?_, ⟨_, rfl, rfl, rfl⟩, .singleton _, ⟨_, rfl, h.state.symm⟩, fun _ he => by cases he⟩
  rw [hevents]
  rfl

theorem Move.recorded {label : Step} {now : Time} {r r' : Run} (hmove : Move label now r r')
    {log : List RunEvent} {receipt : Option RunEvent} (h : Recorded r log receipt) :
    ∃ log' receipt', Recorded r' log' receipt' := by
  cases hmove with
  | confirm hp =>
    have hlive : isLive r.state = true := by rw [hp]; rfl
    exact ⟨_, _, h.extend hlive _ (fun a ha => .start (ha.trans hp) rfl) rfl rfl⟩
  | settle hlive _ hs hc =>
    obtain ⟨e, hevents, hstate, hterminal⟩ := hs.event
    exact ⟨_, _, h.settled hlive e (hc.events.trans hevents) (hc.state.trans hstate) hterminal⟩
  | complete _ _ _ _ hlive => exact ⟨_, _, h.settled hlive _ rfl rfl rfl⟩
  | receipt hterminal _ _ hnew => exact ⟨_, _, h.noteExit hterminal hnew _ rfl rfl rfl rfl rfl⟩
  | _ => exact ⟨_, _, h.kept rfl rfl⟩

/-- Every change keeps the log of every stored run. -/
theorem Change.recorded {label : Step} {s s' : Store} (hs : s.Coherent) (h : Change label s s')
    (hinv : ∀ id r, s.runs.get id = some r → ∃ log receipt, Recorded r log receipt) :
    ∀ id r, s'.runs.get id = some r → ∃ log receipt, Recorded r log receipt := by
  intro id x hx
  rcases h.run_cases hs hx with ⟨now, r, hr, hmove⟩ | ⟨-, hfresh⟩
  · obtain ⟨log, receipt, hlog⟩ := hinv id r hr
    exact hmove.recorded hlog
  · exact ⟨_, _, hfresh.recorded⟩

/-- A settled run keeps its state and its result. -/
theorem World.settled_absorbs {w : World} (hw : w.Coherent) {id : String} {r : Run}
    (hr : w.store.runs.get id = some r) (hterminal : isLive r.state = false) (more : List Step) :
    ∃ r', (w.run more).store.runs.get id = some r' ∧ r'.state = r.state ∧ r'.result = r.result := by
  induction more generalizing w r with
  | nil => exact ⟨r, hr, rfl, rfl⟩
  | cons label rest ih =>
    obtain ⟨now, r₁, hr₁, hmove⟩ := (hw.change label).run_moves hw.store hr
    obtain ⟨hstate, hresult⟩ := hmove.terminal hterminal
    obtain ⟨r', hr', hstate', hresult'⟩ := ih (hw.step label) hr₁ (hstate ▸ hterminal)
    exact ⟨r', hr', hstate'.trans hstate, hresult'.trans hresult⟩

/-- The log of every stored run is a path of the state machine with at most one exit receipt behind
it, never longer than four events, and a settled run keeps its state and its result. -/
theorem World.event_log_recorded (steps : List Step) (id : String) (r : Run)
    (hr : (World.init.run steps).store.runs.get id = some r) :
    (∃ log receipt, Recorded r log receipt) ∧
    (∃ e ∈ r.events.head?, e.to_ = .pending ∧ e.by_ = .request) ∧
    (∃ e ∈ r.events.getLast?, e.to_ = r.state) ∧
    r.events.length ≤ 4 ∧
    (isLive r.state = false → ∀ more, ∃ r',
      (World.init.run (steps ++ more)).store.runs.get id = some r' ∧
        r'.state = r.state ∧ r'.result = r.result) := by
  obtain ⟨log, receipt, hlog⟩ := World.invariant_run
    (fun s => ∀ id r, s.runs.get id = some r → ∃ log receipt, Recorded r log receipt)
    (fun id r hr => by cases hr) (fun hs h hinv => h.recorded hs hinv) steps id r hr
  refine ⟨⟨log, receipt, hlog⟩, hlog.head, hlog.getLast, hlog.length_le, fun hterminal more => ?_⟩
  have hrun : World.init.run (steps ++ more) = (World.init.run steps).run more :=
    Machine.run_append _ _ _ _
  rw [hrun]
  exact World.settled_absorbs (World.coherent_run steps) hr hterminal more

/-- A run starts, is canceled, and its worker exits later. -/
def Sample.workerExited : List Step :=
  [.request 0 { Sample.request "goose" with params := some [("providerAuth", "codex")] },
    .enqueueRun Sample.runId 1, .claimQueuedRun ["goose"] (Sample.claim 2),
    .onRun Sample.runId 3 "cleanup" .confirmDispatch,
    .onRun Sample.runId 4 "cleanup" (.cancel none none none),
    .onRun Sample.runId 5 "other" (.executorExited ⟨"subject", "runner", some "token"⟩)]

/-- Its log has four events, and stays so with its result when a report comes in. -/
theorem World.event_log_exited :
    let more := [Step.onRun Sample.runId 6 "third" (.report none
      { ok := true, summary := none, ref := none, relatedRefs := none, message := none
        humanNeededActions := none } (some "token") none false)]
    ∃ r, (World.init.run Sample.workerExited).store.runs.get Sample.runId = some r ∧
      r.events.length = 4 ∧ (∃ log receipt, Recorded r log receipt) ∧
      ∃ r', (World.init.run (Sample.workerExited ++ more)).store.runs.get Sample.runId = some r' ∧
        r'.state = r.state ∧ r'.result = r.result := by
  intro more
  have hstored : ((World.init.run Sample.workerExited).store.runs.get Sample.runId).any
      (fun r => isLive r.state = false ∧ r.events.length = 4) = true := by decide +kernel
  obtain ⟨r, hr, hfacts⟩ := (Option.any_eq_true _ _).1 hstored
  obtain ⟨hterminal, hlength⟩ := of_decide_eq_true hfacts
  obtain ⟨hlog, -, -, -, hsettled⟩ := World.event_log_recorded Sample.workerExited Sample.runId r hr
  exact ⟨r, hr, hlength, hlog, hsettled hterminal more⟩

end AgentLcars
