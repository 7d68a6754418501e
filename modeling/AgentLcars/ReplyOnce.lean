import AgentLcars.Requests
import AgentLcars.WorkReply

/-!
# Keyed replies

A reply with a request id is admitted at most once, and its id stands for what was asked.  Its
history may be found before the request or inside the transaction; either way the run that is named
is the caller's run under the id, whose parameters never change.

* `IndexSound`: what the request index names is stored under its identity.
* `ReplyWorld.Sound`: what every call that has been answered, or whose request minted a run, knows.
* `reply_once`: one run for a key, and one content.
-/

namespace AgentLcars

open JsonStrings

/-! ### The request index -/

/-- The index names stored runs of the identity it files them under. -/
def IndexSound (s : Store) : Prop :=
  ∀ {key id}, s.requestRuns.get key = some id → ∃ x, s.runs.get id = some x ∧ x.indexKey = key

theorem Change.indexSound {label : Step} {s s' : Store} (hs : s.Coherent) (h : Change label s s')
    (hindex : IndexSound s) : IndexSound s' := by
  -- entries that were there before name runs that only moved
  have hold : ∀ {key id}, s.requestRuns.get key = some id →
      ∃ x, s'.runs.get id = some x ∧ x.indexKey = key := by
    intro key id hkey
    obtain ⟨x, hx, rfl⟩ := hindex hkey
    obtain ⟨now, x', hx', hmove⟩ := h.run_moves hs hx
    exact ⟨x', hx', indexKey_of_frozen hmove.frozen⟩
  intro key id hkey
  cases h with
  | aside haside =>
    refine hold ?_
    cases haside with
    | quiet hu => exact hu.requestRuns ▸ hkey
    | outbox hu => exact hu.requestRuns ▸ hkey
    | queue _ _ _ _ _ _ _ _ hrequests => exact hrequests ▸ hkey
  | decide now admitted subject d heffect hsubject hadmits hwritten =>
    rw [hwritten.requestRuns] at hkey
    rcases OrderedMap.get_setAll_cases _ _ hkey with ⟨m, hm, rfl, rfl⟩ | ⟨hkey, -⟩
    · exact ⟨m, hwritten.get_of_mem hs heffect hsubject hm, rfl⟩
    · exact hold hkey

theorem World.indexSound_run (steps : List Step) : IndexSound (World.init.run steps).store :=
  World.invariant_run IndexSound nofun (fun hs hchange h => hchange.indexSound hs h) steps

/-! ### Plain requests -/

section Plain

variable {s : Store} {now : Time} {input : RequestInput}

/-- A request that is neither for a label nor for a source revision. -/
structure RequestInput.Plain (input : RequestInput) : Prop where
  label : input.labelProviderRequest = none
  revision : input.sourceRevision = none
  binding : input.requestBinding = none

theorem admitRequest_minted (hplain : input.Plain) {state : Store.RequestTransactionState}
    {d : Decision} (h : admitRequest input now state = .ok d) :
    ∃ m, d.run = some m ∧ m.params = input.params ∧
      m.runId = runIdOf (taskKey input.taskId) (generations (state.task.map (·.task)) + 1) := by
  unfold admitRequest at h
  simp only [hplain.label, hplain.revision] at h
  cases hreplaced : input.replaceQueuedRunId with
  | none =>
    rw [hreplaced] at h
    obtain ⟨m, hm⟩ := requested_of_ok h
    refine ⟨m, by rw [hm.form], hm.params, ?_⟩
    rw [hm.minted.runId, hm.task, hm.minted.count]
    rfl
  | some replaced =>
    rw [hreplaced] at h
    dsimp only at h
    unfold replaceQueuedRun at h
    split at h
    · rename_i task activeRun htask hactive
      simp only [ite_refused_eq_ok] at h
      obtain ⟨-, -, -, h⟩ := h
      obtain ⟨canceled, hcanceled, h⟩ := bind_eq_ok.1 h
      obtain ⟨replacement, hreplacement, h⟩ := bind_eq_ok.1 h
      obtain ⟨canceledRun, -, h⟩ := bind_eq_ok.1 h
      obtain rfl := Except.ok.inj h
      obtain ⟨m, hm⟩ := requested_of_ok hreplacement
      refine ⟨m, by rw [hm.form], hm.params, ?_⟩
      rw [hm.minted.runId, hm.task, hm.minted.count]
      obtain ⟨-, -, closedAt, -, -, rfl⟩ := cancelRun_ok hcanceled
      rw [show state.task.map (·.task) = some task from htask]
      rfl
    · exact absurd h refused_ne_ok

/-- An accepted plain request mints the run that it decides on. -/
theorem plainRequest_minted (hs : s.Coherent) (hplain : input.Plain) {d : Decision}
    (hd : (Orchestrator.request s now input).1 = .ok d) :
    ∃ m, d.run = some m ∧ s.runs.get m.runId = none ∧ m.params = input.params ∧
      m.requestId = input.requestId ∧ m.requestSource = input.requestSource.getD .caller ∧
      taskKey m.task = taskKey input.taskId ∧
      (Orchestrator.request s now input).2.runs.get m.runId = some m := by
  obtain ⟨m, hrun, hparams, hid⟩ : ∃ m, d.run = some m ∧ m.params = input.params ∧
      s.runs.get m.runId = none := by
    rcases request_cases s now input with ⟨⟨stop, hstop⟩, -⟩ |
      ⟨requestId, next, d', hd', -, -, hdecide, -⟩
    · rw [hstop] at hd
      cases hd
    · obtain rfl : d' = d := Except.ok.inj (hd'.symm.trans hd)
      obtain ⟨-, -, hadmit⟩ := decideRequest_ok hdecide
      obtain ⟨m, hrun, hparams, hid⟩ := admitRequest_minted hplain hadmit
      exact ⟨m, hrun, hparams, hid ▸ hs.fresh_id le_rfl⟩
  have hmem : m ∈ d.writes := by simp [Decision.writes, hrun]
  obtain ⟨hresolves, hsource, htask, hstored⟩ := request_minted hs hd hmem hid
  refine ⟨m, hrun, hid, hparams, ?_, hsource, htask, hstored⟩
  rw [Store.resolves, hplain.binding] at hresolves
  exact (Option.some.inj hresolves).symm

theorem requestRun_duplicate {args : RequestRunInput} {x : Run}
    (h : requestRun args = refused .duplicateRequest (some x)) :
    args.activeRun = some x ∧ runRequestHistoryKey x =
      requestHistoryKey (args.requestSource.getD .caller) args.requestId := by
  unfold requestRun at h
  split at h
  · rename_i activeRun hactive
    split_ifs at h with hsame
    · simp only [refused, Except.error.injEq, Stop.refusal.injEq, Refusal.mk.injEq, true_and,
        Option.some.injEq] at h
      subst h
      exact ⟨(Option.filter_eq_some_iff.1 hactive).1, hsame⟩
    · simp [refused] at h
  · split_ifs at h
    · simp [refused] at h
    · simp [refused] at h
    · split at h
      · simp [refused] at h
      · dsimp only at h
        split_ifs at h <;> cases h

theorem cancelRun_not_duplicate {task : Task} {run : Run} {note : Option String}
    {x : Option Run} : cancelRun now task run note ≠ refused .duplicateRequest x := by
  unfold cancelRun
  split_ifs <;> simp [refused]

theorem admitRequest_duplicate (hplain : input.Plain) {state : Store.RequestTransactionState}
    {x : Run} (h : admitRequest input now state = refused .duplicateRequest (some x)) :
    state.activeRun = some x ∧ runRequestHistoryKey x =
      requestHistoryKey (input.requestSource.getD .caller) state.requestId := by
  unfold admitRequest at h
  simp only [hplain.label, hplain.revision] at h
  cases hreplaced : input.replaceQueuedRunId with
  | none =>
    rw [hreplaced] at h
    exact requestRun_duplicate h
  | some replaced =>
    -- the replacement is requested for a task without an active run
    rw [hreplaced] at h
    dsimp only at h
    unfold replaceQueuedRun at h
    split at h
    · split_ifs at h
      · simp [refused] at h
      · simp [refused] at h
      · simp [refused] at h
      · rcases bind_eq_error.1 h with h | ⟨canceled, hcanceled, h⟩
        · exact absurd h cancelRun_not_duplicate
        rcases bind_eq_error.1 h with h | ⟨replacement, -, h⟩
        · cases (requestRun_duplicate h).1
        · obtain ⟨-, -, closedAt, -, -, rfl⟩ := cancelRun_ok hcanceled
          cases h
    · simp [refused] at h

/-- The run that a plain request repeats is the stored run of its identity. -/
theorem plainRequest_duplicate (hs : s.Coherent) (hindex : IndexSound s) (hplain : input.Plain)
    {x : Run} (h : (Orchestrator.request s now input).1 = refused .duplicateRequest (some x)) :
    s.runs.get x.runId = some x ∧ x.indexKey =
      Store.requestKey input.taskId (input.requestSource.getD .caller) input.requestId := by
  have hresolve : Store.resolveRequestBinding input.requestId input.requestBinding
      (s.currentBinding input) = .ok (input.requestId, none) := by
    rw [hplain.binding]
    rfl
  have hdecide := ((request_refused hresolve).1 h).2
  have hprevious : ∀ y, (s.requestState input.read input.requestId).previousRun = some y →
      s.runs.get y.runId = some y ∧ y.indexKey =
        Store.requestKey input.taskId (input.requestSource.getD .caller) input.requestId := by
    intro y hy
    obtain ⟨id, hid, hget⟩ := Option.bind_eq_some_iff.1 hy
    obtain ⟨z, hz, hkey⟩ := hindex hid
    obtain rfl := Option.some.inj (hz.symm.trans hget)
    exact ⟨(hs.runKeyed hz).symm ▸ hz, hkey⟩
  cases hcase : (s.requestState input.read input.requestId).previousRun with
  | some y =>
    obtain rfl := Option.some.inj ((decideRequest_duplicate input now hcase).1 _ hdecide)
    exact hprevious _ hcase
  | none =>
    -- nothing is filed under the identity, so the run that holds the lock has it
    have hadmit : admitRequest input now (s.requestState input.read input.requestId) =
        refused .duplicateRequest (some x) := by
      have hrevision : (s.requestState input.read input.requestId).previousSourceRevision = none := by
        simp [Store.requestState, RequestInput.read, hplain.revision]
      unfold decideRequest at hdecide
      rw [hrevision, hcase] at hdecide
      dsimp only at hdecide
      split at hdecide
      · simp [refused] at hdecide
      split at hdecide
      · simp [refused] at hdecide
      split at hdecide
      · simp [refused] at hdecide
      exact hdecide
    obtain ⟨hactive, hhistory⟩ := admitRequest_duplicate hplain hadmit
    obtain ⟨id, hid, hget⟩ := Option.bind_eq_some_iff.1 hactive
    obtain ⟨vt, hvt, hlock⟩ := Option.bind_eq_some_iff.1 hid
    obtain ⟨r, hr, -, hkey⟩ := hs.holder hvt hlock
    obtain rfl : r = x := Option.some.inj (hr.symm.trans hget)
    exact ⟨(hs.runKeyed hr).symm ▸ hr, Prod.ext hkey hhistory⟩

end Plain

/-! ### Receipts -/

section Receipts

variable {env : ReplyEnv} {principal : WorkAuthority} {spec : WorkSpec} {request : ReplyRequest}

/-- What a reply asks for: its text as it is kept, and its choices. -/
def ReplyRequest.content (request : ReplyRequest) :
    String × Bool × Option String × Option (List String) :=
  (cutReply request.text, request.resume.getD true, request.pipeline, request.fallbackPipelines)

theorem boolText_inj {a b : Bool} (h : boolText a = boolText b) : a = b := by
  cases a <;> cases b <;> first | rfl | exact absurd h (by decide)

theorem choice_inj {a b : ReplyRequest} (h : a.pipeline.getD "inherit" = b.pipeline.getD "inherit") :
    a.pipeline = b.pipeline := by
  -- no pipeline is called like the absence of a choice
  have hknown : PIPELINES.contains "inherit" = false := by decide
  cases ha : a.pipeline with
  | none =>
    cases hb : b.pipeline with
    | none => rfl
    | some p =>
      rw [ha, hb] at h
      have := b.known p hb
      rw [← show "inherit" = p from h, hknown] at this
      cases this
  | some p =>
    cases hb : b.pipeline with
    | none =>
      rw [ha, hb] at h
      have := a.known p ha
      rw [show p = "inherit" from h, hknown] at this
      cases this
    | some q =>
      rw [ha, hb] at h
      exact congrArg some h

/-- One run is the run of one content. -/
theorem content_of_sameReply {run : Run} {a b : ReplyRequest} (ha : sameReply run a = true)
    (hb : sameReply run b = true) : a.content = b.content := by
  simp only [sameReply, decide_eq_true_eq] at ha hb
  obtain ⟨-, htext, -, hresume, hpipeline, hfallbacks⟩ := ha
  obtain ⟨-, htext', -, hresume', hpipeline', hfallbacks'⟩ := hb
  have htexts := Option.some.inj (htext.symm.trans htext')
  have hresumes := boolText_inj (Option.some.inj (hresume.symm.trans hresume'))
  have hpipelines := choice_inj (Option.some.inj (hpipeline.symm.trans hpipeline'))
  have hlists := stringifyStrings_inj (hfallbacks.symm.trans hfallbacks')
  simp only [ReplyRequest.content, htexts, hresumes, hpipelines, hlists]

theorem sameReply_minted {run : Run} {resume : Params} (hkeyed : request.requestId.isSome = true)
    (h : run.params = some (replyParams request resume)) : sameReply run request = true := by
  obtain ⟨requestId, hid⟩ := Option.isSome_iff_exists.1 hkeyed
  simp [sameReply, Run.param, h, replyParams, keyParams, hid, List.lookup_cons]

theorem param_of_frozen {r r' : Run} (h : r'.frozen = r.frozen) (name : String) :
    r'.param name = r.param name :=
  congrArg (fun f : Frozen => f.params.bind (·.lookup name)) h

theorem sameReply_of_frozen {r r' : Run} (h : r'.frozen = r.frozen) :
    sameReply r' request = sameReply r request := by
  simp only [sameReply, param_of_frozen h]

theorem authorizedReceipt_ok {run : Run} {runId : String} {resumed : Bool}
    (h : authorizedReceipt env principal spec request run = .ok runId resumed) :
    run.runId = runId ∧ resumed = (run.param "resumeSessionId").isSome ∧
      (request.requestId.isSome = true → sameReply run request = true) := by
  unfold authorizedReceipt at h
  split at h
  · cases h
  unfold replyReceipt at h
  split_ifs at h with hdifferent
  obtain ⟨rfl, rfl⟩ := ReplyOutcome.ok.inj h
  refine ⟨rfl, rfl, fun hkeyed => ?_⟩
  by_contra hne
  exact hdifferent ⟨hkeyed, by simpa using hne⟩

theorem authorizedReceipt_not_conflict {run : Run} {message : String}
    (hsame : request.requestId.isSome = true → sameReply run request = true) :
    authorizedReceipt env principal spec request run ≠ .failed .conflict message := by
  intro h
  unfold authorizedReceipt at h
  split at h
  · cases h
  unfold replyReceipt at h
  split_ifs at h with hdifferent
  rw [hsame hdifferent.1] at hdifferent
  cases hdifferent.2

end Receipts

/-! ### What a call knows -/

/-- What a keyed reply is known by. -/
structure ReplyKey where
  task : String
  principal : String
  requestId : String
  deriving DecidableEq

/-- The identity of the run that a key stands for. -/
def ReplyKey.index (env : ReplyEnv) (key : ReplyKey) : String × String :=
  (key.task, requestHistoryKey .caller ("reply:api:" ++
    env.sha256 (String.ofList (stringifyItems [key.task, key.principal, key.requestId]))))

/-- The key of a call, if it has one. -/
def ReplyCall.key (call : ReplyCall) : Option ReplyKey :=
  call.request.requestId.map fun requestId =>
    { task := taskKey call.request.task, principal := call.principal.principal, requestId }

/-- The plan of a call that has one. -/
def ReplyCall.plan (call : ReplyCall) : Option ReplyPlan :=
  match call.phase with
  | .readingSessions plan | .requesting plan _ => some plan
  | _ => none

/-- The run is stored under the key of the call and was admitted for what the call asks. -/
structure ReplyCall.Receipt (env : ReplyEnv) (s : Store) (call : ReplyCall) (key : ReplyKey)
    (x : Run) : Prop where
  stored : s.runs.get x.runId = some x
  index : x.indexKey = key.index env
  same : sameReply x call.request = true

/-- What holds of every call. -/
structure ReplyCall.Sound (env : ReplyEnv) (s : Store) (call : ReplyCall) : Prop where
  planned : ∀ plan ∈ call.plan, ∀ key ∈ call.key,
    (taskKey call.request.task, requestHistoryKey .caller plan.requestId) = key.index env
  decided : call.minted.isSome → ∃ outcome, call.phase = .answered outcome ∧
    ∀ message, outcome ≠ .failed .conflict message
  minted : ∀ runId ∈ call.minted, ∀ key ∈ call.key, ∃ x, x.runId = runId ∧ call.Receipt env s key x
  named : ∀ runId resumed, call.phase = .answered (.ok runId resumed) → ∀ key ∈ call.key,
    ∃ x, x.runId = runId ∧ resumed = (x.param "resumeSessionId").isSome ∧ call.Receipt env s key x

section Calls

variable {env : ReplyEnv} {s s' : Store} {call : ReplyCall} {key : ReplyKey}

/-- Every stored run is still stored under its admission record. -/
def RunsKept (s s' : Store) : Prop :=
  ∀ {id x}, s.runs.get id = some x → ∃ y, s'.runs.get id = some y ∧ y.frozen = x.frozen

theorem ReplyCall.Receipt.kept (hkept : RunsKept s s') {x : Run} (h : call.Receipt env s key x) :
    ∃ y, y.frozen = x.frozen ∧ call.Receipt env s' key y := by
  obtain ⟨y, hy, hfrozen⟩ := hkept h.stored
  refine ⟨y, hfrozen, ?_, ?_, ?_⟩
  · rw [runId_of_frozen hfrozen]
    exact hy
  · rw [indexKey_of_frozen hfrozen]
    exact h.index
  · rw [sameReply_of_frozen hfrozen]
    exact h.same

/-- What the others do leaves what a call knows. -/
theorem ReplyCall.Sound.kept (hkept : RunsKept s s') (h : call.Sound env s) :
    call.Sound env s' where
  planned := h.planned
  decided := h.decided
  minted := by
    intro runId hminted key hkey
    obtain ⟨x, rfl, hx⟩ := h.minted runId hminted key hkey
    obtain ⟨y, hfrozen, hy⟩ := hx.kept hkept
    exact ⟨y, runId_of_frozen hfrozen, hy⟩
  named := by
    intro runId resumed hphase key hkey
    obtain ⟨x, rfl, hresumed, hx⟩ := h.named runId resumed hphase key hkey
    obtain ⟨y, hfrozen, hy⟩ := hx.kept hkept
    exact ⟨y, runId_of_frozen hfrozen, by rw [hresumed, param_of_frozen hfrozen], hy⟩

/-- A call that has not been answered has minted nothing. -/
theorem ReplyCall.Sound.unminted (h : call.Sound env s)
    (hphase : ∀ outcome, call.phase ≠ .answered outcome) : call.minted = none := by
  by_contra hne
  obtain ⟨outcome, hanswered, -⟩ := h.decided (Option.isSome_iff_ne_none.2 hne)
  exact hphase outcome hanswered

/-- An answer that mints and names nothing. -/
theorem ReplyCall.sound_failed (hminted : call.minted = none) (code : ReplyCode)
    (message : String) : ({ call with phase := .answered (.failed code message) }).Sound env s where
  planned := by
    intro plan hplan
    cases hplan
  decided := by
    intro h
    rw [show call.minted.isSome = false by rw [hminted]; rfl] at h
    cases h
  minted := by
    intro runId h
    rw [show call.minted = none from hminted] at h
    cases h
  named := by
    intro runId resumed h
    cases h

/-- What a plan answers is the receipt of a listed run of the reply's identity. -/
theorem planReply_answered {principal : WorkAuthority} {request : ReplyRequest} {task : Task}
    {runs : List Run} {runId : String} {resumed : Bool}
    (h : planReply env principal request task runs = .error (.ok runId resumed)) :
    ∃ run ∈ runs, ∃ spec, run.requestSource = .caller ∧
      run.requestId = replyRequestId env principal request task ∧
      authorizedReceipt env principal spec request run = .ok runId resumed := by
  unfold planReply at h
  split at h
  · cases h
  rename_i spec _
  dsimp only at h
  split at h
  · rename_i replay hreplay
    unfold replayedRun at hreplay
    split_ifs at hreplay
    have hfound := List.find?_some hreplay
    simp only [decide_eq_true_eq] at hfound
    exact ⟨replay, List.mem_of_find?_eq_some hreplay, spec, hfound.1, hfound.2,
      Except.error.inj h⟩
  · split_ifs at h
    · cases h
    · split at h <;> cases h

theorem planReply_ok {principal : WorkAuthority} {request : ReplyRequest} {task : Task}
    {runs : List Run} {plan : ReplyPlan}
    (h : planReply env principal request task runs = .ok plan) :
    plan.requestId = replyRequestId env principal request task := by
  unfold planReply at h
  split at h
  · cases h
  dsimp only at h
  split at h
  · cases h
  · split_ifs at h
    split at h
    · cases h
    · obtain rfl := Except.ok.inj h
      rfl

theorem replyRequestId_index (task : Task) (hkey : key ∈ call.key) :
    (taskKey call.request.task, requestHistoryKey .caller
      (replyRequestId env call.principal call.request task)) = key.index env := by
  obtain ⟨requestId, hid, rfl⟩ := Option.map_eq_some_iff.1 hkey
  simp only [replyRequestId, hid, keyedRequestId, ReplyKey.index]

theorem replyInput_plain {principal : WorkAuthority} {intervention : Option OperationalIntervention}
    {request : ReplyRequest} {plan : ReplyPlan} {resume : Params} {input : RequestInput}
    (h : replyInput principal intervention request plan resume = some input) :
    input.Plain ∧ input.requestSource = none ∧ input.taskId = request.task ∧
      input.requestId = plan.requestId ∧ input.params = some (replyParams request resume) := by
  obtain ⟨fallback, -, h⟩ := Option.bind_eq_some_iff.1 h
  obtain rfl := Option.some.inj h
  exact ⟨⟨rfl, rfl, rfl⟩, rfl, rfl, rfl, rfl⟩

/-- A listed run of the key is a receipt for a call that is answered with it. -/
theorem receipt_of_answer {principal : WorkAuthority} {spec : WorkSpec} {x : Run}
    {runId : String} {resumed : Bool} (hx : s.runs.get x.runId = some x)
    (hkey : key ∈ call.key) (hindex : x.indexKey = key.index env)
    (h : authorizedReceipt env principal spec call.request x = .ok runId resumed) :
    x.runId = runId ∧ resumed = (x.param "resumeSessionId").isSome ∧ call.Receipt env s key x := by
  obtain ⟨hid, hresumed, hsame⟩ := authorizedReceipt_ok h
  refine ⟨hid, hresumed, hx, hindex, hsame ?_⟩
  obtain ⟨requestId, hrequestId, -⟩ := Option.map_eq_some_iff.1 hkey
  rw [hrequestId]
  rfl

/-- A request that was not accepted is answered with a run only if it repeats that run. -/
theorem answerReply_repeats {principal : WorkAuthority} {spec : WorkSpec} {request : ReplyRequest}
    {stop : Stop} {runId : String} {resumed : Bool}
    (h : answerReply env principal spec request (.error stop) = some (.ok runId resumed)) :
    ∃ run, stop = .refusal { reason := .duplicateRequest, existingRun := some run } ∧
      authorizedReceipt env principal spec request run = .ok runId resumed := by
  cases stop with
  | threw message => cases h
  | refusal refusal =>
    obtain ⟨reason, existing⟩ := refusal
    cases existing with
    | none => cases h
    | some run =>
      simp only [answerReply] at h
      split_ifs at h with hduplicate
      · exact ⟨run, by rw [hduplicate.2], Option.some.inj h⟩
      · cases h

/-- The call after its request, against the store after it. -/
theorem ReplyCall.Sound.requested (hs : s.Coherent) (hindex : IndexSound s)
    (h : call.Sound env s) {plan : ReplyPlan} {resume : Params}
    (hphase : call.phase = .requesting plan resume) {now : Time} {input : RequestInput}
    (hinput : call.input = some input) (hkept : RunsKept s (Orchestrator.request s now input).2) :
    (call.requested env plan.spec (Orchestrator.request s now input).1).Sound env
      (Orchestrator.request s now input).2 := by
  have hasks : replyInput call.principal call.intervention call.request plan resume = some input := by
    rw [← hinput, ReplyCall.input, hphase]
  obtain ⟨hplain, hsource, htask, hrequestId, hparams⟩ := replyInput_plain hasks
  have hplan : ∀ key ∈ call.key, Store.requestKey input.taskId
      (input.requestSource.getD .caller) input.requestId = key.index env := by
    intro key hkey
    rw [hsource, htask, hrequestId]
    exact h.planned plan (by rw [ReplyCall.plan, hphase]; rfl) key hkey
  have hkeyed : ∀ key ∈ call.key, call.request.requestId.isSome = true := by
    intro key hkey
    obtain ⟨requestId, hid, -⟩ := Option.map_eq_some_iff.1 hkey
    rw [hid]
    rfl
  cases houtcome : (Orchestrator.request s now input).1 with
  | ok d =>
    obtain ⟨m, hrun, -, hmparams, hmid, hmsource, hmtask, hstored⟩ :=
      plainRequest_minted hs hplain houtcome
    have hsame : call.request.requestId.isSome = true → sameReply m call.request = true :=
      fun hsome => sameReply_minted hsome (hmparams.trans hparams)
    have hmindex : m.indexKey = Store.requestKey input.taskId
        (input.requestSource.getD .caller) input.requestId := by
      rw [Run.indexKey, Store.requestKey, Store.requestKey, hmid, hmsource, hmtask]
    have hanswer : answerReply env call.principal plan.spec call.request (.ok d) =
        some (authorizedReceipt env call.principal plan.spec call.request m) := by
      simp only [answerReply, decidedRun, hrun]
    have hafter : (call.requested env plan.spec (.ok d)).phase =
        .answered (authorizedReceipt env call.principal plan.spec call.request m) := by
      simp only [ReplyCall.requested, hanswer]
    refine ⟨?_, ?_, ?_, ?_⟩
    · intro plan' hplan'
      rw [ReplyCall.plan, hafter] at hplan'
      cases hplan'
    · exact fun _ => ⟨_, hafter, fun message => authorizedReceipt_not_conflict hsame⟩
    · intro runId hminted key hkey
      have hid : m.runId = runId := by
        simpa [ReplyCall.requested, Except.toOption, hrun] using hminted
      exact ⟨m, hid, hstored, hmindex.trans (hplan key hkey), hsame (hkeyed key hkey)⟩
    · intro runId resumed hnamed key hkey
      obtain ⟨hid, hresumed, hreceipt⟩ := receipt_of_answer hstored hkey
        (hmindex.trans (hplan key hkey)) (ReplyPhase.answered.inj (hafter.symm.trans hnamed))
      exact ⟨m, hid, hresumed, hreceipt⟩
  | error stop =>
    have hminted : (call.requested env plan.spec (.error stop)).minted = none := rfl
    refine ⟨?_, by simp [hminted], by simp [hminted], ?_⟩
    · intro plan' hplan'
      rw [ReplyCall.plan, ReplyCall.requested] at hplan'
      cases hanswer : answerReply env call.principal plan.spec call.request (.error stop) with
      | none => simp [hanswer] at hplan'
      | some answer => simp [hanswer] at hplan'
    · intro runId resumed hnamed key hkey
      have hanswer : answerReply env call.principal plan.spec call.request (.error stop) =
          some (.ok runId resumed) := by
        simp only [ReplyCall.requested] at hnamed
        split at hnamed
        · rename_i answer hanswer
          rw [hanswer, ReplyPhase.answered.inj hnamed]
        · cases hnamed
      obtain ⟨run, rfl, hauthorized⟩ := answerReply_repeats hanswer
      obtain ⟨hstored, hrun⟩ := plainRequest_duplicate hs hindex hplain houtcome
      have hcallKey : key ∈ call.key := hkey
      obtain ⟨rfl, rfl, hreceipt⟩ :=
        receipt_of_answer hstored hcallKey (hrun.trans (hplan key hkey)) hauthorized
      obtain ⟨y, hfrozen, hy⟩ := hreceipt.kept hkept
      exact ⟨y, runId_of_frozen hfrozen, by rw [param_of_frozen hfrozen], hy.stored, hy.index,
        hy.same⟩

/-- Every step of a call keeps what holds of it. -/
theorem ReplyCall.Sound.resume (hs : s.Coherent) (hindex : IndexSound s) (h : call.Sound env s)
    {now : Time} (sessions : List ReplySession)
    (hnext : ∀ input ∈ call.input, s' = (Orchestrator.request s now input).2)
    (hkept : RunsKept s s') : (call.resume env s now sessions).Sound env s' := by
  unfold ReplyCall.resume
  split
  · rename_i hphase
    have hnone := h.unminted (by simp [hphase])
    unfold ReplyCall.found
    split
    · exact ReplyCall.sound_failed hnone _ _
    split
    · rename_i outcome houtcome
      unfold refusesTask at houtcome
      split_ifs at houtcome
      · obtain rfl := Option.some.inj houtcome
        exact ReplyCall.sound_failed hnone _ _
      · obtain rfl := Option.some.inj houtcome
        exact ReplyCall.sound_failed hnone _ _
    · exact ⟨by simp [ReplyCall.plan], by simp [hnone], by simp [hnone], by simp⟩
  · rename_i task hphase
    have hnone := h.unminted (by simp [hphase])
    cases hplan : planReply env call.principal call.request task (s.listRuns call.request.task) with
    | error outcome =>
      refine ⟨by simp [ReplyCall.planned, ReplyCall.plan], by simp [ReplyCall.planned, hnone],
        by simp [ReplyCall.planned, hnone], ?_⟩
      intro runId resumed hnamed key hkey
      obtain rfl : outcome = .ok runId resumed := ReplyPhase.answered.inj hnamed
      obtain ⟨run, hlisted, spec, hsource, hid, hauthorized⟩ := planReply_answered hplan
      obtain ⟨hvalue, htask⟩ := List.mem_filter.1 hlisted
      obtain ⟨k, hk⟩ := (OrderedMap.mem_values_iff _ _).1 hvalue
      have hcallKey : key ∈ call.key := hkey
      have hindexed : run.indexKey = key.index env := by
        rw [← replyRequestId_index task hcallKey, Run.indexKey, Store.requestKey, hsource,
          hid, of_decide_eq_true htask]
      obtain ⟨rfl, rfl, hreceipt⟩ :=
        receipt_of_answer ((hs.runKeyed hk).symm ▸ hk) hcallKey hindexed hauthorized
      obtain ⟨y, hfrozen, hy⟩ := hreceipt.kept hkept
      exact ⟨y, runId_of_frozen hfrozen, by rw [param_of_frozen hfrozen], hy.stored, hy.index,
        hy.same⟩
    | ok plan =>
      have hphases : ∀ outcome, (call.planned (.ok plan)).phase ≠ .answered outcome := by
        intro outcome hanswered
        simp only [ReplyCall.planned] at hanswered
        split_ifs at hanswered
      have hown : (call.planned (.ok plan)).plan = some plan := by
        unfold ReplyCall.plan ReplyCall.planned
        by_cases hresume : plan.mayResume call.request
        · simp [hresume]
        · simp [hresume]
      refine ⟨?_, by simp [ReplyCall.planned, hnone], by simp [ReplyCall.planned, hnone],
        fun _ _ hnamed => absurd hnamed (hphases _)⟩
      intro plan' hplan' key hkey
      obtain rfl : plan = plan' := Option.some.inj (hown.symm.trans hplan')
      rw [planReply_ok hplan]
      exact replyRequestId_index task hkey
  · rename_i plan hphase
    have hnone := h.unminted (by simp [hphase])
    refine ⟨?_, by simp [hnone], by simp [hnone], by simp⟩
    intro plan' hplan' key hkey
    obtain rfl : plan = plan' := Option.some.inj hplan'
    exact h.planned plan (by rw [ReplyCall.plan, hphase]; rfl) key hkey
  · rename_i plan resume hphase
    split
    · have hnone := h.unminted (by simp [hphase])
      exact ⟨by simp [ReplyCall.plan], by simp [hnone], by simp [hnone], by simp⟩
    · rename_i input hinput
      obtain rfl := hnext input hinput
      exact h.requested hs hindex hphase hinput hkept
  · exact h.kept hkept
  · exact h.kept hkept

end Calls

/-! ### Any number of calls -/

/-- The other callers' requests come from callers. -/
def ReplyStep.external : ReplyStep → Bool
  | .world label => label.external
  | _ => true

/-- The run that the call minted is minted by no other call. -/
def ReplyWorld.Single (w : ReplyWorld) : Prop :=
  ∀ {i j a b key}, w.calls.get i = some a → w.calls.get j = some b → key ∈ a.key → key ∈ b.key →
    a.minted.isSome = true → b.minted.isSome = true → i = j

/-- What holds of a system with replies in flight. -/
structure ReplyWorld.Sound (env : ReplyEnv) (w : ReplyWorld) : Prop where
  reached : ∃ labels, (∀ label ∈ labels, label.external = true) ∧ w.world = World.init.run labels
  calls : ∀ {id call}, w.calls.get id = some call → call.Sound env w.world.store
  single : w.Single

section Run

variable {env : ReplyEnv} {w : ReplyWorld}

theorem ReplyWorld.Sound.coherent (h : w.Sound env) : w.world.Coherent := by
  obtain ⟨labels, -, hw⟩ := h.reached
  rw [hw]
  exact World.coherent_run labels

theorem ReplyWorld.Sound.history (h : w.Sound env) : History w.world.store := by
  obtain ⟨labels, hexternal, hw⟩ := h.reached
  rw [hw]
  exact World.history_run hexternal

theorem ReplyWorld.Sound.index (h : w.Sound env) : IndexSound w.world.store := by
  obtain ⟨labels, -, hw⟩ := h.reached
  rw [hw]
  exact World.indexSound_run labels

theorem ReplyWorld.Sound.runsKept (h : w.Sound env) (step : ReplyStep) :
    RunsKept w.world.store (w.step env step).world.store := by
  intro id x hx
  unfold ReplyWorld.step
  cases w.label step with
  | none => exact ⟨x, hx, rfl⟩
  | some label =>
    obtain ⟨now, y, hy, hmove⟩ := (h.coherent.change label).run_moves h.coherent.store hx
    exact ⟨y, hy, hmove.frozen⟩

theorem ReplyWorld.label_external {step : ReplyStep} (hstep : step.external = true) {label : Step}
    (h : w.label step = some label) : label.external = true := by
  cases step with
  | world own =>
    obtain rfl := Option.some.inj h
    exact hstep
  | call id principal intervention request => cases h
  | resume id now sessions =>
    obtain ⟨input, hinput, rfl⟩ := Option.map_eq_some_iff.1 h
    obtain ⟨call, -, hinput⟩ := Option.bind_eq_some_iff.1 hinput
    unfold ReplyCall.input at hinput
    split at hinput
    · obtain ⟨hplain, hsource, -⟩ := replyInput_plain hinput
      simp [Step.external, hsource, hplain.revision]
    · cases hinput

theorem ReplyWorld.Sound.reached_step (h : w.Sound env) {step : ReplyStep}
    (hstep : step.external = true) :
    ∃ labels, (∀ label ∈ labels, label.external = true) ∧
      (w.step env step).world = World.init.run labels := by
  obtain ⟨labels, hexternal, hw⟩ := h.reached
  unfold ReplyWorld.step
  cases hlabel : w.label step with
  | none => exact ⟨labels, hexternal, hw⟩
  | some label =>
    refine ⟨labels ++ [label], ?_, ?_⟩
    · intro l hl
      rcases List.mem_append.1 hl with hl | hl
      · exact hexternal l hl
      · obtain rfl := List.mem_singleton.1 hl
        exact label_external hstep hlabel
    · rw [World.run_append, ← hw]
      rfl

/-- The calls after a step: one may have moved, the others are as they were. -/
theorem ReplyWorld.step_calls (step : ReplyStep) {id : Nat} {call : ReplyCall}
    (h : (w.step env step).calls.get id = some call) :
    w.calls.get id = some call ∨
      (w.calls.get id = none ∧ call.minted = none ∧ call.plan = none ∧
        ∀ runId resumed, call.phase ≠ .answered (.ok runId resumed)) ∨
      ∃ now sessions before, step = .resume id now sessions ∧ w.calls.get id = some before ∧
        call = before.resume env w.world.store now sessions := by
  cases step with
  | world label => exact .inl h
  | call new principal intervention request =>
    unfold ReplyWorld.step at h
    dsimp only at h
    by_cases hknown : (w.calls.get new).isSome = true
    · rw [if_pos hknown] at h
      exact .inl h
    rw [if_neg hknown, OrderedMap.get_set] at h
    by_cases hid : id = new
    · rw [if_pos hid] at h
      obtain rfl := Option.some.inj h
      refine .inr (.inl ⟨by simpa [hid] using hknown, rfl, ?_, fun runId resumed => ?_⟩)
      · cases principal <;> rfl
      · cases principal <;> simp
    · rw [if_neg hid] at h
      exact .inl h
  | resume moved now sessions =>
    unfold ReplyWorld.step at h
    dsimp only at h
    split at h
    · exact .inl h
    · rename_i before hbefore
      rw [OrderedMap.get_set] at h
      split_ifs at h with hid
      · subst hid
        exact .inr (.inr ⟨now, sessions, before, rfl, hbefore, (Option.some.inj h).symm⟩)
      · exact .inl h

theorem ReplyWorld.Sound.calls_step (h : w.Sound env) (step : ReplyStep) {id : Nat}
    {call : ReplyCall} (hcall : (w.step env step).calls.get id = some call) :
    call.Sound env (w.step env step).world.store := by
  rcases step_calls step hcall with hold | ⟨-, hminted, hplan, hnamed⟩ |
    ⟨now, sessions, before, rfl, hbefore, rfl⟩
  · exact (h.calls hold).kept (h.runsKept step)
  · refine ⟨by simp [hplan], by simp [hminted], by simp [hminted], ?_⟩
    exact fun runId resumed hphase => absurd hphase (hnamed runId resumed)
  · refine (h.calls hbefore).resume h.coherent.store h.index sessions ?_ (h.runsKept _)
    intro input hinput
    have hlabel : w.label (.resume id now sessions) = some (.request now input) := by
      rw [ReplyWorld.label, hbefore, Option.bind_some, show before.input = some input from hinput]
      rfl
    rw [ReplyWorld.step, hlabel]
    rfl

/-- A call mints a run in its request only, and that run was not stored. -/
theorem ReplyCall.resume_minted (env : ReplyEnv) {s : Store} (hs : s.Coherent) (call : ReplyCall) (now : Time)
    (sessions : List ReplySession) :
    (call.resume env s now sessions).minted = call.minted ∨
      ∀ runId ∈ (call.resume env s now sessions).minted, s.runs.get runId = none := by
  unfold ReplyCall.resume
  split
  · refine .inl ?_
    unfold ReplyCall.found
    split
    · rfl
    · split <;> rfl
  · exact .inl (by unfold ReplyCall.planned; split <;> rfl)
  · exact .inl rfl
  · rename_i plan resume hphase
    split
    · exact .inl rfl
    rename_i input hinput
    refine .inr fun runId hrunId => ?_
    rw [ReplyCall.input, hphase] at hinput
    obtain ⟨hplain, -⟩ := replyInput_plain hinput
    cases houtcome : (Orchestrator.request s now input).1 with
    | error stop =>
      rw [houtcome] at hrunId
      cases hrunId
    | ok d =>
      obtain ⟨m, hrun, hnew, -⟩ := plainRequest_minted hs hplain houtcome
      have hid : m.runId = runId := by
        simpa [ReplyCall.requested, houtcome, Except.toOption, hrun] using hrunId
      exact hid ▸ hnew
  · exact .inl rfl
  · exact .inl rfl

theorem ReplyCall.resume_key {s : Store} (call : ReplyCall) (now : Time)
    (sessions : List ReplySession) : (call.resume env s now sessions).key = call.key := by
  have hkept : (call.resume env s now sessions).request = call.request ∧
      (call.resume env s now sessions).principal = call.principal := by
    unfold ReplyCall.resume
    split
    · unfold ReplyCall.found
      split
      · exact ⟨rfl, rfl⟩
      · split <;> exact ⟨rfl, rfl⟩
    · unfold ReplyCall.planned
      split <;> exact ⟨rfl, rfl⟩
    · exact ⟨rfl, rfl⟩
    · split <;> exact ⟨rfl, rfl⟩
    · exact ⟨rfl, rfl⟩
    · exact ⟨rfl, rfl⟩
  rw [ReplyCall.key, hkept.1, hkept.2, ReplyCall.key]

/-- A call that moves mints nothing that another call of its key minted before. -/
theorem ReplyWorld.Sound.single_moved (h : w.Sound env) {now : Time}
    {sessions : List ReplySession} {i j : Nat} {before b : ReplyCall} {key : ReplyKey}
    (hexternal : (ReplyStep.resume i now sessions).external = true)
    (hbefore : w.calls.get i = some before) (hb : w.calls.get j = some b)
    (hkey : key ∈ before.key) (hkey' : key ∈ b.key)
    (hminted : (before.resume env w.world.store now sessions).minted.isSome = true)
    (hminted' : b.minted.isSome = true) : i = j := by
  rcases before.resume_minted env h.coherent.store now sessions with hsame | hnew
  · rw [hsame] at hminted
    exact h.single hbefore hb hkey hkey' hminted hminted'
  -- both runs are stored under one identity, so the new one was stored before
  exfalso
  obtain ⟨runId, hrunId⟩ := Option.isSome_iff_exists.1 hminted
  obtain ⟨runId', hrunId'⟩ := Option.isSome_iff_exists.1 hminted'
  have hstep : (w.step env (.resume i now sessions)).calls.get i =
      some (before.resume env w.world.store now sessions) := by
    rw [ReplyWorld.step]
    dsimp only
    rw [hbefore]
    exact OrderedMap.get_set_self _ _ _
  obtain ⟨x, rfl, hx⟩ := (h.calls_step _ hstep).minted runId hrunId key
    ((before.resume_key now sessions).symm ▸ hkey)
  obtain ⟨y, rfl, hy⟩ := (h.calls hb).minted runId' hrunId' key hkey'
  obtain ⟨y', hy', hfrozen⟩ := h.runsKept (.resume i now sessions) hy.stored
  obtain ⟨labels, hlabels, hworld⟩ := h.reached_step hexternal
  have hunique : x = y' := by
    have hcoherent := (World.coherent_run labels).store
    have hhistory := World.history_run hlabels
    rw [← hworld] at hcoherent hhistory
    refine hhistory.unique hcoherent hx.stored hy' (indexKey_eq_iff.1 ?_)
    rw [hx.index, indexKey_of_frozen hfrozen, hy.index]
  have hnone := hnew x.runId hrunId
  rw [hunique, runId_of_frozen hfrozen, hy.stored] at hnone
  cases hnone

theorem ReplyWorld.Sound.step (h : w.Sound env) {step : ReplyStep}
    (hstep : step.external = true) : (w.step env step).Sound env where
  reached := h.reached_step hstep
  calls := h.calls_step step
  single := by
    intro i j a b key ha hb hkey hkey' hminted hminted'
    rcases step_calls step ha with hold | ⟨-, hnone, -⟩ | ⟨now, sessions, before, rfl, hbefore, rfl⟩
    · rcases step_calls step hb with hold' | ⟨-, hnone, -⟩ |
        ⟨now, sessions, before, rfl, hbefore, rfl⟩
      · exact h.single hold hold' hkey hkey' hminted hminted'
      · rw [hnone] at hminted'
        cases hminted'
      · exact (h.single_moved hstep hbefore hold (before.resume_key now sessions ▸ hkey') hkey
          hminted' hminted).symm
    · rw [hnone] at hminted
      cases hminted
    · rcases step_calls _ hb with hold' | ⟨-, hnone, -⟩ | ⟨_, _, before', hmoved, hbefore', rfl⟩
      · exact h.single_moved hstep hbefore hold' (before.resume_key now sessions ▸ hkey) hkey'
          hminted hminted'
      · rw [hnone] at hminted'
        cases hminted'
      · exact (ReplyStep.resume.inj hmoved).1

theorem ReplyWorld.sound_init : ReplyWorld.init.Sound env where
  reached := ⟨[], by simp, rfl⟩
  calls := nofun
  single := nofun

theorem ReplyWorld.sound_run {steps : List ReplyStep}
    (hexternal : ∀ step ∈ steps, step.external = true) : (ReplyWorld.init.run env steps).Sound env :=
  Machine.Along.invariant (fun w : ReplyWorld => w.Sound env) (fun _ _ hw hstep => hw.step hstep)
    ReplyWorld.sound_init (Machine.Along.of_forall_mem hexternal)

theorem ReplyWorld.Sound.runsKept_run (h : w.Sound env) {rest : List ReplyStep}
    (hexternal : ∀ step ∈ rest, step.external = true) :
    RunsKept w.world.store (w.run env rest).world.store := by
  intro id x hx
  have hkept : (w.run env rest).Sound env ∧
      ∃ y, (w.run env rest).world.store.runs.get id = some y ∧ y.frozen = x.frozen := by
    refine Machine.Along.invariant (C := fun _ step => step.external = true)
      (fun v : ReplyWorld => v.Sound env ∧
        ∃ y, v.world.store.runs.get id = some y ∧ y.frozen = x.frozen) ?_ ⟨h, x, hx, rfl⟩
      (Machine.Along.of_forall_mem hexternal)
    rintro v step ⟨hv, y, hy, hfrozen⟩ hstep
    obtain ⟨z, hz, hzy⟩ := hv.runsKept step hy
    exact ⟨hv.step hstep, z, hz, hzy.trans hfrozen⟩
  exact hkept.2

end Run

/-- Whatever happens between the steps of any number of replies: a key stands for one run, ever, and
at most one call mints it; an answer that names a run names that one and says of it whether it
resumes; a call that was answered with it asked for what the minting call asked for; and the minting
call is not refused for a different reply. -/
theorem reply_once (env : ReplyEnv) {steps : List ReplyStep}
    (hexternal : ∀ step ∈ steps, step.external = true) :
    let w := ReplyWorld.init.run env steps
    (∀ (key : ReplyKey) first rest, steps = first ++ rest → ∀ i j x y,
      (ReplyWorld.init.run env first).world.store.runs.get i = some x →
      w.world.store.runs.get j = some y → x.indexKey = key.index env →
      y.indexKey = key.index env → i = j ∧ y.frozen = x.frozen) ∧
    ∀ key i j a b, w.calls.get i = some a → w.calls.get j = some b → key ∈ a.key → key ∈ b.key →
      (a.minted.isSome = true → b.minted.isSome = true → i = j) ∧
      (∀ runId ∈ a.minted, ∃ x, w.world.store.runs.get runId = some x ∧
        x.indexKey = key.index env) ∧
      (∀ runId resumed, a.phase = .answered (.ok runId resumed) →
        ∃ x, w.world.store.runs.get runId = some x ∧ x.indexKey = key.index env ∧
          resumed = (x.param "resumeSessionId").isSome) ∧
      (∀ minted ∈ a.minted, ∀ runId resumed, b.phase = .answered (.ok runId resumed) →
        runId = minted ∧ b.request.content = a.request.content) ∧
      (a.minted.isSome = true →
        ∀ message, a.phase ≠ .answered (.failed .conflict message)) := by
  intro w
  have hw : w.Sound env := ReplyWorld.sound_run hexternal
  have hs := hw.coherent.store
  refine ⟨?_, ?_⟩
  · rintro key first rest rfl i j x y hx hy hkey hkey'
    have hfirst : (ReplyWorld.init.run env first).Sound env :=
      ReplyWorld.sound_run fun step hstep => hexternal step (List.mem_append_left _ hstep)
    have hrun : w = (ReplyWorld.init.run env first).run env rest := Machine.run_append _ _ _ _
    obtain ⟨z, hz, hfrozen⟩ := hfirst.runsKept_run
      (fun step hstep => hexternal step (List.mem_append_right _ hstep)) hx
    rw [← hrun] at hz
    obtain rfl : z = y := hw.history.unique hs hz hy
      (indexKey_eq_iff.1 ((indexKey_of_frozen hfrozen).trans (hkey.trans hkey'.symm)))
    exact ⟨(hs.runKeyed hz).symm.trans (hs.runKeyed hy), hfrozen⟩
  intro key i j a b ha hb hkey hkey'
  refine ⟨hw.single ha hb hkey hkey', ?_, ?_, ?_, ?_⟩
  · intro runId hminted
    obtain ⟨x, rfl, hx⟩ := (hw.calls ha).minted runId hminted key hkey
    exact ⟨x, hx.stored, hx.index⟩
  · intro runId resumed hphase
    obtain ⟨x, rfl, hresumed, hx⟩ := (hw.calls ha).named runId resumed hphase key hkey
    exact ⟨x, hx.stored, hx.index, hresumed⟩
  · intro minted hminted runId resumed hphase
    obtain ⟨x, rfl, hx⟩ := (hw.calls ha).minted minted hminted key hkey
    obtain ⟨y, rfl, -, hy⟩ := (hw.calls hb).named runId resumed hphase key hkey'
    obtain rfl : y = x := hw.history.unique hs hy.stored hx.stored
      (indexKey_eq_iff.1 (hy.index.trans hx.index.symm))
    exact ⟨rfl, content_of_sameReply hy.same hx.same⟩
  · intro hminted message hphase
    obtain ⟨outcome, hanswered, hnot⟩ := (hw.calls ha).decided hminted
    exact hnot message (ReplyPhase.answered.inj (hanswered.symm.trans hphase))

/-! ### Two retries of one reply -/

namespace Sample

def replyEnv : ReplyEnv :=
  { locale := { weights := fun c => [c.toNat], numbers := 0 }
    localeCompare := fun a b => compareOfLessAndEq a b
    sha256 := fun _ => "ba9656b982a628349011988401e578c290cb1fab1feccbe7030107ab123210d1"
    admitted := fun repository => repository = "o/r" }

/-- An item whose first run is queued on another provider. -/
def queuedItem : List ReplyStep :=
  [.world (.request 0 (mintRequest "w" { principal := "user:o", channel := "api" }
     { title := "t", description := "d", pipeline := "claude", priority := .normal
       fallbackPipelines := none, deliveryRuntime := none, deliverable := none, repo := "o/r" }
     none)),
   .world (.enqueueRun runId 1)]

def replier : WorkAuthority := { principal := "user:o", pipelines := ["claude", "codex"] }

def keyedReply : ReplyRequest :=
  { task := taskId, text := "go on", channel := "api", principal := "user:o"
    requestId := some "k", pipeline := some "codex" }

def replyKey : ReplyKey := { task := "work:w", principal := "user:o", requestId := "k" }

/-- Both calls plan before either one asks. -/
def replies : List ReplyStep :=
  queuedItem ++ [.call 0 (some replier) none keyedReply, .call 1 (some replier) none keyedReply,
    .resume 0 2 [], .resume 0 2 [], .resume 1 3 [], .resume 1 3 [], .resume 0 4 [],
    .resume 1 5 []]

end Sample

/-- The second call finds the run inside its transaction and names it. -/
theorem reply_once_replies :
    ∃ a b, (ReplyWorld.init.run Sample.replyEnv Sample.replies).calls.get 0 = some a ∧
      (ReplyWorld.init.run Sample.replyEnv Sample.replies).calls.get 1 = some b ∧
      a.minted = some "work:w/r2" ∧ b.minted = none ∧
      b.phase = .answered (.ok "work:w/r2" false) ∧ b.request.content = a.request.content := by
  have hfirst : ((ReplyWorld.init.run Sample.replyEnv Sample.replies).calls.get 0).any (fun a =>
      a.key = some Sample.replyKey ∧ a.minted = some "work:w/r2") = true := by decide +kernel
  have hsecond : ((ReplyWorld.init.run Sample.replyEnv Sample.replies).calls.get 1).any (fun b =>
      b.key = some Sample.replyKey ∧ b.minted = none ∧
        b.phase = .answered (.ok "work:w/r2" false)) = true := by decide +kernel
  obtain ⟨a, ha, hfirst⟩ := (Option.any_eq_true _ _).1 hfirst
  obtain ⟨b, hb, hsecond⟩ := (Option.any_eq_true _ _).1 hsecond
  rw [decide_eq_true_eq] at hfirst hsecond
  obtain ⟨hkey, hminted⟩ := hfirst
  obtain ⟨hkey', hnone, hphase⟩ := hsecond
  obtain ⟨-, -, -, hcontent, -⟩ := (reply_once Sample.replyEnv
    (by decide : ∀ step ∈ Sample.replies, step.external = true)).2 Sample.replyKey 0 1 a b ha hb
      hkey hkey'
  exact ⟨a, b, ha, hb, hminted, hnone, hphase, (hcontent _ hminted _ _ hphase).2⟩

end AgentLcars
