import AgentLcars.Coherence
import AgentLcars.Lib.GuardedRegister

/-!
# The needs-human label

`handleReportOutcome` projects a parked run to a label of its GitHub anchor, and a later success
takes the label off again.  Outcome entries are delivered in any order, late and more than once;
each delivery asks the run history of that moment whether a later run says otherwise.

* `handleReportOutcome` is the part of the handler that follows the posted comment.
* A run's `verdict` is fixed once it has one, so between two settlements that give one the
  deliveries are the writers of a guarded register.
* `Projection.label_converges` is the result.
-/

namespace AgentLcars

/-- `parseRunGeneration`: the trailing `/r<n>` of a run id. -/
def parseRunGeneration (runId : String) : Option Nat :=
  let text := runId.toList.reverse
  match text.takeWhile Char.isDigit, text.dropWhile Char.isDigit with
  | c :: digits, 'r' :: '/' :: _ =>
    let generation := Nat.ofDigitChars 10 (c :: digits).reverse 0
    if generation ≤ MAX_SAFE_INTEGER then some generation else none
  | _, _ => none

/-- Only an explicit agent park establishes a human-only blocker. -/
def runNeedsHumanLabel (run : Run) : Bool := run.result.bind (·.summary) = some "park"

/-- A success that is no park resolves an earlier request for a human. -/
def runResolvesNeedsHumanLabel (run : Run) : Bool :=
  run.state = .finished ∧ run.result.any (·.ok) ∧ run.result.bind (·.summary) ≠ some "park"

/-- The candidate has the higher generation. -/
def isLaterRun (candidate run : Run) : Bool :=
  match parseRunGeneration candidate.runId, parseRunGeneration run.runId with
  | some candidateGeneration, some generation => generation < candidateGeneration
  | _, _ => false

/-- A later run of the task meets the condition. -/
def hasLaterRunMatching (s : Store) (run : Run) (found : Run → Bool) : Bool :=
  (s.listRuns run.task).any fun candidate => isLaterRun candidate run && found candidate

/-- A later run succeeded without parking. -/
def hasLaterSuccessfulNonParkRun (s : Store) (run : Run) : Bool :=
  hasLaterRunMatching s run runResolvesNeedsHumanLabel

/-- A later run parked. -/
def hasLaterNeedsHumanRun (s : Store) (run : Run) : Bool :=
  hasLaterRunMatching s run runNeedsHumanLabel

/-- The labelled anchors after the outcome of a run is delivered. -/
def handleReportOutcome (s : Store) (labels : List (String × Nat)) (runId : String) :
    List (String × Nat) :=
  match s.runs.get runId with
  | none => labels
  | some run =>
    match run.task with
    -- A native anchor has no issue to label.
    | .work _ => labels
    | .github repo issue =>
      if run.state = .finished ∧ runNeedsHumanLabel run then
        if hasLaterSuccessfulNonParkRun s run then labels
        else (repo, issue) :: labels.filter (· ≠ (repo, issue))
      else if runResolvesNeedsHumanLabel run then
        if hasLaterNeedsHumanRun s run then labels
        else labels.filter (· ≠ (repo, issue))
      else labels

/-- The system and the labels of its anchors. -/
structure Projection where
  world : World
  labels : List (String × Nat)

/-- A step of the system, or a delivery of the outcome of a run. -/
inductive ProjectionAct where
  | step (label : Step)
  | reportOutcome (runId : String)

/-- The empty system without labels. -/
def Projection.init : Projection := { world := .init, labels := [] }

/-- One act; a delivery reads the history and makes its label call at once. -/
def Projection.step (p : Projection) : ProjectionAct → Projection
  | .step label => { p with world := p.world.step label }
  | .reportOutcome runId =>
    { p with labels := handleReportOutcome p.world.store p.labels runId }

/-- The projection after a list of acts. -/
def Projection.run (p : Projection) (acts : List ProjectionAct) : Projection :=
  Machine.run Projection.step p acts

/-! ### Generations -/

/-- The generation of a run is read back off its id. -/
theorem parseRunGeneration_runIdOf (key : String) (n : Nat) :
    parseRunGeneration (runIdOf key n) = if n ≤ MAX_SAFE_INTEGER then some n else none := by
  have hdigits : ∀ c ∈ (toString n).toList.reverse, c.isDigit = true := fun c hc =>
    Text.isDigit_of_mem_toString (List.mem_reverse.1 hc)
  have htext : (runIdOf key n).toList.reverse =
      (toString n).toList.reverse ++ 'r' :: '/' :: key.toList.reverse := by
    simp [runIdOf, String.toList_append]
  have hvalue : Nat.ofDigitChars 10 (toString n).toList 0 = n := by
    rw [Nat.toString_eq_repr, Nat.toList_repr, Nat.ofDigitChars_ten_toDigits]
  unfold parseRunGeneration
  dsimp only
  rw [htext, List.takeWhile_append_of_pos hdigits, List.dropWhile_append_of_pos hdigits]
  rw [List.takeWhile_cons_of_neg (by decide), List.dropWhile_cons_of_neg (by decide),
    List.append_nil]
  cases hreverse : (toString n).toList.reverse with
  | nil =>
    have hempty : (toString n).toList = [] := List.reverse_eq_nil_iff.1 hreverse
    rw [Nat.toString_eq_repr, Nat.toList_repr] at hempty
    exact absurd hempty Nat.toDigits_ne_nil
  | cons c digits =>
    have htext' : (c :: digits).reverse = (toString n).toList := by
      rw [← hreverse, List.reverse_reverse]
    simp only [htext', hvalue]

/-- A repository name has no colon, so no native anchor has the key of a GitHub one. -/
theorem taskKey_eq_github {t : TaskId} {repo : String} {issue : Nat} (hrepo : ':' ∉ repo.toList)
    (h : taskKey t = taskKey (.github repo issue)) : t = .github repo issue := by
  cases t with
  | github repo' issue' =>
    obtain ⟨rfl, rfl⟩ := Text.append_decimal_inj "" (c := '#') (by decide) h
    rfl
  | work workId =>
    have hcolon : ':' ∈ (taskKey (.github repo issue)).toList := by
      rw [← h]
      simp [taskKey]
    rw [taskKey, String.toList_append, String.toList_append, List.mem_append, List.mem_append]
      at hcolon
    rcases hcolon with (hcolon | hcolon) | hcolon
    · exact absurd hcolon hrepo
    · exact absurd hcolon (by decide)
    · exact absurd (Text.isDigit_of_mem_toString hcolon) (by decide)

/-! ### Verdicts -/

/-- Whether a run of the task asks for a human or resolves an earlier request; most do neither. -/
def Store.verdict (s : Store) (task : TaskId) (id : String) : Option Bool :=
  (s.runs.get id).bind fun r =>
    if r.task ≠ task then none
    else if runNeedsHumanLabel r then some true
    else if runResolvesNeedsHumanLabel r then some false
    else none

/-- The run of the first id has the higher generation. -/
def LaterId (j i : String) : Prop :=
  ∃ m n, parseRunGeneration j = some m ∧ parseRunGeneration i = some n ∧ n < m

/-- Only a finished run has a result. -/
def ResultsFinished (s : Store) : Prop :=
  ∀ id r, s.runs.get id = some r → r.result.isSome = true → r.state = .finished

section Verdict

variable {s s' : Store} {task : TaskId} {id : String} {r : Run} {label : Step}

theorem isLaterRun_iff {candidate run : Run} :
    isLaterRun candidate run = true ↔ LaterId candidate.runId run.runId := by
  unfold isLaterRun LaterId
  cases parseRunGeneration candidate.runId <;> cases parseRunGeneration run.runId <;> simp

theorem verdict_eq_true : s.verdict task id = some true ↔
    ∃ r, s.runs.get id = some r ∧ r.task = task ∧ runNeedsHumanLabel r = true := by
  unfold Store.verdict
  cases s.runs.get id with
  | none => simp
  | some r =>
    rw [Option.bind_some]
    split_ifs <;> simp_all

theorem verdict_eq_false : s.verdict task id = some false ↔
    ∃ r, s.runs.get id = some r ∧ r.task = task ∧ runNeedsHumanLabel r = false ∧
      runResolvesNeedsHumanLabel r = true := by
  unfold Store.verdict
  cases s.runs.get id with
  | none => simp
  | some r =>
    rw [Option.bind_some]
    split_ifs <;> simp_all

theorem resolves_not_park (h : runResolvesNeedsHumanLabel r = true) :
    runNeedsHumanLabel r = false := by
  simp only [runResolvesNeedsHumanLabel, decide_eq_true_eq] at h
  simp [runNeedsHumanLabel, h.2.2]

theorem Move.reported {now : Time} {r' : Run} (hmove : Move label now r r')
    (h : r.result.isSome = true → r.state = .finished) :
    r'.result.isSome = true → r'.state = .finished := by
  have hunreported : isLive r.state = true → r.result.isSome = true → False := by
    intro hlive hsome
    rw [h hsome] at hlive
    cases hlive
  cases hmove with
  | confirm hpending =>
    intro hsome
    exact absurd hsome (hunreported (by rw [hpending]; rfl))
  | settle hlive _ hs hc =>
    rw [hc.state, hc.result]
    cases hs with
    | report => exact fun _ => rfl
    | _ => exact fun hsome => absurd hsome (hunreported hlive)
  | complete => exact fun _ => rfl
  | _ => exact h

theorem Change.reported (hs : s.Coherent) (h : Change label s s') (hinv : ResultsFinished s) :
    ResultsFinished s' := by
  intro id x hx
  rcases h.run_cases hs hx with ⟨now, r, hr, hmove⟩ | ⟨-, hfresh⟩
  · exact hmove.reported (hinv id r hr)
  · intro hsome
    rw [hfresh.result] at hsome
    cases hsome

/-- A verdict is final. -/
theorem Change.verdict (hs : s.Coherent) (h : Change label s s') (hinv : ResultsFinished s)
    {b : Bool} (hverdict : s.verdict task id = some b) : s'.verdict task id = some b := by
  have hterminal : ∀ r, s.runs.get id = some r → r.result.isSome = true →
      ∃ r', s'.runs.get id = some r' ∧ r'.task = r.task ∧ r'.state = r.state ∧
        r'.result = r.result := by
    intro r hr hsome
    obtain ⟨_, r', hr', hmove⟩ := h.run_moves hs hr
    have hdead : isLive r.state = false := by rw [hinv id r hr hsome]; rfl
    exact ⟨r', hr', task_of_frozen hmove.frozen, hmove.terminal hdead⟩
  cases b with
  | true =>
    obtain ⟨r, hr, htask, hpark⟩ := verdict_eq_true.1 hverdict
    have hsome : r.result.isSome = true := by
      cases hresult : r.result with
      | none => simp [runNeedsHumanLabel, hresult] at hpark
      | some => rfl
    obtain ⟨r', hr', htask', -, hresult⟩ := hterminal r hr hsome
    refine verdict_eq_true.2 ⟨r', hr', htask'.trans htask, ?_⟩
    rw [runNeedsHumanLabel, hresult]
    exact hpark
  | false =>
    obtain ⟨r, hr, htask, hpark, hresolves⟩ := verdict_eq_false.1 hverdict
    have hsome : r.result.isSome = true := by
      cases hresult : r.result with
      | none => simp [runResolvesNeedsHumanLabel, hresult] at hresolves
      | some => rfl
    obtain ⟨r', hr', htask', hstate, hresult⟩ := hterminal r hr hsome
    refine verdict_eq_false.2 ⟨r', hr', htask'.trans htask, ?_, ?_⟩
    · rw [runNeedsHumanLabel, hresult]
      exact hpark
    · rw [runResolvesNeedsHumanLabel, hresult, hstate]
      exact hresolves

end Verdict

/-! ### Deliveries -/

section Delivery

variable {p : Projection} {repo : String} {issue : Nat} {id : String} {act : ProjectionAct}

/-- The anchor is labelled. -/
def Projection.labelled (p : Projection) (repo : String) (issue : Nat) : Bool :=
  decide ((repo, issue) ∈ p.labels)

/-- A later run of the task meets the condition. -/
theorem hasLaterRunMatching_iff (hs : p.world.store.Coherent) (hrepo : ':' ∉ repo.toList) {r : Run}
    (hr : p.world.store.runs.get id = some r) (htask : r.task = .github repo issue)
    {found : Run → Bool} : hasLaterRunMatching p.world.store r found = true ↔
      ∃ j x, p.world.store.runs.get j = some x ∧ x.task = .github repo issue ∧ LaterId j id ∧
        found x = true := by
  simp only [hasLaterRunMatching, Store.listRuns, List.any_eq_true, List.mem_filter,
    decide_eq_true_eq, Bool.and_eq_true, isLaterRun_iff, hs.runKeyed hr, htask]
  constructor
  · rintro ⟨x, ⟨hmem, hkey⟩, hlater, hfound⟩
    obtain ⟨j, hj⟩ := (OrderedMap.mem_values_iff _ _).1 hmem
    exact ⟨j, x, hj, taskKey_eq_github hrepo hkey, hs.runKeyed hj ▸ hlater, hfound⟩
  · rintro ⟨j, x, hj, hx, hlater, hfound⟩
    exact ⟨x, ⟨(OrderedMap.mem_values_iff _ _).2 ⟨j, hj⟩, by rw [hx]⟩,
      (hs.runKeyed hj).symm ▸ hlater, hfound⟩

theorem needsHuman_finished (hinv : ResultsFinished p.world.store) {r : Run}
    (hr : p.world.store.runs.get id = some r) (hpark : runNeedsHumanLabel r = true) :
    r.state = .finished := by
  refine hinv id r hr ?_
  cases hresult : r.result with
  | none => simp [runNeedsHumanLabel, hresult] at hpark
  | some => rfl

/-- A delivery for another task leaves the anchor alone. -/
theorem handleReportOutcome_other {s : Store} {labels : List (String × Nat)} {r : Run}
    (hr : s.runs.get id = some r) (htask : r.task ≠ .github repo issue) :
    (repo, issue) ∈ handleReportOutcome s labels id ↔ (repo, issue) ∈ labels := by
  rw [handleReportOutcome, hr]
  dsimp only
  split
  · rfl
  · rename_i repo' issue' hother
    have hne : (repo, issue) ≠ (repo', issue') := by
      rintro ⟨⟩
      exact htask hother
    split_ifs <;> simp [hne]

/-- A delivery writes the label as a guarded writer. -/
theorem Projection.reportOutcome_writes (p : Projection) (repo : String) (issue : Nat)
    (hs : p.world.store.Coherent) (hinv : ResultsFinished p.world.store) (hrepo : ':' ∉ repo.toList) (id : String) :
    GuardedRegister.Writes (p.world.store.verdict (.github repo issue)) LaterId id
      (p.labelled repo issue) ((p.step (.reportOutcome id)).labelled repo issue) := by
  change GuardedRegister.Writes _ _ _ (decide ((repo, issue) ∈ p.labels))
    (decide ((repo, issue) ∈ handleReportOutcome p.world.store p.labels id))
  cases hr : p.world.store.runs.get id with
  | none =>
    simp only [handleReportOutcome, hr]
    exact .silent (by rw [Store.verdict, hr]; rfl)
  | some r =>
    by_cases htask : r.task = .github repo issue
    swap
    · rw [decide_eq_decide.2 (handleReportOutcome_other hr htask)]
      refine .silent ?_
      rw [Store.verdict, hr, Option.bind_some, if_pos htask]
    have hlater : ∀ {found}, hasLaterRunMatching p.world.store r found = true ↔ _ :=
      hasLaterRunMatching_iff hs hrepo hr htask
    simp only [handleReportOutcome, hr, htask]
    split_ifs with hpark hresolved hresolves hparked
    · obtain ⟨j, x, hj, hx, hji, hfound⟩ := hlater.1 hresolved
      have hverdict : p.world.store.verdict (.github repo issue) id = some true :=
        verdict_eq_true.2 ⟨r, hr, htask, hpark.2⟩
      have hopposed : p.world.store.verdict (.github repo issue) j = some false :=
        verdict_eq_false.2 ⟨x, hj, hx, resolves_not_park hfound, hfound⟩
      exact .guarded j hverdict hji hopposed (by decide)
    · rw [decide_eq_true (List.mem_cons_self ..)]
      refine .sets (verdict_eq_true.2 ⟨r, hr, htask, hpark.2⟩) fun j c hji hj => ?_
      cases c with
      | true => rfl
      | false =>
        obtain ⟨x, hx, hxtask, -, hfound⟩ := verdict_eq_false.1 hj
        exact absurd (hlater.2 ⟨j, x, hx, hxtask, hji, hfound⟩) hresolved
    · obtain ⟨j, x, hj, hx, hji, hfound⟩ := hlater.1 hparked
      have hverdict : p.world.store.verdict (.github repo issue) id = some false :=
        verdict_eq_false.2 ⟨r, hr, htask, resolves_not_park hresolves, hresolves⟩
      exact .guarded j hverdict hji (verdict_eq_true.2 ⟨x, hj, hx, hfound⟩) (by decide)
    · have hgone : decide ((repo, issue) ∈ p.labels.filter (· ≠ (repo, issue))) = false := by simp
      rw [hgone]
      refine .sets (verdict_eq_false.2 ⟨r, hr, htask, resolves_not_park hresolves, hresolves⟩)
        fun j c hji hj => ?_
      cases c with
      | false => rfl
      | true =>
        obtain ⟨x, hx, hxtask, hfound⟩ := verdict_eq_true.1 hj
        exact absurd (hlater.2 ⟨j, x, hx, hxtask, hji, hfound⟩) hparked
    · refine .silent ?_
      have hno : ¬runNeedsHumanLabel r = true := fun h => hpark ⟨needsHuman_finished hinv hr h, h⟩
      rw [Store.verdict, hr, Option.bind_some, if_neg (not_not.2 htask), if_neg hno,
        if_neg hresolves]

end Delivery

/-! ### Whole histories -/

/-- An act gives a run of the task its verdict. -/
def Projection.Decides (p : Projection) (task : TaskId) (act : ProjectionAct) : Prop :=
  ∃ id, p.world.store.verdict task id = none ∧
    ((p.step act).world.store.verdict task id).isSome = true

/-- The system under its laws, and no label without a parked run. -/
structure Projection.Sound (p : Projection) : Prop where
  coherent : p.world.Coherent
  results : ResultsFinished p.world.store
  parked : ∀ repo issue, ':' ∉ repo.toList → p.labelled repo issue = true →
    ∃ id, p.world.store.verdict (.github repo issue) id = some true

section Histories

variable {p : Projection} {repo : String} {issue : Nat} {task : TaskId} {act : ProjectionAct}
  {top : String} {b : Bool}

theorem Projection.Sound.step (h : p.Sound) (act : ProjectionAct) : (p.step act).Sound := by
  cases act with
  | step label =>
    have hchange := h.coherent.change label
    refine ⟨h.coherent.step label, hchange.reported h.coherent.store h.results, ?_⟩
    intro repo issue hrepo hlabelled
    obtain ⟨id, hid⟩ := h.parked repo issue hrepo hlabelled
    exact ⟨id, hchange.verdict h.coherent.store h.results hid⟩
  | reportOutcome id =>
    refine ⟨h.coherent, h.results, fun repo issue hrepo hlabelled => ?_⟩
    have hwrites := p.reportOutcome_writes repo issue h.coherent.store h.results hrepo id
    rw [hlabelled] at hwrites
    generalize hbefore : p.labelled repo issue = before at hwrites
    cases hwrites with
    | silent => exact h.parked repo issue hrepo hbefore
    | guarded => exact h.parked repo issue hrepo hbefore
    | sets hset => exact ⟨id, hset⟩

theorem Projection.sound_run (acts : List ProjectionAct) : (Projection.init.run acts).Sound := by
  refine Machine.invariant_run Projection.Sound (fun _ act h => h.step act) ?_ acts
  exact ⟨World.coherent_init, fun _ _ h => (by cases h), fun _ _ _ h => (by cases h)⟩

/-- A delivery gives no verdict. -/
theorem Projection.reportOutcome_quiet (p : Projection) (task : TaskId) (runId : String) :
    ¬p.Decides task (.reportOutcome runId) := by
  rintro ⟨id, hnone, hsome⟩
  exact absurd hnone (Option.isSome_iff_ne_none.1 hsome)

/-- An act that gives no verdict changes none. -/
theorem Projection.Sound.verdict (h : p.Sound) (hquiet : ¬p.Decides task act) :
    (p.step act).world.store.verdict task = p.world.store.verdict task := by
  funext id
  cases act with
  | reportOutcome => rfl
  | step label =>
    cases hverdict : p.world.store.verdict task id with
    | some b => exact (h.coherent.change label).verdict h.coherent.store h.results hverdict
    | none =>
      by_contra hsome
      exact hquiet ⟨id, hverdict, Option.isSome_iff_ne_none.2 hsome⟩

/-- While no run gets a verdict, the label ends with that of the latest run. -/
theorem Projection.Sound.converges (h : p.Sound) (hrepo : ':' ∉ repo.toList)
    {more : List ProjectionAct}
    (hquiet : Machine.Along Projection.step (fun p act => ¬p.Decides (.github repo issue) act)
      p more)
    (hlatest : GuardedRegister.Latest (p.world.store.verdict (.github repo issue)) LaterId top b)
    (hreported : p.labelled repo issue = b ∨ .reportOutcome top ∈ more) :
    (p.run more).labelled repo issue = b := by
  induction more generalizing p with
  | nil => exact hreported.resolve_right List.not_mem_nil
  | cons act rest ih =>
    obtain ⟨hact, hrest⟩ := hquiet
    refine ih (h.step act) hrest (h.verdict hact ▸ hlatest) ?_
    cases act with
    | step label =>
      refine hreported.imp id fun hmem => ?_
      rcases List.mem_cons.1 hmem with hhead | hmem
      · cases hhead
      · exact hmem
    | reportOutcome id =>
      have hwrites := p.reportOutcome_writes repo issue h.coherent.store h.results hrepo id
      rcases hreported with hlabelled | hmem
      · rw [hlabelled] at hwrites
        exact .inl (hlatest.writes_kept hwrites)
      · rcases List.mem_cons.1 hmem with hhead | hmem
        · obtain rfl := ProjectionAct.reportOutcome.inj hhead
          exact .inl (hlatest.writes_self hwrites)
        · exact .inr hmem

theorem Projection.Sound.verdict_run (h : p.Sound) {more : List ProjectionAct}
    (hquiet : Machine.Along Projection.step (fun p act => ¬p.Decides task act) p more) :
    (p.run more).world.store.verdict task = p.world.store.verdict task := by
  induction more generalizing p with
  | nil => rfl
  | cons act rest ih => exact (ih (h.step act) hquiet.2).trans (h.verdict hquiet.1)

end Histories

/-! ### The latest run with a verdict -/

section LatestRun

variable {s : Store} {task : TaskId} {id : String} {b : Bool}

/-- The id of a run with a verdict carries its generation. -/
theorem Store.Coherent.verdict_generation (hs : s.Coherent)
    (hsafe : ∀ vt, s.tasks.get (taskKey task) = some vt → vt.task.runCount ≤ MAX_SAFE_INTEGER)
    (h : s.verdict task id = some b) :
    ∃ n ≤ MAX_SAFE_INTEGER, id = runIdOf (taskKey task) n ∧ parseRunGeneration id = some n := by
  obtain ⟨r, hr, hverdict⟩ := Option.bind_eq_some_iff.1 h
  have htask : r.task = task := by
    by_contra hother
    rw [if_pos hother] at hverdict
    cases hverdict
  obtain ⟨vt, n, hvt, hn, hid⟩ := hs.counted hr
  rw [hs.runKeyed hr, htask] at hid
  have hle : n + 1 ≤ MAX_SAFE_INTEGER := le_trans hn (hsafe vt (htask ▸ hvt))
  refine ⟨n + 1, hle, hid, ?_⟩
  rw [hid, parseRunGeneration_runIdOf, if_pos hle]

/-- If any run has a verdict, one of them is the latest. -/
theorem Store.Coherent.exists_latest (hs : s.Coherent)
    (hsafe : ∀ vt, s.tasks.get (taskKey task) = some vt → vt.task.runCount ≤ MAX_SAFE_INTEGER)
    (h : s.verdict task id = some b) :
    ∃ top c n, GuardedRegister.Latest (s.verdict task) LaterId top c ∧
      parseRunGeneration top = some n ∧
      ∀ j c' m, s.verdict task j = some c' → parseRunGeneration j = some m → m ≤ n := by
  classical
  let taken : Nat → Prop := fun n =>
    ∃ j c, s.verdict task j = some c ∧ parseRunGeneration j = some n
  have htaken : ∀ j c m, s.verdict task j = some c → parseRunGeneration j = some m →
      m ≤ Nat.findGreatest taken MAX_SAFE_INTEGER := by
    intro j c m hj hm
    obtain ⟨n, hle, -, hn⟩ := hs.verdict_generation hsafe hj
    obtain rfl := Option.some.inj (hn.symm.trans hm)
    exact Nat.le_findGreatest hle ⟨j, c, hj, hm⟩
  obtain ⟨n, hle, -, hn⟩ := hs.verdict_generation hsafe h
  obtain ⟨top, c, htop, hgeneration⟩ :=
    Nat.findGreatest_spec (P := taken) hle ⟨id, b, h, hn⟩
  refine ⟨top, c, _, ⟨htop, fun j c' hj => ?_, fun j c' hj => ?_⟩, hgeneration, htaken⟩
  · rintro ⟨m, k, hm, hk, hlt⟩
    obtain rfl := Option.some.inj (hgeneration.symm.trans hk)
    exact absurd (htaken j c' m hj hm) (Nat.not_le_of_lt hlt)
  · obtain ⟨m, -, hid, hm⟩ := hs.verdict_generation hsafe hj
    obtain ⟨m', -, hid', hm'⟩ := hs.verdict_generation hsafe htop
    obtain rfl := Option.some.inj (hgeneration.symm.trans hm')
    rcases Nat.lt_or_eq_of_le (htaken j c' m hj hm) with hlt | heq
    · exact .inr ⟨_, m, hgeneration, hm, hlt⟩
    · exact .inl (by rw [hid, hid', heq])

end LatestRun

/-- Whatever the history of a GitHub task, and in whatever order and however often its outcomes are
delivered: once the outcome of every run that parks or resolves is delivered after the last
settlement that does, the anchor is labelled if and only if the latest of these runs is parked. -/
theorem Projection.label_converges (first more : List ProjectionAct) (repo : String) (issue : Nat)
    (hrepo : ':' ∉ repo.toList)
    (hquiet : Machine.Along Projection.step (fun p act => ¬p.Decides (.github repo issue) act)
      (Projection.init.run first) more)
    (hreported : ∀ id r, (Projection.init.run (first ++ more)).world.store.runs.get id = some r →
      r.task = .github repo issue → runNeedsHumanLabel r ∨ runResolvesNeedsHumanLabel r →
      .reportOutcome id ∈ more)
    (hsafe : ∀ vt, (Projection.init.run (first ++ more)).world.store.tasks.get
      (taskKey (.github repo issue)) = some vt → vt.task.runCount ≤ MAX_SAFE_INTEGER) :
    let p := Projection.init.run (first ++ more)
    (repo, issue) ∈ p.labels ↔ ∃ id r n, p.world.store.runs.get id = some r ∧
      r.task = .github repo issue ∧ runNeedsHumanLabel r ∧ parseRunGeneration id = some n ∧
      ∀ j x m, p.world.store.runs.get j = some x → x.task = .github repo issue →
        runNeedsHumanLabel x ∨ runResolvesNeedsHumanLabel x → parseRunGeneration j = some m →
        m ≤ n := by
  intro p
  have hp : p.Sound := Projection.sound_run (first ++ more)
  have hrun : p = (Projection.init.run first).run more := Machine.run_append _ _ _ _
  have hverdict : p.world.store.verdict (.github repo issue) =
      (Projection.init.run first).world.store.verdict (.github repo issue) := by
    rw [hrun]
    exact (Projection.sound_run first).verdict_run hquiet
  have hjudged : ∀ {j x}, p.world.store.runs.get j = some x → x.task = .github repo issue →
      runNeedsHumanLabel x ∨ runResolvesNeedsHumanLabel x →
      ∃ c, p.world.store.verdict (.github repo issue) j = some c := by
    rintro j x hj hx (hpark | hresolves)
    · exact ⟨true, verdict_eq_true.2 ⟨x, hj, hx, hpark⟩⟩
    · exact ⟨false, verdict_eq_false.2 ⟨x, hj, hx, resolves_not_park hresolves, hresolves⟩⟩
  have hconverges : ∀ {top b},
      GuardedRegister.Latest (p.world.store.verdict (.github repo issue)) LaterId top b →
      p.labelled repo issue = b := by
    intro top b hlatest
    have hmem : .reportOutcome top ∈ more := by
      cases b with
      | true =>
        obtain ⟨r, hr, htask, hpark⟩ := verdict_eq_true.1 hlatest.holds
        exact hreported top r hr htask (.inl hpark)
      | false =>
        obtain ⟨r, hr, htask, -, hresolves⟩ := verdict_eq_false.1 hlatest.holds
        exact hreported top r hr htask (.inr hresolves)
    have hfinal := (Projection.sound_run first).converges hrepo hquiet (hverdict ▸ hlatest)
      (.inr hmem)
    rwa [← hrun] at hfinal
  constructor
  · intro hlabel
    obtain ⟨id, hid⟩ := hp.parked repo issue hrepo (decide_eq_true hlabel)
    obtain ⟨top, c, n, hlatest, hn, hmax⟩ := hp.coherent.store.exists_latest hsafe hid
    obtain rfl : true = c := (decide_eq_true hlabel).symm.trans (hconverges hlatest)
    obtain ⟨r, hr, htask, hpark⟩ := verdict_eq_true.1 hlatest.holds
    refine ⟨top, r, n, hr, htask, hpark, hn, fun j x m hj hx hboth hm => ?_⟩
    obtain ⟨c, hc⟩ := hjudged hj hx hboth
    exact hmax j c m hc hm
  · rintro ⟨id, r, n, hr, htask, hpark, hn, hmax⟩
    have hid : p.world.store.verdict (.github repo issue) id = some true :=
      verdict_eq_true.2 ⟨r, hr, htask, hpark⟩
    obtain ⟨top, c, m, hlatest, hm, hgreatest⟩ := hp.coherent.store.exists_latest hsafe hid
    obtain rfl : c = true := by
      cases c with
      | true => rfl
      | false =>
        -- The two greatest generations would be those of one run.
        obtain ⟨x, hx, hxtask, -, hresolves⟩ := verdict_eq_false.1 hlatest.holds
        have hle := hmax top x m hx hxtask (.inr hresolves) hm
        have hge := hgreatest id true n hid hn
        obtain ⟨k, -, htop, hk⟩ := hp.coherent.store.verdict_generation hsafe hlatest.holds
        obtain ⟨l, -, hsame, hl⟩ := hp.coherent.store.verdict_generation hsafe hid
        have hkl : k = l := by
          obtain rfl := Option.some.inj (hk.symm.trans hm)
          obtain rfl := Option.some.inj (hl.symm.trans hn)
          omega
        rw [hsame, ← hkl, ← htop, hlatest.holds] at hid
        cases hid
    exact of_decide_eq_true (hconverges hlatest)

/-- A run of an issue is admitted, claimed and reported. -/
def Sample.worked (generation : Nat) (summary : Option String) : List ProjectionAct :=
  [.step (.request 0 { taskId := .github "o/r" 1, requestId := toString generation
                       pipeline := "claude", work := some [] }),
   .step (.enqueueRun (runIdOf "o/r#1" generation) 1),
   .step (.claimQueuedRun ["claude"] (Sample.claim 2)),
   .step (.onRun (runIdOf "o/r#1" generation) 3 "cleanup" (.report none
    { ok := true, summary, ref := none, relatedRefs := none, message := none
      humanNeededActions := none } (some "token") none false))]

/-- The first run succeeds and the second parks, and the park is delivered first. -/
theorem Projection.label_converges_overtaken :
    let p := Projection.init.run (Sample.worked 1 none ++ Sample.worked 2 (some "park") ++
      [.reportOutcome "o/r#1/r2", .reportOutcome "o/r#1/r1"])
    ("o/r", 1) ∈ p.labels ∧
      ∃ id r, p.world.store.runs.get id = some r ∧ runNeedsHumanLabel r = true := by
  intro p
  have hcount : (p.world.store.tasks.get "o/r#1").all (fun vt => vt.task.runCount ≤ 2) = true := by
    decide +kernel
  have hbound : ∀ vt, p.world.store.tasks.get (taskKey (.github "o/r" 1)) = some vt →
      vt.task.runCount ≤ 2 := by
    intro vt hvt
    have hkey : taskKey (.github "o/r" 1) = "o/r#1" := by decide +kernel
    rw [← hkey, hvt] at hcount
    exact of_decide_eq_true hcount
  have hconverges := Projection.label_converges
    (Sample.worked 1 none ++ Sample.worked 2 (some "park"))
    [.reportOutcome "o/r#1/r2", .reportOutcome "o/r#1/r1"] "o/r" 1 (by decide)
    ⟨Projection.reportOutcome_quiet _ _ _, Projection.reportOutcome_quiet _ _ _, trivial⟩
    (fun id r hr htask _ => by
      have hs := (Projection.sound_run (Sample.worked 1 none ++ Sample.worked 2 (some "park") ++
        [.reportOutcome "o/r#1/r2", .reportOutcome "o/r#1/r1"])).coherent.store
      obtain ⟨vt, n, hvt, hn, hid⟩ := hs.counted hr
      rw [htask] at hvt hid
      have hlt : n < 2 := lt_of_lt_of_le hn (hbound vt hvt)
      rw [hs.runKeyed hr] at hid
      subst hid
      have hfirst : runIdOf (taskKey (.github "o/r" 1)) 1 = "o/r#1/r1" := by decide +kernel
      have hsecond : runIdOf (taskKey (.github "o/r" 1)) 2 = "o/r#1/r2" := by decide +kernel
      match n, hlt with
      | 0, _ => simp [hfirst]
      | 1, _ => simp [hsecond])
    fun vt hvt => le_trans (hbound vt hvt) (by decide)
  have hlabel : ("o/r", 1) ∈ p.labels := by decide +kernel
  obtain ⟨id, r, -, hr, -, hpark, -⟩ := hconverges.1 hlabel
  exact ⟨hlabel, id, r, hr, hpark⟩

end AgentLcars
