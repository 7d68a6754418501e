import AgentLcars.KubernetesHandoff
import Mathlib.Data.List.Induction
import Mathlib.Data.List.Perm.Basic

/-!
# Exits of retired claims

`reportRetired` takes the absence of a tracked Job from an inventory list for the exit of its worker.
That is right of every list that was taken after the Job was created, and of no other.

* `QueueExecutor.Flights`: one report of a claim at a time.
* `Evaluated`: what the evaluation of a list does to an executor.
* `KubeApi.Gone`: a Job that is gone, with its Pods.
* `retired_exits`: the reports of a run, when no list is older than a Job it is taken to be without.
-/

namespace AgentLcars

open VersionedObjects

/-! ### Reports in flight -/

/-- The claims in flight are those of the reports under way, and no two of them are the same. -/
structure QueueExecutor.Flights (x : QueueExecutor) : Prop where
  reports : x.inflight.Perm (x.reports.map (·.claim))
  nodup : x.inflight.Nodup

/-- The exit of this claim is being reported, or its report was accepted and is remembered. -/
def QueueExecutor.Accounted (x : QueueExecutor) (now : Time) (claim : ExitClaim) : Prop :=
  claim ∈ x.inflight ∨ ∃ entry ∈ x.reported, entry.1 = claim ∧
    ¬RUN_EXIT_REPORTED_RETENTION < now - entry.2

instance (x : QueueExecutor) (now : Time) (claim : ExitClaim) :
    Decidable (x.Accounted now claim) :=
  inferInstanceAs (Decidable (claim ∈ x.inflight ∨ ∃ entry ∈ x.reported, entry.1 = claim ∧
    ¬RUN_EXIT_REPORTED_RETENTION < now - entry.2))

section Executors

variable {x y : QueueExecutor} {now : Time} {claim : ExitClaim} {claimedBy : String}
  {present : List Uid}

theorem lookup_isSome_of_mem {l : List (ExitClaim × Time)} {reportedAt : Time}
    (h : (claim, reportedAt) ∈ l) : (l.lookup claim).isSome := by
  induction l with
  | nil => cases h
  | cons entry rest ih =>
    obtain ⟨other, otherAt⟩ := entry
    rw [List.lookup_cons]
    by_cases hsame : claim = other
    · simp [hsame]
    · have hrest : (claim, reportedAt) ∈ rest := by
        rcases List.mem_cons.1 h with heq | hrest
        · exact absurd (congrArg Prod.fst heq) hsame
        · exact hrest
      rw [beq_false_of_ne hsame]
      exact ih hrest

theorem exists_mem_of_lookup {l : List (ExitClaim × Time)} (h : (l.lookup claim).isSome) :
    ∃ reportedAt, (claim, reportedAt) ∈ l := by
  obtain ⟨reportedAt, hlookup⟩ := Option.isSome_iff_exists.1 h
  obtain ⟨before, after, rfl, -⟩ := List.lookup_eq_some_iff.1 hlookup
  exact ⟨reportedAt, by simp⟩

/-- What an observed exit does: it starts a report, or at most forgets old ones. -/
theorem observeTerminated_cases (x : QueueExecutor) (now : Time) (claim : ExitClaim)
    (claimedBy : String) : ∃ reported,
      (reported = x.reported ∨ reported = x.reported.filter fun entry =>
        ¬RUN_EXIT_REPORTED_RETENTION < now - entry.2) ∧
      (x.observeTerminated now claim claimedBy = { x with reported } ∨
        ∃ runner, ¬x.Accounted now claim ∧
          x.observeTerminated now claim claimedBy = { x with
            reported, inflight := claim :: x.inflight
            reports := x.reports ++ [{ claim, runner }] }) := by
  unfold QueueExecutor.observeTerminated
  by_cases hempty : claim.runId = "" ∨ claim.fingerprint = ""
  · rw [if_pos hempty]
    exact ⟨x.reported, .inl rfl, .inl rfl⟩
  rw [if_neg hempty]
  refine ⟨_, .inr rfl, ?_⟩
  by_cases hknown : QueueExecutor.delivered { x with reported := x.reported.filter fun entry =>
      ¬RUN_EXIT_REPORTED_RETENTION < now - entry.2 } claim = true ∨ x.inflight.contains claim = true
  · exact .inl (if_pos hknown)
  rw [not_or] at hknown
  refine .inr ⟨_, ?_, if_neg (not_or.2 hknown)⟩
  rintro (hinflight | ⟨⟨_, reportedAt⟩, hreported, rfl, hfresh⟩)
  · exact hknown.2 (List.contains_iff_mem.2 hinflight)
  · refine hknown.1 (lookup_isSome_of_mem (List.mem_filter.2 ⟨hreported, ?_⟩))
    simpa using hfresh

theorem QueueExecutor.Flights.observe (h : x.Flights) (now : Time) (claim : ExitClaim)
    (claimedBy : String) : (x.observeTerminated now claim claimedBy).Flights := by
  obtain ⟨reported, -, hsame | ⟨runner, hnew, hstarted⟩⟩ :=
    observeTerminated_cases x now claim claimedBy
  · rw [hsame]
    exact ⟨h.reports, h.nodup⟩
  · rw [hstarted]
    refine ⟨?_, List.nodup_cons.2 ⟨fun hmem => hnew (.inl hmem), h.nodup⟩⟩
    rw [List.map_append]
    exact (h.reports.cons claim).trans (List.perm_append_singleton _ _).symm

theorem QueueExecutor.Flights.reportOne (h : x.Flights) (now : Time) (present : List Uid) (uid : Uid)
    (retiring : RetiringClaim) : (x.reportOne now present uid retiring).Flights := by
  unfold QueueExecutor.reportOne
  split_ifs
  · exact h
  · exact ⟨h.reports, h.nodup⟩
  · exact h.observe _ _ _

theorem QueueExecutor.Flights.reportRetired (h : x.Flights) (now : Time) (present : List Uid) :
    (x.reportRetired now present).Flights := by
  unfold QueueExecutor.reportRetired
  generalize x.retiring.entries = entries
  induction entries generalizing x with
  | nil => exact h
  | cons entry rest ih => exact ih (h.reportOne now present entry.1 entry.2)

theorem QueueExecutor.Flights.finishReport (h : x.Flights) (now : Time) (index : Nat)
    (accepted : Bool) : (x.finishReport now index accepted).Flights := by
  unfold QueueExecutor.finishReport
  split
  · exact h
  · rename_i report hreport
    obtain ⟨hindex, rfl⟩ := List.getElem?_eq_some_iff.1 hreport
    refine ⟨?_, h.nodup.erase _⟩
    have hperm : (x.reports.map (·.claim)).Perm
        (x.reports[index].claim :: (x.reports.eraseIdx index).map (·.claim)) :=
      ((List.getElem_cons_eraseIdx_perm hindex).map (·.claim)).symm
    simpa using (h.reports.trans hperm).erase x.reports[index].claim

/-! ### Evaluating a list -/

/-- What the evaluation of a list leaves of an executor. -/
structure Evaluated (now : Time) (present : List Uid) (x y : QueueExecutor) : Prop where
  reported : y.reported = x.reported ∨ y.reported = x.reported.filter fun entry =>
    ¬RUN_EXIT_REPORTED_RETENTION < now - entry.2
  inflight : ∀ claim ∈ x.inflight, claim ∈ y.inflight
  -- a report is started for a tracked Job that the list is without
  reports : ∃ started, y.reports = x.reports ++ started ∧ ∀ report ∈ started, ∃ uid retiring,
    x.retiring.get uid = some retiring ∧ uid ∉ present ∧ report.claim = retiring.claim ∧
      ¬x.Accounted now retiring.claim
  tracked : ∀ {uid retiring}, x.retiring.get uid = some retiring →
    y.retiring.get uid = some retiring ∨ ∃ reportedAt, (retiring.claim, reportedAt) ∈ x.reported
  known : ∀ {uid retiring}, y.retiring.get uid = some retiring → x.retiring.get uid = some retiring

theorem Evaluated.refl (x : QueueExecutor) : Evaluated now present x x :=
  ⟨.inl rfl, fun _ h => h, ⟨[], (List.append_nil _).symm, by simp⟩, fun h => .inl h, fun h => h⟩

theorem Evaluated.reported_mem (h : Evaluated now present x y) {entry : ExitClaim × Time}
    (hmem : entry ∈ y.reported) : entry ∈ x.reported := by
  rcases h.reported with hsame | hsame <;> rw [hsame] at hmem
  · exact hmem
  · exact (List.mem_filter.1 hmem).1

/-- A claim that is accounted for stays so while the list is evaluated. -/
theorem Evaluated.accounted (h : Evaluated now present x y) (hx : x.Accounted now claim) :
    y.Accounted now claim := by
  rcases hx with hinflight | ⟨entry, hmem, hclaim, hfresh⟩
  · exact .inl (h.inflight _ hinflight)
  · refine .inr ⟨entry, ?_, hclaim, hfresh⟩
    rcases h.reported with hsame | hsame <;> rw [hsame]
    · exact hmem
    · exact List.mem_filter.2 ⟨hmem, by simpa using hfresh⟩

theorem Evaluated.reportOne (h : Evaluated now present x y) {uid : Uid} {retiring : RetiringClaim}
    (htracked : x.retiring.get uid = some retiring) :
    Evaluated now present x (y.reportOne now present uid retiring) := by
  unfold QueueExecutor.reportOne
  by_cases hpresent : present.contains uid = true
  · rw [if_pos hpresent]
    exact h
  rw [if_neg hpresent]
  rw [List.contains_iff_mem] at hpresent
  by_cases hdelivered : y.delivered retiring.claim = true
  · rw [if_pos hdelivered]
    obtain ⟨reportedAt, hmem⟩ := exists_mem_of_lookup hdelivered
    refine ⟨h.reported, h.inflight, h.reports, ?_, ?_⟩
    · intro other held hother
      rw [OrderedMap.get_erase]
      split_ifs with hsame
      · subst hsame
        obtain rfl := Option.some.inj (htracked.symm.trans hother)
        exact .inr ⟨reportedAt, h.reported_mem hmem⟩
      · exact h.tracked hother
    · intro other held hother
      rw [OrderedMap.get_erase] at hother
      split_ifs at hother
      exact h.known hother
  rw [if_neg hdelivered]
  obtain ⟨reported, hreported, hcases⟩ :=
    observeTerminated_cases y now retiring.claim retiring.runner
  have hfilter : reported = x.reported ∨ reported = x.reported.filter fun entry =>
      ¬RUN_EXIT_REPORTED_RETENTION < now - entry.2 := by
    rcases hreported with rfl | rfl
    · exact h.reported
    · rcases h.reported with hsame | hsame
      · exact .inr (by rw [hsame])
      · exact .inr (by rw [hsame, List.filter_filter]; simp)
  rcases hcases with hsame | ⟨runner, hnew, hstarted⟩
  · rw [hsame]
    exact ⟨hfilter, h.inflight, h.reports, h.tracked, h.known⟩
  · rw [hstarted]
    refine ⟨hfilter, fun claim hmem => List.mem_cons_of_mem _ (h.inflight claim hmem), ?_,
      h.tracked, h.known⟩
    obtain ⟨started, hreports, hall⟩ := h.reports
    refine ⟨started ++ [{ claim := retiring.claim, runner }], ?_, ?_⟩
    · dsimp only
      rw [hreports, List.append_assoc]
    · intro report hmem
      rcases List.mem_append.1 hmem with hmem | hmem
      · exact hall report hmem
      · obtain rfl := List.mem_singleton.1 hmem
        exact ⟨uid, retiring, htracked, hpresent, rfl, fun hx => hnew (h.accounted hx)⟩

/-- A list is evaluated one tracked deletion after the other. -/
theorem evaluated_reportRetired (x : QueueExecutor) (now : Time) (present : List Uid) :
    Evaluated now present x (x.reportRetired now present) := by
  have hfold : ∀ (entries : List (Uid × RetiringClaim)) (y : QueueExecutor),
      (∀ entry ∈ entries, x.retiring.get entry.1 = some entry.2) → Evaluated now present x y →
      Evaluated now present x
        (entries.foldl (fun y entry => y.reportOne now present entry.1 entry.2) y) := by
    intro entries
    induction entries with
    | nil => exact fun y _ h => h
    | cons entry rest ih =>
      intro y hentries h
      exact ih _ (fun other hother => hentries other (List.mem_cons_of_mem _ hother))
        (h.reportOne (hentries entry List.mem_cons_self))
  refine hfold _ x ?_ (.refl x)
  rintro ⟨uid, retiring⟩ hentry
  exact (OrderedMap.getEntry_eq_some_iff _ x.retiring.nodup _ _).2 hentry

end Executors

/-! ### What a step does to threads and executors -/

/-- A thread after its own step. -/
inductive ThreadNext (env : QueueEnv) (w : QueueWorld) (id : Nat) (answer : QueueAnswer) :
    QueueThread → QueueThread → Prop
  | launch (executor : Nat) (l : DirectRunnerLaunch) (phase : LaunchPhase) :
      ThreadNext env w id answer { executor, task := .launch l phase }
        { executor, task := .launch l (phase.step env id l w.api answer).1 }
  | sweep (executor : Nat) (phase : SweepPhase) :
      ThreadNext env w id answer { executor, task := .sweep phase }
        { executor, task := .sweep (phase.step env id w.api answer).1 }
  | inventory (executor : Nat) (phase : InventoryPhase) :
      ThreadNext env w id answer { executor, task := .inventory phase }
        { executor, task := .inventory (phase.step env w.api (w.executor executor) answer).1 }

/-- What a step does to an executor. -/
inductive ExecutorMove (w : QueueWorld) (step : QueueStep) (executor : Nat) : QueueExecutor → Prop
  | keep : ExecutorMove w step executor (w.executor executor)
  | named (runnerName : String) (hnew : w.executor executor = {}) :
      ExecutorMove w step executor { runnerName }
  | observe (now : Time) (claim : ExitClaim) (claimedBy : String) :
      ExecutorMove w step executor ((w.executor executor).observeTerminated now claim claimedBy)
  | evaluate (id : Nat) (answer : QueueAnswer) (jobs : List QueueJob) (nextUid : Uid)
      (hstep : step = .thread id answer)
      (ht : w.threads.get id = some { executor, task := .inventory (.evaluating jobs nextUid) }) :
      ExecutorMove w step executor
        ((w.executor executor).reportRetired answer.now (jobs.map (·.uid)))
  | track (id : Nat) (job : QueueJob) (rest : List QueueJob)
      (ht : w.threads.get id = some { executor, task := .sweep (.tracking job rest) }) :
      ExecutorMove w step executor ((w.executor executor).trackRetiring job)
  | finish (index : Nat) (accepted : Bool) (now : Time)
      (hstep : step = .report executor index accepted now) :
      ExecutorMove w step executor ((w.executor executor).finishReport now index accepted)

section Steps

variable {env : QueueEnv} {w : QueueWorld} {step : QueueStep} {id executor : Nat}

theorem executor_set (w : QueueWorld) (other : Nat) (x : QueueExecutor) (threads trace api) :
    QueueWorld.executor { api, executors := w.executors.set other x, threads, trace } executor =
      if executor = other then x else w.executor executor := by
  unfold QueueWorld.executor
  dsimp only
  rw [OrderedMap.get_set]
  split_ifs <;> rfl

theorem step_threads {t : QueueThread} (h : (w.step env step).threads.get id = some t) :
    w.threads.get id = some t ∨ (∃ start : QueueStart, t.task = start.task) ∨
      ∃ answer old, step = .thread id answer ∧ w.threads.get id = some old ∧
        ThreadNext env w id answer old t := by
  cases step with
  | executor other runnerName =>
    unfold QueueWorld.step at h
    dsimp only at h
    split_ifs at h <;> exact .inl h
  | start other executor start now =>
    have hset : ∀ task, (w.threads.set other { executor, task }).get id = some t →
        w.threads.get id = some t ∨ t.task = task := by
      intro task h
      rw [OrderedMap.get_set] at h
      split_ifs at h
      · exact .inr (Option.some.inj h ▸ rfl)
      · exact .inl h
    unfold QueueWorld.step QueueWorld.begin at h
    dsimp only at h
    split at h
    · exact .inl h
    split at h
    · split_ifs at h
      · exact (hset _ h).imp_right fun h => .inl ⟨_, h⟩
      · exact .inl h
      · exact .inl h
    · exact (hset _ h).imp_right fun h => .inl ⟨_, h⟩
  | thread other answer =>
    unfold QueueWorld.step at h
    dsimp only at h
    split at h
    · exact .inl h
    rename_i old hold
    have hset : ∀ task, (w.threads.set other { old with task }).get id = some t →
        w.threads.get id = some t ∨ id = other ∧ t = { old with task } := by
      intro task h
      rw [OrderedMap.get_set] at h
      split_ifs at h with hid
      · exact .inr ⟨hid, (Option.some.inj h).symm⟩
      · exact .inl h
    obtain ⟨on, task⟩ := old
    cases task with
    | launch l phase =>
      rcases hset _ h with h | ⟨rfl, rfl⟩
      · exact .inl h
      · exact .inr (.inr ⟨answer, _, rfl, hold, .launch on l phase⟩)
    | sweep phase =>
      rcases hset _ h with h | ⟨rfl, rfl⟩
      · exact .inl h
      · exact .inr (.inr ⟨answer, _, rfl, hold, .sweep on phase⟩)
    | inventory phase =>
      rcases hset _ h with h | ⟨rfl, rfl⟩
      · exact .inl h
      · exact .inr (.inr ⟨answer, _, rfl, hold, .inventory on phase⟩)
  | report other index accepted now => exact .inl h
  | cluster act => exact .inl h

theorem step_executor (env : QueueEnv) (w : QueueWorld) (step : QueueStep) (executor : Nat) :
    ExecutorMove w step executor ((w.step env step).executor executor) := by
  cases step with
  | executor other runnerName =>
    unfold QueueWorld.step
    dsimp only
    by_cases hknown : (w.executors.get other).isSome = true
    · rw [if_pos hknown]
      exact .keep
    rw [if_neg hknown, executor_set]
    split_ifs with hsame
    · subst hsame
      refine .named runnerName ?_
      unfold QueueWorld.executor
      rw [Option.not_isSome_iff_eq_none.1 hknown]
      rfl
    · exact .keep
  | start other on start now =>
    unfold QueueWorld.step QueueWorld.begin
    dsimp only
    split
    · exact .keep
    split
    · split_ifs
      · exact .keep
      · exact .keep
      · rw [executor_set]
        split_ifs with hsame
        · subst hsame
          exact .observe _ _ _
        · exact .keep
    · exact .keep
  | thread id answer =>
    unfold QueueWorld.step
    dsimp only
    split
    · exact .keep
    rename_i t ht
    obtain ⟨on, task⟩ := t
    cases task with
    | launch l phase => exact .keep
    | sweep phase =>
      unfold QueueWorld.advance
      dsimp only
      cases phase with
      | tracking job rest =>
        rw [executor_set]
        split_ifs with hsame
        · subst hsame
          exact .track id job rest ht
        · exact .keep
      | _ => exact .keep
    | inventory phase =>
      unfold QueueWorld.advance
      dsimp only
      rw [executor_set]
      split_ifs with hsame
      · subst hsame
        cases phase with
        | listing =>
          unfold InventoryPhase.step
          dsimp only
          split_ifs <;> exact .keep
        | evaluating jobs nextUid => exact .evaluate id answer jobs nextUid rfl ht
        | counting jobs =>
          cases jobs with
          | nil => exact .keep
          | cons job rest =>
            unfold InventoryPhase.step observeTerminal
            dsimp only
            split_ifs
            · exact .observe _ _ _
            · exact .keep
        | returned => exact .keep
      · exact .keep
  | report other index accepted now =>
    unfold QueueWorld.step
    rw [executor_set]
    split_ifs with hsame
    · subst hsame
      exact .finish index accepted now rfl
    · exact .keep
  | cluster act => exact .keep

end Steps

/-! ### Jobs and their Pods -/

def KubeApi.Stored (api : KubeApi) (uid : Uid) : Prop :=
  ∃ name job, api.jobs.byName.get name = some job ∧ job.uid = uid

/-- A Job of this UID was created, and neither it nor a Pod of it is left. -/
structure KubeApi.Gone (api : KubeApi) (uid : Uid) : Prop where
  created : uid < api.jobs.nextId
  absent : ¬api.Stored uid
  pods : ∀ {podName owners}, api.pods.get podName = some owners → ∀ owner ∈ owners, owner.uid ≠ uid

/-- Every Job has the label, and every Pod belongs to a Job. -/
structure KubeApi.Owned (api : KubeApi) : Prop where
  labelled : ∀ {name job}, api.jobs.byName.get name = some job → job.labelled = true
  pods : ∀ {podName owners}, api.pods.get podName = some owners → ∀ owner ∈ owners,
    api.Stored owner.uid

section Owned

variable {env : QueueEnv} {api api' : KubeApi} {w : QueueWorld} {uid : Uid}

theorem KubeApi.Stored.write {changed job : QueueJob} (h : api.Stored uid)
    (hget : api.jobs.byName.get changed.name = some job) (huid : changed.uid = job.uid) :
    (api.writeJob changed).Stored uid := by
  obtain ⟨name, stored, hstored, rfl⟩ := h
  by_cases hname : name = changed.name
  · subst hname
    obtain rfl := Option.some.inj (hget.symm.trans hstored)
    exact ⟨changed.name, _, (get_writeJob _ _).trans (if_pos rfl), huid⟩
  · exact ⟨name, stored, ((get_writeJob _ _).trans (if_neg hname)).trans hstored, rfl⟩

theorem KubeApi.Owned.write (h : api.Owned) {changed job : QueueJob}
    (hget : api.jobs.byName.get changed.name = some job) (huid : changed.uid = job.uid)
    (hlabelled : changed.labelled = job.labelled) : (api.writeJob changed).Owned where
  labelled := by
    intro name stored hstored
    rw [get_writeJob] at hstored
    split_ifs at hstored
    · obtain rfl := Option.some.inj hstored
      exact hlabelled.trans (h.labelled hget)
    · exact h.labelled hstored
  pods hpod owner howner := (h.pods hpod owner howner).write hget huid

theorem KubeApi.Owned.act (h : api.Owned) (hapi : api.JobsSound) (act : ClusterAct) :
    (api.act act).Owned := by
  have hjob : ∀ (name : String) (f : QueueJob → KubeApi),
      (∀ job, api.jobs.byName.get name = some job → (f job).Owned) → (api.onJob name f).Owned := by
    intro name f hf
    unfold KubeApi.onJob
    split
    · exact h
    · rename_i job hget
      exact hf job hget
  have hwrite : ∀ (name : String) (f : QueueJob → QueueJob),
      (∀ job, (f job).name = job.name ∧ (f job).uid = job.uid ∧ (f job).labelled = job.labelled) →
      (api.onJob name fun job => api.writeJob (f job)).Owned := by
    intro name f hf
    refine hjob _ _ fun job hget => ?_
    obtain ⟨hname, huid, hlabelled⟩ := hf job
    exact h.write ((hname.trans (hapi.named hget)).symm ▸ hget) huid hlabelled
  cases act with
  | writeStatus name status =>
    exact hwrite name (fun job => { job with status }) fun _ => ⟨rfl, rfl, rfl⟩
  | editSpec name suspend =>
    exact hwrite name (fun job => { job with
      suspend := if suspend then some true else job.suspend, generation := job.generation + 1 })
      fun _ => ⟨rfl, rfl, rfl⟩
  | deleteJob name =>
    exact hwrite name (fun job => { job with deleting := true }) fun _ => ⟨rfl, rfl, rfl⟩
  | removeJob name =>
    refine hjob _ _ fun job hget => ?_
    split_ifs with hremoved
    · refine ⟨fun hstored => ?_, fun hpod owner howner => ?_⟩
      · rw [OrderedMap.get_erase] at hstored
        split_ifs at hstored
        exact h.labelled hstored
      · obtain ⟨other, stored, hstored, huid⟩ := h.pods hpod owner howner
        refine ⟨other, stored, ?_, huid⟩
        rw [OrderedMap.get_erase, if_neg, hstored]
        rintro rfl
        -- the Job that is removed has no Pod left
        obtain rfl := Option.some.inj (hget.symm.trans hstored)
        refine hremoved.2 (List.any_eq_true.2 ⟨_, (OrderedMap.mem_values_iff _ _).2 ⟨_, hpod⟩, ?_⟩)
        exact List.any_eq_true.2 ⟨owner, howner, by simp [huid]⟩
    · exact h
  | createPod podName jobName =>
    refine hjob _ _ fun job hget => ⟨h.labelled, fun hpod owner howner => ?_⟩
    rw [OrderedMap.get_set] at hpod
    split_ifs at hpod
    · obtain rfl := Option.some.inj hpod
      obtain rfl := List.mem_singleton.1 howner
      exact ⟨jobName, job, hget, rfl⟩
    · exact h.pods hpod owner howner
  | removePod podName =>
    refine ⟨h.labelled, fun hpod owner howner => ?_⟩
    rw [KubeApi.act, OrderedMap.get_erase] at hpod
    split_ifs at hpod
    exact h.pods hpod owner howner
  | collectSecret name =>
    dsimp only [KubeApi.act]
    split
    · exact h
    · split_ifs
      · exact h
      · exact ⟨h.labelled, h.pods⟩

theorem KubeApi.Owned.thread (h : api.Owned) (hapi : api.JobsSound) {task : QueueTask}
    (hmove : ThreadMove env api task api') : api'.Owned := by
  cases hmove with
  | keep => exact h
  | create l now _ habsent =>
    refine ⟨fun hstored => ?_, fun hpod owner howner => ?_⟩
    · rw [OrderedMap.get_set] at hstored
      split_ifs at hstored
      · obtain rfl := Option.some.inj hstored
        rfl
      · exact h.labelled hstored
    · obtain ⟨name, stored, hstored, huid⟩ := h.pods hpod owner howner
      refine ⟨name, stored, ?_, huid⟩
      rw [OrderedMap.get_set, if_neg]
      · exact hstored
      · rintro rfl
        rw [habsent] at hstored
        cases hstored
  | secret l job => exact ⟨h.labelled, h.pods⟩
  | resume r current secret job _ _ hget =>
    rw [← hapi.named hget] at hget
    exact h.write hget rfl rfl
  | delete read rest job _ hget =>
    rw [← hapi.named hget] at hget
    exact h.write hget rfl rfl

theorem owned_run (env : QueueEnv) (steps : List QueueStep) :
    (QueueWorld.init.run env steps).api.Owned := by
  refine (Machine.invariant_run (fun w : QueueWorld => w.Sound env ∧ w.api.Owned) ?_
    ⟨QueueWorld.sound_init, nofun, nofun⟩ steps).2
  rintro w step ⟨hw, h⟩
  refine ⟨hw.step step, ?_⟩
  rcases step_api_cases w step with hsame | ⟨act, hact⟩ | ⟨id, answer, t, -, -, hmove⟩
  · rw [hsame]
    exact h
  · rw [hact]
    exact h.act hw.jobs act
  · exact h.thread hw.jobs hmove

/-- A UID that is gone is never stored again. -/
theorem QueueWorld.Sound.not_stored_run (hw : w.Sound env) (hcreated : uid < w.api.jobs.nextId)
    (habsent : ¬w.api.Stored uid) (steps : List QueueStep) :
    uid < (w.run env steps).api.jobs.nextId ∧ ¬(w.run env steps).api.Stored uid := by
  refine (Machine.invariant_run (fun v : QueueWorld => v.Sound env ∧
    uid < v.api.jobs.nextId ∧ ¬v.api.Stored uid) ?_ ⟨hw, hcreated, habsent⟩ steps).2
  rintro v step ⟨hv, hlt, hnot⟩
  have hmove := (hv.apiMove step).jobs
  refine ⟨hv.step step, Nat.lt_of_lt_of_le hlt hmove.nextId_le, ?_⟩
  rintro ⟨name, job, hget, rfl⟩
  obtain ⟨x, hx, huid, -⟩ := hmove.before hget hlt
  exact hnot ⟨name, x, hx, huid⟩

end Owned

/-! ### Tracked claims -/

/-- What `trackRetiring` keeps of a Job. -/
def claimOf (job : QueueJob) : RetiringClaim :=
  { claim := { runId := job.runId, fingerprint := job.claim }, runner := job.claimedBy }

/-- The Jobs that a sweep may still track. -/
def QueueTask.swept : QueueTask → List QueueJob
  | .sweep (.visiting jobs) => jobs
  | .sweep (.settling job rest) | .sweep (.deleting job rest) | .sweep (.tracking job rest) =>
    job :: rest
  | .sweep (.resuming _ rest) => rest
  | _ => []

/-- Whatever has a UID has the claim that the UID was created with. -/
structure QueueWorld.Claimed (w : QueueWorld) (born : Uid → RetiringClaim) : Prop where
  stored : ∀ {name job}, w.api.jobs.byName.get name = some job → claimOf job = born job.uid
  swept : ∀ {id t}, w.threads.get id = some t → ∀ job ∈ t.task.swept,
    job.uid < w.api.jobs.nextId ∧ claimOf job = born job.uid
  tracked : ∀ {executor uid retiring}, (w.executor executor).retiring.get uid = some retiring →
    uid < w.api.jobs.nextId ∧ retiring = born uid

section Claims

variable {env : QueueEnv} {w : QueueWorld} {id executor : Nat} {uid : Uid} {held : RetiringClaim}
  {born : Uid → RetiringClaim}

theorem afterRetirement_swept (job : QueueJob) (rest : List QueueJob) (now : Time) :
    (QueueTask.sweep (afterRetirement job rest now)).swept = rest := by
  unfold afterRetirement
  split_ifs <;> rfl

/-- A sweep holds Jobs that it held before, or that it lists now. -/
theorem ThreadNext.swept {answer : QueueAnswer} {old t : QueueThread}
    (h : ThreadNext env w id answer old t) : ∀ job ∈ t.task.swept,
    job ∈ old.task.swept ∨ ∃ name, w.api.jobs.byName.get name = some job := by
  cases h with
  | launch executor l phase => exact fun job hjob => absurd hjob List.not_mem_nil
  | inventory executor phase => exact fun job hjob => absurd hjob List.not_mem_nil
  | sweep executor phase =>
    intro job hjob
    cases phase with
    | listing =>
      unfold SweepPhase.step at hjob
      dsimp only at hjob
      split_ifs at hjob
      · obtain ⟨hvalue, -⟩ := List.mem_filter.1 (mem_orderedFrom hjob)
        exact .inr ((OrderedMap.mem_values_iff _ _).1 hvalue)
      · cases hjob
    | visiting jobs =>
      cases jobs with
      | nil => cases hjob
      | cons first rest =>
        unfold SweepPhase.step at hjob
        dsimp only at hjob
        split_ifs at hjob
        · cases hjob
        · exact .inl (List.mem_cons_of_mem _ hjob)
        · exact .inl hjob
        · rw [afterRetirement_swept] at hjob
          exact .inl (List.mem_cons_of_mem _ hjob)
    | settling first rest =>
      unfold SweepPhase.step at hjob
      dsimp only at hjob
      split_ifs at hjob
      · exact .inl (List.mem_cons_of_mem _ hjob)
      · exact .inl hjob
      · rw [afterRetirement_swept] at hjob
        exact .inl (List.mem_cons_of_mem _ hjob)
    | deleting first rest =>
      unfold SweepPhase.step at hjob
      dsimp only at hjob
      split at hjob
      · exact .inl hjob
      · exact .inl hjob
      · exact .inl (List.mem_cons_of_mem _ hjob)
    | tracking first rest => exact .inl (List.mem_cons_of_mem _ hjob)
    | resuming r rest =>
      unfold SweepPhase.step at hjob
      dsimp only at hjob
      split at hjob <;> exact .inl hjob
    | returned => cases hjob

theorem observeTerminated_retiring (x : QueueExecutor) (now : Time) (claim : ExitClaim)
    (claimedBy : String) : (x.observeTerminated now claim claimedBy).retiring = x.retiring := by
  obtain ⟨reported, -, hsame | ⟨runner, -, hstarted⟩⟩ :=
    observeTerminated_cases x now claim claimedBy
  · rw [hsame]
  · rw [hstarted]

theorem finishReport_retiring (x : QueueExecutor) (now : Time) (index : Nat) (accepted : Bool) :
    (x.finishReport now index accepted).retiring = x.retiring := by
  unfold QueueExecutor.finishReport
  split <;> rfl

/-- What is tracked after a step was tracked before, or a sweep tracks it now. -/
theorem ExecutorMove.tracked {step : QueueStep} {x : QueueExecutor}
    (h : ExecutorMove w step executor x) (hx : x.retiring.get uid = some held) :
    (w.executor executor).retiring.get uid = some held ∨
      ∃ id job rest, w.threads.get id = some { executor, task := .sweep (.tracking job rest) } ∧
        job.uid = uid ∧ held = claimOf job := by
  cases h with
  | keep => exact .inl hx
  | named runnerName => cases hx
  | observe now claim claimedBy =>
    rw [observeTerminated_retiring] at hx
    exact .inl hx
  | evaluate id answer jobs nextUid => exact .inl ((evaluated_reportRetired _ _ _).known hx)
  | track id job rest ht =>
    unfold QueueExecutor.trackRetiring at hx
    rw [OrderedMap.get_set] at hx
    split_ifs at hx with huid
    · exact .inr ⟨id, job, rest, ht, huid.symm, (Option.some.inj hx).symm⟩
    · exact .inl hx
  | finish index accepted now =>
    rw [finishReport_retiring] at hx
    exact .inl hx

theorem QueueWorld.Claimed.step (h : w.Claimed born) (hw : w.Sound env) (step : QueueStep) :
    ∃ born', (w.step env step).Claimed born' := by
  have hmove := (hw.apiMove step).jobs
  have hsound := (hw.step step).jobs
  -- at most one Job has a UID that was not given out before
  obtain ⟨fresh, hfresh⟩ : ∃ fresh, ∀ name job,
      (w.step env step).api.jobs.byName.get name = some job → ¬job.uid < w.api.jobs.nextId →
      claimOf job = fresh := by
    have hnew : ∀ {name job}, (w.step env step).api.jobs.byName.get name = some job →
        ¬job.uid < w.api.jobs.nextId → job.uid = w.api.jobs.nextId := by
      intro name job hget hnot
      cases hmove.origin hget with
      | kept hold => exact absurd (hw.jobs.wellFormed.ids hold) hnot
      | created _ huid => exact huid
      | written x hold huid => exact absurd (huid ▸ hw.jobs.wellFormed.ids hold) hnot
    by_cases hcreated : ∃ name job, (w.step env step).api.jobs.byName.get name = some job ∧
        ¬job.uid < w.api.jobs.nextId
    · obtain ⟨name, job, hget, hnot⟩ := hcreated
      refine ⟨claimOf job, fun other found hfound hnot' => ?_⟩
      have huid : found.uid = job.uid := (hnew hfound hnot').trans (hnew hget hnot).symm
      obtain rfl := hsound.wellFormed.unique hfound hget huid
      rw [Option.some.inj (hget.symm.trans hfound)]
    · exact ⟨born 0, fun name job hget hnot => absurd ⟨name, job, hget, hnot⟩ hcreated⟩
  have hle := hmove.nextId_le
  have hold : ∀ {uid retiring}, uid < w.api.jobs.nextId ∧ retiring = born uid →
      uid < (w.step env step).api.jobs.nextId ∧
        retiring = if uid < w.api.jobs.nextId then born uid else fresh := by
    rintro uid retiring ⟨hlt, rfl⟩
    exact ⟨Nat.lt_of_lt_of_le hlt hle, (if_pos hlt).symm⟩
  have hread : ∀ {name job}, w.api.jobs.byName.get name = some job →
      job.uid < w.api.jobs.nextId ∧ claimOf job = born job.uid :=
    fun hget => ⟨hw.jobs.wellFormed.ids hget, h.stored hget⟩
  refine ⟨fun uid => if uid < w.api.jobs.nextId then born uid else fresh, ?_, ?_, ?_⟩
  · intro name job hget
    by_cases hlt : job.uid < w.api.jobs.nextId
    · obtain ⟨x, hx, huid, hfrom⟩ := hmove.before hget hlt
      rw [if_pos hlt, ← huid, ← h.stored hx]
      rcases hfrom with rfl | ⟨hfollows, -⟩
      · rfl
      · unfold claimOf
        rw [hfollows.runId, hfollows.claim, hfollows.claimedBy]
    · exact (hfresh name job hget hlt).trans (if_neg hlt).symm
  · intro i t ht job hjob
    refine hold ?_
    rcases step_threads ht with hsame | ⟨start, hstart⟩ | ⟨answer, old, -, hgot, hnext⟩
    · exact h.swept hsame job hjob
    · rw [hstart] at hjob
      cases start <;> cases hjob
    · rcases hnext.swept job hjob with hheld | ⟨name, hget⟩
      · exact h.swept hgot job hheld
      · exact hread hget
  · intro executor uid retiring htracked
    refine hold ?_
    rcases (step_executor env w step executor).tracked htracked with
      hsame | ⟨i, job, rest, ht, rfl, rfl⟩
    · exact h.tracked hsame
    · exact h.swept ht job List.mem_cons_self

theorem claimed_run (env : QueueEnv) (steps : List QueueStep) :
    ∃ born, (QueueWorld.init.run env steps).Claimed born := by
  refine (Machine.invariant_run (fun w : QueueWorld => w.Sound env ∧ ∃ born, w.Claimed born) ?_
    ⟨QueueWorld.sound_init, fun _ => ⟨⟨"", ""⟩, ""⟩, nofun, nofun, nofun⟩ steps).2
  rintro w step ⟨hw, born, h⟩
  exact ⟨hw.step step, h.step hw step⟩

/-- A claim is tracked on, unless its report is remembered as accepted. -/
theorem QueueWorld.Claimed.tracked_step (h : w.Claimed born) (step : QueueStep)
    (htracked : (w.executor executor).retiring.get uid = some held) :
    ((w.step env step).executor executor).retiring.get uid = some held ∨
      ∃ reportedAt, (held.claim, reportedAt) ∈ (w.executor executor).reported := by
  have hmove := step_executor env w step executor
  generalize (w.step env step).executor executor = x at hmove ⊢
  cases hmove with
  | keep => exact .inl htracked
  | named runnerName hnew =>
    rw [hnew] at htracked
    cases htracked
  | observe now claim claimedBy =>
    rw [observeTerminated_retiring]
    exact .inl htracked
  | evaluate i answer jobs nextUid => exact (evaluated_reportRetired _ _ _).tracked htracked
  | track i job rest ht =>
    refine .inl ?_
    unfold QueueExecutor.trackRetiring
    rw [OrderedMap.get_set]
    split_ifs with huid
    · -- the same UID has the same claim
      rw [(h.tracked htracked).2, huid, ← (h.swept ht job List.mem_cons_self).2]
      rfl
    · exact htracked
  | finish index accepted now =>
    rw [finishReport_retiring]
    exact .inl htracked

end Claims

/-! ### Runs -/

/-- The next UID when the list was taken that a task is about to evaluate. -/
def QueueTask.taken : QueueTask → Option Uid
  | .inventory (.evaluating _ nextUid) => some nextUid
  | _ => none

/-- No list is evaluated that is older than a tracked Job whose exit is still to be reported. -/
def QueueWorld.FreshList (w : QueueWorld) : QueueStep → Prop
  | .thread id answer => ∀ t ∈ w.threads.get id, ∀ nextUid ∈ t.task.taken,
    ∀ entry ∈ (w.executor t.executor).retiring.entries,
      entry.1 < nextUid ∨ (w.executor t.executor).Accounted answer.now entry.2.claim
  | _ => True

instance (w : QueueWorld) : ∀ step, Decidable (w.FreshList step)
  | .thread id answer => inferInstanceAs (Decidable (∀ t ∈ w.threads.get id,
    ∀ nextUid ∈ t.task.taken, ∀ entry ∈ (w.executor t.executor).retiring.entries,
      entry.1 < nextUid ∨ (w.executor t.executor).Accounted answer.now entry.2.claim))
  | .executor .. | .start .. | .report .. | .cluster .. => isTrue trivial

/-- A report of this claim was accepted in the run. -/
def AcceptedIn (env : QueueEnv) (steps : List QueueStep) (executor : Nat) (claim : ExitClaim) :
    Prop :=
  ∃ before index now after report, steps = before ++ .report executor index true now :: after ∧
    ((QueueWorld.init.run env before).executor executor).reports[index]? = some report ∧
    report.claim = claim

section Runs

variable {env : QueueEnv} {first rest steps : List QueueStep} {id executor : Nat}

theorem run_snoc (env : QueueEnv) (steps : List QueueStep) (step : QueueStep) :
    QueueWorld.init.run env (steps ++ [step]) = (QueueWorld.init.run env steps).step env step := by
  unfold QueueWorld.run
  rw [Machine.run_append]
  rfl

theorem AcceptedIn.append {claim : ExitClaim} (h : AcceptedIn env steps executor claim)
    (more : List QueueStep) : AcceptedIn env (steps ++ more) executor claim := by
  obtain ⟨before, index, now, after, report, rfl, hreport, hclaim⟩ := h
  exact ⟨before, index, now, after ++ more, report, by simp, hreport, hclaim⟩

theorem flights_run (env : QueueEnv) (steps : List QueueStep) (executor : Nat) :
    ((QueueWorld.init.run env steps).executor executor).Flights := by
  have hinit : (QueueWorld.init.executor executor).Flights := ⟨.refl _, List.nodup_nil⟩
  refine Machine.invariant_run (fun w : QueueWorld => (w.executor executor).Flights) ?_ hinit steps
  intro w step h
  have hmove := step_executor env w step executor
  generalize (w.step env step).executor executor = x at hmove ⊢
  cases hmove with
  | keep => exact h
  | named runnerName => exact ⟨.refl _, List.nodup_nil⟩
  | observe now claim claimedBy => exact h.observe _ _ _
  | evaluate i answer jobs nextUid => exact h.reportRetired _ _
  | track i job rest => exact ⟨h.reports, h.nodup⟩
  | finish index accepted now => exact h.finishReport _ _ _

/-- What an executor remembers as reported was accepted. -/
theorem reported_run {claim : ExitClaim} {reportedAt : Time}
    (h : (claim, reportedAt) ∈ ((QueueWorld.init.run env steps).executor executor).reported) :
    AcceptedIn env steps executor claim := by
  induction steps using List.reverseRecOn with
  | nil => cases h
  | append_singleton steps step ih =>
    rw [run_snoc] at h
    have hmove := step_executor env (QueueWorld.init.run env steps) step executor
    generalize ((QueueWorld.init.run env steps).step env step).executor executor = x at hmove h
    have hkept : (claim, reportedAt) ∈
        ((QueueWorld.init.run env steps).executor executor).reported →
        AcceptedIn env (steps ++ [step]) executor claim := fun hmem => (ih hmem).append _
    cases hmove with
    | keep => exact hkept h
    | named runnerName => cases h
    | observe now observed claimedBy =>
      obtain ⟨reported, hreported, hcases⟩ := observeTerminated_cases
        ((QueueWorld.init.run env steps).executor executor) now observed claimedBy
      have hmem : (claim, reportedAt) ∈ reported := by
        rcases hcases with hsame | ⟨runner, -, hstarted⟩
        · rwa [hsame] at h
        · rwa [hstarted] at h
      rcases hreported with rfl | rfl
      · exact hkept hmem
      · exact hkept (List.mem_filter.1 hmem).1
    | evaluate i answer jobs nextUid =>
      exact hkept ((evaluated_reportRetired _ _ _).reported_mem h)
    | track i job rest => exact hkept h
    | finish index accepted now hstep =>
      unfold QueueExecutor.finishReport at h
      split at h
      · exact hkept h
      rename_i report hreport
      cases accepted with
      | false => exact hkept h
      | true =>
        rcases List.mem_cons.1 h with hnew | hold
        · exact ⟨steps, index, now, [], report, by rw [hstep], hreport,
            (congrArg Prod.fst hnew).symm⟩
        · exact hkept hold

/-- A tracked claim is tracked on until its report was accepted. -/
theorem tracked_run {uid : Uid} {held : RetiringClaim}
    (h : ((QueueWorld.init.run env first).executor executor).retiring.get uid = some held)
    (rest : List QueueStep) :
    ((QueueWorld.init.run env (first ++ rest)).executor executor).retiring.get uid = some held ∨
      AcceptedIn env (first ++ rest) executor held.claim := by
  induction rest using List.reverseRecOn with
  | nil =>
    rw [List.append_nil]
    exact .inl h
  | append_singleton rest step ih =>
    rw [← List.append_assoc, run_snoc]
    rcases ih with htracked | haccepted
    · obtain ⟨born, hborn⟩ := claimed_run env (first ++ rest)
      rcases hborn.tracked_step step htracked with hsame | ⟨reportedAt, hmem⟩
      · exact .inl hsame
      · exact .inr ((reported_run hmem).append _)
    · exact .inr (haccepted.append _)

/-- The list of a thread is what it found when it took it. -/
theorem evaluating_run {jobs : List QueueJob} {nextUid : Uid}
    (h : (QueueWorld.init.run env steps).threads.get id =
      some { executor, task := .inventory (.evaluating jobs nextUid) }) :
    ∃ before answer middle, steps = before ++ .thread id answer :: middle ∧
      (QueueWorld.init.run env before).threads.get id =
        some { executor, task := .inventory .listing } ∧
      jobs = (QueueWorld.init.run env before).api.jobs.byName.values.filter (·.labelled) ∧
      nextUid = (QueueWorld.init.run env before).api.jobs.nextId := by
  induction steps using List.reverseRecOn with
  | nil => cases h
  | append_singleton steps step ih =>
    rw [run_snoc] at h
    rcases step_threads h with hsame | ⟨start, hstart⟩ | ⟨answer, old, rfl, hgot, hnext⟩
    · obtain ⟨before, answer, middle, rfl, hlisting, hjobs, huid⟩ := ih hsame
      exact ⟨before, answer, middle ++ [step], by simp, hlisting, hjobs, huid⟩
    · cases start <;> cases hstart
    · generalize ht : ({ executor, task := .inventory (.evaluating jobs nextUid) } : QueueThread) = t
        at hnext
      cases hnext with
      | launch on l phase => cases ht
      | sweep on phase => cases ht
      | inventory on phase =>
        cases phase with
        | listing =>
          unfold InventoryPhase.step at ht
          dsimp only at ht
          split_ifs at ht
          · cases ht
            exact ⟨steps, answer, [], rfl, hgot, rfl, rfl⟩
          · cases ht
        | evaluating others uid => cases ht
        | counting others => cases others <;> cases ht
        | returned => cases ht

/-- A tracked Job that a list is without, taken after its creation, was gone when the list was. -/
theorem gone_of_listed {uid : Uid} (env : QueueEnv) (before : List QueueStep)
    (hcreated : uid < (QueueWorld.init.run env before).api.jobs.nextId)
    (habsent : uid ∉ ((QueueWorld.init.run env before).api.jobs.byName.values.filter
      (·.labelled)).map (·.uid)) : ¬(QueueWorld.init.run env before).api.Stored uid := by
  rintro ⟨name, job, hget, rfl⟩
  refine habsent (List.mem_map.2 ⟨job, List.mem_filter.2 ⟨?_, ?_⟩, rfl⟩)
  · exact (OrderedMap.mem_values_iff _ _).2 ⟨name, hget⟩
  · exact (owned_run env before).labelled hget

theorem gone_run {uid : Uid} (env : QueueEnv) (steps : List QueueStep)
    (hcreated : uid < (QueueWorld.init.run env steps).api.jobs.nextId)
    (habsent : ¬(QueueWorld.init.run env steps).api.Stored uid) :
    (QueueWorld.init.run env steps).api.Gone uid :=
  ⟨hcreated, habsent, fun hpod owner howner huid =>
    habsent (huid ▸ (owned_run env steps).pods hpod owner howner)⟩

end Runs

/-- While no list is evaluated that is older than a tracked Job whose exit is still to be reported, an
evaluation reports only exits of tracked Jobs that were gone, with their Pods, when the list was
taken, and are gone still.  In every run a tracked claim is tracked on until its report was accepted,
and no two reports of a claim are in flight at a time. -/
theorem retired_exits (env : QueueEnv) (steps : List QueueStep) :
    (Machine.Along (QueueWorld.step env) QueueWorld.FreshList QueueWorld.init steps →
      ∀ first id answer rest executor jobs nextUid, steps = first ++ .thread id answer :: rest →
        (QueueWorld.init.run env first).threads.get id =
          some { executor, task := .inventory (.evaluating jobs nextUid) } →
        ∃ started, (((QueueWorld.init.run env first).step env (.thread id answer)).executor
            executor).reports =
              ((QueueWorld.init.run env first).executor executor).reports ++ started ∧
          ∀ report ∈ started, ∃ uid held,
            ((QueueWorld.init.run env first).executor executor).retiring.get uid = some held ∧
            report.claim = held.claim ∧ (QueueWorld.init.run env first).api.Gone uid ∧
            ∃ before listing middle, first = before ++ .thread id listing :: middle ∧
              (QueueWorld.init.run env before).threads.get id =
                some { executor, task := .inventory .listing } ∧
              jobs = (QueueWorld.init.run env before).api.jobs.byName.values.filter (·.labelled) ∧
              (QueueWorld.init.run env before).api.Gone uid) ∧
    (∀ first rest executor uid held, steps = first ++ rest →
      ((QueueWorld.init.run env first).executor executor).retiring.get uid = some held →
      ((QueueWorld.init.run env steps).executor executor).retiring.get uid = some held ∨
        AcceptedIn env steps executor held.claim) ∧
    ∀ first rest executor, steps = first ++ rest →
      (((QueueWorld.init.run env first).executor executor).reports.map (·.claim)).Nodup := by
  refine ⟨?_, ?_, ?_⟩
  · rintro hfresh first id answer rest executor jobs nextUid rfl ht
    have hstep : ((QueueWorld.init.run env first).step env (.thread id answer)).executor executor =
        ((QueueWorld.init.run env first).executor executor).reportRetired answer.now
          (jobs.map (·.uid)) := by
      rw [QueueWorld.step, ht]
      exact (executor_set _ _ _ _ _ _).trans (if_pos rfl)
    rw [hstep]
    obtain ⟨started, hreports, hall⟩ := (evaluated_reportRetired
      ((QueueWorld.init.run env first).executor executor) answer.now (jobs.map (·.uid))).reports
    refine ⟨started, hreports, fun report hreport => ?_⟩
    obtain ⟨uid, held, htracked, habsent, hclaim, hnew⟩ := hall report hreport
    obtain ⟨before, listing, middle, rfl, hlisting, rfl, rfl⟩ := evaluating_run ht
    have hcreated : uid < (QueueWorld.init.run env before).api.jobs.nextId := by
      have hlist := Machine.along_iff.1 hfresh _ _ _ rfl _ ht _ rfl (uid, held)
        ((OrderedMap.getEntry_eq_some_iff _ (OrderedMap.nodup _) _ _).1 htracked)
      exact hlist.resolve_right hnew
    have hgone := gone_of_listed env before hcreated habsent
    obtain ⟨hcreated', hgone'⟩ :=
      (QueueWorld.sound_run before).not_stored_run hcreated hgone (.thread id listing :: middle)
    unfold QueueWorld.run at hcreated' hgone'
    rw [← Machine.run_append] at hcreated' hgone'
    exact ⟨uid, held, htracked, hclaim, gone_run env _ hcreated' hgone', before, listing, middle,
      rfl, hlisting, rfl, gone_run env _ hcreated hgone⟩
  · rintro first rest executor uid held rfl htracked
    exact tracked_run htracked rest
  · rintro first rest executor -
    have hflights := flights_run env first executor
    exact hflights.reports.nodup_iff.1 hflights.nodup

/-! ### A list that is too old -/

namespace Sample

/-- The Job of a launch is resumed and runs a Pod. -/
def launchedJob : List QueueStep :=
  [.start 0 0 (.launch queueLaunch) 0] ++ List.replicate 7 (.thread 0 {}) ++
    [.cluster (.createPod "pod" (queueJobName queueEnv queueLaunch.runId))]

/-- A sweep finds its claim settled, deletes the Job and tracks it. -/
def retiredClaim : List QueueStep := [.start 2 0 .sweep 0] ++ List.replicate 5 (.thread 2 {})

/-- The list is taken before the launch. -/
def staleList : List QueueStep :=
  [.executor 0 "runner", .start 1 0 .inventory 0, .thread 1 {}] ++ launchedJob ++ retiredClaim

/-- The list is taken when the Job is gone. -/
def freshList : List QueueStep :=
  [.executor 0 "runner"] ++ launchedJob ++ retiredClaim ++
    [.cluster (.removePod "pod"), .cluster (.removeJob (queueJobName queueEnv queueLaunch.runId)),
      .start 1 0 .inventory 0, .thread 1 {}]

end Sample

/-- The exit is reported while the Job is there and its Pod runs. -/
theorem stale_list_reported :
    ∃ job report, (QueueWorld.init.run Sample.queueEnv Sample.staleList).api.jobs.byName.get job.name =
        some job ∧
      (QueueWorld.init.run Sample.queueEnv Sample.staleList).api.pods.get "pod" =
        some [jobOwner job] ∧
      ((QueueWorld.init.run Sample.queueEnv Sample.staleList).executor 0).retiring.get job.uid =
        some (claimOf job) ∧
      ((QueueWorld.init.run Sample.queueEnv Sample.staleList).executor 0).reports = [] ∧
      (((QueueWorld.init.run Sample.queueEnv Sample.staleList).step Sample.queueEnv
        (.thread 1 {})).executor 0).reports = [report] ∧ report.claim = (claimOf job).claim := by
  have hrun : (QueueWorld.init.run Sample.queueEnv Sample.staleList).api.jobs.byName.entries.any
      (fun entry => (QueueWorld.init.run Sample.queueEnv Sample.staleList).api.jobs.byName.get
          entry.2.name = some entry.2 ∧
        (QueueWorld.init.run Sample.queueEnv Sample.staleList).api.pods.get "pod" =
          some [jobOwner entry.2] ∧
        ((QueueWorld.init.run Sample.queueEnv Sample.staleList).executor 0).retiring.get
          entry.2.uid = some (claimOf entry.2) ∧
        ((QueueWorld.init.run Sample.queueEnv Sample.staleList).executor 0).reports = [] ∧
        (((QueueWorld.init.run Sample.queueEnv Sample.staleList).step Sample.queueEnv
          (.thread 1 {})).executor 0).reports =
            [{ claim := (claimOf entry.2).claim, runner := "runner" }]) = true := by
    decide +kernel
  obtain ⟨⟨name, job⟩, -, hrun⟩ := List.any_eq_true.1 hrun
  rw [decide_eq_true_eq] at hrun
  obtain ⟨hjob, hpod, htracked, hbefore, hafter⟩ := hrun
  exact ⟨job, _, hjob, hpod, htracked, hbefore, hafter, rfl⟩

theorem retired_exits_fresh :
    ∃ report uid, (((QueueWorld.init.run Sample.queueEnv Sample.freshList).step Sample.queueEnv
        (.thread 1 {})).executor 0).reports = [report] ∧
      (QueueWorld.init.run Sample.queueEnv Sample.freshList).api.Gone uid := by
  have hfresh : Machine.Along (QueueWorld.step Sample.queueEnv) QueueWorld.FreshList
      QueueWorld.init (Sample.freshList ++ [.thread 1 {}]) := by
    decide +kernel
  have hlisted : (QueueWorld.init.run Sample.queueEnv Sample.freshList).threads.get 1 =
      some { executor := 0, task := .inventory (.evaluating [] 1) } := by
    decide +kernel
  have hreports : ((QueueWorld.init.run Sample.queueEnv Sample.freshList).executor 0).reports = [] ∧
      ((((QueueWorld.init.run Sample.queueEnv Sample.freshList).step Sample.queueEnv
        (.thread 1 {})).executor 0).reports.length = 1) := by
    decide +kernel
  obtain ⟨started, hstarted, hall⟩ := (retired_exits Sample.queueEnv
    (Sample.freshList ++ [.thread 1 {}])).1 hfresh _ _ _ _ _ _ _ rfl hlisted
  rw [hreports.1, List.nil_append] at hstarted
  obtain ⟨report, hreport⟩ := List.length_eq_one_iff.1 (hstarted ▸ hreports.2)
  obtain ⟨uid, held, -, -, hgone, -⟩ := hall report (hreport ▸ List.mem_singleton_self _)
  exact ⟨report, uid, hstarted.trans hreport, hgone⟩

end AgentLcars
