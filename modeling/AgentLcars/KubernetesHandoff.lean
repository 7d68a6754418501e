import AgentLcars.QueueKubernetes

/-!
# A claim is started at most once

Whatever the executors, the sweeps and the cluster do, a Job is resumed at most once, as it was
created, with the Secret of its own claim, and after the fence accepted that Secret's token.

* `ThreadMove`: the one thing a step of a thread does to the API.
* `QueueThread.Sound`: what a thread knows of the Jobs it holds; `QueueWorld.Sound` is the invariant.
* `handoff_once`: starts, launches of other claims, and deletions.
-/

namespace AgentLcars

open VersionedObjects

/-! ### The objects of the API -/

/-- What a write leaves of a Job. -/
structure JobFollows (x y : QueueJob) : Prop where
  name : y.name = x.name
  labelled : y.labelled = x.labelled
  runId : y.runId = x.runId
  claimedBy : y.claimedBy = x.claimedBy
  claim : y.claim = x.claim
  generation : x.generation ≤ y.generation

theorem JobFollows.refl (x : QueueJob) : JobFollows x x := ⟨rfl, rfl, rfl, rfl, rfl, le_rfl⟩

theorem JobFollows.trans {x y z : QueueJob} (h : JobFollows x y) (h' : JobFollows y z) :
    JobFollows x z :=
  ⟨h'.name.trans h.name, h'.labelled.trans h.labelled, h'.runId.trans h.runId,
    h'.claimedBy.trans h.claimedBy, h'.claim.trans h.claim, h.generation.trans h'.generation⟩

/-- The Job was read from the API, now or earlier. -/
abbrev JobSeen (api : KubeApi) (job : QueueJob) : Prop :=
  Seen QueueJob.uid QueueJob.resourceVersion JobFollows api.jobs job

/-- A step of the API's Jobs. -/
abbrev JobsMove (api api' : KubeApi) : Prop :=
  Move QueueJob.uid QueueJob.resourceVersion JobFollows api.jobs api'.jobs

/-- Jobs are stored under their names, with UIDs and versions of their own. -/
structure KubeApi.JobsSound (api : KubeApi) : Prop where
  wellFormed : WellFormed QueueJob.uid QueueJob.resourceVersion api.jobs
  named : ∀ {name job}, api.jobs.byName.get name = some job → job.name = name

/-- The Secret holds the token of the claim of the Jobs that own it. -/
structure SecretSound (env : QueueEnv) (api : KubeApi) (secret : QueueSecret) : Prop where
  known : ∀ owner ∈ secret.owners, owner.uid < api.jobs.nextId
  claim : ∀ {name job}, api.jobs.byName.get name = some job → ∀ owner ∈ secret.owners,
    job.uid = owner.uid → job.claim = queueClaimFingerprint env secret.runToken

/-- What any step leaves of the API. -/
structure ApiMove (env : QueueEnv) (api api' : KubeApi) : Prop where
  jobs : JobsMove api api'
  named : ∀ {name job}, api'.jobs.byName.get name = some job → job.name = name
  -- a Secret goes only when no Job that owns it is left
  kept : ∀ {name secret}, api.secrets.get name = some secret →
    api'.secrets.get name = some secret ∨
      secret.owners.any (fun owner => api.owned owner.uid) = false
  held : ∀ {name secret}, api'.secrets.get name = some secret →
    api.secrets.get name = some secret ∨ SecretSound env api secret

section Api

variable {env : QueueEnv} {api api' : KubeApi} {name : String} {job current : QueueJob}

theorem KubeApi.JobsSound.seen (h : api.JobsSound) (hget : api.jobs.byName.get name = some job) :
    JobSeen api job :=
  h.wellFormed.seen JobFollows.refl hget

theorem ApiMove.seen (h : ApiMove env api api') (hseen : JobSeen api job) : JobSeen api' job :=
  hseen.move (fun h h' => h.trans h') h.jobs

theorem ApiMove.jobsSound (h : ApiMove env api api') (hapi : api.JobsSound) : api'.JobsSound :=
  ⟨hapi.wellFormed.move h.jobs, h.named⟩

theorem ApiMove.secretSound (h : ApiMove env api api') {secret : QueueSecret}
    (hs : SecretSound env api secret) : SecretSound env api' secret where
  known owner howner := Nat.lt_of_lt_of_le (hs.known owner howner) h.jobs.nextId_le
  claim := by
    intro name job hjob owner howner huid
    obtain ⟨x, hx, hid, hfrom⟩ := h.jobs.before hjob (huid ▸ hs.known owner howner)
    have hclaim := hs.claim hx owner howner (hid.trans huid)
    rcases hfrom with rfl | ⟨hfollows, -⟩
    · exact hclaim
    · exact hfollows.claim.trans hclaim

/-- A step that writes one stored Job. -/
theorem apiMove_write (hapi : api.JobsSound) (hget : api.jobs.byName.get name = some job)
    {changed : QueueJob} (huid : changed.uid = job.uid) (hfollows : JobFollows job changed) :
    ApiMove env api (api.writeJob changed) where
  jobs := by
    have hname : changed.name = name := hfollows.name.trans (hapi.named hget)
    refine .write changed.name job _ (hname.symm ▸ hget) huid rfl ?_
    exact ⟨hfollows.name, hfollows.labelled, hfollows.runId, hfollows.claimedBy, hfollows.claim,
      hfollows.generation⟩
  named := by
    intro m x hx
    rw [KubeApi.writeJob, OrderedMap.get_set] at hx
    split_ifs at hx with hm
    · obtain rfl := Option.some.inj hx
      exact hm.symm
    · exact hapi.named hx
  kept h := .inl h
  held h := .inl h

theorem apiMove_keep (hapi : api.JobsSound) : ApiMove env api api :=
  ⟨.keep, hapi.named, fun h => .inl h, fun h => .inl h⟩

/-- Whatever the cluster does. -/
theorem apiMove_act (hapi : api.JobsSound) (act : ClusterAct) : ApiMove env api (api.act act) := by
  have hjob : ∀ (name : String) (f : QueueJob → KubeApi),
      (∀ job, api.jobs.byName.get name = some job → ApiMove env api (f job)) →
      ApiMove env api (api.onJob name f) := by
    intro name f h
    unfold KubeApi.onJob
    split
    · exact apiMove_keep hapi
    · rename_i job hget
      exact h job hget
  cases act with
  | writeStatus name status =>
    exact hjob _ _ fun job hget => apiMove_write hapi hget rfl ⟨rfl, rfl, rfl, rfl, rfl, le_rfl⟩
  | editSpec name suspend =>
    exact hjob _ _ fun job hget =>
      apiMove_write hapi hget rfl ⟨rfl, rfl, rfl, rfl, rfl, Nat.le_succ _⟩
  | deleteJob name =>
    exact hjob _ _ fun job hget => apiMove_write hapi hget rfl ⟨rfl, rfl, rfl, rfl, rfl, le_rfl⟩
  | removeJob name =>
    refine hjob _ _ fun job hget => ?_
    split
    · refine ⟨.remove name, ?_, fun h => .inl h, fun h => .inl h⟩
      intro m x hx
      rw [OrderedMap.get_erase] at hx
      split_ifs at hx
      exact hapi.named hx
    · exact apiMove_keep hapi
  | createPod podName jobName =>
    exact hjob _ _ fun job hget => ⟨.keep, hapi.named, fun h => .inl h, fun h => .inl h⟩
  | removePod podName => exact ⟨.keep, hapi.named, fun h => .inl h, fun h => .inl h⟩
  | collectSecret name =>
    dsimp only [KubeApi.act]
    split
    · exact apiMove_keep hapi
    rename_i secret hsecret
    split
    · exact apiMove_keep hapi
    rename_i hunowned
    refine ⟨.keep, hapi.named, ?_, ?_⟩
    · intro m s hs
      by_cases hm : m = name
      · subst hm
        obtain rfl := Option.some.inj (hsecret.symm.trans hs)
        exact .inr (by simpa using hunowned)
      · exact .inl (by rw [OrderedMap.get_erase, if_neg hm]; exact hs)
    · intro m s hs
      rw [OrderedMap.get_erase] at hs
      split_ifs at hs
      exact .inl hs

end Api

/-! ### What a thread does to the API -/

/-- The resume that a thread is in. -/
def QueueTask.resume : QueueTask → Option Resume
  | .launch _ (.resuming r) | .sweep (.resuming r _) => some r
  | _ => none

/-- The API after a step of a thread. -/
inductive ThreadMove (env : QueueEnv) (api : KubeApi) (task : QueueTask) : KubeApi → Prop
  | keep : ThreadMove env api task api
  | create (l : DirectRunnerLaunch) (now : Time) (htask : task = .launch l .creating)
      (habsent : api.jobs.byName.get (queueJobName env l.runId) = none) :
      ThreadMove env api task { api with
        jobs := { byName := api.jobs.byName.set (queueJobName env l.runId) { l.job env now with
                    uid := api.jobs.nextId, resourceVersion := api.jobs.nextVersion
                    generation := 1 }
                  nextId := api.jobs.nextId + 1
                  nextVersion := api.jobs.nextVersion + 1 } }
  | secret (l : DirectRunnerLaunch) (job : QueueJob)
      (htask : task = .launch l (.creatingSecret job))
      (habsent : api.secrets.get job.name = none) :
      ThreadMove env api task { api with secrets := api.secrets.set job.name (l.secret job) }
  | resume (r : Resume) (current : QueueJob) (secret : QueueSecret) (job : QueueJob)
      (htask : task.resume = some r) (hphase : r.phase = .updating current secret)
      (hget : api.jobs.byName.get current.name = some job) (huid : job.uid = current.uid)
      (hversion : job.resourceVersion = current.resourceVersion) :
      ThreadMove env api task
        (api.writeJob { job with suspend := some false, generation := job.generation + 1 })
  | delete (read : QueueJob) (rest : List QueueJob) (job : QueueJob)
      (htask : task = .sweep (.deleting read rest))
      (hget : api.jobs.byName.get read.name = some job) (huid : job.uid = read.uid)
      (hversion : job.resourceVersion = read.resourceVersion) :
      ThreadMove env api task (api.writeJob { job with deleting := true })

section Moves

variable {env : QueueEnv} {api : KubeApi} {thread : Nat} {answer : QueueAnswer}

/-- A call takes effect or leaves the API as it was. -/
theorem answer_api {α : Type} (api : KubeApi) (transport : Transport) (outcome : Except ApiError α)
    (after : α → KubeApi) : (api.answer transport outcome after).2 = api ∨
      ∃ a, outcome = .ok a ∧ (api.answer transport outcome after).2 = after a := by
  cases transport <;> cases outcome <;> simp [KubeApi.answer]

theorem Resume.step_api (r : Resume) : (r.step env thread api answer).2.1 = api ∨
    ∃ current secret job, r.phase = .updating current secret ∧
      api.jobs.byName.get current.name = some job ∧ job.uid = current.uid ∧
      job.resourceVersion = current.resourceVersion ∧ (r.step env thread api answer).2.1 =
        api.writeJob { job with suspend := some false, generation := job.generation + 1 } := by
  obtain ⟨held, conflicts, phase⟩ := r
  cases phase with
  | getting => unfold Resume.step; dsimp only; split <;> [split_ifs; skip] <;> exact .inl rfl
  | listingPods current => unfold Resume.step; dsimp only; split <;> exact .inl rfl
  | gettingSecret current =>
    unfold Resume.step; dsimp only; split <;> [split_ifs; skip] <;> exact .inl rfl
  | verifying current secret => unfold Resume.step; dsimp only; split <;> exact .inl rfl
  | updating current secret =>
    have hafter : (Resume.step env thread ⟨held, conflicts, .updating current secret⟩ api
        answer).2.1 = (api.answer answer.transport (api.resumeJob current) fun after => after).2 := by
      unfold Resume.step
      dsimp only
      split
      · split_ifs
        · rename_i h _; rw [h]
        · rename_i h _; rw [h]
      · rename_i h; rw [h]
    rcases answer_api api answer.transport (api.resumeJob current) (fun after => after)
      with hsame | ⟨after, hok, hsame⟩
    · exact .inl (hafter.trans hsame)
    · unfold KubeApi.resumeJob at hok
      split at hok
      · cases hok
      rename_i job hget
      split_ifs at hok with hdiffers
      obtain rfl := Except.ok.inj hok
      rw [not_or, not_not, not_not] at hdiffers
      exact .inr ⟨current, secret, job, rfl, hget, hdiffers.1, hdiffers.2, hafter.trans hsame⟩

/-- A resume of a thread does what resumes do. -/
theorem threadMove_resume {task : QueueTask} (r : Resume) (htask : task.resume = some r) :
    ThreadMove env api task (r.step env thread api answer).2.1 := by
  rcases @Resume.step_api env api thread answer r with
    hsame | ⟨current, secret, job, hphase, hget, huid, hversion, hafter⟩
  · rw [hsame]
    exact .keep
  · rw [hafter]
    exact .resume r current secret job htask hphase hget huid hversion

theorem LaunchPhase.step_api (l : DirectRunnerLaunch) (phase : LaunchPhase) :
    ThreadMove env api (.launch l phase) (phase.step env thread l api answer).2.1 := by
  cases phase with
  | creating =>
    have hafter : (LaunchPhase.creating.step env thread l api answer).2.1 =
        (api.answer answer.transport (api.createJob (l.job env answer.now)) (·.2)).2 := by
      unfold LaunchPhase.step
      dsimp only
      split <;> rename_i h <;> rw [h]
    rw [hafter]
    rcases answer_api api answer.transport (api.createJob (l.job env answer.now)) (·.2)
      with hsame | ⟨⟨job, after⟩, hok, hsame⟩
    · rw [hsame]
      exact .keep
    · rw [hsame]
      unfold KubeApi.createJob at hok
      split at hok
      · cases hok
      rename_i habsent
      obtain ⟨rfl, rfl⟩ := Prod.mk.inj (Except.ok.inj hok)
      exact .create l answer.now rfl habsent
  | reading => unfold LaunchPhase.step; dsimp only; split <;> exact .keep
  | creatingSecret job =>
    have hafter : ((LaunchPhase.creatingSecret job).step env thread l api answer).2.1 =
        (api.answer answer.transport (api.createSecret (l.secret job)) fun after => after).2 := by
      unfold LaunchPhase.step
      dsimp only
      split <;> rename_i h <;> rw [h]
    rw [hafter]
    rcases answer_api api answer.transport (api.createSecret (l.secret job))
      (fun after => after) with hsame | ⟨after, hok, hsame⟩
    · rw [hsame]
      exact .keep
    · rw [hsame]
      unfold KubeApi.createSecret at hok
      split at hok
      · cases hok
      rename_i habsent
      obtain rfl := Except.ok.inj hok
      exact .secret l job rfl habsent
  | resuming r =>
    have hafter : ((LaunchPhase.resuming r).step env thread l api answer).2.1 =
        (r.step env thread api answer).2.1 := by
      unfold LaunchPhase.step
      dsimp only
      split <;> rename_i h <;> rw [h]
    rw [hafter]
    exact threadMove_resume r rfl
  | returned => exact .keep

theorem SweepPhase.deleting_api (job : QueueJob) (rest : List QueueJob) :
    ((SweepPhase.deleting job rest).step env thread api answer).2.1 =
      (api.answer answer.transport (api.deleteJob job) fun after => after).2 := by
  unfold SweepPhase.step
  dsimp only
  split <;> rename_i h <;> rw [h]

theorem SweepPhase.step_api (phase : SweepPhase) :
    ThreadMove env api (.sweep phase) (phase.step env thread api answer).2.1 := by
  cases phase with
  | listing => unfold SweepPhase.step; dsimp only; split <;> exact .keep
  | visiting jobs =>
    cases jobs with
    | nil => exact .keep
    | cons job rest => unfold SweepPhase.step; dsimp only; split_ifs <;> exact .keep
  | settling job rest => unfold SweepPhase.step; dsimp only; split_ifs <;> exact .keep
  | deleting job rest =>
    rw [deleting_api]
    rcases answer_api api answer.transport (api.deleteJob job) (fun after => after)
      with hsame | ⟨after, hok, hsame⟩
    · rw [hsame]
      exact .keep
    · rw [hsame]
      unfold KubeApi.deleteJob at hok
      split at hok
      · cases hok
      rename_i stored hget
      split_ifs at hok with hdiffers
      obtain rfl := Except.ok.inj hok
      rw [not_or, not_not, not_not] at hdiffers
      exact .delete job rest stored rfl hget hdiffers.1 hdiffers.2
  | tracking job rest => exact .keep
  | resuming r rest =>
    have hafter : ((SweepPhase.resuming r rest).step env thread api answer).2.1 =
        (r.step env thread api answer).2.1 := by
      unfold SweepPhase.step
      dsimp only
      split <;> rename_i h <;> rw [h]
    rw [hafter]
    exact threadMove_resume r rfl
  | returned => exact .keep

theorem advance_api (w : QueueWorld) (t : QueueThread) :
    ThreadMove env w.api t.task (w.advance env thread t answer).api := by
  obtain ⟨executor, task⟩ := t
  cases task with
  | launch l phase => exact phase.step_api l
  | sweep phase => exact phase.step_api
  | inventory phase => exact .keep

end Moves

/-! ### What a thread knows -/

/-- The fence accepted this token for the thread, which has not begun another attempt since. -/
def FencedBy (trace : List QueueEvent) (thread : Nat) (runId token : String) : Prop :=
  ∃ before after, trace = before ++ .fenced thread runId token :: after ∧ .attempt thread ∉ after

/-- The thread listed these Jobs. -/
structure Listed (api : KubeApi) (trace : List QueueEvent) (thread : Nat) (jobs : List QueueJob) :
    Prop where
  seen : ∀ job ∈ jobs, JobSeen api job
  listed : ∃ all, .listed thread all ∈ trace ∧ ∀ job ∈ jobs, job ∈ all

/-- The thread had listed the Job when its claim was confirmed settled. -/
def Confirmed (trace : List QueueEvent) (thread : Nat) (job : QueueJob) : Prop :=
  ∃ before after all, trace =
    before ++ .settled thread job.runId job.claimedBy job.claim :: after ∧
      .listed thread all ∈ before ∧ job ∈ all

/-- The Job that a resume read in this attempt. -/
structure ResumeRead (env : QueueEnv) (api : KubeApi) (job current : QueueJob) : Prop where
  seen : JobSeen api current
  same : sameQueueJob env job current = true
  deleting : current.deleting = false
  suspend : current.suspend = some true
  attempted : queueJobAttempted current = false
  generation : current.generation = 1

/-- The Secret that was read fits the Job, and stands while the Job is as it was read. -/
structure SecretRead (env : QueueEnv) (api : KubeApi) (current : QueueJob) (secret : QueueSecret) :
    Prop where
  fits : secretFits env current secret = true
  stands : ∀ {job}, api.jobs.byName.get current.name = some job → job.uid = current.uid →
    job.resourceVersion = current.resourceVersion → api.secrets.get current.name = some secret

/-- What a resume knows. -/
def Resume.Sound (env : QueueEnv) (api : KubeApi) (trace : List QueueEvent) (thread : Nat)
    (r : Resume) : Prop :=
  match r.phase with
  | .getting => True
  | .listingPods current | .gettingSecret current => ResumeRead env api r.job current
  | .verifying current secret => ResumeRead env api r.job current ∧ SecretRead env api current secret
  | .updating current secret => ResumeRead env api r.job current ∧
      SecretRead env api current secret ∧ FencedBy trace thread r.job.runId secret.runToken

/-- The Job is the one of this claim. -/
structure Adopted (env : QueueEnv) (api : KubeApi) (l : DirectRunnerLaunch) (job : QueueJob) :
    Prop where
  seen : JobSeen api job
  runId : job.runId = l.runId
  claimedBy : job.claimedBy = l.runner
  claim : job.claim = queueClaimFingerprint env l.runToken

/-- What a thread knows. -/
def QueueTask.Sound (env : QueueEnv) (api : KubeApi) (trace : List QueueEvent) (thread : Nat) :
    QueueTask → Prop
  | .launch l (.creatingSecret job) => Adopted env api l job
  | .launch l (.resuming r) => Adopted env api l r.job ∧ r.Sound env api trace thread
  | .launch _ _ => True
  | .sweep (.visiting jobs) => Listed api trace thread jobs
  | .sweep (.settling job rest) => Listed api trace thread (job :: rest)
  | .sweep (.deleting job rest) => Listed api trace thread (job :: rest) ∧ Confirmed trace thread job
  | .sweep (.tracking _ rest) => Listed api trace thread rest
  | .sweep (.resuming r rest) => Listed api trace thread rest ∧ r.Sound env api trace thread
  | .sweep _ => True
  | .inventory _ => True

section Kept

variable {env : QueueEnv} {api api' : KubeApi} {trace : List QueueEvent} {thread : Nat}
  {events : List QueueEvent}

theorem FencedBy.append {runId token : String} (h : FencedBy trace thread runId token)
    (hevents : .attempt thread ∉ events) : FencedBy (trace ++ events) thread runId token := by
  obtain ⟨before, after, rfl, hafter⟩ := h
  refine ⟨before, after ++ events, by simp, fun hmem => ?_⟩
  rcases List.mem_append.1 hmem with hmem | hmem
  · exact hafter hmem
  · exact hevents hmem

theorem Listed.kept (hmove : ApiMove env api api') {jobs : List QueueJob}
    (h : Listed api trace thread jobs) : Listed api' (trace ++ events) thread jobs := by
  refine ⟨fun job hjob => hmove.seen (h.seen job hjob), ?_⟩
  obtain ⟨all, hlisted, hall⟩ := h.listed
  exact ⟨all, List.mem_append_left _ hlisted, hall⟩

theorem Listed.subset {jobs rest : List QueueJob} (h : Listed api trace thread jobs)
    (hsubset : ∀ job ∈ rest, job ∈ jobs) : Listed api trace thread rest := by
  refine ⟨fun job hjob => h.seen job (hsubset job hjob), ?_⟩
  obtain ⟨all, hlisted, hall⟩ := h.listed
  exact ⟨all, hlisted, fun job hjob => hall job (hsubset job hjob)⟩

theorem Confirmed.append {job : QueueJob} (h : Confirmed trace thread job) :
    Confirmed (trace ++ events) thread job := by
  obtain ⟨before, after, all, rfl, hlisted, hall⟩ := h
  exact ⟨before, after ++ events, all, by simp, hlisted, hall⟩

theorem ResumeRead.kept (hmove : ApiMove env api api') {job current : QueueJob}
    (h : ResumeRead env api job current) : ResumeRead env api' job current :=
  { h with seen := hmove.seen h.seen }

/-- The garbage collector leaves the Secret of a Job that is as it was read. -/
theorem SecretRead.kept (hmove : ApiMove env api api') {job current : QueueJob}
    {secret : QueueSecret} (hread : ResumeRead env api job current)
    (h : SecretRead env api current secret) : SecretRead env api' current secret := by
  refine ⟨h.fits, ?_⟩
  intro stored hget huid hversion
  -- the Job was there before the step, as it was read
  obtain ⟨x, hx, hid, hfrom⟩ := hmove.jobs.before hget (huid ▸ hread.seen.id_lt)
  have hsame : x = stored := by
    rcases hfrom with rfl | ⟨-, hnew⟩
    · rfl
    · have := hread.seen.version_lt
      omega
  subst hsame
  have hcurrent : x = current := hread.seen.unchanged hx huid hversion
  subst hcurrent
  rcases hmove.kept (h.stands hx rfl rfl) with hkept | hunowned
  · exact hkept
  · -- it is owned by that Job
    have howner : jobOwner x ∈ secret.owners := by
      have hfits := h.fits
      simp only [secretFits, decide_eq_true_eq] at hfits
      exact List.contains_iff_mem.1 hfits.1
    have howned : api.owned (jobOwner x).uid = true := by
      unfold KubeApi.owned
      rw [List.any_eq_true]
      exact ⟨x, (OrderedMap.mem_values_iff _ _).2 ⟨_, hx⟩, by simp [jobOwner, hread.deleting]⟩
    rw [List.any_eq_false] at hunowned
    exact absurd howned (hunowned _ howner)

theorem Resume.Sound.kept (hmove : ApiMove env api api') (hevents : .attempt thread ∉ events)
    {r : Resume} (h : r.Sound env api trace thread) :
    r.Sound env api' (trace ++ events) thread := by
  obtain ⟨job, conflicts, phase⟩ := r
  cases phase with
  | getting => trivial
  | listingPods current => exact ResumeRead.kept hmove h
  | gettingSecret current => exact ResumeRead.kept hmove h
  | verifying current secret =>
    obtain ⟨hread, hsecret⟩ := h
    exact ⟨hread.kept hmove, hsecret.kept hmove hread⟩
  | updating current secret =>
    obtain ⟨hread, hsecret, hfenced⟩ := h
    exact ⟨hread.kept hmove, hsecret.kept hmove hread, hfenced.append hevents⟩

theorem Adopted.kept (hmove : ApiMove env api api') {l : DirectRunnerLaunch} {job : QueueJob}
    (h : Adopted env api l job) : Adopted env api' l job :=
  { h with seen := hmove.seen h.seen }

/-- What the others do leaves what a thread knows. -/
theorem QueueTask.Sound.kept (hmove : ApiMove env api api') (hevents : .attempt thread ∉ events)
    {task : QueueTask} (h : task.Sound env api trace thread) :
    task.Sound env api' (trace ++ events) thread := by
  cases task with
  | launch l phase =>
    cases phase with
    | creatingSecret job => exact Adopted.kept hmove h
    | resuming r => exact ⟨Adopted.kept hmove h.1, Resume.Sound.kept hmove hevents h.2⟩
    | _ => trivial
  | sweep phase =>
    cases phase with
    | visiting jobs => exact Listed.kept hmove h
    | settling job rest => exact Listed.kept hmove h
    | deleting job rest => exact ⟨Listed.kept hmove h.1, Confirmed.append h.2⟩
    | tracking job rest => exact Listed.kept hmove h
    | resuming r rest => exact ⟨Listed.kept hmove h.1, Resume.Sound.kept hmove hevents h.2⟩
    | _ => trivial
  | inventory phase => trivial

theorem QueueTask.Sound.of_resume {task : QueueTask} {r : Resume}
    (h : task.Sound env api trace thread) (hresume : task.resume = some r) :
    r.Sound env api trace thread := by
  unfold QueueTask.resume at hresume
  split at hresume
  · obtain rfl := Option.some.inj hresume
    exact h.2
  · obtain rfl := Option.some.inj hresume
    exact h.2
  · cases hresume

/-- What a thread does is a step of the API. -/
theorem ThreadMove.apiMove (hapi : api.JobsSound) {task : QueueTask}
    (htask : task.Sound env api trace thread) (h : ThreadMove env api task api') :
    ApiMove env api api' := by
  cases h with
  | keep => exact apiMove_keep hapi
  | create l now _ habsent =>
    refine ⟨.create _ _ habsent rfl rfl, ?_, fun h => .inl h, fun h => .inl h⟩
    intro name job hget
    rw [OrderedMap.get_set] at hget
    split_ifs at hget with hname
    · obtain rfl := Option.some.inj hget
      exact hname.symm
    · exact hapi.named hget
  | secret l job hlaunch habsent =>
    subst hlaunch
    have hadopted : Adopted env api l job := htask
    refine ⟨.keep, hapi.named, ?_, ?_⟩
    · intro name secret hget
      refine .inl ?_
      rw [OrderedMap.get_set, if_neg]
      · exact hget
      · rintro rfl
        rw [habsent] at hget
        cases hget
    · intro name secret hget
      rw [OrderedMap.get_set] at hget
      split_ifs at hget
      · obtain rfl := Option.some.inj hget
        refine .inr ⟨?_, ?_⟩
        · intro owner howner
          obtain rfl := List.mem_singleton.1 howner
          exact hadopted.seen.id_lt
        · intro name stored hstored owner howner huid
          obtain rfl := List.mem_singleton.1 howner
          exact (hadopted.seen.follows hstored huid).1.claim.trans hadopted.claim
      · exact .inl hget
  | resume r current secret job _ _ hget =>
    exact apiMove_write hapi hget rfl ⟨rfl, rfl, rfl, rfl, rfl, Nat.le_succ _⟩
  | delete read rest job _ hget =>
    exact apiMove_write hapi hget rfl ⟨rfl, rfl, rfl, rfl, rfl, le_rfl⟩

end Kept

/-! ### What a thread learns -/

section Steps

variable {env : QueueEnv} {api : KubeApi} {trace : List QueueEvent} {thread : Nat}
  {answer : QueueAnswer}

theorem Resume.Sound.step (hapi : api.JobsSound) {r r' : Resume}
    (h : r.Sound env api trace thread) (hnext : (r.step env thread api answer).1 = some r') :
    r'.job = r.job ∧ r'.Sound env (r.step env thread api answer).2.1
      (trace ++ (r.step env thread api answer).2.2) thread := by
  obtain ⟨job, conflicts, phase⟩ := r
  unfold Resume.step at hnext ⊢
  cases phase with
  | getting =>
    dsimp only at hnext ⊢
    split at hnext
    · rename_i current _ hget
      split_ifs at hnext with hfits
      obtain rfl := Option.some.inj hnext
      obtain ⟨hsame, hdeleting, hsuspend, hattempted, hgeneration⟩ := hfits
      rw [if_pos ⟨hsame, hdeleting, hsuspend, hattempted, hgeneration⟩]
      exact ⟨rfl, hapi.seen hget, hsame, by simpa using hdeleting, hsuspend, by simpa using hattempted,
        hgeneration⟩
    · cases hnext
  | listingPods current =>
    dsimp only at hnext ⊢
    split_ifs at hnext with hpods
    obtain rfl := Option.some.inj hnext
    rw [if_pos hpods]
    exact ⟨rfl, h⟩
  | gettingSecret current =>
    dsimp only at hnext ⊢
    split at hnext
    · rename_i secret _ hget
      split_ifs at hnext with hfits
      obtain rfl := Option.some.inj hnext
      rw [if_pos hfits]
      exact ⟨rfl, h, hfits, fun _ _ _ => hget⟩
    · cases hnext
  | verifying current secret =>
    dsimp only at hnext ⊢
    split_ifs at hnext with hfenced
    obtain rfl := Option.some.inj hnext
    rw [if_pos hfenced]
    exact ⟨rfl, h.1, h.2, trace, [], rfl, by simp⟩
  | updating current secret =>
    dsimp only at hnext ⊢
    split at hnext
    · split_ifs at hnext with htries
      obtain rfl := Option.some.inj hnext
      rw [if_pos htries]
      exact ⟨rfl, trivial⟩
    · cases hnext

theorem launchFound_sound {l : DirectRunnerLaunch} {job : QueueJob} (hseen : JobSeen api job) :
    (QueueTask.launch l (launchFound env l job)).Sound env api trace thread := by
  unfold launchFound
  split_ifs with hdiffers hstarted
  · trivial
  · trivial
  · simp only [not_or, not_not] at hdiffers
    exact ⟨hseen, hdiffers.1, hdiffers.2.2.1, hdiffers.2.2.2⟩

theorem LaunchPhase.step_sound (hapi : api.JobsSound) {l : DirectRunnerLaunch} {phase : LaunchPhase}
    (h : (QueueTask.launch l phase).Sound env api trace thread) :
    (QueueTask.launch l (phase.step env thread l api answer).1).Sound env
      (phase.step env thread l api answer).2.1
      (trace ++ (phase.step env thread l api answer).2.2) thread := by
  have hmove : ApiMove env api (phase.step env thread l api answer).2.1 :=
    (phase.step_api l).apiMove hapi h
  cases phase with
  | creating =>
    unfold LaunchPhase.step at hmove ⊢
    dsimp only at hmove ⊢
    split
    · rename_i job stored after hanswer
      rw [hanswer] at hmove
      refine launchFound_sound ?_
      -- the created Job is stored under its name
      refine @KubeApi.JobsSound.seen _ (l.job env answer.now).name _ (hmove.jobsSound hapi) ?_
      unfold KubeApi.createJob at hanswer
      split at hanswer
      · cases htransport : answer.transport <;> rw [htransport] at hanswer <;> cases hanswer
      · cases htransport : answer.transport <;> rw [htransport] at hanswer <;> cases hanswer
        exact OrderedMap.get_set_self _ _ _
    · trivial
  | reading =>
    unfold LaunchPhase.step
    dsimp only
    split
    · rename_i job _ hget
      exact launchFound_sound (hapi.seen hget)
    · trivial
  | creatingSecret job =>
    have hadopted : Adopted env api l job := h
    unfold LaunchPhase.step at hmove ⊢
    dsimp only at hmove ⊢
    split
    · rename_i hanswer
      rw [hanswer] at hmove
      exact ⟨hadopted.kept hmove, trivial⟩
    · rename_i hanswer
      rw [hanswer] at hmove
      exact ⟨hadopted.kept hmove, trivial⟩
    · trivial
  | resuming r =>
    obtain ⟨hadopted, hr⟩ := h
    have hstep := fun r' => @Resume.Sound.step env api trace thread answer hapi r r' hr
    unfold LaunchPhase.step at hmove ⊢
    dsimp only at hmove ⊢
    split
    · rename_i r' after events hresult
      rw [hresult] at hmove
      obtain ⟨hjob, hsound⟩ := hstep r' (by rw [hresult])
      rw [hresult] at hsound
      refine ⟨?_, hsound⟩
      rw [hjob]
      exact hadopted.kept hmove
    · trivial
  | returned => trivial

theorem Listed.next {job : QueueJob} {rest : List QueueJob}
    (h : Listed api trace thread (job :: rest)) : Listed api trace thread rest :=
  h.subset fun _ hmem => List.mem_cons_of_mem job hmem

theorem afterRetirement_sound {job : QueueJob} {rest : List QueueJob} (now : Time)
    (h : Listed api trace thread rest) :
    (QueueTask.sweep (afterRetirement job rest now)).Sound env api trace thread := by
  unfold afterRetirement
  split_ifs
  · exact h
  · exact ⟨h, trivial⟩

theorem mem_orderedFrom {last : String} {jobs : List QueueJob} {job : QueueJob}
    (h : job ∈ orderedFrom last jobs) : job ∈ jobs := by
  unfold orderedFrom at h
  dsimp only at h
  have hsorted : ∀ {x : QueueJob},
      x ∈ jobs.insertionSort (fun a b => ¬b.name < a.name) → x ∈ jobs :=
    fun hx => (List.perm_insertionSort _ jobs).mem_iff.1 hx
  split_ifs at h
  · exact hsorted h
  · refine hsorted ?_
    rcases List.mem_append.1 h with h | h
    · exact (List.dropWhile_sublist _).subset h
    · exact (List.takeWhile_sublist _).subset h

theorem SweepPhase.step_sound (hapi : api.JobsSound) {phase : SweepPhase}
    (h : (QueueTask.sweep phase).Sound env api trace thread) :
    (QueueTask.sweep (phase.step env thread api answer).1).Sound env
      (phase.step env thread api answer).2.1
      (trace ++ (phase.step env thread api answer).2.2) thread := by
  have hmove : ApiMove env api (phase.step env thread api answer).2.1 :=
    phase.step_api.apiMove hapi h
  cases phase with
  | listing =>
    unfold SweepPhase.step
    dsimp only
    split_ifs
    · refine ⟨?_, _, List.mem_append_right _ (List.mem_singleton_self _), ?_⟩
      · intro job hjob
        obtain ⟨hvalue, -⟩ := List.mem_filter.1 (mem_orderedFrom hjob)
        obtain ⟨name, hget⟩ := (OrderedMap.mem_values_iff _ _).1 hvalue
        exact hapi.seen hget
      · exact fun job hjob => mem_orderedFrom hjob
    · trivial
  | visiting jobs =>
    cases jobs with
    | nil => trivial
    | cons job rest =>
      have hlisted : Listed api trace thread (job :: rest) := h
      unfold SweepPhase.step
      dsimp only
      have hrest : Listed api (trace ++ []) thread rest := by
        rw [List.append_nil]
        exact hlisted.next
      split_ifs
      · trivial
      · exact hrest
      · show Listed api (trace ++ []) thread (job :: rest)
        rw [List.append_nil]
        exact hlisted
      · exact afterRetirement_sound _ hrest
  | settling job rest =>
    have hlisted : Listed api trace thread (job :: rest) := h
    have hrest : Listed api (trace ++ []) thread rest := by
      rw [List.append_nil]
      exact hlisted.next
    unfold SweepPhase.step
    dsimp only
    split_ifs
    · exact hrest
    · refine ⟨hlisted.kept (@apiMove_keep env _ hapi), ?_⟩
      obtain ⟨all, hall, hsub⟩ := hlisted.listed
      exact ⟨trace, [], all, rfl, hall, hsub job List.mem_cons_self⟩
    · exact afterRetirement_sound _ hrest
  | deleting job rest =>
    have hlisted : Listed api trace thread (job :: rest) := h.1
    rw [deleting_api] at hmove
    unfold SweepPhase.step
    dsimp only
    split
    all_goals
      rename_i hanswer
      rw [hanswer] at hmove
      exact hlisted.next.kept hmove
  | tracking job rest =>
    have hlisted : Listed api trace thread rest := h
    show Listed api (trace ++ []) thread rest
    rw [List.append_nil]
    exact hlisted
  | resuming r rest =>
    have hlisted : Listed api trace thread rest := h.1
    have hstep := fun r' => @Resume.Sound.step env api trace thread answer hapi r r' h.2
    unfold SweepPhase.step at hmove ⊢
    dsimp only at hmove ⊢
    split
    · rename_i r' after events hresult
      rw [hresult] at hmove
      obtain ⟨-, hsound⟩ := hstep r' (by rw [hresult])
      rw [hresult] at hsound
      exact ⟨hlisted.kept hmove, hsound⟩
    · rename_i after events hresult
      rw [hresult] at hmove
      exact hlisted.kept hmove
  | returned => trivial

end Steps

/-! ### The invariant -/

structure QueueWorld.Sound (env : QueueEnv) (w : QueueWorld) : Prop where
  jobs : w.api.JobsSound
  secrets : ∀ {name secret}, w.api.secrets.get name = some secret → SecretSound env w.api secret
  threads : ∀ {id t}, w.threads.get id = some t → t.task.Sound env w.api w.trace id

section Invariant

variable {env : QueueEnv} {w : QueueWorld} {id : Nat} {answer : QueueAnswer}

/-- A thread records attempts of its own only. -/
theorem Resume.step_attempts (r : Resume) (api : KubeApi) {other : Nat} (hother : other ≠ id) :
    .attempt other ∉ (r.step env id api answer).2.2 := by
  obtain ⟨job, conflicts, phase⟩ := r
  unfold Resume.step
  cases phase with
  | getting => dsimp only; split <;> [split_ifs; skip] <;> simpa using hother
  | listingPods current => dsimp only; split_ifs <;> simp
  | gettingSecret current => dsimp only; split <;> [split_ifs; skip] <;> simp
  | verifying current secret => dsimp only; split_ifs <;> simp
  | updating current secret => dsimp only; split <;> [split_ifs; skip] <;> simp

theorem LaunchPhase.step_attempts (l : DirectRunnerLaunch) (phase : LaunchPhase) (api : KubeApi)
    {other : Nat} (hother : other ≠ id) :
    .attempt other ∉ (phase.step env id l api answer).2.2 := by
  cases phase with
  | resuming r =>
    have hattempts := @Resume.step_attempts env id answer r api _ hother
    unfold LaunchPhase.step
    dsimp only
    split <;> rename_i h <;> rw [h] at hattempts <;> exact hattempts
  | creating => unfold LaunchPhase.step; dsimp only; split <;> simp
  | reading => unfold LaunchPhase.step; dsimp only; split <;> simp
  | creatingSecret job => unfold LaunchPhase.step; dsimp only; split <;> simp
  | returned => simp [LaunchPhase.step]

theorem SweepPhase.step_attempts (phase : SweepPhase) (api : KubeApi) {other : Nat}
    (hother : other ≠ id) : .attempt other ∉ (phase.step env id api answer).2.2 := by
  cases phase with
  | resuming r rest =>
    have hattempts := @Resume.step_attempts env id answer r api _ hother
    unfold SweepPhase.step
    dsimp only
    split <;> rename_i h <;> rw [h] at hattempts <;> exact hattempts
  | listing => unfold SweepPhase.step; dsimp only; split_ifs <;> simp
  | visiting jobs =>
    cases jobs with
    | nil => simp [SweepPhase.step]
    | cons job rest => unfold SweepPhase.step; dsimp only; split_ifs <;> simp
  | settling job rest => unfold SweepPhase.step; dsimp only; split_ifs <;> simp
  | deleting job rest => unfold SweepPhase.step; dsimp only; split <;> simp
  | tracking job rest => simp [SweepPhase.step]
  | returned => simp [SweepPhase.step]

/-- What a thread's step leaves beside the API. -/
structure Advanced (env : QueueEnv) (w : QueueWorld) (id : Nat) (t : QueueThread)
    (w' : QueueWorld) : Prop where
  move : ApiMove env w.api w'.api
  next : ∃ task events, w'.threads = w.threads.set id { t with task } ∧
    w'.trace = w.trace ++ events ∧ (∀ other, other ≠ id → .attempt other ∉ events) ∧
    task.Sound env w'.api (w.trace ++ events) id

theorem QueueWorld.Sound.advanced (hw : w.Sound env) {t : QueueThread}
    (ht : w.threads.get id = some t) : Advanced env w id t (w.advance env id t answer) := by
  have htask := hw.threads ht
  refine ⟨(advance_api w t).apiMove hw.jobs htask, ?_⟩
  obtain ⟨executor, task⟩ := t
  cases task with
  | launch l phase =>
    exact ⟨_, _, rfl, rfl, fun _ => phase.step_attempts l w.api, phase.step_sound hw.jobs htask⟩
  | sweep phase =>
    exact ⟨_, _, rfl, rfl, fun _ => phase.step_attempts w.api, phase.step_sound hw.jobs htask⟩
  | inventory phase => exact ⟨_, [], rfl, (List.append_nil _).symm, by simp, trivial⟩

theorem QueueStart.task_sound (start : QueueStart) (api : KubeApi) (trace : List QueueEvent) :
    start.task.Sound env api trace id := by
  cases start <;> trivial

/-- Every step of the system is a step of the API. -/
theorem QueueWorld.Sound.apiMove (hw : w.Sound env) (step : QueueStep) :
    ApiMove env w.api (w.step env step).api := by
  cases step with
  | executor id runnerName =>
    unfold QueueWorld.step
    dsimp only
    split_ifs <;> exact apiMove_keep hw.jobs
  | start id executor start now =>
    unfold QueueWorld.step QueueWorld.begin
    dsimp only
    split
    · exact apiMove_keep hw.jobs
    · split
      · split_ifs <;> exact apiMove_keep hw.jobs
      · exact apiMove_keep hw.jobs
  | thread id answer =>
    unfold QueueWorld.step
    dsimp only
    split
    · exact apiMove_keep hw.jobs
    · rename_i t ht
      exact (hw.advanced ht).move
  | report executor index accepted now => exact apiMove_keep hw.jobs
  | cluster act => exact apiMove_act hw.jobs act

theorem QueueWorld.Sound.step (hw : w.Sound env) (step : QueueStep) :
    (w.step env step).Sound env := by
  have hmove := hw.apiMove step
  refine ⟨hmove.jobsSound hw.jobs, ?_, ?_⟩
  · intro name secret hget
    rcases hmove.held hget with hold | hnew
    · exact hmove.secretSound (hw.secrets hold)
    · exact hmove.secretSound hnew
  intro i t ht
  have hkept : ∀ events, (w.step env step).trace = w.trace ++ events → .attempt i ∉ events →
      w.threads.get i = some t →
      t.task.Sound env (w.step env step).api (w.step env step).trace i := by
    intro events htrace hevents hold
    rw [htrace]
    exact (hw.threads hold).kept hmove hevents
  cases step with
  | executor id runnerName =>
    unfold QueueWorld.step at ht hkept ⊢
    dsimp only at ht hkept ⊢
    split_ifs at ht hkept ⊢ <;> exact hkept [] (List.append_nil _).symm (by simp) ht
  | start id executor start now =>
    unfold QueueWorld.step at ht hkept ⊢
    dsimp only at ht hkept ⊢
    by_cases hknown : (w.threads.get id).isSome = true
    · rw [if_pos hknown] at ht hkept ⊢
      exact hkept [] (List.append_nil _).symm (by simp) ht
    rw [if_neg hknown] at ht hkept ⊢
    have htrace : (w.begin env id executor start now).trace = w.trace := by
      unfold QueueWorld.begin
      split <;> [split_ifs; skip] <;> rfl
    have hthreads : w.threads.get i = some t ∨ t.task = start.task := by
      have hset : ∀ task, (w.threads.set id { executor, task }).get i = some t →
          w.threads.get i = some t ∨ t.task = task := by
        intro task h
        rw [OrderedMap.get_set] at h
        split_ifs at h
        · exact .inr (Option.some.inj h ▸ rfl)
        · exact .inl h
      unfold QueueWorld.begin at ht
      split at ht
      · split_ifs at ht
        · exact hset _ ht
        · exact .inl ht
        · exact .inl ht
      · exact hset _ ht
    rcases hthreads with hold | hnew
    · exact hkept [] (htrace.trans (List.append_nil _).symm) (by simp) hold
    · rw [hnew]
      exact start.task_sound _ _
  | thread id answer =>
    unfold QueueWorld.step at ht hkept ⊢
    dsimp only at ht hkept ⊢
    cases hid : w.threads.get id with
    | none =>
      rw [hid] at ht hkept
      exact hkept [] (List.append_nil _).symm (by simp) ht
    | some moved =>
      rw [hid] at ht hkept
      dsimp only at ht hkept
      obtain ⟨task, events, hthreads, htrace, hothers, hsound⟩ :=
        (@QueueWorld.Sound.advanced env w id answer hw moved hid).next
      rw [hthreads, OrderedMap.get_set] at ht
      split_ifs at ht with hi
      · obtain rfl := Option.some.inj ht
        rw [hi, htrace]
        exact hsound
      · exact hkept events htrace (hothers i hi) ht
  | report executor index accepted now =>
    exact hkept [] (List.append_nil _).symm (by simp) ht
  | cluster act => exact hkept [] (List.append_nil _).symm (by simp) ht

theorem QueueWorld.sound_init : QueueWorld.init.Sound env where
  jobs := ⟨wellFormed_empty, nofun⟩
  secrets := nofun
  threads := nofun

theorem QueueWorld.sound_run (steps : List QueueStep) : (QueueWorld.init.run env steps).Sound env :=
  Machine.invariant_run (fun w : QueueWorld => w.Sound env) (fun _ step hw => hw.step step)
    sound_init steps

/-- What was read once is followed by whatever is stored under its UID later. -/
theorem QueueWorld.Sound.seen_run (hw : w.Sound env) {job : QueueJob} (hseen : JobSeen w.api job)
    (steps : List QueueStep) : JobSeen (w.run env steps).api job :=
  (Machine.invariant_run (fun v : QueueWorld => v.Sound env ∧ JobSeen v.api job)
    (fun _ step hv => ⟨hv.1.step step, (hv.1.apiMove step).seen hv.2⟩) ⟨hw, hseen⟩ steps).2

end Invariant

/-! ### Starts, adoptions and deletions -/

/-- A suspended Job runs after the step. -/
structure JobStarts (api api' : KubeApi) (name : String) (job job' : QueueJob) : Prop where
  before : api.jobs.byName.get name = some job
  after : api'.jobs.byName.get name = some job'
  uid : job'.uid = job.uid
  suspended : job.suspend = some true
  running : job'.suspend ≠ some true

/-- What a Job is started on. -/
structure StartedSafely (env : QueueEnv) (w : QueueWorld) (step : QueueStep) (job : QueueJob) :
    Prop where
  generation : job.generation = 1
  attempted : queueJobAttempted job = false
  deleting : job.deleting = false
  secured : ∃ id answer secret, step = .thread id answer ∧
    w.api.secrets.get job.name = some secret ∧ secret.immutable = some true ∧
    jobOwner job ∈ secret.owners ∧ job.claim = queueClaimFingerprint env secret.runToken ∧
    FencedBy w.trace id job.runId secret.runToken

/-- The Job that a launch works on. -/
def QueueTask.adopted : QueueTask → Option QueueJob
  | .launch _ (.creatingSecret job) => some job
  | .launch _ (.resuming r) => some r.job
  | _ => none

section Handoff

variable {env : QueueEnv} {w : QueueWorld} {api api' : KubeApi} {step : QueueStep} {name : String}
  {job job' : QueueJob}

theorem get_writeJob (changed : QueueJob) (name : String) :
    (api.writeJob changed).jobs.byName.get name = if name = changed.name then
      some { changed with resourceVersion := api.jobs.nextVersion }
    else api.jobs.byName.get name :=
  OrderedMap.get_set _ _ _ _

/-- A write starts a Job only if it resumes the one it writes. -/
theorem JobStarts.of_write {changed stored : QueueJob}
    (h : JobStarts api (api.writeJob changed) name job job')
    (hget : api.jobs.byName.get changed.name = some stored) :
    stored = job ∧ name = changed.name ∧
      job' = { changed with resourceVersion := api.jobs.nextVersion } := by
  have hafter := h.after
  rw [get_writeJob] at hafter
  split_ifs at hafter with hname
  · have hbefore := h.before
    rw [hname, hget] at hbefore
    exact ⟨Option.some.inj hbefore, hname, (Option.some.inj hafter).symm⟩
  · rw [h.before] at hafter
    exact absurd (Option.some.inj hafter ▸ h.suspended) h.running

theorem JobStarts.not_same (h : JobStarts api api' name job job')
    (hsame : api'.jobs = api.jobs) : False := by
  have hafter := h.after
  rw [hsame, h.before] at hafter
  exact h.running (Option.some.inj hafter ▸ h.suspended)

/-- The cluster starts no Job. -/
theorem JobStarts.not_act (hapi : api.JobsSound) (act : ClusterAct) :
    ¬JobStarts api (api.act act) name job job' := by
  intro h
  have hwrite : ∀ (m : String) (f : QueueJob → QueueJob),
      (∀ x, (f x).name = x.name ∧ (x.suspend = some true → (f x).suspend = some true)) →
      ¬JobStarts api (api.onJob m fun x => api.writeJob (f x)) name job job' := by
    intro m f hf h
    unfold KubeApi.onJob at h
    split at h
    · exact h.not_same rfl
    · rename_i x hget
      have hname : (f x).name = m := (hf x).1.trans (hapi.named hget)
      obtain ⟨rfl, -, rfl⟩ := h.of_write (hname ▸ hget)
      exact h.running ((hf x).2 h.suspended)
  cases act with
  | writeStatus m status =>
    exact hwrite m (fun x => { x with status }) (fun x => ⟨rfl, fun h => h⟩) h
  | editSpec m suspend =>
    refine hwrite m (fun x => { x with
      suspend := if suspend then some true else x.suspend, generation := x.generation + 1 })
      (fun x => ⟨rfl, fun hx => ?_⟩) h
    cases suspend
    · exact hx
    · rfl
  | deleteJob m =>
    exact hwrite m (fun x => { x with deleting := true }) (fun x => ⟨rfl, fun h => h⟩) h
  | removeJob m =>
    dsimp only [KubeApi.act, KubeApi.onJob] at h
    split at h
    · exact h.not_same rfl
    split_ifs at h
    · have hafter := h.after
      rw [OrderedMap.get_erase] at hafter
      split_ifs at hafter
      rw [h.before] at hafter
      exact h.running (Option.some.inj hafter ▸ h.suspended)
    · exact h.not_same rfl
  | createPod podName m =>
    dsimp only [KubeApi.act, KubeApi.onJob] at h
    split at h <;> exact h.not_same rfl
  | removePod podName => exact h.not_same rfl
  | collectSecret m =>
    dsimp only [KubeApi.act] at h
    split at h
    · exact h.not_same rfl
    · split_ifs at h <;> exact h.not_same rfl

/-- A step of the system is the cluster's, a thread's, or leaves the API alone. -/
theorem step_api_cases (w : QueueWorld) (step : QueueStep) :
    (w.step env step).api = w.api ∨ (∃ act, (w.step env step).api = w.api.act act) ∨
      ∃ id answer t, step = .thread id answer ∧ w.threads.get id = some t ∧
        ThreadMove env w.api t.task (w.step env step).api := by
  cases step with
  | executor id runnerName =>
    refine .inl ?_
    unfold QueueWorld.step
    dsimp only
    split_ifs <;> rfl
  | start id executor start now =>
    refine .inl ?_
    unfold QueueWorld.step QueueWorld.begin
    dsimp only
    split
    · rfl
    · split
      · split_ifs <;> rfl
      · rfl
  | thread id answer =>
    unfold QueueWorld.step
    dsimp only
    split
    · exact .inl rfl
    · rename_i t ht
      exact .inr (.inr ⟨id, answer, t, rfl, ht, advance_api w t⟩)
  | report executor index accepted now => exact .inl rfl
  | cluster act => exact .inr (.inl ⟨act, rfl⟩)

/-- A Job starts in the last step of a resume that read it as it is. -/
theorem QueueWorld.Sound.started (hw : w.Sound env)
    (h : JobStarts w.api (w.step env step).api name job job') :
    StartedSafely env w step job ∧ job'.generation = job.generation + 1 := by
  rcases @step_api_cases env w step with hsame | ⟨act, hact⟩ | ⟨id, answer, t, rfl, ht, hmove⟩
  · rw [hsame] at h
    exact (h.not_same rfl).elim
  · rw [hact] at h
    exact (h.not_act hw.jobs act).elim
  have htask := hw.threads ht
  generalize (w.step env (.thread id answer)).api = after at h hmove
  cases hmove with
  | keep => exact (h.not_same rfl).elim
  | create l now _ habsent =>
    have hafter := h.after
    rw [OrderedMap.get_set] at hafter
    split_ifs at hafter with hname
    · have hbefore := h.before
      rw [hname, habsent] at hbefore
      cases hbefore
    · rw [h.before] at hafter
      exact (h.running (Option.some.inj hafter ▸ h.suspended)).elim
  | secret l held _ _ => exact (h.not_same rfl).elim
  | delete read kept stored _ hget =>
    have hname := hw.jobs.named hget
    obtain ⟨rfl, -, rfl⟩ := h.of_write (hname.symm ▸ hget)
    exact (h.running h.suspended).elim
  | resume r current secret stored hresume hphase hget huid hversion =>
    have hname := hw.jobs.named hget
    obtain ⟨rfl, -, rfl⟩ := h.of_write (hname.symm ▸ hget)
    have hsound := htask.of_resume hresume
    unfold Resume.Sound at hsound
    rw [hphase] at hsound
    obtain ⟨hread, hsecret, hfenced⟩ := hsound
    obtain rfl : stored = current := hread.seen.unchanged hget huid hversion
    have hstored := hsecret.stands hget rfl rfl
    have hfits := hsecret.fits
    have hsame := hread.same
    simp only [secretFits, decide_eq_true_eq] at hfits
    simp only [sameQueueJob, decide_eq_true_eq] at hsame
    have howner : jobOwner stored ∈ secret.owners := List.contains_iff_mem.1 hfits.1
    refine ⟨⟨hread.generation, hread.attempted, hread.deleting, id, answer, secret, rfl, hstored,
      hfits.2.1, howner, (hw.secrets hstored).claim hget _ howner rfl, ?_⟩, rfl⟩
    rw [hsame.2.2.2.2.1]
    exact hfenced

/-- A Job that was started is never started again. -/
theorem QueueWorld.Sound.not_restarted (hw : w.Sound env)
    (h : JobStarts w.api (w.step env step).api name job job') (rest : List QueueStep)
    {again : QueueStep} {name' : String} {x x' : QueueJob}
    (h' : JobStarts ((w.step env step).run env rest).api
      (((w.step env step).run env rest).step env again).api name' x x') : x.uid ≠ job.uid := by
  intro huid
  have hnext := hw.step step
  have hseen := hnext.seen_run (hnext.jobs.seen h.after) rest
  have hfollows := (hseen.follows h'.before (huid.trans h.uid.symm)).1
  have hlast := hfollows.generation
  rw [(hw.started h).2, (hw.started h).1.generation] at hlast
  have hfresh : ((w.step env step).run env rest).Sound env :=
    Machine.invariant_run (fun v : QueueWorld => v.Sound env) (fun _ s hv => hv.step s) hnext rest
  have := (hfresh.started h').1.generation
  omega

/-- A launch leaves the Jobs of other claims as they are, and works on none of them. -/
theorem QueueWorld.Sound.other_claim (hw : w.Sound env) {id executor : Nat} {answer : QueueAnswer}
    {l : DirectRunnerLaunch} {phase : LaunchPhase}
    (ht : w.threads.get id = some { executor, task := .launch l phase })
    (hget : w.api.jobs.byName.get name = some job)
    (hother : ¬(job.runId = l.runId ∧ job.claimedBy = l.runner ∧
      job.claim = queueClaimFingerprint env l.runToken)) :
    (w.step env (.thread id answer)).api.jobs.byName.get name = some job ∧
      ∀ t, (w.step env (.thread id answer)).threads.get id = some t →
        ∀ held ∈ t.task.adopted, held.uid ≠ job.uid := by
  have hnotAdopted : ∀ {api held}, Adopted env api l held → ∀ {m x},
      api.jobs.byName.get m = some x → x.uid = held.uid → ¬JobFollows job x := by
    intro api held hadopted m x hx hid hfollows
    have hheld := (hadopted.seen.follows hx hid).1
    refine hother ⟨?_, ?_, ?_⟩
    · rw [← hfollows.runId, hheld.runId, hadopted.runId]
    · rw [← hfollows.claimedBy, hheld.claimedBy, hadopted.claimedBy]
    · rw [← hfollows.claim, hheld.claim, hadopted.claim]
  have hstep : w.step env (.thread id answer) =
      w.advance env id { executor, task := .launch l phase } answer := by
    rw [QueueWorld.step, ht]
  have hafter : (w.step env (.thread id answer)).api.jobs.byName.get name = some job := by
    have hmove := @advance_api env id answer w
      { executor, task := .launch l phase }
    rw [← hstep] at hmove
    have htask := hw.threads ht
    generalize (w.step env (.thread id answer)).api = after at hmove
    cases hmove with
    | keep => exact hget
    | create l' now _ habsent =>
      rw [OrderedMap.get_set, if_neg]
      · exact hget
      · rintro rfl
        rw [habsent] at hget
        cases hget
    | secret => exact hget
    | resume r current secret stored hresume hphase hstored huid hversion =>
      have hname := hw.jobs.named hstored
      rw [get_writeJob, if_neg]
      · exact hget
      · -- the Job that is resumed is the one the launch adopted
        intro heq
        rw [show name = current.name from heq.trans hname, hstored] at hget
        obtain rfl := Option.some.inj hget
        have hsound := htask.of_resume hresume
        unfold Resume.Sound at hsound
        rw [hphase] at hsound
        have hsame := hsound.1.same
        simp only [sameQueueJob, decide_eq_true_eq] at hsame
        have hadopted : Adopted env w.api l r.job := by
          cases phase with
          | resuming own =>
            obtain rfl := Option.some.inj hresume
            exact htask.1
          | _ => cases hresume
        exact hnotAdopted hadopted hstored (huid.trans hsame.1) (.refl _)
    | delete _ _ _ htask => cases htask
  refine ⟨hafter, ?_⟩
  intro t ht' held hheld huid
  have hsound := (hw.step (.thread id answer)).threads ht'
  have hadopted : Adopted env (w.step env (.thread id answer)).api l held := by
    obtain ⟨next, htask⟩ : ∃ next, t.task = .launch l next := by
      rw [hstep] at ht'
      have hset : (w.threads.set id ⟨executor,
          .launch l (phase.step env id l w.api answer).1⟩).get id = some t := ht'
      rw [OrderedMap.get_set_self] at hset
      exact ⟨_, congrArg QueueThread.task (Option.some.inj hset.symm)⟩
    rw [htask] at hsound hheld
    cases next with
    | creatingSecret own =>
      obtain rfl : own = held := Option.some.inj hheld
      exact hsound
    | resuming own =>
      obtain rfl : own.job = held := Option.some.inj hheld
      exact hsound.1
    | _ => cases hheld
  exact hnotAdopted hadopted hafter huid.symm (.refl _)

/-- A thread that deletes a Job had listed it as it is before its claim was confirmed settled. -/
theorem QueueWorld.Sound.deleted (hw : w.Sound env) {id : Nat} {answer : QueueAnswer}
    (hget : w.api.jobs.byName.get name = some job) (hlive : job.deleting = false)
    (hgone : ∀ x, (w.step env (.thread id answer)).api.jobs.byName.get name = some x →
      x.uid = job.uid → x.deleting = true) : Confirmed w.trace id job := by
  have hsame : (w.step env (.thread id answer)).api.jobs.byName.get name ≠ some job := by
    intro h
    rw [hgone job h rfl] at hlive
    cases hlive
  cases ht : w.threads.get id with
  | none =>
    refine absurd ?_ hsame
    rw [QueueWorld.step, ht]
    exact hget
  | some t =>
    have hstep : w.step env (.thread id answer) = w.advance env id t answer := by
      rw [QueueWorld.step, ht]
    have hmove := @advance_api env id answer w t
    rw [← hstep] at hmove
    have htask := hw.threads ht
    generalize (w.step env (.thread id answer)).api = after at hmove hsame hgone
    cases hmove with
    | keep => exact absurd hget hsame
    | create l now _ habsent =>
      refine absurd ?_ hsame
      rw [OrderedMap.get_set, if_neg]
      · exact hget
      · rintro rfl
        rw [habsent] at hget
        cases hget
    | secret => exact absurd hget hsame
    | resume r current secret stored _ _ hstored =>
      -- a Job that is resumed is not deleted
      rw [get_writeJob] at hsame
      by_cases hname : name = stored.name
      · have hown := hw.jobs.named hstored
        rw [hname, hown, hstored] at hget
        obtain rfl := Option.some.inj hget
        have hdeleting := hgone { stored with
          suspend := some false, generation := stored.generation + 1
          resourceVersion := w.api.jobs.nextVersion } (by rw [get_writeJob, if_pos hname]) rfl
        rw [show stored.deleting = true from hdeleting] at hlive
        cases hlive
      · rw [if_neg hname] at hsame
        exact absurd hget hsame
    | delete read rest stored hdeleting hstored huid hversion =>
      rw [get_writeJob] at hsame
      by_cases hname : name = stored.name
      · have hown := hw.jobs.named hstored
        rw [hname, hown, hstored] at hget
        obtain rfl := Option.some.inj hget
        rw [hdeleting] at htask
        obtain ⟨hlisted, hconfirmed⟩ := htask
        have hread := (hlisted.seen read List.mem_cons_self).unchanged hstored huid hversion
        rw [hread]
        exact hconfirmed
      · rw [if_neg hname] at hsame
        exact absurd hget hsame

end Handoff

/-- Whatever the executors and the cluster do, and whatever answers get lost: a Job is started at most
once, at its first generation and before any attempt, while the Secret of its own claim stands, and
after the fence accepted that token in the attempt that starts it; a launch leaves the Jobs of other
claims as they are and never works on one; and a thread deletes a Job only as it had listed it before
the claim was confirmed settled. -/
theorem handoff_once (env : QueueEnv) (steps : List QueueStep) :
    (∀ first step rest first' step' rest', steps = first ++ step :: rest →
      steps = first' ++ step' :: rest' → ∀ name name' job job' x x',
      JobStarts (QueueWorld.init.run env first).api
        ((QueueWorld.init.run env first).step env step).api name job job' →
      JobStarts (QueueWorld.init.run env first').api
        ((QueueWorld.init.run env first').step env step').api name' x x' →
      x.uid = job.uid → first = first') ∧
    ∀ first step rest, steps = first ++ step :: rest →
      let w := QueueWorld.init.run env first
      (∀ name job job', JobStarts w.api (w.step env step).api name job job' →
        StartedSafely env w step job) ∧
      ∀ id answer, step = .thread id answer →
        ∀ name job, w.api.jobs.byName.get name = some job →
          (∀ executor l phase, w.threads.get id = some { executor, task := .launch l phase } →
            ¬(job.runId = l.runId ∧ job.claimedBy = l.runner ∧
              job.claim = queueClaimFingerprint env l.runToken) →
            (w.step env step).api.jobs.byName.get name = some job ∧
              ∀ t, (w.step env step).threads.get id = some t →
                ∀ held ∈ t.task.adopted, held.uid ≠ job.uid) ∧
          (job.deleting = false →
            (∀ x, (w.step env step).api.jobs.byName.get name = some x → x.uid = job.uid →
              x.deleting = true) → Confirmed w.trace id job) := by
  refine ⟨?_, ?_⟩
  · have hordered : ∀ first step more first' step' name name' job job' x x',
        first' = first ++ step :: more →
        JobStarts (QueueWorld.init.run env first).api
          ((QueueWorld.init.run env first).step env step).api name job job' →
        JobStarts (QueueWorld.init.run env first').api
          ((QueueWorld.init.run env first').step env step').api name' x x' → x.uid ≠ job.uid := by
      rintro first step more first' step' name name' job job' x x' rfl h h'
      have hrun : QueueWorld.init.run env (first ++ step :: more) =
          ((QueueWorld.init.run env first).step env step).run env more := by
        simp only [QueueWorld.run, Machine.run_append, Machine.run_cons]
      rw [hrun] at h'
      exact (QueueWorld.sound_run first).not_restarted h more h'
    intro first step rest first' step' rest' hsteps hsteps' name name' job job' x x' h h' huid
    rcases List.append_eq_append_iff.1 (hsteps.symm.trans hsteps') with
      ⟨more, rfl, hmore⟩ | ⟨more, rfl, hmore⟩
    · cases more with
      | nil => simp
      | cons s more =>
        obtain ⟨rfl, -⟩ := List.cons.inj hmore
        exact absurd huid (hordered _ _ more _ _ _ _ _ _ _ _ rfl h h')
    · cases more with
      | nil => simp
      | cons s more =>
        obtain ⟨rfl, -⟩ := List.cons.inj hmore
        exact absurd huid.symm (hordered _ _ more _ _ _ _ _ _ _ _ rfl h' h)
  · rintro first step rest -
    have hw : (QueueWorld.init.run env first).Sound env := QueueWorld.sound_run first
    refine ⟨fun name job job' h => (hw.started h).1, ?_⟩
    rintro id answer rfl name job hget
    exact ⟨fun executor l phase ht hother => hw.other_claim ht hget hother,
      fun hlive hgone => hw.deleted hget hlive hgone⟩

/-! ### One launch -/

namespace Sample

def queueEnv : QueueEnv :=
  { sha256 := fun text =>
      if text = "token" then
        "3c469e9d6c5875d37a43f353d4f88e61fcf812c66eee3457465a40b0da4153e0"
      else "c8d01166c61d4fc3fc34517424956ff502b2bd605a075d5ee6f9afef40dae129"
    hasAdapter := fun _ => true }

def queueLaunch : DirectRunnerLaunch :=
  { runId := "work:w/r1", runToken := "token", pipeline := "claude", runner := "runner" }

/-- A launch up to its update: the Job and its Secret are created and read, and the fence accepts. -/
def launching : List QueueStep :=
  [.executor 0 "runner", .start 0 0 (.launch queueLaunch) 0] ++ List.replicate 6 (.thread 0 {})

end Sample

theorem handoff_once_launching :
    ∃ name job job', JobStarts (QueueWorld.init.run Sample.queueEnv Sample.launching).api
        ((QueueWorld.init.run Sample.queueEnv Sample.launching).step Sample.queueEnv
          (.thread 0 {})).api name job job' ∧
      StartedSafely Sample.queueEnv (QueueWorld.init.run Sample.queueEnv Sample.launching)
        (.thread 0 {}) job := by
  have hstarts : (QueueWorld.init.run Sample.queueEnv Sample.launching).api.jobs.byName.entries.any
      (fun entry => (QueueWorld.init.run Sample.queueEnv Sample.launching).api.jobs.byName.get
          entry.1 = some entry.2 ∧ entry.2.suspend = some true ∧
        ((QueueWorld.init.run Sample.queueEnv Sample.launching).step Sample.queueEnv
          (.thread 0 {})).api.jobs.byName.get entry.1 = some { entry.2 with
            suspend := some false, generation := 2, resourceVersion := 1 }) = true := by
    decide +kernel
  obtain ⟨⟨name, job⟩, -, hstarts⟩ := List.any_eq_true.1 hstarts
  rw [decide_eq_true_eq] at hstarts
  obtain ⟨hbefore, hsuspended, hafter⟩ := hstarts
  have h : JobStarts _ _ name job _ := ⟨hbefore, hafter, rfl, hsuspended, by simp⟩
  exact ⟨name, job, _, h, ((handoff_once Sample.queueEnv
    (Sample.launching ++ [.thread 0 {}])).2 _ _ [] rfl).1 _ _ _ h⟩

end AgentLcars
