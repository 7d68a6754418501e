import AgentLcars.DecideEffect
import AgentLcars.JobProcesses

/-!
# What a process of repository jobs writes

* `JobFrame.mutation`: the change of the store that a frame awaits;
* `JobStore.Writes`: every write that some change makes, with what it found in the store;
* `JobsWorld.store_cases`: an act leaves the store alone or makes one such write.
-/

namespace AgentLcars

/-- The call took effect. -/
def Awaited.applies : Awaited → Bool
  | .returns => true
  | .throws _ applied => applied

/-- A change of the store. -/
structure JobMutation where
  jobId : String
  occurrenceId : Option String := none
  change : Option CatalogJob → Option JobOccurrence → Except String JobWrite

/-- The change of the store that a frame awaits. -/
def JobFrame.mutation (env : JobsEnv) (context : JobsContext) (clock : Time) :
    JobFrame → Option JobMutation
  | .enabling id digest principal enabled at_ =>
    some { jobId := id, change := fun job _ => enableChange context digest principal enabled at_ job }
  | .reserving call at_ =>
    some
      { jobId := call.id
        occurrenceId := some (call.occurrenceId env)
        change := reserveChange env context call at_ }
  | .staging occurrence artifact =>
    some
      { jobId := occurrence.jobId
        occurrenceId := some occurrence.id
        change := stageChange artifact }
  | .legacyReleasing job occurrence =>
    some
      { jobId := job.id
        occurrenceId := some occurrence.id
        change := legacyChange occurrence.id clock }
  | .settling job occurrence run =>
    some
      { jobId := job.id
        occurrenceId := some occurrence.id
        change := settleOccurrence occurrence.id run clock }
  | .publishing now _ _ (row :: _) =>
    some { jobId := row.id, change := fun job _ => publishChange context row now job }
  | .unlisting now _ (job :: _) =>
    some { jobId := job.id, change := fun job _ => unlistChange "Definition removed" now job }
  | .failing now (job :: _) =>
    some { jobId := job.id, change := fun job _ => unlistChange "Source refresh failed" now job }
  | _ => none

/-- What the change writes, unless it refuses. -/
def JobMutation.outcome (m : JobMutation) (s : JobStore) : Except String JobWrite :=
  m.change (s.jobs.get m.jobId) (m.occurrenceId.bind s.occurrences.get)

/-- The frame whose change an act applies. -/
def JobsWorld.applied (env : JobsEnv) (w : JobsWorld) : JobAct → Option (JobFrame × JobsContext)
  | .act pid context awaited _ =>
    (w.processes.get pid).bind fun p =>
      if awaited.applies ∧
          (p.frame.mutation env context w.clock).any fun m => (m.outcome w.store).isOk then
        some (p.frame, context)
      else none
  | _ => none

/-- What the job of a reservation is found to allow. -/
structure Reservable (env : JobsEnv) (context : JobsContext) (s : JobStore) (call : AdmitCall)
    (at_ : Time) (job : CatalogJob) (definition : JobDefinition) (profile : JobProfile) : Prop where
  unused : s.occurrences.get (call.occurrenceId env) = none
  found : s.jobs.get call.id = some job
  defined : job.definition = some definition
  authorized : context.authorize definition call.principal call.profileName = .ok profile
  admits : jobAdmits call job definition at_ = true
  eligible : ∀ slot, call.request = .schedule slot → slotEligible env job definition at_ slot = true

theorem Reservable.enabled {env : JobsEnv} {context : JobsContext} {s : JobStore} {call : AdmitCall}
    {at_ : Time} {job : CatalogJob} {definition : JobDefinition} {profile : JobProfile}
    (h : Reservable env context s call at_ job definition profile) : job.enabled = true := by
  have hadmits := h.admits
  simp only [jobAdmits, decide_eq_true_eq] at hadmits
  exact hadmits.1

/-- The change of the frame may find nothing to do. -/
def JobFrame.mayKeep : JobFrame → Bool
  | .enabling _ _ _ _ _ | .reserving _ _ | .staging _ _ => false
  | _ => true

/-- A write that some frame's change makes, with the keys it is written under. -/
inductive JobStore.Writes (env : JobsEnv) (context : JobsContext) (clock : Time) (s : JobStore) :
    JobFrame → String → Option String → JobWrite → Prop where
  | disable {id digest principal at_ job} (hjob : s.jobs.get id = some job) :
    Writes env context clock s (.enabling id digest principal false at_) id none
      { job := some { job with enabled := false, vetoedBy := some (some principal) } }
  | enable {id digest principal at_ job definition} (hjob : s.jobs.get id = some job)
      (hdefinition : job.definition = some definition) (herror : truthy job.error = false)
      (hdigest : definition.digest = digest) :
    Writes env context clock s (.enabling id digest principal true at_) id none
      { job := some { job with
          enabled := true
          enabledBy := some principal
          activationFloor := some at_
          vetoedBy := some none } }
  | replay {call at_ existing}
      (hexisting : s.occurrences.get (call.occurrenceId env) = some existing) :
    Writes env context clock s (.reserving call at_) call.id (some (call.occurrenceId env))
      { occurrence := some existing }
  | reserve {call at_ job definition profile parameters secretSnapshot occurrence}
      (hjob : Reservable env context s call at_ job definition profile)
      (hoccurrence : occurrence =
        { reservedOccurrence env call at_ job definition profile parameters with secretSnapshot }) :
    Writes env context clock s (.reserving call at_) call.id (some (call.occurrenceId env))
      { job := some (job.admitted occurrence), occurrence := some occurrence }
  | stage {occurrence artifact current}
      (hcurrent : s.occurrences.get occurrence.id = some current)
      (hactive : (s.jobs.get occurrence.jobId).bind (·.active) = some current.id)
      (hreconciled : current.reconciledAt = none) :
    Writes env context clock s (.staging occurrence artifact) occurrence.jobId (some occurrence.id)
      { occurrence := some { current with artifact := some artifact } }
  | release {job occurrence current saved} (hjob : s.jobs.get job.id = some current)
      (hsaved : s.occurrences.get occurrence.id = some saved)
      (hactive : current.active = some occurrence.id) :
    Writes env context clock s (.legacyReleasing job occurrence) job.id (some occurrence.id)
      { job := some { current with active := none }, occurrence := some (saved.released clock) }
  | settle {job occurrence run current saved} (hjob : s.jobs.get job.id = some current)
      (hsaved : s.occurrences.get occurrence.id = some saved)
      (hactive : current.active = some occurrence.id) :
    Writes env context clock s (.settling job occurrence run) job.id (some occurrence.id)
      { job := some (current.settled run saved), occurrence := some (saved.settled run clock) }
  | publish {now existing rows row rest}
      (hfresh : ∀ job, s.jobs.get row.id = some job → job.refreshedAt ≤ now) :
    Writes env context clock s (.publishing now existing rows (row :: rest)) row.id none
      { job := some (publishedJob context row now (s.jobs.get row.id)) }
  | remove {now existing job rest current} (hjob : s.jobs.get job.id = some current)
      (hfresh : current.refreshedAt ≤ now) :
    Writes env context clock s (.unlisting now existing (job :: rest)) job.id none
      { job := some (unlistedJob "Definition removed" now current) }
  | fail {now job rest current} (hjob : s.jobs.get job.id = some current)
      (hfresh : current.refreshedAt ≤ now) :
    Writes env context clock s (.failing now (job :: rest)) job.id none
      { job := some (unlistedJob "Source refresh failed" now current) }
  | nothing {frame jobId occurrenceId} (hframe : frame.mayKeep = true) :
    Writes env context clock s frame jobId occurrenceId {}

section Writers

variable {env : JobsEnv} {context : JobsContext} {clock : Time} {s : JobStore}

theorem enableChange_writes {id digest principal : String} {enabled : Bool} {at_ : Time}
    {write : JobWrite}
    (h : enableChange context digest principal enabled at_ (s.jobs.get id) = .ok write) :
    s.Writes env context clock (.enabling id digest principal enabled at_) id none write := by
  unfold enableChange at h
  split at h
  · cases h
  · rename_i job hjob
    cases enabled with
    | false =>
      simp only [Bool.false_eq_true, not_false_eq_true, if_true] at h
      split at h
      · cases h
      · cases h
        exact .disable hjob
    | true =>
      simp only [not_true_eq_false, if_false] at h
      split at h
      · cases h
      · rename_i definition hdefinition
        split at h
        · cases h
        · rename_i hreviewed
          obtain ⟨herror, hdigest⟩ := not_or.1 hreviewed
          split at h
          · cases h
          · cases h
            exact .enable hjob hdefinition (by simpa using herror) (not_not.1 hdigest)

theorem admissionRefusal_none {call : AdmitCall} {at_ : Time} {job : CatalogJob}
    {definition : JobDefinition} (h : admissionRefusal env call at_ job definition = none) :
    jobAdmits call job definition at_ = true ∧
      ∀ slot, call.request = .schedule slot → slotEligible env job definition at_ slot = true := by
  unfold admissionRefusal at h
  split_ifs at h with hadmits hmanual hbusy
  refine ⟨hadmits, fun slot hslot => ?_⟩
  rw [hslot] at h
  simpa using h

theorem reserveChange_writes {call : AdmitCall} {at_ : Time} {write : JobWrite}
    (h : reserveChange env context call at_ (s.jobs.get call.id)
      (s.occurrences.get (call.occurrenceId env)) = .ok write) :
    s.Writes env context clock (.reserving call at_) call.id (some (call.occurrenceId env)) write := by
  unfold reserveChange at h
  split at h
  · rename_i existing hexisting
    obtain ⟨-, -, h⟩ := bind_eq_ok.1 h
    obtain ⟨parameters, -, h⟩ := bind_eq_ok.1 h
    split at h
    · cases h
    · cases h
      exact .replay hexisting
  · rename_i hnew
    split at h
    · rename_i job definition hjob hdefinition
      obtain ⟨profile, hprofile, h⟩ := bind_eq_ok.1 h
      obtain ⟨parameters, -, h⟩ := bind_eq_ok.1 h
      split at h
      · cases h
      · rename_i hallowed
        obtain ⟨secretSnapshot, -, h⟩ := bind_eq_ok.1 h
        cases h
        obtain ⟨hadmits, heligible⟩ := admissionRefusal_none hallowed
        rw [hjob] at hdefinition
        exact .reserve ⟨hnew, hjob, hdefinition, hprofile, hadmits, heligible⟩ rfl
    · cases h

theorem stageChange_writes {occurrence : JobOccurrence} {artifact : JobArtifact} {write : JobWrite}
    (h : stageChange artifact (s.jobs.get occurrence.jobId) (s.occurrences.get occurrence.id) =
      .ok write) :
    s.Writes env context clock (.staging occurrence artifact) occurrence.jobId (some occurrence.id)
      write := by
  unfold stageChange at h
  split at h
  · cases h
  · rename_i current hcurrent
    split at h
    · cases h
    · rename_i hactive
      obtain ⟨hactive, hreconciled⟩ := not_or.1 hactive
      split at h
      · cases h
      · cases h
        exact .stage hcurrent (not_not.1 hactive) (by simpa using hreconciled)

theorem legacyChange_writes {job : CatalogJob} {occurrence : JobOccurrence} {write : JobWrite}
    (h : legacyChange occurrence.id clock (s.jobs.get job.id) (s.occurrences.get occurrence.id) =
      .ok write) :
    s.Writes env context clock (.legacyReleasing job occurrence) job.id (some occurrence.id)
      write := by
  unfold legacyChange at h
  split at h
  · rename_i current saved hjob hsaved
    split at h
    · cases h
      exact .nothing rfl
    · rename_i hactive
      cases h
      exact .release hjob hsaved (not_not.1 hactive)
  · cases h
    exact .nothing rfl

theorem settleOccurrence_writes {job : CatalogJob} {occurrence : JobOccurrence} {run : Run}
    {write : JobWrite}
    (h : settleOccurrence occurrence.id run clock (s.jobs.get job.id)
      (s.occurrences.get occurrence.id) = .ok write) :
    s.Writes env context clock (.settling job occurrence run) job.id (some occurrence.id)
      write := by
  unfold settleOccurrence at h
  split at h
  · rename_i current saved hjob hsaved
    split at h
    · cases h
      exact .nothing rfl
    · rename_i hactive
      cases h
      exact .settle hjob hsaved (not_not.1 hactive)
  · cases h
    exact .nothing rfl

theorem publishChange_writes {now : Time} {existing : List CatalogJob} {rows rest : List CatalogRow}
    {row : CatalogRow} {write : JobWrite}
    (h : publishChange context row now (s.jobs.get row.id) = .ok write) :
    s.Writes env context clock (.publishing now existing rows (row :: rest)) row.id none write := by
  unfold publishChange at h
  split at h
  · cases h
    exact .nothing rfl
  · rename_i hfresh
    cases h
    refine .publish fun job hjob => ?_
    rw [hjob] at hfresh
    simpa using hfresh

theorem unlistChange_ok {error : String} {now : Time} {current : Option CatalogJob}
    {write : JobWrite} (h : unlistChange error now current = .ok write) :
    write = {} ∨ ∃ job, current = some job ∧ job.refreshedAt ≤ now ∧
      write = { job := some (unlistedJob error now job) } := by
  unfold unlistChange at h
  split at h
  · cases h
  · rename_i job
    split at h
    · cases h
      exact .inl rfl
    · rename_i hfresh
      cases h
      exact .inr ⟨job, rfl, by simpa using hfresh, rfl⟩

/-- What an accepted change of a frame writes. -/
theorem JobFrame.mutation_writes {frame : JobFrame} {m : JobMutation} {write : JobWrite}
    (hmutation : frame.mutation env context clock = some m) (h : m.outcome s = .ok write) :
    s.Writes env context clock frame m.jobId m.occurrenceId write := by
  unfold JobFrame.mutation at hmutation
  split at hmutation <;> cases hmutation
  · exact enableChange_writes h
  · exact reserveChange_writes h
  · exact stageChange_writes h
  · exact legacyChange_writes h
  · exact settleOccurrence_writes h
  · exact publishChange_writes h
  · rcases unlistChange_ok h with rfl | ⟨current, hjob, hfresh, rfl⟩
    · exact .nothing rfl
    · exact .remove hjob hfresh
  · rcases unlistChange_ok h with rfl | ⟨current, hjob, hfresh, rfl⟩
    · exact .nothing rfl
    · exact .fail hjob hfresh

/-- The store after an awaited change. -/
def JobMutation.store (m : JobMutation) (awaited : Awaited) (s : JobStore) : JobStore :=
  match awaited.applies, m.outcome s with
  | true, .ok write => s.write m.jobId m.occurrenceId write
  | _, _ => s

theorem JobStore.await_store (awaited : Awaited) (jobId : String) (occurrenceId : Option String)
    (change : Option CatalogJob → Option JobOccurrence → Except String JobWrite)
    (failed : JobProcess) (returned : JobWrite → JobProcess) :
    (s.await awaited jobId occurrenceId change failed returned).store =
      JobMutation.store ⟨jobId, occurrenceId, change⟩ awaited s := by
  unfold JobStore.await JobStore.mutate JobMutation.store JobMutation.outcome
  dsimp only
  cases hchange : change (s.jobs.get jobId) (occurrenceId.bind s.occurrences.get) <;>
    cases awaited with
    | returns => rfl
    | throws message applied => cases applied <;> rfl

theorem JobProcess.reads_store (p : JobProcess) (awaited : Awaited) (returned : JobProcess) :
    (p.reads awaited s returned).store = s := by
  cases awaited <;> rfl

theorem JobProcess.request_store (p : JobProcess) (awaited : Awaited) (world : Store)
    (occurrence : JobOccurrence) (profile : JobProfile) (after : MintReturn) :
    (p.request awaited clock world s occurrence profile after).store = s := by
  unfold JobProcess.request
  cases awaited with
  | throws message applied => rfl
  | returns => dsimp only; split <;> rfl

/-- The store after an act of a process. -/
theorem JobProcess.act_store (p : JobProcess) (awaited : Awaited)
    (fetched : Option (List SourceRow)) (world : Store) :
    (p.act env context awaited fetched clock world s).store =
      match p.frame.mutation env context clock with
      | none => s
      | some m => m.store awaited s := by
  obtain ⟨frame, remaining⟩ := p
  cases frame with
  | enabling | reserving | staging | legacyReleasing | settling => exact JobStore.await_store _ _ _ _ _ _
  | publishing now existing rows remaining =>
    cases remaining with
    | nil => rfl
    | cons row rest => exact JobStore.await_store _ _ _ _ _ _
  | unlisting now existing remaining =>
    cases remaining with
    | nil => rfl
    | cons job rest => exact JobStore.await_store _ _ _ _ _ _
  | failing now remaining =>
    cases remaining with
    | nil => rfl
    | cons job rest => exact JobStore.await_store _ _ _ _ _ _
  | requesting => exact JobProcess.request_store _ _ _ _ _ _
  | slotting job =>
    show (JobProcess.act env context awaited fetched clock ⟨.slotting job, remaining⟩ world s).store = s
    unfold JobProcess.act
    dsimp only
    split <;> rfl
  | fetching repository now existing => cases fetched <;> rfl
  | ended => rfl
  | _ => exact JobProcess.reads_store _ _ _

/-- A job is written by the write of its own key, or stays. -/
theorem JobStore.write_job (s : JobStore) (jobId id : String) (occurrenceId : Option String)
    (write : JobWrite) :
    (s.write jobId occurrenceId write).jobs.get id = s.jobs.get id ∨
      id = jobId ∧ ∃ job, write.job = some job ∧
        (s.write jobId occurrenceId write).jobs.get id = some job := by
  unfold JobStore.write
  cases write.job with
  | none => exact .inl rfl
  | some job =>
    rcases eq_or_ne id jobId with rfl | hne
    · exact .inr ⟨rfl, job, rfl, OrderedMap.get_set_self _ _ _⟩
    · exact .inl (OrderedMap.get_set_of_ne _ _ hne)

/-- An occurrence is written by the write of its own key, or stays. -/
theorem JobStore.write_occurrence (s : JobStore) (jobId key : String) (occurrenceId : Option String)
    (write : JobWrite) :
    (s.write jobId occurrenceId write).occurrences.get key = s.occurrences.get key ∨
      occurrenceId = some key ∧ ∃ occurrence, write.occurrence = some occurrence ∧
        (s.write jobId occurrenceId write).occurrences.get key = some occurrence := by
  unfold JobStore.write
  cases occurrenceId with
  | none => exact .inl rfl
  | some id =>
    cases write.occurrence with
    | none => exact .inl rfl
    | some occurrence =>
      rcases eq_or_ne key id with rfl | hne
      · exact .inr ⟨rfl, occurrence, rfl, OrderedMap.get_set_self _ _ _⟩
      · exact .inl (OrderedMap.get_set_of_ne _ _ hne)

end Writers

/-! ### The system -/

section System

variable {env : JobsEnv} {w : JobsWorld} {a : JobAct}

theorem JobsWorld.applied_eq_some {frame : JobFrame} {context : JobsContext}
    (h : w.applied env a = some (frame, context)) :
    ∃ pid awaited fetched p m write, a = .act pid context awaited fetched ∧
      w.processes.get pid = some p ∧ p.frame = frame ∧ awaited.applies = true ∧
      frame.mutation env context w.clock = some m ∧ m.outcome w.store = .ok write := by
  cases a with
  | act pid context' awaited fetched =>
    obtain ⟨p, hp, happlied⟩ := Option.bind_eq_some_iff.1 h
    split at happlied
    · rename_i hif
      cases happlied
      obtain ⟨m, hm, hok⟩ := Option.any_eq_true _ _ |>.1 hif.2
      cases hwrite : m.outcome w.store with
      | error => rw [hwrite] at hok; cases hok
      | ok write => exact ⟨pid, awaited, fetched, p, m, write, rfl, hp, rfl, hif.1, hm, hwrite⟩
    · cases happlied
  | _ => cases h

/-- An act leaves the store of jobs alone, or makes the write of the frame it applies. -/
theorem JobsWorld.store_cases (env : JobsEnv) (w : JobsWorld) (a : JobAct) :
    (w.applied env a = none ∧ (w.step env a).store = w.store) ∨
      ∃ frame context jobId occurrenceId write, w.applied env a = some (frame, context) ∧
        w.store.Writes env context w.clock frame jobId occurrenceId write ∧
        (w.step env a).store = w.store.write jobId occurrenceId write := by
  cases a with
  | act pid context awaited fetched =>
    cases hp : w.processes.get pid with
    | none => exact .inl (by simp [applied, step, result, hp])
    | some p =>
      have hstore : (w.step env (.act pid context awaited fetched)).store =
          (p.act env context awaited fetched w.clock w.world.store w.store).store := by
        simp only [step, result, hp, Option.map_some]
      rw [hstore, p.act_store]
      cases hm : p.frame.mutation env context w.clock with
      | none => exact .inl (by simp [applied, hp, hm])
      | some m =>
        cases happlies : awaited.applies with
        | false => exact .inl (by simp [applied, hp, happlies, JobMutation.store])
        | true =>
          cases hwrite : m.outcome w.store with
          | error error => exact .inl (by simp [applied, hp, hm, happlies, hwrite, JobMutation.store,
              Except.isOk, Except.toBool])
          | ok write =>
            exact .inr ⟨p.frame, context, m.jobId, m.occurrenceId, write,
              by simp [applied, hp, hm, happlies, hwrite, Except.isOk, Except.toBool],
              JobFrame.mutation_writes hm hwrite, by simp [JobMutation.store, happlies, hwrite]⟩
  | start pid command =>
    refine .inl ⟨rfl, ?_⟩
    unfold step
    dsimp only
    split <;> rfl
  | _ => exact .inl ⟨rfl, rfl⟩

end System

end AgentLcars
