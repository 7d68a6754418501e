import AgentLcars.JobSlots

/-!
# Operator vetoes and source observations

Enables, disables and refreshes of a job come in any order, from any record.

* `CatalogJob.Vetoed`: disabled, with a veto that `operatorVeto` finds;
* `JobStore.Writes.vetoed`: every write but an explicit enable keeps it, and the job admits nothing;
* `JobStore.Writes.enabled_cases`: how a job comes to be enabled;
* `JobsWorld.operator_vetoes`: the same along any run.
-/

namespace AgentLcars

/-! ### One write -/

/-- The frame is an explicit enable or disable of the job. -/
def JobFrame.switches (frame : JobFrame) (id : String) (enabled : Bool) : Prop :=
  match frame with
  | .enabling id' _ _ enabled' _ => id' = id ∧ enabled' = enabled
  | _ => False

/-- Disabled, with a veto that `operatorVeto` finds. -/
structure CatalogJob.Vetoed (job : CatalogJob) : Prop where
  disabled : job.enabled = false
  veto : (operatorVeto (some job)).isSome = true

/-- What the veto of a record rests on. -/
theorem CatalogJob.Vetoed.congr {job job' : CatalogJob} (h : job.Vetoed)
    (henabled : job'.enabled = job.enabled) (hvetoedBy : job'.vetoedBy = job.vetoedBy)
    (henabledBy : job'.enabledBy = job.enabledBy) (herror : job'.error = job.error) :
    job'.Vetoed := by
  refine ⟨henabled.trans h.disabled, ?_⟩
  have hveto := h.veto
  simp only [operatorVeto] at hveto ⊢
  rwa [henabled, hvetoedBy, henabledBy, herror]

section Writes

variable {env : JobsEnv} {context : JobsContext} {clock : Time} {s : JobStore} {frame : JobFrame}
variable {jobId id : String} {occurrenceId : Option String} {write : JobWrite} {job : CatalogJob}

/-- A veto stands through a publication, whatever the activation policy answers. -/
theorem CatalogJob.Vetoed.published (h : job.Vetoed) (row : CatalogRow) (now : Time) :
    (publishedJob context row now (some job)).Vetoed := by
  have hunchanged : unchangedRow (some job) row = false := by
    simp [unchangedRow, h.disabled]
  have hactivated : activatedBy context (some job) row = none := by
    unfold activatedBy
    rw [if_pos (.inr (.inl h.veto))]
  refine ⟨?_, ?_⟩
  · simp [publishedJob, hunchanged, hactivated]
  · show (operatorVeto (some job)).isSome = true
    exact h.veto

theorem CatalogJob.Vetoed.unlisted (h : job.Vetoed) (error : String) (now : Time) :
    (unlistedJob error now job).Vetoed :=
  ⟨rfl, h.veto⟩

/-- Every write but an explicit enable keeps a veto. -/
theorem JobStore.Writes.vetoed (h : s.Writes env context clock frame jobId occurrenceId write)
    (hjob : s.jobs.get id = some job) (hveto : job.Vetoed) (hframe : ¬frame.switches id true) :
    ∃ job', (s.write jobId occurrenceId write).jobs.get id = some job' ∧ job'.Vetoed := by
  rcases s.write_job jobId id occurrenceId write with hkept | ⟨rfl, job', hwrite, hget⟩
  · exact ⟨job, hkept.trans hjob, hveto⟩
  · refine ⟨job', hget, ?_⟩
    cases h with
    | disable =>
      cases hwrite
      exact ⟨rfl, rfl⟩
    | enable => exact absurd ⟨rfl, rfl⟩ hframe
    | replay | stage | nothing => cases hwrite
    | reserve hreservable =>
      have hfound := hreservable.found
      rw [hjob] at hfound
      cases hfound
      cases hwrite
      exact hveto.congr rfl rfl rfl rfl
    | release hfound | settle hfound =>
      rw [hjob] at hfound
      cases hfound
      cases hwrite
      exact hveto.congr rfl rfl rfl rfl
    | publish =>
      cases hwrite
      rw [hjob]
      exact hveto.published _ _
    | remove hfound | fail hfound =>
      rw [hjob] at hfound
      cases hfound
      cases hwrite
      exact hveto.unlisted _ _

/-- A write of an occurrence that was there keeps whose it is; a new one is an enabled job's. -/
theorem JobStore.Writes.occurrence_cases
    (h : s.Writes env context clock frame jobId occurrenceId write) {key : String}
    {occurrence : JobOccurrence}
    (hget : (s.write jobId occurrenceId write).occurrences.get key = some occurrence) :
    (∃ earlier, s.occurrences.get key = some earlier ∧ earlier.jobId = occurrence.jobId) ∨
      ∃ job, s.jobs.get occurrence.jobId = some job ∧ job.enabled = true := by
  rcases s.write_occurrence jobId key occurrenceId write with hkept | ⟨hkey, occ, hwrite, hget'⟩
  · exact .inl ⟨occurrence, hkept.symm.trans hget, rfl⟩
  · rw [hget'] at hget
    cases hget
    cases h with
    | replay hexisting =>
      cases hwrite
      cases hkey
      exact .inl ⟨_, hexisting, rfl⟩
    | @reserve _ _ job _ _ _ _ _ hreservable hoccurrence =>
      cases hwrite
      refine .inr ⟨job, ?_, hreservable.enabled⟩
      rw [hoccurrence]
      exact hreservable.found
    | stage hcurrent =>
      cases hwrite
      cases hkey
      exact .inl ⟨_, hcurrent, rfl⟩
    | release hfound hsaved | settle hfound hsaved =>
      cases hwrite
      cases hkey
      exact .inl ⟨_, hsaved, rfl⟩
    | _ => cases hwrite

/-- No write takes `refreshedAt` back. -/
theorem JobStore.Writes.refreshedAt_le
    (h : s.Writes env context clock frame jobId occurrenceId write)
    (hjob : s.jobs.get id = some job) :
    ∃ job', (s.write jobId occurrenceId write).jobs.get id = some job' ∧
      job.refreshedAt ≤ job'.refreshedAt := by
  rcases s.write_job jobId id occurrenceId write with hkept | ⟨rfl, job', hwrite, hget⟩
  · exact ⟨job, hkept.trans hjob, Int.le_refl _⟩
  · refine ⟨job', hget, ?_⟩
    cases h with
    | replay | stage | nothing => cases hwrite
    | disable hfound | enable hfound | release hfound | settle hfound =>
      rw [hjob] at hfound
      cases hfound
      cases hwrite
      exact Int.le_refl _
    | reserve hreservable =>
      have hfound := hreservable.found
      rw [hjob] at hfound
      cases hfound
      cases hwrite
      exact Int.le_refl _
    | publish hfresh =>
      cases hwrite
      exact hfresh job hjob
    | remove hfound hfresh | fail hfound hfresh =>
      rw [hjob] at hfound
      cases hfound
      cases hwrite
      exact hfresh

/-- The job that a frame of a refresh writes, and when its source was observed. -/
def JobFrame.observation : JobFrame → Option (String × Time)
  | .publishing now _ _ (row :: _) => some (row.id, now)
  | .unlisting now _ (job :: _) | .failing now (job :: _) => some (job.id, now)
  | _ => none

/-- An observation older than the record writes nothing. -/
theorem JobStore.Writes.stale (h : s.Writes env context clock frame jobId occurrenceId write)
    {now : Time} (hframe : frame.observation = some (id, now)) (hjob : s.jobs.get id = some job)
    (hstale : now < job.refreshedAt) : write = {} := by
  cases h with
  | publish hfresh =>
    cases hframe
    exact absurd (hfresh job hjob) (Int.not_le.2 hstale)
  | remove hfound hfresh | fail hfound hfresh =>
    cases hframe
    rw [hjob] at hfound
    cases hfound
    exact absurd hfresh (Int.not_le.2 hstale)
  | nothing => rfl
  | _ => cases hframe

/-- The frame enables the digest: an operator does, or the activation policy that it asks. -/
def JobFrame.Accepts (frame : JobFrame) (context : JobsContext) (s : JobStore) (id digest : String) :
    Prop :=
  match frame with
  | .enabling id' digest' _ true _ => id' = id ∧ digest' = digest
  | .publishing _ _ _ (row :: _) =>
    row.id = id ∧ row.definition.map (·.digest) = some digest ∧
      (activatedBy context (s.jobs.get id) row).isSome = true
  | _ => False

/-- An enabled job has a definition and no error. -/
structure CatalogJob.Sound (job : CatalogJob) (digest : String) : Prop where
  defined : job.definition.map (·.digest) = some digest
  error : truthy job.error = false

/-- The policy is asked only for a definition without an error. -/
theorem activatedBy_some {row : CatalogRow} {current : Option CatalogJob}
    (h : (activatedBy context current row).isSome = true) :
    truthy row.error = false ∧ ∃ definition, row.definition = some definition := by
  unfold activatedBy at h
  split at h
  · cases h
  · rename_i hasked
    refine ⟨by simpa using fun herror => hasked (.inr (.inr herror)), ?_⟩
    cases hdefinition : row.definition with
    | none => rw [hdefinition] at h; cases h
    | some definition => exact ⟨definition, rfl⟩

/-- How a job comes to be enabled: it was, as sound and with the digest it has, or it is accepted. -/
theorem JobStore.Writes.enabled_cases
    (h : s.Writes env context clock frame jobId occurrenceId write)
    (hjob : (s.write jobId occurrenceId write).jobs.get id = some job)
    (henabled : job.enabled = true) :
    (∃ before, s.jobs.get id = some before ∧ before.enabled = true ∧
        ∀ digest, before.Sound digest → job.Sound digest) ∨
      ∃ digest, job.Sound digest ∧ frame.Accepts context s id digest := by
  rcases s.write_job jobId id occurrenceId write with hkept | ⟨rfl, job', hwrite, hget⟩
  · exact .inl ⟨job, hkept.symm.trans hjob, henabled, fun _ hsound => hsound⟩
  · rw [hget] at hjob
    cases hjob
    cases h with
    | replay | stage | nothing => cases hwrite
    | disable | remove | fail =>
      cases hwrite
      cases henabled
    | enable _ hdefinition herror hdigest =>
      cases hwrite
      exact .inr ⟨_, ⟨by rw [hdefinition, Option.map_some, hdigest], herror⟩, rfl, rfl⟩
    | reserve hreservable =>
      cases hwrite
      exact .inl ⟨_, hreservable.found, hreservable.enabled, fun _ hsound => ⟨hsound.1, hsound.2⟩⟩
    | release hfound | settle hfound =>
      cases hwrite
      exact .inl ⟨_, hfound, henabled, fun _ hsound => ⟨hsound.1, hsound.2⟩⟩
    | @publish now existing rows row rest =>
      cases hwrite
      by_cases hactivated : (activatedBy context (s.jobs.get row.id) row).isSome = true
      · obtain ⟨herror, definition, hdefinition⟩ := activatedBy_some hactivated
        have hdigest : row.definition.map (·.digest) = some definition.digest := by
          rw [hdefinition, Option.map_some]
        exact .inr ⟨definition.digest, ⟨hdigest, herror⟩, rfl, hdigest, hactivated⟩
      · have hunchanged : unchangedRow (s.jobs.get row.id) row = true := by
          simpa [publishedJob, hactivated] using henabled
        simp only [unchangedRow, Option.any_eq_true, decide_eq_true_eq] at hunchanged
        obtain ⟨⟨before, hbefore, hon⟩, herror, hdigest⟩ := hunchanged
        refine .inl ⟨before, hbefore, hon, fun digest hsound =>
          ⟨?_, Bool.eq_false_iff.2 herror⟩⟩
        rw [hbefore] at hdigest
        exact hdigest.symm.trans hsound.defined

end Writes

/-! ### Runs -/

section Runs

variable {env : JobsEnv} {w : JobsWorld} {a : JobAct} {id : String}

/-- The act applies an explicit enable or disable of the job. -/
def JobsWorld.Switches (env : JobsEnv) (w : JobsWorld) (a : JobAct) (id : String) (enabled : Bool) :
    Prop :=
  ∃ frame context, w.applied env a = some (frame, context) ∧ frame.switches id enabled

/-- The job that an act switches, and to what. -/
def JobsWorld.switched (env : JobsEnv) (w : JobsWorld) (a : JobAct) : Option (String × Bool) :=
  (w.applied env a).bind fun x => match x.1 with
    | .enabling id _ _ enabled _ => some (id, enabled)
    | _ => none

theorem JobsWorld.switches_iff {enabled : Bool} :
    w.Switches env a id enabled ↔ w.switched env a = some (id, enabled) := by
  unfold JobsWorld.Switches JobsWorld.switched
  cases w.applied env a with
  | none => simp
  | some x =>
    obtain ⟨frame, context⟩ := x
    cases frame <;> simp [JobFrame.switches]

instance (enabled : Bool) : Decidable (w.Switches env a id enabled) :=
  decidable_of_iff _ JobsWorld.switches_iff.symm

/-- No act of the run applies an explicit enable of the job. -/
def JobsWorld.NoEnable (env : JobsEnv) (w : JobsWorld) (acts : List JobAct) (id : String) : Prop :=
  Machine.Along (JobsWorld.step env) (fun v a => ¬v.Switches env a id true) w acts

/-- The act enables the digest: an operator does, or the activation policy that it asks. -/
def JobsWorld.Accepts (env : JobsEnv) (w : JobsWorld) (a : JobAct) (id digest : String) : Prop :=
  ∃ frame context, w.applied env a = some (frame, context) ∧
    frame.Accepts context w.store id digest

/-- The job is disabled, and has no occurrence that it did not have in `s`. -/
structure JobStore.Idle (s s' : JobStore) (id : String) : Prop where
  disabled : ∃ job, s'.jobs.get id = some job ∧ job.enabled = false
  admitted : ∀ key occurrence, s'.occurrences.get key = some occurrence → occurrence.jobId = id →
    ∃ earlier, s.occurrences.get key = some earlier ∧ earlier.jobId = id

/-- The job of a state is vetoed. -/
def JobStore.Vetoed (s : JobStore) (id : String) : Prop :=
  ∃ job, s.jobs.get id = some job ∧ job.Vetoed

theorem JobsWorld.step_vetoed (hveto : w.store.Vetoed id) (ha : ¬w.Switches env a id true) :
    (w.step env a).store.Vetoed id ∧ w.store.Idle (w.step env a).store id := by
  obtain ⟨job, hjob, hvetoed⟩ := hveto
  rcases w.store_cases env a with ⟨-, hkept⟩ |
    ⟨frame, context, jobId, occurrenceId, write, happlied, hwrites, hstore⟩
  · rw [hkept]
    exact ⟨⟨job, hjob, hvetoed⟩, ⟨job, hjob, hvetoed.disabled⟩, fun key occurrence hget hid =>
      ⟨occurrence, hget, hid⟩⟩
  · rw [hstore]
    obtain ⟨job', hjob', hvetoed'⟩ :=
      hwrites.vetoed hjob hvetoed fun hframe => ha ⟨frame, context, happlied, hframe⟩
    refine ⟨⟨job', hjob', hvetoed'⟩, ⟨job', hjob', hvetoed'.disabled⟩, fun key occurrence hget hid => ?_⟩
    rcases hwrites.occurrence_cases hget with ⟨earlier, hearlier, hsame⟩ | ⟨other, hother, henabled⟩
    · exact ⟨earlier, hearlier, hsame.trans hid⟩
    · rw [hid, hjob] at hother
      cases hother
      rw [hvetoed.disabled] at henabled
      cases henabled

/-- Without an explicit enable a vetoed job stays disabled and admits nothing. -/
theorem JobsWorld.run_vetoed {acts : List JobAct} (hveto : w.store.Vetoed id)
    (hacts : w.NoEnable env acts id) : w.store.Idle (w.run env acts).store id := by
  induction acts generalizing w with
  | nil =>
    obtain ⟨job, hjob, hvetoed⟩ := hveto
    exact ⟨⟨job, hjob, hvetoed.disabled⟩, fun key occurrence hget hid => ⟨occurrence, hget, hid⟩⟩
  | cons a rest ih =>
    obtain ⟨hvetoed, hidle⟩ := w.step_vetoed hveto hacts.1
    have hrest : (w.step env a).store.Idle (w.run env (a :: rest)).store id := ih hvetoed hacts.2
    refine ⟨hrest.disabled, fun key occurrence hget hid => ?_⟩
    obtain ⟨later, hlater, hsame⟩ := hrest.admitted key occurrence hget hid
    exact hidle.admitted key later hlater hsame

/-- An explicit disable leaves a vetoed job. -/
theorem JobsWorld.disable_vetoed (h : w.Switches env a id false) :
    (w.step env a).store.Vetoed id ∧ w.store.Idle (w.step env a).store id := by
  obtain ⟨frame, context, happlied, hframe⟩ := h
  rcases w.store_cases env a with ⟨hnone, -⟩ |
    ⟨frame', context', jobId, occurrenceId, write, happlied', hwrites, hstore⟩
  · rw [hnone] at happlied
    cases happlied
  · rw [happlied] at happlied'
    cases happlied'
    rw [hstore]
    cases hwrites with
    | @disable id' digest principal at_ job hjob =>
      cases hframe.1
      have hget : (w.store.write id none
          { job := some { job with enabled := false, vetoedBy := some (some principal) } }).jobs.get
            id = some { job with enabled := false, vetoedBy := some (some principal) } :=
        OrderedMap.get_set_self _ _ _
      exact ⟨⟨_, hget, rfl, rfl⟩, ⟨_, hget, rfl⟩, fun key occurrence hoccurrence hid =>
        ⟨occurrence, hoccurrence, hid⟩⟩
    | enable => cases hframe.2
    | nothing hkeeps =>
      cases frame with
      | enabling => cases hkeeps
      | _ => cases hframe
    | _ => cases hframe

theorem JobsWorld.step_refreshedAt (w : JobsWorld) (a : JobAct) {job : CatalogJob}
    (hjob : w.store.jobs.get id = some job) :
    ∃ job', (w.step env a).store.jobs.get id = some job' ∧ job.refreshedAt ≤ job'.refreshedAt := by
  rcases w.store_cases env a with ⟨-, hkept⟩ | ⟨_, _, _, _, _, -, hwrites, hstore⟩
  · exact ⟨job, by rw [hkept, hjob], Int.le_refl _⟩
  · rw [hstore]
    exact hwrites.refreshedAt_le hjob

theorem JobsWorld.run_refreshedAt (acts : List JobAct) {job : CatalogJob}
    (hjob : w.store.jobs.get id = some job) :
    ∃ job', (w.run env acts).store.jobs.get id = some job' ∧
      job.refreshedAt ≤ job'.refreshedAt := by
  refine Machine.invariant_run (fun v : JobsWorld =>
    ∃ job', v.store.jobs.get id = some job' ∧ job.refreshedAt ≤ job'.refreshedAt)
    ?_ ⟨job, hjob, Int.le_refl _⟩ acts
  rintro v a ⟨job', hjob', hle⟩
  have hstep : ∃ job'', (v.step env a).store.jobs.get id = some job'' ∧
      job'.refreshedAt ≤ job''.refreshedAt := v.step_refreshedAt a hjob'
  obtain ⟨job'', hjob'', hle'⟩ := hstep
  exact ⟨job'', hjob'', Int.le_trans hle hle'⟩

/-- An act of a refresh that observed its source before the record did changes nothing. -/
theorem JobsWorld.step_stale {pid : Nat} {p : JobProcess} {now : Time} {job : CatalogJob}
    (hp : w.processes.get pid = some p) (hframe : p.frame.observation = some (id, now))
    (hjob : w.store.jobs.get id = some job) (hstale : now < job.refreshedAt)
    (context : JobsContext) (awaited : Awaited) (fetched : Option (List SourceRow)) :
    (w.step env (.act pid context awaited fetched)).store = w.store := by
  rcases w.store_cases env (.act pid context awaited fetched) with ⟨-, hkept⟩ |
    ⟨frame, context', jobId, occurrenceId, write, happlied, hwrites, hstore⟩
  · exact hkept
  · obtain ⟨_, _, _, p', _, _, hact, hp', hframe', -⟩ := JobsWorld.applied_eq_some happlied
    cases hact
    rw [hp] at hp'
    cases hp'
    rw [hframe'] at hframe
    rw [hstore, hwrites.stale hframe hjob hstale]
    cases occurrenceId <;> rfl

/-- How a job comes to be enabled in a run: it was from the start, or its digest was accepted. -/
theorem JobsWorld.run_enabled (acts : List JobAct) {job : CatalogJob}
    (hjob : (w.run env acts).store.jobs.get id = some job) (henabled : job.enabled = true) :
    (∃ before, w.store.jobs.get id = some before ∧ before.enabled = true ∧
        ∀ digest, before.Sound digest → job.Sound digest) ∨
      ∃ digest first a rest, job.Sound digest ∧ acts = first ++ a :: rest ∧
        (w.run env first).Accepts env a id digest := by
  induction acts using List.reverseRecOn generalizing job with
  | nil => exact .inl ⟨job, hjob, henabled, fun _ hsound => hsound⟩
  | append_singleton acts a ih =>
    have hrun : w.run env (acts ++ [a]) = (w.run env acts).step env a := Machine.run_append _ _ _ _
    rw [hrun] at hjob
    have hbefore : (∃ before, (w.run env acts).store.jobs.get id = some before ∧
          before.enabled = true ∧ ∀ digest, before.Sound digest → job.Sound digest) ∨
        ∃ digest, job.Sound digest ∧ (w.run env acts).Accepts env a id digest := by
      rcases (w.run env acts).store_cases env a with ⟨-, hkept⟩ |
        ⟨frame, context, _, _, _, happlied, hwrites, hstore⟩
      · exact .inl ⟨job, by rw [← hkept, hjob], henabled, fun _ hsound => hsound⟩
      · rw [hstore] at hjob
        rcases hwrites.enabled_cases hjob henabled with hkept | ⟨digest, hsound, haccepts⟩
        · exact .inl hkept
        · exact .inr ⟨digest, hsound, frame, context, happlied, haccepts⟩
    rcases hbefore with ⟨before, hget, hon, hkeeps⟩ | ⟨digest, hsound, haccepts⟩
    · rcases ih hget hon with ⟨first, hfirst, hon', hkeeps'⟩ |
        ⟨digest, first, b, rest, hsound, rfl, haccepts⟩
      · exact .inl ⟨first, hfirst, hon', fun digest hsound => hkeeps _ (hkeeps' _ hsound)⟩
      · exact .inr ⟨digest, first, b, rest ++ [a], hkeeps _ hsound, by simp, haccepts⟩
    · exact .inr ⟨digest, acts, a, [], hsound, rfl, haccepts⟩

/-- Operator vetoes stick, observations never go back, and what is enabled was accepted. -/
theorem JobsWorld.operator_vetoes (env : JobsEnv) (w : JobsWorld) (acts : List JobAct)
    (id : String) :
    (∀ disable rest, acts = disable :: rest → w.Switches env disable id false →
      (w.step env disable).NoEnable env rest id → w.store.Idle (w.run env acts).store id) ∧
    (∀ job, w.store.jobs.get id = some job → job.enabled = false →
      (operatorVeto (some job)).isSome = true → w.NoEnable env acts id →
      w.store.Idle (w.run env acts).store id) ∧
    (∀ job, w.store.jobs.get id = some job → ∃ job', (w.run env acts).store.jobs.get id = some job' ∧
      job.refreshedAt ≤ job'.refreshedAt) ∧
    (∀ pid p now job context awaited fetched, w.processes.get pid = some p →
      p.frame.observation = some (id, now) → w.store.jobs.get id = some job → now < job.refreshedAt →
      (w.step env (.act pid context awaited fetched)).store = w.store) ∧
    ((∀ job, w.store.jobs.get id = some job → job.enabled = true →
        job.definition.isSome = true ∧ truthy job.error = false) →
      ∀ job, (w.run env acts).store.jobs.get id = some job → job.enabled = true →
        ∃ definition, job.definition = some definition ∧ truthy job.error = false ∧
          ((∃ first a rest, acts = first ++ a :: rest ∧
              (w.run env first).Accepts env a id definition.digest) ∨
            ∃ before definition', w.store.jobs.get id = some before ∧ before.enabled = true ∧
              before.definition = some definition' ∧ definition'.digest = definition.digest)) := by
  refine ⟨?_, ?_, fun job hjob => w.run_refreshedAt acts hjob, ?_, ?_⟩
  · rintro disable rest rfl hdisable hrest
    obtain ⟨hvetoed, hidle⟩ := JobsWorld.disable_vetoed hdisable
    have hlater := JobsWorld.run_vetoed hvetoed hrest
    refine ⟨hlater.disabled, fun key occurrence hget hid => ?_⟩
    obtain ⟨later, hget', hid'⟩ := hlater.admitted key occurrence hget hid
    exact hidle.admitted key later hget' hid'
  · intro job hjob hdisabled hveto hacts
    exact JobsWorld.run_vetoed ⟨job, hjob, hdisabled, hveto⟩ hacts
  · intro pid p now job context awaited fetched hp hframe hjob hstale
    exact JobsWorld.step_stale hp hframe hjob hstale context awaited fetched
  · intro hinitial job hjob henabled
    rcases w.run_enabled acts hjob henabled with ⟨before, hbefore, hon, hkeeps⟩ |
      ⟨digest, first, a, rest, hsound, hacts, haccepts⟩
    · obtain ⟨hdefined, herror⟩ := hinitial before hbefore hon
      obtain ⟨definition', hdefinition'⟩ := Option.isSome_iff_exists.1 hdefined
      have hsound := hkeeps definition'.digest ⟨by rw [hdefinition', Option.map_some], herror⟩
      obtain ⟨definition, hdefinition, hdigest⟩ := Option.map_eq_some_iff.1 hsound.defined
      exact ⟨definition, hdefinition, hsound.error,
        .inr ⟨before, definition', hbefore, hon, hdefinition', hdigest.symm⟩⟩
    · obtain ⟨definition, hdefinition, rfl⟩ := Option.map_eq_some_iff.1 hsound.defined
      exact ⟨definition, hdefinition, hsound.error, .inl ⟨first, a, rest, hacts, haccepts⟩⟩

end Runs

namespace JobSample

/-- Bob is about to disable the job that Alice enabled. -/
def disabling : List JobAct := enabled ++ [.start 3 (.enable "o/r/nightly" "d1" "bob" false)]

/-- A refresh that activates what it reads, and a tick when a slot is due. -/
def activating : List JobAct :=
  [.start 4 (.refresh "o/r"), act 4 (some "lcars"), act 4 (some "lcars") (some (source "d2")),
    act 4 (some "lcars"), .advance 600000, .start 5 .tick, act 5, act 5, act 5]

/-- Nor does a refresh enable the job that Bob disables, and no tick admits a slot. -/
theorem operator_vetoes_disabled :
    let w := JobsWorld.init.run env disabling
    w.store.Idle (w.run env (act 3 :: activating)).store "o/r/nightly" := by
  intro w
  refine (JobsWorld.operator_vetoes env w (act 3 :: activating) _).1 (act 3) activating rfl
    (by decide +kernel) ?_
  unfold JobsWorld.NoEnable
  decide +kernel

end JobSample

end AgentLcars
