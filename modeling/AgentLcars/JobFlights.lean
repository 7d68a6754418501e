import AgentLcars.JobSlots
import AgentLcars.RecipeRuns

/-!
# Repository jobs are single flight

A reservation, the run of its work and its reconciliation live in two stores, and processes advance
them from what they read earlier.

* `JobStore.Flights`: a job awaits exactly its one occurrence that is neither skipped nor reconciled;
* `JobFrame.Known`: what a process still knows of what it read;
* `JobsWorld.Flown`: with the orchestrator, each occurrence has at most one run;
* `JobsWorld.single_flight`: what holds in every run in which nobody else asks for runs of the work
  of an occurrence.
-/

namespace AgentLcars

/-! ### Reservations -/

/-- Neither skipped nor reconciled. -/
structure JobOccurrence.Open (occurrence : JobOccurrence) : Prop where
  admitted : occurrence.skipped = false
  unreconciled : occurrence.reconciledAt = none

/-- A job awaits exactly its one open occurrence, and its baseline is a success. -/
structure JobStore.Flights (s : JobStore) : Prop where
  keyed : ∀ key occurrence, s.occurrences.get key = some occurrence → occurrence.id = key
  active : ∀ j job id, s.jobs.get j = some job → job.active = some id →
    ∃ occurrence, s.occurrences.get id = some occurrence ∧ occurrence.jobId = j ∧ occurrence.Open
  awaited : ∀ key occurrence, s.occurrences.get key = some occurrence → occurrence.Open →
    ∃ job, s.jobs.get occurrence.jobId = some job ∧ job.active = some key
  baseline : ∀ j job b, s.jobs.get j = some job → job.baseline = some b →
    ∃ occurrence, s.occurrences.get b.occurrence = some occurrence ∧ occurrence.jobId = j ∧
      occurrence.reconciledAt.isSome = true ∧ occurrence.successful = some true ∧
      occurrence.comparison = b.comparison

/-- What stays of an occurrence, all of it once it is reconciled. -/
structure JobOccurrence.Continues (before after : JobOccurrence) : Prop where
  jobId : after.jobId = before.jobId
  workId : after.workId = before.workId
  skipped : after.skipped = before.skipped
  profile : after.profile = before.profile
  reconciled : before.reconciledAt.isSome = true → after = before

theorem JobOccurrence.Continues.refl (occurrence : JobOccurrence) :
    occurrence.Continues occurrence :=
  ⟨rfl, rfl, rfl, rfl, fun _ => rfl⟩

section Writes

variable {env : JobsEnv} {context : JobsContext} {clock : Time} {s : JobStore} {frame : JobFrame}
variable {jobId : String} {occurrenceId : Option String} {write : JobWrite}

/-- The open occurrence that a job awaits. -/
theorem JobStore.Flights.saved (h : s.Flights) {j id : String} {job : CatalogJob}
    {saved : JobOccurrence} (hjob : s.jobs.get j = some job) (hactive : job.active = some id)
    (hsaved : s.occurrences.get id = some saved) : saved.Open ∧ saved.jobId = j ∧ saved.id = id := by
  obtain ⟨occurrence, hget, hid, hopen⟩ := h.active j job id hjob hactive
  rw [hsaved] at hget
  cases hget
  exact ⟨hopen, hid, h.keyed id saved hsaved⟩

/-- A write keeps what an occurrence is. -/
theorem JobStore.Writes.continues (h : s.Writes env context clock frame jobId occurrenceId write)
    (hs : s.Flights) {key : String} {occurrence : JobOccurrence}
    (hget : s.occurrences.get key = some occurrence) :
    ∃ after, (s.write jobId occurrenceId write).occurrences.get key = some after ∧
      occurrence.Continues after := by
  rcases s.write_occurrence jobId key occurrenceId write with hkept | ⟨hkey, after, hwrite, hafter⟩
  · exact ⟨occurrence, hkept.trans hget, .refl _⟩
  · refine ⟨after, hafter, ?_⟩
    cases h with
    | replay hexisting =>
      cases hkey
      rw [hget] at hexisting
      cases hexisting
      cases hwrite
      exact .refl _
    | reserve hreservable =>
      cases hkey
      rw [hreservable.unused] at hget
      cases hget
    | stage hcurrent _ hreconciled =>
      cases hkey
      rw [hget] at hcurrent
      cases hcurrent
      cases hwrite
      exact ⟨rfl, rfl, rfl, rfl, fun hsome => by rw [hreconciled] at hsome; cases hsome⟩
    | release hjob hsaved hactive | settle hjob hsaved hactive =>
      cases hkey
      rw [hget] at hsaved
      cases hsaved
      cases hwrite
      obtain ⟨hopen, -⟩ := hs.saved hjob hactive hget
      exact ⟨rfl, rfl, rfl, rfl, fun hsome => by rw [hopen.unreconciled] at hsome; cases hsome⟩
    | _ => cases hwrite

/-- The job of the write of a frame, with what it awaits. -/
structure JobStore.KeepsActive (s : JobStore) (jobId : String) (write : JobWrite) : Prop where
  occurrence : write.occurrence = none
  job : ∀ job', write.job = some job' →
    job'.active = (s.jobs.get jobId).bind (·.active) ∧
      job'.baseline = (s.jobs.get jobId).bind (·.baseline)

/-- The frame is that of an enable, a disable or a refresh. -/
def JobFrame.isCatalog : JobFrame → Bool
  | .enabling _ _ _ _ _ | .publishing _ _ _ _ | .unlisting _ _ _ | .failing _ _ => true
  | _ => false

/-- Enables, disables and refreshes change neither what a job awaits nor its baseline. -/
theorem JobStore.Writes.keepsActive (h : s.Writes env context clock frame jobId occurrenceId write)
    (hframe : frame.isCatalog = true) : s.KeepsActive jobId write := by
  cases h with
  | disable hjob | enable hjob | remove hjob | fail hjob =>
    refine ⟨rfl, ?_⟩
    rintro job' ⟨rfl⟩
    rw [hjob]
    exact ⟨rfl, rfl⟩
  | publish =>
    refine ⟨rfl, ?_⟩
    rintro job' ⟨rfl⟩
    exact ⟨rfl, rfl⟩
  | nothing => exact ⟨rfl, fun job' h => by cases h⟩
  | _ => cases hframe

theorem JobStore.get_write_job (s : JobStore) (jobId : String) (occurrenceId : Option String)
    (job : CatalogJob) (occurrence : Option JobOccurrence) (j : String) :
    (s.write jobId occurrenceId { job := some job, occurrence }).jobs.get j =
      if j = jobId then some job else s.jobs.get j :=
  OrderedMap.get_set _ _ _ _

theorem JobStore.get_write_occurrence (s : JobStore) (jobId id : String) (job : Option CatalogJob)
    (occurrence : JobOccurrence) (key : String) :
    (s.write jobId (some id) { job, occurrence := some occurrence }).occurrences.get key =
      if key = id then some occurrence else s.occurrences.get key :=
  OrderedMap.get_set _ _ _ _

/-- A catalog write keeps the flights. -/
theorem JobStore.Flights.catalog (h : s.Flights) (hkeeps : s.KeepsActive jobId write) :
    (s.write jobId occurrenceId write).Flights := by
  obtain ⟨job, occurrence⟩ := write
  obtain rfl : occurrence = none := hkeeps.occurrence
  have hoccurrences : (s.write jobId occurrenceId { job }).occurrences = s.occurrences := by
    cases occurrenceId <;> rfl
  cases job with
  | none =>
    have hjobs : (s.write jobId occurrenceId {}).jobs = s.jobs := rfl
    refine ⟨?_, ?_, ?_, ?_⟩ <;> rw [hoccurrences]
    · exact h.keyed
    · exact hjobs ▸ h.active
    · exact hjobs ▸ h.awaited
    · exact hjobs ▸ h.baseline
  | some job' =>
    obtain ⟨hactive, hbaseline⟩ := hkeeps.job job' rfl
    refine ⟨?_, ?_, ?_, ?_⟩ <;> rw [hoccurrences]
    · exact h.keyed
    · intro j job id hget hid
      rw [s.get_write_job] at hget
      split_ifs at hget with hj
      · cases hget
        rw [hactive] at hid
        obtain ⟨before, hbefore, hid⟩ := Option.bind_eq_some_iff.1 hid
        exact hj ▸ h.active jobId before id hbefore hid
      · exact h.active j job id hget hid
    · intro key occurrence hget hopen
      obtain ⟨job, hjob, hid⟩ := h.awaited key occurrence hget hopen
      rw [s.get_write_job]
      split_ifs with hj
      · refine ⟨job', rfl, ?_⟩
        rw [hactive, ← hj, hjob]
        exact hid
      · exact ⟨job, hjob, hid⟩
    · intro j job b hget hb
      rw [s.get_write_job] at hget
      split_ifs at hget with hj
      · cases hget
        rw [hbaseline] at hb
        obtain ⟨before, hbefore, hb⟩ := Option.bind_eq_some_iff.1 hb
        exact hj ▸ h.baseline jobId before b hbefore hb
      · exact h.baseline j job b hget hb

/-- An open occurrence that is only staged keeps the flights, and so does one that is repeated. -/
theorem JobStore.Flights.staged (h : s.Flights) {id : String} {before after : JobOccurrence}
    (hget : s.occurrences.get id = some before) (hid : after.id = before.id)
    (hjobId : after.jobId = before.jobId) (hskipped : after.skipped = before.skipped)
    (hreconciled : after.reconciledAt = before.reconciledAt)
    (hsuccessful : after.successful = before.successful)
    (hcomparison : after.comparison = before.comparison) :
    (s.write jobId (some id) { occurrence := some after }).Flights := by
  have hopen : after.Open ↔ before.Open :=
    ⟨fun ho => ⟨hskipped ▸ ho.1, hreconciled ▸ ho.2⟩,
      fun ho => ⟨hskipped.trans ho.1, hreconciled.trans ho.2⟩⟩
  refine ⟨fun key occurrence hkey => ?_, fun j job i hjob hi => ?_, fun key occurrence hkey ho => ?_,
    fun j job b hjob hb => ?_⟩
  · rw [s.get_write_occurrence] at hkey
    split_ifs at hkey with he
    · cases hkey
      rw [hid, he]
      exact h.keyed id before hget
    · exact h.keyed key occurrence hkey
  · obtain ⟨occurrence, hkey, hj, ho⟩ := h.active j job i hjob hi
    rw [s.get_write_occurrence]
    split_ifs with he
    · subst he
      rw [hget] at hkey
      cases hkey
      exact ⟨after, rfl, hjobId.trans hj, hopen.2 ho⟩
    · exact ⟨occurrence, hkey, hj, ho⟩
  · rw [s.get_write_occurrence] at hkey
    split_ifs at hkey with he
    · cases hkey
      rw [he, hjobId]
      exact h.awaited id before hget (hopen.1 ho)
    · exact h.awaited key occurrence hkey ho
  · obtain ⟨occurrence, hkey, hj, hsome, hok, hsame⟩ := h.baseline j job b hjob hb
    rw [s.get_write_occurrence]
    split_ifs with he
    · rw [he, hget] at hkey
      cases hkey
      exact ⟨after, rfl, hjobId.trans hj, hreconciled ▸ hsome, hsuccessful.trans hok,
        hcomparison.trans hsame⟩
    · exact ⟨occurrence, hkey, hj, hsome, hok, hsame⟩

/-- The reconciliation of the occurrence that a job awaits. -/
theorem JobStore.Flights.reconciled (h : s.Flights) {j id : String} {current job' : CatalogJob}
    {saved after : JobOccurrence} (hjob : s.jobs.get j = some current)
    (hactive : current.active = some id) (hsaved : s.occurrences.get id = some saved)
    (hidle : job'.active = none) (hid : after.id = saved.id) (hjobId : after.jobId = saved.jobId)
    (hreconciled : after.reconciledAt.isSome = true)
    (hbaseline : job'.baseline = current.baseline ∨
      (job'.baseline = some ⟨saved.id, after.comparison⟩ ∧ after.successful = some true)) :
    (s.write j (some id) { job := some job', occurrence := some after }).Flights := by
  obtain ⟨hopen, hown, hsavedId⟩ := h.saved hjob hactive hsaved
  have hclosed : ¬after.Open := fun ho => by rw [ho.unreconciled] at hreconciled; cases hreconciled
  refine ⟨fun key occurrence hkey => ?_, fun i job k hi hk => ?_, fun key occurrence hkey ho => ?_,
    fun i job b hi hb => ?_⟩
  · rw [s.get_write_occurrence] at hkey
    split_ifs at hkey with he
    · cases hkey
      rw [hid, he, hsavedId]
    · exact h.keyed key occurrence hkey
  · rw [s.get_write_job] at hi
    split_ifs at hi with hij
    · cases hi
      rw [hidle] at hk
      cases hk
    · obtain ⟨occurrence, hkey, hi', ho⟩ := h.active i job k hi hk
      rw [s.get_write_occurrence]
      split_ifs with he
      · rw [he, hsaved] at hkey
        cases hkey
        exact absurd (hi'.symm.trans hown) hij
      · exact ⟨occurrence, hkey, hi', ho⟩
  · rw [s.get_write_occurrence] at hkey
    split_ifs at hkey with he
    · cases hkey
      exact absurd ho hclosed
    · obtain ⟨job, hget, hk⟩ := h.awaited key occurrence hkey ho
      rw [s.get_write_job]
      split_ifs with hij
      · rw [hij, hjob] at hget
        cases hget
        rw [hactive] at hk
        exact absurd (Option.some.inj hk).symm he
      · exact ⟨job, hget, hk⟩
  · -- a baseline names a reconciled occurrence, so not the one that is reconciled now
    have hkept : ∀ i job, s.jobs.get i = some job → job.baseline = some b →
        ∃ occurrence, (s.write j (some id)
            { job := some job', occurrence := some after }).occurrences.get b.occurrence =
            some occurrence ∧ occurrence.jobId = i ∧ occurrence.reconciledAt.isSome = true ∧
          occurrence.successful = some true ∧ occurrence.comparison = b.comparison := by
      intro i job hi hb
      obtain ⟨occurrence, hkey, hrest⟩ := h.baseline i job b hi hb
      rw [s.get_write_occurrence]
      split_ifs with he
      · rw [he, hsaved] at hkey
        cases hkey
        rw [hopen.unreconciled] at hrest
        cases hrest.2.1
      · exact ⟨occurrence, hkey, hrest⟩
    rw [s.get_write_job] at hi
    split_ifs at hi with hij
    · cases hi
      rcases hbaseline with hsame | ⟨hnew, hok⟩
      · rw [hij]
        exact hkept j current hjob (hsame.symm.trans hb)
      · rw [hnew] at hb
        cases hb
        refine ⟨after, ?_, ?_, hreconciled, hok, rfl⟩
        · rw [s.get_write_occurrence, if_pos hsavedId]
        · rw [hjobId, hown, hij]
    · exact hkept i job hi hb

/-- The reservation of a new occurrence. -/
theorem JobStore.Flights.reserved (h : s.Flights) {j id : String} {job : CatalogJob}
    {occurrence : JobOccurrence} (hunused : s.occurrences.get id = none)
    (hjob : s.jobs.get j = some job) (hid : occurrence.id = id) (hjobId : occurrence.jobId = j)
    (hskipped : occurrence.skipped = job.active.isSome)
    (hreconciled : occurrence.reconciledAt = none) :
    (s.write j (some id)
      { job := some (job.admitted occurrence), occurrence := some occurrence }).Flights := by
  have hother : ∀ {key : String} {occ : JobOccurrence}, s.occurrences.get key = some occ →
      (s.write j (some id)
        { job := some (job.admitted occurrence), occurrence := some occurrence }).occurrences.get
          key = some occ := by
    intro key occ hkey
    rw [s.get_write_occurrence, if_neg]
    · exact hkey
    · rintro rfl
      rw [hunused] at hkey
      cases hkey
  refine ⟨fun key occ hkey => ?_, fun i job' k hi hk => ?_, fun key occ hkey ho => ?_,
    fun i job' b hi hb => ?_⟩
  · rw [s.get_write_occurrence] at hkey
    split_ifs at hkey with he
    · cases hkey
      rw [hid, he]
    · exact h.keyed key occ hkey
  · rw [s.get_write_job] at hi
    split_ifs at hi with hij
    · cases hi
      cases hbusy : job.active with
      | none =>
        rw [hbusy] at hskipped
        simp only [CatalogJob.admitted, hskipped, Option.isSome_none, Bool.false_eq_true, if_false]
          at hk
        cases hk
        refine ⟨occurrence, ?_, hjobId.trans hij.symm, hskipped, hreconciled⟩
        rw [s.get_write_occurrence, if_pos hid]
      | some busy =>
        rw [hbusy] at hskipped
        simp only [CatalogJob.admitted, hskipped, Option.isSome_some, if_true] at hk
        obtain ⟨occ, hkey, hrest⟩ := h.active j job k hjob hk
        exact ⟨occ, hother hkey, hij ▸ hrest⟩
    · obtain ⟨occ, hkey, hrest⟩ := h.active i job' k hi hk
      exact ⟨occ, hother hkey, hrest⟩
  · rw [s.get_write_occurrence] at hkey
    split_ifs at hkey with he
    · cases hkey
      refine ⟨job.admitted occurrence, ?_, ?_⟩
      · rw [s.get_write_job, if_pos hjobId]
      · simp only [CatalogJob.admitted, ho.admitted, Bool.false_eq_true, if_false, hid, he]
    · obtain ⟨job', hget, hk⟩ := h.awaited key occ hkey ho
      rw [s.get_write_job]
      split_ifs with hij
      · rw [hij, hjob] at hget
        cases hget
        refine ⟨_, rfl, ?_⟩
        rw [hk] at hskipped
        simp only [CatalogJob.admitted, hskipped, Option.isSome_some, if_true, hk]
      · exact ⟨job', hget, hk⟩
  · rw [s.get_write_job] at hi
    split_ifs at hi with hij
    · cases hi
      obtain ⟨occ, hkey, hrest⟩ := h.baseline j job b hjob hb
      exact ⟨occ, hother hkey, hij ▸ hrest⟩
    · obtain ⟨occ, hkey, hrest⟩ := h.baseline i job' b hi hb
      exact ⟨occ, hother hkey, hrest⟩

/-- Every write keeps the flights. -/
theorem JobStore.Writes.flights (h : s.Writes env context clock frame jobId occurrenceId write)
    (hs : s.Flights) : (s.write jobId occurrenceId write).Flights := by
  by_cases hcatalog : frame.isCatalog = true
  · exact hs.catalog (h.keepsActive hcatalog)
  · cases h with
    | replay hexisting => exact hs.staged hexisting rfl rfl rfl rfl rfl rfl
    | reserve hreservable hoccurrence =>
      rw [hoccurrence]
      exact hs.reserved hreservable.unused hreservable.found rfl rfl rfl rfl
    | stage hcurrent => exact hs.staged hcurrent rfl rfl rfl rfl rfl rfl
    | release hjob hsaved hactive =>
      exact hs.reconciled hjob hactive hsaved rfl rfl rfl rfl (.inl rfl)
    | @settle _ _ run _ saved hjob hsaved hactive =>
      refine hs.reconciled hjob hactive hsaved rfl rfl rfl rfl ?_
      by_cases hok : resultDelivered run saved = true
      · refine .inr ⟨?_, ?_⟩
        · simp only [CatalogJob.settled, hok, if_true]
          rfl
        · simp only [JobOccurrence.settled, hok]
      · exact .inl (by simp only [CatalogJob.settled, hok, Bool.false_eq_true, if_false])
    | nothing =>
      have hkeeps : s.KeepsActive jobId {} := ⟨rfl, fun job' h => by cases h⟩
      exact hs.catalog hkeeps
    | _ => exact absurd rfl hcatalog

theorem JobStore.flights_empty : JobStore.empty.Flights where
  keyed := fun _ _ h => by cases h
  active := fun _ _ _ h => by cases h
  awaited := fun _ _ h => by cases h
  baseline := fun _ _ _ h => by cases h

end Writes

/-! ### What processes know -/

/-- The run that an occurrence is settled by, as it is listed: terminal, and its worker is gone. -/
structure JudgedBy (world : Store) (clock : Time) (occurrence : JobOccurrence) (run : Run) : Prop where
  listed : world.listRuns (.work occurrence.workId) = [run]
  terminal : isLive run.state = false
  retired : awaitsRetirement run clock = false

/-- The occurrence is reserved and not skipped. -/
structure JobStore.Holds (s : JobStore) (occurrence : JobOccurrence) : Prop where
  admitted : occurrence.skipped = false
  stored : ∃ saved, s.occurrences.get occurrence.id = some saved ∧ saved.workId = occurrence.workId ∧
    saved.profile = occurrence.profile ∧ saved.skipped = false

/-- The occurrence that a snapshot awaits is reserved and not skipped. -/
def JobStore.Saw (s : JobStore) (job : CatalogJob) : Prop :=
  ∀ id, job.active = some id →
    ∃ saved, s.occurrences.get id = some saved ∧ saved.skipped = false

/-- What is true of what a frame holds; `J` says by which runs occurrences were judged. -/
def JobFrame.Known (s : JobStore) (J : JobOccurrence → Run → Prop) : JobFrame → Prop
  | .minting occurrence _ | .draining occurrence _ | .listing _ occurrence => s.Holds occurrence
  | .settling _ occurrence run => s.Holds occurrence ∧ J occurrence run
  | .requesting occurrence _ _ => s.Holds occurrence ∧ occurrence.profile.credentials = none
  | .reconciling job => s.Saw job
  | .legacyReading _ occurrence | .legacyReleasing _ occurrence =>
    s.Holds occurrence ∧ occurrence.profile.credentials.isSome = true
  | _ => True

/-- What is true of what a process holds. -/
structure JobProcess.Known (s : JobStore) (J : JobOccurrence → Run → Prop) (p : JobProcess) :
    Prop where
  frame : p.frame.Known s J
  remaining : ∀ job ∈ p.remaining, s.Saw job

/-- The occurrences of a store live on in another. -/
def JobStore.Continues (s s' : JobStore) : Prop :=
  ∀ key occurrence, s.occurrences.get key = some occurrence →
    ∃ after, s'.occurrences.get key = some after ∧ occurrence.Continues after

section Known

variable {s s' : JobStore} {J J' : JobOccurrence → Run → Prop}

theorem JobStore.Holds.mono {occurrence : JobOccurrence} (h : s.Holds occurrence)
    (hs : s.Continues s') : s'.Holds occurrence := by
  obtain ⟨saved, hsaved, hwork, hprofile, hskipped⟩ := h.stored
  obtain ⟨after, hafter, hcontinues⟩ := hs _ saved hsaved
  exact ⟨h.admitted, after, hafter, hcontinues.workId.trans hwork,
    hcontinues.profile.trans hprofile, hcontinues.skipped.trans hskipped⟩

theorem JobStore.Saw.mono {job : CatalogJob} (h : s.Saw job) (hs : s.Continues s') : s'.Saw job := by
  intro id hid
  obtain ⟨saved, hsaved, hskipped⟩ := h id hid
  obtain ⟨after, hafter, hcontinues⟩ := hs id saved hsaved
  exact ⟨after, hafter, hcontinues.skipped.trans hskipped⟩

theorem JobProcess.Known.mono {p : JobProcess} (h : p.Known s J) (hs : s.Continues s')
    (hJ : ∀ occurrence run, J occurrence run → J' occurrence run) : p.Known s' J' := by
  refine ⟨?_, fun job hjob => (h.remaining job hjob).mono hs⟩
  have hframe := h.frame
  cases hf : p.frame <;> rw [hf] at hframe
  case minting | draining | listing => exact JobStore.Holds.mono hframe hs
  case settling => exact ⟨JobStore.Holds.mono hframe.1 hs, hJ _ _ hframe.2⟩
  case requesting | legacyReading | legacyReleasing =>
    exact ⟨JobStore.Holds.mono hframe.1 hs, hframe.2⟩
  case reconciling => exact JobStore.Saw.mono hframe hs
  all_goals trivial

/-- Another frame of the process. -/
theorem JobProcess.Known.goto {p : JobProcess} (h : p.Known s J) {frame : JobFrame}
    (hframe : frame.Known s J) : JobProcess.Known s J { p with frame } :=
  ⟨hframe, h.remaining⟩

theorem JobProcess.Known.next {p : JobProcess} (h : ∀ job ∈ p.remaining, s.Saw job) :
    p.next.Known s J := by
  unfold JobProcess.next
  split
  · exact ⟨trivial, by simp⟩
  · rename_i job rest hremaining
    rw [hremaining] at h
    refine ⟨?_, fun other hother => h other (List.mem_cons_of_mem _ hother)⟩
    unfold reconcileFrame
    split
    · exact h job List.mem_cons_self
    · trivial

theorem JobProcess.Known.admit {p : JobProcess} (h : p.Known s J) (call : AdmitCall) (clock : Time) :
    ( p.admit call clock).Known s J := by
  unfold JobProcess.admit
  split
  · exact h.goto trivial
  · exact .next h.remaining

theorem JobProcess.Known.minted {p : JobProcess} (h : p.Known s J) {occurrence : JobOccurrence}
    (hholds : s.Holds occurrence) (after : MintReturn) : (p.minted occurrence after).Known s J := by
  cases after with
  | admitted => exact .next h.remaining
  | reconciling job => exact h.goto hholds

/-- What is known after an awaited change. -/
theorem JobStore.await_known {awaited : Awaited} {jobId : String} {occurrenceId : Option String}
    {change : Option CatalogJob → Option JobOccurrence → Except String JobWrite}
    {failed : JobProcess} {returned : JobWrite → JobProcess}
    (hkept : s.Continues (s.await awaited jobId occurrenceId change failed returned).store)
    (hfailed : failed.Known s J)
    (hreturned : ∀ write,
      change (s.jobs.get jobId) (occurrenceId.bind s.occurrences.get) = .ok write →
      (returned write).Known (s.write jobId occurrenceId write) J) :
    (s.await awaited jobId occurrenceId change failed returned).process.Known
      (s.await awaited jobId occurrenceId change failed returned).store J := by
  have hlift := hfailed.mono hkept fun _ _ hj => hj
  revert hlift
  unfold JobStore.await JobStore.mutate
  cases hchange : change (s.jobs.get jobId) (occurrenceId.bind s.occurrences.get) with
  | error error =>
    cases awaited with
    | returns => exact id
    | throws message applied => exact id
  | ok write =>
    cases awaited with
    | returns => exact fun _ => hreturned write hchange
    | throws message applied => exact id

theorem JobStore.await_known_const {awaited : Awaited} {jobId : String}
    {occurrenceId : Option String}
    {change : Option CatalogJob → Option JobOccurrence → Except String JobWrite}
    {failed returned : JobProcess}
    (hkept : s.Continues (s.await awaited jobId occurrenceId change failed fun _ => returned).store)
    (hfailed : failed.Known s J) (hreturned : returned.Known s J) :
    (s.await awaited jobId occurrenceId change failed fun _ => returned).process.Known
      (s.await awaited jobId occurrenceId change failed fun _ => returned).store J := by
  have hlift := hfailed.mono hkept fun _ _ hj => hj
  have hlift' := hreturned.mono hkept fun _ _ hj => hj
  revert hlift hlift'
  unfold JobStore.await JobStore.mutate
  cases change (s.jobs.get jobId) (occurrenceId.bind s.occurrences.get) <;>
    cases awaited with
    | returns => intro h h'; first | exact h | exact h'
    | throws message applied => exact fun h _ => h

/-- What is known after a read. -/
theorem JobProcess.reads_known {p q : JobProcess} {awaited : Awaited} (h : p.Known s J)
    (hq : q.Known s J) : (p.reads awaited s q).process.Known (p.reads awaited s q).store J := by
  cases awaited with
  | returns => exact hq
  | throws message applied => exact .next h.remaining

variable {env : JobsEnv} {context : JobsContext} {clock : Time}

/-- The occurrences of the store live on through an act. -/
theorem JobProcess.act_continues (hs : s.Flights) (p : JobProcess) (awaited : Awaited)
    (fetched : Option (List SourceRow)) (world : Store) :
    s.Continues (p.act env context awaited fetched clock world s).store := by
  rw [p.act_store]
  cases hm : p.frame.mutation env context clock with
  | none => exact fun key occurrence hget => ⟨occurrence, hget, .refl _⟩
  | some m =>
    show s.Continues (m.store awaited s)
    unfold JobMutation.store
    split
    · rename_i write _ hwrite
      exact fun key occurrence hget => (JobFrame.mutation_writes hm hwrite).continues hs hget
    · exact fun key occurrence hget => ⟨occurrence, hget, .refl _⟩

/-- What a reservation returns is reserved. -/
theorem JobProcess.Known.reserved {p : JobProcess} (h : p.Known s J) (hs : s.Flights)
    {call : AdmitCall} {at_ : Time} {write : JobWrite}
    (hwrite : reserveChange env context call at_ (s.jobs.get call.id)
      (s.occurrences.get (call.occurrenceId env)) = .ok write) :
    (p.reserved write).Known (s.write call.id (some (call.occurrenceId env)) write) J := by
  have hwrites : s.Writes env context 0 (.reserving call at_) call.id
      (some (call.occurrenceId env)) write := reserveChange_writes hwrite
  have hp : p.Known (s.write call.id (some (call.occurrenceId env)) write) J :=
    h.mono (fun key occurrence hget => hwrites.continues hs hget) fun _ _ hj => hj
  unfold JobProcess.reserved
  split
  · exact .next hp.remaining
  · rename_i occurrence hoccurrence
    split
    · exact .next hp.remaining
    · rename_i hskipped
      have hadmitted : occurrence.skipped = false := by simpa using hskipped
      refine hp.goto ⟨hadmitted, occurrence, ?_, rfl, rfl, hadmitted⟩
      cases hwrites with
      | @replay _ _ existing hexisting =>
        cases hoccurrence
        rw [hs.keyed _ _ hexisting, s.get_write_occurrence, if_pos rfl]
      | @reserve _ _ _ _ _ _ _ _ hreservable heq =>
        cases hoccurrence
        have hid : occurrence.id = call.occurrenceId env := by rw [heq]; rfl
        rw [hid, s.get_write_occurrence, if_pos rfl]
      | nothing => cases hoccurrence

theorem JobProcess.Known.mint {p : JobProcess} (h : p.Known s J) {occurrence : JobOccurrence}
    (hholds : s.Holds occurrence) (world : Store) (after : MintReturn) :
    (p.mint env context world occurrence after).Known s J := by
  unfold JobProcess.mint
  split_ifs with hstored hsecret
  · exact h.minted hholds after
  · exact .next h.remaining
  · split
    · exact .next h.remaining
    · rename_i profile hauthorized
      refine h.goto ⟨hholds, ?_⟩
      unfold JobsContext.authorizeOccurrence at hauthorized
      split_ifs at hauthorized with hlegacy
      simpa using hlegacy

theorem JobProcess.Known.request {p : JobProcess} (h : p.Known s J) {occurrence : JobOccurrence}
    (hholds : s.Holds occurrence) (awaited : Awaited) (world : Store) (profile : JobProfile)
    (after : MintReturn) :
    (p.request awaited clock world s occurrence profile after).process.Known
      (p.request awaited clock world s occurrence profile after).store J := by
  rw [p.request_store]
  unfold JobProcess.request
  cases awaited with
  | throws message applied => exact .next h.remaining
  | returns =>
    dsimp only
    split
    · exact h.goto hholds
    · exact .next h.remaining

theorem JobProcess.Known.judge {p : JobProcess} (h : p.Known s J) {occurrence : JobOccurrence}
    (hholds : s.Holds occurrence) {world : Store}
    (hJ : ∀ occurrence run, JudgedBy world clock occurrence run → J occurrence run)
    (job : CatalogJob) : (p.judge world clock job occurrence).Known s J := by
  unfold JobProcess.judge
  split
  · rename_i run hlisted
    split
    · exact h.goto trivial
    · rename_i hjudged
      obtain ⟨hterminal, hretired⟩ := not_or.1 hjudged
      exact h.goto ⟨hholds, hJ _ _ ⟨hlisted, by simpa using hterminal, by simpa using hretired⟩⟩
  · exact h.goto trivial

/-- A process knows what it reads, as long as it goes on. -/
theorem JobProcess.Known.act {p : JobProcess} (h : p.Known s J) (hs : s.Flights) (awaited : Awaited)
    (fetched : Option (List SourceRow)) {world : Store}
    (hJ : ∀ occurrence run, JudgedBy world clock occurrence run → J occurrence run) :
    (p.act env context awaited fetched clock world s).process.Known
      (p.act env context awaited fetched clock world s).store J := by
  have hkept : s.Continues (p.act env context awaited fetched clock world s).store :=
    p.act_continues hs awaited fetched world
  have hnext : p.next.Known s J := .next h.remaining
  have hgoto : ∀ {frame : JobFrame}, frame.Known s J → JobProcess.Known s J { p with frame } :=
    fun hframe => h.goto hframe
  have hframe := h.frame
  revert hkept
  unfold JobProcess.act
  cases hf : p.frame <;> rw [hf] at hframe <;> dsimp only <;> intro hkept
  case ended => exact h
  case enabling => exact JobStore.await_known_const hkept hnext hnext
  case invoking call =>
    refine JobProcess.reads_known h ?_
    split
    · exact h.admit _ _
    · exact hgoto trivial
  case invokingListed call =>
    refine JobProcess.reads_known h ?_
    split
    · exact h.admit _ _
    · exact hnext
  case reserving call at_ =>
    exact JobStore.await_known hkept hnext fun write hwrite => h.reserved hs hwrite
  case minting occurrence after => exact JobProcess.reads_known h (h.mint hframe world after)
  case requesting occurrence profile after => exact h.request hframe.1 awaited world profile after
  case draining occurrence after => exact JobProcess.reads_known h (h.minted hframe after)
  case stageReading occurrenceId artifact =>
    refine JobProcess.reads_known h ?_
    split
    · exact hgoto trivial
    · exact hnext
  case staging => exact JobStore.await_known_const hkept hnext hnext
  case ticking =>
    refine JobProcess.reads_known h (.next fun job hjob => ?_)
    obtain ⟨j, hj⟩ := (s.jobs.mem_values_iff job).1 hjob
    intro id hid
    obtain ⟨occurrence, hget, -, hopen⟩ := hs.active j job id hj hid
    exact ⟨occurrence, hget, hopen.admitted⟩
  case reconciling job =>
    refine JobProcess.reads_known h ?_
    split
    · exact hnext
    · rename_i occurrence hread
      obtain ⟨id, hid, hget⟩ := Option.bind_eq_some_iff.1 hread
      obtain ⟨saved, hsaved, hskipped⟩ := hframe id hid
      rw [hget] at hsaved
      cases hsaved
      have hholds : s.Holds occurrence := by
        refine ⟨hskipped, occurrence, ?_, rfl, rfl, hskipped⟩
        rw [hs.keyed id occurrence hget]
        exact hget
      split
      · rename_i hlegacy
        exact hgoto ⟨hholds, hlegacy⟩
      · exact hgoto hholds
  case legacyReading job occurrence =>
    refine JobProcess.reads_known h ?_
    split_ifs
    · exact hgoto hframe.1
    · exact hgoto trivial
    · exact hgoto hframe
  case legacyReleasing => exact JobStore.await_known_const hkept hnext (hgoto trivial)
  case listing job occurrence => exact JobProcess.reads_known h (h.judge hframe hJ job)
  case settling => exact JobStore.await_known_const hkept hnext (hgoto trivial)
  case slotting job =>
    split
    · exact hnext
    · exact h.admit _ _
  case refreshing repository now =>
    unfold JobProcess.refresh
    rw [hf]
    exact JobProcess.reads_known h (hgoto trivial)
  case fetching repository now existing =>
    unfold JobProcess.refresh
    rw [hf]
    dsimp only
    split
    · exact hgoto trivial
    · exact hgoto trivial
  case publishing now existing rows remaining =>
    revert hkept
    unfold JobProcess.refresh
    rw [hf]
    dsimp only
    intro hkept
    split
    · exact hgoto trivial
    · exact JobStore.await_known_const hkept (hgoto trivial) (hgoto trivial)
  case unlisting now existing remaining =>
    revert hkept
    unfold JobProcess.refresh
    rw [hf]
    dsimp only
    intro hkept
    split
    · exact hnext
    · exact JobStore.await_known_const hkept (hgoto trivial) (hgoto trivial)
  case failing now remaining =>
    revert hkept
    unfold JobProcess.refresh
    rw [hf]
    dsimp only
    intro hkept
    split
    · exact hnext
    · exact JobStore.await_known_const hkept hnext (hgoto trivial)

/-- Only the request of a mint calls the orchestrator. -/
theorem JobProcess.act_label (p : JobProcess) (awaited : Awaited)
    (fetched : Option (List SourceRow)) (world : Store) {label : Step}
    (h : (p.act env context awaited fetched clock world s).label = some label) :
    ∃ occurrence profile after, p.frame = .requesting occurrence profile after ∧
      label = .request clock (jobRequest occurrence profile) := by
  have hawait : ∀ jobId occurrenceId change failed returned,
      (s.await awaited jobId occurrenceId change failed returned).label = none := by
    intro jobId occurrenceId change failed returned
    unfold JobStore.await
    dsimp only
    split
    · rfl
    · split <;> rfl
  have hreads : ∀ q, (p.reads awaited s q).label = none := by
    intro q
    cases awaited <;> rfl
  have hrefresh : (p.refresh env context awaited fetched s).label = none := by
    unfold JobProcess.refresh
    split
    · exact hreads _
    · split <;> rfl
    · split
      · rfl
      · exact hawait _ _ _ _ _
    · split
      · rfl
      · exact hawait _ _ _ _ _
    · split
      · rfl
      · exact hawait _ _ _ _ _
    · rfl
  unfold JobProcess.act at h
  cases hf : p.frame <;> rw [hf] at h <;> dsimp only at h
  case requesting occurrence profile after =>
    refine ⟨occurrence, profile, after, rfl, ?_⟩
    unfold JobProcess.request at h
    cases awaited with
    | throws message applied =>
      dsimp only at h
      split at h
      · exact (Option.some.inj h).symm
      · cases h
    | returns =>
      dsimp only at h
      split at h <;> exact (Option.some.inj h).symm
  case ended => cases h
  case slotting job => split at h <;> cases h
  case enabling | reserving | staging | legacyReleasing | settling =>
    rw [hawait] at h
    cases h
  case refreshing | fetching | publishing | unlisting | failing =>
    rw [hrefresh] at h
    cases h
  all_goals
    rw [hreads] at h
    cases h

end Known

/-! ### The whole system -/

section System

variable {env : JobsEnv} {w : JobsWorld} {a : JobAct} {J J' : JobOccurrence → Run → Prop}
variable {works : String → Option String}

/-- The store after an act keeps the flights, and its occurrences live on. -/
theorem JobsWorld.step_flights (h : w.store.Flights) :
    (w.step env a).store.Flights ∧ w.store.Continues (w.step env a).store := by
  rcases w.store_cases env a with ⟨-, hkept⟩ | ⟨_, _, _, _, _, -, hwrites, hstore⟩
  · rw [hkept]
    exact ⟨h, fun key occurrence hget => ⟨occurrence, hget, .refl _⟩⟩
  · rw [hstore]
    exact ⟨hwrites.flights h, fun key occurrence hget => hwrites.continues h hget⟩

theorem JobStore.Continues.trans {s s' s'' : JobStore} (h : s.Continues s') (h' : s'.Continues s'') :
    s.Continues s'' := by
  intro key occurrence hget
  obtain ⟨after, hafter, hc⟩ := h key occurrence hget
  obtain ⟨last, hlast, hc'⟩ := h' key after hafter
  refine ⟨last, hlast, hc'.jobId.trans hc.jobId, hc'.workId.trans hc.workId,
    hc'.skipped.trans hc.skipped, hc'.profile.trans hc.profile, fun hsome => ?_⟩
  have hsame := hc.reconciled hsome
  rw [hc'.reconciled (by rw [hsame]; exact hsome), hsame]

theorem JobsWorld.run_flights (h : w.store.Flights) (acts : List JobAct) :
    (w.run env acts).store.Flights ∧ w.store.Continues (w.run env acts).store := by
  refine Machine.invariant_run
    (fun v : JobsWorld => v.store.Flights ∧ w.store.Continues v.store) ?_
    ⟨h, fun key occurrence hget => ⟨occurrence, hget, .refl _⟩⟩ acts
  rintro v a ⟨hv, hcontinues⟩
  have hstep : (v.step env a).store.Flights ∧ v.store.Continues (v.step env a).store :=
    JobsWorld.step_flights hv
  exact ⟨hstep.1, hcontinues.trans hstep.2⟩

/-- The work ids that occurrences are stored under, and that nobody else asks for runs of. -/
structure JobsWorld.Allows (env : JobsEnv) (works : String → Option String) (w : JobsWorld)
    (a : JobAct) : Prop where
  stored : ∀ id occurrence, (w.step env a).store.occurrences.get id = some occurrence →
    works id = some occurrence.workId
  alone : ∀ label, a = .elsewhere label → ∀ id workId, works id = some workId →
    World.RecoversOnly (taskKey (.work workId)) w.world label

/-- An occurrence that may get a run is stored under the id. -/
def JobStore.Mintable (s : JobStore) (id : String) : Prop :=
  ∃ occurrence, s.occurrences.get id = some occurrence ∧ occurrence.skipped = false ∧
    occurrence.profile.credentials = none

/-- What holds of the orchestrator, the store of jobs and the processes together. -/
structure JobsWorld.Flown (works : String → Option String) (J : JobOccurrence → Run → Prop)
    (w : JobsWorld) : Prop where
  coherent : w.world.Coherent
  flights : w.store.Flights
  processes : ∀ pid p, w.processes.get pid = some p → p.Known w.store J
  recipes : ∀ id workId, works id = some workId →
    w.world.store.Recipe (taskKey (.work workId)) id
  untouched : ∀ id workId, works id = some workId → ¬w.store.Mintable id →
    w.world.store.tasks.get (taskKey (.work workId)) = none

theorem JobStore.Mintable.mono {s s' : JobStore} {id : String} (h : s.Mintable id)
    (hs : s.Continues s') : s'.Mintable id := by
  obtain ⟨occurrence, hget, hskipped, hplain⟩ := h
  obtain ⟨after, hafter, hcontinues⟩ := hs id occurrence hget
  exact ⟨after, hafter, hcontinues.skipped.trans hskipped,
    (congrArg JobProfile.credentials hcontinues.profile).trans hplain⟩

/-- Another act of a process leaves the orchestrator alone; the others step it. -/
theorem JobsWorld.Flown.world (h : w.Flown works J)
    (hinjective : ∀ i j workId, works i = some workId → works j = some workId → i = j)
    (ha : w.Allows env works a) :
    (w.step env a).world.Coherent ∧
      ∀ id workId, works id = some workId →
        (w.step env a).world.store.Recipe (taskKey (.work workId)) id ∧
        (¬(w.step env a).store.Mintable id →
          (w.step env a).world.store.tasks.get (taskKey (.work workId)) = none) := by
  have hcontinues : w.store.Continues (w.step env a).store := (JobsWorld.step_flights h.flights).2
  have hsame : (w.step env a).world = w.world → (w.step env a).world.Coherent ∧
      ∀ id workId, works id = some workId →
        (w.step env a).world.store.Recipe (taskKey (.work workId)) id ∧
        (¬(w.step env a).store.Mintable id →
          (w.step env a).world.store.tasks.get (taskKey (.work workId)) = none) := by
    intro hworld
    rw [hworld]
    exact ⟨h.coherent, fun id workId hid => ⟨h.recipes id workId hid, fun hnot =>
      h.untouched id workId hid fun hm => hnot (hm.mono hcontinues)⟩⟩
  -- a step that asks for no run of the task
  have hspared : ∀ label id workId, (w.step env a).world = w.world.step label →
      works id = some workId → World.RecoversOnly (taskKey (.work workId)) w.world label →
      (w.step env a).world.store.Recipe (taskKey (.work workId)) id ∧
        (¬(w.step env a).store.Mintable id →
          (w.step env a).world.store.tasks.get (taskKey (.work workId)) = none) := by
    intro label id workId hworld hid hspares
    rw [hworld]
    exact ⟨h.coherent.recipe hspares (h.recipes id workId hid), fun hnot =>
      h.coherent.task_none hspares.1
        (h.untouched id workId hid fun hm => hnot (hm.mono hcontinues))⟩
  cases a with
  | elsewhere label =>
    exact ⟨h.coherent.step label, fun id workId hid =>
      hspared label id workId rfl hid (ha.alone label rfl id workId hid)⟩
  | advance milliseconds => exact hsame rfl
  | crash pid => exact hsame rfl
  | start pid command =>
    refine hsame ?_
    show (JobsWorld.step env w (.start pid command)).world = w.world
    unfold JobsWorld.step
    dsimp only
    split <;> rfl
  | act pid context awaited fetched =>
    cases hp : w.processes.get pid with
    | none =>
      refine hsame ?_
      simp only [JobsWorld.step, JobsWorld.result, hp, Option.map_none]
    | some p =>
      have hworld : (w.step env (.act pid context awaited fetched)).world =
          ((p.act env context awaited fetched w.clock w.world.store w.store).label.map
            w.world.step).getD w.world := by
        simp only [JobsWorld.step, JobsWorld.result, hp, Option.map_some]
      cases hlabel : (p.act env context awaited fetched w.clock w.world.store w.store).label with
      | none =>
        rw [hlabel] at hworld
        exact hsame hworld
      | some label =>
        rw [hlabel] at hworld
        have hworld : (w.step env (.act pid context awaited fetched)).world = w.world.step label :=
          hworld
        obtain ⟨occurrence, profile, after, hframe, rfl⟩ := p.act_label awaited fetched _ hlabel
        have hknown := (h.processes pid p hp).frame
        rw [hframe] at hknown
        obtain ⟨hholds, hplain⟩ := hknown
        obtain ⟨saved, hsaved, hwork, hprofile, hskipped⟩ := hholds.stored
        -- the work of the occurrence is the one its id stands for
        have howned : works occurrence.id = some occurrence.workId := by
          obtain ⟨last, hlast, hcontinued⟩ := hcontinues _ saved hsaved
          rw [ha.stored _ last hlast, hcontinued.workId, hwork]
        have hmintable : (w.step env (.act pid context awaited fetched)).store.Mintable
            occurrence.id :=
          JobStore.Mintable.mono ⟨saved, hsaved, hskipped, by rw [hprofile, hplain]⟩ hcontinues
        refine ⟨hworld ▸ h.coherent.step _, fun id workId hid => ?_⟩
        by_cases hown : id = occurrence.id
        · subst hown
          obtain rfl : occurrence.workId = workId := Option.some.inj (howned.symm.trans hid)
          refine ⟨?_, fun hnot => absurd hmintable hnot⟩
          rw [hworld]
          exact request_recipe h.coherent.store
            ⟨rfl, rfl, rfl, rfl, ⟨rfl, rfl⟩, rfl, rfl, rfl, rfl⟩ (h.recipes _ _ howned)
        · refine hspared _ id workId hworld hid (h.coherent.request_other fun hk => hown ?_)
          have hwork : occurrence.workId = workId := (String.append_right_inj "work:").1 hk
          exact hinjective _ _ workId hid (hwork ▸ howned)

/-- What processes know after an act. -/
theorem JobsWorld.Flown.known (h : w.Flown works J)
    (hJ : ∀ occurrence run, J occurrence run → J' occurrence run)
    (hjudged : ∀ occurrence run, JudgedBy w.world.store w.clock occurrence run → J' occurrence run)
    {pid : Nat} {p : JobProcess} (hp : (w.step env a).processes.get pid = some p) :
    p.Known (w.step env a).store J' := by
  have hcontinues : w.store.Continues (w.step env a).store := (JobsWorld.step_flights h.flights).2
  have hkept : w.processes.get pid = some p → p.Known (w.step env a).store J' := fun hget =>
    (h.processes pid p hget).mono hcontinues hJ
  have hidle : ∀ {frame : JobFrame}, (∀ s, frame.Known s J') →
      JobProcess.Known (w.step env a).store J' { frame } := fun hframe =>
    ⟨hframe _, fun job hjob => by cases hjob⟩
  cases a with
  | elsewhere label => exact hkept hp
  | advance milliseconds => exact hkept hp
  | crash id =>
    have hp : (w.processes.set id { frame := .ended }).get pid = some p := hp
    rw [OrderedMap.get_set] at hp
    split_ifs at hp with hid
    · cases hp
      exact hidle fun _ => trivial
    · exact hkept hp
  | start id command =>
    unfold JobsWorld.step at hp
    dsimp only at hp
    split at hp
    · dsimp only at hp
      rw [OrderedMap.get_set] at hp
      split_ifs at hp with hid
      · cases hp
        cases command with
        | enable | stage | tick | refresh => exact hidle fun _ => trivial
        | invoke call =>
          unfold JobCommand.process
          dsimp only
          split <;> exact hidle fun _ => trivial
        | admitManual call =>
          unfold JobCommand.process
          dsimp only
          split
          · exact JobProcess.Known.admit (p := { frame := .ended }) (hidle fun _ => trivial) _ _
          · exact hidle fun _ => trivial
      · exact hkept hp
    · exact hkept hp
  | act id context awaited fetched =>
    cases hget : w.processes.get id with
    | none =>
      have hsame : w.step env (.act id context awaited fetched) = w := by
        simp only [JobsWorld.step, JobsWorld.result, hget, Option.map_none]
      rw [hsame] at hp
      exact hkept hp
    | some q =>
      have hnext : (w.step env (.act id context awaited fetched)).processes = w.processes.set id
            (q.act env context awaited fetched w.clock w.world.store w.store).process ∧
          (w.step env (.act id context awaited fetched)).store =
            (q.act env context awaited fetched w.clock w.world.store w.store).store := by
        simp only [JobsWorld.step, JobsWorld.result, hget, Option.map_some, and_self]
      rw [hnext.1, OrderedMap.get_set] at hp
      split_ifs at hp with hid
      · cases hp
        rw [hnext.2]
        exact JobProcess.Known.act ((h.processes id q hget).mono
          (fun key occurrence hkey => ⟨occurrence, hkey, .refl _⟩) hJ) h.flights awaited fetched
          hjudged
      · exact hkept hp

/-- Every act that asks for no run of another's work keeps all of it. -/
theorem JobsWorld.Flown.step (h : w.Flown works J)
    (hinjective : ∀ i j workId, works i = some workId → works j = some workId → i = j)
    (ha : w.Allows env works a) (hJ : ∀ occurrence run, J occurrence run → J' occurrence run)
    (hjudged : ∀ occurrence run, JudgedBy w.world.store w.clock occurrence run → J' occurrence run) :
    (w.step env a).Flown works J' where
  coherent := (h.world hinjective ha).1
  flights := (JobsWorld.step_flights h.flights).1
  processes := fun _ _ hp => h.known hJ hjudged hp
  recipes := fun id workId hid => ((h.world hinjective ha).2 id workId hid).1
  untouched := fun id workId hid => ((h.world hinjective ha).2 id workId hid).2

theorem JobsWorld.flown_init : JobsWorld.init.Flown works J where
  coherent := World.coherent_init
  flights := JobStore.flights_empty
  processes := fun _ _ h => by cases h
  recipes := fun _ _ _ => .of_task_none Store.coherent_empty rfl
  untouched := fun _ _ _ _ => rfl

/-- The occurrence was judged by the run at some moment of the acts. -/
def JobsWorld.Judged (env : JobsEnv) (acts : List JobAct) (occurrence : JobOccurrence) (run : Run) :
    Prop :=
  ∃ first rest, acts = first ++ rest ∧ JudgedBy (JobsWorld.init.run env first).world.store
    (JobsWorld.init.run env first).clock occurrence run

/-- Nobody else asks for runs of the work of an occurrence: no two occurrences share a work id, and
what happens elsewhere neither requests nor corrects on one. -/
structure JobsWorld.Alone (env : JobsEnv) (acts : List JobAct) : Prop where
  works : ∀ i j occurrence other,
    (JobsWorld.init.run env acts).store.occurrences.get i = some occurrence →
    (JobsWorld.init.run env acts).store.occurrences.get j = some other →
    occurrence.workId = other.workId → i = j
  elsewhere : ∀ first label rest, acts = first ++ .elsewhere label :: rest → ∀ id occurrence,
    (JobsWorld.init.run env acts).store.occurrences.get id = some occurrence →
    World.RecoversOnly (taskKey (.work occurrence.workId)) (JobsWorld.init.run env first).world label

/-- The work ids of the occurrences that a run leaves. -/
def JobsWorld.worksOf (env : JobsEnv) (acts : List JobAct) (id : String) : Option String :=
  ((JobsWorld.init.run env acts).store.occurrences.get id).map (·.workId)

theorem JobsWorld.run_prefix (first rest : List JobAct) :
    JobsWorld.init.run env (first ++ rest) = (JobsWorld.init.run env first).run env rest :=
  Machine.run_append _ _ _ _

/-- An occurrence of any moment keeps its work id to the end. -/
theorem JobsWorld.worksOf_eq {acts first rest : List JobAct} (hacts : acts = first ++ rest)
    {id : String} {occurrence : JobOccurrence}
    (hget : (JobsWorld.init.run env first).store.occurrences.get id = some occurrence) :
    JobsWorld.worksOf env acts id = some occurrence.workId := by
  have hflights : (JobsWorld.init.run env first).store.Flights :=
    (JobsWorld.run_flights JobStore.flights_empty _).1
  obtain ⟨last, hlast, hcontinues⟩ := (JobsWorld.run_flights hflights rest).2 id occurrence hget
  rw [← JobsWorld.run_prefix, ← hacts] at hlast
  unfold JobsWorld.worksOf
  rw [hlast, Option.map_some, hcontinues.workId]

/-- Everything holds at every moment of a run in which nobody else asks. -/
theorem JobsWorld.Alone.flown {acts : List JobAct} (h : JobsWorld.Alone env acts)
    {first rest : List JobAct} (hacts : acts = first ++ rest) :
    (JobsWorld.init.run env first).Flown (JobsWorld.worksOf env acts)
      (JobsWorld.Judged env first) := by
  have hinjective : ∀ i j workId, JobsWorld.worksOf env acts i = some workId →
      JobsWorld.worksOf env acts j = some workId → i = j := by
    intro i j workId hi hj
    obtain ⟨occurrence, hget, hwork⟩ := Option.map_eq_some_iff.1 hi
    obtain ⟨other, hget', hwork'⟩ := Option.map_eq_some_iff.1 hj
    exact h.works i j occurrence other hget hget' (hwork.trans hwork'.symm)
  induction first using List.reverseRecOn generalizing rest with
  | nil => exact JobsWorld.flown_init
  | append_singleton first a ih =>
    have hflown := @ih (a :: rest) (by rw [hacts, List.append_assoc]; rfl)
    have hstep : JobsWorld.init.run env (first ++ [a]) = (JobsWorld.init.run env first).step env a :=
      Machine.run_append _ _ _ _
    have hallows : (JobsWorld.init.run env first).Allows env (JobsWorld.worksOf env acts) a := by
      refine ⟨fun id occurrence hget => ?_, fun label hlabel id workId hid => ?_⟩
      · rw [← hstep] at hget
        exact JobsWorld.worksOf_eq hacts hget
      · obtain ⟨occurrence, hget, rfl⟩ := Option.map_eq_some_iff.1 hid
        refine h.elsewhere first label rest ?_ id occurrence hget
        rw [hacts, hlabel, List.append_assoc]
        rfl
    rw [hstep]
    refine hflown.step hinjective hallows ?_ fun occurrence run hjudged =>
      ⟨first, [a], rfl, hjudged⟩
    rintro occurrence run ⟨before, after, rfl, hjudged⟩
    exact ⟨before, after ++ [a], by rw [List.append_assoc], hjudged⟩

/-- An act steps the orchestrator at most once. -/
theorem JobsWorld.step_world (env : JobsEnv) (w : JobsWorld) (a : JobAct) :
    (w.step env a).world = w.world ∨ ∃ label, (w.step env a).world = w.world.step label := by
  cases a with
  | elsewhere label => exact .inr ⟨label, rfl⟩
  | advance milliseconds => exact .inl rfl
  | crash pid => exact .inl rfl
  | start pid command =>
    refine .inl ?_
    unfold JobsWorld.step
    dsimp only
    split <;> rfl
  | act pid context awaited fetched =>
    cases hp : w.processes.get pid with
    | none => exact .inl (by simp only [JobsWorld.step, JobsWorld.result, hp, Option.map_none])
    | some p =>
      simp only [JobsWorld.step, JobsWorld.result, hp, Option.map_some]
      cases (p.act env context awaited fetched w.clock w.world.store w.store).label with
      | none => exact .inl rfl
      | some label => exact .inr ⟨label, rfl⟩

/-- A run that has settled stays the settled run that it is. -/
theorem JobsWorld.run_settled (hw : w.world.Coherent) {run : Run}
    (hget : w.world.store.runs.get run.runId = some run) (hterminal : isLive run.state = false)
    (acts : List JobAct) :
    ∃ last, (w.run env acts).world.store.runs.get run.runId = some last ∧
      last.frozen = run.frozen ∧ isLive last.state = false := by
  refine (Machine.invariant_run (fun v : JobsWorld => v.world.Coherent ∧
    ∃ last, v.world.store.runs.get run.runId = some last ∧ last.frozen = run.frozen ∧
      isLive last.state = false) ?_ ⟨hw, run, hget, rfl, hterminal⟩ acts).2
  rintro v a ⟨hv, last, hlast, hfrozen, hdead⟩
  rcases JobsWorld.step_world env v a with hsame | ⟨label, hstep⟩
  · rw [hsame]
    exact ⟨hv, last, hlast, hfrozen, hdead⟩
  · rw [hstep]
    obtain ⟨now, next, hnext, hmove⟩ := (hv.change label).run_moves hv.store hlast
    exact ⟨hv.step label, next, hnext, hmove.frozen.trans hfrozen,
      by rw [(hmove.terminal hdead).1]; exact hdead⟩

/-- How the occurrence that a job awaited after the acts could be given up. -/
inductive JobsWorld.GivenUp (env : JobsEnv) (acts : List JobAct) (id : String) : Prop where
  /-- By its one run, which was listed terminal and unclaimed, retired or untouched for long. -/
  | settled (occurrence : JobOccurrence) (run last : Run) (before after : List JobAct)
      (hget : (JobsWorld.init.run env acts).store.occurrences.get id = some occurrence)
      (hacts : acts = before ++ after)
      (hjudged : JudgedBy (JobsWorld.init.run env before).world.store
        (JobsWorld.init.run env before).clock occurrence run)
      (hlisted : (JobsWorld.init.run env acts).world.store.listRuns (.work occurrence.workId) =
        [last])
      (hsame : last.runId = run.runId) (hterminal : isLive last.state = false)
  /-- As a reservation of an older deployment, which has no run. -/
  | legacy (occurrence : JobOccurrence)
      (hget : (JobsWorld.init.run env acts).store.occurrences.get id = some occurrence)
      (hlegacy : occurrence.profile.credentials.isSome = true)
      (hnone : (JobsWorld.init.run env acts).world.store.listRuns (.work occurrence.workId) = [])

/-- What a frame awaited is given up by the run it was judged by, or as a legacy. -/
theorem JobsWorld.Alone.givenUp {acts first rest : List JobAct} (h : JobsWorld.Alone env acts)
    (hacts : acts = first ++ rest) {pid : Nat} {p : JobProcess} {job : CatalogJob}
    {occurrence saved : JobOccurrence}
    (hp : (JobsWorld.init.run env first).processes.get pid = some p)
    (hsaved : (JobsWorld.init.run env first).store.occurrences.get occurrence.id = some saved)
    (hframe : p.frame = .legacyReleasing job occurrence ∨
      ∃ run, p.frame = .settling job occurrence run) :
    JobsWorld.GivenUp env first occurrence.id := by
  have hflown := h.flown hacts
  have hworks := JobsWorld.worksOf_eq hacts hsaved
  have hknown := (hflown.processes pid p hp).frame
  rcases hframe with hframe | ⟨run, hframe⟩ <;> rw [hframe] at hknown
  · obtain ⟨hholds, hlegacy⟩ := hknown
    obtain ⟨saved', hsaved', -, hprofile, -⟩ := hholds.stored
    rw [hsaved] at hsaved'
    cases hsaved'
    rw [← hprofile] at hlegacy
    refine .legacy saved hsaved hlegacy (List.filter_eq_nil_iff.2 fun run hrun => ?_)
    have hnone := hflown.untouched _ _ hworks fun ⟨other, hother, _, hplain⟩ => by
      rw [hsaved] at hother
      cases hother
      rw [hplain] at hlegacy
      cases hlegacy
    obtain ⟨id, hid⟩ := (OrderedMap.mem_values_iff _ run).1 hrun
    simpa using hflown.coherent.store.runs_none hnone hid
  · obtain ⟨hholds, before, after, hbefore, hjudged⟩ := hknown
    obtain ⟨saved', hsaved', hwork, -, -⟩ := hholds.stored
    rw [hsaved] at hsaved'
    cases hsaved'
    have hearlier : (JobsWorld.init.run env before).Flown (JobsWorld.worksOf env acts)
        (JobsWorld.Judged env before) :=
      h.flown (hacts.trans (by rw [hbefore, List.append_assoc]))
    -- the run was stored when it was listed, and still is
    have hlisted : run ∈ (JobsWorld.init.run env before).world.store.listRuns
        (.work occurrence.workId) := by
      rw [hjudged.listed]
      exact List.mem_singleton_self _
    obtain ⟨hvalue, hkey⟩ := List.mem_filter.1 hlisted
    obtain ⟨id, hid⟩ := (OrderedMap.mem_values_iff _ run).1 hvalue
    rw [← hearlier.coherent.store.runKeyed hid] at hid
    obtain ⟨last, hlast, hfrozen, hdead⟩ :=
      JobsWorld.run_settled hearlier.coherent hid hjudged.terminal after
    rw [← JobsWorld.run_prefix, ← hbefore] at hlast
    refine .settled saved run last before after hsaved hbefore
      ⟨by rw [hwork]; exact hjudged.listed, hjudged.terminal, hjudged.retired⟩ ?_
      (runId_of_frozen hfrozen) hdead
    refine (hflown.recipes _ _ hworks).listRuns hflown.coherent.store rfl hlast ?_
    rw [task_of_frozen hfrozen, hwork]
    simpa using hkey

/-- What a run of repository jobs comes to. -/
structure JobsWorld.SingleFlight (env : JobsEnv) (acts : List JobAct) : Prop where
  /-- An occurrence that is neither skipped nor reconciled is the one its job awaits. -/
  awaited : ∀ id occurrence,
    (JobsWorld.init.run env acts).store.occurrences.get id = some occurrence → occurrence.Open →
    ∃ job, (JobsWorld.init.run env acts).store.jobs.get occurrence.jobId = some job ∧
      job.active = some id
  /-- What a job awaits is such an occurrence. -/
  active : ∀ j job id, (JobsWorld.init.run env acts).store.jobs.get j = some job →
    job.active = some id →
    ∃ occurrence, (JobsWorld.init.run env acts).store.occurrences.get id = some occurrence ∧
      occurrence.jobId = j ∧ occurrence.Open
  /-- A job stops to await an occurrence only when it is given up. -/
  cleared : ∀ first a rest j job id, acts = first ++ a :: rest →
    (JobsWorld.init.run env first).store.jobs.get j = some job → job.active = some id →
    (∀ job', (JobsWorld.init.run env (first ++ [a])).store.jobs.get j = some job' →
      job'.active ≠ some id) → JobsWorld.GivenUp env first id
  /-- Enables, disables and refreshes do not change what a job awaits. -/
  catalog : ∀ first a rest frame context, acts = first ++ a :: rest →
    (JobsWorld.init.run env first).applied env a = some (frame, context) →
    frame.isCatalog = true → ∀ j,
    ((JobsWorld.init.run env (first ++ [a])).store.jobs.get j).bind (·.active) =
      ((JobsWorld.init.run env first).store.jobs.get j).bind (·.active)
  /-- A skipped occurrence has no task. -/
  skipped : ∀ id occurrence,
    (JobsWorld.init.run env acts).store.occurrences.get id = some occurrence →
    occurrence.skipped = true →
    (JobsWorld.init.run env acts).world.store.tasks.get (taskKey (.work occurrence.workId)) = none
  /-- An occurrence has at most one run. -/
  once : ∀ id occurrence,
    (JobsWorld.init.run env acts).store.occurrences.get id = some occurrence →
    ((JobsWorld.init.run env acts).world.store.listRuns (.work occurrence.workId)).length ≤ 1
  /-- A baseline is a reconciled success of its job. -/
  baseline : ∀ j job b, (JobsWorld.init.run env acts).store.jobs.get j = some job →
    job.baseline = some b →
    ∃ occurrence, (JobsWorld.init.run env acts).store.occurrences.get b.occurrence =
        some occurrence ∧ occurrence.jobId = j ∧ occurrence.reconciledAt.isSome = true ∧
      occurrence.successful = some true ∧ occurrence.comparison = b.comparison

/-- In a run in which nobody else asks for runs of their work, jobs are single flight. -/
theorem JobsWorld.single_flight (env : JobsEnv) (acts : List JobAct)
    (h : JobsWorld.Alone env acts) : JobsWorld.SingleFlight env acts := by
  have hflights : (JobsWorld.init.run env acts).store.Flights :=
    (JobsWorld.run_flights JobStore.flights_empty _).1
  have hflown := h.flown (List.append_nil acts).symm
  have hworks : ∀ {id occurrence},
      (JobsWorld.init.run env acts).store.occurrences.get id = some occurrence →
      JobsWorld.worksOf env acts id = some occurrence.workId := fun hget =>
    JobsWorld.worksOf_eq (List.append_nil acts).symm hget
  have hstep : ∀ first a, JobsWorld.init.run env (first ++ [a]) =
      (JobsWorld.init.run env first).step env a := fun first a => Machine.run_append _ _ _ _
  refine ⟨hflights.awaited, hflights.active, ?_, ?_, ?_, ?_, hflights.baseline⟩
  · intro first a rest j job id hacts hjob hactive hgone
    rw [hstep] at hgone
    rcases (JobsWorld.init.run env first).store_cases env a with ⟨-, hkept⟩ |
      ⟨frame, context, jobId, occurrenceId, write, happlied, hwrites, hstore⟩
    · rw [hkept] at hgone
      exact absurd hactive (hgone job hjob)
    · rw [hstore] at hgone
      obtain ⟨pid, _, _, p, _, _, -, hp, hframe, -⟩ := JobsWorld.applied_eq_some happlied
      rcases JobStore.write_job (JobsWorld.init.run env first).store jobId j occurrenceId write with
        hsame | ⟨rfl, job', hwrite, hget⟩
      · exact absurd hactive (hgone job (hsame.trans hjob))
      · have hleft := hgone job' hget
        by_cases hcatalog : frame.isCatalog = true
        · refine absurd ?_ hleft
          rw [((hwrites.keepsActive hcatalog).job job' hwrite).1, hjob]
          exact hactive
        · cases hwrites with
          | replay | stage | nothing => cases hwrite
          | reserve hreservable hoccurrence =>
            have hfound := hreservable.found
            rw [hjob] at hfound
            cases hfound
            cases hwrite
            refine absurd ?_ hleft
            rw [hoccurrence]
            simp only [CatalogJob.admitted, reservedOccurrence, hactive, Option.isSome_some,
              if_true]
          | release hfound hsaved hawaits =>
            rw [hjob] at hfound
            cases hfound
            rw [hactive] at hawaits
            cases hawaits
            exact h.givenUp hacts hp hsaved (.inl hframe)
          | settle hfound hsaved hawaits =>
            rw [hjob] at hfound
            cases hfound
            rw [hactive] at hawaits
            cases hawaits
            exact h.givenUp hacts hp hsaved (.inr ⟨_, hframe⟩)
          | _ => exact absurd rfl hcatalog
  · intro first a rest frame context hacts happlied hcatalog j
    rw [hstep]
    rcases (JobsWorld.init.run env first).store_cases env a with ⟨-, hkept⟩ |
      ⟨frame', context', jobId, occurrenceId, write, happlied', hwrites, hstore⟩
    · rw [hkept]
    · rw [happlied] at happlied'
      cases happlied'
      rw [hstore]
      rcases JobStore.write_job (JobsWorld.init.run env first).store jobId j occurrenceId write with
        hsame | ⟨rfl, job', hwrite, hget⟩
      · rw [hsame]
      · rw [hget]
        exact ((hwrites.keepsActive hcatalog).job job' hwrite).1
  · intro id occurrence hget hskipped
    refine hflown.untouched id _ (hworks hget) fun ⟨other, hother, hadmitted, _⟩ => ?_
    rw [hget] at hother
    cases hother
    rw [hskipped] at hadmitted
    cases hadmitted
  · intro id occurrence hget
    have hrecipe := hflown.recipes id _ (hworks hget)
    cases hlist : (JobsWorld.init.run env acts).world.store.listRuns (.work occurrence.workId) with
    | nil => exact Nat.zero_le _
    | cons run rest =>
      have hmem : run ∈ (JobsWorld.init.run env acts).world.store.listRuns
          (.work occurrence.workId) := by
        rw [hlist]
        exact List.mem_cons_self
      obtain ⟨hvalue, hkey⟩ := List.mem_filter.1 hmem
      obtain ⟨i, hi⟩ := (OrderedMap.mem_values_iff _ run).1 hvalue
      rw [← hlist, hrecipe.listRuns hflown.coherent.store rfl hi (by simpa using hkey)]
      exact Nat.le_refl 1

end System

namespace JobSample

/-- The occurrence is minted, its run is cancelled and the next tick reconciles it. -/
def reconciled : List JobAct :=
  admitted ++ [act 4, act 4, act 4,
    .elsewhere (.onRun "work:00000095Y83333333333333333/r1" 302000 "c" (.cancel none none none)),
    .advance 2000, .start 5 .tick, act 5, act 5, act 5, act 5, act 5]

/-- What happens elsewhere leaves the task alone. -/
def sparing (k : String) (w : JobsWorld) : JobAct → Bool
  | .elsewhere label => label.requestedKey ≠ some k && !w.world.corrects k label
  | _ => true

/-- Nobody else asks for runs in a run with one occurrence whose work is left alone. -/
theorem alone_of_sparing {acts : List JobAct} (id workId : String)
    (hone : (JobsWorld.init.run env acts).store.occurrences.values.map
      (fun occurrence => (occurrence.id, occurrence.workId)) = [(id, workId)])
    (halone : Machine.Along (JobsWorld.step env)
      (fun w a => sparing (taskKey (.work workId)) w a = true) .init acts) :
    JobsWorld.Alone env acts := by
  have hflights : (JobsWorld.init.run env acts).store.Flights :=
    (JobsWorld.run_flights JobStore.flights_empty _).1
  have hstored : ∀ i occurrence, (JobsWorld.init.run env acts).store.occurrences.get i =
      some occurrence → i = id ∧ occurrence.workId = workId := by
    intro i occurrence hget
    have hmem := List.mem_map_of_mem (f := fun occurrence => (occurrence.id, occurrence.workId))
      ((OrderedMap.mem_values_iff _ occurrence).2 ⟨i, hget⟩)
    rw [hone, hflights.keyed i occurrence hget] at hmem
    simpa using hmem
  refine ⟨fun i j occurrence other hi hj _ =>
    (hstored i occurrence hi).1.trans (hstored j other hj).1.symm, ?_⟩
  intro first label rest hacts i occurrence hget
  have hlabel := Machine.along_iff.1 halone first _ rest hacts
  rw [(hstored i occurrence hget).2]
  unfold sparing at hlabel
  simpa only [World.RecoversOnly, JobsWorld.run, Bool.and_eq_true, decide_eq_true_eq,
    Bool.not_eq_true'] using hlabel

end JobSample

/-- A job that is reconciled after its run was cancelled awaits nothing. -/
theorem JobsWorld.single_flight_reconciled :
    JobsWorld.SingleFlight JobSample.env JobSample.reconciled ∧
      ((JobsWorld.init.run JobSample.env JobSample.reconciled).store.jobs.get "o/r/nightly").map
        (·.active) = some none := by
  refine ⟨JobsWorld.single_flight _ _ (JobSample.alone_of_sparing
    "o/r/nightly/alice/schedule/1970-01-01T00:05:00.000Z" "00000095Y83333333333333333" ?_ ?_), ?_⟩
  · decide +kernel
  · decide +kernel
  · decide +kernel

end AgentLcars
