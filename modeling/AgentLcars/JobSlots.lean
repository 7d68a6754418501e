import AgentLcars.JobWrites

/-!
# One occurrence for a slot

The id of a scheduled occurrence holds the principal that the job was enabled by, and a slot is
eligible while it lies after the activation floor.

* `JobsWorld.slotAdmitted`: the occurrences that a run creates for slots;
* `JobsWorld.InTime`: an activation has no admitted slot of another principal after its floor, and a
  tick admits for the principal that the job still records;
* `JobStore.Writes.covers`: what keeps an admitted slot from being admitted again;
* `JobsWorld.slots_once`: in runs in time no slot of a job has two occurrences.
-/

namespace AgentLcars

/-! ### Admitted slots -/

/-- An occurrence that was created for a slot. -/
structure SlotAdmission where
  jobId : String
  slot : Time
  principal : String
  deriving DecidableEq, Repr

/-- The id of the occurrence that a slot has under a principal. -/
def JobsEnv.scheduledId (env : JobsEnv) (id principal : String) (slot : Time) : String :=
  env.jobDigest (.arr [.str id, .str principal, .str "schedule", .str (toISOString slot)])

/-- The occurrence that an act creates for a slot. -/
def JobsWorld.slotAdmitted (env : JobsEnv) (w : JobsWorld) (a : JobAct) : Option SlotAdmission :=
  match w.applied env a with
  | some (.reserving call _, _) =>
    match call.request with
    | .schedule slot =>
      if (w.store.occurrences.get (call.occurrenceId env)).isNone then
        some { jobId := call.id, slot, principal := call.principal }
      else none
    | .manual _ => none
  | _ => none

/-- The occurrences that a run creates for slots. -/
def JobsWorld.slots (env : JobsEnv) (w : JobsWorld) (acts : List JobAct) : List SlotAdmission :=
  Machine.events (JobsWorld.step env) (JobsWorld.slotAdmitted env) w acts

/-- The principal and the floor that a frame records for a job. -/
def JobFrame.activation (context : JobsContext) (s : JobStore) :
    JobFrame → Option (String × String × Time)
  | .enabling id _ principal true at_ => some (id, principal, at_)
  | .publishing now _ _ (row :: _) =>
    (activatedBy context (s.jobs.get row.id) row).map fun principal => (row.id, principal, now)
  | _ => none

/-- No slot after the floor of an activation was admitted under another principal, and a slot is
admitted for the principal that the job records. -/
structure JobsWorld.InTime (env : JobsEnv) (w : JobsWorld) (a : JobAct) : Prop where
  activation : ∀ frame context id principal floor, w.applied env a = some (frame, context) →
    frame.activation context w.store = some (id, principal, floor) → ∀ other slot, floor < slot →
    (w.store.occurrences.get (env.scheduledId id other slot)).isSome = true → other = principal
  admission : ∀ call at_ context slot job, w.applied env a = some (.reserving call at_, context) →
    call.request = .schedule slot → w.store.jobs.get call.id = some job →
    job.enabledBy = some call.principal

/-- A slot of the job is not admitted again: its own principal stands, or it is not after the
floor. -/
def CatalogJob.Covers (job : CatalogJob) (e : SlotAdmission) : Prop :=
  job.enabledBy = some e.principal ∨ ∃ floor, job.activationFloor = some floor ∧ e.slot ≤ floor

section Writes

variable {env : JobsEnv} {context : JobsContext} {clock : Time} {s : JobStore} {frame : JobFrame}
variable {jobId : String} {occurrenceId : Option String} {write : JobWrite} {job : CatalogJob}

theorem publishedJob_covers {e : SlotAdmission} {row : CatalogRow} {now : Time}
    (hcovers : job.Covers e)
    (hactivation : ∀ principal, activatedBy context (some job) row = some principal →
      now < e.slot → e.principal = principal) :
    (publishedJob context row now (some job)).Covers e := by
  unfold CatalogJob.Covers publishedJob
  cases hactivated : activatedBy context (some job) row with
  | none => exact hcovers
  | some principal =>
    rcases Int.lt_or_le now e.slot with hlt | hle
    · exact .inl (congrArg some (hactivation principal hactivated hlt).symm)
    · exact .inr ⟨now, rfl, hle⟩

/-- Every write keeps an admitted slot covered, if its activation does not reach back to it. -/
theorem JobStore.Writes.covers (h : s.Writes env context clock frame jobId occurrenceId write)
    {e : SlotAdmission} (hjob : s.jobs.get e.jobId = some job) (hcovers : job.Covers e)
    (hactivation : ∀ principal floor, frame.activation context s = some (e.jobId, principal, floor) →
      floor < e.slot → e.principal = principal) :
    ∃ job', (s.write jobId occurrenceId write).jobs.get e.jobId = some job' ∧ job'.Covers e := by
  rcases s.write_job jobId e.jobId occurrenceId write with hkept | ⟨hid, job', hwrite, hget⟩
  · exact ⟨job, hkept.trans hjob, hcovers⟩
  · refine ⟨job', hget, ?_⟩
    rw [hid] at hjob hactivation
    cases h with
    | replay | stage | nothing => cases hwrite
    | @enable id digest principal at_ =>
      cases hwrite
      rcases Int.lt_or_le at_ e.slot with hlt | hle
      · exact .inl (congrArg some (hactivation principal at_ rfl hlt).symm)
      · exact .inr ⟨at_, rfl, hle⟩
    | disable hfound | release hfound | settle hfound | remove hfound | fail hfound =>
      rw [hjob] at hfound
      cases hfound
      cases hwrite
      exact hcovers
    | reserve hreservable =>
      have hfound := hreservable.found
      rw [hjob] at hfound
      cases hfound
      cases hwrite
      exact hcovers
    | publish =>
      cases hwrite
      rw [hjob]
      refine publishedJob_covers hcovers fun principal hactivated hlt => ?_
      refine hactivation principal _ ?_ hlt
      show (activatedBy context (s.jobs.get _) _).map _ = _
      rw [hjob, hactivated]
      rfl

end Writes

/-! ### Runs -/

section Runs

variable {env : JobsEnv} {w : JobsWorld} {a : JobAct}

/-- The occurrence of a slot is reserved. -/
theorem JobsWorld.slotAdmitted_some {e : SlotAdmission} (h : w.slotAdmitted env a = some e) :
    ∃ call at_ context job definition profile occurrence,
      w.applied env a = some (.reserving call at_, context) ∧ call.request = .schedule e.slot ∧
      call.id = e.jobId ∧ call.principal = e.principal ∧
      Reservable env context w.store call at_ job definition profile ∧
      (w.step env a).store = w.store.write call.id (some (call.occurrenceId env))
        { job := some (job.admitted occurrence), occurrence := some occurrence } := by
  unfold slotAdmitted at h
  split at h
  · rename_i call at_ context happlied
    split at h
    · rename_i slot hrequest
      split at h
      · rename_i hnew
        cases h
        rcases w.store_cases env a with ⟨hnone, -⟩ |
          ⟨frame, context', jobId, occurrenceId, write, happlied', hwrites, hstore⟩
        · rw [hnone] at happlied
          cases happlied
        · rw [happlied] at happlied'
          cases happlied'
          cases hwrites with
          | replay hexisting =>
            rw [hexisting] at hnew
            cases hnew
          | reserve hreservable =>
            exact ⟨call, at_, context, _, _, _, _, happlied, hrequest, rfl, rfl, hreservable, hstore⟩
          | nothing hkeeps => cases hkeeps
      · cases h
    · cases h
  · cases h

/-- The id of a scheduled occurrence. -/
theorem AdmitCall.occurrenceId_schedule {call : AdmitCall} {slot : Time}
    (h : call.request = .schedule slot) :
    call.occurrenceId env = env.scheduledId call.id call.principal slot := by
  unfold JobsEnv.scheduledId AdmitCall.occurrenceId
  rw [h]
  rfl

/-- An occurrence is never removed. -/
theorem JobsWorld.step_occurrence {key : String}
    (h : (w.store.occurrences.get key).isSome = true) :
    ((w.step env a).store.occurrences.get key).isSome = true := by
  rcases w.store_cases env a with ⟨-, hkept⟩ | ⟨_, _, jobId, occurrenceId, write, -, -, hstore⟩
  · rw [hkept]
    exact h
  · rw [hstore]
    rcases w.store.write_occurrence jobId key occurrenceId write with hkept | ⟨-, _, -, hget⟩
    · rw [hkept]
      exact h
    · rw [hget]
      rfl

/-- What is known of an admitted slot. -/
structure JobStore.Admitted (env : JobsEnv) (s : JobStore) (e : SlotAdmission) : Prop where
  stored : (s.occurrences.get (env.scheduledId e.jobId e.principal e.slot)).isSome = true
  covered : ∃ job, s.jobs.get e.jobId = some job ∧ job.Covers e

theorem JobsWorld.step_admitted {e : SlotAdmission} (h : w.store.Admitted env e)
    (ha : w.InTime env a) : (w.step env a).store.Admitted env e := by
  refine ⟨JobsWorld.step_occurrence h.stored, ?_⟩
  obtain ⟨job, hjob, hcovers⟩ := h.covered
  rcases w.store_cases env a with ⟨-, hkept⟩ |
    ⟨frame, context, jobId, occurrenceId, write, happlied, hwrites, hstore⟩
  · rw [hkept]
    exact ⟨job, hjob, hcovers⟩
  · rw [hstore]
    exact hwrites.covers hjob hcovers fun principal floor hactivation hlt =>
      ha.activation frame context e.jobId principal floor happlied hactivation e.principal e.slot hlt
        h.stored

/-- A slot that an act admits is known from then on. -/
theorem JobsWorld.slotAdmitted_admitted {e : SlotAdmission} (h : w.slotAdmitted env a = some e)
    (ha : w.InTime env a) : (w.step env a).store.Admitted env e := by
  obtain ⟨call, at_, context, job, definition, profile, occurrence, happlied, hrequest, hid,
    hprincipal, hreservable, hstore⟩ := JobsWorld.slotAdmitted_some h
  have henabledBy := ha.admission call at_ context e.slot job happlied hrequest hreservable.found
  have hkey : call.occurrenceId env = env.scheduledId e.jobId e.principal e.slot := by
    rw [AdmitCall.occurrenceId_schedule hrequest, hid, hprincipal]
  rw [hstore]
  refine ⟨?_, job.admitted occurrence, ?_, .inl ?_⟩
  · show ((w.store.occurrences.set (call.occurrenceId env) occurrence).get _).isSome = true
    rw [hkey, OrderedMap.get_set_self]
    rfl
  · show (w.store.jobs.set call.id _).get _ = _
    rw [hid, OrderedMap.get_set_self]
  · show job.enabledBy = _
    rw [henabledBy, hprincipal]

/-- A slot that was admitted is not admitted again. -/
theorem JobsWorld.slotAdmitted_fresh {e e' : SlotAdmission} (h : w.store.Admitted env e)
    (ha : w.InTime env a) (he' : w.slotAdmitted env a = some e') :
    (e.jobId, e.slot) ≠ (e'.jobId, e'.slot) := by
  intro hsame
  obtain ⟨hjobId, hslot⟩ := Prod.mk.inj hsame
  obtain ⟨call, at_, context, job, definition, profile, occurrence, happlied, hrequest, hid,
    hprincipal, hreservable, -⟩ := JobsWorld.slotAdmitted_some he'
  obtain ⟨job', hjob', hcovers⟩ := h.covered
  have hfound := hreservable.found
  rw [hid, ← hjobId, hjob'] at hfound
  cases hfound
  have heligible := hreservable.eligible e'.slot hrequest
  simp only [slotEligible, decide_eq_true_eq, Option.any_eq_true] at heligible
  obtain ⟨-, -, -, floor, hfloor, hlt⟩ := heligible
  rcases hcovers with henabledBy | ⟨floor', hfloor', hle⟩
  · -- the same principal: the occurrence has the id of the earlier one
    have hcurrent := ha.admission call at_ context e'.slot job happlied hrequest hreservable.found
    have hsamePrincipal : e.principal = e'.principal := by
      rw [← hprincipal]
      exact Option.some.inj (henabledBy.symm.trans hcurrent)
    have hunused := hreservable.unused
    have hstored := h.stored
    rw [AdmitCall.occurrenceId_schedule hrequest, hid, hprincipal, ← hsamePrincipal, ← hjobId,
      ← hslot] at hunused
    rw [hunused] at hstored
    cases hstored
  · -- another one: the slot is not after the floor
    rw [hfloor] at hfloor'
    cases hfloor'
    rw [hslot] at hle
    exact absurd hlt (Int.not_lt.2 hle)

/-- In a run in time no slot of a job has two occurrences. -/
theorem JobsWorld.slots_once (env : JobsEnv) (acts : List JobAct)
    (h : Machine.Along (JobsWorld.step env) (fun w a => w.InTime env a) .init acts) :
    ((JobsWorld.init.slots env acts).map fun e => (e.jobId, e.slot)).Nodup := by
  suffices hinv : ((JobsWorld.init.slots env acts).map fun e => (e.jobId, e.slot)).Nodup ∧
      ∀ e ∈ JobsWorld.init.slots env acts, (JobsWorld.init.run env acts).store.Admitted env e from
    hinv.1
  induction acts using List.reverseRecOn with
  | nil => exact ⟨List.nodup_nil, fun e he => by cases he⟩
  | append_singleton acts a ih =>
    obtain ⟨hacts, ha, -⟩ := Machine.Along.append.1 h
    obtain ⟨hnodup, hadmitted⟩ := ih hacts
    have hrun : JobsWorld.init.run env (acts ++ [a]) = (JobsWorld.init.run env acts).step env a :=
      Machine.run_append _ _ _ _
    have hslots : JobsWorld.init.slots env (acts ++ [a]) = JobsWorld.init.slots env acts ++
        ((JobsWorld.init.run env acts).slotAdmitted env a).toList := by
      unfold JobsWorld.slots
      rw [Machine.events_append]
      simp [JobsWorld.run]
    rw [hrun, hslots]
    refine ⟨?_, fun e he => ?_⟩
    · rw [List.map_append, List.nodup_append]
      refine ⟨hnodup, ?_, fun key hkey key' hkey' => ?_⟩
      · cases (JobsWorld.init.run env acts).slotAdmitted env a <;> simp
      · obtain ⟨e, he, rfl⟩ := List.mem_map.1 hkey
        obtain ⟨e', he', rfl⟩ := List.mem_map.1 hkey'
        exact JobsWorld.slotAdmitted_fresh (hadmitted e he) ha (Option.mem_toList.1 he')
    · rcases List.mem_append.1 he with hold | hnew
      · exact JobsWorld.step_admitted (hadmitted e hold) ha
      · exact JobsWorld.slotAdmitted_admitted (Option.mem_toList.1 hnew) ha

end Runs

/-! ### A refresh that was observed before the slot -/

namespace JobSample

/-- A deployment whose digests tell the parts of a name apart, in Greenwich. -/
def env : JobsEnv where
  jobDigest := fun
    | .arr parts => "/".intercalate (parts.map fun
      | .str text => text
      | _ => "")
    | _ => ""
  sha256 := fun _ => List.replicate 16 3
  localTime := fun _ at_ => truncateToMinute at_

/-- Everyone is granted; definitions are activated for the principal. -/
def context (automationPrincipal : Option String) : JobsContext where
  granted := fun _ _ => true
  profiles := []
  automationPrincipal
  pin := none

/-- A job that is due at five past midnight. -/
def definition (digest : String) : JobDefinition where
  repository := "o/r"
  name := "nightly"
  revision := digest
  digest
  job :=
    { description := "Audit"
      manual := true
      schedule := some { cron := "5 0 * * *", timezone := "UTC" }
      profile := "repository"
      requests := { cpu := "2", memory := "6Gi", storage := "24Gi" }
      inputs := []
      previousSuccessfulResult := false
      result := .json }
  parameters := []

/-- The manifest of the job. -/
def source (digest : String) : List SourceRow := [{ name := "nightly", parsed := .ok (definition digest) }]

/-- An act that returns. -/
def act (pid : Nat) (automationPrincipal : Option String := none)
    (fetched : Option (List SourceRow) := none) : JobAct :=
  .act pid (context automationPrincipal) .returns fetched

/-- The act activates nothing once an occurrence exists, and admits for the recorded principal. -/
def settled (w : JobsWorld) (a : JobAct) : Bool :=
  match w.applied env a with
  | none => true
  | some (frame, context) =>
    ((frame.activation context w.store).isNone || w.store.occurrences.entries.isEmpty) &&
      match frame with
      | .reserving call _ =>
        (w.store.jobs.get call.id).all fun job => job.enabledBy = some call.principal
      | _ => true

theorem inTime_of_settled {w : JobsWorld} {a : JobAct} (h : settled w a = true) :
    w.InTime env a := by
  unfold settled at h
  refine ⟨fun frame context id principal floor happlied hactivation other slot _ hstored => ?_,
    fun call at_ context slot job happlied _ hjob => ?_⟩
  · rw [happlied] at h
    simp only [hactivation, Option.isNone_some, Bool.false_or, Bool.and_eq_true,
      List.isEmpty_iff] at h
    simp [OrderedMap.get, h.1, OrderedMap.getEntry] at hstored
  · rw [happlied] at h
    simp only [Bool.and_eq_true, hjob, Option.all_some, decide_eq_true_eq] at h
    exact h.2

/-- The job is published and enabled at midnight. -/
def enabled : List JobAct :=
  [.start 1 (.refresh "o/r"), act 1, act 1 none (some (source "d1")), act 1,
    .start 2 (.enable "o/r/nightly" "d1" "alice" true), act 2]

/-- A refresh observes the source at 295 seconds; a tick admits the slot of 300 seconds. -/
def admitted : List JobAct :=
  enabled ++ [.advance 295000, .start 3 (.refresh "o/r"), act 3, act 3 none (some (source "d2")),
    .advance 6000, .start 4 .tick, act 4, act 4, act 4]

/-- The refresh activates what it observed, and the next tick admits the slot again. -/
def readmitted : List JobAct :=
  admitted ++ [act 3 (some "lcars"), .start 5 .tick, act 5, act 5, act 5, act 5, act 5, act 5, act 5,
    act 5]

end JobSample

/-- The run up to the activation is in time. -/
theorem JobsWorld.slots_once_admitted :
    ((JobsWorld.init.slots JobSample.env JobSample.admitted).map
      fun e => (e.jobId, e.slot)).Nodup := by
  refine JobsWorld.slots_once _ _ ?_
  have hsettled : Machine.Along (JobsWorld.step JobSample.env)
      (fun w a => JobSample.settled w a = true) .init JobSample.admitted := by
    decide +kernel
  exact hsettled.imp fun w a h => JobSample.inTime_of_settled h

/-- An activation reaches back to a slot that was admitted before it. -/
theorem JobsWorld.slot_admitted_twice :
    ¬((JobsWorld.init.slots JobSample.env JobSample.readmitted).map
      fun e => (e.jobId, e.slot)).Nodup := by
  decide +kernel

end AgentLcars
