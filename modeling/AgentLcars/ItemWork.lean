import AgentLcars.Coherence
import AgentLcars.WorkMint

/-!
# The work of an item is written once

The request that creates a task sets its work, and only the item edit replaces it.  An item that
holds a specification goes on holding it until someone begins to edit an item, and a mint that is
not refused leaves an item that holds the specification it asked for.
-/

namespace AgentLcars

/-- The steps that begin an item edit. -/
def Step.beginsEdit : Step → Bool
  | .call _ _ (.updateWork _) => true
  | _ => false

/-- No item edit is in flight. -/
def World.NoEdits (w : World) : Prop :=
  ∀ id call, w.calls.get id = some call → ∀ work, call.op ≠ .updateWork work

section Work

variable {w : World} {s : Store} {k : String} {vt : VersionedTask}

theorem TaskOp.decide_work {op : TaskOp} {now : Time} {t : Task} {activeRun : Option Run}
    {d : Decision} (hop : ∀ work, op ≠ .updateWork work)
    (hd : op.decide now (some t) activeRun = .ok d) : d.task.work = t.work := by
  cases op with
  | close =>
    simp only [TaskOp.decide, closeTask, ite_refused_eq_ok] at hd
    obtain ⟨-, -, hd⟩ := hd
    split at hd
    · exact absurd hd refused_ne_ok
    · obtain rfl := Except.ok.inj hd
      rfl
  | updateWork work => exact absurd rfl (hop work)
  | refreshIssue issue =>
    simp only [TaskOp.decide, refreshTaskIssue] at hd
    split at hd
    · cases hd
    split at hd
    · obtain rfl := Except.ok.inj hd
      rfl
    · obtain rfl := Except.ok.inj hd
      rfl

/-- A sound call other than an edit writes the work that is stored. -/
theorem Call.decision_work {call : Call} {now : Time} {d : Decision} (hcall : call.Sound s)
    (hop : ∀ work, call.op ≠ .updateWork work) (hd : call.decision s now = some d)
    (hvt : s.tasks.get (taskKey d.task.task) = some vt) : d.task.work = vt.task.work := by
  unfold Call.decision at hd
  split at hd
  · rename_i task activeRun hphase
    split at hd
    · cases hd
    · rename_i decision hdecide
      split_ifs at hd with happly
      obtain rfl := Option.some.inj hd
      obtain ⟨s', happly⟩ := Option.isSome_iff_exists.1 happly
      obtain ⟨hrevision, -⟩ := apply_some happly
      cases task with
      | none => exact absurd hdecide TaskOp.decide_none
      | some read =>
        simp only [Call.Sound, hphase] at hcall
        obtain ⟨⟨hkey, current, hcurrent, -, hsame⟩, -⟩ := hcall
        rw [TaskOp.decide_task hdecide, hkey] at hrevision hvt
        obtain rfl : current = vt := Option.some.inj (hcurrent.symm.trans hvt)
        rw [hcurrent] at hrevision
        rw [TaskOp.decide_work hop hdecide, hsame (Option.some.inj hrevision)]
  · cases hd

/-- Every step but an edit leaves the work of a task as it is. -/
theorem World.Coherent.work_kept (hw : w.Coherent) (hedits : w.NoEdits) (label : Step)
    (hvt : w.store.tasks.get k = some vt) :
    ∃ vt', (w.step label).store.tasks.get k = some vt' ∧ vt'.task.work = vt.task.work := by
  cases hdecision : w.decision label with
  | none => exact ⟨vt, by rw [(hw.undecided hdecision).tasks]; exact hvt, rfl⟩
  | some d =>
    obtain ⟨now, admitted, subject, heffect, -, -, hwritten, -⟩ := hw.committed hdecision
    rw [hwritten.get_task]
    split_ifs with hk
    · refine ⟨_, rfl, ?_⟩
      rw [hk] at hvt
      rcases heffect.kept.work with hlabel | hwork
      · cases label with
        | resume id now =>
          obtain ⟨call, hcall, hd⟩ := Option.bind_eq_some_iff.1 hdecision
          exact Call.decision_work (hw.calls hcall) (hedits id call hcall) hd hvt
        | _ => cases hlabel
      · rw [hvt] at hwork
        exact (Option.some.inj hwork).symm
    · exact ⟨vt, hvt, rfl⟩

theorem Call.resume_op (call : Call) (s : Store) (now : Time) : (call.resume s now).1.op = call.op := by
  unfold Call.resume
  split
  · rfl
  · rfl
  · unfold Call.finish
    split
    · rfl
    split <;> rfl
  · rfl

theorem World.NoEdits.step (h : w.NoEdits) {label : Step} (hlabel : label.beginsEdit = false) :
    (w.step label).NoEdits := by
  cases label with
  | call id taskId op =>
    intro id' call' hcall' work hop
    simp only [World.step, OrderedMap.get_set] at hcall'
    split_ifs at hcall' with hid
    · obtain rfl := Option.some.inj hcall'
      obtain rfl : op = .updateWork work := hop
      cases hlabel
    · exact h id' call' hcall' work hop
  | resume id now =>
    intro id' call' hcall' work hop
    cases hcall : w.calls.get id with
    | none =>
      simp only [World.step, hcall] at hcall'
      exact h id' call' hcall' work hop
    | some call =>
      simp only [World.step, hcall, OrderedMap.get_set] at hcall'
      split_ifs at hcall' with hid
      · obtain rfl := Option.some.inj hcall'
        rw [Call.resume_op] at hop
        exact h id call hcall work hop
      · exact h id' call' hcall' work hop
  | _ => exact h

/-- An item goes on holding its specification. -/
theorem World.Coherent.itemHolds_step (hw : w.Coherent) (hedits : w.NoEdits) (label : Step)
    {id : String} {spec : WorkSpec} (h : w.store.ItemHolds id spec) :
    (w.step label).store.ItemHolds id spec := by
  obtain ⟨vt, hvt, hspec⟩ := h
  obtain ⟨vt', hvt', hwork⟩ := hw.work_kept hedits label hvt
  exact ⟨vt', hvt', by rw [hwork]; exact hspec⟩

/-- A mint that is accepted for a stored item compared equal with it. -/
theorem compatible_of_decideRequest {now : Time} {id requestId : String} {origin : WorkOrigin}
    {spec : WorkSpec} {fallback : Option ProviderFallbackRequest} {d : Decision}
    (h : decideRequest (mintRequest id origin spec fallback) now
      (s.requestState (mintRequest id origin spec fallback).read requestId) = .ok d)
    (hvt : s.tasks.get (taskKey (.work id)) = some vt) :
    storedCompatible vt.task.work spec = some true := by
  unfold decideRequest at h
  rw [ite_refused_eq_ok] at h
  obtain ⟨hcompatible, -⟩ := h
  have htask : (s.requestState (mintRequest id origin spec fallback).read requestId).task =
      some vt := hvt
  rw [htask] at hcompatible
  have hanswer : (storedCompatible vt.task.work spec).getD false = true := by
    simpa [mintRequest] using hcompatible
  cases hsame : storedCompatible vt.task.work spec with
  | none =>
    rw [hsame] at hanswer
    cases hanswer
  | some same =>
    rw [hsame] at hanswer
    exact congrArg some hanswer

/-- A mint that is not refused leaves an item that holds its specification. -/
theorem World.Coherent.minted_holds (hw : w.Coherent) {now : Time} {id : String}
    {origin : WorkOrigin} {spec : WorkSpec} {fallback : Option ProviderFallbackRequest}
    (hspec : spec.Valid)
    (h : mintTransaction w.store now id (mintRequest id origin spec fallback) spec = .minted) :
    (w.step (.request now (mintRequest id origin spec fallback))).store.ItemHolds id spec := by
  unfold mintTransaction at h
  split at h
  · cases h
  · split at h
    · rename_i hreadable d hok
      have hdecision : w.decision (.request now (mintRequest id origin spec fallback)) = some d := by
        rw [World.decision, hok]
        rfl
      obtain ⟨_, hdecide, heffect⟩ := hw.request_decided hdecision
      obtain ⟨_, _, _, hcommitted, -, -, hwritten, -⟩ := hw.committed hdecision
      have hkey : taskKey d.task.task = taskKey (.work id) := heffect.requested hw.store
      refine ⟨_, by rw [hwritten.get_task, if_pos hkey.symm], ?_⟩
      rcases hcommitted.kept.work with hlabel | hwork
      · cases hlabel
      · cases hvt : w.store.tasks.get (taskKey (.work id)) with
        | none =>
          rw [hkey, hvt] at hwork
          rw [← Option.some.inj hwork]
          exact workSpec_itemWork origin hspec
        | some vt =>
          rw [hkey, hvt] at hwork
          rw [← Option.some.inj hwork]
          exact workSpec_of_compatible hspec (compatible_of_decideRequest hdecide hvt)
    · cases h
    · cases h

end Work

end AgentLcars
