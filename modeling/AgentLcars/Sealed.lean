import AgentLcars.DecideEffect
import AgentLcars.Schema

/-!
# Records that stay within their schemas

A record that parses may still lead to one that does not: an id, a note or a deadline is derived
from it.  `Run.Sealed`, `Task.Sealed` and `OutboxEntry.Sealed` add to the schema of a record what
the next derivation needs.

* Ids and notes are built by concatenation: their parts are bounded.
* A clock is `Roomy` when a lease taken at it still ends in a four-digit year.
* `eventsLeft` counts the events a run may still record.
* A counter lies below a ceiling `n`, and no step raises it by more than two.
-/

namespace AgentLcars

/-! ### Lengths -/

theorem jsLength_append (a b : String) : jsLength (a ++ b) = jsLength a + jsLength b := by
  simp [jsLength, String.toList_append]

/-- Characters of the basic plane take one unit each. -/
theorem jsLength_eq_length {text : String} (h : ∀ c ∈ text.toList, c.toNat < 0x10000) :
    jsLength text = text.toList.length := by
  have hones : (text.toList.map fun c => if c.toNat < 0x10000 then 1 else 2) =
      text.toList.map fun _ => 1 :=
    List.map_congr_left fun c hc => if_pos (h c hc)
  rw [jsLength, hones]
  simp

theorem toNat_lt_of_isDigit {c : Char} (h : c.isDigit = true) : c.toNat < 0x10000 := by
  simp only [Char.isDigit, Bool.and_eq_true, decide_eq_true_eq] at h
  have hle : c.val.toNat ≤ 57 := h.2
  exact lt_of_le_of_lt hle (by decide)

theorem jsLength_toString_le {n e : Nat} (he : 0 < e) (h : n < 10 ^ e) :
    jsLength (toString n) ≤ e := by
  rw [jsLength_eq_length fun c hc => toNat_lt_of_isDigit (Text.isDigit_of_mem_toString hc)]
  exact Nat.repr_length n e he h

theorem jsLength_sliceTo_le (n : Nat) (chars : List Char) :
    jsLength (String.ofList (sliceTo n chars)) ≤ n := by
  unfold jsLength
  rw [String.toList_ofList]
  induction chars generalizing n with
  | nil => simp [sliceTo]
  | cons c rest ih =>
    unfold sliceTo
    dsimp only
    split_ifs with hc hshort hshort
    · simp
    · have := ih (n - 1)
      simp only [List.map_cons, hc, if_true, List.sum_cons]
      omega
    · simp
    · have := ih (n - 2)
      simp only [List.map_cons, hc, if_false, List.sum_cons]
      omega

@[simp] theorem withinLength_iff {text : String} {bound : Nat} :
    withinLength text bound = true ↔ 1 ≤ jsLength text ∧ jsLength text ≤ bound := by
  simp [withinLength]

theorem withinLength_mono {text : String} {m n : Nat} (h : withinLength text m = true)
    (hmn : m ≤ n) : withinLength text n = true := by
  rw [withinLength_iff] at h ⊢
  exact ⟨h.1, le_trans h.2 hmn⟩

/-- A tag before a bounded text. -/
theorem withinLength_tag {tag text : String} {n m : Nat} (h : withinLength text n = true)
    (hm : jsLength tag + n ≤ m) : withinLength (tag ++ text) m = true := by
  rw [withinLength_iff, jsLength_append] at *
  omega

/-! ### Run ids -/

theorem jsLength_taskKey_le {id : TaskId} (h : taskIdSchema id = true) :
    jsLength (taskKey id) ≤ 157 := by
  cases id with
  | github repo issue =>
    simp only [taskIdSchema, isAnchorRepo, isPositive, decide_eq_true_eq] at h
    obtain ⟨⟨hrepo, -⟩, -, hissue⟩ := h
    have hdigits : jsLength (toString issue) ≤ 16 :=
      jsLength_toString_le (by decide) (lt_of_le_of_lt hissue (by decide))
    have hhash : jsLength "#" = 1 := by decide
    simp only [taskKey, jsLength_append, hhash]
    omega
  | work workId =>
    simp only [taskIdSchema, isWorkId, decide_eq_true_eq, List.all_eq_true] at h
    have hplane : ∀ c ∈ workId.toList, c.toNat < 0x10000 := by
      intro c hc
      rcases h.2 c hc with hdigit | ⟨-, hle, -⟩
      · exact toNat_lt_of_isDigit hdigit
      · exact lt_of_le_of_lt (show c.val.toNat ≤ 90 from hle) (by decide)
    have hprefix : jsLength "work:" = 5 := by decide
    simp only [taskKey, jsLength_append, hprefix, jsLength_eq_length hplane, h.1]
    omega

/-- The id of a run is bounded while the counter of its task is. -/
theorem isRunId_runIdOf {id : TaskId} {n : Nat} (h : taskIdSchema id = true)
    (hn : n ≤ MAX_SAFE_INTEGER + 1) : isRunId (runIdOf (taskKey id) n) = true := by
  have hkey := jsLength_taskKey_le h
  have hdigits : jsLength (toString n) ≤ 16 :=
    jsLength_toString_le (by decide) (lt_of_le_of_lt hn (by decide))
  have hslash : jsLength "/r" = 2 := by decide
  have hmax : RUN_ID_MAX_LENGTH = 175 := rfl
  simp only [isRunId, withinLength_iff, runIdOf, jsLength_append, hslash, hmax]
  omega

/-! ### Clocks -/

/-- A lease taken now ends in a four-digit year. -/
def Roomy (t : Time) : Prop := MIN_INSTANT ≤ t ∧ t + RUN_LEASE_MS ≤ MAX_INSTANT

instance (t : Time) : Decidable (Roomy t) := inferInstanceAs (Decidable (_ ∧ _))

theorem Roomy.later {t d : Time} (h : Roomy t) (h0 : 0 ≤ d) (hd : d ≤ RUN_LEASE_MS) :
    isoUtc (t + d) :=
  ⟨Int.le_trans h.1 (Int.le_add_of_nonneg_right h0),
    Int.le_trans (Int.add_le_add_left hd t) h.2⟩

theorem Roomy.iso {t : Time} (h : Roomy t) : isoUtc t := by
  have := h.later (le_refl 0) (by decide)
  rwa [Int.add_zero] at this

/-! ### The sealed records -/

/-- The events a run may still record: its dispatch, its settlement and one exit receipt. -/
def eventsLeft (run : Run) : Nat :=
  match run.state with
  | .pending => 3
  | .running => 2
  | .finished | .canceled | .lost => if exitObserved run then 0 else 1

/-- A fallback policy whose further attempts come from its own list. -/
structure ProviderFallback.Sealed (policy : ProviderFallback) : Prop where
  parses : ProviderFallbackSchema policy
  attempts : policy.attemptedPipelines.tail ⊆ policy.allowedPipelines

/-- A stored run that parses, and whose successors and settlements will. -/
structure Run.Sealed (run : Run) : Prop where
  parses : RunSchema run
  events : run.events.length + eventsLeft run ≤ 4
  updatedAt : Roomy run.updatedAt
  claimedAt : ∀ queue ∈ run.queue, ∀ t ∈ queue.claimedAt, Roomy t
  operation : ∀ operation ∈ run.credentialOperation, jsLength operation.id ≤ 100
  policy : ∀ policy ∈ run.providerFallback, policy.Sealed

/-- A task that parses, with its counters below the ceiling. -/
structure Task.Sealed (n : Nat) (t : Task) : Prop where
  parses : TaskSchema t
  runCount : t.runCount ≤ n
  consecutiveLost : t.consecutiveLost ≤ n

/-- An entry that parses, with its counter below the ceiling. -/
structure OutboxEntry.Sealed (n : Nat) (e : OutboxEntry) : Prop where
  parses : OutboxEntrySchema e
  attempts : e.attempts ≤ n

/-- Everything a decision writes. -/
structure Decision.Sealed (n : Nat) (d : Decision) : Prop where
  task : d.task.Sealed n
  runs : ∀ run ∈ d.writes, run.Sealed
  outbox : ∀ e ∈ d.outbox, e.Sealed n

theorem Task.Sealed.mono {m n : Nat} {t : Task} (h : t.Sealed m) (hmn : m ≤ n) : t.Sealed n :=
  ⟨h.parses, le_trans h.runCount hmn, le_trans h.consecutiveLost hmn⟩

theorem OutboxEntry.Sealed.mono {m n : Nat} {e : OutboxEntry} (h : e.Sealed m) (hmn : m ≤ n) :
    e.Sealed n :=
  ⟨h.parses, le_trans h.attempts hmn⟩

theorem Decision.Sealed.mono {m n : Nat} {d : Decision} (h : d.Sealed m) (hmn : m ≤ n) :
    d.Sealed n :=
  ⟨h.task.mono hmn, h.runs, fun e he => (h.outbox e he).mono hmn⟩

theorem Decision.Sealed.run {n : Nat} {d : Decision} (h : d.Sealed n) {run : Run}
    (hrun : d.run = some run) : run.Sealed :=
  h.runs run (by simp [Decision.writes, hrun])

/-- A decision that writes one run. -/
theorem Decision.Sealed.of_run {n : Nat} {t : Task} {run : Run} {outbox : List OutboxEntry}
    (ht : t.Sealed n) (hrun : run.Sealed) (hout : ∀ e ∈ outbox, e.Sealed n) :
    Decision.Sealed n { task := t, run := some run, outbox } := by
  refine ⟨ht, fun r hr => ?_, hout⟩
  obtain rfl : r = run := by simpa [Decision.writes] using hr
  exact hrun

/-- A decision that writes the task alone. -/
theorem Decision.Sealed.of_task {n : Nat} {t : Task} (ht : t.Sealed n) :
    Decision.Sealed n { task := t } :=
  ⟨ht, fun r hr => by simp [Decision.writes] at hr, fun e he => by cases he⟩

/-- A settlement and the mint that follows it. -/
theorem Decision.Sealed.followedBy {n : Nat} {settled next : Decision} (h : settled.Sealed n)
    (hnext : next.Sealed n) : (settled.followedBy next).Sealed n := by
  refine ⟨hnext.task, fun r hr => ?_, fun e he => ?_⟩
  · simp only [Decision.writes, Decision.followedBy, List.mem_append, Option.mem_toList] at hr
    rcases hr with hr | hr
    · exact h.run hr
    · exact hnext.run hr
  · rcases List.mem_append.1 he with he | he
    · exact h.outbox e he
    · exact hnext.outbox e he

/-- A mint beside the settlement that made room for it. -/
theorem Decision.Sealed.beside {n : Nat} {settled next : Decision} {run : Run}
    {outbox : List OutboxEntry} (hnext : next.Sealed n) (h : settled.Sealed n)
    (hrun : settled.run = some run)
    (hout : ∀ e ∈ outbox, e ∈ settled.outbox ∨ e ∈ next.outbox) :
    Decision.Sealed n { next with additionalRuns := [run], outbox } := by
  refine ⟨hnext.task, fun r hr => ?_, fun e he => ?_⟩
  · simp only [Decision.writes, List.mem_append, Option.mem_toList, List.mem_singleton] at hr
    rcases hr with hr | rfl
    · exact hnext.run hr
    · exact h.run hrun
  · rcases hout e he with he | he
    · exact h.outbox e he
    · exact hnext.outbox e he

end AgentLcars
