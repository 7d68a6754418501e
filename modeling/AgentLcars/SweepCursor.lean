import Mathlib.Data.List.Nodup
import Mathlib.Data.String.Basic
import AgentLcars.Lib.Rotation
import AgentLcars.Lib.StableSorting

/-!
# The cursor of bounded sweeps

`apps/runner-autoscaler/queue_sweep_cursor.go`, and the loop of `recover` in `queue_kubernetes.go`: a sweep
starts behind the Job the last one came to, and ends when its context does.

* `ordered`, `recover`, `runSweeps`: one sweep's order, its visits, and those of a sequence of sweeps.
* `sweeps_fair`: until the next visit of a Job that is always listed no other is visited twice, and a sweep
  that is not cut off visits every Job once.
-/

namespace AgentLcars

open Sorting Rotation

variable {β : Type} (name : β → String)

/-- `queueSweepCursor.ordered`. -/
def ordered (last : String) (jobs : List β) : List β :=
  let jobs := jobs.mergeSort fun a b => decide (name a ≤ name b)
  let start := search (fun i => (jobs[i]?.map fun job => decide (last < name job)).getD false) 0 jobs.length
  let start := if start = jobs.length then 0 else start
  jobs.drop start ++ jobs.take start

/-- The loop of `recover`: what it visits before its context is done, after `budget` visits, and the cursor then.
What it does with a Job does not end it. -/
def recoverLoop : Nat → String → List β → List β × String
  | _, last, [] => ([], last)
  | 0, last, _ :: _ => ([], last)
  | budget + 1, _, job :: jobs =>
    let (visits, last) := recoverLoop budget (name job) jobs
    (job :: visits, last)

/-- The Jobs a sweep lists, and after how many visits its context is done. -/
structure JobSweep (β : Type) where
  jobs : List β
  budget : Nat

def recover (last : String) (sweep : JobSweep β) : List β × String :=
  recoverLoop name sweep.budget last (ordered name last sweep.jobs)

/-- The visits of a sequence of sweeps, and the cursor after it. -/
def runSweeps : String → List (JobSweep β) → List β × String
  | last, [] => ([], last)
  | last, sweep :: sweeps =>
    let (visits, last) := recover name last sweep
    let (more, last) := runSweeps last sweeps
    (visits ++ more, last)

variable {name}

/-! ### One sweep -/

section Ordered

variable {jobs : List β} {last : String}

theorem byName : TotalPreorder fun a b : β => decide (name a ≤ name b) where
  trans a b c hab hbc := decide_eq_true ((of_decide_eq_true hab).trans (of_decide_eq_true hbc))
  total a b := by
    rw [Bool.or_eq_true, decide_eq_true_iff, decide_eq_true_iff]
    exact le_total _ _

/-- The names of the sorted Jobs. -/
theorem sorted_names (hdistinct : (jobs.map name).Nodup) :
    ((jobs.mergeSort fun a b => decide (name a ≤ name b)).map name).Pairwise (· < ·) := by
  have hsorted := @List.pairwise_mergeSort _ (fun a b => decide (name a ≤ name b)) byName.trans byName.total jobs
  have hnodup : ((jobs.mergeSort fun a b => decide (name a ≤ name b)).map name).Nodup :=
    ((List.mergeSort_perm jobs _).map name).nodup_iff.2 hdistinct
  have hle : ((jobs.mergeSort fun a b => decide (name a ≤ name b)).map name).Pairwise (· ≤ ·) :=
    List.pairwise_map.2 (hsorted.imp fun h => of_decide_eq_true h)
  exact (hle.and hnodup).imp fun h => lt_of_le_of_ne h.1 h.2

/-- The order of a sweep, by names. -/
theorem ordered_names (hdistinct : (jobs.map name).Nodup) (last : String) :
    (ordered name last jobs).map name =
      Rotation.after last ((jobs.mergeSort fun a b => decide (name a ≤ name b)).map name) := by
  have hnames := sorted_names hdistinct
  unfold ordered
  dsimp only
  generalize (jobs.mergeSort fun a b => decide (name a ≤ name b)) = sorted at *
  have habove : ∀ job ∈ sorted.dropWhile fun job => decide (name job ≤ last), decide (name job ≤ last) = false := by
    intro job hjob
    have hname : name job ∈ (sorted.map name).dropWhile fun x => decide (x ≤ last) := by
      rw [List.dropWhile_map]
      exact List.mem_map_of_mem hjob
    exact decide_eq_false (not_le.2 (lt_of_mem_dropWhile hnames hname))
  have hstart : search (fun i => (sorted[i]?.map fun job => decide (last < name job)).getD false) 0 sorted.length =
      (sorted.takeWhile fun job => decide (name job ≤ last)).length := by
    rw [← search_eq_length habove]
    simp only [← not_le, decide_not]
  have hwhole : sorted.takeWhile (fun job => decide (name job ≤ last)) ++
      sorted.dropWhile (fun job => decide (name job ≤ last)) = sorted := List.takeWhile_append_dropWhile
  have hafter : Rotation.after last (sorted.map name) = (sorted.dropWhile (fun job => decide (name job ≤ last)) ++
      sorted.takeWhile fun job => decide (name job ≤ last)).map name := by
    unfold Rotation.after
    rw [List.dropWhile_map, List.takeWhile_map, List.map_append]
    rfl
  rw [hafter, hstart]
  generalize sorted.takeWhile (fun job => decide (name job ≤ last)) = low at *
  generalize sorted.dropWhile (fun job => decide (name job ≤ last)) = high at *
  subst hwhole
  split_ifs with hnone
  · rw [List.length_append] at hnone
    have hhigh : high = [] := List.length_eq_zero_iff.1 (by omega)
    rw [hhigh, List.append_nil, List.drop_zero, List.take_zero, List.append_nil, List.nil_append]
  · rw [List.drop_left, List.take_left]

theorem ordered_perm (last : String) (jobs : List β) : (ordered name last jobs).Perm jobs := by
  unfold ordered
  exact List.perm_append_comm.trans ((List.take_append_drop _ _).symm ▸ List.mergeSort_perm jobs _)

theorem recoverLoop_eq (budget : Nat) (last : String) (jobs : List β) :
    recoverLoop name budget last jobs =
      (jobs.take budget, (((jobs.take budget).map name).getLast?).getD last) := by
  induction jobs generalizing budget last with
  | nil =>
    rw [List.take_nil]
    cases budget <;> rfl
  | cons job jobs ih =>
    cases budget with
    | zero => rfl
    | succ budget =>
      unfold recoverLoop
      rw [ih, List.take_succ_cons, List.map_cons, List.getLast?_cons]
      rfl

/-- A sweep that is not cut off visits every Job once. -/
theorem recover_perm {sweep : JobSweep β} (hbudget : sweep.jobs.length ≤ sweep.budget) (last : String) :
    (recover name last sweep).1.Perm sweep.jobs := by
  unfold recover
  rw [recoverLoop_eq]
  have hall : (ordered name last sweep.jobs).take sweep.budget = ordered name last sweep.jobs :=
    List.take_of_length_le ((ordered_perm last sweep.jobs).length_eq ▸ hbudget)
  rw [hall]
  exact ordered_perm last sweep.jobs

end Ordered

/-! ### A sequence of sweeps -/

section Runs

variable {goal : String} {sweeps : List (JobSweep β)}

/-- The visits of a sweep go towards a Job that it lists, from the cursor on. -/
theorem isChain_recover {sweep : JobSweep β} (hdistinct : (sweep.jobs.map name).Nodup)
    (hgoal : goal ∈ sweep.jobs.map name) (last : String) :
    (last :: (recover name last sweep).1.map name).IsChain (Rotation.Step goal) := by
  have hmem : goal ∈ (sweep.jobs.mergeSort fun a b => decide (name a ≤ name b)).map name :=
    ((List.mergeSort_perm sweep.jobs _).map name).symm.subset hgoal
  have hchain := isChain_after (sorted_names hdistinct) hmem last
  rw [← ordered_names hdistinct] at hchain
  unfold recover
  rw [recoverLoop_eq, List.map_take]
  exact hchain.take (sweep.budget + 1)

/-- The cursor is at the last visit. -/
theorem recover_cursor (last : String) (sweep : JobSweep β) :
    (recover name last sweep).2 = (((recover name last sweep).1.map name).getLast?).getD last := by
  unfold recover
  rw [recoverLoop_eq]

theorem isChain_runSweeps (hdistinct : ∀ sweep ∈ sweeps, (sweep.jobs.map name).Nodup)
    (hgoal : ∀ sweep ∈ sweeps, goal ∈ sweep.jobs.map name) (last : String) :
    (last :: (runSweeps name last sweeps).1.map name).IsChain (Rotation.Step goal) := by
  induction sweeps generalizing last with
  | nil => exact .singleton last
  | cons sweep sweeps ih =>
    obtain ⟨hone, hrest⟩ := List.forall_mem_cons.1 hdistinct
    obtain ⟨hlisted, hothers⟩ := List.forall_mem_cons.1 hgoal
    have hfirst := isChain_recover hone hlisted last
    have hmore := ih hrest hothers (recover name last sweep).2
    rw [List.isChain_cons] at hmore
    show (last :: (((recover name last sweep).1 ++
      (runSweeps name (recover name last sweep).2 sweeps).1).map name)).IsChain (Rotation.Step goal)
    rw [List.map_append, ← List.cons_append]
    refine List.isChain_append.2 ⟨hfirst, hmore.2, fun x hx y hy => ?_⟩
    have hcursor : (recover name last sweep).2 = x := by
      rw [List.getLast?_cons] at hx
      rw [recover_cursor]
      exact Option.some.inj hx
    exact hcursor ▸ hmore.1 y hy

end Runs

/-- Until the next visit of a Job that every sweep lists no other is visited twice, and a sweep that is not
cut off visits every Job once. -/
theorem sweeps_fair {sweeps : List (JobSweep β)} (hdistinct : ∀ sweep ∈ sweeps, (sweep.jobs.map name).Nodup)
    (last : String) :
    (∀ goal, (∀ sweep ∈ sweeps, goal ∈ sweep.jobs.map name) →
      ∀ visits, visits <:+: (runSweeps name last sweeps).1.map name → goal ∉ visits → visits.Nodup) ∧
    ∀ sweep ∈ sweeps, sweep.jobs.length ≤ sweep.budget → ∀ last, ∀ job ∈ sweep.jobs,
      ((recover name last sweep).1.map name).count (name job) = 1 := by
  constructor
  · intro goal hgoal visits hvisits hnone
    obtain ⟨before, rest, hwhole⟩ := hvisits
    have hchain := (List.isChain_cons.1 (isChain_runSweeps hdistinct hgoal last)).2
    rw [← hwhole, List.append_assoc] at hchain
    have hpart := (List.isChain_append.1 (List.isChain_append.1 hchain).2.1).1
    exact nodup_of_isChain hpart hnone
  · intro sweep hsweep hbudget last job hjob
    rw [((recover_perm hbudget last).map name).count_eq]
    exact List.count_eq_one_of_mem (hdistinct sweep hsweep) (List.mem_map_of_mem hjob)

/-- Two sweeps that are cut off after one visit. -/
theorem sweeps_fair_two :
    (∀ goal, (∀ sweep ∈ [JobSweep.mk ["b", "a", "c"] 1, ⟨["c", "d"], 1⟩], goal ∈ sweep.jobs.map id) →
      ∀ visits, visits <:+: (runSweeps id "a" [JobSweep.mk ["b", "a", "c"] 1, ⟨["c", "d"], 1⟩]).1.map id →
        goal ∉ visits → visits.Nodup) ∧
    ∀ sweep ∈ [JobSweep.mk ["b", "a", "c"] 1, ⟨["c", "d"], 1⟩], sweep.jobs.length ≤ sweep.budget → ∀ last,
      ∀ job ∈ sweep.jobs, ((recover id last sweep).1.map id).count (id job) = 1 :=
  sweeps_fair (by decide) "a"

end AgentLcars
