import AgentLcars.Admission

/-!
# Priority fairness

Each successful claim of a pipeline moves its cursor to the turn after the class it served.  A run
that waits at the front of its class is therefore served within a round, and every older run of the
class that joins the line before it costs one round more.

* `Turn` is a successful claim of a pipeline; `World.turns` lists them along a run of the system.
* `turnRank` is what a waiting run still has to let pass; each turn that passes it by lowers it.
* `World.claims_fair`: the bound on the number of turns.
-/

namespace AgentLcars

/-! ### The cursor -/

/-- The class turn of a pipeline. -/
def Store.cursor (s : Store) (pipeline : String) : Nat := (s.priorityPositions.get pipeline).getD 0

theorem Commits.positions {s s' : Store} (h : Commits s s') :
    s'.priorityPositions = s.priorityPositions := by
  rcases h with rfl | ⟨d, revision, rfl⟩
  · rfl
  · rw [Store.commit_eq]

theorem noteBinding_positions (s : Store) (read : Store.RequestRead)
    (next : Option BindingRecord) :
    (s.noteBinding read next).priorityPositions = s.priorityPositions := by
  unfold Store.noteBinding
  split <;> rfl

theorem noteRevision_positions (s : Store) (read : Store.RequestRead)
    (previous : Option WorkRevision) (d : Decision) :
    (s.noteRevision read previous d).priorityPositions = s.priorityPositions := by
  unfold Store.noteRevision
  split
  · split_ifs <;> rfl
  · rfl

theorem request_positions (s : Store) (now : Time) (input : RequestInput) :
    (Orchestrator.request s now input).2.priorityPositions = s.priorityPositions := by
  unfold Orchestrator.request
  split
  · rfl
  unfold Store.transactRequest
  dsimp only
  split
  · rfl
  split
  · rfl
  · exact noteBinding_positions _ _ _
  split
  · exact noteBinding_positions _ _ _
  · rename_i s' happly
    rw [noteRevision_positions, (apply_commits happly).positions, noteBinding_positions]

/-- Only a claim moves a cursor. -/
theorem World.step_positions (w : World) {label : Step}
    (h : ∀ pipelines input, label ≠ .claimQueuedRun pipelines input) :
    (w.step label).store.priorityPositions = w.store.priorityPositions := by
  cases label with
  | request now input => exact request_positions _ _ _
  | onRun runId now cleanupId op => exact (transactRun_commits _ _ _ _ _).positions
  | direct runId now op => exact (transactRun_commits _ _ _ _ _).positions
  | enqueueRun runId now =>
    simp only [World.step, Store.enqueueRun]
    split
    · rfl
    · split_ifs <;> rfl
  | claimQueuedRun pipelines input => exact absurd rfl (h pipelines input)
  | releaseQueuedRunClaim runId claimedBy tokenHash now deferredUntil =>
    simp only [World.step, Store.releaseQueuedRunClaim]
    split
    · rfl
    · split_ifs <;> rfl
  | claimPendingOutbox limit now leaseExpiresAt excluded claimIds =>
    simp only [World.step, claimPendingOutbox_eq]
  | settleOutbox input =>
    simp only [World.step, Store.settleOutbox]
    split <;> rfl
  | wakeOutbox entryId now =>
    simp only [World.step, Store.wakeOutbox]
    split <;> rfl
  | call id taskId op => rfl
  | resume id now =>
    simp only [World.step]
    split
    · rfl
    · exact (resume_commits _ _ _).positions

/-! ### Turns -/

/-- A successful claim of a pipeline: the store before it, its clock and the claimed run. -/
structure Turn where
  store : Store
  now : Time
  taken : Run

/-- The successful claim of the pipeline that a step makes. -/
def World.turn (w : World) (pipeline : String) : Step → Option Turn
  | .claimQueuedRun pipelines input =>
    ((w.store.claimQueuedRun pipelines input).1.filter fun run => run.pipeline = pipeline).map
      fun taken => { store := w.store, now := input.now, taken }
  | _ => none

/-- The successful claims of the pipeline along a list of steps. -/
def World.turns (w : World) (pipeline : String) (labels : List Step) : List Turn :=
  Machine.events World.step (fun w label => w.turn pipeline label) w labels

theorem World.turns_cons (w : World) (pipeline : String) (label : Step) (rest : List Step) :
    w.turns pipeline (label :: rest) =
      (w.turn pipeline label).toList ++ (w.step label).turns pipeline rest := rfl

/-- The candidates a turn chooses from. -/
def Turn.candidates (turn : Turn) (pipeline : String) : List Run :=
  pipelineCandidates turn.store.runs.values (some turn.now) pipeline

/-- The candidates of the class of a run that stand before it. -/
def Turn.line (turn : Turn) (r : Run) : List String :=
  ((turn.candidates r.pipeline).filter fun other =>
    other.priority = r.priority ∧ fifoLe other r ∧ other.runId ≠ r.runId).map Run.runId

/-- Until it is taken the run is a candidate of its class at every turn.  `ahead` stood before it
after the last turn, and the turns see no more than `arrivals` others step in before it. -/
def Waits (id pipeline : String) (priority : QueuePriority) :
    List String → Nat → List Turn → Prop
  | _, _, [] => True
  | ahead, arrivals, turn :: rest => turn.taken.runId = id ∨
    ∃ r ∈ turn.candidates pipeline, r.runId = id ∧ r.priority = priority ∧
      ((turn.line r).filter fun other => other ∉ ahead).length ≤ arrivals ∧
      Waits id pipeline priority ((turn.line r).erase turn.taken.runId)
        (arrivals - ((turn.line r).filter fun other => other ∉ ahead).length) rest

instance (id pipeline : String) (priority : QueuePriority) (ahead : List String) (arrivals : Nat)
    (turns : List Turn) : Decidable (Waits id pipeline priority ahead arrivals turns) :=
  match turns with
  | [] => isTrue trivial
  | _ :: rest =>
    have : ∀ ahead arrivals, Decidable (Waits id pipeline priority ahead arrivals rest) :=
      fun ahead arrivals => instDecidableWaits id pipeline priority ahead arrivals rest
    inferInstanceAs (Decidable (_ ∨ _))

section Turns

variable {w : World} {pipeline : String} {label : Step} {turn : Turn}

/-- A turn serves the class whose turn it is, and the cursor moves past it. -/
theorem World.turn_eq_some (h : w.turn pipeline label = some turn) :
    ∃ r, turn.taken.runId = r.runId ∧ turn.store = w.store ∧
      selectPriorityQueuedRun (turn.candidates pipeline) (w.store.cursor pipeline) = some r ∧
      (w.step label).store.cursor pipeline =
        queuePriorityTurnAfter (w.store.cursor pipeline) r.priority := by
  cases label with
  | claimQueuedRun pipelines input =>
    simp only [World.turn, Option.map_eq_some_iff, Option.filter_eq_some_iff,
      decide_eq_true_eq] at h
    obtain ⟨taken, ⟨htaken, rfl⟩, rfl⟩ := h
    rw [w.store.claimQueuedRun_fst, Option.map_eq_some_iff] at htaken
    obtain ⟨r, hr, rfl⟩ := htaken
    obtain ⟨-, -, -, hselect⟩ := claimCandidate_eq_some hr
    refine ⟨r, rfl, rfl, hselect, ?_⟩
    have hpositions : (w.step (.claimQueuedRun pipelines input)).store.priorityPositions =
        w.store.priorityPositions.set r.pipeline (queuePriorityTurnAfter
          ((w.store.priorityPositions.get r.pipeline).getD 0) r.priority) := by
      simp only [World.step, Store.claimQueuedRun_some hr]
    change ((w.step _).store.priorityPositions.get r.pipeline).getD 0 = _
    rw [hpositions, OrderedMap.get_set_self, Option.getD_some]
    rfl
  | _ => cases h

/-- Without a turn the cursor stays. -/
theorem World.turn_eq_none (h : w.turn pipeline label = none) :
    (w.step label).store.cursor pipeline = w.store.cursor pipeline := by
  by_cases hclaim : ∃ pipelines input, label = .claimQueuedRun pipelines input
  · obtain ⟨pipelines, input, rfl⟩ := hclaim
    cases hcandidate : w.store.claimCandidate pipelines input.now with
    | none => simp only [World.step, Store.claimQueuedRun_none hcandidate]
    | some r =>
      have hother : pipeline ≠ r.pipeline := by
        rintro rfl
        simp only [World.turn, Store.claimQueuedRun_some hcandidate, Option.map_eq_none_iff,
          Option.filter_eq_none_iff] at h
        exact h _ rfl (decide_eq_true rfl)
      simp only [World.step, Store.claimQueuedRun_some hcandidate, Store.cursor,
        OrderedMap.get_set_of_ne _ _ hother]
  · have hlabel : ∀ pipelines input, label ≠ .claimQueuedRun pipelines input :=
      fun pipelines input he => hclaim ⟨pipelines, input, he⟩
    rw [Store.cursor, w.step_positions hlabel, Store.cursor]

end Turns

/-! ### The rank of a waiting run -/

/-- How many turns may still pass a run by: those of other classes before its own, and a round for
every older run in its line or yet to join it. -/
def turnRank (position : Nat) (priority : QueuePriority) (line : Nat) : Nat :=
  turnsUntil position priority + fairShare priority * line

section Rank

variable {turn : Turn} {pipeline : String} {r x : Run} {position : Nat}

theorem Turn.nodup_line (hs : turn.store.Coherent) (r : Run) : (turn.line r).Nodup := by
  have hkeys := turn.store.runs.nodup_keys fun k r hr => hs.runKeyed hr
  have hperm : (turn.candidates r.pipeline).Perm (turn.store.runs.values.filter fun run =>
      isQueueAdmissionCandidate run (some turn.now) ∧ run.pipeline = r.pipeline) :=
    List.perm_insertionSort _ _
  have hcandidates : ((turn.candidates r.pipeline).map Run.runId).Nodup :=
    (hperm.map _).nodup_iff.2 (hkeys.sublist (List.filter_sublist.map _))
  exact hcandidates.sublist (List.filter_sublist.map _)

/-- A line grows by arrivals only. -/
theorem length_line_le {line : List String} (h : line.Nodup) (ahead : List String) :
    line.length ≤ ahead.length + (line.filter fun other => other ∉ ahead).length := by
  have hkept : (line.filter fun other => other ∈ ahead).length ≤ ahead.length := by
    refine (List.subperm_of_subset (h.sublist List.filter_sublist) fun other hother => ?_).length_le
    simpa using (List.mem_filter.1 hother).2
  have hsplit := List.length_eq_length_filter_add (l := line) fun other => decide (other ∈ ahead)
  simp only [← decide_not] at hsplit
  omega

/-- A turn that passes a run by serves an older run of its class, or a class whose turn is first. -/
theorem Turn.passes (hselect : selectPriorityQueuedRun (turn.candidates pipeline) position = some r)
    (hx : x ∈ turn.candidates pipeline) (hne : r.runId ≠ x.runId) :
    (r.priority = x.priority ∧ r.runId ∈ turn.line x) ∨
      turnsUntil position r.priority < turnsUntil position x.priority := by
  obtain ⟨hfirst, hturns⟩ := selectPriorityQueuedRun_eq_some hselect
  by_cases hclass : r.priority = x.priority
  · refine .inl ⟨hclass, List.mem_map.2 ⟨r, List.mem_filter.2 ⟨?_, ?_⟩, rfl⟩⟩
    · have hpipeline : x.pipeline = pipeline := (mem_pipelineCandidates.1 hx).2.2
      rw [hpipeline]
      exact selectPriorityQueuedRun_mem hselect
    · rcases fifoLe_of_find hx hfirst hclass.symm with rfl | hle
      · exact absurd rfl hne
      · exact decide_eq_true ⟨hclass, hle, hne⟩
  · refine .inr (Nat.lt_of_le_of_ne (hturns x hx) fun hsame => hclass ?_)
    rw [← priorityTurn_turnsUntil position r.priority, hsame, priorityTurn_turnsUntil]

/-- A turn that passes a run by lowers its rank. -/
theorem Turn.rank_lt (hs : turn.store.Coherent)
    (hselect : selectPriorityQueuedRun (turn.candidates pipeline) position = some r)
    (hx : x ∈ turn.candidates pipeline) (hne : r.runId ≠ x.runId) {ahead : List String}
    {arrivals : Nat}
    (harrivals : ((turn.line x).filter fun other => other ∉ ahead).length ≤ arrivals) :
    turnRank (queuePriorityTurnAfter position r.priority) x.priority
        (((turn.line x).erase r.runId).length +
          (arrivals - ((turn.line x).filter fun other => other ∉ ahead).length)) <
      turnRank position x.priority (ahead.length + arrivals) := by
  have hgrown := length_line_le (Turn.nodup_line hs x) ahead
  unfold turnRank
  rcases Turn.passes hselect hx hne with ⟨hclass, hmem⟩ | hearlier
  · -- one older run less, and the class waits for its next turn
    have hpos := List.length_pos_of_mem hmem
    have hnext := turnsUntil_lt (queuePriorityTurnAfter position r.priority) x.priority
    have hround := Nat.mul_le_mul_left (fairShare x.priority) (show
      ((turn.line x).erase r.runId).length +
        (arrivals - ((turn.line x).filter fun other => other ∉ ahead).length) + 1 ≤
        ahead.length + arrivals by
      rw [List.length_erase_of_mem hmem]
      omega)
    rw [Nat.mul_succ] at hround
    omega
  · have hnext := turnsUntil_after hearlier
    have hround := Nat.mul_le_mul_left (fairShare x.priority) (show
      ((turn.line x).erase r.runId).length +
        (arrivals - ((turn.line x).filter fun other => other ∉ ahead).length) ≤
        ahead.length + arrivals by
      have herase := (turn.line x).length_erase_le (a := r.runId)
      omega)
    omega

/-- A waiting run is taken before its rank is used up, or there are no more turns than that. -/
theorem World.Coherent.passed {w : World} (hw : w.Coherent) {id : String}
    {priority : QueuePriority} {ahead : List String} {arrivals : Nat} {labels : List Step}
    (h : Waits id pipeline priority ahead arrivals (w.turns pipeline labels)) :
    (∃ turn ∈ (w.turns pipeline labels).take
        (turnRank (w.store.cursor pipeline) priority (ahead.length + arrivals) + 1),
      turn.taken.runId = id) ∨
    (w.turns pipeline labels).length ≤
      turnRank (w.store.cursor pipeline) priority (ahead.length + arrivals) := by
  induction labels generalizing w ahead arrivals with
  | nil => exact .inr (Nat.zero_le _)
  | cons label rest ih =>
    have hnext := hw.step label
    cases hturn : w.turn pipeline label with
    | none =>
      simp only [World.turns_cons, hturn, Option.toList_none, List.nil_append] at h ⊢
      rw [← World.turn_eq_none hturn]
      exact ih hnext h
    | some turn =>
      simp only [World.turns_cons, hturn, Option.toList_some, List.singleton_append] at h ⊢
      rcases h with htaken | ⟨x, hx, rfl, rfl, harrivals, hrest⟩
      · exact .inl ⟨turn, by simp, htaken⟩
      obtain ⟨r, hid, hstore, hselect, hcursor⟩ := World.turn_eq_some hturn
      by_cases hne : r.runId = x.runId
      · exact .inl ⟨turn, by simp, hid.trans hne⟩
      rw [hid] at hrest
      have hlower := Turn.rank_lt (hstore ▸ hw.store) hselect hx hne harrivals
      rw [← hcursor] at hlower
      rcases ih hnext hrest with ⟨later, hlater, htaken⟩ | hshort
      · refine .inl ⟨later, ?_, htaken⟩
        rw [List.take_succ_cons]
        exact List.mem_cons.2 (.inr ((List.take_prefix_take_left hlower).subset hlater))
      · refine .inr ?_
        rw [List.length_cons]
        omega

end Rank

/-- The system with other cursors. -/
def World.withPositions (w : World) (positions : OrderedMap String Nat) : World :=
  { w with store := { w.store with priorityPositions := positions } }

theorem World.Coherent.withPositions {w : World} (hw : w.Coherent)
    (positions : OrderedMap String Nat) : (w.withPositions positions).Coherent where
  store := hw.store.of_unread ⟨rfl, rfl, rfl, rfl⟩ hw.store.entryKeyed
  calls := hw.calls

/-- From any reachable state and any cursors, whatever happens between the claims: a run that waits
is taken within its class's share of the successful claims of its pipeline, and within one share
more for every time an older candidate of its class steps in before it, those there at first
included.  An oldest candidate is taken within 3, 4 or 7 claims. -/
theorem World.claims_fair (steps : List Step) (positions : OrderedMap String Nat)
    (labels : List Step) (pipeline id : String) (priority : QueuePriority) (arrivals : Nat) :
    let turns := ((World.init.run steps).withPositions positions).turns pipeline labels
    Waits id pipeline priority [] arrivals turns →
    fairShare priority * (arrivals + 1) ≤ turns.length →
    ∃ turn ∈ turns.take (fairShare priority * (arrivals + 1)), turn.taken.runId = id := by
  intro turns hwaits hlong
  have hw := (World.coherent_run steps).withPositions positions
  have hrank : ∀ position, turnRank position priority (([] : List String).length + arrivals) <
      fairShare priority * (arrivals + 1) := by
    intro position
    have hturns := turnsUntil_lt position priority
    rw [turnRank, List.length_nil, Nat.zero_add, Nat.mul_succ]
    omega
  rcases hw.passed hwaits with ⟨turn, hturn, htaken⟩ | hshort
  · exact ⟨turn, (List.take_prefix_take_left (hrank _)).subset hturn, htaken⟩
  · exact absurd (hlong.trans hshort) (Nat.not_le.2 (hrank _))

/-- Four works of one pipeline, the first of them normal and the others urgent, all in the queue. -/
def Sample.works : List Step :=
  [("a", .normal), ("b", .urgent), ("c", .urgent), ("d", .urgent)].flatMap fun (work, priority) =>
    [.request 0 { Sample.request "claude" with taskId := .work work, priority := some priority },
     .enqueueRun (runIdOf (taskKey (.work work)) 1) 1]

/-- The normal work is taken within four claims, whatever turn comes first. -/
theorem World.claims_fair_normal :
    let claims := List.replicate 4 (Step.claimQueuedRun ["claude"] (Sample.claim 2))
    ∃ turn ∈ (((World.init.run Sample.works).withPositions (.set .empty "claude" 3)).turns "claude"
      claims).take (fairShare .normal * (0 + 1)), turn.taken.runId = "work:a/r1" := by
  intro claims
  exact World.claims_fair Sample.works (.set .empty "claude" 3) claims "claude" "work:a/r1" .normal 0
    (by decide +kernel) (by decide +kernel)

end AgentLcars
