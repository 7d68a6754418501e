import AgentLcars.Deferral
import AgentLcars.Derive

/-!
# The derived item state

Under a clock that never goes back, the run that `latestRun` finds is the one the task counted
last.  `Newest` is what every reachable state says about it: it holds the lock if anyone does, no
run of the task is younger, and if it is lost there is nothing left to try.

* `World.newest_run`: every task of every reachable state has its newest run.
* `World.item_state`: what `deriveItemState` reports agrees with the task and its runs.
-/

namespace AgentLcars

/-! ### The newest run of a task -/

/-- The run that the task under `k` counted last. -/
structure Newest (s : Store) (k : String) (t : Task) (r : Run) : Prop where
  stored : s.runs.get (runIdOf k t.runCount) = some r
  key : taskKey r.task = k
  lock : ∀ id ∈ t.activeRunId, id = runIdOf k t.runCount
  youngest : ∀ {id x}, s.runs.get id = some x → taskKey x.task = k → x.createdAt ≤ r.createdAt
  gaveUp : r.state = .lost → GaveUp t r

/-- Every task has its newest run, and every run was created at one of the clocks. -/
structure Chronicle (clocks : List Time) (s : Store) : Prop where
  newest : ∀ {k vt}, s.tasks.get k = some vt → ∃ r, Newest s k vt.task r
  created : ∀ {id x}, s.runs.get id = some x → x.createdAt ∈ clocks

theorem chronicle_empty (clocks : List Time) : Chronicle clocks .empty := ⟨nofun, nofun⟩

section Change

variable {label : Step} {now : Time} {admitted : Option (RequestSource × String)} {overrun : Prop}
  {subject : Option Run} {before : Option Task} {t : Task} {d : Decision} {s s' : Store}

/-- A move keeps what a loss gave up on. -/
theorem GaveUp.of_frozen {r r' : Run} (h : GaveUp t r) (hfrozen : r'.frozen = r.frozen) :
    GaveUp t r' := by
  have hattempt : r'.revisionAttempt = r.revisionAttempt := congrArg Frozen.revisionAttempt hfrozen
  unfold GaveUp
  rw [pipeline_of_frozen hfrozen, sourceRevision_of_frozen hfrozen, hattempt]
  exact h

/-- Nothing is left to try as long as no loss is forgiven and no revision is asked for. -/
theorem GaveUp.kept {t' : Task} {r : Run} (h : GaveUp t r)
    (hlost : t'.consecutiveLost = t.consecutiveLost)
    (hdesired : t'.desiredRevision = t.desiredRevision ∨ t'.desiredRevision = none) :
    GaveUp t' r := by
  rcases h with hgoose | hspent | ⟨hrevision, hnone | hattempts⟩
  · exact .inl hgoose
  · exact .inr (.inl (hlost.symm ▸ hspent))
  · refine .inr (.inr ⟨hrevision, .inl ?_⟩)
    rcases hdesired with hsame | hnone'
    · rw [hsame, hnone]
    · exact hnone'
  · exact .inr (.inr ⟨hrevision, .inr hattempts⟩)

/-- A decision that mints no run. -/
structure Stays (label : Step) (now : Time) (subject : Option Run) (t : Task) (d : Decision) :
    Prop where
  count : d.task.runCount = t.runCount
  lock : ∀ id ∈ d.task.activeRunId, t.activeRunId = some id
  writes : ∀ x ∈ d.writes, ∃ r, subject = some r ∧ Move label now r x
  gaveUp : t.activeRunId = none → ∀ r, GaveUp t r → GaveUp d.task r
  lost : ∀ r ∈ subject, isLive r.state = true → ∀ x ∈ d.writes, x.state = .lost → GaveUp d.task x

/-- A decision mints the run its task counts last, or none. -/
theorem Effect.mints_or_stays (h : Effect label now admitted overrun subject before d)
    (hlocks : ∀ r ∈ subject, isLive r.state = true → ∃ t ∈ before, t.activeRunId = some r.runId) :
    (∃ m ∈ d.writes, MintedHere before d m ∧ m.createdAt = now) ∨
      ∃ t, before = some t ∧ Stays label now subject t d := by
  cases h with
  | @touch _ t t' h =>
    refine .inr ⟨t, rfl, h.count, fun id hid => h.lock ▸ hid, fun x hx => ?_, fun hfree r hr => ?_,
      fun _ _ _ x hx => ?_⟩
    · cases hx
    · -- a revision is asked for only while a run holds the lock
      refine hr.kept h.lost (h.desired.imp_right fun hdesired => hdesired.resolve_right ?_)
      rintro ⟨-, -, -, hlocked⟩
      rw [hfree] at hlocked
      cases hlocked
    · cases hx
  | @rewrite t t' r r' outbox hmove hlive h =>
    have hwrites : ∀ x ∈ ({ task := t', run := some r', outbox } : Decision).writes, x = r' := by
      simp [Decision.writes]
    refine .inr ⟨t, rfl, h.count, fun id hid => h.lock ▸ hid, fun x hx => ?_,
      fun _ q hq => hq.kept h.lost h.desired, fun q hq hql x hx hxlost => ?_⟩
    · rw [hwrites x hx]
      exact ⟨r, rfl, hmove⟩
    · obtain rfl := Option.some.inj hq
      rw [hwrites x hx] at hxlost
      rw [hxlost, hql] at hlive
      cases hlive
  | @settle t t' r r' outbox hmove hr hr' h =>
    have hwrites : ∀ x ∈ ({ task := t', run := some r', outbox } : Decision).writes, x = r' := by
      simp [Decision.writes]
    refine .inr ⟨t, rfl, h.count, fun id hid => ?_, fun x hx => ?_, fun hfree => ?_,
      fun q hq hql x hx hxlost => ?_⟩
    · have hlock := h.lock
      split_ifs at hlock with hheld
      · rw [Option.mem_def.1 hid] at hlock
        cases hlock
      · exact hlock ▸ hid
    · rw [hwrites x hx]
      exact ⟨r, rfl, hmove⟩
    · obtain ⟨t₀, ht₀, hlocked⟩ := hlocks r rfl hr
      obtain rfl := Option.some.inj ht₀
      cases hfree.symm.trans hlocked
    · rw [hwrites x hx] at hxlost ⊢
      exact h.gaveUp hxlost
  | mint old dropped m hwrites _ _ _ _ hminted _ _ _ _ hdispatch _ hcreated =>
    exact .inl ⟨m, (hwrites m).2 (.inr rfl), hminted.here hdispatch, hcreated⟩

/-- A run a step writes was created before, or at its clock. -/
theorem Change.created (h : Change label s s') {id : String} {x : Run}
    (hx : s'.runs.get id = some x) :
    (∃ r, s.runs.get id = some r ∧ x.frozen = r.frozen) ∨ label.clock = some x.createdAt := by
  cases h with
  | aside h =>
    obtain ⟨now, r, hr, hmove⟩ := h.run_back hx
    exact .inl ⟨r, hr, hmove.frozen⟩
  | decide now admitted subject d heffect hsubject _ hwritten hclock =>
    rcases hwritten.get_cases hx with ⟨hmem, rfl⟩ | ⟨hsame, -⟩
    swap
    · exact .inl ⟨x, hsame, rfl⟩
    have hmoved : ∀ r, subject = some r → Move label now r x →
        ∃ r, s.runs.get x.runId = some r ∧ x.frozen = r.frozen := by
      intro r hr hmove
      refine ⟨r, ?_, hmove.frozen⟩
      rw [runId_of_frozen hmove.frozen]
      exact (hsubject r hr).1
    generalize (s.tasks.get (taskKey d.task.task)).map (·.task) = before at heffect
    cases heffect with
    | touch => cases hmem
    | rewrite hmove =>
      obtain rfl : x = _ := by simpa [Decision.writes] using hmem
      exact .inl (hmoved _ rfl hmove)
    | settle hmove =>
      obtain rfl : x = _ := by simpa [Decision.writes] using hmem
      exact .inl (hmoved _ rfl hmove)
    | mint old dropped m hwrites hmoves _ _ _ _ _ _ _ _ _ _ hcreated =>
      rcases (hwrites x).1 hmem with ⟨r, hold⟩ | rfl
      · obtain ⟨hr, hmove, -⟩ := hmoves r x hold
        exact .inl (hmoved r hr hmove)
      · exact .inr (hcreated ▸ hclock)

variable {k : String} {clocks : List Time}

/-- A task that mints no run keeps its newest one. -/
theorem Newest.kept {t' : Task} {r r' : Run} (h : Newest s k t r)
    (hr' : s'.runs.get (runIdOf k t.runCount) = some r') (hfrozen : r'.frozen = r.frozen)
    (hback : ∀ {id x}, s'.runs.get id = some x → taskKey x.task = k →
      ∃ x₀, s.runs.get id = some x₀ ∧ x.frozen = x₀.frozen)
    (hcount : t'.runCount = t.runCount) (hlock : ∀ id ∈ t'.activeRunId, t.activeRunId = some id)
    (hgave : r'.state = .lost → GaveUp t' r') : Newest s' k t' r' where
  stored := by rw [hcount, hr']
  key := by rw [task_of_frozen hfrozen, h.key]
  lock := fun id hid => by rw [hcount, h.lock id (hlock id hid)]
  youngest := by
    intro id x hx hk
    obtain ⟨x₀, hx₀, hx₀f⟩ := hback hx hk
    rw [task_of_frozen hx₀f] at hk
    have hle := h.youngest hx₀ hk
    rw [← show x.createdAt = x₀.createdAt from congrArg Frozen.createdAt hx₀f,
      ← show r'.createdAt = r.createdAt from congrArg Frozen.createdAt hfrozen] at hle
    exact hle
  gaveUp := hgave

/-- Without a decision a run does not settle. -/
theorem Aside.run_stays (h : Aside label s s') {id : String} {x : Run}
    (hx : s.runs.get id = some x) :
    ∃ x', s'.runs.get id = some x' ∧ x'.frozen = x.frozen ∧ (x'.state = .lost → x.state = .lost) := by
  cases h with
  | quiet h => exact ⟨x, h.runs ▸ hx, rfl, fun hlost => hlost⟩
  | outbox h => exact ⟨x, h.runs ▸ hx, rfl, fun hlost => hlost⟩
  | queue now r r' hget hmove hlive _ hruns =>
    by_cases hid : id = r.runId
    · subst hid
      obtain rfl := Option.some.inj (hx.symm.trans hget)
      refine ⟨r', by rw [hruns, OrderedMap.get_set_self], hmove.frozen, fun hlost => ?_⟩
      have hdead : isLive x.state = false := by rw [← hlive, hlost]; rfl
      rw [← (hmove.terminal hdead).1, hlost]
    · exact ⟨x, by rw [hruns, OrderedMap.get_set_of_ne _ _ hid]; exact hx, rfl, fun hlost => hlost⟩

/-- Every change keeps or replaces the newest run of a task. -/
theorem Change.newest (hs : s.Coherent) (h : Change label s s') (hinv : Chronicle clocks s)
    (hclocks : ∀ c ∈ clocks, ∀ now ∈ label.clock, c ≤ now) {vt' : VersionedTask}
    (hvt' : s'.tasks.get k = some vt') : ∃ r', Newest s' k vt'.task r' := by
  cases h with
  | aside h =>
    rw [h.tasks] at hvt'
    obtain ⟨r, hr⟩ := hinv.newest hvt'
    obtain ⟨r', hr', hfrozen, hlost⟩ := h.run_stays hr.stored
    refine ⟨r', hr.kept hr' hfrozen (fun hx _ => ?_) rfl (fun _ hid => hid) fun hl => ?_⟩
    · obtain ⟨now, x₀, hx₀, hmove⟩ := h.run_back hx
      exact ⟨x₀, hx₀, hmove.frozen⟩
    · exact (hr.gaveUp (hlost hl)).of_frozen hfrozen
  | decide now admitted subject d heffect hsubject hadmits hwritten hclock =>
    have hchange : Change label s s' :=
      .decide now admitted subject d heffect hsubject hadmits hwritten hclock
    have hkeyed : ∀ x ∈ d.writes, taskKey x.task = taskKey d.task.task := by
      intro x hx
      rcases heffect.write_cases hx with ⟨r, hr, hmove⟩ | hminted
      · rw [task_of_frozen hmove.frozen, (hsubject r hr).2]
      · exact hminted.key
    rw [hwritten.get_task] at hvt'
    split_ifs at hvt' with hk
    swap
    · -- another task: none of its runs is written
      obtain ⟨r, hr⟩ := hinv.newest hvt'
      obtain ⟨later, r', hr', hmove⟩ := hchange.run_moves hs hr.stored
      have hstill : s.runs.get (runIdOf k vt'.task.runCount) = some r' := by
        rcases hwritten.get_cases hr' with ⟨hmem, -⟩ | ⟨hsame, -⟩
        · refine absurd (hr.key.symm.trans ?_) hk
          rw [← task_of_frozen hmove.frozen, hkeyed r' hmem]
        · exact hsame
      obtain rfl := Option.some.inj (hr.stored.symm.trans hstill)
      refine ⟨r, hr.kept hr' rfl (fun hx hxk => ?_) rfl (fun _ hid => hid) hr.gaveUp⟩
      rcases hwritten.get_cases hx with ⟨hmem, -⟩ | ⟨hsame, -⟩
      · exact absurd (hxk.symm.trans (hkeyed _ hmem)) hk
      · exact ⟨_, hsame, rfl⟩
    subst hk
    obtain rfl := Option.some.inj hvt'
    rcases heffect.mints_or_stays fun r hr hlive => subject_locks hs rfl hsubject hr hlive with
      ⟨m, hm, hminted, hcreated⟩ | ⟨t, ht, hstays⟩
    · have hstored := hwritten.get_of_mem hs heffect hsubject hm
      refine ⟨m, hminted.runId ▸ hstored, hminted.key, fun id hid => ?_, fun hx hxk => ?_,
        fun hlost => ?_⟩
      · rw [hminted.lock] at hid
        rw [← Option.some.inj hid, hminted.runId]
      · rw [hcreated]
        rcases hchange.created hx with ⟨x₀, hx₀, hfrozen⟩ | hnow
        · have hmem := hinv.created hx₀
          rw [← show _ = x₀.createdAt from congrArg Frozen.createdAt hfrozen] at hmem
          exact hclocks _ hmem now hclock
        · exact (Option.some.inj (hnow.symm.trans hclock)).le
      · cases hminted.fresh.state.symm.trans hlost
    · obtain ⟨vt, hvt, rfl⟩ := Option.map_eq_some_iff.1 ht
      obtain ⟨r, hr⟩ := hinv.newest hvt
      obtain ⟨later, r', hr', hmove⟩ := hchange.run_moves hs hr.stored
      refine ⟨r', hr.kept hr' hmove.frozen (fun hx _ => ?_) hstays.count hstays.lock fun hlost => ?_⟩
      · rcases hwritten.get_cases hx with ⟨hmem, rfl⟩ | ⟨hsame, -⟩
        · obtain ⟨q, hq, hqmove⟩ := hstays.writes _ hmem
          rw [runId_of_frozen hqmove.frozen]
          exact ⟨q, (hsubject q hq).1, hqmove.frozen⟩
        · exact ⟨_, hsame, rfl⟩
      · cases hlive : isLive r.state with
        | true =>
          -- a run settles only where it is written
          rcases hwritten.get_cases hr' with ⟨hmem, hid⟩ | ⟨hsame, -⟩
          · obtain ⟨q, hq, hqmove⟩ := hstays.writes r' hmem
            have hget := (hsubject q hq).1
            rw [← runId_of_frozen hqmove.frozen, hid, hr.stored] at hget
            obtain rfl := Option.some.inj hget
            exact hstays.lost r hq hlive r' hmem hlost
          · obtain rfl := Option.some.inj (hr.stored.symm.trans hsame)
            rw [hlost] at hlive
            cases hlive
        | false =>
          have hfree : vt.task.activeRunId = none := by
            by_contra hne
            obtain ⟨id, hid⟩ := Option.ne_none_iff_exists'.1 hne
            obtain ⟨holder, hholder, hholds, -⟩ := hs.holder hvt hid
            rw [hr.lock id hid, hr.stored] at hholder
            obtain rfl := Option.some.inj hholder
            cases hlive.symm.trans hholds
          rw [(hmove.terminal hlive).1] at hlost
          exact (hstays.gaveUp hfree r (hr.gaveUp hlost)).of_frozen hmove.frozen

theorem Change.chronicle (hs : s.Coherent) (h : Change label s s') (hinv : Chronicle clocks s)
    (hclocks : ∀ c ∈ clocks, ∀ now ∈ label.clock, c ≤ now) :
    Chronicle (clocks ++ label.clock.toList) s' where
  newest := h.newest hs hinv hclocks
  created := by
    intro id x hx
    rw [List.mem_append]
    rcases h.created hx with ⟨x₀, hx₀, hfrozen⟩ | hnow
    · left
      rw [show x.createdAt = x₀.createdAt from congrArg Frozen.createdAt hfrozen]
      exact hinv.created hx₀
    · right
      rw [hnow]
      exact List.mem_singleton_self _

end Change

/-! ### Lost runs have nothing to publish -/

theorem Move.lost_unreported {label : Step} {now : Time} {r r' : Run} (hmove : Move label now r r')
    (h : Deferral r) (hlost : r.state = .lost → r.result = none) :
    r'.state = .lost → r'.result = none := by
  cases hmove with
  | confirm => exact nofun
  | complete => exact nofun
  | settle hlive _ hs hc =>
    rw [hc.state, hc.result]
    cases hs with
    | lose => exact fun _ => h.unsettled hlive
    | _ => exact nofun
  | _ => exact hlost

/-- A lost run carries no publication. -/
theorem World.lost_unpublished (steps : List Step) {id : String} {r : Run}
    (hr : (World.init.run steps).store.runs.get id = some r) (hlost : r.state = .lost) :
    r.triagePublication = none := by
  have hunreported := World.invariant_run
    (fun s => (Fences s ∧ Deferrals s) ∧
      ∀ id r, s.runs.get id = some r → r.state = .lost → r.result = none)
    ⟨⟨⟨fun h => (by cases h), fun h => (by cases h)⟩, fun h => (by cases h)⟩, by
      intro id r h
      cases h⟩
    (fun hs h hinv => ⟨h.deferrals hs hinv.1, fun id x hx => by
      rcases h.run_cases hs hx with ⟨now, r, hr, hmove⟩ | ⟨-, hfresh⟩
      · exact hmove.lost_unreported (hinv.1.2 hr) (hinv.2 id r hr)
      · exact fun _ => hfresh.result⟩) steps
  have hdeferral := World.deferrals_run steps hr
  by_contra hne
  rcases hdeferral.triage (Option.isSome_iff_ne_none.2 hne) with hok | hok
  · rw [hunreported.2 id r hr hlost] at hok
    cases hok
  · rw [hdeferral.terminal (by rw [hlost]; rfl)] at hok
    cases hok

/-! ### The latest run -/

section Latest

variable (locale : Text.Locale)

/-- What runs are sorted by. -/
def runOrder (r : Run) : Time ×ₗ List (Nat ×ₗ Nat) :=
  toLex (r.createdAt, Text.numericKey locale none r.runId.toList)

theorem compareRunOrder_isLE {a b : Run} :
    (compareRunOrder locale a b).isLE = true ↔ runOrder locale a ≤ runOrder locale b := by
  rw [compareRunOrder, Ordering.isLE_then_iff_or, runOrder, runOrder, Prod.Lex.toLex_le_toLex]
  refine or_congr ?_ (and_congr ?_ ?_)
  · unfold compareOfLessAndEq
    split_ifs <;> simp_all
  · unfold compareOfLessAndEq
    split_ifs with h <;> simp_all [Int.ne_of_lt]
  · unfold Text.compareNumeric compareOfLessAndEq
    split_ifs with hlt heq
    · simp [le_of_lt hlt]
    · simp [heq]
    · simpa using lt_of_le_of_ne (not_lt.1 hlt) (Ne.symm heq)

/-- The run that every other one is before is the latest. -/
theorem latestRun_eq {runs : List Run} {r : Run} (hr : r ∈ runs)
    (hlast : ∀ x ∈ runs, x ≠ r → runOrder locale x < runOrder locale r) :
    latestRun locale runs = some r := by
  have hsort : (fun a b : Run => (compareRunOrder locale b a).isLE = true) =
      fun a b => runOrder locale b ≤ runOrder locale a := by
    funext a b
    exact propext (compareRunOrder_isLE locale)
  have htotal : Std.Total fun a b : Run => (compareRunOrder locale b a).isLE = true :=
    hsort ▸ ⟨fun a b => le_total _ _⟩
  have htrans : IsTrans Run fun a b => (compareRunOrder locale b a).isLE = true :=
    hsort ▸ ⟨fun a b c hab hbc => hbc.trans hab⟩
  have hsorted := List.pairwise_insertionSort
    (fun a b : Run => (compareRunOrder locale b a).isLE = true) runs
  have hmem : r ∈ runs.insertionSort fun a b => (compareRunOrder locale b a).isLE :=
    (List.mem_insertionSort _).2 hr
  unfold latestRun
  cases hl : runs.insertionSort fun a b => (compareRunOrder locale b a).isLE with
  | nil => simp [hl] at hmem
  | cons x rest =>
    rw [hl] at hmem hsorted
    rcases List.mem_cons.1 hmem with rfl | hrest
    · rfl
    · -- the head is not before `r`, so it is `r`
      have hle : (compareRunOrder locale r x).isLE = true :=
        (List.pairwise_cons.1 hsorted).1 r hrest
      by_contra hne
      have hx : x ∈ runs := by
        rw [← List.mem_insertionSort fun a b : Run => (compareRunOrder locale b a).isLE, hl]
        exact List.mem_cons_self
      have hlt := hlast x hx fun heq => hne (by rw [heq]; rfl)
      exact absurd ((compareRunOrder_isLE locale).1 hle) (not_le.2 hlt)

/-- Runs of one task are ordered by creation, then by generation. -/
theorem runOrder_lt {a b : Run} {k : String} {m n : Nat} (ha : a.runId = runIdOf k m)
    (hb : b.runId = runIdOf k n) (hcreated : a.createdAt ≤ b.createdAt) (hmn : m < n) :
    runOrder locale a < runOrder locale b := by
  have hkey : Text.compareNumeric locale a.runId b.runId = .lt := by
    have hcut : ∀ j : Nat, runIdOf k j = (k ++ "/") ++ String.singleton 'r' ++ toString j := by
      intro j
      have hword : k ++ "/" ++ String.singleton 'r' = k ++ "/r" := by
        rw [String.append_assoc]
        rfl
      rw [hword]
      rfl
    rw [ha, hb, hcut, hcut, Text.compareNumeric_append_decimal locale _ (by decide)]
    simp [compareOfLessAndEq, hmn]
  rw [runOrder, runOrder, Prod.Lex.toLex_lt_toLex]
  rcases hcreated.lt_or_eq with hlt | heq
  · exact .inl hlt
  · refine .inr ⟨heq, ?_⟩
    unfold Text.compareNumeric compareOfLessAndEq at hkey
    split_ifs at hkey with hlt
    exact hlt

/-- The newest run of a task is the latest of its runs. -/
theorem Newest.latestRun {s : Store} {k : String} {vt : VersionedTask} {r : Run}
    (hs : s.Coherent) (hvt : s.tasks.get k = some vt) (h : Newest s k vt.task r)
    {runs : List Run} (hruns : ∀ x, x ∈ runs ↔ s.runs.get x.runId = some x ∧ taskKey x.task = k) :
    AgentLcars.latestRun locale runs = some r := by
  have hid : r.runId = runIdOf k vt.task.runCount := hs.runKeyed h.stored
  refine latestRun_eq locale ((hruns r).2 ⟨hid ▸ h.stored, h.key⟩) fun x hx hne => ?_
  obtain ⟨hget, hk⟩ := (hruns x).1 hx
  obtain ⟨n, hn, hxid⟩ := hs.counted_of hvt hget hk
  refine runOrder_lt locale hxid hid (h.youngest hget hk) ?_
  -- the last generation is that of `r`
  refine lt_of_le_of_ne hn fun heq => hne ?_
  rw [hxid, show n + 1 = vt.task.runCount from heq, h.stored] at hget
  exact (Option.some.inj hget).symm

end Latest

/-! ### Reachable states -/

/-- The clocks of a run. -/
def clocksOf (steps : List Step) : List Time := steps.filterMap Step.clock

/-- Under a clock that never goes back, every task has its newest run. -/
theorem World.chronicle_run (steps : List Step) (hclock : (clocksOf steps).Pairwise (· ≤ ·)) :
    Chronicle (clocksOf steps) (World.init.run steps).store := by
  induction steps using List.reverseRecOn with
  | nil => exact chronicle_empty _
  | append_singleton steps label ih =>
    have hsplit : clocksOf (steps ++ [label]) = clocksOf steps ++ label.clock.toList := by
      cases hl : label.clock <;> simp [clocksOf, hl]
    rw [hsplit] at hclock ⊢
    obtain ⟨hbefore, -, hlast⟩ := List.pairwise_append.1 hclock
    have hw := World.coherent_run steps
    rw [World.run_append]
    refine (hw.change label).chronicle hw.store (ih hbefore) fun c hc now hnow => ?_
    exact hlast c hc now (Option.mem_toList.2 hnow)

/-! ### The table -/

/-- What is reported of a task agrees with the task and its runs. -/
structure StateAgrees (locale : Text.Locale) (s : Store) (task : Task) (runs : List Run) :
    Prop where
  /-- The latest run is the one the task counted last. -/
  latest : ∃ r, latestRun locale runs = some r ∧
    s.runs.get (runIdOf (taskKey task.task) task.runCount) = some r
  /-- Running means that something is under way. -/
  running : deriveItemState locale task runs = .running →
    (∃ r ∈ runs, isLive r.state = true) ∨ deliveryWaiting task = true ∨
      (∃ r, latestRun locale runs = some r ∧ r.triagePublication = some ⟨.pending⟩) ∨ runs = []
  /-- A lost run without a successor is not reported running. -/
  lost : ∀ r, latestRun locale runs = some r → r.state = .lost →
    deriveItemState locale task runs ≠ .running
  /-- A live run is not reported as over. -/
  live : (∃ r ∈ runs, isLive r.state = true) → deriveItemState locale task runs ≠ .done ∧
    deriveItemState locale task runs ≠ .parked ∧ deriveItemState locale task runs ≠ .failed

section Table

variable {locale : Text.Locale} {task : Task} {r : Run}

/-- A run that was given up is not running, unless its publication is pending. -/
theorem deriveRunState_lost (hlost : r.state = .lost) (hgave : GaveUp task r)
    (hpublication : r.triagePublication = none) : deriveRunState task r ≠ .running := by
  have hdead : ¬isLive r.state = true := by simp [hlost, isLive]
  unfold deriveRunState
  simp only [hpublication, Option.map_none, reduceCtorEq, if_false, if_neg hdead]
  split_ifs with hrevision hdelivered
  · intro h
    cases h
  · intro h
    cases h
  · unfold deriveSettledState
    rw [if_neg (by simp [hlost])]
    split_ifs with hgoose hbudget
    · intro h
      cases h
    · intro h
      cases h
    · rcases hgave with h | h | ⟨hsome, hnone | hattempts⟩
      · exact absurd h hgoose
      · exact absurd (.inl h) hbudget
      · exact absurd ⟨hsome, hnone⟩ hrevision
      · exact absurd (.inr ⟨hsome, hattempts⟩) hbudget

/-- A finished run is running only in its publication. -/
theorem deriveRunState_finished (hfinished : r.state = .finished)
    (h : deriveRunState task r = .running) : r.triagePublication = some ⟨.pending⟩ := by
  have hdead : ¬isLive r.state = true := by simp [hfinished, isLive]
  unfold deriveRunState at h
  simp only [if_neg hdead] at h
  split_ifs at h with hcomplete hrevision hpending hfailed hsuperseded hdelivered
  · cases hp : r.triagePublication with
    | none => simp [hp] at hpending
    | some p =>
      obtain ⟨state⟩ := p
      simpa [hp] using hpending
  · unfold deriveSettledState at h
    rw [if_pos hfinished] at h
    split_ifs at h

variable {runs : List Run}

/-- A lost run that was given up is not running. -/
theorem deriveItemState_lost (hlatest : latestRun locale runs = some r) (hlost : r.state = .lost)
    (hgave : GaveUp task r) (hpublication : r.triagePublication = none) :
    deriveItemState locale task runs ≠ .running := by
  unfold deriveItemState
  simp only [hlatest, Option.map_some, hlost, ne_eq, not_true, and_false, if_false]
  split_ifs
  · exact nofun
  · exact deriveRunState_lost hlost hgave hpublication

/-- Apart from lost runs, running means live, waited for, or in publication. -/
theorem deriveItemState_running (hlatest : latestRun locale runs = some r) (hlost : r.state ≠ .lost)
    (h : deriveItemState locale task runs = .running) : isLive r.state = true ∨
      deliveryWaiting task = true ∨ r.triagePublication = some ⟨.pending⟩ := by
  by_cases hwaiting : deliveryWaiting task = true
  · exact .inr (.inl hwaiting)
  unfold deriveItemState at h
  simp only [hlatest, Option.map_some, if_neg (show ¬(deliveryWaiting task = true ∧ _) from
    fun hw => hwaiting hw.1)] at h
  split_ifs at h with hclosed
  cases hstate : r.state with
  | pending => exact .inl rfl
  | running => exact .inl rfl
  | finished => exact .inr (.inr (deriveRunState_finished hstate h))
  | canceled => exact absurd (.inr (by rw [hstate])) hclosed
  | lost => exact absurd hstate hlost

/-- A live latest run is running, or its task is closed. -/
theorem deriveItemState_live (hlatest : latestRun locale runs = some r)
    (hlive : isLive r.state = true) : deriveItemState locale task runs = .running ∨
      deriveItemState locale task runs = .canceled := by
  have hfinished : r.state ≠ .finished := by
    rintro heq
    rw [heq] at hlive
    cases hlive
  unfold deriveItemState
  simp only [hlatest, Option.map_some, Option.any_some, hfinished, false_and, decide_false,
    Bool.false_eq_true, if_false]
  split_ifs
  · exact .inr rfl
  · exact .inl rfl
  · left
    unfold deriveRunState
    rw [if_pos hlive]

end Table

/-- The clocks never go back, so every item is reported as it is. -/
theorem World.item_state (locale : Text.Locale) (steps : List Step)
    (hclock : (clocksOf steps).Pairwise (· ≤ ·)) (k : String) (vt : VersionedTask)
    (hvt : (World.init.run steps).store.tasks.get k = some vt) (runs : List Run)
    (hruns : runs.Perm ((World.init.run steps).store.listRuns vt.task.task)) :
    StateAgrees locale (World.init.run steps).store vt.task runs := by
  have hs := (World.coherent_run steps).store
  obtain ⟨r, hr⟩ := (World.chronicle_run steps hclock).newest hvt
  have hk : taskKey vt.task.task = k := hs.taskKeyed hvt
  have hmem : ∀ x, x ∈ runs ↔
      (World.init.run steps).store.runs.get x.runId = some x ∧ taskKey x.task = k := by
    intro x
    rw [hruns.mem_iff, Store.listRuns, List.mem_filter, OrderedMap.mem_values_iff,
      decide_eq_true_eq, hk]
    refine and_congr_left fun _ => ⟨?_, fun hget => ⟨_, hget⟩⟩
    rintro ⟨id, hget⟩
    rw [hs.runKeyed hget]
    exact hget
  have hlatest : latestRun locale runs = some r := hr.latestRun locale hs hvt hmem
  have hr_mem : r ∈ runs := (hmem r).2 ⟨by rw [hs.runKeyed hr.stored]; exact hr.stored, hr.key⟩
  have hlost : r.state = .lost → deriveItemState locale vt.task runs ≠ .running := fun hl =>
    deriveItemState_lost hlatest hl (hr.gaveUp hl) (World.lost_unpublished steps hr.stored hl)
  refine ⟨⟨r, hlatest, by rw [hk]; exact hr.stored⟩, fun hrunning => ?_, fun q hq hl => ?_,
    fun ⟨x, hx, hlive⟩ => ?_⟩
  · rcases deriveItemState_running hlatest (fun hl => hlost hl hrunning) hrunning with
      hlive | hwaiting | hpending
    · exact .inl ⟨r, hr_mem, hlive⟩
    · exact .inr (.inl hwaiting)
    · exact .inr (.inr (.inl ⟨r, hlatest, hpending⟩))
  · obtain rfl := Option.some.inj (hlatest.symm.trans hq)
    exact hlost hl
  · -- the live run holds the lock, so it is the latest
    obtain ⟨hget, hxk⟩ := (hmem x).1 hx
    have hlock := hr.lock _ (hs.mutex hget (hxk ▸ hvt) hlive)
    rw [hlock, hr.stored] at hget
    obtain rfl := Option.some.inj hget
    rcases deriveItemState_live hlatest hlive with heq | heq <;> rw [heq] <;>
      exact ⟨nofun, nofun, nofun⟩

/-- The claimed run of a work item is running. -/
theorem World.item_state_claimed : ∃ vt,
    (World.init.run (Sample.claimed "claude")).store.tasks.get "work:w" = some vt ∧
      StateAgrees ⟨fun c => [c.toNat], 0⟩ (World.init.run (Sample.claimed "claude")).store vt.task
        ((World.init.run (Sample.claimed "claude")).store.listRuns vt.task.task) := by
  obtain ⟨vt, hvt⟩ : ∃ vt, (World.init.run (Sample.claimed "claude")).store.tasks.get "work:w" =
      some vt := Option.isSome_iff_exists.1 (by decide +kernel)
  exact ⟨vt, hvt, World.item_state ⟨fun c => [c.toNat], 0⟩ (Sample.claimed "claude")
    (by decide) "work:w" vt hvt _ (List.Perm.refl _)⟩

end AgentLcars
