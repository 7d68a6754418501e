import AgentLcars.Lib.Counting
import AgentLcars.Requests

/-!
# Automatic recovery

A run with a fallback policy may be succeeded on another pipeline, a lost run by one more like it, a
finished one by a correction.  All of these carry the policy of the run before them, and as a run
has one successor at most, the runs that share an original run form one line.  Each fallback adds a
pipeline to what the line has attempted, so there are no more fallbacks than allowed pipelines.

* `Inherits` says what a minted run takes over; `Policies` is the invariant of the stored ones.
* `Recovers` bounds what a line may still cost: two losses on each pipeline it has left.
* `World.recovery_bounded`: an admitted run is recovered at most `3 * (1 + A) - 1` times.
-/

namespace AgentLcars

/-! ### Policies -/

theorem providerFallback_of_frozen {r r' : Run} (h : r'.frozen = r.frozen) :
    r'.providerFallback = r.providerFallback := congrArg Frozen.providerFallback h

/-- The policy of a stored run: where it comes from, and what it has attempted. -/
structure PolicyOf (s : Store) (r : Run) (p : ProviderFallback) : Prop where
  numbered : ∃ n, p.originalRunId = runIdOf (taskKey r.task) n
  root : ∃ o, s.runs.get p.originalRunId = some o ∧
    o.providerFallback.map (·.allowedPipelines) = some p.allowedPipelines ∧
    ∀ pipeline ∈ p.attemptedPipelines, pipeline = o.pipeline ∨ pipeline ∈ p.allowedPipelines
  nodup : p.attemptedPipelines.Nodup
  last : p.attemptedPipelines.getLast? = some r.pipeline
  further : r.requestSource = .providerFallback → r.runId ≠ p.originalRunId →
    2 ≤ p.attemptedPipelines.length

/-- No stored run of the line has attempted more. -/
def Heads (s : Store) (p : ProviderFallback) : Prop :=
  ∀ id x q, s.runs.get id = some x → x.providerFallback = some q →
    q.originalRunId = p.originalRunId →
    q.attemptedPipelines.length ≤ p.attemptedPipelines.length

/-- The lines of the stored policies: the live run, or else the run whose delivery may still be
corrected, is at the head of its line. -/
structure Policies (s : Store) : Prop where
  sound : ∀ {id r p}, s.runs.get id = some r → r.providerFallback = some p → PolicyOf s r p
  latest : ∀ {id r p}, s.runs.get id = some r → isLive r.state = true →
    r.providerFallback = some p → Heads s p
  distinct : ∀ {i j a b p q}, s.runs.get i = some a → s.runs.get j = some b →
    a.providerFallback = some p → b.providerFallback = some q →
    q.originalRunId = p.originalRunId →
    q.attemptedPipelines.length = p.attemptedPipelines.length →
    a.requestSource = .providerFallback → b.requestSource = .providerFallback →
    a.runId ≠ p.originalRunId → b.runId ≠ p.originalRunId → i = j
  held : ∀ {k vt b}, s.tasks.get k = some vt → b ∈ vt.task.delivery →
    ∃ r, s.runs.get b.runId = some r
  delivered : ∀ {k vt b r p}, s.tasks.get k = some vt → b ∈ vt.task.delivery →
    b.correctionRunId = none → s.runs.get b.runId = some r → r.providerFallback = some p →
    taskKey r.task = k ∧ Heads s p ∧ ∀ id x q, s.runs.get id = some x →
      x.providerFallback = some q → q.originalRunId = p.originalRunId → isLive x.state = false

/-- What a minted run takes over from the run before it. -/
inductive Inherits (s : Store) (delivery : Option DeliveryBinding) (m : Run) :
    ProviderFallback → Prop where
  | root {q} (horigin : q.originalRunId = m.runId) (hattempted : q.attemptedPipelines = [m.pipeline]) :
      Inherits s delivery m q
  | same {q} (r : Run) (hr : s.runs.get r.runId = some r) (hkey : taskKey r.task = taskKey m.task)
      (hq : r.providerFallback = some q) (hpipeline : m.pipeline = r.pipeline)
      (hsource : m.requestSource ≠ .providerFallback) (hhead : Heads s q)
      (hpast : isLive r.state = true ∨ ∀ b ∈ delivery, b.correctionRunId ≠ none) :
      Inherits s delivery m q
  | next {q} (r : Run) (p : ProviderFallback) (hr : s.runs.get r.runId = some r)
      (hkey : taskKey r.task = taskKey m.task) (hp : r.providerFallback = some p)
      (horigin : q.originalRunId = p.originalRunId)
      (hallowed : q.allowedPipelines = p.allowedPipelines)
      (hattempted : q.attemptedPipelines = p.attemptedPipelines ++ [m.pipeline])
      (hin : m.pipeline ∈ p.allowedPipelines) (hout : m.pipeline ∉ p.attemptedPipelines)
      (hhead : Heads s p) (hlive : isLive r.state = true) : Inherits s delivery m q

section Policies

variable {label : Step} {now : Time} {admitted : Option (RequestSource × String)} {overrun : Prop}
  {subject : Option Run} {before : Option Task} {d : Decision} {s s' : Store}

theorem inherited_of_minted {policy : Option ProviderFallback} {pipeline runId : String}
    {q : ProviderFallback}
    (h : mintedFallback (policy.map .inherited) pipeline runId = some q) : policy = some q := by
  cases policy with
  | none => cases h
  | some p =>
    simp only [Option.map_some, mintedFallback] at h
    split_ifs at h
    exact h

/-- What a minted run takes over. -/
theorem Origin.inherits (hinv : Policies s) {k : String} {old : Option (Run × Run)} {t' : Task}
    {m : Run} (hbefore : (s.tasks.get k).map (·.task) = before)
    (hold : ∀ r r', old = some (r, r') → s.runs.get r.runId = some r ∧ taskKey r.task = k)
    (hkey : taskKey m.task = k) (horigin : Origin admitted before old t' m) {q : ProviderFallback}
    (hq : m.providerFallback = some q) : Inherits s t'.delivery m q := by
  cases horigin with
  | request _ _ _ _ _ hasked =>
    obtain ⟨policy, hpolicy⟩ := hasked.policy
    rw [hpolicy] at hq
    cases policy with
    | none => cases hq
    | some policy =>
      simp only [Option.map_some, mintedFallback] at hq
      split_ifs at hq
      obtain rfl := Option.some.inj hq
      exact .root rfl rfl
  | fallback r r' hrr' hr _ _ _ _ _ _ _ hfalls =>
    obtain ⟨hget, hrk⟩ := hold r r' hrr'
    obtain ⟨p, fromRunId, trigger, hp, hin, hout, hm⟩ := hfalls.policy
    rw [hm] at hq
    obtain rfl := Option.some.inj hq
    exact .next r p hget (hrk.trans hkey.symm) hp rfl rfl rfl hin hout (hinv.latest hget hr hp) hr
  | correction r t b hrr' hr ht hb hrun hnew hsource _ _ _ _ hdelivery _ hcorrects =>
    obtain ⟨hget, hrk⟩ := hold r r hrr'
    rw [hcorrects.policy] at hq
    have hr := inherited_of_minted hq
    obtain ⟨vt, hvt, rfl⟩ := Option.map_eq_some_iff.1 (hbefore.trans ht)
    refine .same r hget (hrk.trans hkey.symm) hr hcorrects.pipeline (by rw [hsource]; decide)
      (hinv.delivered hvt hb hnew (hrun ▸ hget) hr).2.1 (.inr ?_)
    intro b' hb'
    rw [hdelivery] at hb'
    obtain rfl := Option.some.inj hb'
    simp
  | retry r r' t hrr' hr _ hsource _ _ _ _ _ _ _ hretries =>
    obtain ⟨hget, hrk⟩ := hold r r' hrr'
    have hp : r.providerFallback = some q := by
      rcases hretries.policy with hnone | hinherited
      · rw [hnone] at hq
        cases hq
      · exact inherited_of_minted (hinherited ▸ hq)
    exact .same r hget (hrk.trans hkey.symm) hp hretries.pipeline (by rw [hsource]; decide)
      (hinv.latest hget hr hp) (.inl hr)
  | supersede _ _ _ _ _ _ _ _ _ _ _ _ _ _ _ _ _ _ hsupersedes =>
    rw [hsupersedes.policy] at hq
    cases hq

/-- A stored run of the line a fresh run joins has attempted no more than it. -/
theorem Inherits.kin (hinv : Policies s) {delivery : Option DeliveryBinding} {m : Run}
    {q : ProviderFallback} (h : Inherits s delivery m q) (hnew : s.runs.get m.runId = none) {id : String} {x : Run}
    {p : ProviderFallback} (hx : s.runs.get id = some x) (hp : x.providerFallback = some p)
    (hkin : p.originalRunId = q.originalRunId) :
    taskKey x.task = taskKey m.task ∧
      p.attemptedPipelines.length ≤ q.attemptedPipelines.length ∧
      (m.requestSource = .providerFallback →
        p.attemptedPipelines.length < q.attemptedPipelines.length) ∧
      ((∃ id r p', s.runs.get id = some r ∧ isLive r.state = true ∧ r.providerFallback = some p' ∧
        p'.originalRunId = q.originalRunId) ∨ ∀ b ∈ delivery, b.correctionRunId ≠ none) := by
  -- all runs of a line belong to the task its original run was admitted to
  have hsame : ∀ {r : Run} {p' : ProviderFallback}, s.runs.get r.runId = some r →
      taskKey r.task = taskKey m.task → r.providerFallback = some p' →
      p'.originalRunId = q.originalRunId → taskKey x.task = taskKey m.task := by
    intro r p' hr hkey hp' hkin'
    obtain ⟨n, hn⟩ := (hinv.sound hx hp).numbered
    obtain ⟨n', hn'⟩ := (hinv.sound hr hp').numbered
    rw [hkin, ← hkin', hn', runIdOf_inj] at hn
    exact hn.1.symm.trans hkey
  cases h with
  | root horigin =>
    obtain ⟨o, ho, -⟩ := (hinv.sound hx hp).root
    rw [hkin, horigin, hnew] at ho
    cases ho
  | same r hr hkey hq hpipeline hsource hhead hpast =>
    refine ⟨hsame hr hkey hq rfl, hhead _ _ _ hx hp hkin, fun h => absurd h hsource, ?_⟩
    exact hpast.imp (fun hlive => ⟨_, r, q, hr, hlive, hq, rfl⟩) fun h => h
  | next r p' hr hkey hp' horigin hallowed hattempted hin hout hhead hlive =>
    have hle := hhead _ _ _ hx hp (hkin.trans horigin)
    have hlength : q.attemptedPipelines.length = p'.attemptedPipelines.length + 1 := by
      simp [hattempted]
    exact ⟨hsame hr hkey hp' horigin.symm, by omega, fun _ => by omega,
      .inl ⟨_, r, p', hr, hlive, hp', horigin.symm⟩⟩

/-- A fresh run of the task `k`, which is left with the given delivery. -/
structure Newcomer (s : Store) (k : String) (delivery : Option DeliveryBinding) (m : Run) : Prop where
  unstored : s.runs.get m.runId = none
  live : isLive m.state = true
  key : taskKey m.task = k
  numbered : ∃ n, m.runId = runIdOf k n
  inherits : ∀ {q}, m.providerFallback = some q → Inherits s delivery m q

/-- A policy that a stored run keeps. -/
theorem PolicyOf.kept {r r' : Run} {p : ProviderFallback} (h : PolicyOf s r p)
    (hfrozen : r'.frozen = r.frozen)
    (hforth : ∀ id x, s.runs.get id = some x → ∃ x', s'.runs.get id = some x' ∧ x'.frozen = x.frozen) :
    PolicyOf s' r' p where
  numbered := task_of_frozen hfrozen ▸ h.numbered
  root := by
    obtain ⟨o, ho, hallowed, hattempted⟩ := h.root
    obtain ⟨o', ho', hfrozen'⟩ := hforth _ _ ho
    refine ⟨o', ho', by rw [providerFallback_of_frozen hfrozen']; exact hallowed, ?_⟩
    rw [pipeline_of_frozen hfrozen']
    exact hattempted
  nodup := h.nodup
  last := by
    rw [pipeline_of_frozen hfrozen]
    exact h.last
  further := by
    rw [requestSource_of_frozen hfrozen, runId_of_frozen hfrozen]
    exact h.further

/-- The policy of a fresh run. -/
theorem Newcomer.policyOf (hinv : Policies s) {k : String} {delivery : Option DeliveryBinding}
    {m : Run} (hm : Newcomer s k delivery m) (hstored : s'.runs.get m.runId = some m)
    (hforth : ∀ id x, s.runs.get id = some x → ∃ x', s'.runs.get id = some x' ∧ x'.frozen = x.frozen)
    {q : ProviderFallback} (hq : m.providerFallback = some q) : PolicyOf s' m q := by
  cases hm.inherits hq with
  | root horigin hattempted =>
    refine ⟨?_, ⟨m, by rw [horigin]; exact hstored, by rw [hq]; rfl, ?_⟩, ?_, ?_, ?_⟩
    · rw [horigin, hm.key]
      exact hm.numbered
    · intro pipeline hmem
      rw [hattempted] at hmem
      exact .inl (List.mem_singleton.1 hmem)
    · rw [hattempted]
      exact List.nodup_singleton _
    · rw [hattempted]
      rfl
    · exact fun _ hne => absurd horigin.symm hne
  | same r hr hkey hp hpipeline hsource =>
    obtain ⟨r', hr', hfrozen⟩ := hforth _ _ hr
    have hsound := (hinv.sound hr hp).kept hfrozen hforth
    exact ⟨hkey ▸ (hinv.sound hr hp).numbered, hsound.root, hsound.nodup,
      by rw [hpipeline]; exact (hinv.sound hr hp).last, fun h => absurd h hsource⟩
  | next r p hr hkey hp horigin hallowed hattempted hin hout =>
    obtain ⟨r', hr', hfrozen⟩ := hforth _ _ hr
    have hsound := (hinv.sound hr hp).kept hfrozen hforth
    refine ⟨?_, ?_, ?_, ?_, ?_⟩
    · rw [horigin, ← hkey]
      exact (hinv.sound hr hp).numbered
    · obtain ⟨o, ho, hsame, hfrom⟩ := hsound.root
      rw [horigin, hallowed, hattempted]
      refine ⟨o, ho, hsame, fun pipeline hmem => ?_⟩
      rcases List.mem_append.1 hmem with hmem | hmem
      · exact hfrom pipeline hmem
      · exact .inr (List.mem_singleton.1 hmem ▸ hin)
    · rw [hattempted]
      exact hsound.nodup.append (List.nodup_singleton _) (by simpa using hout)
    · rw [hattempted]
      exact List.getLast?_concat
    · intro _ _
      have hpos : p.attemptedPipelines ≠ [] := by
        rintro hnil
        have hlast := (hinv.sound hr hp).last
        rw [hnil] at hlast
        cases hlast
      have := List.length_pos_iff.2 hpos
      simp only [hattempted, List.length_append, List.length_singleton]
      omega


/-- A live run that was stored shares its line with no newcomer. -/
theorem Newcomer.apart (hs' : s'.Coherent) (hinv : Policies s) {k : String}
    {left : Option DeliveryBinding} {i j : String} {r r' x : Run} {p q : ProviderFallback} (hr : s.runs.get i = some r) (hp : r.providerFallback = some p)
    (hr' : s'.runs.get i = some r') (hmove : Move label now r r')
    (hx : s'.runs.get j = some x) (hnx : Newcomer s k left x) (hq : x.providerFallback = some q)
    (hkin : p.originalRunId = q.originalRunId) : isLive r'.state = false := by
  obtain ⟨hkey, -⟩ := (hnx.inherits hq).kin hinv hnx.unstored hr hp hkin
  rw [← task_of_frozen hmove.frozen] at hkey
  by_contra hlive
  rw [Bool.not_eq_false] at hlive
  have hnone := hnx.unstored
  rw [hs'.runKeyed hx, ← hs'.live_unique hr' hx hkey hlive hnx.live, hr] at hnone
  cases hnone

/-- The runs and deliveries after a step, by where they come from. -/
structure Lines (label : Step) (s s' : Store) (k : String) (left : Option DeliveryBinding) :
    Prop where
  document : ∀ vt, s'.tasks.get k = some vt → vt.task.delivery = left
  back : ∀ {id x'}, s'.runs.get id = some x' →
    (∃ now x, s.runs.get id = some x ∧ Move label now x x') ∨ Newcomer s k left x'
  forth : ∀ {id x}, s.runs.get id = some x →
    ∃ now x', s'.runs.get id = some x' ∧ Move label now x x'
  delivery : ∀ {k vt b'}, s'.tasks.get k = some vt → b' ∈ vt.task.delivery →
    (∃ vt₀ b, s.tasks.get k = some vt₀ ∧ b ∈ vt₀.task.delivery ∧ Outlives b b') ∨
      ∃ r, s.runs.get b'.runId = some r ∧ taskKey r.task = k ∧ isLive r.state = true ∧
        vt.task.activeRunId = none

section Lines

variable {k : String} {left : Option DeliveryBinding} (hlines : Lines label s s' k left)
include hlines

theorem Lines.kept {id : String} {x : Run} (hx : s.runs.get id = some x) :
    ∃ x', s'.runs.get id = some x' ∧ x'.frozen = x.frozen := by
  obtain ⟨now, x', hx', hmove⟩ := hlines.forth hx
  exact ⟨x', hx', hmove.frozen⟩

/-- A run of the store after the step with its policy. -/
theorem Lines.policy {id : String} {x' : Run} {p : ProviderFallback}
    (hx' : s'.runs.get id = some x') (hp : x'.providerFallback = some p) :
    (∃ now x, s.runs.get id = some x ∧ Move label now x x' ∧ x.providerFallback = some p) ∨
      Newcomer s k left x' := by
  rcases hlines.back hx' with ⟨now, x, hx, hmove⟩ | hnew
  · exact .inl ⟨now, x, hx, hmove, (providerFallback_of_frozen hmove.frozen) ▸ hp⟩
  · exact .inr hnew

variable (hinv : Policies s)
include hinv

theorem Lines.sound {id : String} {x' : Run} {p : ProviderFallback} (hs' : s'.Coherent)
    (hx' : s'.runs.get id = some x') (hp : x'.providerFallback = some p) : PolicyOf s' x' p := by
  rcases hlines.policy hx' hp with ⟨now, x, hx, hmove, hp₀⟩ | hnew
  · exact (hinv.sound hx hp₀).kept hmove.frozen fun _ _ => hlines.kept
  · exact hnew.policyOf hinv ((hs'.runKeyed hx').symm ▸ hx') (fun _ _ => hlines.kept) hp

theorem Lines.latest (hs' : s'.Coherent) {id : String} {r' : Run} {p : ProviderFallback}
    (hr' : s'.runs.get id = some r') (hlive : isLive r'.state = true)
    (hp : r'.providerFallback = some p) : Heads s' p := by
  intro j x' q hx' hq hkin
  rcases hlines.policy hr' hp with ⟨now, r, hr, hmove, hp₀⟩ | hnr <;>
    rcases hlines.policy hx' hq with ⟨now', x, hx, hmove', hq₀⟩ | hnx
  · exact hinv.latest hr (hmove.live_of_live hlive) hp₀ _ _ _ hx hq₀ hkin
  · rw [hnx.apart hs' hinv hr hp₀ hr' hmove hx' hq hkin.symm] at hlive
    cases hlive
  · exact ((hnr.inherits hp).kin hinv hnr.unstored hx hq₀ hkin).2.1
  · obtain rfl := hs'.live_unique hr' hx' (hnr.key.trans hnx.key.symm) hnr.live hnx.live
    obtain rfl := Option.some.inj (hr'.symm.trans hx')
    exact (congrArg (·.attemptedPipelines.length) (Option.some.inj (hq.symm.trans hp))).le

theorem Lines.distinct (hs' : s'.Coherent) {i j : String} {a b : Run} {p q : ProviderFallback}
    (ha : s'.runs.get i = some a) (hb : s'.runs.get j = some b) (hp : a.providerFallback = some p)
    (hq : b.providerFallback = some q) (hkin : q.originalRunId = p.originalRunId)
    (hlength : q.attemptedPipelines.length = p.attemptedPipelines.length)
    (hsource : a.requestSource = .providerFallback) (hsource' : b.requestSource = .providerFallback)
    (hne : a.runId ≠ p.originalRunId) (hne' : b.runId ≠ p.originalRunId) : i = j := by
  rcases hlines.policy ha hp with ⟨now, a₀, ha₀, hmove, hp₀⟩ | hna <;>
    rcases hlines.policy hb hq with ⟨now', b₀, hb₀, hmove', hq₀⟩ | hnb
  · rw [requestSource_of_frozen hmove.frozen] at hsource
    rw [requestSource_of_frozen hmove'.frozen] at hsource'
    rw [runId_of_frozen hmove.frozen] at hne
    rw [runId_of_frozen hmove'.frozen] at hne'
    exact hinv.distinct ha₀ hb₀ hp₀ hq₀ hkin hlength hsource hsource' hne hne'
  · have hlt := ((hnb.inherits hq).kin hinv hnb.unstored ha₀ hp₀ hkin.symm).2.2.1 hsource'
    exact absurd hlength.symm hlt.ne
  · have hlt := ((hna.inherits hp).kin hinv hna.unstored hb₀ hq₀ hkin).2.2.1 hsource
    exact absurd hlength hlt.ne
  · exact hs'.live_unique ha hb (hna.key.trans hnb.key.symm) hna.live hnb.live

/-- The delivered run of a task, in the line of its policy. -/
theorem Lines.delivered (hs' : s'.Coherent) {k₀ : String} {vt : VersionedTask} {b' : DeliveryBinding}
    {r' : Run} {p : ProviderFallback} (hvt : s'.tasks.get k₀ = some vt)
    (hb' : b' ∈ vt.task.delivery) (hnone : b'.correctionRunId = none)
    (hr' : s'.runs.get b'.runId = some r') (hp : r'.providerFallback = some p) :
    taskKey r'.task = k₀ ∧ Heads s' p ∧ ∀ id x q, s'.runs.get id = some x →
      x.providerFallback = some q → q.originalRunId = p.originalRunId → isLive x.state = false := by
  -- with no newcomer in the line, what held of the run before the step is left
  have hcarry : ∀ {now r}, s.runs.get b'.runId = some r → Move label now r r' →
      r.providerFallback = some p → Heads s p →
      (∀ id x q, s'.runs.get id = some x → x.providerFallback = some q →
        q.originalRunId = p.originalRunId → isLive x.state = false) → Heads s' p := by
    intro now r hr hmove hp₀ hheads hterminal j x' q hx' hq hkin
    rcases hlines.policy hx' hq with ⟨now', x, hx, hmove', hq₀⟩ | hnx
    · exact hheads _ _ _ hx hq₀ hkin
    · have hlive := hterminal _ _ _ hx' hq hkin
      rw [hnx.live] at hlive
      cases hlive
  rcases hlines.delivery hvt hb' with ⟨vt₀, b, hvt₀, hb, hout⟩ | ⟨r, hr, hrk, hrlive, hlock⟩
  · obtain ⟨r, hr⟩ := hinv.held hvt₀ hb
    rw [← hout.runId] at hr
    obtain ⟨now, r'', hr'', hmove⟩ := hlines.forth hr
    obtain rfl := Option.some.inj (hr''.symm.trans hr')
    have hp₀ : r.providerFallback = some p := (providerFallback_of_frozen hmove.frozen) ▸ hp
    obtain ⟨hkey, hheads, hpast⟩ :=
      hinv.delivered hvt₀ hb (hout.uncorrected hnone) (hout.runId ▸ hr) hp₀
    have hterminal : ∀ id x q, s'.runs.get id = some x → x.providerFallback = some q →
        q.originalRunId = p.originalRunId → isLive x.state = false := by
      intro id x' q hx' hq hkin
      rcases hlines.policy hx' hq with ⟨now', x, hx, hmove', hq₀⟩ | hnx
      · have hdead := hpast _ _ _ hx hq₀ hkin
        rw [(hmove'.terminal hdead).1]
        exact hdead
      · obtain ⟨hsame, -, -, hpred⟩ := (hnx.inherits hq).kin hinv hnx.unstored hr hp₀ hkin.symm
        rcases hpred with ⟨_, y, py, hy, hlive, hpy, horigin⟩ | hcorrected
        · rw [hpast _ _ _ hy hpy (horigin.trans hkin)] at hlive
          cases hlive
        · have hk : k₀ = k := hkey.symm.trans (hsame.trans hnx.key)
          rw [hk] at hvt
          exact absurd hnone (hcorrected b' (hlines.document vt hvt ▸ hb'))
    exact ⟨(task_of_frozen hmove.frozen).symm ▸ hkey, hcarry hr hmove hp₀ hheads hterminal, hterminal⟩
  · obtain ⟨now, r'', hr'', hmove⟩ := hlines.forth hr
    obtain rfl := Option.some.inj (hr''.symm.trans hr')
    have hp₀ : r.providerFallback = some p := (providerFallback_of_frozen hmove.frozen) ▸ hp
    have hkey : taskKey r''.task = k₀ := (task_of_frozen hmove.frozen).symm ▸ hrk
    -- the run settled in this step, and the task has no other live run
    have hterminal : ∀ id x q, s'.runs.get id = some x → x.providerFallback = some q →
        q.originalRunId = p.originalRunId → isLive x.state = false := by
      intro id x q hx hq hkin
      obtain ⟨n, hn⟩ := (hlines.sound hinv hs' hx hq).numbered
      obtain ⟨n', hn'⟩ := (hlines.sound hinv hs' hr' hp).numbered
      rw [hkin, hn', runIdOf_inj] at hn
      by_contra hlive
      rw [Bool.not_eq_false] at hlive
      have hheld := hs'.mutex hx (hn.1 ▸ hkey.symm ▸ hvt) hlive
      rw [hlock] at hheld
      cases hheld
    exact ⟨hkey, hcarry hr hmove hp₀ (hinv.latest hr hrlive hp₀) hterminal, hterminal⟩

theorem Lines.held {k₀ : String} {vt : VersionedTask} {b' : DeliveryBinding}
    (hvt : s'.tasks.get k₀ = some vt) (hb' : b' ∈ vt.task.delivery) :
    ∃ r, s'.runs.get b'.runId = some r := by
  have hstored : ∃ r, s.runs.get b'.runId = some r := by
    rcases hlines.delivery hvt hb' with ⟨vt₀, b, hvt₀, hb, hout⟩ | ⟨r, hr, -⟩
    · rw [hout.runId]
      exact hinv.held hvt₀ hb
    · exact ⟨r, hr⟩
  obtain ⟨r, hr⟩ := hstored
  obtain ⟨r', hr', -⟩ := hlines.kept hr
  exact ⟨r', hr'⟩

/-- Every step keeps the lines in order. -/
theorem Lines.policies (hs' : s'.Coherent) : Policies s' where
  sound := hlines.sound hinv hs'
  latest := hlines.latest hinv hs'
  distinct := hlines.distinct hinv hs'
  held := hlines.held hinv
  delivered := hlines.delivered hinv hs'

end Lines

/-- Where the runs of a store come from. -/
theorem World.Coherent.lines {w : World} (hw : w.Coherent) (label : Step) (hinv : Policies w.store)
    (hown : ∀ id r, w.store.runs.get id = some r → OwnDelivery r) :
    ∃ k left, Lines label w.store (w.step label).store k left := by
  have hforth : ∀ {id x}, w.store.runs.get id = some x →
      ∃ now x', (w.step label).store.runs.get id = some x' ∧ Move label now x x' :=
    fun hx => (hw.change label).run_moves hw.store hx
  cases hd : w.decision label with
  | none =>
    refine ⟨"", ((w.step label).store.tasks.get "").bind (·.task.delivery), ?_, ?_, hforth, ?_⟩
    · intro vt hvt
      rw [hvt]
      rfl
    · exact fun hx' => .inl ((hw.undecided hd).run_back hx')
    · exact fun hvt hb' => (hw.change label).delivery_from hw.store hown hvt hb'
  | some d =>
    obtain ⟨now, admitted, subject, heffect, hsubject, hadmits, hwritten, -⟩ := hw.committed hd
    refine ⟨taskKey d.task.task, d.task.delivery, ?_, ?_, hforth, ?_⟩
    · intro vt hvt
      rw [hwritten.get_task, if_pos rfl] at hvt
      obtain rfl := Option.some.inj hvt
      rfl
    · intro id x' hx'
      rcases hwritten.run_cases heffect hsubject hx' with hmoved | ⟨hmem, rfl, hminted⟩
      · exact .inl hmoved
      · have hunstored := hminted.unstored hw.store
        refine .inr ⟨hunstored, by rw [hminted.fresh.state]; rfl, hminted.key,
          ⟨_, hminted.runId⟩, fun hq => ?_⟩
        obtain ⟨old, hold, -, horigin⟩ := heffect.origin (fun r hr => (hsubject r hr).1) hmem
          hunstored
        exact horigin.inherits hinv rfl (fun r r' hrr' => hsubject r (hold r r' hrr').1)
          hminted.key hq
    · exact fun hvt hb' => (hw.change label).delivery_from hw.store hown hvt hb'

theorem policies_empty : Policies .empty where
  sound := fun h => by cases h
  latest := fun h => by cases h
  distinct := fun h => by cases h
  held := fun h => by cases h
  delivered := fun h => by cases h

/-- What the lines of a system rest on. -/
structure World.Lined (w : World) : Prop where
  coherent : w.Coherent
  own : ∀ id r, w.store.runs.get id = some r → OwnDelivery r
  policies : Policies w.store

theorem World.Lined.step {w : World} (hw : w.Lined) (label : Step) : (w.step label).Lined := by
  have hcoherent := hw.coherent.step label
  obtain ⟨k, left, hlines⟩ := hw.coherent.lines label hw.policies hw.own
  exact ⟨hcoherent, (hw.coherent.change label).ownDelivery hw.coherent.store hw.own,
    hlines.policies hw.policies hcoherent.store⟩

theorem World.lined_run (steps : List Step) : (World.init.run steps).Lined :=
  Machine.invariant_run World.Lined (fun _ label hw => hw.step label)
    ⟨World.coherent_init, fun _ _ h => (by cases h), policies_empty⟩ steps

end Policies

/-! ### Fallbacks of one original run -/

/-- The fallbacks that descend from an original run. -/
def Store.fallbacksOf (s : Store) (originalRunId : String) : List Run :=
  s.runs.values.filter fun r => r.requestSource = .providerFallback ∧ r.runId ≠ originalRunId ∧
    r.providerFallback.map (·.originalRunId) = some originalRunId

section Fallbacks

variable {s : Store}

theorem PolicyOf.length_le {r : Run} {p : ProviderFallback} (h : PolicyOf s r p) :
    p.attemptedPipelines.length ≤ p.allowedPipelines.length + 1 := by
  obtain ⟨o, -, -, hfrom⟩ := h.root
  show p.attemptedPipelines.length ≤ (o.pipeline :: p.allowedPipelines).length
  refine Counting.length_le_of_keys id ?_ ?_
  · rw [List.map_id]
    exact h.nodup
  · intro pipeline hmem
    rcases hfrom pipeline hmem with rfl | hin
    · exact List.mem_cons_self
    · exact List.mem_cons_of_mem _ hin

theorem PolicyOf.length_pos {r : Run} {p : ProviderFallback} (h : PolicyOf s r p) :
    0 < p.attemptedPipelines.length := by
  refine List.length_pos_iff.2 fun hnil => ?_
  have hlast := h.last
  rw [hnil] at hlast
  cases hlast

/-- A line has no more fallbacks than allowed pipelines. -/
theorem Policies.fallbacks_le (hs : s.Coherent) (hinv : Policies s) {id : String} {r : Run}
    {p : ProviderFallback} (hr : s.runs.get id = some r) (hp : r.providerFallback = some p) :
    (s.fallbacksOf p.originalRunId).length ≤ p.allowedPipelines.length := by
  have hmem : ∀ x ∈ s.fallbacksOf p.originalRunId, ∃ i q, s.runs.get i = some x ∧
      x.requestSource = .providerFallback ∧ x.runId ≠ p.originalRunId ∧
      x.providerFallback = some q ∧ q.originalRunId = p.originalRunId := by
    intro x hx
    obtain ⟨hvalue, hx⟩ := List.mem_filter.1 hx
    rw [decide_eq_true_eq] at hx
    obtain ⟨hsource, hne, hkin⟩ := hx
    obtain ⟨i, hi⟩ := (s.runs.mem_values_iff x).1 hvalue
    obtain ⟨q, hq, hqp⟩ := Option.map_eq_some_iff.1 hkin
    exact ⟨i, q, hi, hsource, hne, hq, hqp⟩
  obtain ⟨o, ho, hallowed, -⟩ := (hinv.sound hr hp).root
  refine Counting.length_le_of_numbered
    (fun x => (x.providerFallback.map (·.attemptedPipelines.length)).getD 0 - 1)
    ((s.runs.nodup_values fun _ _ h => hs.runKeyed h).filter _) ?_ ?_
  · intro x hx y hy hxy
    obtain ⟨i, q, hi, hsource, hne, hq, hkin⟩ := hmem x hx
    obtain ⟨j, q', hj, hsource', hne', hq', hkin'⟩ := hmem y hy
    have hlength := (hinv.sound hi hq).further hsource (hkin.symm ▸ hne)
    have hlength' := (hinv.sound hj hq').further hsource' (hkin'.symm ▸ hne')
    simp only [hq, hq', Option.map_some, Option.getD_some] at hxy
    obtain rfl := hinv.distinct hi hj hq hq' (hkin'.trans hkin.symm) (by omega) hsource hsource'
      (hkin.symm ▸ hne) (hkin.symm ▸ hne')
    exact Option.some.inj (hi.symm.trans hj)
  · intro x hx
    obtain ⟨i, q, hi, hsource, hne, hq, hkin⟩ := hmem x hx
    obtain ⟨o', ho', hallowed', -⟩ := (hinv.sound hi hq).root
    rw [hkin, ho] at ho'
    obtain rfl := Option.some.inj ho'
    have hsame := Option.some.inj (hallowed'.symm.trans hallowed)
    have hlength := (hinv.sound hi hq).further hsource (hkin.symm ▸ hne)
    have hle := (hinv.sound hi hq).length_le
    rw [hsame] at hle
    simp only [hq, Option.map_some, Option.getD_some]
    omega

end Fallbacks

/-! ### What recovery may cost -/

/-- The stored runs of a task. -/
def Store.runsOf (s : Store) (k : String) : List Run :=
  s.runs.values.filter fun r => taskKey r.task = k

/-- How many pipelines the policy of a run allows. -/
def Run.allowance (r : Run) : Nat := (r.providerFallback.map (·.allowedPipelines.length)).getD 0

/-- How many fallbacks the line of a run has left. -/
def Run.fallbacksLeft (r : Run) : Nat :=
  (r.providerFallback.map fun p =>
    p.allowedPipelines.length + 1 - p.attemptedPipelines.length).getD 0

/-- The step mints a correction on the task. -/
def World.corrects (w : World) (k : String) (label : Step) : Bool :=
  (w.decision label).any fun d => d.writes.any fun m => (w.store.runs.get m.runId).isNone ∧
    taskKey m.task = k ∧ m.requestSource = .deliveryCorrection

/-- The step is no request for the task and mints no correction on it. -/
def World.RecoversOnly (k : String) (w : World) (label : Step) : Prop :=
  label.requestedKey ≠ some k ∧ w.corrects k label = false

/-- The task has no more than `n` runs, also counting those that recovery may still mint: for each
fallback left a run and its retries, and the retries that are left of the run at work. -/
structure Recovers (s : Store) (k : String) (n : Nat) : Prop where
  total : (s.runsOf k).length ≤ n
  plain : ∀ {id r}, s.runs.get id = some r → taskKey r.task = k → isLive r.state = true →
    r.sourceRevision = none
  left : ∀ {id r vt}, s.runs.get id = some r → taskKey r.task = k → isLive r.state = true →
    s.tasks.get k = some vt → (s.runsOf k).length + (MAX_AUTO_RETRIES + 1) * r.fallbacksLeft +
      (MAX_AUTO_RETRIES - vt.task.consecutiveLost) ≤ n

section Recovers

variable {label : Step} {now : Time} {admitted : Option (RequestSource × String)} {overrun : Prop}
  {subject : Option Run} {before : Option Task} {d : Decision} {s s' : Store} {k : String} {n : Nat}

theorem fallbacksLeft_of_frozen {r r' : Run} (h : r'.frozen = r.frozen) :
    r'.fallbacksLeft = r.fallbacksLeft := by
  unfold Run.fallbacksLeft
  rw [providerFallback_of_frozen h]

theorem Store.Coherent.runsOf_le (hs : s.Coherent) (ids : List String)
    (h : ∀ id x, s.runs.get id = some x → taskKey x.task = k → id ∈ ids) :
    (s.runsOf k).length ≤ ids.length := by
  have hget : ∀ x ∈ s.runsOf k, s.runs.get x.runId = some x ∧ taskKey x.task = k := by
    intro x hx
    obtain ⟨hvalue, hx⟩ := List.mem_filter.1 hx
    obtain ⟨id, hid⟩ := (s.runs.mem_values_iff x).1 hvalue
    exact ⟨(hs.runKeyed hid).symm ▸ hid, by simpa using hx⟩
  refine Counting.length_le_of_keys Run.runId ?_ fun x hx => h _ x (hget x hx).1 (hget x hx).2
  refine List.Nodup.map_on (fun x hx y hy hxy => ?_)
    ((s.runs.nodup_values fun _ _ h => hs.runKeyed h).filter _)
  have hx := (hget x hx).1
  rw [hxy, (hget y hy).1] at hx
  exact (Option.some.inj hx).symm

theorem Store.Coherent.mem_ids (hs : s.Coherent) {id : String} {x : Run}
    (hx : s.runs.get id = some x) (hkey : taskKey x.task = k) : id ∈ (s.runsOf k).map (·.runId) :=
  List.mem_map.2 ⟨x, List.mem_filter.2 ⟨(s.runs.mem_values_iff x).2 ⟨id, hx⟩, by simpa using hkey⟩,
    hs.runKeyed hx⟩

/-- A step that mints nothing on the task and keeps its losses. -/
theorem Recovers.kept (hs : s.Coherent) (hs' : s'.Coherent) (h : Recovers s k n)
    (hback : ∀ id x', s'.runs.get id = some x' → taskKey x'.task = k →
      ∃ now x, s.runs.get id = some x ∧ Move label now x x')
    (hlost : ∀ vt' id, s'.tasks.get k = some vt' → vt'.task.activeRunId = some id →
      ∃ vt, s.tasks.get k = some vt ∧ vt'.task.consecutiveLost = vt.task.consecutiveLost) :
    Recovers s' k n := by
  have hcount : (s'.runsOf k).length ≤ (s.runsOf k).length := by
    have hle := hs'.runsOf_le (k := k) ((s.runsOf k).map (·.runId)) ?_
    · simpa using hle
    · intro id x' hx' hkey
      obtain ⟨now, x, hx, hmove⟩ := hback id x' hx' hkey
      exact hs.mem_ids hx (task_of_frozen hmove.frozen ▸ hkey)
  refine ⟨hcount.trans h.total, ?_, ?_⟩
  · intro id r' hr' hkey hlive
    obtain ⟨now, r, hr, hmove⟩ := hback id r' hr' hkey
    rw [sourceRevision_of_frozen hmove.frozen]
    exact h.plain hr (task_of_frozen hmove.frozen ▸ hkey) (hmove.live_of_live hlive)
  · intro id r' vt' hr' hkey hlive hvt'
    obtain ⟨now, r, hr, hmove⟩ := hback id r' hr' hkey
    obtain ⟨vt, hvt, hsame⟩ := hlost vt' id hvt' (hs'.mutex hr' (hkey.symm ▸ hvt') hlive)
    have hleft := h.left hr (task_of_frozen hmove.frozen ▸ hkey) (hmove.live_of_live hlive) hvt
    rw [fallbacksLeft_of_frozen hmove.frozen, hsame]
    omega

/-- A fallback or a retry pays for itself. -/
theorem Recovers.minted (hs : s.Coherent) (hs' : s'.Coherent) (h : Recovers s k n) {m r : Run}
    {vt vt' : VersionedTask} (hm : s'.runs.get m.runId = some m) (hkey : taskKey m.task = k)
    (hlive : isLive m.state = true) (hplain : m.sourceRevision = none)
    (hback : ∀ id x', s'.runs.get id = some x' → taskKey x'.task = k →
      (∃ now x, s.runs.get id = some x ∧ Move label now x x') ∨ id = m.runId)
    (hr : s.runs.get r.runId = some r) (hrk : taskKey r.task = k) (hrlive : isLive r.state = true)
    (hvt : s.tasks.get k = some vt) (hvt' : s'.tasks.get k = some vt')
    (hpays : (MAX_AUTO_RETRIES + 1) * m.fallbacksLeft +
        (MAX_AUTO_RETRIES - vt'.task.consecutiveLost) <
      (MAX_AUTO_RETRIES + 1) * r.fallbacksLeft + (MAX_AUTO_RETRIES - vt.task.consecutiveLost)) :
    Recovers s' k n := by
  have hcount : (s'.runsOf k).length ≤ (s.runsOf k).length + 1 := by
    have hle := hs'.runsOf_le (k := k) ((s.runsOf k).map (·.runId) ++ [m.runId]) ?_
    · simpa using hle
    · intro id x' hx' hx'key
      rcases hback id x' hx' hx'key with ⟨now, x, hx, hmove⟩ | rfl
      · exact List.mem_append_left _ (hs.mem_ids hx (task_of_frozen hmove.frozen ▸ hx'key))
      · exact List.mem_append_right _ (List.mem_singleton_self _)
  have hleft := h.left hr hrk hrlive hvt
  -- the run just minted is the one live run of the task
  have honly : ∀ {id x}, s'.runs.get id = some x → taskKey x.task = k → isLive x.state = true →
      x = m := by
    intro id x hx hxkey hxlive
    obtain rfl := hs'.live_unique hx hm (hxkey.trans hkey.symm) hxlive hlive
    exact Option.some.inj (hx.symm.trans hm)
  refine ⟨by omega, ?_, ?_⟩
  · intro id x hx hxkey hxlive
    rw [honly hx hxkey hxlive]
    exact hplain
  · intro id x vt'' hx hxkey hxlive hvt''
    obtain rfl := Option.some.inj (hvt''.symm.trans hvt')
    rw [honly hx hxkey hxlive]
    omega

/-- A fallback uses up one of the pipelines its line has left. -/
theorem FallsBack.pays {t' : Task} {r m : Run} (h : FallsBack before t' r m)
    (hsound : ∀ {q}, m.providerFallback = some q → PolicyOf s' m q) (lost lost' : Nat) :
    (MAX_AUTO_RETRIES + 1) * m.fallbacksLeft + (MAX_AUTO_RETRIES - lost') <
      (MAX_AUTO_RETRIES + 1) * r.fallbacksLeft + (MAX_AUTO_RETRIES - lost) := by
  obtain ⟨p, fromRunId, trigger, hp, -, -, hm⟩ := h.policy
  have hle := (hsound hm).length_le
  simp only [List.length_append, List.length_singleton] at hle
  simp only [Run.fallbacksLeft, hp, hm, Option.map_some, Option.getD_some, List.length_append,
    List.length_singleton, MAX_AUTO_RETRIES]
  omega

/-- A retry uses up one of the losses the task has left. -/
theorem Retries.pays {t t' : Task} {r r' m : Run} (h : Retries t t' r r' m)
    (hplain : r.sourceRevision = none) :
    (MAX_AUTO_RETRIES + 1) * m.fallbacksLeft + (MAX_AUTO_RETRIES - t'.consecutiveLost) <
      (MAX_AUTO_RETRIES + 1) * r.fallbacksLeft + (MAX_AUTO_RETRIES - t.consecutiveLost) := by
  obtain ⟨hlost, hle⟩ := h.budget hplain
  have hleft : m.fallbacksLeft ≤ r.fallbacksLeft := by
    unfold Run.fallbacksLeft
    cases hm : m.providerFallback with
    | none => exact Nat.zero_le _
    | some q =>
      rcases h.policy with hnone | hinherited
      · rw [hnone] at hm
        cases hm
      · rw [inherited_of_minted (hinherited.symm.trans hm)]
  unfold MAX_AUTO_RETRIES at hle ⊢
  omega

/-- The decision of a step of recovery, on the task it is about. -/
theorem Effect.recovers (hs : s.Coherent) (hs' : s'.Coherent) (hpolicies : Policies s')
    (heffect : Effect label now admitted overrun subject
      ((s.tasks.get (taskKey d.task.task)).map (·.task)) d)
    (hsubject : ∀ r ∈ subject, s.runs.get r.runId = some r ∧ taskKey r.task = taskKey d.task.task)
    (hadmits : Presents label s (taskKey d.task.task) admitted) (hwritten : Written s s' d)
    (hrequest : label.requestedKey ≠ some (taskKey d.task.task))
    (hcorrects : ∀ m ∈ d.writes, s.runs.get m.runId = none → m.requestSource ≠ .deliveryCorrection)
    (h : Recovers s (taskKey d.task.task) n) : Recovers s' (taskKey d.task.task) n := by
  have hstored : ∀ x ∈ d.writes, s'.runs.get x.runId = some x := fun x hx =>
    hwritten.get_of_mem hs heffect hsubject hx
  have hback : ∀ m, (∀ x ∈ d.writes, (∃ r ∈ subject, Move label now r x) ∨ x.runId = m) →
      ∀ id x', s'.runs.get id = some x' → taskKey x'.task = taskKey d.task.task →
        (∃ now x, s.runs.get id = some x ∧ Move label now x x') ∨ id = m := by
    intro m hwrites id x' hx' _
    rcases hwritten.get_cases hx' with ⟨hmem, rfl⟩ | ⟨hsame, -⟩
    · rcases hwrites x' hmem with ⟨r, hr, hmove⟩ | hm
      · refine .inl ⟨now, r, ?_, hmove⟩
        rw [runId_of_frozen hmove.frozen]
        exact (hsubject r hr).1
      · exact .inr hm
    · exact .inl ⟨0, x', hsame, .same⟩
  have hmoved : (∀ x ∈ d.writes, ∃ r ∈ subject, Move label now r x) →
      ∀ id x', s'.runs.get id = some x' → taskKey x'.task = taskKey d.task.task →
        ∃ now x, s.runs.get id = some x ∧ Move label now x x' := by
    intro hwrites id x' hx' _
    rcases hwritten.get_cases hx' with ⟨hmem, rfl⟩ | ⟨hsame, -⟩
    · obtain ⟨r, hr, hmove⟩ := hwrites x' hmem
      exact ⟨now, r, by rw [runId_of_frozen hmove.frozen]; exact (hsubject r hr).1, hmove⟩
    · exact ⟨0, x', hsame, .same⟩
  obtain ⟨vt', hvt', htask⟩ : ∃ vt', s'.tasks.get (taskKey d.task.task) = some vt' ∧
      vt'.task = d.task := ⟨_, by rw [hwritten.get_task, if_pos rfl], rfl⟩
  have hlost : ∀ t ∈ (s.tasks.get (taskKey d.task.task)).map (·.task),
      d.task.consecutiveLost = t.consecutiveLost → ∀ vt id,
      s'.tasks.get (taskKey d.task.task) = some vt → vt.task.activeRunId = some id →
      ∃ vt₀, s.tasks.get (taskKey d.task.task) = some vt₀ ∧
        vt.task.consecutiveLost = vt₀.task.consecutiveLost := by
    intro t ht hsame vt id hvt _
    obtain ⟨vt₀, hvt₀, rfl⟩ := Option.map_eq_some_iff.1 (Option.mem_def.1 ht)
    obtain rfl := Option.some.inj (hvt.symm.trans hvt')
    exact ⟨vt₀, hvt₀, by rw [htask, hsame]⟩
  generalize hbefore : (s.tasks.get (taskKey d.task.task)).map (·.task) = before at heffect hlost
  cases heffect with
  | touch htouched =>
    exact h.kept hs hs' (hmoved fun x hx => by cases hx) (hlost _ rfl htouched.lost)
  | @rewrite t t' r r' outbox hmove hlive hrewritten =>
    refine h.kept hs hs' (hmoved fun x hx => ?_) (hlost _ rfl hrewritten.lost)
    obtain rfl : x = r' := by simpa [Decision.writes] using hx
    exact ⟨r, rfl, hmove⟩
  | @settle t t' r r' outbox hmove hr hr' hsettled =>
    obtain ⟨hget, hkey⟩ := hsubject r rfl
    obtain ⟨vt, hvt, rfl⟩ := Option.map_eq_some_iff.1 hbefore
    refine h.kept hs hs' (hmoved fun x hx => ?_) fun vt'' id hvt'' hheld => ?_
    · obtain rfl : x = r' := by simpa [Decision.writes] using hx
      exact ⟨r, rfl, hmove⟩
    · obtain rfl := Option.some.inj (hvt''.symm.trans hvt')
      rw [htask, hsettled.lock, if_pos (hs.mutex hget (hkey ▸ hvt) hr)] at hheld
      cases hheld
  | mint old dropped m hwrites hmove hkey hfirst hfree hminted hdropped horigin
      _ _ hdispatch =>
    have hmem : m ∈ d.writes := (hwrites m).2 (.inr rfl)
    have hmk : taskKey m.task = taskKey d.task.task := hminted.key.symm
    have hlive : isLive m.state = true := by
      rw [hminted.fresh.state]
      rfl
    have hunstored : s.runs.get m.runId = none :=
      MintedHere.unstored hs (hbefore.symm ▸ (hminted.here hdispatch))
    have hsound : ∀ {q}, m.providerFallback = some q → PolicyOf s' m q := fun hq =>
      hpolicies.sound (hstored m hmem) hq
    have hback := hback m.runId fun x hx => by
      rcases (hwrites x).1 hx with ⟨r, hr⟩ | rfl
      · exact .inl ⟨r, (hmove r x hr).1, (hmove r x hr).2.1⟩
      · exact .inr rfl
    cases horigin with
    | request hadmitted =>
      exact absurd (hadmits.admits _ _ hadmitted).requested hrequest
    | fallback r r' hrr' hr _ _ _ _ _ _ _ hfalls =>
      obtain ⟨hget, hrk⟩ := hsubject r (hmove r r' hrr').1
      obtain ⟨vt, -, hvt, -⟩ := hs.counted hget
      exact h.minted hs hs' (hstored m hmem) hmk hlive hfalls.plain hback hget hrk hr (hrk ▸ hvt) hvt'
        (hfalls.pays hsound _ _)
    | correction _ _ _ _ _ _ _ _ _ hsource =>
      exact absurd hsource (hcorrects m hmem hunstored)
    | retry r r' t hrr' hr ht _ _ _ _ _ hsame _ _ hretries =>
      obtain ⟨hget, hrk⟩ := hsubject r (hmove r r' hrr').1
      obtain ⟨vt, hvt, rfl⟩ := Option.map_eq_some_iff.1 (hbefore.trans ht)
      have hplain := h.plain hget hrk hr
      rw [hplain, Option.map_none, Option.map_eq_none_iff] at hsame
      refine h.minted hs hs' (hstored m hmem) hmk hlive hsame hback hget hrk hr hvt hvt' ?_
      rw [htask]
      exact hretries.pays hplain
    | supersede r r' _ _ hrr' hr _ _ hsome =>
      obtain ⟨hget, hrk⟩ := hsubject r (hmove r r' hrr').1
      rw [h.plain hget hrk hr] at hsome
      cases hsome

/-- Every step of recovery pays for the runs it mints. -/
theorem World.Lined.recovers {w : World} (hw : w.Lined) (hc : World.RecoversOnly k w label)
    (h : Recovers w.store k n) : Recovers (w.step label).store k n := by
  have hs := hw.coherent.store
  have hs' := (hw.step label).coherent.store
  cases hd : w.decision label with
  | none =>
    have haside := hw.coherent.undecided hd
    refine h.kept hs hs' (fun id x' hx' _ => haside.run_back hx') fun vt' id hvt' _ =>
      ⟨vt', haside.tasks ▸ hvt', rfl⟩
  | some d =>
    obtain ⟨now, admitted, subject, heffect, hsubject, hadmits, hwritten, -⟩ := hw.coherent.committed hd
    by_cases hk : k = taskKey d.task.task
    · subst hk
      refine heffect.recovers hs hs' (hw.step label).policies hsubject hadmits hwritten hc.1 ?_ h
      intro m hm hnew hsource
      obtain ⟨old, -, hkey, -⟩ := heffect.origin (fun r hr => (hsubject r hr).1) hm hnew
      refine Bool.eq_false_iff.1 hc.2 ?_
      rw [World.corrects, hd, Option.any_some, List.any_eq_true]
      exact ⟨m, hm, by simp [hnew, hkey, hsource]⟩
    · have hmoved : ∀ id x', (w.step label).store.runs.get id = some x' → taskKey x'.task = k →
          ∃ now x, w.store.runs.get id = some x ∧ Move label now x x' := by
        intro id x' hx' hkey
        rcases hwritten.run_cases heffect hsubject hx' with hmoved | ⟨-, -, hminted⟩
        · exact hmoved
        · exact absurd (hkey.symm.trans hminted.key) hk
      refine h.kept hs hs' hmoved fun vt' id hvt' _ => ?_
      rw [hwritten.get_task, if_neg hk] at hvt'
      exact ⟨vt', hvt', rfl⟩

/-- What recovery may cost right after an admission. -/
theorem World.Lined.recovers_admitted {w : World} (hw : w.Lined) {now : Time} {input : RequestInput}
    {m : Run} (hd : w.decision (.request now input) = some d) (hm : m ∈ d.writes)
    (hnew : w.store.runs.get m.runId = none) (hplain : m.sourceRevision = none) :
    Recovers (w.step (.request now input)).store (taskKey m.task)
      (((w.step (.request now input)).store.runsOf (taskKey m.task)).length +
        (3 * (1 + m.allowance) - 1)) := by
  have hs' := (hw.step (.request now input)).coherent.store
  obtain ⟨now', admitted, subject, heffect, hsubject, -, hwritten, -⟩ := hw.coherent.committed hd
  have hstored := hwritten.get_of_mem hw.coherent.store heffect hsubject hm
  have hlive : isLive m.state = true := by
    rcases heffect.write_cases hm with ⟨r, hr, hmove⟩ | hminted
    · rw [runId_of_frozen hmove.frozen, (hsubject r hr).1] at hnew
      cases hnew
    · rw [hminted.fresh.state]
      rfl
  have honly : ∀ {id x}, (w.step (.request now input)).store.runs.get id = some x →
      taskKey x.task = taskKey m.task → isLive x.state = true → x = m := by
    intro id x hx hkey hxlive
    obtain rfl := hs'.live_unique hx hstored hkey hxlive hlive
    exact Option.some.inj (hx.symm.trans hstored)
  have hleft : m.fallbacksLeft ≤ m.allowance := by
    unfold Run.fallbacksLeft Run.allowance
    cases hq : m.providerFallback with
    | none => exact le_rfl
    | some q =>
      have hpos := ((hw.step (.request now input)).policies.sound hstored hq).length_pos
      simp only [Option.map_some, Option.getD_some]
      omega
  refine ⟨Nat.le_add_right _ _, fun hx hkey hxlive => ?_, fun hx hkey hxlive _ => ?_⟩
  · rw [honly hx hkey hxlive]
    exact hplain
  · rw [honly hx hkey hxlive]
    unfold MAX_AUTO_RETRIES
    omega

end Recovers

/-- In every state the runs of a line attempted different pipelines, all of them allowed or the one
the line began with, and there are no more fallbacks than allowed pipelines; and without further
requests and corrections a task gets at most `3 * (1 + A) - 1` runs more than the admitted one. -/
theorem World.recovery_bounded (steps : List Step) :
    let s := (World.init.run steps).store
    (∀ id r p, s.runs.get id = some r → r.providerFallback = some p →
      p.attemptedPipelines.Nodup ∧ p.attemptedPipelines.getLast? = some r.pipeline ∧
      (∃ o, s.runs.get p.originalRunId = some o ∧
        ∀ pipeline ∈ p.attemptedPipelines, pipeline = o.pipeline ∨ pipeline ∈ p.allowedPipelines) ∧
      (s.fallbacksOf p.originalRunId).length ≤ p.allowedPipelines.length) ∧
    ∀ first now input rest d m, steps = first ++ .request now input :: rest →
      (World.init.run first).decision (.request now input) = some d → m ∈ d.writes →
      (World.init.run first).store.runs.get m.runId = none → m.sourceRevision = none →
      Machine.Along World.step (World.RecoversOnly (taskKey m.task))
        ((World.init.run first).step (.request now input)) rest →
      (s.runsOf (taskKey m.task)).length ≤
        (((World.init.run first).step (.request now input)).store.runsOf (taskKey m.task)).length +
          (3 * (1 + m.allowance) - 1) := by
  intro s
  have hw := World.lined_run steps
  refine ⟨?_, ?_⟩
  · intro id r p hr hp
    have hsound := hw.policies.sound hr hp
    obtain ⟨o, ho, -, hfrom⟩ := hsound.root
    exact ⟨hsound.nodup, hsound.last, ⟨o, ho, hfrom⟩,
      hw.policies.fallbacks_le hw.coherent.store hr hp⟩
  · intro first now input rest d m hsteps hd hm hnew hplain hrest
    have hfirst := World.lined_run first
    have hrun : World.init.run steps = ((World.init.run first).step (.request now input)).run rest := by
      rw [hsteps]
      simp only [World.run, Machine.run_append, Machine.run_cons]
    have hbound := hfirst.recovers_admitted hd hm hnew hplain
    generalize ((World.init.run first).step (.request now input)).store.runsOf (taskKey m.task) = before
      at hbound ⊢
    refine (Recovers.total (s := s) (n := _) ?_)
    rw [show s = (World.init.run steps).store from rfl, hrun]
    refine (Machine.Along.invariant (fun v : World => v.Lined ∧ Recovers v.store (taskKey m.task) _)
      ?_ ⟨hfirst.step _, hbound⟩ hrest).2
    rintro v label ⟨hv, hrecovers⟩ hc
    exact ⟨hv.step label, hv.recovers hc hrecovers⟩

/-- The worker of a run says nothing, and a sweep finds its lease expired. -/
def Sample.silent : List Step :=
  [.enqueueRun Sample.runId 1, .claimQueuedRun ["claude"] (Sample.claim 2),
    .onRun Sample.runId 100000000 "retry" .sweepExpired]

/-- The task then has a second run, within the bound. -/
theorem World.recovery_bounded_silent :
    let admitted := World.init.step (.request 0 (Sample.request "claude"))
    ((admitted.run Sample.silent).store.runsOf (taskKey Sample.taskId)).length = 2 ∧
      ∃ m : Run, ((admitted.run Sample.silent).store.runsOf (taskKey Sample.taskId)).length ≤
        (admitted.store.runsOf (taskKey Sample.taskId)).length + (3 * (1 + m.allowance) - 1) := by
  intro admitted
  refine ⟨by decide +kernel, ?_⟩
  have hminted : (World.init.decision (.request 0 (Sample.request "claude"))).any (fun d =>
      d.writes.any fun m => m.sourceRevision = none ∧ m.task = Sample.taskId) = true := by
    decide +kernel
  obtain ⟨d, hd, hany⟩ := (Option.any_eq_true _ _).1 hminted
  obtain ⟨m, hm, hfacts⟩ := List.any_eq_true.1 hany
  obtain ⟨hplain, htask⟩ := of_decide_eq_true hfacts
  have hbound := (World.recovery_bounded (.request 0 (Sample.request "claude") :: Sample.silent)).2 []
    0 (Sample.request "claude") Sample.silent d m rfl hd hm rfl hplain
  rw [htask] at hbound
  exact ⟨m, hbound ⟨⟨by decide, by decide +kernel⟩, ⟨by decide, by decide +kernel⟩,
    ⟨by decide, by decide +kernel⟩, trivial⟩⟩

end AgentLcars
