import AgentLcars.Coherence

/-!
# Request identities

A request is known by its task, its source and its id.  Callers' requests are looked up in the
request index before a run is minted; the runs the orchestrator mints for itself are not.  Those
take their ids from the run they succeed, and `Lineage` says why no run is succeeded twice in the
same way: a run settles once, a delivery is corrected once, and a revision that is still to be
minted was never requested before.

* `History` is the invariant: every stored run is the one its index entry names.
* `World.request_idempotent`: identities are unique, and a repeated request changes no run.
-/

namespace AgentLcars

/-! ### Identities -/

/-- Two runs of one request. -/
structure SameRequest (a b : Run) : Prop where
  task : taskKey a.task = taskKey b.task
  source : a.requestSource = b.requestSource
  requestId : a.requestId = b.requestId

theorem requestHistoryKey_inj {a b : RequestSource} {x y : String} :
    requestHistoryKey a x = requestHistoryKey b y ↔ a = b ∧ x = y := by
  refine ⟨fun h => ?_, by rintro ⟨rfl, rfl⟩; rfl⟩
  have hcolon : ∀ source : RequestSource, ':' ∉ source.text.toList := by
    intro source
    cases source <;> decide
  obtain ⟨htext, hid⟩ := Text.tag_inj (c := ':') (hcolon a) (hcolon b) h
  refine ⟨?_, hid⟩
  cases a <;> cases b <;> first | rfl | exact absurd htext (by decide)

/-- The index entry of a run. -/
def Run.indexKey (r : Run) : String × String :=
  Store.requestKey r.task r.requestSource r.requestId

theorem indexKey_eq_iff {a b : Run} : a.indexKey = b.indexKey ↔ SameRequest a b := by
  simp only [Run.indexKey, Store.requestKey, Prod.mk.injEq, requestHistoryKey_inj]
  exact ⟨fun ⟨h₁, h₂, h₃⟩ => ⟨h₁, h₂, h₃⟩, fun h => ⟨h.task, h.source, h.requestId⟩⟩

theorem indexKey_of_frozen {r r' : Run} (h : r'.frozen = r.frozen) : r'.indexKey = r.indexKey := by
  unfold Run.indexKey
  rw [task_of_frozen h, requestSource_of_frozen h, requestId_of_frozen h]

/-! ### Where a run's identity comes from -/

/-- Requests come from callers, and those for a source revision carry no binding. -/
def Step.external : Step → Bool
  | .request _ input => (input.requestSource = none ∨ input.requestSource = some .caller) ∧
      (input.sourceRevision.isSome → input.requestBinding = none)
  | _ => true

theorem Step.external_caller {label : Step} (h : label.external = true) {source : RequestSource}
    (hsource : label.requestSource = some source) : source = .caller := by
  cases label with
  | request now input =>
    simp only [Step.external, decide_eq_true_eq] at h
    simp only [Step.requestSource, Option.some.injEq] at hsource
    rcases h.1 with h | h <;> rw [h] at hsource <;> exact hsource.symm
  | _ => cases hsource

theorem Step.external_unbound {label : Step} (h : label.external = true) {revision : WorkRevision}
    (hrevision : label.revision = some revision) : label.bound = false := by
  cases label with
  | request now input =>
    simp only [Step.external, decide_eq_true_eq] at h
    have hsome : input.sourceRevision.isSome = true := by
      rw [show input.sourceRevision = some revision from hrevision]
      rfl
    simp [Step.bound, h.2 hsome]
  | _ => rfl

/-- What gives a run its identity. -/
inductive Lineage (s : Store) (r : Run) : Prop where
  | caller (hsource : r.requestSource = .caller)
  | retry (x : Run) (hsource : r.requestSource = .autoRetry)
      (hid : r.requestId = "retry:" ++ x.runId) (hx : s.runs.get x.runId = some x)
      (hterminal : isLive x.state = false)
  | fallback (x : Run) (hsource : r.requestSource = .providerFallback)
      (hid : r.requestId = "fallback:" ++ x.runId) (hx : s.runs.get x.runId = some x)
      (hterminal : isLive x.state = false)
  | correction (x : Run) (hsource : r.requestSource = .deliveryCorrection)
      (hid : r.requestId = "delivery:" ++ x.runId) (hx : s.runs.get x.runId = some x)
      (hterminal : isLive x.state = false)
      (hdone : ∀ vt, s.tasks.get (taskKey r.task) = some vt → ∀ b ∈ vt.task.delivery,
        b.runId = x.runId → b.correctionRunId ≠ none)

/-- While a run of an older revision holds the lock, `P` is between the desired revision and every
run of the task. -/
def InWaiting (P : WorkRevision → Run → Prop) (s : Store) (k : String) (t : Task) : Prop :=
  ∀ D r, t.desiredRevision = some D → t.activeRunId = some r.runId →
    s.runs.get r.runId = some r → taskKey r.task = k → r.sourceRevision.isSome = true →
    r.sourceRevision.map (·.key) ≠ some D.key →
    ∀ id x, s.runs.get id = some x → taskKey x.task = k → P D x

/-- The run is no request of the revision. -/
def Unrequested (D : WorkRevision) (x : Run) : Prop := x.requestSource = .caller → x.requestId ≠ D.key

/-- The request index names every stored run. -/
structure History (s : Store) : Prop where
  indexed : ∀ {id r}, s.runs.get id = some r → s.requestRuns.get r.indexKey = some r.runId
  own : ∀ id r, s.runs.get id = some r → OwnDelivery r
  lineage : ∀ {id r}, s.runs.get id = some r → Lineage s r
  waiting : ∀ {k vt}, s.tasks.get k = some vt → InWaiting Unrequested s k vt.task

section History

variable {label : Step} {now : Time} {admitted : Option (RequestSource × String)} {overrun : Prop}
  {subject : Option Run} {before : Option Task} {d : Decision} {s s' : Store}

/-- No two stored runs have the same identity. -/
theorem History.unique (hs : s.Coherent) (h : History s) {i j : String} {a b : Run}
    (ha : s.runs.get i = some a) (hb : s.runs.get j = some b) (hab : SameRequest a b) : a = b := by
  have hindex := h.indexed ha
  rw [indexKey_eq_iff.2 hab, h.indexed hb] at hindex
  have hid : b.runId = a.runId := Option.some.inj hindex
  rw [← hs.runKeyed ha] at ha
  rw [← hs.runKeyed hb, hid, ha] at hb
  exact Option.some.inj hb

/-- No stored run has an identity the index does not know. -/
theorem History.unused (hs : s.Coherent) (h : History s) {k : String} {source : RequestSource}
    {requestId : String}
    (hnone : (s.requestRuns.get (k, requestHistoryKey source requestId)).bind s.runs.get = none)
    {id : String} {x : Run} (hx : s.runs.get id = some x) (hkey : taskKey x.task = k)
    (hsource : x.requestSource = source) : x.requestId ≠ requestId := by
  rintro rfl
  have hindex := h.indexed hx
  subst hkey hsource
  rw [show x.indexKey = (taskKey x.task, requestHistoryKey x.requestSource x.requestId) from rfl]
    at hindex
  rw [hindex, Option.bind_some, hs.runKeyed hx, hx] at hnone
  cases hnone

/-- A written run that was not stored has an origin. -/
theorem Effect.origin (h : Effect label now admitted overrun subject before d)
    (hsubject : ∀ r ∈ subject, s.runs.get r.runId = some r) {x : Run} (hx : x ∈ d.writes)
    (hnew : s.runs.get x.runId = none) :
    ∃ old, (∀ r r', old = some (r, r') → subject = some r ∧ Move label now r r' ∧
        isLive r'.state = false ∧ r' ∈ d.writes) ∧
      taskKey d.task.task = taskKey x.task ∧ Origin admitted before old d.task x := by
  have hold : ∀ {r r' : Run}, subject = some r → Move label now r r' →
      s.runs.get r'.runId ≠ none := by
    intro r r' hr hmove hnone
    rw [runId_of_frozen hmove.frozen, hsubject r hr] at hnone
    cases hnone
  cases h with
  | touch => simp [Decision.writes] at hx
  | rewrite hmove =>
    simp only [Decision.writes, Option.toList_some, List.append_nil, List.mem_singleton] at hx
    exact absurd (hx ▸ hnew) (hold rfl hmove)
  | settle hmove =>
    simp only [Decision.writes, Option.toList_some, List.append_nil, List.mem_singleton] at hx
    exact absurd (hx ▸ hnew) (hold rfl hmove)
  | mint old dropped m hwrites hmove hkey hfirst hfree hminted hdropped horigin =>
    rcases (hwrites x).1 hx with ⟨r, hr⟩ | rfl
    · exact absurd hnew (hold (hmove r x hr).1 (hmove r x hr).2.1)
    · refine ⟨old, fun r r' hrr' => ?_, hminted.key, horigin⟩
      obtain ⟨hr, hmove, hterminal, -⟩ := hmove r r' hrr'
      exact ⟨hr, hmove, hterminal, (hwrites r').2 (.inl ⟨r, hrr'⟩)⟩

/-- The identity of a minted run is new. -/
theorem Origin.fresh_identity (hs : s.Coherent) (h : History s)
    {k : String} {old : Option (Run × Run)} {t' : Task} {m : Run}
    (hbefore : (s.tasks.get k).map (·.task) = before)
    (hold : ∀ r r', old = some (r, r') → s.runs.get r.runId = some r ∧ taskKey r.task = k)
    (hadmits : ∀ source id, admitted = some (source, id) → Admits label s k source id)
    (horigin : Origin admitted before old t' m) {id : String} {x : Run}
    (hx : s.runs.get id = some x) (hkey : taskKey x.task = k)
    (hsource : x.requestSource = m.requestSource) : x.requestId ≠ m.requestId := by
  have hlineage := h.lineage hx
  have hlive : ∀ {r r' y : Run}, old = some (r, r') → isLive r.state = true →
      s.runs.get y.runId = some y → isLive y.state = false → y.runId ≠ r.runId := by
    intro r r' y hrr' hr hy hterminal hid
    rw [hid, (hold r r' hrr').1] at hy
    obtain rfl := Option.some.inj hy
    rw [hr] at hterminal
    cases hterminal
  intro hid
  cases horigin with
  | request hadmitted =>
    exact h.unused hs (hadmits _ _ hadmitted).unused hx hkey hsource hid
  | fallback r r' hrr' hr hms hmid =>
    rw [hms] at hsource
    cases hlineage with
    | fallback y _ hyid hy hterminal =>
      rw [hyid, hmid] at hid
      exact hlive hrr' hr hy hterminal (String.append_right_inj _ |>.1 hid)
    | caller h => rw [h] at hsource; cases hsource
    | retry _ h => rw [h] at hsource; cases hsource
    | correction _ h => rw [h] at hsource; cases hsource
  | correction r t b hrr' hr ht hb hrun hnew hms hmid =>
    rw [hms] at hsource
    cases hlineage with
    | correction y _ hyid hy hterminal hdone =>
      rw [hyid, hmid] at hid
      have hyr : y.runId = r.runId := String.append_right_inj _ |>.1 hid
      obtain ⟨vt, hvt, rfl⟩ := Option.map_eq_some_iff.1 (hbefore.trans ht)
      exact hdone vt (hkey ▸ hvt) b hb (hrun.trans hyr.symm) hnew
    | caller h => rw [h] at hsource; cases hsource
    | retry _ h => rw [h] at hsource; cases hsource
    | fallback _ h => rw [h] at hsource; cases hsource
  | retry r r' t hrr' hr ht hms hmid =>
    rw [hms] at hsource
    cases hlineage with
    | retry y _ hyid hy hterminal =>
      rw [hyid, hmid] at hid
      exact hlive hrr' hr hy hterminal (String.append_right_inj _ |>.1 hid)
    | caller h => rw [h] at hsource; cases hsource
    | fallback _ h => rw [h] at hsource; cases hsource
    | correction _ h => rw [h] at hsource; cases hsource
  | supersede r r' t desired hrr' hr ht htd hsome hne hms hmid =>
    obtain ⟨vt, hvt, rfl⟩ := Option.map_eq_some_iff.1 (hbefore.trans ht)
    obtain ⟨hget, hrk⟩ := hold r r' hrr'
    have hlock := hs.mutex hget (hrk ▸ hvt) hr
    exact h.waiting hvt _ _ htd hlock hget hrk hsome hne _ _ hx hkey (hsource.trans hms)
      (hid.trans hmid)

/-- A settled run stays settled. -/
theorem Change.settled_stays (hs : s.Coherent) (h : Change label s s') {x : Run}
    (hx : s.runs.get x.runId = some x) (hterminal : isLive x.state = false) :
    ∃ x', x'.runId = x.runId ∧ s'.runs.get x'.runId = some x' ∧ isLive x'.state = false := by
  obtain ⟨now, x', hx', hmove⟩ := h.run_moves hs hx
  have hid := runId_of_frozen hmove.frozen
  exact ⟨x', hid, hid ▸ hx', by rw [(hmove.terminal hterminal).1]; exact hterminal⟩

/-- What gave a run its identity stays. -/
theorem Change.lineage (hs : s.Coherent) (h : Change label s s') (hinv : History s) {r r' : Run}
    (hlineage : Lineage s r) (hfrozen : r'.frozen = r.frozen) : Lineage s' r' := by
  have hsource := requestSource_of_frozen hfrozen
  have hid := requestId_of_frozen hfrozen
  cases hlineage with
  | caller hr => exact .caller (hsource.trans hr)
  | retry x hr hrid hx hterminal =>
    obtain ⟨x', hxid, hx', hterminal'⟩ := h.settled_stays hs hx hterminal
    exact .retry x' (hsource.trans hr) (by rw [hid, hrid, hxid]) hx' hterminal'
  | fallback x hr hrid hx hterminal =>
    obtain ⟨x', hxid, hx', hterminal'⟩ := h.settled_stays hs hx hterminal
    exact .fallback x' (hsource.trans hr) (by rw [hid, hrid, hxid]) hx' hterminal'
  | correction x hr hrid hx hterminal hdone =>
    obtain ⟨x', hxid, hx', hterminal'⟩ := h.settled_stays hs hx hterminal
    refine .correction x' (hsource.trans hr) (by rw [hid, hrid, hxid]) hx' hterminal' ?_
    intro vt' hvt' b' hb' hbid hnone
    rw [task_of_frozen hfrozen] at hvt'
    rcases h.delivery_from hs hinv.own hvt' hb' with
      ⟨vt, b, hvt, hb, hout⟩ | ⟨y, hy, -, hlive, -⟩
    · exact hdone vt hvt b hb (hout.runId.symm.trans (hbid.trans hxid)) (hout.uncorrected hnone)
    · rw [hbid, hxid, hx] at hy
      obtain rfl := Option.some.inj hy
      rw [hterminal] at hlive
      cases hlive

/-- What gives a minted run its identity. -/
theorem Origin.lineage (hexternal : label.external = true) {old : Option (Run × Run)} {m : Run}
    (hkey : taskKey d.task.task = taskKey m.task)
    (hold : ∀ r r', old = some (r, r') → r'.runId = r.runId ∧ s'.runs.get r'.runId = some r' ∧
      isLive r'.state = false)
    (hadmits : ∀ source id, admitted = some (source, id) →
      Admits label s (taskKey d.task.task) source id)
    (hwritten : Written s s' d) (horigin : Origin admitted before old d.task m) :
    Lineage s' m := by
  cases horigin with
  | request hadmitted =>
    exact .caller (Step.external_caller hexternal (hadmits _ _ hadmitted).presented)
  | fallback r r' hrr' _ hsource hid =>
    obtain ⟨hrid, hr', hterminal⟩ := hold r r' hrr'
    exact .fallback r' hsource (by rw [hid, hrid]) hr' hterminal
  | correction r t b hrr' _ _ _ _ _ hsource hid _ _ _ hdelivery =>
    obtain ⟨-, hr', hterminal⟩ := hold r r hrr'
    refine .correction r hsource hid hr' hterminal ?_
    intro vt hvt b' hb' _ hnone
    rw [← hkey, hwritten.get_task, if_pos rfl] at hvt
    obtain rfl := Option.some.inj hvt
    rw [hdelivery] at hb'
    obtain rfl := Option.some.inj hb'
    cases hnone
  | retry r r' t hrr' _ _ hsource hid =>
    obtain ⟨hrid, hr', hterminal⟩ := hold r r' hrr'
    exact .retry r' hsource (by rw [hid, hrid]) hr' hterminal
  | supersede _ _ _ _ _ _ _ _ _ _ hsource => exact .caller hsource

/-- The index after a commit whose mints have new identities. -/
theorem indexed_after (hs : s.Coherent) (hinv : History s)
    (heffect : Effect label now admitted overrun subject
      ((s.tasks.get (taskKey d.task.task)).map (·.task)) d)
    (hsubject : ∀ r ∈ subject, s.runs.get r.runId = some r ∧ taskKey r.task = taskKey d.task.task)
    (hwritten : Written s s' d)
    (hfresh : ∀ m ∈ d.writes, s.runs.get m.runId = none → ∀ {id x}, s.runs.get id = some x →
      ¬SameRequest x m) {id : String} {x : Run} (hx : s'.runs.get id = some x) :
    s'.requestRuns.get x.indexKey = some x.runId := by
  rw [hwritten.requestRuns]
  change (OrderedMap.setAll Run.indexKey Run.runId s.requestRuns d.writes).get x.indexKey = _
  -- a write is a stored run moved on, or has a new identity
  have hwrite : ∀ y ∈ d.writes, (∃ r, s.runs.get y.runId = some r ∧ y.frozen = r.frozen) ∨
      MintedHere ((s.tasks.get (taskKey d.task.task)).map (·.task)) d y := by
    intro y hy
    rcases heffect.write_cases hy with ⟨r, hr, hmove⟩ | hminted
    · refine .inl ⟨r, ?_, hmove.frozen⟩
      rw [runId_of_frozen hmove.frozen]
      exact (hsubject r hr).1
    · exact .inr hminted
  have hsame : ∀ {y z r : Run}, y ∈ d.writes → s.runs.get z.runId = some r → z.frozen = r.frozen →
      y.indexKey = z.indexKey → y.runId = z.runId := by
    intro y z r hy hr hzr hkey
    rw [indexKey_of_frozen hzr] at hkey
    rcases hwrite y hy with ⟨q, hq, hyq⟩ | hminted
    · rw [indexKey_of_frozen hyq] at hkey
      obtain rfl := hinv.unique hs hq hr (indexKey_eq_iff.1 hkey)
      rw [runId_of_frozen hyq, runId_of_frozen hzr]
    · exact absurd (indexKey_eq_iff.1 hkey.symm) (hfresh y hy (hminted.unstored hs) hr)
  rcases hwritten.get_cases hx with ⟨hmem, rfl⟩ | ⟨hstored, hother⟩
  · refine OrderedMap.get_setAll_of_mem Run.indexKey Run.runId hmem fun y hy hkey => ?_
    rcases hwrite x hmem with ⟨r, hr, hxr⟩ | hminted
    · exact hsame hy hr hxr hkey
    · rcases hwrite y hy with ⟨q, hq, hyq⟩ | hminted'
      · exact (hsame hmem hq hyq hkey.symm).symm
      · exact hminted'.runId.trans hminted.runId.symm
  · rw [OrderedMap.get_setAll_of_notMem Run.indexKey Run.runId]
    · exact hinv.indexed hstored
    · intro y hy hkey
      refine hother y hy ?_
      rw [hsame hy ((hs.runKeyed hstored).symm ▸ hstored) rfl hkey]
      exact hs.runKeyed hstored

/-! ### Revisions that wait -/

/-- A task whose lock and desired revision stay, among runs that keep their identities. -/
theorem InWaiting.kept {P : WorkRevision → Run → Prop}
    (hP : ∀ D x x', x'.frozen = x.frozen → P D x → P D x') {k : String} {t t' : Task}
    (h : InWaiting P s k t) (hdesired : t'.desiredRevision = t.desiredRevision)
    (hlock : t'.activeRunId = t.activeRunId)
    (hruns : ∀ id x', s'.runs.get id = some x' → taskKey x'.task = k →
      ∃ x, s.runs.get id = some x ∧ x'.frozen = x.frozen) : InWaiting P s' k t' := by
  intro D r' hD hr'lock hr' hr'key hsome hne id x' hx' hx'key
  obtain ⟨r, hr, hrfrozen⟩ := hruns _ _ hr' hr'key
  obtain ⟨x, hx, hxfrozen⟩ := hruns _ _ hx' hx'key
  rw [hdesired] at hD
  rw [hlock] at hr'lock
  rw [runId_of_frozen hrfrozen] at hr hr'lock
  rw [task_of_frozen hrfrozen] at hr'key
  rw [sourceRevision_of_frozen hrfrozen] at hsome hne
  rw [task_of_frozen hxfrozen] at hx'key
  exact hP _ _ _ hxfrozen (h _ _ hD hr'lock hr hr'key hsome hne _ _ hx hx'key)

theorem requested_of_frozen (D : WorkRevision) (x x' : Run) (hfrozen : x'.frozen = x.frozen)
    (h : Unrequested D x) : Unrequested D x' := by
  rw [Unrequested, requestSource_of_frozen hfrozen, requestId_of_frozen hfrozen]
  exact h

/-- A request that only records its revision presents a key that was never requested. -/
theorem awaitsTurn_recorded (hs : s.Coherent) (hinv : History s) (hexternal : label.external = true)
    {k : String} (hadmits : Presents label s k admitted) {revision : WorkRevision}
    (hrevision : label.revision = some revision) {id : String} {x : Run}
    (hx : s.runs.get id = some x) (hkey : taskKey x.task = k) (hsource : x.requestSource = .caller) :
    x.requestId ≠ revision.key := by
  have hasked : label.requestId.isSome = true := by
    cases label with
    | request now input => rfl
    | _ => cases hrevision
  obtain ⟨⟨source, requestId⟩, hadmitted⟩ := Option.isSome_iff_exists.1 (hadmits.asked hasked)
  have hgiven := hadmits.admits _ _ hadmitted
  obtain rfl := Step.external_caller hexternal hgiven.presented
  have hid : requestId = revision.key := Option.some.inj
    ((hgiven.unbound (Step.external_unbound hexternal hrevision)).symm.trans
      (hgiven.revision revision hrevision))
  rw [← hid]
  exact hinv.unused hs hgiven.unused hx hkey hsource

/-- The run that takes the lock is of the desired revision. -/
theorem Origin.awaitsTurn (hs : s.Coherent) {k : String} {old : Option (Run × Run)} {t' : Task}
    {m : Run} (hbefore : (s.tasks.get k).map (·.task) = before)
    (hold : ∀ r r', old = some (r, r') → s.runs.get r.runId = some r ∧ taskKey r.task = k)
    (horigin : Origin admitted before old t' m) {D : WorkRevision}
    (hD : t'.desiredRevision = some D) (hsome : m.sourceRevision.isSome = true) :
    m.sourceRevision.map (·.key) = some D.key := by
  cases horigin with
  | request _ hdesired =>
    rw [← hdesired, hD]
    rfl
  | fallback _ _ _ _ _ _ hdesired =>
    rw [hdesired] at hD
    cases hD
  | correction _ _ _ _ _ _ _ _ _ _ _ hdesired =>
    rw [hdesired] at hD
    cases hD
  | retry r r' t hrr' hr ht _ _ hdesired _ _ hkey hrevision =>
    obtain ⟨vt, hvt, rfl⟩ := Option.map_eq_some_iff.1 (hbefore.trans ht)
    obtain ⟨hget, hrk⟩ := hold r r' hrr'
    -- a closed task has no live run to retry
    have hopen : vt.task.closedAt = none := by
      by_contra hne
      have hlock := hs.mutex hget (hrk ▸ hvt) hr
      rw [hs.closed hvt (Option.isSome_iff_ne_none.2 hne)] at hlock
      cases hlock
    rw [hkey]
    rcases hrevision hopen D (hdesired ▸ hD) with hnone | hsame
    · rw [hnone] at hkey
      rw [Option.map_eq_none_iff.1 hkey] at hsome
      cases hsome
    · exact hsame
  | supersede _ _ _ desired _ _ _ _ _ _ _ _ hrevision hdesired =>
    rw [hdesired] at hD
    rw [hrevision, Option.some.inj hD]
    rfl

/-- Writes that keep the identity of stored runs keep that of every run. -/
theorem Written.frozen_before (hwritten : Written s s' d) {subject : Option Run}
    (hsubject : ∀ r ∈ subject, s.runs.get r.runId = some r)
    (hwrites : ∀ x ∈ d.writes, ∃ r ∈ subject, x.frozen = r.frozen) (id : String) (x' : Run)
    (hx' : s'.runs.get id = some x') (_ : taskKey x'.task = taskKey d.task.task) :
    ∃ x, s.runs.get id = some x ∧ x'.frozen = x.frozen := by
  rcases hwritten.get_cases hx' with ⟨hmem, rfl⟩ | ⟨hstored, -⟩
  · obtain ⟨r, hr, hfrozen⟩ := hwrites x' hmem
    exact ⟨r, by rw [runId_of_frozen hfrozen]; exact hsubject r hr, hfrozen⟩
  · exact ⟨x', hstored, rfl⟩

/-- The waiting revision of the task a decision is about. -/
theorem Effect.awaits {P : WorkRevision → Run → Prop}
    (hP : ∀ D x x', x'.frozen = x.frozen → P D x → P D x') (hs : s.Coherent)
    (heffect : Effect label now admitted overrun subject
      ((s.tasks.get (taskKey d.task.task)).map (·.task)) d)
    (hsubject : ∀ r ∈ subject, s.runs.get r.runId = some r ∧ taskKey r.task = taskKey d.task.task)
    (hwritten : Written s s' d)
    (hwaiting : ∀ {vt}, s.tasks.get (taskKey d.task.task) = some vt →
      InWaiting P s (taskKey d.task.task) vt.task)
    (hrecorded : ∀ {revision id x}, label.revision = some revision → s.runs.get id = some x →
      taskKey x.task = taskKey d.task.task → P revision x) :
    InWaiting P s' (taskKey d.task.task) d.task := by
  have hruns := hwritten.frozen_before fun r hr => (hsubject r hr).1
  have hstored : ∀ x ∈ d.writes, s'.runs.get x.runId = some x := fun x hx =>
    hwritten.get_of_mem hs heffect hsubject hx
  generalize hbefore : (s.tasks.get (taskKey d.task.task)).map (·.task) = before at heffect
  cases heffect with
  | @touch _ t t' h =>
    obtain ⟨vt, hvt, rfl⟩ := Option.map_eq_some_iff.1 hbefore
    have hruns := hruns (by simp [Decision.writes])
    rcases h.desired with hsame | hnone | ⟨revision, hnew, hrevision, -⟩
    · exact (hwaiting hvt).kept hP hsame h.lock hruns
    · intro D r hD
      rw [hnone] at hD
      cases hD
    · intro D r hD _ _ _ _ _ id x hx hkey
      obtain rfl : revision = D := Option.some.inj (hnew.symm.trans hD)
      obtain ⟨y, hy, hfrozen⟩ := hruns _ _ hx hkey
      rw [task_of_frozen hfrozen] at hkey
      exact hP _ _ _ hfrozen (hrecorded hrevision hy hkey)
  | @rewrite t t' r r' outbox hmove hlive h =>
    obtain ⟨vt, hvt, rfl⟩ := Option.map_eq_some_iff.1 hbefore
    have hruns := hruns (by simpa [Decision.writes] using hmove.frozen)
    rcases h.desired with hsame | hnone
    · exact (hwaiting hvt).kept hP hsame h.lock hruns
    · intro D r hD
      rw [hnone] at hD
      cases hD
  | @settle t t' r r' outbox hmove hr hr' h =>
    obtain ⟨vt, hvt, rfl⟩ := Option.map_eq_some_iff.1 hbefore
    obtain ⟨hget, hkey⟩ := hsubject r rfl
    intro D r hD hlock
    rw [h.lock, if_pos (hs.mutex hget (hkey ▸ hvt) hr)] at hlock
    cases hlock
  | mint old dropped m hwrites hmove hkey hfirst hfree hminted hdropped horigin =>
    intro D r hD hlock hr _ hsome hne
    have hm := hstored m ((hwrites m).2 (.inr rfl))
    rw [hminted.lock] at hlock
    rw [← Option.some.inj hlock, hm] at hr
    obtain rfl := Option.some.inj hr
    refine absurd (horigin.awaitsTurn hs hbefore ?_ hD hsome) hne
    intro q q' hqq'
    exact hsubject q (hmove q q' hqq').1

/-! ### The invariant -/

theorem History.of_unread (h : History s) (hu : Unread s s') : History s' where
  indexed := by rw [hu.runs, hu.requestRuns]; exact h.indexed
  own := by rw [hu.runs]; exact h.own
  lineage := by
    intro id r hr
    rw [hu.runs] at hr
    cases h.lineage hr with
    | caller hsource => exact .caller hsource
    | retry x hsource hid hx => exact .retry x hsource hid (hu.runs ▸ hx) ‹_›
    | fallback x hsource hid hx => exact .fallback x hsource hid (hu.runs ▸ hx) ‹_›
    | correction x hsource hid hx hterminal hdone =>
      exact .correction x hsource hid (hu.runs ▸ hx) hterminal (hu.tasks ▸ hdone)
  waiting := by
    intro k vt hvt
    rw [hu.tasks] at hvt
    refine (h.waiting hvt).kept requested_of_frozen rfl rfl fun id x hx _ => ⟨x, ?_, rfl⟩
    rw [← hu.runs]
    exact hx

theorem History.of_queue (hs : s.Coherent) (hinv : History s) (h : Change label s s') {r r' : Run}
    (hget : s.runs.get r.runId = some r) (hmove : Move label now r r')
    (htasks : s'.tasks = s.tasks) (hruns : s'.runs = s.runs.set r.runId r')
    (hrequests : s'.requestRuns = s.requestRuns) : History s' := by
  have hstored : ∀ {id x'}, s'.runs.get id = some x' →
      ∃ x, s.runs.get id = some x ∧ x'.frozen = x.frozen := by
    intro id x' hx'
    rw [hruns] at hx'
    by_cases hid : id = r.runId
    · subst hid
      rw [OrderedMap.get_set_self] at hx'
      obtain rfl := Option.some.inj hx'
      exact ⟨r, hget, hmove.frozen⟩
    · rw [OrderedMap.get_set_of_ne _ _ hid] at hx'
      exact ⟨x', hx', rfl⟩
  refine ⟨?_, h.ownDelivery hs hinv.own, ?_, ?_⟩
  · intro id x' hx'
    obtain ⟨x, hx, hfrozen⟩ := hstored hx'
    rw [hrequests, indexKey_of_frozen hfrozen, runId_of_frozen hfrozen]
    exact hinv.indexed hx
  · intro id x' hx'
    obtain ⟨x, hx, hfrozen⟩ := hstored hx'
    exact h.lineage hs hinv (hinv.lineage hx) hfrozen
  · intro k vt hvt
    rw [htasks] at hvt
    exact (hinv.waiting hvt).kept requested_of_frozen rfl rfl fun id x' hx' _ => hstored hx'

theorem History.of_decide (hs : s.Coherent) (hinv : History s) (h : Change label s s')
    (hexternal : label.external = true)
    (heffect : Effect label now admitted overrun subject
      ((s.tasks.get (taskKey d.task.task)).map (·.task)) d)
    (hsubject : ∀ r ∈ subject, s.runs.get r.runId = some r ∧ taskKey r.task = taskKey d.task.task)
    (hadmits : Presents label s (taskKey d.task.task) admitted) (hwritten : Written s s' d) :
    History s' := by
  have hstored : ∀ x ∈ d.writes, s'.runs.get x.runId = some x := fun x hx =>
    hwritten.get_of_mem hs heffect hsubject hx
  -- a run that is new in the store was minted, with an identity of its own
  have hmint : ∀ x ∈ d.writes, s.runs.get x.runId = none → Lineage s' x ∧
      ∀ {id y}, s.runs.get id = some y → ¬SameRequest y x := by
    intro x hx hnew
    obtain ⟨old, hold, hkey, horigin⟩ := heffect.origin (fun r hr => (hsubject r hr).1) hx hnew
    constructor
    · refine horigin.lineage hexternal hkey (fun r r' hrr' => ?_) hadmits.admits hwritten
      obtain ⟨-, hmove, hterminal, hwrite⟩ := hold r r' hrr'
      exact ⟨runId_of_frozen hmove.frozen, hstored r' hwrite, hterminal⟩
    · intro id y hy hsame
      exact horigin.fresh_identity hs hinv rfl (fun r r' hrr' => hsubject r (hold r r' hrr').1)
        hadmits.admits hy (hsame.task.trans hkey.symm) hsame.source hsame.requestId
  refine ⟨?_, h.ownDelivery hs hinv.own, ?_, ?_⟩
  · exact indexed_after hs hinv heffect hsubject hwritten fun m hm hnew => (hmint m hm hnew).2
  · intro id x hx
    rcases hwritten.get_cases hx with ⟨hmem, rfl⟩ | ⟨hget, -⟩
    · rcases heffect.write_cases hmem with ⟨r, hr, hmove⟩ | hminted
      · exact h.lineage hs hinv (hinv.lineage (hsubject r hr).1) hmove.frozen
      · exact (hmint x hmem (hminted.unstored hs)).1
    · exact h.lineage hs hinv (hinv.lineage hget) rfl
  · intro k vt hvt
    rw [hwritten.get_task] at hvt
    split_ifs at hvt with hk
    · obtain rfl := Option.some.inj hvt
      subst hk
      exact heffect.awaits requested_of_frozen hs hsubject hwritten hinv.waiting
        fun hrevision hx hkey => awaitsTurn_recorded hs hinv hexternal hadmits hrevision hx hkey
    · refine (hinv.waiting hvt).kept requested_of_frozen rfl rfl fun id x hx hkey => ?_
      rcases hwritten.get_cases hx with ⟨hmem, rfl⟩ | ⟨hget, -⟩
      · rcases heffect.write_cases hmem with ⟨r, hr, hmove⟩ | hminted
        · rw [task_of_frozen hmove.frozen, (hsubject r hr).2] at hkey
          exact absurd hkey.symm hk
        · exact absurd (hkey.symm.trans hminted.key) hk
      · exact ⟨x, hget, rfl⟩

theorem Change.history (hs : s.Coherent) (h : Change label s s') (hexternal : label.external = true)
    (hinv : History s) : History s' := by
  cases h with
  | aside h =>
    cases h with
    | quiet hu => exact hinv.of_unread hu
    | outbox hu => exact hinv.of_unread hu
    | queue now r r' hget hmove hlive htasks hruns hrequests hcooldowns hout hdelivery hclock =>
      exact hinv.of_queue hs
        (.aside (.queue now r r' hget hmove hlive htasks hruns hrequests hcooldowns hout hdelivery
        hclock))
        hget hmove htasks hruns hrequests
  | decide now admitted subject d heffect hsubject hadmits hwritten hclock =>
    exact hinv.of_decide hs
      (.decide now admitted subject d heffect hsubject hadmits hwritten hclock) hexternal
      heffect hsubject hadmits hwritten

theorem history_empty : History .empty where
  indexed := fun h => by cases h
  own := fun _ _ h => by cases h
  lineage := fun h => by cases h
  waiting := fun h => by cases h

end History

/-! ### Bindings -/

/-- No binding record is changed. -/
def BindingsKept (s s' : Store) : Prop :=
  ∀ k record, s.requestBindings.get k = some record → s'.requestBindings.get k = some record

section Bindings

variable {s s' : Store} {now : Time} {input : RequestInput}

theorem BindingsKept.of_eq (h : s'.requestBindings = s.requestBindings) : BindingsKept s s' := by
  intro k record hk
  rw [h]
  exact hk

/-- Neither a binding nor a receipt of a revision is written. -/
structure SameRecords (s s' : Store) : Prop where
  bindings : s'.requestBindings = s.requestBindings
  revisions : s'.sourceRevisions = s.sourceRevisions

theorem Commits.records (h : Commits s s') : SameRecords s s' := by
  rcases h with rfl | ⟨d, revision, rfl⟩
  · exact ⟨rfl, rfl⟩
  · rw [Store.commit_eq]
    exact ⟨rfl, rfl⟩

theorem noteBinding_revisions (s : Store) (read : Store.RequestRead)
    (next : Option BindingRecord) : (s.noteBinding read next).sourceRevisions = s.sourceRevisions := by
  unfold Store.noteBinding
  split <;> rfl

theorem noteRevision_bindings (s : Store) (read : Store.RequestRead)
    (previous : Option WorkRevision) (d : Decision) :
    (s.noteRevision read previous d).requestBindings = s.requestBindings := by
  unfold Store.noteRevision
  split
  · split_ifs <;> rfl
  · rfl

/-- Only requests write records. -/
theorem World.step_records (w : World) {label : Step} (h : label.requestedKey = none) :
    SameRecords w.store (w.step label).store := by
  cases label with
  | request now input => cases h
  | onRun runId now cleanupId op => exact (transactRun_commits _ _ _ _ _).records
  | direct runId now op => exact (transactRun_commits _ _ _ _ _).records
  | enqueueRun runId now =>
    simp only [World.step, Store.enqueueRun]
    split
    · exact ⟨rfl, rfl⟩
    · split_ifs <;> exact ⟨rfl, rfl⟩
  | claimQueuedRun pipelines input =>
    simp only [World.step, Store.claimQueuedRun]
    split <;> exact ⟨rfl, rfl⟩
  | releaseQueuedRunClaim runId claimedBy tokenHash now deferredUntil =>
    simp only [World.step, Store.releaseQueuedRunClaim]
    split
    · exact ⟨rfl, rfl⟩
    · split_ifs <;> exact ⟨rfl, rfl⟩
  | claimPendingOutbox limit now leaseExpiresAt excluded claimIds =>
    simp only [World.step, claimPendingOutbox_eq]
    exact ⟨rfl, rfl⟩
  | settleOutbox input =>
    simp only [World.step, Store.settleOutbox]
    split <;> exact ⟨rfl, rfl⟩
  | wakeOutbox entryId now =>
    simp only [World.step, Store.wakeOutbox]
    split <;> exact ⟨rfl, rfl⟩
  | call id taskId op => exact ⟨rfl, rfl⟩
  | resume id now =>
    simp only [World.step]
    split
    · exact ⟨rfl, rfl⟩
    · exact (resume_commits _ _ _).records

/-- What a request does to the bindings. -/
theorem request_bindings (s : Store) (now : Time) (input : RequestInput) :
    ((∃ stop, (Orchestrator.request s now input).1 = .error stop) ∧
      (Orchestrator.request s now input).2.requestBindings = s.requestBindings) ∨
    ∃ requestId next, Store.resolveRequestBinding input.requestId input.requestBinding
        (s.currentBinding input) = .ok (requestId, next) ∧
      (Orchestrator.request s now input).2.requestBindings =
        (s.noteBinding input.read next).requestBindings := by
  unfold Orchestrator.request
  split
  · exact .inl ⟨⟨_, rfl⟩, rfl⟩
  unfold Store.transactRequest
  dsimp only
  split
  · exact .inl ⟨⟨_, rfl⟩, rfl⟩
  rename_i requestId next hresolve
  split
  · exact .inl ⟨⟨_, rfl⟩, rfl⟩
  · exact .inr ⟨requestId, next, hresolve, rfl⟩
  split
  · exact .inr ⟨requestId, next, hresolve, rfl⟩
  · rename_i s' happly
    exact .inr ⟨requestId, next, hresolve,
      (noteRevision_bindings s' _ _ _).trans (apply_commits happly).records.bindings⟩

/-- A record is written only where there was none, and then resolves its own request. -/
theorem noteBinding_kept {requestId : String} {next : Option BindingRecord}
    (h : Store.resolveRequestBinding input.requestId input.requestBinding (s.currentBinding input) =
      .ok (requestId, next)) :
    BindingsKept s (s.noteBinding input.read next) ∧ ∀ s',
      BindingsKept (s.noteBinding input.read next) s' → s'.resolves input = some requestId := by
  unfold Store.resolves Store.noteBinding RequestInput.read Store.currentBinding at *
  cases hbinding : input.requestBinding with
  | none =>
    simp only [hbinding, Store.resolveRequestBinding, Except.ok.injEq, Prod.mk.injEq] at h
    exact ⟨BindingsKept.of_eq rfl, fun _ _ => by simp [Store.resolveRequestBinding, h.1]⟩
  | some binding =>
    simp only [hbinding, Option.bind_some] at h ⊢
    cases hcurrent : s.requestBindings.get (taskKey input.taskId, binding.bindingKey) with
    | none =>
      simp only [hcurrent, Store.resolveRequestBinding, Except.ok.injEq, Prod.mk.injEq] at h
      obtain ⟨rfl, rfl⟩ := h
      constructor
      · intro k record hk
        have hne : k ≠ (taskKey input.taskId, binding.bindingKey) := by
          rintro rfl
          rw [hcurrent] at hk
          cases hk
        exact (OrderedMap.get_set_of_ne _ _ hne).trans hk
      · intro s' hkept
        have hrecord := hkept (taskKey input.taskId, binding.bindingKey) _
          (OrderedMap.get_set_self _ _ _)
        simp [hrecord, Store.resolveRequestBinding]
    | some current =>
      simp only [hcurrent, Store.resolveRequestBinding] at h
      split_ifs at h with hcanonical hfirst
      all_goals
        obtain ⟨rfl, rfl⟩ := Prod.mk.inj (Except.ok.inj h)
        refine ⟨BindingsKept.of_eq rfl, fun s' hkept => ?_⟩
        simp [hkept _ _ hcurrent, Store.resolveRequestBinding, hcanonical, hfirst]

theorem World.step_bindings (w : World) (label : Step) :
    BindingsKept w.store (w.step label).store := by
  cases label with
  | request now input =>
    rcases request_bindings w.store now input with ⟨-, h⟩ | ⟨requestId, next, hresolve, h⟩
    · exact .of_eq h
    · intro k record hk
      exact (congrArg (·.get k) h).trans ((noteBinding_kept hresolve).1 k record hk)
  | _ => exact .of_eq (w.step_records rfl).bindings

theorem World.run_bindings (w : World) (steps : List Step) :
    BindingsKept w.store (w.run steps).store :=
  Machine.invariant_run (fun v : World => BindingsKept w.store v.store)
    (fun v label h k record hk => v.step_bindings label k record (h k record hk))
    (fun _ _ hk => hk) steps

/-- An accepted request resolves to the same id ever after. -/
theorem resolves_again {d : Decision} (hd : (Orchestrator.request s now input).1 = .ok d)
    (hkept : BindingsKept (Orchestrator.request s now input).2 s') :
    s'.resolves input = s.resolves input := by
  rcases request_bindings s now input with ⟨⟨stop, hstop⟩, -⟩ | ⟨requestId, next, hresolve, h⟩
  · rw [hstop] at hd
    cases hd
  · have hbefore : s.resolves input = some requestId := by
      unfold Store.resolves
      rw [hresolve]
    rw [hbefore]
    refine (noteBinding_kept hresolve).2 s' fun k record hk => hkept k record ?_
    exact (congrArg (·.get k) h).trans hk

end Bindings

/-! ### Repeated requests -/

/-- The guards that come before the lookup of a request's history all pass. -/
def RequestInput.reachesHistory (input : RequestInput) (state : Store.RequestTransactionState) :
    Bool :=
  (state.task.all fun task => input.isStoredWorkCompatible.all fun f => f task.task.work task.task) ∧
    state.previousSourceRevision = none ∧
    input.expectedEffectivePipeline.all (· = input.effectivePipeline state.task) ∧
    input.isPipelineAuthorized.all fun f =>
      f ((state.previousRun.map (·.pipeline)).getD (input.effectivePipeline state.task))

/-- How a request for the identity of the stored run `x` is answered. -/
structure Repeats (s : Store) (now : Time) (input : RequestInput) (x : Run) : Prop where
  stopped : ∃ stop, (Orchestrator.request s now input).1 = .error stop
  unread : Unread s (Orchestrator.request s now input).2
  outbox : (Orchestrator.request s now input).2.outbox = s.outbox
  duplicate : ∀ run, (Orchestrator.request s now input).1 = refused .duplicateRequest run →
    run = some x
  answer : (∀ revision ∈ input.sourceRevision, revision.key = input.requestId) →
    input.reachesHistory (s.requestState input.read x.requestId) = true →
    (Orchestrator.request s now input).1 = refused .duplicateRequest (some x)

section Repeats

variable {s : Store} {now : Time} {input : RequestInput}

/-- What a request refuses, its decision refuses. -/
theorem request_refused {requestId : String} {next : Option BindingRecord} {reason : Reason}
    {run : Option Run}
    (hresolve : Store.resolveRequestBinding input.requestId input.requestBinding
      (s.currentBinding input) = .ok (requestId, next)) :
    (Orchestrator.request s now input).1 = refused reason run ↔
      (∀ revision ∈ input.sourceRevision, revision.key = input.requestId) ∧
        decideRequest input now (s.requestState input.read requestId) = refused reason run := by
  have hmismatch : (input.sourceRevision.any fun revision => revision.key ≠ input.requestId) =
      false ↔ ∀ revision ∈ input.sourceRevision, revision.key = input.requestId := by
    cases input.sourceRevision <;> simp
  rw [← hmismatch]
  unfold Orchestrator.request
  split
  · rename_i hthrew
    refine iff_of_false (by simp [refused]) fun h => ?_
    rw [hthrew] at h
    cases h.1
  rename_i hkey
  rw [Bool.not_eq_true] at hkey
  rw [eq_true hkey, true_and]
  have hread : Store.resolveRequestBinding input.read.requestId input.read.requestBinding
      (input.read.requestBinding.bind fun binding =>
        s.requestBindings.get (taskKey input.read.taskId, binding.bindingKey)) =
      .ok (requestId, next) := hresolve
  unfold Store.transactRequest
  simp only [hread]
  split
  · rename_i hthrew
    simp [hthrew, refused]
  · rename_i hrefusal
    rw [hrefusal]
  · rename_i hd
    rw [hd]
    split <;> simp [refused]

theorem decideRequest_duplicate (input : RequestInput) (now : Time)
    {state : Store.RequestTransactionState} {x : Run} (hprevious : state.previousRun = some x) :
    (∀ run, decideRequest input now state = refused .duplicateRequest run → run = some x) ∧
      (input.reachesHistory state = true →
        decideRequest input now state = refused .duplicateRequest (some x)) := by
  have hcarried : ∀ run, (refused Reason.duplicateRequest (some x) : Outcome) =
      refused .duplicateRequest run → run = some x := by
    intro run h
    simp only [refused, Except.error.injEq, Stop.refusal.injEq, Refusal.mk.injEq, true_and] at h
    exact h.symm
  constructor
  · intro run h
    unfold decideRequest at h
    rw [hprevious] at h
    split at h
    · simp [refused] at h
    split at h
    · split at h
      · simp [refused] at h
      · exact hcarried run h
    dsimp only at h
    split at h
    · simp [refused] at h
    split at h
    · simp [refused] at h
    · exact hcarried run h
  · intro h
    simp only [RequestInput.reachesHistory, decide_eq_true_eq] at h
    obtain ⟨hwork, hrevision, hexpected, hauthorized⟩ := h
    unfold decideRequest
    rw [if_neg, hrevision]
    · dsimp only
      rw [if_neg, if_neg, hprevious]
      · cases hf : input.isPipelineAuthorized with
        | none => simp
        | some f => simpa [hf] using hauthorized
      · cases hf : input.expectedEffectivePipeline with
        | none => simp
        | some pipeline => simpa [hf] using hexpected
    · cases ht : state.task with
      | none => simp
      | some task =>
        cases hf : input.isStoredWorkCompatible with
        | none => simp
        | some f => simpa [ht, hf] using hwork

/-- A request for the identity of a stored run repeats it. -/
theorem History.repeats (hinv : History s) (hs : s.Coherent) {id : String} {x : Run}
    (hx : s.runs.get id = some x) (hkey : taskKey x.task = taskKey input.taskId)
    (hsource : x.requestSource = input.requestSource.getD .caller)
    (hresolves : s.resolves input = some x.requestId) : Repeats s now input x := by
  obtain ⟨next, hresolve⟩ : ∃ next, Store.resolveRequestBinding input.requestId
      input.requestBinding (s.currentBinding input) = .ok (x.requestId, next) := by
    unfold Store.resolves at hresolves
    split at hresolves
    · rename_i requestId next hresolve
      obtain rfl := Option.some.inj hresolves
      exact ⟨next, hresolve⟩
    · cases hresolves
  -- the transaction finds the run under its identity
  have hprevious : (s.requestState input.read x.requestId).previousRun = some x := by
    have hindex := hinv.indexed hx
    unfold Run.indexKey Store.requestKey at hindex
    simp only [Store.requestState, RequestInput.read, Store.requestKey]
    rw [← hsource, ← hkey, hindex, Option.bind_some, hs.runKeyed hx, hx]
  obtain ⟨hduplicate, hanswer⟩ := decideRequest_duplicate input now hprevious
  rcases request_cases s now input with ⟨hstop, hunread, hout⟩ | ⟨requestId, next', d, -, -, h, hd, -⟩
  · refine ⟨hstop, hunread, hout, fun run hrun => ?_, fun hrevision hreach => ?_⟩
    · exact hduplicate run ((request_refused hresolve).1 hrun).2
    · exact (request_refused hresolve).2 ⟨hrevision, hanswer hreach⟩
  · rw [hresolve] at h
    obtain ⟨rfl, -⟩ := Prod.mk.inj (Except.ok.inj h)
    rw [(decideRequest_ok hd).2.1] at hprevious
    cases hprevious

/-- The run an accepted request mints carries the id the request stands for. -/
theorem request_minted (hs : s.Coherent) {d : Decision} {m : Run}
    (hd : (Orchestrator.request s now input).1 = .ok d) (hm : m ∈ d.writes)
    (hnew : s.runs.get m.runId = none) :
    s.resolves input = some m.requestId ∧ m.requestSource = input.requestSource.getD .caller ∧
      taskKey m.task = taskKey input.taskId ∧
      (Orchestrator.request s now input).2.runs.get m.runId = some m := by
  rcases request_cases s now input with ⟨⟨stop, hstop⟩, -⟩ |
    ⟨requestId, next, d', hd', hrevision, hresolve, hdecide, hwritten⟩
  · rw [hstop] at hd
    cases hd
  obtain rfl : d' = d := Except.ok.inj (hd'.symm.trans hd)
  obtain ⟨now', admitted, subject, heffect, hsubject, hadmits, hwritten, -⟩ :=
    request_committed hs hrevision hresolve hdecide hwritten
  have hstored := hwritten.get_of_mem hs heffect hsubject hm
  obtain ⟨old, -, hkey, horigin⟩ := heffect.origin (fun r hr => (hsubject r hr).1) hm hnew
  have hasked : Option.isSome admitted = true := hadmits.asked rfl
  cases horigin with
  | request hadmitted =>
    have hgiven := hadmits.admits _ _ hadmitted
    refine ⟨hgiven.resolved now input rfl, (Option.some.inj hgiven.presented).symm, ?_, hstored⟩
    exact hkey.symm.trans (Option.some.inj hgiven.requested).symm
  | _ => simp [*] at hasked

end Repeats

/-! ### Whole histories -/

theorem World.history_run {steps : List Step} (hexternal : ∀ label ∈ steps, label.external = true) :
    History (World.init.run steps).store :=
  World.invariant_along History history_empty
    (fun hw hlabel hchange hinv => hchange.history hw.store hlabel hinv)
    (Machine.Along.of_forall_mem hexternal)

/-- A stored run stays stored under its identity. -/
theorem World.Coherent.run_kept {w : World} (hw : w.Coherent) {m : Run}
    (hm : w.store.runs.get m.runId = some m) (steps : List Step) :
    ∃ x, (w.run steps).store.runs.get m.runId = some x ∧ x.frozen = m.frozen := by
  have hkept : (w.run steps).Coherent ∧
      ∃ x, (w.run steps).store.runs.get m.runId = some x ∧ x.frozen = m.frozen := by
    refine Machine.invariant_run (fun v : World => v.Coherent ∧
      ∃ x, v.store.runs.get m.runId = some x ∧ x.frozen = m.frozen) ?_ ⟨hw, m, hm, rfl⟩ steps
    rintro v label ⟨hv, x, hx, hfrozen⟩
    obtain ⟨now, x', hx', hmove⟩ := (hv.change label).run_moves hv.store hx
    exact ⟨hv.step label, x', hx', hmove.frozen.trans hfrozen⟩
  exact hkept.2

/-- Identities are unique, and once a request was accepted with a minted run, every later request on
its task that the store resolves to the same id changes nothing and is refused; its history check
answers with that run.  The same request, under the same binding, always resolves to the same id. -/
theorem World.request_idempotent {steps : List Step}
    (hexternal : ∀ label ∈ steps, label.external = true) :
    let s := (World.init.run steps).store
    (∀ i j a b, s.runs.get i = some a → s.runs.get j = some b → SameRequest a b → i = j ∧ a = b) ∧
    ∀ first now input rest, steps = first ++ .request now input :: rest →
      ∀ d m, (Orchestrator.request (World.init.run first).store now input).1 = .ok d →
        m ∈ d.writes → (World.init.run first).store.runs.get m.runId = none →
        (World.init.run first).store.resolves input = some m.requestId ∧
        ∃ x, s.runs.get m.runId = some x ∧ x.frozen = m.frozen ∧
          ∀ now' again, (Step.request now' again).external = true →
            taskKey again.taskId = taskKey input.taskId →
            (s.resolves again = some m.requestId → Repeats s now' again x) ∧
            (again.requestId = input.requestId → again.requestBinding = input.requestBinding →
              s.resolves again = some m.requestId) := by
  intro s
  have hs : s.Coherent := (World.coherent_run steps).store
  have hinv : History s := World.history_run hexternal
  refine ⟨?_, ?_⟩
  · intro i j a b ha hb hab
    obtain rfl := hinv.unique hs ha hb hab
    exact ⟨(hs.runKeyed ha).symm.trans (hs.runKeyed hb), rfl⟩
  intro first now input rest hsteps d m hd hm hnew
  have hfirst := World.coherent_run first
  obtain ⟨hresolves, hsource, hkey, hstored⟩ := request_minted hfirst.store hd hm hnew
  have hrun : s = (((World.init.run first).step (.request now input)).run rest).store := by
    rw [show s = (World.init.run steps).store from rfl, hsteps]
    simp only [World.run, Machine.run_append, Machine.run_cons]
  obtain ⟨x, hx, hfrozen⟩ := (hfirst.step (.request now input)).run_kept hstored rest
  rw [← hrun] at hx
  refine ⟨hresolves, x, hx, hfrozen, fun now' again hagain htask => ⟨fun h => ?_, ?_⟩⟩
  · refine hinv.repeats hs hx ?_ ?_ ((requestId_of_frozen hfrozen).symm ▸ h)
    · rw [task_of_frozen hfrozen, hkey, htask]
    · have hcaller := Step.external_caller (hexternal (.request now input) (by simp [hsteps])) rfl
      have hcaller' := Step.external_caller hagain rfl
      rw [requestSource_of_frozen hfrozen, hsource, hcaller, hcaller']
  · intro hid hbinding
    have hkept : BindingsKept (Orchestrator.request (World.init.run first).store now input).2 s := by
      rw [hrun]
      exact ((World.init.run first).step (.request now input)).run_bindings rest
    rw [← hresolves, ← resolves_again hd hkept]
    simp only [Store.resolves, Store.currentBinding, hid, hbinding, htask]

/-- One request, and the cancellation of its run. -/
def Sample.canceled : List Step :=
  [.request 0 (Sample.request "claude"),
   .onRun Sample.runId 1 "cleanup" (.cancel none none none)]

/-- The answer to the first request of all. -/
theorem Sample.first_minted :
    ∃ d m, (Orchestrator.request (World.init.run []).store 0 (Sample.request "claude")).1 = .ok d ∧
      m ∈ d.writes ∧ (World.init.run []).store.runs.get m.runId = none ∧ m.requestId = "q1" ∧
      m.runId = Sample.runId := by
  have hfirst : ((Orchestrator.request (World.init.run []).store 0
      (Sample.request "claude")).1.toOption.any fun d => d.writes.any fun m =>
        (World.init.run []).store.runs.get m.runId = none ∧ m.requestId = "q1" ∧
          m.runId = Sample.runId) = true := by decide +kernel
  cases hd : (Orchestrator.request (World.init.run []).store 0 (Sample.request "claude")).1 with
  | error stop =>
    rw [hd] at hfirst
    cases hfirst
  | ok d =>
    rw [hd] at hfirst
    obtain ⟨m, hm, hnew⟩ := List.any_eq_true.1 hfirst
    rw [decide_eq_true_eq] at hnew
    exact ⟨d, m, rfl, hm, hnew⟩

/-- After the cancellation the request repeats the canceled run. -/
theorem World.request_idempotent_canceled :
    ∃ x, (World.init.run Sample.canceled).store.runs.get Sample.runId = some x ∧
      isLive x.state = false ∧
      Repeats (World.init.run Sample.canceled).store 2 (Sample.request "claude") x := by
  have hcanceled : ((World.init.run Sample.canceled).store.runs.get Sample.runId).any
      (fun x => ¬isLive x.state) = true := by decide +kernel
  obtain ⟨d, m, hd, hm, hnew, -, hid⟩ := Sample.first_minted
  obtain ⟨-, x, hx, -, hagain⟩ :=
    (World.request_idempotent (by decide : ∀ label ∈ Sample.canceled, label.external = true)).2 []
      0 (Sample.request "claude") _ rfl d m hd hm hnew
  obtain ⟨hrepeats, hsame⟩ := hagain 2 (Sample.request "claude") (by decide) rfl
  rw [hid] at hx
  rw [hx] at hcanceled
  simp only [Option.any_some, decide_eq_true_eq, Bool.not_eq_true] at hcanceled
  exact ⟨x, hx, hcanceled, hrepeats (hsame rfl rfl)⟩

/-- Every later request with an accepted id, whatever its binding, leaves all runs as they are. -/
def World.RepeatsById (steps : List Step) : Prop :=
  ∀ first now input rest, steps = first ++ .request now input :: rest →
    ∀ d m, (Orchestrator.request (World.init.run first).store now input).1 = .ok d →
      m ∈ d.writes → (World.init.run first).store.runs.get m.runId = none →
      ∀ now' again, (Step.request now' again).external = true →
        taskKey again.taskId = taskKey input.taskId → again.requestId = m.requestId →
        (Orchestrator.request (World.init.run steps).store now' again).2.runs =
          (World.init.run steps).store.runs

/-- The accepted request once more, under a first binding. -/
def Sample.rebound : RequestInput :=
  { Sample.request "claude" with
    requestBinding := some { bindingKey := "b", canonicalRequestId := "c" } }

/-- Under a new binding the accepted id stands for another one, and a second run is minted. -/
theorem World.rebound_request_mints :
    (∀ label ∈ Sample.canceled, label.external = true) ∧ ¬World.RepeatsById Sample.canceled := by
  refine ⟨by decide, fun h => ?_⟩
  obtain ⟨d, m, hd, hm, hnew, hid, -⟩ := Sample.first_minted
  have hruns := h [] 0 (Sample.request "claude") _ rfl d m hd hm hnew 2 Sample.rebound (by decide)
    rfl hid.symm
  have hminted : ((Orchestrator.request (World.init.run Sample.canceled).store 2
      Sample.rebound).2.runs.get "work:w/r2").isSome = true := by decide +kernel
  have habsent : (World.init.run Sample.canceled).store.runs.get "work:w/r2" = none := by
    decide +kernel
  rw [hruns, habsent] at hminted
  cases hminted

end AgentLcars
