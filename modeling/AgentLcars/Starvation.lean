import Mathlib.Algebra.Order.BigOperators.Group.Finset
import AgentLcars.Outbox

/-!
# Due entries are not starved

A claim hands out due entries in the order of their attempts, and a hand-out raises them.  An entry
that waits while it is due is therefore passed by another one only while that one has no more
attempts than it has.

* `World.takesOut` is a hand-out of a pending entry; `World.takeOuts` counts them along a run.
* `World.waits` is a step that leaves the waiting entry pending although it could hand it out.
* `World.outbox_serves` is the bound, for runs that keep announced starts.
-/

namespace AgentLcars

/-! ### Claim order -/

section Order

variable {s : Store} {limit : Nat} {now : Time} {excluded : List String} {e f : OutboxEntry}

theorem byOutboxClaimFairness_iff {a b : OutboxEntry} :
    Store.byOutboxClaimFairness a b = true ↔
      a.attempts < b.attempts ∨ (a.attempts = b.attempts ∧ a.createdAt ≤ b.createdAt) := by
  rw [Store.byOutboxClaimFairness, decide_eq_true_eq]

instance : Std.Total fun a b : OutboxEntry => Store.byOutboxClaimFairness a b = true where
  total a b := by
    simp only [byOutboxClaimFairness_iff]
    rcases lt_trichotomy a.attempts b.attempts with h | h | h
    · exact .inl (.inl h)
    · rcases Int.le_total a.createdAt b.createdAt with hle | hle
      · exact .inl (.inr ⟨h, hle⟩)
      · exact .inr (.inr ⟨h.symm, hle⟩)
    · exact .inr (.inl h)

instance : IsTrans OutboxEntry fun a b => Store.byOutboxClaimFairness a b = true where
  trans a b c hab hbc := by
    simp only [byOutboxClaimFairness_iff] at *
    rcases hab with h | ⟨h, hle⟩ <;> rcases hbc with h' | ⟨h', hle'⟩
    · exact .inl (h.trans h')
    · exact .inl (h' ▸ h)
    · exact .inl (h ▸ h')
    · exact .inr ⟨h.trans h', Int.le_trans hle hle'⟩

theorem attempts_le_of_fairness (h : Store.byOutboxClaimFairness f e = true) :
    f.attempts ≤ e.attempts := by
  rcases byOutboxClaimFairness_iff.1 h with hlt | ⟨heq, -⟩
  · exact hlt.le
  · exact heq.le

/-- A pending entry on the page of a claim stands before every due entry that is not on it. -/
theorem claimableOutbox_before (hf : f ∈ s.claimableOutbox limit now excluded)
    (hpending : f.state = .pending) (he : e ∈ s.outbox.values)
    (hdue : Store.isDue e now excluded = true) (hout : e ∉ s.claimableOutbox limit now excluded) :
    Store.byOutboxClaimFairness f e = true := by
  unfold Store.claimableOutbox at hf hout
  dsimp only at hf hout
  rw [List.take_append] at hf hout
  have hexpired : f ∉ s.outbox.values.filter fun entry => Store.leaseExpired entry now := by
    simp [Store.leaseExpired, hpending]
  have hpage := (List.mem_append.1 hf).resolve_left fun h => hexpired (List.mem_of_mem_take h)
  have hsorted := List.pairwise_insertionSort
    (fun a b : OutboxEntry => Store.byOutboxClaimFairness a b = true)
    (s.outbox.values.filter fun entry => Store.isDue entry now excluded)
  have hmem : e ∈ (s.outbox.values.filter fun entry =>
      Store.isDue entry now excluded).insertionSort
        fun a b => Store.byOutboxClaimFairness a b = true := by
    rw [List.mem_insertionSort, List.mem_filter]
    exact ⟨he, hdue⟩
  rw [← List.take_append_drop _ (List.insertionSort _ _)] at hsorted hmem
  rcases List.mem_append.1 hmem with hin | hrest
  · exact absurd (List.mem_append_right _ hin) hout
  · exact (List.pairwise_append.1 hsorted).2.2 f hpage e hrest

end Order

/-! ### Hand-outs and the entry that waits -/

/-- The attempts of an entry; none if it is not stored. -/
def Store.attempts (s : Store) (id : String) : Nat := ((s.outbox.get id).map (·.attempts)).getD 0

/-- The entry is stored and pending. -/
def Store.isPending (s : Store) (id : String) : Bool :=
  (s.outbox.get id).any fun e => e.state = .pending

/-- The step takes a pending entry out of the pending state. -/
def World.takesOut (w : World) (id : String) (label : Step) : Bool :=
  w.store.isPending id ∧ ¬(w.step label).store.isPending id

/-- How often a run takes an entry out of the pending state. -/
def World.takeOuts (w : World) (id : String) : List Step → Nat
  | [] => 0
  | label :: rest => (if w.takesOut id label then 1 else 0) + (w.step label).takeOuts id rest

/-- The entry is pending before the step and after it, and due for it if the step is a claim. -/
def World.waits (w : World) (id : String) (label : Step) : Bool :=
  w.store.isPending id && (w.step label).store.isPending id && match label with
    | .claimPendingOutbox _ now _ excluded _ =>
      (w.store.outbox.get id).any fun e => Store.isDue e now excluded
    | _ => true

section Steps

variable {w : World} {id wait : String} {label : Step}

theorem Store.isPending_iff {s : Store} :
    s.isPending id = true ↔ ∃ e, s.outbox.get id = some e ∧ e.state = .pending := by
  simp [Store.isPending, Option.any_eq_true]

theorem Store.attempts_eq {s : Store} {e : OutboxEntry} (h : s.outbox.get id = some e) :
    s.attempts id = e.attempts := by
  simp [Store.attempts, h]

theorem EntryMove.attempts_le {e e' : OutboxEntry} (h : EntryMove label e e') :
    e.attempts ≤ e'.attempts := by
  cases h with
  | same => exact le_rfl
  | lease => exact Nat.le_succ _
  | settle input h => exact (settleOutboxEntry_eq_some h).attempts.ge
  | wake now h =>
    obtain ⟨-, next, -, -, rfl⟩ := wakeOutboxEntry_eq_some h
    exact le_rfl

/-- An entry that stays pending keeps its attempts. -/
theorem EntryMove.attempts_eq {e e' : OutboxEntry} (h : EntryMove label e e')
    (hpending : e.state = .pending) (hstays : e'.state = .pending) : e'.attempts = e.attempts := by
  cases h with
  | same => rfl
  | lease => cases hstays
  | settle input h =>
    obtain ⟨expires, hleased⟩ := (settleOutboxEntry_eq_some h).leased
    rw [hpending] at hleased
    cases hleased
  | wake now h =>
    obtain ⟨-, next, -, -, rfl⟩ := wakeOutboxEntry_eq_some h
    rfl

/-- A pending entry is taken out only by a claim, which raises its attempts. -/
theorem EntryMove.taken {e e' : OutboxEntry} (h : EntryMove label e e')
    (hpending : e.state = .pending) (hleft : e'.state ≠ .pending) :
    e'.attempts = e.attempts + 1 ∧ ∃ limit now leaseExpiresAt excluded claimIds,
      label = .claimPendingOutbox limit now leaseExpiresAt excluded claimIds := by
  cases h with
  | same => exact absurd hpending hleft
  | lease now leaseExpiresAt claimId _ hlabel =>
    obtain ⟨limit, excluded, claimIds, hlabel⟩ := hlabel
    exact ⟨rfl, limit, now, leaseExpiresAt, excluded, claimIds, hlabel⟩
  | settle input h =>
    obtain ⟨expires, hleased⟩ := (settleOutboxEntry_eq_some h).leased
    rw [hpending] at hleased
    cases hleased
  | wake now h =>
    obtain ⟨-, next, -, -, rfl⟩ := wakeOutboxEntry_eq_some h
    exact absurd hpending hleft

theorem World.attempts_mono (hw : w.Coherent) (hinv : Spoken w.store) :
    w.store.attempts id ≤ (w.step label).store.attempts id := by
  cases he : w.store.outbox.get id with
  | none => simp [Store.attempts, he]
  | some e =>
    obtain ⟨e', he', hmove⟩ := World.entry_moves hw hinv label he
    rw [Store.attempts_eq he, Store.attempts_eq he']
    exact hmove.attempts_le

/-- The entry that waits keeps its attempts. -/
theorem World.waits_attempts (hw : w.Coherent) (hinv : Spoken w.store)
    (hwait : w.waits wait label = true) :
    (w.step label).store.attempts wait = w.store.attempts wait := by
  simp only [World.waits, Bool.and_eq_true] at hwait
  obtain ⟨⟨hbefore, hafter⟩, -⟩ := hwait
  obtain ⟨e, he, hpending⟩ := Store.isPending_iff.1 hbefore
  obtain ⟨e'', he'', hstays⟩ := Store.isPending_iff.1 hafter
  obtain ⟨e', he', hmove⟩ := World.entry_moves hw hinv label he
  obtain rfl : e' = e'' := Option.some.inj (he'.symm.trans he'')
  rw [Store.attempts_eq he, Store.attempts_eq he']
  exact hmove.attempts_eq hpending hstays

/-- What a claim leaves off its page it leaves alone. -/
theorem claimPendingOutbox_off_page {s : Store} (hs : s.Coherent) {limit : Nat}
    {now leaseExpiresAt : Time} {excluded : List String} {claimIds : Nat → String} {e : OutboxEntry}
    (he : s.outbox.get id = some e) :
    e ∈ s.claimableOutbox limit now excluded ∨
      (s.claimPendingOutbox limit now leaseExpiresAt excluded claimIds).outbox.get id = some e := by
  by_cases hmem : e ∈ s.claimableOutbox limit now excluded
  · exact .inl hmem
  · right
    rw [claimPendingOutbox_eq]
    show (OrderedMap.setAll _ _ _ _).get id = _
    rw [OrderedMap.get_setAll_of_notMem, he]
    rintro ⟨x, i⟩ hx rfl
    have hx := List.fst_mem_of_mem_zipIdx hx
    obtain ⟨k, hget⟩ := (OrderedMap.mem_values_iff _ _).1 (claimableOutbox_mem hx).1
    have hkey : x.entryId = k := hs.entryKeyed hget
    rw [← hkey, he] at hget
    exact hmem (Option.some.inj hget ▸ hx)

/-- What a claim has on its page it leases. -/
theorem claimPendingOutbox_on_page {s : Store} (hs : s.Coherent) {limit : Nat}
    {now leaseExpiresAt : Time} {excluded : List String} {claimIds : Nat → String}
    {e e' : OutboxEntry} (he : s.outbox.get id = some e)
    (hmem : e ∈ s.claimableOutbox limit now excluded)
    (he' : (s.claimPendingOutbox limit now leaseExpiresAt excluded claimIds).outbox.get id =
      some e') : e'.state ≠ .pending := by
  rw [claimPendingOutbox_eq] at he'
  rcases OrderedMap.get_setAll_cases _ _ he' with ⟨x, -, -, rfl⟩ | ⟨-, hnone⟩
  · intro h
    cases h
  · obtain ⟨i, hi⟩ := List.mem_iff_getElem?.1 hmem
    exact absurd (hs.entryKeyed he) (hnone (e, i) (List.mk_mem_zipIdx_iff_getElem?.2 hi))

/-- An entry is handed out past a waiting one only while it has no more attempts. -/
theorem World.takesOut_attempts (hw : w.Coherent) (hinv : Spoken w.store)
    (hwait : w.waits wait label = true) (htake : w.takesOut id label = true) :
    w.store.attempts id ≤ w.store.attempts wait ∧
      (w.step label).store.attempts id = w.store.attempts id + 1 := by
  simp only [World.takesOut, decide_eq_true_eq] at htake
  obtain ⟨hbefore, hafter⟩ := htake
  obtain ⟨f, hf, hpending⟩ := Store.isPending_iff.1 hbefore
  obtain ⟨f', hf', hmove⟩ := World.entry_moves hw hinv label hf
  have hleft : f'.state ≠ .pending := fun h => hafter (Store.isPending_iff.2 ⟨f', hf', h⟩)
  obtain ⟨hattempts, limit, now, leaseExpiresAt, excluded, claimIds, rfl⟩ :=
    hmove.taken hpending hleft
  refine ⟨?_, by rw [Store.attempts_eq hf, Store.attempts_eq hf', hattempts]⟩
  simp only [World.waits, Bool.and_eq_true, Option.any_eq_true] at hwait
  obtain ⟨⟨-, hstays⟩, e, he, hdue⟩ := hwait
  obtain ⟨e', he', hpending'⟩ := Store.isPending_iff.1 hstays
  -- the claim hands out the one and leaves the other
  have hpage : f ∈ w.store.claimableOutbox limit now excluded := by
    rcases claimPendingOutbox_off_page hw.store hf with hin | hkept
    · exact hin
    · exact absurd (Option.some.inj (hf'.symm.trans hkept) ▸ hpending) hleft
  have hout : e ∉ w.store.claimableOutbox limit now excluded := fun hin =>
    claimPendingOutbox_on_page hw.store he hin he' hpending'
  rw [Store.attempts_eq hf, Store.attempts_eq he]
  exact attempts_le_of_fairness
    (claimableOutbox_before hpage hpending ((OrderedMap.mem_values_iff _ _).2 ⟨wait, he⟩) hdue hout)

/-- Each hand-out past the waiting entry uses up one of the attempts between the two. -/
theorem World.takeOuts_le (hw : w.Coherent) {more : List Step} (hinv : Spoken w.store)
    (hkept : Machine.Along World.step (fun w label => label.forgetsStart w.store = false) w more)
    (hwait : Machine.Along World.step (fun w label => w.waits wait label = true) w more) :
    w.takeOuts id more ≤ w.store.attempts wait + 1 - w.store.attempts id := by
  induction more generalizing w with
  | nil => exact Nat.zero_le _
  | cons label rest ih =>
    obtain ⟨hno, hkept⟩ := hkept
    obtain ⟨hwaits, hwait⟩ := hwait
    have hrest := ih (hw.step label) ((hw.change label).spoken hw.store hno hinv) hkept hwait
    have hsame := World.waits_attempts hw hinv hwaits
    have hmono : w.store.attempts id ≤ (w.step label).store.attempts id :=
      World.attempts_mono hw hinv
    rw [hsame] at hrest
    simp only [World.takeOuts]
    split_ifs with htake
    · obtain ⟨hle, hraised⟩ := World.takesOut_attempts hw hinv hwaits htake
      omega
    · omega

end Steps

/-! ### Every run -/

/-- While an entry is left waiting although it is due, every other entry is handed out at most once
for each attempt between the two, provided no announced start is forgotten. -/
theorem World.outbox_serves (steps more : List Step) (wait : String)
    (h : StartsRemembered (steps ++ more))
    (hwait : Machine.Along World.step (fun w label => w.waits wait label = true)
      (World.init.run steps) more) :
    let w := World.init.run steps
    (∀ id, w.takeOuts id more ≤ w.store.attempts wait + 1 - w.store.attempts id) ∧
    ∀ ids : Finset String, ∑ id ∈ ids, w.takeOuts id more ≤
      ∑ id ∈ ids, (w.store.attempts wait + 1 - w.store.attempts id) := by
  intro w
  obtain ⟨hsteps, hmore⟩ := Machine.Along.append.1 h
  have hbound : ∀ id, w.takeOuts id more ≤ w.store.attempts wait + 1 - w.store.attempts id :=
    fun id => World.takeOuts_le (World.coherent_run steps) (World.spoken_run hsteps) hmore hwait
  exact ⟨hbound, fun ids => Finset.sum_le_sum fun id _ => hbound id⟩

namespace Sample

/-- A worker takes the first entry and puts it back or is done with it. -/
def handle (entryId claimId : String) (state : SettlementState) (now : Time) : List Step :=
  [.claimPendingOutbox 1 now (now + 100) [] (fun _ => claimId),
   .settleOutbox { entryId, claimId, state, now, firstFailedAt := none, nextAttemptAt := none
                   deliveryFailures := none, recovered := false }]

/-- A run of a Linear issue is claimed; its dispatch was tried once and its start is announced. -/
def announced : List Step :=
  [.request 0 { Sample.request "claude" with
      issue := some linearIssue },
   .enqueueRun Sample.runId 1,
   .claimQueuedRun ["claude"] (Sample.claim 2)] ++
  handle "dispatch/work:w/r1" "lease" .pending 3 ++ [Sample.start 4]

/-- The announcement is handled, and the run is released, claimed again and announced anew. -/
def reannounce (now : Time) : List Step :=
  handle "issue-start/work:w/r1" "lease" .done now ++
  [.releaseQueuedRunClaim Sample.runId "runner" "token" now none,
   .claimQueuedRun ["claude"] (Sample.claim now), Sample.start now]

end Sample

theorem World.outbox_serves_announced :
    (World.init.run Sample.announced).takeOuts "issue-start/work:w/r1"
      (Sample.handle "issue-start/work:w/r1" "lease" .pending 5) ≤
      (World.init.run Sample.announced).store.attempts "dispatch/work:w/r1" + 1 -
        (World.init.run Sample.announced).store.attempts "issue-start/work:w/r1" :=
  (World.outbox_serves Sample.announced (Sample.handle "issue-start/work:w/r1" "lease" .pending 5)
    "dispatch/work:w/r1" (by decide +kernel) (by decide +kernel)).1 _

/-- A start that is announced again starts over without attempts: the dispatch, tried once, is passed
over three times by an entry that was never tried. -/
theorem World.reannounced_overtakes :
    let w := World.init.run Sample.announced
    let more := Sample.reannounce 5 ++ Sample.reannounce 6 ++ Sample.reannounce 7
    Machine.Along World.step (fun w label => w.waits "dispatch/work:w/r1" label = true) w more ∧
      ¬w.takeOuts "issue-start/work:w/r1" more ≤
        w.store.attempts "dispatch/work:w/r1" + 1 - w.store.attempts "issue-start/work:w/r1" := by
  decide +kernel

end AgentLcars
