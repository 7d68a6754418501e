import AgentLcars.Coherence
import AgentLcars.Lib.Counting

/-!
# Leases of the outbox

Any number of workers claim, settle and wake the entries.  What happens to one entry is read off a
run as the list of its hand-outs and the list of its settlements; `LeaseLaw` ties both to the stored
entry, from the decision that emits it until a decision emits it anew.

* `Store.claimPendingOutbox_get` says which entry a claim hands out.
* `World.Coherent.handled` is what one step does to one entry.
* `World.lease_exclusive`: one owner at a time, and one settlement for each claim.
-/

namespace AgentLcars

/-! ### Claims -/

section Claims

variable {s : Store} {limit : Nat} {now leaseExpiresAt : Time} {excluded : List String}
  {claimIds : Nat → String}

theorem nodup_claimableOutbox (hs : s.Coherent) :
    ((s.claimableOutbox limit now excluded).map (·.entryId)).Nodup := by
  have hkeys := s.outbox.nodup_keys fun id e he => hs.entryKeyed he
  refine List.Nodup.sublist ((List.take_sublist _ _).map _) ?_
  rw [List.map_append]
  refine List.Nodup.append (hkeys.sublist (List.filter_sublist.map _)) ?_ ?_
  · rw [((List.perm_insertionSort _ _).map _).nodup_iff]
    exact hkeys.sublist (List.filter_sublist.map _)
  · intro id hexpired hdue
    obtain ⟨a, ha, rfl⟩ := List.mem_map.1 hexpired
    obtain ⟨b, hb, hid⟩ := List.mem_map.1 hdue
    rw [List.mem_insertionSort] at hb
    obtain ⟨hamem, haexpired⟩ := List.mem_filter.1 ha
    obtain ⟨hbmem, hbdue⟩ := List.mem_filter.1 hb
    obtain rfl := List.inj_on_of_nodup_map hkeys hbmem hamem hid
    simp only [Store.isDue, decide_eq_true_eq] at hbdue
    simp [Store.leaseExpired, hbdue.1] at haexpired

/-- A claim hands an entry out and stores what it hands out, or leaves it alone. -/
theorem Store.claimPendingOutbox_get (hs : s.Coherent) {id : String} {e : OutboxEntry}
    (he : s.outbox.get id = some e) :
    ((s.claimedOutbox limit now leaseExpiresAt excluded claimIds).find? (·.entryId = id) = none ∧
      (s.claimPendingOutbox limit now leaseExpiresAt excluded claimIds).outbox.get id = some e) ∨
    ∃ claimId, (Store.isDue e now excluded = true ∨ Store.leaseExpired e now = true) ∧
      (s.claimedOutbox limit now leaseExpiresAt excluded claimIds).find? (·.entryId = id) =
        some (Store.leaseEntry e claimId leaseExpiresAt now) ∧
      (s.claimPendingOutbox limit now leaseExpiresAt excluded claimIds).outbox.get id =
        some (Store.leaseEntry e claimId leaseExpiresAt now) := by
  have hkeys : ((s.claimableOutbox limit now excluded).zipIdx.map (·.1.entryId)).Nodup := by
    have hnodup : ((s.claimableOutbox limit now excluded).map (·.entryId)).Nodup :=
      nodup_claimableOutbox hs
    rwa [← List.zipIdx_map_fst 0 (s.claimableOutbox limit now excluded), List.map_map] at hnodup
  rw [claimPendingOutbox_eq]
  by_cases hhanded : ∃ x ∈ (s.claimableOutbox limit now excluded).zipIdx, x.1.entryId = id
  · obtain ⟨x, hx, rfl⟩ := hhanded
    obtain ⟨hmem, hstate⟩ := claimableOutbox_due (List.fst_mem_of_mem_zipIdx hx)
    obtain ⟨k, hk⟩ := (OrderedMap.mem_values_iff _ _).1 hmem
    rw [hs.entryKeyed hk, hk] at he
    obtain rfl := Option.some.inj he
    have hsame : ∀ y ∈ (s.claimableOutbox limit now excluded).zipIdx,
        y.1.entryId = x.1.entryId → y = x := fun y hy hid => List.inj_on_of_nodup_map hkeys hy hx hid
    refine .inr ⟨claimIds x.2, hstate, ?_, ?_⟩
    · have hleased : ((s.claimedOutbox limit now leaseExpiresAt excluded claimIds).map
          (·.entryId)).Nodup := by
        rw [Store.claimedOutbox, List.map_map]
        exact hkeys
      exact Counting.find_of_mem OutboxEntry.entryId hleased (List.mem_map.2 ⟨x, hx, rfl⟩)
    · exact OrderedMap.get_setAll_of_mem _ _ hx fun y hy hid => by rw [hsame y hy hid]
  · refine .inl ⟨?_, ?_⟩
    · rw [List.find?_eq_none]
      rintro y hy hid
      obtain ⟨x, hx, rfl⟩ := List.mem_map.1 hy
      exact hhanded ⟨x, hx, of_decide_eq_true hid⟩
    · rw [OrderedMap.get_setAll_of_notMem _ _ fun x hx hid => hhanded ⟨x, hx, hid⟩]
      exact he

end Claims

/-! ### One step of one entry -/

/-- The leased entry a step hands to a worker. -/
def World.handout (w : World) (id : String) : Step → Option OutboxEntry
  | .claimPendingOutbox limit now leaseExpiresAt excluded claimIds =>
    (w.store.claimedOutbox limit now leaseExpiresAt excluded claimIds).find? (·.entryId = id)
  | _ => none

/-- The settlement of the entry that succeeds in a step. -/
def World.settlement (w : World) (id : String) : Step → Option OutboxSettlement
  | .settleOutbox input =>
    if input.entryId = id ∧ w.store.settlesOutbox input then some input else none
  | _ => none

/-- The step commits a decision that emits the entry. -/
def World.emits (w : World) (id : String) (label : Step) : Bool :=
  (w.decision label).any fun d => d.outbox.any (·.entryId = id)

/-- What a step that does not emit an entry does to it, and what is seen of it. -/
inductive Handled (w : World) (id : String) (label : Step) (e : OutboxEntry) : OutboxEntry → Prop
  where
  | kept (hhandout : w.handout id label = none) (hsettlement : w.settlement id label = none) :
      Handled w id label e e
  | handed (claimId : String) (now leaseExpiresAt : Time) (excluded : List String)
      (h : Store.isDue e now excluded = true ∨ Store.leaseExpired e now = true)
      (hclock : label.clock = some now)
      (hhandout : w.handout id label = some (Store.leaseEntry e claimId leaseExpiresAt now))
      (hsettlement : w.settlement id label = none) :
      Handled w id label e (Store.leaseEntry e claimId leaseExpiresAt now)
  | settled {e'} (input : OutboxSettlement) (h : settleOutboxEntry e input = some e')
      (hhandout : w.handout id label = none) (hsettlement : w.settlement id label = some input) :
      Handled w id label e e'
  | woken {e'} (now : Time) (h : wakeOutboxEntry e now = some e')
      (hlabel : label = .wakeOutbox id now)
      (hhandout : w.handout id label = none) (hsettlement : w.settlement id label = none) :
      Handled w id label e e'

section Handled

variable {w : World} {id : String} {label : Step} {e e' : OutboxEntry}

/-- An accepted decision leaves alone the entries it does not emit. -/
theorem World.Coherent.unemitted (hw : w.Coherent) {d : Decision} (hd : w.decision label = some d)
    (hkept : w.emits id label = false) :
    (w.step label).store.outbox.get id = w.store.outbox.get id := by
  obtain ⟨_, _, _, -, -, -, hwritten, -⟩ := hw.committed hd
  rw [hwritten.outbox]
  refine OrderedMap.get_setAll_of_notMem _ _ fun x hx hid => ?_
  simp only [World.emits, hd, Option.any_some, List.any_eq_false, decide_eq_true_eq] at hkept
  exact hkept x hx hid

/-- The three operations of the workers are all that happens to a stored entry. -/
theorem World.Coherent.handled (hw : w.Coherent) (he : w.store.outbox.get id = some e)
    (hkept : w.emits id label = false) :
    ∃ e', (w.step label).store.outbox.get id = some e' ∧ Handled w id label e e' := by
  have hother : w.handout id label = none → w.settlement id label = none →
      (∀ limit now leaseExpiresAt excluded claimIds,
        label ≠ .claimPendingOutbox limit now leaseExpiresAt excluded claimIds) →
      (∀ input, label ≠ .settleOutbox input) → (∀ entryId now, label ≠ .wakeOutbox entryId now) →
      ∃ e', (w.step label).store.outbox.get id = some e' ∧ Handled w id label e e' := by
    intro hhandout hsettlement hclaim hsettle hwake
    cases hd : w.decision label with
    | some d => exact ⟨e, by rw [hw.unemitted hd hkept, he], .kept hhandout hsettlement⟩
    | none =>
      obtain ⟨e', he', hmove⟩ := (hw.undecided hd).entry_moves he
      cases hmove with
      | same => exact ⟨e, he', .kept hhandout hsettlement⟩
      | lease _ _ _ _ hlabel =>
        obtain ⟨_, _, _, rfl⟩ := hlabel
        exact absurd rfl (hclaim _ _ _ _ _)
      | settle _ _ hlabel => exact absurd hlabel (hsettle _)
      | wake _ _ hlabel =>
        obtain ⟨_, rfl⟩ := hlabel
        exact absurd rfl (hwake _ _)
  cases label with
  | claimPendingOutbox limit now leaseExpiresAt excluded claimIds =>
    rcases w.store.claimPendingOutbox_get hw.store he with ⟨hnone, hget⟩ | ⟨claimId, h, hsome, hget⟩
    · exact ⟨e, hget, .kept hnone rfl⟩
    · exact ⟨_, hget, .handed claimId now leaseExpiresAt excluded h rfl hsome rfl⟩
  | settleOutbox input =>
    simp only [World.step, Store.settleOutbox]
    cases hf : (w.store.outbox.get input.entryId).bind fun entry => settleOutboxEntry entry input with
    | none =>
      refine ⟨e, he, .kept rfl ?_⟩
      simp [World.settlement, Store.settlesOutbox, hf]
    | some f =>
      by_cases hid : input.entryId = id
      · subst hid
        rw [he, Option.bind_some] at hf
        refine ⟨f, OrderedMap.get_set_self _ _ _, .settled input hf rfl ?_⟩
        simp [World.settlement, Store.settlesOutbox, he, hf]
      · refine ⟨e, ?_, .kept rfl ?_⟩
        · rw [OrderedMap.get_set_of_ne _ _ fun h => hid h.symm]
          exact he
        · simp [World.settlement, hid]
  | wakeOutbox entryId now =>
    simp only [World.step, Store.wakeOutbox]
    cases hf : (w.store.outbox.get entryId).bind fun entry => wakeOutboxEntry entry now with
    | none => exact ⟨e, he, .kept rfl rfl⟩
    | some f =>
      by_cases hid : entryId = id
      · subst hid
        rw [he, Option.bind_some] at hf
        exact ⟨f, OrderedMap.get_set_self _ _ _, .woken now hf rfl rfl rfl⟩
      · refine ⟨e, ?_, .kept rfl rfl⟩
        rw [OrderedMap.get_set_of_ne _ _ fun h => hid h.symm]
        exact he
  | _ =>
    exact hother rfl rfl (fun _ _ _ _ _ h => by cases h) (fun _ h => by cases h)
      fun _ _ h => by cases h

end Handled

/-! ### The law of a lease -/

/-- The owner of a leased entry. -/
def OutboxEntry.claimId (e : OutboxEntry) : Option String :=
  match e.state with
  | .leased claimId _ => some claimId
  | _ => none

/-- The entry belongs to its latest hand-out until that is settled. -/
structure LeaseLaw (e : OutboxEntry) (handouts : List OutboxEntry)
    (settlements : List OutboxSettlement) : Prop where
  attempts : e.attempts = handouts.length
  latest : ∀ claimId expires, e.state = .leased claimId expires →
    (∃ h ∈ handouts.getLast?, h.state = .leased claimId expires) ∧
      claimId ∉ settlements.map (·.claimId)
  known : ∀ claimId ∈ settlements.map (·.claimId), some claimId ∈ handouts.map (·.claimId)
  once : (settlements.map (·.claimId)).Nodup

section Law

variable {w : World} {id : String} {label : Step} {e e' : OutboxEntry}
  {handouts : List OutboxEntry} {settlements : List OutboxSettlement}

theorem entryState_ne_leased (state : SettlementState) (claimId : String) (expires : Time) :
    state.entryState ≠ .leased claimId expires := by
  cases state <;> nofun

/-- Every step keeps the law, as long as no claim id is reused. -/
theorem LeaseLaw.step (h : LeaseLaw e handouts settlements) (hstep : Handled w id label e e')
    (hfresh : ((handouts ++ (w.handout id label).toList).map (·.claimId)).Nodup) :
    LeaseLaw e' (handouts ++ (w.handout id label).toList)
      (settlements ++ (w.settlement id label).toList) := by
  cases hstep with
  | kept hhandout hsettlement => simpa [hhandout, hsettlement] using h
  | woken now hwake _ hhandout hsettlement =>
    obtain ⟨hstate, next, -, -, rfl⟩ := wakeOutboxEntry_eq_some hwake
    simp only [hhandout, hsettlement, Option.toList_none, List.append_nil]
    exact ⟨h.attempts, h.latest, h.known, h.once⟩
  | handed claimId now leaseExpiresAt _ _ _ hhandout hsettlement =>
    simp only [hhandout, hsettlement, Option.toList_none, Option.toList_some,
      List.append_nil] at hfresh ⊢
    refine ⟨?_, ?_, ?_, h.once⟩
    · rw [List.length_append, List.length_singleton, ← h.attempts]
      rfl
    · rintro _ _ ⟨rfl, rfl⟩
      refine ⟨⟨_, List.getLast?_concat, rfl⟩, fun hsettled => ?_⟩
      rw [List.map_append, List.nodup_append] at hfresh
      exact hfresh.2.2 _ (h.known claimId hsettled) _ (List.mem_singleton_self _) rfl
    · intro c hc
      rw [List.map_append]
      exact List.mem_append_left _ (h.known c hc)
  | settled input hsettle hhandout hsettlement =>
    have hsettled := settleOutboxEntry_eq_some hsettle
    obtain ⟨expires, hstate⟩ := hsettled.leased
    obtain ⟨⟨last, hlast, hleased⟩, hnew⟩ := h.latest _ _ hstate
    simp only [hhandout, hsettlement, Option.toList_none, Option.toList_some, List.append_nil]
    refine ⟨hsettled.attempts.trans h.attempts, ?_, ?_, ?_⟩
    · intro claimId expires' hleased'
      exact absurd (hsettled.state.symm.trans hleased') (entryState_ne_leased _ _ _)
    · intro c hc
      rw [List.map_append, List.mem_append] at hc
      rcases hc with hc | hc
      · exact h.known c hc
      · obtain rfl := List.mem_singleton.1 hc
        refine List.mem_map.2 ⟨last, List.mem_of_getLast? hlast, ?_⟩
        rw [OutboxEntry.claimId, hleased]
    · rw [List.map_append]
      refine List.Nodup.append h.once (List.nodup_singleton _) ?_
      simpa using hnew

end Law

/-! ### Whole runs -/

/-- The hand-outs of an entry along a list of steps. -/
def World.handouts (w : World) (id : String) (labels : List Step) : List OutboxEntry :=
  Machine.events World.step (fun w label => w.handout id label) w labels

/-- The successful settlements of an entry along a list of steps. -/
def World.settlements (w : World) (id : String) (labels : List Step) : List OutboxSettlement :=
  Machine.events World.step (fun w label => w.settlement id label) w labels

section Runs

variable {w : World} {id : String} {label : Step} {e e' : OutboxEntry}

/-- An emitted entry is stored, and is about a run. -/
theorem World.Coherent.emitted_about (hw : w.Coherent) (h : w.emits id label = true) :
    ∃ e tag r, (w.step label).store.outbox.get id = some e ∧ About e tag r := by
  obtain ⟨d, hd, hemits⟩ := (Option.any_eq_true _ _).1 h
  obtain ⟨e, he, hid⟩ := List.any_eq_true.1 hemits
  obtain rfl : e.entryId = id := of_decide_eq_true hid
  obtain ⟨_, _, _, heffect, -, -, hwritten, -⟩ := hw.committed hd
  obtain ⟨tag, r, habout⟩ := heffect.about he
  refine ⟨e, tag, r, ?_, habout⟩
  rw [hwritten.outbox]
  refine OrderedMap.get_setAll_of_mem _ _ he fun x hx hsame => ?_
  exact List.inj_on_of_nodup_map heffect.nodup hx he hsame

/-- An emitted entry is pending and was never handed out. -/
theorem World.Coherent.emitted (hw : w.Coherent) (h : w.emits id label = true) :
    ∃ e, (w.step label).store.outbox.get id = some e ∧ e.state = .pending ∧ e.attempts = 0 := by
  obtain ⟨e, _, _, he, habout⟩ := hw.emitted_about h
  exact ⟨e, he, habout.state, habout.attempts⟩

/-- The law holds from the emission of an entry until it is emitted anew. -/
theorem World.Coherent.leaseLaw_run (hw : w.Coherent) (he : w.store.outbox.get id = some e)
    (hstate : e.state = .pending) (hattempts : e.attempts = 0) {more : List Step}
    (hkept : Machine.Along World.step (fun w label => w.emits id label = false) w more)
    (hfresh : ((w.handouts id more).map (·.claimId)).Nodup) :
    ∃ e', (w.run more).store.outbox.get id = some e' ∧
      LeaseLaw e' (w.handouts id more) (w.settlements id more) := by
  induction more using List.reverseRecOn with
  | nil =>
    refine ⟨e, he, hattempts, ?_, nofun, List.nodup_nil⟩
    intro claimId expires hleased
    rw [hstate] at hleased
    cases hleased
  | append_singleton more label ih =>
    obtain ⟨hmore, hlabel, -⟩ := Machine.Along.append.1 hkept
    have hhandouts : w.handouts id (more ++ [label]) =
        w.handouts id more ++ ((w.run more).handout id label).toList := by
      simp [World.handouts, Machine.events_append, World.run]
    have hsettlements : w.settlements id (more ++ [label]) =
        w.settlements id more ++ ((w.run more).settlement id label).toList := by
      simp [World.settlements, Machine.events_append, World.run]
    have hrun : w.run (more ++ [label]) = (w.run more).step label := Machine.run_append _ _ _ _
    rw [hhandouts] at hfresh ⊢
    rw [hsettlements, hrun]
    obtain ⟨f, hf, hlaw⟩ := ih hmore (hfresh.sublist ((List.sublist_append_left _ _).map _))
    obtain ⟨f', hf', hstep⟩ := (hw.run more).handled hf hlabel
    exact ⟨f', hf', hlaw.step hstep hfresh⟩

/-- A lease that has not run out is not handed out. -/
theorem World.Coherent.handout_leased (hw : w.Coherent) (he : w.store.outbox.get id = some e)
    {claimId : String} {expires : Time} (hleased : e.state = .leased claimId expires)
    {limit : Nat} {now leaseExpiresAt : Time} {excluded : List String} {claimIds : Nat → String}
    (hnow : now < expires) :
    w.handout id (.claimPendingOutbox limit now leaseExpiresAt excluded claimIds) = none ∧
      (w.step (.claimPendingOutbox limit now leaseExpiresAt excluded claimIds)).store.outbox.get id =
        some e := by
  rcases w.store.claimPendingOutbox_get hw.store he with hnone | ⟨_, hstate, -⟩
  · exact hnone
  · rcases hstate with hdue | hexpired
    · simp [Store.isDue, hleased] at hdue
    · simp only [Store.leaseExpired, hleased, decide_eq_true_eq] at hexpired
      exact absurd hexpired (not_le_of_gt hnow)

/-- A settled entry is never touched again. -/
theorem Handled.settled_kept (h : Handled w id label e e')
    (hstate : e.state = .done ∨ e.state = .failed) :
    e' = e ∧ w.handout id label = none ∧ w.settlement id label = none := by
  cases h with
  | kept hhandout hsettlement => exact ⟨rfl, hhandout, hsettlement⟩
  | handed _ _ _ _ hleasable =>
    rcases hstate with h | h <;> simp [h, Store.isDue, Store.leaseExpired] at hleasable
  | settled _ hsettle =>
    obtain ⟨_, hleased⟩ := (settleOutboxEntry_eq_some hsettle).leased
    rcases hstate with h | h <;> simp [h] at hleased
  | woken _ hwake =>
    have hpending := (wakeOutboxEntry_eq_some hwake).1
    rcases hstate with h | h <;> simp [h] at hpending

end Runs

/-- From the decision that emits an entry until one emits it anew, and with claim ids that are not
reused: the entry is counted out once for each hand-out; a claim settles it once, and only as the
latest claim of an entry still leased; a lease that has not run out is nobody else's; waking moves
the next attempt of a pending entry and nothing else; and a settled entry is left alone. -/
theorem World.lease_exclusive (first : List Step) (born : Step) (more : List Step) (id : String)
    (hborn : (World.init.run first).emits id born = true)
    (hkept : Machine.Along World.step (fun w label => w.emits id label = false)
      ((World.init.run first).step born) more)
    (hfresh : ((((World.init.run first).step born).handouts id more).map (·.claimId)).Nodup) :
    let w := ((World.init.run first).step born).run more
    let handouts := ((World.init.run first).step born).handouts id more
    let settled := (((World.init.run first).step born).settlements id more).map (·.claimId)
    ∃ e, w.store.outbox.get id = some e ∧ e.attempts = handouts.length ∧ settled.Nodup ∧
      (∀ input : OutboxSettlement, input.entryId = id → w.store.settlesOutbox input = true →
        (∃ expires, e.state = .leased input.claimId expires) ∧
        handouts.getLast?.bind (·.claimId) = some input.claimId ∧ input.claimId ∉ settled) ∧
      (∀ input : OutboxSettlement, input.entryId = id →
        handouts.getLast?.bind (·.claimId) ≠ some input.claimId → w.store.settleOutbox input = w.store) ∧
      (∀ claimId expires, e.state = .leased claimId expires →
        ∀ limit now leaseExpiresAt excluded claimIds, now < expires →
        w.handout id (.claimPendingOutbox limit now leaseExpiresAt excluded claimIds) = none ∧
        (w.step (.claimPendingOutbox limit now leaseExpiresAt excluded claimIds)).store.outbox.get id =
          some e) ∧
      (∀ now e', (w.store.wakeOutbox id now).outbox.get id = some e' → e' = e ∨
        (e.state = .pending ∧ ∃ next, e.nextAttemptAt = some next ∧ now < next ∧
          e' = { e with nextAttemptAt := some now, updatedAt := now })) ∧
      (e.state = .done ∨ e.state = .failed → ∀ label, w.emits id label = false →
        (w.step label).store.outbox.get id = some e ∧ w.handout id label = none ∧
        w.settlement id label = none) := by
  intro w handouts settled
  have hw₀ : ((World.init.run first).step born).Coherent := (World.coherent_run first).step born
  have hw : w.Coherent := hw₀.run more
  obtain ⟨e₀, he₀, hstate, hattempts⟩ := (World.coherent_run first).emitted hborn
  obtain ⟨e, he, hlaw⟩ := hw₀.leaseLaw_run he₀ hstate hattempts hkept hfresh
  have hsettles : ∀ input : OutboxSettlement, input.entryId = id →
      w.store.settlesOutbox input = true → (∃ expires, e.state = .leased input.claimId expires) ∧
        handouts.getLast?.bind (·.claimId) = some input.claimId ∧ input.claimId ∉ settled := by
    rintro input rfl hsome
    rw [Store.settlesOutbox, he, Option.bind_some] at hsome
    obtain ⟨e', he'⟩ := Option.isSome_iff_exists.1 hsome
    obtain ⟨expires, hleased⟩ := (settleOutboxEntry_eq_some he').leased
    obtain ⟨⟨last, hlast, hlatest⟩, hnew⟩ := hlaw.latest _ _ hleased
    refine ⟨⟨expires, hleased⟩, ?_, hnew⟩
    rw [Option.mem_def.1 hlast, Option.bind_some, OutboxEntry.claimId, hlatest]
  refine ⟨e, he, hlaw.attempts, hlaw.once, hsettles, ?_, ?_, ?_, ?_⟩
  · intro input hid hstale
    have hrefused : w.store.settlesOutbox input = false := by
      by_contra hsome
      exact hstale (hsettles input hid (Bool.not_eq_false _ ▸ hsome)).2.1
    rw [Store.settlesOutbox, Option.isSome_eq_false_iff, Option.isNone_iff_eq_none] at hrefused
    rw [Store.settleOutbox, hrefused]
  · intro claimId expires hleased limit now leaseExpiresAt excluded claimIds hnow
    exact hw.handout_leased he hleased hnow
  · intro now e' he'
    rw [Store.wakeOutbox, he, Option.bind_some] at he'
    cases hwake : wakeOutboxEntry e now with
    | none =>
      rw [hwake] at he'
      exact .inl (Option.some.inj (he'.symm.trans he))
    | some f =>
      rw [hwake] at he'
      obtain rfl := Option.some.inj ((OrderedMap.get_set_self _ _ _).symm.trans he')
      exact .inr (wakeOutboxEntry_eq_some hwake)
  · intro hstate label hlabel
    obtain ⟨e', he', hstep⟩ := hw.handled he hlabel
    obtain ⟨rfl, hhandout, hsettlement⟩ := hstep.settled_kept hstate
    exact ⟨he', hhandout, hsettlement⟩

/-- The dispatch entry of the run is handed out, and again when its lease has run out. -/
def Sample.leased : List Step :=
  [.claimPendingOutbox 1 4 10 [] (fun _ => "first"),
   .claimPendingOutbox 1 11 100 [] (fun _ => "second")]

/-- The expired owner comes back too late. -/
theorem World.lease_exclusive_expired :
    let w := ((World.init.run []).step (.request 0 (Sample.request "codex"))).run Sample.leased
    let late : OutboxSettlement :=
      { entryId := "dispatch/work:w/r1", claimId := "first", state := .done, now := 12
        firstFailedAt := none, nextAttemptAt := none, deliveryFailures := none, recovered := false }
    (∃ e, w.store.outbox.get "dispatch/work:w/r1" = some e ∧ e.attempts = 2) ∧
      w.store.settleOutbox late = w.store := by
  obtain ⟨e, he, hattempts, -, -, hstale, -⟩ := World.lease_exclusive []
    (.request 0 (Sample.request "codex")) Sample.leased "dispatch/work:w/r1" (by decide +kernel)
    (by decide +kernel) (by decide +kernel)
  exact ⟨⟨e, he, hattempts.trans (by decide +kernel)⟩, hstale _ rfl (by decide +kernel)⟩

end AgentLcars
