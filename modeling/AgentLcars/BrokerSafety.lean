import AgentLcars.BrokerTasks

/-!
# Runs of the broker system

* `BrokerWorld.Sound`: the invariant of the shared state holds, and every process's program meets
  what its command promises; `BrokerWorld.Sound.run` keeps it over runs of acts, in which any number
  of processes work, stop anywhere, lose replies and have their writes carried out late;
* `BrokerMoves`, `Reachable.holds`: what no move ends, no run ends.

The results are about every run.
-/

namespace AgentLcars

/-! ### What moves keep -/

section Kept

variable {env : CodexEnv} {by_ : Option Nat} {s s' : BrokerState}

/-- The generation that a mutation expects. -/
def CredentialMutation.expects : CredentialMutation → String
  | .leaseWrite _ generation _ _ => generation
  | .authWrite _ generation _ => generation

/-- Every version was written over the one before it, for a journalled mutation and at the generation
that this expects, unless it was there at first. -/
structure Orderly {α : Type} (journal : List JournalEntry) (versions : List (ObjectVersion α)) :
    Prop where
  chained : Versions.Chained (·.generation) (·.expectedGeneration) "0" versions
  written : ∀ u ∈ versions, ∀ origin, u.origin = some origin → ∃ e ∈ journal,
    e.mutation.id = origin.mutationId ∧ e.mutation.expects = u.expectedGeneration

theorem Orderly.grows {α : Type} {journal journal' : List JournalEntry}
    {versions : List (ObjectVersion α)} (h : Orderly journal versions)
    (hgrows : ∀ e ∈ journal, e ∈ journal') : Orderly journal' versions where
  chained := h.chained
  written u hu origin horigin := by
    obtain ⟨e, he, hrest⟩ := h.written u hu origin horigin
    exact ⟨e, hgrows e he, hrest⟩

theorem Orderly.push {α : Type} {journal : List JournalEntry} {versions : List (ObjectVersion α)}
    (h : Orderly journal versions) {write : ObjectWrite α} (generation : String)
    (hcurrent : generationOf versions = write.expectedGeneration) {e : JournalEntry}
    (he : e ∈ journal) (hid : e.mutation.id = write.origin.mutationId)
    (hexpects : e.mutation.expects = write.expectedGeneration) :
    Orderly journal (write.version generation :: versions) where
  chained := ⟨hcurrent.symm, h.chained⟩
  written u hu origin horigin := by
    rcases List.mem_cons.1 hu with rfl | hu
    · cases horigin
      exact ⟨e, he, hid, hexpects⟩
    · exact h.written u hu origin horigin

instance enduring_orderlyLease : Enduring env fun s => Orderly s.journal s.lease := by
  refine ⟨fun by_ s s' _ hmove h => ?_⟩
  rcases hmove.lease_cases with hsame | ⟨write, generation, hwrite, hcurrent, -, rfl⟩
  · rw [hsame]
    exact h.grows hmove.grows.journal
  · obtain ⟨e, he, repository, expiresAt, hmutation, -⟩ := hwrite
    exact h.push generation hcurrent he (by rw [hmutation]; rfl) (by rw [hmutation]; rfl)

instance enduring_orderlyAuth : Enduring env fun s => Orderly s.journal s.auth := by
  refine ⟨fun by_ s s' _ hmove h => ?_⟩
  rcases hmove.auth_cases with hsame | ⟨write, generation, hwrite, -, hcurrent, -, rfl⟩
  · rw [hsame]
    exact h.grows hmove.grows.journal
  · obtain ⟨e, he, sha256, hmutation, -⟩ := hwrite
    exact h.push generation hcurrent he (by rw [hmutation]; rfl) (by rw [hmutation]; rfl)

/-- The run is settled, and no unexpired lease of the claim is there. -/
structure LeaseGone (r f : String) (s : BrokerState) : Prop where
  settled : ∃ run, s.world.store.runs.get r = some run ∧ isLive run.state = false
  retired : ¬s.LiveLease r f

/-- A settled run stays settled. -/
theorem BrokerMove.settled (hs : s.Sound env) (hmove : BrokerMove env by_ s s') {r : String}
    (h : ∃ run, s.world.store.runs.get r = some run ∧ isLive run.state = false) :
    ∃ run, s'.world.store.runs.get r = some run ∧ isLive run.state = false := by
  obtain ⟨run, hrun, hdead⟩ := h
  rcases hmove.world with hsame | ⟨label, hstep⟩
  · rw [hsame]
    exact ⟨run, hrun, hdead⟩
  · obtain ⟨steps, hsteps⟩ := hs.journalled.world
    rw [hsteps] at hrun
    rw [hstep, hsteps]
    exact World.terminal_stays steps label hrun hdead

/-- Nobody takes a lease for a settled run. -/
instance LeaseGone.enduring {r f : String} : Enduring env (LeaseGone r f) := by
  refine ⟨fun by_ s s' hs hmove h => ⟨hmove.settled hs h.settled, fun hlive => ?_⟩⟩
  rcases hmove.live_before hs hlive with ⟨hbefore, -⟩ |
    ⟨e, id, g, repository, expiresAt, hwritten, hne⟩
  · exact h.retired hbefore
  · -- its operation could only be a cleanup, which only retires
    obtain ⟨run, hrun, hdead⟩ := h.settled
    obtain ⟨op, hop, -, hmutation⟩ := hwritten.outstanding
    rw [hwritten.runId] at hop
    rw [hwritten.mutation] at hmutation
    obtain ⟨x, hx, hxop⟩ := World.operation_eq_some.1 hop
    obtain rfl := Option.some.inj (hrun.symm.trans hx)
    obtain ⟨steps, hsteps⟩ := hs.journalled.world
    rw [hsteps] at hrun
    have hcleanup := World.cleanupOnly_run steps hrun hdead hxop
    exact hne (hs.journalled.cleanup hop hcleanup hmutation)

end Kept

/-! ### Cleanups -/

section Cleanups

variable {env : CodexEnv} {by_ : Option Nat} {s s' : BrokerState}

/-- A settled Codex run that holds its claim and has no operation left has no unexpired lease. -/
def BrokerState.CleanedUp (s : BrokerState) : Prop :=
  ∀ r run f, s.world.store.runs.get r = some run → isLive run.state = false →
    run.credentialOperation = none → usesCodexCredentials run = true → isClaimant run f = true →
    ¬s.LiveLease r f

/-- A step that ends the operation of a settled run. -/
theorem BrokerState.CleanedUp.step (hs : s.Sound env) (h : s.CleanedUp) (label : Step)
    (hretired : ∀ r op restored, s.world.operation r = some op → label.credentialChange =
      some (r, op.id, op.claimFingerprint, .finish restored (some op.mutationSequence)) →
      ¬s.LiveLease r op.claimFingerprint) {r f : String} {run : Run}
    (hrun : (s.world.step label).store.runs.get r = some run) (hdead : isLive run.state = false)
    (hnone : run.credentialOperation = none) (hcodex : usesCodexCredentials run = true)
    (hclaim : isClaimant run f = true) : ¬s.LiveLease r f := by
  obtain ⟨steps, hsteps⟩ := hs.journalled.world
  rw [hsteps] at hrun
  rcases World.claim_ended steps label hrun hdead hnone hcodex hclaim with
    ⟨x, hx, hdead, hnone, hcodex, hclaim⟩ | ⟨op, restored, hop, rfl, hlabel⟩
  · exact h r x f (hsteps ▸ hx) hdead hnone hcodex hclaim
  · exact hretired r op restored (hsteps ▸ hop) hlabel

instance BrokerState.CleanedUp.enduring : Enduring env BrokerState.CleanedUp := by
  refine ⟨fun by_ s s' hs hmove h r run f hrun hdead hnone hcodex hclaim => ?_⟩
  have hsame : s'.world = s.world → ¬s'.LiveLease r f := by
    intro hsame
    rw [hsame] at hrun
    exact (LeaseGone.enduring.move by_ s s' hs hmove
      ⟨⟨run, hrun, hdead⟩, h r run f hrun hdead hnone hcodex hclaim⟩).retired
  cases hmove with
  | elsewhere label hlabel hfresh =>
    refine (h.step hs label ?_ hrun hdead hnone hcodex hclaim :)
    intro r op restored _ hchange
    rw [(Step.isBrokers_eq_false hlabel).1] at hchange
    cases hchange
  | transacted pid runId now op hby hmay =>
    refine (h.step hs (.direct runId now op) ?_ hrun hdead hnone hcodex hclaim :)
    intro r o restored hop hchange
    obtain ⟨rfl, rfl | ⟨authority, _, sequence, rfl, hfinish⟩⟩ :=
      Step.credentialChange_direct hchange
    · exact absurd hmay not_false
    · cases hfinish
      exact (hmay _ rfl o hop rfl).2 rfl
  | _ => exact hsame rfl

end Cleanups

/-! ### Rotations -/

section Rotations

variable {env : CodexEnv} {s s' : BrokerState} {e : JournalEntry} {id g sha256 : String}

/-- The rotation is acknowledged, and its write is over: the object is past the generation that it
expects, or nothing is on its way any more. -/
structure RotationOver (e : JournalEntry) (id g : String) (s : BrokerState) : Prop where
  journalled : e ∈ s.journal
  acknowledged : ¬e.Outstanding s
  ended : s.AuthSuperseded g ∨ ∀ w ∈ s.authWrites, w.origin ≠ ⟨id, false⟩

/-- The write of an acknowledged rotation is not carried out. -/
theorem RotationOver.refused (hs : s.Sound env) (h : RotationOver e id g s)
    (hmutation : e.mutation = .authWrite id g sha256) (hknown : e.known = true)
    {w : ObjectWrite CodexAuthObject} (hwrite : AuthWrite env s w) (hready : AuthReady s w)
    (horigin : w.origin = ⟨id, false⟩) : s.AuthSuperseded g ∧ w.expectedGeneration = g := by
  obtain ⟨e', he', sha256', hmutation', -⟩ := hwrite
  rw [horigin] at hmutation'
  obtain rfl : e' = e := hs.journalled.unique e' he' e h.journalled
    (by rw [hmutation, hmutation']; rfl)
  rw [hmutation] at hmutation'
  cases hmutation'
  refine ⟨?_, rfl⟩
  rcases hready (by rw [horigin]) e' he' (by rw [hmutation, horigin]; rfl) hknown with hout | hgone
  · exact absurd hout h.acknowledged
  · exact hgone

theorem RotationOver.enduring (hmutation : e.mutation = .authWrite id g sha256)
    (hknown : e.known = true) : Enduring env (RotationOver e id g) := by
  refine ⟨fun by_ s s' hs hmove h => ?_⟩
  refine ⟨hmove.grows.journal e h.journalled, fun hout => h.acknowledged
    (hmove.outstanding_before hs.journalled h.journalled hout), ?_⟩
  rcases h.ended with hgone | hnone
  · exact .inl (hmove.authSuperseded hgone)
  · cases hmove with
    | authSent write hwrite hready pid hby hown =>
      by_cases horigin : write.origin = ⟨id, false⟩
      · exact .inl (h.refused hs hmutation hknown hwrite hready horigin).1
      · refine .inr fun w hw => ?_
        rcases List.mem_append.1 hw with hw | hw
        · exact hnone w hw
        · obtain rfl := List.mem_singleton.1 hw
          exact horigin
    | authDropped i => exact .inr fun w hw => hnone w (List.mem_of_mem_eraseIdx hw)
    | _ => exact .inr hnone

/-- No version is written for an acknowledged rotation. -/
theorem RotationOver.versions (hmutation : e.mutation = .authWrite id g sha256)
    (hknown : e.known = true) (versions : List (ObjectVersion CodexAuthObject)) :
    Enduring env fun s => RotationOver e id g s ∧
      ∀ u ∈ s.auth, u.origin = some ⟨id, false⟩ → u ∈ versions := by
  refine ⟨fun by_ s s' hs hmove h => ?_⟩
  refine ⟨(RotationOver.enduring hmutation hknown).move by_ s s' hs hmove h.1, ?_⟩
  rcases hmove.auth_cases with hsame | ⟨write, generation, hwrite, hready, hcurrent, -, rfl⟩
  · rw [hsame]
    exact h.2
  · intro u hu horigin
    rcases List.mem_cons.1 hu with rfl | hu
    · obtain ⟨hgone, hg⟩ :=
        h.1.refused hs hmutation hknown hwrite hready (Option.some.inj horigin)
      exact absurd (hcurrent.trans hg) hgone.passed
    · exact h.2 u hu horigin

/-- An acknowledged rotation is over. -/
theorem BrokerMove.rotationOver (hs : s.Sound env) {by_ : Option Nat}
    (hmove : BrokerMove env by_ s s') (he : e ∈ s.journal)
    (hmutation : e.mutation = .authWrite id g sha256) (hknown : e.known = true)
    (h : e.Outstanding s ∨ RotationOver e id g s) : e.Outstanding s' ∨ RotationOver e id g s' := by
  rcases h with hout | hover
  · by_cases hout' : e.Outstanding s'
    · exact .inl hout'
    · refine .inr ⟨hmove.grows.journal e he, hout', ?_⟩
      rcases hmove.outstanding hs.journalled hout with hout | ⟨pid, receipt, hby, hmay⟩
      · exact absurd hout hout'
      · rcases hmay.auth e he g sha256 (by rw [hmutation]; rfl) hknown with hgone | ⟨-, hnone⟩
        · exact .inl (hmove.authSuperseded hgone)
        · have hid : e.mutation.id = id := by rw [hmutation]; rfl
          rw [hid] at hnone
          cases hmove with
          | authSent => exact absurd hout hout'
          | authDropped => exact absurd hout hout'
          | _ => exact .inr hnone
  · exact .inr ((RotationOver.enduring hmutation hknown).move by_ s s' hs hmove hover)

/-- Every rotation of a known generation is outstanding, or over. -/
def BrokerState.RotationsOver (s : BrokerState) : Prop :=
  ∀ e ∈ s.journal, ∀ id g sha256, e.mutation = .authWrite id g sha256 → e.known = true →
    e.Outstanding s ∨ RotationOver e id g s

instance BrokerState.RotationsOver.enduring : Enduring env BrokerState.RotationsOver := by
  refine ⟨fun by_ s s' hs hmove h e he id g sha256 hmutation hknown => ?_⟩
  rcases hmove.journal_before hs.journalled he with he | hnew
  · exact hmove.rotationOver hs he hmutation hknown (h e he id g sha256 hmutation hknown)
  · exact .inl hnew.outstanding

end Rotations

/-! ### The system -/

section System

variable {env : CodexEnv} {s s' : BrokerState} {R : BrokerState → Prop}

/-- Moves, one after the other. -/
def BrokerMoves (env : CodexEnv) : BrokerState → BrokerState → Prop :=
  Relation.ReflTransGen fun s s' => s.Sound env ∧ ∃ by_, BrokerMove env by_ s s'

theorem BrokerMoves.single {by_ : Option Nat} (hs : s.Sound env) (h : BrokerMove env by_ s s') :
    BrokerMoves env s s' :=
  Relation.ReflTransGen.single ⟨hs, by_, h⟩

theorem Enduring.moves (hR : Enduring env R) (h : BrokerMoves env s s') (hs : R s) : R s' := by
  induction h with
  | refl => exact hs
  | tail _ hstep ih =>
    obtain ⟨hsound, by_, hmove⟩ := hstep
    exact hR.move by_ _ _ hsound hmove ih

/-- What a command promises of what it returns. -/
def BrokerCommand.Promises (env : CodexEnv) (command : BrokerCommand) (result : BrokerResult)
    (s : BrokerState) : Prop :=
  (∀ run repository credential, command = .restore run repository →
    result = .restored credential → HandedVersion env credential s) ∧
  ∀ run repository input, command = .persist run repository input →
    result = .persisted .updated → Persisted env run.runId (run.tokenHash.getD "") input s

instance BrokerCommand.Promises.enduring {command : BrokerCommand} {result : BrokerResult} :
    Enduring env (command.Promises env result) := by
  refine ⟨fun by_ s s' hs hmove h => ⟨fun run repository credential hc hr => ?_,
    fun run repository input hc hr => ?_⟩⟩
  · exact HandedVersion.enduring.move by_ s s' hs hmove (h.1 run repository credential hc hr)
  · exact Persisted.enduring.move by_ s s' hs hmove (h.2 run repository input hc hr)

/-- Every command makes only calls that its process may make, and returns what it promises. -/
theorem BrokerCommand.routine_serves (pid : Nat) (command : BrokerCommand) :
    Serves env pid s (command.routine env)
      (Returns fun s' result => command.Promises env result s') := by
  have hnothing : ∀ {s : BrokerState} {command : BrokerCommand} {result : BrokerResult},
      (∀ credential, result ≠ .restored credential) → result ≠ .persisted .updated →
      Serves env pid s (pure result) (Returns fun s' result => command.Promises env result s') :=
    fun hrestored hpersisted => Serves.pure ⟨fun _ _ credential _ h => absurd h (hrestored credential),
      fun _ _ _ _ h => absurd h hpersisted⟩
  cases command with
  | restore run repository =>
    refine (restore_serves run repository).bind fun s₁ credential hhanded => ?_
    refine Serves.pure ⟨?_, by rintro _ _ _ ⟨⟩⟩
    rintro _ _ _ - ⟨⟩
    exact hhanded
  | renew run heartbeat started =>
    exact (renew_serves run heartbeat started).bind fun _ _ _ =>
      hnothing (by rintro _ ⟨⟩) (by rintro ⟨⟩)
  | release run =>
    exact (release_serves run).bind fun _ _ _ => hnothing (by rintro _ ⟨⟩) (by rintro ⟨⟩)
  | persist run repository input =>
    refine (persist_serves run repository).bind fun s₁ status hpersisted => ?_
    refine Serves.pure ⟨by rintro _ _ _ ⟨⟩, ?_⟩
    rintro _ _ _ ⟨⟩ ⟨⟩
    exact hpersisted rfl
  | recover =>
    exact recover_serves.bind fun _ _ _ => hnothing (by rintro _ ⟨⟩) (by rintro ⟨⟩)

namespace BrokerWorld

variable {w : BrokerWorld}

/-- What each process was asked, and what it has left to do. -/
def programs (w : BrokerWorld) (pid : Nat) : Option (BrokerCommand × BrokerProgram) :=
  (w.processes.get pid).map fun process => (process.command, process.program)

/-- The invariant holds, and every process's program meets what its command promises. -/
def Sound (env : CodexEnv) (w : BrokerWorld) : Prop :=
  (brokers env).Sound w.programs
    (fun command s x => ∀ result, x.1 = .ok result → command.Promises env result s) w.state

theorem Sound.rests (pid : Nat) (command : BrokerCommand)
    (x : Except BrokerError BrokerResult × Nat) : (brokers env).Rests pid fun s =>
      ∀ result, x.1 = .ok result → command.Promises env result s :=
  (inferInstance : Enduring env fun s =>
    ∀ result, x.1 = .ok result → command.Promises env result s).stable.rests

/-- After a move of the surroundings. -/
theorem Sound.surroundings {processes : OrderedMap Nat BrokerProcess}
    (h : Sound env { state := s, processes }) (hmove : BrokerMove env none s s') :
    Sound env { state := s', processes } ∧ BrokerMoves env s s' :=
  ⟨Parties.Sound.surroundings h (fun pid command x => Sound.rests pid command x) hmove
    (hmove.sound h.inv), BrokerMoves.single h.inv hmove⟩

/-- After a late write is carried out or refused, and forgotten. -/
theorem Sound.arriveLease {processes : OrderedMap Nat BrokerProcess}
    (h : Sound env { state := s, processes }) (i : Nat) (generation : String) :
    Sound env { state := s.arriveLease i generation, processes } ∧
      BrokerMoves env s (s.arriveLease i generation) := by
  have hsame : Sound env { state := s, processes } ∧ BrokerMoves env s s := ⟨h, .refl⟩
  unfold BrokerState.arriveLease
  cases hi : s.leaseWrites[i]? with
  | none => exact hsame
  | some write =>
    have hwrite := h.inv.leased.flying write (List.mem_of_getElem? hi)
    dsimp only
    cases hwritten : s.writeLease write generation with
    | none => exact hsame
    | some written =>
      obtain ⟨reply, s₁⟩ := written
      rcases ObjectWrite.carryOut_cases hwritten with ⟨-, rfl, -⟩ | ⟨-, _, hcurrent, hfresh, rfl⟩
      · exact h.surroundings (.leaseDropped i)
      · obtain ⟨h₁, hmoves₁⟩ := h.surroundings (.leaseWritten write _ hwrite hcurrent hfresh)
        obtain ⟨h₂, hmoves₂⟩ := h₁.surroundings (.leaseDropped i)
        exact ⟨h₂, hmoves₁.trans hmoves₂⟩

theorem Sound.arriveAuth {processes : OrderedMap Nat BrokerProcess}
    (h : Sound env { state := s, processes }) (i : Nat) (generation : String) :
    Sound env { state := s.arriveAuth i generation, processes } ∧
      BrokerMoves env s (s.arriveAuth i generation) := by
  have hsame : Sound env { state := s, processes } ∧ BrokerMoves env s s := ⟨h, .refl⟩
  unfold BrokerState.arriveAuth
  cases hi : s.authWrites[i]? with
  | none => exact hsame
  | some write =>
    obtain ⟨hwrite, hready⟩ := h.inv.authored.flying write (List.mem_of_getElem? hi)
    dsimp only
    cases hwritten : s.writeAuth write generation with
    | none => exact hsame
    | some written =>
      obtain ⟨reply, s₁⟩ := written
      rcases ObjectWrite.carryOut_cases hwritten with ⟨-, rfl, -⟩ | ⟨-, _, hcurrent, hfresh, rfl⟩
      · exact h.surroundings (.authDropped i)
      · obtain ⟨h₁, hmoves₁⟩ := h.surroundings (.authWritten write _ hwrite hready hcurrent hfresh)
        obtain ⟨h₂, hmoves₂⟩ := h₁.surroundings (.authDropped i)
        exact ⟨h₂, hmoves₁.trans hmoves₂⟩

/-- An act of a process is one call, or nothing. -/
theorem step_act_cases (env : CodexEnv) (w : BrokerWorld) (pid : Nat) (answer : BrokerAnswer) :
    w.step env (.act pid answer) = w ∨ ∃ command c next reply state,
      w.processes.get pid = some ⟨command, .call c next⟩ ∧
      w.state.execute pid answer c = some (reply, state) ∧
      w.step env (.act pid answer) =
        { state, processes := w.processes.set pid { command, program := next reply } } := by
  unfold BrokerWorld.step
  dsimp only
  split
  · rename_i command c next hprocess
    split
    · exact .inl rfl
    · rename_i reply state hexec
      exact .inr ⟨command, c, next, reply, state, hprocess, hexec, rfl⟩
  · exact .inl rfl

/-- The programs after one process has gone on. -/
theorem programs_set {processes : OrderedMap Nat BrokerProcess} (pid : Nat)
    (process : BrokerProcess) {j : Nat} {x : BrokerCommand × BrokerProgram}
    (hx : programs { state := s', processes := processes.set pid process } j = some x) :
    (j = pid ∧ x = (process.command, process.program)) ∨
      (j ≠ pid ∧ programs { state := s, processes } j = some x) := by
  obtain ⟨given, hgiven, rfl⟩ := Option.map_eq_some_iff.1 hx
  change (processes.set pid process).get j = some given at hgiven
  by_cases hj : j = pid
  · subst hj
    rw [OrderedMap.get_set_self] at hgiven
    cases hgiven
    exact .inl ⟨rfl, rfl⟩
  · rw [OrderedMap.get_set_of_ne _ _ hj] at hgiven
    exact .inr ⟨hj, Option.map_eq_some_iff.2 ⟨given, hgiven, rfl⟩⟩

/-- Every act keeps the invariant, and is a series of moves. -/
theorem Sound.step (h : Sound env w) (act : BrokerAct) :
    Sound env (w.step env act) ∧ BrokerMoves env w.state (w.step env act).state := by
  have hsame : Sound env w ∧ BrokerMoves env w.state w.state := ⟨h, .refl⟩
  cases act with
  | elsewhere label =>
    show Sound env { w with state := w.state.elsewhere label } ∧
      BrokerMoves env w.state (w.state.elsewhere label)
    unfold BrokerState.elsewhere
    split
    · exact hsame
    · rename_i hfree
      obtain ⟨hlabel, hfresh⟩ := not_or.1 hfree
      refine Sound.surroundings h (.elsewhere label (Bool.not_eq_true _ ▸ hlabel) ?_)
      intro id hid hissued
      rw [hid] at hfresh
      exact hfresh (decide_eq_true hissued)
  | advance milliseconds => exact Sound.surroundings h (.advance milliseconds)
  | start pid command =>
    by_cases hfree : w.processes.get pid = none
    · have hstep : w.step env (.start pid command) =
          { w with processes := w.processes.set pid { command, program := command.routine env 0 } } :=
        if_pos hfree
      rw [hstep]
      refine ⟨Parties.Sound.begin h (p := command.routine env 0) (i := pid) (t := command) ?_
        fun j x hx => (programs_set pid _ hx).imp_right And.right, .refl⟩
      refine CallProgram.Meets.imp (BrokerCommand.routine_serves pid command h.inv 0) ?_
      rintro s ⟨x, t⟩ hx result rfl
      exact hx
    · have hstep : w.step env (.start pid command) = w := if_neg hfree
      rw [hstep]
      exact hsame
  | act pid answer =>
    rcases w.step_act_cases env pid answer with hstep |
      ⟨command, c, next, reply, state, hprocess, hexec, hstep⟩
    · rw [hstep]
      exact hsame
    · rw [hstep]
      have hi : w.programs pid = some (command, .call c next) :=
        Option.map_eq_some_iff.2 ⟨_, hprocess, rfl⟩
      have hmay : MayCall env pid c w.state := Parties.Sound.allowed h hi
      refine ⟨Parties.Sound.exec h (fun pid command x => Sound.rests pid command x) hi ⟨answer, hexec⟩
        (BrokerState.Sound.execute h.inv hmay hexec) fun j x hx => programs_set pid _ hx, ?_⟩
      rcases BrokerState.execute_move hmay hexec with rfl | hmove
      · exact .refl
      · exact BrokerMoves.single h.inv hmove
  | arriveLease i generation => exact Sound.arriveLease h i generation
  | arriveAuth i generation => exact Sound.arriveAuth h i generation

/-- The one version that an object may have at first. -/
theorem distinct_init {α : Type} (content : Option α) :
    Versions.Distinct (·.generation) "0"
      (content.map fun content => ({ generation := "1", content } : ObjectVersion α)).toList := by
  cases content with
  | none => exact ⟨List.nodup_nil, by rintro v ⟨⟩⟩
  | some content =>
    refine ⟨List.nodup_singleton _, ?_⟩
    rintro v hv
    obtain rfl := List.mem_singleton.1 hv
    exact (by decide : "1" ≠ "0")

theorem auth_init (lease : Option CodexLeaseRecord) (auth : Option (List UInt8)) :
    (BrokerWorld.init lease auth).state.auth = ((auth.map fun bytes =>
      ({ bytes } : CodexAuthObject)).map fun content =>
        ({ generation := "1", content } : ObjectVersion CodexAuthObject)).toList := by
  cases auth <;> rfl

/-- The invariant holds before anything happened. -/
theorem Sound.init (env : CodexEnv) (lease : Option CodexLeaseRecord) (auth : Option (List UInt8)) :
    Sound env (BrokerWorld.init lease auth) := by
  have hversion : ∀ v ∈ (BrokerWorld.init lease auth).state.auth, v.generation = "1" ∧
      v.content.receipt = none := by
    intro v hv
    cases auth with
    | none => cases hv
    | some bytes =>
      obtain rfl := List.mem_singleton.1 hv
      exact ⟨rfl, rfl⟩
  refine ⟨⟨?_, ?_, ?_⟩, ?_⟩
  · refine ⟨⟨[], rfl⟩, Int.le_refl _, ?_, ?_, ?_, ?_, ?_, ?_, ?_, ?_, ?_⟩
    all_goals intros; contradiction
  · refine ⟨distinct_init lease, ?_, ?_, ?_⟩
    all_goals rintro e ⟨⟩
  · refine ⟨auth_init lease auth ▸ distinct_init _, ?_, ?_, ?_, ?_, ?_⟩
    · rintro e ⟨⟩
    · intro v hv
      rw [(hversion v hv).1]
      decide
    · rintro e ⟨⟩
    · intro v hv receipt hreceipt
      rw [(hversion v hv).2] at hreceipt
      cases hreceipt
    · rintro r run receipt ⟨⟩
  · rintro pid command program hx
    cases hx

theorem Sound.run (h : Sound env w) (acts : List BrokerAct) :
    Sound env (w.run env acts) ∧ BrokerMoves env w.state (w.run env acts).state := by
  refine Machine.invariant_run
    (fun w' => Sound env w' ∧ BrokerMoves env w.state w'.state) ?_ (s := w) ⟨h, .refl⟩ acts
  intro w' act hw'
  obtain ⟨hnext, hmoves⟩ := hw'.1.step act
  exact ⟨hnext, hw'.2.trans hmoves⟩

/-- The system has come here from a state in which nothing had happened. -/
def Reachable (env : CodexEnv) (w : BrokerWorld) : Prop :=
  ∃ lease auth acts, w = (init lease auth).run env acts

theorem Reachable.sound (h : w.Reachable env) : Sound env w := by
  obtain ⟨lease, auth, acts, rfl⟩ := h
  exact ((Sound.init env lease auth).run acts).1

/-- What no move ends and holds at first, holds in every run. -/
theorem Reachable.holds (h : w.Reachable env) (hR : Enduring env R)
    (hinit : ∀ lease auth, R (init lease auth).state) : R w.state := by
  obtain ⟨lease, auth, acts, rfl⟩ := h
  exact hR.moves ((Sound.init env lease auth).run acts).2 (hinit lease auth)

/-- What no move ends is not ended by further acts. -/
theorem Reachable.further (h : w.Reachable env) (hR : Enduring env R) (hw : R w.state)
    (acts : List BrokerAct) : R (w.run env acts).state :=
  hR.moves (h.sound.run acts).2 hw

/-- Whoever has come further has come here. -/
theorem Reachable.run (h : w.Reachable env) (acts : List BrokerAct) :
    (w.run env acts).Reachable env := by
  obtain ⟨lease, auth, before, rfl⟩ := h
  exact ⟨lease, auth, before ++ acts, (Machine.run_append _ _ _ _).symm⟩

end BrokerWorld

end System

/-! ### A run -/

namespace Sample

/-- Text functions of a kind. -/
def brokerEnv : CodexEnv where
  decodeBase64 text := text.toList.map fun c => UInt8.ofNat c.toNat
  encodeBase64 bytes := String.ofList (bytes.map fun byte => Char.ofNat byte.toNat)
  sha256 bytes := String.ofList (List.replicate 64 (if bytes.length = 1 then 'a' else 'b'))
  parsesToObject _ := true

def codexToken : String := String.ofList (List.replicate 64 'c')

/-- A Codex run is admitted, queued and claimed. -/
def codexClaimed : List Step :=
  [.request 0 (request "codex"), .enqueueRun runId 1,
    .claimQueuedRun ["codex"] { claim 2 with tokenHash := codexToken }]

/-- What the worker of the run asks a process for. -/
def commanded (pid : Nat) (command : Run → BrokerCommand) : List BrokerAct :=
  ((World.init.run codexClaimed).store.runs.get runId).toList.map fun run => .start pid (command run)

/-- There is a credential and no lease. -/
abbrev seeded : BrokerWorld := .init none (some [65])

/-- A process restores the credential, up to the acknowledgement of its lease. -/
def leasedToWorker : List BrokerAct :=
  codexClaimed.map BrokerAct.elsewhere ++ commanded 0 (.restore · "acme/repo") ++
    [.act 0 (.returns "op"), .act 0 .returns, .act 0 .returns, .act 0 .returns,
      .act 0 (.returns "7"), .act 0 .returns, .act 0 .returns, .act 0 .returns]

abbrev served : BrokerWorld := seeded.run brokerEnv leasedToWorker

/-- It hands the credential out. -/
def handedToWorker : List BrokerAct :=
  leasedToWorker ++ List.replicate 3 (.act 0 .returns)

/-- The run is canceled, and another process cleans up. -/
def cleanedUp : List BrokerAct :=
  handedToWorker ++ [.elsewhere (.onRun runId 5 "cleanup" (.cancel none none none))] ++
    commanded 1 .release ++ List.replicate 11 (.act 1 (.returns "8"))

/-- Another process persists what the worker made of the credential. -/
def persisted : List BrokerAct :=
  handedToWorker ++ commanded 1 (.persist · "acme/repo"
    { generation := "1", authBase64 := "BC", restoredSha256 := brokerEnv.sha256 [65] }) ++
    List.replicate 14 (.act 1 (.returns "9"))

def otherToken : String := String.ofList (List.replicate 64 'd')

/-- The credential is claimed by the worker of another run. -/
def otherClaimed : List Step :=
  [.request 3 { request "goose" with
      taskId := .work "v", params := some [("providerAuth", "codex")] },
    .enqueueRun "work:v/r1" 4, .claimQueuedRun ["goose"] { claim 5 with tokenHash := otherToken }]

/-- A process asks for it in the name of that run, while the lease of the first one is live. -/
def competing : List BrokerAct :=
  otherClaimed.map BrokerAct.elsewhere ++
    (((World.init.run (codexClaimed ++ otherClaimed)).store.runs.get "work:v/r1").toList.map fun run =>
      .start 1 (.restore run "acme/repo")) ++
    .act 1 (.returns "other") :: List.replicate 7 (.act 1 .returns) ++ [.advance 60000]

/-- The write of a worker's lease is late; another process fences it and retires the lease. -/
def fencedOff : List BrokerAct :=
  codexClaimed.map BrokerAct.elsewhere ++ commanded 0 (.restore · "acme/repo") ++
    [.act 0 (.returns "op"), .act 0 .returns, .act 0 .returns, .act 0 .returns, .act 0 .late,
      .advance 700000, .start 1 .recover] ++ List.replicate 6 (.act 1 (.returns "7"))

/-- The process has ended in an error. -/
def failed (process : BrokerProcess) : Bool :=
  match process.program with
  | .done (.error _, _) => true
  | _ => false

/-- The process asks for a finish of the worker's claim with the sequence number of a retirement, and
the run accepts it. -/
def retiring (s : BrokerState) (process : BrokerProcess) : Bool :=
  match process.program with
  | .call (.transact r at_ (.finishCredentialOperation authority id f restored (some n))) _ =>
    r = runId ∧ f = codexToken ∧ (Orchestrator.direct s.world.store runId (at_.getD s.clock)
      (.finishCredentialOperation authority id f restored (some n))).1.isOk
  | _ => false

/-- A lease that a worker's claim has, and its acknowledged write. -/
structure Leased (w : BrokerWorld) (v : ObjectVersion CodexLeaseRecord) (e : JournalEntry) :
    Prop where
  head : w.state.lease.head? = some v
  live : v.content.LiveFor w.state.clock runId codexToken
  term : v.content.expiresAt = 7200002
  clock : w.state.clock = 0
  journal : w.state.journal = [e]
  acknowledged : ¬e.Outstanding w.state

theorem reachable (acts : List BrokerAct) : (seeded.run brokerEnv acts).Reachable brokerEnv :=
  ⟨none, some [65], acts, rfl⟩

theorem served_leased : ∃ v e, Leased served v e := by
  generalize hw : served = w
  have hfound : (w.state.lease.head?.any fun v => v.content.runId = runId ∧
      v.content.claimFingerprint = some codexToken ∧ v.content.expiresAt = 7200002 ∧
      w.state.clock = 0) = true ∧
      ((w.state.world.operation runId).all (·.mutation = none)) = true ∧
      w.state.journal.map (·.runId) = [runId] := by
    rw [← hw]
    decide +kernel
  obtain ⟨hlease, hoperation, hjournal⟩ := hfound
  obtain ⟨v, hhead, hv⟩ := (Option.any_eq_true _ _).1 hlease
  obtain ⟨hrun, hclaim, hterm, hclock⟩ := of_decide_eq_true hv
  obtain ⟨e, hjournal, he⟩ := List.map_eq_singleton_iff.1 hjournal
  refine ⟨v, e, hhead, ⟨hrun, hclaim, ?_⟩, hterm, hclock, hjournal, ?_⟩
  · rw [hclock, hterm]
    decide
  · rintro ⟨op, hop, -, hmutation⟩
    rw [he] at hop
    rw [hop] at hoperation
    have hnone : op.mutation = none := of_decide_eq_true hoperation
    rw [hnone] at hmutation
    cases hmutation

/-- The fenced write of the worker's lease, and nothing outstanding. -/
theorem fencedOff_acknowledged : ∃ e ∈ (seeded.run brokerEnv fencedOff).state.journal,
    ¬e.Outstanding (seeded.run brokerEnv fencedOff).state ∧
    e.mutation = .leaseWrite (mutationIdOf "op" 1) "0" "acme/repo" 7200002 := by
  generalize hw : seeded.run brokerEnv fencedOff = w
  have hfound : (w.state.journal.any fun e => e.runId = runId ∧
      e.mutation = .leaseWrite (mutationIdOf "op" 1) "0" "acme/repo" 7200002) = true ∧
      ((w.state.world.operation runId).all (·.mutation = none)) = true := by
    rw [← hw]
    decide +kernel
  obtain ⟨e, he, hfacts⟩ := List.any_eq_true.1 hfound.1
  obtain ⟨hrun, hmutation⟩ := of_decide_eq_true hfacts
  refine ⟨e, he, ?_, hmutation⟩
  rintro ⟨op, hop, -, hsome⟩
  rw [hrun] at hop
  have hnone := hfound.2
  rw [hop] at hnone
  cases (of_decide_eq_true hnone).symm.trans hsome

end Sample

/-! ### Every run -/

section Results

variable {env : CodexEnv} {s s' : BrokerState} {r f : String}

/-- A lease that its own claim leaves alone stays to the end of its term. -/
theorem term_enduring (journal : List JournalEntry) (v : ObjectVersion CodexLeaseRecord)
    (hrun : v.content.runId = r) (hclaim : v.content.claimFingerprint = some f) :
    Enduring env fun s =>
      (∀ e ∈ journal, e.runId = r → e.claimFingerprint = f → e ∈ s.journal ∧ ¬e.Outstanding s) ∧
      ((∀ e ∈ s.journal, e.runId = r → e.claimFingerprint = f → e ∈ journal) →
        s.clock < v.content.expiresAt → s.lease.head? = some v) := by
  refine ⟨fun by_ s s' hs hmove h => ?_⟩
  have hgrows := hmove.grows
  refine ⟨fun e he her hef => ?_, fun hnew hterm => ?_⟩
  · obtain ⟨hjournal, hsettled⟩ := h.1 e he her hef
    exact ⟨hgrows.journal e hjournal, fun hout =>
      hsettled (hmove.outstanding_before hs.journalled hjournal hout)⟩
  · have hbefore := h.2 (fun e he => hnew e (hgrows.journal e he))
      (Int.lt_of_le_of_lt hgrows.clock hterm)
    have hlive : s.LiveLease r f :=
      ⟨v, hbefore, hrun, hclaim, Int.lt_of_le_of_lt hgrows.clock hterm⟩
    rcases hmove.live_overwritten hs hlive with hsame | ⟨e, id, repository, expiresAt, hwritten⟩
    · rw [hsame]
      exact hbefore
    · -- the write would be one of a mutation that is acknowledged
      have he := hnew e (hgrows.journal e hwritten.journalled) hwritten.runId
        hwritten.claimFingerprint
      exact absurd hwritten.outstanding
        (h.1 e he hwritten.runId hwritten.claimFingerprint).2

/-- No version is written over a superseded generation. -/
theorem superseded_versions (g : String) (versions : List (ObjectVersion CodexLeaseRecord)) :
    Enduring env fun s => s.LeaseSuperseded g ∧
      ∀ u ∈ s.lease, u.expectedGeneration = g → u ∈ versions := by
  refine ⟨fun by_ s s' hs hmove h => ?_⟩
  refine ⟨hmove.leaseSuperseded h.1, ?_⟩
  rcases hmove.lease_cases with hsame | ⟨write, generation, -, hcurrent, -, rfl⟩
  · rw [hsame]
    exact h.2
  · intro u hu hg
    rcases List.mem_cons.1 hu with rfl | hu
    · exact absurd (hcurrent.trans hg) h.1.passed
    · exact h.2 u hu hg

/-- Every version was written over the one before it, and of a mutation and its fences at most one
write was carried out. -/
structure WrittenOnce {α : Type} (versions : List (ObjectVersion α)) : Prop where
  chained : Versions.Chained (·.generation) (·.expectedGeneration) "0" versions
  once : ∀ u ∈ versions, ∀ u' ∈ versions, ∀ origin origin', u.origin = some origin →
    u'.origin = some origin' → origin.mutationId = origin'.mutationId → u = u'

theorem Orderly.writtenOnce {α : Type} {versions : List (ObjectVersion α)} (hs : s.Journalled)
    (hdistinct : Versions.Distinct (·.generation) "0" versions) (h : Orderly s.journal versions) :
    WrittenOnce versions where
  chained := h.chained
  once u hu u' hu' origin origin' horigin horigin' hsame := by
    -- of one mutation both versions expect the same generation
    obtain ⟨e, he, hid, hexpects⟩ := h.written u hu origin horigin
    obtain ⟨e', he', hid', hexpects'⟩ := h.written u' hu' origin' horigin'
    obtain rfl := hs.unique e he e' he' (hid.trans (hsame.trans hid'.symm))
    exact h.chained.unique hdistinct hu hu' (hexpects.symm.trans hexpects')

/-- The one version that an object may have at first is in order. -/
theorem orderly_init {α : Type} (journal : List JournalEntry) (content : Option α) :
    Orderly journal
      (content.map fun content => ({ generation := "1", content } : ObjectVersion α)).toList := by
  cases content with
  | none => exact ⟨trivial, by rintro u ⟨⟩⟩
  | some content =>
    refine ⟨⟨rfl, trivial⟩, fun u hu origin horigin => ?_⟩
    obtain rfl := List.mem_singleton.1 hu
    cases horigin

/-- A write that would leave a live lease is refused, when the claim has no mutation outstanding and
no live lease. -/
theorem LeaseWrite.retired (hs : s.Sound env) {w : ObjectWrite CodexLeaseRecord}
    (hwrite : LeaseWrite s w) (hnone : ¬s.LiveLease r f)
    (hsettled : ∀ e ∈ s.journal, e.runId = r → e.claimFingerprint = f → ¬e.Outstanding s)
    (hlive : w.content.LiveFor s.clock r f) : s.LeaseSuperseded w.expectedGeneration := by
  obtain ⟨e, he, repository, expiresAt, hmutation, hcontent⟩ := hwrite
  generalize w.origin.fence = fence at hcontent
  generalize w.content = record at hcontent hlive
  cases hcontent with
  | performed =>
    exact (hs.leased.settled e he _ _ _ _ hmutation).resolve_left
      (hsettled e he hlive.runId (Option.some.inj hlive.claimFingerprint))
  | created hzero record hexpired =>
    have hlt := hlive.unexpired
    rw [hexpired] at hlt
    exact absurd hlt (Int.not_lt.2 hs.journalled.clock)
  | kept v hv hgeneration =>
    refine ⟨fun hcurrent => hnone ?_, .inr ⟨v, hv, hgeneration⟩⟩
    refine ⟨v, hs.leased.distinct.head_of_current hv (hcurrent.trans hgeneration.symm), hlive.runId,
      hlive.claimFingerprint, ?_⟩
    have hlt := hlive.unexpired
    have hclock := hs.journalled.clock
    unfold fencedLease Time at *
    dsimp only at hlt
    split_ifs at hlt with hzero
    · rw [hzero.1] at hlt
      omega
    · exact hlt

namespace BrokerWorld

variable {w : BrokerWorld}

/-- A live lease whose claim has no write outstanding and journals none is there until it expires,
whatever else happens. -/
theorem lease_for_its_term (h : w.Reachable env) (acts : List BrokerAct)
    {v : ObjectVersion CodexLeaseRecord} (hhead : w.state.lease.head? = some v)
    (hlive : v.content.LiveFor w.state.clock r f)
    (hsettled : ∀ e ∈ w.state.journal, e.runId = r → e.claimFingerprint = f → ¬e.Outstanding w.state)
    (hnew : ∀ e ∈ (w.run env acts).state.journal, e.runId = r → e.claimFingerprint = f →
      e ∈ w.state.journal)
    (hterm : (w.run env acts).state.clock < v.content.expiresAt) :
    (w.run env acts).state.lease.head? = some v :=
  (h.further (term_enduring w.state.journal v hlive.runId hlive.claimFingerprint)
    ⟨fun e he her hef => ⟨he, hsettled e he her hef⟩, fun _ _ => hhead⟩ acts).2 hnew hterm

open Sample in
/-- The lease of a worker is there a minute later, though another claim has asked for it. -/
theorem lease_for_its_term_leased : ∃ v,
    (served.run brokerEnv competing).state.lease.head? = some v ∧ v.content.runId = runId ∧
    ((served.run brokerEnv competing).processes.get 1).any failed = true := by
  obtain ⟨v, e, h⟩ := served_leased
  have hjournal : (served.run brokerEnv competing).state.journal = served.state.journal := by
    decide +kernel
  refine ⟨v, lease_for_its_term (reachable leasedToWorker) competing h.head h.live ?_ ?_ ?_,
    h.live.runId, by decide +kernel⟩
  · intro e' he' _ _
    obtain rfl := List.mem_singleton.1 (h.journal ▸ he')
    exact h.acknowledged
  · intro e' he' _ _
    rw [← hjournal]
    exact he'
  · rw [h.term]
    decide +kernel

/-- A write of an acknowledged lease mutation is not carried out. -/
theorem leases_in_vain (h : w.Reachable env) (acts : List BrokerAct) {e : JournalEntry}
    (he : e ∈ w.state.journal) (hacknowledged : ¬e.Outstanding w.state) {id g repository : String}
    {expiresAt : Time} (hmutation : e.mutation = .leaseWrite id g repository expiresAt) :
    ∀ u ∈ (w.run env acts).state.lease, u.expectedGeneration = g → u ∈ w.state.lease := by
  have hgone := (h.sound.inv.leased.settled e he id g repository expiresAt hmutation).resolve_left
    hacknowledged
  exact (h.further (superseded_versions g _) ⟨hgone, fun u hu _ => hu⟩ acts).2

/-- A write of an acknowledged rotation is not carried out, if the object had had the generation that
it expects. -/
theorem rotations_in_vain (h : w.Reachable env) (acts : List BrokerAct) {e : JournalEntry}
    (he : e ∈ w.state.journal) (hacknowledged : ¬e.Outstanding w.state) {id g sha256 : String}
    (hmutation : e.mutation = .authWrite id g sha256) (hknown : e.known = true) :
    ∀ u ∈ (w.run env acts).state.auth, u.origin = some ⟨id, false⟩ → u ∈ w.state.auth := by
  have hover : BrokerState.RotationsOver w.state :=
    h.holds BrokerState.RotationsOver.enduring fun _ _ => by rintro e ⟨⟩
  have hover := (hover e he id g sha256 hmutation hknown).resolve_left hacknowledged
  exact (h.further (RotationOver.versions hmutation hknown _) ⟨hover, fun u hu _ => hu⟩ acts).2

/-- No write of an acknowledged mutation is carried out, however late it arrives.  Of a rotation this
is known if the object had had the generation that it expects. -/
theorem acknowledged_in_vain (h : w.Reachable env) (acts : List BrokerAct) {e : JournalEntry}
    (he : e ∈ w.state.journal) (hacknowledged : ¬e.Outstanding w.state) :
    (∀ id g repository expiresAt, e.mutation = .leaseWrite id g repository expiresAt →
      ∀ u ∈ (w.run env acts).state.lease, u.expectedGeneration = g → u ∈ w.state.lease) ∧
    ∀ id g sha256, e.mutation = .authWrite id g sha256 → e.known = true →
      ∀ u ∈ (w.run env acts).state.auth, u.origin = some ⟨id, false⟩ → u ∈ w.state.auth := by
  exact ⟨fun _ _ _ _ hmutation => leases_in_vain h acts he hacknowledged hmutation,
    fun _ _ _ hmutation hknown => rotations_in_vain h acts he hacknowledged hmutation hknown⟩

open Sample in
/-- The late write of a lease that was fenced is not carried out. -/
theorem acknowledged_in_vain_leased :
    (seeded.run brokerEnv fencedOff).state.leaseWrites.length = 1 ∧
      ∀ u ∈ ((seeded.run brokerEnv fencedOff).run brokerEnv [.arriveLease 0 "9"]).state.lease,
        u.expectedGeneration = "0" → u ∈ (seeded.run brokerEnv fencedOff).state.lease := by
  obtain ⟨e, he, hacknowledged, hmutation⟩ := fencedOff_acknowledged
  exact ⟨by decide +kernel, (acknowledged_in_vain (reachable fencedOff) [.arriveLease 0 "9"] he
    hacknowledged).1 _ _ _ _ hmutation⟩

/-- Either object is written over its newest version only, and of a mutation and its fences at most
one write is carried out. -/
theorem written_once (h : w.Reachable env) :
    WrittenOnce w.state.lease ∧ WrittenOnce w.state.auth := by
  have hs := h.sound.inv
  constructor
  · exact (h.holds enduring_orderlyLease fun lease _ => orderly_init [] lease).writtenOnce
      hs.journalled hs.leased.distinct
  · refine (h.holds enduring_orderlyAuth fun _ auth => ?_).writtenOnce hs.journalled
      hs.authored.distinct
    rw [auth_init]
    exact orderly_init [] _

open Sample in
/-- A lease that was taken and released, and a credential that was rotated. -/
theorem written_once_leased :
    (seeded.run brokerEnv persisted).state.lease.map (·.generation) = ["9", "7"] ∧
      (seeded.run brokerEnv persisted).state.auth.map (·.generation) = ["9", "1"] ∧
      WrittenOnce (seeded.run brokerEnv persisted).state.lease ∧
      WrittenOnce (seeded.run brokerEnv persisted).state.auth :=
  ⟨by decide +kernel, by decide +kernel, written_once (reachable persisted)⟩

/-- A settled Codex run that holds its claim and has no operation left has no unexpired lease, and
never has one again. -/
theorem cleaned_for_good (h : w.Reachable env) (acts : List BrokerAct) {run : Run}
    (hrun : w.state.world.store.runs.get r = some run) (hsettled : isLive run.state = false)
    (hfinished : run.credentialOperation = none) (hcodex : usesCodexCredentials run = true)
    (hclaim : isClaimant run f = true) : ¬(w.run env acts).state.LiveLease r f := by
  have hcleaned : w.state.CleanedUp :=
    h.holds BrokerState.CleanedUp.enduring fun _ _ => by rintro r run f ⟨⟩
  exact (h.further LeaseGone.enduring ⟨⟨run, hrun, hsettled⟩,
    hcleaned r run f hrun hsettled hfinished hcodex hclaim⟩ acts).retired

/-- A canceled run is cleaned up. -/
theorem cleaned_for_good_canceled :
    ¬((Sample.seeded.run Sample.brokerEnv Sample.cleanedUp).run Sample.brokerEnv
      [.advance 60000]).state.LiveLease Sample.runId Sample.codexToken := by
  have hreach := Sample.reachable Sample.cleanedUp
  generalize hw : Sample.seeded.run Sample.brokerEnv Sample.cleanedUp = w at *
  have hany : (w.state.world.store.runs.get Sample.runId).any (fun run =>
      isLive run.state = false ∧ run.credentialOperation = none ∧
      usesCodexCredentials run = true ∧ isClaimant run Sample.codexToken = true) = true := by
    rw [← hw]
    decide +kernel
  obtain ⟨run, hrun, hfacts⟩ := (Option.any_eq_true _ _).1 hany
  obtain ⟨hsettled, hfinished, hcodex, hclaim⟩ := of_decide_eq_true hfacts
  exact cleaned_for_good hreach [.advance 60000] hrun hsettled hfinished hcodex hclaim

/-- What the processes return is true, and so are the receipts of the runs and of the credential
object: each tells of a rotation that was carried out. -/
theorem told_the_truth (h : w.Reachable env) :
    (∀ pid command result n, w.processes.get pid = some ⟨command, .done (.ok result, n)⟩ →
      command.Promises env result w.state) ∧
    (∀ r run receipt, w.state.world.store.runs.get r = some run →
      run.credentialWriteReceipt = some receipt → RotatedBy env w.state r receipt) ∧
    ∀ v ∈ w.state.auth, ∀ receipt, v.content.receipt = some receipt →
      Rotated env w.state receipt := by
  refine ⟨fun pid command result n hprocess => ?_, fun r run receipt hrun hreceipt =>
    h.sound.inv.authored.confirmed hrun hreceipt, fun v hv receipt hreceipt =>
    h.sound.inv.authored.stored v hv receipt hreceipt⟩
  exact h.sound.meets pid command _ (Option.map_eq_some_iff.2 ⟨_, hprocess, rfl⟩) result rfl

/-- The run of a worker that persisted has the receipt of a rotation. -/
theorem told_the_truth_persisted : ∃ receipt, RotatedBy Sample.brokerEnv
    (Sample.seeded.run Sample.brokerEnv Sample.persisted).state Sample.runId receipt := by
  have hreach := Sample.reachable Sample.persisted
  generalize hw : Sample.seeded.run Sample.brokerEnv Sample.persisted = w at *
  have hany : (w.state.world.store.runs.get Sample.runId).any
      (·.credentialWriteReceipt.isSome) = true := by
    rw [← hw]
    decide +kernel
  obtain ⟨run, hrun, hsome⟩ := (Option.any_eq_true _ _).1 hany
  obtain ⟨receipt, hreceipt⟩ := Option.isSome_iff_exists.1 hsome
  exact ⟨receipt, (told_the_truth hreach).2.1 _ run receipt hrun hreceipt⟩

/-- When a finish with the sequence number of a retirement is accepted, the lease object is no
unexpired lease of the claim, no write on its way makes it one, and once the run is settled it never
becomes one. -/
theorem retirement_accepted (h : w.Reachable env) {pid : Nat} {command : BrokerCommand}
    {at_ : Option Time} {authority : Option ProviderFallbackAuthority} {id : String} {restored : Bool}
    {n : Nat} {next : Option Outcome → BrokerProgram} {d : Decision}
    (hprocess : w.processes.get pid = some ⟨command, .call (.transact r at_
      (.finishCredentialOperation authority id f restored (some n))) next⟩)
    (haccepted : (Orchestrator.direct w.state.world.store r (at_.getD w.state.clock)
      (.finishCredentialOperation authority id f restored (some n))).1 = .ok d) :
    ¬w.state.LiveLease r f ∧
    (∀ write ∈ w.state.leaseWrites, write.content.LiveFor w.state.clock r f →
      w.state.LeaseSuperseded write.expectedGeneration) ∧
    ∀ answer acts run,
      (w.step env (.act pid answer)).state.world.store.runs.get r = some run →
      isLive run.state = false →
      ¬((w.step env (.act pid answer)).run env acts).state.LiveLease r f := by
  have hsound := h.sound
  have hs := hsound.inv
  have hmay : MayCall env pid (.transact r at_
      (.finishCredentialOperation authority id f restored (some n))) w.state :=
    Parties.Sound.allowed hsound (Option.map_eq_some_iff.2 ⟨_, hprocess, rfl⟩)
  have haccept : AcceptedAt env pid w.state (w.state.transacted pid r (at_.getD w.state.clock) _) r
      (.finishCredentialOperation authority id f restored (some n)) d w.state
      (at_.getD w.state.clock) := ⟨.refl, hs, hmay, rfl, haccepted⟩
  obtain ⟨run, op, hrun, hop, rfl, rfl, hmutation, hsequence⟩ := haccept.finished
  have hoperation : w.state.world.operation r = some op := World.operation_eq_some.2 ⟨run, hrun, hop⟩
  obtain ⟨hkind, hretired⟩ := hmay n rfl op hoperation rfl
  have hnone : ¬w.state.LiveLease r op.claimFingerprint := by
    refine hretired (Option.some.inj (hsequence ?_)).symm
    refine hkind.imp_right ?_
    rintro ⟨x, hx, hpending⟩
    obtain rfl := Option.some.inj (hrun.symm.trans hx)
    exact hpending
  refine ⟨hnone, fun write hwrite hlive => ?_, fun answer acts x hx hsettled => ?_⟩
  · refine (hs.leased.flying write hwrite).retired hs hnone (fun e _ her _ hout => ?_) hlive
    rw [← her] at hoperation
    rw [(hout.entry hoperation).2] at hmutation
    cases hmutation
  · -- the finish leaves the lease object and the clock alone
    have hstays : ¬(w.step env (.act pid answer)).state.LiveLease r op.claimFingerprint := by
      rcases w.step_act_cases env pid answer with hstep |
        ⟨command', c, next', reply, state, hcall, hexec, hstep⟩
      · rw [hstep]
        exact hnone
      · rw [hstep]
        rw [hprocess] at hcall
        cases hcall
        rcases BrokerAnswer.commit_cases hexec with ⟨rfl, -⟩ | ⟨rfl, -⟩
        · exact hnone
        · exact hnone
    have hreach : (w.step env (.act pid answer)).Reachable env := h.run [.act pid answer]
    exact (hreach.further LeaseGone.enduring ⟨⟨x, hx, hsettled⟩, hstays⟩ acts).retired

open Sample in
/-- The finish that ends the cleanup of a canceled run is accepted after its lease is retired. -/
theorem retirement_accepted_canceled :
    ¬(seeded.run brokerEnv cleanedUp.dropLast).state.LiveLease runId codexToken ∧
    ¬(((seeded.run brokerEnv cleanedUp.dropLast).step brokerEnv (.act 1 .returns)).run brokerEnv
      [.advance 60000]).state.LiveLease runId codexToken := by
  have hreach := reachable cleanedUp.dropLast
  have hretiring : ((seeded.run brokerEnv cleanedUp.dropLast).processes.get 1).any
      (retiring (seeded.run brokerEnv cleanedUp.dropLast).state) = true := by decide +kernel
  have hsettled : (((seeded.run brokerEnv cleanedUp.dropLast).step brokerEnv
      (.act 1 .returns)).state.world.store.runs.get runId).any (fun run => !isLive run.state) = true := by
    decide +kernel
  generalize hw : seeded.run brokerEnv cleanedUp.dropLast = w at *
  obtain ⟨⟨command, program⟩, hprocess, hretires⟩ := (Option.any_eq_true _ _).1 hretiring
  unfold retiring at hretires
  dsimp only at hretires
  split at hretires
  · rename_i at_ authority id f restored n next
    obtain ⟨rfl, rfl, hok⟩ := of_decide_eq_true hretires
    obtain ⟨run, hrun, hdead⟩ := (Option.any_eq_true _ _).1 hsettled
    cases haccepted : (Orchestrator.direct w.state.world.store runId (at_.getD w.state.clock)
        (.finishCredentialOperation authority id codexToken restored (some n))).1 with
    | error => rw [haccepted] at hok; cases hok
    | ok d =>
      obtain ⟨hnone, -, hlater⟩ := retirement_accepted hreach hprocess haccepted
      exact ⟨hnone, hlater .returns [.advance 60000] run hrun (by simpa using hdead)⟩
  · cases hretires
end BrokerWorld

end Results

end AgentLcars
