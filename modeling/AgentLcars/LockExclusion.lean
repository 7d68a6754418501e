import AgentLcars.FileLock

/-!
# The lock file excludes

While every live process that created the lock file touches or releases it in time, and no waiter
gives up the guard of a takeover whose process is alive, at most one live process holds the lock, and
only its creator removes the lock file of a live process.  A lock that a killed process left can
always be taken over.

* `LockWorld.Sound`: the lock file is its live owner's, the guard file is that of the live takeover,
  and a takeover about to remove the lock knows that its creator is gone.
* `lock_excludes`: what holds of a run.
-/

namespace AgentLcars

/-! ### The invariant -/

/-- The process created the lock file and has not removed it. -/
def LockPhase.Owns : LockPhase → Prop
  | .writingPid _ | .holding | .touching _ | .releasing => True
  | _ => False

/-- The process acquired the lock and has not released it. -/
def LockPhase.Holds : LockPhase → Prop
  | .holding | .touching _ | .releasing => True
  | _ => False

/-- The process created the guard file and has not removed it. -/
def LockPhase.Takes : LockPhase → Prop
  | .writingGuard .. | .statLock _ | .readLock .. | .judging .. | .statAgain .. | .readAgain ..
  | .unlinkLock | .unlinkGuard => True
  | _ => False

/-- The lock file is that of a process that is gone. -/
def LockWorld.DeadLock (w : LockWorld) : Prop :=
  ∃ f, w.lock = some f ∧ w.gone f.creator = true

/-- What a waiter knows of the time and of the lock. -/
def LockPhase.Knows (staleMs : Int) (w : LockWorld) : LockPhase → Prop
  | .creatingGuard now | .writingGuard now _ | .statLock now | .readLock now _ | .judging now _ _ =>
    now ≤ w.clock
  | .statAgain now before holder =>
    (staleMs < now - before.mtimeMs ∧ now ≤ w.clock) ∨ w.holderIsGone holder = true
  | .readAgain _ _ holder => w.DeadLock ∨ w.holderIsGone holder = true
  | .unlinkLock => w.DeadLock
  | _ => True

structure LockWorld.Sound (staleMs : Int) (w : LockWorld) : Prop where
  owner : ∀ {pid p}, w.processes.get pid = some p → p.alive = true → p.phase.Owns →
    ∃ f, w.lock = some f ∧ f.creator = pid
  creator : ∀ {f}, w.lock = some f → ∃ p, w.processes.get f.creator = some p ∧
    (p.alive = true → p.phase.Owns)
  content : ∀ {f}, w.lock = some f → f.content = none ∨ f.content = some f.creator
  guarded : ∀ {pid p}, w.processes.get pid = some p → p.alive = true → p.phase.Takes →
    ∃ g, w.guard = some g ∧ g.creator = pid
  knows : ∀ {pid p}, w.processes.get pid = some p → p.alive = true → p.phase.Knows staleMs w

/-- A live process that created the lock file touched it in time. -/
def LockWorld.InTime (staleMs : Int) (w : LockWorld) : Prop :=
  ∀ f ∈ w.lock, w.gone f.creator = false → w.clock - f.mtimeMs ≤ staleMs

instance (staleMs : Int) (w : LockWorld) : Decidable (w.InTime staleMs) :=
  inferInstanceAs (Decidable (∀ f ∈ w.lock, w.gone f.creator = false →
    w.clock - f.mtimeMs ≤ staleMs))

/-- No waiter removes the guard of a live process as abandoned. -/
def LockWorld.GuardKept (w : LockWorld) : LockStep → Prop
  | .advance pid _ => ∀ p ∈ w.processes.get pid, p.phase = .unlinkAbandoned →
    ∀ g ∈ w.guard, w.gone g.creator = true
  | _ => True

instance (w : LockWorld) : ∀ step, Decidable (w.GuardKept step)
  | .advance pid _ => inferInstanceAs (Decidable (∀ p ∈ w.processes.get pid,
    p.phase = .unlinkAbandoned → ∀ g ∈ w.guard, w.gone g.creator = true))
  | .acquire .. | .touch _ | .release _ | .kill _ | .tick _ => isTrue trivial

/-- What is asked of every step. -/
def LockWorld.Respected (staleMs : Int) (w : LockWorld) (step : LockStep) : Prop :=
  w.InTime staleMs ∧ w.GuardKept step

instance (staleMs : Int) (w : LockWorld) (step : LockStep) : Decidable (w.Respected staleMs step) :=
  inferInstanceAs (Decidable (w.InTime staleMs ∧ w.GuardKept step))

section Moves

variable {staleMs : Int} {w : LockWorld} {pid other : Pid} {p q : LockProcess}

theorem gone_eq_false (hget : w.processes.get pid = some p) (halive : p.alive = true) :
    w.gone pid = false := by
  unfold LockWorld.gone
  rw [hget]
  simp [halive]

/-- A process that moves is not gone. -/
theorem gone_set (hget : w.processes.get pid = some p) (phase : LockPhase) (lock guard nextObject) :
    LockWorld.gone { w with
      lock, guard, nextObject, processes := w.processes.set pid { p with phase } } = w.gone := by
  funext other
  unfold LockWorld.gone
  dsimp only
  rw [OrderedMap.get_set]
  split_ifs with hsame
  · rw [hsame, hget]
  · rfl

theorem holderIsGone_eq {v : LockWorld} (h : v.gone = w.gone) : v.holderIsGone = w.holderIsGone := by
  funext holder
  unfold LockWorld.holderIsGone
  rw [h]

/-- What a waiter knows stays true while the clock goes on, processes are killed, and the lock of a
process that is gone stays. -/
theorem LockPhase.Knows.mono {v : LockWorld} {phase : LockPhase} (h : phase.Knows staleMs w)
    (hclock : w.clock ≤ v.clock) (hgone : ∀ pid, w.gone pid = true → v.gone pid = true)
    (hdead : phase.Takes → w.DeadLock → v.DeadLock) : phase.Knows staleMs v := by
  have hholder : ∀ holder, w.holderIsGone holder = true → v.holderIsGone holder = true := by
    intro holder hholder
    cases holder with
    | none => exact hholder
    | some pid => exact hgone pid hholder
  cases phase with
  | creatingGuard now => exact Int.le_trans h hclock
  | writingGuard now object => exact Int.le_trans h hclock
  | statLock now => exact Int.le_trans h hclock
  | readLock now before => exact Int.le_trans h hclock
  | judging now before holder => exact Int.le_trans h hclock
  | statAgain now before holder =>
    exact h.imp (fun hold => ⟨hold.1, Int.le_trans hold.2 hclock⟩) (hholder holder)
  | readAgain now before holder => exact h.imp (hdead trivial) (hholder holder)
  | unlinkLock => exact hdead trivial h
  | _ => trivial

/-- Two live takeovers are one. -/
theorem LockWorld.Sound.takes_unique (hw : w.Sound staleMs) (hget : w.processes.get pid = some p)
    (halive : p.alive = true) (htakes : p.phase.Takes) (hother : w.processes.get other = some q)
    (halive' : q.alive = true) (htakes' : q.phase.Takes) : other = pid := by
  obtain ⟨g, hg, rfl⟩ := hw.guarded hget halive htakes
  obtain ⟨g', hg', rfl⟩ := hw.guarded hother halive' htakes'
  rw [Option.some.inj (hg.symm.trans hg')]

/-- Two live owners are one. -/
theorem LockWorld.Sound.owns_unique (hw : w.Sound staleMs) (hget : w.processes.get pid = some p)
    (halive : p.alive = true) (howns : p.phase.Owns) (hother : w.processes.get other = some q)
    (halive' : q.alive = true) (howns' : q.phase.Owns) : other = pid := by
  obtain ⟨f, hf, rfl⟩ := hw.owner hget halive howns
  obtain ⟨f', hf', rfl⟩ := hw.owner hother halive' howns'
  rw [Option.some.inj (hf.symm.trans hf')]

/-- One live process moves: what it has to leave to the others, and what it has to know. -/
theorem LockWorld.Sound.moved (hw : w.Sound staleMs) (hget : w.processes.get pid = some p)
    {phase : LockPhase} {lock guard : Option LockFile} {nextObject : Nat}
    (hothers : ∀ f, w.lock = some f → f.creator ≠ pid → w.gone f.creator = false →
      ∃ f', lock = some f' ∧ f'.creator = f.creator)
    (howns : phase.Owns → ∃ f, lock = some f ∧ f.creator = pid)
    (hcreator : ∀ f, lock = some f → f.creator = pid ∧ phase.Owns ∨
      f.creator ≠ pid ∧ ∃ f', w.lock = some f' ∧ f'.creator = f.creator)
    (hcontent : ∀ f, lock = some f → f.content = none ∨ f.content = some f.creator)
    (hguards : ∀ g, w.guard = some g → g.creator ≠ pid → w.gone g.creator = false →
      ∃ g', guard = some g' ∧ g'.creator = g.creator)
    (htakes : phase.Takes → ∃ g, guard = some g ∧ g.creator = pid)
    (hdead : ∀ {other q}, other ≠ pid → w.processes.get other = some q → q.alive = true →
      q.phase.Takes → w.DeadLock → ∃ f, lock = some f ∧ w.gone f.creator = true)
    (hknows : phase.Knows staleMs { w with
      lock, guard, nextObject, processes := w.processes.set pid { p with phase } }) :
    LockWorld.Sound staleMs { w with
      lock, guard, nextObject, processes := w.processes.set pid { p with phase } } := by
  have hgone := gone_set hget phase lock guard nextObject
  refine ⟨?_, ?_, fun {f} hf => hcontent f hf, ?_, ?_⟩
  · intro other q hother halive hphase
    rw [OrderedMap.get_set] at hother
    split_ifs at hother with hsame
    · obtain rfl := Option.some.inj hother
      exact hsame ▸ howns hphase
    · obtain ⟨f, hf, rfl⟩ := hw.owner hother halive hphase
      exact hothers f hf hsame (gone_eq_false hother halive)
  · intro f hf
    rcases hcreator f hf with ⟨hself, hphase⟩ | ⟨hother, f', hf', hsame⟩
    · exact ⟨_, (OrderedMap.get_set _ _ _ _).trans (if_pos hself), fun _ => hphase⟩
    · obtain ⟨q, hq, hphase⟩ := hw.creator hf'
      rw [hsame] at hq
      exact ⟨q, (OrderedMap.get_set _ _ _ _).trans ((if_neg hother).trans hq), hphase⟩
  · intro other q hother halive hphase
    rw [OrderedMap.get_set] at hother
    split_ifs at hother with hsame
    · obtain rfl := Option.some.inj hother
      exact hsame ▸ htakes hphase
    · obtain ⟨g, hg, rfl⟩ := hw.guarded hother halive hphase
      exact hguards g hg hsame (gone_eq_false hother halive)
  · intro other q hother halive
    rw [OrderedMap.get_set] at hother
    split_ifs at hother with hsame
    · obtain rfl := Option.some.inj hother
      exact hknows
    · refine (hw.knows hother halive).mono (Int.le_refl _) (fun _ h => by rw [hgone]; exact h) ?_
      intro hphase hold
      obtain ⟨f, hf, hcreator⟩ := hdead hsame hother halive hphase hold
      exact ⟨f, hf, by rw [hgone]; exact hcreator⟩

/-- A move that leaves both files alone. -/
theorem LockWorld.Sound.phase (hw : w.Sound staleMs) (hget : w.processes.get pid = some p)
    (halive : p.alive = true) {phase : LockPhase} (howns : phase.Owns ↔ p.phase.Owns)
    (htakes : phase.Takes → p.phase.Takes)
    (hknows : phase.Knows staleMs { w with processes := w.processes.set pid { p with phase } }) :
    LockWorld.Sound staleMs { w with processes := w.processes.set pid { p with phase } } := by
  refine hw.moved hget (fun f hf _ _ => ⟨f, hf, rfl⟩) ?_ ?_ (fun f hf => hw.content hf)
    (fun g hg _ _ => ⟨g, hg, rfl⟩) ?_ (fun _ _ _ _ hold => hold) hknows
  · exact fun hphase => hw.owner hget halive (howns.1 hphase)
  · intro f hf
    by_cases hsame : f.creator = pid
    · obtain ⟨q, hq, hphase⟩ := hw.creator hf
      rw [hsame, hget] at hq
      obtain rfl := Option.some.inj hq
      exact .inl ⟨hsame, howns.2 (hphase halive)⟩
    · exact .inr ⟨hsame, f, hf, rfl⟩
  · exact fun hphase => hw.guarded hget halive (htakes hphase)

/-- A write through a descriptor leaves whose file it is. -/
theorem writePid_file {file : Option LockFile} {f : LockFile} (clock : Int) (pid : Pid) (object : Nat)
    (hf : file = some f) : ∃ f', writePid clock pid object file = some f' ∧
      f'.creator = f.creator ∧ f'.object = f.object ∧
      (f'.content = f.content ∨ f'.content = some pid) := by
  subst hf
  unfold writePid
  rw [Option.map_some]
  split_ifs
  · exact ⟨_, rfl, rfl, rfl, .inr rfl⟩
  · exact ⟨_, rfl, rfl, rfl, .inl rfl⟩

theorem LockWorld.Sound.not_creator (hw : w.Sound staleMs) (hget : w.processes.get pid = some p)
    (halive : p.alive = true) (hphase : ¬p.phase.Owns) {f : LockFile} (hf : w.lock = some f) :
    f.creator ≠ pid := by
  intro hsame
  obtain ⟨q, hq, howns⟩ := hw.creator hf
  rw [hsame, hget] at hq
  obtain rfl := Option.some.inj hq
  exact hphase (howns halive)

/-- The owner of the lock file writes to it. -/
theorem LockWorld.Sound.written (hw : w.Sound staleMs) (hget : w.processes.get pid = some p)
    (halive : p.alive = true) (hphase : p.phase.Owns) {phase : LockPhase} (howns : phase.Owns)
    {lock : Option LockFile}
    (hlock : ∀ f, w.lock = some f → f.creator = pid → ∃ f', lock = some f' ∧
      f'.creator = pid ∧ (f'.content = f.content ∨ f'.content = some pid)) :
    LockWorld.Sound staleMs { w with
      lock, processes := w.processes.set pid { p with phase } } := by
  obtain ⟨f, hf, hcreator⟩ := hw.owner hget halive hphase
  obtain ⟨f', hf', hcreator', hcontent⟩ := hlock f hf hcreator
  have honly : ∀ g, lock = some g → g = f' := fun g hg => Option.some.inj (hg.symm.trans hf')
  refine hw.moved hget ?_ (fun _ => ⟨f', hf', hcreator'⟩) ?_ ?_ (fun g hg _ _ => ⟨g, hg, rfl⟩) ?_ ?_ ?_
  · intro g hg hother _
    rw [hf] at hg
    exact absurd (Option.some.inj hg ▸ hcreator) hother
  · intro g hg
    rw [honly g hg]
    exact .inl ⟨hcreator', howns⟩
  · intro g hg
    rw [honly g hg, hcreator']
    rcases hcontent with hsame | hnew
    · rw [hsame]
      exact hcreator ▸ hw.content hf
    · exact .inr hnew
  · intro htakes
    cases phase <;> first | exact howns.elim | exact htakes.elim
  · rintro other q - - - - ⟨g, hg, hdead⟩
    rw [hf] at hg
    obtain rfl := Option.some.inj hg
    rw [hcreator, gone_eq_false hget halive] at hdead
    cases hdead
  · cases phase <;> first | exact howns.elim | trivial

/-- A file operation of a live process keeps the invariant. -/
theorem LockWorld.Sound.advance (hw : w.Sound staleMs) (hget : w.processes.get pid = some p)
    (halive : p.alive = true) (htime : w.InTime staleMs)
    (hguard : p.phase = .unlinkAbandoned → ∀ g ∈ w.guard, w.gone g.creator = true) (ino : Ino) :
    (w.advance staleMs pid p ino).Sound staleMs := by
  have hknows := hw.knows hget halive
  have hholder : ∀ phase : LockPhase, LockWorld.holderIsGone { w with
      processes := w.processes.set pid { p with phase } } = w.holderIsGone :=
    fun phase => holderIsGone_eq (gone_set hget phase _ _ _)
  obtain ⟨alive, deadline, phase⟩ := p
  unfold LockWorld.advance
  cases phase with
  | idle => exact hw
  | holding => exact hw
  | creating first =>
    dsimp only
    split
    · rename_i hfree
      refine hw.moved hget ?_ (fun _ => ⟨_, rfl, rfl⟩) ?_ ?_ (fun g hg _ _ => ⟨g, hg, rfl⟩)
        (fun h => h.elim) ?_ trivial
      · intro f hf
        rw [hfree] at hf
        cases hf
      · intro f hf
        obtain rfl := Option.some.inj hf
        exact .inl ⟨rfl, trivial⟩
      · intro f hf
        obtain rfl := Option.some.inj hf
        exact .inl rfl
      · rintro other q - - - - ⟨f, hf, -⟩
        rw [hfree] at hf
        cases hf
    · cases first with
      | true => exact hw.phase hget halive Iff.rfl (fun h => h.elim) trivial
      | false => exact hw.phase hget halive Iff.rfl (fun h => h.elim) trivial
  | writingPid object =>
    refine @LockWorld.Sound.written staleMs w pid _ hw hget halive trivial .holding trivial _ ?_
    intro f hf hcreator
    obtain ⟨f', hf', hsame, -, hcontent⟩ := writePid_file w.clock pid object hf
    exact ⟨f', hf', hsame.trans hcreator, hcontent⟩
  | touching time =>
    refine @LockWorld.Sound.written staleMs w pid _ hw hget halive trivial .holding trivial _ ?_
    intro f hf hcreator
    exact ⟨{ f with mtimeMs := time }, by rw [hf]; rfl, hcreator, .inl rfl⟩
  | releasing =>
    obtain ⟨f, hf, hcreator⟩ := hw.owner hget halive trivial
    refine hw.moved hget ?_ (fun h => h.elim) nofun nofun (fun g hg _ _ => ⟨g, hg, rfl⟩)
      (fun h => h.elim) ?_ trivial
    · intro g hg hother _
      rw [hf] at hg
      exact absurd (Option.some.inj hg ▸ hcreator) hother
    · rintro other q - - - - ⟨g, hg, hdead⟩
      rw [hf] at hg
      obtain rfl := Option.some.inj hg
      rw [hcreator, gone_eq_false hget halive] at hdead
      cases hdead
  | waiting =>
    dsimp only
    split_ifs
    · exact hw.phase hget halive Iff.rfl (fun h => h.elim) trivial
    · exact hw.phase hget halive Iff.rfl (fun h => h.elim) trivial
  | readingClock => exact hw.phase hget halive Iff.rfl (fun h => h.elim) (Int.le_refl _)
  | creatingGuard now =>
    dsimp only
    split
    · rename_i hfree
      refine hw.moved hget (fun f hf _ _ => ⟨f, hf, rfl⟩) (fun h => h.elim) ?_
        (fun f hf => hw.content hf) ?_ (fun _ => ⟨_, rfl, rfl⟩) (fun _ _ _ _ hold => hold) hknows
      · exact fun f hf => .inr ⟨hw.not_creator hget halive id hf, f, hf, rfl⟩
      · intro g hg
        rw [hfree] at hg
        cases hg
    · exact hw.phase hget halive Iff.rfl (fun h => h.elim) trivial
  | writingGuard now object =>
    refine hw.moved hget (fun f hf _ _ => ⟨f, hf, rfl⟩) (fun h => h.elim) ?_
      (fun f hf => hw.content hf) ?_ ?_ (fun _ _ _ _ hold => hold) hknows
    · exact fun f hf => .inr ⟨hw.not_creator hget halive id hf, f, hf, rfl⟩
    · intro g hg _ _
      obtain ⟨g', hg', hsame, -⟩ := writePid_file w.clock pid object hg
      exact ⟨g', hg', hsame⟩
    · intro _
      obtain ⟨g, hg, hcreator⟩ := hw.guarded hget halive trivial
      obtain ⟨g', hg', hsame, -⟩ := writePid_file w.clock pid object hg
      exact ⟨g', hg', hsame.trans hcreator⟩
  | statGuard now =>
    dsimp only
    split_ifs
    · exact hw.phase hget halive Iff.rfl (fun h => h.elim) trivial
    · exact hw.phase hget halive Iff.rfl (fun h => h.elim) trivial
  | unlinkAbandoned =>
    refine hw.moved hget (fun f hf _ _ => ⟨f, hf, rfl⟩) (fun h => h.elim) ?_
      (fun f hf => hw.content hf) ?_ (fun h => h.elim) (fun _ _ _ _ hold => hold) trivial
    · exact fun f hf => .inr ⟨hw.not_creator hget halive id hf, f, hf, rfl⟩
    · intro g hg _ hlive
      rw [hguard rfl g hg] at hlive
      cases hlive
  | statLock now =>
    dsimp only
    split
    · exact hw.phase hget halive Iff.rfl (fun h => h) trivial
    · exact hw.phase hget halive Iff.rfl (fun h => h) hknows
  | readLock now before =>
    dsimp only
    split
    · exact hw.phase hget halive Iff.rfl (fun h => h) trivial
    · exact hw.phase hget halive Iff.rfl (fun h => h) hknows
  | judging now before holder =>
    dsimp only
    split_ifs with hstale
    · refine hw.phase hget halive Iff.rfl (fun h => h) ?_
      rw [Bool.or_eq_true, decide_eq_true_eq] at hstale
      rcases hstale with hold | hgone
      · exact .inl ⟨hold, hknows⟩
      · exact .inr (by rw [hholder]; exact hgone)
    · exact hw.phase hget halive Iff.rfl (fun h => h) trivial
  | statAgain now before holder =>
    dsimp only
    split_ifs with hsame
    · refine hw.phase hget halive Iff.rfl (fun h => h) ?_
      rcases hknows with ⟨hold, hnow⟩ | hgone
      · -- a file that old is not that of a live process
        refine .inl ?_
        obtain ⟨f, hf, hmtime⟩ := (Option.any_eq_true _ _).1 hsame
        rw [decide_eq_true_eq] at hmtime
        refine ⟨f, hf, ?_⟩
        rw [gone_set hget]
        cases hgone : w.gone f.creator with
        | true => rfl
        | false =>
          have hle := htime f hf hgone
          rw [hmtime.2] at hle
          omega
      · exact .inr (by rw [hholder]; exact hgone)
    · exact hw.phase hget halive Iff.rfl (fun h => h) trivial
  | readAgain now before holder =>
    dsimp only
    split_ifs with hsame
    · refine hw.phase hget halive Iff.rfl (fun h => h) ?_
      rcases hknows with ⟨f, hf, hdead⟩ | hgone
      · exact ⟨f, hf, by rw [gone_set hget]; exact hdead⟩
      · -- the content names the creator, who is gone
        obtain ⟨f, hf, hcontent⟩ := (Option.any_eq_true _ _).1 hsame
        rw [decide_eq_true_eq] at hcontent
        refine ⟨f, hf, ?_⟩
        rw [gone_set hget]
        rcases hw.content hf with hempty | hnamed
        · rw [← hcontent, hempty] at hgone
          cases hgone
        · rw [← hcontent, hnamed] at hgone
          exact hgone
    · exact hw.phase hget halive Iff.rfl (fun h => h) trivial
  | unlinkLock =>
    obtain ⟨f, hf, hdead⟩ := hknows
    refine hw.moved hget ?_ (fun h => h.elim) nofun nofun (fun g hg _ _ => ⟨g, hg, rfl⟩)
      (fun _ => hw.guarded hget halive trivial) ?_ trivial
    · intro g hg _ hlive
      rw [hf] at hg
      obtain rfl := Option.some.inj hg
      rw [hdead] at hlive
      cases hlive
    · intro other q hother hq halive' htakes
      exact absurd (hw.takes_unique hget halive trivial hq halive' htakes) hother
  | unlinkGuard =>
    obtain ⟨g, hg, hcreator⟩ := hw.guarded hget halive trivial
    refine hw.moved hget (fun f hf _ _ => ⟨f, hf, rfl⟩) (fun h => h.elim) ?_
      (fun f hf => hw.content hf) ?_ (fun h => h.elim) (fun _ _ _ _ hold => hold) trivial
    · exact fun f hf => .inr ⟨hw.not_creator hget halive id hf, f, hf, rfl⟩
    · intro g' hg' hother _
      rw [hg] at hg'
      exact absurd (Option.some.inj hg' ▸ hcreator) hother

/-- A step of a process that sets its own record. -/
theorem LockWorld.Sound.start (hw : w.Sound staleMs) {p' : LockProcess}
    (hprocess : ∀ p, w.processes.get pid = some p → p.alive = true ∧ ¬p.phase.Owns)
    (howns : ¬p'.phase.Owns) (htakes : ¬p'.phase.Takes) (halive : p'.alive = true)
    (hknows : p'.phase.Knows staleMs { w with processes := w.processes.set pid p' }) :
    LockWorld.Sound staleMs { w with processes := w.processes.set pid p' } := by
  have hgone : LockWorld.gone { w with processes := w.processes.set pid p' } = w.gone := by
    funext other
    unfold LockWorld.gone
    dsimp only
    rw [OrderedMap.get_set]
    split_ifs with hsame
    · subst hsame
      cases hget : w.processes.get other with
      | none => simp [halive]
      | some p => simp [halive, (hprocess p hget).1]
    · rfl
  refine ⟨?_, ?_, fun {f} hf => hw.content hf, ?_, ?_⟩
  · intro other q hother hq hphase
    rw [OrderedMap.get_set] at hother
    split_ifs at hother
    · obtain rfl := Option.some.inj hother
      exact absurd hphase howns
    · exact hw.owner hother hq hphase
  · intro f hf
    obtain ⟨q, hq, hphase⟩ := hw.creator hf
    have hother : f.creator ≠ pid := by
      intro hsame
      rw [hsame] at hq
      obtain ⟨hlive, hnot⟩ := hprocess q hq
      exact hnot (hphase hlive)
    exact ⟨q, (OrderedMap.get_set _ _ _ _).trans ((if_neg hother).trans hq), hphase⟩
  · intro other q hother hq hphase
    rw [OrderedMap.get_set] at hother
    split_ifs at hother
    · obtain rfl := Option.some.inj hother
      exact absurd hphase htakes
    · exact hw.guarded hother hq hphase
  · intro other q hother hq
    rw [OrderedMap.get_set] at hother
    split_ifs at hother
    · obtain rfl := Option.some.inj hother
      exact hknows
    · refine (hw.knows hother hq).mono (Int.le_refl _) (fun _ h => by rw [hgone]; exact h) ?_
      rintro - ⟨f, hf, hdead⟩
      exact ⟨f, hf, by rw [hgone]; exact hdead⟩

theorem LockWorld.Sound.kill (hw : w.Sound staleMs) :
    LockWorld.Sound staleMs { w with
      processes := w.processes.set pid { p with alive := false } } := by
  have hgone : ∀ other, w.gone other = true → LockWorld.gone { w with
      processes := w.processes.set pid { p with alive := false } } other = true := by
    intro other hdead
    unfold LockWorld.gone at hdead ⊢
    dsimp only
    rw [OrderedMap.get_set]
    split_ifs
    · rfl
    · exact hdead
  have hlive : ∀ {other q}, (w.processes.set pid { p with alive := false }).get other = some q →
      q.alive = true → w.processes.get other = some q := by
    intro other q hother hq
    rw [OrderedMap.get_set] at hother
    split_ifs at hother
    · obtain rfl := Option.some.inj hother
      cases hq
    · exact hother
  refine ⟨fun hother hq hphase => hw.owner (hlive hother hq) hq hphase, ?_,
    fun {f} hf => hw.content hf, fun hother hq hphase => hw.guarded (hlive hother hq) hq hphase, ?_⟩
  · intro f hf
    obtain ⟨q, hq, hphase⟩ := hw.creator hf
    by_cases hsame : f.creator = pid
    · exact ⟨_, (OrderedMap.get_set _ _ _ _).trans (if_pos hsame), fun h => by cases h⟩
    · exact ⟨q, (OrderedMap.get_set _ _ _ _).trans ((if_neg hsame).trans hq), hphase⟩
  · intro other q hother hq
    refine (hw.knows (hlive hother hq) hq).mono (Int.le_refl _) hgone ?_
    rintro - ⟨f, hf, hdead⟩
    exact ⟨f, hf, hgone _ hdead⟩

theorem LockWorld.Sound.step (hw : w.Sound staleMs) (step : LockStep)
    (hrespected : w.Respected staleMs step) : (w.step staleMs step).Sound staleMs := by
  cases step with
  | acquire pid waitMs =>
    unfold LockWorld.step
    dsimp only
    split
    · rename_i hnone
      refine hw.start ?_ (fun h => h) (fun h => h) rfl trivial
      intro p hp
      rw [hnone] at hp
      cases hp
    · rename_i hidle
      refine hw.start ?_ (fun h => h) (fun h => h) rfl trivial
      intro p hp
      obtain rfl := Option.some.inj (hidle.symm.trans hp)
      exact ⟨rfl, fun h => h⟩
    · exact hw
  | advance pid ino =>
    unfold LockWorld.step
    dsimp only
    cases hget : w.processes.get pid with
    | none => exact hw
    | some p =>
      dsimp only
      split_ifs with halive
      · exact hw.advance hget halive hrespected.1 (fun h => hrespected.2 p hget h) ino
      · exact hw
  | touch pid =>
    unfold LockWorld.step
    dsimp only
    split
    · rename_i hget
      exact hw.phase hget rfl Iff.rfl (fun h => h) trivial
    · exact hw
  | release pid =>
    unfold LockWorld.step
    dsimp only
    split
    · rename_i hget
      exact hw.phase hget rfl Iff.rfl (fun h => h) trivial
    · exact hw
  | kill pid =>
    unfold LockWorld.step
    dsimp only
    split
    · exact hw
    · rename_i hget
      exact hw.kill
  | tick ms =>
    refine ⟨hw.owner, hw.creator, hw.content, hw.guarded, fun hget halive => ?_⟩
    refine (hw.knows hget halive).mono ?_ (fun _ h => h) fun _ h => h
    show w.clock ≤ w.clock + (ms : Int)
    omega

theorem LockWorld.sound_init : LockWorld.init.Sound staleMs where
  owner h := by cases h
  creator h := by cases h
  content h := by cases h
  guarded h := by cases h
  knows h := by cases h

theorem LockWorld.sound_run {steps : List LockStep}
    (h : Machine.Along (LockWorld.step staleMs) (LockWorld.Respected staleMs) LockWorld.init steps) :
    (LockWorld.init.run staleMs steps).Sound staleMs :=
  h.invariant (fun w : LockWorld => w.Sound staleMs) (fun _ step hw => hw.step step) sound_init

/-- The lock file of a live process stays, unless that process removes it. -/
theorem LockWorld.Sound.kept (hw : w.Sound staleMs) {f : LockFile} (hf : w.lock = some f)
    (hlive : w.gone f.creator = false) (step : LockStep) :
    (∃ f', (w.step staleMs step).lock = some f' ∧ f'.object = f.object) ∨
      ∃ ino, step = .advance f.creator ino := by
  have hsame : ∀ v : LockWorld, v.lock = w.lock → ∃ f', v.lock = some f' ∧ f'.object = f.object :=
    fun v hv => ⟨f, hv.trans hf, rfl⟩
  cases step with
  | acquire pid waitMs =>
    refine .inl ?_
    unfold LockWorld.step
    dsimp only
    split <;> exact hsame _ rfl
  | touch pid =>
    refine .inl ?_
    unfold LockWorld.step
    dsimp only
    split <;> exact hsame _ rfl
  | release pid =>
    refine .inl ?_
    unfold LockWorld.step
    dsimp only
    split <;> exact hsame _ rfl
  | kill pid =>
    refine .inl ?_
    unfold LockWorld.step
    dsimp only
    split <;> exact hsame _ rfl
  | tick ms => exact .inl (hsame _ rfl)
  | advance pid ino =>
    unfold LockWorld.step
    dsimp only
    split
    · exact .inl (hsame _ rfl)
    rename_i p hget
    split_ifs with halive
    · obtain ⟨alive, deadline, phase⟩ := p
      have halive : alive = true := halive
      subst halive
      unfold LockWorld.advance
      cases phase with
      | creating first =>
        dsimp only
        rw [hf]
        exact .inl ⟨f, rfl, rfl⟩
      | writingPid object =>
        obtain ⟨f', hf', -, hobject, -⟩ := writePid_file w.clock pid object hf
        exact .inl ⟨f', hf', hobject⟩
      | touching time => exact .inl ⟨{ f with mtimeMs := time }, by rw [hf]; rfl, rfl⟩
      | releasing =>
        obtain ⟨g, hg, rfl⟩ := hw.owner hget rfl trivial
        obtain rfl := Option.some.inj (hf.symm.trans hg)
        exact .inr ⟨ino, rfl⟩
      | unlinkLock =>
        obtain ⟨g, hg, hdead⟩ := hw.knows hget rfl
        obtain rfl := Option.some.inj (hf.symm.trans hg)
        rw [hlive] at hdead
        cases hdead
      | creatingGuard now =>
        dsimp only
        split <;> exact .inl (hsame _ rfl)
      | statLock now =>
        dsimp only
        split <;> exact .inl (hsame _ rfl)
      | readLock now before =>
        dsimp only
        split <;> exact .inl (hsame _ rfl)
      | _ => exact .inl (hsame _ rfl)
    · exact .inl (hsame _ rfl)

end Moves

/-! ### Taking over -/

/-- The process is alive and acquired the lock, and has not released it. -/
def LockWorld.Holds (w : LockWorld) (pid : Pid) : Prop :=
  ∃ p, w.processes.get pid = some p ∧ p.alive = true ∧ p.phase.Holds

/-- A process that may start to acquire: one that is idle, or a new one. -/
def LockWorld.MayAcquire (w : LockWorld) (pid : Pid) : Prop :=
  ∀ p, w.processes.get pid = some p → p.alive = true ∧ p.phase = .idle

/-- A step of this process, or of the clock. -/
def LockStep.Of (pid : Pid) : LockStep → Prop
  | .acquire other _ | .advance other _ => other = pid
  | .tick _ => True
  | _ => False

section Takeover

variable {staleMs : Int} {w : LockWorld} {pid : Pid}

theorem LockWorld.step_acquire (h : w.MayAcquire pid) (waitMs : Int) :
    w.step staleMs (.acquire pid waitMs) = { w with
      processes := w.processes.set pid { deadline := w.clock + waitMs, phase := .creating true } } := by
  unfold LockWorld.step
  dsimp only
  split
  · rfl
  · rfl
  · rename_i hnone hidle
    cases hget : w.processes.get pid with
    | none => exact absurd hget hnone
    | some p =>
      obtain ⟨alive, deadline, phase⟩ := p
      obtain ⟨halive, hphase⟩ := h _ hget
      have halive : alive = true := halive
      have hphase : phase = .idle := hphase
      subst halive hphase
      exact absurd hget (hidle deadline)

/-- A live process stands here, with this deadline. -/
def LockWorld.standing (w : LockWorld) (pid : Pid) (deadline : Int) (phase : LockPhase) : LockWorld :=
  { w with processes := w.processes.set pid { deadline, phase } }

theorem LockWorld.standing_advance (w : LockWorld) (pid : Pid) (deadline : Int) (phase : LockPhase)
    (ino : Ino) : (w.standing pid deadline phase).step staleMs (.advance pid ino) =
      (w.standing pid deadline phase).advance staleMs pid { deadline, phase } ino := by
  unfold LockWorld.step LockWorld.standing
  dsimp only
  rw [OrderedMap.get_set_self]
  rfl

/-- A guard that is old enough is removed, in one try without waiting. -/
theorem LockWorld.clear_guard {f g : LockFile} (hidle : w.MayAcquire pid) (hf : w.lock = some f)
    (hg : w.guard = some g) (hold : TAKEOVER_STALE_MS < w.clock - g.mtimeMs) :
    w.run staleMs (.acquire pid 0 :: List.replicate 7 (.advance pid 0)) =
      { w with guard := none }.standing pid w.clock .idle := by
  have hacquire : w.step staleMs (.acquire pid 0) = w.standing pid w.clock (.creating true) := by
    rw [step_acquire hidle, Int.add_zero]
    rfl
  unfold LockWorld.run
  simp only [List.replicate, Machine.run_cons, Machine.run_nil, hacquire, standing_advance]
  simp [LockWorld.advance, LockWorld.standing, LockWorld.step, hf, hg, hold]

/-- A process that finds no guard, and a lock that is old enough, takes the lock over. -/
theorem LockWorld.take_over {f : LockFile} (hidle : w.MayAcquire pid) (hf : w.lock = some f)
    (hg : w.guard = none) (hold : staleMs < w.clock - f.mtimeMs) :
    (w.run staleMs (.acquire pid 0 :: List.replicate 13 (.advance pid 0))).Holds pid := by
  have hacquire : w.step staleMs (.acquire pid 0) = w.standing pid w.clock (.creating true) := by
    rw [step_acquire hidle, Int.add_zero]
    rfl
  refine ⟨{ deadline := w.clock, phase := .holding }, ?_, rfl, trivial⟩
  unfold LockWorld.run
  simp only [List.replicate, Machine.run_cons, Machine.run_nil, hacquire, standing_advance]
  simp [LockWorld.advance, LockWorld.standing, LockWorld.step, LockWorld.newFile, writePid, hf, hg,
    hold]

/-- A process starts to acquire without waiting, and goes on for some steps. -/
def tryOnce (pid : Pid) (n : Nat) : List LockStep := .acquire pid 0 :: List.replicate n (.advance pid 0)

theorem tryOnce_of {n : Nat} {step : LockStep} (h : step ∈ tryOnce pid n) : step.Of pid := by
  unfold tryOnce at h
  rcases List.mem_cons.1 h with rfl | h
  · exact rfl
  · rw [List.eq_of_mem_replicate h]
    exact rfl

theorem LockWorld.run_tick (w : LockWorld) (ms : Nat) (more : List LockStep) :
    w.run staleMs (.tick ms :: more) = { w with clock := w.clock + ms }.run staleMs more := rfl

/-- Once the clock has gone on long enough, a process takes the lock over, in two tries if there is a
guard. -/
theorem LockWorld.exists_takeover {f : LockFile} (hidle : w.MayAcquire pid) (hf : w.lock = some f) :
    ∃ more, (∀ step ∈ more, step.Of pid) ∧ (w.run staleMs more).Holds pid := by
  cases hg : w.guard with
  | none =>
    obtain ⟨ms, hms⟩ : ∃ ms : Nat, staleMs < w.clock + ms - f.mtimeMs :=
      ⟨(staleMs + f.mtimeMs - w.clock + 1).toNat, by omega⟩
    refine ⟨.tick ms :: tryOnce pid 13, ?_, ?_⟩
    · intro step hstep
      rcases List.mem_cons.1 hstep with rfl | hstep
      · trivial
      · exact tryOnce_of hstep
    · rw [run_tick]
      generalize hw' : ({ w with clock := w.clock + ms } : LockWorld) = w'
      have hidle' : w'.MayAcquire pid := by rw [← hw']; exact hidle
      have hf' : w'.lock = some f := by rw [← hw']; exact hf
      have hg' : w'.guard = none := by rw [← hw']; exact hg
      have hold : staleMs < w'.clock - f.mtimeMs := by rw [← hw']; exact hms
      exact take_over hidle' hf' hg' hold
  | some g =>
    obtain ⟨ms, hms, hms'⟩ : ∃ ms : Nat, staleMs < w.clock + ms - f.mtimeMs ∧
        TAKEOVER_STALE_MS < w.clock + ms - g.mtimeMs := by
      refine ⟨(staleMs + f.mtimeMs - w.clock + 1).toNat +
        (TAKEOVER_STALE_MS + g.mtimeMs - w.clock + 1).toNat, ?_, ?_⟩ <;> omega
    refine ⟨.tick ms :: (tryOnce pid 7 ++ tryOnce pid 13), ?_, ?_⟩
    · intro step hstep
      rcases List.mem_cons.1 hstep with rfl | hstep
      · trivial
      · exact (List.mem_append.1 hstep).elim tryOnce_of tryOnce_of
    · rw [run_tick]
      generalize hw' : ({ w with clock := w.clock + ms } : LockWorld) = w'
      have hidle' : w'.MayAcquire pid := by rw [← hw']; exact hidle
      have hf' : w'.lock = some f := by rw [← hw']; exact hf
      have hg' : w'.guard = some g := by rw [← hw']; exact hg
      have hold : staleMs < w'.clock - f.mtimeMs := by rw [← hw']; exact hms
      have hold' : TAKEOVER_STALE_MS < w'.clock - g.mtimeMs := by rw [← hw']; exact hms'
      have hclear := @clear_guard staleMs w' pid f g hidle' hf' hg' hold'
      unfold LockWorld.run at hclear ⊢
      rw [Machine.run_append]
      unfold tryOnce
      rw [hclear]
      have hcleared : ({ w' with guard := none }.standing pid w'.clock .idle).MayAcquire pid := by
        intro p hp
        unfold LockWorld.standing at hp
        rw [OrderedMap.get_set_self] at hp
        obtain rfl := Option.some.inj hp
        exact ⟨rfl, rfl⟩
      exact take_over hcleared hf' rfl hold

end Takeover

/-- While live processes touch their lock files in time and no waiter removes the guard of a live
process: at most one live process has acquired the lock and not released it, and the lock file of a
live process is removed by that process only.  After any run, a lock whose creator was killed can be
taken over by any process that may acquire. -/
theorem lock_excludes (staleMs : Int) (steps : List LockStep) :
    (Machine.Along (LockWorld.step staleMs) (LockWorld.Respected staleMs) LockWorld.init steps →
      (∀ pid other, (LockWorld.init.run staleMs steps).Holds pid →
        (LockWorld.init.run staleMs steps).Holds other → pid = other) ∧
      ∀ first step rest f, steps = first ++ step :: rest →
        (LockWorld.init.run staleMs first).lock = some f →
        (LockWorld.init.run staleMs first).gone f.creator = false →
        (∃ f', ((LockWorld.init.run staleMs first).step staleMs step).lock = some f' ∧
          f'.object = f.object) ∨ ∃ ino, step = .advance f.creator ino) ∧
    ∀ f pid, (LockWorld.init.run staleMs steps).lock = some f →
      (LockWorld.init.run staleMs steps).gone f.creator = true →
      (LockWorld.init.run staleMs steps).MayAcquire pid →
      ∃ more, (∀ step ∈ more, step.Of pid) ∧
        ((LockWorld.init.run staleMs steps).run staleMs more).Holds pid := by
  refine ⟨fun hrespected => ⟨?_, ?_⟩, fun f pid hf _ hidle => LockWorld.exists_takeover hidle hf⟩
  · rintro pid other ⟨p, hp, halive, hphase⟩ ⟨q, hq, halive', hphase'⟩
    have howns : ∀ {phase : LockPhase}, phase.Holds → phase.Owns := by
      intro phase h
      cases phase <;> trivial
    exact (LockWorld.sound_run hrespected).owns_unique hq halive' (howns hphase') hp halive
      (howns hphase)
  · rintro first step rest f rfl hf hlive
    have hfirst := (Machine.Along.append.1 hrespected).1
    exact (LockWorld.sound_run hfirst).kept hf hlive step

/-! ### A takeover that is overtaken -/

namespace Sample

def advances (n : Nat) (pid : Pid) : List LockStep := List.replicate n (.advance pid 0)

/-- A holder is killed. -/
def killedHolder : List LockStep := .acquire 1 5000 :: advances 2 1 ++ [.kill 1]

/-- A waiter finds the holder gone, up to its removal of the lock; it is delayed there. -/
def delayedTakeover : List LockStep := killedHolder ++ .acquire 2 60000 :: advances 9 2

/-- Another waiter gives up the guard, takes the lock over, and the first one goes on. -/
def overtakenTakeover : List LockStep :=
  delayedTakeover ++ .tick 6000 :: .acquire 3 60000 :: advances 6 3 ++ advances 14 3 ++ advances 4 2

/-- The waiter is not delayed. -/
def takenOver : List LockStep := killedHolder ++ .acquire 2 60000 :: advances 13 2

end Sample

/-- The processes of `Sample.overtakenTakeover` hold the lock together. -/
theorem takeover_overtaken :
    (∃ p, (LockWorld.init.run 30000 Sample.overtakenTakeover).processes.get 2 = some p ∧ p.alive = true ∧
      p.phase = .holding) ∧
    ∃ p, (LockWorld.init.run 30000 Sample.overtakenTakeover).processes.get 3 = some p ∧ p.alive = true ∧
      p.phase = .holding :=
  ⟨⟨{ deadline := 60000, phase := .holding }, by decide +kernel⟩,
    ⟨{ deadline := 66000, phase := .holding }, by decide +kernel⟩⟩

/-- A waiter that is not delayed takes the lock over alone. -/
theorem lock_excludes_taken_over :
    (∀ other, (LockWorld.init.run 30000 Sample.takenOver).Holds other → 2 = other) ∧
    ∃ more, (∀ step ∈ more, step.Of 2) ∧
      ((LockWorld.init.run 30000 Sample.killedHolder).run 30000 more).Holds 2 := by
  refine ⟨fun other => ?_, ?_⟩
  · refine ((lock_excludes 30000 Sample.takenOver).1 (by decide +kernel)).1 2 other ?_
    exact ⟨{ deadline := 60000, phase := .holding }, by decide +kernel, rfl, trivial⟩
  · let f : LockFile := { object := 0, ino := 0, mtimeMs := 0, content := some 1, creator := 1 }
    refine (lock_excludes 30000 Sample.killedHolder).2 f 2 (by decide +kernel) (by decide +kernel) ?_
    intro p hp
    have hnone : (LockWorld.init.run 30000 Sample.killedHolder).processes.get 2 = none := by
      decide +kernel
    rw [hnone] at hp
    cases hp

end AgentLcars
