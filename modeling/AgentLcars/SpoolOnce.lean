import AgentLcars.Spool
import Mathlib.Data.List.Induction

/-!
# The spool loses and repeats nothing

While the live file of a size trim is, when the trim replaces it, what the trim had read of it, every
event is settled at most once, events are handed over in append order, and an event that was not
settled is still in a file unless a trim that found the live file too long dropped it as older than
all it kept.

* `Accounts`: the lines that are left, against what was appended, handed over and trimmed.
* `SpoolWorld.Sound`: the invariant; `spool_once`: what holds of a run.
-/

namespace AgentLcars

variable {Event : Type}

/-! ### The lines that are left -/

/-- A trim dropped this append as older than what it kept of a file that was too long. -/
structure SpoolTrim.Dropped (trim : SpoolTrim) (number : Nat) : Prop where
  replaced : ∃ line ∈ trim.replaced, line.number = number
  found : trim.size + jsLength trim.line + 1 > trim.maxBytes
  older : ∀ line ∈ trim.kept, number < line.number

/-- A line that may follow a handover: a later append, or the same one again if it is to be retried. -/
def Handover.Before (h : Handover Event) (number : Nat) : Prop :=
  h.number ≤ number ∧ (h.outcome.settles = true → h.number < number)

/-- What is left of the appended events, oldest first. -/
structure Accounts (env : SpoolEnv Event) (appended : List Event) (handed : List (Handover Event))
    (trims : List SpoolTrim) (left : List SpoolLine) : Prop where
  order : left.Pairwise fun a b => a.number < b.number
  written : ∀ line ∈ left, ∃ event, appended[line.number]? = some event ∧
    line.text = env.stringify event
  inTurn : handed.Pairwise fun a b => a.Before b.number
  events : ∀ h ∈ handed, appended[h.number]? = some h.event
  ahead : ∀ h ∈ handed, ∀ line ∈ left, h.Before line.number
  accounted : ∀ number < appended.length,
    (∃ h ∈ handed, h.outcome.settles = true ∧ h.number = number) ∨
      (∃ line ∈ left, line.number = number) ∨ ∃ trim ∈ trims, trim.Dropped number

section Accounts

variable {env : SpoolEnv Event} {appended : List Event} {handed : List (Handover Event)}
  {trims : List SpoolTrim} {left rest : List SpoolLine} {line : SpoolLine} {event : Event}

theorem accounts_init (env : SpoolEnv Event) : Accounts env [] [] [] [] where
  order := .nil
  written := nofun
  inTurn := .nil
  events := nofun
  ahead := nofun
  accounted := fun number h => absurd h (Nat.not_lt_zero number)

theorem lt_of_getElem? {number : Nat} (h : appended[number]? = some event) :
    number < appended.length := (List.getElem?_eq_some_iff.1 h).1

theorem Accounts.append (h : Accounts env appended handed trims left) (event : Event) :
    Accounts env (appended ++ [event]) handed trims
      (left ++ [{ number := appended.length, text := env.stringify event }]) where
  order := by
    refine List.pairwise_append.2 ⟨h.order, List.pairwise_singleton _ _, ?_⟩
    intro a ha b hb
    obtain rfl := List.mem_singleton.1 hb
    obtain ⟨written, hwritten, -⟩ := h.written a ha
    exact lt_of_getElem? hwritten
  written := by
    intro line hline
    rcases List.mem_append.1 hline with hline | hline
    · obtain ⟨written, hwritten, htext⟩ := h.written line hline
      refine ⟨written, ?_, htext⟩
      rw [List.getElem?_append_left (lt_of_getElem? hwritten)]
      exact hwritten
    · obtain rfl := List.mem_singleton.1 hline
      exact ⟨event, by simp, rfl⟩
  inTurn := h.inTurn
  events := by
    intro given hgiven
    have hevent := h.events given hgiven
    rw [List.getElem?_append_left (lt_of_getElem? hevent)]
    exact hevent
  ahead := by
    intro given hgiven line hline
    rcases List.mem_append.1 hline with hline | hline
    · exact h.ahead given hgiven line hline
    · obtain rfl := List.mem_singleton.1 hline
      have hlt := lt_of_getElem? (h.events given hgiven)
      exact ⟨Nat.le_of_lt hlt, fun _ => hlt⟩
  accounted := by
    intro number hnumber
    rw [List.length_append, List.length_singleton] at hnumber
    rcases Nat.lt_succ_iff_lt_or_eq.1 hnumber with hold | rfl
    · rcases h.accounted number hold with hhanded | ⟨line, hline, hsame⟩ | htrimmed
      · exact .inl hhanded
      · exact .inr (.inl ⟨line, List.mem_append_left _ hline, hsame⟩)
      · exact .inr (.inr htrimmed)
    · exact .inr (.inl ⟨_, List.mem_append_right _ (List.mem_singleton_self _), rfl⟩)

/-- A trim drops lines from the front of the live file. -/
theorem Accounts.trim {waiting older kept : List SpoolLine} {trim : SpoolTrim}
    (h : Accounts env appended handed trims (waiting ++ (older ++ kept)))
    (hreplaced : trim.replaced = older ++ kept) (hkept : trim.kept = kept)
    (hfound : trim.size + jsLength trim.line + 1 > trim.maxBytes) :
    Accounts env appended handed (trims ++ [trim]) (waiting ++ kept) := by
  have hsub : ∀ line ∈ waiting ++ kept, line ∈ waiting ++ (older ++ kept) := by
    intro line hline
    rcases List.mem_append.1 hline with hline | hline
    · exact List.mem_append_left _ hline
    · exact List.mem_append_right _ (List.mem_append_right _ hline)
  refine ⟨?_, fun line hline => h.written line (hsub line hline), h.inTurn, h.events,
    fun given hgiven line hline => h.ahead given hgiven line (hsub line hline), ?_⟩
  · exact h.order.sublist ((List.Sublist.refl _).append (List.sublist_append_right _ _))
  · intro number hnumber
    rcases h.accounted number hnumber with hhanded | ⟨line, hline, rfl⟩ | ⟨other, hother, hdropped⟩
    · exact .inl hhanded
    · rcases List.mem_append.1 hline with hline | hline
      · exact .inr (.inl ⟨line, List.mem_append_left _ hline, rfl⟩)
      rcases List.mem_append.1 hline with holder | hline
      · refine .inr (.inr ⟨trim, List.mem_append_right _ (List.mem_singleton_self _), ?_, hfound, ?_⟩)
        · exact ⟨line, hreplaced ▸ List.mem_append_left _ holder, rfl⟩
        · intro newer hnewer
          have hlive := (List.pairwise_append.1 h.order).2.1
          exact (List.pairwise_append.1 hlive).2.2 line holder newer (hkept ▸ hnewer)
      · exact .inr (.inl ⟨line, List.mem_append_right _ hline, rfl⟩)
    · exact .inr (.inr ⟨other, List.mem_append_left _ hother, hdropped⟩)

/-- The oldest line that is left is handed over. -/
theorem Accounts.hand (h : Accounts env appended handed trims (line :: rest))
    (hevent : env.parse line.text = some event) (outcome : SpoolSendOutcome) :
    Accounts env appended (handed ++ [{ number := line.number, event, outcome }]) trims
      (if outcome.settles then rest else line :: rest) := by
  have hrest : ∀ other ∈ rest, line.number < other.number := (List.pairwise_cons.1 h.order).1
  have hsub : (if outcome.settles then rest else line :: rest).Sublist (line :: rest) := by
    split_ifs
    · exact List.sublist_cons_self _ _
    · exact .refl _
  obtain ⟨written, hwritten, htext⟩ := h.written line List.mem_cons_self
  obtain rfl : event = written := by
    rw [htext, env.parse_stringify] at hevent
    exact (Option.some.inj hevent).symm
  refine ⟨h.order.sublist hsub, fun other hother => h.written other (hsub.subset hother), ?_, ?_, ?_,
    ?_⟩
  · refine List.pairwise_append.2 ⟨h.inTurn, List.pairwise_singleton _ _, ?_⟩
    intro given hgiven last hlast
    obtain rfl := List.mem_singleton.1 hlast
    exact h.ahead given hgiven line List.mem_cons_self
  · intro given hgiven
    rcases List.mem_append.1 hgiven with hgiven | hgiven
    · exact h.events given hgiven
    · obtain rfl := List.mem_singleton.1 hgiven
      exact hwritten
  · intro given hgiven other hother
    rcases List.mem_append.1 hgiven with hgiven | hgiven
    · exact h.ahead given hgiven other (hsub.subset hother)
    · obtain rfl := List.mem_singleton.1 hgiven
      by_cases hsettles : outcome.settles = true
      · rw [if_pos hsettles] at hother
        exact ⟨Nat.le_of_lt (hrest other hother), fun _ => hrest other hother⟩
      · rw [if_neg hsettles] at hother
        refine ⟨?_, fun hsettled => absurd hsettled hsettles⟩
        rcases List.mem_cons.1 hother with rfl | hother
        · exact le_rfl
        · exact Nat.le_of_lt (hrest other hother)
  · intro number hnumber
    rcases h.accounted number hnumber with ⟨given, hgiven, hsettled⟩ | ⟨other, hother, rfl⟩ | htrimmed
    · exact .inl ⟨given, List.mem_append_left _ hgiven, hsettled⟩
    · by_cases hsettles : outcome.settles = true
      · rw [if_pos hsettles]
        rcases List.mem_cons.1 hother with rfl | hother
        · exact .inl ⟨_, List.mem_append_right _ (List.mem_singleton_self _), hsettles, rfl⟩
        · exact .inr (.inl ⟨other, hother, rfl⟩)
      · rw [if_neg hsettles]
        exact .inr (.inl ⟨other, hother, rfl⟩)
    · exact .inr (.inr htrimmed)

end Accounts

/-! ### The invariant -/

/-- What a drain has read of the pending file, and how much of it is settled. -/
def SpoolDrainPhase.read : SpoolDrainPhase → Option (List SpoolLine × Nat)
  | .sending lines index | .writingTemporary lines index | .replacing lines index
  | .unlinking lines index => some (lines, index)
  | _ => none

/-- The lines of the pending file that are not settled. -/
def SpoolWorld.waiting (w : SpoolWorld Event) : List SpoolLine :=
  match w.drain.bind fun d => d.phase.read with
  | some (lines, index) => lines.drop index
  | none => readLines w.pending

/-- What a drain knows. -/
def SpoolDrainPhase.Sound (pending : SpoolFile) : SpoolDrainPhase → Prop
  | .checking | .reading | .returned => True
  | .taking => pending = none
  | .sending lines _ | .writingTemporary lines _ | .replacing lines _ => readLines pending = lines
  | .unlinking lines index => readLines pending = lines ∧ lines.drop index = []

/-- A trim found the file too long, and keeps nothing of it when it removes it. -/
def Appender.Sound (env : SpoolEnv Event) (a : Appender Event) : Prop :=
  match a.phase with
  | .reading size | .writingTemporary size _ | .replacing size _ =>
    size + jsLength (env.stringify a.event) + 1 > a.maxBytes
  | .unlinking size lines => size + jsLength (env.stringify a.event) + 1 > a.maxBytes ∧
      keptLines a.maxBytes (env.stringify a.event) lines = []
  | _ => True

structure SpoolWorld.Sound (env : SpoolEnv Event) (w : SpoolWorld Event) : Prop where
  accounts : Accounts env w.appended w.handed w.trims (w.waiting ++ readLines w.live)
  drain : ∀ {d}, w.drain = some d → d.phase.Sound w.pending
  appenders : ∀ {id a}, w.appenders.get id = some a → a.Sound env

/-- A trim that is about to replace the live file has read what is there. -/
def AppendPhase.Undisturbed (live : SpoolFile) : AppendPhase → Prop
  | .replacing _ lines => live = some lines
  | .unlinking _ lines => live = none ∨ live = some lines
  | _ => True

instance (live : SpoolFile) : ∀ phase : AppendPhase, Decidable (phase.Undisturbed live)
  | .replacing _ lines => inferInstanceAs (Decidable (live = some lines))
  | .unlinking _ lines => inferInstanceAs (Decidable (live = none ∨ live = some lines))
  | .stating | .reading _ | .writingTemporary .. | .appending | .returned => isTrue trivial

/-- No trim replaces a live file that has changed since the trim read it. -/
def SpoolWorld.Undisturbed (w : SpoolWorld Event) : SpoolStep Event → Prop
  | .appender id => ∀ a ∈ w.appenders.get id, a.phase.Undisturbed w.live
  | _ => True

instance (w : SpoolWorld Event) : ∀ step, Decidable (w.Undisturbed step)
  | .appender id =>
    inferInstanceAs (Decidable (∀ a ∈ w.appenders.get id, a.phase.Undisturbed w.live))
  | .append .. | .drain .. | .drainer .. => isTrue trivial

section Steps

variable {env : SpoolEnv Event} {w : SpoolWorld Event}

theorem keepFitting_prefix (maxBytes total : Nat) (lines : List SpoolLine) :
    keepFitting maxBytes total lines <+: lines := by
  induction lines generalizing total with
  | nil => exact List.prefix_rfl
  | cons candidate older ih =>
    unfold keepFitting
    split_ifs
    · exact List.nil_prefix
    · exact List.cons_prefix_cons.2 ⟨rfl, ih _⟩

/-- A trim keeps the newest lines. -/
theorem exists_older (maxBytes : Nat) (line : String) (lines : List SpoolLine) :
    ∃ older, lines = older ++ keptLines maxBytes line lines := by
  have hprefix := keepFitting_prefix maxBytes (jsLength line + 1) lines.reverse
  have hsuffix : keptLines maxBytes line lines <:+ lines := by
    unfold keptLines
    exact List.reverse_prefix.1 (by rwa [List.reverse_reverse])
  obtain ⟨older, hlines⟩ := hsuffix
  exact ⟨older, hlines.symm⟩

/-- What an appender does to the files. -/
theorem Appender.step_sound {a : Appender Event} (hw : w.Sound env) (ha : a.Sound env)
    (hquiet : a.phase.Undisturbed w.live) :
    (a.step env w).2.Sound env ∧ Appender.Sound env { a with phase := (a.step env w).1 } ∧
      (a.step env w).2.appenders = w.appenders := by
  obtain ⟨event, maxBytes, phase⟩ := a
  unfold Appender.step
  cases phase with
  | stating =>
    dsimp only
    split_ifs with hover
    · exact ⟨hw, hover, rfl⟩
    · exact ⟨hw, trivial, rfl⟩
  | reading size =>
    dsimp only
    split_ifs with hkept
    · exact ⟨hw, ⟨ha, hkept⟩, rfl⟩
    · exact ⟨hw, ha, rfl⟩
  | writingTemporary size lines => exact ⟨hw, ha, rfl⟩
  | replacing size lines =>
    refine ⟨⟨?_, hw.drain, hw.appenders⟩, trivial, rfl⟩
    have hlive : w.live = some lines := hquiet
    obtain ⟨older, hlines⟩ := exists_older maxBytes (env.stringify event) lines
    have haccounts := hw.accounts
    have hread : readLines w.live = older ++ keptLines maxBytes (env.stringify event) lines := by
      rw [hlive]
      exact hlines
    rw [hread] at haccounts
    exact haccounts.trim hread rfl ha
  | unlinking size lines =>
    refine ⟨⟨?_, hw.drain, hw.appenders⟩, trivial, rfl⟩
    have haccounts := hw.accounts
    have hread : readLines w.live = readLines w.live ++ [] := (List.append_nil _).symm
    rw [hread] at haccounts
    exact haccounts.trim hread rfl ha.1
  | appending =>
    refine ⟨⟨?_, hw.drain, hw.appenders⟩, trivial, rfl⟩
    have haccounts := hw.accounts.append event
    rw [List.append_assoc] at haccounts
    exact haccounts
  | returned => exact ⟨hw, trivial, rfl⟩

theorem waiting_of_read {d : SpoolDrain} (hd : w.drain = some d) {lines : List SpoolLine} {index : Nat}
    (hread : d.phase.read = some (lines, index)) : w.waiting = lines.drop index := by
  unfold SpoolWorld.waiting
  rw [hd, Option.bind_some, hread]

theorem waiting_of_unread {d : SpoolDrain} (hd : w.drain = some d) (hread : d.phase.read = none) :
    w.waiting = readLines w.pending := by
  unfold SpoolWorld.waiting
  rw [hd, Option.bind_some, hread]

theorem writeBack_read (lines : List SpoolLine) (index : Nat) :
    (writeBack lines index).read = some (lines, index) := by
  unfold writeBack
  split_ifs <;> rfl

theorem writeBack_sound {pending : SpoolFile} {lines : List SpoolLine} (index : Nat)
    (h : readLines pending = lines) : (writeBack lines index).Sound pending := by
  unfold writeBack
  split_ifs with hnone
  · exact ⟨h, hnone⟩
  · exact h

theorem nextRound_sound (d : SpoolDrain) (lines : List SpoolLine) (index : Nat) (pending : SpoolFile) :
    (d.nextRound lines index).phase.Sound pending ∧
      (d.nextRound lines index).phase.read = none := by
  unfold SpoolDrain.nextRound
  dsimp only
  split_ifs <;> exact ⟨trivial, rfl⟩

/-- What a step of the drain has to keep. -/
theorem SpoolWorld.Sound.drained {v : SpoolWorld Event} {d' : SpoolDrain}
    (hw : w.Sound env) (happenders : v.appenders = w.appenders)
    (hsound : d'.phase.Sound v.pending)
    (haccounts : Accounts env v.appended v.handed v.trims
      (SpoolWorld.waiting { v with drain := some d' } ++ readLines v.live)) :
    SpoolWorld.Sound env { v with drain := some d' } where
  accounts := haccounts
  drain h := by
    obtain rfl := Option.some.inj h
    exact hsound
  appenders h := hw.appenders (happenders ▸ h)

/-- What a drain does to the files. -/
theorem SpoolDrain.step_sound {d : SpoolDrain} (hw : w.Sound env) (hd : w.drain = some d)
    (outcome : SpoolSendOutcome) :
    SpoolWorld.Sound env { (d.step env w outcome).2 with
      drain := some (d.step env w outcome).1 } := by
  have haccounts := hw.accounts
  have hphase := hw.drain hd
  obtain ⟨maxEvents, round, sent, dropped, stopped, phase⟩ := d
  -- the phases that only read, or write a temporary file
  have hquiet : ∀ d' : SpoolDrain, d'.phase.Sound w.pending →
      SpoolWorld.waiting { w with drain := some d' } = w.waiting →
      SpoolWorld.Sound env { w with drain := some d' } := by
    intro d' hsound hwaiting
    exact hw.drained rfl hsound (hwaiting.symm ▸ haccounts)
  unfold SpoolDrain.step
  cases phase with
  | checking =>
    have hwaiting := waiting_of_unread hd rfl
    dsimp only
    split_ifs with hpending
    · exact hquiet _ trivial ((waiting_of_unread rfl rfl).trans hwaiting.symm)
    · exact hquiet _ (Option.not_isSome_iff_eq_none.1 hpending)
        ((waiting_of_unread rfl rfl).trans hwaiting.symm)
  | taking =>
    have hwaiting := waiting_of_unread hd rfl
    dsimp only
    split
    · exact hquiet _ trivial ((waiting_of_unread rfl rfl).trans hwaiting.symm)
    · rename_i lines hlive
      refine hw.drained rfl trivial ?_
      rw [hwaiting, show w.pending = none from hphase, hlive] at haccounts
      rw [waiting_of_unread rfl rfl]
      exact (List.append_nil lines).symm ▸ haccounts
  | reading =>
    have hwaiting := waiting_of_unread hd rfl
    have hread : SpoolWorld.waiting { w with
        drain := some ⟨maxEvents, round, sent, dropped, stopped,
          .sending (readLines w.pending) 0⟩ } = (readLines w.pending).drop 0 :=
      waiting_of_read rfl rfl
    exact hquiet _ rfl (hread.trans hwaiting.symm)
  | sending lines index =>
    have hwaiting : w.waiting = lines.drop index := waiting_of_read hd rfl
    have hlines : readLines w.pending = lines := hphase
    have hback : ∀ d' : SpoolDrain, d'.phase = writeBack lines index →
        SpoolWorld.Sound env { w with drain := some d' } := by
      intro d' hd'
      refine hquiet d' (hd' ▸ writeBack_sound index hlines) ?_
      exact (waiting_of_read rfl (hd' ▸ writeBack_read lines index)).trans hwaiting.symm
    dsimp only
    split
    · exact hback _ rfl
    rename_i line hline
    obtain ⟨hindex, rfl⟩ := List.getElem?_eq_some_iff.1 hline
    rw [hwaiting, List.drop_eq_getElem_cons hindex, List.cons_append] at haccounts
    split_ifs
    · split
      · -- an appended event can be parsed
        rename_i hparse
        obtain ⟨event, -, htext⟩ := haccounts.written _ List.mem_cons_self
        rw [htext, env.parse_stringify] at hparse
        cases hparse
      · rename_i event hparse
        have hhand := haccounts.hand hparse outcome
        cases outcome with
        | retry =>
          refine hw.drained rfl (writeBack_sound index hlines) ?_
          rw [waiting_of_read rfl (writeBack_read lines index), List.drop_eq_getElem_cons hindex]
          exact hhand
        | sent => exact hw.drained rfl hlines hhand
        | drop => exact hw.drained rfl hlines hhand
    · exact hback _ rfl
  | writingTemporary lines index =>
    exact hquiet _ hphase ((waiting_of_read rfl rfl).trans (waiting_of_read hd rfl).symm)
  | replacing lines index =>
    obtain ⟨hsound, hread⟩ := nextRound_sound ⟨maxEvents, round, sent, dropped, stopped,
      .replacing lines index⟩ lines index (some (lines.drop index))
    refine hw.drained rfl hsound ?_
    rw [waiting_of_unread rfl hread]
    rw [waiting_of_read hd rfl] at haccounts
    exact haccounts
  | unlinking lines index =>
    obtain ⟨hsound, hread⟩ := nextRound_sound ⟨maxEvents, round, sent, dropped, stopped,
      .unlinking lines index⟩ lines index none
    refine hw.drained rfl hsound ?_
    rw [waiting_of_unread rfl hread]
    rw [waiting_of_read hd rfl, show lines.drop index = [] from hphase.2] at haccounts
    exact haccounts
  | returned =>
    have hwaiting := waiting_of_unread hd rfl
    exact hquiet _ trivial ((waiting_of_unread rfl rfl).trans hwaiting.symm)

theorem SpoolWorld.Sound.step (hw : w.Sound env) (step : SpoolStep Event)
    (hquiet : w.Undisturbed step) : (w.step env step).Sound env := by
  cases step with
  | append id event maxBytes =>
    unfold SpoolWorld.step
    dsimp only
    split_ifs
    · exact hw
    refine ⟨hw.accounts, hw.drain, ?_⟩
    intro other a ha
    rw [OrderedMap.get_set] at ha
    split_ifs at ha
    · obtain rfl := Option.some.inj ha
      trivial
    · exact hw.appenders ha
  | appender id =>
    unfold SpoolWorld.step
    dsimp only
    split
    · exact hw
    rename_i a hget
    obtain ⟨hsound, ha, happenders⟩ := a.step_sound hw (hw.appenders hget) (hquiet a hget)
    refine ⟨hsound.accounts, hsound.drain, ?_⟩
    intro other b hb
    rw [OrderedMap.get_set] at hb
    split_ifs at hb
    · obtain rfl := Option.some.inj hb
      exact ha
    · exact hsound.appenders hb
  | drain maxEvents =>
    unfold SpoolWorld.step
    dsimp only
    split_ifs with hbusy
    · exact hw
    refine hw.drained rfl trivial ?_
    have hwaiting : w.waiting = readLines w.pending := by
      unfold SpoolWorld.waiting
      cases hd : w.drain with
      | none => rfl
      | some d =>
        have hreturned : d.phase = .returned := by simpa [SpoolWorld.draining, hd] using hbusy
        rw [Option.bind_some, hreturned]
        rfl
    have haccounts := hw.accounts
    rw [hwaiting] at haccounts
    exact haccounts
  | drainer outcome =>
    unfold SpoolWorld.step
    dsimp only
    split
    · exact hw
    · rename_i d hd
      exact SpoolDrain.step_sound hw hd outcome

theorem SpoolWorld.sound_run {steps : List (SpoolStep Event)}
    (h : Machine.Along (SpoolWorld.step env) SpoolWorld.Undisturbed SpoolWorld.init steps) :
    (SpoolWorld.init.run env steps).Sound env := by
  refine h.invariant (fun w : SpoolWorld Event => w.Sound env) (fun w step hw => hw.step step) ?_
  exact ⟨accounts_init env, nofun, nofun⟩

end Steps

/-- While no trim replaces a live file that has changed since the trim read it: an appended event is
handed over with outcome `sent` or `drop` at most once, events are handed over in the order of their
appends, and an event that was not handed over so is in the pending or the live file, unless a trim
that found the live file too long dropped it as older than all it kept. -/
theorem spool_once (env : SpoolEnv Event) (steps : List (SpoolStep Event))
    (hquiet : Machine.Along (SpoolWorld.step env) SpoolWorld.Undisturbed SpoolWorld.init steps) :
    let w := SpoolWorld.init.run env steps
    ((w.handed.filter (·.outcome.settles)).map (·.number)).Nodup ∧
      (w.handed.map (·.number)).Pairwise (· ≤ ·) ∧
      (∀ h ∈ w.handed, w.appended[h.number]? = some h.event) ∧
      ∀ number event, w.appended[number]? = some event →
        (∀ h ∈ w.handed, h.outcome.settles = true → h.number ≠ number) →
        (∃ line ∈ readLines w.pending ++ readLines w.live, line.number = number ∧
          line.text = env.stringify event) ∨ ∃ trim ∈ w.trims, trim.Dropped number := by
  have hw := SpoolWorld.sound_run hquiet
  refine ⟨?_, ?_, hw.accounts.events, ?_⟩
  · refine List.pairwise_map.2 (List.pairwise_filter.2 (hw.accounts.inTurn.imp ?_))
    intro a b hbefore ha _
    exact Nat.ne_of_lt (hbefore.2 ha)
  · exact List.pairwise_map.2 (hw.accounts.inTurn.imp fun hbefore => hbefore.1)
  · intro number event hevent hunsettled
    rcases hw.accounts.accounted number (lt_of_getElem? hevent) with
      ⟨h, hmem, hsettles, hsame⟩ | ⟨line, hline, rfl⟩ | htrimmed
    · exact absurd hsame (hunsettled h hmem hsettles)
    · refine .inl ⟨line, ?_, rfl, ?_⟩
      · rcases List.mem_append.1 hline with hwaiting | hlive
        · refine List.mem_append_left _ ?_
          unfold SpoolWorld.waiting at hwaiting
          split at hwaiting
          · rename_i lines index hread
            obtain ⟨d, hd, hread⟩ := Option.bind_eq_some_iff.1 hread
            have hphase := hw.drain hd
            have hlines : readLines (SpoolWorld.init.run env steps).pending = lines := by
              unfold SpoolDrainPhase.read at hread
              split at hread <;> cases hread <;> rename_i hd' <;> rw [hd'] at hphase
              · exact hphase
              · exact hphase
              · exact hphase
              · exact hphase.1
            rw [hlines]
            exact List.mem_of_mem_drop hwaiting
          · exact hwaiting
        · exact List.mem_append_right _ hlive
      · obtain ⟨written, hwritten, htext⟩ := hw.accounts.written line hline
        rw [htext, Option.some.inj (hwritten.symm.trans hevent)]
    · exact .inr htrimmed

/-! ### Trims that race -/

namespace Sample

def spoolEnv : SpoolEnv Bool where
  stringify event := if event then "true" else "false"
  parse text := if text = "true" then some true else if text = "false" then some false else none
  parse_stringify := by decide

/-- An append that finds room: two file operations. -/
def plainAppend (id : Nat) (event : Bool) : List (SpoolStep Bool) :=
  [.append id event 100, .appender id, .appender id]

/-- Two events, and an append that trims the older of them, up to its temporary file. -/
def trimming : List (SpoolStep Bool) :=
  plainAppend 0 true ++ plainAppend 1 false ++
    [.append 2 true 12, .appender 2, .appender 2, .appender 2]

/-- Another append lands before the trim replaces the live file. -/
def lostAppend : List (SpoolStep Bool) :=
  trimming ++ plainAppend 3 false ++ [.appender 2, .appender 2]

/-- A drain takes the live file before the trim replaces it. -/
def repeatedEvent : List (SpoolStep Bool) :=
  trimming ++ [.drain 20, .drainer .sent, .drainer .sent] ++ [.appender 2, .appender 2] ++
    List.replicate 10 (.drainer .sent)

/-- The trim comes to its end, and a drain settles what it left. -/
def trimmedSpool : List (SpoolStep Bool) :=
  trimming ++ [.appender 2, .appender 2, .drain 20] ++ List.replicate 6 (.drainer .sent)

end Sample

/-- An event can get lost that is newer than what a trim kept, and one can be sent twice. -/
theorem spool_races :
    ((SpoolWorld.init.run Sample.spoolEnv Sample.lostAppend).appended[2]? = some false ∧
      (SpoolWorld.init.run Sample.spoolEnv Sample.lostAppend).handed.length = 0 ∧
      (∀ line ∈ readLines (SpoolWorld.init.run Sample.spoolEnv Sample.lostAppend).pending ++
        readLines (SpoolWorld.init.run Sample.spoolEnv Sample.lostAppend).live, line.number ≠ 2) ∧
      ∀ trim ∈ (SpoolWorld.init.run Sample.spoolEnv Sample.lostAppend).trims, ¬trim.Dropped 2) ∧
    (((SpoolWorld.init.run Sample.spoolEnv Sample.repeatedEvent).handed.filter
      (·.outcome.settles)).map (·.number)) = [0, 1, 1, 2] := by
  have hkept : ∀ trim ∈ (SpoolWorld.init.run Sample.spoolEnv Sample.lostAppend).trims,
      ∃ line ∈ trim.kept, ¬2 < line.number := by
    decide +kernel
  refine ⟨⟨by decide +kernel, by decide +kernel, by decide +kernel, ?_⟩, by decide +kernel⟩
  intro trim htrim hdropped
  obtain ⟨line, hline, hold⟩ := hkept trim htrim
  exact hold (hdropped.older line hline)

theorem spool_once_trimmed :
    (((SpoolWorld.init.run Sample.spoolEnv Sample.trimmedSpool).handed.filter
      (·.outcome.settles)).map (·.number)).Nodup ∧
    ∃ trim ∈ (SpoolWorld.init.run Sample.spoolEnv Sample.trimmedSpool).trims, trim.Dropped 0 := by
  have hquiet : Machine.Along (SpoolWorld.step Sample.spoolEnv) SpoolWorld.Undisturbed
      SpoolWorld.init Sample.trimmedSpool := by
    decide +kernel
  obtain ⟨hnodup, -, -, hfound⟩ := spool_once Sample.spoolEnv Sample.trimmedSpool hquiet
  have hunsettled : ∀ h ∈ (SpoolWorld.init.run Sample.spoolEnv Sample.trimmedSpool).handed,
      h.outcome.settles = true → h.number ≠ 0 := by
    decide +kernel
  have hgone : ¬∃ line ∈ readLines (SpoolWorld.init.run Sample.spoolEnv Sample.trimmedSpool).pending ++
      readLines (SpoolWorld.init.run Sample.spoolEnv Sample.trimmedSpool).live,
      line.number = 0 ∧ line.text = Sample.spoolEnv.stringify true := by
    decide +kernel
  exact ⟨hnodup, (hfound 0 true (by decide +kernel) hunsettled).resolve_left hgone⟩

end AgentLcars
