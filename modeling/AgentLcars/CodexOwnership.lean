import AgentLcars.CodexAdapter
import AgentLcars.Lib.Runs
import Mathlib.Data.List.Induction

/-!
# Who owns a Codex session

Every pull request that a code-mode call adds is justified by a chain of calls and outputs.

* `CommandAsked` is the first call, `Continues` what may stand between its output and the last one;
* `CodexState.Sound` says that what the adapter follows has its chain; `Sound.step` keeps it;
* `publications_justified` is the result for every rollout, `named_session_credited` a session that
  an output named which the adapter did not follow.
-/

namespace AgentLcars

/-! ### Chains -/

/-- The first call of this id is a command with so many identity reads, and has no output yet. -/
def CommandAsked (past : List CodexEvent) (id : String) (identityReads : Nat) : Prop :=
  ∃ before later, past = before ++ .call id (.command (some identityReads)) :: later ∧
    (∀ c, .call id c ∉ before) ∧ (∀ c, .call id c ∉ later) ∧ ∀ result, .output id result ∉ later

/-- A call that may do something to a session other than poll it in turn: it may be any program, or
it names the session. -/
def CodexCall.Disturbs (session : String) : CodexCall → Prop
  | .poll named | .input named => named = session
  | .other unknown named => unknown = true ∨ named = some session
  | .command _ | .stray => False

/-- A line that leaves a session alone, whose poll may be outstanding: no call with a repeated id,
none that disturbs the session, and not the output of the poll. -/
def Quiet (session : String) (past : List CodexEvent) (outstanding : Option String) :
    CodexEvent → Prop
  | .call id c => (∀ c', .call id c' ∉ past) ∧ ¬ c.Disturbs session
  | .output id _ => outstanding ≠ some id

/-- After `before` and these further lines the session is still running: all its polls were answered
in turn, or one is outstanding. -/
inductive Continues (session : String) (before : List CodexEvent) :
    List CodexEvent → Option String → Prop
  | named : Continues session before [] none
  | quiet {lines outstanding e} (running : Continues session before lines outstanding)
      (quiet : Quiet session (before ++ lines) outstanding e) :
      Continues session before (lines ++ [e]) outstanding
  | poll {lines id} (running : Continues session before lines none)
      (fresh : ∀ c, .call id c ∉ before ++ lines) :
      Continues session before (lines ++ [.call id (.poll session)]) (some id)
  | answered {lines id result} (running : Continues session before lines (some id))
      (going : result.exitCode = none ∧ result.sessionId = some session) :
      Continues session before (lines ++ [.output id (some result)]) none

/-- A session that the adapter has not seen. -/
def Unseen (before : List CodexEvent) (session : String) : Prop :=
  session ∉ (codexAfter before).seenExecs

/-- A session that no output named. -/
def Unnamed (before : List CodexEvent) (session : String) : Prop :=
  ∀ id result, .output id (some result) ∈ before → result.sessionId ≠ some session

/-- A command was asked for, its first output named a fresh running session, and the session is still
running. -/
def Running (Fresh : List CodexEvent → String → Prop) (past : List CodexEvent) (session : String)
    (identityReads : Nat) (outstanding : Option String) : Prop :=
  ∃ root first before lines, past = before ++ .output root (some first) :: lines ∧
    CommandAsked before root identityReads ∧ first.exitCode = none ∧ first.sessionId = some session ∧
    Fresh before session ∧
    Continues session (before ++ [.output root (some first)]) lines outstanding

/-- An output that ends a command or the poll of its session adds this pull request. -/
def Justified (Fresh : List CodexEvent → String → Prop) (past : List CodexEvent) (id : String)
    (result : CodexExecResult) (pr : QualifiedSessionPR) : Prop :=
  result.exitCode = some "0" ∧ ∃ identityReads,
    codeModePublishedPR result.output identityReads = some pr ∧
    (CommandAsked past id identityReads ∧ result.sessionId = none ∨
      ∃ session, Running Fresh past session identityReads (some id) ∧
        result.sessionId.all (· = session))

theorem CommandAsked.extend {past : List CodexEvent} {id : String} {identityReads : Nat}
    (h : CommandAsked past id identityReads) {e : CodexEvent} (hcall : ∀ c, e ≠ .call id c)
    (houtput : ∀ result, e ≠ .output id result) : CommandAsked (past ++ [e]) id identityReads := by
  obtain ⟨before, later, rfl, hbefore, hlater, houtputs⟩ := h
  refine ⟨before, later ++ [e], by simp, hbefore, ?_, ?_⟩
  · intro c hmem
    rcases List.mem_append.mp hmem with hmem | hmem
    · exact hlater c hmem
    · exact hcall c (List.mem_singleton.mp hmem).symm
  · intro result hmem
    rcases List.mem_append.mp hmem with hmem | hmem
    · exact houtputs result hmem
    · exact houtput result (List.mem_singleton.mp hmem).symm

/-- One line more, if the chain goes on with it. -/
theorem Running.extend {past : List CodexEvent} {session : String} {identityReads : Nat}
    {outstanding outstanding' : Option String} {e : CodexEvent}
    (h : Running Unseen past session identityReads outstanding)
    (hnext : ∀ before lines, past = before ++ lines → Continues session before lines outstanding →
      Continues session before (lines ++ [e]) outstanding') :
    Running Unseen (past ++ [e]) session identityReads outstanding' := by
  obtain ⟨root, first, before, lines, rfl, hasked, hexit, hsession, hfresh, hrunning⟩ := h
  exact ⟨root, first, before, lines ++ [e], by simp, hasked, hexit, hsession, hfresh,
    hnext _ _ (by simp) hrunning⟩

theorem Running.quiet {past : List CodexEvent} {session : String} {identityReads : Nat}
    {outstanding : Option String} {e : CodexEvent}
    (h : Running Unseen past session identityReads outstanding)
    (hquiet : Quiet session past outstanding e) :
    Running Unseen (past ++ [e]) session identityReads outstanding :=
  h.extend fun _ _ hpast running => running.quiet (hpast ▸ hquiet)

namespace CodexState

/-! ### Giving sessions up -/

/-- `invalidateExec` of several sessions. -/
def invalidateAll (s : CodexState) (sessions : List String) : CodexState :=
  sessions.foldl invalidateExec s

variable (s : CodexState) (sessions : List String)

@[simp] theorem invalidateAll_seenCalls : (s.invalidateAll sessions).seenCalls = s.seenCalls := by
  induction sessions generalizing s with
  | nil => rfl
  | cons session rest ih => exact (ih (s.invalidateExec session)).trans rfl

@[simp] theorem invalidateAll_codeCalls : (s.invalidateAll sessions).codeCalls = s.codeCalls := by
  induction sessions generalizing s with
  | nil => rfl
  | cons session rest ih => exact (ih (s.invalidateExec session)).trans rfl

theorem mem_invalidateAll_invalidExecs (session : String) :
    session ∈ (s.invalidateAll sessions).invalidExecs ↔
      session ∈ sessions ∨ session ∈ s.invalidExecs := by
  induction sessions generalizing s with
  | nil => simp [invalidateAll]
  | cons first rest ih =>
    show session ∈ ((s.invalidateExec first).invalidateAll rest).invalidExecs ↔ _
    rw [ih]
    simp only [invalidateExec, List.mem_cons]
    tauto

theorem mem_invalidateAll_seenExecs (session : String) :
    session ∈ (s.invalidateAll sessions).seenExecs ↔
      session ∈ sessions ∨ session ∈ s.seenExecs := by
  induction sessions generalizing s with
  | nil => simp [invalidateAll]
  | cons first rest ih =>
    show session ∈ ((s.invalidateExec first).invalidateAll rest).seenExecs ↔ _
    rw [ih]
    simp only [invalidateExec, List.mem_cons]
    tauto

theorem get_invalidateAll_pendingExecs (session : String) :
    (s.invalidateAll sessions).pendingExecs.get session =
      if session ∈ sessions then none else s.pendingExecs.get session := by
  induction sessions generalizing s with
  | nil => simp [invalidateAll]
  | cons first rest ih =>
    show ((s.invalidateExec first).invalidateAll rest).pendingExecs.get session = _
    rw [ih]
    simp only [invalidateExec, OrderedMap.get_erase, List.mem_cons]
    by_cases hrest : session ∈ rest
    · simp [hrest]
    · by_cases hfirst : session = first <;> simp [hrest, hfirst]

theorem seen_of_invalidateAll (hinvalid : ∀ session, session ∈ s.invalidExecs → session ∈ s.seenExecs)
    (session : String)
    (h : session ∈ s.seenExecs ∨ session ∈ (s.invalidateAll sessions).invalidExecs) :
    session ∈ (s.invalidateAll sessions).seenExecs := by
  rw [mem_invalidateAll_seenExecs]
  rcases h with h | h
  · exact .inr h
  · exact ((mem_invalidateAll_invalidExecs s sessions session).mp h).imp_right (hinvalid session)

theorem get_of_invalidateAll (session : String) (owned : CodexPublication)
    (h : (s.invalidateAll sessions).pendingExecs.get session = some owned) :
    s.pendingExecs.get session = some owned := by
  rw [get_invalidateAll_pendingExecs] at h
  split_ifs at h
  exact h

/-- The sessions that are running, or polled. -/
def followed : List String :=
  s.pendingExecs.entries.map Prod.fst ++ s.codeCalls.values.filterMap CodexPublication.sessionId

theorem invalidatePendingExecs_eq : s.invalidatePendingExecs = s.invalidateAll s.followed := by
  simp [invalidatePendingExecs, invalidateAll, followed, List.foldl_append]

theorem mem_followed_of_pending {session : String} {owned : CodexPublication}
    (h : s.pendingExecs.get session = some owned) : session ∈ s.followed := by
  refine List.mem_append_left _ (List.mem_map.mpr ⟨(session, owned), ?_, rfl⟩)
  exact (OrderedMap.getEntry_eq_some_iff _ s.pendingExecs.nodup _ _).mp h

theorem mem_followed_of_call {id session : String} {owned : CodexPublication}
    (h : s.codeCalls.get id = some owned) (hsession : owned.sessionId = some session) :
    session ∈ s.followed :=
  List.mem_append_right _ (List.mem_filterMap.mpr
    ⟨owned, (s.codeCalls.mem_values_iff owned).mpr ⟨id, h⟩, hsession⟩)

/-! ### The invariant -/

/-- What the adapter follows after these lines has its chain. -/
structure Sound (past : List CodexEvent) (s : CodexState) : Prop where
  calls : ∀ id c, .call id c ∈ past → id ∈ s.seenCalls
  invalid_seen : ∀ session ∈ s.invalidExecs, session ∈ s.seenExecs
  call_seen : ∀ id owned, s.codeCalls.get id = some owned → id ∈ s.seenCalls ∧
    ∀ session, owned.sessionId = some session → session ∈ s.seenExecs
  pending_seen : ∀ session owned, s.pendingExecs.get session = some owned →
    owned.sessionId = some session ∧ session ∈ s.seenExecs
  alone : ∀ session owned, s.pendingExecs.get session = some owned →
    ∀ id owned', s.codeCalls.get id = some owned' → owned'.sessionId ≠ some session
  single : ∀ id owned id' owned' session, s.codeCalls.get id = some owned →
    s.codeCalls.get id' = some owned' → owned.sessionId = some session →
    owned'.sessionId = some session → id = id'
  asked : ∀ id owned identityReads, s.codeCalls.get id = some owned → owned.sessionId = none →
    owned.identityReads = some identityReads → CommandAsked past id identityReads
  polled : ∀ id owned session identityReads, s.codeCalls.get id = some owned →
    owned.sessionId = some session → session ∉ s.invalidExecs →
    owned.identityReads = some identityReads → Running Unseen past session identityReads (some id)
  pending : ∀ session owned identityReads, s.pendingExecs.get session = some owned →
    owned.identityReads = some identityReads → Running Unseen past session identityReads none

theorem sound_init : Sound [] {} := by
  refine ⟨?_, ?_, ?_, ?_, ?_, ?_, ?_, ?_, ?_⟩ <;> simp

variable {past : List CodexEvent} {s s' : CodexState}

/-- The adapter may follow less, and give more up. -/
theorem Sound.shrink (h : Sound past s) (hcalls : s'.seenCalls = s.seenCalls)
    (hinvalid : ∀ session, session ∈ s.invalidExecs → session ∈ s'.invalidExecs)
    (hseen : ∀ session, session ∈ s.seenExecs ∨ session ∈ s'.invalidExecs → session ∈ s'.seenExecs)
    (hcodes : ∀ id owned, s'.codeCalls.get id = some owned → s.codeCalls.get id = some owned)
    (hpending : ∀ session owned, s'.pendingExecs.get session = some owned →
      s.pendingExecs.get session = some owned) : Sound past s' := by
  refine ⟨?_, fun session hmem => hseen session (.inr hmem), ?_, ?_, ?_, ?_, ?_, ?_, ?_⟩
  · intro id c hmem
    rw [hcalls]
    exact h.calls id c hmem
  · intro id owned hget
    rw [hcalls]
    obtain ⟨hid, hsession⟩ := h.call_seen id owned (hcodes id owned hget)
    exact ⟨hid, fun session heq => hseen session (.inl (hsession session heq))⟩
  · intro session owned hget
    obtain ⟨hsession, hmem⟩ := h.pending_seen session owned (hpending session owned hget)
    exact ⟨hsession, hseen session (.inl hmem)⟩
  · intro session owned hget id owned' hget'
    exact h.alone session owned (hpending session owned hget) id owned' (hcodes id owned' hget')
  · intro id owned id' owned' session hget hget'
    exact h.single id owned id' owned' session (hcodes id owned hget) (hcodes id' owned' hget')
  · intro id owned identityReads hget
    exact h.asked id owned identityReads (hcodes id owned hget)
  · intro id owned session identityReads hget hsession hvalid
    exact h.polled id owned session identityReads (hcodes id owned hget) hsession
      fun hmem => hvalid (hinvalid session hmem)
  · intro session owned identityReads hget
    exact h.pending session owned identityReads (hpending session owned hget)

/-- A line that leaves alone what the adapter follows. -/
theorem Sound.line (h : Sound past s) {e : CodexEvent} {seenCalls : List String}
    (hcalls : ∀ id, id ∈ s.seenCalls ∨ (∃ c, e = .call id c) → id ∈ seenCalls)
    (hasked : ∀ id owned, s.codeCalls.get id = some owned →
      (∀ c, e ≠ .call id c) ∧ ∀ result, e ≠ .output id result)
    (hpolled : ∀ id owned session, s.codeCalls.get id = some owned →
      owned.sessionId = some session → session ∉ s.invalidExecs → Quiet session past (some id) e)
    (hpending : ∀ session owned, s.pendingExecs.get session = some owned →
      Quiet session past none e) : Sound (past ++ [e]) { s with seenCalls } := by
  refine ⟨?_, h.invalid_seen, ?_, h.pending_seen, h.alone, h.single, ?_, ?_, ?_⟩
  · intro id c hmem
    rcases List.mem_append.mp hmem with hmem | hmem
    · exact hcalls id (.inl (h.calls id c hmem))
    · exact hcalls id (.inr ⟨c, (List.mem_singleton.mp hmem).symm⟩)
  · intro id owned hget
    obtain ⟨hid, hsession⟩ := h.call_seen id owned hget
    exact ⟨hcalls id (.inl hid), hsession⟩
  · intro id owned identityReads hget hsession hreads
    obtain ⟨hcall, houtput⟩ := hasked id owned hget
    exact (h.asked id owned identityReads hget hsession hreads).extend hcall houtput
  · intro id owned session identityReads hget hsession hvalid hreads
    exact (h.polled id owned session identityReads hget hsession hvalid hreads).quiet
      (hpolled id owned session hget hsession hvalid)
  · intro session owned identityReads hget hreads
    exact (h.pending session owned identityReads hget hreads).quiet (hpending session owned hget)

/-- A call that is followed from now on. -/
theorem Sound.setCall (h : Sound past s) {id : String} {owned : CodexPublication}
    (hid : id ∈ s.seenCalls)
    (hasked : owned.sessionId = none → ∀ identityReads, owned.identityReads = some identityReads →
      CommandAsked past id identityReads)
    (hpolled : ∀ session, owned.sessionId = some session → session ∈ s.seenExecs ∧
      s.pendingExecs.get session = none ∧
      (∀ id' owned', s.codeCalls.get id' = some owned' → owned'.sessionId ≠ some session) ∧
      ∀ identityReads, owned.identityReads = some identityReads →
        Running Unseen past session identityReads (some id)) :
    Sound past { s with codeCalls := s.codeCalls.set id owned } := by
  refine ⟨h.calls, h.invalid_seen, ?_, h.pending_seen, ?_, ?_, ?_, ?_, h.pending⟩
  · intro id' owned' hget
    rw [OrderedMap.get_set] at hget
    split_ifs at hget with hkey
    · obtain rfl := Option.some.inj hget
      exact ⟨hkey ▸ hid, fun session heq => (hpolled session heq).1⟩
    · exact h.call_seen id' owned' hget
  · intro session pending hpending id' owned' hget hsession
    rw [OrderedMap.get_set] at hget
    split_ifs at hget with hkey
    · obtain rfl := Option.some.inj hget
      rw [(hpolled session hsession).2.1] at hpending
      cases hpending
    · exact h.alone session pending hpending id' owned' hget hsession
  · intro id₁ owned₁ id₂ owned₂ session hget₁ hget₂ hsession₁ hsession₂
    rw [OrderedMap.get_set] at hget₁ hget₂
    split_ifs at hget₁ hget₂ with hkey₁ hkey₂ hkey₂
    · rw [hkey₁, hkey₂]
    · obtain rfl := Option.some.inj hget₁
      exact absurd hsession₂ ((hpolled session hsession₁).2.2.1 id₂ owned₂ hget₂)
    · obtain rfl := Option.some.inj hget₂
      exact absurd hsession₁ ((hpolled session hsession₂).2.2.1 id₁ owned₁ hget₁)
    · exact h.single id₁ owned₁ id₂ owned₂ session hget₁ hget₂ hsession₁ hsession₂
  · intro id' owned' identityReads hget hsession hreads
    rw [OrderedMap.get_set] at hget
    split_ifs at hget with hkey
    · obtain rfl := Option.some.inj hget
      exact hkey ▸ hasked hsession identityReads hreads
    · exact h.asked id' owned' identityReads hget hsession hreads
  · intro id' owned' session identityReads hget hsession hvalid hreads
    rw [OrderedMap.get_set] at hget
    split_ifs at hget with hkey
    · obtain rfl := Option.some.inj hget
      exact hkey ▸ (hpolled session hsession).2.2.2 identityReads hreads
    · exact h.polled id' owned' session identityReads hget hsession hvalid hreads

/-- A session that runs from now on. -/
theorem Sound.setPending (h : Sound past s) {session : String} {owned : CodexPublication}
    (hcodes : ∀ id owned', s.codeCalls.get id = some owned' → owned'.sessionId ≠ some session)
    (hrunning : ∀ identityReads, owned.identityReads = some identityReads →
      Running Unseen past session identityReads none) :
    Sound past { s with
      seenExecs := session :: s.seenExecs
      pendingExecs := s.pendingExecs.set session { owned with sessionId := some session } } := by
  refine ⟨h.calls, ?_, ?_, ?_, ?_, h.single, h.asked, h.polled, ?_⟩
  · exact fun other hmem => List.mem_cons_of_mem _ (h.invalid_seen other hmem)
  · intro id owned' hget
    obtain ⟨hid, hseen⟩ := h.call_seen id owned' hget
    exact ⟨hid, fun other heq => List.mem_cons_of_mem _ (hseen other heq)⟩
  · intro other found hget
    rw [OrderedMap.get_set] at hget
    split_ifs at hget with hkey
    · obtain rfl := Option.some.inj hget
      exact ⟨by rw [hkey], by rw [hkey]; exact List.mem_cons_self⟩
    · obtain ⟨heq, hmem⟩ := h.pending_seen other found hget
      exact ⟨heq, List.mem_cons_of_mem _ hmem⟩
  · intro other found hget id owned' hget'
    rw [OrderedMap.get_set] at hget
    split_ifs at hget with hkey
    · rw [hkey]
      exact hcodes id owned' hget'
    · exact h.alone other found hget id owned' hget'
  · intro other found identityReads hget hreads
    rw [OrderedMap.get_set] at hget
    split_ifs at hget with hkey
    · obtain rfl := Option.some.inj hget
      rw [hkey]
      exact hrunning identityReads hreads
    · exact h.pending other found identityReads hget hreads

/-- Sessions that are given up. -/
theorem Sound.invalidateAll (h : Sound past s) (sessions : List String) :
    Sound past (s.invalidateAll sessions) := by
  refine h.shrink (by simp) ?_ ?_ (by simp) ?_
  · exact fun session hmem => (mem_invalidateAll_invalidExecs s sessions session).mpr (.inr hmem)
  · exact seen_of_invalidateAll s sessions h.invalid_seen
  · exact get_of_invalidateAll _ _

/-! ### Lines -/

/-- The adapter follows less after a line, which leaves alone what it still follows. -/
theorem Sound.next (h : Sound past s) {e : CodexEvent}
    (hcalls : ∀ id, id ∈ s.seenCalls ∨ (∃ c, e = .call id c) → id ∈ s'.seenCalls)
    (hinvalid : ∀ session, session ∈ s.invalidExecs → session ∈ s'.invalidExecs)
    (hseen : ∀ session, session ∈ s.seenExecs ∨ session ∈ s'.invalidExecs → session ∈ s'.seenExecs)
    (hcodes : ∀ id owned, s'.codeCalls.get id = some owned → s.codeCalls.get id = some owned)
    (hpending : ∀ session owned, s'.pendingExecs.get session = some owned →
      s.pendingExecs.get session = some owned)
    (hasked : ∀ id owned, s'.codeCalls.get id = some owned →
      (∀ c, e ≠ .call id c) ∧ ∀ result, e ≠ .output id result)
    (hpolled : ∀ id owned session, s'.codeCalls.get id = some owned →
      owned.sessionId = some session → session ∉ s'.invalidExecs → Quiet session past (some id) e)
    (hquiet : ∀ session owned, s'.pendingExecs.get session = some owned →
      Quiet session past none e) : Sound (past ++ [e]) s' := by
  have hshrunk : Sound past { s' with seenCalls := s.seenCalls } :=
    h.shrink rfl hinvalid hseen hcodes hpending
  exact hshrunk.line hcalls hasked hpolled hquiet

/-- A call with a fresh id disturbs nothing that the adapter still follows. -/
theorem Sound.fresh (h : Sound past s) {id : String} (hid : id ∉ s.seenCalls) (c : CodexCall)
    (hcalls : s'.seenCalls = id :: s.seenCalls)
    (hinvalid : ∀ session, session ∈ s.invalidExecs → session ∈ s'.invalidExecs)
    (hseen : ∀ session, session ∈ s.seenExecs ∨ session ∈ s'.invalidExecs → session ∈ s'.seenExecs)
    (hcodes : ∀ id owned, s'.codeCalls.get id = some owned → s.codeCalls.get id = some owned)
    (hpending : ∀ session owned, s'.pendingExecs.get session = some owned →
      s.pendingExecs.get session = some owned)
    (hpolled : ∀ id owned session, s'.codeCalls.get id = some owned →
      owned.sessionId = some session → session ∉ s'.invalidExecs → ¬ c.Disturbs session)
    (hcalm : ∀ session owned, s'.pendingExecs.get session = some owned → ¬ c.Disturbs session) :
    Sound (past ++ [.call id c]) s' := by
  have hnew : ∀ c', .call id c' ∉ past := fun c' hmem => hid (h.calls id c' hmem)
  refine h.next ?_ hinvalid hseen hcodes hpending ?_ ?_ ?_
  · rintro id' (hmem | ⟨c', heq⟩)
    · rw [hcalls]
      exact List.mem_cons_of_mem _ hmem
    · cases heq
      rw [hcalls]
      exact List.mem_cons_self
  · intro id' owned hget
    refine ⟨?_, by simp⟩
    rintro c' heq
    cases heq
    exact hid (h.call_seen id owned (hcodes id owned hget)).1
  · intro id' owned session hget hsession hvalid
    exact ⟨hnew, hpolled id' owned session hget hsession hvalid⟩
  · intro session owned hget
    exact ⟨hnew, hcalm session owned hget⟩

theorem erase_codeCalls {id : String} (id' : String) (owned : CodexPublication)
    (hget : (s.codeCalls.erase id).get id' = some owned) :
    id' ≠ id ∧ s.codeCalls.get id' = some owned := by
  rw [OrderedMap.get_erase] at hget
  split_ifs at hget with hkey
  exact ⟨hkey, hget⟩

/-- A call with a repeated id. -/
theorem Sound.repeated (h : Sound past s) (id : String) (c : CodexCall)
    (hid : id ∈ s.seenCalls) :
    Sound (past ++ [.call id c])
      (invalidatePendingExecs { s with codeCalls := s.codeCalls.erase id }) := by
  rw [invalidatePendingExecs_eq]
  have hcodes := @erase_codeCalls s id
  refine h.next ?_ ?_ ?_ ?_ ?_ ?_ ?_ ?_
  · rintro id' (hmem | ⟨c', heq⟩)
    · simpa using hmem
    · cases heq
      simpa using hid
  · exact fun session hmem => (mem_invalidateAll_invalidExecs _ _ session).mpr (.inr hmem)
  · exact seen_of_invalidateAll { s with codeCalls := s.codeCalls.erase id } _ h.invalid_seen
  · intro id' owned hget
    rw [invalidateAll_codeCalls] at hget
    exact (hcodes id' owned hget).2
  · exact get_of_invalidateAll _ _
  · intro id' owned hget
    rw [invalidateAll_codeCalls] at hget
    refine ⟨?_, by simp⟩
    rintro c' heq
    cases heq
    exact (hcodes id owned hget).1 rfl
  · intro id' owned session hget hsession hvalid
    rw [invalidateAll_codeCalls] at hget
    refine absurd ((mem_invalidateAll_invalidExecs _ _ session).mpr (.inl ?_)) hvalid
    exact mem_followed_of_call _ hget hsession
  · intro session owned hget
    rw [get_invalidateAll_pendingExecs] at hget
    split_ifs at hget with hmem
    exact absurd (mem_followed_of_pending _ hget) hmem

/-- A call with a fresh id that gives these sessions up. -/
theorem Sound.givesUp (h : Sound past s) {id : String} (hid : id ∉ s.seenCalls) (c : CodexCall)
    (sessions : List String)
    (hpolled : ∀ id owned session, s.codeCalls.get id = some owned →
      owned.sessionId = some session → c.Disturbs session → session ∈ sessions)
    (hpending : ∀ session owned, s.pendingExecs.get session = some owned →
      c.Disturbs session → session ∈ sessions) :
    Sound (past ++ [.call id c])
      (CodexState.invalidateAll { s with seenCalls := id :: s.seenCalls } sessions) := by
  refine h.fresh hid c (by simp) ?_ ?_ (by simp) ?_ ?_ ?_
  · exact fun session hmem => (mem_invalidateAll_invalidExecs _ _ session).mpr (.inr hmem)
  · exact seen_of_invalidateAll { s with seenCalls := id :: s.seenCalls } sessions h.invalid_seen
  · exact get_of_invalidateAll _ _
  · intro id' owned session hget hsession hvalid hdisturbs
    rw [invalidateAll_codeCalls] at hget
    exact hvalid ((mem_invalidateAll_invalidExecs _ _ session).mpr
      (.inl (hpolled id' owned session hget hsession hdisturbs)))
  · intro session owned hget hdisturbs
    rw [get_invalidateAll_pendingExecs] at hget
    split_ifs at hget with hmem
    exact hmem (hpending session owned hget hdisturbs)

/-- A poll takes the session over from the output before it. -/
theorem Sound.polls (h : Sound past s) {id session : String} (hid : id ∉ s.seenCalls)
    {owned : CodexPublication} (hget : s.pendingExecs.get session = some owned) :
    Sound (past ++ [.call id (.poll session)])
      { s with
        seenCalls := id :: s.seenCalls
        pendingExecs := s.pendingExecs.erase session
        codeCalls := s.codeCalls.set id owned } := by
  obtain ⟨hsession, hmem⟩ := h.pending_seen session owned hget
  have herased (other found) (hfound : (s.pendingExecs.erase session).get other = some found) :
      other ≠ session ∧ s.pendingExecs.get other = some found := by
    rw [OrderedMap.get_erase] at hfound
    split_ifs at hfound with hkey
    exact ⟨hkey, hfound⟩
  have hline : Sound (past ++ [.call id (.poll session)])
      { s with
        seenCalls := id :: s.seenCalls, pendingExecs := s.pendingExecs.erase session } := by
    refine h.fresh hid (.poll session) rfl (fun _ h => h) ?_ (fun _ _ h => h) ?_ ?_ ?_
    · rintro other (hother | hother)
      · exact hother
      · exact h.invalid_seen other hother
    · exact fun other found hfound => (herased other found hfound).2
    · rintro id' owned' other hcode hother - rfl
      exact h.alone session owned hget id' owned' hcode hother
    · rintro other found hfound rfl
      exact (herased session found hfound).1 rfl
  refine hline.setCall List.mem_cons_self ?_ ?_
  · intro hnone
    rw [hsession] at hnone
    cases hnone
  · intro other heq
    rw [hsession] at heq
    obtain rfl := Option.some.inj heq
    refine ⟨hmem, by simp [OrderedMap.get_erase], h.alone session owned hget, ?_⟩
    intro identityReads hreads
    refine (h.pending session owned identityReads hget hreads).extend ?_
    intro before lines hpast running
    refine running.poll fun c hin => hid (h.calls id c ?_)
    rw [hpast]
    exact hin


/-- A poll that has no owner gives the session up. -/
theorem Sound.refuses (h : Sound past s) {id : String} (hid : id ∉ s.seenCalls) (session : String) :
    Sound (past ++ [.call id (.poll session)])
      (invalidateExec { s with
        seenCalls := id :: s.seenCalls, pendingExecs := s.pendingExecs.erase session } session) := by
  have hgiven : Sound (past ++ [.call id (.poll session)])
      (CodexState.invalidateAll { s with seenCalls := id :: s.seenCalls } [session]) := by
    refine h.givesUp hid (.poll session) [session] ?_ ?_
    · rintro _ _ _ _ _ rfl
      exact List.mem_singleton_self _
    · rintro _ _ _ rfl
      exact List.mem_singleton_self _
  refine hgiven.shrink rfl (fun _ h => h) ?_ (fun _ _ h => h) ?_
  · rintro other (hmem | hmem)
    · exact hmem
    · rcases List.mem_cons.mp hmem with rfl | hmem
      · exact List.mem_cons_self
      · exact List.mem_cons_of_mem _ (h.invalid_seen other hmem)
  · intro other found hfound
    simp only [invalidateExec, OrderedMap.get_erase] at hfound
    split_ifs at hfound with hkey
    simpa [CodexState.invalidateAll, invalidateExec, OrderedMap.get_erase, hkey] using hfound

theorem Sound.call (h : Sound past s) (id : String) (c : CodexCall) :
    Sound (past ++ [.call id c]) (s.call id c) := by
  unfold CodexState.call
  split_ifs with hid
  · exact h.repeated id c hid
  cases c with
  | command identityReads =>
    have hline : Sound (past ++ [.call id (.command identityReads)])
        { s with seenCalls := id :: s.seenCalls } :=
      h.givesUp hid _ [] (fun _ _ _ _ _ hd => hd.elim) (fun _ _ _ hd => hd.elim)
    refine hline.setCall List.mem_cons_self ?_ (by simp)
    intro _ reads hreads
    have hreads : identityReads = some reads := hreads
    exact ⟨past, [], by rw [hreads], fun c hmem => hid (h.calls id c hmem), by simp, by simp⟩
  | poll session =>
    cases hget : s.pendingExecs.get session with
    | some owned =>
      simp only [firstCall, hget]
      by_cases hvalid : session ∈ s.invalidExecs
      · rw [if_neg (fun hnot => hnot hvalid), if_pos (h.pending_seen session owned hget).2]
        exact h.refuses hid session
      · rw [if_pos hvalid]
        exact h.polls hid hget
    | none =>
      simp only [firstCall, hget]
      have hpending {other : String} {found : CodexPublication}
          (hfound : (s.pendingExecs.erase session).get other = some found) :
          s.pendingExecs.get other = some found := by
        rw [OrderedMap.get_erase] at hfound
        split_ifs at hfound
        exact hfound
      split_ifs with hseen
      · exact h.refuses hid session
      · refine h.fresh hid (.poll session) rfl (fun _ h => h) ?_ (fun _ _ h => h)
          (fun _ _ => hpending) ?_ ?_
        · rintro other (hmem | hmem)
          · exact hmem
          · exact h.invalid_seen other hmem
        · rintro id' owned other hcode hother - rfl
          exact hseen ((h.call_seen id' owned hcode).2 session hother)
        · rintro other found hfound rfl
          exact hseen (h.pending_seen session found (hpending hfound)).2
  | input session =>
    refine h.givesUp hid (.input session) [session] ?_ ?_
    · rintro _ _ _ _ _ rfl
      exact List.mem_singleton_self _
    · rintro _ _ _ rfl
      exact List.mem_singleton_self _
  | stray => exact h.givesUp hid .stray [] (fun _ _ _ _ _ hd => hd.elim) (fun _ _ _ hd => hd.elim)
  | other unknown session =>
    have hall : firstCall { s with seenCalls := id :: s.seenCalls } id (.other unknown session) =
        CodexState.invalidateAll { s with seenCalls := id :: s.seenCalls }
          ((if unknown then s.followed else []) ++ session.toList) := by
      have hunknown : (if unknown then
          invalidatePendingExecs { s with seenCalls := id :: s.seenCalls }
          else { s with seenCalls := id :: s.seenCalls }) =
          CodexState.invalidateAll { s with seenCalls := id :: s.seenCalls }
            (if unknown then s.followed else []) := by
        cases unknown with
        | true =>
          rw [if_pos rfl, if_pos rfl, invalidatePendingExecs_eq]
          rfl
        | false => rfl
      simp only [firstCall, hunknown]
      cases session <;> simp [CodexState.invalidateAll, List.foldl_append]
    rw [hall]
    refine h.givesUp hid _ _ ?_ ?_
    · rintro id' owned other hcode hother (hd | hd)
      · rw [hd]
        exact List.mem_append_left _ (mem_followed_of_call s hcode hother)
      · rw [hd]
        exact List.mem_append_right _ (List.mem_singleton_self _)
    · rintro other owned hpending (hd | hd)
      · rw [hd]
        exact List.mem_append_left _ (mem_followed_of_pending s hpending)
      · rw [hd]
        exact List.mem_append_right _ (List.mem_singleton_self _)


/-- An output of a call that is not followed. -/
theorem Sound.unfollowed (h : Sound past s) {id : String} (result : Option CodexExecResult)
    (hget : s.codeCalls.get id = none) : Sound (past ++ [.output id result]) s := by
  refine h.next ?_ (fun _ h => h) ?_ (fun _ _ h => h) (fun _ _ h => h) ?_ ?_ ?_
  · rintro id' (hmem | ⟨c, heq⟩)
    · exact hmem
    · cases heq
  · rintro session (hmem | hmem)
    · exact hmem
    · exact h.invalid_seen session hmem
  · intro id' owned hget'
    refine ⟨by simp, ?_⟩
    rintro result' heq
    cases heq
    rw [hget] at hget'
    cases hget'
  · rintro id' owned session hget' - - heq
    obtain rfl := Option.some.inj heq
    rw [hget] at hget'
    cases hget'
  · rintro session owned - heq
    cases heq

/-- The output of a followed call, which is followed no longer. -/
theorem Sound.answered (h : Sound past s) (id : String) (result : Option CodexExecResult) :
    Sound (past ++ [.output id result]) { s with codeCalls := s.codeCalls.erase id } := by
  have hcodes := @erase_codeCalls s id
  refine h.next ?_ (fun _ h => h) ?_ (fun id' owned hget => (hcodes id' owned hget).2)
    (fun _ _ h => h) ?_ ?_ ?_
  · rintro id' (hmem | ⟨c, heq⟩)
    · exact hmem
    · cases heq
  · rintro session (hmem | hmem)
    · exact hmem
    · exact h.invalid_seen session hmem
  · intro id' owned hget
    refine ⟨by simp, ?_⟩
    rintro result' heq
    cases heq
    exact (hcodes id owned hget).1 rfl
  · rintro id' owned session hget - - heq
    obtain rfl := Option.some.inj heq
    exact (hcodes id' owned hget).1 rfl
  · rintro session owned - heq
    cases heq

@[simp] theorem strayed_codeCalls (s : CodexState) (codeCalls : OrderedMap String CodexPublication)
    (owned : CodexPublication) (result : CodexExecResult) :
    strayed { s with codeCalls } owned result = s.strayed owned result := rfl

@[simp] theorem reused_codeCalls (s : CodexState) (codeCalls : OrderedMap String CodexPublication)
    (owned : CodexPublication) (result : CodexExecResult) :
    reused { s with codeCalls } owned result = s.reused owned result := rfl

theorem strayed_eq_false {owned : CodexPublication} {result : CodexExecResult}
    (h : s.strayed owned result = false) {session : String}
    (hsession : owned.sessionId = some session) :
    session ∉ s.invalidExecs ∧ result.sessionId.all (· = session) := by
  simp only [strayed, hsession, Option.any_some, decide_eq_false_iff_not, not_or] at h
  refine ⟨h.1, ?_⟩
  cases hresult : result.sessionId with
  | none => rfl
  | some named =>
    rw [hresult] at h
    simpa using h.2

theorem reused_eq_none {owned : CodexPublication} {result : CodexExecResult}
    (h : s.reused owned result = none) (hsession : owned.sessionId = none) {session : String}
    (hnamed : result.sessionId = some session) :
    session ∉ s.seenExecs ∧ result.exitCode = none := by
  simpa [reused, hsession, hnamed, not_or] using h

/-- The session that an output names runs on. -/
theorem Sound.runs (h : Sound past s) (hs : s = codexAfter past) {id : String}
    {owned : CodexPublication} (hget : s.codeCalls.get id = some owned) {result : CodexExecResult}
    (hstrayed : s.strayed owned result = false) (hreused : s.reused owned result = none)
    (hexit : result.exitCode = none) {session : String}
    (hsession : result.sessionId = some session) :
    Sound (past ++ [.output id (some result)])
      { s with
        codeCalls := s.codeCalls.erase id
        seenExecs := session :: s.seenExecs
        pendingExecs := s.pendingExecs.set session { owned with sessionId := some session } } := by
  have hcodes (id' owned') (hget' : (s.codeCalls.erase id).get id' = some owned') :
      id' ≠ id ∧ s.codeCalls.get id' = some owned' := by
    rw [OrderedMap.get_erase] at hget'
    split_ifs at hget' with hkey
    exact ⟨hkey, hget'⟩
  refine (h.answered id (some result)).setPending ?_ ?_
  · intro id' owned' hget' hsession'
    obtain ⟨hne, hget'⟩ := hcodes id' owned' hget'
    cases howned : owned.sessionId with
    | none =>
      refine (reused_eq_none hreused howned hsession).1 ?_
      exact (h.call_seen id' owned' hget').2 session hsession'
    | some other =>
      have hsame := (strayed_eq_false hstrayed howned).2
      rw [hsession] at hsame
      obtain rfl : session = other := by simpa using hsame
      exact hne (h.single id' owned' id owned session hget' hget hsession' howned)
  · intro identityReads hreads
    cases howned : owned.sessionId with
    | none =>
      have hfresh := (reused_eq_none hreused howned hsession).1
      exact ⟨id, result, past, [], rfl, h.asked id owned identityReads hget howned hreads, hexit,
        hsession, fun hseen => hfresh (by rwa [hs]), .named⟩
    | some other =>
      obtain ⟨hvalid, hsame⟩ := strayed_eq_false hstrayed howned
      rw [hsession] at hsame
      obtain rfl : session = other := by simpa using hsame
      exact (h.polled id owned session identityReads hget howned hvalid hreads).extend
        fun _ _ _ running => running.answered ⟨hexit, hsession⟩

/-- The command of a followed call has ended. -/
theorem Sound.justified (h : Sound past s) {id : String} {owned : CodexPublication}
    (hget : s.codeCalls.get id = some owned) {result : CodexExecResult}
    (hstrayed : s.strayed owned result = false) (hreused : s.reused owned result = none)
    {pr : QualifiedSessionPR} (hpublished : published owned result = some pr) :
    Justified Unseen past id result pr := by
  unfold published at hpublished
  split_ifs at hpublished with hexit
  obtain ⟨identityReads, hreads, hpr⟩ := Option.bind_eq_some_iff.mp hpublished
  refine ⟨hexit, identityReads, hpr, ?_⟩
  cases howned : owned.sessionId with
  | none =>
    refine .inl ⟨h.asked id owned identityReads hget howned hreads, ?_⟩
    cases hsession : result.sessionId with
    | none => rfl
    | some session =>
      have hrunning := (reused_eq_none hreused howned hsession).2
      rw [hexit] at hrunning
      cases hrunning
  | some session =>
    obtain ⟨hvalid, hsame⟩ := strayed_eq_false hstrayed howned
    exact .inr ⟨session, h.polled id owned session identityReads hget howned hvalid hreads, hsame⟩

theorem Sound.output (h : Sound past s) (hs : s = codexAfter past) (id : String)
    (result : Option CodexExecResult) :
    Sound (past ++ [.output id result]) (s.output id result).2 ∧
      ∀ pr, (s.output id result).1 = some pr → ∃ r, result = some r ∧ Justified Unseen past id r pr := by
  unfold CodexState.output
  cases hget : s.codeCalls.get id with
  | none => exact ⟨h.unfollowed result hget, by simp⟩
  | some owned =>
    have hanswered := h.answered id result
    cases result with
    | none => exact ⟨hanswered, by simp⟩
    | some result =>
      simp only [ownedOutput, strayed_codeCalls, reused_codeCalls]
      by_cases hstrayed : s.strayed owned result = true
      · rw [if_pos hstrayed]
        exact ⟨hanswered, by simp⟩
      · rw [if_neg hstrayed]
        have hstrayed : s.strayed owned result = false := by simpa using hstrayed
        cases hreused : s.reused owned result with
        | some session =>
          exact ⟨hanswered.invalidateAll [session], by simp⟩
        | none =>
          simp only
          by_cases hexit : result.exitCode = none
          · rw [if_neg (not_not.mpr hexit)]
            cases hsession : result.sessionId with
            | none => exact ⟨hanswered, by simp⟩
            | some session =>
              simp only
              split_ifs with hinvalid
              · exact ⟨hanswered, by simp⟩
              · exact ⟨h.runs hs hget hstrayed hreused hexit hsession, by simp⟩
          · rw [if_pos hexit]
            have hforgets (session : String) : Sound (past ++ [.output id (some result)])
                { s with
                  codeCalls := s.codeCalls.erase id
                  pendingExecs := s.pendingExecs.erase session } := by
              refine hanswered.shrink rfl (fun _ h => h) ?_ (fun _ _ h => h) ?_
              · rintro other (hmem | hmem)
                · exact hmem
                · exact h.invalid_seen other hmem
              · intro other found hfound
                simp only [OrderedMap.get_erase] at hfound
                split_ifs at hfound
                exact hfound
            have hcredited : ∀ t : CodexState, Sound (past ++ [.output id (some result)]) t → ∀ prs,
                Sound (past ++ [.output id (some result)]) { t with qualifiedPRs := prs } := by
              intro t ht prs
              refine ht.shrink rfl (fun _ h => h) ?_ (fun _ _ h => h) (fun _ _ h => h)
              rintro other (hmem | hmem)
              · exact hmem
              · exact ht.invalid_seen other hmem
            cases hpublished : published owned result with
            | none =>
              cases owned.sessionId with
              | none => exact ⟨hanswered, by simp⟩
              | some session => exact ⟨hforgets session, by simp⟩
            | some pr =>
              have hjustified : ∀ found, some pr = some found →
                  ∃ r, some result = some r ∧ Justified Unseen past id r found := by
                intro found hfound
                obtain rfl := Option.some.inj hfound
                exact ⟨result, rfl, h.justified hget hstrayed hreused hpublished⟩
              cases owned.sessionId with
              | none => exact ⟨hcredited _ hanswered _, hjustified⟩
              | some session => exact ⟨hcredited _ (hforgets session) _, hjustified⟩

theorem Sound.step (h : Sound past s) (hs : s = codexAfter past) (e : CodexEvent) :
    Sound (past ++ [e]) (s.step e).2 ∧ ∀ pr, (s.step e).1 = some pr →
      ∃ id result, e = .output id (some result) ∧ Justified Unseen past id result pr := by
  cases e with
  | call id c => exact ⟨h.call id c, by simp [CodexState.step]⟩
  | output id result =>
    obtain ⟨hsound, hjustified⟩ := h.output hs id result
    refine ⟨hsound, fun pr hpr => ?_⟩
    obtain ⟨r, rfl, hr⟩ := hjustified pr hpr
    exact ⟨id, r, rfl, hr⟩

/-! ### Sessions that were named -/

theorem invalidatePendingExecs_seen {session : String} (h : session ∈ s.seenExecs) :
    session ∈ s.invalidatePendingExecs.seenExecs := by
  rw [invalidatePendingExecs_eq]
  exact (mem_invalidateAll_seenExecs _ _ session).mpr (.inr h)

/-- A session that was seen stays so. -/
theorem seenExecs_step {session : String} (h : session ∈ s.seenExecs) (e : CodexEvent) :
    session ∈ (s.step e).2.seenExecs := by
  cases e with
  | call id c =>
    simp only [CodexState.step, CodexState.call]
    split
    · exact invalidatePendingExecs_seen h
    · cases c with
      | command identityReads => exact h
      | poll named =>
        simp only [firstCall]
        repeat' split
        all_goals first
          | exact h
          | exact List.mem_cons_of_mem _ h
      | input named => exact List.mem_cons_of_mem _ h
      | stray => exact h
      | other unknown named =>
        cases unknown <;> cases named
        · exact h
        · exact List.mem_cons_of_mem _ h
        · exact invalidatePendingExecs_seen h
        · exact List.mem_cons_of_mem _ (invalidatePendingExecs_seen h)
  | output id result =>
    simp only [CodexState.step, CodexState.output, ownedOutput]
    repeat' split
    all_goals first
      | exact h
      | exact List.mem_cons_of_mem _ h

/-- The session that the output of a fresh command names has been seen then. -/
theorem Sound.sees (h : Sound past s) {id : String} {owned : CodexPublication}
    (hget : s.codeCalls.get id = some owned) (howned : owned.sessionId = none)
    {result : CodexExecResult} {session : String} (hsession : result.sessionId = some session) :
    session ∈ (s.output id (some result)).2.seenExecs := by
  have hstrayed : s.strayed owned result = false := by simp [strayed, howned]
  simp only [CodexState.output, hget, ownedOutput, strayed_codeCalls, reused_codeCalls, hstrayed,
    Bool.false_eq_true, if_false]
  cases hreused : s.reused owned result with
  | some other =>
    have hsome : result.sessionId = some other ∧ (other ∈ s.seenExecs ∨ ¬result.exitCode = none) := by
      simpa [reused, howned] using hreused
    rw [hsession] at hsome
    obtain rfl := Option.some.inj hsome.1
    exact List.mem_cons_self
  | none =>
    have hexit := (reused_eq_none hreused howned hsession).2
    simp only [hexit, hsession, ne_eq, not_true_eq_false, if_false]
    by_cases hinvalid : session ∈ s.invalidExecs
    · rw [if_pos hinvalid]
      exact h.invalid_seen session hinvalid
    · rw [if_neg hinvalid]
      exact List.mem_cons_self

end CodexState

/-- An output that names a session names one that the adapter has seen, or is the first one of a
fresh command that it follows. -/
def KnownSession (s : CodexState) : CodexEvent → Prop
  | .output id (some result) => ∀ session, result.sessionId = some session →
      session ∈ s.seenExecs ∨
        ∃ owned, s.codeCalls.get id = some owned ∧ owned.sessionId = none
  | _ => True

theorem codexAfter_sound (past : List CodexEvent) : (codexAfter past).Sound past := by
  induction past using List.reverseRec with
  | nil => exact CodexState.sound_init
  | append_singleton past e ih =>
    rw [codexAfter_append]
    exact (ih.step rfl e).1

/-- Where every output names a known session, all sessions that were named have been seen. -/
theorem named_seen (past : List CodexEvent)
    (hknown : ∀ early e later, past = early ++ e :: later → KnownSession (codexAfter early) e)
    (id : String) (result : CodexExecResult) (hmem : .output id (some result) ∈ past)
    (session : String) (hsession : result.sessionId = some session) :
    session ∈ (codexAfter past).seenExecs := by
  induction past using List.reverseRec with
  | nil => cases hmem
  | append_singleton past e ih =>
    rw [codexAfter_append]
    rcases List.mem_append.mp hmem with hmem | hmem
    · refine CodexState.seenExecs_step (ih ?_ hmem) e
      intro early e' later hpast
      exact hknown early e' (later ++ [e]) (by simp [hpast])
    · obtain rfl := List.mem_singleton.mp hmem
      rcases hknown past _ [] rfl session hsession with hseen | ⟨owned, hget, howned⟩
      · exact CodexState.seenExecs_step hseen _
      · exact (codexAfter_sound past).sees hget howned hsession

theorem Unseen.unnamed {past : List CodexEvent} {session : String} (h : Unseen past session)
    (hknown : ∀ early e later, past = early ++ e :: later → KnownSession (codexAfter early) e) :
    Unnamed past session :=
  fun id result hmem hsession => h (named_seen past hknown id result hmem session hsession)

/-- Where every output names a known session, the session of a chain was named by no earlier one. -/
theorem Justified.unnamed {past : List CodexEvent} {id : String} {result : CodexExecResult}
    {pr : QualifiedSessionPR} (h : Justified Unseen past id result pr)
    (hknown : ∀ early e later, past = early ++ e :: later → KnownSession (codexAfter early) e) :
    Justified Unnamed past id result pr := by
  obtain ⟨hexit, identityReads, hpr, hchain⟩ := h
  refine ⟨hexit, identityReads, hpr, hchain.imp_right ?_⟩
  rintro ⟨session, ⟨root, first, before, lines, rfl, hasked, hgoing, hsession, hfresh, hrunning⟩,
    hsame⟩
  refine ⟨session, ⟨root, first, before, lines, rfl, hasked, hgoing, hsession, ?_, hrunning⟩, hsame⟩
  refine hfresh.unnamed fun early e later hbefore => ?_
  exact hknown early e (later ++ .output root (some first) :: lines) (by simp [hbefore])

/-! ### The rollout -/

/-- An event adds to `qualifiedPRs` what it publishes, and nothing else. -/
theorem CodexState.step_qualifiedPRs (s : CodexState) (e : CodexEvent) :
    (s.step e).2.qualifiedPRs =
      match (s.step e).1 with
      | some pr => s.qualifiedPRs.set pr.key pr
      | none => s.qualifiedPRs := by
  have given (sessions : List String) (s : CodexState) :
      (s.invalidateAll sessions).qualifiedPRs = s.qualifiedPRs := by
    induction sessions generalizing s with
    | nil => rfl
    | cons session rest ih => exact (ih (s.invalidateExec session)).trans rfl
  cases e with
  | call id c =>
    simp only [CodexState.step, CodexState.call]
    split
    · rw [CodexState.invalidatePendingExecs_eq, given]
    · cases c with
      | command | input | stray => rfl
      | poll session =>
        simp only [CodexState.firstCall]
        repeat' split
        all_goals rfl
      | other unknown session =>
        cases unknown <;> cases session <;>
          simp [CodexState.firstCall, CodexState.invalidatePendingExecs_eq, given,
            CodexState.invalidateExec]
  | output id result =>
    simp only [CodexState.step, CodexState.output, CodexState.ownedOutput]
    repeat' split
    all_goals simp_all [CodexState.invalidateExec]

/-- The state of the rollout is the one after its events. -/
theorem codexReduce_eq (env : RolloutEnv) (lines : List (Option Json)) :
    (codexReduce env lines).2 = codexAfter (lines.filterMap (codexEvent env)) := by
  induction lines using List.reverseRec with
  | nil => rfl
  | append_singleton lines line ih =>
    rw [codexReduce_append, List.filterMap_append, codexAdvance]
    cases hevent : codexEvent env line with
    | none => simp [hevent, ih]
    | some e => simp [hevent, ih, codexAfter_append]

/-- Every pull request that a code-mode call adds has its chain of calls and outputs, and where every
output names a known session the chain's session was named by no earlier output. -/
theorem publications_justified (env : RolloutEnv) (lines : List (Option Json)) :
    (∀ key pr, (codexReduce env lines).2.qualifiedPRs.get key = some pr →
      pr ∈ (codexReduce env lines).1) ∧
    ∀ pr ∈ (codexReduce env lines).1, ∃ before line after id result,
      lines = before ++ line :: after ∧ codexEvent env line = some (.output id (some result)) ∧
      Justified Unseen (before.filterMap (codexEvent env)) id result pr ∧
      ((∀ early e later, before.filterMap (codexEvent env) = early ++ e :: later →
          KnownSession (codexAfter early) e) →
        Justified Unnamed (before.filterMap (codexEvent env)) id result pr) := by
  induction lines using List.reverseRec with
  | nil => exact ⟨by simp [codexReduce], by simp [codexReduce]⟩
  | append_singleton lines line ih =>
    obtain ⟨ihkeys, ihchains⟩ := ih
    have hearlier : ∀ pr ∈ (codexReduce env lines).1, ∃ before line' after id result,
        lines ++ [line] = before ++ line' :: after ∧
        codexEvent env line' = some (.output id (some result)) ∧
        Justified Unseen (before.filterMap (codexEvent env)) id result pr ∧
        ((∀ early e later, before.filterMap (codexEvent env) = early ++ e :: later →
            KnownSession (codexAfter early) e) →
          Justified Unnamed (before.filterMap (codexEvent env)) id result pr) := by
      intro pr hpr
      obtain ⟨before, line', after, id, result, rfl, hrest⟩ := ihchains pr hpr
      exact ⟨before, line', after ++ [line], id, result, by simp, hrest⟩
    rw [codexReduce_append, codexAdvance]
    cases hevent : codexEvent env line with
    | none => exact ⟨ihkeys, hearlier⟩
    | some e =>
      refine ⟨?_, ?_⟩
      · intro key pr hget
        simp only [CodexState.step_qualifiedPRs] at hget
        cases hadded : ((codexReduce env lines).2.step e).1 with
        | none =>
          rw [hadded] at hget
          exact List.mem_append_left _ (ihkeys key pr hget)
        | some added =>
          rw [hadded] at hget
          simp only [OrderedMap.get_set] at hget
          split_ifs at hget
          · obtain rfl := Option.some.inj hget
            exact List.mem_append_right _ (Option.mem_toList.mpr hadded)
          · exact List.mem_append_left _ (ihkeys key pr hget)
      · intro pr hpr
        rcases List.mem_append.mp hpr with hpr | hpr
        · exact hearlier pr hpr
        · rw [Option.mem_toList, codexReduce_eq] at hpr
          obtain ⟨id, result, rfl, hjustified⟩ :=
            ((codexAfter_sound (lines.filterMap (codexEvent env))).step rfl e).2 pr hpr
          exact ⟨lines, line, [], id, result, rfl, hevent, hjustified, hjustified.unnamed⟩

/-! ### A session that an output named which the adapter does not follow -/

namespace Sample

def codexLine (fields : List (String × Json)) : Json :=
  .obj [("type", .str "response_item"), ("payload", .obj fields)]

/-- A program in code mode. -/
def execCall (id program : String) : Json :=
  codexLine [("type", .str "custom_tool_call"), ("name", .str "exec"), ("call_id", .str id),
    ("input", .str program)]

def execOutput (id text : String) : Json :=
  codexLine [("type", .str "custom_tool_call_output"), ("call_id", .str id), ("output", .str text)]

def identifier (name : String) : Json := .obj [("type", .str "Identifier"), ("name", .str name)]

/-- The syntax tree of `text(await tools.<tool>({ <name>: <value> }))`. -/
def programTree (tool name : String) (value : Json) : Json :=
  .obj [("type", .str "Program"), ("body", .arr [.obj [("type", .str "ExpressionStatement"),
    ("expression", .obj [("type", .str "CallExpression"), ("optional", .bool false),
      ("callee", identifier "text"),
      ("arguments", .arr [.obj [("type", .str "AwaitExpression"),
        ("argument", .obj [("type", .str "CallExpression"), ("optional", .bool false),
          ("callee", .obj [("type", .str "MemberExpression"), ("computed", .bool false),
            ("optional", .bool false), ("object", identifier "tools"),
            ("property", identifier tool)]),
          ("arguments", .arr [.obj [("type", .str "ObjectExpression"),
            ("properties", .arr [.obj [("type", .str "Property"), ("computed", .bool false),
              ("method", .bool false), ("shorthand", .bool false), ("kind", .str "init"),
              ("key", identifier name),
              ("value", .obj [("type", .str "Literal"), ("value", value)])]])]])])]])])]])]

def lsProgram : String := "text(await tools.exec_command(\x7bcmd:'ls'\x7d))"
def createProgram : String := "text(await tools.exec_command(\x7bcmd:'gh pr create'\x7d))"
def pollProgram (session : String) : String :=
  "text(await tools.write_stdin(\x7bsession_id:" ++ session ++ "\x7d))"

def runningText (session : String) : String :=
  "\x7b\"output\":\"\",\"session_id\":" ++ session ++ "\x7d"

def publishedUrl : String := "https://github.com/o/r/pull/42"

def exitText : String := "\x7b\"output\":\"" ++ publishedUrl ++ "\",\"exit_code\":0\x7d"

def rolloutEnv : RolloutEnv where
  parseProgram text := [
    (lsProgram, programTree "exec_command" "cmd" (.str "ls")),
    (createProgram, programTree "exec_command" "cmd" (.str "gh pr create")),
    (pollProgram "7", programTree "write_stdin" "session_id" (.num "7")),
    (pollProgram "8", programTree "write_stdin" "session_id" (.num "8"))].lookup text
  parseJson text := [
    (runningText "7", .obj [("output", .str ""), ("session_id", .num "7")]),
    (runningText "8", .obj [("output", .str ""), ("session_id", .num "8")]),
    (exitText, .obj [("output", .str publishedUrl), ("exit_code", .num "0")])].lookup text
  isPRPublicationCommand command := command = "gh pr create"

/-- The poll of session 7 is answered by session 8, which then is the session of a command. -/
def namedTwice : List (Option Json) := [
  execCall "call_1" lsProgram, execOutput "call_1" (runningText "7"),
  execCall "call_2" (pollProgram "7"), execOutput "call_2" (runningText "8"),
  execCall "call_3" createProgram, execOutput "call_3" (runningText "8"),
  execCall "call_4" (pollProgram "8"), execOutput "call_4" exitText]

end Sample

/-- A pull request is added for a session that the output of an earlier poll named. -/
theorem named_session_credited :
    (codexReduce Sample.rolloutEnv Sample.namedTwice).1 = [⟨"o", "r", 42⟩] ∧
      (Sample.namedTwice.take 4).getLast?.bind (codexEvent Sample.rolloutEnv) =
        some (.output "call_2" (some ⟨"", none, some "8"⟩)) ∧
      Sample.namedTwice.filterMap (codexEvent Sample.rolloutEnv) = [
        .call "call_1" (.command none), .output "call_1" (some ⟨"", none, some "7"⟩),
        .call "call_2" (.poll "7"), .output "call_2" (some ⟨"", none, some "8"⟩),
        .call "call_3" (.command (some 0)), .output "call_3" (some ⟨"", none, some "8"⟩),
        .call "call_4" (.poll "8"),
        .output "call_4" (some ⟨Sample.publishedUrl, some "0", none⟩)] := by
  refine ⟨?_, ?_, ?_⟩ <;> decide +kernel

instance (s : CodexState) : (e : CodexEvent) → Decidable (KnownSession s e)
  | .call _ _ | .output _ none => .isTrue trivial
  | .output id (some result) =>
    decidable_of_iff (result.sessionId.all fun session => session ∈ s.seenExecs ∨
      (s.codeCalls.get id).any (·.sessionId = none)) (by
        cases hget : s.codeCalls.get id <;> cases hnamed : result.sessionId <;>
          simp [KnownSession, hget, hnamed])

open Sample in
/-- Without the poll of session 7, all outputs name known sessions, and the chain is of one session. -/
theorem publications_justified_known :
    (codexReduce rolloutEnv (namedTwice.drop 4)).1 = [⟨"o", "r", 42⟩] ∧
      ∀ pr ∈ (codexReduce rolloutEnv (namedTwice.drop 4)).1, ∃ before line after id result,
        namedTwice.drop 4 = before ++ line :: after ∧
          Justified Unnamed (before.filterMap (codexEvent rolloutEnv)) id result pr := by
  refine ⟨by decide +kernel, fun pr hpr => ?_⟩
  obtain ⟨before, line, after, id, result, hlines, -, -, hunnamed⟩ :=
    (publications_justified rolloutEnv (namedTwice.drop 4)).2 pr hpr
  refine ⟨before, line, after, id, result, hlines, hunnamed fun early e later hbefore => ?_⟩
  have hknown : Machine.Along (fun s e => (CodexState.step s e).2) KnownSession {}
      ((namedTwice.drop 4).filterMap (codexEvent rolloutEnv)) := by decide +kernel
  refine Machine.along_iff.1 hknown early e
    (later ++ (line :: after).filterMap (codexEvent rolloutEnv)) ?_
  rw [hlines, List.filterMap_append, hbefore, List.append_assoc, List.cons_append]

end AgentLcars
