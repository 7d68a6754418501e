import AgentLcars.Lib.OrderedMap
import AgentLcars.Lib.Runs
import AgentLcars.Model

/-!
# Hook events of a session

`apps/telemetry-watcher`: the hooks of one session on one host number its events.  Under the lock of
the session a hook reads the state file, appends its event to the spool and writes the state back
(`handleRuntimeHook`, `hook-state.ts`); the flusher marks deliveries in the same file.  Agent runtimes
kill hooks at any point, and the lock of a killed process is taken over.

The spool is the sequence of the events that were appended to it.  A drain may hand any of them to the
writer, at any time and any number of times (`hook-store.ts`).  Whether an event makes a valid write
is an input of the step.
-/

namespace AgentLcars

inductive SessionEventKind where
  | start
  | prompt
  | tool
  | stop
  | end_
  | heartbeat
  deriving DecidableEq

/-! ### The state file -/

structure HookSessionState where
  seq : Nat
  lastShippedAt : Option String := none
  lastDeliveredAt : Option String := none
  lastKind : Option SessionEventKind := none
  repoScoped : Bool := false
  updatedAt : String
  deriving DecidableEq

/-- A counter that is no safe integer is not read. -/
def readHookSessionState (file : Option HookSessionState) : Option HookSessionState :=
  file.filter fun state => state.seq ≤ MAX_SAFE_INTEGER

structure HookEnv where
  dateParse : String → Option Int

def TOOL_EVENT_THROTTLE_MS : Int := 15000

/-- Tool events of a session ship at intervals; all others ship at once. -/
def shouldShipEvent (env : HookEnv) (kind : SessionEventKind) (state : Option HookSessionState)
    (now : String) : Bool :=
  if kind ≠ .tool then true
  else
    match (state.bind (·.lastShippedAt)).filter (· ≠ "") with
    | none => true
    | some last =>
      match env.dateParse now, env.dateParse last with
      | some now, some last => TOOL_EVENT_THROTTLE_MS ≤ now - last
      | _, _ => true

/-- What a throttled hook writes. -/
def throttledState (state : Option HookSessionState) (now : String) : HookSessionState :=
  { seq := (state.map (·.seq)).getD 0
    lastShippedAt := (state.bind (·.lastShippedAt)).filter (· ≠ "")
    lastKind := state.bind (·.lastKind)
    repoScoped := (state.map (·.repoScoped)).getD false
    updatedAt := now }

/-- What `markHookSessionDelivered` writes. -/
def deliveredState (state : Option HookSessionState) (now : String) : HookSessionState :=
  { state.getD { seq := 0, updatedAt := now } with lastDeliveredAt := some now, updatedAt := now }

/-! ### Hooks -/

/-- An event as it is spooled. -/
structure HookEvent where
  eventId : String
  seq : Nat
  occurredAt : String
  kind : SessionEventKind
  hasSummary : Bool
  deriving DecidableEq

/-- What a hook was called with, as far as its numbering goes. -/
structure HookCall where
  eventId : String
  kind : SessionEventKind
  now : String
  /-- The hook runs for a dispatched run. -/
  runner : Bool := false
  repo : Bool := true
  /-- A subagent whose transcript could not be verified. -/
  unverified : Bool := false
  /-- The transcript could be reduced. -/
  reduced : Bool := true
  deriving DecidableEq

/-- The event of a call, and the state that is written after it. -/
def HookCall.event (call : HookCall) (seq : Nat) : HookEvent :=
  { eventId := call.eventId, seq, occurredAt := call.now, kind := call.kind
    hasSummary := call.reduced || call.kind ≠ .end_ }

def HookCall.shippedState (call : HookCall) (seq : Nat) (state : Option HookSessionState) :
    HookSessionState :=
  { seq, lastShippedAt := some call.now, lastKind := some call.kind
    repoScoped := call.repo || (state.map (·.repoScoped)).getD false
    updatedAt := call.now }

/-- Who works on the state file. -/
inductive HookTask where
  | hook (call : HookCall)
  | mark (now : String)
  deriving DecidableEq

/-- Where a process stands.  The state is written to a temporary file, which then replaces the state
file; `shipped` tells whether an event was appended before. -/
inductive HookPhase where
  | locking
  | checking
  | reading
  | appending (seq : Nat) (state : Option HookSessionState)
  | writing (next : HookSessionState) (shipped : Bool)
  | replacing (next : HookSessionState) (shipped : Bool)
  | releasing
  | returned
  deriving DecidableEq

structure HookProcess where
  task : HookTask
  phase : HookPhase := .locking
  deriving DecidableEq

/-! ### The stored document -/

/-- The provenance of the stored document, and which spooled event it is from. -/
structure SessionObserver where
  host : String
  seq : Nat
  eventId : String
  number : Nat
  deriving DecidableEq

/-- A write of this host replaces what another seq of the same host left, if it is larger. -/
def isNewerHookWrite (stored : Option SessionObserver) (observer : SessionObserver) : Bool :=
  match stored with
  | none => true
  | some stored => ¬(stored.host = observer.host ∧ observer.seq ≤ stored.seq)

inductive HookEventOutcome where
  | applied
  | stale
  | invalid
  deriving DecidableEq

/-- What becomes of a delivery: the writer answers, its answer gets lost after the commit, or the
transaction fails.  An event that makes no valid write is dropped. -/
inductive DeliveryAnswer where
  | answered (valid : Bool)
  | lost (valid : Bool)
  | failed
  deriving DecidableEq

/-- `apply`: an event without a summary needs a stored document to be applied to. -/
def applyHookEvent (doc : Option SessionObserver) (event : HookEvent) (observer : SessionObserver)
    (valid : Bool) : HookEventOutcome × Option SessionObserver :=
  if ¬valid ∨ (¬event.hasSummary ∧ doc.isNone) then (.invalid, doc)
  else if isNewerHookWrite doc observer then (.applied, some observer)
  else (.stale, doc)

/-! ### One session -/

structure HookWorld where
  host : String
  file : Option HookSessionState := none
  lock : Option Nat := none
  fenced : Bool := false
  processes : OrderedMap Nat HookProcess := .empty
  spool : List HookEvent := []
  doc : Option SessionObserver := none
  /-- The events whose delivery the writer confirmed. -/
  delivered : List Nat := []
  /-- A hook was killed after it appended an event and before it replaced the state file. -/
  torn : Bool := false

def HookWorld.init (host : String) : HookWorld := { host }

inductive HookStep where
  | start (id : Nat) (task : HookTask)
  | advance (id : Nat)
  | giveUp (id : Nat)
  | kill (id : Nat)
  | fence
  | deliver (number : Nat) (answer : DeliveryAnswer)

/-- What a hook does with the state it read. -/
def HookCall.decide (env : HookEnv) (call : HookCall) (state : Option HookSessionState) : HookPhase :=
  if ¬call.runner ∧ ¬call.repo ∧ (state.map (·.repoScoped)).getD false then .releasing
  else if ¬shouldShipEvent env call.kind state call.now then
    .writing (throttledState state call.now) false
  else if call.unverified then .releasing
  else .appending ((state.map (·.seq)).getD 0 + 1) state

/-- The next step of a process. -/
def HookWorld.advance (env : HookEnv) (w : HookWorld) (id : Nat) (p : HookProcess) : HookWorld :=
  let moved (phase : HookPhase) := w.processes.set id { p with phase }
  match p.phase, p.task with
  | .locking, task =>
    if w.lock.isSome then w
    else { w with
      lock := some id
      processes := moved (match task with | .hook _ => .checking | .mark _ => .reading) }
  | .checking, _ => { w with processes := moved (if w.fenced then .releasing else .reading) }
  | .reading, .hook call =>
    { w with processes := moved (call.decide env (readHookSessionState w.file)) }
  | .reading, .mark now =>
    let next := deliveredState (readHookSessionState w.file) now
    { w with processes := moved (.writing next false) }
  | .appending seq state, .hook call =>
    { w with
      spool := w.spool ++ [call.event seq]
      processes := moved (.writing (call.shippedState seq state) true) }
  | .appending _ _, .mark _ => w
  | .writing next shipped, _ => { w with processes := moved (.replacing next shipped) }
  | .replacing next _, _ => { w with file := some next, processes := moved .releasing }
  | .releasing, _ => { w with lock := none, processes := moved .returned }
  | .returned, _ => w

/-- The process was about to write the number of an event that it had appended. -/
def HookPhase.tears : HookPhase → Bool
  | .writing _ shipped | .replacing _ shipped => shipped
  | _ => false

def HookWorld.deliver (w : HookWorld) (number : Nat) (answer : DeliveryAnswer) : HookWorld :=
  match w.spool[number]? with
  | none => w
  | some event =>
    let observer : SessionObserver :=
      { host := w.host, seq := event.seq, eventId := event.eventId, number }
    match answer with
    | .failed => w
    | .lost valid => { w with doc := (applyHookEvent w.doc event observer valid).2 }
    | .answered valid =>
      let (outcome, doc) := applyHookEvent w.doc event observer valid
      { w with doc, delivered := if outcome = .invalid then w.delivered else number :: w.delivered }

def HookWorld.step (env : HookEnv) (w : HookWorld) : HookStep → HookWorld
  | .start id task =>
    if (w.processes.get id).isSome then w
    else { w with processes := w.processes.set id { task } }
  | .advance id =>
    match w.processes.get id with
    | none => w
    | some p => w.advance env id p
  | .giveUp id =>
    match w.processes.get id with
    | some { task, phase := .locking } =>
      { w with processes := w.processes.set id { task, phase := .returned } }
    | _ => w
  -- the lock of a process that is gone can be taken over
  | .kill id =>
    match w.processes.get id with
    | none => w
    | some p =>
      { w with
        lock := if w.lock = some id then none else w.lock
        torn := w.torn || p.phase.tears
        processes := w.processes.set id { p with phase := .returned } }
  | .fence => { w with fenced := true }
  | .deliver number answer => w.deliver number answer

def HookWorld.run (env : HookEnv) (w : HookWorld) (steps : List HookStep) : HookWorld :=
  Machine.run (HookWorld.step env) w steps

end AgentLcars
