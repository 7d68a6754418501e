import AgentLcars.Lib.OrderedMap
import AgentLcars.Lib.Runs

/-!
# The lock file

`apps/telemetry-watcher`, `file-lock.ts`: processes of one host take a lock by creating its file, and
take it over from a holder that is gone or silent.  Takeovers are serialized by a guard file, which is
itself given up after a while.  Every file operation is a step of its own; creating a file with a
content is two, since the file is there before its content is.

A file keeps the process that created it, which the code only knows when the content says so.  The
inode number of a new file is an input, so that numbers may be used again.

* `LockWorld.advance` models `acquireFileLock` with `removeIfStale`, `touchLock`, `releaseFileLock`.
-/

namespace AgentLcars

/-- A process id, and the inode number of a file. -/
abbrev Pid := Nat
abbrev Ino := Nat

/-- A lock or guard file.  The descriptor of its creator refers to `object`. -/
structure LockFile where
  object : Nat
  ino : Ino
  mtimeMs : Int
  content : Option Pid
  creator : Pid
  deriving DecidableEq

/-- `TAKEOVER_STALE_MS`. -/
def TAKEOVER_STALE_MS : Int := 5000

/-- What `fs.statSync` said of the lock. -/
structure LockStats where
  ino : Ino
  mtimeMs : Int
  deriving DecidableEq

/-- Where a process stands.  `creating true` is the first try of a round, before it looks for a stale
lock; what a takeover has read so far goes along. -/
inductive LockPhase where
  | idle
  | creating (first : Bool)
  | writingPid (object : Nat)
  | holding
  | touching (time : Int)
  | releasing
  | readingClock
  | creatingGuard (now : Int)
  | writingGuard (now : Int) (object : Nat)
  | statGuard (now : Int)
  | unlinkAbandoned
  | statLock (now : Int)
  | readLock (now : Int) (before : LockStats)
  | judging (now : Int) (before : LockStats) (holder : Option Pid)
  | statAgain (now : Int) (before : LockStats) (holder : Option Pid)
  | readAgain (now : Int) (before : LockStats) (holder : Option Pid)
  | unlinkLock
  | unlinkGuard
  | waiting
  deriving DecidableEq

structure LockProcess where
  alive : Bool := true
  deadline : Int := 0
  phase : LockPhase := .idle
  deriving DecidableEq

structure LockWorld where
  clock : Int := 0
  lock : Option LockFile := none
  guard : Option LockFile := none
  processes : OrderedMap Pid LockProcess := .empty
  nextObject : Nat := 0

def LockWorld.init : LockWorld := {}

/-- `holderIsGone` asks for a process that was there and was killed. -/
def LockWorld.gone (w : LockWorld) (pid : Pid) : Bool :=
  match w.processes.get pid with
  | none => false
  | some p => !p.alive

def LockWorld.holderIsGone (w : LockWorld) (holder : Option Pid) : Bool :=
  match holder with
  | none => false
  | some pid => w.gone pid

/-- A new file. -/
def LockWorld.newFile (w : LockWorld) (pid : Pid) (ino : Ino) : LockFile :=
  { object := w.nextObject, ino, mtimeMs := w.clock, content := none, creator := pid }

/-- What a write through the descriptor of an object leaves of a file. -/
def writePid (clock : Int) (pid : Pid) (object : Nat) (file : Option LockFile) : Option LockFile :=
  file.map fun f =>
    if f.object = object then { f with content := some pid, mtimeMs := clock } else f

/-- The next file operation of a process. -/
def LockWorld.advance (staleMs : Int) (w : LockWorld) (pid : Pid) (p : LockProcess) (ino : Ino) :
    LockWorld :=
  let moved (phase : LockPhase) := w.processes.set pid { p with phase }
  match p.phase with
  | .idle | .holding => w
  -- acquireFileLock
  | .creating first =>
    match w.lock with
    | none =>
      { w with
        lock := some (w.newFile pid ino), nextObject := w.nextObject + 1
        processes := moved (.writingPid w.nextObject) }
    | some _ => { w with processes := moved (if first then .readingClock else .waiting) }
  | .writingPid object =>
    { w with lock := writePid w.clock pid object w.lock, processes := moved .holding }
  | .waiting =>
    { w with processes := moved (if p.deadline ≤ w.clock then .idle else .creating true) }
  -- touchLock and releaseFileLock do not look whose file it is
  | .touching time =>
    { w with
      lock := w.lock.map fun f => { f with mtimeMs := time }
      processes := moved .holding }
  | .releasing => { w with lock := none, processes := moved .idle }
  -- removeIfStale
  | .readingClock => { w with processes := moved (.creatingGuard w.clock) }
  | .creatingGuard now =>
    match w.guard with
    | none =>
      { w with
        guard := some (w.newFile pid ino), nextObject := w.nextObject + 1
        processes := moved (.writingGuard now w.nextObject) }
    | some _ => { w with processes := moved (.statGuard now) }
  | .writingGuard now object =>
    { w with guard := writePid w.clock pid object w.guard, processes := moved (.statLock now) }
  | .statGuard now =>
    let abandoned := w.guard.any fun g => TAKEOVER_STALE_MS < now - g.mtimeMs
    { w with processes := moved (if abandoned then .unlinkAbandoned else .creating false) }
  | .unlinkAbandoned => { w with guard := none, processes := moved (.creating false) }
  | .statLock now =>
    match w.lock with
    | none => { w with processes := moved .unlinkGuard }
    | some f =>
      let before : LockStats := { ino := f.ino, mtimeMs := f.mtimeMs }
      { w with processes := moved (.readLock now before) }
  | .readLock now before =>
    match w.lock with
    | none => { w with processes := moved .unlinkGuard }
    | some f => { w with processes := moved (.judging now before f.content) }
  | .judging now before holder =>
    let stale := decide (staleMs < now - before.mtimeMs) || w.holderIsGone holder
    { w with processes := moved (if stale then .statAgain now before holder else .unlinkGuard) }
  | .statAgain now before holder =>
    let same := w.lock.any fun f => f.ino = before.ino ∧ f.mtimeMs = before.mtimeMs
    { w with processes := moved (if same then .readAgain now before holder else .unlinkGuard) }
  | .readAgain _ _ holder =>
    let same := w.lock.any fun f => f.content = holder
    { w with processes := moved (if same then .unlinkLock else .unlinkGuard) }
  | .unlinkLock => { w with lock := none, processes := moved .unlinkGuard }
  | .unlinkGuard => { w with guard := none, processes := moved (.creating false) }

inductive LockStep where
  | acquire (pid : Pid) (waitMs : Int)
  | advance (pid : Pid) (ino : Ino)
  | touch (pid : Pid)
  | release (pid : Pid)
  | kill (pid : Pid)
  | tick (ms : Nat)

/-- A new process, or one that is idle, may acquire; a holder may touch or release. -/
def LockWorld.step (staleMs : Int) (w : LockWorld) : LockStep → LockWorld
  | .acquire pid waitMs =>
    match w.processes.get pid with
    | none | some { alive := true, phase := .idle, .. } =>
      let p : LockProcess := { deadline := w.clock + waitMs, phase := .creating true }
      { w with processes := w.processes.set pid p }
    | _ => w
  | .advance pid ino =>
    match w.processes.get pid with
    | none => w
    | some p => if p.alive then w.advance staleMs pid p ino else w
  | .touch pid =>
    match w.processes.get pid with
    | some { alive := true, deadline, phase := .holding } =>
      { w with processes := w.processes.set pid { deadline, phase := .touching w.clock } }
    | _ => w
  | .release pid =>
    match w.processes.get pid with
    | some { alive := true, deadline, phase := .holding } =>
      { w with processes := w.processes.set pid { deadline, phase := .releasing } }
    | _ => w
  | .kill pid =>
    match w.processes.get pid with
    | none => w
    | some p => { w with processes := w.processes.set pid { p with alive := false } }
  | .tick ms => { w with clock := w.clock + ms }

def LockWorld.run (staleMs : Int) (w : LockWorld) (steps : List LockStep) : LockWorld :=
  Machine.run (LockWorld.step staleMs) w steps

end AgentLcars
