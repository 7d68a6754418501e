import AgentLcars.Lib.OrderedMap
import AgentLcars.Lib.Runs
import AgentLcars.Model

/-!
# The hook spool

`apps/telemetry-watcher`, `spool.ts`: hooks append events to a live file, and a drain renames it to a
pending file, hands its events to `send`, and writes back those that it did not settle.  Appenders
hold no common lock, and every file operation is a step of its own.

A file is the list of its lines, absent when there is none; a temporary file is its writer's own.
Every line carries the number of the append that wrote it, which the code does not see.

* `Appender.step` models `appendToSpool`, with the size trim; `SpoolDrain.step` models `drainSpool`.
* `SpoolWorld.step`: any number of appenders, and one drain at a time.
-/

namespace AgentLcars

/-- `JSON.stringify` and `JSON.parse` on events. -/
structure SpoolEnv (Event : Type) where
  stringify : Event → String
  parse : String → Option Event
  parse_stringify : ∀ event, parse (stringify event) = some event

/-! ### Files -/

structure SpoolLine where
  number : Nat
  text : String
  deriving DecidableEq

abbrev SpoolFile := Option (List SpoolLine)

/-- `readLines`: an absent file has none. -/
def readLines (file : SpoolFile) : List SpoolLine := file.getD []

/-- `fs.statSync(filePath).size`, every line with its newline; 0 when there is no file. -/
def fileSize (file : SpoolFile) : Nat :=
  ((readLines file).map fun line => line.text.utf8ByteSize + 1).sum

/-! ### Appending -/

def SPOOL_MAX_BYTES : Nat := 5 * 1024 * 1024

/-- The newest lines that fit, newest first, after `total`. -/
def keepFitting (maxBytes : Nat) : Nat → List SpoolLine → List SpoolLine
  | _, [] => []
  | total, candidate :: older =>
    if total + jsLength candidate.text + 1 > maxBytes then []
    else candidate :: keepFitting maxBytes (total + (jsLength candidate.text + 1)) older

/-- The lines that a trim keeps. -/
def keptLines (maxBytes : Nat) (line : String) (lines : List SpoolLine) : List SpoolLine :=
  (keepFitting maxBytes (jsLength line + 1) lines.reverse).reverse

/-- Where an `appendToSpool` stands.  A trim remembers the size it found and the lines it read. -/
inductive AppendPhase where
  | stating
  | reading (size : Nat)
  | writingTemporary (size : Nat) (lines : List SpoolLine)
  | replacing (size : Nat) (lines : List SpoolLine)
  | unlinking (size : Nat) (lines : List SpoolLine)
  | appending
  | returned
  deriving DecidableEq

structure Appender (Event : Type) where
  event : Event
  maxBytes : Nat := SPOOL_MAX_BYTES
  phase : AppendPhase := .stating

/-- A trim replaced the lines of the live file by those it kept. -/
structure SpoolTrim where
  size : Nat
  line : String
  maxBytes : Nat
  replaced : List SpoolLine
  kept : List SpoolLine

/-! ### Draining -/

inductive SpoolSendOutcome where
  | sent
  | drop
  | retry
  deriving DecidableEq

/-- The event is done with. -/
def SpoolSendOutcome.settles (outcome : SpoolSendOutcome) : Bool := outcome ≠ .retry

/-- An event was handed to `send`. -/
structure Handover (Event : Type) where
  number : Nat
  event : Event
  outcome : SpoolSendOutcome

/-- Where a `drainSpool` stands, and what it has read of the pending file. -/
inductive SpoolDrainPhase where
  | checking
  | taking
  | reading
  | sending (lines : List SpoolLine) (index : Nat)
  | writingTemporary (lines : List SpoolLine) (index : Nat)
  | replacing (lines : List SpoolLine) (index : Nat)
  | unlinking (lines : List SpoolLine) (index : Nat)
  | returned
  deriving DecidableEq

/-- The locals of a drain. -/
structure SpoolDrain where
  maxEvents : Nat := 20
  round : Nat := 0
  sent : Nat := 0
  dropped : Nat := 0
  stopped : Bool := false
  phase : SpoolDrainPhase := .checking

/-! ### The files and who works on them -/

structure SpoolWorld (Event : Type) where
  live : SpoolFile := none
  pending : SpoolFile := none
  appenders : OrderedMap Nat (Appender Event) := .empty
  drain : Option SpoolDrain := none
  appended : List Event := []
  handed : List (Handover Event) := []
  trims : List SpoolTrim := []

variable {Event : Type}

def SpoolWorld.init : SpoolWorld Event := {}

/-- The next file operation of an `appendToSpool`. -/
def Appender.step (env : SpoolEnv Event) (w : SpoolWorld Event) (a : Appender Event) :
    AppendPhase × SpoolWorld Event :=
  let line := env.stringify a.event
  match a.phase with
  | .stating =>
    let size := fileSize w.live
    if size + jsLength line + 1 > a.maxBytes then (.reading size, w) else (.appending, w)
  | .reading size =>
    let lines := readLines w.live
    if keptLines a.maxBytes line lines = [] then (.unlinking size lines, w)
    else (.writingTemporary size lines, w)
  | .writingTemporary size lines => (.replacing size lines, w)
  | .replacing size lines =>
    let kept := keptLines a.maxBytes line lines
    (.appending, { w with
      live := some kept
      trims := w.trims ++
        [{ size, line, maxBytes := a.maxBytes, replaced := readLines w.live, kept }] })
  | .unlinking size _ =>
    (.appending, { w with
      live := none
      trims := w.trims ++
        [{ size, line, maxBytes := a.maxBytes, replaced := readLines w.live, kept := [] }] })
  | .appending =>
    (.returned, { w with
      live := some (readLines w.live ++ [{ number := w.appended.length, text := line }])
      appended := w.appended ++ [a.event] })
  | .returned => (.returned, w)

/-- The pending file is written back without the lines before `index`. -/
def writeBack (lines : List SpoolLine) (index : Nat) : SpoolDrainPhase :=
  if lines.drop index = [] then .unlinking lines index else .writingTemporary lines index

/-- The end of a round. -/
def SpoolDrain.nextRound (d : SpoolDrain) (lines : List SpoolLine) (index : Nat) :
    SpoolDrain :=
  let stopped := d.stopped || decide (index < lines.length)
  { d with
    stopped, round := d.round + 1
    phase := if d.round + 1 < 2 ∧ stopped = false then .checking else .returned }

/-- The next step of a `drainSpool`, with what `send` answers if it is asked. -/
def SpoolDrain.step (env : SpoolEnv Event) (w : SpoolWorld Event) (d : SpoolDrain)
    (outcome : SpoolSendOutcome) : SpoolDrain × SpoolWorld Event :=
  match d.phase with
  | .checking => ({ d with phase := if w.pending.isSome then .reading else .taking }, w)
  | .taking =>
    match w.live with
    | none => ({ d with phase := .returned }, w)
    | some lines => ({ d with phase := .reading }, { w with live := none, pending := some lines })
  | .reading => ({ d with phase := .sending (readLines w.pending) 0 }, w)
  | .sending lines index =>
    match lines[index]? with
    | none => ({ d with phase := writeBack lines index }, w)
    | some line =>
      if d.sent + d.dropped < d.maxEvents then
        match env.parse line.text with
        | none => ({ d with dropped := d.dropped + 1, phase := .sending lines (index + 1) }, w)
        | some event =>
          let w := { w with handed := w.handed ++ [{ number := line.number, event, outcome }] }
          match outcome with
          | .retry => ({ d with stopped := true, phase := writeBack lines index }, w)
          | .sent => ({ d with sent := d.sent + 1, phase := .sending lines (index + 1) }, w)
          | .drop => ({ d with dropped := d.dropped + 1, phase := .sending lines (index + 1) }, w)
      else ({ d with phase := writeBack lines index }, w)
  | .writingTemporary lines index => ({ d with phase := .replacing lines index }, w)
  | .replacing lines index =>
    (d.nextRound lines index, { w with pending := some (lines.drop index) })
  | .unlinking lines index => (d.nextRound lines index, { w with pending := none })
  | .returned => (d, w)

inductive SpoolStep (Event : Type) where
  | append (id : Nat) (event : Event) (maxBytes : Nat)
  | appender (id : Nat)
  | drain (maxEvents : Nat)
  | drainer (outcome : SpoolSendOutcome)

/-- A drain is under way. -/
def SpoolWorld.draining (w : SpoolWorld Event) : Bool :=
  match w.drain with
  | none => false
  | some d => d.phase ≠ .returned

/-- Whoever finds the spool locked leaves it alone. -/
def SpoolWorld.step (env : SpoolEnv Event) (w : SpoolWorld Event) :
    SpoolStep Event → SpoolWorld Event
  | .append id event maxBytes =>
    if (w.appenders.get id).isSome then w
    else { w with appenders := w.appenders.set id { event, maxBytes } }
  | .appender id =>
    match w.appenders.get id with
    | none => w
    | some a =>
      let (phase, w) := a.step env w
      { w with appenders := w.appenders.set id { a with phase } }
  | .drain maxEvents => if w.draining then w else { w with drain := some { maxEvents } }
  | .drainer outcome =>
    match w.drain with
    | none => w
    | some d =>
      let (d, w) := d.step env w outcome
      { w with drain := some d }

def SpoolWorld.run (env : SpoolEnv Event) (w : SpoolWorld Event) (steps : List (SpoolStep Event)) :
    SpoolWorld Event :=
  Machine.run (SpoolWorld.step env) w steps

end AgentLcars
