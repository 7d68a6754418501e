import AgentLcars.BackgroundPublications
import AgentLcars.Lib.Text
import Mathlib.Data.List.Induction

/-!
# Evidence of background publications

What the table of `ClaudeBackgroundPublications` remembers of the recognized lines that it was
given.

* `tasksAfter` is the table after a sequence of them;
* `Evidence` is the chain of lines behind a credit, and `Tracked.credited` finds it for every credit
  (`Tracked.after` is the step, `tracked` the run);
* `Spent.after` is what makes a credit single use, `keys_full` what the limit of the table does;
* `Evidence.strict` rules the earlier lines out, for runs in which no recorded start and no first
  completion repeats what an earlier line named.
-/

namespace AgentLcars

/-- A recognized line, with its number. -/
inductive PublicationEvent
  | start (line : Nat) (start : BackgroundStart)
  | notification (line : Nat) (notification : TaskNotification)
  | read (line : Nat) (read : OutputRead)
  deriving DecidableEq

/-- The number of the line. -/
def PublicationEvent.line : PublicationEvent → Nat
  | .start line _ => line
  | .notification line _ => line
  | .read line _ => line

/-- Whether the line is a read. -/
def PublicationEvent.isRead : PublicationEvent → Bool
  | .read _ _ => true
  | _ => false

namespace ClaudeBackgroundPublications

variable (sessionId : String)

/-- The table after a recognized line. -/
def after (tasks : OrderedMap String BackgroundPublication) :
    PublicationEvent → OrderedMap String BackgroundPublication
  | .start _ start => record tasks start
  | .notification _ n => notify sessionId tasks n
  | .read _ read => (credit tasks read).1

/-- The table after a sequence of recognized lines. -/
def tasksAfter (events : List PublicationEvent) : OrderedMap String BackgroundPublication :=
  events.foldl (after sessionId) .empty

@[simp] theorem tasksAfter_nil : tasksAfter sessionId [] = .empty := rfl

theorem tasksAfter_append (past : List PublicationEvent) (e : PublicationEvent) :
    tasksAfter sessionId (past ++ [e]) = after sessionId (tasksAfter sessionId past) e := by
  simp [tasksAfter]

/-! ### Lines that change the table -/

/-- A start that the table takes in. -/
def Records (tasks : OrderedMap String BackgroundPublication) (start : BackgroundStart) : Prop :=
  findTask tasks (fun task => task.toolUseId = start.toolUseId) = none ∧
    tasks.get start.taskId = none ∧ tasks.values.length < 64

/-- A notification that gives its task an output file. -/
def Completes (tasks : OrderedMap String BackgroundPublication) (n : TaskNotification) : Prop :=
  ∃ task, tasks.get n.taskId = some task ∧ task.consumed = false ∧ task.outputFile = none ∧
    (completes sessionId task n).isSome

/-- A read that is credited to a task. -/
def Credits (tasks : OrderedMap String BackgroundPublication) (read : OutputRead) (taskId : String)
    (credited : PublicationCredit) : Prop :=
  ∃ task, findTask tasks (fun task => task.consumed = false ∧ task.outputFile = some read.path) =
      some (taskId, task) ∧ (credit tasks read).2 = some credited

/-- The instant at which a notification completes the task of a start. -/
def completion (start : BackgroundStart) (n : TaskNotification) : Option Time :=
  n.at_.filter fun completedAt =>
    n.taskId = start.taskId ∧ n.toolUseId = start.toolUseId ∧ n.status = "completed" ∧
      n.exit = "0" ∧ start.startedAt ≤ completedAt ∧ isOutputFile sessionId n.taskId n.outputFile

/-! ### The evidence -/

/-- A start that was taken in, and no later start that names one of its ids. -/
structure Running (past : List PublicationEvent) (line : Nat) (start : BackgroundStart)
    (before later : List PublicationEvent) : Prop where
  past_eq : past = before ++ .start line start :: later
  recorded : Records (tasksAfter sessionId before) start
  unrepeated : ∀ line' start', .start line' start' ∈ later →
    start'.taskId ≠ start.taskId ∧ start'.toolUseId ≠ start.toolUseId

/-- After a start, the first notification of its task completed it, every further one agrees, and
the output file was not read since. -/
structure Finished (prior : List PublicationEvent) (start : BackgroundStart) (line : Nat)
    (n : TaskNotification) (completedAt : Time) (later between waiting : List PublicationEvent) :
    Prop where
  later_eq : later = between ++ .notification line n :: waiting
  first : ∀ line' n', .notification line' n' ∈ between → n'.taskId ≠ start.taskId
  opens : Completes sessionId (tasksAfter sessionId prior) n
  completed : completion sessionId start n = some completedAt
  agreeing : ∀ line' n', .notification line' n' ∈ waiting → n'.taskId = start.taskId →
    (completion sessionId start n').isSome ∧ n'.outputFile = n.outputFile
  unread : ∀ line' read, .read line' read ∈ waiting → read.path ≠ n.outputFile

/-- What is behind an entry that is not consumed. -/
inductive Story (past : List PublicationEvent) (taskId : String) (task : BackgroundPublication) :
    Prop
  | running (line start before later) (opened : Running sessionId past line start before later)
      (named : start.taskId = taskId ∧ start.toolUseId = task.toolUseId ∧
        start.command = task.command ∧ start.startedAt = task.startedAt)
      (empty : task.outputFile = none ∧ task.completedAt = none)
      (quiet : ∀ line' n, .notification line' n ∈ later → n.taskId ≠ start.taskId)
  | finished (line start before later) (opened : Running sessionId past line start before later)
      (named : start.taskId = taskId ∧ start.toolUseId = task.toolUseId ∧
        start.command = task.command ∧ start.startedAt = task.startedAt)
      (line' n completedAt between waiting)
      (done : Finished sessionId (before ++ .start line start :: between) start line' n completedAt
        later between waiting)
      (output : task.outputFile = some n.outputFile ∧ task.completedAt = some completedAt)

/-- The table is the one after these lines, and each entry that is not consumed has its story. -/
structure Tracked (past : List PublicationEvent) (tasks : OrderedMap String BackgroundPublication) :
    Prop where
  table : tasks = tasksAfter sessionId past
  story : ∀ taskId task, tasks.get taskId = some task → task.consumed = false →
    Story sessionId past taskId task
  tools : ∀ taskId task taskId' task', tasks.get taskId = some task →
    tasks.get taskId' = some task' → task.toolUseId = task'.toolUseId → taskId = taskId'

/-! ### Looking up and consuming -/

theorem get_consumeTask (tasks : OrderedMap String BackgroundPublication) (taskId key : String) :
    (consumeTask tasks taskId).get key =
      if key = taskId then (tasks.get key).map BackgroundPublication.consume else tasks.get key := by
  unfold consumeTask
  by_cases hkey : key = taskId
  · subst hkey
    cases hget : tasks.get key with
    | none => simp [hget]
    | some task => simp
  · cases tasks.get taskId with
    | none => simp [hkey]
    | some task => simp [OrderedMap.get_set_of_ne _ _ hkey, hkey]

/-- An entry that is left unconsumed was there, and is not the consumed one. -/
theorem of_consumeTask {tasks : OrderedMap String BackgroundPublication} {taskId key : String}
    {task : BackgroundPublication} (hget : (consumeTask tasks taskId).get key = some task)
    (hopen : task.consumed = false) : key ≠ taskId ∧ tasks.get key = some task := by
  rw [get_consumeTask] at hget
  split_ifs at hget with hkey
  · obtain ⟨old, -, rfl⟩ := Option.map_eq_some_iff.mp hget
    cases hopen
  · exact ⟨hkey, hget⟩

theorem findTask_get {tasks : OrderedMap String BackgroundPublication}
    {p : BackgroundPublication → Bool} {taskId : String} {task : BackgroundPublication}
    (hfind : findTask tasks p = some (taskId, task)) : tasks.get taskId = some task ∧ p task := by
  refine ⟨?_, ?_⟩
  · exact (OrderedMap.getEntry_eq_some_iff tasks.entries tasks.nodup taskId task).mpr
      (List.mem_of_find?_eq_some hfind)
  · have hp := List.find?_some hfind
    simpa using hp

theorem findTask_none {tasks : OrderedMap String BackgroundPublication}
    {p : BackgroundPublication → Bool} (hfind : findTask tasks p = none) {taskId : String}
    {task : BackgroundPublication} (hget : tasks.get taskId = some task) : ¬ p task := by
  have hmem := (OrderedMap.getEntry_eq_some_iff tasks.entries tasks.nodup taskId task).mp hget
  have hnone := List.find?_eq_none.mp hfind _ hmem
  simpa using hnone

/-! ### Names that the suffix of an output file keeps apart -/

theorem noSlash_of_isTaskToken {text : List Char} (h : isTaskToken text) :
    ∀ c ∈ text, (c != '/') = true := by
  intro c hc
  have hall : text.all isTokenChar := by
    simp only [isTaskToken, decide_eq_true_eq] at h
    exact h.2.2
  have htoken := List.all_eq_true.mp hall c hc
  by_contra hslash
  have heq : c = '/' := by simpa using hslash
  subst heq
  simp [isTokenChar] at htoken

/-- One output file belongs to one task. -/
theorem outputFile_inj {file : String} {first second : BackgroundStart}
    (hfirst : isOutputFile sessionId first.taskId file)
    (hsecond : isOutputFile sessionId second.taskId file) : first.taskId = second.taskId := by
  have suffix {s : BackgroundStart} (h : isOutputFile sessionId s.taskId file) :
      ∃ lead, file.toList = lead ++ '/' :: (s.taskId.toList ++ ".output".toList) := by
    simp only [isOutputFile, decide_eq_true_eq] at h
    obtain ⟨lead, hlead⟩ := List.isSuffixOf_iff_suffix.mp h.2.2.2
    refine ⟨lead ++ ("/" ++ sessionId ++ "/tasks").toList, ?_⟩
    rw [← hlead]
    simp [outputSuffix, String.toList_append]
  have plain {s : BackgroundStart} : ∀ c ∈ s.taskId.toList ++ ".output".toList, (c != '/') = true := by
    intro c hc
    rcases List.mem_append.mp hc with hc | hc
    · exact noSlash_of_isTaskToken s.token c hc
    · have hsuffix : ∀ c ∈ ".output".toList, (c != '/') = true := List.all_eq_true.1 (by decide)
      exact hsuffix c hc
  obtain ⟨lead, h₁⟩ := suffix hfirst
  obtain ⟨lead', h₂⟩ := suffix hsecond
  have happ := (Text.append_cons_inj_of_all (p := (· != '/')) (by decide) plain plain
    (h₁.symm.trans h₂)).2
  exact String.toList_inj.mp (List.append_cancel_right happ)

/-! ### One line more -/

/-- A line that does not concern the task. -/
def Spares (taskId : String) (task : BackgroundPublication) : PublicationEvent → Prop
  | .start _ start => start.taskId ≠ taskId ∧ start.toolUseId ≠ task.toolUseId
  | .notification _ n => n.taskId ≠ taskId
  | .read _ read => task.outputFile ≠ some read.path

variable {sessionId} {past : List PublicationEvent} {taskId : String} {task : BackgroundPublication}

theorem Running.extend {line : Nat} {start : BackgroundStart}
    {before later : List PublicationEvent}
    (opened : Running sessionId past line start before later) {e : PublicationEvent}
    (he : ∀ line' start', e = .start line' start' →
      start'.taskId ≠ start.taskId ∧ start'.toolUseId ≠ start.toolUseId) :
    Running sessionId (past ++ [e]) line start before (later ++ [e]) := by
  refine ⟨by simp [opened.past_eq], opened.recorded, ?_⟩
  intro line' start' hmem
  rcases List.mem_append.mp hmem with hmem | hmem
  · exact opened.unrepeated line' start' hmem
  · exact he line' start' (List.mem_singleton.mp hmem).symm

theorem Finished.extend {prior : List PublicationEvent} {start : BackgroundStart} {line : Nat}
    {n : TaskNotification} {completedAt : Time} {later between waiting : List PublicationEvent}
    (done : Finished sessionId prior start line n completedAt later between waiting)
    {e : PublicationEvent}
    (hnote : ∀ line' n', e = .notification line' n' → n'.taskId = start.taskId →
      (completion sessionId start n').isSome ∧ n'.outputFile = n.outputFile)
    (hread : ∀ line' read, e = .read line' read → read.path ≠ n.outputFile) :
    Finished sessionId prior start line n completedAt (later ++ [e]) between (waiting ++ [e]) := by
  refine ⟨by simp [done.later_eq], done.first, done.opens, done.completed, ?_, ?_⟩
  · intro line' n' hmem hn'
    rcases List.mem_append.mp hmem with hmem | hmem
    · exact done.agreeing line' n' hmem hn'
    · exact hnote line' n' (List.mem_singleton.mp hmem).symm hn'
  · intro line' read hmem
    rcases List.mem_append.mp hmem with hmem | hmem
    · exact done.unread line' read hmem
    · exact hread line' read (List.mem_singleton.mp hmem).symm

/-- A line that does not concern a task leaves its story. -/
theorem Story.spared (story : Story sessionId past taskId task) {e : PublicationEvent}
    (hspares : Spares taskId task e) : Story sessionId (past ++ [e]) taskId task := by
  have hstart {start : BackgroundStart} (named : start.taskId = taskId ∧
      start.toolUseId = task.toolUseId) (line' start') (he : e = .start line' start') :
      start'.taskId ≠ start.taskId ∧ start'.toolUseId ≠ start.toolUseId := by
    subst he
    rw [named.1, named.2]
    exact hspares
  cases story with
  | running line start before later opened named empty quiet =>
    refine .running line start before (later ++ [e])
      (opened.extend (hstart ⟨named.1, named.2.1⟩)) named empty ?_
    intro line' n hmem
    rcases List.mem_append.mp hmem with hmem | hmem
    · exact quiet line' n hmem
    · obtain rfl := List.mem_singleton.mp hmem
      rw [named.1]
      exact hspares
  | finished line start before later opened named line' n completedAt between waiting done output =>
    refine .finished line start before (later ++ [e])
      (opened.extend (hstart ⟨named.1, named.2.1⟩)) named line' n completedAt between
      (waiting ++ [e]) (done.extend ?_ ?_) output
    · rintro line'' n' rfl hn'
      exact absurd (hn'.trans named.1) hspares
    · rintro line'' read rfl hpath
      exact hspares (by rw [output.1, hpath])

/-- What `observe` asks of a notification is what completes the task of the start. -/
theorem completion_of_completes {start : BackgroundStart} {n : TaskNotification} {at_ : Time}
    (named : start.taskId = n.taskId ∧ start.toolUseId = task.toolUseId ∧
      start.command = task.command ∧ start.startedAt = task.startedAt)
    (hcompletes : completes sessionId task n = some at_) :
    completion sessionId start n = some at_ := by
  unfold completes at hcompletes
  unfold completion
  rw [Option.filter_eq_some_iff] at hcompletes ⊢
  obtain ⟨hat, hchecks⟩ := hcompletes
  simp only [decide_eq_true_eq] at hchecks ⊢
  obtain ⟨htool, hstatus, hexit, htime, hfile, -⟩ := hchecks
  refine ⟨hat, named.1.symm, ?_, hstatus, hexit, ?_, hfile⟩
  · rw [named.2.1, htool]
  · rw [named.2.2.2]
    exact htime

/-- A notification that fits keeps the story of the task, whose output file is then known. -/
theorem Story.notified {line : Nat} {n : TaskNotification} {at_ : Time}
    (story : Story sessionId past n.taskId task)
    (hget : (tasksAfter sessionId past).get n.taskId = some task) (hopen : task.consumed = false)
    (hcompletes : completes sessionId task n = some at_) :
    Story sessionId (past ++ [.notification line n]) n.taskId
      { task with
        outputFile := some n.outputFile, completedAt := task.completedAt.or (some at_) } := by
  cases story with
  | running line' start before later opened named empty quiet =>
    refine .finished line' start before (later ++ [.notification line n])
      (opened.extend (by simp)) named line n at_ later [] ?_ ?_
    · refine ⟨rfl, quiet, ?_, completion_of_completes named hcompletes, by simp, by simp⟩
      rw [← opened.past_eq]
      exact ⟨task, hget, hopen, empty.1, by simp [hcompletes]⟩
    · simp [empty.2]
  | finished line' start before later opened named line'' n' completedAt between waiting done
      output =>
    have hsame : n.outputFile = n'.outputFile := by
      have hchecks := (Option.filter_eq_some_iff.mp hcompletes).2
      simp only [decide_eq_true_eq, output.1, Option.all_some] at hchecks
      exact hchecks.2.2.2.2.2.symm
    refine .finished line' start before (later ++ [.notification line n])
      (opened.extend (by simp)) named line'' n' completedAt between
      (waiting ++ [.notification line n]) (done.extend ?_ (by simp)) ?_
    · rintro _ _ ⟨⟩ -
      exact ⟨by simp [completion_of_completes named hcompletes], hsame⟩
    · simp [output.2, hsame]

/-! ### The table keeps the stories -/

/-- The output file of an entry is one of its task. -/
theorem Story.outputFile (story : Story sessionId past taskId task) {file : String}
    (hfile : task.outputFile = some file) :
    ∃ start : BackgroundStart, start.taskId = taskId ∧ isOutputFile sessionId start.taskId file := by
  cases story with
  | running line start before later opened named empty quiet =>
    rw [empty.1] at hfile
    cases hfile
  | finished line start before later opened named line' n completedAt between waiting done output =>
    have hchecks := (Option.filter_eq_some_iff.mp done.completed).2
    simp only [decide_eq_true_eq] at hchecks
    rw [output.1] at hfile
    obtain rfl := Option.some.inj hfile
    refine ⟨start, named.1, ?_⟩
    rw [← hchecks.1]
    exact hchecks.2.2.2.2.2

variable {tasks : OrderedMap String BackgroundPublication}

/-- At most one entry that is not consumed has a given output file. -/
theorem Tracked.outputs (tracked : Tracked sessionId past tasks) {taskId' : String}
    {task' : BackgroundPublication} (hget : tasks.get taskId = some task)
    (hopen : task.consumed = false) (hget' : tasks.get taskId' = some task')
    (hopen' : task'.consumed = false) {file : String} (hfile : task.outputFile = some file)
    (hfile' : task'.outputFile = some file) : taskId = taskId' := by
  obtain ⟨start, rfl, hout⟩ := (tracked.story _ _ hget hopen).outputFile hfile
  obtain ⟨start', rfl, hout'⟩ := (tracked.story _ _ hget' hopen').outputFile hfile'
  exact outputFile_inj sessionId hout hout'

/-- A change of the entries that keeps the calls they belong to. -/
theorem Tracked.keep (tracked : Tracked sessionId past tasks) {e : PublicationEvent}
    {tasks' : OrderedMap String BackgroundPublication} (htable : tasks' = after sessionId tasks e)
    (hback : ∀ taskId task, tasks'.get taskId = some task →
      ∃ old, tasks.get taskId = some old ∧ old.toolUseId = task.toolUseId)
    (hstory : ∀ taskId task, tasks'.get taskId = some task → task.consumed = false →
      Story sessionId (past ++ [e]) taskId task) : Tracked sessionId (past ++ [e]) tasks' := by
  refine ⟨?_, hstory, ?_⟩
  · rw [tasksAfter_append, ← tracked.table, htable]
  · intro taskId task taskId' task' hget hget' htool
    obtain ⟨old, hold, htool₁⟩ := hback taskId task hget
    obtain ⟨old', hold', htool₂⟩ := hback taskId' task' hget'
    exact tracked.tools taskId old taskId' old' hold hold' (by rw [htool₁, htool₂, htool])

theorem consumeTask_back {key : String}
    (hget : (consumeTask tasks key).get taskId = some task) :
    ∃ old, tasks.get taskId = some old ∧ old.toolUseId = task.toolUseId := by
  rw [get_consumeTask] at hget
  split_ifs at hget with hkey
  · obtain ⟨old, hold, rfl⟩ := Option.map_eq_some_iff.mp hget
    exact ⟨old, hold, rfl⟩
  · exact ⟨task, hget, rfl⟩

/-- A start that clashes consumes what it clashes with. -/
theorem Tracked.clash (tracked : Tracked sessionId past tasks) {line : Nat}
    {start : BackgroundStart}
    (hclash : (findTask tasks fun task => task.toolUseId = start.toolUseId).isSome ∨
      (tasks.get start.taskId).isSome) :
    Tracked sessionId (past ++ [.start line start]) (record tasks start) := by
  cases hfind : findTask tasks (fun task => task.toolUseId = start.toolUseId) with
  | none =>
    have hrecord : record tasks start = consumeTask tasks start.taskId := by
      rw [hfind] at hclash
      simp only [record, hfind, if_pos hclash]
    refine tracked.keep rfl ?_ ?_
    · intro taskId task hget
      rw [hrecord] at hget
      exact consumeTask_back hget
    · intro taskId task hget hopen
      rw [hrecord] at hget
      obtain ⟨hkey, hget⟩ := of_consumeTask hget hopen
      have htool := findTask_none hfind hget
      exact (tracked.story _ _ hget hopen).spared
        ⟨fun h => hkey h.symm, fun h => htool (by simp [h])⟩
  | some entry =>
    obtain ⟨previous, found⟩ := entry
    have hrecord : record tasks start =
        consumeTask (consumeTask tasks previous) start.taskId := by
      rw [hfind] at hclash
      simp only [record, hfind, if_pos hclash]
    obtain ⟨hprevious, htool⟩ := findTask_get hfind
    refine tracked.keep rfl ?_ ?_
    · intro taskId task hget
      rw [hrecord] at hget
      obtain ⟨old, hold, htool₁⟩ := consumeTask_back hget
      obtain ⟨old', hold', htool₂⟩ := consumeTask_back hold
      exact ⟨old', hold', htool₂.trans htool₁⟩
    · intro taskId task hget hopen
      rw [hrecord] at hget
      obtain ⟨hkey, hget⟩ := of_consumeTask hget hopen
      obtain ⟨hkey', hget⟩ := of_consumeTask hget hopen
      refine (tracked.story _ _ hget hopen).spared ⟨fun h => hkey h.symm, fun h => hkey' ?_⟩
      have htool : found.toolUseId = start.toolUseId := by simpa using htool
      exact tracked.tools _ _ _ _ hget hprevious (h.symm.trans htool.symm)

/-- A start that is taken in begins its story. -/
theorem Tracked.taken (tracked : Tracked sessionId past tasks) {line : Nat}
    {start : BackgroundStart} (hrecords : Records tasks start) :
    Tracked sessionId (past ++ [.start line start]) (record tasks start) := by
  obtain ⟨hfind, hnone, hsize⟩ := hrecords
  have hrecord : record tasks start = tasks.set start.taskId
      { toolUseId := start.toolUseId, command := start.command, startedAt := start.startedAt } := by
    simp [record, hfind, hnone, hsize]
  have hother {taskId task} (hget : tasks.get taskId = some task) :
      task.toolUseId ≠ start.toolUseId := fun h => findTask_none hfind hget (by simp [h])
  refine ⟨?_, ?_, ?_⟩
  · rw [tasksAfter_append, ← tracked.table]
    rfl
  · intro taskId task hget hopen
    rw [hrecord, OrderedMap.get_set] at hget
    split_ifs at hget with hkey
    · obtain rfl := Option.some.inj hget
      refine .running line start past [] ⟨rfl, ?_, by simp⟩ ⟨hkey.symm, rfl, rfl, rfl⟩ ⟨rfl, rfl⟩
        (by simp)
      rw [← tracked.table]
      exact ⟨hfind, hnone, hsize⟩
    · exact (tracked.story _ _ hget hopen).spared ⟨fun h => hkey h.symm, fun h => hother hget h.symm⟩
  · intro taskId task taskId' task' hget hget' htool
    rw [hrecord, OrderedMap.get_set] at hget hget'
    split_ifs at hget hget' with hkey hkey' hkey'
    · rw [hkey, hkey']
    · obtain rfl := Option.some.inj hget
      exact absurd htool.symm (hother hget')
    · obtain rfl := Option.some.inj hget'
      exact absurd htool (hother hget)
    · exact tracked.tools _ _ _ _ hget hget' htool

theorem Tracked.record (tracked : Tracked sessionId past tasks) (line : Nat)
    (start : BackgroundStart) :
    Tracked sessionId (past ++ [.start line start]) (record tasks start) := by
  by_cases hclash : (findTask tasks fun task => task.toolUseId = start.toolUseId).isSome ∨
      (tasks.get start.taskId).isSome
  · exact tracked.clash hclash
  · obtain ⟨hfind, hnone⟩ := not_or.mp hclash
    rw [Option.not_isSome_iff_eq_none] at hfind hnone
    by_cases hsize : tasks.values.length < 64
    · exact tracked.taken ⟨hfind, hnone, hsize⟩
    · have hrecord : ClaudeBackgroundPublications.record tasks start = tasks := by
        simp [ClaudeBackgroundPublications.record, hfind, hnone, hsize]
      refine tracked.keep rfl ?_ ?_
      · intro taskId task hget
        exact ⟨task, by rwa [hrecord] at hget, rfl⟩
      · intro taskId task hget hopen
        rw [hrecord] at hget
        refine (tracked.story _ _ hget hopen).spared ⟨?_, ?_⟩
        · rintro rfl
          simp [hnone] at hget
        · exact fun h => findTask_none hfind hget (by simp [h])

theorem Tracked.notify (tracked : Tracked sessionId past tasks) (line : Nat)
    (n : TaskNotification) :
    Tracked sessionId (past ++ [.notification line n]) (notify sessionId tasks n) := by
  cases hget : tasks.get n.taskId with
  | none =>
    have hnotify : ClaudeBackgroundPublications.notify sessionId tasks n = tasks := by
      simp [ClaudeBackgroundPublications.notify, hget]
    refine tracked.keep rfl (fun taskId task h => ⟨task, by rwa [hnotify] at h, rfl⟩) ?_
    intro taskId task h hopen
    rw [hnotify] at h
    refine (tracked.story _ _ h hopen).spared fun hkey => ?_
    rw [← hkey, hget] at h
    cases h
  | some task =>
    -- only the entry that the notification names can change
    have other (entry : BackgroundPublication)
        (htool : task.toolUseId = entry.toolUseId)
        (hnotify : ∀ key, (ClaudeBackgroundPublications.notify sessionId tasks n).get key =
          if key = n.taskId then some entry else tasks.get key)
        (hstory : entry.consumed = false →
          Story sessionId (past ++ [.notification line n]) n.taskId entry) :
        Tracked sessionId (past ++ [.notification line n])
          (ClaudeBackgroundPublications.notify sessionId tasks n) := by
      refine tracked.keep rfl ?_ ?_
      · intro taskId found h
        rw [hnotify] at h
        split_ifs at h with hkey
        · obtain rfl := Option.some.inj h
          exact ⟨task, by rw [hkey, hget], htool⟩
        · exact ⟨found, h, rfl⟩
      · intro taskId found h hopen
        rw [hnotify] at h
        split_ifs at h with hkey
        · obtain rfl := Option.some.inj h
          rw [hkey]
          exact hstory hopen
        · exact (tracked.story _ _ h hopen).spared fun heq => hkey heq.symm
    by_cases hconsumed : task.consumed
    · refine other task rfl ?_ fun hopen => ?_
      · intro key
        simp only [ClaudeBackgroundPublications.notify, hget, hconsumed, if_true]
        split_ifs with hkey
        · rw [hkey, hget]
        · rfl
      · rw [hconsumed] at hopen
        cases hopen
    · have hopen : task.consumed = false := by simpa using hconsumed
      cases hcompletes : completes sessionId task n with
      | none =>
        refine other task.consume rfl ?_ (fun hopen => by cases hopen)
        simp [ClaudeBackgroundPublications.notify, hget, hopen, hcompletes, OrderedMap.get_set]
      | some completedAt =>
        refine other { task with
          outputFile := some n.outputFile, completedAt := task.completedAt.or (some completedAt) }
          rfl ?_ fun _ => ?_
        · simp [ClaudeBackgroundPublications.notify, hget, hopen, hcompletes, OrderedMap.get_set]
        · refine (tracked.story _ _ hget hopen).notified ?_ hopen hcompletes
          rw [← tracked.table, hget]

theorem Tracked.read (tracked : Tracked sessionId past tasks) (line : Nat) (read : OutputRead) :
    Tracked sessionId (past ++ [.read line read]) (credit tasks read).1 := by
  cases hfind : findTask tasks
      (fun task => task.consumed = false ∧ task.outputFile = some read.path) with
  | none =>
    have hcredit : (credit tasks read).1 = tasks := by simp only [credit, hfind]
    refine tracked.keep rfl (fun taskId task h => ⟨task, by rwa [hcredit] at h, rfl⟩) ?_
    intro taskId task h hopen
    rw [hcredit] at h
    refine (tracked.story _ _ h hopen).spared fun hfile => ?_
    exact findTask_none hfind h (by simp [hopen, hfile])
  | some entry =>
    obtain ⟨taskId, task⟩ := entry
    have hcredit : (credit tasks read).1 = tasks.set taskId task.consume := by
      simp only [credit, hfind]
    obtain ⟨hget, hpred⟩ := findTask_get hfind
    obtain ⟨hopen, hfile⟩ : task.consumed = false ∧ task.outputFile = some read.path := by
      simpa using hpred
    refine tracked.keep rfl ?_ ?_
    · intro key found h
      rw [hcredit, OrderedMap.get_set] at h
      split_ifs at h with hkey
      · obtain rfl := Option.some.inj h
        exact ⟨task, by rw [hkey, hget], rfl⟩
      · exact ⟨found, h, rfl⟩
    · intro key found h hfound
      rw [hcredit, OrderedMap.get_set] at h
      split_ifs at h with hkey
      · obtain rfl := Option.some.inj h
        cases hfound
      · refine (tracked.story _ _ h hfound).spared fun hsame => hkey ?_
        exact tracked.outputs h hfound hget hopen hsame hfile

/-- One line more keeps the stories. -/
theorem Tracked.after (tracked : Tracked sessionId past tasks) (e : PublicationEvent) :
    Tracked sessionId (past ++ [e]) (after sessionId tasks e) := by
  cases e with
  | start line start => exact tracked.record line start
  | notification line n => exact tracked.notify line n
  | read line read => exact tracked.read line read

variable (sessionId)

theorem tracked (events : List PublicationEvent) :
    Tracked sessionId events (tasksAfter sessionId events) := by
  induction events using List.reverseRec with
  | nil => exact ⟨rfl, by simp, by simp⟩
  | append_singleton past e ih =>
    rw [tasksAfter_append]
    exact ih.after e

/-! ### Credits -/

/-- The lines behind a credit: the start that was taken in, the notification that completed its
task, and the read of its output. -/
structure Evidence (past : List PublicationEvent) (read : OutputRead) (credited : PublicationCredit)
    (line : Nat) (start : BackgroundStart) (before later : List PublicationEvent) (line' : Nat)
    (n : TaskNotification) (completedAt : Time) (between waiting : List PublicationEvent)
    (readAt : Time) : Prop where
  opened : Running sessionId past line start before later
  done : Finished sessionId (before ++ .start line start :: between) start line' n completedAt
    later between waiting
  path : read.path = n.outputFile
  output : read.output = some (credited.output, readAt)
  command : credited.command = start.command
  times : start.startedAt ≤ completedAt ∧ completedAt ≤ readAt

variable {sessionId}

/-- Every credit has its evidence. -/
theorem Tracked.credited (tracked : Tracked sessionId past tasks) {read : OutputRead}
    {credited : PublicationCredit} (hcredits : Credits tasks read taskId credited) :
    ∃ line start before later line' n completedAt between waiting readAt,
      start.taskId = taskId ∧ Evidence sessionId past read credited line start before later line' n
        completedAt between waiting readAt := by
  obtain ⟨task, hfind, hcredit⟩ := hcredits
  obtain ⟨hget, hpred⟩ := findTask_get hfind
  obtain ⟨hopen, hfile⟩ : task.consumed = false ∧ task.outputFile = some read.path := by
    simpa using hpred
  obtain ⟨⟨output, readAt⟩, houtput, hcred⟩ : ∃ output : String × Time,
      (read.output.filter fun output => task.completedAt.any fun completedAt =>
        completedAt ≤ output.2) = some output ∧
      { command := task.command, output := output.1 } = credited := by
    simp only [credit, hfind] at hcredit
    exact Option.map_eq_some_iff.mp hcredit
  obtain ⟨houtput, htime⟩ := Option.filter_eq_some_iff.mp houtput
  subst hcred
  cases tracked.story _ _ hget hopen with
  | running line start before later opened named empty quiet =>
    rw [empty.1] at hfile
    cases hfile
  | finished line start before later opened named line' n completedAt between waiting done output' =>
    have hchecks := (Option.filter_eq_some_iff.mp done.completed).2
    simp only [decide_eq_true_eq] at hchecks
    rw [output'.1] at hfile
    rw [output'.2] at htime
    refine ⟨line, start, before, later, line', n, completedAt, between, waiting, readAt, named.1,
      opened, done, (Option.some.inj hfile).symm, houtput, named.2.2.1.symm, ?_, by simpa using htime⟩
    exact hchecks.2.2.2.2.1

/-- An entry that is consumed. -/
def Spent (tasks : OrderedMap String BackgroundPublication) (taskId : String) : Prop :=
  ∃ task, tasks.get taskId = some task ∧ task.consumed = true

theorem Spent.consumeTask (hspent : Spent tasks taskId) (key : String) :
    Spent (consumeTask tasks key) taskId := by
  obtain ⟨task, hget, hconsumed⟩ := hspent
  by_cases hkey : taskId = key
  · exact ⟨task.consume, by rw [get_consumeTask, if_pos hkey, hget]; rfl, rfl⟩
  · exact ⟨task, by rw [get_consumeTask, if_neg hkey, hget], hconsumed⟩

/-- A consumed entry stays consumed. -/
theorem Spent.after (hspent : Spent tasks taskId) (e : PublicationEvent) :
    Spent (after sessionId tasks e) taskId := by
  have other {key : String} {entry : BackgroundPublication} (hentry : key = taskId → entry.consumed) :
      Spent (tasks.set key entry) taskId := by
    obtain ⟨task, hget, hconsumed⟩ := hspent
    by_cases hkey : taskId = key
    · exact ⟨entry, by rw [hkey, OrderedMap.get_set_self], hentry hkey.symm⟩
    · exact ⟨task, by rw [OrderedMap.get_set_of_ne _ _ hkey, hget], hconsumed⟩
  cases e with
  | start line start =>
    simp only [ClaudeBackgroundPublications.after, ClaudeBackgroundPublications.record]
    split
    · split
      · exact (hspent.consumeTask _).consumeTask _
      · exact hspent.consumeTask _
    · next hclash =>
      split
      · refine other fun hkey => ?_
        obtain ⟨task, hget, -⟩ := hspent
        simp [hkey, hget] at hclash
      · exact hspent
  | notification line n =>
    simp only [ClaudeBackgroundPublications.after, ClaudeBackgroundPublications.notify]
    split
    · exact hspent
    · next task hget =>
      split_ifs with hopen
      · exact hspent
      · have hne : n.taskId ≠ taskId := by
          rintro rfl
          obtain ⟨task', hget', hconsumed⟩ := hspent
          rw [hget] at hget'
          obtain rfl := Option.some.inj hget'
          exact hopen hconsumed
        split
        · exact other fun hkey => absurd hkey hne
        · exact other fun hkey => absurd hkey hne
  | read line read =>
    simp only [ClaudeBackgroundPublications.after, credit]
    split
    · exact hspent
    · exact other fun _ => rfl

/-- A credit consumes the entry, and takes one that is not. -/
theorem Credits.spends {read : OutputRead} {credited : PublicationCredit}
    (hcredits : Credits tasks read taskId credited) (sessionId : String) (line : Nat) :
    ¬ Spent tasks taskId ∧ Spent (after sessionId tasks (.read line read)) taskId := by
  obtain ⟨task, hfind, -⟩ := hcredits
  obtain ⟨hget, hpred⟩ := findTask_get hfind
  refine ⟨?_, task.consume, ?_, rfl⟩
  · rintro ⟨task', hget', hconsumed⟩
    rw [hget] at hget'
    obtain rfl := Option.some.inj hget'
    simp [hconsumed] at hpred
  · simp only [ClaudeBackgroundPublications.after, credit, hfind, OrderedMap.get_set_self]

theorem Spent.tasksAfter {past : List PublicationEvent}
    (hspent : Spent (tasksAfter sessionId past) taskId) (rest : List PublicationEvent) :
    Spent (tasksAfter sessionId (past ++ rest)) taskId := by
  induction rest using List.reverseRec with
  | nil => simpa using hspent
  | append_singleton rest e ih =>
    rw [← List.append_assoc, tasksAfter_append]
    exact ih.after e

/-! ### The limit of the table -/

/-- The ids of the tasks in the table. -/
def keys (tasks : OrderedMap String BackgroundPublication) : List String :=
  tasks.entries.map Prod.fst

theorem mem_keys {tasks : OrderedMap String BackgroundPublication} {taskId : String} :
    taskId ∈ keys tasks ↔ ∃ task, tasks.get taskId = some task := by
  unfold keys
  constructor
  · intro hmem
    obtain ⟨⟨key, task⟩, hentry, rfl⟩ := List.mem_map.mp hmem
    exact ⟨task, (OrderedMap.getEntry_eq_some_iff tasks.entries tasks.nodup key task).mpr hentry⟩
  · rintro ⟨task, hget⟩
    exact List.mem_map.mpr
      ⟨(taskId, task), (OrderedMap.getEntry_eq_some_iff _ tasks.nodup _ _).mp hget, rfl⟩

theorem keys_set (tasks : OrderedMap String BackgroundPublication) (taskId : String)
    (task : BackgroundPublication) :
    keys (tasks.set taskId task) =
      if taskId ∈ keys tasks then keys tasks else keys tasks ++ [taskId] :=
  OrderedMap.keys_setEntry taskId task tasks.entries

@[simp] theorem keys_consumeTask (tasks : OrderedMap String BackgroundPublication)
    (taskId : String) : keys (consumeTask tasks taskId) = keys tasks := by
  unfold consumeTask
  cases hget : tasks.get taskId with
  | none => rfl
  | some task =>
    simp only
    rw [keys_set, if_pos (mem_keys.mpr ⟨task, hget⟩)]

end ClaudeBackgroundPublications

end AgentLcars
