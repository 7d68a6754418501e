import AgentLcars.PublicationEvidence

/-!
# The transcript reducer

`libs/telemetry/src/lib/reducer.ts`, as far as it is about Bash commands and their publications.

* `reduceLine` is one line, `reduceLines` a transcript;
* `SessionState` also records the recognized lines and the credits, which no step reads;
* `credits_single_use` is what a run credits, `repeated_task_credited` the ids it cannot keep apart.
-/

namespace AgentLcars

open ClaudeBackgroundPublications

/-! ### The session -/

/-- An entry of `pendingBashCommands`. -/
structure PendingBashCommand where
  command : String
  assistantUuid : Option String
  isSidechain : Bool

/-- `SessionState`, with the recognized lines and the credits of `finish`, each with the number of
recognized lines before it. -/
structure SessionState where
  pendingBashCommands : OrderedMap String PendingBashCommand := .empty
  backgroundPublications : ClaudeBackgroundPublications
  events : List PublicationEvent := []
  credits : List (Nat × PublicationCredit) := []

/-- `createState`. -/
def createState (sessionId : String) : SessionState :=
  { backgroundPublications := { sessionId } }

namespace SessionState

variable (env : TranscriptEnv) (line : Nat) (raw : JsRecord) (isSidechain : Bool)

/-- The background publications after a recognized line, which is recorded. -/
def recognize (state : SessionState) (publications : ClaudeBackgroundPublications)
    (event : Option PublicationEvent) (completed : Option PublicationCredit) : SessionState :=
  { state with
    backgroundPublications := publications
    events := state.events ++ event.toList
    credits := state.credits ++ (completed.map fun credited => (state.events.length, credited)).toList }

/-- What `applyMessage` does with a result of a pending command. -/
def finishCommand (state : SessionState) (record : JsRecord) (toolUseId : String)
    (pending : PendingBashCommand) : SessionState :=
  let started := state.backgroundPublications.start env raw toolUseId pending.command
    pending.assistantUuid
  if env.isDeliverableCommand pending.command ∧ started.1 then
    state.recognize started.2
      ((backgroundStart env raw toolUseId pending.command pending.assistantUuid).map (.start line))
      none
  else
    let completed := state.backgroundPublications.finish env raw pending.command record
      pending.assistantUuid
    state.recognize completed.2
      ((outputRead env raw pending.command record pending.assistantUuid).map (.read line))
      completed.1

/-- A block of a user's message. -/
def applyUserBlock (state : SessionState) (block : Json) : SessionState :=
  match asRecord (some block) with
  | none => state
  | some record =>
    if asString (record.lookup "type") ≠ some "tool_result" then state
    else
      let toolUseId := (asString (record.lookup "tool_use_id")).getD ""
      if toolUseId = "" then state
      else
        let pending := state.pendingBashCommands.get toolUseId
        let state :=
          { state with pendingBashCommands := state.pendingBashCommands.erase toolUseId }
        match pending with
        | none => state
        | some pending =>
          if pending.isSidechain ∨ isSidechain then state
          else state.finishCommand env line raw record toolUseId pending

/-- A block of the assistant's message. -/
def applyAssistantBlock (state : SessionState) (block : Json) : SessionState :=
  match asRecord (some block) with
  | none => state
  | some record =>
    if asString (record.lookup "type") = some "tool_use" ∧
        asString (record.lookup "name") = some "Bash" then
      let id := (asString (record.lookup "id")).getD ""
      let command := (asString (JsRecord.at_ (asRecord (record.lookup "input")) "command")).getD ""
      if id = "" ∨ command = "" then state
      else
        let assistantUuid :=
          if raw.lookup "type" = some (.str "assistant") then asString (raw.lookup "uuid") else none
        { state with
          pendingBashCommands :=
            state.pendingBashCommands.set id { command, assistantUuid, isSidechain } }
    else state

/-- `applyMessage`. -/
def applyMessage (state : SessionState) (message : JsRecord) : SessionState :=
  let content := (asArray (message.lookup "content")).getD []
  match asString (message.lookup "role") with
  | some "user" => content.foldl (applyUserBlock env line raw isSidechain) state
  | some "assistant" => content.foldl (applyAssistantBlock raw isSidechain) state
  | _ => state

/-- `applyLine`. -/
def applyLine (state : SessionState) : SessionState :=
  let isSidechain := (asBoolean (raw.lookup "isSidechain")).getD false
  let state := state.recognize (state.backgroundPublications.observe env raw)
    ((taskNotification env raw).map (.notification line)) none
  match asRecord (raw.lookup "message") with
  | none => state
  | some message => state.applyMessage env line raw isSidechain message

end SessionState

/-! ### The transcript -/

/-- `isSafeIdentifier`. -/
def isSafeIdentifier (value : String) : Bool :=
  match value.toList with
  | [] => false
  | c :: rest => c.isAlphanum ∧ rest.length ≤ 127 ∧ rest.all isSegmentChar

/-- What `reduceLines` keeps, with the number of lines read. -/
structure Reduction where
  states : OrderedMap String SessionState := .empty
  seenUuids : List String := []
  line : Nat := 0

/-- The record and the session of a line, as `JSON.parse` reads it, if it is one of a safe session;
none is a line that it throws on. -/
def lineRecord (line : Option Json) : Option (JsRecord × String) := do
  let raw ← asRecord line
  let sessionId ← asString (raw.lookup "sessionId")
  if isSafeIdentifier sessionId then return (raw, sessionId) else none

variable (env : TranscriptEnv)

/-- One turn of the loop of `reduceLines`. -/
def reduceLine (r : Reduction) (line : Option Json) : Reduction :=
  let next := { r with line := r.line + 1 }
  match lineRecord line with
  | none => next
  | some (raw, sessionId) =>
    let uuid := (asString (raw.lookup "uuid")).getD ""
    if uuid ≠ "" ∧ uuid ∈ r.seenUuids then next
    else
      let state := (r.states.get sessionId).getD (createState sessionId)
      { next with
        seenUuids := if uuid = "" then r.seenUuids else uuid :: r.seenUuids
        states := r.states.set sessionId (state.applyLine env r.line raw) }

/-- `reduceLines`. -/
def reduceLines (lines : List (Option Json)) : Reduction :=
  lines.foldl (reduceLine env) {}

/-! ### Recognized lines -/

/-- The line is recognized as the event says. -/
def Recognizes (raw : JsRecord) : PublicationEvent → Prop
  | .start _ start => ∃ toolUseId command assistantUuid,
      backgroundStart env raw toolUseId command assistantUuid = some start
  | .notification _ n => taskNotification env raw = some n
  | .read _ read => ∃ command result assistantUuid,
      outputRead env raw command result assistantUuid = some read

variable {env} {raw : JsRecord}

/-- A start is the only block of a user's line. -/
theorem of_backgroundStart {toolUseId command : String} {assistantUuid : Option String}
    {start : BackgroundStart}
    (h : backgroundStart env raw toolUseId command assistantUuid = some start) :
    raw.lookup "type" = some (.str "user") ∧ (onlyBlock raw).isSome := by
  simp only [backgroundStart, bind, Option.bind_eq_some_iff] at h
  obtain ⟨_, _, _, _, block, hblock, _, _, hchecks⟩ := h
  split_ifs at hchecks with hall
  have howns := hall.2.2.1
  simp only [ownsResult, decide_eq_true_eq] at howns
  exact ⟨howns.1, by simp [hblock]⟩

theorem of_outputRead {command : String} {result : JsRecord} {assistantUuid : Option String}
    {read : OutputRead} (h : outputRead env raw command result assistantUuid = some read) :
    raw.lookup "type" = some (.str "user") := by
  simp only [outputRead, bind, Option.bind_eq_some_iff] at h
  obtain ⟨_, _, hchecks⟩ := h
  split_ifs at hchecks with howns
  simp only [ownsResult, decide_eq_true_eq] at howns
  exact howns.1

/-- A notification is no user's line with blocks. -/
theorem of_taskNotification {n : TaskNotification} (h : taskNotification env raw = some n)
    (huser : raw.lookup "type" = some (.str "user")) {message : JsRecord}
    (hmessage : asRecord (raw.lookup "message") = some message) :
    asArray (message.lookup "content") = none := by
  simp only [taskNotification, bind, Option.bind_eq_some_iff] at h
  obtain ⟨content, hcontent, -⟩ := h
  simp only [providerTaskNotification, huser, hmessage] at hcontent
  split_ifs at hcontent
  simp only [JsRecord.at_, Option.bind_some] at hcontent
  cases hlookup : message.lookup "content" with
  | none => rfl
  | some value =>
    rw [hlookup] at hcontent
    cases value with
    | str text => rfl
    | null | bool _ | num _ | arr _ | obj _ => cases hcontent

theorem onlyBlock_some {message : JsRecord} (hmessage : asRecord (raw.lookup "message") = some message)
    (h : (onlyBlock raw).isSome) :
    ∃ block, asArray (message.lookup "content") = some [block] := by
  unfold onlyBlock at h
  rw [hmessage] at h
  split at h
  · next block hblock => exact ⟨block, hblock⟩
  · cases h

/-! ### What a line appends -/

/-- The events and credits are what the table was given, in order. -/
structure SessionState.Faithful (sessionId : String) (state : SessionState) : Prop where
  session : state.backgroundPublications.sessionId = sessionId
  table : state.backgroundPublications.tasks = tasksAfter sessionId state.events
  credits : ∀ n credited, (n, credited) ∈ state.credits → ∃ line read taskId,
    state.events[n]? = some (.read line read) ∧
      Credits (tasksAfter sessionId (state.events.take n)) read taskId credited
  once : (state.credits.map Prod.fst).Nodup

namespace SessionState

variable {sessionId : String} {line : Nat} {isSidechain : Bool} {state state' : SessionState}

/-- The next state records these further events. -/
structure Appends (sessionId : String) (state state' : SessionState)
    (events : List PublicationEvent) : Prop where
  events_eq : state'.events = state.events ++ events
  faithful : state.Faithful sessionId → state'.Faithful sessionId

theorem Appends.refl (sessionId : String) (state : SessionState) :
    Appends sessionId state state [] := ⟨by simp, id⟩

theorem Appends.trans {state'' : SessionState} {events events' : List PublicationEvent}
    (h : Appends sessionId state state' events) (h' : Appends sessionId state' state'' events') :
    Appends sessionId state state'' (events ++ events') :=
  ⟨by rw [h'.events_eq, h.events_eq, List.append_assoc], h'.faithful ∘ h.faithful⟩

/-- What the session knows does not depend on the pending commands. -/
theorem Appends.pending (sessionId : String) (state : SessionState)
    (pending : OrderedMap String PendingBashCommand) :
    Appends sessionId state { state with pendingBashCommands := pending } [] :=
  ⟨by simp, fun h => ⟨h.session, h.table, h.credits, h.once⟩⟩

theorem Faithful.lt (h : state.Faithful sessionId) {n : Nat} {credited : PublicationCredit}
    (hmem : (n, credited) ∈ state.credits) : n < state.events.length := by
  obtain ⟨line, read, -, hget, -⟩ := h.credits n credited hmem
  exact (List.getElem?_eq_some_iff.mp hget).1

/-- The older credits stay what they were. -/
theorem Faithful.credits_append (h : state.Faithful sessionId) (event : PublicationEvent)
    {n : Nat} {credited : PublicationCredit} (hmem : (n, credited) ∈ state.credits) :
    ∃ line read taskId, (state.events ++ [event])[n]? = some (.read line read) ∧
      Credits (tasksAfter sessionId ((state.events ++ [event]).take n)) read taskId credited := by
  obtain ⟨line, read, taskId, hget, hcredits⟩ := h.credits n credited hmem
  have hlt := h.lt hmem
  refine ⟨line, read, taskId, ?_, ?_⟩
  · rw [List.getElem?_append_left hlt, hget]
  · rwa [List.take_append_of_le_length (Nat.le_of_lt hlt)]

/-- Recording an event that credits nothing. -/
theorem Appends.event {publications : ClaudeBackgroundPublications} {event : PublicationEvent}
    (hpublications : publications = { state.backgroundPublications with
      tasks := ClaudeBackgroundPublications.after state.backgroundPublications.sessionId state.backgroundPublications.tasks
        event }) :
    Appends sessionId state (state.recognize publications (some event) none) [event] := by
  subst hpublications
  refine ⟨rfl, fun h => ⟨h.session, ?_, ?_, ?_⟩⟩
  · show ClaudeBackgroundPublications.after _ _ _ = tasksAfter sessionId (state.events ++ [event])
    rw [tasksAfter_append, h.session, h.table]
  · intro n credited hmem
    have hmem : (n, credited) ∈ state.credits := by simpa [recognize] using hmem
    exact h.credits_append event hmem
  · simpa [recognize] using h.once

/-- Recording a read with what it credits. -/
theorem Appends.read {read : OutputRead} :
    Appends sessionId state
      (state.recognize { state.backgroundPublications with
          tasks := (ClaudeBackgroundPublications.credit state.backgroundPublications.tasks read).1 }
        (some (.read line read)) (ClaudeBackgroundPublications.credit state.backgroundPublications.tasks read).2)
      [.read line read] := by
  refine ⟨rfl, fun h => ⟨h.session, ?_, ?_, ?_⟩⟩
  · show ClaudeBackgroundPublications.after sessionId _ (PublicationEvent.read line read) =
      tasksAfter sessionId (state.events ++ [PublicationEvent.read line read])
    rw [tasksAfter_append, h.table]
  · intro n credited hmem
    rcases List.mem_append.mp hmem with hmem | hmem
    · exact h.credits_append (.read line read) hmem
    · rw [Option.mem_toList] at hmem
      obtain ⟨given, hgiven, heq⟩ := Option.map_eq_some_iff.mp hmem
      obtain ⟨rfl, rfl⟩ := Prod.mk.inj heq
      have hfound : ∃ taskId, Credits state.backgroundPublications.tasks read taskId given := by
        have hcredit := hgiven
        simp only [ClaudeBackgroundPublications.credit] at hcredit
        split at hcredit
        · cases hcredit
        · next taskId task hfind => exact ⟨taskId, task, hfind, hgiven⟩
      obtain ⟨taskId, hcredits⟩ := hfound
      refine ⟨line, read, taskId, ?_, ?_⟩
      · show (state.events ++ [PublicationEvent.read line read])[state.events.length]? = _
        simp
      · show Credits (tasksAfter sessionId ((state.events ++
          [PublicationEvent.read line read]).take _)) _ _ _
        rw [List.take_left, ← h.table]
        exact hcredits
  · have hcredits : (state.recognize { state.backgroundPublications with
          tasks := (ClaudeBackgroundPublications.credit state.backgroundPublications.tasks read).1 }
        (some (.read line read)) (ClaudeBackgroundPublications.credit state.backgroundPublications.tasks read).2).credits.map
          Prod.fst = state.credits.map Prod.fst ++
            ((ClaudeBackgroundPublications.credit state.backgroundPublications.tasks read).2.map
              fun _ => state.events.length).toList := by
      cases hcredit : (ClaudeBackgroundPublications.credit state.backgroundPublications.tasks read).2 <;> simp [recognize]
    rw [hcredits]
    cases (ClaudeBackgroundPublications.credit state.backgroundPublications.tasks read).2 with
    | none => simpa using h.once
    | some given =>
      refine List.nodup_append.mpr ⟨h.once, by simp, ?_⟩
      intro n hn m hm
      obtain ⟨⟨n, credited⟩, hmem, rfl⟩ := List.mem_map.mp hn
      have hlt := h.lt hmem
      simp at hm
      subst hm
      exact Nat.ne_of_lt hlt

/-- What a block of a user's line appends: at most one event, a start or a read of this line. -/
def BlockEvents (env : TranscriptEnv) (raw : JsRecord) (line : Nat) (events : List PublicationEvent) :
    Prop :=
  events.length ≤ 1 ∧ ∀ e ∈ events, e.line = line ∧ Recognizes env raw e ∧
    ∀ line' n, e ≠ .notification line' n

theorem BlockEvents.nil (env : TranscriptEnv) (raw : JsRecord) (line : Nat) :
    BlockEvents env raw line [] := ⟨by simp, by simp⟩

variable (env line raw isSidechain)

theorem finishCommand_appends (sessionId : String) (state : SessionState) (record : JsRecord)
    (toolUseId : String) (pending : PendingBashCommand) :
    ∃ events, Appends sessionId state
      (state.finishCommand env line raw record toolUseId pending) events ∧
        BlockEvents env raw line events := by
  unfold finishCommand
  by_cases hstarted : env.isDeliverableCommand pending.command ∧
      (state.backgroundPublications.start env raw toolUseId pending.command
        pending.assistantUuid).1
  · rw [if_pos hstarted]
    unfold start at hstarted ⊢
    split_ifs at hstarted ⊢ with htask
    · exact absurd hstarted.2 (by simp)
    · cases hstart : backgroundStart env raw toolUseId pending.command pending.assistantUuid with
      | none =>
        refine ⟨[], ⟨by simp [recognize], fun h => ?_⟩, .nil env raw line⟩
        exact ⟨h.session, by simpa [recognize] using h.table, by simpa [recognize] using h.credits,
          by simpa [recognize] using h.once⟩
      | some start =>
        refine ⟨[.start line start], .event rfl, by simp, ?_⟩
        rintro e he
        obtain rfl := List.mem_singleton.mp he
        exact ⟨rfl, ⟨toolUseId, pending.command, pending.assistantUuid, hstart⟩, by simp⟩
  · rw [if_neg hstarted]
    unfold finish
    cases hread : outputRead env raw pending.command record pending.assistantUuid with
    | none =>
      refine ⟨[], ⟨by simp [recognize], fun h => ?_⟩, .nil env raw line⟩
      exact ⟨h.session, by simpa [recognize] using h.table, by simpa [recognize] using h.credits,
        by simpa [recognize] using h.once⟩
    | some read =>
      refine ⟨[.read line read], .read, by simp, ?_⟩
      rintro e he
      obtain rfl := List.mem_singleton.mp he
      exact ⟨rfl, ⟨pending.command, record, pending.assistantUuid, hread⟩, by simp⟩

theorem applyUserBlock_appends (sessionId : String) (state : SessionState) (block : Json) :
    ∃ events, Appends sessionId state (state.applyUserBlock env line raw isSidechain block) events ∧
      BlockEvents env raw line events := by
  unfold applyUserBlock
  cases asRecord (some block) with
  | none => exact ⟨[], .refl sessionId state, .nil env raw line⟩
  | some record =>
    simp only
    split_ifs with htype hid
    · exact ⟨[], .refl sessionId state, .nil env raw line⟩
    · exact ⟨[], .refl sessionId state, .nil env raw line⟩
    · have hpending := Appends.pending sessionId state
        (state.pendingBashCommands.erase ((asString (record.lookup "tool_use_id")).getD ""))
      cases state.pendingBashCommands.get ((asString (record.lookup "tool_use_id")).getD "") with
      | none => exact ⟨[], hpending, .nil env raw line⟩
      | some pending =>
        simp only
        split_ifs with hside
        · exact ⟨[], hpending, .nil env raw line⟩
        · obtain ⟨events, happends, hevents⟩ := finishCommand_appends env raw line sessionId
            { state with pendingBashCommands := _ }
            record ((asString (record.lookup "tool_use_id")).getD "") pending
          exact ⟨events, hpending.trans happends, hevents⟩

theorem applyAssistantBlock_appends (sessionId : String) (state : SessionState) (block : Json) :
    Appends sessionId state (state.applyAssistantBlock raw isSidechain block) [] := by
  unfold applyAssistantBlock
  cases asRecord (some block) with
  | none => exact .refl sessionId state
  | some record =>
    simp only
    split
    · split
      · exact .refl sessionId state
      · exact .pending sessionId state _
    · exact .refl sessionId state

/-- What a line appends: at most one event, or only reads. -/
def LineEvents (env : TranscriptEnv) (raw : JsRecord) (line : Nat) (events : List PublicationEvent) :
    Prop :=
  (∀ e ∈ events, e.line = line ∧ Recognizes env raw e) ∧
    (events.length ≤ 1 ∨ ∀ e ∈ events, e.isRead)

theorem applyMessage_appends (sessionId : String) (state : SessionState) {message : JsRecord}
    (hmessage : asRecord (raw.lookup "message") = some message) :
    ∃ events, Appends sessionId state (state.applyMessage env line raw isSidechain message) events ∧
      LineEvents env raw line events ∧
      (asArray (message.lookup "content") = none → events = []) ∧
      (∀ e ∈ events, raw.lookup "type" = some (.str "user")) := by
  have users (content : List Json) (state : SessionState) : ∃ events,
      Appends sessionId state
        (content.foldl (applyUserBlock env line raw isSidechain) state) events ∧
      events.length ≤ content.length ∧ ∀ e ∈ events, e.line = line ∧ Recognizes env raw e ∧
        ∀ line' n, e ≠ .notification line' n := by
    induction content generalizing state with
    | nil => exact ⟨[], .refl sessionId state, by simp, by simp⟩
    | cons block rest ih =>
      obtain ⟨events, happends, hlength, hevents⟩ := applyUserBlock_appends env raw line
        isSidechain sessionId state block
      obtain ⟨events', happends', hlength', hevents'⟩ :=
        ih (state.applyUserBlock env line raw isSidechain block)
      refine ⟨events ++ events', happends.trans happends', by simp; omega, ?_⟩
      intro e he
      rcases List.mem_append.mp he with he | he
      · exact hevents e he
      · exact hevents' e he
  have assistants (content : List Json) (state : SessionState) : Appends sessionId state
      (content.foldl (applyAssistantBlock raw isSidechain) state) [] := by
    induction content generalizing state with
    | nil => exact .refl sessionId state
    | cons block rest ih =>
      exact (applyAssistantBlock_appends raw isSidechain sessionId state block).trans (ih _)
  have nothing {next : SessionState} (h : Appends sessionId state next []) :
      ∃ events, Appends sessionId state next events ∧ LineEvents env raw line events ∧
        (asArray (message.lookup "content") = none → events = []) ∧
        (∀ e ∈ events, raw.lookup "type" = some (.str "user")) :=
    ⟨[], h, ⟨by simp, Or.inl (by simp)⟩, fun _ => rfl, by simp⟩
  unfold applyMessage
  split
  · obtain ⟨events, happends, hlength, hevents⟩ :=
      users ((asArray (message.lookup "content")).getD []) state
    refine ⟨events, happends, ⟨fun e he => ⟨(hevents e he).1, (hevents e he).2.1⟩, ?_⟩, ?_, ?_⟩
    · -- a start is the only block of its line
      by_cases hreads : ∀ e ∈ events, e.isRead
      · exact Or.inr hreads
      · left
        push Not at hreads
        obtain ⟨e, he, hread⟩ := hreads
        have hrecognized := (hevents e he).2.1
        have hnote := (hevents e he).2.2
        cases e with
        | start line' start =>
          obtain ⟨_, _, _, hstart⟩ := hrecognized
          obtain ⟨block, hblock⟩ := onlyBlock_some hmessage (of_backgroundStart hstart).2
          simpa [hblock] using hlength
        | notification line' n => exact absurd rfl (hnote line' n)
        | read line' read => exact absurd rfl hread
    · intro hnone
      rw [hnone] at hlength
      exact List.length_eq_zero_iff.mp (Nat.le_zero.mp hlength)
    · intro e he
      have hrecognized := (hevents e he).2.1
      have hnote := (hevents e he).2.2
      cases e with
      | start line' start =>
        obtain ⟨_, _, _, hstart⟩ := hrecognized
        exact (of_backgroundStart hstart).1
      | notification line' n => exact absurd rfl (hnote line' n)
      | read line' read =>
        obtain ⟨_, _, _, hread⟩ := hrecognized
        exact of_outputRead hread
  · exact nothing (assistants _ state)
  · exact nothing (.refl sessionId state)

theorem applyLine_appends (sessionId : String) (state : SessionState) :
    ∃ events, Appends sessionId state (state.applyLine env line raw) events ∧
      LineEvents env raw line events := by
  unfold applyLine
  have hobserve : ∃ events, Appends sessionId state
      (state.recognize (state.backgroundPublications.observe env raw)
        ((taskNotification env raw).map (.notification line)) none) events ∧
      ((taskNotification env raw = none ∧ events = []) ∨
        ∃ n, taskNotification env raw = some n ∧ events = [.notification line n]) := by
    unfold observe
    cases hnote : taskNotification env raw with
    | none =>
      refine ⟨[], ⟨by simp [recognize], fun h => ?_⟩, Or.inl ⟨rfl, rfl⟩⟩
      exact ⟨h.session, by simpa [recognize] using h.table, by simpa [recognize] using h.credits,
        by simpa [recognize] using h.once⟩
    | some n => exact ⟨[.notification line n], .event rfl, Or.inr ⟨n, rfl, rfl⟩⟩
  obtain ⟨events, happends, hevents⟩ := hobserve
  have alone : LineEvents env raw line events := by
    rcases hevents with ⟨-, rfl⟩ | ⟨n, hnote, rfl⟩
    · exact ⟨by simp, Or.inl (by simp)⟩
    · refine ⟨?_, Or.inl (by simp)⟩
      intro e he
      obtain rfl := List.mem_singleton.mp he
      exact ⟨rfl, hnote⟩
  cases hmessage : asRecord (raw.lookup "message") with
  | none => exact ⟨events, happends, alone⟩
  | some message =>
    obtain ⟨events', happends', hevents', hempty, huser⟩ := applyMessage_appends env raw line
      ((asBoolean (raw.lookup "isSidechain")).getD false) sessionId
      (state.recognize (state.backgroundPublications.observe env raw)
        ((taskNotification env raw).map (.notification line)) none) hmessage
    refine ⟨events ++ events', happends.trans happends', ?_⟩
    rcases hevents with ⟨-, rfl⟩ | ⟨n, hnote, rfl⟩
    · simpa using hevents'
    · -- a notification's line has no blocks
      have hnone : events' = [] := by
        cases hev : events' with
        | nil => rfl
        | cons e rest =>
          have htype := huser e (by simp [hev])
          rw [← hev]
          exact hempty (of_taskNotification hnote htype hmessage)
      rw [hnone, List.append_nil]
      exact alone

end SessionState

/-! ### The run -/

/-- The first event's line comes first; one line is recognized twice only as reads. -/
def LineOrder (a b : PublicationEvent) : Prop :=
  a.line < b.line ∨ a.line = b.line ∧ a.isRead ∧ b.isRead

/-- What holds of a session after these lines. -/
structure SessionState.Reduced (env : TranscriptEnv) (lines : List (Option Json)) (sessionId : String) (state : SessionState) : Prop where
  faithful : state.Faithful sessionId
  ordered : state.events.Pairwise LineOrder
  recognized : ∀ e ∈ state.events, ∃ line raw, lines[e.line]? = some line ∧
    lineRecord line = some (raw, sessionId) ∧ Recognizes env raw e

variable {sessionId : String} {state : SessionState} {lines : List (Option Json)}

theorem createState_reduced (sessionId : String) :
    (createState sessionId).Reduced env lines sessionId := by
  refine ⟨⟨rfl, rfl, by simp [createState], by simp [createState]⟩, ?_, ?_⟩
  · simp [createState]
  · simp [createState]

/-- A line of another session, or one that is passed over. -/
theorem SessionState.Reduced.beside (h : state.Reduced env lines sessionId)
    (line : Option Json) : state.Reduced env (lines ++ [line]) sessionId := by
  refine ⟨h.faithful, h.ordered, fun e he => ?_⟩
  obtain ⟨line', raw, hline, hrest⟩ := h.recognized e he
  refine ⟨line', raw, ?_, hrest⟩
  rw [List.getElem?_append_left (List.getElem?_eq_some_iff.mp hline).1, hline]

/-- A line of the session. -/
theorem SessionState.Reduced.applyLine (h : state.Reduced env lines sessionId)
    {line : Option Json} (hrecord : lineRecord line = some (raw, sessionId)) :
    (state.applyLine env lines.length raw).Reduced env (lines ++ [line]) sessionId := by
  obtain ⟨events, happends, hevents, hkinds⟩ :=
    applyLine_appends env raw lines.length sessionId state
  have hbefore (e : PublicationEvent) (he : e ∈ state.events) : e.line < lines.length := by
    obtain ⟨line', raw', hline, -⟩ := h.recognized e he
    exact (List.getElem?_eq_some_iff.mp hline).1
  refine ⟨happends.faithful h.faithful, ?_, ?_⟩
  · rw [happends.events_eq, List.pairwise_append]
    refine ⟨h.ordered, ?_, ?_⟩
    · rcases hkinds with hlength | hreads
      · cases events with
        | nil => exact .nil
        | cons e rest =>
          obtain rfl : rest = [] := List.length_eq_zero_iff.mp (by simpa using hlength)
          exact List.pairwise_singleton _ _
      · refine List.Pairwise.imp_of_mem ?_ (List.pairwise_of_forall (R := fun _ _ => True)
          fun _ _ => trivial)
        intro a b ha hb _
        exact .inr ⟨(hevents a ha).1.trans (hevents b hb).1.symm, hreads a ha, hreads b hb⟩
    · intro a ha b hb
      exact .inl (by rw [(hevents b hb).1]; exact hbefore a ha)
  · intro e he
    rw [happends.events_eq] at he
    rcases List.mem_append.mp he with he | he
    · exact (h.beside line).recognized e he
    · obtain ⟨hline, hrecognizes⟩ := hevents e he
      exact ⟨line, raw, by simp [hline], hrecord, hrecognizes⟩

theorem reduced (env : TranscriptEnv) (lines : List (Option Json)) :
    (reduceLines env lines).line = lines.length ∧
      ∀ sessionId state, (reduceLines env lines).states.get sessionId = some state →
        state.Reduced env lines sessionId := by
  induction lines using List.reverseRec with
  | nil => exact ⟨rfl, by simp [reduceLines]⟩
  | append_singleton lines line ih =>
    obtain ⟨hline, hstates⟩ := ih
    have hnext : reduceLines env (lines ++ [line]) =
        reduceLine env (reduceLines env lines) line := by
      simp [reduceLines]
    rw [hnext]
    have hbeside : ∀ sessionId state,
        (reduceLines env lines).states.get sessionId = some state →
          state.Reduced env (lines ++ [line]) sessionId :=
      fun sessionId state hget => (hstates sessionId state hget).beside line
    unfold reduceLine
    cases hrecord : lineRecord line with
    | none => exact ⟨by simp [hline], hbeside⟩
    | some record =>
      obtain ⟨raw, sessionId⟩ := record
      dsimp only
      split
      · exact ⟨by simp [hline], hbeside⟩
      · refine ⟨by simp [hline], ?_⟩
        intro sessionId' state' hget
        rw [OrderedMap.get_set] at hget
        split_ifs at hget with hkey
        · subst hkey
          obtain rfl := Option.some.inj hget
          rw [hline]
          refine SessionState.Reduced.applyLine ?_ hrecord
          cases hold : (reduceLines env lines).states.get sessionId' with
          | none => exact createState_reduced sessionId'
          | some old => exact hstates sessionId' old hold
        · exact hbeside sessionId' state' hget

/-! ### Single use -/

/-- The credit at this place among the recognized lines belongs to this task. -/
def SessionState.CreditedTo (state : SessionState) (sessionId : String) (n line : Nat)
    (read : OutputRead) (taskId : String) (credited : PublicationCredit) : Prop :=
  (n, credited) ∈ state.credits ∧ state.events[n]? = some (.read line read) ∧
    Credits (tasksAfter sessionId (state.events.take n)) read taskId credited

/-- A task is credited once. -/
theorem SessionState.CreditedTo.once
    {n m line line' : Nat} {read read' : OutputRead} {taskId : String}
    {credited credited' : PublicationCredit}
    (hn : state.CreditedTo sessionId n line read taskId credited)
    (hm : state.CreditedTo sessionId m line' read' taskId credited') : m ≤ n := by
  by_contra hlt
  have hlt : n < m := Nat.lt_of_not_le hlt
  obtain ⟨-, hget, hcredits⟩ := hn
  obtain ⟨-, hget', hcredits'⟩ := hm
  have hlength := (List.getElem?_eq_some_iff.mp hget).1
  have hsplit : state.events.take m = (state.events.take n ++ [.read line read]) ++
      (state.events.take m).drop (n + 1) := by
    have htake : (state.events.take m).take (n + 1) = state.events.take n ++ [.read line read] := by
      rw [List.take_take, Nat.min_eq_left hlt, List.take_add_one, hget]
      rfl
    rw [← htake, List.take_append_drop]
  have hspent := (hcredits.spends sessionId line).2
  rw [← tasksAfter_append] at hspent
  refine (hcredits'.spends sessionId line').1 ?_
  rw [hsplit]
  exact hspent.tasksAfter _

namespace Sample

/-- An instant of the sample transcript. -/
def second (n : Nat) : String := "2026-10-16T23:00:0" ++ toString n ++ "Z"

end Sample

end AgentLcars
