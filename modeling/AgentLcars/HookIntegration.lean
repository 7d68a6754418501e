import Mathlib.Data.List.Flatten
import AgentLcars.UnknownValue
import AgentLcars.Lib.OrderedMap
import AgentLcars.Lib.Splitting

/-!
# Installing the telemetry hooks

`apps/telemetry-watcher/src/lib/hook/integration.ts`: the launcher's entries in the settings file of a
runtime, next to those of its user.

* `placeOurGroup`, `stripOurHooks`, `dropUnused`: what is done to the groups of the events.
* `settingsInstallIntegration`, `settingsUninstallIntegration`, `settingsIntegrationStatus`: the commands.
* `foreignHooks`: what of an event's groups belongs to others.
* `exactInstallation_iff`: the commands leave that alone exactly if no group of an event without an entry
  is shared, and the stub's path names a directory.
-/

namespace AgentLcars

open OrderedMap

/-! ### Paths -/

/-- One segment of a path. -/
def pathStep (absolute : Bool) (stack : List (List Char)) (segment : List Char) :
    List (List Char) :=
  if segment = ['.'] then stack
  else if segment = ['.', '.'] then
    match stack.getLast? with
    | none => if absolute then stack else stack ++ [segment]
    | some last =>
      if last ≠ ['.', '.'] then stack.dropLast else if absolute then stack else stack ++ [segment]
  else stack ++ [segment]

/-- The segments of a normal path. -/
def pathSegments (path : List Char) : List (List Char) :=
  (Splitting.words (· = '/') path).foldl (pathStep (path.head? = some '/')) []

/-- `path.posix.normalize`. -/
def normalizePath (path : List Char) : List Char :=
  if path = [] then ['.']
  else
    let body := ['/'].intercalate (pathSegments path)
    let trailing := if path.getLast? = some '/' then ['/'] else []
    if path.head? = some '/' then
      if body = [] then ['/'] else '/' :: body ++ trailing
    else if body = [] then '.' :: trailing
    else body ++ trailing

/-- `path.posix.join`. -/
def joinPath (parts : List String) : String :=
  match (parts.map String.toList).filter (· ≠ []) with
  | [] => "."
  | parts => String.ofList (normalizePath (['/'].intercalate parts))

/-! ### Runtimes -/

/-- The runtimes with a settings file; Claude and Codex have groups of hooks. -/
inductive SettingsRuntime where
  | claude
  | codex
  | agy
  deriving DecidableEq

def SettingsRuntime.name : SettingsRuntime → String
  | .claude => "claude"
  | .codex => "codex"
  | .agy => "agy"

structure HookEntrySpec where
  event : String
  async : Bool := false
  timeout : Option Nat := none

structure IntegrationTarget where
  configDirEnv : String
  defaultConfigDir : String
  settingsFile : String
  stubFile : String
  entries : List HookEntrySpec

/-- `INTEGRATION_TARGETS`. -/
def integrationTarget : SettingsRuntime → IntegrationTarget
  | .claude =>
    { configDirEnv := "CLAUDE_CONFIG_DIR"
      defaultConfigDir := ".claude"
      settingsFile := "settings.json"
      stubFile := joinPath ["hooks", "lcars-hook.sh"]
      entries :=
        [{ event := "SessionStart", timeout := some 10 },
          { event := "UserPromptSubmit", async := true },
          { event := "PostToolUse", async := true },
          { event := "Stop", timeout := some 5 },
          { event := "SessionEnd", timeout := some 5 }] }
  | .codex =>
    { configDirEnv := "CODEX_HOME"
      defaultConfigDir := ".codex"
      settingsFile := "hooks.json"
      stubFile := "lcars-hook.sh"
      entries :=
        [{ event := "SessionStart", timeout := some 10 },
          { event := "UserPromptSubmit", async := true },
          { event := "PostToolUse", async := true },
          { event := "Stop", timeout := some 5 },
          { event := "SubagentStop", async := true },
          { event := "Interrupt", timeout := some 1 },
          { event := "SessionEnd", timeout := some 3 }] }
  | .agy =>
    { configDirEnv := "ANTIGRAVITY_CONFIG_DIR"
      defaultConfigDir := joinPath [".gemini", "config"]
      settingsFile := "hooks.json"
      stubFile := joinPath ["hooks", "lcars-hook.sh"]
      entries :=
        [{ event := "SessionStart", timeout := some 10 },
          { event := "PreInvocation", timeout := some 10 },
          { event := "PostToolUse", timeout := some 10 },
          { event := "Stop", timeout := some 10 }] }

structure ResolvedTarget where
  settingsPath : String
  stubPath : String
  stubRef : String

/-- The configuration directory the environment names, when it names one. -/
def relocated (runtime : SettingsRuntime) (env : String → Option String) : Option String :=
  match env (integrationTarget runtime).configDirEnv with
  | none => none
  | some value => if trim value = [] then none else some (String.ofList (trim value))

/-- The characters that are special in a double-quoted shell word. -/
def shellUnsafe : List Char := ['"', Char.ofNat 0x60, '$', '\\']

def resolveTarget (runtime : SettingsRuntime) (homeDirectory : String)
    (env : String → Option String) :
    Except String ResolvedTarget :=
  let target := integrationTarget runtime
  match relocated runtime env with
  | some dir =>
    if dir.toList.any (· ∈ shellUnsafe) then
      .error (target.configDirEnv ++ " contains a shell-unsafe character")
    else
      .ok
        { settingsPath := joinPath [dir, target.settingsFile]
          stubPath := joinPath [dir, target.stubFile]
          stubRef := joinPath [dir, target.stubFile] }
  | none =>
    let dir := joinPath [homeDirectory, target.defaultConfigDir]
    .ok
      { settingsPath := joinPath [dir, target.settingsFile]
        stubPath := joinPath [dir, target.stubFile]
        stubRef := "$HOME/" ++ joinPath [target.defaultConfigDir, target.stubFile] }

/-! ### The entries -/

/-- The argument after the runtime's name. -/
def hookArgument (runtime : SettingsRuntime) (event : String) : String :=
  match runtime with
  | .claude => ""
  | .codex => if event ≠ "SessionEnd" then " " ++ event else ""
  | .agy => " " ++ event

def stubCommand (runtime : SettingsRuntime) (event stubRef : String) : String :=
  "[ -x \"" ++ stubRef ++ "\" ] && sh \"" ++ stubRef ++ "\" " ++
    (runtime.name ++ hookArgument runtime event) ++
    (if runtime = .agy then " || printf '\x7b\x7d\\n'" else " || true")

/-- `[^"]+/lcars-hook.sh`, of a text without double quotes. -/
def isStubRef (ref : List Char) : Bool :=
  "/lcars-hook.sh".toList <:+ ref ∧ "/lcars-hook.sh".toList.length < ref.length

/-- The runtimes and their arguments in `OUR_COMMAND_RE`. -/
def ourArguments : List String :=
  ["claude", "codex"] ++
    (["SessionStart", "UserPromptSubmit", "PostToolUse", "Stop", "SubagentStop", "Interrupt"].map
      fun event => "codex" ++ (" " ++ event)) ++
    ["SessionStart", "PreInvocation", "PostToolUse", "Stop"].map fun event => "agy" ++
      (" " ++ event)

/-- What follows the stub's path in `OUR_COMMAND_RE`. -/
def ourEndings (ref : List Char) : List (List Char) :=
  ([" || true", " || printf '\x7b\x7d\\n'"].map fun fallback => ourArguments.map fun argument =>
    "\" ] && sh \"".toList ++ ref ++ "\" ".toList ++ argument.toList ++ fallback.toList).flatten

/-- `OUR_COMMAND_RE`. -/
def isOurCommand (command : String) : Bool :=
  let text := command.toList.drop "[ -x \"".toList.length
  let ref := text.takeWhile (· ≠ '"')
  "[ -x \"".toList <+: command.toList ∧ isStubRef ref ∧ text.drop ref.length ∈ ourEndings ref

def hookIsOurs : Json → Bool
  | .obj hook =>
    match getEntry "command" hook with
    | some (.str command) => isOurCommand command
    | _ => false
  | _ => false

/-- The `hooks` of a group, when it is one. -/
def groupHooks : Json → Option (List Json)
  | .obj group =>
    match getEntry "hooks" group with
    | some (.arr hooks) => some hooks
    | _ => none
  | _ => none

def groupIsOurs (group : Json) : Bool :=
  match groupHooks group with
  | some hooks => hooks.any hookIsOurs
  | none => false

/-- `{ ...group, hooks }`. -/
def withHooks (hooks : List Json) : Json → Json
  | .obj group => .obj (setEntry "hooks" (.arr hooks) group)
  | other => other

/-- The entry of `ourGroup`. -/
def ourHook (runtime : SettingsRuntime) (spec : HookEntrySpec) (stubRef : String) : Json :=
  .obj ([("type", .str "command"), ("command", .str (stubCommand runtime spec.event stubRef))] ++
    (if spec.async then [("async", .bool true)] else []) ++
    (spec.timeout.map fun timeout => ("timeout", .num (toString timeout))).toList)

def ourGroup (hook : Json) : Json := .obj [("hooks", .arr [hook])]

/-- The entries that are not ours. -/
def foreignIn (hooks : List Json) : List Json := hooks.filter fun hook => !hookIsOurs hook

/-- What `stripOurHooks` keeps of a group. -/
def stripGroup (group : Json) : Option Json :=
  match groupHooks group with
  | none => some group
  | some hooks =>
    if foreignIn hooks = [] then none
    else if (foreignIn hooks).length = hooks.length then some group
    else some (withHooks (foreignIn hooks) group)

/-- How many entries of a group `stripOurHooks` removes. -/
def removedFrom (group : Json) : Nat :=
  match groupHooks group with
  | none => 0
  | some hooks => hooks.length - (foreignIn hooks).length

/-- What is kept of an event's groups; an event that ends up empty is deleted. -/
def keepGroups (kept : List Json) : Option Json := if kept = [] then none else some (.arr kept)

/-- `stripOurHooks`, and how many entries it removed. -/
def stripOurHooks (hooks : JsRecord) : JsRecord × Nat :=
  (updateEntries (fun _ groups =>
    match groups with
    | .arr groups => keepGroups (groups.filterMap stripGroup)
    | other => some other) hooks,
    (hooks.map fun entry =>
      match entry.2 with
      | .arr groups => (groups.map removedFrom).sum
      | _ => 0).sum)

/-- The first entry of ours is refreshed in place, later ones are dropped. -/
def refreshEntries (hook : Json) : List Json → List Json
  | [] => []
  | entry :: rest =>
    if hookIsOurs entry then hook :: foreignIn rest else entry :: refreshEntries hook rest

/-- The loop of `placeOurGroup` over the groups of the event. -/
def placeGroups (hook : Json) (found : Bool) : List Json → List Json
  | [] => if found then [] else [ourGroup hook]
  | existing :: rest =>
    match groupHooks existing with
    | none => existing :: placeGroups hook found rest
    | some entries =>
      if !entries.any hookIsOurs then existing :: placeGroups hook found rest
      else if found then
        if foreignIn entries = [] then placeGroups hook true rest
        else withHooks (foreignIn entries) existing :: placeGroups hook true rest
      else withHooks (refreshEntries hook entries) existing :: placeGroups hook true rest

/-- The groups of an event. -/
def eventGroups (hooks : JsRecord) (event : String) : List Json :=
  match getEntry event hooks with
  | some (.arr groups) => groups
  | _ => []

def placeOurGroup (hook : Json) (event : String) (hooks : JsRecord) : JsRecord :=
  setEntry event (.arr (placeGroups hook false (eventGroups hooks event))) hooks

/-- The loop over the events that are not installed into. What `stripOurHooks` keeps of the shared groups is
not read: the groups with an entry of ours are dropped. -/
def dropUnused (events : List String) (hooks : JsRecord) : JsRecord :=
  updateEntries (fun event groups =>
    if event ∈ events then some groups
    else
      match groups with
      | .arr groups =>
        if groups.any groupIsOurs then keepGroups (groups.filter fun group => !groupIsOurs group)
        else some (.arr groups)
      | other => some other) hooks

/-! ### The files -/

/-- The text of a settings file. -/
inductive SettingsText where
  | blank
  | malformed (message : String)
  | json (value : Json)

structure SettingsFile where
  mode : Nat
  text : SettingsText

/-- The settings file and the stub of a runtime. -/
structure HookFiles where
  settings : Option SettingsFile
  stub : Option String

def readSettings (filePath : String) (file : Option SettingsFile) : Except String JsRecord :=
  match file with
  | none => .ok []
  | some file =>
    match file.text with
    | .blank => .ok []
    | .malformed message => .error message
    | .json (.obj settings) => .ok settings
    | .json _ => .error (filePath ++ " is not a JSON object")

def settingsMode (file : Option SettingsFile) : Nat :=
  match file with
  | none => 0o600
  | some file => file.mode % 0o1000

def HookFiles.writeSettings (files : HookFiles) (settings : JsRecord) : HookFiles :=
  { files with settings := some ⟨settingsMode files.settings, .json (.obj settings)⟩ }

/-! ### The stub -/

/-- The lines that hand the end of a Codex session to a detached client. -/
def codexSessionEndHandoff : List String :=
  ["if grep -q '\"hook_event_name\"[[:space:]]*:[[:space:]]*\"SessionEnd\"' \"$input\" 2>/dev/null &&",
    "  inflight=\"$\x7bHOME:-\x7d/.local/state/agent-lcars/hook-inflight\" &&",
    "  [ -n \"$\x7bHOME:-\x7d\" ] && (umask 077 && mkdir -p \"$inflight\") 2>/dev/null &&",
    "  pending=\"$(mktemp \"$inflight/end.XXXXXX\" 2>/dev/null)\"; then",
    "  if command -v setsid >/dev/null 2>&1 && cat \"$input\" >\"$pending\" 2>/dev/null; then",
    "    setsid sh -c '\"$1\" hook \"$2\" <\"$3\" >/dev/null 2>&1; rm -f \"$3\"' lcars-hook-end \\",
    "      \"$lcars_bin\" \"$runtime\" \"$pending\" </dev/null >/dev/null 2>&1 &",
    "    exit 0",
    "  fi",
    "  rm -f \"$pending\"",
    "fi"]

def stubScript (runtime : SettingsRuntime) : String :=
  "\n".intercalate (
    ["#!/bin/sh",
      "# installed by lcars",
      "# managed by lcars; " ++ String.singleton (Char.ofNat 0x60) ++ "lcars integration install" ++
        String.singleton (Char.ofNat 0x60) ++ " overwrites this file.",
      "# add custom hooks beside this file instead of editing it.",
      "# LCARS_INTEGRATION_ID=" ++ runtime.name,
      "# LCARS_INTEGRATION_VERSION=1",
      "",
      "set -u",
      "runtime=\"$\x7b1:-" ++ runtime.name ++ "\x7d\""] ++
    (if runtime = .agy then ["event=\"$\x7b2:-\x7d\"", "printf '\x7b\x7d\\n'"] else []) ++
    ["if command -v lcars >/dev/null 2>&1; then",
      "  lcars_bin=lcars",
      "elif [ -x \"$HOME/.local/bin/lcars\" ]; then",
      "  lcars_bin=\"$HOME/.local/bin/lcars\"",
      "else",
      "  exit 0",
      "fi"] ++
    (if runtime = .codex then
      ["if [ \"$\x7b2:-SessionEnd\x7d\" = SessionEnd ]; then",
        "input=\"$(mktemp \"$\x7bTMPDIR:-/tmp\x7d/lcars-hook.XXXXXX\")\" || exit 0",
        "trap 'rm -f \"$input\"' EXIT HUP INT TERM",
        "cat >\"$input\" 2>/dev/null || exit 0"] ++ codexSessionEndHandoff ++
      ["exec <\"$input\"",
        "rm -f \"$input\"",
        "trap - EXIT HUP INT TERM",
        "fi"]
    else []) ++
    [if runtime = .agy then "exec \"$lcars_bin\" hook \"$runtime\" \"$event\" >/dev/null 2>&1"
      else "exec \"$lcars_bin\" hook \"$runtime\" >/dev/null 2>&1",
      ""])

/-- The line terminators. -/
def isLineEnd (c : Char) : Bool :=
  c ∈ ['\n', '\r', Char.ofNat 0x2028, Char.ofNat 0x2029]

/-- The number in the first line `# LCARS_INTEGRATION_VERSION=` with only digits after it. -/
def stubVersionOf (script : Option String) : Option Nat :=
  script.bind fun script =>
    (script.toList.splitOnP isLineEnd).findSome? fun line =>
      let start := "# LCARS_INTEGRATION_VERSION=".toList
      let digits := line.drop start.length
      if start <+: line ∧ digits ≠ [] ∧ digits.all Char.isDigit then
        (String.ofList digits).toNat?
      else none

/-! ### The commands -/

/-- The entries of ours in an event's groups. -/
def managedHooks (groups : List Json) : List Json :=
  groups.flatMap fun group => ((groupHooks group).getD []).filter hookIsOurs

def agyManagedHooksForEvent (hookSet : JsRecord) (event : String) : List Json :=
  match getEntry event hookSet with
  | some (.arr entries) =>
    if event = "PostToolUse" ∨ event = "PreToolUse" then managedHooks entries
    else entries.filter hookIsOurs
  | _ => []

/-- The record under a key of the settings. -/
def settingsRecord (key : String) (settings : JsRecord) : JsRecord :=
  match getEntry key settings with
  | some (.obj record) => record
  | _ => []

/-- The entry is the one that would be installed. -/
def hookIsCurrent (runtime : SettingsRuntime) (spec : HookEntrySpec) (stubRef : String) :
    Json → Bool
  | .obj hook =>
    getEntry "type" hook = some (.str "command") ∧
      getEntry "command" hook = some (.str (stubCommand runtime spec.event stubRef)) ∧
      (getEntry "async" hook).getD (.bool false) = .bool spec.async ∧
      getEntry "timeout" hook = spec.timeout.map fun timeout => .num (toString timeout)
  | _ => false

/-- The entries of ours for an event. -/
def managedFor (runtime : SettingsRuntime) (settings : JsRecord) (event : String) : List Json :=
  if runtime = .agy then agyManagedHooksForEvent (settingsRecord "lcars" settings) event
  else managedHooks (eventGroups (settingsRecord "hooks" settings) event)

structure IntegrationStatus where
  runtime : SettingsRuntime
  stubInstalled : Bool
  stubVersion : Option Nat
  stubCurrent : Bool
  entriesPresent : Nat
  entriesExpected : Nat
  duplicateEntries : Nat
  installed : Bool

def settingsIntegrationStatus (runtime : SettingsRuntime) (homeDirectory : String)
    (env : String → Option String) (files : HookFiles) : Except String IntegrationStatus :=
  match resolveTarget runtime homeDirectory env with
  | .error message => .error message
  | .ok resolved =>
    let entries := (integrationTarget runtime).entries
    let managed :=
      match readSettings resolved.settingsPath files.settings with
      | .error _ => entries.map fun spec => (spec, [])
      | .ok settings => entries.map fun spec => (spec, managedFor runtime settings spec.event)
    let present := managed.filter fun entry => entry.2 ≠ []
    let current := present.filter fun entry =>
      entry.2.length = 1 ∧ entry.2.all (hookIsCurrent runtime entry.1 resolved.stubRef)
    let stubCurrent := files.stub = some (stubScript runtime)
    .ok
      { runtime
        stubInstalled := files.stub.isSome
        stubVersion := stubVersionOf files.stub
        stubCurrent
        entriesPresent := present.length
        entriesExpected := entries.length
        duplicateEntries := (present.map fun entry => entry.2.length - 1).sum
        installed := stubCurrent ∧ current.length = entries.length }

/-- The settings after an installation. -/
def installInto (runtime : SettingsRuntime) (stubRef : String) (settings : JsRecord) : JsRecord :=
  let entries := (integrationTarget runtime).entries
  match runtime with
  | .agy =>
    let hookSet := entries.map fun spec =>
      let handler := Json.obj ([("type", .str "command"),
        ("command", .str (stubCommand runtime spec.event stubRef))] ++
        (spec.timeout.map fun timeout => ("timeout", .num (toString timeout))).toList)
      (spec.event,
        if spec.event = "PostToolUse" ∨ spec.event = "PreToolUse" then
          .arr [.obj [("matcher", .str "*"), ("hooks", .arr [handler])]]
        else .arr [handler])
    setEntry "lcars" (.obj hookSet) settings
  | _ =>
    let hooks := entries.foldl (fun hooks spec =>
      placeOurGroup (ourHook runtime spec stubRef) spec.event hooks) (settingsRecord "hooks" settings)
    setEntry "hooks" (.obj (dropUnused (entries.map HookEntrySpec.event) hooks)) settings

def settingsInstallIntegration (runtime : SettingsRuntime) (homeDirectory : String)
    (env : String → Option String) (files : HookFiles) :
    HookFiles × Except String IntegrationStatus :=
  match resolveTarget runtime homeDirectory env with
  | .error message => (files, .error message)
  | .ok resolved =>
    let files := { files with stub := some (stubScript runtime) }
    match readSettings resolved.settingsPath files.settings with
    | .error message => (files, .error message)
    | .ok settings =>
      let files := files.writeSettings (installInto runtime resolved.stubRef settings)
      (files, settingsIntegrationStatus runtime homeDirectory env files)

/-- The settings after an uninstallation, when they are written. -/
def uninstallFrom (runtime : SettingsRuntime) (settings : JsRecord) : Option JsRecord :=
  match runtime with
  | .agy =>
    match getEntry "lcars" settings with
    | some (.obj _) => some (settings.filter fun entry => entry.1 ≠ "lcars")
    | _ => none
  | _ =>
    match getEntry "hooks" settings with
    | some (.obj hooks) =>
      let (stripped, removed) := stripOurHooks hooks
      if removed > 0 then
        if stripped = [] then some (settings.filter fun entry => entry.1 ≠ "hooks")
        else some (setEntry "hooks" (.obj stripped) settings)
      else none
    | _ => none

def settingsUninstallIntegration (runtime : SettingsRuntime) (homeDirectory : String)
    (env : String → Option String) (files : HookFiles) :
    HookFiles × Except String IntegrationStatus :=
  match resolveTarget runtime homeDirectory env with
  | .error message => (files, .error message)
  | .ok resolved =>
    let files :=
      match readSettings resolved.settingsPath files.settings with
      | .error _ => files
      | .ok settings =>
        match uninstallFrom runtime settings with
        | some settings => files.writeSettings settings
        | none => files
    let files := { files with stub := none }
    (files, settingsIntegrationStatus runtime homeDirectory env files)

/-! ### What belongs to others -/

/-- An entry that is not ours with the other fields of its group, or a group without entries as it
is. -/
inductive ForeignHook where
  | entry (others : JsRecord) (hook : Json)
  | group (value : Json)
  deriving DecidableEq

/-- The fields of a group besides its entries. -/
def groupOthers : Json → JsRecord
  | .obj group => group.filter fun entry => entry.1 ≠ "hooks"
  | _ => []

def foreignInGroup (group : Json) : List ForeignHook :=
  match groupHooks group with
  | none => [.group group]
  | some hooks => (foreignIn hooks).map (.entry (groupOthers group))

/-- What of an event's groups belongs to others, in order. -/
def foreignHooks (groups : List Json) : List ForeignHook := groups.flatMap foreignInGroup

section Groups

variable {group hook : Json} {groups hooks : List Json}

theorem hookIsOurs_of_mem_foreignIn (h : hook ∈ foreignIn hooks) : hookIsOurs hook = false := by
  have hkept := (List.mem_filter.1 h).2
  simpa using hkept

theorem filter_foreignIn (hooks : List Json) : (foreignIn hooks).filter hookIsOurs = [] :=
  List.filter_eq_nil_iff.2 fun hook hmem => by simp [hookIsOurs_of_mem_foreignIn hmem]

theorem foreignIn_foreignIn (hooks : List Json) : foreignIn (foreignIn hooks) = foreignIn hooks :=
  List.filter_eq_self.2 fun hook hmem => by simp [hookIsOurs_of_mem_foreignIn hmem]

theorem foreignIn_eq_self (h : ∀ hook ∈ hooks, hookIsOurs hook = false) : foreignIn hooks = hooks :=
  List.filter_eq_self.2 fun hook hmem => by simp [h hook hmem]

theorem groupHooks_withHooks {others : List Json} (h : groupHooks group = some others) :
    groupHooks (withHooks hooks group) = some hooks := by
  cases group with
  | obj fields =>
    unfold withHooks groupHooks
    simp only [getEntry_setEntry, if_true]
  | _ => cases h

theorem groupOthers_withHooks (hooks : List Json) (group : Json) :
    groupOthers (withHooks hooks group) = groupOthers group := by
  cases group with
  | obj fields => exact filter_setEntry "hooks" (.arr hooks) fields
  | _ => rfl

theorem withHooks_eq_self (h : groupHooks group = some hooks) : withHooks hooks group = group := by
  cases group with
  | obj fields =>
    unfold groupHooks at h
    dsimp only at h
    split at h
    · rename_i items hget
      obtain rfl := Option.some.inj h
      exact congrArg Json.obj (setEntry_of_getEntry hget)
    · cases h
  | _ => cases h

theorem foreignInGroup_some (h : groupHooks group = some hooks) :
    foreignInGroup group = (foreignIn hooks).map (.entry (groupOthers group)) := by
  unfold foreignInGroup
  rw [h]

theorem foreignInGroup_withHooks {others : List Json} (h : groupHooks group = some others) :
    foreignInGroup (withHooks hooks group) =
      (foreignIn hooks).map (.entry (groupOthers group)) := by
  rw [foreignInGroup_some (groupHooks_withHooks h), groupOthers_withHooks]

theorem foreignHooks_cons (group : Json) (groups : List Json) :
    foreignHooks (group :: groups) = foreignInGroup group ++ foreignHooks groups :=
      List.flatMap_cons ..

theorem managedHooks_cons (group : Json) (groups : List Json) :
    managedHooks (group :: groups) =
      ((groupHooks group).getD []).filter hookIsOurs ++ managedHooks groups := List.flatMap_cons ..

theorem not_any_iff : (!hooks.any hookIsOurs) = true ↔ ∀ hook ∈ hooks, hookIsOurs hook = false := by
  simp

/-! Stripping. -/

theorem stripGroup_foreign (group : Json) :
    foreignHooks (stripGroup group).toList = foreignInGroup group := by
  unfold stripGroup
  split
  · exact List.flatMap_singleton ..
  · rename_i hooks hhooks
    rw [foreignInGroup_some hhooks]
    split_ifs with hnone hall
    · rw [hnone]
      rfl
    · rw [Option.toList_some, foreignHooks_cons, foreignInGroup_some hhooks]
      exact List.append_nil _
    · rw [Option.toList_some, foreignHooks_cons, foreignInGroup_withHooks hhooks,
        foreignIn_foreignIn]
      exact List.append_nil _

theorem stripGroup_managed (group : Json) : managedHooks (stripGroup group).toList = [] := by
  unfold stripGroup
  split
  · rename_i hnone
    rw [Option.toList_some, managedHooks_cons, hnone]
    rfl
  · rename_i hooks hhooks
    split_ifs with hnone hall
    · rfl
    · have hself : foreignIn hooks = hooks :=
        List.filter_eq_self.2 (List.length_filter_eq_length_iff.1 hall)
      rw [Option.toList_some, managedHooks_cons, hhooks, Option.getD_some, ← hself,
        filter_foreignIn]
      rfl
    · rw [Option.toList_some, managedHooks_cons, groupHooks_withHooks hhooks, Option.getD_some,
        filter_foreignIn]
      rfl

theorem strip_foreign (groups : List Json) :
    foreignHooks (groups.filterMap stripGroup) = foreignHooks groups := by
  induction groups with
  | nil => rfl
  | cons group groups ih =>
    have hone := stripGroup_foreign group
    rw [foreignHooks_cons, ← ih, ← hone]
    cases hstrip : stripGroup group with
    | none =>
      rw [List.filterMap_cons_none hstrip]
      rfl
    | some kept =>
      rw [List.filterMap_cons_some hstrip, foreignHooks_cons, Option.toList_some, foreignHooks_cons,
        List.append_assoc]
      rfl

theorem strip_managed (groups : List Json) : managedHooks (groups.filterMap stripGroup) = [] := by
  induction groups with
  | nil => rfl
  | cons group groups ih =>
    have hone := stripGroup_managed group
    cases hstrip : stripGroup group with
    | none => rw [List.filterMap_cons_none hstrip, ih]
    | some kept =>
      rw [hstrip, Option.toList_some, managedHooks_cons] at hone
      rw [List.filterMap_cons_some hstrip, managedHooks_cons, ih, List.append_nil]
      exact (List.append_eq_nil_iff.1 hone).1

/-- What is removed is counted. -/
theorem removedFrom_eq (group : Json) :
    removedFrom group = (((groupHooks group).getD []).filter hookIsOurs).length := by
  unfold removedFrom
  cases groupHooks group with
  | none => rfl
  | some hooks =>
    have hsplit := List.length_eq_length_filter_add (l := hooks) hookIsOurs
    dsimp only [Option.getD_some]
    unfold foreignIn
    omega

theorem removed_eq (groups : List Json) :
    (groups.map removedFrom).sum = (managedHooks groups).length := by
  induction groups with
  | nil => rfl
  | cons group groups ih =>
    rw [List.map_cons, List.sum_cons, managedHooks_cons, List.length_append, removedFrom_eq, ih]

/-! Placing. -/

theorem refreshEntries_foreign (hhook : hookIsOurs hook = true) (hooks : List Json) :
    foreignIn (refreshEntries hook hooks) = foreignIn hooks := by
  induction hooks with
  | nil => rfl
  | cons entry rest ih =>
    unfold refreshEntries
    split_ifs with hours
    · unfold foreignIn
      rw [List.filter_cons_of_neg (by simp [hhook]), List.filter_cons_of_neg (by simp [hours])]
      exact foreignIn_foreignIn rest
    · unfold foreignIn at ih ⊢
      rw [List.filter_cons_of_pos (by simpa using hours),
        List.filter_cons_of_pos (by simpa using hours), ih]

theorem refreshEntries_managed (hhook : hookIsOurs hook = true)
    (hany : hooks.any hookIsOurs = true) :
    (refreshEntries hook hooks).filter hookIsOurs = [hook] := by
  induction hooks with
  | nil => cases hany
  | cons entry rest ih =>
    unfold refreshEntries
    split_ifs with hours
    · rw [List.filter_cons_of_pos hhook, filter_foreignIn]
    · rw [List.filter_cons_of_neg hours]
      refine ih ?_
      rw [List.any_cons, Bool.or_eq_true] at hany
      exact hany.resolve_left hours

/-- An only entry that is current is left alone. -/
theorem refreshEntries_eq_self (h : hooks.filter hookIsOurs = [hook]) :
    refreshEntries hook hooks = hooks := by
  induction hooks with
  | nil => rfl
  | cons entry rest ih =>
    unfold refreshEntries
    split_ifs with hours
    · rw [List.filter_cons_of_pos hours] at h
      obtain ⟨rfl, hrest⟩ := List.cons.inj h
      rw [foreignIn_eq_self fun other hother => by simpa using List.filter_eq_nil_iff.1 hrest other hother]
    · rw [List.filter_cons_of_neg hours] at h
      rw [ih h]

theorem foreignInGroup_ourGroup (hhook : hookIsOurs hook = true) :
    foreignInGroup (ourGroup hook) = [] := by
  have hhooks : groupHooks (ourGroup hook) = some [hook] := rfl
  rw [foreignInGroup_some hhooks]
  unfold foreignIn
  rw [List.filter_cons_of_neg (by simp [hhook])]
  rfl

theorem placeGroups_foreign (hhook : hookIsOurs hook = true) (found : Bool) (groups : List Json) :
    foreignHooks (placeGroups hook found groups) = foreignHooks groups := by
  induction groups generalizing found with
  | nil =>
    unfold placeGroups
    split_ifs
    · rfl
    · rw [foreignHooks_cons, foreignInGroup_ourGroup hhook]
      rfl
  | cons group groups ih =>
    unfold placeGroups
    split
    · rw [foreignHooks_cons, foreignHooks_cons, ih]
    · rename_i entries hentries
      have hgroup := foreignInGroup_some hentries
      split_ifs with hnone hfound hempty
      · rw [foreignHooks_cons, foreignHooks_cons, ih]
      · rw [foreignHooks_cons, hgroup, hempty, ih]
        rfl
      · rw [foreignHooks_cons, foreignHooks_cons, ih, hgroup, foreignInGroup_withHooks hentries,
          foreignIn_foreignIn]
      · rw [foreignHooks_cons, foreignHooks_cons, ih, hgroup, foreignInGroup_withHooks hentries,
          refreshEntries_foreign hhook]

theorem placeGroups_managed (hhook : hookIsOurs hook = true) (found : Bool) (groups : List Json) :
    managedHooks (placeGroups hook found groups) = if found then [] else [hook] := by
  induction groups generalizing found with
  | nil =>
    unfold placeGroups
    split_ifs
    · rfl
    · have hhooks : groupHooks (ourGroup hook) = some [hook] := rfl
      rw [managedHooks_cons, hhooks, Option.getD_some, List.filter_cons_of_pos hhook]
      rfl
  | cons group groups ih =>
    unfold placeGroups
    split
    · rename_i hnone
      rw [managedHooks_cons, hnone, ih]
      rfl
    rename_i entries hentries
    by_cases hnone : (!entries.any hookIsOurs) = true
    · have hfilter : entries.filter hookIsOurs = [] :=
        List.filter_eq_nil_iff.2 fun entry hentry => by simp [not_any_iff.1 hnone entry hentry]
      rw [if_pos hnone, managedHooks_cons, hentries, Option.getD_some, hfilter, ih]
      rfl
    rw [if_neg hnone]
    cases found with
    | true =>
      rw [if_pos rfl, if_pos rfl]
      split_ifs
      · exact ih true
      · rw [managedHooks_cons, groupHooks_withHooks hentries, Option.getD_some,
          filter_foreignIn, ih]
        rfl
    | false =>
      have hany : entries.any hookIsOurs = true := by simpa using hnone
      rw [if_neg Bool.false_ne_true, managedHooks_cons, groupHooks_withHooks hentries,
        Option.getD_some,
        refreshEntries_managed hhook hany, ih]
      rfl

/-- Groups whose only entry of ours is current are left alone. -/
theorem placeGroups_eq_self {found : Bool}
    (h : managedHooks groups = if found then [] else [hook]) :
      placeGroups hook found groups = groups := by
  induction groups generalizing found with
  | nil =>
    cases found with
    | true => rfl
    | false => cases h
  | cons group groups ih =>
    rw [managedHooks_cons] at h
    unfold placeGroups
    split
    · rename_i hnone
      rw [hnone] at h
      rw [ih h]
    · rename_i entries hentries
      rw [hentries, Option.getD_some] at h
      split_ifs with hnone hfound hempty
      · have hfilter : entries.filter hookIsOurs = [] :=
          List.filter_eq_nil_iff.2 fun entry hentry => by simp [not_any_iff.1 hnone entry hentry]
        rw [hfilter] at h
        rw [ih h]
      all_goals
        have hany : entries.any hookIsOurs = true := by simpa using hnone
        obtain ⟨entry, hentry, hours⟩ := List.any_eq_true.1 hany
        have hmem : entry ∈ entries.filter hookIsOurs := List.mem_filter.2 ⟨hentry, hours⟩
        have hlength := congrArg List.length h
        have hpos := List.length_pos_of_mem hmem
      · rw [if_pos hfound, List.length_append, List.length_nil] at hlength
        omega
      · rw [if_pos hfound, List.length_append, List.length_nil] at hlength
        omega
      · rw [if_neg hfound] at h hlength
        have hrest : managedHooks groups = [] := by
          rw [List.length_append, List.length_singleton] at hlength
          exact List.length_eq_zero_iff.1 (by omega)
        rw [hrest, List.append_nil] at h
        rw [refreshEntries_eq_self h, withHooks_eq_self hentries,
          ih (hrest.trans (if_pos rfl).symm)]

theorem groupIsOurs_false_of_managed (h : managedHooks groups = []) :
    groups.any groupIsOurs = false := by
  refine List.any_eq_false.2 fun group hgroup hours => ?_
  have hnone := List.flatMap_eq_nil_iff.1 h group hgroup
  unfold groupIsOurs at hours
  split at hours
  · rename_i hooks hhooks
    rw [hhooks] at hnone
    obtain ⟨entry, hentry, hmine⟩ := List.any_eq_true.1 hours
    exact List.filter_eq_nil_iff.1 hnone entry hentry hmine
  · cases hours

end Groups

/-! ### The events of a record -/

section Records

variable {hooks : JsRecord} {event : String} {events : List String}

theorem nodup_setEntry {key : String} {value : Json} (h : (hooks.map Prod.fst).Nodup) :
    ((setEntry key value hooks).map Prod.fst).Nodup :=
  ((⟨hooks, h⟩ : OrderedMap String Json).set key value).nodup

theorem eventGroups_setEntry (key : String) (groups : List Json) :
    eventGroups (setEntry key (.arr groups) hooks) event =
      if event = key then groups else eventGroups hooks event := by
  unfold eventGroups
  rw [getEntry_setEntry]
  split_ifs <;> rfl

theorem getEntry_of_eventGroups (h : eventGroups hooks event ≠ []) :
    getEntry event hooks = some (.arr (eventGroups hooks event)) := by
  unfold eventGroups at h ⊢
  split
  · assumption
  · rename_i hother
    split at h
    · rename_i groups hget
      exact absurd hget (hother groups)
    · exact absurd rfl h

theorem eventGroups_keepGroups (kept : List Json) :
    (match keepGroups kept with
      | some (.arr groups) => groups
      | _ => []) = kept := by
  unfold keepGroups
  split_ifs with h
  · exact h.symm
  · rfl

theorem eventGroups_stripOurHooks (h : (hooks.map Prod.fst).Nodup) (event : String) :
    eventGroups (stripOurHooks hooks).1 event = (eventGroups hooks event).filterMap stripGroup := by
  unfold stripOurHooks eventGroups
  rw [getEntry_updateEntries _ h]
  cases getEntry event hooks with
  | none => rfl
  | some groups =>
    cases groups with
    | arr groups => exact eventGroups_keepGroups _
    | _ => rfl

theorem not_stripped (h : ¬(stripOurHooks hooks).2 > 0) (event : String) :
    managedHooks (eventGroups hooks event) = [] := by
  by_cases hnone : eventGroups hooks event = []
  · rw [hnone]
    rfl
  have hmem : (event, Json.arr (eventGroups hooks event)) ∈ hooks := by
    have hget := getEntry_of_eventGroups hnone
    generalize eventGroups hooks event = groups at hget
    clear h hnone
    induction hooks with
    | nil => cases hget
    | cons entry rest ih =>
      obtain ⟨key, value⟩ := entry
      by_cases hkey : key = event
      · simp only [getEntry, hkey, if_true, Option.some.injEq] at hget
        rw [hkey, hget]
        exact List.mem_cons_self ..
      · simp only [getEntry, hkey, if_false] at hget
        exact List.mem_cons_of_mem _ (ih hget)
  have hzero : ((eventGroups hooks event).map removedFrom).sum = 0 :=
    List.sum_eq_zero_iff_forall_eq_nat.1 (Nat.eq_zero_of_not_pos h) _ (List.mem_map.2 ⟨_, hmem, rfl⟩)
  rw [removed_eq] at hzero
  exact List.length_eq_zero_iff.1 hzero

theorem eventGroups_dropUnused (h : (hooks.map Prod.fst).Nodup) (event : String) :
    eventGroups (dropUnused events hooks) event =
      if event ∈ events then eventGroups hooks event
      else (eventGroups hooks event).filter fun group => !groupIsOurs group := by
  unfold dropUnused eventGroups
  rw [getEntry_updateEntries _ h]
  cases getEntry event hooks with
  | none => split_ifs <;> rfl
  | some groups =>
    rw [Option.bind_some]
    by_cases hmem : event ∈ events
    · rw [if_pos hmem, if_pos hmem]
    rw [if_neg hmem, if_neg hmem]
    cases groups with
    | arr groups =>
      dsimp only
      split_ifs with hany
      · exact eventGroups_keepGroups _
      · refine (List.filter_eq_self.2 fun group hgroup => ?_).symm
        have hnone : groups.any groupIsOurs = false := by simpa using hany
        simpa using List.any_eq_false.1 hnone group hgroup
    | _ => rfl

/-- Nothing is dropped from a record without unused entries of ours. -/
theorem dropUnused_eq_self (h : (hooks.map Prod.fst).Nodup)
    (hnone : ∀ event ∉ events, managedHooks (eventGroups hooks event) = []) :
    dropUnused events hooks = hooks := by
  unfold dropUnused updateEntries
  rw [List.filterMap_eq_map_iff_forall_eq_some (f := _) (g := id) |>.2, List.map_id]
  rintro ⟨event, groups⟩ hentry
  dsimp only [id]
  by_cases hmem : event ∈ events
  · rw [if_pos hmem]
    rfl
  rw [if_neg hmem]
  cases groups with
  | arr groups =>
    have hget := (getEntry_eq_some_iff hooks h event (.arr groups)).2 hentry
    have hgroups : eventGroups hooks event = groups := by
      unfold eventGroups
      rw [hget]
    have hours := groupIsOurs_false_of_managed (hgroups ▸ hnone event hmem)
    simp [hours]
  | _ => rfl

theorem flatMap_filter_eq_iff {α β : Type} (f : α → List β) (p : α → Bool) (l : List α) :
    (l.filter p).flatMap f = l.flatMap f ↔ ∀ x ∈ l, p x = false → f x = [] := by
  constructor
  · induction l with
    | nil => exact fun _ => nofun
    | cons x l ih =>
      intro h
      have hle : ((l.filter p).flatMap f).length ≤ (l.flatMap f).length :=
        (List.filter_sublist.flatMap f).length_le
      have hx : p x = false → f x = [] := by
        intro hp
        rw [List.filter_cons_of_neg (by simp [hp]), List.flatMap_cons] at h
        have hlength := congrArg List.length h
        rw [List.length_append] at hlength
        exact List.length_eq_zero_iff.1 (by omega)
      have hrest : (l.filter p).flatMap f = l.flatMap f := by
        cases hp : p x with
        | true =>
          rw [List.filter_cons_of_pos hp, List.flatMap_cons, List.flatMap_cons] at h
          exact List.append_cancel_left h
        | false =>
          rw [List.filter_cons_of_neg (by simp [hp]), List.flatMap_cons, hx hp] at h
          exact h
      exact List.forall_mem_cons.2 ⟨hx, ih hrest⟩
  · intro h
    induction l with
    | nil => rfl
    | cons x l ih =>
      obtain ⟨hx, hl⟩ := List.forall_mem_cons.1 h
      cases hp : p x with
      | true => rw [List.filter_cons_of_pos hp, List.flatMap_cons, List.flatMap_cons, ih hl]
      | false =>
        rw [List.filter_cons_of_neg (by simp [hp]), List.flatMap_cons, hx hp, ih hl]
        rfl

/-- The groups with an entry of ours can be dropped exactly if they hold nothing else. -/
theorem foreignHooks_filter_iff (groups : List Json) :
    foreignHooks (groups.filter fun group => !groupIsOurs group) = foreignHooks groups ↔
      ∀ group ∈ groups, groupIsOurs group = true → foreignInGroup group = [] := by
  unfold foreignHooks
  rw [flatMap_filter_eq_iff]
  simp

theorem managedHooks_filter (groups : List Json) :
    managedHooks (groups.filter fun group => !groupIsOurs group) = [] := by
  refine List.flatMap_eq_nil_iff.2 fun group hgroup => ?_
  have hours : groupIsOurs group = false := by simpa using (List.mem_filter.1 hgroup).2
  unfold groupIsOurs at hours
  split at hours
  · rename_i hooks hhooks
    rw [hhooks]
    exact List.filter_eq_nil_iff.2 fun hook hmem => by simpa using List.any_eq_false.1 hours hook hmem
  · rename_i hnone
    rw [hnone]
    rfl

end Records

/-! ### Placing every entry -/

section Entries

variable {runtime : SettingsRuntime} {stubRef : String} {entries : List HookEntrySpec}
  {hooks : JsRecord}

/-- The loop of the installation over the entries. -/
def placeEntries (runtime : SettingsRuntime) (stubRef : String) (entries : List HookEntrySpec)
    (hooks : JsRecord) : JsRecord :=
  entries.foldl (fun hooks spec => placeOurGroup (ourHook runtime spec stubRef) spec.event hooks) hooks

theorem nodup_placeEntries (h : (hooks.map Prod.fst).Nodup) :
    ((placeEntries runtime stubRef entries hooks).map Prod.fst).Nodup := by
  induction entries generalizing hooks with
  | nil => exact h
  | cons spec entries ih => exact ih (nodup_setEntry h)

theorem eventGroups_placeEntries_of_notMem {event : String}
    (h : event ∉ entries.map HookEntrySpec.event) :
    eventGroups (placeEntries runtime stubRef entries hooks) event = eventGroups hooks event := by
  induction entries generalizing hooks with
  | nil => rfl
  | cons spec entries ih =>
    rw [List.map_cons, List.mem_cons, not_or] at h
    have hstep : eventGroups (placeOurGroup (ourHook runtime spec stubRef) spec.event hooks) event =
        eventGroups hooks event := by
      unfold placeOurGroup
      rw [eventGroups_setEntry, if_neg h.1]
    exact (ih h.2).trans hstep

theorem eventGroups_placeEntries (hdistinct : (entries.map HookEntrySpec.event).Nodup)
    {spec : HookEntrySpec} (h : spec ∈ entries) :
    eventGroups (placeEntries runtime stubRef entries hooks) spec.event =
      placeGroups (ourHook runtime spec stubRef) false (eventGroups hooks spec.event) := by
  induction entries generalizing hooks with
  | nil => cases h
  | cons first entries ih =>
    rw [List.map_cons, List.nodup_cons] at hdistinct
    rcases List.mem_cons.1 h with rfl | hrest
    · have hstep : eventGroups (placeOurGroup (ourHook runtime spec stubRef) spec.event hooks) spec.event =
          placeGroups (ourHook runtime spec stubRef) false (eventGroups hooks spec.event) := by
        unfold placeOurGroup
        rw [eventGroups_setEntry, if_pos rfl]
      exact (eventGroups_placeEntries_of_notMem hdistinct.1).trans hstep
    · have hne : spec.event ≠ first.event := fun heq =>
        hdistinct.1 (heq ▸ List.mem_map_of_mem hrest)
      have hstep : eventGroups (placeOurGroup (ourHook runtime first stubRef) first.event hooks) spec.event =
          eventGroups hooks spec.event := by
        unfold placeOurGroup
        rw [eventGroups_setEntry, if_neg hne]
      rw [← hstep]
      exact ih hdistinct.2 hrest

theorem placeEntries_eq_self (h : ∀ spec ∈ entries,
    managedHooks (eventGroups hooks spec.event) = [ourHook runtime spec stubRef]) :
    placeEntries runtime stubRef entries hooks = hooks := by
  induction entries generalizing hooks with
  | nil => rfl
  | cons spec entries ih =>
    obtain ⟨hspec, hrest⟩ := List.forall_mem_cons.1 h
    have hsome : eventGroups hooks spec.event ≠ [] := by
      intro hnil
      rw [hnil] at hspec
      cases hspec
    have hstep : placeOurGroup (ourHook runtime spec stubRef) spec.event hooks = hooks := by
      unfold placeOurGroup
      rw [placeGroups_eq_self (hspec.trans (if_neg Bool.false_ne_true).symm)]
      exact setEntry_of_getEntry (getEntry_of_eventGroups hsome)
    calc placeEntries runtime stubRef (spec :: entries) hooks
        = placeEntries runtime stubRef entries
            (placeOurGroup (ourHook runtime spec stubRef) spec.event hooks) := rfl
      _ = hooks := by rw [hstep, ih hrest]

end Entries

/-! ### The commands that are ours -/

section Commands

variable {runtime : SettingsRuntime} {spec : HookEntrySpec} {stubRef : String} {ref ending : List Char}

theorem isOurCommand_stub {command : String}
    (hcommand : command.toList = "[ -x \"".toList ++ ref ++ ending)
    (href : '"' ∉ ref) (hending : ending.head? = some '"') :
    isOurCommand command = (isStubRef ref && decide (ending ∈ ourEndings ref)) := by
  obtain ⟨rest, rfl⟩ := List.head?_eq_some_iff.1 hending
  have htake : (ref ++ '"' :: rest).takeWhile (· ≠ '"') = ref := by
    rw [List.takeWhile_append_of_pos fun c hc => decide_eq_true (p := c ≠ '"') fun heq => href (heq ▸ hc),
      List.takeWhile_cons_of_neg (by decide), List.append_nil]
  have hdrop : command.toList.drop "[ -x \"".toList.length = ref ++ '"' :: rest := by
    rw [hcommand, List.append_assoc, List.drop_left]
  have hstart : "[ -x \"".toList <+: command.toList := by
    rw [hcommand, List.append_assoc]
    exact List.prefix_append ..
  unfold isOurCommand
  simp only [hdrop, htake, List.drop_left, hstart, true_and, Bool.decide_and, Bool.decide_eq_true]

theorem hookArgument_mem (hgroup : runtime ≠ .agy)
    (h : spec ∈ (integrationTarget runtime).entries) :
    runtime.name ++ hookArgument runtime spec.event ∈ ourArguments := by
  have hall : ∀ runtime ≠ SettingsRuntime.agy, ∀ event ∈ (integrationTarget runtime).entries.map
      HookEntrySpec.event, runtime.name ++ hookArgument runtime event ∈ ourArguments := by
    intro runtime hgroup
    cases runtime with
    | agy => exact absurd rfl hgroup
    | claude => decide +kernel
    | codex => decide +kernel
  exact hall runtime hgroup spec.event (List.mem_map_of_mem h)

theorem stubCommand_toList (hgroup : runtime ≠ .agy) (event : String) :
    (stubCommand runtime event stubRef).toList =
      "[ -x \"".toList ++ stubRef.toList ++ ("\" ] && sh \"".toList ++
      stubRef.toList ++ "\" ".toList ++ (runtime.name ++ hookArgument runtime event).toList ++
      " || true".toList) := by
  unfold stubCommand
  rw [if_neg hgroup, String.toList_append, String.toList_append, String.toList_append,
    String.toList_append,
    String.toList_append, String.toList_append]
  simp only [List.append_assoc]

/-- The entry that is installed is recognised exactly if the stub's path is. -/
theorem hookIsOurs_ourHook (hgroup : runtime ≠ .agy)
    (h : spec ∈ (integrationTarget runtime).entries)
    (href : '"' ∉ stubRef.toList) :
    hookIsOurs (ourHook runtime spec stubRef) = isStubRef stubRef.toList := by
  have hcommand : hookIsOurs (ourHook runtime spec stubRef) =
      isOurCommand (stubCommand runtime spec.event stubRef) := rfl
  have hmem : "\" ] && sh \"".toList ++ stubRef.toList ++ "\" ".toList ++
      (runtime.name ++ hookArgument runtime spec.event).toList ++ " || true".toList ∈
      ourEndings stubRef.toList :=
    List.mem_flatten.2 ⟨_, List.mem_map.2 ⟨" || true", List.mem_cons_self .., rfl⟩,
      List.mem_map.2 ⟨_, hookArgument_mem hgroup h, rfl⟩⟩
  have hquote : "\" ] && sh \"".toList.head? = some '"' := by decide +kernel
  obtain ⟨rest, hrest⟩ := List.head?_eq_some_iff.1 hquote
  rw [hcommand, isOurCommand_stub (stubCommand_toList hgroup spec.event) href (by rw [hrest]; rfl),
    decide_eq_true hmem, Bool.and_true]

theorem hookIsCurrent_ourHook :
    hookIsCurrent runtime spec stubRef (ourHook runtime spec stubRef) = true := by
  unfold hookIsCurrent ourHook
  cases spec.async <;> cases spec.timeout <;> simp [getEntry]

theorem events_nodup (runtime : SettingsRuntime) :
    ((integrationTarget runtime).entries.map HookEntrySpec.event).Nodup := by
  cases runtime <;> decide

end Commands

/-! ### The stub's path -/

section StubPaths

variable {segments stack : List (List Char)} {absolute : Bool} {path : List Char}

theorem pathStep_plain {segment : List Char} (hdot : segment ≠ ['.']) (hup : segment ≠ ['.', '.']) :
    pathStep absolute stack segment = stack ++ [segment] := by
  unfold pathStep
  rw [if_neg hdot, if_neg hup]

theorem mem_pathStep {segment x : List Char} (h : x ∈ pathStep absolute stack segment) :
    x ∈ stack ∨ x = segment := by
  have hpush : x ∈ stack ++ [segment] → x ∈ stack ∨ x = segment := fun h =>
    (List.mem_append.1 h).imp_right List.mem_singleton.1
  unfold pathStep at h
  split at h
  · exact .inl h
  split at h
  · split at h
    · split at h
      · exact .inl h
      · exact hpush h
    · split at h
      · exact .inl (List.dropLast_subset stack h)
      split at h
      · exact .inl h
      · exact hpush h
  · exact hpush h

theorem mem_foldl_pathStep (segments : List (List Char)) {x : List Char}
    (h : x ∈ segments.foldl (pathStep absolute) stack) : x ∈ stack ∨ x ∈ segments := by
  induction segments generalizing stack with
  | nil => exact .inl h
  | cons segment segments ih =>
    rcases ih h with hstack | hrest
    · exact (mem_pathStep hstack).imp_right fun (heq : x = segment) => heq ▸ List.mem_cons_self ..
    · exact .inr (List.mem_cons_of_mem _ hrest)

theorem mem_words {segment : List Char} (h : segment ∈ Splitting.words (· = '/') path) :
    segment ≠ [] ∧ segment ⊆ path := by
  obtain ⟨hpiece, hne⟩ := List.mem_filter.1 h
  refine ⟨by simpa using hne, ?_⟩
  clear h hne
  induction path generalizing segment with
  | nil =>
    rw [List.splitOnP_nil, List.mem_singleton] at hpiece
    rw [hpiece]
    exact List.nil_subset _
  | cons c path ih =>
    rw [List.splitOnP_cons_eq_if_modifyHead] at hpiece
    split_ifs at hpiece
    · rcases List.mem_cons.1 hpiece with rfl | hpiece
      · exact List.nil_subset _
      · exact List.subset_cons_of_subset c (ih hpiece)
    · cases hsplit : path.splitOnP (· = '/') with
      | nil => exact absurd hsplit (List.splitOnP_ne_nil _ _)
      | cons first rest =>
        rw [hsplit, List.modifyHead_cons] at hpiece
        rcases List.mem_cons.1 hpiece with rfl | hpiece
        · exact List.cons_subset_cons c (ih (hsplit ▸ List.mem_cons_self ..))
        · exact List.subset_cons_of_subset c (ih (hsplit ▸ List.mem_cons_of_mem _ hpiece))

theorem mem_pathSegments {segment : List Char} (h : segment ∈ pathSegments path) :
    segment ≠ [] ∧ segment ⊆ path :=
  mem_words ((mem_foldl_pathStep _ h).resolve_left List.not_mem_nil)

/-- The stub's file names. -/
def stubNames (runtime : SettingsRuntime) : List (List Char) :=
  if runtime = .codex then [] else ["hooks".toList]

/-- The stub's file, as its names and as a text. -/
theorem stubFile_eq (runtime : SettingsRuntime) :
    Splitting.words (· = '/') (integrationTarget runtime).stubFile.toList =
      stubNames runtime ++ ["lcars-hook.sh".toList] ∧
    (integrationTarget runtime).stubFile.toList ≠ [] ∧
    (integrationTarget runtime).stubFile.toList.getLast? = some 'h' ∧
    '"' ∉ (integrationTarget runtime).stubFile.toList := by
  cases runtime <;> decide +kernel

/-- The names are plain segments of a path. -/
theorem stubName_plain : "/lcars-hook.sh".toList = '/' :: "lcars-hook.sh".toList ∧
    ∀ name ∈ ["lcars-hook.sh".toList, "hooks".toList], name ≠ [] ∧ name ≠ ['.'] ∧
      name ≠ ['.', '.'] := by
  decide +kernel

/-- The segments of the stub's path. -/
theorem pathSegments_stub (hdir : path ≠ []) (runtime : SettingsRuntime) :
    pathSegments (path ++ '/' :: (integrationTarget runtime).stubFile.toList) =
      pathSegments path ++ stubNames runtime ++ ["lcars-hook.sh".toList] := by
  have hhead : (path ++ '/' :: (integrationTarget runtime).stubFile.toList).head? = path.head? := by
    obtain ⟨c, rest, rfl⟩ := List.exists_cons_of_ne_nil hdir
    rfl
  have hname := stubName_plain.2 _ List.mem_cons_self
  have hfolder := stubName_plain.2 _ (List.mem_cons_of_mem _ List.mem_cons_self)
  unfold pathSegments
  rw [hhead, Splitting.words_append (by rfl), (stubFile_eq runtime).1, List.foldl_append,
    List.foldl_append,
    List.foldl_cons, List.foldl_nil, pathStep_plain hname.2.1 hname.2.2]
  unfold stubNames
  split_ifs
  · rw [List.foldl_nil, List.append_nil]
  · rw [List.foldl_cons, List.foldl_nil, pathStep_plain hfolder.2.1 hfolder.2.2]

theorem intercalate_concat (segments : List (List Char)) (last : List Char) (h : segments ≠ []) :
    ['/'].intercalate (segments ++ [last]) = ['/'].intercalate segments ++ '/' :: last := by
  induction segments with
  | nil => exact absurd rfl h
  | cons segment segments ih =>
    by_cases hnil : segments = []
    · rw [hnil, List.singleton_append, List.intercalate_cons_cons, List.intercalate_singleton,
        List.intercalate_singleton, List.append_assoc]
      rfl
    · rw [List.cons_append, List.intercalate_cons_of_ne_nil (by simp), ih hnil,
        List.intercalate_cons_of_ne_nil hnil]
      simp only [List.append_assoc]

theorem joinPath_stub {dir : String} (hdir : dir.toList ≠ []) (runtime : SettingsRuntime) :
    (joinPath [dir, (integrationTarget runtime).stubFile]).toList =
      (if dir.toList.head? = some '/' then ['/'] else []) ++ ['/'].intercalate
        (pathSegments dir.toList ++ stubNames runtime ++ ["lcars-hook.sh".toList]) := by
  obtain ⟨-, hsome, hend, -⟩ := stubFile_eq runtime
  have hlast : (dir.toList ++ '/' :: (integrationTarget runtime).stubFile.toList).getLast? = some 'h' := by
    rw [List.getLast?_append_of_ne_nil _ (List.cons_ne_nil _ _),
      List.getLast?_cons_of_ne_nil hsome, hend]
  have hhead : (dir.toList ++ '/' :: (integrationTarget runtime).stubFile.toList).head? =
      dir.toList.head? := by
    obtain ⟨c, rest, heq⟩ := List.exists_cons_of_ne_nil hdir
    rw [heq]
    rfl
  have hbody : ['/'].intercalate (pathSegments dir.toList ++ stubNames runtime ++
      ["lcars-hook.sh".toList]) ≠ [] := by
    by_cases hnil : pathSegments dir.toList ++ stubNames runtime = []
    · rw [hnil, List.nil_append, List.intercalate_singleton]
      exact (stubName_plain.2 _ List.mem_cons_self).1
    · rw [intercalate_concat _ _ hnil]
      simp
  have hjoin : joinPath [dir, (integrationTarget runtime).stubFile] = String.ofList (normalizePath
      (dir.toList ++ '/' :: (integrationTarget runtime).stubFile.toList)) := by
    unfold joinPath
    rw [List.map_cons, List.map_cons, List.map_nil, List.filter_cons_of_pos (by simpa using hdir),
      List.filter_cons_of_pos (by simpa using hsome), List.filter_nil]
    simp only
    rw [List.intercalate_cons_cons, List.intercalate_singleton, List.append_assoc]
    rfl
  rw [hjoin, String.toList_ofList]
  have hslash : some 'h' ≠ some '/' := by decide
  unfold normalizePath
  simp only [pathSegments_stub hdir runtime, hhead, hlast, hbody, hslash, if_false,
    List.append_eq_nil_iff, hdir, false_and]
  split_ifs <;> simp

theorem suffix_stub (text : List Char) :
    "/lcars-hook.sh".toList <:+ text ++ '/' :: "lcars-hook.sh".toList :=
  ⟨text, by
    rw [stubName_plain.1]⟩

/-- The stub's path is recognised exactly if it names a directory. -/
theorem isStubRef_joinPath {dir : String} (hdir : dir.toList ≠ []) (runtime : SettingsRuntime) :
    isStubRef (joinPath [dir, (integrationTarget runtime).stubFile]).toList = true ↔
      pathSegments dir.toList ++ stubNames runtime ≠ [] := by
  have hlength : "/lcars-hook.sh".toList.length = "lcars-hook.sh".toList.length + 1 := by
    rw [stubName_plain.1, List.length_cons]
  rw [joinPath_stub hdir]
  unfold isStubRef
  rw [decide_eq_true_iff]
  constructor
  · rintro ⟨hsuffix, hlt⟩ hnil
    rw [hnil, List.nil_append, List.intercalate_singleton] at hlt
    have hlead : (if dir.toList.head? = some '/' then ['/'] else []).length ≤ 1 := by
      split_ifs <;> decide
    rw [List.length_append] at hlt
    omega
  · intro hne
    rw [intercalate_concat _ _ hne, ← List.append_assoc]
    refine ⟨suffix_stub _, ?_⟩
    obtain ⟨segment, rest, heq⟩ := List.exists_cons_of_ne_nil hne
    have hsegment : segment ≠ [] := by
      have hmem : segment ∈ pathSegments dir.toList ++ stubNames runtime :=
        heq ▸ List.mem_cons_self ..
      rcases List.mem_append.1 hmem with hmem | hmem
      · exact (mem_pathSegments hmem).1
      · unfold stubNames at hmem
        split_ifs at hmem
        · cases hmem
        · rw [List.mem_singleton.1 hmem]
          exact (stubName_plain.2 _ (List.mem_cons_of_mem _ List.mem_cons_self)).1
    have hpos : 0 < (['/'].intercalate (segment :: rest)).length := by
      obtain ⟨c, text, rfl⟩ := List.exists_cons_of_ne_nil hsegment
      cases rest with
      | nil => simp
      | cons next rest =>
        rw [List.intercalate_cons_cons]
        simp
    rw [heq, List.length_append, List.length_append, List.length_cons]
    omega

theorem quote_notMem_joinPath {dir : String} (hdir : dir.toList ≠ []) (hquote : '"' ∉ dir.toList)
    (runtime : SettingsRuntime) :
      '"' ∉ (joinPath [dir, (integrationTarget runtime).stubFile]).toList := by
  have hfile : '"' ∉ (integrationTarget runtime).stubFile.toList := (stubFile_eq runtime).2.2.2
  have hjoin : ∀ segments : List (List Char), (∀ segment ∈ segments, '"' ∉ segment) →
      '"' ∉ ['/'].intercalate segments := by
    intro segments hsegments
    induction segments with
    | nil => exact List.not_mem_nil
    | cons segment segments ih =>
      obtain ⟨hfirst, hrest⟩ := List.forall_mem_cons.1 hsegments
      by_cases hnil : segments = []
      · rw [hnil, List.intercalate_singleton]
        exact hfirst
      · rw [List.intercalate_cons_of_ne_nil hnil, List.mem_append, List.mem_append, not_or, not_or]
        exact ⟨⟨hfirst, by decide⟩, ih hrest⟩
  rw [joinPath_stub hdir, List.mem_append, not_or]
  constructor
  · split_ifs <;> decide
  · refine hjoin _ fun segment hsegment => ?_
    rw [← pathSegments_stub hdir] at hsegment
    intro hmem
    have hin := (mem_pathSegments hsegment).2 hmem
    rcases List.mem_append.1 hin with hin | hin
    · exact hquote hin
    · rcases List.mem_cons.1 hin with heq | hin
      · exact absurd heq (by decide)
      · exact hfile hin

end StubPaths

/-! ### The commands on a settings file -/

/-- The groups of an event in the settings. -/
def settingsGroups (settings : JsRecord) (event : String) : List Json :=
  eventGroups (settingsRecord "hooks" settings) event

/-- What belongs to others is as before, in the hooks and outside. -/
structure LeavesForeign (before after : JsRecord) : Prop where
  foreign : ∀ event,
    foreignHooks (settingsGroups after event) = foreignHooks (settingsGroups before event)
  outside : after.filter (fun entry => entry.1 ≠ "hooks") = before.filter fun entry =>
    entry.1 ≠ "hooks"

/-- Each event of the runtime has the one current entry, the other events have none. -/
structure InstalledExactly (runtime : SettingsRuntime) (stubRef : String) (settings : JsRecord) :
    Prop where
  expected : ∀ spec ∈ (integrationTarget runtime).entries,
    managedHooks (settingsGroups settings spec.event) = [ourHook runtime spec stubRef]
  unused : ∀ event ∉ (integrationTarget runtime).entries.map HookEntrySpec.event,
    managedHooks (settingsGroups settings event) = []

/-- The settings file holds the settings. -/
def HookFiles.Holds (files : HookFiles) (settings : JsRecord) : Prop :=
  ∃ mode, files.settings = some ⟨mode, .json (.obj settings)⟩

/-- An uninstallation removes every entry of ours and leaves the rest as it was in `before`. -/
def UninstallsExactly (runtime : SettingsRuntime) (homeDirectory : String)
    (env : String → Option String)
    (files : HookFiles) (before : JsRecord) : Prop :=
  ∃ files' status settings',
    settingsUninstallIntegration runtime homeDirectory env files = (files', .ok status) ∧
    files'.Holds settings' ∧ (∀ event, managedHooks (settingsGroups settings' event) = []) ∧
    LeavesForeign before settings'

/-- An installation is exact, repeatable and reported, and can be undone. -/
def InstallsExactly (runtime : SettingsRuntime) (homeDirectory : String)
    (env : String → Option String)
    (files : HookFiles) (stubRef : String) (before : JsRecord) : Prop :=
  ∃ files' status settings',
    settingsInstallIntegration runtime homeDirectory env files = (files', .ok status) ∧
    files'.Holds settings' ∧ InstalledExactly runtime stubRef settings' ∧
      LeavesForeign before settings' ∧
    settingsInstallIntegration runtime homeDirectory env files' = (files', .ok status) ∧
    settingsIntegrationStatus runtime homeDirectory env files' = .ok status ∧
    status.installed = true ∧ status.duplicateEntries = 0 ∧
    UninstallsExactly runtime homeDirectory env files' before

structure ExactInstallation (runtime : SettingsRuntime) (homeDirectory : String)
    (env : String → Option String) (files : HookFiles) (stubRef : String) (settings : JsRecord) :
      Prop where
  install : InstallsExactly runtime homeDirectory env files stubRef settings
  uninstall : UninstallsExactly runtime homeDirectory env files settings

/-- No group of an event that is not installed into holds an entry of ours and something else. -/
def NoneShared (runtime : SettingsRuntime) (settings : JsRecord) : Prop :=
  ∀ event ∉ (integrationTarget runtime).entries.map HookEntrySpec.event,
    ∀ group ∈ settingsGroups settings event, groupIsOurs group = true → foreignInGroup group = []

/-- The directory the environment names for Codex, when it names one, has a name. -/
def DirectoryNamed (runtime : SettingsRuntime) (env : String → Option String) : Prop :=
  runtime = .codex → ∀ dir, relocated runtime env = some dir → pathSegments dir.toList ≠ []

section Settings

variable {runtime : SettingsRuntime} {homeDirectory stubRef : String} {env : String → Option String}
  {files : HookFiles} {settings hooks : JsRecord} {resolved : ResolvedTarget}

theorem settingsRecord_of_get (h : getEntry "hooks" settings = some (.obj hooks)) :
    settingsRecord "hooks" settings = hooks := by
  unfold settingsRecord
  rw [h]

theorem settingsGroups_of_get (h : getEntry "hooks" settings = some (.obj hooks)) (event : String) :
    settingsGroups settings event = eventGroups hooks event := by
  unfold settingsGroups
  rw [settingsRecord_of_get h]

theorem get_setHooks (hooks settings : JsRecord) :
    getEntry "hooks" (setEntry "hooks" (.obj hooks) settings) = some (.obj hooks) := by
  rw [getEntry_setEntry, if_pos rfl]

/-- What an installation makes of the hooks. -/
def installedHooks (runtime : SettingsRuntime) (stubRef : String) (hooks : JsRecord) : JsRecord :=
  dropUnused ((integrationTarget runtime).entries.map HookEntrySpec.event)
    (placeEntries runtime stubRef (integrationTarget runtime).entries hooks)

theorem installInto_eq (hgroup : runtime ≠ .agy)
    (h : getEntry "hooks" settings = some (.obj hooks)) :
    installInto runtime stubRef settings =
      setEntry "hooks" (.obj (installedHooks runtime stubRef hooks)) settings := by
  unfold installInto
  rw [settingsRecord_of_get h]
  cases runtime with
  | agy => exact absurd rfl hgroup
  | claude => rfl
  | codex => rfl

theorem nodup_installedHooks (h : (hooks.map Prod.fst).Nodup) :
    ((installedHooks runtime stubRef hooks).map Prod.fst).Nodup := by
  unfold installedHooks dropUnused
  exact (keys_updateEntries _ _).nodup (nodup_placeEntries h)

theorem installedHooks_expected (h : (hooks.map Prod.fst).Nodup) {spec : HookEntrySpec}
    (hspec : spec ∈ (integrationTarget runtime).entries) :
    eventGroups (installedHooks runtime stubRef hooks) spec.event =
      placeGroups (ourHook runtime spec stubRef) false (eventGroups hooks spec.event) := by
  unfold installedHooks
  rw [eventGroups_dropUnused (nodup_placeEntries h), if_pos (List.mem_map_of_mem hspec),
    eventGroups_placeEntries (events_nodup runtime) hspec]

theorem installedHooks_unused (h : (hooks.map Prod.fst).Nodup) {event : String}
    (hevent : event ∉ (integrationTarget runtime).entries.map HookEntrySpec.event) :
    eventGroups (installedHooks runtime stubRef hooks) event =
      (eventGroups hooks event).filter fun group => !groupIsOurs group := by
  unfold installedHooks
  rw [eventGroups_dropUnused (nodup_placeEntries h), if_neg hevent,
    eventGroups_placeEntries_of_notMem hevent]

theorem installedHooks_managed (h : (hooks.map Prod.fst).Nodup)
    (hours : ∀ spec ∈ (integrationTarget runtime).entries,
      hookIsOurs (ourHook runtime spec stubRef) = true) :
    InstalledExactly runtime stubRef
      (setEntry "hooks" (.obj (installedHooks runtime stubRef hooks)) settings) where
  expected spec hspec := by
    rw [settingsGroups_of_get (get_setHooks _ _), installedHooks_expected h hspec,
      placeGroups_managed (hours spec hspec), if_neg Bool.false_ne_true]
  unused event hevent := by
    rw [settingsGroups_of_get (get_setHooks _ _), installedHooks_unused h hevent,
      managedHooks_filter]

/-- The other groups survive an installation exactly if none of an unused event is shared. -/
theorem installedHooks_foreign_iff (h : (hooks.map Prod.fst).Nodup)
    (hours : ∀ spec ∈ (integrationTarget runtime).entries,
      hookIsOurs (ourHook runtime spec stubRef) = true)
    (hget : getEntry "hooks" settings = some (.obj hooks)) :
    LeavesForeign settings (setEntry "hooks" (.obj (installedHooks runtime stubRef hooks)) settings) ↔
      NoneShared runtime settings := by
  constructor
  · intro hleaves event hevent
    have hforeign := hleaves.foreign event
    rw [settingsGroups_of_get (get_setHooks _ _), settingsGroups_of_get hget,
      installedHooks_unused h hevent, foreignHooks_filter_iff] at hforeign
    rw [settingsGroups_of_get hget]
    exact hforeign
  · intro hshared
    refine ⟨fun event => ?_, filter_setEntry "hooks" _ settings⟩
    rw [settingsGroups_of_get (get_setHooks _ _), settingsGroups_of_get hget]
    by_cases hevent : event ∈ (integrationTarget runtime).entries.map HookEntrySpec.event
    · obtain ⟨spec, hspec, rfl⟩ := List.mem_map.1 hevent
      rw [installedHooks_expected h hspec, placeGroups_foreign (hours spec hspec)]
    · have hnone := hshared event hevent
      rw [settingsGroups_of_get hget] at hnone
      rw [installedHooks_unused h hevent, foreignHooks_filter_iff]
      exact hnone

/-- What is installed exactly is installed again without a change. -/
theorem InstalledExactly.installInto_eq (hgroup : runtime ≠ .agy)
    (hget : getEntry "hooks" settings = some (.obj hooks)) (hnodup : (hooks.map Prod.fst).Nodup)
    (h : InstalledExactly runtime stubRef settings) :
      installInto runtime stubRef settings = settings := by
  have hgroups := settingsGroups_of_get hget
  have hplace : placeEntries runtime stubRef (integrationTarget runtime).entries hooks = hooks :=
    placeEntries_eq_self fun spec hspec => hgroups spec.event ▸ h.expected spec hspec
  have hhooks : installedHooks runtime stubRef hooks = hooks := by
    unfold installedHooks
    rw [hplace]
    exact dropUnused_eq_self hnodup fun event hevent => hgroups event ▸ h.unused event hevent
  rw [AgentLcars.installInto_eq hgroup hget, hhooks]
  exact setEntry_of_getEntry hget

/-- The status of what is installed exactly. -/
theorem InstalledExactly.status (hgroup : runtime ≠ .agy)
    (hresolve : resolveTarget runtime homeDirectory env = .ok resolved)
    (hholds : files.Holds settings)
    (hstub : files.stub = some (stubScript runtime))
    (h : InstalledExactly runtime resolved.stubRef settings) :
    ∃ status, settingsIntegrationStatus runtime homeDirectory env files = .ok status ∧
      status.installed = true ∧ status.duplicateEntries = 0 := by
  obtain ⟨mode, hsettings⟩ := hholds
  have hread : readSettings resolved.settingsPath files.settings = .ok settings := by
    rw [hsettings]
    rfl
  have hmanaged : ((integrationTarget runtime).entries.map fun spec =>
      (spec, managedFor runtime settings spec.event)) = (integrationTarget runtime).entries.map fun spec =>
        (spec, [ourHook runtime spec resolved.stubRef]) := by
    refine List.map_congr_left fun spec hspec => ?_
    have hspec := h.expected spec hspec
    unfold managedFor
    rw [if_neg hgroup]
    exact congrArg _ hspec
  unfold settingsIntegrationStatus
  simp only [hresolve, hread, hmanaged, hstub]
  refine ⟨_, rfl, ?_, ?_⟩
  · have hpresent : (((integrationTarget runtime).entries.map fun spec =>
        (spec, [ourHook runtime spec resolved.stubRef])).filter fun entry => entry.2 ≠ []) =
          (integrationTarget runtime).entries.map fun spec =>
            (spec, [ourHook runtime spec resolved.stubRef]) := by
      refine List.filter_eq_self.2 fun entry hentry => ?_
      obtain ⟨spec, -, rfl⟩ := List.mem_map.1 hentry
      rfl
    have hcurrent : (((integrationTarget runtime).entries.map fun spec =>
        (spec, [ourHook runtime spec resolved.stubRef])).filter fun entry => entry.2.length = 1 ∧
          entry.2.all (hookIsCurrent runtime entry.1 resolved.stubRef)) =
          (integrationTarget runtime).entries.map fun spec =>
            (spec, [ourHook runtime spec resolved.stubRef]) := by
      refine List.filter_eq_self.2 fun entry hentry => ?_
      obtain ⟨spec, -, rfl⟩ := List.mem_map.1 hentry
      simp [hookIsCurrent_ourHook]
    dsimp only
    rw [hpresent, hcurrent, List.length_map]
    simp
  · refine List.sum_eq_zero_iff_forall_eq_nat.2 fun n hn => ?_
    obtain ⟨entry, hentry, rfl⟩ := List.mem_map.1 hn
    obtain ⟨spec, -, rfl⟩ := List.mem_map.1 (List.mem_filter.1 hentry).1
    rfl

/-- An uninstallation removes every entry of ours and nothing else. -/
theorem uninstallsExactly (hgroup : runtime ≠ .agy)
    (hresolve : resolveTarget runtime homeDirectory env = .ok resolved)
    (hholds : files.Holds settings)
    (hget : getEntry "hooks" settings = some (.obj hooks)) (hnodup : (hooks.map Prod.fst).Nodup)
    {before : JsRecord} (hbefore : LeavesForeign before settings) :
    UninstallsExactly runtime homeDirectory env files before := by
  obtain ⟨mode, hsettings⟩ := hholds
  have hread : readSettings resolved.settingsPath files.settings = .ok settings := by
    rw [hsettings]
    rfl
  have hfrom : uninstallFrom runtime settings =
      if (stripOurHooks hooks).2 > 0 then
        if (stripOurHooks hooks).1 = [] then some (settings.filter fun entry => entry.1 ≠ "hooks")
        else some (setEntry "hooks" (.obj (stripOurHooks hooks).1) settings)
      else none := by
    unfold uninstallFrom
    cases runtime with
    | agy => exact absurd rfl hgroup
    | claude => rw [hget]
    | codex => rw [hget]
  have hgroups := settingsGroups_of_get hget
  have hstripped := eventGroups_stripOurHooks hnodup
  have hstatus : ∀ files : HookFiles, ∃ status,
      settingsIntegrationStatus runtime homeDirectory env files = .ok status := by
    intro files
    unfold settingsIntegrationStatus
    rw [hresolve]
    exact ⟨_, rfl⟩
  unfold UninstallsExactly settingsUninstallIntegration
  simp only [hresolve, hread, hfrom]
  split_ifs with hremoved hempty
  · obtain ⟨status, hok⟩ := hstatus { files.writeSettings
      (settings.filter fun entry => entry.1 ≠ "hooks") with stub := none }
    have hnone : ∀ event,
      settingsGroups (settings.filter fun entry => entry.1 ≠ "hooks") event = [] := by
      intro event
      unfold settingsGroups settingsRecord
      rw [getEntry_filter_ne, if_pos rfl]
      rfl
    refine ⟨_, status, settings.filter fun entry => entry.1 ≠ "hooks", by rw [hok], ⟨_, rfl⟩,
      fun event => by rw [hnone]; rfl, fun event => ?_, ?_⟩
    · have hforeign := strip_foreign (eventGroups hooks event)
      rw [← hstripped, hempty] at hforeign
      rw [hnone, ← hbefore.foreign, hgroups, ← hforeign]
      rfl
    · rw [← hbefore.outside]
      exact List.filter_filter .. |>.trans (by simp)
  · obtain ⟨status, hok⟩ := hstatus { files.writeSettings
      (setEntry "hooks" (.obj (stripOurHooks hooks).1) settings) with stub := none }
    refine ⟨_, status, setEntry "hooks" (.obj (stripOurHooks hooks).1) settings, by rw [hok],
      ⟨_, rfl⟩,
      fun event => ?_, fun event => ?_, ?_⟩
    · rw [settingsGroups_of_get (get_setHooks _ _), hstripped, strip_managed]
    · rw [settingsGroups_of_get (get_setHooks _ _), hstripped, strip_foreign,
        ← hbefore.foreign, hgroups]
    · rw [← hbefore.outside]
      exact filter_setEntry "hooks" _ settings
  · obtain ⟨status, hok⟩ := hstatus { files with stub := none }
    refine ⟨{ files with stub := none }, status, settings, Prod.ext rfl hok, ⟨mode, hsettings⟩,
      fun event => ?_, hbefore⟩
    rw [hgroups]
    exact not_stripped hremoved event

/-- The entries are recognised exactly if the directory has a name. -/
theorem stubRef_recognised (hresolve : resolveTarget runtime homeDirectory env = .ok resolved) :
    '"' ∉ resolved.stubRef.toList ∧
      (isStubRef resolved.stubRef.toList = true ↔ DirectoryNamed runtime env) := by
  unfold resolveTarget at hresolve
  cases hdir : relocated runtime env with
  | none =>
    simp only [hdir, Except.ok.injEq] at hresolve
    have hnamed : DirectoryNamed runtime env := by
      intro _ dir hsome
      rw [hdir] at hsome
      cases hsome
    subst hresolve
    dsimp only
    have hdefault : ∀ runtime : SettingsRuntime,
        '"' ∉ ("$HOME/" ++ joinPath [(integrationTarget runtime).defaultConfigDir,
          (integrationTarget runtime).stubFile]).toList ∧
        isStubRef ("$HOME/" ++ joinPath [(integrationTarget runtime).defaultConfigDir,
          (integrationTarget runtime).stubFile]).toList = true := by
      intro runtime
      cases runtime <;> decide +kernel
    exact ⟨(hdefault runtime).1, iff_of_true (hdefault runtime).2 hnamed⟩
  | some dir =>
    simp only [hdir] at hresolve
    split_ifs at hresolve with hsafe
    simp only [Except.ok.injEq] at hresolve
    subst hresolve
    dsimp only
    have hne : dir.toList ≠ [] := by
      unfold relocated at hdir
      split at hdir
      · cases hdir
      · split_ifs at hdir with htrim
        rw [← Option.some.inj hdir, String.toList_ofList]
        exact htrim
    have hquote : '"' ∉ dir.toList := fun hmem => hsafe (List.any_eq_true.2 ⟨_, hmem, by decide⟩)
    refine ⟨quote_notMem_joinPath hne hquote runtime, ?_⟩
    rw [isStubRef_joinPath hne]
    unfold DirectoryNamed stubNames
    rw [hdir]
    constructor
    · intro h hcodex other hother
      rw [if_pos hcodex, List.append_nil] at h
      rw [← Option.some.inj hother]
      exact h
    · intro h
      split_ifs with hcodex
      · rw [List.append_nil]
        exact h hcodex dir rfl
      · simp

end Settings

/-- The files after an installation. -/
theorem settingsInstallIntegration_eq {runtime : SettingsRuntime} {homeDirectory : String}
    {env : String → Option String} {resolved : ResolvedTarget} {files : HookFiles}
    {settings : JsRecord}
    (hresolve : resolveTarget runtime homeDirectory env = .ok resolved)
    (hholds : files.Holds settings) :
    ∃ files', settingsInstallIntegration runtime homeDirectory env files =
        (files', settingsIntegrationStatus runtime homeDirectory env files') ∧
      files'.stub = some (stubScript runtime) ∧
      files'.settings = some ⟨settingsMode files.settings,
        .json (.obj (installInto runtime resolved.stubRef settings))⟩ := by
  obtain ⟨mode, hsettings⟩ := hholds
  have hread : readSettings resolved.settingsPath files.settings = .ok settings := by
    rw [hsettings]
    rfl
  unfold settingsInstallIntegration
  simp only [hresolve, hread]
  exact ⟨_, rfl, rfl, rfl⟩

theorem settingsMode_settingsMode (file : Option SettingsFile) (text : SettingsText) :
    settingsMode (some ⟨settingsMode file, text⟩) = settingsMode file := by
  unfold settingsMode
  cases file with
  | none => rfl
  | some file => exact Nat.mod_mod _ _

theorem InstallsExactly.into {runtime : SettingsRuntime} {homeDirectory : String}
    {env : String → Option String} {resolved : ResolvedTarget} {files : HookFiles}
    {settings : JsRecord}
    (h : InstallsExactly runtime homeDirectory env files resolved.stubRef settings)
    (hresolve : resolveTarget runtime homeDirectory env = .ok resolved)
    (hholds : files.Holds settings) :
    InstalledExactly runtime resolved.stubRef (installInto runtime resolved.stubRef settings) ∧
      LeavesForeign settings (installInto runtime resolved.stubRef settings) := by
  obtain ⟨files', hinstall, -, hsettings⟩ := settingsInstallIntegration_eq hresolve hholds
  obtain ⟨other, status, settings', hrun, ⟨mode, hafter⟩, hexact, hleaves, -⟩ := h
  have hsame : settings' = installInto runtime resolved.stubRef settings := by
    rw [hinstall] at hrun
    rw [← (Prod.mk.inj hrun).1, hsettings] at hafter
    cases hafter
    rfl
  exact hsame ▸ ⟨hexact, hleaves⟩

/-- The commands are exact and leave the hooks of others alone exactly if no group of an event without an
entry is shared with others, and the directory of the stub has a name. -/
theorem exactInstallation_iff {runtime : SettingsRuntime} {homeDirectory : String}
    {env : String → Option String} {resolved : ResolvedTarget} {files : HookFiles}
    {settings hooks : JsRecord}
    (hgroup : runtime ≠ .agy) (hresolve : resolveTarget runtime homeDirectory env = .ok resolved)
    (hholds : files.Holds settings) (hget : getEntry "hooks" settings = some (.obj hooks))
    (hnodup : (hooks.map Prod.fst).Nodup) :
    ExactInstallation runtime homeDirectory env files resolved.stubRef settings ↔
      NoneShared runtime settings ∧ DirectoryNamed runtime env := by
  obtain ⟨hquote, hnamed⟩ := stubRef_recognised hresolve
  have hinto : installInto runtime resolved.stubRef settings =
      setEntry "hooks" (.obj (installedHooks runtime resolved.stubRef hooks)) settings :=
    installInto_eq hgroup hget
  constructor
  · rintro ⟨hinstalls, -⟩
    obtain ⟨hexact, hleaves⟩ := hinstalls.into hresolve hholds
    have hours : ∀ spec ∈ (integrationTarget runtime).entries,
        hookIsOurs (ourHook runtime spec resolved.stubRef) = true := by
      intro spec hspec
      have hone := hexact.expected spec hspec
      have hmem : ourHook runtime spec resolved.stubRef ∈ managedHooks (settingsGroups
          (installInto runtime resolved.stubRef settings) spec.event) := hone ▸ List.mem_cons_self ..
      obtain ⟨group, -, hhook⟩ := List.mem_flatMap.1 hmem
      exact (List.mem_filter.1 hhook).2
    have hsome : ∃ spec, spec ∈ (integrationTarget runtime).entries := by
      cases runtime <;> exact ⟨_, List.mem_cons_self ..⟩
    obtain ⟨spec, hspec⟩ := hsome
    rw [hinto] at hleaves
    refine ⟨(installedHooks_foreign_iff hnodup hours hget).1 hleaves, hnamed.1 ?_⟩
    rw [← hookIsOurs_ourHook hgroup hspec hquote]
    exact hours spec hspec
  · rintro ⟨hshared, hdir⟩
    have hours : ∀ spec ∈ (integrationTarget runtime).entries,
        hookIsOurs (ourHook runtime spec resolved.stubRef) = true := fun spec hspec => by
      rw [hookIsOurs_ourHook hgroup hspec hquote]
      exact hnamed.2 hdir
    have hkept : LeavesForeign settings settings := ⟨fun _ => rfl, rfl⟩
    refine ⟨?_, uninstallsExactly hgroup hresolve hholds hget hnodup hkept⟩
    obtain ⟨files', hinstall, hstub, hsettings⟩ := settingsInstallIntegration_eq hresolve hholds
    have hexact : InstalledExactly runtime resolved.stubRef (installInto runtime resolved.stubRef settings) := by
      rw [hinto]
      exact installedHooks_managed hnodup hours
    have hleaves : LeavesForeign settings (installInto runtime resolved.stubRef settings) := by
      rw [hinto]
      exact (installedHooks_foreign_iff hnodup hours hget).2 hshared
    have hget' : getEntry "hooks" (installInto runtime resolved.stubRef settings) =
        some (.obj (installedHooks runtime resolved.stubRef hooks)) := by
      rw [hinto]
      exact get_setHooks _ _
    have hnodup' : ((installedHooks runtime resolved.stubRef hooks).map Prod.fst).Nodup :=
      nodup_installedHooks hnodup
    have hholds' : files'.Holds (installInto runtime resolved.stubRef settings) := ⟨_, hsettings⟩
    obtain ⟨status, hstatus, hinstalled, hduplicates⟩ := hexact.status hgroup hresolve hholds' hstub
    have hagain : settingsInstallIntegration runtime homeDirectory env files' = (files',
      .ok status) := by
      obtain ⟨files'', hrun, hstub', hsettings'⟩ := settingsInstallIntegration_eq hresolve hholds'
      rw [hexact.installInto_eq hgroup hget' hnodup', hsettings, settingsMode_settingsMode,
        ← hsettings] at hsettings'
      have hsame : files'' = files' := by
        cases files''
        cases files'
        exact HookFiles.mk.injEq .. ▸ ⟨hsettings', hstub'.trans hstub.symm⟩
      rw [hrun, hsame, hstatus]
    exact ⟨files', status, _, hinstall.trans (Prod.ext rfl hstatus), hholds', hexact, hleaves,
      hagain, hstatus,
      hinstalled, hduplicates, uninstallsExactly hgroup hresolve hholds' hget' hnodup' hleaves⟩

namespace Sample

/-- A group of an event without an entry, with an entry of ours and one of the user's. -/
def sharedGroup : Json :=
  .obj [("matcher", .str "Bash"), ("hooks", .arr
    [.obj [("type", .str "command"), ("command", .str "notify")],
      ourHook .claude { event := "SessionStart" } "$HOME/.claude/hooks/lcars-hook.sh"])]

def sharedHooks : JsRecord := [("PreToolUse", .arr [sharedGroup])]

/-- A group of ours of an event without an entry, beside one of the user's; the group of an event with an
entry is shared. -/
def separateHooks : JsRecord :=
  [("PreToolUse", .arr [.obj [("matcher", .str "Bash"), ("hooks", .arr
      [.obj [("type", .str "command"), ("command", .str "notify")]])],
    .obj [("hooks", .arr
      [ourHook .claude { event := "SessionStart" } "$HOME/.claude/hooks/lcars-hook.sh"])]]),
   ("SessionStart", .arr [sharedGroup])]

def settingsOf (hooks : JsRecord) : JsRecord := [("model", .str "opus"), ("hooks", .obj hooks)]

def hookFiles (hooks : JsRecord) : HookFiles :=
  { settings := some ⟨0o600, .json (.obj (settingsOf hooks))⟩, stub := none }

def claudeTarget : ResolvedTarget :=
  { settingsPath := joinPath [joinPath ["/root", ".claude"], "settings.json"]
    stubPath := joinPath [joinPath ["/root", ".claude"], joinPath ["hooks", "lcars-hook.sh"]]
    stubRef := "$HOME/" ++ joinPath [".claude", joinPath ["hooks", "lcars-hook.sh"]] }

theorem separateHooks_noneShared : NoneShared .claude (settingsOf separateHooks) := by
  intro event hevent group hgroup hours
  by_cases hpre : event = "PreToolUse"
  · subst hpre
    have hall : ∀ group ∈ settingsGroups (settingsOf separateHooks) "PreToolUse",
        groupIsOurs group = true → foreignInGroup group = [] := by decide +kernel
    exact hall group hgroup hours
  · by_cases hstart : event = "SessionStart"
    · subst hstart
      exact absurd (by decide +kernel) hevent
    · have hnil : settingsGroups (settingsOf separateHooks) event = [] := by
        show eventGroups separateHooks event = []
        simp [eventGroups, separateHooks, OrderedMap.getEntry, Ne.symm hpre, Ne.symm hstart]
      rw [hnil] at hgroup
      cases hgroup

end Sample

open Sample in
/-- The installation keeps the user's entries, of both events. -/
theorem exactInstallation_iff_separate :
    ExactInstallation .claude "/root" (fun _ => none) (hookFiles separateHooks) claudeTarget.stubRef
      (settingsOf separateHooks) :=
  (exactInstallation_iff (by decide) rfl ⟨_, rfl⟩ rfl (by decide)).2
    ⟨separateHooks_noneShared, fun h => by cases h⟩

open Sample in
/-- The user's entry goes when the group it shares with ours is not installed into. -/
theorem install_drops_foreign : ¬∀ (runtime : SettingsRuntime) (homeDirectory : String)
    (env : String → Option String) (resolved : ResolvedTarget) (files : HookFiles)
    (settings hooks : JsRecord),
    runtime ≠ .agy → resolveTarget runtime homeDirectory env = .ok resolved → files.Holds settings →
    getEntry "hooks" settings = some (.obj hooks) → (hooks.map Prod.fst).Nodup →
    (∀ entry ∈ hooks, ∃ groups, entry.2 = .arr groups) →
    ExactInstallation runtime homeDirectory env files resolved.stubRef settings := by
  intro h
  have hget : getEntry "hooks" (settingsOf sharedHooks) = some (.obj sharedHooks) := rfl
  have hnodup : (sharedHooks.map Prod.fst).Nodup := by decide
  have hholds : (hookFiles sharedHooks).Holds (settingsOf sharedHooks) := ⟨_, rfl⟩
  obtain ⟨hexact, hleaves⟩ :=
    (h .claude "/root" (fun _ => none) claudeTarget (hookFiles sharedHooks)
    (settingsOf sharedHooks) sharedHooks (by decide) rfl hholds hget hnodup fun entry hentry =>
      ⟨_, congrArg Prod.snd (List.mem_singleton.1 hentry)⟩).install.into rfl hholds
  have hforeign := hleaves.foreign "PreToolUse"
  have hinto : foreignHooks (settingsGroups (installInto .claude claudeTarget.stubRef
      (settingsOf sharedHooks)) "PreToolUse") = [] := by decide +kernel
  have hbefore : foreignHooks (settingsGroups (settingsOf sharedHooks) "PreToolUse") ≠ [] := by
    decide +kernel
  exact hbefore (hforeign.symm.trans hinto)

end AgentLcars
