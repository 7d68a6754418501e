import Mathlib.Data.List.Infix
import AgentLcars.Lib.OrderedMap
import AgentLcars.Lib.Failing
import AgentLcars.LiteralCommands

/-!
# Repair of artifact commands

`packages/fleet-tools/bin/worker-policy.cjs`: a literal `gh` command that publishes an artifact gets the
marker of the worker's attempt at the end of its body.

* `repairArtifact`: the repaired command, nothing when there is nothing to repair, or an error.
* `parseArgs_iff`: the flag parser reads a list of arguments exactly when it is spelled from switches,
  flags and positionals with no flag twice.
* `literalCommands_quoteWords`: the scanner reads printed words back.
* `repair_iff`: repairing it again changes nothing exactly if the body holds no start of a marker and the
  attempt's id no end of one.
-/

namespace AgentLcars

open Failing

/-! ### Inputs -/

inductive ArtifactAnchorType where
  | issue
  | pullRequest
  | work
  deriving DecidableEq, Repr

inductive DispatchMode where
  | implement
  | review
  | reply
  deriving DecidableEq, Repr

/-- The setup's record of the dispatch. -/
structure RepairContext where
  repository : String
  mode : DispatchMode
  anchorType : ArtifactAnchorType
  anchorNumber : Option Nat
  attemptId : String

/-- The tool call. -/
structure RepairInput where
  toolName : String
  command : Option String
  cwd : Option String

structure BodyFile where
  isFile : Bool
  size : Nat
  text : String

/-- What the repair reads of its surroundings. -/
structure RepairEnv where
  /-- `process.cwd()`. -/
  cwd : String
  toLowerCase : String → String
  readRepository : String → Except String String
  /-- `path.resolve`. -/
  resolve : String → String → String
  stat : String → Option BodyFile

/-- `path.basename`. -/
def basename (path : String) : String :=
  String.ofList ((path.toList.reverse.dropWhile (· = '/')).takeWhile (· ≠ '/')).reverse

/-! ### Arguments -/

def switches (verb : String) : List String :=
  if verb = "review" then ["--approve", "-a", "--request-changes", "-r", "--comment", "-c"]
  else ["--draft", "-d"]

/-- The flags that take a value. -/
def valueFlags (verb : String) : List String :=
  ["--repo", "-R", "--body", "-b", "--body-file", "-F", "--title", "-t", "--base", "-B", "--head", "-H",
    "--label", "-l", "--assignee", "--reviewer", "--milestone", "--project"] ++
    if verb = "create" then ["-a", "-r"] else []

def bodyFlags : List String := ["--body", "-b", "--body-file", "-F"]

def fileFlags : List String := ["--body-file", "-F"]

def repositoryFlags : List String := ["--repo", "-R"]

structure ParsedArgs where
  positional : List String := []
  flags : OrderedMap String String := .empty
  retained : List String := []

def ParsedArgs.noteSwitch (p : ParsedArgs) (arg : String) : ParsedArgs :=
  { p with retained := p.retained ++ [arg] }

def ParsedArgs.noteFlag (p : ParsedArgs) (flag value : String) : ParsedArgs :=
  { p with flags := p.flags.set flag value,
           retained := if flag ∈ bodyFlags then p.retained else p.retained ++ [flag, value] }

def ParsedArgs.notePositional (p : ParsedArgs) (arg : String) : ParsedArgs :=
  { p with positional := p.positional ++ [arg], retained := p.retained ++ [arg] }

def ParsedArgs.has (p : ParsedArgs) (flag : String) : Bool := (p.flags.get flag).isSome

/-- The argument cut at its first equals sign, unless it starts with one. -/
def cutEqual (arg : String) : String × Option String :=
  match arg.toList.takeWhile (· ≠ '='), arg.toList.dropWhile (· ≠ '=') with
  | flag@(_ :: _), _ :: value => (String.ofList flag, some (String.ofList value))
  | _, _ => (arg, none)

/-- The loop over the arguments. -/
def parseArgs (verb : String) (p : ParsedArgs) : List String → Except String ParsedArgs
  | [] => .ok p
  | arg :: args =>
    if arg ∈ switches verb then parseArgs verb (p.noteSwitch arg) args
    else if (cutEqual arg).1 ∈ valueFlags verb then
      match (cutEqual arg).2, args with
      | some value, args =>
        if p.has (cutEqual arg).1 then .error "Ambiguous artifact arguments"
        else parseArgs verb (p.noteFlag (cutEqual arg).1 value) args
      | none, [] => .error "Ambiguous artifact arguments"
      | none, value :: args =>
        if p.has (cutEqual arg).1 then .error "Ambiguous artifact arguments"
        else parseArgs verb (p.noteFlag (cutEqual arg).1 value) args
    else if arg.toList.head? = some '-' then .error "Unsupported artifact flag"
    else parseArgs verb (p.notePositional arg) args

/-! ### Markers -/

def markerOpening : List Char := "<!--".toList

def markerWord : List Char := "attempt-claim:".toList

def markerClosing : List Char := "-->".toList

def attemptMarker (attemptId : String) : List Char :=
  "<!-- attempt-claim:".toList ++ attemptId.toList ++ " -->".toList

def stripPrefix (start text : List Char) : Option (List Char) :=
  if start.isPrefixOf text then some (text.drop start.length) else none

/-- The text up to the first end of a marker. -/
def upToClosing : List Char → Option (List Char)
  | [] => none
  | c :: text =>
    if markerClosing.isPrefixOf (c :: text) then some markerClosing
    else (upToClosing text).map (c :: ·)

/-- What follows the start of a marker, and the start. -/
def opensMarker (text : List Char) : Option (List Char × List Char) :=
  (stripPrefix markerOpening text).bind fun rest =>
    (stripPrefix markerWord (rest.dropWhile isTrimmed)).map fun inner =>
      (markerOpening ++ rest.takeWhile isTrimmed ++ markerWord, inner)

/-- The match of the claim pattern at the start of the text. -/
def claimAt (text : List Char) : Option (List Char) :=
  (opensMarker text).bind fun (start, inner) => (upToClosing inner).map (start ++ ·)

/-- The matches in the text, after some characters that belong to the last one. -/
def claimsFrom (skip : Nat) : List Char → List (List Char)
  | [] => []
  | c :: text =>
    match skip with
    | skip + 1 => claimsFrom skip text
    | 0 =>
      match claimAt (c :: text) with
      | some claim => claim :: claimsFrom (claim.length - 1) text
      | none => claimsFrom 0 text

/-! ### The repair -/

/-- Whether the command is about the anchor of the dispatch. -/
def targetsAnchor (context : RepairContext) (resource verb : String) (positional : List String) :
    Except String Bool :=
  if verb = "create" then
    if context.mode = .review ∨ positional ≠ [] then .error "Invalid PR creation for dispatch"
    else .ok true
  else if context.anchorType = .work ∨ positional ≠ [(context.anchorNumber.map toString).getD "null"] then
    .ok false
  else if resource = "issue" ∧ context.anchorType ≠ .issue then .ok false
  else .ok (¬(resource = "pr" ∧ context.anchorType ≠ .pullRequest))

/-- The repository that the flags name, or that of the directory. -/
def artifactRepository (env : RepairEnv) (input : RepairInput) (p : ParsedArgs) :
    Except String String :=
  match repositoryFlags.filter p.has with
  | [] => env.readRepository (input.cwd.getD env.cwd)
  | [flag] => .ok ((p.flags.get flag).getD "")
  | _ => .error "Ambiguous repository"

def artifactBody (env : RepairEnv) (input : RepairInput) (p : ParsedArgs) : Except String String :=
  match bodyFlags.filter p.has with
  | [flag] =>
    let body := (p.flags.get flag).getD ""
    if flag ∈ fileFlags then
      if body = "-" then .error "Streaming artifact bodies require an explicit file"
      else match env.stat (env.resolve (input.cwd.getD env.cwd) body) with
      | none => .error "ENOENT"
      | some file =>
        if ¬file.isFile ∨ 65536 < file.size then .error "Invalid artifact body file" else .ok file.text
    else .ok body
  | _ => .error "Use one explicit artifact body"

/-- The body with the marker; nothing when it is there already. -/
def stampBody (context : RepairContext) (body : String) : Except String (Option String) :=
  let marker := attemptMarker context.attemptId
  if (claimsFrom 0 body.toList).any (· ≠ marker) then .error "Foreign attempt marker"
  else if marker <:+: body.toList then .ok none
  else .ok (some (body ++ "\n\n" ++ String.ofList marker))

/-- `value` in single quotes. -/
def quoteWord (value : String) : List Char :=
  '\'' :: (value.toList.flatMap fun c => if c = '\'' then "'\\''".toList else [c]) ++ ['\'']

def quoteWords (words : List String) : String :=
  String.ofList (List.intercalate [' '] (words.map quoteWord))

/-- The resource and the verb publish an artifact. -/
def Publishes (resource verb : String) : Prop :=
  (resource = "pr" ∧ verb ∈ ["create", "comment", "review"]) ∨ (resource = "issue" ∧ verb = "comment")

instance (resource verb : String) : Decidable (Publishes resource verb) :=
  inferInstanceAs (Decidable ((resource = "pr" ∧ verb ∈ ["create", "comment", "review"]) ∨
    (resource = "issue" ∧ verb = "comment")))

/-- The repair of one command. -/
def repairWords (env : RepairEnv) (input : RepairInput) (context : RepairContext) :
    List String → Except String (Option String)
  | program :: resource :: verb :: args =>
    if basename program ≠ "gh" then .ok none
    else if ¬Publishes resource verb then .ok none
    else do
      let p ← parseArgs verb {} args
      let repository ← artifactRepository env input p
      if env.toLowerCase repository ≠ env.toLowerCase context.repository then .ok none
      else if ← targetsAnchor context resource verb p.positional then
        let body ← artifactBody env input p
        let stamped ← stampBody context body
        .ok (stamped.map fun body =>
          quoteWords (program :: resource :: verb :: p.retained ++ ["--body", body]))
      else .ok none
  | _ => .ok none

/-- The repaired command; nothing when the command is not one to repair, or carries the marker. -/
def repairArtifact (env : RepairEnv) (input : RepairInput) (context : RepairContext) :
    Except String (Option String) :=
  if input.toolName ≠ "Bash" then .ok none
  else match input.command.bind literalCommands with
  | some [words] => repairWords env input context words
  | _ => .ok none


/-! ### Reading the arguments -/

/-- An argument as it can be spelled. -/
inductive Argument
  | switch (arg : String)
  | flag (name value : String) (joined : Bool)
  | positional (arg : String)

def Argument.spelled : Argument → List String
  | .switch arg => [arg]
  | .flag name value true => [name ++ "=" ++ value]
  | .flag name value false => [name, value]
  | .positional arg => [arg]

/-- The argument with its flag and its value apart. -/
def Argument.apart : Argument → List String
  | .switch arg => [arg]
  | .flag name value _ => [name, value]
  | .positional arg => [arg]

def Argument.Valid (verb : String) : Argument → Prop
  | .switch arg => arg ∈ switches verb
  | .flag name _ _ => name ∈ valueFlags verb
  | .positional arg => arg ∉ switches verb ∧ (cutEqual arg).1 ∉ valueFlags verb ∧
      arg.toList.head? ≠ some '-'

def Argument.flagName : Argument → Option String
  | .flag name _ _ => some name
  | _ => none

def Argument.isBody (argument : Argument) : Bool := argument.flagName.any (· ∈ bodyFlags)

def Argument.positionals : Argument → List String
  | .positional arg => [arg]
  | _ => []

def ParsedArgs.note (p : ParsedArgs) : Argument → ParsedArgs
  | .switch arg => p.noteSwitch arg
  | .flag name value _ => p.noteFlag name value
  | .positional arg => p.notePositional arg

section Arguments

variable {verb flag value arg : String} {p q : ParsedArgs} {args : List String} {items : List Argument}
  {joined : Bool}

theorem valueFlags_plain (h : flag ∈ valueFlags verb) : flag.toList ≠ [] ∧ '=' ∉ flag.toList := by
  have hall : ∀ flag ∈ valueFlags "create", flag.toList ≠ [] ∧ '=' ∉ flag.toList := by decide
  refine hall flag ?_
  unfold valueFlags at h ⊢
  rw [if_pos rfl]
  rcases List.mem_append.1 h with h | h
  · exact List.mem_append_left _ h
  · split_ifs at h
    · exact List.mem_append_right _ h
    · cases h

theorem switches_plain (h : arg ∈ switches verb) : '=' ∉ arg.toList := by
  have hall : ∀ arg ∈ switches "review" ++ switches "", '=' ∉ arg.toList := by decide
  refine hall arg (List.mem_append.2 ?_)
  unfold switches at h ⊢
  split_ifs at h
  · exact .inl h
  · exact .inr h

/-- No switch takes a value. -/
theorem switches_disjoint (h : flag ∈ valueFlags verb) : flag ∉ switches verb := by
  unfold switches valueFlags at *
  split_ifs at *
  · subst_vars
    contradiction
  all_goals
    revert flag
    decide

theorem cutEqual_plain (h : '=' ∉ arg.toList) : cutEqual arg = (arg, none) := by
  have hdrop : arg.toList.dropWhile (· ≠ '=') = [] := by
    rw [List.dropWhile_eq_nil_iff]
    intro c hc
    exact decide_eq_true fun heq => h (heq ▸ hc)
  unfold cutEqual
  rw [hdrop]
  split
  · rename_i heq
    cases heq
  · rfl

theorem cutEqual_joined (h : flag ∈ valueFlags verb) :
    cutEqual (flag ++ "=" ++ value) = (flag, some value) := by
  obtain ⟨hne, hplain⟩ := valueFlags_plain h
  have hlist : (flag ++ "=" ++ value).toList = flag.toList ++ '=' :: value.toList := by
    rw [String.toList_append, String.toList_append, List.append_assoc]
    rfl
  have hall : ∀ c ∈ flag.toList, decide (c ≠ '=') = true := fun c hc =>
    decide_eq_true fun heq => hplain (heq ▸ hc)
  have htake : (flag.toList ++ '=' :: value.toList).takeWhile (· ≠ '=') = flag.toList := by
    rw [List.takeWhile_append_of_pos hall, List.takeWhile_cons_of_neg (by decide), List.append_nil]
  have hdrop : (flag.toList ++ '=' :: value.toList).dropWhile (· ≠ '=') = '=' :: value.toList := by
    rw [List.dropWhile_append_of_pos hall, List.dropWhile_cons_of_neg (by decide)]
  obtain ⟨c, cs, hcons⟩ := List.exists_cons_of_ne_nil hne
  unfold cutEqual
  rw [hlist, htake, hdrop, hcons]
  dsimp only
  rw [← hcons, String.ofList_toList, String.ofList_toList]

theorem cutEqual_some (h : (cutEqual arg).2 = some value) :
    arg = (cutEqual arg).1 ++ "=" ++ value := by
  unfold cutEqual at h ⊢
  split at h
  · rename_i c cs e rest htake hdrop
    have he : e = '=' := by
      have hhead := List.head?_dropWhile_not (fun c : Char => decide (c ≠ '=')) arg.toList
      rw [hdrop] at hhead
      simpa using hhead
    have hsplit := @List.takeWhile_append_dropWhile _ (fun c : Char => decide (c ≠ '=')) arg.toList
    rw [htake, hdrop, he] at hsplit
    obtain rfl := Option.some.inj h
    refine String.toList_injective ?_
    rw [← hsplit, String.toList_append, String.toList_append, List.append_assoc]
    simp only [String.toList_ofList]
    rfl
  · cases h

theorem cutEqual_none (h : (cutEqual arg).2 = none) : (cutEqual arg).1 = arg := by
  unfold cutEqual at h ⊢
  split at h
  · cases h
  · rfl

/-! The parser reads exactly the spelled arguments. -/

def ParsedArgs.noteAll (p : ParsedArgs) (items : List Argument) : ParsedArgs := items.foldl note p

/-- No flag is noted twice. -/
def FreshFlags (p : ParsedArgs) (items : List Argument) : Prop :=
  (items.filterMap Argument.flagName).Nodup ∧ ∀ f ∈ items.filterMap Argument.flagName, p.has f = false

theorem has_noteFlag (f : String) :
    (p.noteFlag flag value).has f = (decide (f = flag) || p.has f) := by
  unfold ParsedArgs.noteFlag ParsedArgs.has
  by_cases hf : f = flag
  · subst hf
    rw [OrderedMap.get_set_self, decide_eq_true rfl]
    rfl
  · rw [OrderedMap.get_set_of_ne _ _ hf, decide_eq_false hf, Bool.false_or]

/-- A flag is fresh when it was not noted before, and comes no second time. -/
theorem freshFlags_cons : FreshFlags p (.flag flag value joined :: items) ↔
    p.has flag = false ∧ FreshFlags (p.noteFlag flag value) items := by
  unfold FreshFlags
  rw [List.filterMap_cons_some (by rfl), List.nodup_cons]
  constructor
  · rintro ⟨⟨hnot, hnodup⟩, hall⟩
    refine ⟨hall _ (List.mem_cons_self ..), hnodup, fun f hf => ?_⟩
    rw [has_noteFlag, hall f (List.mem_cons_of_mem _ hf), Bool.or_false, decide_eq_false_iff_not]
    rintro rfl
    exact hnot hf
  · rintro ⟨hhas, hnodup, hall⟩
    refine ⟨⟨fun hmem => ?_, hnodup⟩, fun f hf => ?_⟩
    · have h := hall _ hmem
      rw [has_noteFlag, decide_eq_true rfl] at h
      cases h
    · rcases List.mem_cons.1 hf with rfl | hf
      · exact hhas
      · have h := hall f hf
        rw [has_noteFlag, Bool.or_eq_false_iff] at h
        exact h.2

/-- An argument that is read, with its flag's value. -/
theorem parseArgs_flag (hvalid : flag ∈ valueFlags verb) :
    parseArgs verb p ((Argument.flag flag value joined).spelled ++ args) =
      if p.has flag then .error "Ambiguous artifact arguments"
      else parseArgs verb (p.noteFlag flag value) args := by
  have hplain := (valueFlags_plain hvalid).2
  cases joined with
  | true =>
    have hswitch : flag ++ "=" ++ value ∉ switches verb := fun hmem => by
      refine switches_plain hmem ?_
      simp
    show parseArgs verb p ((flag ++ "=" ++ value) :: args) = _
    rw [parseArgs.eq_def]
    dsimp only
    rw [if_neg hswitch, cutEqual_joined hvalid, if_pos hvalid]
  | false =>
    show parseArgs verb p (flag :: value :: args) = _
    rw [parseArgs.eq_def]
    dsimp only
    rw [if_neg (switches_disjoint hvalid), cutEqual_plain hplain, if_pos hvalid]

/-- The parser reads exactly the spelled arguments without a flag twice. -/
theorem parseArgs_iff : parseArgs verb p args = .ok q ↔
    ∃ items, (∀ item ∈ items, Argument.Valid verb item) ∧ args = items.flatMap Argument.spelled ∧
      FreshFlags p items ∧ q = p.noteAll items := by
  constructor
  · intro h
    fun_induction parseArgs verb p args with
    | case1 p => exact ⟨[], nofun, rfl, ⟨List.nodup_nil, nofun⟩, (Except.ok.inj h).symm⟩
    | case2 p arg args hswitch ih =>
      obtain ⟨items, hvalid, rfl, hfresh, rfl⟩ := ih h
      exact ⟨.switch arg :: items, List.forall_mem_cons.2 ⟨hswitch, hvalid⟩, rfl, hfresh, rfl⟩
    | case3 => cases h
    | case4 p arg hswitch hflag value args hvalue hhas ih =>
      obtain ⟨items, hvalid, rfl, hfresh, rfl⟩ := ih h
      refine ⟨.flag (cutEqual arg).1 value true :: items, List.forall_mem_cons.2 ⟨hflag, hvalid⟩, ?_,
        freshFlags_cons.2 ⟨by simpa using hhas, hfresh⟩, rfl⟩
      rw [List.flatMap_cons]
      exact congrArg (· :: _) (cutEqual_some hvalue)
    | case5 => cases h
    | case6 => cases h
    | case7 p arg hswitch hflag value args hvalue hhas ih =>
      obtain ⟨items, hvalid, rfl, hfresh, rfl⟩ := ih h
      refine ⟨.flag (cutEqual arg).1 value false :: items, List.forall_mem_cons.2 ⟨hflag, hvalid⟩, ?_,
        freshFlags_cons.2 ⟨by simpa using hhas, hfresh⟩, rfl⟩
      rw [List.flatMap_cons]
      exact congrArg (· :: _) (cutEqual_none hvalue).symm
    | case8 => cases h
    | case9 p arg args hswitch hflag hdash ih =>
      obtain ⟨items, hvalid, rfl, hfresh, rfl⟩ := ih h
      exact ⟨.positional arg :: items, List.forall_mem_cons.2 ⟨⟨hswitch, hflag, hdash⟩, hvalid⟩, rfl,
        hfresh, rfl⟩
  · rintro ⟨items, hvalid, rfl, hfresh, rfl⟩
    induction items generalizing p with
    | nil => rfl
    | cons item items ih =>
      have hrest := fun x hx => hvalid x (List.mem_cons_of_mem item hx)
      have hitem := hvalid item (List.mem_cons_self ..)
      rw [List.flatMap_cons]
      cases item with
      | switch arg =>
        show parseArgs verb p (arg :: items.flatMap Argument.spelled) = _
        rw [parseArgs.eq_def]
        dsimp only
        rw [if_pos (show arg ∈ switches verb from hitem)]
        exact ih hrest hfresh
      | flag name value joined =>
        obtain ⟨hhas, hfresh⟩ := freshFlags_cons.1 hfresh
        rw [parseArgs_flag hitem, hhas]
        exact ih hrest hfresh
      | positional arg =>
        obtain ⟨hswitch, hflag, hdash⟩ := hitem
        show parseArgs verb p (arg :: items.flatMap Argument.spelled) = _
        rw [parseArgs.eq_def]
        dsimp only
        rw [if_neg hswitch, if_neg hflag, if_neg hdash]
        exact ih hrest hfresh

/-! ### What the parser notes -/

/-- The value of the flag among the arguments. -/
def valueOf (flag : String) : List Argument → Option String
  | [] => none
  | .flag name value _ :: items => if name = flag then some value else valueOf flag items
  | _ :: items => valueOf flag items

theorem valueOf_flag (name : String) : valueOf flag (.flag name value joined :: items) =
    if name = flag then some value else valueOf flag items := rfl

theorem valueOf_none (h : flag ∉ items.filterMap Argument.flagName) : valueOf flag items = none := by
  induction items with
  | nil => rfl
  | cons item items ih =>
    cases item with
    | flag name value joined =>
      rw [List.filterMap_cons_some (by rfl), List.mem_cons, not_or] at h
      rw [valueOf_flag, if_neg (Ne.symm h.1), ih h.2]
    | _ => exact ih h

theorem noteAll_get (h : FreshFlags p items) : (p.noteAll items).flags.get flag =
    (valueOf flag items).or (p.flags.get flag) := by
  induction items generalizing p with
  | nil => rfl
  | cons item items ih =>
    cases item with
    | flag name value joined =>
      have hfirst := h.1
      rw [List.filterMap_cons_some (by rfl), List.nodup_cons] at hfirst
      refine (ih (freshFlags_cons.1 h).2).trans ?_
      show (valueOf flag items).or ((p.flags.set name value).get flag) = _
      rw [valueOf_flag]
      by_cases hname : name = flag
      · subst hname
        rw [if_pos rfl, valueOf_none hfirst.1, OrderedMap.get_set_self]
        rfl
      · rw [if_neg hname, OrderedMap.get_set_of_ne _ _ (Ne.symm hname)]
    | _ => exact ih h

theorem noteAll_positional : (p.noteAll items).positional =
    p.positional ++ items.flatMap Argument.positionals := by
  induction items generalizing p with
  | nil => exact (List.append_nil _).symm
  | cons item items ih =>
    refine ih.trans ?_
    cases item with
    | positional arg => exact List.append_assoc ..
    | _ => rfl

theorem noteAll_retained : (p.noteAll items).retained =
    p.retained ++ (items.filter (¬·.isBody)).flatMap Argument.apart := by
  induction items generalizing p with
  | nil => exact (List.append_nil _).symm
  | cons item items ih =>
    refine ih.trans ?_
    cases item with
    | flag name value joined =>
      have hbody : (Argument.flag name value joined).isBody = decide (name ∈ bodyFlags) := rfl
      show (if name ∈ bodyFlags then p.retained else p.retained ++ [name, value]) ++ _ = _
      by_cases hname : name ∈ bodyFlags
      · rw [if_pos hname, List.filter_cons_of_neg (by rw [hbody]; simpa using hname)]
      · rw [if_neg hname, List.filter_cons_of_pos (by rw [hbody]; simpa using hname), List.flatMap_cons,
          ← List.append_assoc]
        rfl
    | _ => exact List.append_assoc ..

end Arguments

/-! ### Claims in a text -/

/-- The text holds the start of a marker. -/
def HasOpening (text : List Char) : Prop :=
  ∃ before blanks after, text = before ++ (markerOpening ++ blanks ++ markerWord ++ after) ∧
    ∀ c ∈ blanks, isTrimmed c = true

section Claims

variable {start text rest tail claim inner x : List Char} {c : Char} {id : String} {k : Nat}

theorem stripPrefix_iff : stripPrefix start text = some rest ↔ text = start ++ rest := by
  unfold stripPrefix
  constructor
  · intro h
    split_ifs at h with hinit
    obtain ⟨after, rfl⟩ := List.isPrefixOf_iff_prefix.1 hinit
    rw [List.drop_left] at h
    rw [Option.some.inj h]
  · rintro rfl
    rw [if_pos (List.isPrefixOf_iff_prefix.2 (List.prefix_append _ _)), List.drop_left]

/-- What follows a character that is not in the prefix plays no part. -/
theorem stripPrefix_append (hc : c ∉ start) :
    stripPrefix start (text ++ c :: tail) = (stripPrefix start text).map (· ++ c :: tail) := by
  cases h : stripPrefix start text with
  | some rest =>
    rw [stripPrefix_iff.1 h]
    exact stripPrefix_iff.2 (List.append_assoc ..)
  | none =>
    cases h' : stripPrefix start (text ++ c :: tail) with
    | none => rfl
    | some rest =>
      have heq := stripPrefix_iff.1 h'
      rcases List.append_eq_append_iff.1 heq with ⟨a, hstart, hrest⟩ | ⟨a, htext, -⟩
      · cases a with
        | nil =>
          rw [List.append_nil] at hstart
          rw [stripPrefix_iff.2 (show text = start ++ [] by rw [hstart, List.append_nil])] at h
          cases h
        | cons d a =>
          rw [← (List.cons.inj hrest).1] at hstart
          exact absurd (hstart ▸ by simp) hc
      · rw [stripPrefix_iff.2 htext] at h
        cases h

theorem opensMarker_iff : opensMarker text = some (start, inner) ↔ ∃ blanks,
    start = markerOpening ++ blanks ++ markerWord ∧ text = start ++ inner ∧
      ∀ c ∈ blanks, isTrimmed c = true := by
  unfold opensMarker
  rw [Option.bind_eq_some_iff]
  simp only [Option.map_eq_some_iff, stripPrefix_iff, Prod.mk.injEq]
  constructor
  · rintro ⟨rest, rfl, inner, hrest, rfl, rfl⟩
    refine ⟨rest.takeWhile isTrimmed, rfl, ?_, fun c hc => List.mem_takeWhile_imp hc⟩
    rw [List.append_assoc, List.append_assoc, ← hrest, List.takeWhile_append_dropWhile]
  · rintro ⟨blanks, rfl, rfl, hblanks⟩
    have hword : (markerWord ++ inner).takeWhile isTrimmed = [] := rfl
    have hword' : (markerWord ++ inner).dropWhile isTrimmed = markerWord ++ inner := rfl
    refine ⟨blanks ++ (markerWord ++ inner), by simp only [List.append_assoc], inner, ?_, ?_, rfl⟩
    · rw [List.dropWhile_append_of_pos hblanks, hword']
    · rw [List.takeWhile_append_of_pos hblanks, hword, List.append_nil]

theorem hasOpening_cons : HasOpening (c :: text) ↔
    (opensMarker (c :: text)).isSome = true ∨ HasOpening text := by
  constructor
  · rintro ⟨before, blanks, after, heq, hblanks⟩
    cases before with
    | nil =>
      have hopens : opensMarker (c :: text) = some (markerOpening ++ blanks ++ markerWord, after) :=
        opensMarker_iff.2 ⟨blanks, rfl, heq, hblanks⟩
      rw [hopens]
      exact .inl rfl
    | cons d before => exact .inr ⟨before, blanks, after, (List.cons.inj heq).2, hblanks⟩
  · rintro (h | ⟨before, blanks, after, rfl, hblanks⟩)
    · obtain ⟨⟨start, inner⟩, h⟩ := Option.isSome_iff_exists.1 h
      obtain ⟨blanks, rfl, htext, hblanks⟩ := opensMarker_iff.1 h
      exact ⟨[], blanks, inner, htext, hblanks⟩
    · exact ⟨c :: before, blanks, after, rfl, hblanks⟩

/-- A marker that follows on another line does not complete the start of one. -/
theorem opensMarker_append : opensMarker (text ++ '\n' :: '\n' :: '<' :: tail) =
    (opensMarker text).map fun (start, inner) => (start, inner ++ '\n' :: '\n' :: '<' :: tail) := by
  have hopening : '\n' ∉ markerOpening := by decide
  have hword : '\n' ∉ markerWord := by decide
  unfold opensMarker
  rw [stripPrefix_append hopening]
  cases h : stripPrefix markerOpening text with
  | none => rfl
  | some rest =>
    show Option.map _ (stripPrefix markerWord ((rest ++ _).dropWhile isTrimmed)) =
      Option.map _ (Option.map _ (stripPrefix markerWord (rest.dropWhile isTrimmed)))
    by_cases hall : ∀ c ∈ rest, isTrimmed c = true
    · rw [List.dropWhile_append_of_pos hall, List.dropWhile_eq_nil_iff.2 hall]
      rfl
    · have hne : rest.dropWhile isTrimmed ≠ [] := fun hnil => hall (List.dropWhile_eq_nil_iff.1 hnil)
      have hempty : (rest.dropWhile isTrimmed).isEmpty = false := by simpa using hne
      have hlength : (rest.takeWhile isTrimmed).length ≠ rest.length := by
        have hsum := congrArg List.length (@List.takeWhile_append_dropWhile _ isTrimmed rest)
        have hpos := List.length_pos_iff.2 hne
        rw [List.length_append] at hsum
        omega
      rw [List.dropWhile_append, List.takeWhile_append, hempty, if_neg hlength, if_neg nofun,
        stripPrefix_append hword]
      cases stripPrefix markerWord (rest.dropWhile isTrimmed) <;> rfl

/-! The first end of a marker. -/

theorem upToClosing_closed (h : ¬markerClosing <:+: x ++ ['-', '-']) :
    upToClosing (x ++ markerClosing) = some (x ++ markerClosing) := by
  induction x with
  | nil => rfl
  | cons c x ih =>
    have hinit : ¬markerClosing <+: c :: (x ++ markerClosing) := by
      intro hinit
      have hshort : c :: x ++ ['-', '-'] <+: c :: x ++ markerClosing :=
        ⟨['>'], List.append_assoc ..⟩
      refine h (List.prefix_of_prefix_length_le hinit hshort ?_).isInfix
      simp [markerClosing]
    rw [List.cons_append]
    unfold upToClosing
    rw [if_neg fun h => hinit (List.isPrefixOf_iff_prefix.1 h),
      ih fun hpart => h (hpart.trans (List.suffix_cons c _).isInfix)]
    rfl

theorem upToClosing_some (h : upToClosing text = some claim) :
    claim <+: text ∧ ∃ x, claim = x ++ markerClosing ∧ ¬markerClosing <:+: x := by
  induction text generalizing claim with
  | nil => cases h
  | cons c text ih =>
    unfold upToClosing at h
    split_ifs at h with hinit
    · obtain rfl := Option.some.inj h
      exact ⟨List.isPrefixOf_iff_prefix.1 hinit, [], rfl, by decide⟩
    · obtain ⟨claim, hclaim, rfl⟩ := Option.map_eq_some_iff.1 h
      obtain ⟨hclaimed, x, rfl, hx⟩ := ih hclaim
      refine ⟨(List.prefix_cons_inj c).2 hclaimed, c :: x, rfl, fun hpart => ?_⟩
      rcases List.infix_cons_iff.1 hpart with hpart | hpart
      · refine hinit (List.isPrefixOf_iff_prefix.2 (hpart.trans ?_))
        exact (List.prefix_cons_inj c).2 ((List.prefix_append _ _).trans hclaimed)
      · exact hx hpart

theorem upToClosing_none : upToClosing text = none ↔ ¬markerClosing <:+: text := by
  induction text with
  | nil => exact ⟨fun _ => by decide, fun _ => rfl⟩
  | cons c text ih =>
    unfold upToClosing
    rw [List.infix_cons_iff, not_or, ← List.isPrefixOf_iff_prefix]
    split_ifs with hinit
    · exact ⟨nofun, fun h => absurd hinit h.1⟩
    · rw [Option.map_eq_none_iff, ih]
      exact ⟨fun h => ⟨hinit, h⟩, fun h => h.2⟩

/-! Claims are parts of the text. -/

theorem claimAt_some (h : claimAt text = some claim) : claim <+: text ∧
    ∃ blanks x, claim = markerOpening ++ blanks ++ markerWord ++ (x ++ markerClosing) ∧
      (∀ c ∈ blanks, isTrimmed c = true) ∧ ¬markerClosing <:+: x := by
  obtain ⟨⟨start, inner⟩, hopens, hclosed⟩ := Option.bind_eq_some_iff.1 h
  obtain ⟨blanks, rfl, rfl, hblanks⟩ := opensMarker_iff.1 hopens
  obtain ⟨closed, hupTo, rfl⟩ := Option.map_eq_some_iff.1 hclosed
  obtain ⟨hinit, x, rfl, hx⟩ := upToClosing_some hupTo
  exact ⟨List.prefix_append_right_inj _ |>.2 hinit, blanks, x, rfl, hblanks, hx⟩

theorem mem_claimsFrom (h : claim ∈ claimsFrom k text) :
    claim <:+: text ∧ ∃ text, claimAt text = some claim := by
  induction text generalizing k with
  | nil => cases h
  | cons c text ih =>
    unfold claimsFrom at h
    split at h
    · obtain ⟨hpart, hclaim⟩ := ih h
      exact ⟨hpart.trans (List.suffix_cons c text).isInfix, hclaim⟩
    · split at h
      · rename_i found hfound
        rcases List.mem_cons.1 h with rfl | h
        · exact ⟨(claimAt_some hfound).1.isInfix, _, hfound⟩
        · obtain ⟨hpart, hclaim⟩ := ih h
          exact ⟨hpart.trans (List.suffix_cons c text).isInfix, hclaim⟩
      · obtain ⟨hpart, hclaim⟩ := ih h
        exact ⟨hpart.trans (List.suffix_cons c text).isInfix, hclaim⟩

theorem claimsFrom_some (h : claimAt (c :: text) = some claim) :
    claimsFrom 0 (c :: text) = claim :: claimsFrom (claim.length - 1) text := by
  rw [claimsFrom.eq_def]
  dsimp only
  rw [h]

theorem claimsFrom_none (h : claimAt (c :: text) = none) :
    claimsFrom 0 (c :: text) = claimsFrom 0 text := by
  rw [claimsFrom.eq_def]
  dsimp only
  rw [h]

/-- Without a claim there is none at any place. -/
theorem claimAt_of_claims_nil (h : claimsFrom 0 (text ++ c :: rest) = []) :
    claimAt (c :: rest) = none := by
  induction text with
  | nil =>
    cases hclaim : claimAt (c :: rest) with
    | none => rfl
    | some claim =>
      rw [List.nil_append, claimsFrom_some hclaim] at h
      cases h
  | cons d text ih =>
    rw [List.cons_append] at h
    cases hclaim : claimAt (d :: (text ++ c :: rest)) with
    | none => exact ih ((claimsFrom_none hclaim).symm.trans h)
    | some claim =>
      rw [claimsFrom_some hclaim] at h
      cases h

/-! The marker after a body. -/

theorem attemptMarker_eq : (attemptMarker id) =
    markerOpening ++ [' '] ++ markerWord ++ (id.toList ++ [' '] ++ markerClosing) := by
  have hstart : "<!-- attempt-claim:".toList = markerOpening ++ [' '] ++ markerWord := rfl
  have hend : " -->".toList = [' '] ++ markerClosing := rfl
  unfold attemptMarker
  rw [hstart, hend]
  simp only [List.append_assoc]

/-- A part without a character lies on one side of it. -/
theorem infix_append_cons (hc : c ∉ x) (h : x <:+: text ++ c :: rest) : x <:+: text ∨ x <:+: rest := by
  obtain ⟨before, after, heq⟩ := h
  rw [List.append_assoc] at heq
  rcases List.append_eq_append_iff.1 heq with ⟨a, htext, hrest⟩ | ⟨a, hbefore, hrest⟩
  · rcases List.append_eq_append_iff.1 hrest with ⟨b, rfl, -⟩ | ⟨b, hx, hrest⟩
    · exact .inl ⟨before, b, by rw [htext, List.append_assoc]⟩
    · cases b with
      | nil => exact .inl ⟨before, [], by rw [htext, hx]; simp⟩
      | cons d b =>
        rw [List.cons_append] at hrest
        rw [hx, (List.cons.inj hrest).1] at hc
        exact absurd (by simp) hc
  · cases a with
    | nil =>
      rw [List.nil_append] at hrest
      cases x with
      | nil => exact .inl ⟨[], text, rfl⟩
      | cons d x =>
        rw [(List.cons.inj hrest).1] at hc
        exact absurd (List.mem_cons_self ..) hc
    | cons d a =>
      rw [List.cons_append] at hrest
      exact .inr ⟨a, after, by rw [(List.cons.inj hrest).2]; simp⟩

/-- Where the id holds no end of a marker, the first one after it is the marker's own. -/
theorem upToClosing_marker (hid : ¬markerClosing <:+: id.toList) (htext : ¬markerClosing <:+: text) :
    upToClosing (text ++ '\n' :: '\n' :: attemptMarker id) =
      some (text ++ '\n' :: '\n' :: attemptMarker id) := by
  have hmarker : text ++ '\n' :: '\n' :: attemptMarker id =
      (text ++ '\n' :: '\n' :: (markerOpening ++ ' ' :: ("attempt-claim".toList ++
        ':' :: (id.toList ++ [' '])))) ++ markerClosing := by
    have hword : markerWord = "attempt-claim".toList ++ [':'] := rfl
    rw [attemptMarker_eq, hword]
    simp only [List.append_assoc, List.cons_append, List.nil_append]
  rw [hmarker]
  refine upToClosing_closed fun hpart => ?_
  simp only [List.append_assoc, List.cons_append, List.nil_append] at hpart
  rcases infix_append_cons (by decide) hpart with hpart | hpart
  · exact htext hpart
  rcases @infix_append_cons [] _ _ _ (by decide) hpart with hpart | hpart
  · exact absurd hpart (by decide +kernel)
  rcases infix_append_cons (by decide) hpart with hpart | hpart
  · exact absurd hpart (by decide +kernel)
  rcases infix_append_cons (by decide) hpart with hpart | hpart
  · exact absurd hpart (by decide +kernel)
  rcases infix_append_cons (by decide) hpart with hpart | hpart
  · exact hid hpart
  · exact absurd hpart (by decide +kernel)

theorem claimAt_marker (hid : ¬markerClosing <:+: id.toList) :
    claimAt (attemptMarker id) = some (attemptMarker id) := by
  have hblanks : ∀ c ∈ [' '], isTrimmed c = true := List.forall_mem_singleton.2 (by decide)
  have hopens : opensMarker (attemptMarker id) = some (markerOpening ++ [' '] ++ markerWord,
      id.toList ++ [' '] ++ markerClosing) :=
    opensMarker_iff.2 ⟨[' '], rfl, attemptMarker_eq, hblanks⟩
  have hclosed : upToClosing (id.toList ++ [' '] ++ markerClosing) =
      some (id.toList ++ [' '] ++ markerClosing) := by
    refine upToClosing_closed fun hpart => ?_
    rw [List.append_assoc] at hpart
    rcases infix_append_cons (by decide) hpart with hpart | hpart
    · exact hid hpart
    · exact absurd hpart (by decide +kernel)
  unfold claimAt
  rw [hopens]
  show (upToClosing _).map _ = _
  rw [hclosed, attemptMarker_eq]
  rfl

/-- An end of a marker in the id ends a claim before the marker does. -/
theorem claimAt_ne_marker (hid : markerClosing <:+: id.toList) :
    claimAt text ≠ some (attemptMarker id) := by
  intro h
  obtain ⟨-, blanks, x, heq, hblanks, hx⟩ := claimAt_some h
  have hopens := opensMarker_iff.2 ⟨blanks, rfl, heq, hblanks⟩
  have hspace : ∀ c ∈ [' '], isTrimmed c = true := List.forall_mem_singleton.2 (by decide)
  have hopens' := opensMarker_iff.2 ⟨[' '], rfl, @attemptMarker_eq id, hspace⟩
  have hinner := (Prod.mk.inj (Option.some.inj (hopens.symm.trans hopens'))).2
  have hxid : x = id.toList ++ [' '] := List.append_cancel_right hinner
  rw [hxid] at hx
  exact hx (hid.trans (List.prefix_append _ _).isInfix)

theorem claimsFrom_skip (h : text.length ≤ k) : claimsFrom k text = [] := by
  induction text generalizing k with
  | nil => rfl
  | cons c text ih =>
    cases k with
    | zero => cases h
    | succ k =>
      rw [claimsFrom.eq_def]
      exact ih (Nat.le_of_succ_le_succ h)

theorem attemptMarker_cons : ∃ rest, attemptMarker id = '<' :: rest := ⟨_, rfl⟩

theorem claimAt_none_of_opens (h : opensMarker text = none) : claimAt text = none := by
  unfold claimAt
  rw [h]
  rfl

theorem claimAt_newline (text : List Char) : claimAt ('\n' :: text) = none := by
  refine claimAt_none_of_opens (Option.eq_none_iff_forall_not_mem.2 fun found hfound => ?_)
  obtain ⟨blanks, hstart, htext, -⟩ := opensMarker_iff.1 hfound
  rw [hstart] at htext
  cases htext

theorem claimsFrom_newlines :
    claimsFrom 0 ('\n' :: '\n' :: text) = claimsFrom 0 text :=
  (claimsFrom_none (claimAt_newline _)).trans (claimsFrom_none (claimAt_newline _))

theorem opensMarker_stamped :
    opensMarker (text ++ '\n' :: '\n' :: attemptMarker id) =
      (opensMarker text).map fun (start, inner) =>
        (start, inner ++ '\n' :: '\n' :: attemptMarker id) := by
  obtain ⟨rest, hrest⟩ := @attemptMarker_cons id
  rw [hrest]
  exact opensMarker_append

/-- A body without the start of a marker adds no claim. -/
theorem claims_stamped (h : ¬HasOpening text) (hid : ¬markerClosing <:+: id.toList) :
    claimsFrom 0 (text ++ '\n' :: '\n' :: attemptMarker id) = [attemptMarker id] := by
  induction text with
  | nil =>
    obtain ⟨rest, hrest⟩ := @attemptMarker_cons id
    refine claimsFrom_newlines.trans ?_
    have hclaim := @claimAt_marker id hid
    rw [hrest] at hclaim ⊢
    rw [claimsFrom_some hclaim, claimsFrom_skip (by simp)]
  | cons c text ih =>
    rw [hasOpening_cons, not_or] at h
    have hopens : opensMarker (c :: text) = none := by simpa using h.1
    have hnone := @opensMarker_stamped (c :: text) id
    rw [hopens] at hnone
    exact (claimsFrom_none (claimAt_none_of_opens hnone)).trans (ih h.2)

/-- The start of a marker in the body makes a longer claim of it. -/
theorem claims_longer (h : HasOpening text) (hid : ¬markerClosing <:+: id.toList)
    (hclaims : claimsFrom 0 text = []) :
    ∃ claim ∈ claimsFrom 0 (text ++ '\n' :: '\n' :: attemptMarker id), claim ≠ attemptMarker id := by
  induction text with
  | nil =>
    obtain ⟨before, blanks, after, heq, -⟩ := h
    have hlength := congrArg List.length heq
    simp [markerOpening] at hlength
  | cons c text ih =>
    have hnone := @claimAt_of_claims_nil [] text c hclaims
    cases hopens : opensMarker (c :: text) with
    | some found =>
      obtain ⟨start, inner⟩ := found
      have hinner : ¬markerClosing <:+: inner := by
        unfold claimAt at hnone
        rw [hopens] at hnone
        exact upToClosing_none.1 (Option.map_eq_none_iff.1 hnone)
      have hstamped := @opensMarker_stamped (c :: text) id
      have hclaim : claimAt (c :: text ++ '\n' :: '\n' :: attemptMarker id) =
          some (start ++ (inner ++ '\n' :: '\n' :: attemptMarker id)) := by
        unfold claimAt
        rw [hstamped, hopens]
        show (upToClosing _).map _ = _
        rw [upToClosing_marker hid hinner]
        rfl
      refine ⟨start ++ (inner ++ '\n' :: '\n' :: attemptMarker id), ?_, fun heq => ?_⟩
      · rw [List.cons_append] at hclaim ⊢
        rw [claimsFrom_some hclaim]
        exact List.mem_cons_self ..
      · have hlength := congrArg List.length heq
        simp only [List.length_append, List.length_cons] at hlength
        omega
    | none =>
      have hstamped := @opensMarker_stamped (c :: text) id
      rw [hopens] at hstamped
      have hrest : HasOpening text := by
        rcases hasOpening_cons.1 h with hopen | hopen
        · rw [hopens] at hopen
          cases hopen
        · exact hopen
      obtain ⟨claim, hmem, hne⟩ := ih hrest ((claimsFrom_none hnone).symm.trans hclaims)
      refine ⟨claim, ?_, hne⟩
      rw [List.cons_append] at hstamped ⊢
      rw [claimsFrom_none (claimAt_none_of_opens hstamped)]
      exact hmem

/-- An end of a marker in the id makes a shorter claim of the marker. -/
theorem claims_shorter (hid : markerClosing <:+: id.toList) :
    ∃ claim ∈ claimsFrom 0 (text ++ '\n' :: '\n' :: attemptMarker id), claim ≠ attemptMarker id := by
  cases hclaims : claimsFrom 0 (text ++ '\n' :: '\n' :: attemptMarker id) with
  | cons claim claims =>
    refine ⟨claim, List.mem_cons_self .., ?_⟩
    rintro rfl
    obtain ⟨-, start, hclaim⟩ := mem_claimsFrom (hclaims ▸ List.mem_cons_self ..)
    exact claimAt_ne_marker hid hclaim
  | nil =>
    obtain ⟨rest, hrest⟩ := @attemptMarker_cons id
    have hnone : claimAt (attemptMarker id) = none := by
      rw [hrest]
      refine @claimAt_of_claims_nil (text ++ ['\n', '\n']) _ _ ?_
      rw [← hrest, List.append_assoc]
      exact hclaims
    have hspace : ∀ c ∈ [' '], isTrimmed c = true := List.forall_mem_singleton.2 (by decide)
    have hopens := opensMarker_iff.2 ⟨[' '], rfl, @attemptMarker_eq id, hspace⟩
    unfold claimAt at hnone
    rw [hopens] at hnone
    refine absurd ?_ (upToClosing_none.1 (Option.map_eq_none_iff.1 hnone))
    exact (List.suffix_append _ _).isInfix

end Claims

/-- After a body without claims, the marker is the only claim exactly if the body holds no start of a
marker and the id no end of one. -/
theorem claims_stamped_iff {text : List Char} {id : String} (hclaims : claimsFrom 0 text = []) :
    (∀ claim ∈ claimsFrom 0 (text ++ '\n' :: '\n' :: attemptMarker id), claim = attemptMarker id) ↔
      ¬HasOpening text ∧ ¬markerClosing <:+: id.toList := by
  constructor
  · intro hall
    by_cases hid : markerClosing <:+: id.toList
    · obtain ⟨claim, hmem, hne⟩ := @claims_shorter text id hid
      exact absurd (hall claim hmem) hne
    · refine ⟨fun h => ?_, hid⟩
      obtain ⟨claim, hmem, hne⟩ := claims_longer h hid hclaims
      exact absurd (hall claim hmem) hne
  · rintro ⟨hopening, hid⟩ claim hmem
    rw [claims_stamped hopening hid] at hmem
    exact List.mem_singleton.1 hmem

/-! ### Printing and reading -/

section Quoting

variable {s : Scanner} {rest : List Char} {value : String} {words before : List String}
  {commands : List (List String)}

/-- A quoted word is read back, whatever is in it. -/
theorem scan_quoteWord : scan .plain s (quoteWord value ++ rest) =
    scan .plain (s.extend value.toList) rest := by
  have hbody : ∀ (cs a : List Char), scan .single (s.extend a)
      (cs.flatMap (fun c => if c = '\'' then "'\\''".toList else [c]) ++ '\'' :: rest) =
        scan .plain (s.extend (a ++ cs)) rest := by
    intro cs
    induction cs with
    | nil =>
      intro a
      rw [List.flatMap_nil, List.nil_append, List.append_nil, scan.eq_def]
      rfl
    | cons c cs ih =>
      intro a
      rw [List.flatMap_cons, List.append_assoc]
      have happend : a ++ c :: cs = a ++ [c] ++ cs := by simp
      rw [happend, ← ih (a ++ [c])]
      by_cases hc : c = '\''
      · subst hc
        rw [if_pos rfl]
        show scan .single (s.extend a) ('\'' :: '\\' :: '\'' :: '\'' :: _) = _
        rw [scan_cons]
        show scan .plain (s.extend a) ('\\' :: '\'' :: '\'' :: _) = _
        rw [scan_escape, if_pos (by decide), Scanner.extend_add, Scanner.extend_start, scan_quote,
          Scanner.extend_start]
        rfl
      · rw [if_neg hc]
        show scan .single (s.extend a) (c :: _) = _
        rw [scan_cons]
        simp only [reduceCtorEq, if_false, if_true, hc]
        rw [Scanner.extend_add]
        rfl
  unfold quoteWord
  rw [List.cons_append, List.cons_append, List.append_assoc, scan_quote, Scanner.start_eq]
  exact hbody value.toList []

theorem scan_quoteWords (hne : words ≠ []) : ∀ before : List String,
    scan .plain (pending commands before) (List.intercalate [' '] (words.map quoteWord)) =
      some (commands ++ [before ++ words]) := by
  induction words with
  | nil => exact absurd rfl hne
  | cons word words ih =>
    intro before
    have hflush : ((pending commands before).extend word.toList).flush =
        pending commands (before ++ [word]) := by
      rw [flush_extend, String.ofList_toList]
    cases words with
    | nil =>
      have hend : ((pending commands before).extend word.toList).endCommand =
          pending (commands ++ [before ++ [word]]) [] := by
        rw [← Scanner.endCommand_flush, hflush, endCommand_pending, if_neg (by simp)]
      have hscan := @scan_quoteWord (pending commands before) [] word
      rw [List.append_nil] at hscan
      rw [List.map_singleton, List.intercalate_singleton, hscan]
      exact congrArg (fun s : Scanner => some s.commands) hend
    | cons next words =>
      rw [List.map_cons, List.map_cons, List.intercalate_cons_cons, List.append_assoc, scan_quoteWord]
      refine (scan_blank (by decide)).trans ?_
      rw [hflush]
      have hrest := ih (List.cons_ne_nil _ _) (before ++ [word])
      rw [List.append_assoc] at hrest
      exact hrest

/-- The printed words are read back as one command. -/
theorem literalCommands_quoteWords (hne : words ≠ []) :
    literalCommands (quoteWords words) = some [words] := by
  unfold literalCommands quoteWords
  rw [String.toList_ofList]
  exact scan_quoteWords hne []

end Quoting

/-! ### The repaired command -/

section Repair

variable {env : RepairEnv} {input : RepairInput} {context : RepairContext}
  {program resource verb body repository stamped repaired : String} {args : List String} {p : ParsedArgs}
  {items : List Argument}

/-- The command is one to repair, with the body that it publishes. -/
structure Repairable (env : RepairEnv) (input : RepairInput) (context : RepairContext)
    (program resource verb : String) (p : ParsedArgs) (body : String) : Prop where
  program : basename program = "gh"
  publishes : Publishes resource verb
  repository : ∃ repository, artifactRepository env input p = .ok repository ∧
    env.toLowerCase repository = env.toLowerCase context.repository
  targets : targetsAnchor context resource verb p.positional = .ok true
  body : artifactBody env input p = .ok body

theorem repairWords_eq (h : Repairable env input context program resource verb p body)
    (hparse : parseArgs verb {} args = .ok p) :
    repairWords env input context (program :: resource :: verb :: args) =
      (stampBody context body).map (·.map fun body =>
        quoteWords (program :: resource :: verb :: p.retained ++ ["--body", body])) := by
  obtain ⟨hprogram, hpublishes, ⟨repository, hread, hlower⟩, htargets, hbody⟩ := h
  unfold repairWords
  dsimp only
  rw [if_neg (not_not.2 hprogram), if_neg (not_not.2 hpublishes), hparse]
  show artifactRepository env input p >>= _ = _
  rw [hread]
  show (if _ then _ else _) = _
  rw [if_neg (not_not.2 hlower), htargets]
  show artifactBody env input p >>= _ = _
  rw [hbody]
  show stampBody context body >>= _ = _
  cases stampBody context body <;> rfl

theorem repairWords_some {words : List String}
    (h : repairWords env input context words = .ok (some repaired)) :
    ∃ program resource verb args p body stamped, words = program :: resource :: verb :: args ∧
      parseArgs verb {} args = .ok p ∧ Repairable env input context program resource verb p body ∧
      stampBody context body = .ok (some stamped) ∧
      repaired = quoteWords (program :: resource :: verb :: p.retained ++ ["--body", stamped]) := by
  unfold repairWords at h
  split at h
  swap
  · cases h
  rename_i program resource verb args
  by_cases hprogram : basename program = "gh"
  swap
  · rw [if_pos hprogram] at h
    cases h
  by_cases hpublishes : Publishes resource verb
  swap
  · rw [if_neg (not_not.2 hprogram), if_pos hpublishes] at h
    cases h
  rw [if_neg (not_not.2 hprogram), if_neg (not_not.2 hpublishes)] at h
  obtain ⟨p, hparse, h⟩ := bind_eq_ok.1 h
  obtain ⟨repository, hread, h⟩ := bind_eq_ok.1 h
  by_cases hlower : env.toLowerCase repository = env.toLowerCase context.repository
  swap
  · rw [if_pos hlower] at h
    cases h
  rw [if_neg (not_not.2 hlower)] at h
  obtain ⟨targets, htargets, h⟩ := bind_eq_ok.1 h
  cases targets with
  | false => cases h
  | true =>
    obtain ⟨body, hbody, h⟩ := bind_eq_ok.1 h
    obtain ⟨stamped, hstamped, h⟩ := bind_eq_ok.1 h
    obtain ⟨stamped, rfl, rfl⟩ := Option.map_eq_some_iff.1 (Except.ok.inj h)
    exact ⟨program, resource, verb, args, p, body, stamped, rfl, hparse,
      ⟨hprogram, hpublishes, ⟨repository, hread, hlower⟩, htargets, hbody⟩, hstamped, rfl⟩

/-! The second pass reads the same arguments. -/

/-- The argument with its flag and value spelled apart. -/
def Argument.unjoin : Argument → Argument
  | .flag name value _ => .flag name value false
  | argument => argument

/-- The arguments of the repaired command. -/
def repairedItems (items : List Argument) (stamped : String) : List Argument :=
  (items.filter (¬·.isBody)).map Argument.unjoin ++ [.flag "--body" stamped false]

theorem repairedItems_spelled : (repairedItems items stamped).flatMap Argument.spelled =
    (items.filter (¬·.isBody)).flatMap Argument.apart ++ ["--body", stamped] := by
  unfold repairedItems
  rw [List.flatMap_append, List.flatMap_map]
  refine congrArg (· ++ _) (congrArg (fun f => List.flatMap f _) (funext fun item => ?_))
  cases item <;> rfl

theorem repairedItems_valid (hvalid : ∀ item ∈ items, Argument.Valid verb item) :
    ∀ item ∈ repairedItems items stamped, Argument.Valid verb item := by
  intro item hitem
  rcases List.mem_append.1 hitem with hitem | hitem
  · obtain ⟨original, hmem, rfl⟩ := List.mem_map.1 hitem
    have horiginal := hvalid original (List.mem_of_mem_filter hmem)
    cases original <;> exact horiginal
  · obtain rfl := List.mem_singleton.1 hitem
    exact List.mem_append_left _ (by decide)

theorem flagName_unjoin (item : Argument) : item.unjoin.flagName = item.flagName := by
  cases item <;> rfl

theorem isBody_of_flagName {item : Argument} {name : String} (h : item.flagName = some name) :
    item.isBody = decide (name ∈ bodyFlags) := by
  unfold Argument.isBody
  rw [h]
  rfl

theorem repairedItems_fresh (hfresh : FreshFlags {} items) : FreshFlags {} (repairedItems items stamped) := by
  have hnames : (repairedItems items stamped).filterMap Argument.flagName =
      (items.filter (¬·.isBody)).filterMap Argument.flagName ++ ["--body"] := by
    unfold repairedItems
    rw [List.filterMap_append, List.filterMap_map]
    exact congrArg (· ++ _) (congrArg (fun f => List.filterMap f _) (funext flagName_unjoin))
  refine ⟨?_, fun f _ => rfl⟩
  rw [hnames]
  refine List.Nodup.append ((List.filter_sublist.filterMap _).nodup hfresh.1)
    (List.nodup_singleton _) fun name hname hbody => ?_
  obtain rfl := List.mem_singleton.1 hbody
  obtain ⟨item, hitem, hflag⟩ := List.mem_filterMap.1 hname
  have hfilter := (List.mem_filter.1 hitem).2
  rw [isBody_of_flagName hflag] at hfilter
  exact absurd hfilter (by decide)

theorem repairedItems_positional : (repairedItems items stamped).flatMap Argument.positionals =
    items.flatMap Argument.positionals := by
  unfold repairedItems
  rw [List.flatMap_append, List.flatMap_map]
  show _ ++ [] = _
  rw [List.append_nil]
  induction items with
  | nil => rfl
  | cons item items ih =>
    rw [List.flatMap_cons, ← ih]
    cases item with
    | flag name value joined =>
      rw [List.filter_cons]
      split_ifs <;> rfl
    | _ => rfl

theorem repairedItems_get {flag : String} (hfresh : FreshFlags {} items) :
    (ParsedArgs.noteAll {} (repairedItems items stamped)).flags.get flag =
      if flag ∈ bodyFlags then (if flag = "--body" then some stamped else none)
      else (ParsedArgs.noteAll {} items).flags.get flag := by
  rw [noteAll_get (repairedItems_fresh hfresh), noteAll_get hfresh, OrderedMap.get_empty, Option.or_none,
    Option.or_none]
  clear hfresh
  unfold repairedItems
  induction items with
  | nil =>
    show (if "--body" = flag then some stamped else none) = _
    by_cases hflag : flag = "--body"
    · subst hflag
      rfl
    · rw [if_neg (Ne.symm hflag), if_neg hflag]
      split_ifs <;> rfl
  | cons item items ih =>
    cases item with
    | flag name value joined =>
      have hbody : (Argument.flag name value joined).isBody = decide (name ∈ bodyFlags) := rfl
      rw [List.filter_cons, hbody, valueOf_flag]
      by_cases hname : name ∈ bodyFlags
      · rw [if_neg (by simpa using hname), ih]
        split_ifs with hflag hstamp heq
        · rfl
        · rfl
        · subst heq
          exact absurd hname hflag
        · rfl
      · rw [if_pos (by simpa using hname)]
        have hrest := @valueOf_flag flag value
          ((items.filter (¬·.isBody)).map Argument.unjoin ++ [.flag "--body" stamped false]) false name
        rw [ih] at hrest
        refine hrest.trans ?_
        by_cases heq : name = flag
        · subst heq
          rw [if_pos rfl, if_neg hname, if_pos rfl]
        · rw [if_neg heq, if_neg heq]
    | _ => exact ih

theorem artifactRepository_congr {q : ParsedArgs} {other : RepairInput}
    (h : ∀ f ∈ repositoryFlags, q.flags.get f = p.flags.get f) (hcwd : other.cwd = input.cwd) :
    artifactRepository env other q = artifactRepository env input p := by
  have hfilter : repositoryFlags.filter q.has = repositoryFlags.filter p.has :=
    List.filter_congr fun f hf => congrArg Option.isSome (h f hf)
  unfold artifactRepository
  rw [hfilter, hcwd]
  split
  · rfl
  · rename_i flag hflag
    have hmem : flag ∈ repositoryFlags := List.mem_of_mem_filter (hflag ▸ List.mem_singleton_self flag)
    rw [h flag hmem]
  · rfl

/-- The repaired command publishes the stamped body. -/
theorem artifactBody_repaired {q : ParsedArgs}
    (h : ∀ f ∈ bodyFlags, q.flags.get f = if f = "--body" then some stamped else none) :
    artifactBody env input q = .ok stamped := by
  have hfilter : bodyFlags.filter q.has = bodyFlags.filter (· = "--body") := by
    refine List.filter_congr fun f hf => ?_
    unfold ParsedArgs.has
    rw [h f hf]
    split_ifs with hbody
    · exact (decide_eq_true hbody).symm
    · exact (decide_eq_false hbody).symm
  have hone : bodyFlags.filter (· = "--body") = ["--body"] := by decide
  unfold artifactBody
  rw [hfilter, hone]
  dsimp only
  rw [h "--body" (by decide), if_pos rfl, if_neg (by decide)]
  rfl

/-- The repaired command is one to repair, with the stamped body. -/
theorem Repairable.again (command : Option String) (stamped : String) (hfresh : FreshFlags {} items)
    (h : Repairable env input context program resource verb (ParsedArgs.noteAll {} items) body) :
    Repairable env { input with command := command } context program resource verb
      (ParsedArgs.noteAll {} (repairedItems items stamped)) stamped where
  program := h.program
  publishes := h.publishes
  repository := by
    have hflags : ∀ f ∈ repositoryFlags, f ∉ bodyFlags := by decide
    obtain ⟨repository, hread, hlower⟩ := h.repository
    refine ⟨repository, ?_, hlower⟩
    rw [← hread]
    refine artifactRepository_congr (fun f hf => ?_) rfl
    rw [repairedItems_get hfresh, if_neg (hflags f hf)]
  targets := by
    rw [noteAll_positional, repairedItems_positional, ← noteAll_positional]
    exact h.targets
  body := by
    refine artifactBody_repaired fun f hf => ?_
    rw [repairedItems_get hfresh, if_pos hf]

theorem repairArtifact_read {command : String} {words : List String} (htool : input.toolName = "Bash")
    (h : literalCommands command = some [words]) :
    repairArtifact env { input with command := some command } context =
      repairWords env { input with command := some command } context words := by
  unfold repairArtifact
  rw [if_neg (not_not.2 htool)]
  show (match literalCommands command with
    | some [words] => repairWords env _ context words
    | _ => .ok none) = _
  rw [h]

theorem stampBody_some (h : stampBody context body = .ok (some stamped)) :
    claimsFrom 0 body.toList = [] ∧ stamped = body ++ "\n\n" ++ String.ofList (attemptMarker context.attemptId) := by
  unfold stampBody at h
  dsimp only at h
  split_ifs at h with hforeign hmarked
  · cases h
  refine ⟨List.eq_nil_iff_forall_not_mem.2 fun claim hclaim => hmarked ?_,
    (Option.some.inj (Except.ok.inj h)).symm⟩
  have hall : ∀ claim ∈ claimsFrom 0 body.toList, claim = attemptMarker context.attemptId := by
    simpa using hforeign
  rw [← hall claim hclaim]
  exact (mem_claimsFrom hclaim).1

/-- A stamped body is left alone exactly if the marker is its only claim. -/
theorem stampBody_stamped : stampBody context
      (body ++ "\n\n" ++ String.ofList (attemptMarker context.attemptId)) = .ok none ↔
    ∀ claim ∈ claimsFrom 0 (body.toList ++ '\n' :: '\n' :: attemptMarker context.attemptId),
      claim = attemptMarker context.attemptId := by
  have hlist : (body ++ "\n\n" ++ String.ofList (attemptMarker context.attemptId)).toList =
      body.toList ++ '\n' :: '\n' :: attemptMarker context.attemptId := by
    simp only [String.toList_append, String.toList_ofList, List.append_assoc]
    rfl
  have hpart : attemptMarker context.attemptId <:+:
      body.toList ++ '\n' :: '\n' :: attemptMarker context.attemptId :=
    (List.suffix_append (body.toList ++ ['\n', '\n']) _).isInfix.trans (by simp)
  unfold stampBody
  rw [hlist]
  dsimp only
  rw [if_pos hpart]
  constructor
  · intro h
    split_ifs at h with hforeign
    simpa using hforeign
  · intro h
    rw [if_neg (by simpa using h)]

/-- On the second pass only the stamped body is looked at. -/
theorem repairArtifact_again {command : String} (htool : input.toolName = "Bash")
    (hvalid : ∀ item ∈ items, Argument.Valid verb item) (hfresh : FreshFlags {} items)
    (h : Repairable env input context program resource verb (ParsedArgs.noteAll {} items) body)
    (hread : literalCommands command = some [program :: resource :: verb ::
      ((items.filter (¬·.isBody)).flatMap Argument.apart ++ ["--body", stamped])]) :
    repairArtifact env { input with command := some command } context = .ok none ↔
      stampBody context stamped = .ok none := by
  have hagain := repairWords_eq (h.again (some command) stamped hfresh)
    (parseArgs_iff.2 ⟨_, repairedItems_valid hvalid, rfl, repairedItems_fresh hfresh, rfl⟩)
  rw [repairedItems_spelled] at hagain
  rw [repairArtifact_read htool hread, hagain]
  cases stampBody context stamped with
  | error e => exact ⟨nofun, nofun⟩
  | ok result => cases result <;> simp [Except.map]

/-- The body that the arguments give, in a flag or in a file. -/
def BodyOf (env : RepairEnv) (input : RepairInput) (items : List Argument) (body : String) : Prop :=
  ∃ flag ∈ bodyFlags, ∃ value, valueOf flag items = some value ∧
    (flag ∉ fileFlags → body = value) ∧
    (flag ∈ fileFlags → ∃ file, env.stat (env.resolve (input.cwd.getD env.cwd) value) = some file ∧
      body = file.text)

/-- The repaired command is read as the command's words, with flags and values apart, without the body's
flag, and with the body and the marker at the end. -/
structure FaithfulRepair (env : RepairEnv) (input : RepairInput) (context : RepairContext)
    (repaired program resource verb : String) (items : List Argument) (body : String) : Prop where
  command : input.command.bind literalCommands =
    some [program :: resource :: verb :: items.flatMap Argument.spelled]
  valid : ∀ item ∈ items, Argument.Valid verb item
  published : BodyOf env input items body
  reads : literalCommands repaired =
    some [program :: resource :: verb :: (items.filter (¬·.isBody)).flatMap Argument.apart ++
      ["--body", body ++ "\n\n" ++ String.ofList (attemptMarker context.attemptId)]]

theorem bodyOf_artifactBody (hfresh : FreshFlags {} items)
    (h : artifactBody env input (ParsedArgs.noteAll {} items) = .ok body) :
    BodyOf env input items body := by
  have hget : ∀ f, (ParsedArgs.noteAll {} items).flags.get f = valueOf f items := fun f => by
    rw [noteAll_get hfresh, OrderedMap.get_empty, Option.or_none]
  unfold artifactBody at h
  split at h
  swap
  · cases h
  rename_i flag hflag
  have hmem := List.mem_filter.1 (hflag ▸ List.mem_singleton_self flag)
  obtain ⟨value, hvalue⟩ := Option.isSome_iff_exists.1 hmem.2
  rw [hvalue] at h
  rw [hget] at hvalue
  dsimp only at h
  refine ⟨flag, hmem.1, value, hvalue, ?_⟩
  by_cases hfile : flag ∈ fileFlags
  · refine ⟨fun hnot => absurd hfile hnot, fun _ => ?_⟩
    rw [if_pos hfile] at h
    split_ifs at h
    split at h
    · cases h
    · rename_i file hstat
      split_ifs at h
      exact ⟨file, hstat, (Except.ok.inj h).symm⟩
  · refine ⟨fun _ => ?_, fun hin => absurd hin hfile⟩
    rw [if_neg hfile] at h
    exact (Except.ok.inj h).symm

end Repair

/-- A repaired command is read back faithfully; repairing it again changes nothing exactly if the body
holds no start of a marker and the attempt's id no end of one. -/
theorem repair_iff {env : RepairEnv} {input : RepairInput} {context : RepairContext} {repaired : String}
    (h : repairArtifact env input context = .ok (some repaired)) :
    ∃ program resource verb items body,
      FaithfulRepair env input context repaired program resource verb items body ∧
      (repairArtifact env { input with command := some repaired } context = .ok none ↔
        ¬HasOpening body.toList ∧ ¬markerClosing <:+: context.attemptId.toList) := by
  unfold repairArtifact at h
  split_ifs at h with htool
  · cases h
  split at h
  swap
  · cases h
  rename_i words hwords
  obtain ⟨program, resource, verb, args, p, body, stamped, rfl, hparse, hrepairable, hstamp, rfl⟩ :=
    repairWords_some h
  obtain ⟨items, hvalid, rfl, hfresh, rfl⟩ := parseArgs_iff.1 hparse
  obtain ⟨hclaims, hstamped⟩ := stampBody_some hstamp
  rw [noteAll_retained]
  have hne : program :: resource :: verb :: ((items.filter (¬·.isBody)).flatMap Argument.apart ++
      ["--body", stamped]) ≠ [] := List.cons_ne_nil _ _
  have hreads := literalCommands_quoteWords hne
  refine ⟨program, resource, verb, items, body, ⟨hwords, hvalid,
    bodyOf_artifactBody hfresh hrepairable.body, hstamped ▸ hreads⟩, ?_⟩
  rw [← claims_stamped_iff hclaims, ← stampBody_stamped, ← hstamped]
  exact repairArtifact_again (not_not.1 htool) hvalid hfresh hrepairable hreads

namespace Sample

def repairEnv : RepairEnv where
  cwd := "/tmp"
  toLowerCase := id
  readRepository _ := .ok "octo/example"
  resolve cwd path := cwd ++ "/" ++ path
  stat _ := none

def repairContext : RepairContext where
  repository := "octo/example"
  mode := .implement
  anchorType := .issue
  anchorNumber := some 42
  attemptId := "g1:octo/example#42/r1"

def bash (command : String) : RepairInput where
  toolName := "Bash"
  command := some command
  cwd := none

/-- The body ends with the start of a marker. -/
def openBody : String := "gh issue comment 42 --body 'See <!-- attempt-claim:'"

def openRepaired : String :=
  "'gh' 'issue' 'comment' '42' '--body' 'See <!-- attempt-claim:\n\n<!-- attempt-claim:g1:octo/example#42/r1 -->'"

end Sample

open Sample in
theorem repair_iff_comment : ∃ program resource verb items body,
    FaithfulRepair repairEnv (bash "gh issue comment 42 -b done") repairContext
      "'gh' 'issue' 'comment' '42' '--body' 'done\n\n<!-- attempt-claim:g1:octo/example#42/r1 -->'"
      program resource verb items body ∧
    (repairArtifact repairEnv
        (bash "'gh' 'issue' 'comment' '42' '--body' 'done\n\n<!-- attempt-claim:g1:octo/example#42/r1 -->'")
        repairContext = .ok none ↔
      ¬HasOpening body.toList ∧ ¬markerClosing <:+: repairContext.attemptId.toList) :=
  @repair_iff repairEnv (bash "gh issue comment 42 -b done") repairContext _ (by decide +kernel)

open Sample in
/-- The start of a marker in the body makes one claim of the body's end and the marker. -/
theorem repair_again_throws :
    repairArtifact repairEnv (bash openBody) repairContext = .ok (some openRepaired) ∧
      repairArtifact repairEnv (bash openRepaired) repairContext = .error "Foreign attempt marker" := by
  decide +kernel

end AgentLcars
