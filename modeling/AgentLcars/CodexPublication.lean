import AgentLcars.BackgroundPublications

/-!
# Code-mode publications

`libs/telemetry/src/lib/codex-publication.ts`.  In code mode Codex calls one tool, `exec`, with a
program; the transport answers with a header and one envelope.

* `codeModeInvocation` recognizes the program that is one literal call of a nested tool;
* `codeModeResult` is the envelope of an output;
* `codeModePublication` and `codeModePublishedPR` are the command that publishes and what it prints.
-/

namespace AgentLcars

/-- What the reader of rollouts computes: `JSON.parse` and the syntax tree of a program, none where
they throw, and whether a command publishes a pull request. -/
structure RolloutEnv where
  parseJson : String → Option Json
  parseProgram : String → Option Json
  isPRPublicationCommand : String → Bool

/-- Whether a value counts as true. -/
def isTruthy : Option Json → Bool
  | none | some .null => false
  | some (.bool value) => value
  | some (.num literal) => literal ≠ "0"
  | some (.str value) => value ≠ ""
  | some (.arr _) | some (.obj _) => true

/-! ### Programs -/

/-- The nested tools of code mode. -/
inductive CodexTool
  | execCommand
  | writeStdin
  deriving DecidableEq, Repr

/-- `CodexInvocation`. -/
structure CodexInvocation where
  tool : CodexTool
  args : JsRecord

/-- A node of this type. -/
def isNode (record : Option JsRecord) (type : String) : Bool :=
  JsRecord.at_ record "type" = some (.str type)

/-- The name of a nested tool. -/
def codexTool : Option Json → Option CodexTool
  | some (.str "exec_command") => some .execCommand
  | some (.str "write_stdin") => some .writeStdin
  | _ => none

/-- A literal property, by name. -/
def literalProperty (values : JsRecord) (raw : Json) : Option (String × Json) := do
  let field := asRecord (some raw)
  let key := asRecord (JsRecord.at_ field "key")
  let value := asRecord (JsRecord.at_ field "value")
  let name ←
    if isNode key "Identifier" then asString (JsRecord.at_ key "name")
    else asString (JsRecord.at_ key "value")
  let literal ← JsRecord.at_ value "value"
  if isNode field "Property" ∧ ¬ isTruthy (JsRecord.at_ field "computed") ∧
      ¬ isTruthy (JsRecord.at_ field "method") ∧ ¬ isTruthy (JsRecord.at_ field "shorthand") ∧
      JsRecord.at_ field "kind" = some (.str "init") ∧ name ≠ "" ∧
      (values.lookup name).isNone ∧ isNode value "Literal" ∧
      ¬ isTruthy (JsRecord.at_ value "regex") ∧
      ((asString (some literal)).isSome ∨ (asNumber (some literal)).isSome ∨
        (asBoolean (some literal)).isSome ∨ literal = .null) then
    return (name, literal)
  else none

/-- `codeModeInvocation`. -/
def codeModeInvocation (env : RolloutEnv) (input : Option Json) : Option CodexInvocation := do
  let text ← (asString input).filter fun text => jsLength text ≤ 100000
  let program := asRecord (env.parseProgram text)
  let body ← asArray (JsRecord.at_ program "body")
  let statement := asRecord body.head?
  let outer := asRecord (JsRecord.at_ statement "expression")
  let callee := asRecord (JsRecord.at_ outer "callee")
  let args ← asArray (JsRecord.at_ outer "arguments")
  let awaited := asRecord args.head?
  let invocation := asRecord (JsRecord.at_ awaited "argument")
  let member := asRecord (JsRecord.at_ invocation "callee")
  let object := asRecord (JsRecord.at_ member "object")
  let property := asRecord (JsRecord.at_ member "property")
  let tool ← codexTool (JsRecord.at_ property "name")
  let toolArgs ← asArray (JsRecord.at_ invocation "arguments")
  let literal := asRecord toolArgs.head?
  if body.length = 1 ∧ isNode statement "ExpressionStatement" ∧ isNode outer "CallExpression" ∧
      ¬ isTruthy (JsRecord.at_ outer "optional") ∧ isNode callee "Identifier" ∧
      JsRecord.at_ callee "name" = some (.str "text") ∧ args.length = 1 ∧
      isNode awaited "AwaitExpression" ∧ isNode invocation "CallExpression" ∧
      ¬ isTruthy (JsRecord.at_ invocation "optional") ∧ isNode member "MemberExpression" ∧
      ¬ isTruthy (JsRecord.at_ member "computed") ∧ ¬ isTruthy (JsRecord.at_ member "optional") ∧
      isNode object "Identifier" ∧ JsRecord.at_ object "name" = some (.str "tools") ∧
      isNode property "Identifier" ∧ toolArgs.length = 1 ∧ isNode literal "ObjectExpression" then
    let properties := (asArray (JsRecord.at_ literal "properties")).getD []
    let values ← properties.foldlM (fun values raw => do
      let property ← literalProperty values raw
      return values ++ [property]) []
    return { tool, args := values }
  else none

/-! ### Results -/

/-- `CodexExecResult`; numbers are what they are rendered as. -/
structure CodexExecResult where
  output : String
  exitCode : Option String
  sessionId : Option String
  deriving DecidableEq, Repr

/-- The texts of an output. -/
def outputTexts (value : Option Json) : Option (List String) :=
  match asString value with
  | some direct => some [direct]
  | none => do
    let blocks ← asArray value
    if blocks = [] then none
    else blocks.mapM fun raw =>
      let block := asRecord (some raw)
      if isNode block "input_text" ∨ isNode block "text" then asString (JsRecord.at_ block "text")
      else none

/-- A record with an output. -/
def envelope (value : Option Json) : Option JsRecord :=
  (asRecord value).filter fun record => (record.lookup "output").isSome

/-- The envelopes of a text and the lines that are none; none for a line of other JSON. -/
def textEnvelopes (env : RolloutEnv) (text : String) : Option (List JsRecord × List String) :=
  match envelope (env.parseJson text) with
  | some record => some ([record], [])
  | none => (splitChars '\n' text.toList).foldlM (fun (results, prose) line =>
      let line := String.ofList line
      if trim line = [] then some (results, prose)
      else match env.parseJson line with
        | none => some (results, prose ++ [String.ofList (trim line)])
        | some value => (envelope (some value)).map fun record => (results ++ [record], prose)) ([], [])

/-- `Wall time [0-9]+(?:\.[0-9]+)? seconds`. -/
def isWallTime (line : String) : Bool :=
  (("Wall time ".toList.isPrefixOf? line.toList).any fun rest =>
    let whole := rest.takeWhile Char.isDigit
    let rest := rest.dropWhile Char.isDigit
    whole ≠ [] ∧ (rest = " seconds".toList ∨
      (".".toList.isPrefixOf? rest).any fun rest =>
        rest.takeWhile Char.isDigit ≠ [] ∧ rest.dropWhile Char.isDigit = " seconds".toList))

/-- The transport's header. -/
def isTransportHeader : List String → Bool
  | ["Script completed", "Output:"] => true
  | ["Script completed", line, "Output:"] => isWallTime line
  | _ => false

/-- `Number.isInteger`, of a number's rendering. -/
def isInteger (literal : String) : Bool :=
  let digits := match literal.toList with
    | '-' :: digits => digits
    | digits => digits
  digits.all Char.isDigit ∨ (digits.contains '+')

/-- A positive safe integer. -/
def isSessionNumber (literal : String) : Bool :=
  literal.toList.all Char.isDigit ∧
    0 < Nat.ofDigitChars 10 literal.toList 0 ∧
    Nat.ofDigitChars 10 literal.toList 0 ≤ MAX_SAFE_INTEGER

/-- A field that is absent, or a number that passes the check. -/
def optionalNumber (p : String → Bool) : Option Json → Option (Option String)
  | none => some none
  | some (.num literal) => if p literal then some (some literal) else none
  | some _ => none

/-- `codeModeResult`. -/
def codeModeResult (env : RolloutEnv) (value : Option Json) : Option CodexExecResult := do
  let texts ← outputTexts value
  let read ← texts.mapM (textEnvelopes env)
  let prose := read.flatMap Prod.snd
  if prose ≠ [] ∧ ¬ isTransportHeader prose then none
  else match read.flatMap Prod.fst with
    | [result] =>
      let output ← asString (result.lookup "output")
      let exitCode ← optionalNumber isInteger (result.lookup "exit_code")
      let sessionId ← optionalNumber isSessionNumber (result.lookup "session_id")
      if exitCode = none ∧ sessionId = none then none
      else return { output, exitCode, sessionId }
    | _ => none

/-! ### Publications -/

/-- `[ \t]`. -/
def isBlank (c : Char) : Bool := c = ' ' ∨ c = '\t'

/-- Take a word and one or more blanks. -/
def wordAndBlanks (word : String) (text : List Char) : Option (List Char) := do
  let rest ← word.toList.isPrefixOf? text
  if rest.head?.any isBlank then return rest.dropWhile isBlank else none

/-- What follows a read of the Git identity. -/
def afterIdentityRead (text : List Char) : Option (List Char) := do
  let rest ← wordAndBlanks "git" (text.dropWhile isBlank)
  let config := (wordAndBlanks "config" rest).bind fun rest =>
    let rest := (wordAndBlanks "--get" rest).getD rest
    ("user.name".toList.isPrefixOf? rest).or ("user.email".toList.isPrefixOf? rest)
  let var := (wordAndBlanks "var" rest).bind fun rest =>
    ("GIT_AUTHOR_IDENT".toList.isPrefixOf? rest).or ("GIT_COMMITTER_IDENT".toList.isPrefixOf? rest)
  let rest ← config.or var
  let rest := rest.dropWhile isBlank
  let rest ← ("&&".toList.isPrefixOf? rest).or
    ((";".toList.isPrefixOf? rest).or ("\n".toList.isPrefixOf? rest))
  return rest.dropWhile fun c => isBlank c ∨ c = '\r' ∨ c = '\n'

/-- `codeModePublication`: the number of identity reads before the publication, at most two. -/
def codeModePublication (env : RolloutEnv) (command : Option Json) : Option Nat := do
  let command ← asString command
  let text := trim command
  let (rest, reads) := match afterIdentityRead text with
    | none => (text, 0)
    | some rest => match afterIdentityRead rest with
      | none => (rest, 1)
      | some rest => (rest, 2)
  if env.isPRPublicationCommand (String.ofList rest) then some reads else none

/-- `QualifiedSessionPR`. -/
structure QualifiedSessionPR where
  owner : String
  name : String
  number : Nat
  deriving DecidableEq, Repr

/-- A component of a canonical session repository. -/
def isRepositoryComponent (limit : Nat) (text : List Char) : Bool :=
  text ≠ [] ∧ text.length ≤ limit ∧ text.all isSegmentChar

/-- `findQualifiedPRs` of a text that is one URL. -/
def qualifiedPR (url : List Char) : Option QualifiedSessionPR := do
  let rest ← "https://github.com/".toList.isPrefixOf? url
  match splitChars '/' rest with
  | [owner, name, pull, number] =>
    if isRepositoryComponent 39 owner ∧ isRepositoryComponent 100 name ∧ pull = "pull".toList ∧
        number ≠ [] ∧ number.head? ≠ some '0' ∧ number.all Char.isDigit ∧
        Nat.ofDigitChars 10 number 0 ≤ MAX_SAFE_INTEGER then
      return { owner := String.ofList owner, name := String.ofList name
               number := Nat.ofDigitChars 10 number 0 }
    else none
  | _ => none

/-- `line.includes('https://')`. -/
def includesHttps (line : List Char) : Bool :=
  line.tails.any fun rest => "https://".toList.isPrefixOf rest

/-- `codeModePublishedPR`. -/
def codeModePublishedPR (output : String) (identityReads : Nat) : Option QualifiedSessionPR :=
  let lines := splitChars '\n' (trim output)
  if identityReads < lines.dropLast.length ∨ lines.dropLast.any includesHttps then none
  else lines.getLast?.bind qualifiedPR

end AgentLcars
