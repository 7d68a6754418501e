import Mathlib.Data.List.Induction
import Mathlib.Data.Rat.Floor
import Mathlib.Data.Finset.Basic
import Mathlib.Algebra.BigOperators.Group.List.Basic
import Mathlib.Algebra.Order.Ring.Rat
import AgentLcars.Lib.Grouping
import AgentLcars.AnchorProjection
import AgentLcars.CodexPublication
import AgentLcars.RepositoryJobs
import AgentLcars.SessionPages
import AgentLcars.TokenMinutes

/-!
# Spend of sessions

`aggregateSessionSpend` of `apps/console/src/lib/session-spend.ts`: what the selected sessions cost, broken down by
pipeline and model and shared among the pull requests they reference. Amounts of money are rational numbers.

* `sessionPRKeys`: the pull requests of a session that its evidence bears out.
* `aggregateSessionSpend`: the fold over the documents.
* `SpendConserved`: nothing is lost or counted twice; `SameSpend`: the order of the documents does not matter.
-/

namespace AgentLcars

open Grouping Sorting

/-! ### Documents -/

inductive SessionSource where
  | cli
  | issueAgent
deriving DecidableEq

inductive SessionAgent where
  | claudeCode
  | codex
  | gemini
  | antigravity
  | opencode
deriving DecidableEq

def SessionAgent.text : SessionAgent → String
  | .claudeCode => "claude-code"
  | .codex => "codex"
  | .gemini => "gemini"
  | .antigravity => "antigravity"
  | .opencode => "opencode"

structure SessionRepository where
  owner : String
  name : String
deriving DecidableEq

def QualifiedSessionPR.repo (pr : QualifiedSessionPR) : SessionRepository := ⟨pr.owner, pr.name⟩

/-- Hook-observed immutable checkout. -/
structure PublicationCheckout where
  repo : SessionRepository
  githubActor : String
  branch : String
  head : String
  observedAt : String
deriving DecidableEq

structure SessionDeliverables where
  prNumbers : List Nat
  qualifiedPRs : Option (List QualifiedSessionPR)
  publicationCandidates : Option (List QualifiedSessionPR)
  claudeSessionId : Option String
  publicationCheckouts : Option (List PublicationCheckout)

/-- The fields of a session document that its spend is read from. `totalCostUsd` is absent when it is not finite, and
`observedAt` is the `occurredAt` of the observer. -/
structure SpendDoc where
  sessionId : String
  source : SessionSource
  agent : SessionAgent
  githubActor : Option String
  branch : Option String
  repo : Option SessionRepository
  startedAt : String
  lastActivityAt : String
  observedAt : Option String
  turns : Nat
  tokens : TokenUsage
  model : Option String
  resolvedModel : Option String
  totalCostUsd : Option ℚ
  deliverables : SessionDeliverables

/-- Texts compared by what they are mapped to. -/
theorem LocaleOrder.comap {compare : String → String → Int} (h : LocaleOrder compare)
    (f : String → String) :
    LocaleOrder fun a b => compare (f a) (f b) where
  converse _ _ := h.converse _ _
  total _ _ := h.total _ _
  trans _ _ _ := h.trans _ _ _

/-- What the language has and the code uses: `toLowerCase`, `Date.parse` where it is finite, and
`localeCompare`. -/
structure TextHost where
  toLowerCase : String → String
  parseDate : String → Option Int
  localeCompare : String → String → Int

/-! ### Evidence -/

/-- `\w`. -/
def isWordCharacter (c : Char) : Bool := c.isAlphanum || c = '_'

def isCanonicalSessionRepository (repo : SessionRepository) : Bool :=
  isRepositoryComponent 39 repo.owner.toList && isRepositoryComponent 100 repo.name.toList

def isGithubActor (actor : String) : Bool :=
  let isName (name : List Char) : Bool :=
    match name with
    | [] => false
    | first :: rest =>
      first.isAlphanum && decide (rest.length ≤ 38) && rest.all fun c => c.isAlphanum || c = '-'
  let bot := "[bot]".toList
  isName actor.toList ||
    (bot.isSuffixOf actor.toList && isName (actor.toList.take (actor.toList.length - bot.length)))

/-- `YYYY-MM-DDTHH:MM:SS.mmmZ`, each `d` a digit. -/
def hasIsoLayout (text : String) : Bool :=
  let layout := "dddd-dd-ddTdd:dd:dd.dddZ".toList
  decide (text.toList.length = layout.length) &&
    (text.toList.zip layout).all fun p => if p.2 = 'd' then p.1.isDigit else p.1 = p.2

section Evidence

variable (host : TextHost)

def isPublicationCheckout (checkout : PublicationCheckout) : Bool :=
  isCanonicalSessionRepository checkout.repo && isGithubActor checkout.githubActor &&
    decide (0 < jsLength checkout.branch) && decide (jsLength checkout.branch ≤ 1024) &&
    checkout.branch.toList.all (fun c => decide (32 < c.toNat) && decide (c.toNat ≠ 127)) &&
    isHexText 40 checkout.head &&
    hasIsoLayout checkout.observedAt && (host.parseDate checkout.observedAt).isSome

def spendPRKey (repo : SessionRepository) (n : Nat) : String :=
  host.toLowerCase repo.owner ++ "/" ++ host.toLowerCase repo.name ++ "#" ++ toString n

/-- Successful correlated URLs are lookup hints only. They never establish creation. -/
def sessionPRCandidates (doc : SpendDoc) : List QualifiedSessionPR :=
  let refs := doc.deliverables.qualifiedPRs.getD [] ++
    if doc.source = .cli ∧ doc.agent = .claudeCode ∧ truthy doc.githubActor ∧
        (truthy doc.branch || truthy doc.deliverables.claudeSessionId) ∧ doc.repo.isSome then
      doc.deliverables.publicationCandidates.getD []
    else []
  refs.filter fun pr =>
    isCanonicalSessionRepository pr.repo && decide (pr.number ≤ MAX_SAFE_INTEGER) &&
      decide (0 < pr.number)

/-- `^session_[A-Za-z0-9_]{1,124}$`. -/
def isBridge (bridge : String) : Bool :=
  let start := "session_".toList
  let id := bridge.toList.drop start.length
  start.isPrefixOf bridge.toList && decide (1 ≤ id.length ∧ id.length ≤ 124) &&
    id.all isWordCharacter

/-- What a comment has behind its `<!--`, up to `-->` or the end. -/
def commentLength : List Char → Nat
  | [] => 0
  | c :: cs => if "-->".toList.isPrefixOf (c :: cs) then 3 else commentLength cs + 1

/-- Comments are blanked, line by line; `skip` counts what is left of one. -/
def blankComments : Nat → List Char → List Char
  | _, [] => []
  | 0, c :: cs =>
    if "<!--".toList.isPrefixOf (c :: cs) then ' ' :: blankComments (commentLength (cs.drop 3) + 3) cs
    else c :: blankComments 0 cs
  | skip + 1, c :: cs => (if c = '\n' then c else ' ') :: blankComments skip cs

/-- `.` of a regular expression. -/
def isDot (c : Char) : Bool := c ≠ '\n' && c ≠ '\r' && c.toNat ≠ 0x2028 && c.toNat ≠ 0x2029

/-- A line that opens or closes a fence: the character, how often it stands there, and what
follows. -/
def fenceDelimiter (line : List Char) : Option (Char × Nat × List Char) :=
  if 3 < (line.takeWhile (· = ' ')).length then none
  else
    match line.dropWhile (· = ' ') with
    | [] => none
    | c :: cs =>
      let run := (c :: cs).takeWhile (· = c)
      let rest := (c :: cs).dropWhile (· = c)
      if (c = Char.ofNat 0x60 ∨ c = '~') ∧ 3 ≤ run.length ∧ rest.all isDot = true
        then some (c, run.length, rest)
      else none

/-- The session that a line links to. The label may be missing where there is a bridge. -/
def sessionLink (labelled : Bool) (line : List Char) : Option String :=
  let label := "Claude-Session:".toList
  let address := "https://claude.ai/code/".toList
  let start := "session_".toList
  let target :=
    if label.isPrefixOf line then some ((line.drop label.length).dropWhile isBlank)
    else if labelled then none else some line
  target.bind fun target =>
    let id := target.drop address.length
    let name := (id.drop start.length).takeWhile fun c => isWordCharacter c || c = '-'
    let rest := ((id.drop start.length).dropWhile fun c => isWordCharacter c ||
      c = '-').dropWhile isBlank
    if address.isPrefixOf target ∧ start.isPrefixOf id ∧ name ≠ [] ∧
      (rest = [] ∨ rest = ['\r']) then
      some (String.ofList (start ++ name))
    else none

/-- The links of a pull request's body, outside comments and fenced examples. -/
def sessionLinks (labelled : Bool) (body : String) : List String :=
  let scan := fun (state : Option (Char × Nat) × List String) (line : List Char) =>
    match fenceDelimiter line with
    | some (character, length, rest) =>
      match state.1 with
      | none => (some (character, length), state.2)
      | some open_ =>
        if character = open_.1 ∧ open_.2 ≤ length ∧ trim (String.ofList rest) = []
          then (none, state.2) else state
    | none =>
      if state.1.isSome then state
      else (none, state.2 ++ (sessionLink labelled line).toList)
  (((blankComments 0 body.toList).splitOn '\n').foldl scan (none, [])).2

/-- The facts of GitHub and of the hooks name the session as the one that created the pull
request. -/
def createdBy (doc : SpendDoc) (key : String) (record : GithubAnchorProjection) : Bool :=
  match doc.githubActor, doc.repo with
  | some actor, some repo =>
    let bridge := doc.deliverables.claudeSessionId
    let lower := fun text : Option String => text.map host.toLowerCase
    decide (doc.source = .cli) && decide (actor ≠ "") && bridge.all isBridge &&
      decide (record.kind = .pr) &&
      decide (host.toLowerCase record.anchor.repo ++ "#" ++ toString record.anchor.issue = key) &&
      decide (lower record.author = some (host.toLowerCase actor)) &&
      decide (lower record.headRepository = some (host.toLowerCase (repo.owner ++ "/" ++ repo.name))) &&
      (match host.parseDate doc.startedAt, host.parseDate doc.lastActivityAt,
          host.parseDate (record.createdAt.getD "") with
        | some start, some stop, some created =>
          decide (start ≤ stop ∧ start ≤ created ∧ created ≤ stop) &&
            (if bridge.isSome then
              match host.parseDate (doc.observedAt.getD "") with
              | some observed =>
                truthy record.headSha &&
                  (doc.deliverables.publicationCheckouts.getD []).any fun checkout =>
                    isPublicationCheckout host checkout &&
                      decide (host.toLowerCase checkout.githubActor = host.toLowerCase actor) &&
                      decide (some (host.toLowerCase (checkout.repo.owner ++ "/" ++ checkout.repo.name)) =
                        lower record.headRepository) &&
                      decide (some checkout.branch = record.headRefName) &&
                      decide (some checkout.head = record.headSha) &&
                      (host.parseDate checkout.observedAt).any fun at_ =>
                        decide (created ≤ at_ ∧ start ≤ at_ ∧ at_ ≤ observed)
              | none => false
            else truthy doc.branch && decide (record.headRefName = doc.branch))
        | _, _, _ => false) &&
      let links := sessionLinks bridge.isNone record.body
      decide (doc.agent = .claudeCode) && !links.isEmpty && links.all fun id =>
        id = bridge.getD doc.sessionId
  | _, _ => false

/-- The existing literal-publication boundary is unchanged; missing facts fail closed. -/
def sessionPRReferences (doc : SpendDoc) (projections : String → Option GithubAnchorProjection) :
    List QualifiedSessionPR :=
  let literal :=
    ((doc.deliverables.qualifiedPRs.getD []).filter fun pr => isCanonicalSessionRepository pr.repo).map
    fun pr => spendPRKey host pr.repo pr.number
  (sessionPRCandidates doc).filter fun pr =>
    let key := spendPRKey host pr.repo pr.number
    decide (key ∈ literal) || (projections key).any (createdBy host doc key)

def sessionPRKeys (doc : SpendDoc) (projections : String → Option GithubAnchorProjection) :
    List String :=
  ((sessionPRReferences host doc projections).map fun pr => spendPRKey host pr.repo pr.number).eraseDups

def unqualifiedReferences (doc : SpendDoc) (projections : String → Option GithubAnchorProjection) :
    Nat :=
  let qualifiedNumbers := (sessionPRReferences host doc projections).map QualifiedSessionPR.number
  (doc.deliverables.prNumbers.eraseDups.filter fun n => n ∉ qualifiedNumbers).length

end Evidence

/-! ### Costs -/

structure ModelRates where
  inputPerMillion : ℚ
  cacheWritePerMillion : ℚ
  cacheReadPerMillion : ℚ
  outputPerMillion : ℚ

def MODEL_RATES : List (String × ModelRates) :=
  [("claude-fable-5", ⟨10, 12.5, 1, 50⟩), ("claude-mythos-5", ⟨10, 12.5, 1, 50⟩),
    ("claude-opus-5", ⟨5, 6.25, 0.5, 25⟩), ("claude-opus-4-8", ⟨5, 6.25, 0.5, 25⟩),
    ("claude-opus-4-7", ⟨5, 6.25, 0.5, 25⟩), ("claude-opus-4-6", ⟨5, 6.25, 0.5, 25⟩),
    ("claude-opus-4-5", ⟨5, 6.25, 0.5, 25⟩), ("claude-opus-4-1", ⟨15, 18.75, 1.5, 75⟩),
    ("claude-sonnet-5", ⟨2, 2.5, 0.2, 10⟩), ("claude-sonnet-4-6", ⟨3, 3.75, 0.3, 15⟩),
    ("claude-sonnet-4-5", ⟨3, 3.75, 0.3, 15⟩), ("claude-haiku-4-5", ⟨1, 1.25, 0.1, 5⟩)]

/-- Longest-prefix match of the model against the table. -/
def resolveModelRates (model : String) : Option ModelRates :=
  (MODEL_RATES.foldl (fun best entry =>
    let better := match best with
      | none => true
      | some (known, _) => decide (jsLength known < jsLength entry.1)
    if better && entry.1.toList.isPrefixOf model.toList then some entry
      else best) none).map Prod.snd

def estimateCostUsd (model : Option String) (tokens : TokenUsage) : Option ℚ :=
  (model.filter (· ≠ "")).bind fun model => (resolveModelRates model).map fun rates =>
    (tokens.inputTokens * rates.inputPerMillion + tokens.outputTokens * rates.outputPerMillion +
      tokens.cacheCreationTokens * rates.cacheWritePerMillion +
      tokens.cacheReadTokens * rates.cacheReadPerMillion) / 1000000

structure SessionCost where
  costUsd : Option ℚ
  estimated : Bool

/-- A session's cost: the recorded one, floored at zero, or else an estimate. -/
def docCost (doc : SpendDoc) : SessionCost :=
  match doc.totalCostUsd with
  | some recorded => ⟨some (max 0 recorded), false⟩
  | none => ⟨estimateCostUsd (doc.resolvedModel.or doc.model) doc.tokens, true⟩

@[ext] structure SpendTotals where
  sessions : Nat
  turns : Nat
  tokens : Nat
  costUsd : Option ℚ
  costEstimated : Bool
  reportedCostUsd : ℚ
  estimatedCostUsd : ℚ
  unpricedSessions : Nat
  unqualifiedPRReferences : Nat
deriving DecidableEq

def emptyTotals : SpendTotals := ⟨0, 0, 0, none, false, 0, 0, 0, 0⟩

structure SpendBreakdown where
  key : String
  totals : SpendTotals
  mergedPRs : Nat
  unknownPRs : Nat
  costPerMergedDeliverableUsd : Option ℚ
deriving DecidableEq

inductive DeliverableStatus where
  | merged
  | unmerged
  | unknown
deriving DecidableEq

@[ext] structure SpendDeliverable where
  key : String
  url : String
  status : DeliverableStatus
  mergedAt : Option String
  reportedCostUsd : ℚ
  estimatedCostUsd : ℚ
  unpricedShares : ℚ
  sessions : Nat
deriving DecidableEq

structure SessionSpend where
  totals : SpendTotals
  withoutPR : SpendTotals
  coverageLimited : Bool
  byPipeline : List SpendBreakdown
  byRequestedModel : List SpendBreakdown
  byResolvedModel : List SpendBreakdown
  deliverables : List SpendDeliverable
  mergedPRs : Nat
  unknownPRs : Nat
  unmergedPRs : Nat
  costPerMergedDeliverableUsd : Option ℚ
deriving DecidableEq

inductive SpendPipelineGrouping where
  | adapter
  | lifecycle
deriving DecidableEq

def pipelineKey (doc : SpendDoc) (grouping : SpendPipelineGrouping) : String :=
  match doc.agent with
  | .claudeCode => "claude"
  | .antigravity => "agy"
  | .codex => "codex"
  | .opencode => "opencode"
  | agent =>
    match grouping with
    | .lifecycle => "unknown"
    | .adapter => "other: " ++ agent.text

structure SpendBucket where
  totals : SpendTotals
  prs : Finset String

def emptyBucket : SpendBucket := ⟨emptyTotals, ∅⟩

section Aggregate

variable (host : TextHost) (projections : String → Option GithubAnchorProjection)

def addSession (totals : SpendTotals) (doc : SpendDoc) : SpendTotals :=
  let totals := { totals with
    sessions := totals.sessions + 1
    unqualifiedPRReferences :=
      totals.unqualifiedPRReferences + unqualifiedReferences host doc projections
    turns := totals.turns + doc.turns
    tokens := totals.tokens + totalTokens doc.tokens }
  match (docCost doc).costUsd with
  | none => { totals with unpricedSessions := totals.unpricedSessions + 1 }
  | some cost =>
    let totals := { totals with costUsd := some (totals.costUsd.getD 0 + cost) }
    if (docCost doc).estimated then
      { totals with estimatedCostUsd := totals.estimatedCostUsd + cost, costEstimated := true }
    else { totals with reportedCostUsd := totals.reportedCostUsd + cost }

def addToBucket (bucket : SpendBucket) (doc : SpendDoc) : SpendBucket where
  totals := addSession host projections bucket.totals doc
  prs := bucket.prs ∪ (sessionPRKeys host doc projections).toFinset

/-- What the projection under a key says of the pull request. -/
def deliverableStatus (key : String) : DeliverableStatus :=
  match projections key with
  | none => .unknown
  | some projection =>
    if host.toLowerCase projection.anchor.repo ++ "#" ++ toString projection.anchor.issue = key ∧
        projection.kind = .pr then
      match projection.mergedAt with
      | none => .unknown
      | some none => .unmerged
      | some (some mergedAt) =>
        if projection.state = .closed ∧ (host.parseDate mergedAt).isSome then .merged else .unknown
    else .unknown

/-- The row of a deliverable, before any share. -/
def emptyDeliverable (key : String) : SpendDeliverable :=
  let parts := key.toList.splitOn '#'
  { key, status := deliverableStatus host projections key
    url := "https://github.com/" ++ String.ofList (parts[0]?.getD "undefined".toList) ++ "/pull/" ++
      String.ofList (parts[1]?.getD "undefined".toList)
    mergedAt := if deliverableStatus host projections key = .merged then
      ((projections key).bind GithubAnchorProjection.mergedAt).join.filter (· ≠ "") else none
    reportedCostUsd := 0, estimatedCostUsd := 0, unpricedShares := 0, sessions := 0 }

/-- A session's share of each of the pull requests that it references. -/
structure SpendShare where
  cost : SessionCost
  among : Nat

def addShare (row : SpendDeliverable) (share : SpendShare) : SpendDeliverable :=
  let row := { row with sessions := row.sessions + 1 }
  match share.cost.costUsd with
  | none => { row with unpricedShares := row.unpricedShares + 1 / share.among }
  | some cost =>
    if share.cost.estimated
      then { row with estimatedCostUsd := row.estimatedCostUsd + cost / share.among }
    else { row with reportedCostUsd := row.reportedCostUsd + cost / share.among }

structure SpendState where
  totals : SpendTotals
  withoutPR : SpendTotals
  byPipeline : OrderedMap String SpendBucket
  byRequestedModel : OrderedMap String SpendBucket
  byResolvedModel : OrderedMap String SpendBucket
  deliverables : OrderedMap String SpendDeliverable

def emptySpend : SpendState := ⟨emptyTotals, emptyTotals, .empty, .empty, .empty, .empty⟩

/-- A map of the loop with one item more. -/
def bucketWith (map : OrderedMap String SpendBucket) (key : String) (doc : SpendDoc) :
    OrderedMap String SpendBucket :=
  map.set key (addToBucket host projections ((map.get key).getD emptyBucket) doc)

def shareWith (map : OrderedMap String SpendDeliverable) (key : String) (share : SpendShare) :
    OrderedMap String SpendDeliverable :=
  map.set key (addShare ((map.get key).getD (emptyDeliverable host projections key)) share)

/-- One document of the loop. -/
def spendStep (grouping : SpendPipelineGrouping) (state : SpendState) (doc : SpendDoc) :
    SpendState :=
  let keys := sessionPRKeys host doc projections
  { totals := addSession host projections state.totals doc
    withoutPR := if keys = [] then addSession host projections state.withoutPR doc
      else state.withoutPR
    byPipeline := bucketWith host projections state.byPipeline (pipelineKey doc grouping) doc
    byRequestedModel :=
      bucketWith host projections state.byRequestedModel (doc.model.getD "unknown") doc
    byResolvedModel :=
      bucketWith host projections state.byResolvedModel (doc.resolvedModel.getD "unknown") doc
    deliverables :=
      keys.foldl (fun map key => shareWith host projections map key ⟨docCost doc, keys.length⟩)
      state.deliverables }

/-- `b` does not come before `a`: by cost, the most expensive first, and then by key. -/
def breakdownOrder (a b : SpendBreakdown) : Bool :=
  let costA := a.totals.costUsd.getD (-1)
  let costB := b.totals.costUsd.getD (-1)
  decide (costB < costA) || (decide (costB = costA) && decide (host.localeCompare a.key b.key ≤ 0))

def deliverableOrder (a b : SpendDeliverable) : Bool := decide (host.localeCompare a.key b.key ≤ 0)

def spendBreakdown (deliverables : OrderedMap String SpendDeliverable)
    (entry : String × SpendBucket) :
    SpendBreakdown :=
  let count := fun status => (entry.2.prs.filter fun pr =>
    (deliverables.get pr).map SpendDeliverable.status = some status).card
  { key := entry.1, totals := entry.2.totals, mergedPRs := count .merged,
    unknownPRs := count .unknown
    costPerMergedDeliverableUsd := if 0 < count .merged then
      entry.2.totals.costUsd.map (· / count .merged) else none }

def spendRows (deliverables : OrderedMap String SpendDeliverable)
    (map : OrderedMap String SpendBucket) :
    List SpendBreakdown :=
  (map.entries.map (spendBreakdown deliverables)).mergeSort (breakdownOrder host)

/-- What is made of the maps after the loop. -/
def SpendState.spend (state : SpendState) (coverageLimited : Bool) : SessionSpend :=
  let prRows := state.deliverables.values.mergeSort (deliverableOrder host)
  let count := fun status => prRows.countP fun row => decide (row.status = status)
  { totals := state.totals
    withoutPR := state.withoutPR
    coverageLimited
    byPipeline := spendRows host state.deliverables state.byPipeline
    byRequestedModel := spendRows host state.deliverables state.byRequestedModel
    byResolvedModel := spendRows host state.deliverables state.byResolvedModel
    deliverables := prRows
    mergedPRs := count .merged
    unknownPRs := count .unknown
    unmergedPRs := count .unmerged
    costPerMergedDeliverableUsd := if 0 < count .merged
      then state.totals.costUsd.map (· / count .merged) else none }

/-- Whole cumulative spend of the caller's selected documents. -/
def aggregateSessionSpend (docs : List SpendDoc) (coverageLimited : Bool)
    (grouping : SpendPipelineGrouping) :
    SessionSpend :=
  (docs.foldl (spendStep host projections grouping) emptySpend).spend host coverageLimited

end Aggregate

/-! ### Totals add up -/

/-- A cost that may be absent. -/
def addCost : Option ℚ → Option ℚ → Option ℚ
  | none, cost => cost
  | cost, none => cost
  | some a, some b => some (a + b)

instance : Zero SpendTotals := ⟨emptyTotals⟩

instance : Add SpendTotals where
  add a b :=
    { sessions := a.sessions + b.sessions
      turns := a.turns + b.turns
      tokens := a.tokens + b.tokens
      costUsd := addCost a.costUsd b.costUsd
      costEstimated := a.costEstimated || b.costEstimated
      reportedCostUsd := a.reportedCostUsd + b.reportedCostUsd
      estimatedCostUsd := a.estimatedCostUsd + b.estimatedCostUsd
      unpricedSessions := a.unpricedSessions + b.unpricedSessions
      unqualifiedPRReferences := a.unqualifiedPRReferences + b.unqualifiedPRReferences }

theorem addCost_none (cost : Option ℚ) : addCost cost none = cost := by
  cases cost with
  | none => rfl
  | some c => rfl

theorem addCost_comm (a b : Option ℚ) : addCost a b = addCost b a := by
  cases a with
  | none => exact (addCost_none b).symm
  | some a =>
    cases b with
    | none => rfl
    | some b => exact congrArg some (add_comm a b)

theorem addCost_assoc (a b c : Option ℚ) : addCost (addCost a b) c = addCost a (addCost b c) := by
  cases a with
  | none => rfl
  | some a =>
    cases b with
    | none => rfl
    | some b =>
      cases c with
      | none => rfl
      | some c => exact congrArg some (add_assoc a b c)

instance : AddCommMonoid SpendTotals where
  add_assoc a b c := by
    ext1
    · exact Nat.add_assoc _ _ _
    · exact Nat.add_assoc _ _ _
    · exact Nat.add_assoc _ _ _
    · exact addCost_assoc _ _ _
    · exact Bool.or_assoc _ _ _
    · exact add_assoc _ _ _
    · exact add_assoc _ _ _
    · exact Nat.add_assoc _ _ _
    · exact Nat.add_assoc _ _ _
  zero_add a := by
    ext1
    · exact Nat.zero_add _
    · exact Nat.zero_add _
    · exact Nat.zero_add _
    · rfl
    · rfl
    · exact zero_add _
    · exact zero_add _
    · exact Nat.zero_add _
    · exact Nat.zero_add _
  add_zero a := by
    ext1
    · rfl
    · rfl
    · rfl
    · exact addCost_none _
    · exact Bool.or_false _
    · exact add_zero _
    · exact add_zero _
    · rfl
    · rfl
  add_comm a b := by
    ext1
    · exact Nat.add_comm _ _
    · exact Nat.add_comm _ _
    · exact Nat.add_comm _ _
    · exact addCost_comm _ _
    · exact Bool.or_comm _ _
    · exact add_comm _ _
    · exact add_comm _ _
    · exact Nat.add_comm _ _
    · exact Nat.add_comm _ _
  nsmul := nsmulRec

section Totals

variable {host : TextHost} {projections : String → Option GithubAnchorProjection}

/-- What one session adds. -/
def sessionTotals (host : TextHost) (projections : String → Option GithubAnchorProjection)
    (doc : SpendDoc) :
    SpendTotals :=
  addSession host projections 0 doc

theorem addSession_eq (totals : SpendTotals) (doc : SpendDoc) :
    addSession host projections totals doc = totals + sessionTotals host projections doc := by
  unfold sessionTotals addSession
  cases (docCost doc).costUsd with
  | none =>
    ext1
    · exact congrArg (totals.sessions + ·) (Nat.zero_add 1).symm
    · exact congrArg (totals.turns + ·) (Nat.zero_add _).symm
    · exact congrArg (totals.tokens + ·) (Nat.zero_add _).symm
    · exact (addCost_none _).symm
    · exact (Bool.or_false _).symm
    · exact (add_zero _).symm
    · exact (add_zero _).symm
    · exact congrArg (totals.unpricedSessions + ·) (Nat.zero_add _).symm
    · exact congrArg (totals.unqualifiedPRReferences + ·) (Nat.zero_add _).symm
  | some cost =>
    have hcost : some (totals.costUsd.getD 0 + cost) = addCost totals.costUsd (some (0 + cost)) := by
      cases totals.costUsd with
      | none => rfl
      | some c => exact congrArg (fun cost => some (c + cost)) (zero_add cost).symm
    cases (docCost doc).estimated with
    | true =>
      ext1
      · exact congrArg (totals.sessions + ·) (Nat.zero_add 1).symm
      · exact congrArg (totals.turns + ·) (Nat.zero_add _).symm
      · exact congrArg (totals.tokens + ·) (Nat.zero_add _).symm
      · exact hcost
      · exact (Bool.or_true _).symm
      · exact (add_zero _).symm
      · exact congrArg (totals.estimatedCostUsd + ·) (zero_add _).symm
      · rfl
      · exact congrArg (totals.unqualifiedPRReferences + ·) (Nat.zero_add _).symm
    | false =>
      ext1
      · exact congrArg (totals.sessions + ·) (Nat.zero_add 1).symm
      · exact congrArg (totals.turns + ·) (Nat.zero_add _).symm
      · exact congrArg (totals.tokens + ·) (Nat.zero_add _).symm
      · exact hcost
      · exact (Bool.or_false _).symm
      · exact congrArg (totals.reportedCostUsd + ·) (zero_add _).symm
      · exact (add_zero _).symm
      · rfl
      · exact congrArg (totals.unqualifiedPRReferences + ·) (Nat.zero_add _).symm

/-! ### The loop -/

/-- Everything the documents share among deliverables. -/
def sharesOf (host : TextHost) (projections : String → Option GithubAnchorProjection)
    (docs : List SpendDoc) :
    List (String × SpendShare) :=
  docs.flatMap fun doc => (sessionPRKeys host doc projections).map fun key =>
    (key, ⟨docCost doc, (sessionPRKeys host doc projections).length⟩)

/-- The bucket of each key of a dimension. -/
def bucketsBy (host : TextHost) (projections : String → Option GithubAnchorProjection)
    (dimension : SpendDoc → String)
    (docs : List SpendDoc) : OrderedMap String SpendBucket :=
  collect (fun _ => emptyBucket) (addToBucket host projections) (docs.map fun doc => (dimension doc, doc))

/-- The row of each deliverable. -/
def deliverablesOf (host : TextHost) (projections : String → Option GithubAnchorProjection)
    (docs : List SpendDoc) :
    OrderedMap String SpendDeliverable :=
  collect (emptyDeliverable host projections) addShare (sharesOf host projections docs)

theorem bucketsBy_concat (dimension : SpendDoc → String) (docs : List SpendDoc) (doc : SpendDoc) :
    bucketsBy host projections dimension (docs ++ [doc]) =
      bucketWith host projections (bucketsBy host projections dimension docs)
      (dimension doc) doc := by
  unfold bucketsBy collect
  rw [List.map_append, collectInto_append]
  rfl

theorem deliverablesOf_concat (docs : List SpendDoc) (doc : SpendDoc) :
    deliverablesOf host projections (docs ++ [doc]) =
      (sessionPRKeys host doc projections).foldl
        (fun map key => shareWith host projections map key ⟨docCost doc, (sessionPRKeys host doc projections).length⟩)
        (deliverablesOf host projections docs) := by
  unfold deliverablesOf sharesOf collect
  rw [List.flatMap_append, collectInto_append, List.flatMap_singleton]
  unfold collectInto
  rw [List.foldl_map]
  rfl

/-- The state after the loop, fold by fold. -/
theorem spendState_eq (grouping : SpendPipelineGrouping) (docs : List SpendDoc) :
    docs.foldl (spendStep host projections grouping) emptySpend =
      { totals := (docs.map (sessionTotals host projections)).sum
        withoutPR := ((docs.filter fun doc => sessionPRKeys host doc projections = []).map
          (sessionTotals host projections)).sum
        byPipeline := bucketsBy host projections (pipelineKey · grouping) docs
        byRequestedModel := bucketsBy host projections (·.model.getD "unknown") docs
        byResolvedModel := bucketsBy host projections (·.resolvedModel.getD "unknown") docs
        deliverables := deliverablesOf host projections docs } := by
  induction docs using List.reverseRecOn with
  | nil => rfl
  | append_singleton docs doc ih =>
    rw [List.foldl_append, ih, bucketsBy_concat, bucketsBy_concat, bucketsBy_concat,
      deliverablesOf_concat,
      List.map_append, List.sum_append, List.filter_append, List.map_append, List.sum_append]
    show spendStep host projections grouping _ doc = _
    unfold spendStep
    have hone : ([doc].map (sessionTotals host projections)).sum = sessionTotals host projections doc := add_zero _
    rw [addSession_eq, addSession_eq, hone]
    have hfilter : ([doc].filter fun doc => decide (sessionPRKeys host doc projections = [])) =
        if sessionPRKeys host doc projections = [] then [doc] else [] := by
      rw [List.filter_cons, List.filter_nil]
      simp only [decide_eq_true_eq]
    rw [hfilter]
    dsimp only
    by_cases hkeys : sessionPRKeys host doc projections = []
    · rw [if_pos hkeys, if_pos hkeys, hone]
    · rw [if_neg hkeys, if_neg hkeys]
      simp only [List.map_nil, List.sum_nil, add_zero]

/-! ### Conservation -/

/-- The rows of a breakdown add up to the totals. -/
theorem sum_spendRows (deliverables : OrderedMap String SpendDeliverable)
    (dimension : SpendDoc → String)
    (docs : List SpendDoc) :
    ((spendRows host deliverables (bucketsBy host projections dimension docs)).map SpendBreakdown.totals).sum =
      (docs.map (sessionTotals host projections)).sum := by
  have hperm := (List.mergeSort_perm ((bucketsBy host projections dimension docs).entries.map
    (spendBreakdown deliverables)) (breakdownOrder host)).map SpendBreakdown.totals
  have hvalues : (((bucketsBy host projections dimension docs).entries.map (spendBreakdown deliverables)).map
      SpendBreakdown.totals) =
      (bucketsBy host projections dimension docs).values.map SpendBucket.totals := by
    unfold OrderedMap.values
    rw [List.map_map, List.map_map]
    rfl
  have hsum := @sum_collect String SpendDoc SpendBucket _ (fun _ => emptyBucket) (addToBucket host projections)
    SpendTotals _ SpendBucket.totals (sessionTotals host projections) (fun _ => rfl)
    (fun bucket doc => addSession_eq bucket.totals doc) (docs.map fun doc => (dimension doc, doc))
  unfold spendRows
  rw [hperm.sum_eq, hvalues]
  unfold bucketsBy
  rw [hsum, List.map_map]
  rfl

/-- The three amounts that are shared among deliverables. -/
def SpendTotals.amounts (totals : SpendTotals) : ℚ × ℚ × ℚ :=
  (totals.reportedCostUsd, totals.estimatedCostUsd, (totals.unpricedSessions : ℚ))

def SpendDeliverable.amounts (row : SpendDeliverable) : ℚ × ℚ × ℚ :=
  (row.reportedCostUsd, row.estimatedCostUsd, row.unpricedShares)

/-- A share of the amounts of one session. -/
def SpendShare.amounts (share : SpendShare) : ℚ × ℚ × ℚ :=
  match share.cost.costUsd with
  | none => (0, 0, 1 / share.among)
  | some cost =>
    if share.cost.estimated then (0, cost / share.among, 0) else (cost / share.among, 0, 0)

theorem SpendTotals.amounts_add (a b : SpendTotals) : (a + b).amounts = a.amounts + b.amounts := by
  refine Prod.ext rfl (Prod.ext rfl ?_)
  exact Nat.cast_add _ _

theorem addShare_amounts (row : SpendDeliverable) (share : SpendShare) :
    (addShare row share).amounts = row.amounts + share.amounts := by
  unfold addShare SpendShare.amounts
  cases share.cost.costUsd with
  | none => exact Prod.ext (add_zero _).symm (Prod.ext (add_zero _).symm rfl)
  | some cost =>
    cases share.cost.estimated with
    | true => exact Prod.ext (add_zero _).symm (Prod.ext rfl (add_zero _).symm)
    | false => exact Prod.ext rfl (Prod.ext (add_zero _).symm (add_zero _).symm)

/-- The equal shares of a session make up the session. -/
theorem shares_amounts (doc : SpendDoc) {n : Nat} (hn : n ≠ 0) :
    n • (SpendShare.mk (docCost doc) n).amounts = (sessionTotals host projections doc).amounts := by
  have hcast : (n : ℚ) ≠ 0 := Nat.cast_ne_zero.2 hn
  have hwhole : ∀ x : ℚ, n • (x / n) = x := by
    intro x
    rw [nsmul_eq_mul, mul_div_cancel₀ x hcast]
  unfold SpendShare.amounts sessionTotals addSession
  dsimp only
  cases (docCost doc).costUsd with
  | none =>
    refine Prod.ext (nsmul_zero _) (Prod.ext (nsmul_zero _) ?_)
    exact (hwhole 1).trans Nat.cast_one.symm
  | some cost =>
    cases (docCost doc).estimated with
    | true =>
      refine Prod.ext (nsmul_zero _) (Prod.ext ?_ (nsmul_zero _))
      exact (hwhole cost).trans (zero_add cost).symm
    | false =>
      refine Prod.ext ?_ (Prod.ext (nsmul_zero _) (nsmul_zero _))
      exact (hwhole cost).trans (zero_add cost).symm

theorem sum_amounts (all : List SpendTotals) :
    all.sum.amounts = (all.map SpendTotals.amounts).sum := by
  induction all with
  | nil => rfl
  | cons first rest ih =>
    rw [List.sum_cons, SpendTotals.amounts_add, ih, List.map_cons, List.sum_cons]

/-- The shares of all sessions, with the sessions that reference nothing, are all sessions. -/
theorem sum_shares (docs : List SpendDoc) :
    ((sharesOf host projections docs).map fun item => item.2.amounts).sum +
        ((docs.filter fun doc => sessionPRKeys host doc projections = []).map
          fun doc => (sessionTotals host projections doc).amounts).sum =
      (docs.map fun doc => (sessionTotals host projections doc).amounts).sum := by
  induction docs with
  | nil => exact add_zero (0 : ℚ × ℚ × ℚ)
  | cons doc rest ih =>
    have hshares : (sharesOf host projections (doc :: rest)).map (fun item => item.2.amounts) =
        List.replicate (sessionPRKeys host doc projections).length
          (SpendShare.mk (docCost doc) (sessionPRKeys host doc projections).length).amounts ++
          (sharesOf host projections rest).map fun item => item.2.amounts := by
      unfold sharesOf
      rw [List.flatMap_cons, List.map_append, List.map_map, ← List.map_const']
      rfl
    rw [hshares, List.sum_append, List.sum_replicate, List.map_cons, List.sum_cons, ← ih,
      List.filter_cons]
    by_cases hkeys : sessionPRKeys host doc projections = []
    · rw [if_pos (decide_eq_true hkeys), hkeys, List.length_nil, zero_nsmul, zero_add,
        List.map_cons, List.sum_cons]
      exact add_left_comm _ _ _
    · have hne : (sessionPRKeys host doc projections).length ≠ 0 := fun h =>
        hkeys (List.length_eq_zero_iff.1 h)
      rw [if_neg (by rw [decide_eq_false hkeys]; exact Bool.false_ne_true), shares_amounts doc hne]
      exact add_assoc _ _ _

theorem sum_deliverables (docs : List SpendDoc) :
    ((deliverablesOf host projections docs).values.map SpendDeliverable.amounts).sum =
      ((sharesOf host projections docs).map fun item => item.2.amounts).sum := by
  have hstart : ∀ key, (emptyDeliverable host projections key).amounts = 0 := fun _ => rfl
  unfold deliverablesOf
  exact sum_collect hstart addShare_amounts (sharesOf host projections docs)

/-! ### Unpriced sessions -/

/-- A cost is absent exactly when all sessions are unpriced, and otherwise it is what was reported
and estimated. -/
structure SpendTotals.Priced (totals : SpendTotals) : Prop where
  some_unpriced : totals.unpricedSessions ≤ totals.sessions
  absent : totals.costUsd = none ↔ totals.unpricedSessions = totals.sessions
  nothing : totals.costUsd = none → totals.reportedCostUsd = 0 ∧ totals.estimatedCostUsd = 0
  exact_ : ∀ cost, totals.costUsd = some cost →
    cost = totals.reportedCostUsd + totals.estimatedCostUsd

theorem SpendTotals.priced_zero : (0 : SpendTotals).Priced where
  some_unpriced := Nat.le_refl _
  absent := ⟨fun _ => rfl, fun _ => rfl⟩
  nothing _ := ⟨rfl, rfl⟩
  exact_ _ h := nomatch h

theorem addCost_eq_none {a b : Option ℚ} : addCost a b = none ↔ a = none ∧ b = none := by
  cases a with
  | none => exact ⟨fun h => ⟨rfl, h⟩, fun h => h.2⟩
  | some a =>
    cases b with
    | none => exact ⟨fun h => (nomatch h), fun h => (nomatch h.1)⟩
    | some b => exact ⟨fun h => (nomatch h), fun h => (nomatch h.1)⟩

theorem SpendTotals.Priced.add {a b : SpendTotals} (ha : a.Priced) (hb : b.Priced) :
    (a + b).Priced where
  some_unpriced := Nat.add_le_add ha.some_unpriced hb.some_unpriced
  absent := by
    show addCost a.costUsd b.costUsd = none ↔
      a.unpricedSessions + b.unpricedSessions = a.sessions + b.sessions
    rw [addCost_eq_none, ha.absent, hb.absent]
    have hle := ha.some_unpriced
    have hle' := hb.some_unpriced
    omega
  nothing h := by
    obtain ⟨hnone, hnone'⟩ := addCost_eq_none.1 h
    obtain ⟨hreported, hestimated⟩ := ha.nothing hnone
    obtain ⟨hreported', hestimated'⟩ := hb.nothing hnone'
    constructor
    · show a.reportedCostUsd + b.reportedCostUsd = 0
      rw [hreported, hreported', add_zero]
    · show a.estimatedCostUsd + b.estimatedCostUsd = 0
      rw [hestimated, hestimated', add_zero]
  exact_ cost h := by
    show cost = a.reportedCostUsd + b.reportedCostUsd + (a.estimatedCostUsd + b.estimatedCostUsd)
    have hcost : addCost a.costUsd b.costUsd = some cost := h
    cases hca : a.costUsd with
    | none =>
      rw [hca] at hcost
      obtain ⟨hreported, hestimated⟩ := ha.nothing hca
      rw [hreported, hestimated, zero_add, zero_add]
      exact hb.exact_ cost hcost
    | some ca =>
      cases hcb : b.costUsd with
      | none =>
        rw [hca, hcb] at hcost
        obtain ⟨hreported, hestimated⟩ := hb.nothing hcb
        rw [hreported, hestimated, add_zero, add_zero, ← Option.some.inj hcost]
        exact ha.exact_ ca hca
      | some cb =>
        rw [hca, hcb] at hcost
        rw [← Option.some.inj hcost, ha.exact_ ca hca, hb.exact_ cb hcb]
        exact add_add_add_comm _ _ _ _

theorem sessionTotals_costUsd (doc : SpendDoc) :
    (sessionTotals host projections doc).costUsd = none ↔ (docCost doc).costUsd = none := by
  unfold sessionTotals addSession
  cases (docCost doc).costUsd with
  | none => exact ⟨fun _ => rfl, fun _ => rfl⟩
  | some cost =>
    cases (docCost doc).estimated with
    | true => exact ⟨fun h => (nomatch h), fun h => (nomatch h)⟩
    | false => exact ⟨fun h => (nomatch h), fun h => (nomatch h)⟩

theorem sessionTotals_priced (doc : SpendDoc) : (sessionTotals host projections doc).Priced := by
  unfold sessionTotals addSession
  cases (docCost doc).costUsd with
  | none =>
    exact ⟨Nat.le_refl _, ⟨fun _ => rfl, fun _ => rfl⟩, fun _ => ⟨rfl, rfl⟩, fun _ h => (nomatch h)⟩
  | some cost =>
    cases (docCost doc).estimated with
    | true =>
      refine ⟨Nat.zero_le _, ⟨fun h => (nomatch h), fun h => (nomatch h)⟩, fun h => (nomatch h), ?_⟩
      intro c h
      rw [← Option.some.inj h]
      exact (zero_add _).symm
    | false =>
      refine ⟨Nat.zero_le _, ⟨fun h => (nomatch h), fun h => (nomatch h)⟩, fun h => (nomatch h), ?_⟩
      intro c h
      rw [← Option.some.inj h]
      exact (add_zero _).symm

theorem sum_priced (docs : List SpendDoc) :
    (docs.map (sessionTotals host projections)).sum.Priced := by
  induction docs with
  | nil => exact SpendTotals.priced_zero
  | cons doc rest ih =>
    rw [List.map_cons, List.sum_cons]
    exact (sessionTotals_priced doc).add ih

theorem sum_costUsd (docs : List SpendDoc) :
    (docs.map (sessionTotals host projections)).sum.costUsd = none ↔ ∀ doc ∈ docs,
      (docCost doc).costUsd = none := by
  induction docs with
  | nil => exact ⟨fun _ _ h => (nomatch h), fun _ => rfl⟩
  | cons doc rest ih =>
    rw [List.map_cons, List.sum_cons, List.forall_mem_cons, ← ih,
      ← @sessionTotals_costUsd host projections]
    exact addCost_eq_none

theorem bucketsBy_priced (dimension : SpendDoc → String) (docs : List SpendDoc) :
    ∀ bucket ∈ (bucketsBy host projections dimension docs).values, bucket.totals.Priced := by
  intro bucket hmem
  obtain ⟨key, hget⟩ := (OrderedMap.mem_values_iff _ _).1 hmem
  unfold bucketsBy at hget
  rw [get_collect] at hget
  split at hget
  · rw [← Option.some.inj hget]
    have hfold : ∀ (items : List SpendDoc) (bucket : SpendBucket), bucket.totals.Priced →
        (items.foldl (addToBucket host projections) bucket).totals.Priced := by
      intro items
      induction items with
      | nil => exact fun _ h => h
      | cons doc rest ih =>
        intro bucket h
        refine ih _ ?_
        show (addSession host projections bucket.totals doc).Priced
        rw [addSession_eq]
        exact h.add (sessionTotals_priced doc)
    exact hfold _ emptyBucket SpendTotals.priced_zero
  · cases hget

/-! ### Order of the documents -/

instance : RightCommutative (addToBucket host projections) where
  right_comm bucket a b := by
    unfold addToBucket
    simp only [addSession_eq, add_right_comm bucket.totals, Finset.union_right_comm]

theorem addShare_eq (row : SpendDeliverable) (share : SpendShare) :
    addShare row share =
      { row with
        sessions := row.sessions + 1
        reportedCostUsd := row.reportedCostUsd + share.amounts.1
        estimatedCostUsd := row.estimatedCostUsd + share.amounts.2.1
        unpricedShares := row.unpricedShares + share.amounts.2.2 } := by
  obtain ⟨hreported, hrest⟩ := Prod.ext_iff.1 (addShare_amounts row share)
  obtain ⟨hestimated, hunpriced⟩ := Prod.ext_iff.1 hrest
  have hkept : ∀ {α : Type} (field : SpendDeliverable → α),
      (∀ row reported estimated unpriced sessions, field { row with
        reportedCostUsd := reported, estimatedCostUsd := estimated, unpricedShares := unpriced,
        sessions := sessions } = field row) → field (addShare row share) = field row := by
    intro α field h
    unfold addShare
    split
    · exact h row _ _ _ _
    · split
      · exact h row _ _ _ _
      · exact h row _ _ _ _
  have hsessions : (addShare row share).sessions = row.sessions + 1 := by
    unfold addShare
    split
    · rfl
    · split
      · rfl
      · rfl
  ext1
  · exact hkept SpendDeliverable.key fun _ _ _ _ _ => rfl
  · exact hkept SpendDeliverable.url fun _ _ _ _ _ => rfl
  · exact hkept SpendDeliverable.status fun _ _ _ _ _ => rfl
  · exact hkept SpendDeliverable.mergedAt fun _ _ _ _ _ => rfl
  · exact hreported
  · exact hestimated
  · exact hunpriced
  · exact hsessions

instance : RightCommutative addShare where
  right_comm row a b := by
    simp only [addShare_eq, add_right_comm row.reportedCostUsd, add_right_comm row.estimatedCostUsd,
      add_right_comm row.unpricedShares]

theorem sharesOf_perm {docs others : List SpendDoc} (h : docs.Perm others) :
    (sharesOf host projections docs).Perm (sharesOf host projections others) :=
  h.flatMap_right _

theorem deliverablesOf_get_perm {docs others : List SpendDoc} (h : docs.Perm others)
    (key : String) :
    (deliverablesOf host projections docs).get key =
      (deliverablesOf host projections others).get key :=
  get_collect_perm (sharesOf_perm h) key

theorem breakdownOrder_total (h : LocaleOrder host.localeCompare) :
    TotalPreorder (breakdownOrder host) where
  trans a b c hab hbc := by
    unfold breakdownOrder at *
    simp only [Bool.or_eq_true, Bool.and_eq_true, decide_eq_true_eq] at *
    rcases hab with hab | ⟨hab, hkey⟩
    · rcases hbc with hbc | ⟨hbc, -⟩
      · exact .inl (hbc.trans hab)
      · exact .inl (hbc ▸ hab)
    · rcases hbc with hbc | ⟨hbc, hkey'⟩
      · exact .inl (hab ▸ hbc)
      · exact .inr ⟨hbc.trans hab, h.trans _ _ _ hkey hkey'⟩
  total a b := by
    unfold breakdownOrder
    simp only [Bool.or_eq_true, Bool.and_eq_true, decide_eq_true_eq]
    rcases lt_trichotomy (a.totals.costUsd.getD (-1)) (b.totals.costUsd.getD (-1)) with hlt | heq |
      hgt
    · exact .inr (.inl hlt)
    · rcases h.total a.key b.key with hkey | hkey
      · exact .inl (.inr ⟨heq.symm, hkey⟩)
      · exact .inr (.inr ⟨heq, hkey⟩)
    · exact .inl (.inl hgt)

theorem deliverableOrder_total (h : LocaleOrder host.localeCompare) :
    TotalPreorder (deliverableOrder host) where
  trans a b c hab hbc := by
    unfold deliverableOrder at *
    rw [decide_eq_true_eq] at *
    exact h.trans _ _ _ hab hbc
  total a b := by
    unfold deliverableOrder
    rw [Bool.or_eq_true, decide_eq_true_eq, decide_eq_true_eq]
    exact h.total _ _

end Totals

/-- The same rows, of which only such as the order ties may have changed places. -/
structure Reordered {α : Type} (le : α → α → Bool) (rows others : List α) : Prop where
  perm : rows.Perm others
  ties : List.Forall₂ (fun a b => tied le a b = true) rows others

theorem reordered_mergeSort {α : Type} {le : α → α → Bool} (hle : TotalPreorder le)
    {rows others : List α}
    (h : rows.Perm others) : Reordered le (rows.mergeSort le) (others.mergeSort le) where
  perm := ((List.mergeSort_perm rows le).trans h).trans (List.mergeSort_perm others le).symm
  ties := forall₂_tied_mergeSort hle h

/-- Rows that differ in keys that the order tells apart have not changed places. -/
theorem Reordered.eq {α κ : Type} {le : α → α → Bool} {rows others : List α} {key : α → κ}
    (h : Reordered le rows others) (hkeys : (others.map key).Nodup)
    (hapart : ∀ a b, tied le a b = true → key a = key b) : rows = others := by
  obtain ⟨hlength, hties⟩ := List.forall₂_iff_get.1 h.ties
  refine List.ext_get hlength ?_
  intro n hn hn'
  refine List.inj_on_of_nodup_map hkeys ?_ (List.get_mem _ _) (hapart _ _ (hties n hn hn'))
  exact h.perm.subset (List.get_mem _ _)

/-- Two results that differ in the places of tied rows alone. -/
structure SameSpend (host : TextHost) (spend other : SessionSpend) : Prop where
  totals : spend.totals = other.totals
  withoutPR : spend.withoutPR = other.withoutPR
  coverageLimited : spend.coverageLimited = other.coverageLimited
  byPipeline : Reordered (breakdownOrder host) spend.byPipeline other.byPipeline
  byRequestedModel : Reordered (breakdownOrder host) spend.byRequestedModel other.byRequestedModel
  byResolvedModel : Reordered (breakdownOrder host) spend.byResolvedModel other.byResolvedModel
  deliverables : Reordered (deliverableOrder host) spend.deliverables other.deliverables
  mergedPRs : spend.mergedPRs = other.mergedPRs
  unknownPRs : spend.unknownPRs = other.unknownPRs
  unmergedPRs : spend.unmergedPRs = other.unmergedPRs
  costPerMergedDeliverableUsd : spend.costPerMergedDeliverableUsd = other.costPerMergedDeliverableUsd

/-- Nothing is lost or counted twice. Totals add up field by field, and a cost that is absent counts
as none. -/
structure SpendConserved (docs : List SpendDoc) (spend : SessionSpend) : Prop where
  reported : (spend.deliverables.map SpendDeliverable.reportedCostUsd).sum + spend.withoutPR.reportedCostUsd =
    spend.totals.reportedCostUsd
  estimated : (spend.deliverables.map SpendDeliverable.estimatedCostUsd).sum + spend.withoutPR.estimatedCostUsd =
    spend.totals.estimatedCostUsd
  unpriced : (spend.deliverables.map SpendDeliverable.unpricedShares).sum + spend.withoutPR.unpricedSessions =
    spend.totals.unpricedSessions
  pipelines : (spend.byPipeline.map SpendBreakdown.totals).sum = spend.totals
  requestedModels : (spend.byRequestedModel.map SpendBreakdown.totals).sum = spend.totals
  resolvedModels : (spend.byResolvedModel.map SpendBreakdown.totals).sum = spend.totals
  absent : spend.totals.costUsd = none ↔ ∀ doc ∈ docs, (docCost doc).costUsd = none
  priced : spend.totals.Priced ∧ spend.withoutPR.Priced ∧
    ∀ row ∈ spend.byPipeline ++ spend.byRequestedModel ++ spend.byResolvedModel, row.totals.Priced
  statuses : spend.mergedPRs + spend.unmergedPRs + spend.unknownPRs = spend.deliverables.length
  distinct : (spend.deliverables.map SpendDeliverable.key).Nodup

section Result

variable {host : TextHost} {projections : String → Option GithubAnchorProjection}

theorem get_deliverablesOf_key {docs : List SpendDoc} {key : String} {row : SpendDeliverable}
    (h : (deliverablesOf host projections docs).get key = some row) : row.key = key := by
  unfold deliverablesOf at h
  rw [get_collect] at h
  split at h
  · rw [← Option.some.inj h]
    have hfold : ∀ (shares : List SpendShare) (row : SpendDeliverable),
      (shares.foldl addShare row).key = row.key := by
      intro shares
      induction shares with
      | nil => exact fun _ => rfl
      | cons share rest ih =>
        intro row
        rw [List.foldl_cons, ih, addShare_eq]
    exact hfold _ _
  · cases h

theorem priced_spendRows (deliverables : OrderedMap String SpendDeliverable)
    (dimension : SpendDoc → String)
    (docs : List SpendDoc) :
    ∀ row ∈ spendRows host deliverables (bucketsBy host projections dimension docs),
      row.totals.Priced := by
  intro row hmem
  unfold spendRows at hmem
  rw [List.mem_mergeSort, List.mem_map] at hmem
  obtain ⟨entry, hentry, rfl⟩ := hmem
  exact bucketsBy_priced dimension docs entry.2 (List.mem_map_of_mem hentry)

/-- A status is one of three. -/
theorem count_statuses (rows : List SpendDeliverable) :
    rows.countP (fun row => decide (row.status = .merged)) + rows.countP (fun row => decide (row.status = .unmerged)) +
      rows.countP (fun row => decide (row.status = .unknown)) = rows.length := by
  induction rows with
  | nil => rfl
  | cons row rest ih =>
    rw [List.countP_cons, List.countP_cons, List.countP_cons, List.length_cons, ← ih]
    cases row.status with
    | merged =>
      simp only [reduceCtorEq, decide_true, decide_false, Bool.false_eq_true, if_true, if_false]
      omega
    | unmerged =>
      simp only [reduceCtorEq, decide_true, decide_false, Bool.false_eq_true, if_true, if_false]
      omega
    | unknown =>
      simp only [reduceCtorEq, decide_true, decide_false, Bool.false_eq_true, if_true, if_false]
      omega

theorem sum_rows_amounts (rows : List SpendDeliverable) :
    (rows.map SpendDeliverable.amounts).sum =
      ((rows.map SpendDeliverable.reportedCostUsd).sum,
        (rows.map SpendDeliverable.estimatedCostUsd).sum,
        (rows.map SpendDeliverable.unpricedShares).sum) := by
  induction rows with
  | nil => rfl
  | cons row rest ih =>
    rw [List.map_cons, List.sum_cons, ih]
    rfl

theorem spend_conserved (coverageLimited : Bool) (grouping : SpendPipelineGrouping)
    (docs : List SpendDoc) :
    SpendConserved docs (aggregateSessionSpend host projections docs coverageLimited grouping) := by
  unfold aggregateSessionSpend
  rw [spendState_eq]
  have hperm :=
    List.mergeSort_perm (deliverablesOf host projections docs).values (deliverableOrder host)
  have hamounts : (((deliverablesOf host projections docs).values.mergeSort (deliverableOrder host)).map
        SpendDeliverable.amounts).sum +
      (((docs.filter fun doc => sessionPRKeys host doc projections = []).map
        (sessionTotals host projections)).sum).amounts =
      (docs.map (sessionTotals host projections)).sum.amounts := by
    rw [(hperm.map SpendDeliverable.amounts).sum_eq, sum_deliverables, sum_amounts, sum_amounts,
      List.map_map,
      List.map_map]
    exact sum_shares docs
  rw [sum_rows_amounts] at hamounts
  obtain ⟨hreported, hrest⟩ := Prod.ext_iff.1 hamounts
  obtain ⟨hestimated, hunpriced⟩ := Prod.ext_iff.1 hrest
  refine ⟨hreported, hestimated, hunpriced, sum_spendRows _ _ docs, sum_spendRows _ _ docs,
    sum_spendRows _ _ docs,
    sum_costUsd docs, ⟨sum_priced docs, sum_priced _, ?_⟩, ?_, ?_⟩
  · intro row hmem
    rcases List.mem_append.1 hmem with hmem | hmem
    · rcases List.mem_append.1 hmem with hmem | hmem
      · exact priced_spendRows _ _ docs row hmem
      · exact priced_spendRows _ _ docs row hmem
    · exact priced_spendRows _ _ docs row hmem
  · exact count_statuses _
  · exact (hperm.map SpendDeliverable.key).nodup_iff.2
      (OrderedMap.nodup_keys _ fun key row h => get_deliverablesOf_key h)

theorem nodup_spendRows (deliverables : OrderedMap String SpendDeliverable)
    (map : OrderedMap String SpendBucket) :
    ((spendRows host deliverables map).map SpendBreakdown.key).Nodup := by
  have hperm :=
    (List.mergeSort_perm (map.entries.map (spendBreakdown deliverables)) (breakdownOrder host)).map
    SpendBreakdown.key
  unfold spendRows
  rw [hperm.nodup_iff, List.map_map]
  exact map.nodup

theorem reordered_spendRows (h : LocaleOrder host.localeCompare) (dimension : SpendDoc → String)
    {docs others : List SpendDoc} (hdocs : docs.Perm others) :
    Reordered (breakdownOrder host)
      (spendRows host (deliverablesOf host projections docs) (bucketsBy host projections dimension docs))
      (spendRows host (deliverablesOf host projections others) (bucketsBy host projections dimension others)) := by
  have hbreakdown : spendBreakdown (deliverablesOf host projections docs) =
      spendBreakdown (deliverablesOf host projections others) := by
    funext entry
    unfold spendBreakdown
    simp only [deliverablesOf_get_perm hdocs]
  unfold spendRows
  rw [hbreakdown]
  exact reordered_mergeSort (breakdownOrder_total h) ((collect_perm (hdocs.map _)).map _)

/-- The order of the documents decides nothing but the places of tied rows. -/
theorem sameSpend_of_perm (h : LocaleOrder host.localeCompare) (coverageLimited : Bool)
    (grouping : SpendPipelineGrouping) {docs others : List SpendDoc} (hdocs : docs.Perm others) :
    SameSpend host (aggregateSessionSpend host projections docs coverageLimited grouping)
      (aggregateSessionSpend host projections others coverageLimited grouping) := by
  have htotals := (hdocs.map (sessionTotals host projections)).sum_eq
  have hvalues : (deliverablesOf host projections docs).values.Perm (deliverablesOf host projections others).values :=
    (collect_perm (sharesOf_perm hdocs)).map Prod.snd
  have hrows := reordered_mergeSort (deliverableOrder_total h) hvalues
  have hcount : ∀ status : DeliverableStatus,
      ((deliverablesOf host projections docs).values.mergeSort (deliverableOrder host)).countP
          (fun row => decide (row.status = status)) =
        ((deliverablesOf host projections others).values.mergeSort (deliverableOrder host)).countP
          fun row => decide (row.status = status) := fun status => hrows.perm.countP_eq _
  unfold aggregateSessionSpend
  rw [spendState_eq, spendState_eq]
  refine ⟨htotals, ((hdocs.filter _).map _).sum_eq, rfl, reordered_spendRows h _ hdocs,
    reordered_spendRows h _ hdocs,
    reordered_spendRows h _ hdocs, hrows, hcount _, hcount _, hcount _, ?_⟩
  unfold SpendState.spend
  simp only [htotals, hcount]

/-- A collation that tells the keys apart leaves no ties. -/
theorem SameSpend.eq {spend other : SessionSpend} (hsame : SameSpend host spend other)
    (h : LocaleOrder host.localeCompare) (hapart : ∀ a b, host.localeCompare a b = 0 → a = b)
    (hpipelines : (other.byPipeline.map SpendBreakdown.key).Nodup)
    (hrequested : (other.byRequestedModel.map SpendBreakdown.key).Nodup)
    (hresolved : (other.byResolvedModel.map SpendBreakdown.key).Nodup)
    (hdeliverables : (other.deliverables.map SpendDeliverable.key).Nodup) : spend = other := by
  have hzero : ∀ a b, host.localeCompare a b ≤ 0 → host.localeCompare b a ≤ 0 → a = b :=
    fun a b hab hba =>
    hapart a b (Int.le_antisymm hab ((h.converse a b).2 hba))
  have hbreakdown : ∀ a b, tied (breakdownOrder host) a b = true → a.key = b.key := by
    intro a b htied
    unfold tied breakdownOrder at htied
    simp only [Bool.or_eq_true, Bool.and_eq_true, decide_eq_true_eq] at htied
    obtain ⟨hlt | ⟨heq, hab⟩, hlt' | ⟨heq', hba⟩⟩ := htied
    · exact absurd hlt' (lt_asymm hlt)
    · exact absurd heq' (ne_of_gt hlt)
    · exact absurd heq (ne_of_gt hlt')
    · exact hzero _ _ hab hba
  have hdeliverable : ∀ a b, tied (deliverableOrder host) a b = true → a.key = b.key := by
    intro a b htied
    unfold tied deliverableOrder at htied
    rw [Bool.and_eq_true, decide_eq_true_eq, decide_eq_true_eq] at htied
    exact hzero _ _ htied.1 htied.2
  obtain ⟨h1, h2, h3, h4, h5, h6, h7, h8, h9, h10, h11⟩ := hsame
  have h4 := h4.eq hpipelines hbreakdown
  have h5 := h5.eq hrequested hbreakdown
  have h6 := h6.eq hresolved hbreakdown
  have h7 := h7.eq hdeliverables hdeliverable
  cases spend
  cases other
  simp only at h1 h2 h3 h4 h5 h6 h7 h8 h9 h10 h11
  rw [h1, h2, h3, h4, h5, h6, h7, h8, h9, h10, h11]

/-- Spend is conserved, and the order of the documents decides nothing but the places of rows of equal cost whose keys
`localeCompare` does not tell apart. -/
theorem aggregateSessionSpend_conserved (host : TextHost) (h : LocaleOrder host.localeCompare)
    (projections : String → Option GithubAnchorProjection) (coverageLimited : Bool)
    (grouping : SpendPipelineGrouping)
    (docs : List SpendDoc) :
    let spend := aggregateSessionSpend host projections docs coverageLimited grouping
    SpendConserved docs spend ∧
      ∀ others, docs.Perm others →
        let other := aggregateSessionSpend host projections others coverageLimited grouping
        SameSpend host spend other ∧
          ((∀ a b, host.localeCompare a b = 0 → a = b) → spend = other) := by
  intro spend
  refine ⟨spend_conserved coverageLimited grouping docs, ?_⟩
  intro others hdocs other
  have hsame : SameSpend host spend other := sameSpend_of_perm h coverageLimited grouping hdocs
  refine ⟨hsame, fun hapart => hsame.eq h hapart ?_ ?_ ?_ ?_⟩
  · exact nodup_spendRows _ _
  · exact nodup_spendRows _ _
  · exact nodup_spendRows _ _
  · exact (spend_conserved coverageLimited grouping others).distinct

end Result

namespace Sample

/-- A text with one of its letters in its decomposed form. -/
def decomposed (text : String) : String :=
  String.ofList (text.toList.flatMap fun c => if c = 'é' then ['e', Char.ofNat 0x301] else [c])

/-- A language that takes canonically equivalent texts for equal. -/
def spendHost : TextHost where
  toLowerCase := String.toLower
  parseDate text := if text = "2026-10-13T12:00:00.000Z" then some 1791892800000 else none
  localeCompare a b := pageEnv.localeCompare (decomposed a) (decomposed b)

theorem spendOrder : LocaleOrder spendHost.localeCompare := pageOrder.comap decomposed

/-- A session of a model that has no published rates. -/
def unpricedSession (sessionId model : String) : SpendDoc :=
  { sessionId, source := .cli, agent := .claudeCode, githubActor := none, branch := none,
    repo := none
    startedAt := "2026-10-13T12:00:00.000Z", lastActivityAt := "2026-10-13T12:00:00.000Z",
      observedAt := none
    turns := 3, tokens := ⟨100, 20, 0, 0⟩, model := some model, resolvedModel := none,
      totalCostUsd := none
    deliverables := ⟨[], none, none, none, none⟩ }

/-- A session that recorded its cost and references two pull requests. -/
def pricedSession : SpendDoc :=
  { unpricedSession "s2" "claude-opus-5" with
    totalCostUsd := some (3 / 2)
    deliverables := ⟨[7], some [⟨"octo", "example", 1⟩, ⟨"octo", "example", 2⟩], none, none, none⟩ }

end Sample

open Sample in
theorem aggregateSessionSpend_conserved_two :
    SpendConserved [pricedSession, unpricedSession "s1" "house"]
        (aggregateSessionSpend spendHost (fun _ => none) [pricedSession, unpricedSession "s1" "house"] false
          .adapter) ∧
      SameSpend spendHost
        (aggregateSessionSpend spendHost (fun _ => none) [pricedSession, unpricedSession "s1" "house"] false .adapter)
        (aggregateSessionSpend spendHost (fun _ => none) [unpricedSession "s1" "house", pricedSession] false
          .adapter) :=
  let h := aggregateSessionSpend_conserved spendHost spendOrder (fun _ => none) false .adapter
    [pricedSession, unpricedSession "s1" "house"]
  ⟨h.1, (h.2 _ (List.Perm.swap _ _ _)).1⟩

open Sample in
/-- Two models whose names are canonically equivalent keep the order of the documents. -/
theorem spend_reordered : ¬∀ (host : TextHost)
    (projections : String → Option GithubAnchorProjection)
    (coverageLimited : Bool) (grouping : SpendPipelineGrouping) (docs others : List SpendDoc),
    LocaleOrder host.localeCompare → docs.Perm others →
      aggregateSessionSpend host projections docs coverageLimited grouping =
        aggregateSessionSpend host projections others coverageLimited grouping := by
  intro h
  have hsame := h spendHost (fun _ => none) false .adapter
    [unpricedSession "s1" "café", unpricedSession "s2" (decomposed "café")]
    [unpricedSession "s2" (decomposed "café"),
      unpricedSession "s1" "café"] spendOrder (List.Perm.swap _ _ _)
  have hkeys := congrArg (fun spend => spend.byRequestedModel.map SpendBreakdown.key) hsame
  -- The rows are tied, so that sorting leaves them as they are.
  have hrows : ∀ docs : List SpendDoc,
      (((docs.foldl (spendStep spendHost (fun _ => none) .adapter) emptySpend).byRequestedModel.entries.map
        (spendBreakdown (docs.foldl (spendStep spendHost (fun _ => none) .adapter) emptySpend).deliverables)).Pairwise
          fun a b => breakdownOrder spendHost a b = true) →
      (aggregateSessionSpend spendHost (fun _ => none) docs false .adapter).byRequestedModel.map SpendBreakdown.key =
        (docs.foldl (spendStep spendHost (fun _ => none) .adapter) emptySpend).byRequestedModel.entries.map
          Prod.fst := by
    intro docs hsorted
    show List.map SpendBreakdown.key (List.mergeSort _ _) = _
    rw [List.mergeSort_of_pairwise hsorted, List.map_map]
    rfl
  rw [hrows _ (by decide +kernel), hrows _ (by decide +kernel)] at hkeys
  exact absurd hkeys (by decide +kernel)

end AgentLcars
