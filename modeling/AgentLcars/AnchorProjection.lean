import AgentLcars.Lib.FencedRefresh
import AgentLcars.Lib.OrderedMap
import AgentLcars.Schema

/-!
# Projections of GitHub anchors

`refreshGithubAnchorProjection` of `apps/console/src/lib/github-anchor-refresh.ts` over the two
stores that keep the projections, `memory-store.ts` and `firestore-store.ts` of
`libs/orchestrator`.  A refresh begins in the store, reads GitHub, and applies what it read while no
other refresh has begun.

* `AnchorStore` is what the two stores have in common;
* `RefreshWorld.fence_step`: the calls on a store are the attempts of a fenced register;
* `RefreshWorld.anchor_refreshes`: projections never go back in time.
-/

namespace AgentLcars

/-! ### The record -/

/-- `githubAnchorSchema`'s type. -/
structure GithubAnchor where
  repo : String
  issue : Nat
  deriving DecidableEq, Repr

/-- The key of an anchor. -/
def GithubAnchor.key (anchor : GithubAnchor) : String := taskKey (.github anchor.repo anchor.issue)

/-- An issue or a pull request. -/
inductive AnchorKind where
  | issue
  | pr
  deriving DecidableEq, Repr

/-- GitHub's state of an anchor. -/
inductive AnchorState where
  | open
  | closed
  deriving DecidableEq, Repr

/-- GitHub's verdict on a merge. -/
inductive MergeableState where
  | clean
  | dirty
  | blocked
  | unstable
  | behind
  | draft
  | unknown
  deriving DecidableEq, Repr

/-- Whether the merge policy asks for a review. -/
inductive ReviewRequirement where
  | required
  | notRequired
  | unknown
  deriving DecidableEq, Repr

/-- The last comment of an anchor. -/
structure AnchorComment where
  id : Option String
  body : String
  url : String
  author : Option String
  createdAt : Option String
  updatedAt : Option String
  deriving DecidableEq, Repr

/-- The count of an issue's children. -/
structure SubIssues where
  total : Nat
  completed : Nat
  deriving DecidableEq, Repr

/-- A failed check of a pull request. -/
structure FailingCheck where
  name : String
  url : String
  deriving DecidableEq, Repr

/-- A check run of a pull request. -/
structure CheckRun where
  name : String
  url : String
  status : String
  conclusion : Option String
  deriving DecidableEq, Repr

/-- `GithubAnchorProjection`: the snapshot of an anchor.  `mergedAt` is `some none` when the pull
request is known not to be merged. -/
structure GithubAnchorProjection where
  anchor : GithubAnchor
  kind : AnchorKind
  state : AnchorState
  title : String
  body : String
  url : String
  author : Option String
  labels : List String
  assigneeLogins : List String
  lastComment : Option AnchorComment
  parentNumber : Option Nat
  subIssues : Option SubIssues
  linkedIssueNumbers : Option (List Nat)
  createdAt : Option String
  headRefName : Option String
  headSha : Option String
  headRepository : Option String
  draft : Option Bool
  mergedAt : Option (Option String)
  mergeableState : Option MergeableState
  autoMergeEnabled : Option Bool
  reviewRequirement : Option ReviewRequirement
  requestedReviewerLogins : Option (List String)
  failingChecks : Option (List FailingCheck)
  checkRuns : Option (List CheckRun)
  ciRunning : Option Bool
  unresolvedReviewThreadCount : Option Nat
  unresolvedReviewThreadIds : Option (List String)
  checksTruncated : Option Bool
  reviewThreadsTruncated : Option Bool
  sourceUpdatedAt : String
  observedAt : String
  deriving DecidableEq, Repr

/-- `z.array(z.string().min(1).max(256)).max(bound)`. -/
def isNameList (bound : Nat) (names : List String) : Bool :=
  names.length ≤ bound ∧ names.all (withinLength · 256)

/-- The schema of a last comment. -/
def anchorCommentSchema (comment : AnchorComment) : Bool :=
  comment.id.all (withinLength · 256) ∧ jsLength comment.body ≤ 65536 ∧
    withinLength comment.url 2048 ∧ comment.author.all (withinLength · 256) ∧
    comment.createdAt.all isIsoDatetime ∧ comment.updatedAt.all isIsoDatetime

/-- The schema of a failed check. -/
def failingCheckSchema (check : FailingCheck) : Bool :=
  withinLength check.name 256 ∧ withinLength check.url 2048

/-- The schema of a check run. -/
def checkRunSchema (check : CheckRun) : Bool :=
  withinLength check.name 256 ∧ withinLength check.url 2048 ∧ withinLength check.status 64 ∧
    check.conclusion.all (jsLength · ≤ 64)

/-- `githubAnchorProjectionSchema.parse` accepts the record. -/
def githubAnchorProjectionSchema (p : GithubAnchorProjection) : Bool :=
  taskIdSchema (.github p.anchor.repo p.anchor.issue) ∧ withinLength p.title 256 ∧
    jsLength p.body ≤ 65536 ∧ withinLength p.url 2048 ∧ p.author.all (withinLength · 256) ∧
    isNameList 256 p.labels ∧ isNameList 256 p.assigneeLogins ∧
    p.lastComment.all anchorCommentSchema ∧ p.parentNumber.all isPositive ∧
    (p.subIssues.all fun count =>
      count.total ≤ MAX_SAFE_INTEGER ∧ count.completed ≤ MAX_SAFE_INTEGER) ∧
    (p.linkedIssueNumbers.all fun numbers => numbers.length ≤ 256 ∧ numbers.all isPositive) ∧
    p.createdAt.all isIsoDatetime ∧ p.headRefName.all (withinLength · 1024) ∧
    p.headSha.all (isHexText 40) ∧ p.headRepository.all (withinLength · 140) ∧
    (p.mergedAt.all fun mergedAt => mergedAt.all isIsoDatetime) ∧
    p.requestedReviewerLogins.all (isNameList 256) ∧
    (p.failingChecks.all fun checks => checks.length ≤ 100 ∧ checks.all failingCheckSchema) ∧
    (p.checkRuns.all fun checks => checks.length ≤ 100 ∧ checks.all checkRunSchema) ∧
    p.unresolvedReviewThreadCount.all (· ≤ MAX_SAFE_INTEGER) ∧
    p.unresolvedReviewThreadIds.all (isNameList 100) ∧ isIsoDatetime p.sourceUpdatedAt ∧
    isIsoDatetime p.observedAt

/-! ### The stores -/

/-- Why a store throws. -/
inductive RefreshError where
  | mismatch (message : String)
  | schema
  deriving DecidableEq, Repr

/-- The error for a projection of another anchor. -/
def refreshMismatch : RefreshError :=
  .mismatch "GitHub anchor refresh projection does not match its fence"

/-- The argument of `applyGithubAnchorProjectionRefresh`. -/
structure RefreshInput where
  anchor : GithubAnchor
  generation : Nat
  projection : Option GithubAnchorProjection
  deriving DecidableEq, Repr

/-- A projection that both stores accept for the anchor of the input. -/
def RefreshInput.Accepted (input : RefreshInput) : Prop :=
  ∀ projection ∈ input.projection, projection.anchor.key = input.anchor.key ∧
    githubAnchorProjectionSchema projection = true

/-- An entry of the in-memory store. -/
structure MemoryAnchor where
  projection : Option GithubAnchorProjection
  refreshGeneration : Nat
  deriving DecidableEq, Repr

/-- `#githubAnchorProjections`. -/
abbrev MemoryAnchors := OrderedMap String MemoryAnchor

namespace MemoryAnchors

/-- `beginGithubAnchorProjectionRefresh`. -/
def beginGithubAnchorProjectionRefresh (m : MemoryAnchors) (anchor : GithubAnchor) :
    Nat × MemoryAnchors :=
  let current := m.get anchor.key
  let refreshGeneration := (current.elim 0 (·.refreshGeneration)) + 1
  (refreshGeneration, m.set anchor.key ⟨current.bind (·.projection), refreshGeneration⟩)

/-- `applyGithubAnchorProjectionRefresh`. -/
def applyGithubAnchorProjectionRefresh (m : MemoryAnchors) (input : RefreshInput) :
    Except RefreshError (Bool × MemoryAnchors) :=
  if (m.get input.anchor.key).map (·.refreshGeneration) ≠ some input.generation then
    .ok (false, m)
  else
    match input.projection with
    | none => .ok (true, m.set input.anchor.key ⟨none, input.generation⟩)
    | some projection =>
      if projection.anchor.key ≠ input.anchor.key then .error refreshMismatch
      else if githubAnchorProjectionSchema projection then
        .ok (true, m.set input.anchor.key ⟨some projection, input.generation⟩)
      else .error .schema

/-- `readGithubAnchorProjection`. -/
def readGithubAnchorProjection (m : MemoryAnchors) (anchor : GithubAnchor) :
    Except RefreshError (Option GithubAnchorProjection) :=
  .ok ((m.get anchor.key).bind (·.projection))

end MemoryAnchors

/-- A document of `github-anchors`.  Documents from before the fence have no generation. -/
structure AnchorDocument where
  projection : Option GithubAnchorProjection
  refreshGeneration : Option Nat
  openUpdatedAt : Option String
  streamChangedAt : Option Time
  deriving DecidableEq, Repr

/-- `github-anchors`, by the key that a document id encodes. -/
abbrev AnchorDocuments := OrderedMap String AnchorDocument

namespace AnchorDocuments

/-- `beginGithubAnchorProjectionRefresh`: a merge that sets the generation alone. -/
def beginGithubAnchorProjectionRefresh (d : AnchorDocuments) (anchor : GithubAnchor) :
    Nat × AnchorDocuments :=
  let document := (d.get anchor.key).getD ⟨none, none, none, none⟩
  let generation :=
    match document.refreshGeneration with
    | some generation => generation + 1
    | none => 1
  (generation, d.set anchor.key { document with refreshGeneration := some generation })

/-- `applyGithubAnchorProjectionRefresh`, at the server's clock. -/
def applyGithubAnchorProjectionRefresh (d : AnchorDocuments) (now : Time) (input : RefreshInput) :
    Except RefreshError (Bool × AnchorDocuments) :=
  if (d.get input.anchor.key).bind (·.refreshGeneration) ≠ some input.generation then
    .ok (false, d)
  else
    match input.projection with
    | none => .ok (true, d.set input.anchor.key ⟨none, some input.generation, none, some now⟩)
    | some next =>
      if githubAnchorProjectionSchema next then
        if next.anchor.key ≠ input.anchor.key then .error refreshMismatch
        else
          let openUpdatedAt := if next.state = .open then some next.sourceUpdatedAt else none
          .ok (true,
            d.set input.anchor.key ⟨some next, some input.generation, openUpdatedAt, some now⟩)
      else .error .schema

/-- `readGithubAnchorProjection`: a stored projection is parsed again. -/
def readGithubAnchorProjection (d : AnchorDocuments) (anchor : GithubAnchor) :
    Except RefreshError (Option GithubAnchorProjection) :=
  match (d.get anchor.key).bind (·.projection) with
  | none => .ok none
  | some projection =>
    if githubAnchorProjectionSchema projection then .ok (some projection) else .error .schema

end AnchorDocuments

/-! ### What the stores have in common -/

open FencedRefresh (Register)

/-- A store of projections: a register behind a fence for every key. -/
structure AnchorStore (σ : Type) where
  begin : σ → GithubAnchor → Nat × σ
  apply : σ → Time → RefreshInput → Except RefreshError (Bool × σ)
  read : σ → GithubAnchor → Except RefreshError (Option GithubAnchorProjection)
  register : σ → String → Register GithubAnchorProjection
  begin_generation : ∀ s anchor, (begin s anchor).1 = (register s anchor.key).generation + 1
  begin_register : ∀ s anchor key, register (begin s anchor).2 key =
    if key = anchor.key then
      { register s anchor.key with generation := (register s anchor.key).generation + 1 }
    else register s key
  begin_read : ∀ s anchor other, read (begin s anchor).2 other = read s other
  apply_stale : ∀ s now input, 0 < input.generation →
    (register s input.anchor.key).generation ≠ input.generation → apply s now input = .ok (false, s)
  apply_refused : ∀ s now input, 0 < input.generation →
    (register s input.anchor.key).generation = input.generation → ¬input.Accepted →
    ∃ e, apply s now input = .error e
  apply_accepted : ∀ s now input, 0 < input.generation →
    (register s input.anchor.key).generation = input.generation → input.Accepted →
    ∃ s', apply s now input = .ok (true, s') ∧ ∀ key, register s' key =
      if key = input.anchor.key then
        { register s input.anchor.key with value := input.projection }
      else register s key

namespace MemoryAnchors

variable (m : MemoryAnchors) {input : RefreshInput}

/-- The projection and the fence of a key. -/
def register (key : String) : Register GithubAnchorProjection :=
  ⟨(m.get key).elim 0 (·.refreshGeneration), (m.get key).bind (·.projection)⟩

theorem generation_eq_iff (hpos : 0 < input.generation) :
    (m.get input.anchor.key).map (·.refreshGeneration) = some input.generation ↔
      (m.register input.anchor.key).generation = input.generation := by
  unfold register
  cases m.get input.anchor.key with
  | none => simp; omega
  | some entry => simp

theorem register_set (key key' : String) (entry : MemoryAnchor) :
    register (m.set key entry) key' =
      if key' = key then ⟨entry.refreshGeneration, entry.projection⟩ else m.register key' := by
  unfold register
  rw [OrderedMap.get_set]
  split_ifs
  · rfl
  · rfl

end MemoryAnchors

/-- The in-memory store. -/
def memoryAnchors : AnchorStore MemoryAnchors where
  begin := MemoryAnchors.beginGithubAnchorProjectionRefresh
  apply m _ input := m.applyGithubAnchorProjectionRefresh input
  read := MemoryAnchors.readGithubAnchorProjection
  register := MemoryAnchors.register
  begin_generation _ _ := rfl
  begin_register m anchor key := MemoryAnchors.register_set m anchor.key key _
  begin_read := by
    intro m anchor other
    unfold MemoryAnchors.readGithubAnchorProjection
      MemoryAnchors.beginGithubAnchorProjectionRefresh
    rw [OrderedMap.get_set]
    by_cases h : other.key = anchor.key
    · rw [if_pos h, h]
      rfl
    · rw [if_neg h]
  apply_stale := by
    intro m _ input hpos hne
    unfold MemoryAnchors.applyGithubAnchorProjectionRefresh
    rw [if_pos (fun e => hne ((m.generation_eq_iff hpos).1 e))]
  apply_refused := by
    intro m _ input hpos heq hrefused
    unfold MemoryAnchors.applyGithubAnchorProjectionRefresh
    rw [if_neg (fun e => e ((m.generation_eq_iff hpos).2 heq))]
    unfold RefreshInput.Accepted at hrefused
    cases hprojection : input.projection with
    | none => simp [hprojection] at hrefused
    | some projection =>
      simp only [hprojection, Option.mem_def, Option.some.injEq, forall_eq'] at hrefused ⊢
      split_ifs with hkey hschema
      · exact ⟨_, rfl⟩
      · exact absurd ⟨not_not.1 hkey, hschema⟩ hrefused
      · exact ⟨_, rfl⟩
  apply_accepted := by
    intro m _ input hpos heq haccepted
    unfold MemoryAnchors.applyGithubAnchorProjectionRefresh
    rw [if_neg (fun e => e ((m.generation_eq_iff hpos).2 heq))]
    cases hprojection : input.projection with
    | none =>
      refine ⟨_, rfl, fun key => ?_⟩
      rw [MemoryAnchors.register_set, ← heq]
    | some projection =>
      obtain ⟨hkey, hschema⟩ := haccepted projection hprojection
      simp only [hkey, ne_eq, not_true, if_false, hschema, if_true]
      refine ⟨_, rfl, fun key => ?_⟩
      rw [MemoryAnchors.register_set, ← heq]

namespace AnchorDocuments

variable (d : AnchorDocuments) {input : RefreshInput}

/-- The projection and the fence of a key. -/
def register (key : String) : Register GithubAnchorProjection :=
  ⟨((d.get key).bind (·.refreshGeneration)).getD 0, (d.get key).bind (·.projection)⟩

theorem generation_eq_iff (hpos : 0 < input.generation) :
    (d.get input.anchor.key).bind (·.refreshGeneration) = some input.generation ↔
      (d.register input.anchor.key).generation = input.generation := by
  unfold register
  cases (d.get input.anchor.key).bind (·.refreshGeneration) with
  | none => simp; omega
  | some generation => simp

theorem register_set (key key' : String) (document : AnchorDocument) :
    register (d.set key document) key' =
      if key' = key then ⟨document.refreshGeneration.getD 0, document.projection⟩
      else d.register key' := by
  unfold register
  rw [OrderedMap.get_set]
  split_ifs
  · rfl
  · rfl

/-- The generation that a begun refresh gets. -/
theorem begin_fst (anchor : GithubAnchor) :
    (d.beginGithubAnchorProjectionRefresh anchor).1 = (d.register anchor.key).generation + 1 := by
  unfold beginGithubAnchorProjectionRefresh register
  cases d.get anchor.key with
  | none => rfl
  | some document =>
    simp only [Option.getD_some, Option.bind_some]
    cases document.refreshGeneration with
    | none => rfl
    | some generation => rfl

end AnchorDocuments

/-- The Firestore store. -/
def firestoreAnchors : AnchorStore AnchorDocuments where
  begin := AnchorDocuments.beginGithubAnchorProjectionRefresh
  apply := AnchorDocuments.applyGithubAnchorProjectionRefresh
  read := AnchorDocuments.readGithubAnchorProjection
  register := AnchorDocuments.register
  begin_generation := AnchorDocuments.begin_fst
  begin_register := by
    intro d anchor key
    have hvalue : ((d.get anchor.key).getD ⟨none, none, none, none⟩).projection =
        (d.register anchor.key).value := by
      unfold AnchorDocuments.register
      cases d.get anchor.key with
      | none => rfl
      | some document => rfl
    rw [← AnchorDocuments.begin_fst]
    refine (AnchorDocuments.register_set d anchor.key key
      { (d.get anchor.key).getD ⟨none, none, none, none⟩ with
        refreshGeneration := some (d.beginGithubAnchorProjectionRefresh anchor).1 }).trans ?_
    rw [Option.getD_some, hvalue]
  begin_read := by
    intro d anchor other
    unfold AnchorDocuments.readGithubAnchorProjection
      AnchorDocuments.beginGithubAnchorProjectionRefresh
    rw [OrderedMap.get_set]
    by_cases h : other.key = anchor.key
    · rw [if_pos h, h]
      cases d.get anchor.key with
      | none => rfl
      | some document => rfl
    · rw [if_neg h]
  apply_stale := by
    intro d now input hpos hne
    unfold AnchorDocuments.applyGithubAnchorProjectionRefresh
    rw [if_pos (fun e => hne ((d.generation_eq_iff hpos).1 e))]
  apply_refused := by
    intro d now input hpos heq hrefused
    unfold AnchorDocuments.applyGithubAnchorProjectionRefresh
    rw [if_neg (fun e => e ((d.generation_eq_iff hpos).2 heq))]
    unfold RefreshInput.Accepted at hrefused
    cases hprojection : input.projection with
    | none => simp [hprojection] at hrefused
    | some projection =>
      simp only [hprojection, Option.mem_def, Option.some.injEq, forall_eq'] at hrefused ⊢
      split_ifs with hschema hkey
      · exact ⟨_, rfl⟩
      · exact absurd ⟨not_not.1 hkey, hschema⟩ hrefused
      · exact ⟨_, rfl⟩
  apply_accepted := by
    intro d now input hpos heq haccepted
    unfold AnchorDocuments.applyGithubAnchorProjectionRefresh
    rw [if_neg (fun e => e ((d.generation_eq_iff hpos).2 heq))]
    cases hprojection : input.projection with
    | none =>
      refine ⟨_, rfl, fun key => ?_⟩
      rw [AnchorDocuments.register_set, ← heq]
      rfl
    | some projection =>
      obtain ⟨hkey, hschema⟩ := haccepted projection hprojection
      simp only [hkey, ne_eq, not_true, if_false, hschema, if_true]
      refine ⟨_, rfl, fun key => ?_⟩
      rw [AnchorDocuments.register_set, ← heq]
      rfl

/-! ### Calls -/

/-- Where a call of `refreshGithubAnchorProjection` stands. -/
inductive RefreshPhase where
  | begun
  | loading
  | loaded (projection : Option GithubAnchorProjection)
  | returned (projection : Option GithubAnchorProjection) (applied : Bool)
  | failed
  deriving DecidableEq, Repr

/-- A call, after it began in the store. -/
structure RefreshCall where
  anchor : GithubAnchor
  generation : Nat
  phase : RefreshPhase
  deriving DecidableEq, Repr

/-- What `load` throws: a value with a status, or any other. -/
structure LoadError where
  status : Option Nat
  deriving DecidableEq, Repr

/-- `isGithubNotFound`. -/
def isGithubNotFound (error : LoadError) : Bool := error.status = some 404

/-- The store, and the calls in the order they began. -/
structure RefreshWorld (σ : Type) where
  store : σ
  calls : List RefreshCall

/-- What moves a call.  A call may crash at any time, also after its write and before the reply. -/
inductive RefreshLabel where
  | begin (anchor : GithubAnchor) (deleted : Bool)
  | load (call : Nat)
  | loaded (call : Nat) (answer : Except LoadError GithubAnchorProjection)
  | apply (call : Nat) (now : Time) (replied : Bool)
  | crash (call : Nat)
  deriving DecidableEq

namespace RefreshWorld

variable {σ : Type} (S : AnchorStore σ) (w : RefreshWorld σ)

/-- Change the phase of one call. -/
def setPhase (i : Nat) (phase : RefreshPhase) : RefreshWorld σ :=
  { w with calls := w.calls.modify i fun call => { call with phase := phase } }

/-- `const generation = await deps.store.beginGithubAnchorProjectionRefresh(anchor)`.  A deleted
anchor is not loaded. -/
def begin (anchor : GithubAnchor) (deleted : Bool) : RefreshWorld σ :=
  let (generation, store) := S.begin w.store anchor
  ⟨store, w.calls ++ [⟨anchor, generation, if deleted then .loaded none else .begun⟩]⟩

/-- `deps.load(anchor)` starts. -/
def load (i : Nat) : RefreshWorld σ :=
  match w.calls[i]? with
  | some ⟨_, _, .begun⟩ => w.setPhase i .loading
  | _ => w

/-- `deps.load(anchor)` answers.  An error is rethrown unless it is a 404. -/
def loaded (i : Nat) (answer : Except LoadError GithubAnchorProjection) : RefreshWorld σ :=
  match w.calls[i]? with
  | some ⟨_, _, .loading⟩ =>
    match answer with
    | .ok projection => w.setPhase i (.loaded (some projection))
    | .error error =>
      if isGithubNotFound error then w.setPhase i (.loaded none) else w.setPhase i .failed
  | _ => w

/-- `deps.store.applyGithubAnchorProjectionRefresh`, and the return. -/
def apply (i : Nat) (now : Time) (replied : Bool) : RefreshWorld σ :=
  match w.calls[i]? with
  | some ⟨anchor, generation, .loaded projection⟩ =>
    match S.apply w.store now ⟨anchor, generation, projection⟩ with
    | .ok (applied, store) =>
      { w with store := store }.setPhase i (if replied then .returned projection applied else .failed)
    | .error _ => w.setPhase i .failed
  | _ => w

/-- The process of a call dies. -/
def crash (i : Nat) : RefreshWorld σ :=
  match w.calls[i]? with
  | some ⟨_, _, .begun⟩ | some ⟨_, _, .loading⟩ | some ⟨_, _, .loaded _⟩ => w.setPhase i .failed
  | _ => w

/-- One step. -/
def step : RefreshLabel → RefreshWorld σ
  | .begin anchor deleted => w.begin S anchor deleted
  | .load i => w.load i
  | .loaded i answer => w.loaded i answer
  | .apply i now replied => w.apply S i now replied
  | .crash i => w.crash i

/-- The call starts to load in this state. -/
def Loads (i : Nat) : Prop := ∃ call, w.calls[i]? = some call ∧ call.phase = .begun

/-- The call applies in this state: the store answers `true`. -/
def Applies (i : Nat) (now : Time) (call : RefreshCall) : Prop :=
  w.calls[i]? = some call ∧ ∃ projection store, call.phase = .loaded projection ∧
    S.apply w.store now ⟨call.anchor, call.generation, projection⟩ = .ok (true, store)

/-! ### The fence behind the calls -/

open FencedRefresh (Attempt Label)

/-- A phase of a call, without its data. -/
def phaseOf : RefreshPhase → FencedRefresh.Phase GithubAnchorProjection
  | .begun => .begun
  | .loading => .reading
  | .loaded projection => .holding projection
  | .returned projection applied => .returned projection applied
  | .failed => .failed

/-- A call as an attempt on the register of its anchor. -/
def attempt (call : RefreshCall) : Attempt String GithubAnchorProjection :=
  ⟨call.anchor.key, call.generation, phaseOf call.phase⟩

/-- The registers behind the store, and the attempts behind the calls. -/
def fence : FencedRefresh.State String GithubAnchorProjection where
  register := S.register w.store
  attempts := w.calls.map attempt

theorem fence_attempt (i : Nat) :
    (w.fence S).attempts[i]? = w.calls[i]?.map attempt := List.getElem?_map

theorem fence_setPhase (i : Nat) (phase : RefreshPhase) :
    (w.setPhase i phase).fence S = (w.fence S).setPhase i (phaseOf phase) := by
  unfold fence setPhase FencedRefresh.State.setPhase
  congr 1
  apply List.ext_getElem?
  intro j
  rw [List.getElem?_map, List.getElem?_modify, List.getElem?_modify, List.getElem?_map]
  cases w.calls[j]? with
  | none => rfl
  | some call =>
    by_cases h : i = j
    · simp [h, attempt]
    · simp [h]

/-- Every call has begun. -/
def Numbered : Prop := ∀ call ∈ w.calls, 0 < call.generation

variable {S w}

theorem numbered_setPhase (h : w.Numbered) (i : Nat) (phase : RefreshPhase) :
    (w.setPhase i phase).Numbered := by
  intro call hmem
  obtain ⟨j, hj⟩ := List.mem_iff_getElem?.1 hmem
  have hj' : (w.calls.modify i fun call => { call with phase := phase })[j]? = some call := hj
  rw [List.getElem?_modify] at hj'
  obtain ⟨old, hold, rfl⟩ := Option.map_eq_some_iff.1 hj'
  have hpos := h old (List.mem_of_getElem? hold)
  by_cases hij : i = j
  · simpa [hij] using hpos
  · simpa [hij] using hpos

theorem numbered_step (h : w.Numbered) (label : RefreshLabel) : (w.step S label).Numbered := by
  cases label with
  | begin anchor deleted =>
    intro call hmem
    rcases List.mem_append.1 hmem with hold | hnew
    · exact h call hold
    · obtain rfl := List.mem_singleton.1 hnew
      show 0 < (S.begin w.store anchor).1
      rw [S.begin_generation]
      omega
  | load i =>
    show (w.load i).Numbered
    unfold load
    split
    · exact numbered_setPhase h _ _
    · exact h
  | loaded i answer =>
    show (w.loaded i answer).Numbered
    unfold loaded
    split
    · split
      · exact numbered_setPhase h _ _
      · split_ifs
        · exact numbered_setPhase h _ _
        · exact numbered_setPhase h _ _
    · exact h
  | apply i now replied =>
    show (w.apply S i now replied).Numbered
    unfold apply
    split
    · split
      · exact numbered_setPhase (w := { w with store := _ }) h _ _
      · exact numbered_setPhase h _ _
    · exact h
  | crash i =>
    show (w.crash i).Numbered
    unfold crash
    split
    · exact numbered_setPhase h _ _
    · exact numbered_setPhase h _ _
    · exact numbered_setPhase h _ _
    · exact h

/-- A call of the model as an attempt. -/
theorem fence_attempt_of {i : Nat} {call : RefreshCall} (h : w.calls[i]? = some call) :
    (w.fence S).attempts[i]? = some (attempt call) := by
  rw [fence_attempt, h]
  rfl

/-- What begins a call begins an attempt. -/
theorem fence_begin (anchor : GithubAnchor) (deleted : Bool) :
    ∃ labels, (w.begin S anchor deleted).fence S =
      Machine.run FencedRefresh.step (w.fence S) labels := by
  have hbegun : (w.begin S anchor false).fence S = (w.fence S).begin anchor.key := by
    have hregister : S.register (S.begin w.store anchor).2 = fun key =>
        if key = anchor.key then { S.register w.store anchor.key with
          generation := (S.register w.store anchor.key).generation + 1 }
        else S.register w.store key := funext fun key => S.begin_register w.store anchor key
    unfold fence begin FencedRefresh.State.begin FencedRefresh.State.setRegister
    simp only [hregister, List.map_append, List.map_cons, List.map_nil, attempt,
      S.begin_generation, Bool.false_eq_true, if_false, phaseOf]
  cases deleted with
  | false => exact ⟨[.begin anchor.key], hbegun⟩
  | true =>
    -- the new call goes on at once, holding that there is nothing
    refine ⟨[.begin anchor.key, .hold w.calls.length none], ?_⟩
    have hnew : (w.begin S anchor false).calls[w.calls.length]? =
        some ⟨anchor, (S.begin w.store anchor).1, .begun⟩ := List.getElem?_concat_length
    have hphase : w.begin S anchor true =
        (w.begin S anchor false).setPhase w.calls.length (.loaded none) := by
      unfold begin setPhase
      simp [List.modify, List.modifyTailIdx_eq_take_drop]
    show _ = FencedRefresh.State.hold ((w.fence S).begin anchor.key) w.calls.length none
    rw [hphase, fence_setPhase, ← hbegun]
    unfold FencedRefresh.State.hold
    rw [fence_attempt_of hnew]
    rfl

/-- What applies a call applies an attempt. -/
theorem fence_apply (h : w.Numbered) (i : Nat) (now : Time) (replied : Bool) :
    ∃ labels, (w.apply S i now replied).fence S =
      Machine.run FencedRefresh.step (w.fence S) labels := by
  unfold apply
  split
  case h_2 => exact ⟨[], rfl⟩
  case h_1 anchor generation projection hcall =>
    have hattempt : (w.fence S).attempts[i]? =
        some ⟨anchor.key, generation, .holding projection⟩ := fence_attempt_of hcall
    have hpos : 0 < generation := h _ (List.mem_of_getElem? hcall)
    have hfail : (w.setPhase i .failed).fence S = (w.fence S).fail i := by
      rw [fence_setPhase]
      unfold FencedRefresh.State.fail
      rw [hattempt]
      rfl
    by_cases hgen : (S.register w.store anchor.key).generation = generation
    · by_cases haccepted : RefreshInput.Accepted ⟨anchor, generation, projection⟩
      · obtain ⟨store, happly, hregister⟩ := S.apply_accepted w.store now _ hpos hgen haccepted
        refine ⟨[.apply i replied], ?_⟩
        rw [happly]
        show ((RefreshWorld.mk store w.calls).setPhase i _).fence S =
          (w.fence S).apply i replied
        have hstore : (RefreshWorld.mk store w.calls).fence S =
            (w.fence S).setRegister anchor.key
              { S.register w.store anchor.key with value := projection } := by
          unfold fence FencedRefresh.State.setRegister
          congr 1
          exact funext hregister
        rw [fence_setPhase, hstore]
        unfold FencedRefresh.State.apply
        rw [hattempt]
        show _ = if (S.register w.store anchor.key).generation = generation then _ else _
        rw [if_pos hgen]
        cases replied with
        | true => rfl
        | false => rfl
      · obtain ⟨e, happly⟩ := S.apply_refused w.store now _ hpos hgen haccepted
        refine ⟨[.fail i], ?_⟩
        rw [happly]
        exact hfail
    · refine ⟨[.apply i replied], ?_⟩
      rw [S.apply_stale w.store now _ hpos hgen]
      show (w.setPhase i _).fence S = (w.fence S).apply i replied
      rw [fence_setPhase]
      unfold FencedRefresh.State.apply
      rw [hattempt]
      show _ = if (S.register w.store anchor.key).generation = generation then _ else _
      rw [if_neg hgen]
      cases replied with
      | true => rfl
      | false => rfl

/-- Every step of the calls is some steps of the attempts. -/
theorem fence_step (h : w.Numbered) (label : RefreshLabel) :
    ∃ labels, (w.step S label).fence S =
      Machine.run FencedRefresh.step (w.fence S) labels := by
  cases label with
  | begin anchor deleted => exact fence_begin anchor deleted
  | load i =>
    refine ⟨[.read i], ?_⟩
    show (w.load i).fence S = (w.fence S).read i
    unfold load FencedRefresh.State.read
    rw [fence_attempt]
    cases hcall : w.calls[i]? with
    | none => rfl
    | some call =>
      obtain ⟨anchor, generation, phase⟩ := call
      cases phase with
      | begun => exact fence_setPhase S w i .loading
      | loading => rfl
      | loaded projection => rfl
      | returned projection applied => rfl
      | failed => rfl
  | loaded i answer =>
    show ∃ labels, (w.loaded i answer).fence S = _
    unfold loaded
    split
    case h_2 => exact ⟨[], rfl⟩
    case h_1 anchor generation hcall =>
      have hattempt : (w.fence S).attempts[i]? =
          some ⟨anchor.key, generation, .reading⟩ := fence_attempt_of hcall
      have hhold : ∀ value, (w.setPhase i (.loaded value)).fence S = (w.fence S).hold i value := by
        intro value
        rw [fence_setPhase]
        unfold FencedRefresh.State.hold
        rw [hattempt]
        rfl
      cases answer with
      | ok projection => exact ⟨[.hold i (some projection)], hhold _⟩
      | error error =>
        by_cases hnotFound : isGithubNotFound error = true
        · refine ⟨[.hold i none], ?_⟩
          simp only [hnotFound, if_true]
          exact hhold none
        · refine ⟨[.fail i], ?_⟩
          simp only [hnotFound]
          show (w.setPhase i .failed).fence S = (w.fence S).fail i
          rw [fence_setPhase]
          unfold FencedRefresh.State.fail
          rw [hattempt]
          rfl
  | apply i now replied => exact fence_apply h i now replied
  | crash i =>
    refine ⟨[.fail i], ?_⟩
    show (w.crash i).fence S = (w.fence S).fail i
    unfold crash FencedRefresh.State.fail
    rw [fence_attempt]
    cases hcall : w.calls[i]? with
    | none => rfl
    | some call =>
      obtain ⟨anchor, generation, phase⟩ := call
      cases phase with
      | begun => exact fence_setPhase S w i .failed
      | loading => exact fence_setPhase S w i .failed
      | loaded projection => exact fence_setPhase S w i .failed
      | returned projection applied => rfl
      | failed => rfl

/-- Every run of the calls is a run of the attempts. -/
theorem fence_run (h : w.Numbered) (labels : List RefreshLabel) :
    ∃ labels', (Machine.run (step S) w labels).fence S =
      Machine.run FencedRefresh.step (w.fence S) labels' := by
  refine (Machine.invariant_run (fun t : RefreshWorld σ => t.Numbered ∧ ∃ labels',
    t.fence S = Machine.run FencedRefresh.step (w.fence S) labels') ?_ ⟨h, [], rfl⟩ labels).2
  rintro t label ⟨hnumbered, labels', hfence⟩
  obtain ⟨labels'', hstep⟩ := fence_step (S := S) hnumbered label
  refine ⟨numbered_step hnumbered label, labels' ++ labels'', ?_⟩
  rw [hstep, hfence, Machine.run_append]

/-! ### Projections never go back in time -/

/-- The phase of a call that applied is final. -/
theorem apply_final {i : Nat} {now : Time} {call : RefreshCall} (replied : Bool)
    (h : w.Applies S i now call) :
    ∃ call', (w.apply S i now replied).calls[i]? = some call' ∧ call'.anchor = call.anchor ∧
      call'.generation = call.generation ∧ (phaseOf call'.phase).Final := by
  obtain ⟨hcall, projection, store, hphase, happly⟩ := h
  obtain ⟨anchor, generation, phase⟩ := call
  obtain rfl : phase = .loaded projection := hphase
  refine ⟨⟨anchor, generation, if replied then .returned projection true else .failed⟩, ?_, rfl,
    rfl, ?_⟩
  · unfold apply
    simp only [hcall, happly]
    show (w.calls.modify i _)[i]? = _
    rw [List.getElem?_modify, hcall]
    simp
  · cases replied with
    | true => trivial
    | false => trivial

/-- A call that applies holds the generation of its anchor. -/
theorem Applies.current (h : w.Numbered) {i : Nat} {now : Time} {call : RefreshCall}
    (happlies : w.Applies S i now call) :
    (S.register w.store call.anchor.key).generation = call.generation := by
  obtain ⟨hcall, projection, store, -, happly⟩ := happlies
  by_contra hne
  have hstale := S.apply_stale w.store now ⟨call.anchor, call.generation, projection⟩
    (h call (List.mem_of_getElem? hcall)) hne
  rw [hstale] at happly
  cases happly

/-- The calls on a store without calls are fenced. -/
theorem sound_start (store : σ) : ((RefreshWorld.mk store []).fence S).Sound where
  older := by
    intro i j a b ha
    cases ha
  bounded := by
    intro i a ha
    cases ha
  current := by
    intro i a ha
    cases ha
  applied := by
    intro i a value ha
    cases ha
  superseded := by
    intro i a value ha
    cases ha

/-- A run of the calls on a store without calls. -/
def runFrom (S : AnchorStore σ) (store : σ) (labels : List RefreshLabel) : RefreshWorld σ :=
  Machine.run (step S) ⟨store, []⟩ labels

theorem numbered_run (store : σ) (labels : List RefreshLabel) :
    (runFrom S store labels).Numbered :=
  Machine.invariant_run Numbered (fun _ label h => numbered_step h label)
    (fun _ hmem => by cases hmem) labels

/-- Every run keeps the fence. -/
theorem sound_run (store : σ) (labels : List RefreshLabel) :
    ((runFrom S store labels).fence S).Sound := by
  have hstart : (RefreshWorld.mk store []).Numbered := fun _ hmem => by cases hmem
  obtain ⟨labels', hfence⟩ := fence_run (S := S) hstart labels
  unfold runFrom
  rw [hfence]
  exact (sound_start store).run labels'

theorem runFrom_append (store : σ) (first rest : List RefreshLabel) :
    runFrom S store (first ++ rest) = Machine.run (step S) (runFrom S store first) rest :=
  Machine.run_append _ _ _ _

end RefreshWorld

/-- The stores that the control plane is built on. -/
inductive AnchorBackend where
  | memory
  | firestore
  deriving DecidableEq, Repr

/-- What a store keeps. -/
def AnchorBackend.State : AnchorBackend → Type
  | .memory => MemoryAnchors
  | .firestore => AnchorDocuments

/-- The operations of a store. -/
def AnchorBackend.store : (backend : AnchorBackend) → AnchorStore backend.State
  | .memory => memoryAnchors
  | .firestore => firestoreAnchors

namespace RefreshWorld

/-- Projections of an anchor never go back in time, whatever store keeps them and however the calls
interleave.  A call applies only when no other has begun since; calls that apply in turn have
increasing generations, and the later one began to load after the earlier one had begun; a begin
leaves what is read as it is; and when all calls have returned, the store holds what the call with
the highest generation loaded. -/
theorem anchor_refreshes (backend : AnchorBackend) (store : backend.State)
    (labels : List RefreshLabel) :
    (∀ first i now replied rest call, labels = first ++ .apply i now replied :: rest →
      (runFrom backend.store store first).Applies backend.store i now call →
      ∀ (j : Nat) (other : RefreshCall),
        (runFrom backend.store store first).calls[j]? = some other →
        other.anchor.key = call.anchor.key → j ≤ i) ∧
    (∀ first i now replied mid j now' replied' rest call call',
      labels = first ++ .apply i now replied :: mid ++ .apply j now' replied' :: rest →
      (runFrom backend.store store first).Applies backend.store i now call →
      (runFrom backend.store store (first ++ .apply i now replied :: mid)).Applies backend.store j
        now' call' →
      call'.anchor.key = call.anchor.key →
      call.generation < call'.generation ∧
        ∀ before after, labels = before ++ .load j :: after →
          (runFrom backend.store store before).Loads j →
          i < (runFrom backend.store store before).calls.length) ∧
    (∀ first anchor deleted rest, labels = first ++ .begin anchor deleted :: rest →
      ∀ other, backend.store.read
        (runFrom backend.store store (first ++ [.begin anchor deleted])).store other =
          backend.store.read (runFrom backend.store store first).store other) ∧
    (∀ (i : Nat) (call : RefreshCall),
      (runFrom backend.store store labels).calls[i]? = some call →
      (∀ (j : Nat) (other : RefreshCall),
        (runFrom backend.store store labels).calls[j]? = some other →
        other.anchor.key = call.anchor.key →
        ∃ projection applied, other.phase = .returned projection applied) →
      ∃ (j : Nat) (last : RefreshCall),
        (runFrom backend.store store labels).calls[j]? = some last ∧
        last.anchor.key = call.anchor.key ∧
        (∀ (k : Nat) (other : RefreshCall),
          (runFrom backend.store store labels).calls[k]? = some other →
          other.anchor.key = call.anchor.key → other.generation ≤ last.generation) ∧
        last.phase = .returned (backend.store.register
          (runFrom backend.store store labels).store call.anchor.key).value true) := by
  refine ⟨?_, ?_, ?_, ?_⟩
  · intro first i now replied rest call _ happlies j other hother hkey
    have hcurrent := happlies.current (numbered_run store first)
    exact (sound_run store first).latest (fence_attempt_of happlies.1) hcurrent
      (fence_attempt_of hother) hkey
  · intro first i now replied mid j now' replied' rest call call' _ happlies happlies' hkey
    have hlater := runFrom_append (S := backend.store) store first (.apply i now replied :: mid)
    generalize hw' : runFrom backend.store store (first ++ .apply i now replied :: mid) = w'
      at happlies' hlater
    have hsound : (w'.fence backend.store).Sound := hw' ▸ sound_run store _
    have hnumbered : w'.Numbered := hw' ▸ numbered_run store _
    -- the call that applied first is final, and stays as it is
    obtain ⟨done, hdone, hdoneAnchor, hdoneGen, hfinal⟩ := apply_final replied happlies
    have hnext : ((runFrom backend.store store first).apply backend.store i now replied).Numbered :=
      numbered_step (numbered_run store first) (.apply i now replied)
    obtain ⟨labels', hfence⟩ := fence_run (S := backend.store) hnext mid
    obtain ⟨a, ha, hakey, hagen, hsame⟩ :=
      (FencedRefresh.run_onward (((runFrom backend.store store first).apply backend.store i now
        replied).fence backend.store) labels').attempt i _ (fence_attempt_of hdone)
    have hmid : w' = Machine.run (step backend.store)
        ((runFrom backend.store store first).apply backend.store i now replied) mid := hlater
    rw [← hfence, ← hmid] at ha
    have hcurrent' := happlies'.current hnumbered
    obtain ⟨hcall', projection, -, hphase, -⟩ := happlies'
    have hne : i ≠ j := by
      rintro rfl
      have hsame' := Option.some.inj (ha.symm.trans (fence_attempt_of hcall'))
      have hopen : (attempt call').phase.Final := hsame'.symm.trans (hsame hfinal) ▸ hfinal
      have hopen' : (phaseOf call'.phase).Final := hopen
      rw [hphase] at hopen'
      exact hopen'
    have hkeys : (attempt call').key = a.key := by
      rw [hakey]
      exact hkey.trans (congrArg GithubAnchor.key hdoneAnchor).symm
    obtain ⟨hlt, hgen⟩ := hsound.later ha (fence_attempt_of hcall') hkeys hcurrent' hne
    refine ⟨?_, ?_⟩
    · rw [hagen] at hgen
      exact hdoneGen ▸ hgen
    · intro before after _ hloads
      obtain ⟨loading, hloading, -⟩ := hloads
      have := (List.getElem?_eq_some_iff.1 hloading).1
      omega
  · intro first anchor deleted rest _ other
    rw [runFrom_append]
    exact backend.store.begin_read _ anchor other
  · intro i call hcall hreturned
    have hsound := sound_run (S := backend.store) store labels
    obtain ⟨j, a, ha, hkey, hphase, hhighest⟩ :=
      hsound.settled (fence_attempt_of hcall) fun j b hb hkey => by
        rw [fence_attempt] at hb
        obtain ⟨other, hother, rfl⟩ := Option.map_eq_some_iff.1 hb
        obtain ⟨projection, applied, hphase⟩ := hreturned j other hother hkey
        exact ⟨projection, applied, congrArg phaseOf hphase⟩
    rw [fence_attempt] at ha
    obtain ⟨last, hlast, rfl⟩ := Option.map_eq_some_iff.1 ha
    refine ⟨j, last, hlast, hkey, ?_, ?_⟩
    · intro k other hother hkey'
      exact hhighest k _ (fence_attempt_of hother) hkey'
    · have hphase' : phaseOf last.phase = .returned (backend.store.register
          (runFrom backend.store store labels).store call.anchor.key).value true := hphase
      cases hlastPhase : last.phase with
      | begun => rw [hlastPhase] at hphase'; cases hphase'
      | loading => rw [hlastPhase] at hphase'; cases hphase'
      | loaded projection => rw [hlastPhase] at hphase'; cases hphase'
      | failed => rw [hlastPhase] at hphase'; cases hphase'
      | returned projection applied =>
        rw [hlastPhase] at hphase'
        injection hphase' with hprojection happlied
        rw [hprojection, happlied]

section Witness

/-- An open issue. -/
def shownIssue : GithubAnchorProjection where
  anchor := ⟨"owner/repo", 7⟩
  kind := .issue
  state := .open
  title := "An issue"
  body := ""
  url := "https://github.com/owner/repo/issues/7"
  author := none
  labels := []
  assigneeLogins := []
  lastComment := none
  parentNumber := none
  subIssues := none
  linkedIssueNumbers := none
  createdAt := none
  headRefName := none
  headSha := none
  headRepository := none
  draft := none
  mergedAt := none
  mergeableState := none
  autoMergeEnabled := none
  reviewRequirement := none
  requestedReviewerLogins := none
  failingChecks := none
  checkRuns := none
  ciRunning := none
  unresolvedReviewThreadCount := none
  unresolvedReviewThreadIds := none
  checksTruncated := none
  reviewThreadsTruncated := none
  sourceUpdatedAt := "2026-01-02T03:04:05Z"
  observedAt := "2026-01-02T03:04:06Z"

/-- The issue is refreshed; while that call loads it is refreshed again, and that call applies. -/
def overlappingRefreshes : List RefreshLabel :=
  [.begin shownIssue.anchor false, .load 0, .begin shownIssue.anchor false, .load 1,
    .loaded 0 (.ok { shownIssue with state := .closed }), .loaded 1 (.ok shownIssue),
    .apply 1 2000 true, .apply 0 3000 true]

/-- The calls of the run, when both have returned. -/
theorem calls_overlapping : (runFrom AnchorBackend.firestore.store OrderedMap.empty
    overlappingRefreshes).calls =
      [⟨shownIssue.anchor, 1, .returned (some { shownIssue with state := .closed }) false⟩,
        ⟨shownIssue.anchor, 2, .returned (some shownIssue) true⟩] := by
  decide +kernel

/-- Both calls have returned, and the store holds what the later one loaded. -/
theorem anchor_refreshes_overlapping : ∃ (j : Nat) (last : RefreshCall),
    (runFrom AnchorBackend.firestore.store OrderedMap.empty overlappingRefreshes).calls[j]? =
      some last ∧
    last.phase = .returned (AnchorBackend.firestore.store.register (runFrom
      AnchorBackend.firestore.store OrderedMap.empty overlappingRefreshes).store
        shownIssue.anchor.key).value true := by
  obtain ⟨-, -, -, hsettled⟩ :=
    anchor_refreshes .firestore OrderedMap.empty overlappingRefreshes
  have hfirst : (runFrom AnchorBackend.firestore.store OrderedMap.empty
      overlappingRefreshes).calls[0]? = some ⟨shownIssue.anchor, 1,
        .returned (some { shownIssue with state := .closed }) false⟩ := by
    rw [calls_overlapping]
    rfl
  obtain ⟨j, last, hlast, -, -, hphase⟩ := hsettled 0 _ hfirst fun j other hother _ => by
    rw [calls_overlapping] at hother
    rcases List.mem_pair.1 (List.mem_of_getElem? hother) with rfl | rfl
    · exact ⟨_, _, rfl⟩
    · exact ⟨_, _, rfl⟩
  exact ⟨j, last, hlast, hphase⟩

end Witness

end RefreshWorld

end AgentLcars
