import AgentLcars.Orchestrator
import AgentLcars.WorkSpec

/-!
# Minting items

`work-authorization.ts`, `work-grants.ts`, `work-provider-fallback.ts` and `work-mint.ts`: who may
ask for an item, and the request that creates it by its id.  `mintItem` reads the task before it
requests one, so it is modelled in two parts that other steps may come between.
-/

namespace AgentLcars

/-! ### Authority -/

/-- What a caller may ask for. -/
structure WorkAuthority where
  principal : String
  pipelines : List String
  sourceRepository : Option String := none

/-- A recognized caller. -/
structure WorkPrincipal extends WorkAuthority where
  scopes : List String

/-- The part of a grant that a principal is looked up by and that names what it may request. -/
structure WorkGrant where
  principal : String
  pipelines : List String

def grantForPrincipal (principal : String) (grants : List WorkGrant) : Option WorkGrant :=
  grants.find? (·.principal = principal)

/-- Repository identity is a restriction on authority, never another grant. -/
def repositoryForbiddenReason (admitted : String → Bool) (sourceRepository : Option String)
    (repository : String) : Option String :=
  if ¬admitted repository then
    some ("native work items can only target a control-plane repository (" ++ repository ++
      " is not admitted)")
  else if sourceRepository.any fun source => source.toLower ≠ repository.toLower then
    some "Caller repository does not match target repository"
  else none

/-- Shared capability policy. -/
def workForbiddenReason (admitted : String → Bool) (authority : WorkAuthority)
    (pipeline repository : String) : Option String :=
  if ¬authority.pipelines.contains pipeline then
    some (authority.principal ++ " may not request pipeline " ++ pipeline)
  else repositoryForbiddenReason admitted authority.sourceRepository repository

/-- Repository-bound callers cannot reach another repository's work. -/
def mayAccessStoredWork (admitted : String → Bool) (authority : WorkAuthority) (work : Json) : Bool :=
  match authority.sourceRepository with
  | none => true
  | some _ => (storedWorkPayloadSchema work).any fun payload =>
    (repositoryForbiddenReason admitted authority.sourceRepository payload.2.repository).isNone

/-- The ordered alternatives the principal may use; nothing is answered when they do not parse. -/
def authorizeProviderFallback (principal : WorkAuthority) (pipeline : String)
    (alternatives : Option (List String)) : Option (Option ProviderFallbackRequest) :=
  match alternatives with
  | none => some none
  | some alternatives => do
    let parsed ← fallbackPipelinesSchema (.arr (alternatives.map .str))
    let allowedPipelines := parsed.filter fun candidate =>
      candidate ≠ pipeline ∧ principal.pipelines.contains candidate
    if allowedPipelines = [] then some none
    else some (some { principal := principal.principal, allowedPipelines
                      sourceRepository := principal.sourceRepository })

/-! ### Minting -/

/-- The comparison of a stored payload with the specification asked for; nothing is answered when
the payload does not parse. -/
def storedCompatible (stored : WorkPayload) (spec : WorkSpec) : Option Bool := do
  let payload ← storedWorkPayloadSchema (.obj stored)
  sameSpec payload.2.toJson spec.toJson

/-- `work: { origin, spec }`. -/
def itemWork (origin : WorkOrigin) (spec : WorkSpec) : WorkPayload :=
  [("origin", origin.toJson), ("spec", spec.toJson)]

/-- The request that `mintItem` makes. -/
def mintRequest (id : String) (origin : WorkOrigin) (spec : WorkSpec)
    (providerFallback : Option ProviderFallbackRequest) : RequestInput :=
  { taskId := .work id
    requestId := id
    pipeline := spec.pipeline
    priority := some spec.priority
    providerFallback
    params := some [("mode", "implement")]
    work := some (itemWork origin spec)
    isStoredWorkCompatible := some fun stored _ => (storedCompatible stored spec).getD false }

/-- What `mintItem` reads about the item before it asks for it. -/
inductive Existing where
  | absent
  | same
  | different
  | unreadable
  deriving DecidableEq

/-- The item stands for the specification already. -/
def existingItem (s : Store) (id : String) (spec : WorkSpec) : Existing :=
  match s.tasks.get (taskKey (.work id)) with
  | none => .absent
  | some task =>
    match storedCompatible task.task.work spec with
    | none => .unreadable
    | some true => .same
    | some false => .different

/-- What the transaction of a mint comes to. -/
inductive Minting where
  | minted
  | conflict
  | threw (message : String)

/-- The transaction of a mint.  Its comparison throws on a stored payload that does not parse, and
then the transaction does nothing. -/
def mintTransaction (s : Store) (now : Time) (id : String) (input : RequestInput) (spec : WorkSpec) :
    Minting :=
  match existingItem s id spec with
  | .unreadable => .threw "storedWorkPayloadSchema"
  | _ =>
    match (Orchestrator.request s now input).1 with
    | .ok _ => .minted
    | .error (.refusal _) => .conflict
    | .error (.threw message) => .threw message

/-- The item exists and its stored specification is the given one. -/
def Store.ItemHolds (s : Store) (id : String) (spec : WorkSpec) : Prop :=
  ∃ task, s.tasks.get (taskKey (.work id)) = some task ∧ task.task.work.workSpec = some spec

section Mint

variable {s : Store} {id : String} {spec : WorkSpec}

theorem workSpec_of_compatible {stored : WorkPayload} (hspec : spec.Valid)
    (h : storedCompatible stored spec = some true) : stored.workSpec = some spec := by
  obtain ⟨⟨origin, payload⟩, hpayload, hsame⟩ := Option.bind_eq_some_iff.1 h
  exact workSpec_of_sameSpec hspec hpayload hsame

theorem workSpec_itemWork (origin : WorkOrigin) (hspec : spec.Valid) :
    (itemWork origin spec).workSpec = some spec :=
  hspec.roundTrip

theorem existingItem_same (hspec : spec.Valid) (h : existingItem s id spec = .same) :
    s.ItemHolds id spec := by
  unfold existingItem at h
  split at h
  · cases h
  rename_i task htask
  split at h
  · cases h
  · rename_i hcompatible
    exact ⟨task, htask, workSpec_of_compatible hspec hcompatible⟩
  · cases h

end Mint

end AgentLcars
