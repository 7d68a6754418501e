import AgentLcars.Model

/-!
# Work specifications

`libs/work/src/spec.ts`: what a native work item asks for, as it is parsed from the payload that the
orchestrator stores and never reads.  A parsed specification is rendered field by field in the order
of the schema, so two of them are rendered alike exactly when they are equal, and what was rendered
parses to itself.
-/

namespace AgentLcars

def WORK_TITLE_MAX : Nat := 256

/-- Fits the workflow input budget with room for the other inputs. -/
def WORK_DESCRIPTION_MAX : Nat := 16384

/-- The public coding pipelines. -/
def PIPELINES : List String := ["claude", "codex", "opencode", "agy"]

/-- The pipelines of internal reading work. -/
def SUMMARY_PIPELINES : List String := ["inbox-summary", "handoff-summary"]

/-- The delivery channels an origin may name. -/
def WORK_CHANNELS : List String := ["api", "cron", "console", "github", "linear", "slack"]

/-! ### Parsers -/

/-- `z.strictObject`: the fields of an object that has no others. -/
def strictObject (names : List String) : Json → Option (List (String × Json))
  | .obj fields => if fields.all fun field => names.contains field.1 then some fields else none
  | _ => none

/-- A string that meets the condition. -/
def stringOf (accepts : String → Bool) : Json → Option String
  | .str text => if accepts text then some text else none
  | _ => none

/-- `.optional()`. -/
def optional {α : Type} (parse : Json → Option α) : Option Json → Option (Option α)
  | none => some none
  | some value => (parse value).map some

/-- `z.string().min(1).max(n)`. -/
def nonemptyUpTo (n : Nat) (text : String) : Bool := 1 ≤ jsLength text ∧ jsLength text ≤ n

/-- The characters of a repository name. -/
def isRepoChar (c : Char) : Bool := c.isAlphanum ∨ c = '_' ∨ c = '.' ∨ c = '-'

/-- `/^[\w.-]+\/[\w.-]+$/u`. -/
def isRepo (text : String) : Bool :=
  match text.toList.takeWhile isRepoChar, text.toList.dropWhile isRepoChar with
  | _ :: _, '/' :: name => !name.isEmpty && name.all isRepoChar
  | _, _ => false

/-- `workTargetSchema`. -/
def workTargetSchema (value : Json) : Option String := do
  let fields ← strictObject ["repo"] value
  (fields.lookup "repo").bind (stringOf isRepo)

/-- `fallbackPipelinesSchema`: distinct alternatives in order. -/
def fallbackPipelinesSchema : Json → Option (List String)
  | .arr items => do
    let pipelines ← items.mapM (stringOf fun text => PIPELINES.contains text)
    if pipelines.length ≤ PIPELINES.length - 1 ∧ pipelines.Nodup then some pipelines else none
  | _ => none

/-- The words of the queue priorities. -/
def QueuePriority.word : QueuePriority → String
  | .urgent => "urgent"
  | .normal => "normal"
  | .background => "background"

/-- A queue priority. -/
def queuePrioritySchema : Json → Option QueuePriority
  | .str text => [QueuePriority.urgent, .normal, .background].find? (·.word = text)
  | _ => none

/-! ### Specifications -/

/-- `WorkSpec`, parsed. -/
structure WorkSpec where
  title : String
  description : String
  pipeline : String
  priority : QueuePriority
  fallbackPipelines : Option (List String)
  deliveryRuntime : Option String
  deliverable : Option String
  repo : String
  deriving DecidableEq, Repr

/-- `workSpecSchema`. -/
def workSpecSchema (value : Json) : Option WorkSpec := do
  let fields ← strictObject ["title", "description", "pipeline", "priority", "fallbackPipelines",
    "deliveryRuntime", "deliverable", "target"] value
  let title ← (fields.lookup "title").bind (stringOf (nonemptyUpTo WORK_TITLE_MAX))
  let description ←
    (fields.lookup "description").bind (stringOf (nonemptyUpTo WORK_DESCRIPTION_MAX))
  let pipeline ← (fields.lookup "pipeline").bind (stringOf fun text => PIPELINES.contains text)
  let priority ← optional queuePrioritySchema (fields.lookup "priority")
  let fallbackPipelines ← optional fallbackPipelinesSchema (fields.lookup "fallbackPipelines")
  let deliveryRuntime ←
    optional (stringOf fun text => ["none", "required"].contains text)
      (fields.lookup "deliveryRuntime")
  let deliverable ←
    optional (stringOf fun text => ["report"].contains text) (fields.lookup "deliverable")
  let repo ← (fields.lookup "target").bind workTargetSchema
  -- Fallback pipelines must differ from the requested pipeline.
  if fallbackPipelines.any (·.contains pipeline) then none
  else some { title, description, pipeline, priority := priority.getD .normal, fallbackPipelines
              deliveryRuntime, deliverable, repo }

/-- A field that is left out when it is undefined. -/
def optionalField (name : String) (value : Option Json) : List (String × Json) :=
  value.toList.map fun value => (name, value)

/-- A parsed specification, in the order of its schema. -/
def WorkSpec.toJson (spec : WorkSpec) : Json :=
  .obj ([("title", .str spec.title), ("description", .str spec.description),
      ("pipeline", .str spec.pipeline), ("priority", .str spec.priority.word)] ++
    optionalField "fallbackPipelines" (spec.fallbackPipelines.map fun ps => .arr (ps.map .str)) ++
    optionalField "deliveryRuntime" (spec.deliveryRuntime.map .str) ++
    optionalField "deliverable" (spec.deliverable.map .str) ++
    [("target", .obj [("repo", .str spec.repo)])])

/-- What `workSpecSchema` has checked. -/
structure WorkSpec.Valid (spec : WorkSpec) : Prop where
  title : nonemptyUpTo WORK_TITLE_MAX spec.title = true
  description : nonemptyUpTo WORK_DESCRIPTION_MAX spec.description = true
  pipeline : PIPELINES.contains spec.pipeline = true
  fallbacks : ∀ pipelines ∈ spec.fallbackPipelines,
    (∀ p ∈ pipelines, PIPELINES.contains p = true) ∧ pipelines.length ≤ PIPELINES.length - 1 ∧
      pipelines.Nodup ∧ pipelines.contains spec.pipeline = false
  runtime : ∀ runtime ∈ spec.deliveryRuntime, ["none", "required"].contains runtime = true
  deliverable : ∀ deliverable ∈ spec.deliverable, ["report"].contains deliverable = true
  repo : isRepo spec.repo = true

section RoundTrip

variable {value : Json} {spec : WorkSpec}

theorem stringOf_eq_some {accepts : String → Bool} {text : String}
    (h : stringOf accepts value = some text) : accepts text = true := by
  cases value with
  | str given =>
    simp only [stringOf, Option.ite_none_right_eq_some, Option.some.injEq] at h
    exact h.2 ▸ h.1
  | _ => cases h

theorem stringOf_str {accepts : String → Bool} {text : String} (h : accepts text = true) :
    stringOf accepts (.str text) = some text :=
  if_pos h

theorem mapM_stringOf {accepts : String → Bool} {items : List Json} {texts : List String}
    (h : items.mapM (stringOf accepts) = some texts) : ∀ text ∈ texts, accepts text = true := by
  induction items generalizing texts with
  | nil =>
    obtain rfl : [] = texts := Option.some.inj h
    intro text hmem
    cases hmem
  | cons item items ih =>
    rw [List.mapM_cons] at h
    obtain ⟨first, hfirst, h⟩ := Option.bind_eq_some_iff.1 h
    obtain ⟨rest, hrest, h⟩ := Option.bind_eq_some_iff.1 h
    obtain rfl : first :: rest = texts := Option.some.inj h
    intro text hmem
    rcases List.mem_cons.1 hmem with rfl | hmem
    · exact stringOf_eq_some hfirst
    · exact ih hrest text hmem

theorem mapM_stringOf_str {accepts : String → Bool} {texts : List String}
    (h : ∀ text ∈ texts, accepts text = true) :
    (texts.map Json.str).mapM (stringOf accepts) = some texts := by
  induction texts with
  | nil => rfl
  | cons text texts ih =>
    rw [List.map_cons, List.mapM_cons, ih fun t ht => h t (List.mem_cons_of_mem _ ht)]
    simp [stringOf, h text (List.mem_cons_self ..)]

theorem optional_eq_some {α : Type} {parse : Json → Option α} {given : Option Json} {parsed : Option α}
    (h : optional parse given = some parsed) {a : α} (ha : a ∈ parsed) :
    ∃ value, parse value = some a := by
  cases given with
  | none =>
    obtain rfl : none = parsed := Option.some.inj h
    cases ha
  | some value =>
    obtain ⟨b, hb, rfl⟩ := Option.map_eq_some_iff.1 h
    obtain rfl : b = a := Option.some.inj ha
    exact ⟨value, hb⟩

theorem queuePriority_find (priority : QueuePriority) :
    [QueuePriority.urgent, .normal, .background].find? (·.word = priority.word) = some priority := by
  cases priority <;> rfl

/-- A parsed specification was checked. -/
theorem workSpecSchema_valid (h : workSpecSchema value = some spec) : spec.Valid := by
  unfold workSpecSchema at h
  obtain ⟨fields, -, h⟩ := Option.bind_eq_some_iff.1 h
  obtain ⟨title, htitle, h⟩ := Option.bind_eq_some_iff.1 h
  obtain ⟨description, hdescription, h⟩ := Option.bind_eq_some_iff.1 h
  obtain ⟨pipeline, hpipeline, h⟩ := Option.bind_eq_some_iff.1 h
  obtain ⟨priority, -, h⟩ := Option.bind_eq_some_iff.1 h
  obtain ⟨fallbackPipelines, hfallbacks, h⟩ := Option.bind_eq_some_iff.1 h
  obtain ⟨deliveryRuntime, hruntime, h⟩ := Option.bind_eq_some_iff.1 h
  obtain ⟨deliverable, hdeliverable, h⟩ := Option.bind_eq_some_iff.1 h
  obtain ⟨repo, hrepo, h⟩ := Option.bind_eq_some_iff.1 h
  obtain ⟨_, -, htitle⟩ := Option.bind_eq_some_iff.1 htitle
  obtain ⟨_, -, hdescription⟩ := Option.bind_eq_some_iff.1 hdescription
  obtain ⟨_, -, hpipeline⟩ := Option.bind_eq_some_iff.1 hpipeline
  obtain ⟨_, -, htarget⟩ := Option.bind_eq_some_iff.1 hrepo
  obtain ⟨_, -, htarget⟩ := Option.bind_eq_some_iff.1 htarget
  obtain ⟨_, -, htarget⟩ := Option.bind_eq_some_iff.1 htarget
  split_ifs at h with hdistinct
  obtain rfl := Option.some.inj h
  refine ⟨stringOf_eq_some htitle, stringOf_eq_some hdescription, stringOf_eq_some hpipeline, ?_, ?_,
    ?_, stringOf_eq_some htarget⟩
  · intro pipelines hpipelines
    obtain ⟨given, hgiven⟩ := optional_eq_some hfallbacks hpipelines
    cases given with
    | arr items =>
      obtain ⟨parsed, hparsed, hgiven⟩ := Option.bind_eq_some_iff.1 hgiven
      split_ifs at hgiven with hbounds
      obtain rfl := Option.some.inj hgiven
      refine ⟨mapM_stringOf hparsed, hbounds.1, hbounds.2, ?_⟩
      have hsome : fallbackPipelines = some parsed := hpipelines
      rw [hsome, Option.any_some] at hdistinct
      simpa using hdistinct
    | _ => cases hgiven
  · intro runtime hmem
    obtain ⟨given, hgiven⟩ := optional_eq_some hruntime hmem
    exact stringOf_eq_some hgiven
  · intro kind hmem
    obtain ⟨given, hgiven⟩ := optional_eq_some hdeliverable hmem
    exact stringOf_eq_some hgiven

theorem optional_map {α : Type} {parse : Json → Option α} {render : α → Json} {parsed : Option α}
    (h : ∀ a ∈ parsed, parse (render a) = some a) :
    optional parse (parsed.map render) = some parsed := by
  cases parsed with
  | none => rfl
  | some a => simp [optional, h a rfl]

theorem lookup_optionalField (name : String) (value : Option Json) (rest : List (String × Json))
    (wanted : String) : (optionalField name value ++ rest).lookup wanted =
      if wanted = name then value.or (rest.lookup wanted) else rest.lookup wanted := by
  cases value with
  | none => simp [optionalField]
  | some value =>
    by_cases h : wanted = name
    · simp [optionalField, h]
    · simp [optionalField, List.lookup_cons, h, beq_false_of_ne h]

/-- A checked specification is parsed from its own rendering. -/
theorem WorkSpec.Valid.roundTrip (h : spec.Valid) : workSpecSchema spec.toJson = some spec := by
  obtain ⟨fields, hfields⟩ : ∃ fields, spec.toJson = .obj fields := ⟨_, rfl⟩
  have hjson := Json.obj.inj hfields
  have hnames : strictObject ["title", "description", "pipeline", "priority", "fallbackPipelines",
      "deliveryRuntime", "deliverable", "target"] spec.toJson = some fields := by
    rw [hfields, strictObject, if_pos]
    simp [← hjson, optionalField]
  have htitle : fields.lookup "title" = some (.str spec.title) := by rw [← hjson]; rfl
  have hdescription : fields.lookup "description" = some (.str spec.description) := by
    rw [← hjson]; rfl
  have hpipeline : fields.lookup "pipeline" = some (.str spec.pipeline) := by rw [← hjson]; rfl
  have hpriority : fields.lookup "priority" = some (.str spec.priority.word) := by rw [← hjson]; rfl
  have hfallbacks : fields.lookup "fallbackPipelines" =
      spec.fallbackPipelines.map fun ps => .arr (ps.map .str) := by
    simp [← hjson, List.append_assoc, List.lookup_cons, List.lookup_nil, lookup_optionalField]
  have hruntime : fields.lookup "deliveryRuntime" = spec.deliveryRuntime.map .str := by
    simp [← hjson, List.append_assoc, List.lookup_cons, List.lookup_nil, lookup_optionalField]
  have hdeliverable : fields.lookup "deliverable" = spec.deliverable.map .str := by
    simp [← hjson, List.append_assoc, List.lookup_cons, List.lookup_nil, lookup_optionalField]
  have htarget : fields.lookup "target" = some (.obj [("repo", .str spec.repo)]) := by
    simp [← hjson, List.append_assoc, List.lookup_cons, lookup_optionalField]
  have hparsedFallbacks : optional fallbackPipelinesSchema
      (spec.fallbackPipelines.map fun ps => .arr (ps.map .str)) = some spec.fallbackPipelines := by
    refine optional_map fun pipelines hmem => ?_
    obtain ⟨hknown, hlength, hnodup, -⟩ := h.fallbacks pipelines hmem
    simp only [fallbackPipelinesSchema, mapM_stringOf_str hknown, Option.bind_eq_bind,
      Option.bind_some, if_pos (And.intro hlength hnodup)]
  have hparsedRuntime : optional (stringOf fun text => ["none", "required"].contains text)
      (spec.deliveryRuntime.map .str) = some spec.deliveryRuntime :=
    optional_map fun runtime hmem => stringOf_str (h.runtime runtime hmem)
  have hparsedDeliverable : optional (stringOf fun text => ["report"].contains text)
      (spec.deliverable.map .str) = some spec.deliverable :=
    optional_map fun kind hmem => stringOf_str (h.deliverable kind hmem)
  have hdistinct : (spec.fallbackPipelines.any (·.contains spec.pipeline)) = false := by
    cases hsome : spec.fallbackPipelines with
    | none => rfl
    | some pipelines => exact (h.fallbacks pipelines hsome).2.2.2
  have hparsedPriority : optional queuePrioritySchema (some (.str spec.priority.word)) =
      some (some spec.priority) :=
    congrArg (Option.map some) (queuePriority_find spec.priority)
  have hparsedTarget : workTargetSchema (.obj [("repo", .str spec.repo)]) = some spec.repo :=
    if_pos h.repo
  unfold workSpecSchema
  rw [hnames]
  simp only [Option.bind_eq_bind, Option.bind_some, htitle, hdescription, hpipeline, hpriority,
    hfallbacks, hruntime, hdeliverable, htarget, stringOf_str h.title, stringOf_str h.description,
    stringOf_str h.pipeline, hparsedPriority, hparsedFallbacks, hparsedRuntime, hparsedDeliverable,
    hparsedTarget, hdistinct, Option.getD_some, Bool.false_eq_true, if_false]

end RoundTrip

/-! ### Stored specifications -/

/-- `summaryWorkSpecSchema`: internal reading work. -/
structure SummaryWorkSpec where
  title : String
  description : String
  pipeline : String
  sourceKey : String
  deriving DecidableEq, Repr

/-- `recipeWorkSpecSchema`: one occurrence of a repository job. -/
structure RecipeWorkSpec where
  title : String
  description : String
  repo : String
  jobOccurrence : String
  deriving DecidableEq, Repr

/-- `StoredWorkSpec`. -/
inductive StoredWorkSpec where
  | work (spec : WorkSpec)
  | summary (spec : SummaryWorkSpec)
  | recipe (spec : RecipeWorkSpec)
  deriving DecidableEq, Repr

/-- `z.literal`. -/
def literalString (literal : String) : Json → Option String :=
  stringOf fun text => text = literal

def summaryWorkSpecSchema (value : Json) : Option SummaryWorkSpec := do
  let fields ← strictObject ["title", "description", "pipeline", "priority", "sourceKey"] value
  let title ← (fields.lookup "title").bind (stringOf (nonemptyUpTo WORK_TITLE_MAX))
  let description ←
    (fields.lookup "description").bind (stringOf (nonemptyUpTo WORK_DESCRIPTION_MAX))
  let pipeline ←
    (fields.lookup "pipeline").bind (stringOf fun text => SUMMARY_PIPELINES.contains text)
  let _ ← (fields.lookup "priority").bind (literalString "background")
  let sourceKey ← (fields.lookup "sourceKey").bind (stringOf (nonemptyUpTo 256))
  return { title, description, pipeline, sourceKey }

/-- `/^[a-f0-9]{64}$/u`. -/
def isOccurrence (text : String) : Bool :=
  text.toList.length = 64 ∧ text.toList.all fun c => c.isDigit ∨ ('a' ≤ c ∧ c ≤ 'f')

def recipeWorkSpecSchema (value : Json) : Option RecipeWorkSpec := do
  let fields ← strictObject ["title", "description", "pipeline", "priority", "target",
    "jobOccurrence"] value
  let title ← (fields.lookup "title").bind (stringOf (nonemptyUpTo WORK_TITLE_MAX))
  let description ←
    (fields.lookup "description").bind (stringOf (nonemptyUpTo WORK_DESCRIPTION_MAX))
  let _ ← (fields.lookup "pipeline").bind (literalString "goose")
  let _ ← (fields.lookup "priority").bind (literalString "background")
  let repo ← (fields.lookup "target").bind workTargetSchema
  let jobOccurrence ← (fields.lookup "jobOccurrence").bind (stringOf isOccurrence)
  return { title, description, repo, jobOccurrence }

/-- `storedWorkSpecSchema`: the first shape that accepts. -/
def storedWorkSpecSchema (value : Json) : Option StoredWorkSpec :=
  ((workSpecSchema value).map .work).or
    (((summaryWorkSpecSchema value).map .summary).or ((recipeWorkSpecSchema value).map .recipe))

/-- A parsed specification, in the order of its schema. -/
def StoredWorkSpec.toJson : StoredWorkSpec → Json
  | .work spec => spec.toJson
  | .summary spec => .obj [("title", .str spec.title), ("description", .str spec.description),
      ("pipeline", .str spec.pipeline), ("priority", .str "background"),
      ("sourceKey", .str spec.sourceKey)]
  | .recipe spec => .obj [("title", .str spec.title), ("description", .str spec.description),
      ("pipeline", .str "goose"), ("priority", .str "background"),
      ("target", .obj [("repo", .str spec.repo)]), ("jobOccurrence", .str spec.jobOccurrence)]

/-- `workRepository`. -/
def StoredWorkSpec.repository : StoredWorkSpec → String
  | .work spec => spec.repo
  | .summary _ => ""
  | .recipe spec => spec.repo

/-- Who asked for an item, and through which channel. -/
structure WorkOrigin where
  principal : String
  channel : String
  thread : Option String := none
  deriving DecidableEq, Repr

def workOriginSchema (value : Json) : Option WorkOrigin := do
  let fields ← strictObject ["principal", "channel", "thread"] value
  let principal ← (fields.lookup "principal").bind (stringOf (nonemptyUpTo 128))
  let channel ← (fields.lookup "channel").bind (stringOf fun text => WORK_CHANNELS.contains text)
  let thread ← optional (stringOf fun text => jsLength text ≤ 512) (fields.lookup "thread")
  return { principal, channel, thread }

def WorkOrigin.toJson (origin : WorkOrigin) : Json :=
  .obj ([("principal", .str origin.principal), ("channel", .str origin.channel)] ++
    optionalField "thread" (origin.thread.map .str))

/-- `storedWorkPayloadSchema`: an origin and a stored specification. -/
def storedWorkPayloadSchema (value : Json) : Option (WorkOrigin × StoredWorkSpec) := do
  let fields ← strictObject ["origin", "spec"] value
  let origin ← (fields.lookup "origin").bind workOriginSchema
  let spec ← (fields.lookup "spec").bind storedWorkSpecSchema
  return (origin, spec)

/-- `sameSpec`: both sides go through the same schema first; nothing is answered when one does not
parse. -/
def sameSpec (a b : Json) : Option Bool := do
  let a ← storedWorkSpecSchema a
  let b ← storedWorkSpecSchema b
  return a.toJson = b.toJson

/-- `workSpecSchema.safeParse(work?.spec)`. -/
def WorkPayload.workSpec (work : WorkPayload) : Option WorkSpec :=
  (work.lookup "spec").bind workSpecSchema

section Stored

variable {value : Json} {spec : WorkSpec}

theorem storedWorkSpecSchema_work :
    storedWorkSpecSchema value = some (.work spec) ↔ workSpecSchema value = some spec := by
  unfold storedWorkSpecSchema
  cases workSpecSchema value with
  | some parsed => simp
  | none =>
    cases summaryWorkSpecSchema value with
    | some parsed => simp
    | none => cases recipeWorkSpecSchema value <;> simp

/-- Only a coding specification is rendered as something a coding specification is parsed from. -/
theorem StoredWorkSpec.of_workSpecSchema {stored : StoredWorkSpec}
    (hstored : storedWorkSpecSchema value = some stored)
    (h : workSpecSchema stored.toJson = some spec) : stored = .work spec := by
  cases stored with
  | work parsed =>
    have hvalid := workSpecSchema_valid (storedWorkSpecSchema_work.1 hstored)
    rw [Option.some.inj (hvalid.roundTrip.symm.trans h)]
  | summary parsed => cases h
  | recipe parsed => cases h

/-- A stored payload that compares equal to a checked specification holds it. -/
theorem workSpec_of_sameSpec {work : WorkPayload} {origin : WorkOrigin} {stored : StoredWorkSpec}
    (hspec : spec.Valid) (hstored : storedWorkPayloadSchema (.obj work) = some (origin, stored))
    (hsame : sameSpec stored.toJson spec.toJson = some true) : work.workSpec = some spec := by
  obtain ⟨fields, hfields, hstored⟩ := Option.bind_eq_some_iff.1 hstored
  obtain ⟨_, -, hstored⟩ := Option.bind_eq_some_iff.1 hstored
  obtain ⟨parsed, hparsed, hstored⟩ := Option.bind_eq_some_iff.1 hstored
  obtain rfl : parsed = stored := congrArg Prod.snd (Option.some.inj hstored)
  obtain rfl : work = fields := (Option.ite_none_right_eq_some.1 hfields).2 |> Option.some.inj
  obtain ⟨value, hvalue, hparsed⟩ := Option.bind_eq_some_iff.1 hparsed
  obtain ⟨a, ha, hsame⟩ := Option.bind_eq_some_iff.1 hsame
  obtain ⟨b, hb, hsame⟩ := Option.bind_eq_some_iff.1 hsame
  have hjson : a.toJson = b.toJson := of_decide_eq_true (Option.some.inj hsame)
  obtain rfl : b = .work spec :=
    Option.some.inj (hb.symm.trans (storedWorkSpecSchema_work.2 hspec.roundTrip))
  have hwork : a = .work spec :=
    StoredWorkSpec.of_workSpecSchema ha (by rw [hjson]; exact hspec.roundTrip)
  rw [hwork, storedWorkSpecSchema_work] at ha
  rw [StoredWorkSpec.of_workSpecSchema hparsed ha, storedWorkSpecSchema_work] at hparsed
  rw [WorkPayload.workSpec, hvalue]
  exact hparsed

end Stored

end AgentLcars
