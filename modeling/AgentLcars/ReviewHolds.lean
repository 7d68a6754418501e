import Mathlib.Data.List.Induction
import Mathlib.Data.List.Sort
import AgentLcars.Lib.OrderedMap
import AgentLcars.Lib.Splitting
import AgentLcars.Model

/-!
# Holds on a delivery

`packages/fleet-tools/bin/worker-review.cjs`: whether a pull request may be marked ready or armed for
merge.  A draft conversion or a disabled auto-merge by someone else is a hold, until its actor takes
it back or the worker answers it.

* `rejection`: the checks, with the fold over the timeline that keeps one hold of each kind.
* `holdsAfter_iff`: the fold keeps the last hold of a kind, unless its actor takes it back.
* `rejection_keeps_holds_iff`: no hold is dropped exactly if no unresolved hold is overwritten.
-/

namespace AgentLcars

/-! ### Snapshots -/

/-- The events and comments that the timeline is queried for. -/
inductive TimelineType where
  | ConvertToDraftEvent
  | ReadyForReviewEvent
  | AutoMergeDisabledEvent
  | AutoMergeEnabledEvent
  | IssueComment
  deriving DecidableEq, Repr

def TimelineType.name : TimelineType → String
  | .ConvertToDraftEvent => "ConvertToDraftEvent"
  | .ReadyForReviewEvent => "ReadyForReviewEvent"
  | .AutoMergeDisabledEvent => "AutoMergeDisabledEvent"
  | .AutoMergeEnabledEvent => "AutoMergeEnabledEvent"
  | .IssueComment => "IssueComment"

/-- An event has an actor, a comment an author and a body. -/
structure TimelineItem where
  typename : TimelineType
  id : String
  createdAt : Time
  actor : Option String := none
  author : Option String := none
  body : String := ""
  deriving DecidableEq

/-- One page of labels. -/
structure LabelPage where
  nodes : Option (List String)
  hasNextPage : Option Bool

/-- A pull request as it was read; anything may be missing. -/
structure ReviewSnapshot where
  state : String
  headRefOid : Option String
  reviewDecision : Option String
  viewer : Option String
  labels : Option LabelPage
  threads : Option (List (Option Bool))
  timeline : Option (List TimelineItem)

/-! ### Holds -/

inductive HoldKind where
  | draft
  | merge
  deriving DecidableEq, Repr

/-- `kinds[event.__typename]`. -/
def kinds : TimelineType → Option HoldKind
  | .ConvertToDraftEvent => some .draft
  | .AutoMergeDisabledEvent => some .merge
  | _ => none

/-- `releases[event.__typename]`. -/
def releases : TimelineType → Option HoldKind
  | .ReadyForReviewEvent => some .draft
  | .AutoMergeEnabledEvent => some .merge
  | _ => none

abbrev HoldMap := OrderedMap HoldKind TimelineItem

/-- A later hold of the same kind takes the place of an earlier one. -/
def noteHold (viewer : String) (holds : HoldMap) (event : TimelineItem) : HoldMap :=
  match kinds event.typename with
  | some kind => if event.actor ≠ some viewer then holds.set kind event else holds
  | none => holds

/-- The actor of the hold that is kept takes it back. -/
def releaseHold (holds : HoldMap) (event : TimelineItem) : HoldMap :=
  match releases event.typename with
  | none => holds
  | some kind =>
    match holds.get kind with
    | none => holds
    | some previous =>
      if event.actor.any (· ≠ "") ∧ event.actor = previous.actor then holds.erase kind else holds

/-- The holds that are left after the events. -/
def holdsAfter (viewer : String) (events : List TimelineItem) : HoldMap :=
  events.foldl (fun holds event => releaseHold (noteHold viewer holds event) event) .empty

/-- The events in order of creation. -/
def eventsInOrder (timeline : List TimelineItem) : List TimelineItem :=
  timeline.mergeSort fun a b => a.createdAt ≤ b.createdAt

/-! ### Answers -/

/-- The text an answer to the hold carries for the current head. -/
def holdMarker (event : TimelineItem) (headRefOid : String) : String :=
  "<!-- lcars-hold-response:" ++ event.id ++ ":" ++ headRefOid ++ " -->"

/-- `body.replace(marker, '')`; nothing when the marker does not occur. -/
def removeFirst (marker : List Char) : List Char → Option (List Char)
  | [] => if marker = [] then some [] else none
  | c :: body =>
    if marker.isPrefixOf (c :: body) then some ((c :: body).drop marker.length)
    else (removeFirst marker body).map (c :: ·)

/-- The comment answers the hold. -/
def answers (viewer headRefOid : String) (event comment : TimelineItem) : Bool :=
  comment.typename = .IssueComment ∧ comment.author = some viewer ∧
    event.createdAt < comment.createdAt ∧
    (removeFirst (holdMarker event headRefOid).toList comment.body.toList).any
      (fun rest => 0 < (trim (String.ofList rest)).length)

/-! ### The checks -/

def holdRejection (event : TimelineItem) (headRefOid : String) : String :=
  "An external " ++ event.typename.name ++ " hold remains. Read the PR and anchor feedback, satisfy " ++
    "its stated gate, then explain the evidence on this PR with " ++ holdMarker event headRefOid ++
    ". This acknowledgment does not waive unresolved reviews or repository approvals."

/-- Why the pull request may not be marked ready or armed for merge; nothing when it may. -/
def rejection (snapshot : ReviewSnapshot) : Except String (Option String) :=
  if snapshot.state ≠ "OPEN" then .ok (some "The delivery PR is not open.")
  else match snapshot.labels.bind (·.nodes) with
  | none => .error "Incomplete PR labels"
  | some labels =>
    if snapshot.labels.bind (·.hasNextPage) ≠ some false then .error "Incomplete PR labels"
    else if labels.any (["status:needs-human", "status:blocked"].contains ·) then
      .ok (some ("The delivery PR is parked or blocked. Resolve its stated gate before marking ready " ++
        "or arming merge."))
    else if ¬snapshot.threads.any (·.all (· = some true)) then
      .ok (some "Resolve outstanding review threads before marking ready or arming merge.")
    else if snapshot.reviewDecision = some "CHANGES_REQUESTED" then
      .ok (some ("The delivery PR still has changes requested. Address the review before marking " ++
        "ready or arming merge."))
    else match snapshot.viewer, snapshot.headRefOid, snapshot.timeline with
    | some viewer, some headRefOid, some timeline =>
      if viewer = "" ∨ headRefOid = "" then .error "Incomplete review snapshot"
      else
        let events := eventsInOrder timeline
        match (holdsAfter viewer events).values.find? fun event =>
            ¬events.any (answers viewer headRefOid event) with
        | some event => .ok (some (holdRejection event headRefOid))
        | none => .ok none
    | _, _, _ => .error "Incomplete review snapshot"

/-! ### What the fold keeps -/

/-- A hold of the kind by someone other than the viewer. -/
def ExternalHold (viewer : String) (kind : HoldKind) (event : TimelineItem) : Prop :=
  kinds event.typename = some kind ∧ event.actor ≠ some viewer

/-- The matching event by the hold's own actor. -/
def TakesBack (kind : HoldKind) (hold event : TimelineItem) : Prop :=
  releases event.typename = some kind ∧ event.actor = hold.actor ∧
    event.actor.any (· ≠ "") = true

section Fold

variable {viewer : String} {kind : HoldKind} {holds : HoldMap} {event hold x : TimelineItem}
  {events before after : List TimelineItem}

instance : Decidable (ExternalHold viewer kind event) :=
  inferInstanceAs (Decidable (kinds event.typename = some kind ∧ event.actor ≠ some viewer))

instance : Decidable (TakesBack kind hold event) :=
  inferInstanceAs (Decidable (releases event.typename = some kind ∧ event.actor = hold.actor ∧
    event.actor.any (· ≠ "") = true))

/-- No event is both a hold and a release. -/
theorem releases_of_kinds {type : TimelineType} (h : kinds type = some kind) : releases type = none := by
  cases type <;> first | rfl | cases h

theorem noteHold_get_external (h : ExternalHold viewer kind event) :
    (noteHold viewer holds event).get kind = some event := by
  unfold noteHold
  rw [h.1]
  dsimp only
  rw [if_pos h.2, OrderedMap.get_set_self]

theorem noteHold_get_other (h : ¬ExternalHold viewer kind event) :
    (noteHold viewer holds event).get kind = holds.get kind := by
  unfold noteHold
  split
  · rename_i kind' hkind
    split_ifs with hactor
    · refine OrderedMap.get_set_of_ne _ _ ?_
      rintro rfl
      exact h ⟨hkind, hactor⟩
    · rfl
  · rfl

theorem releaseHold_get_back (hget : holds.get kind = some hold) (h : TakesBack kind hold event) :
    (releaseHold holds event).get kind = none := by
  unfold releaseHold
  rw [h.1]
  dsimp only
  rw [hget]
  dsimp only
  rw [if_pos ⟨h.2.2, h.2.1⟩, OrderedMap.get_erase, if_pos rfl]

theorem releaseHold_get_other (h : ∀ hold, holds.get kind = some hold → ¬TakesBack kind hold event) :
    (releaseHold holds event).get kind = holds.get kind := by
  unfold releaseHold
  split
  · rfl
  · rename_i kind' hkind
    split
    · rfl
    · rename_i previous hprevious
      split_ifs with hback
      · rw [OrderedMap.get_erase]
        refine if_neg ?_
        rintro rfl
        exact h previous hprevious ⟨hkind, hback.2, hback.1⟩
      · rfl

theorem holdsAfter_snoc : holdsAfter viewer (events ++ [x]) =
    releaseHold (noteHold viewer (holdsAfter viewer events) x) x := by
  unfold holdsAfter
  rw [List.foldl_append]
  rfl

/-- The hold is the last of its kind, and its actor does not take it back. -/
def Lasts (viewer : String) (kind : HoldKind) (hold : TimelineItem) (events : List TimelineItem) : Prop :=
  ∃ before after, events = before ++ hold :: after ∧ ExternalHold viewer kind hold ∧
    ∀ x ∈ after, ¬ExternalHold viewer kind x ∧ ¬TakesBack kind hold x

theorem lasts_snoc : Lasts viewer kind hold (events ++ [x]) ↔
    (x = hold ∧ ExternalHold viewer kind x) ∨
      (Lasts viewer kind hold events ∧ ¬ExternalHold viewer kind x ∧ ¬TakesBack kind hold x) := by
  constructor
  · rintro ⟨before, after, hsplit, hhold, hafter⟩
    rcases List.eq_nil_or_concat after with rfl | ⟨init, last, rfl⟩
    · obtain ⟨-, heq⟩ := List.append_inj' hsplit rfl
      obtain ⟨rfl, -⟩ := List.cons.inj heq
      exact .inl ⟨rfl, hhold⟩
    · rw [List.concat_eq_append] at hafter
      rw [List.concat_eq_append, ← List.cons_append, ← List.append_assoc] at hsplit
      obtain ⟨rfl, heq⟩ := List.append_inj' hsplit rfl
      obtain ⟨rfl, -⟩ := List.cons.inj heq
      exact .inr ⟨⟨before, init, rfl, hhold, fun y hy => hafter y (List.mem_append_left _ hy)⟩,
        hafter x (List.mem_append_right _ (List.mem_singleton_self x))⟩
  · rintro (⟨rfl, hhold⟩ | ⟨⟨before, after, rfl, hhold, hafter⟩, hx⟩)
    · exact ⟨events, [], rfl, hhold, fun y hy => absurd hy List.not_mem_nil⟩
    · refine ⟨before, after ++ [x], by simp, hhold, fun y hy => ?_⟩
      rcases List.mem_append.1 hy with hy | hy
      · exact hafter y hy
      · exact List.mem_singleton.1 hy ▸ hx

/-- The fold keeps the last hold of a kind, unless its actor takes it back. -/
theorem holdsAfter_iff :
    (holdsAfter viewer events).get kind = some hold ↔ Lasts viewer kind hold events := by
  induction events using List.reverseRecOn generalizing hold with
  | nil =>
    constructor
    · intro h
      cases h
    · rintro ⟨before, after, hsplit, -⟩
      cases before <;> cases hsplit
  | append_singleton events x ih =>
    rw [holdsAfter_snoc, lasts_snoc]
    by_cases hx : ExternalHold viewer kind x
    · -- the new hold is kept
      have hkept : ∀ y, ¬TakesBack kind y x := by
        rintro y ⟨hrelease, -⟩
        rw [releases_of_kinds hx.1] at hrelease
        cases hrelease
      rw [releaseHold_get_other fun y _ => hkept y, noteHold_get_external hx]
      constructor
      · rintro ⟨rfl⟩
        exact .inl ⟨rfl, hx⟩
      · rintro (⟨rfl, -⟩ | ⟨-, hnot, -⟩)
        · rfl
        · exact absurd hx hnot
    by_cases hback : ∃ y, (holdsAfter viewer events).get kind = some y ∧ TakesBack kind y x
    · -- the hold that was kept is taken back
      obtain ⟨y, hy, hback⟩ := hback
      rw [releaseHold_get_back ((noteHold_get_other hx).trans hy) hback, ← ih, hy]
      constructor
      · intro h
        cases h
      · rintro (⟨-, hhold⟩ | ⟨⟨rfl⟩, -, hnot⟩)
        · exact absurd hhold hx
        · exact absurd hback hnot
    · have hnone : ∀ y, (noteHold viewer (holdsAfter viewer events) x).get kind = some y →
          ¬TakesBack kind y x := fun y hy hb => hback ⟨y, noteHold_get_other hx ▸ hy, hb⟩
      rw [releaseHold_get_other hnone, noteHold_get_other hx, ← ih]
      constructor
      · exact fun hget => .inr ⟨hget, hx, fun hb => hback ⟨hold, hget, hb⟩⟩
      · rintro (⟨-, hhold⟩ | ⟨hget, -⟩)
        · exact absurd hhold hx
        · exact hget

end Fold

/-! ### What an answer is -/

section Answers

variable {marker body rest : List Char} {viewer headRefOid : String} {hold comment : TimelineItem}

theorem removeFirst_some (h : removeFirst marker body = some rest) :
    ∃ a b, body = a ++ marker ++ b ∧ rest = a ++ b := by
  induction body generalizing rest with
  | nil =>
    unfold removeFirst at h
    split_ifs at h with hnil
    obtain rfl := Option.some.inj h
    exact ⟨[], [], by rw [hnil]; rfl, rfl⟩
  | cons c body ih =>
    unfold removeFirst at h
    split_ifs at h with hprefix
    · obtain ⟨b, hb⟩ := List.isPrefixOf_iff_prefix.1 hprefix
      rw [← hb, List.drop_left] at h
      exact ⟨[], b, hb.symm, (Option.some.inj h).symm⟩
    · obtain ⟨rest', hrest, rfl⟩ := Option.map_eq_some_iff.1 h
      obtain ⟨a, b, rfl, rfl⟩ := ih hrest
      exact ⟨c :: a, b, rfl, rfl⟩

theorem removeFirst_isSome {a b : List Char} (h : body = a ++ marker ++ b) :
    ∃ rest, removeFirst marker body = some rest := by
  induction a generalizing body with
  | nil =>
    subst h
    cases hbody : marker ++ b with
    | nil =>
      obtain ⟨rfl, rfl⟩ := List.append_eq_nil_iff.1 hbody
      exact ⟨[], rfl⟩
    | cons c body =>
      rw [List.nil_append, hbody]
      unfold removeFirst
      rw [if_pos (List.isPrefixOf_iff_prefix.2 ⟨b, hbody⟩)]
      exact ⟨_, rfl⟩
  | cons c a ih =>
    subst h
    rw [List.cons_append, List.cons_append]
    unfold removeFirst
    split_ifs
    · exact ⟨_, rfl⟩
    · obtain ⟨rest, hrest⟩ := ih rfl
      rw [hrest]
      exact ⟨_, rfl⟩

/-- A text is blank when all of it is trimmed away. -/
theorem trim_pos_iff {text : String} :
    0 < (trim text).length ↔ ∃ c ∈ text.toList, isTrimmed c = false := by
  constructor
  · intro h
    obtain ⟨c, rest, hcons⟩ := List.exists_cons_of_length_pos h
    have htrimmed := Splitting.trimmed_dropWhile (p := isTrimmed) text.toList
    have hinfix := Splitting.dropWhile_isInfix (p := isTrimmed) text.toList
    have hhead : c ∈ (trim text).head? := by rw [hcons]; rfl
    exact ⟨c, hinfix.subset (List.mem_of_mem_head? hhead), htrimmed.1 c hhead⟩
  · rintro ⟨c, hc, hblank⟩
    rw [← List.takeWhile_append_dropWhile (p := isTrimmed) (l := text.toList)] at hc
    have hkept : c ∈ text.toList.dropWhile isTrimmed := by
      rcases List.mem_append.1 hc with hc | hc
      · rw [List.mem_takeWhile_imp hc] at hblank
        cases hblank
      · exact hc
    refine List.length_pos_iff.2 fun hnil => ?_
    have hall := List.dropWhile_eq_nil_iff.1 (List.reverse_eq_nil_iff.1 hnil)
    rw [hall c (List.mem_reverse.2 hkept)] at hblank
    cases hblank

/-- The comment is a later one of the viewer, with the marker and other text besides it. -/
structure AnsweredBy (viewer headRefOid : String) (hold comment : TimelineItem) : Prop where
  typename : comment.typename = .IssueComment
  author : comment.author = some viewer
  later : hold.createdAt < comment.createdAt
  text : ∃ a b, comment.body.toList = a ++ (holdMarker hold headRefOid).toList ++ b ∧
    ∃ c ∈ a ++ b, isTrimmed c = false

theorem answers_iff :
    answers viewer headRefOid hold comment = true ↔ AnsweredBy viewer headRefOid hold comment := by
  unfold answers
  rw [decide_eq_true_eq]
  constructor
  · rintro ⟨htype, hauthor, hlater, htext⟩
    obtain ⟨rest, hrest, hpos⟩ := (Option.any_eq_true ..).1 htext
    obtain ⟨a, b, hbody, rfl⟩ := removeFirst_some hrest
    obtain ⟨c, hc, hblank⟩ := trim_pos_iff.1 (of_decide_eq_true hpos)
    rw [String.toList_ofList] at hc
    exact ⟨htype, hauthor, hlater, a, b, hbody, c, hc, hblank⟩
  · rintro ⟨htype, hauthor, hlater, a, b, hbody, c, hc, hblank⟩
    refine ⟨htype, hauthor, hlater, ?_⟩
    obtain ⟨rest, hrest⟩ := removeFirst_isSome hbody
    obtain ⟨a', b', hbody', rfl⟩ := removeFirst_some hrest
    refine (Option.any_eq_true ..).2 ⟨_, hrest, decide_eq_true (trim_pos_iff.2 ?_)⟩
    -- whichever occurrence is removed, the same characters are left
    have hperm : (a ++ b).Perm (a' ++ b') := by
      have h : (a ++ b ++ (holdMarker hold headRefOid).toList).Perm
          (a' ++ b' ++ (holdMarker hold headRefOid).toList) := by
        have hmove : ∀ x y : List Char, (x ++ y ++ (holdMarker hold headRefOid).toList).Perm
            (x ++ (holdMarker hold headRefOid).toList ++ y) := by
          intro x y
          rw [List.append_assoc, List.append_assoc]
          exact List.perm_append_comm.append_left x
        refine (hmove a b).trans ?_
        rw [← hbody, hbody']
        exact (hmove a' b').symm
      exact (List.perm_append_right_iff _).1 h
    refine ⟨c, ?_, hblank⟩
    rw [String.toList_ofList]
    exact hperm.mem_iff.1 hc

end Answers

/-! ### Holds that are dropped -/

/-- The checks before the timeline pass, and the timeline was read. -/
structure Clear (snapshot : ReviewSnapshot) (viewer headRefOid : String) (timeline : List TimelineItem) :
    Prop where
  state : snapshot.state = "OPEN"
  labels : ∃ labels, snapshot.labels.bind (·.nodes) = some labels ∧
    labels.any (["status:needs-human", "status:blocked"].contains ·) = false
  complete : snapshot.labels.bind (·.hasNextPage) = some false
  threads : snapshot.threads.any (·.all (· = some true)) = true
  decision : snapshot.reviewDecision ≠ some "CHANGES_REQUESTED"
  viewer : snapshot.viewer = some viewer ∧ viewer ≠ ""
  head : snapshot.headRefOid = some headRefOid ∧ headRefOid ≠ ""
  timeline : snapshot.timeline = some timeline

/-- The hold is taken back by its own actor among the later events, or answered. -/
def Resolved (viewer headRefOid : String) (timeline : List TimelineItem) (kind : HoldKind)
    (hold : TimelineItem) (after : List TimelineItem) : Prop :=
  (∃ x ∈ after, TakesBack kind hold x) ∨
    ∃ comment ∈ eventsInOrder timeline, AnsweredBy viewer headRefOid hold comment

/-- Another hold of the kind by someone other than the viewer follows. -/
def Overwritten (viewer : String) (kind : HoldKind) (after : List TimelineItem) : Prop :=
  ∃ x ∈ after, ExternalHold viewer kind x

/-- Every hold in the timeline that meets the condition on what follows it is resolved. -/
def HoldsResolved (viewer headRefOid : String) (timeline : List TimelineItem)
    (C : HoldKind → List TimelineItem → Prop) : Prop :=
  ∀ kind before hold after, eventsInOrder timeline = before ++ hold :: after →
    ExternalHold viewer kind hold → C kind after → Resolved viewer headRefOid timeline kind hold after

section Dropped

variable {snapshot : ReviewSnapshot} {viewer headRefOid : String} {timeline : List TimelineItem}

/-- What is checked of the timeline: the last hold of each kind is resolved. -/
theorem unanswered_none_iff :
    (((holdsAfter viewer (eventsInOrder timeline)).values.find? fun event =>
        ¬(eventsInOrder timeline).any (answers viewer headRefOid event)) = none) ↔
      HoldsResolved viewer headRefOid timeline fun kind after => ¬Overwritten viewer kind after := by
  rw [List.find?_eq_none]
  simp only [decide_eq_true_eq, not_not, OrderedMap.mem_values_iff, List.any_eq_true, answers_iff,
    forall_exists_index, holdsAfter_iff]
  constructor
  · intro h kind before hold after hsplit hhold hlast
    by_cases hback : ∃ x ∈ after, TakesBack kind hold x
    · exact .inl hback
    · refine .inr (h hold kind ⟨before, after, hsplit, hhold, fun x hx => ⟨fun hx' => ?_, fun hx' => ?_⟩⟩)
      · exact hlast ⟨x, hx, hx'⟩
      · exact hback ⟨x, hx, hx'⟩
  · rintro h hold kind ⟨before, after, hsplit, hhold, hafter⟩
    have hlast : ¬Overwritten viewer kind after := by
      intro hover
      obtain ⟨x, hx, hx'⟩ := hover
      exact (hafter x hx).1 hx'
    rcases h kind before hold after hsplit hhold hlast with ⟨x, hx, hback⟩ | hanswered
    · exact absurd hback (hafter x hx).2
    · exact hanswered

/-- No reason is found when all checks pass and the last hold of each kind is resolved. -/
theorem rejection_none_iff : rejection snapshot = .ok none ↔ ∃ viewer headRefOid timeline,
    Clear snapshot viewer headRefOid timeline ∧
      HoldsResolved viewer headRefOid timeline fun kind after => ¬Overwritten viewer kind after := by
  constructor
  · intro h
    unfold rejection at h
    by_cases hstate : snapshot.state = "OPEN"
    swap
    · rw [if_pos hstate] at h
      cases h
    rw [if_neg (not_not.2 hstate)] at h
    split at h
    · cases h
    rename_i labels hlabels
    by_cases hcomplete : snapshot.labels.bind (·.hasNextPage) = some false
    swap
    · rw [if_pos hcomplete] at h
      cases h
    rw [if_neg (not_not.2 hcomplete)] at h
    by_cases hparked : labels.any (["status:needs-human", "status:blocked"].contains ·) = true
    · rw [if_pos hparked] at h
      cases h
    rw [if_neg hparked] at h
    by_cases hthreads : snapshot.threads.any (·.all (· = some true)) = true
    swap
    · rw [if_pos hthreads] at h
      cases h
    rw [if_neg (not_not.2 hthreads)] at h
    by_cases hdecision : snapshot.reviewDecision = some "CHANGES_REQUESTED"
    · rw [if_pos hdecision] at h
      cases h
    rw [if_neg hdecision] at h
    split at h
    swap
    · cases h
    rename_i viewer headRefOid timeline hviewer hhead htimeline
    by_cases hempty : viewer = "" ∨ headRefOid = ""
    · rw [if_pos hempty] at h
      cases h
    rw [if_neg hempty] at h
    obtain ⟨hviewer', hhead'⟩ := not_or.1 hempty
    refine ⟨viewer, headRefOid, timeline, ⟨hstate, ⟨labels, hlabels, by simpa using hparked⟩,
      hcomplete, hthreads, hdecision, ⟨hviewer, hviewer'⟩, ⟨hhead, hhead'⟩, htimeline⟩, ?_⟩
    refine unanswered_none_iff.1 ?_
    dsimp only at h
    split at h
    · cases h
    · assumption
  · rintro ⟨viewer, headRefOid, timeline, hclear, hresolved⟩
    obtain ⟨labels, hlabels, hparked⟩ := hclear.labels
    unfold rejection
    rw [if_neg (not_not.2 hclear.state), hlabels]
    dsimp only
    rw [if_neg (not_not.2 hclear.complete), if_neg (Bool.eq_false_iff.1 hparked),
      if_neg (not_not.2 hclear.threads), if_neg hclear.decision, hclear.viewer.1, hclear.head.1,
      hclear.timeline]
    dsimp only
    rw [if_neg (not_or.2 ⟨hclear.viewer.2, hclear.head.2⟩), unanswered_none_iff.2 hresolved]

/-- What the snapshot shows of the timeline. -/
def Reads (snapshot : ReviewSnapshot) (viewer headRefOid : String) (timeline : List TimelineItem) :
    Prop :=
  snapshot.viewer = some viewer ∧ snapshot.headRefOid = some headRefOid ∧
    snapshot.timeline = some timeline

/-- No reason is found only when every hold of someone else is resolved, exactly if in every snapshot
that passes the other checks, and in which the last hold of each kind is resolved, the holds that
others have overwritten are resolved too. -/
theorem rejection_keeps_holds_iff (snapshot : ReviewSnapshot) :
    (rejection snapshot = .ok none → ∀ viewer headRefOid timeline,
      Reads snapshot viewer headRefOid timeline →
        HoldsResolved viewer headRefOid timeline fun _ _ => True) ↔
    ∀ viewer headRefOid timeline, Clear snapshot viewer headRefOid timeline →
      (HoldsResolved viewer headRefOid timeline fun kind after => ¬Overwritten viewer kind after) →
        HoldsResolved viewer headRefOid timeline fun kind after => Overwritten viewer kind after := by
  constructor
  · intro h viewer headRefOid timeline hclear hlast kind before hold after hsplit hhold _
    exact h (rejection_none_iff.2 ⟨viewer, headRefOid, timeline, hclear, hlast⟩) viewer headRefOid
      timeline ⟨hclear.viewer.1, hclear.head.1, hclear.timeline⟩ kind before hold after hsplit hhold
      trivial
  · rintro h hnone viewer headRefOid timeline ⟨hviewer, hhead, htimeline⟩ kind before hold after hsplit
      hhold -
    obtain ⟨viewer', headRefOid', timeline', hclear, hlast⟩ := rejection_none_iff.1 hnone
    obtain rfl := Option.some.inj (hviewer.symm.trans hclear.viewer.1)
    obtain rfl := Option.some.inj (hhead.symm.trans hclear.head.1)
    obtain rfl := Option.some.inj (htimeline.symm.trans hclear.timeline)
    by_cases hover : Overwritten viewer kind after
    · exact h viewer headRefOid timeline hclear hlast kind before hold after hsplit hhold hover
    · exact hlast kind before hold after hsplit hhold hover

end Dropped

namespace Sample

def reviewEvent (typename : TimelineType) (id : String) (createdAt : Time) (actor : String) :
    TimelineItem := { typename, id, createdAt, actor := some actor }

/-- One maintainer converts to draft, the worker marks ready, and another maintainer converts to draft
and takes it back. -/
def twoHoldsTimeline : List TimelineItem :=
  [reviewEvent .ConvertToDraftEvent "hold-1" 10 "alice",
    reviewEvent .ReadyForReviewEvent "ready-1" 11 "worker-bot",
    reviewEvent .ConvertToDraftEvent "hold-2" 12 "bob",
    reviewEvent .ReadyForReviewEvent "ready-2" 13 "bob"]

def twoHolds : ReviewSnapshot where
  state := "OPEN"
  headRefOid := some "head"
  reviewDecision := none
  viewer := some "worker-bot"
  labels := some { nodes := some [], hasNextPage := some false }
  threads := some []
  timeline := some twoHoldsTimeline

end Sample

open Sample in
/-- The first maintainer's hold is dropped, though she never took it back and nobody answered it. -/
theorem rejection_drops_hold : rejection twoHolds = .ok none ∧
    ¬∀ viewer headRefOid timeline, Reads twoHolds viewer headRefOid timeline →
      HoldsResolved viewer headRefOid timeline fun _ _ => True := by
  have horder : eventsInOrder twoHoldsTimeline = twoHoldsTimeline :=
    List.mergeSort_of_pairwise (by decide +kernel)
  refine ⟨?_, fun h => ?_⟩
  · have hfold : (holdsAfter "worker-bot" twoHoldsTimeline).values = [] := by decide +kernel
    show (match (holdsAfter "worker-bot" (eventsInOrder twoHoldsTimeline)).values.find? _ with
      | some event => Except.ok (some (holdRejection event "head"))
      | none => Except.ok none) = _
    rw [horder, hfold]
    rfl
  · rcases h "worker-bot" "head" _ ⟨rfl, rfl, rfl⟩ .draft [] _ _ horder ⟨rfl, by decide⟩ trivial with
      ⟨x, hx, -, hactor, -⟩ | ⟨comment, hcomment, hanswered⟩
    · revert x
      decide +kernel
    · rw [horder] at hcomment
      have hnone : ∀ x ∈ twoHoldsTimeline, x.typename ≠ .IssueComment := by decide +kernel
      exact hnone comment hcomment hanswered.typename

end AgentLcars
