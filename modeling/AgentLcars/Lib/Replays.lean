import AgentLcars.Lib.Grouping

/-!
# Replayed items

A reader of a stream of items, each of a key and most with an id: an item whose id was met before is skipped, the
others are applied to the state of their key.

* `applied`: the items that are not skipped.
* `Replay`: a stream with further copies of its items, each behind the item itself.
* `applied_replay`: a replay applies the same items; `itemsOf_applied_own`: where keys share no id, the items of a key
  are skipped for its own items alone.
-/

namespace Replays

open Grouping

variable {ι κ α υ : Type} [DecidableEq κ] [DecidableEq υ]

/-- What an item is read as: its key and its content, if it counts at all, and the id of a content. -/
structure Reading (ι κ α υ : Type) where
  item : ι → Option (κ × α)
  id : α → Option υ

variable (reading : Reading ι κ α υ)

/-- The items that are not skipped, where some ids were met before. -/
def applied (seen : List υ) : List ι → List (κ × α)
  | [] => []
  | i :: rest =>
    match reading.item i with
    | none => applied seen rest
    | some (k, a) =>
      match reading.id a with
      | none => (k, a) :: applied seen rest
      | some u => if u ∈ seen then applied seen rest else (k, a) :: applied (u :: seen) rest

/-- A stream in which copies of items were put in, each anywhere behind the item. -/
inductive Replay (items : List ι) : List ι → Prop
  | refl : Replay items items
  | copy {before after : List ι} {i : ι} : Replay items (before ++ after) → i ∈ before →
      Replay items (before ++ i :: after)

/-- An item that counts has an id. -/
def Identified (i : ι) : Prop := ∀ k a, reading.item i = some (k, a) → reading.id a ≠ none

/-- No item of another key has the id of an item. -/
def Unshared (items : List ι) : Prop :=
  ∀ i ∈ items, ∀ j ∈ items, ∀ k a l b, reading.item i = some (k, a) → reading.item j = some (l, b) →
    reading.id a = reading.id b → reading.id a ≠ none → k = l

/-- The items of a key. -/
def own (k : κ) (items : List ι) : List ι := items.filter fun i => (reading.item i).map Prod.fst = some k

variable {reading}

omit [DecidableEq κ] [DecidableEq υ] in
theorem identified_iff {i : ι} :
    Identified reading i ↔ ((reading.item i).all fun item => (reading.id item.2).isSome) = true := by
  unfold Identified
  cases reading.item i with
  | none => exact ⟨fun _ => rfl, fun _ _ _ h => nomatch h⟩
  | some item =>
    rw [Option.all_some, Option.isSome_iff_ne_none]
    constructor
    · exact fun h => h item.1 item.2 rfl
    · intro h k a heq
      have hitem := Option.some.inj heq
      rw [hitem] at h
      exact h

omit [DecidableEq κ] in
/-- A copy of an item that has an id and was met is skipped. -/
theorem applied_copy {seen : List υ} {before after : List ι} {i : ι} (hi : Identified reading i)
    (hmet : i ∈ before ∨ ∀ k a u, reading.item i = some (k, a) → reading.id a = some u → u ∈ seen) :
    applied reading seen (before ++ i :: after) = applied reading seen (before ++ after) := by
  induction before generalizing seen with
  | nil =>
    have hseen : ∀ k a u, reading.item i = some (k, a) → reading.id a = some u → u ∈ seen :=
      hmet.resolve_left List.not_mem_nil
    show applied reading seen (i :: after) = applied reading seen after
    rw [applied]
    cases hitem : reading.item i with
    | none => rfl
    | some ka =>
      obtain ⟨k, a⟩ := ka
      dsimp only
      cases hid : reading.id a with
      | none => exact absurd hid (hi k a hitem)
      | some u =>
        dsimp only
        rw [if_pos (hseen k a u hitem hid)]
  | cons j rest ih =>
    -- The item is met in the rest, or is the first one, or was met before.
    have hrest : ∀ {met : List υ}, (∀ u ∈ seen, u ∈ met) →
        (∀ l b u, reading.item j = some (l, b) → reading.id b = some u → u ∈ met) →
        i ∈ rest ∨ ∀ k a u, reading.item i = some (k, a) → reading.id a = some u → u ∈ met := by
      intro met hsub hj
      rcases hmet with hmem | hseen
      · rcases List.mem_cons.1 hmem with rfl | hmem
        · exact .inr hj
        · exact .inl hmem
      · exact .inr fun k a u hitem hid => hsub u (hseen k a u hitem hid)
    rw [List.cons_append, List.cons_append, applied, applied]
    cases hitem : reading.item j with
    | none =>
      exact ih (hrest (fun _ hu => hu) fun l b u hj => nomatch hitem.symm.trans hj)
    | some lb =>
      obtain ⟨l, b⟩ := lb
      have hj : ∀ {met : List υ}, (∀ u, reading.id b = some u → u ∈ met) →
          ∀ l' b' u, reading.item j = some (l', b') → reading.id b' = some u → u ∈ met := by
        intro met h l' b' u heq hid
        obtain ⟨rfl, rfl⟩ := Prod.mk.inj (Option.some.inj (hitem.symm.trans heq))
        exact h u hid
      dsimp only
      cases hid : reading.id b with
      | none => exact congrArg _ (ih (hrest (fun _ hu => hu) (hj fun u h => nomatch hid.symm.trans h)))
      | some u =>
        dsimp only
        by_cases hu : u ∈ seen
        · rw [if_pos hu, if_pos hu]
          refine ih (hrest (fun _ hv => hv) (hj fun v h => ?_))
          rw [← Option.some.inj (hid.symm.trans h)]
          exact hu
        · rw [if_neg hu, if_neg hu]
          refine congrArg _ (ih (hrest (fun _ hv => List.mem_cons_of_mem _ hv) (hj fun v h => ?_)))
          rw [← Option.some.inj (hid.symm.trans h)]
          exact List.mem_cons_self

theorem Replay.mem_iff {items others : List ι} (h : Replay items others) (i : ι) : i ∈ others ↔ i ∈ items := by
  induction h with
  | refl => exact Iff.rfl
  | @copy before after j _ hj ih =>
    rw [← ih, List.mem_append, List.mem_append, List.mem_cons]
    constructor
    · rintro (hi | rfl | hi)
      · exact .inl hi
      · exact .inl hj
      · exact .inr hi
    · rintro (hi | hi)
      · exact .inl hi
      · exact .inr (.inr hi)

omit [DecidableEq κ] in
/-- A replay applies the same items. -/
theorem applied_replay {items others : List ι} (hids : ∀ i ∈ items, Identified reading i) (h : Replay items others) :
    applied reading [] others = applied reading [] items := by
  induction h with
  | refl => rfl
  | @copy before after i hprior hi ih =>
    have hmem : i ∈ items := (hprior.mem_iff i).1 (List.mem_append_left _ hi)
    rw [applied_copy (hids i hmem) (.inl hi), ih]

/-- A key's items are applied as they are alone, where the same of their ids were met. -/
theorem itemsOf_applied {items : List ι} {k : κ} (hunshared : Unshared reading items) {seen met : List υ}
    (h : ∀ i ∈ items, ∀ a u, reading.item i = some (k, a) → reading.id a = some u → (u ∈ seen ↔ u ∈ met)) :
    itemsOf k (applied reading seen items) = itemsOf k (applied reading met (own reading k items)) := by
  induction items generalizing seen met with
  | nil => rfl
  | cons i rest ih =>
    have hrest : Unshared reading rest := fun j hj l hl =>
      hunshared j (List.mem_cons_of_mem _ hj) l (List.mem_cons_of_mem _ hl)
    have hlater : ∀ j ∈ rest, ∀ a u, reading.item j = some (k, a) → reading.id a = some u → (u ∈ seen ↔ u ∈ met) :=
      fun j hj => h j (List.mem_cons_of_mem _ hj)
    unfold own
    rw [List.filter_cons, applied]
    cases hitem : reading.item i with
    | none => exact ih hrest hlater
    | some la =>
      obtain ⟨l, a⟩ := la
      by_cases hkey : l = k
      · subst hkey
        have hin : decide (Option.map Prod.fst (some (l, a)) = some l) = true := decide_eq_true rfl
        rw [if_pos hin, applied, hitem]
        dsimp only
        cases hid : reading.id a with
        | none =>
          dsimp only
          rw [itemsOf_cons, itemsOf_cons, if_pos rfl, if_pos rfl]
          exact congrArg _ (ih hrest hlater)
        | some u =>
          have hu := h i List.mem_cons_self a u hitem hid
          dsimp only
          by_cases hseen : u ∈ seen
          · rw [if_pos hseen, if_pos (hu.1 hseen)]
            exact ih hrest hlater
          · rw [if_neg hseen, if_neg fun hmet => hseen (hu.2 hmet), itemsOf_cons, itemsOf_cons, if_pos rfl, if_pos rfl]
            refine congrArg _ (ih hrest ?_)
            intro j hj b v hb hv
            rw [List.mem_cons, List.mem_cons, hlater j hj b v hb hv]
      · have hout : ¬(decide (Option.map Prod.fst (some (l, a)) = some k) = true) := by
          rw [decide_eq_true_eq]
          exact fun heq => hkey (Option.some.inj heq)
        rw [if_neg hout]
        dsimp only
        cases hid : reading.id a with
        | none =>
          dsimp only
          rw [itemsOf_cons, if_neg hkey]
          exact ih hrest hlater
        | some u =>
          dsimp only
          by_cases hseen : u ∈ seen
          · rw [if_pos hseen]
            exact ih hrest hlater
          · rw [if_neg hseen, itemsOf_cons, if_neg hkey]
            refine ih hrest ?_
            -- The id is of another key, so that none of the key's items has it.
            intro j hj b v hb hv
            have hne : v ≠ u := by
              rintro rfl
              refine hkey (hunshared i List.mem_cons_self j (List.mem_cons_of_mem _ hj) l a k b hitem hb
                (hid.trans hv.symm) ?_)
              rw [hid]
              exact Option.some_ne_none _
            rw [List.mem_cons, or_iff_right hne]
            exact hlater j hj b v hb hv

theorem itemsOf_applied_own {items : List ι} (hunshared : Unshared reading items) (k : κ) :
    itemsOf k (applied reading [] items) = itemsOf k (applied reading [] (own reading k items)) :=
  itemsOf_applied hunshared fun _ _ _ _ _ _ => Iff.rfl

omit [DecidableEq κ] in
/-- The applied items of a stream are of its keys. -/
theorem keys_applied {seen : List υ} {items : List ι} {k : κ} (h : k ∈ (applied reading seen items).map Prod.fst) :
    ∃ i ∈ items, (reading.item i).map Prod.fst = some k := by
  induction items generalizing seen with
  | nil => exact absurd h List.not_mem_nil
  | cons i rest ih =>
    have hrest : ∀ {met : List υ}, k ∈ (applied reading met rest).map Prod.fst →
        ∃ j ∈ i :: rest, (reading.item j).map Prod.fst = some k := by
      intro met hmem
      obtain ⟨j, hj, hkey⟩ := ih hmem
      exact ⟨j, List.mem_cons_of_mem _ hj, hkey⟩
    unfold applied at h
    cases hitem : reading.item i with
    | none =>
      rw [hitem] at h
      exact hrest h
    | some la =>
      obtain ⟨l, a⟩ := la
      have hfirst : ∀ {met : List υ}, k ∈ ((l, a) :: applied reading met rest).map Prod.fst →
          ∃ j ∈ i :: rest, (reading.item j).map Prod.fst = some k := by
        intro met hmem
        rcases List.mem_cons.1 hmem with rfl | hmem
        · exact ⟨i, List.mem_cons_self, by rw [hitem]; rfl⟩
        · exact hrest hmem
      rw [hitem] at h
      dsimp only at h
      split at h
      · exact hfirst h
      · split at h
        · exact hrest h
        · exact hfirst h

end Replays
