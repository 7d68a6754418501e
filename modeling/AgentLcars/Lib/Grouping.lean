import Mathlib.Algebra.BigOperators.Group.List.Basic
import Mathlib.Data.List.Perm.Basic
import AgentLcars.Lib.OrderedMap

/-!
# Grouping by keys

Items filed under keys, each key holding what its items come to.

* `collect`: the items one by one, into a map.
* `get_collect`: what a key holds.
* `sum_collect`: a measure that each item adds to adds up over the keys to that of all items.
* `collect_perm`: where the order of items does not matter to a key, it does not matter to the map, except that a
  map keeps the order of first insertion.
-/

namespace Grouping

variable {κ α β : Type} [DecidableEq κ] (start : κ → β) (act : β → α → β)

/-- One item, filed under its key. -/
def file (m : OrderedMap κ β) (item : κ × α) : OrderedMap κ β :=
  m.set item.1 (act ((m.get item.1).getD (start item.1)) item.2)

def collectInto (m : OrderedMap κ β) (items : List (κ × α)) : OrderedMap κ β := items.foldl (file start act) m

def collect (items : List (κ × α)) : OrderedMap κ β := collectInto start act .empty items

/-- The items of a key. -/
def itemsOf (k : κ) (items : List (κ × α)) : List α := (items.filter fun item => item.1 = k).map Prod.snd

variable {start act}

theorem collectInto_append (m : OrderedMap κ β) (items others : List (κ × α)) :
    collectInto start act m (items ++ others) = collectInto start act (collectInto start act m items) others :=
  List.foldl_append

theorem itemsOf_cons (k : κ) (item : κ × α) (items : List (κ × α)) :
    itemsOf k (item :: items) = if item.1 = k then item.2 :: itemsOf k items else itemsOf k items := by
  unfold itemsOf
  rw [List.filter_cons]
  by_cases h : item.1 = k
  · rw [if_pos h, if_pos (decide_eq_true h)]
    rfl
  · rw [if_neg h, if_neg (by rw [decide_eq_false h]; exact Bool.false_ne_true)]

theorem get_collectInto (m : OrderedMap κ β) (items : List (κ × α)) (k : κ) :
    (collectInto start act m items).get k =
      if k ∈ items.map Prod.fst then some ((itemsOf k items).foldl act ((m.get k).getD (start k))) else m.get k := by
  induction items generalizing m with
  | nil => rfl
  | cons item rest ih =>
    show (collectInto start act (file start act m item) rest).get k = _
    rw [ih, itemsOf_cons, List.map_cons]
    unfold file
    rw [OrderedMap.get_set]
    by_cases hkey : item.1 = k
    · subst hkey
      have hself : item.1 ∈ item.1 :: rest.map Prod.fst := List.mem_cons_self
      by_cases hmem : item.1 ∈ rest.map Prod.fst
      · simp only [if_pos hmem, if_pos hself, if_true, List.foldl_cons, Option.getD_some]
      · have hnone : itemsOf item.1 rest = [] := by
          unfold itemsOf
          rw [List.map_eq_nil_iff, List.filter_eq_nil_iff]
          intro other hother heq
          exact hmem (List.mem_map.2 ⟨other, hother, of_decide_eq_true heq⟩)
        simp only [if_neg hmem, if_pos hself, if_true, hnone, List.foldl_cons, List.foldl_nil]
    · have hne : k ≠ item.1 := fun h => hkey h.symm
      rw [if_neg hne, if_neg hkey]
      have hmem : k ∈ item.1 :: rest.map Prod.fst ↔ k ∈ rest.map Prod.fst := by
        rw [List.mem_cons]
        exact or_iff_right hne
      simp only [hmem]

/-- A key holds what its items come to. -/
theorem get_collect (items : List (κ × α)) (k : κ) :
    (collect start act items).get k =
      if k ∈ items.map Prod.fst then some ((itemsOf k items).foldl act (start k)) else none :=
  get_collectInto .empty items k

theorem mem_keys_iff {k : κ} {items : List (κ × α)} : k ∈ items.map Prod.fst ↔ itemsOf k items ≠ [] := by
  unfold itemsOf
  rw [List.mem_map, ne_eq, List.map_eq_nil_iff, List.filter_eq_nil_iff]
  simp only [decide_eq_true_eq, not_forall, not_not, exists_prop]

/-! ### Sums -/

section Sums

variable {M : Type} [AddCommMonoid M] {measure : β → M} {weight : α → M}

theorem sum_setEntry {es : List (κ × β)} {k : κ} {v : β} {x : M}
    (h : measure v = ((OrderedMap.getEntry k es).map measure).getD 0 + x) :
    ((OrderedMap.setEntry k v es).map fun e => measure e.2).sum = (es.map fun e => measure e.2).sum + x := by
  induction es with
  | nil =>
    have hv : measure v = 0 + x := h
    show measure v + 0 = 0 + x
    rw [add_zero, hv]
  | cons e rest ih =>
    obtain ⟨l, w⟩ := e
    unfold OrderedMap.setEntry
    unfold OrderedMap.getEntry at h
    by_cases hkey : l = k
    · rw [if_pos hkey] at h ⊢
      have hv : measure v = measure w + x := h
      show measure v + _ = measure w + _ + x
      rw [hv, add_right_comm]
    · rw [if_neg hkey] at h ⊢
      rw [List.map_cons, List.sum_cons, ih h, List.map_cons, List.sum_cons, add_assoc]

theorem sum_collectInto (hstart : ∀ k, measure (start k) = 0) (hact : ∀ v a, measure (act v a) = measure v + weight a)
    (m : OrderedMap κ β) (items : List (κ × α)) :
    ((collectInto start act m items).values.map measure).sum =
      (m.values.map measure).sum + (items.map fun item => weight item.2).sum := by
  induction items generalizing m with
  | nil => exact (add_zero _).symm
  | cons item rest ih =>
    show ((collectInto start act (file start act m item) rest).values.map measure).sum = _
    rw [ih, List.map_cons, List.sum_cons, ← add_assoc]
    refine congrArg (· + _) ?_
    have hnew : measure (act ((m.get item.1).getD (start item.1)) item.2) =
        ((OrderedMap.getEntry item.1 m.entries).map measure).getD 0 + weight item.2 := by
      rw [hact]
      refine congrArg (· + _) ?_
      show measure ((m.get item.1).getD (start item.1)) = ((m.get item.1).map measure).getD 0
      cases m.get item.1 with
      | none => exact hstart item.1
      | some v => rfl
    have hsum := sum_setEntry hnew
    unfold OrderedMap.values file OrderedMap.set
    rw [List.map_map, List.map_map]
    exact hsum

/-- What the keys hold adds up to all items. -/
theorem sum_collect (hstart : ∀ k, measure (start k) = 0) (hact : ∀ v a, measure (act v a) = measure v + weight a)
    (items : List (κ × α)) :
    ((collect start act items).values.map measure).sum = (items.map fun item => weight item.2).sum := by
  unfold collect
  rw [sum_collectInto hstart hact]
  exact zero_add _

end Sums

/-! ### Order -/

/-- Maps that hold the same under each key have the same entries. -/
theorem perm_of_get {m n : OrderedMap κ β} (h : ∀ k, m.get k = n.get k) : m.entries.Perm n.entries := by
  have hnodup : ∀ l : OrderedMap κ β, l.entries.Nodup := fun l => List.Nodup.of_map _ l.nodup
  rw [List.perm_ext_iff_of_nodup (hnodup m) (hnodup n)]
  rintro ⟨k, v⟩
  rw [← OrderedMap.getEntry_eq_some_iff _ m.nodup, ← OrderedMap.getEntry_eq_some_iff _ n.nodup]
  show m.get k = some v ↔ n.get k = some v
  rw [h]

theorem itemsOf_perm {items others : List (κ × α)} (h : items.Perm others) (k : κ) :
    (itemsOf k items).Perm (itemsOf k others) :=
  (h.filter _).map _

theorem get_collect_perm [RightCommutative act] {items others : List (κ × α)} (h : items.Perm others) (k : κ) :
    (collect start act items).get k = (collect start act others).get k := by
  have hmem : k ∈ items.map Prod.fst ↔ k ∈ others.map Prod.fst := (h.map Prod.fst).mem_iff
  rw [get_collect, get_collect, (itemsOf_perm h k).foldl_eq]
  simp only [hmem]

theorem collect_perm [RightCommutative act] {items others : List (κ × α)} (h : items.Perm others) :
    (collect start act items).entries.Perm (collect start act others).entries :=
  perm_of_get (get_collect_perm h)

end Grouping
