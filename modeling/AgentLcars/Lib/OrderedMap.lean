import Mathlib.Data.List.Nodup
import Mathlib.Data.Option.Basic

/-!
# Insertion-ordered maps

The maps of JavaScript: `set` on a present key overwrites the value in place, on an absent one
appends, and iteration follows the order of first insertion.  Keys are unique by construction.
-/

/-- A finite map whose entries keep the order of their first insertion. -/
structure OrderedMap (κ : Type) (α : Type) where
  entries : List (κ × α)
  nodup : (entries.map Prod.fst).Nodup

namespace OrderedMap

variable {κ α : Type}

/-- The map without entries. -/
def empty : OrderedMap κ α := ⟨[], List.nodup_nil⟩

/-- The values in insertion order. -/
def values (m : OrderedMap κ α) : List α := m.entries.map Prod.snd

@[simp] theorem values_empty : (empty : OrderedMap κ α).values = [] := rfl

variable [DecidableEq κ]

/-- The first value filed under a key. -/
def getEntry (k : κ) : List (κ × α) → Option α
  | [] => none
  | (l, v) :: rest => if l = k then some v else getEntry k rest

/-- Overwrite the value of a key in place, or append it. -/
def setEntry (k : κ) (v : α) : List (κ × α) → List (κ × α)
  | [] => [(k, v)]
  | (l, w) :: rest => if l = k then (k, v) :: rest else (l, w) :: setEntry k v rest

theorem keys_setEntry (k : κ) (v : α) (l : List (κ × α)) :
    (setEntry k v l).map Prod.fst =
      if k ∈ l.map Prod.fst then l.map Prod.fst else l.map Prod.fst ++ [k] := by
  induction l with
  | nil => simp [setEntry]
  | cons e rest ih =>
    obtain ⟨l, w⟩ := e
    by_cases h : l = k
    · subst h
      simp [setEntry]
    · have h' : k ≠ l := fun e => h e.symm
      simp only [setEntry, h, if_false, List.map_cons, ih, List.mem_cons, h', false_or]
      split_ifs <;> simp

/-- `m.get(k)`. -/
def get (m : OrderedMap κ α) (k : κ) : Option α := getEntry k m.entries

/-- `m.set(k, v)`. -/
def set (m : OrderedMap κ α) (k : κ) (v : α) : OrderedMap κ α where
  entries := setEntry k v m.entries
  nodup := by
    rw [keys_setEntry]
    split_ifs with h
    · exact m.nodup
    · exact List.Nodup.append m.nodup (List.nodup_singleton k) (by simpa using h)

/-- `m.delete(k)`. -/
def erase (m : OrderedMap κ α) (k : κ) : OrderedMap κ α where
  entries := m.entries.filter fun entry => entry.1 ≠ k
  nodup := (List.filter_sublist.map Prod.fst).nodup m.nodup

@[simp] theorem get_empty (k : κ) : (empty : OrderedMap κ α).get k = none := rfl

theorem getEntry_filter_ne (k l : κ) (es : List (κ × α)) :
    getEntry l (es.filter fun entry => entry.1 ≠ k) = if l = k then none else getEntry l es := by
  induction es with
  | nil => simp [getEntry]
  | cons e rest ih =>
    obtain ⟨m, w⟩ := e
    by_cases hm : m = k
    · subst hm
      rw [List.filter_cons_of_neg (by simp), ih]
      by_cases hl : l = m
      · simp [hl]
      · simp [getEntry, hl, Ne.symm hl]
    · rw [List.filter_cons_of_pos (by simpa using hm)]
      by_cases hl : m = l
      · subst hl
        simp [getEntry, hm]
      · simp only [getEntry, hl, if_false]
        exact ih

theorem get_erase (m : OrderedMap κ α) (k l : κ) :
    (m.erase k).get l = if l = k then none else m.get l :=
  getEntry_filter_ne k l m.entries

theorem getEntry_setEntry (k l : κ) (v : α) (es : List (κ × α)) :
    getEntry l (setEntry k v es) = if l = k then some v else getEntry l es := by
  induction es with
  | nil => simp [setEntry, getEntry, eq_comm]
  | cons e rest ih =>
    obtain ⟨j, w⟩ := e
    by_cases h : j = k
    · subst h
      by_cases hl : l = j
      · subst hl; simp [setEntry, getEntry]
      · have : j ≠ l := fun e => hl e.symm
        simp [setEntry, getEntry, hl, this]
    · by_cases hl : j = l
      · subst hl; simp [setEntry, getEntry, h]
      · simp [setEntry, getEntry, h, hl, ih]

theorem get_set (m : OrderedMap κ α) (k l : κ) (v : α) :
    (m.set k v).get l = if l = k then some v else m.get l :=
  getEntry_setEntry k l v m.entries

@[simp] theorem get_set_self (m : OrderedMap κ α) (k : κ) (v : α) :
    (m.set k v).get k = some v := by
  rw [get_set, if_pos rfl]

theorem setEntry_setEntry (k : κ) (v w : α) (es : List (κ × α)) :
    setEntry k w (setEntry k v es) = setEntry k w es := by
  induction es with
  | nil => simp [setEntry]
  | cons e rest ih =>
    obtain ⟨l, u⟩ := e
    by_cases h : l = k
    · simp [setEntry, h]
    · simp [setEntry, h, ih]

@[simp] theorem set_set (m : OrderedMap κ α) (k : κ) (v w : α) :
    (m.set k v).set k w = m.set k w := by
  unfold set
  simp only [setEntry_setEntry]

theorem get_set_of_ne (m : OrderedMap κ α) {k l : κ} (v : α) (h : l ≠ k) :
    (m.set k v).get l = m.get l := by
  rw [get_set, if_neg h]

theorem getEntry_eq_some_iff (es : List (κ × α)) (h : (es.map Prod.fst).Nodup) (k : κ) (v : α) :
    getEntry k es = some v ↔ (k, v) ∈ es := by
  induction es with
  | nil => simp [getEntry]
  | cons e rest ih =>
    obtain ⟨j, w⟩ := e
    rw [List.map_cons, List.nodup_cons] at h
    by_cases hj : j = k
    · subst hj
      have hout : (j, v) ∉ rest := fun hm => h.1 (List.mem_map.2 ⟨(j, v), hm, rfl⟩)
      simp [getEntry, hout, eq_comm]
    · have hj' : k ≠ j := fun e => hj e.symm
      simp [getEntry, hj, hj', ih h.2]

theorem setEntry_of_getEntry {k : κ} {v : α} {es : List (κ × α)} (h : getEntry k es = some v) :
    setEntry k v es = es := by
  induction es with
  | nil => cases h
  | cons e rest ih =>
    obtain ⟨l, w⟩ := e
    by_cases hl : l = k
    · subst hl
      simp only [getEntry, if_true, Option.some.injEq] at h
      simp [setEntry, h]
    · simp only [getEntry, hl, if_false] at h
      simp [setEntry, hl, ih h]

theorem filter_setEntry (k : κ) (v : α) (es : List (κ × α)) :
    (setEntry k v es).filter (fun entry => entry.1 ≠ k) = es.filter fun entry => entry.1 ≠ k := by
  induction es with
  | nil => simp [setEntry]
  | cons e rest ih =>
    obtain ⟨l, w⟩ := e
    by_cases hl : l = k
    · subst hl
      simp [setEntry]
    · simp only [setEntry, hl, if_false]
      rw [List.filter_cons_of_pos (by simpa using hl), List.filter_cons_of_pos (by simpa using hl), ih]

/-- Every entry gets a new value or is deleted. -/
def updateEntries (f : κ → α → Option α) (es : List (κ × α)) : List (κ × α) :=
  es.filterMap fun entry => (f entry.1 entry.2).map (entry.1, ·)

omit [DecidableEq κ] in
theorem keys_updateEntries (f : κ → α → Option α) (es : List (κ × α)) :
    ((updateEntries f es).map Prod.fst).Sublist (es.map Prod.fst) := by
  induction es with
  | nil => exact List.Sublist.slnil
  | cons e rest ih =>
    unfold updateEntries at ih ⊢
    cases h : f e.1 e.2 with
    | none =>
      rw [List.filterMap_cons_none (by rw [h]; rfl)]
      exact ih.cons e.1
    | some v =>
      rw [List.filterMap_cons_some (b := (e.1, v)) (by rw [h]; rfl)]
      exact ih.cons_cons e.1

theorem getEntry_eq_none_of_notMem {k : κ} {es : List (κ × α)} (h : k ∉ es.map Prod.fst) :
    getEntry k es = none := by
  induction es with
  | nil => rfl
  | cons e rest ih =>
    rw [List.map_cons, List.mem_cons, not_or] at h
    simp only [getEntry, Ne.symm h.1, if_false]
    exact ih h.2

theorem getEntry_updateEntries (f : κ → α → Option α) {es : List (κ × α)}
    (h : (es.map Prod.fst).Nodup) (k : κ) :
    getEntry k (updateEntries f es) = (getEntry k es).bind (f k) := by
  induction es with
  | nil => rfl
  | cons e rest ih =>
    obtain ⟨l, w⟩ := e
    rw [List.map_cons, List.nodup_cons] at h
    have hrest := ih h.2
    have houtside : l ∉ (updateEntries f rest).map Prod.fst := fun hmem =>
      h.1 ((keys_updateEntries f rest).subset hmem)
    by_cases hl : l = k
    · subst hl
      simp only [getEntry, if_true, Option.bind_some]
      cases hf : f l w with
      | none =>
        have hcons : updateEntries f ((l, w) :: rest) = updateEntries f rest := by
          unfold updateEntries
          rw [List.filterMap_cons_none (by rw [hf]; rfl)]
        rw [hcons, getEntry_eq_none_of_notMem houtside]
      | some v =>
        have hcons : updateEntries f ((l, w) :: rest) = (l, v) :: updateEntries f rest := by
          unfold updateEntries
          rw [List.filterMap_cons_some (b := (l, v)) (by rw [hf]; rfl)]
        rw [hcons]
        simp [getEntry]
    · have hskip : getEntry k (updateEntries f ((l, w) :: rest)) =
          getEntry k (updateEntries f rest) := by
        unfold updateEntries
        cases hf : f l w with
        | none => rw [List.filterMap_cons_none (by rw [hf]; rfl)]
        | some v =>
          rw [List.filterMap_cons_some (b := (l, v)) (by rw [hf]; rfl)]
          simp [getEntry, hl]
      rw [hskip, hrest]
      simp [getEntry, hl]

/-! ### Writing a list of values -/

section Writes

variable {β : Type} (key : β → κ) (value : β → α)

/-- `for (const x of xs) m.set(key(x), value(x))`. -/
def setAll (m : OrderedMap κ α) (xs : List β) : OrderedMap κ α :=
  xs.foldl (fun m x => m.set (key x) (value x)) m

theorem get_setAll_of_notMem {m : OrderedMap κ α} {xs : List β} {k : κ}
    (h : ∀ x ∈ xs, key x ≠ k) : (setAll key value m xs).get k = m.get k := by
  induction xs generalizing m with
  | nil => rfl
  | cons x rest ih =>
    have hx : k ≠ key x := fun e => h x (by simp) e.symm
    rw [← get_set_of_ne m (value x) hx]
    exact ih fun y hy => h y (by simp [hy])

theorem get_setAll_of_mem {m : OrderedMap κ α} {xs : List β} {x : β} (hx : x ∈ xs)
    (h : ∀ y ∈ xs, key y = key x → value y = value x) :
    (setAll key value m xs).get (key x) = some (value x) := by
  induction xs generalizing m x with
  | nil => cases hx
  | cons y rest ih =>
    by_cases hlater : ∃ z ∈ rest, key z = key x
    · -- the last write of the key decides
      obtain ⟨z, hz, hzk⟩ := hlater
      have hzv : value z = value x := h z (by simp [hz]) hzk
      rw [← hzk, ← hzv]
      exact ih hz fun w hw hwk => (h w (by simp [hw]) (hwk.trans hzk)).trans hzv.symm
    · have hxy : x = y := by
        rcases List.mem_cons.1 hx with h' | h'
        · exact h'
        · exact absurd ⟨x, h', rfl⟩ hlater
      subst hxy
      have := get_setAll_of_notMem key value (m := m.set (key x) (value x))
        (fun z hz hzk => hlater ⟨z, hz, hzk⟩)
      rw [get_set_self] at this
      exact this

theorem isSome_get_setAll {m : OrderedMap κ α} (xs : List β) {k : κ}
    (h : (m.get k).isSome = true) : ((setAll key value m xs).get k).isSome = true := by
  induction xs generalizing m with
  | nil => exact h
  | cons x rest ih =>
    refine ih ?_
    rw [get_set]
    split_ifs
    · rfl
    · exact h

/-- What is filed afterwards was written, or was there before and was not. -/
theorem get_setAll_cases {m : OrderedMap κ α} {xs : List β} {k : κ} {v : α}
    (h : (setAll key value m xs).get k = some v) :
    (∃ x ∈ xs, key x = k ∧ value x = v) ∨ (m.get k = some v ∧ ∀ x ∈ xs, key x ≠ k) := by
  induction xs generalizing m with
  | nil => exact .inr ⟨h, by simp⟩
  | cons x rest ih =>
    rcases ih h with ⟨y, hy, hk, hv⟩ | ⟨hget, hrest⟩
    · exact .inl ⟨y, by simp [hy], hk, hv⟩
    · rw [get_set] at hget
      split_ifs at hget with hk
      · exact .inl ⟨x, by simp, hk.symm, Option.some.inj hget⟩
      · refine .inr ⟨hget, fun y hy => ?_⟩
        rcases List.mem_cons.1 hy with rfl | hy
        · exact fun e => hk e.symm
        · exact hrest y hy

end Writes

/-- A value is iterated over exactly when it is filed under some key. -/
theorem mem_values_iff (m : OrderedMap κ α) (v : α) : v ∈ m.values ↔ ∃ k, m.get k = some v := by
  simp only [values, get, getEntry_eq_some_iff m.entries m.nodup, List.mem_map, Prod.exists]
  constructor
  · rintro ⟨k, w, hm, rfl⟩
    exact ⟨k, hm⟩
  · rintro ⟨k, hm⟩
    exact ⟨k, v, hm, rfl⟩

/-- Values that carry their keys carry different ones. -/
theorem nodup_keys (m : OrderedMap κ α) {key : α → κ}
    (h : ∀ k v, m.get k = some v → key v = k) : (m.values.map key).Nodup := by
  have hkeys : m.values.map key = m.entries.map Prod.fst := by
    rw [values, List.map_map]
    refine List.map_congr_left fun e he => h e.1 e.2 ?_
    exact (getEntry_eq_some_iff m.entries m.nodup e.1 e.2).2 he
  exact hkeys ▸ m.nodup

/-- The value that carries a key is the one filed under it. -/
theorem filter_values (m : OrderedMap κ α) {key : α → κ} (h : ∀ k v, m.get k = some v → key v = k) (k : κ) :
    (m.values.filter fun v => key v = k) = (m.get k).toList := by
  have hentries : ∀ e ∈ m.entries, key e.2 = e.1 := fun e he =>
    h e.1 e.2 ((getEntry_eq_some_iff m.entries m.nodup e.1 e.2).2 he)
  have hlist : ∀ es : List (κ × α), (es.map Prod.fst).Nodup → (∀ e ∈ es, key e.2 = e.1) →
      ((es.map Prod.snd).filter fun v => key v = k) = (getEntry k es).toList := by
    intro es hnodup hes
    induction es with
    | nil => rfl
    | cons e rest ih =>
      obtain ⟨l, w⟩ := e
      have hrest := ih (List.nodup_cons.1 hnodup).2 fun e he => hes e (List.mem_cons_of_mem _ he)
      have hkey : key w = l := hes (l, w) List.mem_cons_self
      unfold getEntry
      rw [List.map_cons, List.filter_cons, hkey]
      by_cases hl : l = k
      · have hnone : getEntry k rest = none := by
          rw [← hl]
          exact getEntry_eq_none_of_notMem (List.nodup_cons.1 hnodup).1
        rw [if_pos (decide_eq_true hl), if_pos hl, hrest, hnone]
        rfl
      · rw [if_neg (by rw [decide_eq_false hl]; exact Bool.false_ne_true), if_neg hl, hrest]
  exact hlist m.entries m.nodup hentries

/-- Values that carry their keys are iterated over once each. -/
theorem nodup_values (m : OrderedMap κ α) {key : α → κ}
    (h : ∀ k v, m.get k = some v → key v = k) : m.values.Nodup :=
  List.Nodup.of_map key (m.nodup_keys h)

end OrderedMap
