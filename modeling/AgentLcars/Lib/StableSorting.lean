import Mathlib.Data.List.Basic
import Mathlib.Data.List.TakeWhile
import Mathlib.Order.Basic
import Mathlib.Data.List.Perm.Basic
import Mathlib.Data.Nat.Init

/-!
# Stable sorting and binary search

* `StableSort le l s`: `s` holds the elements of `l`, sorted, with ties in the order of `l`.
* `StableSort.unique`, `stableSort_mergeSort`: there is one, `List.mergeSort`.
* `StableSort.insertAfter`: one more element goes behind everything that is not after it.
* `search_spec`: binary search finds where a predicate starts to hold.
-/

namespace Sorting

variable {α : Type}

/-! ### Stable sorts -/

/-- Neither is before the other. -/
def tied (le : α → α → Bool) (a b : α) : Bool := le a b && le b a

/-- A total preorder. -/
structure TotalPreorder (le : α → α → Bool) : Prop where
  trans : ∀ a b c, le a b → le b c → le a c
  total : ∀ a b, le a b || le b a

structure StableSort (le : α → α → Bool) (l s : List α) : Prop where
  perm : s.Perm l
  sorted : s.Pairwise fun a b => le a b = true
  ties : ∀ x, s.filter (tied le x) = l.filter (tied le x)

section Sorts

variable {le : α → α → Bool} {l s t : List α}

theorem TotalPreorder.refl (h : TotalPreorder le) (a : α) : le a a = true := by
  simpa using h.total a a

theorem TotalPreorder.tied_refl (h : TotalPreorder le) (a : α) : tied le a a = true := by
  unfold tied
  rw [h.refl]
  rfl

/-- Elements that are tied with one are in order. -/
theorem TotalPreorder.le_of_tied (h : TotalPreorder le) {x a b : α} (ha : tied le x a = true)
    (hb : tied le x b = true) : le a b = true := by
  unfold tied at ha hb
  rw [Bool.and_eq_true] at ha hb
  exact h.trans a x b ha.2 hb.1

theorem sorted_unique (hle : TotalPreorder le) (hperm : s.Perm t) (hs : s.Pairwise fun a b => le a b = true)
    (ht : t.Pairwise fun a b => le a b = true) (hties : ∀ x, s.filter (tied le x) = t.filter (tied le x)) :
    s = t := by
  induction s generalizing t with
  | nil => exact (List.perm_nil.1 hperm.symm).symm
  | cons a s ih =>
    cases t with
    | nil => exact absurd (List.perm_nil.1 hperm) (List.cons_ne_nil _ _)
    | cons b t =>
      rw [List.pairwise_cons] at hs ht
      have hab : le a b = true := by
        rcases List.mem_cons.1 (hperm.symm.subset (List.mem_cons_self ..)) with rfl | hmem
        · exact hle.refl b
        · exact hs.1 b hmem
      have hba : le b a = true := by
        rcases List.mem_cons.1 (hperm.subset (List.mem_cons_self ..)) with rfl | hmem
        · exact hle.refl a
        · exact ht.1 a hmem
      have htied : tied le a b = true := by
        unfold tied
        rw [hab, hba]
        rfl
      have hfirst := hties a
      rw [List.filter_cons_of_pos (hle.tied_refl a), List.filter_cons_of_pos htied] at hfirst
      obtain ⟨rfl, -⟩ := List.cons.inj hfirst
      refine congrArg _ (ih hperm.cons_inv hs.2 ht.2 fun x => ?_)
      have hx := hties x
      cases hxa : tied le x a with
      | true =>
        rw [List.filter_cons_of_pos hxa, List.filter_cons_of_pos hxa] at hx
        exact (List.cons.inj hx).2
      | false =>
        rw [List.filter_cons_of_neg (by simp [hxa]), List.filter_cons_of_neg (by simp [hxa])] at hx
        exact hx

/-- There is at most one stable sort. -/
theorem StableSort.unique (hle : TotalPreorder le) (hs : StableSort le l s) (ht : StableSort le l t) : s = t :=
  sorted_unique hle (hs.perm.trans ht.perm.symm) hs.sorted ht.sorted fun x =>
    (hs.ties x).trans (ht.ties x).symm

theorem stableSort_mergeSort (hle : TotalPreorder le) (l : List α) : StableSort le l (l.mergeSort le) where
  perm := List.mergeSort_perm l le
  sorted := List.pairwise_mergeSort hle.trans hle.total l
  ties x := by
    have hsorted : (l.filter (tied le x)).Pairwise fun a b => le a b = true :=
      List.Pairwise.imp_of_mem (fun ha hb _ => hle.le_of_tied (List.mem_filter.1 ha).2 (List.mem_filter.1 hb).2)
        (List.pairwise_of_forall (R := fun _ _ => True) fun _ _ => trivial)
    have hsub := (List.sublist_mergeSort hle.trans hle.total hsorted List.filter_sublist).filter (tied le x)
    rw [List.filter_filter] at hsub
    simp only [Bool.and_self] at hsub
    exact (hsub.eq_of_length ((List.mergeSort_perm l le).filter _).length_eq.symm).symm

/-- Sorted lists with equally many elements tied to each are tied place by place. -/
theorem forall₂_tied_of_countP (hle : TotalPreorder le) (hs : s.Pairwise fun a b => le a b = true)
    (ht : t.Pairwise fun a b => le a b = true) (hcount : ∀ x, s.countP (tied le x) = t.countP (tied le x)) :
    List.Forall₂ (fun a b => tied le a b = true) s t := by
  -- What ties with the head of one list is met in the other, behind its head.
  have hhead : ∀ {a b : α} {s t : List α}, (b :: t).Pairwise (fun a b => le a b = true) →
      (∀ x, (a :: s).countP (tied le x) = (b :: t).countP (tied le x)) → le b a = true := by
    intro a b s t ht hcount
    have hpos : 0 < (b :: t).countP (tied le a) := by
      rw [← hcount, List.countP_cons_of_pos (hle.tied_refl a)]
      exact Nat.succ_pos _
    obtain ⟨c, hc, htied⟩ := List.countP_pos_iff.1 hpos
    have hbc : le b c = true := by
      rcases List.mem_cons.1 hc with rfl | hmem
      · exact hle.refl c
      · exact (List.pairwise_cons.1 ht).1 c hmem
    unfold tied at htied
    rw [Bool.and_eq_true] at htied
    exact hle.trans b c a hbc htied.2
  induction s generalizing t with
  | nil =>
    cases t with
    | nil => exact List.Forall₂.nil
    | cons b t =>
      have hb := hcount b
      rw [List.countP_nil, List.countP_cons_of_pos (hle.tied_refl b)] at hb
      exact absurd hb.symm (Nat.succ_ne_zero _)
  | cons a s ih =>
    cases t with
    | nil =>
      have ha := hcount a
      rw [List.countP_nil, List.countP_cons_of_pos (hle.tied_refl a)] at ha
      exact absurd ha (Nat.succ_ne_zero _)
    | cons b t =>
      have hba : le b a = true := hhead ht hcount
      have hab : le a b = true := hhead hs fun x => (hcount x).symm
      have htied : tied le a b = true := by
        unfold tied
        rw [hab, hba]
        rfl
      refine List.Forall₂.cons htied (ih (List.pairwise_cons.1 hs).2 (List.pairwise_cons.1 ht).2 ?_)
      intro x
      have hx := hcount x
      have hsame : tied le x a = tied le x b := by
        unfold tied
        rw [Bool.eq_iff_iff, Bool.and_eq_true, Bool.and_eq_true]
        exact ⟨fun h => ⟨hle.trans _ _ _ h.1 hab, hle.trans _ _ _ hba h.2⟩,
          fun h => ⟨hle.trans _ _ _ h.1 hba, hle.trans _ _ _ hab h.2⟩⟩
      rw [List.countP_cons, List.countP_cons, hsame] at hx
      exact Nat.add_right_cancel hx

/-- Sorting what was permuted moves nothing but ties. -/
theorem forall₂_tied_mergeSort (hle : TotalPreorder le) (hperm : s.Perm t) :
    List.Forall₂ (fun a b => tied le a b = true) (s.mergeSort le) (t.mergeSort le) := by
  refine forall₂_tied_of_countP hle (List.pairwise_mergeSort hle.trans hle.total s)
    (List.pairwise_mergeSort hle.trans hle.total t) ?_
  intro x
  exact (((List.mergeSort_perm s le).trans hperm).trans (List.mergeSort_perm t le).symm).countP_eq _

/-! ### Insertion -/

/-- The element goes behind everything that is not after it. -/
def insertAfter (le : α → α → Bool) (x : α) (s : List α) : List α :=
  s.takeWhile (le · x) ++ x :: s.dropWhile (le · x)

/-- In a sorted list, what follows the first element after `x` is after `x`. -/
theorem not_le_of_mem_dropWhile (hle : TotalPreorder le) (hs : s.Pairwise fun a b => le a b = true) {x y : α}
    (hy : y ∈ s.dropWhile (le · x)) : le y x = false := by
  cases hdrop : s.dropWhile (le · x) with
  | nil =>
    rw [hdrop] at hy
    cases hy
  | cons z rest =>
    have hz : le z x = false := by
      have hhead := List.head_dropWhile_not (p := (le · x)) (l := s) (by rw [hdrop]; exact List.cons_ne_nil _ _)
      simpa [hdrop] using hhead
    have hsub : (z :: rest).Pairwise fun a b => le a b = true := hdrop ▸ hs.sublist (List.dropWhile_sublist _)
    rw [hdrop] at hy
    rcases List.mem_cons.1 hy with rfl | hy
    · exact hz
    · refine Bool.eq_false_iff.2 fun hyx => ?_
      rw [hle.trans z y x ((List.pairwise_cons.1 hsub).1 y hy) hyx] at hz
      cases hz

theorem StableSort.insertAfter (hle : TotalPreorder le) (h : StableSort le l s) (x : α) :
    StableSort le (l ++ [x]) (insertAfter le x s) := by
  have hafter : ∀ y ∈ s.dropWhile (le · x), le y x = false := fun y => not_le_of_mem_dropWhile hle h.sorted
  have hbefore : ∀ y ∈ s.takeWhile (le · x), le y x = true := fun y hy => List.mem_takeWhile_imp (p := (le · x)) hy
  have hsplit : s.takeWhile (le · x) ++ s.dropWhile (le · x) = s := List.takeWhile_append_dropWhile
  have hpairs := h.sorted
  rw [← hsplit, List.pairwise_append] at hpairs
  refine ⟨?_, ?_, fun y => ?_⟩
  · unfold Sorting.insertAfter
    refine List.perm_middle.trans ?_
    rw [hsplit]
    exact (h.perm.cons x).trans (List.perm_append_singleton x l).symm
  · unfold Sorting.insertAfter
    refine List.pairwise_append.2 ⟨hpairs.1, List.pairwise_cons.2 ⟨fun y hy => ?_, hpairs.2.1⟩, fun a ha b hb => ?_⟩
    · have htotal := hle.total x y
      rw [hafter y hy, Bool.or_false] at htotal
      exact htotal
    · rcases List.mem_cons.1 hb with rfl | hb
      · exact hbefore a ha
      · exact hpairs.2.2 a ha b hb
  · have hties := h.ties y
    unfold Sorting.insertAfter
    rw [← hsplit, List.filter_append] at hties
    rw [List.filter_append, List.filter_append, ← hties]
    cases hyx : tied le y x with
    | false =>
      rw [List.filter_cons_of_neg (by simp [hyx]), List.filter_cons_of_neg (by simp [hyx]), List.filter_nil,
        List.append_nil]
    | true =>
      have hnone : (s.dropWhile (le · x)).filter (tied le y) = [] := by
        refine List.filter_eq_nil_iff.2 fun z hz htied => ?_
        have hzx := hle.le_of_tied htied hyx
        rw [hafter z hz] at hzx
        cases hzx
      rw [List.filter_cons_of_pos hyx, List.filter_cons_of_pos hyx, hnone, List.append_nil, List.filter_nil]

/-- Of the first elements after an insertion, only the first elements before matter. -/
theorem take_insertAfter (x : α) (s : List α) (n : Nat) :
    (insertAfter le x (s.take n)).take n = (insertAfter le x s).take n := by
  induction s generalizing n with
  | nil => rw [List.take_nil]
  | cons y s ih =>
    cases n with
    | zero => rfl
    | succ n =>
      cases hy : le y x with
      | true =>
        have hcons : ∀ s : List α, insertAfter le x (y :: s) = y :: insertAfter le x s := by
          intro s
          unfold insertAfter
          rw [List.takeWhile_cons_of_pos (p := (le · x)) hy, List.dropWhile_cons_of_pos (p := (le · x)) hy]
          rfl
        rw [List.take_succ_cons, hcons, hcons, List.take_succ_cons, List.take_succ_cons, ih]
      | false =>
        have hcons : ∀ s : List α, insertAfter le x (y :: s) = x :: y :: s := by
          intro s
          unfold insertAfter
          rw [List.takeWhile_cons_of_neg (by simp [hy]), List.dropWhile_cons_of_neg (by simp [hy])]
          rfl
        rw [List.take_succ_cons, hcons, hcons, List.take_succ_cons, List.take_succ_cons]
        cases n with
        | zero => rfl
        | succ n => rw [List.take_succ_cons, List.take_succ_cons, List.take_take, Nat.min_eq_left (Nat.le_succ n)]

end Sorts

/-! ### Binary search -/

/-- The first index from `low` on, and below `high`, at which the predicate holds, or `high`. -/
def search (p : Nat → Bool) (low high : Nat) : Nat :=
  if _h : low < high then
    if p ((low + high) / 2) then search p low ((low + high) / 2)
    else search p ((low + high) / 2 + 1) high
  else low
termination_by high - low

/-- For a predicate that stays true once it is, the search finds where it starts to hold. -/
theorem search_spec {p : Nat → Bool} {low high : Nat} (hle : low ≤ high)
    (hmono : ∀ i j, low ≤ i → i ≤ j → j < high → p i = true → p j = true) :
    low ≤ search p low high ∧ search p low high ≤ high ∧
      (∀ i, low ≤ i → i < search p low high → p i = false) ∧
      ∀ i, search p low high ≤ i → i < high → p i = true := by
  induction low, high using search.induct p with
  | case1 low high hlt hp ih =>
    rw [search, dif_pos hlt, if_pos hp]
    obtain ⟨hlow, hhigh, hfalse, htrue⟩ := ih (by omega) fun i j hi hij hj => hmono i j hi hij (by omega)
    refine ⟨hlow, by omega, hfalse, fun i hi hj => ?_⟩
    by_cases hmid : i < (low + high) / 2
    · exact htrue i hi hmid
    · exact hmono _ i (by omega) (by omega) hj hp
  | case2 low high hlt hp ih =>
    rw [search, dif_pos hlt, if_neg hp]
    obtain ⟨hlow, hhigh, hfalse, htrue⟩ := ih (by omega) fun i j hi hij hj => hmono i j (by omega) hij hj
    refine ⟨by omega, hhigh, fun i hi hj => ?_, htrue⟩
    by_cases hmid : i ≤ (low + high) / 2
    · refine Bool.eq_false_iff.2 fun htrue => hp ?_
      exact hmono i _ hi hmid (by omega) htrue
    · exact hfalse i (by omega) hj
  | case3 low high hge =>
    rw [search, dif_neg hge]
    exact ⟨le_rfl, hle, fun i hi hj => by omega, fun i hi hj => by omega⟩

/-- The search over a sorted list for a predicate that stays true. -/
theorem search_eq_length {q : α → Bool} {s : List α} (hsplit : ∀ y ∈ s.dropWhile q, q y = false) :
    search (fun i => (s[i]?.map fun y => !q y).getD false) 0 s.length = (s.takeWhile q).length := by
  have hlength : (s.takeWhile q).length ≤ s.length := (List.takeWhile_sublist q).length_le
  have hwhole : s.takeWhile q ++ s.dropWhile q = s := List.takeWhile_append_dropWhile
  have hvalue : ∀ i (hi : i < s.length), ((s[i]?.map fun y => !q y).getD false = true ↔
      (s.takeWhile q).length ≤ i) := by
    intro i hi
    by_cases hin : i < (s.takeWhile q).length
    · have hget : s[i]? = some (s.takeWhile q)[i] := by
        conv_lhs => rw [← hwhole]
        rw [List.getElem?_append_left hin, List.getElem?_eq_getElem hin]
      have htrue : q (s.takeWhile q)[i] = true := List.mem_takeWhile_imp (List.getElem_mem hin)
      rw [hget, Option.map_some, Option.getD_some, htrue]
      exact iff_of_false (by simp) (by omega)
    · have hrange : i - (s.takeWhile q).length < (s.dropWhile q).length := by
        have hsum := congrArg List.length hwhole
        rw [List.length_append] at hsum
        omega
      have hget : s[i]? = some (s.dropWhile q)[i - (s.takeWhile q).length] := by
        conv_lhs => rw [← hwhole]
        rw [List.getElem?_append_right (by omega), List.getElem?_eq_getElem hrange]
      rw [hget, Option.map_some, Option.getD_some, hsplit _ (List.getElem_mem hrange)]
      exact iff_of_true rfl (by omega)
  obtain ⟨-, hhigh, hfalse, htrue⟩ := search_spec
    (p := fun i => (s[i]?.map fun y => !q y).getD false) (Nat.zero_le s.length) fun i j _ hij hj hi =>
      (hvalue j hj).2 (Nat.le_trans ((hvalue i (by omega)).1 hi) hij)
  refine le_antisymm ?_ ?_
  · by_contra hgt
    have hat := hfalse (s.takeWhile q).length (Nat.zero_le _) (by omega)
    rw [(hvalue _ (by omega)).2 le_rfl] at hat
    cases hat
  · by_contra hlt
    have hat := htrue _ le_rfl (by omega)
    have := (hvalue _ (by omega)).1 hat
    omega

end Sorting
