import Mathlib.Data.List.Chain
import Mathlib.Data.List.TakeWhile
import Mathlib.Order.Lattice

/-!
# Rotation in cyclic order

* `after last l`: a sorted list, started behind `last`.
* `Nearer goal x y`: going up in cyclic order, `y` lies between `x` and `goal`.
* `isChain_after`: each element is followed by one nearer to every `goal` of the list.
* `nodup_of_isChain`: what does not meet the goal does not repeat.
-/

namespace Rotation

variable {ν : Type} [LinearOrder ν]

/-- The elements above `last`, then the others. -/
def after (last : ν) (l : List ν) : List ν :=
  l.dropWhile (fun x => decide (x ≤ last)) ++ l.takeWhile fun x => decide (x ≤ last)

/-- In cyclic order `y` comes after `x` and before `goal`. -/
def Nearer (goal x y : ν) : Prop := (goal < x ∧ x < y) ∨ (x < y ∧ y < goal) ∨ (y < goal ∧ goal < x)

/-- A step from `x` to `y` does not pass the goal. -/
def Step (goal x y : ν) : Prop := x ≠ goal → y ≠ goal → Nearer goal x y

theorem Nearer.irrefl {goal x : ν} (h : Nearer goal x x) : False := by
  rcases h with (⟨-, h⟩ | ⟨h, -⟩ | ⟨h, h'⟩)
  · exact lt_irrefl x h
  · exact lt_irrefl x h
  · exact lt_asymm h h'

theorem Nearer.trans {goal x y z : ν} (hxy : Nearer goal x y) (hyz : Nearer goal y z) : Nearer goal x z := by
  rcases hxy with ⟨hx, h⟩ | ⟨h, hy⟩ | ⟨hy, hx⟩ <;> rcases hyz with ⟨hy', h'⟩ | ⟨h', hz⟩ | ⟨hz, hy'⟩
  · exact .inl ⟨hx, h.trans h'⟩
  · exact absurd ((hx.trans h).trans h') (lt_asymm hz)
  · exact .inr (.inr ⟨hz, hx⟩)
  · exact absurd hy (lt_asymm hy')
  · exact .inr (.inl ⟨h.trans h', hz⟩)
  · exact absurd hy (lt_asymm hy')
  · exact absurd hy (lt_asymm hy')
  · exact .inr (.inr ⟨hz, hx⟩)
  · exact absurd hy (lt_asymm hy')

/-- What does not meet the goal does not repeat. -/
theorem nodup_of_isChain {goal : ν} {l : List ν} (h : l.IsChain (Step goal)) (hgoal : goal ∉ l) : l.Nodup := by
  have hnearer : l.IsChain (Nearer goal) := h.imp_of_mem_imp fun x y hx hy hstep =>
    hstep (fun heq => hgoal (heq ▸ hx)) fun heq => hgoal (heq ▸ hy)
  have htrans : IsTrans ν (Nearer goal) := ⟨fun _ _ _ => Nearer.trans⟩
  refine (List.isChain_iff_pairwise.1 hnearer).imp ?_
  rintro x y hxy rfl
  exact hxy.irrefl

section Sorted

variable {goal last : ν} {l : List ν}

/-- A sorted list that does not pass the goal. -/
theorem isChain_sorted (hsorted : l.Pairwise (· < ·))
    (hgoal : goal ∈ l ∨ (∀ x ∈ l, goal < x) ∨ ∀ x ∈ l, x < goal) : l.IsChain (Step goal) := by
  induction l with
  | nil => exact .nil
  | cons x l ih =>
    rw [List.pairwise_cons] at hsorted
    refine List.isChain_cons.2 ⟨fun y hy hx hne => ?_, ih hsorted.2 ?_⟩
    · have hmem : y ∈ l := List.mem_of_mem_head? hy
      have hxy := hsorted.1 y hmem
      rcases hgoal with hgoal | hgoal | hgoal
      · obtain ⟨rest, rfl⟩ := List.head?_eq_some_iff.1 hy
        rcases List.mem_cons.1 ((List.mem_cons.1 hgoal).resolve_left hx.symm) with heq | hrest
        · exact absurd heq.symm hne
        · exact .inr (.inl ⟨hxy, (List.pairwise_cons.1 hsorted.2).1 _ hrest⟩)
      · exact .inl ⟨hgoal x (List.mem_cons_self ..), hxy⟩
      · exact .inr (.inl ⟨hxy, hgoal y (List.mem_cons_of_mem _ hmem)⟩)
    · rcases hgoal with hgoal | hgoal | hgoal
      · rcases List.mem_cons.1 hgoal with rfl | hgoal
        · exact .inr (.inl hsorted.1)
        · exact .inl hgoal
      · exact .inr (.inl fun y hy => hgoal y (List.mem_cons_of_mem _ hy))
      · exact .inr (.inr fun y hy => hgoal y (List.mem_cons_of_mem _ hy))

theorem le_of_mem_takeWhile {x : ν} (h : x ∈ l.takeWhile fun x => decide (x ≤ last)) : x ≤ last :=
  of_decide_eq_true (List.mem_takeWhile_imp (p := fun x => decide (x ≤ last)) h)

theorem lt_of_mem_dropWhile (hsorted : l.Pairwise (· < ·)) {x : ν}
    (h : x ∈ l.dropWhile fun x => decide (x ≤ last)) : last < x := by
  cases hdrop : l.dropWhile fun x => decide (x ≤ last) with
  | nil =>
    rw [hdrop] at h
    cases h
  | cons z rest =>
    have hz : last < z := by
      have hhead := List.head_dropWhile_not (p := fun x => decide (x ≤ last)) (l := l)
        (by rw [hdrop]; exact List.cons_ne_nil _ _)
      simpa [hdrop] using hhead
    have hrest := hdrop ▸ hsorted.sublist (List.dropWhile_sublist fun x => decide (x ≤ last))
    rw [hdrop] at h
    rcases List.mem_cons.1 h with rfl | hmem
    · exact hz
    · exact hz.trans ((List.pairwise_cons.1 hrest).1 x hmem)

/-- Each element of the rotated list is followed by one nearer to the goal. -/
theorem isChain_after (hsorted : l.Pairwise (· < ·)) (hgoal : goal ∈ l) (last : ν) :
    (last :: after last l).IsChain (Step goal) := by
  have hwhole : l.takeWhile (fun x => decide (x ≤ last)) ++ l.dropWhile (fun x => decide (x ≤ last)) = l :=
    List.takeWhile_append_dropWhile
  have habove : ∀ x ∈ l.dropWhile fun x => decide (x ≤ last), last < x := fun x => lt_of_mem_dropWhile hsorted
  have hbelow : ∀ x ∈ l.takeWhile fun x => decide (x ≤ last), x ≤ last := fun x => le_of_mem_takeWhile
  unfold after
  generalize l.takeWhile (fun x => decide (x ≤ last)) = low at *
  generalize l.dropWhile (fun x => decide (x ≤ last)) = high at *
  subst hwhole
  rw [List.pairwise_append] at hsorted
  obtain ⟨hlow, hhigh, hcross⟩ := hsorted
  have hplace := List.mem_append.1 hgoal
  have hfirstLow : ∀ y ∈ low.head?, ∀ x ∈ low, y ≤ x := by
    intro y hy x hx
    obtain ⟨rest, rfl⟩ := List.head?_eq_some_iff.1 hy
    rcases List.mem_cons.1 hx with rfl | hx
    · exact le_rfl
    · exact ((List.pairwise_cons.1 hlow).1 x hx).le
  refine List.isChain_cons.2 ⟨fun y hy hlast hne => ?_, List.isChain_append.2
    ⟨isChain_sorted hhigh ?_, isChain_sorted hlow ?_, fun x hx y hy hne hne' => ?_⟩⟩
  · -- from the cursor to the first
    cases high with
    | cons z rest =>
      obtain rfl : z = y := Option.some.inj hy
      have hz := habove z (List.mem_cons_self ..)
      rcases hplace with hgoal | hgoal
      · exact .inl ⟨lt_of_le_of_ne (hbelow goal hgoal) hlast.symm, hz⟩
      · refine .inr (.inl ⟨hz, ?_⟩)
        exact (List.pairwise_cons.1 hhigh).1 goal ((List.mem_cons.1 hgoal).resolve_left hne.symm)
    | nil =>
      have hgoal := hplace.resolve_right List.not_mem_nil
      exact .inr (.inr ⟨lt_of_le_of_ne (hfirstLow y hy goal hgoal) hne,
        lt_of_le_of_ne (hbelow goal hgoal) hlast.symm⟩)
  · rcases hplace with hgoal | hgoal
    · exact .inr (.inl fun x hx => (hbelow goal hgoal).trans_lt (habove x hx))
    · exact .inl hgoal
  · rcases hplace with hgoal | hgoal
    · exact .inl hgoal
    · exact .inr (.inr fun x hx => hcross x hx goal hgoal)
  · -- from the greatest to the least
    have hx' : x ∈ high := List.mem_of_mem_getLast? hx
    have hy' : y ∈ low := List.mem_of_mem_head? hy
    rcases hplace with hgoal | hgoal
    · exact .inr (.inr ⟨lt_of_le_of_ne (hfirstLow y hy goal hgoal) hne', hcross goal hgoal x hx'⟩)
    · refine .inr (.inr ⟨hcross y hy' goal hgoal, ?_⟩)
      obtain ⟨init, rfl⟩ := List.getLast?_eq_some_iff.1 hx
      rcases List.mem_append.1 hgoal with hinit | hlast
      · exact (List.pairwise_append.1 hhigh).2.2 goal hinit x (List.mem_singleton_self x)
      · exact absurd (List.mem_singleton.1 hlast).symm hne

end Sorted

end Rotation
