import Mathlib.Algebra.BigOperators.Group.Finset.Basic
import Mathlib.Algebra.Order.BigOperators.Group.Finset
import Mathlib.Data.Int.Order.Basic
import Mathlib.Tactic.Ring

/-!
# Times with growing gaps

A list of times whose consecutive members keep a gap that depends on their position.  The gaps add
up, so only so many such times fit into a window.
-/

namespace Spacing

variable {gap : Nat → Int} {l : List Int} {a b window : Int} {n : Nat}

/-- Consecutive times are at least the gap of their position apart. -/
def Spaced (gap : Nat → Int) (l : List Int) : Prop :=
  ∀ k a b, l[k]? = some a → l[k + 1]? = some b → a + gap k ≤ b

theorem Spaced.nil : Spaced gap [] := by
  intro k a b ha
  simp at ha

theorem Spaced.concat (h : Spaced gap l)
    (hlast : ∀ a, l.getLast? = some a → a + gap (l.length - 1) ≤ b) : Spaced gap (l ++ [b]) := by
  intro k x y hx hy
  have hk : k + 1 < (l ++ [b]).length := (List.getElem?_eq_some_iff.1 hy).1
  rw [List.length_append, List.length_singleton] at hk
  rw [List.getElem?_append_left (by omega)] at hx
  rcases Nat.lt_or_eq_of_le (Nat.le_of_lt_succ hk) with hlt | heq
  · rw [List.getElem?_append_left hlt] at hy
    exact h k x y hx hy
  · rw [heq, List.getElem?_concat_length] at hy
    obtain rfl := Option.some.inj hy
    obtain rfl : k = l.length - 1 := by omega
    exact hlast x (List.getLast?_eq_getElem?.trans hx)

/-- The gaps add up. -/
theorem Spaced.total (h : Spaced gap l) (ha : l[0]? = some a) (hb : l[n]? = some b) :
    a + ∑ i ∈ Finset.range n, gap i ≤ b := by
  induction n generalizing b with
  | zero =>
    obtain rfl := Option.some.inj (ha.symm.trans hb)
    simp
  | succ n ih =>
    have hn : n < l.length := Nat.lt_of_succ_lt (List.getElem?_eq_some_iff.1 hb).1
    have hprev : l[n]? = some l[n] := List.getElem?_eq_getElem hn
    calc a + ∑ i ∈ Finset.range (n + 1), gap i
        = a + ∑ i ∈ Finset.range n, gap i + gap n := by rw [Finset.sum_range_succ]; ring
      _ ≤ l[n] + gap n := Int.add_le_add_right (ih hprev) _
      _ ≤ b := h n _ _ hprev hb

/-- No more times fit into a window than it takes gaps to fill it. -/
theorem Spaced.length_le (h : Spaced gap l)
    (hwithin : ∀ a, l.head? = some a → ∀ b ∈ l, b < a + window)
    (hwide : window ≤ ∑ i ∈ Finset.range n, gap i) : l.length ≤ n := by
  by_contra hlong
  have hn : n < l.length := Nat.lt_of_not_le hlong
  have hpos : 0 < l.length := Nat.zero_lt_of_lt hn
  have hfirst : l[0]? = some l[0] := List.getElem?_eq_getElem hpos
  have htotal := h.total hfirst (List.getElem?_eq_getElem hn)
  have hlast := hwithin l[0] (List.head?_eq_getElem?.trans hfirst) l[n] (List.getElem_mem hn)
  omega

end Spacing
