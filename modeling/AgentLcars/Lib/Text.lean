import Mathlib.Data.List.Basic
import Mathlib.Data.Nat.Init

/-!
# Identifiers built by concatenation

Ids of the form `key ++ separator ++ decimal` and `tag ++ text` can be taken apart again: the
decimal is the longest run of digits at the end, and a tag is found at the front as long as no tag
is an initial part of another.
-/

namespace Text

theorem toString_nat_injective : Function.Injective (fun n : Nat => toString n) := by
  intro m n h
  have hd : Nat.toDigits 10 m = Nat.toDigits 10 n := by
    have := congrArg String.toList (show toString m = toString n from h)
    simpa [Nat.toString_eq_repr, Nat.toList_repr] using this
  have := congrArg (fun l => Nat.ofDigitChars 10 l 0) hd
  simpa [Nat.ofDigitChars_ten_toDigits] using this

theorem isDigit_of_mem_toString {n : Nat} {c : Char} (h : c ∈ (toString n).toList) :
    c.isDigit = true := by
  rw [Nat.toString_eq_repr, Nat.toList_repr] at h
  exact Nat.isDigit_of_mem_toDigits (by decide) (by decide) h

/-- Two lists that agree, cut after their last element outside `p`, agree on both sides. -/
theorem append_cons_inj_of_all {α : Type} {p : α → Bool} {a b x y : List α} {c : α}
    (hc : p c = false) (hx : ∀ d ∈ x, p d = true) (hy : ∀ d ∈ y, p d = true)
    (h : a ++ c :: x = b ++ c :: y) : a = b ∧ x = y := by
  induction a generalizing b with
  | nil =>
    cases b with
    | nil => simpa using h
    | cons d b =>
      -- `c` would have to occur inside `x`, whose elements all satisfy `p`
      simp only [List.nil_append, List.cons_append, List.cons.injEq] at h
      have hm : c ∈ x := by rw [h.2]; simp
      rw [hx c hm] at hc
      cases hc
  | cons e a ih =>
    cases b with
    | nil =>
      simp only [List.nil_append, List.cons_append, List.cons.injEq] at h
      have hm : c ∈ y := by rw [← h.2]; simp
      rw [hy c hm] at hc
      cases hc
    | cons d b =>
      simp only [List.cons_append, List.cons.injEq] at h
      obtain ⟨rfl, h⟩ := h
      obtain ⟨rfl, rfl⟩ := ih h
      exact ⟨rfl, rfl⟩

/-- A decimal suffix after a separator that does not end in a digit can be read back. -/
theorem append_decimal_inj {a b : String} (pre : String) {c : Char} (hc : c.isDigit = false) {m n : Nat}
    (h : a ++ (pre ++ String.singleton c) ++ toString m =
      b ++ (pre ++ String.singleton c) ++ toString n) : a = b ∧ m = n := by
  have hl := congrArg String.toList h
  simp only [String.toList_append, String.toList_singleton, List.append_assoc,
    List.singleton_append] at hl
  rw [← List.append_assoc, ← List.append_assoc] at hl
  obtain ⟨hk, hd⟩ := append_cons_inj_of_all (p := Char.isDigit) hc
    (fun d hd => isDigit_of_mem_toString hd) (fun d hd => isDigit_of_mem_toString hd) hl
  refine ⟨?_, toString_nat_injective (String.toList_inj.1 hd)⟩
  exact String.toList_inj.1 (List.append_cancel_right hk)

/-- A separator outside both tags splits the text at the same place. -/
theorem tag_inj {s t x y : String} {c : Char} (hs : c ∉ s.toList) (ht : c ∉ t.toList)
    (h : s ++ String.singleton c ++ x = t ++ String.singleton c ++ y) : s = t ∧ x = y := by
  have hl := congrArg (fun s => s.toList.reverse) h
  simp only [String.toList_append, String.toList_singleton, List.append_assoc,
    List.singleton_append, List.reverse_append, List.reverse_cons] at hl
  have key := append_cons_inj_of_all (p := fun d => d != c) (c := c) (a := x.toList.reverse)
    (b := y.toList.reverse) (x := s.toList.reverse) (y := t.toList.reverse) (by simp)
    (fun d hd => bne_iff_ne.2 fun e => hs (by simpa [e] using hd))
    (fun d hd => bne_iff_ne.2 fun e => ht (by simpa [e] using hd)) hl
  exact ⟨String.toList_inj.1 (List.reverse_inj.1 key.2),
    String.toList_inj.1 (List.reverse_inj.1 key.1)⟩

end Text
