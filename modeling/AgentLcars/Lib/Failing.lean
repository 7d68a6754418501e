import Mathlib.Data.List.Forall2

/-!
# Computations that can fail

What an `Except` computation that is put together from others gives: `bind_eq_ok` and `bind_eq_error`
for a sequence, `ite_throw_eq_ok` for a check, `mapM_ok_iff` for a traversal.
-/

namespace Failing

theorem bind_eq_ok {ε α β : Type} {x : Except ε α} {f : α → Except ε β} {b : β} :
    (x >>= f) = .ok b ↔ ∃ a, x = .ok a ∧ f a = .ok b := by
  cases x with
  | error stop => exact ⟨nofun, nofun⟩
  | ok a => exact ⟨fun h => ⟨a, rfl, h⟩, by rintro ⟨_, ⟨rfl⟩, h⟩; exact h⟩

theorem bind_eq_error {ε α β : Type} {x : Except ε α} {f : α → Except ε β} {e : ε} :
    (x >>= f) = .error e ↔ x = .error e ∨ ∃ a, x = .ok a ∧ f a = .error e := by
  cases x with
  | error e' =>
    constructor
    · intro h
      cases h
      exact .inl rfl
    · rintro (⟨⟨⟩⟩ | ⟨a, ⟨⟩, -⟩)
      rfl
  | ok a =>
    constructor
    · exact fun h => .inr ⟨a, rfl, h⟩
    · rintro (⟨⟨⟩⟩ | ⟨_, ⟨⟩, h⟩)
      exact h

/-- A check that throws lets through what it does not refuse. -/
theorem ite_throw_eq_ok {α ε : Type} {c : Prop} [Decidable c] {e : ε} {values out : α} :
    (if c then (do throw e; pure values) else pure values : Except ε α) = .ok out ↔
      ¬c ∧ values = out := by
  by_cases hc : c
  · rw [if_pos hc]
    constructor
    · intro h
      cases h
    · intro h
      exact absurd hc h.1
  · rw [if_neg hc]
    constructor
    · intro h
      exact ⟨hc, Except.ok.inj h⟩
    · rintro ⟨-, rfl⟩
      rfl

/-- A traversal succeeds with what its calls give. -/
theorem mapM_ok_iff {α β ε : Type} {f : α → Except ε β} {items : List α} {values : List β} :
    items.mapM f = .ok values ↔ List.Forall₂ (fun item value => f item = .ok value) items values := by
  induction items generalizing values with
  | nil =>
    rw [List.mapM_nil, List.forall₂_nil_left_iff]
    constructor
    · intro h
      exact (Except.ok.inj h).symm
    · rintro rfl
      rfl
  | cons item items ih =>
    rw [List.mapM_cons, List.forall₂_cons_left_iff]
    constructor
    · intro h
      cases hfirst : f item with
      | error e => rw [hfirst] at h; cases h
      | ok value =>
        rw [hfirst] at h
        cases hrest : items.mapM f with
        | error e => rw [hrest] at h; cases h
        | ok rest =>
          rw [hrest] at h
          exact ⟨value, rest, rfl, ih.1 hrest, (Except.ok.inj h).symm⟩
    · rintro ⟨value, rest, hfirst, hrest, rfl⟩
      rw [hfirst, ih.2 hrest]
      rfl

/-- Every call of a traversal that succeeds succeeds. -/
theorem exists_of_mapM_ok {α β ε : Type} {f : α → Except ε β} {items : List α} {values : List β}
    (h : items.mapM f = .ok values) : ∀ item ∈ items, ∃ value, f item = .ok value := by
  have hcalls := mapM_ok_iff.1 h
  clear h
  induction hcalls with
  | nil =>
    intro item hmem
    cases hmem
  | cons hfirst _ ih =>
    intro item hmem
    rcases List.mem_cons.1 hmem with rfl | hmem
    · exact ⟨_, hfirst⟩
    · exact ih item hmem

end Failing
