import Mathlib.Data.List.Basic

/-!
# A register with guarded writers

Ordered writers each hold a value, or none.  A writer sets the register unless a later writer holds
another value.  In whatever order and however often they write, the register ends with the value of
the latest writer, once that has written.
-/

namespace GuardedRegister

variable {ι α : Type} (verdict : ι → Option α) (later : ι → ι → Prop)

/-- What one writer leaves in the register. -/
inductive Writes (i : ι) (value : α) : α → Prop where
  | silent (h : verdict i = none) : Writes i value value
  | guarded {b c : α} (j : ι) (h : verdict i = some b) (hlater : later j i)
      (hj : verdict j = some c) (hne : c ≠ b) : Writes i value value
  | sets {b : α} (h : verdict i = some b)
      (hfree : ∀ j c, later j i → verdict j = some c → c = b) : Writes i value b

variable {verdict later} {top i : ι} {value value' b : α}

/-- The latest writer. -/
structure Latest (verdict : ι → Option α) (later : ι → ι → Prop) (top : ι) (b : α) : Prop where
  holds : verdict top = some b
  latest : ∀ j c, verdict j = some c → ¬later j top
  rest : ∀ j c, verdict j = some c → j = top ∨ later top j

/-- The latest writer sets the register. -/
theorem Latest.writes_self (h : Latest verdict later top b)
    (hw : Writes verdict later top value value') : value' = b := by
  cases hw with
  | silent hnone => cases hnone.symm.trans h.holds
  | guarded j _ hlater hj => exact absurd hlater (h.latest j _ hj)
  | sets hset => exact Option.some.inj (hset.symm.trans h.holds)

/-- Any other writer leaves the register alone, or sets it as the latest does. -/
theorem Latest.writes (h : Latest verdict later top b) (hw : Writes verdict later i value value') :
    value' = value ∨ value' = b := by
  cases hw with
  | silent => exact .inl rfl
  | guarded => exact .inl rfl
  | sets hset hfree =>
    rcases h.rest i _ hset with rfl | hlater
    · exact .inr (Option.some.inj (hset.symm.trans h.holds))
    · exact .inr (hfree top b hlater h.holds).symm

/-- A register that holds the value of the latest writer keeps it. -/
theorem Latest.writes_kept (h : Latest verdict later top b) (hw : Writes verdict later i b value') :
    value' = b := (h.writes hw).elim id id

end GuardedRegister
