import AgentLcars.Lib.Runs
import Mathlib.Order.Lattice

/-!
# Reservations

A ledger holds at most one reservation of a slot, and a mark up to which the slots are used up.  A
slot is reserved only above the mark, and a reservation leaves the ledger only once the mark has
reached its slot.  So the slots of successive reservations grow: none is reserved twice, and none is
dropped.
-/

namespace Reservations

/-- The reservation held, and the mark. -/
structure Ledger (α τ : Type) where
  pending : Option α
  mark : Option τ

variable {α τ : Type} [LinearOrder τ] {slotOf : α → τ} {l l' : Ledger α τ} {a b : α}

/-- The mark has not reached the slot. -/
def Ledger.Below (l : Ledger α τ) (slot : τ) : Prop := ∀ m ∈ l.mark, m < slot

/-- The mark has reached the slot. -/
def Ledger.Reached (l : Ledger α τ) (slot : τ) : Prop := ∃ m ∈ l.mark, slot ≤ m

/-- The mark does not go back. -/
def Ledger.AtMost (l l' : Ledger α τ) : Prop := ∀ m ∈ l.mark, l'.Reached m

/-- What may happen to a ledger. -/
inductive Move (slotOf : α → τ) (l l' : Ledger α τ) : Prop where
  | keep (hpending : l'.pending = l.pending) (hmark : l'.mark = l.mark)
  | raise (hnone : l.pending = none) (hnone' : l'.pending = none) (hmark : l.AtMost l')
  | reserve (a : α) (hnone : l.pending = none) (hbelow : l.Below (slotOf a))
      (hpending : l'.pending = some a) (hmark : l'.mark = l.mark)
  | release (a : α) (hpending : l.pending = some a) (hnone' : l'.pending = none)
      (hmark : l.AtMost l') (hreached : l'.Reached (slotOf a))

/-- What is reserved lies above the mark. -/
def Ledger.Sound (slotOf : α → τ) (l : Ledger α τ) : Prop := ∀ a ∈ l.pending, l.Below (slotOf a)

/-- The reservation is held, or its slot is used up. -/
def Ledger.Recorded (slotOf : α → τ) (l : Ledger α τ) (a : α) : Prop :=
  l.pending = some a ∨ l.Reached (slotOf a)

/-- The step enters the reservation. -/
def Reserves (l l' : Ledger α τ) (a : α) : Prop := l.pending ≠ some a ∧ l'.pending = some a

theorem Ledger.AtMost.of_eq (h : l'.mark = l.mark) : l.AtMost l' :=
  fun m hm => ⟨m, h ▸ hm, le_refl m⟩

theorem Ledger.AtMost.reached (h : l.AtMost l') {slot : τ} (hslot : l.Reached slot) :
    l'.Reached slot := by
  obtain ⟨m, hm, hle⟩ := hslot
  obtain ⟨m', hm', hle'⟩ := h m hm
  exact ⟨m', hm', le_trans hle hle'⟩

theorem Ledger.Below.not_reached {slot : τ} (h : l.Below slot) : ¬l.Reached slot :=
  fun ⟨m, hm, hle⟩ => absurd (h m hm) (not_lt.2 hle)

/-- A recorded reservation of a slot that is still reserved is the one held. -/
theorem Ledger.Recorded.pending_eq (h : l.Recorded slotOf a) (hsound : l.Sound slotOf)
    (hb : l.pending = some b) (hslot : slotOf b = slotOf a) : l.pending = some a := by
  rcases h with h | hreached
  · exact h
  · exact absurd (hslot ▸ hreached) (hsound b hb).not_reached

namespace Move

theorem mark_le (h : Move slotOf l l') : l.AtMost l' := by
  cases h with
  | keep _ hmark => exact .of_eq hmark
  | raise _ _ hmark => exact hmark
  | reserve _ _ _ _ hmark => exact .of_eq hmark
  | release _ _ _ hmark => exact hmark

theorem sound (h : Move slotOf l l') (hl : l.Sound slotOf) : l'.Sound slotOf := by
  intro b hb
  cases h with
  | keep hpending hmark =>
    rw [Ledger.Below, hmark]
    exact hl b (hpending ▸ hb)
  | raise _ hnone' => cases hnone'.symm.trans hb
  | reserve a _ hbelow hpending hmark =>
    obtain rfl : a = b := Option.some.inj (hpending.symm.trans hb)
    rw [Ledger.Below, hmark]
    exact hbelow
  | release _ _ hnone' => cases hnone'.symm.trans hb

/-- What is held stays as it is, or its slot is used up by the step that takes it out. -/
theorem held (h : Move slotOf l l') (ha : l.pending = some a) :
    l'.pending = some a ∨ (l'.pending = none ∧ l'.Reached (slotOf a)) := by
  cases h with
  | keep hpending => exact .inl (hpending.trans ha)
  | raise hnone => cases hnone.symm.trans ha
  | reserve _ hnone => cases hnone.symm.trans ha
  | release b hb hnone' _ hreached =>
    obtain rfl : b = a := Option.some.inj (hb.symm.trans ha)
    exact .inr ⟨hnone', hreached⟩

theorem recorded (h : Move slotOf l l') (ha : l.Recorded slotOf a) : l'.Recorded slotOf a := by
  rcases ha with ha | hreached
  · rcases h.held ha with hkept | ⟨-, hreached⟩
    · exact .inl hkept
    · exact .inr hreached
  · exact .inr (h.mark_le.reached hreached)

/-- A later reservation is of a later slot. -/
theorem reserves_lt (h : Move slotOf l l') (ha : l.Recorded slotOf a) (hb : Reserves l l' b) :
    slotOf a < slotOf b := by
  obtain ⟨hnew, hb⟩ := hb
  cases h with
  | keep hpending => exact absurd (hpending.symm.trans hb) hnew
  | raise _ hnone' => cases hnone'.symm.trans hb
  | reserve c hnone hbelow hpending =>
    obtain rfl : c = b := Option.some.inj (hpending.symm.trans hb)
    rcases ha with ha | ⟨m, hm, hle⟩
    · cases hnone.symm.trans ha
    · exact lt_of_le_of_lt hle (hbelow m hm)
  | release _ _ hnone' => cases hnone'.symm.trans hb

end Move

end Reservations
