import Mathlib.Data.List.Nodup
import Mathlib.Data.List.Perm.Subperm

/-!
# Lists with keys

A list whose members have different keys is no longer than any list that has all these keys, and a
member is found by its key.
-/

namespace Counting

variable {α κ : Type}

/-- A list with different keys is no longer than a list of these keys. -/
theorem length_le_of_keys (key : α → κ) {l : List α} {keys : List κ} (hl : (l.map key).Nodup)
    (hkeys : ∀ x ∈ l, key x ∈ keys) : l.length ≤ keys.length := by
  have hsub : l.map key ⊆ keys := by
    intro k hk
    obtain ⟨x, hx, rfl⟩ := List.mem_map.1 hk
    exact hkeys x hx
  simpa using (List.subperm_of_subset hl hsub).length_le

/-- A list whose members are numbered apart from 1 to `b` is no longer than `b`. -/
theorem length_le_of_numbered (number : α → Nat) {l : List α} {b : Nat} (hl : l.Nodup)
    (hapart : ∀ x ∈ l, ∀ y ∈ l, number x = number y → x = y)
    (hbounds : ∀ x ∈ l, 1 ≤ number x ∧ number x ≤ b) : l.length ≤ b := by
  have hkeys : ∀ x ∈ l, number x ∈ (List.range b).map (· + 1) := by
    intro x hx
    obtain ⟨hpos, hle⟩ := hbounds x hx
    exact List.mem_map.2 ⟨number x - 1, List.mem_range.2 (by omega), Nat.sub_add_cancel hpos⟩
  simpa using length_le_of_keys number (List.Nodup.map_on hapart hl) hkeys

/-- A member of a list with different keys is found by its key. -/
theorem find_of_mem [DecidableEq κ] (key : α → κ) {l : List α} (hl : (l.map key).Nodup) {x : α}
    (hx : x ∈ l) : l.find? (fun y => key y = key x) = some x := by
  have hsome : (l.find? fun y => key y = key x).isSome = true := by
    rw [List.find?_isSome]
    exact ⟨x, hx, decide_eq_true rfl⟩
  obtain ⟨y, hy⟩ := Option.isSome_iff_exists.1 hsome
  have hkey : key y = key x := by simpa using List.find?_some hy
  rw [hy, List.inj_on_of_nodup_map hl (List.mem_of_find?_eq_some hy) hx hkey]

end Counting
