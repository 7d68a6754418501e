import Mathlib.Data.List.Nodup

/-!
# Versions of an object under compare-and-set

An object keeps its versions, the newest first.  Each carries a generation, which is never used
again; an object without a version is absent, at a generation of its own.

* `current` is the generation that a write must expect;
* `Superseded`: the object has had a generation and has it no more; `Superseded.push` says that this
  is for ever, and `superseded_push` that a write ends the generation it expects;
* `Chained`: every version was written over the one before it; `Chained.unique`: a generation is
  overwritten once.
-/

namespace Versions

variable {β γ : Type} (generation : β → γ) (absent : γ)

/-- The generation of the newest version. -/
def current (versions : List β) : γ := (versions.head?.map generation).getD absent

/-- The object has or had this generation. -/
def Known (versions : List β) (g : γ) : Prop := g = absent ∨ ∃ v ∈ versions, generation v = g

/-- No version has this generation, nor has the absent object. -/
structure Fresh (versions : List β) (g : γ) : Prop where
  present : g ≠ absent
  unused : ∀ v ∈ versions, generation v ≠ g

/-- Every version has a generation of its own. -/
structure Distinct (versions : List β) : Prop where
  nodup : (versions.map generation).Nodup
  present : ∀ v ∈ versions, generation v ≠ absent

/-- The object had this generation before the one it has. -/
structure Superseded (versions : List β) (g : γ) : Prop where
  passed : current generation absent versions ≠ g
  known : Known generation absent versions g

variable {generation} {absent} {versions : List β} {v w : β} {g : γ}

theorem known_current (versions : List β) :
    Known generation absent versions (current generation absent versions) := by
  cases versions with
  | nil => exact .inl rfl
  | cons v rest => exact .inr ⟨v, List.mem_cons_self, rfl⟩

theorem Known.push (h : Known generation absent versions g) (v : β) :
    Known generation absent (v :: versions) g :=
  h.imp_right fun ⟨w, hw, hg⟩ => ⟨w, List.mem_cons_of_mem v hw, hg⟩

theorem Known.ne_fresh (h : Known generation absent versions g) {g' : γ}
    (hfresh : Fresh generation absent versions g') : g' ≠ g := by
  rintro rfl
  rcases h with habsent | ⟨w, hw, hg⟩
  · exact hfresh.present habsent
  · exact hfresh.unused w hw hg

theorem Distinct.push (h : Distinct generation absent versions)
    (hfresh : Fresh generation absent versions (generation v)) :
    Distinct generation absent (v :: versions) where
  nodup := by
    rw [List.map_cons, List.nodup_cons]
    refine ⟨fun hmem => ?_, h.nodup⟩
    obtain ⟨w, hw, hg⟩ := List.mem_map.1 hmem
    exact hfresh.unused w hw hg
  present w hw := by
    rcases List.mem_cons.1 hw with rfl | hw
    · exact hfresh.present
    · exact h.present w hw

/-- Two versions of one generation are the same. -/
theorem Distinct.unique (h : Distinct generation absent versions) (hv : v ∈ versions)
    (hw : w ∈ versions) (hg : generation v = generation w) : v = w :=
  List.inj_on_of_nodup_map h.nodup hv hw hg

/-- The version of the current generation is the newest. -/
theorem Distinct.head_of_current (h : Distinct generation absent versions) (hv : v ∈ versions)
    (hg : current generation absent versions = generation v) : versions.head? = some v := by
  cases versions with
  | nil => cases hv
  | cons w rest =>
    obtain rfl : w = v := h.unique List.mem_cons_self hv hg
    rfl

/-- What is superseded stays so. -/
theorem Superseded.push (h : Superseded generation absent versions g)
    (hfresh : Fresh generation absent versions (generation v)) :
    Superseded generation absent (v :: versions) g where
  passed := h.known.ne_fresh hfresh
  known := h.known.push v

/-- A new version supersedes the current generation. -/
theorem superseded_push (hg : current generation absent versions = g)
    (hfresh : Fresh generation absent versions (generation v)) :
    Superseded generation absent (v :: versions) g where
  passed := (hg ▸ known_current versions : Known generation absent versions g).ne_fresh hfresh
  known := (hg ▸ known_current versions : Known generation absent versions g).push v

section Chains

variable {expected : β → γ}

/-- Every version was written over the one before it. -/
def Chained (generation expected : β → γ) (absent : γ) : List β → Prop
  | [] => True
  | v :: rest => expected v = current generation absent rest ∧ Chained generation expected absent rest

/-- Below the newest version there is whatever a version was written over. -/
theorem Chained.known (h : Chained generation expected absent (v :: versions))
    (hw : w ∈ v :: versions) : Known generation absent versions (expected w) := by
  induction versions generalizing v with
  | nil =>
    obtain rfl := List.mem_singleton.1 hw
    exact .inl h.1
  | cons u rest ih =>
    rcases List.mem_cons.1 hw with rfl | hw
    · rw [h.1]
      exact known_current _
    · exact (ih h.2 hw).push u

/-- What a version was written over is superseded. -/
theorem Chained.superseded (hdistinct : Distinct generation absent versions)
    (h : Chained generation expected absent versions) (hw : w ∈ versions) :
    Superseded generation absent versions (expected w) := by
  cases versions with
  | nil => cases hw
  | cons v rest =>
    have hknown := h.known hw
    refine ⟨fun hg => ?_, hknown.push v⟩
    change generation v = expected w at hg
    rcases hknown with habsent | ⟨u, hu, hug⟩
    · exact hdistinct.present v List.mem_cons_self (hg.trans habsent)
    · have hnodup := hdistinct.nodup
      rw [List.map_cons, List.nodup_cons] at hnodup
      exact hnodup.1 (List.mem_map.2 ⟨u, hu, hug.trans hg.symm⟩)

/-- A generation is overwritten once. -/
theorem Chained.unique (hdistinct : Distinct generation absent versions)
    (h : Chained generation expected absent versions) (hv : v ∈ versions) (hw : w ∈ versions)
    (heq : expected v = expected w) : v = w := by
  induction versions with
  | nil => cases hv
  | cons u rest ih =>
    have hrest : Distinct generation absent rest :=
      ⟨(List.nodup_cons.1 hdistinct.nodup).2, fun x hx =>
        hdistinct.present x (List.mem_cons_of_mem u hx)⟩
    have hne : ∀ x ∈ rest, expected x ≠ expected u := fun x hx hxu =>
      (h.2.superseded hrest hx).passed (hxu.trans h.1).symm
    rcases List.mem_cons.1 hv with hvu | hv' <;> rcases List.mem_cons.1 hw with hwu | hw'
    · exact hvu.trans hwu.symm
    · exact absurd (hvu ▸ heq).symm (hne w hw')
    · exact absurd (hwu ▸ heq) (hne v hv')
    · exact ih hrest h.2 hv' hw'

end Chains

end Versions
