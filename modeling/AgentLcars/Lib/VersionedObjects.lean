import AgentLcars.Lib.OrderedMap

/-!
# Objects under optimistic concurrency

Objects are stored under names.  Every one is given an id when it is created and a version at every
write, and neither is ever used again.  A reader keeps what it read; a relation `R` says what writes
leave of an object.

* `Move` is what can happen to the objects, `WellFormed` what it keeps.
* `Seen`: an object that was read.  What is stored under its id later follows from it by `R`, and is
  the same object while the version is (`Seen.unchanged`); once the id is gone it does not come back.
-/

namespace VersionedObjects

variable {κ α : Type}

/-- The stored objects, and the next id and version. -/
structure Objects (κ α : Type) where
  byName : OrderedMap κ α
  nextId : Nat
  nextVersion : Nat

def Objects.empty : Objects κ α := { byName := .empty, nextId := 0, nextVersion := 0 }

variable [DecidableEq κ] (id version : α → Nat) (R : α → α → Prop)

/-- One of the things that can happen to the objects. -/
inductive Move (s : Objects κ α) : Objects κ α → Prop
  | keep : Move s s
  | create (name : κ) (x : α) (habsent : s.byName.get name = none) (hid : id x = s.nextId)
      (hversion : version x = s.nextVersion) :
      Move s { byName := s.byName.set name x, nextId := s.nextId + 1
               nextVersion := s.nextVersion + 1 }
  | write (name : κ) (x y : α) (hget : s.byName.get name = some x) (hid : id y = id x)
      (hversion : version y = s.nextVersion) (hR : R x y) :
      Move s { s with byName := s.byName.set name y, nextVersion := s.nextVersion + 1 }
  | remove (name : κ) : Move s { s with byName := s.byName.erase name }

/-- Ids and versions have been given out, and no two names share an id. -/
structure WellFormed (s : Objects κ α) : Prop where
  ids : ∀ {name x}, s.byName.get name = some x → id x < s.nextId
  versions : ∀ {name x}, s.byName.get name = some x → version x < s.nextVersion
  unique : ∀ {n m x y}, s.byName.get n = some x → s.byName.get m = some y → id x = id y → n = m

/-- An object that was read from these objects, now or earlier. -/
structure Seen (s : Objects κ α) (x : α) : Prop where
  id_lt : id x < s.nextId
  version_lt : version x < s.nextVersion
  follows : ∀ {name y}, s.byName.get name = some y → id y = id x →
    R x y ∧ (version y = version x → y = x)

variable {id} {version} {R} {s s' : Objects κ α} {x y : α}

theorem wellFormed_empty : WellFormed id version (Objects.empty : Objects κ α) where
  ids := nofun
  versions := nofun
  unique := nofun

theorem Move.nextId_le (h : Move id version R s s') : s.nextId ≤ s'.nextId := by
  cases h <;> simp

theorem Move.nextVersion_le (h : Move id version R s s') : s.nextVersion ≤ s'.nextVersion := by
  cases h <;> simp

/-- Where an object stored after a move comes from. -/
inductive Origin (id version : α → Nat) (R : α → α → Prop) (s s' : Objects κ α) (name : κ) (y : α) :
    Prop
  | kept (hget : s.byName.get name = some y)
  | created (habsent : s.byName.get name = none) (hid : id y = s.nextId)
      (hversion : version y = s.nextVersion) (hnext : s'.nextId = s.nextId + 1)
      (hnextVersion : s'.nextVersion = s.nextVersion + 1)
  | written (x : α) (hget : s.byName.get name = some x) (hid : id y = id x)
      (hversion : version y = s.nextVersion) (hR : R x y)
      (hnextVersion : s'.nextVersion = s.nextVersion + 1)

theorem Move.origin (h : Move id version R s s') {name : κ} (hy : s'.byName.get name = some y) :
    Origin id version R s s' name y := by
  cases h with
  | keep => exact .kept hy
  | create created z habsent hid hversion =>
    rw [OrderedMap.get_set] at hy
    split_ifs at hy with hname
    · obtain rfl := Option.some.inj hy
      exact .created (hname ▸ habsent) hid hversion rfl rfl
    · exact .kept hy
  | write written z w hget hid hversion hR =>
    rw [OrderedMap.get_set] at hy
    split_ifs at hy with hname
    · obtain rfl := Option.some.inj hy
      exact .written z (hname ▸ hget) hid hversion hR rfl
    · exact .kept hy
  | remove removed =>
    rw [OrderedMap.get_erase] at hy
    split_ifs at hy
    exact .kept hy

/-- An id that was given out comes from the object that had it. -/
theorem Move.before (h : Move id version R s s') {name : κ} (hy : s'.byName.get name = some y)
    (hid : id y < s.nextId) : ∃ x, s.byName.get name = some x ∧ id x = id y ∧
      (x = y ∨ (R x y ∧ version y = s.nextVersion)) := by
  cases h.origin hy with
  | kept hget => exact ⟨y, hget, rfl, .inl rfl⟩
  | created _ hnew => exact absurd hid (by omega)
  | written x hget hsame hversion hR => exact ⟨x, hget, hsame.symm, .inr ⟨hR, hversion⟩⟩

theorem WellFormed.move (h : WellFormed id version s) (hmove : Move id version R s s') :
    WellFormed id version s' where
  ids := by
    intro name y hy
    have hle := hmove.nextId_le
    cases hmove.origin hy with
    | kept hget => exact Nat.lt_of_lt_of_le (h.ids hget) hle
    | created _ hid _ hnext => omega
    | written x hget hid =>
      have := h.ids hget
      omega
  versions := by
    intro name y hy
    have hle := hmove.nextVersion_le
    cases hmove.origin hy with
    | kept hget => exact Nat.lt_of_lt_of_le (h.versions hget) hle
    | created _ _ hversion _ hnext => omega
    | written x hget _ hversion _ hnext => omega
  unique := by
    intro n m x y hx hy hxy
    -- an object of an old id was under its name before; a new id is under one name only
    by_cases hold : id x < s.nextId
    · obtain ⟨x₀, hx₀, hid, -⟩ := hmove.before hx hold
      obtain ⟨y₀, hy₀, hid', -⟩ := hmove.before hy (hxy ▸ hold)
      exact h.unique hx₀ hy₀ (by omega)
    · cases hmove with
      | keep => exact absurd (h.ids hx) hold
      | create created z _ hid =>
        rw [OrderedMap.get_set] at hx hy
        by_cases hn : n = created
        · by_cases hm : m = created
          · rw [hn, hm]
          · rw [if_neg hm] at hy
            exact absurd (h.ids hy) (hxy ▸ hold)
        · rw [if_neg hn] at hx
          exact absurd (h.ids hx) hold
      | write written z w hget hid =>
        rw [OrderedMap.get_set] at hx
        by_cases hn : n = written
        · rw [if_pos hn] at hx
          obtain rfl := Option.some.inj hx
          exact absurd (h.ids hget) (hid ▸ hold)
        · rw [if_neg hn] at hx
          exact absurd (h.ids hx) hold
      | remove removed =>
        rw [OrderedMap.get_erase] at hx
        split_ifs at hx
        exact absurd (h.ids hx) hold

/-- A stored object has been seen by whoever reads it. -/
theorem WellFormed.seen (h : WellFormed id version s) (hrefl : ∀ x, R x x) {name : κ}
    (hx : s.byName.get name = some x) : Seen id version R s x where
  id_lt := h.ids hx
  version_lt := h.versions hx
  follows := by
    intro m y hy hid
    obtain rfl := h.unique hy hx hid
    obtain rfl := Option.some.inj (hx.symm.trans hy)
    exact ⟨hrefl x, fun _ => rfl⟩

theorem Seen.move (h : Seen id version R s x) (htrans : ∀ {x y z}, R x y → R y z → R x z)
    (hmove : Move id version R s s') : Seen id version R s' x where
  id_lt := Nat.lt_of_lt_of_le h.id_lt hmove.nextId_le
  version_lt := Nat.lt_of_lt_of_le h.version_lt hmove.nextVersion_le
  follows := by
    intro name z hz hid
    obtain ⟨y, hy, hsame, hfrom⟩ := hmove.before hz (hid ▸ h.id_lt)
    obtain ⟨hR, hversion⟩ := h.follows hy (hsame.trans hid)
    rcases hfrom with rfl | ⟨hwrite, hnew⟩
    · exact ⟨hR, hversion⟩
    · refine ⟨htrans hR hwrite, fun heq => ?_⟩
      have := h.version_lt
      omega

/-- An object whose id and version are still stored has not changed. -/
theorem Seen.unchanged (h : Seen id version R s x) {name : κ} (hy : s.byName.get name = some y)
    (hid : id y = id x) (hversion : version y = version x) : y = x :=
  (h.follows hy hid).2 hversion

end VersionedObjects
