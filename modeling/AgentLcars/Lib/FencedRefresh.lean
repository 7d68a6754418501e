import AgentLcars.Lib.Runs
import Mathlib.Data.List.Basic
import Mathlib.Order.Basic
import Mathlib.Order.Nat

/-!
# Registers refreshed behind a fence

Every register carries a generation.  An attempt to refresh it raises the generation and keeps the
new one, reads a source at its leisure, and sets the register only while its generation is still the
register's.

* `State.Sound` relates the attempts of a register to its generation and its value, and
  `State.Sound.run` keeps it over a run;
* `State.Sound.latest`: an attempt that still holds the generation of its register began last;
* `State.Sound.later`: of two attempts that set one register, the later to set began later;
* `State.Sound.settled`: when all attempts of a register have returned, it holds what the one with
  the highest generation read.
-/

namespace FencedRefresh

variable {κ α : Type}

/-- Where an attempt stands. -/
inductive Phase (α : Type) where
  | begun
  | reading
  | holding (value : Option α)
  | returned (value : Option α) (applied : Bool)
  | failed

/-- An attempt that takes no further step. -/
def Phase.Final : Phase α → Prop
  | .returned _ _ | .failed => True
  | .begun | .reading | .holding _ => False

/-- One attempt to refresh a register. -/
structure Attempt (κ α : Type) where
  key : κ
  generation : Nat
  phase : Phase α

/-- A register and the number of attempts begun on it. -/
structure Register (α : Type) where
  generation : Nat
  value : Option α

/-- All registers, and the attempts in the order they began. -/
structure State (κ α : Type) where
  register : κ → Register α
  attempts : List (Attempt κ α)

/-- What moves an attempt. -/
inductive Label (κ α : Type) where
  | begin (key : κ)
  | read (attempt : Nat)
  | hold (attempt : Nat) (value : Option α)
  | apply (attempt : Nat) (replied : Bool)
  | fail (attempt : Nat)

/-- Change the phase of one attempt. -/
def State.setPhase (s : State κ α) (i : Nat) (phase : Phase α) : State κ α :=
  { s with attempts := s.attempts.modify i fun attempt => { attempt with phase := phase } }

/-- An attempt that is not final fails. -/
def State.fail (s : State κ α) (i : Nat) : State κ α :=
  match s.attempts[i]? with
  | some ⟨_, _, .begun⟩ | some ⟨_, _, .reading⟩ | some ⟨_, _, .holding _⟩ => s.setPhase i .failed
  | _ => s

/-- The attempt starts to read. -/
def State.read (s : State κ α) (i : Nat) : State κ α :=
  match s.attempts[i]? with
  | some ⟨_, _, .begun⟩ => s.setPhase i .reading
  | _ => s

/-- The attempt holds what it read.  One that has not read may only know that there is nothing. -/
def State.hold (s : State κ α) (i : Nat) (value : Option α) : State κ α :=
  match s.attempts[i]? with
  | some ⟨_, _, .begun⟩ => if value.isNone then s.setPhase i (.holding none) else s
  | some ⟨_, _, .reading⟩ => s.setPhase i (.holding value)
  | _ => s

variable {s : State κ α} {i j : Nat} {key : κ}

theorem getElem?_setPhase (s : State κ α) (i j : Nat) (phase : Phase α) :
    (s.setPhase i phase).attempts[j]? =
      s.attempts[j]?.map fun a => if i = j then { a with phase := phase } else a := by
  show (s.attempts.modify i _)[j]? = _
  rw [List.getElem?_modify]
  by_cases h : i = j
  · simp [h]
  · simp [h]

/-- An attempt after one moved: itself, or the one that moved. -/
theorem setPhase_cases {phase : Phase α} {a : Attempt κ α}
    (h : (s.setPhase i phase).attempts[j]? = some a) :
    (i ≠ j ∧ s.attempts[j]? = some a) ∨
      (i = j ∧ ∃ b, s.attempts[i]? = some b ∧ a = { b with phase := phase }) := by
  rw [getElem?_setPhase] at h
  obtain ⟨b, hb, rfl⟩ := Option.map_eq_some_iff.1 h
  by_cases hij : i = j
  · subst hij
    exact .inr ⟨rfl, b, hb, if_pos rfl⟩
  · rw [if_neg hij]
    exact .inl ⟨hij, hb⟩

theorem setPhase_back {phase : Phase α} {a : Attempt κ α}
    (h : (s.setPhase i phase).attempts[j]? = some a) :
    ∃ b, s.attempts[j]? = some b ∧ b.key = a.key ∧ b.generation = a.generation := by
  rcases setPhase_cases h with ⟨-, hold⟩ | ⟨rfl, b, hb, rfl⟩
  · exact ⟨a, hold, rfl, rfl⟩
  · exact ⟨b, hb, rfl, rfl⟩

theorem setPhase_forth (phase : Phase α) {b : Attempt κ α} (h : s.attempts[j]? = some b) :
    ∃ a, (s.setPhase i phase).attempts[j]? = some a ∧ a.key = b.key ∧
      a.generation = b.generation ∧ (i ≠ j → a = b) := by
  rw [getElem?_setPhase, h]
  by_cases hij : i = j
  · exact ⟨{ b with phase := phase }, by simp [hij], rfl, rfl, fun hne => absurd hij hne⟩
  · exact ⟨b, by simp [hij], rfl, rfl, fun _ => rfl⟩

/-- An attempt keeps its register and generation, and one that is final stays as it is. -/
structure State.Onward (s s' : State κ α) : Prop where
  attempt : ∀ (i : Nat) (a : Attempt κ α), s.attempts[i]? = some a →
    ∃ b, s'.attempts[i]? = some b ∧ b.key = a.key ∧ b.generation = a.generation ∧
      (a.phase.Final → b = a)
  generation : ∀ k, (s.register k).generation ≤ (s'.register k).generation

theorem State.Onward.refl (s : State κ α) : s.Onward s where
  attempt _ a h := ⟨a, h, rfl, rfl, fun _ => rfl⟩
  generation _ := le_rfl

theorem State.Onward.trans {s s' s'' : State κ α} (h : s.Onward s') (h' : s'.Onward s'') :
    s.Onward s'' where
  attempt i a ha := by
    obtain ⟨b, hb, hbkey, hbgen, hbfinal⟩ := h.attempt i a ha
    obtain ⟨c, hc, hckey, hcgen, hcfinal⟩ := h'.attempt i b hb
    refine ⟨c, hc, hckey.trans hbkey, hcgen.trans hbgen, fun hfinal => ?_⟩
    obtain rfl := hbfinal hfinal
    exact hcfinal hfinal
  generation k := (h.generation k).trans (h'.generation k)

theorem setPhase_onward {phase : Phase α} {a : Attempt κ α} (h : s.attempts[i]? = some a)
    (hopen : ¬a.phase.Final) : s.Onward (s.setPhase i phase) where
  attempt j b hb := by
    obtain ⟨c, hc, hkey, hgen, hother⟩ := setPhase_forth (i := i) phase hb
    refine ⟨c, hc, hkey, hgen, fun hfinal => hother ?_⟩
    rintro rfl
    obtain rfl := Option.some.inj (h.symm.trans hb)
    exact hopen hfinal
  generation _ := le_rfl

/-! ### The fence -/

/-- The attempts of a register hold increasing generations, the last of them the register's; what
returned as applied is in the register while it is current, and what returned otherwise is not
current. -/
structure State.Sound (s : State κ α) : Prop where
  older : ∀ (i j : Nat) (a b : Attempt κ α), s.attempts[i]? = some a → s.attempts[j]? = some b →
    i < j → a.key = b.key → a.generation < b.generation
  bounded : ∀ (i : Nat) (a : Attempt κ α), s.attempts[i]? = some a →
    a.generation ≤ (s.register a.key).generation
  current : ∀ (i : Nat) (a : Attempt κ α), s.attempts[i]? = some a →
    ∃ (j : Nat) (b : Attempt κ α), s.attempts[j]? = some b ∧ b.key = a.key ∧
      b.generation = (s.register a.key).generation
  applied : ∀ (i : Nat) (a : Attempt κ α) (value : Option α), s.attempts[i]? = some a →
    a.phase = .returned value true → a.generation = (s.register a.key).generation →
    (s.register a.key).value = value
  superseded : ∀ (i : Nat) (a : Attempt κ α) (value : Option α), s.attempts[i]? = some a →
    a.phase = .returned value false → a.generation < (s.register a.key).generation

/-- Two attempts of one register with one generation are one. -/
theorem State.Sound.unique (hs : s.Sound) {a b : Attempt κ α} (ha : s.attempts[i]? = some a)
    (hb : s.attempts[j]? = some b) (hkey : a.key = b.key) (hgen : a.generation = b.generation) :
    i = j := by
  rcases Nat.lt_trichotomy i j with hlt | heq | hgt
  · have := hs.older i j a b ha hb hlt hkey
    omega
  · exact heq
  · have := hs.older j i b a hb ha hgt hkey.symm
    omega

/-- A change of phase keeps the order of the attempts. -/
theorem State.Sound.setPhase (hs : s.Sound) {phase : Phase α}
    (happlied : ∀ a value, s.attempts[i]? = some a → phase = .returned value true →
      a.generation = (s.register a.key).generation → (s.register a.key).value = value)
    (hstale : ∀ a value, s.attempts[i]? = some a → phase = .returned value false →
      a.generation < (s.register a.key).generation) : (s.setPhase i phase).Sound where
  older := by
    intro k j a b ha hb hlt hkey
    obtain ⟨a', ha', hakey, hagen⟩ := setPhase_back ha
    obtain ⟨b', hb', hbkey, hbgen⟩ := setPhase_back hb
    have := hs.older k j a' b' ha' hb' hlt (hakey.trans (hkey.trans hbkey.symm))
    omega
  bounded := by
    intro j a ha
    obtain ⟨b, hb, hkey, hgen⟩ := setPhase_back ha
    rw [← hkey, ← hgen]
    exact hs.bounded j b hb
  current := by
    intro j a ha
    obtain ⟨b, hb, hkey, -⟩ := setPhase_back ha
    obtain ⟨k, c, hc, hckey, hcgen⟩ := hs.current j b hb
    obtain ⟨d, hd, hdkey, hdgen, -⟩ := setPhase_forth phase hc
    exact ⟨k, d, hd, hdkey.trans (hckey.trans hkey), hkey ▸ hdgen.trans hcgen⟩
  applied := by
    intro j a value ha hphase hgen
    rcases setPhase_cases ha with ⟨-, hold⟩ | ⟨rfl, b, hb, rfl⟩
    · exact hs.applied j a value hold hphase hgen
    · exact happlied b value hb hphase hgen
  superseded := by
    intro j a value ha hphase
    rcases setPhase_cases ha with ⟨-, hold⟩ | ⟨rfl, b, hb, rfl⟩
    · exact hs.superseded j a value hold hphase
    · exact hstale b value hb hphase

/-! ### What the fence is for -/

/-- An attempt that sets its register began after every other attempt on it. -/
theorem State.Sound.latest (hs : s.Sound) {a b : Attempt κ α} (ha : s.attempts[i]? = some a)
    (hgen : (s.register a.key).generation = a.generation) (hb : s.attempts[j]? = some b)
    (hkey : b.key = a.key) : j ≤ i := by
  by_contra hlt
  have holder := hs.older i j a b ha hb (by omega) hkey.symm
  have hbound := hs.bounded j b hb
  rw [hkey, hgen] at hbound
  omega

/-- An attempt that sets its register after another began after it, at a higher generation. -/
theorem State.Sound.later {s' : State κ α} (hs' : s'.Sound) {a b : Attempt κ α}
    (ha : s'.attempts[i]? = some a) (hb : s'.attempts[j]? = some b) (hkey : b.key = a.key)
    (hgen : (s'.register b.key).generation = b.generation) (hne : i ≠ j) :
    i < j ∧ a.generation < b.generation := by
  have hle := hs'.latest hb hgen ha hkey.symm
  have hlt : i < j := by omega
  exact ⟨hlt, hs'.older i j a b ha hb hlt hkey.symm⟩

/-- Once all attempts on a register have returned, it holds what the attempt with the highest
generation read. -/
theorem State.Sound.settled (hs : s.Sound) {a : Attempt κ α} (ha : s.attempts[i]? = some a)
    (hreturned : ∀ (j : Nat) (b : Attempt κ α), s.attempts[j]? = some b → b.key = a.key →
      ∃ value applied, b.phase = .returned value applied) :
    ∃ (j : Nat) (b : Attempt κ α), s.attempts[j]? = some b ∧ b.key = a.key ∧
      b.phase = .returned (s.register a.key).value true ∧
      ∀ (k : Nat) (c : Attempt κ α), s.attempts[k]? = some c → c.key = a.key →
        c.generation ≤ b.generation := by
  obtain ⟨j, b, hb, hkey, hgen⟩ := hs.current i a ha
  obtain ⟨value, applied, hphase⟩ := hreturned j b hb hkey
  refine ⟨j, b, hb, hkey, ?_, ?_⟩
  · cases applied with
    | false =>
      have := hs.superseded j b value hb hphase
      rw [hkey] at this
      omega
    | true =>
      have hvalue := hs.applied j b value hb hphase (by rw [hkey]; exact hgen)
      rw [hphase, ← hvalue, hkey]
  · intro k c hc hckey
    have := hs.bounded k c hc
    rw [hckey] at this
    omega

/-! ### What one step does -/

variable [DecidableEq κ]

/-- Change one register. -/
def State.setRegister (s : State κ α) (key : κ) (register : Register α) : State κ α :=
  { s with register := fun k => if k = key then register else s.register k }

/-- Raise the generation and hand it to a new attempt. -/
def State.begin (s : State κ α) (key : κ) : State κ α :=
  let generation := (s.register key).generation + 1
  let s' := s.setRegister key { s.register key with generation := generation }
  { s' with attempts := s.attempts ++ [⟨key, generation, .begun⟩] }

/-- Set the register, while the generation of the attempt is the register's.  A reply may be lost
after the write. -/
def State.apply (s : State κ α) (i : Nat) (replied : Bool) : State κ α :=
  match s.attempts[i]? with
  | some ⟨key, generation, .holding value⟩ =>
    if (s.register key).generation = generation then
      (s.setRegister key { s.register key with value := value }).setPhase i
        (if replied then .returned value true else .failed)
    else s.setPhase i (if replied then .returned value false else .failed)
  | _ => s

/-- One step. -/
def step (s : State κ α) : Label κ α → State κ α
  | .begin key => s.begin key
  | .read i => s.read i
  | .hold i value => s.hold i value
  | .apply i replied => s.apply i replied
  | .fail i => s.fail i

/-- An attempt after another began: an earlier one, or the new one. -/
theorem begin_cases {a : Attempt κ α} (h : (s.begin key).attempts[j]? = some a) :
    s.attempts[j]? = some a ∨
      (j = s.attempts.length ∧ a = ⟨key, (s.register key).generation + 1, .begun⟩) := by
  change (s.attempts ++ [_])[j]? = some a at h
  rcases Nat.lt_trichotomy j s.attempts.length with hlt | rfl | hgt
  · rw [List.getElem?_append_left hlt] at h
    exact .inl h
  · rw [List.getElem?_concat_length] at h
    exact .inr ⟨rfl, (Option.some.inj h).symm⟩
  · rw [List.getElem?_append_right hgt.le, List.getElem?_eq_none] at h
    · cases h
    · show 1 ≤ j - s.attempts.length
      omega

/-- What one step does. -/
inductive Moves (s : State κ α) : State κ α → Prop where
  | stays : Moves s s
  | begins (key : κ) : Moves s (s.begin key)
  | moves (i : Nat) (a : Attempt κ α) (phase : Phase α) (h : s.attempts[i]? = some a)
      (hopen : ¬a.phase.Final) (hsilent : ∀ value applied, phase ≠ .returned value applied) :
      Moves s (s.setPhase i phase)
  | superseded (i : Nat) (a : Attempt κ α) (value : Option α) (phase : Phase α)
      (h : s.attempts[i]? = some a) (hheld : a.phase = .holding value)
      (hstale : (s.register a.key).generation ≠ a.generation)
      (hphase : phase = .returned value false ∨ phase = .failed) : Moves s (s.setPhase i phase)
  | applies (i : Nat) (a : Attempt κ α) (value : Option α) (phase : Phase α)
      (h : s.attempts[i]? = some a) (hheld : a.phase = .holding value)
      (hfresh : (s.register a.key).generation = a.generation)
      (hphase : phase = .returned value true ∨ phase = .failed) :
      Moves s ((s.setRegister a.key { s.register a.key with value := value }).setPhase i phase)

theorem step_moves (s : State κ α) (label : Label κ α) : Moves s (step s label) := by
  cases label with
  | begin key => exact .begins key
  | read i =>
    show Moves s (s.read i)
    unfold State.read
    split
    case h_1 h => exact .moves i _ _ h id (by simp)
    case h_2 => exact .stays
  | hold i value =>
    show Moves s (s.hold i value)
    unfold State.hold
    split
    case h_1 h =>
      split_ifs
      · exact .moves i _ _ h id (by simp)
      · exact .stays
    case h_2 h => exact .moves i _ _ h id (by simp)
    case h_3 => exact .stays
  | apply i replied =>
    show Moves s (s.apply i replied)
    unfold State.apply
    split
    case h_1 h =>
      split_ifs with hfresh hreplied hreplied
      · exact .applies i _ _ _ h rfl hfresh (.inl rfl)
      · exact .applies i _ _ _ h rfl hfresh (.inr rfl)
      · exact .superseded i _ _ _ h rfl hfresh (.inl rfl)
      · exact .superseded i _ _ _ h rfl hfresh (.inr rfl)
    case h_2 => exact .stays
  | fail i =>
    show Moves s (s.fail i)
    unfold State.fail
    split
    case h_1 h => exact .moves i _ _ h id (by simp)
    case h_2 h => exact .moves i _ _ h id (by simp)
    case h_3 h => exact .moves i _ _ h id (by simp)
    case h_4 => exact .stays

/-- The register of an attempt that holds its generation is set. -/
theorem State.Sound.setValue (hs : s.Sound) {a : Attempt κ α} (ha : s.attempts[i]? = some a)
    (hopen : ¬a.phase.Final) (hgen : (s.register a.key).generation = a.generation)
    (value : Option α) :
    (s.setRegister a.key { s.register a.key with value := value }).Sound := by
  have hregister : ∀ k, ((s.setRegister a.key { s.register a.key with value := value }).register
      k).generation = (s.register k).generation := by
    intro k
    show (if k = a.key then _ else s.register k).generation = _
    split_ifs with hk
    · rw [hk]
    · rfl
  refine ⟨hs.older, ?_, ?_, ?_, ?_⟩
  · intro j b hb
    rw [hregister]
    exact hs.bounded j b hb
  · intro j b hb
    rw [hregister]
    exact hs.current j b hb
  · intro j b v hb hphase hbgen
    rw [hregister] at hbgen
    have hkey : b.key ≠ a.key := by
      intro hkey
      obtain rfl := hs.unique ha hb hkey.symm (hgen.symm.trans (hkey ▸ hbgen.symm))
      obtain rfl := Option.some.inj (ha.symm.trans hb)
      exact hopen (hphase ▸ trivial)
    show (if b.key = a.key then _ else s.register b.key).value = v
    rw [if_neg hkey]
    exact hs.applied j b v hb hphase hbgen
  · intro j b v hb hphase
    rw [hregister]
    exact hs.superseded j b v hb hphase

/-- A new attempt holds the highest generation. -/
theorem State.Sound.begin (hs : s.Sound) (key : κ) : (s.begin key).Sound := by
  have hregister : ∀ k, (s.begin key).register k =
      if k = key then { s.register key with generation := (s.register key).generation + 1 }
      else s.register k := fun k => rfl
  have hforth : ∀ (j : Nat) (b : Attempt κ α), s.attempts[j]? = some b →
      (s.begin key).attempts[j]? = some b := by
    intro j b hb
    show (s.attempts ++ [_])[j]? = some b
    rw [List.getElem?_append_left (List.getElem?_eq_some_iff.1 hb).1, hb]
  have hnew : (s.begin key).attempts[s.attempts.length]? =
      some ⟨key, (s.register key).generation + 1, .begun⟩ := List.getElem?_concat_length
  have hraised : ∀ (j : Nat) (b : Attempt κ α), s.attempts[j]? = some b → b.key = key →
      b.generation < ((s.begin key).register b.key).generation := by
    intro j b hb hkey
    have := hs.bounded j b hb
    rw [hregister, if_pos hkey]
    exact Nat.lt_succ_of_le (hkey ▸ this)
  refine ⟨?_, ?_, ?_, ?_, ?_⟩
  · intro i j a b ha hb hlt hkey
    rcases begin_cases ha with ha | ⟨rfl, rfl⟩
    · rcases begin_cases hb with hb | ⟨rfl, rfl⟩
      · exact hs.older i j a b ha hb hlt hkey
      · have hkey' : a.key = key := hkey
        have := hs.bounded i a ha
        exact Nat.lt_succ_of_le (hkey' ▸ this)
    · rcases begin_cases hb with hb | ⟨rfl, rfl⟩
      · have := (List.getElem?_eq_some_iff.1 hb).1
        omega
      · omega
  · intro j a ha
    rcases begin_cases ha with ha | ⟨rfl, rfl⟩
    · by_cases hkey : a.key = key
      · exact (hraised j a ha hkey).le
      · rw [hregister, if_neg hkey]
        exact hs.bounded j a ha
    · rw [hregister, if_pos rfl]
  · intro j a ha
    by_cases hkey : a.key = key
    · refine ⟨_, _, hnew, hkey.symm, ?_⟩
      rw [hregister, if_pos hkey]
    · rcases begin_cases ha with ha | ⟨rfl, rfl⟩
      · obtain ⟨k, b, hb, hbkey, hbgen⟩ := hs.current j a ha
        refine ⟨k, b, hforth k b hb, hbkey, ?_⟩
        rw [hregister, if_neg hkey]
        exact hbgen
      · exact absurd rfl hkey
  · intro j a value ha hphase hgen
    rcases begin_cases ha with ha | ⟨rfl, rfl⟩
    · by_cases hkey : a.key = key
      · exact absurd hgen (hraised j a ha hkey).ne
      · rw [hregister, if_neg hkey] at hgen ⊢
        exact hs.applied j a value ha hphase hgen
    · cases hphase
  · intro j a value ha hphase
    rcases begin_cases ha with ha | ⟨rfl, rfl⟩
    · by_cases hkey : a.key = key
      · exact hraised j a ha hkey
      · rw [hregister, if_neg hkey]
        exact hs.superseded j a value ha hphase
    · cases hphase

/-- Every step keeps the fence. -/
theorem State.Sound.step (hs : s.Sound) (label : Label κ α) :
    (FencedRefresh.step s label).Sound := by
  have hmoves := step_moves s label
  generalize FencedRefresh.step s label = s' at hmoves
  cases hmoves with
  | stays => exact hs
  | begins key => exact hs.begin key
  | moves i a phase h hopen hsilent =>
    exact hs.setPhase (fun _ value _ hphase => absurd hphase (hsilent value true))
      (fun _ value _ hphase => absurd hphase (hsilent value false))
  | superseded i a value phase h hheld hstale hphase =>
    refine hs.setPhase ?_ ?_
    · rintro b v hb rfl
      simp at hphase
    · intro b v hb _
      obtain rfl := Option.some.inj (h.symm.trans hb)
      exact lt_of_le_of_ne (hs.bounded i a h) fun e => hstale e.symm
  | applies i a value phase h hheld hfresh hphase =>
    have hopen : ¬a.phase.Final := by
      rw [hheld]
      exact id
    refine (hs.setValue h hopen hfresh value).setPhase ?_ ?_
    · rintro b v hb rfl -
      obtain rfl := Option.some.inj (h.symm.trans hb)
      show (if a.key = a.key then _ else s.register a.key).value = v
      rw [if_pos rfl]
      simpa [eq_comm] using hphase
    · rintro b v hb rfl
      simp at hphase

/-- Every run keeps the fence. -/
theorem State.Sound.run (hs : s.Sound) (labels : List (Label κ α)) :
    (Machine.run FencedRefresh.step s labels).Sound :=
  Machine.invariant_run State.Sound (fun _ label h => h.step label) hs labels

theorem step_onward (s : State κ α) (label : Label κ α) : s.Onward (step s label) := by
  have hmoves := step_moves s label
  generalize step s label = s' at hmoves
  cases hmoves with
  | stays => exact .refl s
  | begins key =>
    refine ⟨fun i a ha => ⟨a, ?_, rfl, rfl, fun _ => rfl⟩, fun k => ?_⟩
    · show (s.attempts ++ [_])[i]? = some a
      rw [List.getElem?_append_left (List.getElem?_eq_some_iff.1 ha).1, ha]
    · show _ ≤ (if k = key then _ else s.register k).generation
      split_ifs with hk
      · rw [hk]
        exact Nat.le_succ _
      · exact le_rfl
  | moves i a phase h hopen hsilent => exact setPhase_onward h hopen
  | superseded i a value phase h hheld hstale hphase =>
    exact setPhase_onward h (by rw [hheld]; exact id)
  | applies i a value phase h hheld hfresh hphase =>
    have hset : s.Onward (s.setRegister a.key { s.register a.key with value := value }) := by
      refine ⟨fun j b hb => ⟨b, hb, rfl, rfl, fun _ => rfl⟩, fun k => ?_⟩
      show _ ≤ (if k = a.key then _ else s.register k).generation
      split_ifs with hk
      · rw [hk]
      · exact le_rfl
    exact hset.trans (setPhase_onward h (by rw [hheld]; exact id))

theorem run_onward (s : State κ α) (labels : List (Label κ α)) :
    s.Onward (Machine.run step s labels) :=
  Machine.invariant_run (s.Onward ·) (fun t label h => h.trans (step_onward t label)) (.refl s)
    labels

end FencedRefresh
