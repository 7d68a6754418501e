import Mathlib.Logic.Relation

/-!
# Programs of calls

A program makes calls on a state that it shares with others, one at a time, and goes on with what
each call returns.  Between two calls of one party the others may do anything that they are allowed
to.

* `CallProgram` is the program, `Routine` a program with a state of its own and exceptions;
* `Parties` are programs over one state: who may make which call, and what a call does;
* `CallProgram.Meets`: whatever the others do, a program makes only calls that it is allowed to and
  returns only what a condition admits;  `Routine.Meets.bind` and its like are its rules;
* `Parties.Stable`: a fact that no step of anybody ends;  `CallProgram.Meets.frame` carries it
  through a program;
* `Parties.Sound.exec`, `Parties.Sound.surroundings`: when every party's program meets a condition,
  each step is allowed, and afterwards every party's program still meets it.
-/

/-- A program that makes calls and returns. -/
inductive CallProgram (κ : Type) (ρ : κ → Type) (α : Type) : Type where
  | done (a : α)
  | call (c : κ) (next : ρ c → CallProgram κ ρ α)

namespace CallProgram

variable {κ : Type} {ρ : κ → Type} {α β : Type}

/-- One program after the other. -/
def bind (p : CallProgram κ ρ α) (f : α → CallProgram κ ρ β) : CallProgram κ ρ β :=
  match p with
  | .done a => f a
  | .call c next => .call c fun r => (next r).bind f

end CallProgram

/-- A program with a state of its own that may stop with an exception. -/
def Routine (κ : Type) (ρ : κ → Type) (ε τ α : Type) : Type :=
  τ → CallProgram κ ρ (Except ε α × τ)

namespace Routine

variable {κ : Type} {ρ : κ → Type} {ε τ α β : Type}

instance : Monad (Routine κ ρ ε τ) where
  pure a t := .done (.ok a, t)
  bind p f t := (p t).bind fun
    | (.ok a, t) => f a t
    | (.error e, t) => .done (.error e, t)

instance : MonadExceptOf ε (Routine κ ρ ε τ) where
  throw e t := .done (.error e, t)
  tryCatch p handle t := (p t).bind fun
    | (.ok a, t) => .done (.ok a, t)
    | (.error e, t) => handle e t

/-- Make a call. -/
def call (c : κ) : Routine κ ρ ε τ (ρ c) := fun t => .call c fun r => .done (.ok r, t)

/-- Read the routine's own state and replace it. -/
def update (f : τ → α × τ) : Routine κ ρ ε τ α := fun t => .done (.ok (f t).1, (f t).2)

end Routine

/-! ### Parties -/

/-- Parties that run programs over one state: its invariant, the calls each may make there, what a
call does, and what the surroundings do by themselves. -/
structure Parties (ι σ κ : Type) (ρ : κ → Type) where
  inv : σ → Prop
  allowed : ι → κ → σ → Prop
  exec : ι → (c : κ) → σ → ρ c → σ → Prop
  surroundings : σ → σ → Prop

namespace Parties

variable {ι σ κ : Type} {ρ : κ → Type} (P : Parties ι σ κ ρ)

/-- One step of anybody but the party. -/
def Others (i : ι) (s s' : σ) : Prop :=
  P.surroundings s s' ∨ ∃ j, j ≠ i ∧ ∃ c r, P.allowed j c s ∧ P.exec j c s r s'

/-- What may have become of the state while the party waits. -/
def Later (i : ι) : σ → σ → Prop :=
  Relation.ReflTransGen fun s s' => P.inv s ∧ P.Others i s s' ∧ P.inv s'

/-- A fact that the others leave to a party. -/
def Rests (i : ι) (R : σ → Prop) : Prop :=
  ∀ s s', P.inv s → P.Others i s s' → P.inv s' → R s → R s'

/-- A fact that no step ends. -/
structure Stable (R : σ → Prop) : Prop where
  surroundings : ∀ s s', P.inv s → P.surroundings s s' → P.inv s' → R s → R s'
  exec : ∀ i c s r s', P.inv s → P.allowed i c s → P.exec i c s r s' → P.inv s' → R s → R s'

variable {P} {i : ι} {R R' : σ → Prop} {s s' : σ}

theorem Rests.later (h : P.Rests i R) (hlater : P.Later i s s') (hR : R s) : R s' := by
  induction hlater with
  | refl => exact hR
  | tail _ hstep ih => exact h _ _ hstep.1 hstep.2.1 hstep.2.2 ih

theorem Stable.rests (h : P.Stable R) : P.Rests i R := by
  rintro s s' hs (hstep | ⟨j, -, c, r, hallowed, hexec⟩) hs' hR
  · exact h.surroundings s s' hs hstep hs' hR
  · exact h.exec j c s r s' hs hallowed hexec hs' hR

theorem Stable.later (h : P.Stable R) (hlater : P.Later i s s') (hR : R s) : R s' :=
  Rests.later h.rests hlater hR

end Parties

/-! ### What programs meet -/

namespace CallProgram

variable {ι σ κ : Type} {ρ : κ → Type} {α β : Type} (P : Parties ι σ κ ρ) (i : ι)

/-- Whatever the others do, the party's program makes only calls that it is allowed to, and returns
only what `Q` admits. -/
def Meets (s : σ) (p : CallProgram κ ρ α) (Q : σ → α → Prop) : Prop :=
  match p with
  | .done a => Q s a
  | .call c next => ∀ s', P.Later i s s' → P.inv s' → P.allowed i c s' ∧
      ∀ r s'', P.exec i c s' r s'' → P.inv s'' → (next r).Meets s'' Q

variable {P} {i} {s s' : σ} {p : CallProgram κ ρ α} {Q Q' : σ → α → Prop}

theorem Meets.imp (h : p.Meets P i s Q) (hQ : ∀ s a, Q s a → Q' s a) : p.Meets P i s Q' := by
  induction p generalizing s with
  | done a => exact hQ s a h
  | call c next ih =>
    intro s' hlater hs'
    obtain ⟨hallowed, hnext⟩ := h s' hlater hs'
    exact ⟨hallowed, fun r s'' hexec hs'' => ih r (hnext r s'' hexec hs'')⟩

theorem Meets.bind {f : α → CallProgram κ ρ β} {T : σ → β → Prop} (h : p.Meets P i s Q)
    (hf : ∀ s a, Q s a → (f a).Meets P i s T) : (p.bind f).Meets P i s T := by
  induction p generalizing s with
  | done a => exact hf s a h
  | call c next ih =>
    intro s' hlater hs'
    obtain ⟨hallowed, hnext⟩ := h s' hlater hs'
    exact ⟨hallowed, fun r s'' hexec hs'' => ih r (hnext r s'' hexec hs'')⟩

/-- A program may wait. -/
theorem Meets.later (h : p.Meets P i s Q) (hQ : ∀ a, P.Rests i (Q · a)) (hlater : P.Later i s s') :
    p.Meets P i s' Q := by
  cases p with
  | done a => exact (hQ a).later hlater h
  | call c next => exact fun s'' hlater' hs'' => h s'' (hlater.trans hlater') hs''

/-- The invariant holds at the end of the program. -/
theorem Meets.inv (hs : P.inv s) (h : p.Meets P i s Q) :
    p.Meets P i s fun s a => P.inv s ∧ Q s a := by
  induction p generalizing s with
  | done a => exact ⟨hs, h⟩
  | call c next ih =>
    intro s' hlater hs'
    obtain ⟨hallowed, hnext⟩ := h s' hlater hs'
    exact ⟨hallowed, fun r s'' hexec hs'' => ih r hs'' (hnext r s'' hexec hs'')⟩

/-- A fact that no step ends holds to the end of the program. -/
theorem Meets.frame {R : σ → Prop} (hR : P.Stable R) (hs : R s) (h : p.Meets P i s Q) :
    p.Meets P i s fun s a => R s ∧ Q s a := by
  induction p generalizing s with
  | done a => exact ⟨hs, h⟩
  | call c next ih =>
    intro s' hlater hs'
    obtain ⟨hallowed, hnext⟩ := h s' hlater hs'
    refine ⟨hallowed, fun r s'' hexec hs'' => ih r ?_ (hnext r s'' hexec hs'')⟩
    exact hR.exec i c s' r s'' hs' hallowed hexec hs'' (hR.later hlater hs)

end CallProgram

namespace Routine

variable {ι σ κ : Type} {ρ : κ → Type} {ε τ α β : Type} (P : Parties ι σ κ ρ) (i : ι)

/-- What a routine meets from a state of its own. -/
def Meets (s : σ) (t : τ) (p : Routine κ ρ ε τ α) (Q : σ → Except ε α → τ → Prop) : Prop :=
  (p t).Meets P i s fun s x => Q s x.1 x.2

variable {P} {i} {s : σ} {t : τ} {p : Routine κ ρ ε τ α} {Q Q' : σ → Except ε α → τ → Prop}

theorem Meets.imp (h : p.Meets P i s t Q) (hQ : ∀ s x t, Q s x t → Q' s x t) :
    p.Meets P i s t Q' :=
  CallProgram.Meets.imp h fun s x => hQ s x.1 x.2

theorem Meets.pure {a : α} (h : Q s (.ok a) t) :
    (Pure.pure a : Routine κ ρ ε τ α).Meets P i s t Q := h

theorem Meets.throw {e : ε} (h : Q s (.error e) t) :
    (throw e : Routine κ ρ ε τ α).Meets P i s t Q := h

theorem Meets.bind {f : α → Routine κ ρ ε τ β} {T : σ → Except ε β → τ → Prop}
    (h : p.Meets P i s t Q) (hok : ∀ s a t, Q s (.ok a) t → (f a).Meets P i s t T)
    (herror : ∀ s e t, Q s (.error e) t → T s (.error e) t) : (p >>= f).Meets P i s t T := by
  refine CallProgram.Meets.bind h ?_
  rintro s ⟨x, t⟩ hx
  cases x with
  | ok a => exact hok s a t hx
  | error e => exact herror s e t hx

theorem Meets.tryCatch {handle : ε → Routine κ ρ ε τ α} {T : σ → Except ε α → τ → Prop}
    (h : p.Meets P i s t Q) (hok : ∀ s a t, Q s (.ok a) t → T s (.ok a) t)
    (herror : ∀ s e t, Q s (.error e) t → (handle e).Meets P i s t T) :
    (tryCatch p handle).Meets P i s t T := by
  refine CallProgram.Meets.bind h ?_
  rintro s ⟨x, t⟩ hx
  cases x with
  | ok a => exact hok s a t hx
  | error e => exact herror s e t hx

/-- The invariant holds at the end of the routine. -/
theorem Meets.inv (hs : P.inv s) (h : p.Meets P i s t Q) :
    p.Meets P i s t fun s x t => P.inv s ∧ Q s x t :=
  CallProgram.Meets.inv hs h

/-- A fact that no step ends holds to the end of the routine. -/
theorem Meets.frame {R : σ → Prop} (hR : P.Stable R) (hs : R s) (h : p.Meets P i s t Q) :
    p.Meets P i s t fun s x t => R s ∧ Q s x t :=
  CallProgram.Meets.frame hR hs h

end Routine

/-! ### All parties together -/

namespace Parties

variable {ι σ κ : Type} {ρ : κ → Type} {τ α : Type} {P : Parties ι σ κ ρ}
variable {programs programs' : ι → Option (τ × CallProgram κ ρ α)} {Q : τ → σ → α → Prop}
variable {s s' : σ}

/-- The invariant holds, and every party's program meets what its task asks. -/
structure Sound (P : Parties ι σ κ ρ) (programs : ι → Option (τ × CallProgram κ ρ α))
    (Q : τ → σ → α → Prop) (s : σ) : Prop where
  inv : P.inv s
  meets : ∀ i task p, programs i = some (task, p) → p.Meets P i s (Q task)

/-- The next call of a party is one that it may make. -/
theorem Sound.allowed (h : P.Sound programs Q s) {i : ι} {task : τ} {c : κ}
    {next : ρ c → CallProgram κ ρ α} (hi : programs i = some (task, .call c next)) :
    P.allowed i c s :=
  (h.meets i task _ hi s .refl h.inv).1

/-- After a step of the surroundings. -/
theorem Sound.surroundings (h : P.Sound programs Q s) (hQ : ∀ i task a, P.Rests i (Q task · a))
    (hstep : P.surroundings s s') (hinv : P.inv s') : P.Sound programs Q s' where
  inv := hinv
  meets i task p hi := (h.meets i task p hi).later (hQ i task) (.single ⟨h.inv, .inl hstep, hinv⟩)

/-- After a call of one party. -/
theorem Sound.exec (h : P.Sound programs Q s) (hQ : ∀ i task a, P.Rests i (Q task · a)) {i : ι}
    {task : τ} {c : κ} {next : ρ c → CallProgram κ ρ α}
    (hi : programs i = some (task, .call c next)) {r : ρ c} (hexec : P.exec i c s r s')
    (hinv : P.inv s') (hprograms : ∀ j x, programs' j = some x →
      (j = i ∧ x = (task, next r)) ∨ (j ≠ i ∧ programs j = some x)) : P.Sound programs' Q s' where
  inv := hinv
  meets j task' p hj := by
    rcases hprograms j _ hj with ⟨rfl, hx⟩ | ⟨hne, hsame⟩
    · cases hx
      exact (h.meets j task _ hi s .refl h.inv).2 r s' hexec hinv
    · exact (h.meets j task' p hsame).later (hQ j task')
        (.single ⟨h.inv, .inr ⟨i, fun e => hne e.symm, c, r, h.allowed hi, hexec⟩, hinv⟩)

/-- A party may begin a program that meets what its task asks. -/
theorem Sound.begin (h : P.Sound programs Q s) {i : ι} {t : τ} {p : CallProgram κ ρ α}
    (hp : p.Meets P i s (Q t))
    (hprograms : ∀ j x, programs' j = some x → (j = i ∧ x = (t, p)) ∨ programs j = some x) :
    P.Sound programs' Q s where
  inv := h.inv
  meets j task' q hj := by
    rcases hprograms j _ hj with ⟨rfl, hx⟩ | hsame
    · cases hx
      exact hp
    · exact h.meets j task' q hsame

end Parties
