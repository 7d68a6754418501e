import Mathlib.Data.List.Basic
import Mathlib.Data.List.Induction

/-!
# Runs of a labelled machine

A machine steps from state to state under labels; a run is the list of its labels.  The rules
below turn what one step preserves into what a whole run preserves, also for runs whose steps all
meet a condition on the state before them.
-/

namespace Machine

variable {σ ι : Type} (step : σ → ι → σ)

/-- The state after a list of labels. -/
def run (s : σ) (labels : List ι) : σ := labels.foldl step s

@[simp] theorem run_nil (s : σ) : run step s [] = s := rfl

@[simp] theorem run_cons (s : σ) (i : ι) (labels : List ι) :
    run step s (i :: labels) = run step (step s i) labels := rfl

theorem run_append (s : σ) (first second : List ι) :
    run step s (first ++ second) = run step (run step s first) second := by
  simp [run, List.foldl_append]

/-- Every step of the run meets the condition in the state before it. -/
def Along (C : σ → ι → Prop) : σ → List ι → Prop
  | _, [] => True
  | s, i :: labels => C s i ∧ Along C (step s i) labels

@[simp] theorem along_nil (C : σ → ι → Prop) (s : σ) : Along step C s [] := trivial

@[simp] theorem along_cons (C : σ → ι → Prop) (s : σ) (i : ι) (labels : List ι) :
    Along step C s (i :: labels) ↔ C s i ∧ Along step C (step s i) labels := Iff.rfl

instance (C : σ → ι → Prop) [∀ s i, Decidable (C s i)] (s : σ) (labels : List ι) :
    Decidable (Along step C s labels) :=
  match labels with
  | [] => isTrue trivial
  | i :: rest =>
    have : Decidable (Along step C (step s i) rest) := instDecidableAlong C (step s i) rest
    inferInstanceAs (Decidable (C s i ∧ Along step C (step s i) rest))

variable {step}

theorem Along.append {C : σ → ι → Prop} {s : σ} {first second : List ι} :
    Along step C s (first ++ second) ↔
      Along step C s first ∧ Along step C (run step s first) second := by
  induction first generalizing s with
  | nil => simp
  | cons i rest ih => simp [ih, and_assoc]

/-- The condition holds at every step, in the state that the run has reached. -/
theorem along_iff {C : σ → ι → Prop} {s : σ} {labels : List ι} :
    Along step C s labels ↔
      ∀ first i rest, labels = first ++ i :: rest → C (run step s first) i := by
  induction labels generalizing s with
  | nil => simp
  | cons j rest ih =>
    rw [along_cons, ih]
    constructor
    · rintro ⟨hj, hrest⟩ first i later heq
      cases first with
      | nil =>
        cases heq
        exact hj
      | cons k first =>
        obtain ⟨rfl, rfl⟩ := List.cons.inj heq
        exact hrest first i later rfl
    · intro h
      exact ⟨h [] j rest rfl, fun first i later heq => h (j :: first) i later (by rw [heq]; rfl)⟩

/-- A weaker condition. -/
theorem Along.imp {C D : σ → ι → Prop} (hCD : ∀ s i, C s i → D s i) {s : σ} {labels : List ι}
    (h : Along step C s labels) : Along step D s labels := by
  induction labels generalizing s with
  | nil => trivial
  | cons i rest ih => exact ⟨hCD s i h.1, ih h.2⟩

/-- A condition on labels alone. -/
theorem Along.of_forall_mem {C : ι → Prop} {s : σ} {labels : List ι} (h : ∀ i ∈ labels, C i) :
    Along step (fun _ i => C i) s labels := by
  induction labels generalizing s with
  | nil => trivial
  | cons i rest ih => exact ⟨h i (by simp), ih fun j hj => h j (by simp [hj])⟩

/-- What every step meeting the condition preserves holds after every such run. -/
theorem Along.invariant {C : σ → ι → Prop} (Inv : σ → Prop)
    (hstep : ∀ s i, Inv s → C s i → Inv (step s i)) {s : σ} {labels : List ι} (h0 : Inv s)
    (h : Along step C s labels) : Inv (run step s labels) := by
  induction labels generalizing s with
  | nil => exact h0
  | cons i rest ih => exact ih (hstep s i h0 h.1) h.2

/-- What every step preserves holds after every run. -/
theorem invariant_run (Inv : σ → Prop) (hstep : ∀ s i, Inv s → Inv (step s i)) {s : σ}
    (h0 : Inv s) (labels : List ι) : Inv (run step s labels) := by
  induction labels generalizing s with
  | nil => exact h0
  | cons i rest ih => exact ih (hstep s i h0)

/-! ### Events -/

section Events

variable {α : Type} (step) (observe : σ → ι → Option α)

/-- What the steps of a run show, in order. -/
def events : σ → List ι → List α
  | _, [] => []
  | s, i :: labels => (observe s i).toList ++ events (step s i) labels

@[simp] theorem events_nil (s : σ) : events step observe s [] = [] := rfl

@[simp] theorem events_cons (s : σ) (i : ι) (labels : List ι) :
    events step observe s (i :: labels) =
      (observe s i).toList ++ events step observe (step s i) labels := rfl

theorem events_append (s : σ) (first second : List ι) :
    events step observe s (first ++ second) =
      events step observe s first ++ events step observe (run step s first) second := by
  induction first generalizing s with
  | nil => rfl
  | cons i rest ih => simp [ih]

end Events

/-! ### Registers -/

section Registers

variable {α : Type} (step) (sets : σ → ι → α → Prop)

/-- The run has a step that sets the register to the value, and no step after it sets it again. -/
def LastSet (s : σ) (labels : List ι) (v : α) : Prop :=
  ∃ first i rest, labels = first ++ i :: rest ∧ sets (run step s first) i v ∧
    Along step (fun t j => ∀ u, ¬sets t j u) (run step s (first ++ [i])) rest

/-- No step of the run sets the register. -/
def NeverSet (s : σ) (labels : List ι) : Prop := Along step (fun t j => ∀ u, ¬sets t j u) s labels

variable {step sets}

/-- A register that some steps set and no other step changes holds what was set last. -/
theorem register_last {C : σ → ι → Prop} (Inv : σ → Prop) (get : σ → Option α)
    (hinv : ∀ s i, Inv s → Inv (step s i))
    (hset : ∀ s i v, Inv s → C s i → sets s i v → get (step s i) = some v)
    (hkeep : ∀ s i, Inv s → C s i → (∀ v, ¬sets s i v) → get (step s i) = get s)
    {s : σ} (h0 : Inv s) {labels : List ι} (h : Along step C s labels) :
    (∃ v, LastSet step sets s labels v ∧ get (run step s labels) = some v) ∨
      (NeverSet step sets s labels ∧ get (run step s labels) = get s) := by
  induction labels using List.reverseRecOn with
  | nil => exact .inr ⟨trivial, rfl⟩
  | append_singleton labels i ih =>
    obtain ⟨hlabels, hi, -⟩ := Along.append.1 h
    have hreached : Inv (run step s labels) := invariant_run Inv hinv h0 labels
    have hrun : run step s (labels ++ [i]) = step (run step s labels) i := run_append _ _ _ _
    rw [hrun]
    by_cases hsets : ∃ v, sets (run step s labels) i v
    · obtain ⟨v, hv⟩ := hsets
      exact .inl ⟨v, ⟨labels, i, [], rfl, hv, trivial⟩, hset _ _ v hreached hi hv⟩
    · have hno : ∀ v, ¬sets (run step s labels) i v := fun v hv => hsets ⟨v, hv⟩
      rw [hkeep _ _ hreached hi hno]
      rcases ih hlabels with ⟨v, ⟨first, j, rest, rfl, hv, hrest⟩, hget⟩ | ⟨hnever, hget⟩
      · refine .inl ⟨v, ⟨first, j, rest ++ [i], by simp, hv, ?_⟩, hget⟩
        refine Along.append.2 ⟨hrest, ?_, trivial⟩
        rw [← run_append, List.append_assoc]
        exact hno
      · exact .inr ⟨Along.append.2 ⟨hnever, hno, trivial⟩, hget⟩

end Registers

end Machine
