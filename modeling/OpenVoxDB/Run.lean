import Mathlib

/-!
# Runs of a deterministic step function

A run feeds a list of events to a step function. `Always` says of every step
taken what a relation says of the state it starts from and its event, so that
a fact about runs is proved from a fact about one step and an invariant.
-/

namespace OpenVoxDB

variable {σ ε : Type}

def run (step : σ → ε → σ) (s : σ) (es : List ε) : σ := es.foldl step s

@[simp] theorem run_nil (step : σ → ε → σ) (s : σ) : run step s [] = s := rfl
@[simp] theorem run_cons (step : σ → ε → σ) (s : σ) (e : ε) (es : List ε) :
    run step s (e :: es) = run step (step s e) es := rfl

theorem run_append (step : σ → ε → σ) (s : σ) (es fs : List ε) :
    run step s (es ++ fs) = run step (run step s es) fs := List.foldl_append

/-- `P` holds at every step of the run. -/
def Always (step : σ → ε → σ) (P : σ → ε → Prop) : σ → List ε → Prop
  | _, [] => True
  | s, e :: es => P s e ∧ Always step P (step s e) es

/-- What one step preserves, a whole run preserves. -/
theorem run_invariant {step : σ → ε → σ} {I : σ → Prop}
    (hstep : ∀ s e, I s → I (step s e)) (es : List ε) (s : σ) (hs : I s) :
    I (run step s es) := by
  induction es generalizing s with
  | nil => exact hs
  | cons e es ih => exact ih (step s e) (hstep s e hs)

/-- Two step properties that agree wherever an invariant holds agree on runs,
when a step that has the first keeps the invariant. -/
theorem always_congr {step : σ → ε → σ} {P Q : σ → ε → Prop} {I : σ → Prop}
    (hiff : ∀ s e, I s → (P s e ↔ Q s e))
    (hkeep : ∀ s e, I s → P s e → I (step s e))
    (es : List ε) (s : σ) (hs : I s) : Always step P s es ↔ Always step Q s es := by
  induction es generalizing s with
  | nil => exact Iff.rfl
  | cons e es ih =>
    constructor
    · rintro ⟨hp, hrest⟩
      exact ⟨(hiff s e hs).mp hp, (ih _ (hkeep s e hs hp)).mp hrest⟩
    · rintro ⟨hq, hrest⟩
      have hp := (hiff s e hs).mpr hq
      exact ⟨hp, (ih _ (hkeep s e hs hp)).mpr hrest⟩

theorem always_of_forall {step : σ → ε → σ} {Q : ε → Prop} (es : List ε) (s : σ)
    (hes : ∀ e ∈ es, Q e) : Always step (fun _ e => Q e) s es := by
  induction es generalizing s with
  | nil => trivial
  | cons e es ih =>
    exact ⟨hes e List.mem_cons_self, ih _ fun f hf => hes f (List.mem_cons_of_mem _ hf)⟩

/-- A step property, together with what holds of every event. -/
theorem always_and {step : σ → ε → σ} {P : σ → ε → Prop} {Q : ε → Prop} (es : List ε) (s : σ)
    (hes : ∀ e ∈ es, Q e) (h : Always step P s es) :
    Always step (fun s e => Q e ∧ P s e) s es := by
  induction es generalizing s with
  | nil => trivial
  | cons e es ih =>
    obtain ⟨he, hrest⟩ := h
    exact ⟨⟨hes e List.mem_cons_self, he⟩,
      ih _ (fun f hf => hes f (List.mem_cons_of_mem _ hf)) hrest⟩

/-- What holds of the state with the events so far, and is kept by a step, holds after a run
with all its events. -/
theorem run_history {step : σ → ε → σ} {P : σ → ε → Prop} {I : List ε → σ → Prop}
    (hstep : ∀ done s e, I done s → P s e → I (done ++ [e]) (step s e)) (es done : List ε) (s : σ)
    (hs : I done s) (hes : Always step P s es) : I (done ++ es) (run step s es) := by
  induction es generalizing done s with
  | nil => simpa using hs
  | cons e es ih =>
    obtain ⟨he, hrest⟩ := hes
    have hnext := ih (done ++ [e]) (step s e) (hstep done s e hs he) hrest
    simpa using hnext

end OpenVoxDB
