import Mathlib

/-!
# Interleavings

A machine of several threads takes one action at a time, and an action may not be enabled. What
every enabled action keeps, every interleaving keeps, and a measure that every action lowers
bounds the length of all of them.
-/

namespace OpenVoxDB.Interleaving

variable {σ ε : Type} {step : σ → ε → Option σ}

/-- The state after the actions, each of which is enabled. -/
def play (step : σ → ε → Option σ) (s : σ) (es : List ε) : Option σ := es.foldlM step s

@[simp] theorem play_nil (s : σ) : play step s [] = some s := rfl

theorem play_cons_eq_some (s s' : σ) (e : ε) (es : List ε) :
    play step s (e :: es) = some s' ↔ ∃ t, step s e = some t ∧ play step t es = some s' := by
  rw [play, List.foldlM_cons]
  exact Option.bind_eq_some_iff

theorem play_invariant {I : σ → Prop} (hstep : ∀ s e s', I s → step s e = some s' → I s')
    (es : List ε) (s s' : σ) (hs : I s) (hplay : play step s es = some s') : I s' := by
  induction es generalizing s with
  | nil =>
    cases hplay
    exact hs
  | cons e es ih =>
    obtain ⟨t, ht, hplay⟩ := (play_cons_eq_some s s' e es).mp hplay
    exact ih t (hstep s e t hs ht) hplay

/-- The same where every action is of a kind. -/
theorem play_invariant_of {I : σ → Prop} {Q : ε → Prop}
    (hstep : ∀ s e s', Q e → I s → step s e = some s' → I s') (es : List ε)
    (hes : ∀ e ∈ es, Q e) (s s' : σ) (hs : I s) (hplay : play step s es = some s') : I s' := by
  induction es generalizing s with
  | nil =>
    cases hplay
    exact hs
  | cons e es ih =>
    obtain ⟨t, ht, hplay⟩ := (play_cons_eq_some s s' e es).mp hplay
    exact ih (fun f hf => hes f (List.mem_cons_of_mem _ hf)) t
      (hstep s e t (hes e List.mem_cons_self) hs ht) hplay

/-- Each action lowers the measure, so there are no more actions than it allows. -/
theorem play_length_le {I : σ → Prop} {measure : σ → Nat}
    (hkeep : ∀ s e s', I s → step s e = some s' → I s')
    (hlower : ∀ s e s', I s → step s e = some s' → measure s' < measure s)
    (es : List ε) (s s' : σ) (hs : I s) (hplay : play step s es = some s') :
    es.length + measure s' ≤ measure s := by
  induction es generalizing s with
  | nil =>
    cases hplay
    simp
  | cons e es ih =>
    obtain ⟨t, ht, hplay⟩ := (play_cons_eq_some s s' e es).mp hplay
    have hrest := ih t (hkeep s e t hs ht) hplay
    have hfirst := hlower s e t hs ht
    rw [List.length_cons]
    omega

end OpenVoxDB.Interleaving
