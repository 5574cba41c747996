import OpenVoxDB.Protocols
import OpenVoxDB.Interleaving

/-!
# Threads that keep to protocols

Several threads take turns with their calls, each by a protocol of its own, and what they share
answers the calls of all. If each thread for itself keeps to its protocol, the threads together
are a machine whose states are the stages of all threads and of what they share, and every
invariant of its steps holds of all their interleavings.
-/

namespace OpenVoxDB.Threads

open Effects Protocols Interleaving

variable {ι κ ρ ε σ γ : Type} [DecidableEq ι]

/-- What has been called so far, and by which thread. -/
abbrev History (ι κ ρ ε : Type) := List (ι × Entry κ ρ ε)

/-- The calls of one thread. -/
def own (i : ι) : History ι κ ρ ε → Log κ ρ ε
  | [] => []
  | (j, e) :: es => if j = i then e :: own i es else own i es

theorem own_append (i : ι) (es more : History ι κ ρ ε) :
    own i (es ++ more) = own i es ++ own i more := by
  induction es with
  | nil => rfl
  | cons ie es ih =>
    obtain ⟨j, e⟩ := ie
    by_cases hj : j = i
    · simp only [List.cons_append, own, if_pos hj, ih]
    · simp only [List.cons_append, own, if_neg hj, ih]

/-- How what is shared changes by a call; none, if it does not answer the call so. -/
abbrev Shared (ι κ ρ ε γ : Type) := γ → ι × Entry κ ρ ε → Option γ

/-- One call of one thread. -/
def step (advance : ι → Protocol κ ρ ε σ) (shared : Shared ι κ ρ ε γ) (s : (ι → σ) × γ)
    (e : ι × Entry κ ρ ε) : Option ((ι → σ) × γ) :=
  (advance e.1 (s.1 e.1) e.2).bind fun t =>
    (shared s.2 e).map fun g => (Function.update s.1 e.1 t, g)

theorem step_eq_some (advance : ι → Protocol κ ρ ε σ) (shared : Shared ι κ ρ ε γ)
    (s s' : (ι → σ) × γ) (i : ι) (e : Entry κ ρ ε) :
    step advance shared s (i, e) = some s' ↔
      ∃ t g, advance i (s.1 i) e = some t ∧ shared s.2 (i, e) = some g ∧
        s' = (Function.update s.1 i t, g) := by
  simp only [step, Option.bind_eq_some_iff, Option.map_eq_some_iff]
  constructor
  · rintro ⟨t, ht, g, hg, rfl⟩
    exact ⟨t, g, ht, hg, rfl⟩
  · rintro ⟨t, g, ht, hg, rfl⟩
    exact ⟨t, ht, g, hg, rfl⟩

/-- Threads that keep to their protocols, on what answers as it does, together take steps. -/
theorem play_of_own (advance : ι → Protocol κ ρ ε σ) (shared : Shared ι κ ρ ε γ)
    (es : History ι κ ρ ε) (stages : ι → σ) (g g' : γ)
    (hown : ∀ i, (follow (advance i) (stages i) (own i es)).isSome = true)
    (hshared : es.foldlM shared g = some g') :
    ∃ stages', play (step advance shared) (stages, g) es = some (stages', g') := by
  induction es generalizing stages g with
  | nil => exact ⟨stages, by rw [← Option.some.inj hshared]; rfl⟩
  | cons ie es ih =>
    obtain ⟨i, e⟩ := ie
    rw [List.foldlM_cons] at hshared
    obtain ⟨h, hfirst, hrest⟩ := Option.bind_eq_some_iff.mp hshared
    have hthis := hown i
    rw [own, if_pos rfl, follow_cons] at hthis
    obtain ⟨t, ht⟩ : ∃ t, advance i (stages i) e = some t := by
      cases hadvance : advance i (stages i) e with
      | none => rw [hadvance] at hthis; cases hthis
      | some t => exact ⟨t, rfl⟩
    rw [ht] at hthis
    have hstep : step advance shared (stages, g) (i, e) = some (Function.update stages i t, h) :=
      (step_eq_some ..).mpr ⟨t, h, ht, hfirst, rfl⟩
    have hothers (j : ι) :
        (follow (advance j) (Function.update stages i t j) (own j es)).isSome = true := by
      by_cases hj : j = i
      · rw [hj, Function.update_self]
        exact hthis
      · have hother := hown j
        rw [own, if_neg (Ne.symm hj)] at hother
        rw [Function.update_of_ne hj]
        exact hother
    obtain ⟨stages', hplay⟩ := ih (Function.update stages i t) h hothers hrest
    exact ⟨stages', (play_cons_eq_some ..).mpr ⟨_, hstep, hplay⟩⟩

/-- What every step keeps holds at the end, and where each of the calls is made: the thread's
protocol allows the call there, and what is shared answers it. -/
theorem invariant_of_own (advance : ι → Protocol κ ρ ε σ) (shared : Shared ι κ ρ ε γ)
    (I : (ι → σ) → γ → Prop)
    (hstep : ∀ stages g ie stages' g', I stages g →
      step advance shared (stages, g) ie = some (stages', g') → I stages' g')
    (es : History ι κ ρ ε) (stages : ι → σ) (g g' : γ) (hstart : I stages g)
    (hown : ∀ i, (follow (advance i) (stages i) (own i es)).isSome = true)
    (hshared : es.foldlM shared g = some g') :
    (∃ stages', I stages' g') ∧ ∀ before i e after, es = before ++ (i, e) :: after →
      ∃ stages' h t h', I stages' h ∧ before.foldlM shared g = some h ∧
        advance i (stages' i) e = some t ∧ shared h (i, e) = some h' := by
  have hinv (fs : History ι κ ρ ε) (p p' : (ι → σ) × γ) (hp : I p.1 p.2)
      (h : play (step advance shared) p fs = some p') : I p'.1 p'.2 :=
    play_invariant (I := fun p : (ι → σ) × γ => I p.1 p.2)
      (fun p e p' hp h => hstep p.1 p.2 e p'.1 p'.2 hp h) fs p p' hp h
  obtain ⟨last, hplay⟩ := play_of_own advance shared es stages g g' hown hshared
  refine ⟨⟨last, hinv es _ _ hstart hplay⟩, fun before i e after hes => ?_⟩
  rw [hes, play, List.foldlM_append] at hplay
  obtain ⟨⟨stages', h⟩, hbefore, hrest⟩ := Option.bind_eq_some_iff.mp hplay
  rw [List.foldlM_cons] at hrest
  obtain ⟨p, hcall, -⟩ := Option.bind_eq_some_iff.mp hrest
  obtain ⟨t, h', hadvance, hanswered, -⟩ := (step_eq_some ..).mp hcall
  refine ⟨stages', h, t, h', hinv before _ _ hstart hbefore, ?_, hadvance, hanswered⟩
  rw [hes, List.foldlM_append] at hshared
  obtain ⟨k, hk, -⟩ := Option.bind_eq_some_iff.mp hshared
  have hown' (i : ι) : (follow (advance i) (stages i) (own i before)).isSome = true := by
    have hall := hown i
    rw [hes, own_append] at hall
    obtain ⟨u, hu⟩ := Option.isSome_iff_exists.mp hall
    exact follow_isSome_of_prefix _ hu (List.prefix_append _ _)
  obtain ⟨stages'', hplay'⟩ := play_of_own advance shared before stages g k hown' hk
  rw [hk, (Prod.mk.inj (Option.some.inj (hplay'.symm.trans hbefore))).2]

end OpenVoxDB.Threads
