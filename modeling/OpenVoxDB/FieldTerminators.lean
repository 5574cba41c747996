import Mathlib
import OpenVoxDB.FieldSyntax

/-!
# Where quotes and matches end

A quoted component ends at the first quote that may end it and a `match()` at the
last one, which may stand in a later component. Both are described here by where such
terminators stand in the text.
-/

namespace OpenVoxDB.FieldSyntax

theorem lineEnd_iff (cs : List Char) :
    lineEnd cs ↔ cs ∈ [[], ['\n'], ['\r', '\n'], ['\r'], ['\u0085'], ['\u2028'], ['\u2029']] := by
  simp only [lineEnd, List.contains_iff_mem, List.mem_cons, List.not_mem_nil, or_false,
    ← String.toList_inj, String.toList_ofList]
  rfl

/-- A line terminator is neither a quote nor a parenthesis nor a dot. -/
theorem not_mem_lineEnd (cs : List Char) (h : lineEnd cs) :
    '"' ∉ cs ∧ ')' ∉ cs ∧ '.' ∉ cs ∧ ']' ∉ cs := by
  have hmem := (lineEnd_iff cs).mp h
  simp only [List.mem_cons, List.not_mem_nil, or_false] at hmem
  obtain rfl | rfl | rfl | rfl | rfl | rfl | rfl := hmem <;> decide

theorem componentEnd_iff (cs : List Char) :
    componentEnd cs ↔ cs.head? = some '.' ∨ lineEnd cs := by
  simp [componentEnd]

theorem componentEnd_nil : componentEnd [] := by decide

theorem componentEnd_dot (cs : List Char) : componentEnd ('.' :: cs) := by
  simp [componentEnd]

/-- The text holds a terminator that may end a group before it. -/
def Terminated (terminator : List Char) (group cs : List Char) : Prop :=
  ∃ g rest, cs = g ++ terminator ++ rest ∧ closable (group ++ g) ∧ componentEnd rest

theorem closeQuote_spec (group cs name rest : List Char)
    (h : closeQuote group cs = some (name, rest)) :
    ∃ g, cs = g ++ '"' :: rest ∧ name = group ++ g ∧ closable name ∧ componentEnd rest := by
  induction cs generalizing group with
  | nil => simp [closeQuote] at h
  | cons c cs ih =>
    rw [closeQuote] at h
    split at h
    · next hclose =>
      simp only [Bool.and_eq_true, decide_eq_true_eq] at hclose
      cases h
      exact ⟨[], by simp [hclose.1.1], by simp, hclose.1.2, hclose.2⟩
    · obtain ⟨g, rfl, rfl, hg⟩ := ih _ h
      exact ⟨c :: g, by simp, by simp, hg⟩

/-- The first terminator ends a quoted component. -/
theorem closeQuote_append (group w t : List Char) (hclosable : closable (group ++ w))
    (ht : componentEnd t)
    (hfirst : ∀ g r, w = g ++ '"' :: r → closable (group ++ g) → ¬ componentEnd (r ++ '"' :: t)) :
    closeQuote group (w ++ '"' :: t) = some (group ++ w, t) := by
  induction w generalizing group with
  | nil =>
    rw [List.append_nil] at hclosable
    simp [closeQuote, hclosable, ht]
  | cons c w ih =>
    rw [List.cons_append, closeQuote, if_neg]
    · rw [ih (group ++ [c]) (by simpa using hclosable)]
      · simp
      · intro g r hw hg
        exact hfirst (c :: g) r (by rw [hw]; rfl) (by simpa using hg)
    · simp only [Bool.and_eq_true, decide_eq_true_eq]
      rintro ⟨⟨rfl, hg⟩, hend⟩
      exact hfirst [] w rfl (by simpa using hg) hend

/-- A quoted component ends at a terminator or before it. -/
theorem closeQuote_le (group g rest : List Char) (hg : closable (group ++ g))
    (hrest : componentEnd rest) :
    ∃ name rest', closeQuote group (g ++ '"' :: rest) = some (name, rest') ∧
      name.length ≤ group.length + g.length := by
  induction g generalizing group with
  | nil =>
    rw [List.append_nil] at hg
    exact ⟨group, rest, by simp [closeQuote, hg, hrest], by simp⟩
  | cons c g ih =>
    rw [List.cons_append, closeQuote]
    split
    · exact ⟨group, _, rfl, by simp⟩
    · obtain ⟨name, rest', hclose, hlength⟩ := ih (group ++ [c]) (by simpa using hg)
      refine ⟨name, rest', hclose, ?_⟩
      simp only [List.length_append, List.length_cons, List.length_nil] at hlength ⊢
      omega

theorem closeQuote_eq_none (group cs : List Char) :
    closeQuote group cs = none ↔ ¬ Terminated ['"'] group cs := by
  constructor
  · rintro h ⟨g, rest, hcs, hg, hrest⟩
    obtain ⟨name, rest', hclose, -⟩ := closeQuote_le group g rest hg hrest
    rw [hcs, List.append_assoc, List.singleton_append, hclose] at h
    cases h
  · intro h
    rw [Option.eq_none_iff_forall_ne_some]
    rintro ⟨name, rest⟩ hclose
    obtain ⟨g, rfl, rfl, hg, hrest⟩ := closeQuote_spec group cs name rest hclose
    exact h ⟨g, rest, by simp, hg, hrest⟩

theorem closeMatch_spec (group cs rx rest : List Char)
    (h : closeMatch group cs = some (rx, rest)) :
    ∃ g, cs = g ++ '"' :: ')' :: rest ∧ rx = group ++ g ∧ closable rx ∧ componentEnd rest := by
  induction cs generalizing group with
  | nil => simp [closeMatch] at h
  | cons c cs ih =>
    rw [closeMatch] at h
    cases hlater : closeMatch (group ++ [c]) cs with
    | some found =>
      rw [hlater] at h
      cases h
      obtain ⟨g, rfl, rfl, hg⟩ := ih _ hlater
      exact ⟨c :: g, by simp, by simp, hg⟩
    | none =>
      rw [hlater, Option.none_or] at h
      split at h
      · next hclose =>
        simp only [Bool.and_eq_true, decide_eq_true_eq] at hclose
        cases h
        obtain ⟨⟨⟨rfl, hgroup⟩, hparen⟩, hend⟩ := hclose
        obtain ⟨tail, rfl⟩ := List.head?_eq_some_iff.mp hparen
        exact ⟨[], by simp, by simp, hgroup, hend⟩
      · cases h

theorem closeMatch_isSome (group cs : List Char) (h : Terminated ['"', ')'] group cs) :
    (closeMatch group cs).isSome := by
  obtain ⟨g, rest, rfl, hg, hrest⟩ := h
  induction g generalizing group with
  | nil =>
    rw [List.append_nil] at hg
    simp [closeMatch, hg, hrest]
  | cons c g ih =>
    simp only [List.cons_append, closeMatch, Option.isSome_or]
    rw [ih (group ++ [c]) (by simpa using hg), Bool.true_or]

theorem closeMatch_eq_none (group cs : List Char) :
    closeMatch group cs = none ↔ ¬ Terminated ['"', ')'] group cs := by
  constructor
  · intro h hterminated
    have := closeMatch_isSome group cs hterminated
    simp [h] at this
  · intro h
    rw [Option.eq_none_iff_forall_ne_some]
    rintro ⟨rx, rest⟩ hclose
    obtain ⟨g, rfl, rfl, hg, hrest⟩ := closeMatch_spec group cs rx rest hclose
    exact h ⟨g, rest, by simp, hg, hrest⟩

/-- A terminator that is found later wins. -/
theorem closeMatch_append (group w cs : List Char) (found : List Char × List Char)
    (h : closeMatch (group ++ w) cs = some found) : closeMatch group (w ++ cs) = some found := by
  induction w generalizing group with
  | nil => simpa using h
  | cons c w ih =>
    rw [List.cons_append, closeMatch, ih (group ++ [c]) (by simpa using h), Option.some_or]

/-- The last terminator ends a `match()`. -/
theorem closeMatch_last_iff (group w t : List Char) (ht : componentEnd t) :
    closeMatch group (w ++ '"' :: ')' :: t) = some (group ++ w, t) ↔
      closable (group ++ w) ∧ ¬ Terminated ['"', ')'] (group ++ w ++ ['"', ')']) t := by
  have hstep : closeMatch (group ++ w) ('"' :: ')' :: t) =
      (closeMatch (group ++ w ++ ['"', ')']) t).or
        (if closable (group ++ w) then some (group ++ w, t) else none) := by
    rw [closeMatch, closeMatch]
    simp [ht]
  constructor
  · intro h
    obtain ⟨g, hg, hrx, hclosable, -⟩ := closeMatch_spec _ _ _ _ h
    refine ⟨hclosable, ?_⟩
    rw [← closeMatch_eq_none]
    cases hlater : closeMatch (group ++ w ++ ['"', ')']) t with
    | none => rfl
    | some found =>
      -- it would leave less than all of the later text
      rw [closeMatch_append group w _ found (by rw [hstep, hlater, Option.some_or])] at h
      cases h
      obtain ⟨g', ht', -⟩ := closeMatch_spec _ _ _ _ hlater
      have hlength := congrArg List.length ht'
      simp at hlength
      omega
  · rintro ⟨hclosable, hlast⟩
    apply closeMatch_append
    rw [hstep, (closeMatch_eq_none _ _).mpr hlast, Option.none_or, if_pos hclosable]

end OpenVoxDB.FieldSyntax
