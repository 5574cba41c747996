import Mathlib

/-!
# Sorting by a key

A list whose elements have different keys has one arrangement in the order of a comparator of the
keys.
-/

namespace OpenVoxDB.KeySort

open Std

variable {α κ : Type}

section Comparator

variable (key : α → κ) (cmp : κ → κ → Ordering)

/-- A stable sort by the keys. -/
def sortBy (l : List α) : List α := l.mergeSort fun a b => (cmp (key a) (key b)).isLE

theorem sortBy_perm (l : List α) : (sortBy key cmp l).Perm l := List.mergeSort_perm _ _

variable [TransCmp cmp]

theorem pairwise_sortBy (l : List α) :
    (sortBy key cmp l).Pairwise fun a b => (cmp (key a) (key b)).isLE := by
  apply List.pairwise_mergeSort
  · intro a b c hab hbc
    exact TransCmp.isLE_trans hab hbc
  · intro a b
    cases h : cmp (key a) (key b) with
    | lt => simp
    | eq => simp
    | gt => simp [OrientedCmp.lt_of_gt h]

variable [LawfulEqCmp cmp]

/-- Different keys are sorted strictly. -/
theorem pairwise_lt_sortBy (l : List α) (h : (l.map key).Nodup) :
    (sortBy key cmp l).Pairwise fun a b => cmp (key a) (key b) = .lt := by
  have hnodup : ((sortBy key cmp l).map key).Nodup :=
    ((sortBy_perm key cmp l).map key).nodup_iff.mpr h
  have hne : (sortBy key cmp l).Pairwise fun a b => key a ≠ key b := List.pairwise_map.mp hnodup
  apply (pairwise_sortBy key cmp l).imp₂ _ hne
  intro a b hle hkeys
  cases hcmp : cmp (key a) (key b) with
  | lt => rfl
  | eq => exact absurd (LawfulEqCmp.eq_of_compare hcmp) hkeys
  | gt =>
    rw [hcmp] at hle
    cases hle

/-- Sorted keys that are the same keys are the same list. -/
theorem map_sortBy_eq (l l' : List α) (h : (l.map key).Perm (l'.map key)) :
    (sortBy key cmp l).map key = (sortBy key cmp l').map key := by
  have hsorted (m : List α) :
      ((sortBy key cmp m).map key).Pairwise fun i j => (cmp i j).isLE :=
    List.pairwise_map.mpr (pairwise_sortBy key cmp m)
  have hperm : ((sortBy key cmp l).map key).Perm ((sortBy key cmp l').map key) :=
    (((sortBy_perm key cmp l).map key).trans h).trans ((sortBy_perm key cmp l').map key).symm
  apply hperm.eq_of_pairwise _ (hsorted l) (hsorted l')
  intro i j _ _ hij hji
  exact LawfulEqCmp.eq_of_compare (OrientedCmp.isLE_antisymm hij hji)

omit [LawfulEqCmp cmp] in
/-- Lists without equal keys are the same when they are sorted and have the same elements. -/
theorem eq_of_perm_of_lt (l l' : List α) (h : l.Perm l')
    (hl : l.Pairwise fun a b => cmp (key a) (key b) = .lt)
    (hl' : l'.Pairwise fun a b => cmp (key a) (key b) = .lt) : l = l' := by
  apply h.eq_of_pairwise _ hl hl'
  intro a b _ _ hab hba
  rw [OrientedCmp.gt_of_lt hab] at hba
  cases hba

end Comparator

/-- A comparator of what a function gives. -/
theorem transCmp_on {β : Type} (cmp : κ → κ → Ordering) [TransCmp cmp] (f : β → κ) :
    TransCmp fun a b => cmp (f a) (f b) where
  eq_swap := OrientedCmp.eq_swap
  isLE_trans := TransCmp.isLE_trans

/-- Keys in one order, without repetition: elements that are related under their keys are related in
their places. -/
theorem forall₂_of_map_eq (key : α → κ) (R : α → α → Prop) (l l' : List α)
    (hkeys : l.map key = l'.map key) (hnodup : (l'.map key).Nodup)
    (h : ∀ a ∈ l, ∃ b ∈ l', key a = key b ∧ R a b) : List.Forall₂ R l l' := by
  induction l generalizing l' with
  | nil =>
    cases l' with
    | nil => exact .nil
    | cons b l' => cases hkeys
  | cons a l ih =>
    cases l' with
    | nil => cases hkeys
    | cons b l' =>
      obtain ⟨hab, hrest⟩ := List.cons.inj hkeys
      rw [List.map_cons, List.nodup_cons] at hnodup
      constructor
      · obtain ⟨c, hc, hkey, hR⟩ := h a List.mem_cons_self
        obtain rfl | hc := List.mem_cons.mp hc
        · exact hR
        · exact absurd (hab ▸ hkey ▸ List.mem_map_of_mem hc) hnodup.1
      · apply ih l' hrest hnodup.2
        intro a' ha'
        obtain ⟨c, hc, hkey, hR⟩ := h a' (List.mem_cons_of_mem _ ha')
        obtain rfl | hc := List.mem_cons.mp hc
        · have hmem : key c ∈ l'.map key := by
            rw [← hkey, ← hrest]
            exact List.mem_map_of_mem ha'
          exact absurd hmem hnodup.1
        · exact ⟨c, hc, hkey, hR⟩

theorem map_perm_of_forall_mem (key : α → κ) (l l' : List α) (hnodup : (l.map key).Nodup)
    (hlength : l.length = l'.length) (h : ∀ a ∈ l, ∃ b ∈ l', key a = key b) :
    (l.map key).Perm (l'.map key) := by
  have hsubset : l.map key ⊆ l'.map key := by
    intro k hk
    obtain ⟨a, ha, rfl⟩ := List.mem_map.mp hk
    obtain ⟨b, hb, hkey⟩ := h a ha
    rw [hkey]
    exact List.mem_map_of_mem hb
  exact (List.subperm_of_subset hnodup hsubset).perm_of_length_le (by simp [hlength])

/-- Two sorted lists are related place by place exactly when they have one length and every element
of the one is related to an element of the other. -/
theorem forall₂_sortBy_iff (key : α → κ) (cmp : κ → κ → Ordering) [TransCmp cmp] [LawfulEqCmp cmp]
    (R : α → α → Prop) (l l' : List α) (hR : ∀ a ∈ l, ∀ b ∈ l', R a b → key a = key b)
    (hl : (l.map key).Nodup) (hl' : (l'.map key).Nodup) :
    List.Forall₂ R (sortBy key cmp l) (sortBy key cmp l') ↔
      l.length = l'.length ∧ ∀ a ∈ l, ∃ b ∈ l', R a b := by
  constructor
  · intro h
    refine ⟨?_, ?_⟩
    · have hlength := h.length_eq
      rwa [(sortBy_perm key cmp l).length_eq, (sortBy_perm key cmp l').length_eq] at hlength
    · intro a ha
      obtain ⟨i, hi, hget⟩ := List.mem_iff_getElem.mp ((sortBy_perm key cmp l).mem_iff.mpr ha)
      have hi' : i < (sortBy key cmp l').length := h.length_eq ▸ hi
      refine ⟨(sortBy key cmp l')[i], (sortBy_perm key cmp l').mem_iff.mp (List.getElem_mem hi'), ?_⟩
      rw [← hget]
      exact h.get hi hi'
  · rintro ⟨hlength, h⟩
    have hperm := map_perm_of_forall_mem key l l' hl hlength fun a ha => by
      obtain ⟨b, hb, hab⟩ := h a ha
      exact ⟨b, hb, hR a ha b hb hab⟩
    apply forall₂_of_map_eq key R _ _ (map_sortBy_eq key cmp l l' hperm)
    · exact ((sortBy_perm key cmp l').map key).nodup_iff.mpr hl'
    · intro a ha
      have ha := (sortBy_perm key cmp l).mem_iff.mp ha
      obtain ⟨b, hb, hab⟩ := h a ha
      exact ⟨b, (sortBy_perm key cmp l').mem_iff.mpr hb, hR a ha b hb hab, hab⟩

end OpenVoxDB.KeySort
