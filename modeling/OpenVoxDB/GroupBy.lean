import Mathlib

/-!
# Grouping

A list grouped by a key: the groups in the order their keys first appear, each in the order of
the list.
-/

namespace OpenVoxDB

namespace Grouping

variable {α κ : Type} [DecidableEq κ]

/-- Append `a` to the group of `k`. -/
def add (k : κ) (a : α) : List (κ × List α) → List (κ × List α)
  | [] => [(k, [a])]
  | (j, group) :: groups =>
    if j = k then (j, group ++ [a]) :: groups else (j, group) :: add k a groups

def groupBy (f : α → κ) (l : List α) : List (κ × List α) :=
  l.foldl (fun groups a => add (f a) a groups) []

@[simp] theorem groupBy_nil (f : α → κ) : groupBy f ([] : List α) = [] := rfl

@[simp] theorem groupBy_concat (f : α → κ) (l : List α) (a : α) :
    groupBy f (l ++ [a]) = add (f a) a (groupBy f l) := by simp [groupBy]

theorem add_flatMap_perm (k : κ) (a : α) (groups : List (κ × List α)) :
    ((add k a groups).flatMap (·.2)).Perm (groups.flatMap (·.2) ++ [a]) := by
  induction groups with
  | nil => simp [add]
  | cons g groups ih =>
    obtain ⟨j, group⟩ := g
    by_cases h : j = k
    · simp only [add, if_pos h, List.flatMap_cons, List.append_assoc]
      exact (List.perm_append_comm).append_left group
    · simp only [add, if_neg h, List.flatMap_cons, List.append_assoc]
      exact ih.append_left group

/-- The groups hold every element once. -/
theorem groupBy_flatMap_perm (f : α → κ) (l : List α) :
    ((groupBy f l).flatMap (·.2)).Perm l := by
  induction l using List.reverseRecOn with
  | nil => simp
  | append_singleton l a ih =>
    rw [groupBy_concat]
    exact (add_flatMap_perm (f a) a _).trans (ih.append_right [a])

theorem add_eq_of_mem (f : α → κ) (l : List α) (a : α) (keys : List κ) (hnodup : keys.Nodup)
    (hmem : f a ∈ keys) :
    add (f a) a (keys.map fun k => (k, l.filter (f · = k))) =
      keys.map fun k => (k, (l ++ [a]).filter (f · = k)) := by
  induction keys with
  | nil => simp at hmem
  | cons k keys ih =>
    obtain ⟨hk, hkeys⟩ := List.nodup_cons.mp hnodup
    by_cases h : k = f a
    · have hrest : ∀ j ∈ keys, (j, l.filter (f · = j)) = (j, (l ++ [a]).filter (f · = j)) := by
        intro j hj
        have hne : f a ≠ j := fun he => hk (by rw [h, he]; exact hj)
        simp [hne]
      simp only [List.map_cons, add, if_pos h]
      rw [List.map_congr_left hrest]
      simp [← h]
    · have hmem' : f a ∈ keys := by
        obtain he | hm := List.mem_cons.mp hmem
        · exact absurd he.symm h
        · exact hm
      have hne : f a ≠ k := fun he => h he.symm
      simp only [List.map_cons, add, if_neg h]
      rw [ih hkeys hmem']
      simp [hne]

theorem add_eq_of_not_mem (f : α → κ) (l : List α) (a : α) (keys : List κ)
    (hl : ∀ b ∈ l, f b ∈ keys) (hmem : f a ∉ keys) :
    add (f a) a (keys.map fun k => (k, l.filter (f · = k))) =
      (keys ++ [f a]).map fun k => (k, (l ++ [a]).filter (f · = k)) := by
  have hkeys : ∀ keys' : List κ, f a ∉ keys' →
      add (f a) a (keys'.map fun k => (k, l.filter (f · = k))) =
        (keys'.map fun k => (k, (l ++ [a]).filter (f · = k))) ++ [(f a, [a])] := by
    intro keys' hnot
    induction keys' with
    | nil => simp [add]
    | cons k keys' ih =>
      have hne : f a ≠ k := fun he => hnot (by simp [he])
      have hne' : k ≠ f a := fun he => hne he.symm
      simp only [List.map_cons, add, if_neg hne']
      rw [ih fun hm => hnot (List.mem_cons_of_mem _ hm)]
      simp [hne]
  have hfilter : l.filter (f · = f a) = [] := by
    apply List.filter_eq_nil_iff.mpr
    intro b hb
    have hne : f b ≠ f a := fun he => hmem (by rw [← he]; exact hl b hb)
    simp [hne]
  rw [hkeys keys hmem, List.map_append, List.map_singleton, List.filter_append, hfilter]
  simp

/-- The groups are the elements of each key, over the keys of the list. -/
theorem groupBy_eq (f : α → κ) (l : List α) :
    ∃ keys : List κ, keys.Nodup ∧ (∀ k, k ∈ keys ↔ ∃ a ∈ l, f a = k) ∧
      groupBy f l = keys.map fun k => (k, l.filter (f · = k)) := by
  induction l using List.reverseRecOn with
  | nil => exact ⟨[], by simp⟩
  | append_singleton l a ih =>
    obtain ⟨keys, hnodup, hkeys, heq⟩ := ih
    by_cases h : f a ∈ keys
    · refine ⟨keys, hnodup, ?_, ?_⟩
      · intro k
        constructor
        · intro hk
          obtain ⟨b, hb, hfb⟩ := (hkeys k).mp hk
          exact ⟨b, List.mem_append_left _ hb, hfb⟩
        · intro ⟨b, hb, hfb⟩
          obtain hb | hb := List.mem_append.mp hb
          · exact (hkeys k).mpr ⟨b, hb, hfb⟩
          · rw [← hfb, List.mem_singleton.mp hb]
            exact h
      · rw [groupBy_concat, heq, add_eq_of_mem f l a keys hnodup h]
    · refine ⟨keys ++ [f a], ?_, ?_, ?_⟩
      · rw [List.nodup_append]
        refine ⟨hnodup, by simp, ?_⟩
        intro k hk j hj he
        rw [he, List.mem_singleton.mp hj] at hk
        exact h hk
      · intro k
        rw [List.mem_append, hkeys k]
        constructor
        · intro hk
          obtain ⟨b, hb, hfb⟩ | hk := hk
          · exact ⟨b, List.mem_append_left _ hb, hfb⟩
          · exact ⟨a, by simp, (List.mem_singleton.mp hk).symm⟩
        · intro ⟨b, hb, hfb⟩
          obtain hb | hb := List.mem_append.mp hb
          · exact Or.inl ⟨b, hb, hfb⟩
          · rw [← hfb, List.mem_singleton.mp hb]
            exact Or.inr (List.mem_singleton_self _)
      · rw [groupBy_concat, heq,
          add_eq_of_not_mem f l a keys (fun b hb => (hkeys _).mpr ⟨b, hb, rfl⟩) h]

theorem mem_groupBy (f : α → κ) (l : List α) (k : κ) (group : List α) :
    (k, group) ∈ groupBy f l ↔ (∃ a ∈ l, f a = k) ∧ group = l.filter (f · = k) := by
  obtain ⟨keys, -, hkeys, heq⟩ := groupBy_eq f l
  rw [heq, List.mem_map]
  constructor
  · intro ⟨j, hj, he⟩
    simp only [Prod.mk.injEq] at he
    obtain ⟨rfl, rfl⟩ := he
    exact ⟨(hkeys j).mp hj, rfl⟩
  · intro ⟨hk, hgroup⟩
    exact ⟨k, (hkeys k).mpr hk, by rw [hgroup]⟩

theorem nodup_groupBy_keys (f : α → κ) (l : List α) : ((groupBy f l).map (·.1)).Nodup := by
  obtain ⟨keys, hnodup, -, heq⟩ := groupBy_eq f l
  have hid : ((fun p : κ × List α => p.1) ∘ fun k => (k, l.filter (f · = k))) = id := rfl
  rw [heq, List.map_map, hid, List.map_id]
  exact hnodup

end Grouping

end OpenVoxDB
