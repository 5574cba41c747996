import Mathlib

/-!
# Sorted maps

A sorted map holds one entry for each class of keys that its comparator does not
tell apart. `assoc` on a key that compares equal to one already there keeps the
old key and replaces the value, and `dissoc` removes the entry of the class.
-/

namespace OpenVoxDB.SortedMap

variable {α β : Type}

/-- The entries, in the order of their keys. -/
abbrev Entries (α β : Type) := List (α × β)

def assoc (cmp : α → α → Ordering) (k : α) (v : β) : Entries α β → Entries α β
  | [] => [(k, v)]
  | (k', v') :: rest =>
    match cmp k k' with
    | .lt => (k, v) :: (k', v') :: rest
    | .eq => (k', v) :: rest
    | .gt => (k', v') :: assoc cmp k v rest

def dissoc (cmp : α → α → Ordering) (k : α) : Entries α β → Entries α β
  | [] => []
  | (k', v') :: rest =>
    match cmp k k' with
    | .lt => (k', v') :: rest
    | .eq => rest
    | .gt => (k', v') :: dissoc cmp k rest

def Sorted (cmp : α → α → Ordering) (m : Entries α β) : Prop :=
  m.Pairwise fun x y => cmp x.1 y.1 = .lt

variable {cmp : α → α → Ordering}

theorem sorted_nil : Sorted cmp ([] : Entries α β) := List.Pairwise.nil

theorem mem_assoc_subset (k : α) (v : β) (m : Entries α β) (x : α × β)
    (h : x ∈ assoc cmp k v m) : x.1 = k ∨ x.1 ∈ m.map Prod.fst := by
  induction m with
  | nil =>
    have hx : x = (k, v) := by simpa [assoc] using h
    exact .inl (congrArg Prod.fst hx)
  | cons y rest ih =>
    obtain ⟨k', v'⟩ := y
    cases hk : cmp k k' with
    | lt =>
      simp only [assoc, hk, List.mem_cons] at h
      obtain rfl | rfl | h := h
      · exact .inl rfl
      · exact .inr List.mem_cons_self
      · exact .inr (List.mem_cons_of_mem _ (List.mem_map_of_mem h))
    | eq =>
      simp only [assoc, hk, List.mem_cons] at h
      obtain rfl | h := h
      · exact .inr List.mem_cons_self
      · exact .inr (List.mem_cons_of_mem _ (List.mem_map_of_mem h))
    | gt =>
      simp only [assoc, hk, List.mem_cons] at h
      obtain rfl | h := h
      · exact .inr List.mem_cons_self
      · exact (ih h).imp_right (List.mem_cons_of_mem _)

/-- A key that compares equal to none of the map's is added to it. -/
theorem mem_assoc (k : α) (v : β) (m : Entries α β) (hk : ∀ y ∈ m, cmp k y.1 ≠ .eq)
    (x : α × β) : x ∈ assoc cmp k v m ↔ x = (k, v) ∨ x ∈ m := by
  induction m with
  | nil => simp [assoc]
  | cons y rest ih =>
    obtain ⟨k', v'⟩ := y
    have hrest := ih fun z hz => hk z (List.mem_cons_of_mem _ hz)
    cases hcmp : cmp k k' with
    | lt => simp only [assoc, hcmp, List.mem_cons]
    | eq => exact absurd hcmp (hk (k', v') List.mem_cons_self)
    | gt =>
      simp only [assoc, hcmp, List.mem_cons, hrest]
      exact or_left_comm

theorem dissoc_sublist (k : α) (m : Entries α β) : (dissoc cmp k m).Sublist m := by
  induction m with
  | nil => exact List.Sublist.refl _
  | cons y rest ih =>
    obtain ⟨k', v'⟩ := y
    cases hk : cmp k k' with
    | lt => simp [dissoc, hk]
    | eq => simp [dissoc, hk]
    | gt => simpa [dissoc, hk] using ih

theorem sorted_dissoc (k : α) (m : Entries α β) (h : Sorted cmp m) :
    Sorted cmp (dissoc cmp k m) := h.sublist (dissoc_sublist k m)

/-- `(apply dissoc m ks)` -/
theorem sorted_dissoc_all (ks : List α) (m : Entries α β) (h : Sorted cmp m) :
    Sorted cmp (ks.foldl (fun m k => dissoc cmp k m) m) := by
  induction ks generalizing m with
  | nil => exact h
  | cons k ks ih => exact ih _ (sorted_dissoc k m h)

section Lawful

variable [Std.TransCmp cmp]

theorem sorted_assoc (k : α) (v : β) (m : Entries α β) (h : Sorted cmp m) :
    Sorted cmp (assoc cmp k v m) := by
  induction m with
  | nil => exact List.pairwise_singleton _ _
  | cons y rest ih =>
    obtain ⟨k', v'⟩ := y
    obtain ⟨hhead, hrest⟩ := List.pairwise_cons.mp h
    cases hk : cmp k k' with
    | lt =>
      simp only [assoc, hk]
      apply List.pairwise_cons.mpr ⟨_, h⟩
      intro z hz
      obtain rfl | hz := List.mem_cons.mp hz
      · exact hk
      · exact Std.TransCmp.lt_trans hk (hhead z hz)
    | eq =>
      simp only [assoc, hk]
      exact List.pairwise_cons.mpr ⟨hhead, hrest⟩
    | gt =>
      simp only [assoc, hk]
      apply List.pairwise_cons.mpr ⟨_, ih hrest⟩
      intro z hz
      obtain hz | hz := mem_assoc_subset k v rest z hz
      · rw [hz]
        exact Std.OrientedCmp.lt_of_gt hk
      · obtain ⟨w, hw, hwz⟩ := List.mem_map.mp hz
        rw [← hwz]
        exact hhead w hw

theorem mem_dissoc (k : α) (m : Entries α β) (h : Sorted cmp m) (x : α × β) :
    x ∈ dissoc cmp k m ↔ x ∈ m ∧ cmp k x.1 ≠ .eq := by
  induction m with
  | nil => simp [dissoc]
  | cons y rest ih =>
    obtain ⟨k', v'⟩ := y
    obtain ⟨hhead, hrest⟩ := List.pairwise_cons.mp h
    cases hk : cmp k k' with
    | lt =>
      have hne : ∀ z ∈ (k', v') :: rest, cmp k z.1 ≠ .eq := by
        intro z hz he
        obtain rfl | hz := List.mem_cons.mp hz
        · rw [hk] at he
          cases he
        · rw [Std.TransCmp.lt_trans hk (hhead z hz)] at he
          cases he
      simp only [dissoc, hk]
      exact ⟨fun hx => ⟨hx, hne x hx⟩, And.left⟩
    | eq =>
      have hne : ∀ z ∈ rest, cmp k z.1 ≠ .eq := by
        intro z hz he
        rw [Std.TransCmp.lt_of_eq_of_lt hk (hhead z hz)] at he
        cases he
      simp only [dissoc, hk]
      constructor
      · exact fun hx => ⟨List.mem_cons_of_mem _ hx, hne x hx⟩
      · rintro ⟨hx, hxk⟩
        obtain rfl | hx := List.mem_cons.mp hx
        · exact absurd hk hxk
        · exact hx
    | gt =>
      simp only [dissoc, hk, List.mem_cons, ih hrest]
      constructor
      · rintro (rfl | hx)
        · exact ⟨.inl rfl, by simp [hk]⟩
        · exact ⟨.inr hx.1, hx.2⟩
      · rintro ⟨rfl | hx, hxk⟩
        · exact .inl rfl
        · exact .inr ⟨hx, hxk⟩

theorem mem_dissoc_all (ks : List α) (m : Entries α β) (h : Sorted cmp m) (x : α × β) :
    x ∈ ks.foldl (fun m k => dissoc cmp k m) m ↔ x ∈ m ∧ ∀ k ∈ ks, cmp k x.1 ≠ .eq := by
  induction ks generalizing m with
  | nil => simp
  | cons k ks ih =>
    rw [List.foldl_cons, ih _ (sorted_dissoc k m h), mem_dissoc k m h]
    simp only [List.forall_mem_cons, and_assoc]

end Lawful

end OpenVoxDB.SortedMap
