import Mathlib

/-!
# Concatenations that can be taken apart

Items that all end with a terminator they do not contain, one after the other,
determine the items.
-/

namespace OpenVoxDB.Framing

variable {α : Type}

/-- The items one after the other, each with the terminator behind it. -/
def terminated (z : α) (items : List (List α)) : List α := items.flatMap fun item => item ++ [z]

@[simp] theorem terminated_nil (z : α) : terminated z ([] : List (List α)) = [] := rfl

@[simp] theorem terminated_cons (z : α) (item : List α) (items : List (List α)) :
    terminated z (item :: items) = item ++ z :: terminated z items := by
  simp [terminated]

/-- The first item of two equal concatenations is the same, and so is what follows it. -/
theorem append_terminator_inj (z : α) (x y rest rest' : List α) (hx : z ∉ x) (hy : z ∉ y)
    (h : x ++ z :: rest = y ++ z :: rest') : x = y ∧ rest = rest' := by
  induction x generalizing y with
  | nil =>
    cases y with
    | nil => exact ⟨rfl, by simpa using h⟩
    | cons b y =>
      simp only [List.nil_append, List.cons_append, List.cons.injEq] at h
      exact absurd (h.1 ▸ List.mem_cons_self) hy
  | cons a x ih =>
    cases y with
    | nil =>
      simp only [List.nil_append, List.cons_append, List.cons.injEq] at h
      exact absurd (h.1 ▸ List.mem_cons_self) hx
    | cons b y =>
      simp only [List.cons_append, List.cons.injEq] at h
      obtain ⟨hxy, hrest⟩ := ih y (fun hm => hx (List.mem_cons_of_mem _ hm))
        (fun hm => hy (List.mem_cons_of_mem _ hm)) h.2
      exact ⟨by rw [h.1, hxy], hrest⟩

theorem terminated_inj (z : α) (xs ys : List (List α)) (hxs : ∀ x ∈ xs, z ∉ x)
    (hys : ∀ y ∈ ys, z ∉ y) (h : terminated z xs = terminated z ys) : xs = ys := by
  induction xs generalizing ys with
  | nil =>
    cases ys with
    | nil => rfl
    | cons y ys => simp at h
  | cons x xs ih =>
    cases ys with
    | nil => simp at h
    | cons y ys =>
      rw [terminated_cons, terminated_cons] at h
      obtain ⟨hxy, hrest⟩ := append_terminator_inj z x y _ _ (hxs x List.mem_cons_self)
        (hys y List.mem_cons_self) h
      rw [hxy, ih ys (fun w hw => hxs w (List.mem_cons_of_mem _ hw))
        (fun w hw => hys w (List.mem_cons_of_mem _ hw)) hrest]

end OpenVoxDB.Framing
