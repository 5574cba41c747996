import Mathlib

/-!
# Computations that give a value

When a computation that may throw gives a value, for a sequence of steps and for a
list of them.
-/

namespace OpenVoxDB

variable {ε α β : Type}

def Succeeds (x : Except ε α) : Prop := ∃ a, x = .ok a

theorem succeeds_ok (a : α) : Succeeds (.ok a : Except ε α) := ⟨a, rfl⟩

theorem not_succeeds_error (e : ε) : ¬ Succeeds (.error e : Except ε α) := by
  rintro ⟨a, h⟩
  cases h

theorem succeeds_bind (x : Except ε α) (f : α → Except ε β) :
    Succeeds (x >>= f) ↔ ∃ a, x = .ok a ∧ Succeeds (f a) := by
  cases x with
  | error e => exact iff_of_false (not_succeeds_error e) fun ⟨a, h, _⟩ => by cases h
  | ok a => exact ⟨fun h => ⟨a, rfl, h⟩, fun ⟨a', h, hf⟩ => by cases h; exact hf⟩

/-- A step whose success does not depend on what came before. -/
theorem succeeds_bind_of_forall (x : Except ε α) (f : α → Except ε β) (p : Prop)
    (hf : ∀ a, x = .ok a → (Succeeds (f a) ↔ p)) : Succeeds (x >>= f) ↔ Succeeds x ∧ p := by
  rw [succeeds_bind]
  constructor
  · rintro ⟨a, ha, h⟩
    exact ⟨⟨a, ha⟩, (hf a ha).mp h⟩
  · rintro ⟨⟨a, ha⟩, h⟩
    exact ⟨a, ha, (hf a ha).mpr h⟩

theorem succeeds_map (x : Except ε α) (f : α → β) :
    Succeeds (x >>= fun a => .ok (f a)) ↔ Succeeds x := by
  rw [succeeds_bind_of_forall x _ True fun a _ => iff_of_true (succeeds_ok (f a)) trivial, and_true]

theorem succeeds_mapM (f : α → Except ε β) (xs : List α) :
    Succeeds (xs.mapM f) ↔ ∀ x ∈ xs, Succeeds (f x) := by
  induction xs with
  | nil => exact iff_of_true (succeeds_ok []) (by simp)
  | cons x xs ih =>
    rw [List.mapM_cons, List.forall_mem_cons, ← ih]
    apply succeeds_bind_of_forall
    intro y _
    exact succeeds_map (xs.mapM f) (y :: ·)

end OpenVoxDB
