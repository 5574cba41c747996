import Mathlib

/-!
# Recursive queries

A recursive query adds to the rows of its base case those that its recursive
part makes of the rows found last, until there are none. Where a rank falls
along every step, the rank of the base rows bounds the number of rounds.
-/

namespace OpenVoxDB

variable {α : Type}

/-- The rows of at most `n` rounds. -/
def recursiveQuery (step : α → List α) : Nat → List α → List α
  | 0, rows => rows
  | n + 1, rows => rows ++ recursiveQuery step n (rows.flatMap step)

/-- The rows that some round makes of the base rows. -/
def Derives (step : α → List α) (rows : List α) (r : α) : Prop :=
  ∃ base ∈ rows, Relation.ReflTransGen (fun x y => y ∈ step x) base r

theorem Derives.base {step : α → List α} {rows : List α} {r : α} (h : r ∈ rows) :
    Derives step rows r := ⟨r, h, .refl⟩

theorem Derives.tail {step : α → List α} {rows : List α} {r r' : α} (h : Derives step rows r)
    (hstep : r' ∈ step r) : Derives step rows r' := by
  obtain ⟨base, hbase, hr⟩ := h
  exact ⟨base, hbase, hr.tail hstep⟩

/-- What the base rows have and one step keeps, every derived row has. -/
theorem Derives.invariant {step : α → List α} {rows : List α} {I : α → Prop}
    (hbase : ∀ r ∈ rows, I r) (hstep : ∀ r, I r → ∀ r' ∈ step r, I r') (r : α)
    (h : Derives step rows r) : I r := by
  obtain ⟨base, hmem, hr⟩ := h
  induction hr with
  | refl => exact hbase base hmem
  | tail _ hnext ih => exact hstep _ ih _ hnext

theorem derives_flatMap (step : α → List α) (rows : List α) (r : α) :
    Derives step rows r ↔ r ∈ rows ∨ Derives step (rows.flatMap step) r := by
  constructor
  · rintro ⟨base, hbase, hr⟩
    cases Relation.ReflTransGen.cases_head hr with
    | inl he => exact .inl (he ▸ hbase)
    | inr h =>
      obtain ⟨next, hnext, hr⟩ := h
      exact .inr ⟨next, List.mem_flatMap.mpr ⟨base, hbase, hnext⟩, hr⟩
  · rintro (h | ⟨next, hnext, hr⟩)
    · exact .base h
    · obtain ⟨base, hbase, hstep⟩ := List.mem_flatMap.mp hnext
      exact ⟨base, hbase, .head hstep hr⟩

theorem mem_recursiveQuery (step : α → List α) (rank : α → Nat)
    (hstep : ∀ x, ∀ y ∈ step x, rank y < rank x) (n : Nat) (rows : List α)
    (hrows : ∀ x ∈ rows, rank x ≤ n) (r : α) :
    r ∈ recursiveQuery step n rows ↔ Derives step rows r := by
  induction n generalizing rows with
  | zero =>
    -- a row of rank zero has no successor
    have hnone : rows.flatMap step = [] := by
      rw [List.flatMap_eq_nil_iff]
      intro x hx
      rw [List.eq_nil_iff_forall_not_mem]
      intro y hy
      have := hstep x y hy
      have := hrows x hx
      omega
    rw [derives_flatMap, hnone]
    simp [recursiveQuery, Derives]
  | succ n ih =>
    have hnext : ∀ y ∈ rows.flatMap step, rank y ≤ n := by
      intro y hy
      obtain ⟨x, hx, hy⟩ := List.mem_flatMap.mp hy
      have := hstep x y hy
      have := hrows x hx
      omega
    rw [derives_flatMap, recursiveQuery, List.mem_append, ih _ hnext]

end OpenVoxDB
