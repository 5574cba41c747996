import Mathlib

/-!
# Decimal numerals

Numerals of a fixed width, with leading zeros, order as the numbers they stand
for, and are read back as them.
-/

namespace OpenVoxDB.Decimal

/-- The last digits of a number. -/
def fixed : Nat → Nat → List Char
  | 0, _ => []
  | width + 1, n => fixed width (n / 10) ++ [(n % 10).digitChar]

/-- `Integer/parseInt` of unsigned digits. -/
def parse (cs : List Char) : Option Nat :=
  if cs ≠ [] ∧ cs.all Char.isDigit then some (Nat.ofDigitChars 10 cs 0) else none

theorem length_fixed (width n : Nat) : (fixed width n).length = width := by
  induction width generalizing n with
  | zero => rfl
  | succ width ih => simp [fixed, ih]

theorem isDigit_fixed (width n : Nat) (c : Char) (hc : c ∈ fixed width n) : c.isDigit = true := by
  induction width generalizing n with
  | zero => cases hc
  | succ width ih =>
    obtain hc | hc := List.mem_append.mp hc
    · exact ih (n / 10) hc
    · rw [List.mem_singleton.mp hc, Nat.isDigit_digitChar]
      exact decide_eq_true (Nat.mod_lt n (by omega))

theorem ofDigitChars_fixed (width n : Nat) (hn : n < 10 ^ width) :
    Nat.ofDigitChars 10 (fixed width n) 0 = n := by
  induction width generalizing n with
  | zero =>
    have hzero : n = 0 := by simpa using hn
    rw [hzero]
    rfl
  | succ width ih =>
    have hlt : n / 10 < 10 ^ width := by
      rw [Nat.pow_succ] at hn
      omega
    rw [fixed, Nat.ofDigitChars_append, ih (n / 10) hlt,
      Nat.ofDigitChars_cons_digitChar_of_lt_ten (Nat.mod_lt n (by omega)), Nat.ofDigitChars_nil]
    exact Nat.div_add_mod n 10

theorem parse_fixed (width n : Nat) (hwidth : 0 < width) (hn : n < 10 ^ width) :
    parse (fixed width n) = some n := by
  have hne : fixed width n ≠ [] := by
    intro hnil
    have hlength := length_fixed width n
    rw [hnil] at hlength
    exact absurd hlength (by simp; omega)
  have hdigits : (fixed width n).all Char.isDigit = true :=
    List.all_eq_true.mpr (isDigit_fixed width n)
  rw [parse, if_pos ⟨hne, hdigits⟩, ofDigitChars_fixed width n hn]

/-- The digits that the width cuts off do not matter. -/
theorem fixed_mod (width n k : Nat) : fixed width (10 ^ width * k + n) = fixed width n := by
  induction width generalizing n with
  | zero => rfl
  | succ width ih =>
    have hdiv : (10 ^ (width + 1) * k + n) / 10 = 10 ^ width * k + n / 10 := by
      rw [Nat.pow_succ, Nat.mul_comm (10 ^ width) 10, Nat.mul_assoc]
      omega
    have hmod : (10 ^ (width + 1) * k + n) % 10 = n % 10 := by
      rw [Nat.pow_succ, Nat.mul_comm (10 ^ width) 10, Nat.mul_assoc]
      omega
    rw [fixed, fixed, hdiv, hmod, ih]

theorem fixed_add (v w n : Nat) : fixed (v + w) n = fixed v (n / 10 ^ w) ++ fixed w n := by
  induction w generalizing n with
  | zero => simp [fixed]
  | succ w ih =>
    have hdiv : n / 10 / 10 ^ w = n / 10 ^ (w + 1) := by
      rw [Nat.div_div_eq_div_mul, Nat.pow_succ, Nat.mul_comm]
    rw [← Nat.add_assoc, fixed, ih, hdiv, fixed, List.append_assoc]

/-- Two numerals side by side are one. -/
theorem fixed_append (v w m n : Nat) (hn : n < 10 ^ w) :
    fixed v m ++ fixed w n = fixed (v + w) (10 ^ w * m + n) := by
  have hdiv : (10 ^ w * m + n) / 10 ^ w = m := by
    rw [Nat.mul_add_div (Nat.pow_pos (by omega)), Nat.div_eq_of_lt hn, Nat.add_zero]
  rw [fixed_add, hdiv, fixed_mod]

theorem digitChar_lt {m n : Nat} (h : m < n) (hn : n < 10) : m.digitChar < n.digitChar := by
  have hm := Nat.toNat_digitChar_of_lt_ten (n := m) (by omega)
  have hn := Nat.toNat_digitChar_of_lt_ten hn
  apply Char.lt_def.mpr
  apply UInt32.lt_iff_toNat_lt.mpr
  change m.digitChar.toNat < n.digitChar.toNat
  omega

/-- What follows texts of one length does not change their order. -/
theorem lt_append {xs ys us vs : List Char} (h : xs < ys) (hlength : xs.length = ys.length) :
    xs ++ us < ys ++ vs := by
  induction xs generalizing ys with
  | nil =>
    cases ys with
    | nil => exact absurd h (List.lt_irrefl _)
    | cons y ys => cases hlength
  | cons x xs ih =>
    cases ys with
    | nil => cases hlength
    | cons y ys =>
      rw [List.cons_append, List.cons_append, List.cons_lt_cons_iff]
      obtain hlt | ⟨heq, hrest⟩ := List.cons_lt_cons_iff.mp h
      · exact .inl hlt
      · exact .inr ⟨heq, ih hrest (Nat.succ.inj hlength)⟩

/-- Numerals of one width order as their numbers. -/
theorem fixed_lt (width m n : Nat) (h : m < n) (hn : n < 10 ^ width) :
    fixed width m < fixed width n := by
  induction width generalizing m n with
  | zero =>
    rw [Nat.pow_zero] at hn
    omega
  | succ width ih =>
    have hlt : n / 10 < 10 ^ width := by
      rw [Nat.pow_succ] at hn
      omega
    rw [fixed, fixed]
    by_cases hdiv : m / 10 < n / 10
    · apply lt_append (ih (m / 10) (n / 10) hdiv hlt)
      rw [length_fixed, length_fixed]
    · have heq : m / 10 = n / 10 := by omega
      have hdigit : m % 10 < n % 10 := by omega
      rw [heq]
      apply List.append_left_lt
      exact List.Lex.rel (digitChar_lt hdigit (Nat.mod_lt n (by omega)))

end OpenVoxDB.Decimal
