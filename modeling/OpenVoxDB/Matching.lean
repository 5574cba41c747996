import Mathlib

/-!
# Backtracking matchers

A matcher gives the ways in which it matches a prefix, each with what is left, in
the order in which a backtracking matcher tries them: greedy ones the longest
first. A text is matched as a whole by the first way that leaves nothing.
-/

namespace OpenVoxDB.Matching

variable {α β : Type}

abbrev Matcher (α : Type) := List Char → List (α × List Char)

def done (a : α) : Matcher α := fun cs => [(a, cs)]

def andThen (m : Matcher α) (f : α → Matcher β) : Matcher β :=
  fun cs => (m cs).flatMap fun x => f x.1 x.2

def literal (text : List Char) : Matcher Unit :=
  fun cs => if text.isPrefixOf cs then [((), cs.drop text.length)] else []

/-- A character of a class. -/
def one (p : Char → Bool) : Matcher Char
  | [] => []
  | c :: cs => if p c then [(c, cs)] else []

/-- `p+` -/
def many (p : Char → Bool) : Matcher (List Char)
  | [] => []
  | c :: cs => if p c then (many p cs).map (fun x => (c :: x.1, x.2)) ++ [([c], cs)] else []

/-- `p*` -/
def star (p : Char → Bool) : Matcher (List Char) := fun cs => many p cs ++ [([], cs)]

/-- As many characters of a class. -/
def times (p : Char → Bool) : Nat → Matcher (List Char)
  | 0 => done []
  | n + 1 => andThen (one p) fun c => andThen (times p n) fun cs => done (c :: cs)

/-- `(m)?` -/
def optional (m : Matcher α) : Matcher (Option α) :=
  fun cs => (m cs).map (fun x => (some x.1, x.2)) ++ [(none, cs)]

def oneOf (texts : List (List Char)) : Matcher (List Char) :=
  fun cs => texts.flatMap fun text => (literal text cs).map fun x => (text, x.2)

/-- `re-matches` -/
def fullMatch (m : Matcher α) (cs : List Char) : Option α :=
  ((m cs).find? fun x => x.2.isEmpty).map Prod.fst

@[simp] theorem mem_done (a b : α) (cs rest : List Char) :
    (b, rest) ∈ done a cs ↔ b = a ∧ cs = rest := by
  simp [done, eq_comm]

@[simp] theorem mem_andThen (m : Matcher α) (f : α → Matcher β) (b : β) (cs rest : List Char) :
    (b, rest) ∈ andThen m f cs ↔ ∃ a mid, (a, mid) ∈ m cs ∧ (b, rest) ∈ f a mid := by
  simp [andThen]

@[simp] theorem mem_literal (text cs rest : List Char) (u : Unit) :
    (u, rest) ∈ literal text cs ↔ cs = text ++ rest := by
  unfold literal
  split
  · next h =>
    obtain ⟨tail, rfl⟩ := List.isPrefixOf_iff_prefix.mp h
    simp [eq_comm]
  · next h =>
    simp only [List.not_mem_nil, false_iff]
    rintro rfl
    exact h (List.isPrefixOf_iff_prefix.mpr (List.prefix_append _ _))

@[simp] theorem mem_one (p : Char → Bool) (c : Char) (cs rest : List Char) :
    (c, rest) ∈ one p cs ↔ p c = true ∧ cs = c :: rest := by
  cases cs with
  | nil => simp [one]
  | cons x xs =>
    simp only [one, List.cons.injEq]
    split
    · next h =>
      simp only [List.mem_singleton, Prod.mk.injEq]
      constructor
      · rintro ⟨rfl, rfl⟩
        exact ⟨h, rfl, rfl⟩
      · rintro ⟨-, rfl, rfl⟩
        exact ⟨rfl, rfl⟩
    · next h =>
      simp only [List.not_mem_nil, false_iff]
      rintro ⟨hc, rfl, -⟩
      exact h hc

@[simp] theorem mem_many (p : Char → Bool) (xs cs rest : List Char) :
    (xs, rest) ∈ many p cs ↔ xs ≠ [] ∧ (∀ c ∈ xs, p c = true) ∧ cs = xs ++ rest := by
  induction cs generalizing xs with
  | nil =>
    simp only [many, List.not_mem_nil, false_iff]
    rintro ⟨hne, -, happend⟩
    exact hne (List.append_eq_nil_iff.mp happend.symm).1
  | cons c cs ih =>
    simp only [many]
    split
    · next hc =>
      simp only [List.mem_append, List.mem_map, Prod.mk.injEq, List.mem_singleton]
      constructor
      · rintro (⟨⟨ys, rest'⟩, hys, rfl, rfl⟩ | ⟨rfl, rfl⟩)
        · obtain ⟨-, hall, rfl⟩ := (ih ys).mp hys
          exact ⟨List.cons_ne_nil _ _, List.forall_mem_cons.mpr ⟨hc, hall⟩, rfl⟩
        · exact ⟨List.cons_ne_nil _ _, List.forall_mem_cons.mpr ⟨hc, by simp⟩, rfl⟩
      · rintro ⟨hne, hall, happend⟩
        cases xs with
        | nil => exact absurd rfl hne
        | cons x xs =>
          obtain ⟨rfl, rfl⟩ := List.cons.inj happend
          by_cases hxs : xs = []
          · subst hxs
            exact .inr ⟨rfl, rfl⟩
          · have hrest := (ih xs).mpr ⟨hxs, (List.forall_mem_cons.mp hall).2, rfl⟩
            exact .inl ⟨(xs, rest), hrest, rfl, rfl⟩
    · next hc =>
      simp only [List.not_mem_nil, false_iff]
      rintro ⟨hne, hall, happend⟩
      cases xs with
      | nil => exact hne rfl
      | cons x xs =>
        obtain ⟨rfl, -⟩ := List.cons.inj happend
        exact hc (hall _ List.mem_cons_self)

@[simp] theorem mem_star (p : Char → Bool) (xs cs rest : List Char) :
    (xs, rest) ∈ star p cs ↔ (∀ c ∈ xs, p c = true) ∧ cs = xs ++ rest := by
  simp only [star, List.mem_append, mem_many, List.mem_singleton, Prod.mk.injEq]
  constructor
  · rintro (⟨-, hall, rfl⟩ | ⟨rfl, rfl⟩)
    · exact ⟨hall, rfl⟩
    · exact ⟨by simp, rfl⟩
  · rintro ⟨hall, rfl⟩
    by_cases hxs : xs = []
    · exact .inr ⟨hxs, by rw [hxs, List.nil_append]⟩
    · exact .inl ⟨hxs, hall, rfl⟩

@[simp] theorem mem_times (p : Char → Bool) (n : Nat) (xs cs rest : List Char) :
    (xs, rest) ∈ times p n cs ↔ xs.length = n ∧ (∀ c ∈ xs, p c = true) ∧ cs = xs ++ rest := by
  induction n generalizing xs cs rest with
  | zero =>
    simp only [times, mem_done, List.length_eq_zero_iff]
    constructor
    · rintro ⟨rfl, rfl⟩
      exact ⟨rfl, by simp, rfl⟩
    · rintro ⟨rfl, -, rfl⟩
      exact ⟨rfl, rfl⟩
  | succ n ih =>
    simp only [times, mem_andThen, mem_one, mem_done, ih]
    constructor
    · rintro ⟨c, mid, ⟨hc, rfl⟩, ys, mid', ⟨hlength, hall, rfl⟩, rfl, rfl⟩
      exact ⟨by simp [hlength], List.forall_mem_cons.mpr ⟨hc, hall⟩, rfl⟩
    · rintro ⟨hlength, hall, rfl⟩
      cases xs with
      | nil => cases hlength
      | cons x xs =>
        obtain ⟨hx, hxs⟩ := List.forall_mem_cons.mp hall
        exact ⟨x, xs ++ rest, ⟨hx, rfl⟩, xs, rest, ⟨Nat.succ.inj hlength, hxs, rfl⟩, rfl, rfl⟩

@[simp] theorem mem_optional (m : Matcher α) (a : Option α) (cs rest : List Char) :
    (a, rest) ∈ optional m cs ↔ (∃ b, a = some b ∧ (b, rest) ∈ m cs) ∨ a = none ∧ cs = rest := by
  simp only [optional, List.mem_append, List.mem_map, Prod.mk.injEq, List.mem_singleton]
  constructor
  · rintro (⟨⟨b, rest'⟩, hb, rfl, rfl⟩ | ⟨rfl, rfl⟩)
    · exact .inl ⟨b, rfl, hb⟩
    · exact .inr ⟨rfl, rfl⟩
  · rintro (⟨b, rfl, hb⟩ | ⟨rfl, rfl⟩)
    · exact .inl ⟨(b, rest), hb, rfl, rfl⟩
    · exact .inr ⟨rfl, rfl⟩

/-- The matches of a matcher are the texts of the values that satisfy `P`. -/
def Reads (m : Matcher α) (P : α → Prop) (render : α → List Char) : Prop :=
  ∀ a cs rest, (a, rest) ∈ m cs ↔ P a ∧ cs = render a ++ rest

theorem Reads.optional {m : Matcher α} {P : α → Prop} {render : α → List Char}
    (h : Reads m P render) :
    Reads (optional m) (fun o => ∀ a ∈ o, P a) fun o => (o.map render).getD [] := by
  intro o cs rest
  rw [mem_optional]
  cases o with
  | none => simp
  | some a => simpa using h a cs rest

@[simp] theorem mem_oneOf (texts : List (List Char)) (text cs rest : List Char) :
    (text, rest) ∈ oneOf texts cs ↔ text ∈ texts ∧ cs = text ++ rest := by
  simp only [oneOf, List.mem_flatMap, List.mem_map, Prod.mk.injEq]
  constructor
  · rintro ⟨text', htext, ⟨⟨⟩, rest'⟩, hmem, rfl, rfl⟩
    exact ⟨htext, (mem_literal _ _ _ _).mp hmem⟩
  · rintro ⟨htext, rfl⟩
    exact ⟨text, htext, ((), rest), (mem_literal _ _ _ _).mpr rfl, rfl, rfl⟩

/-- A text that is matched in one way only is matched in that way, in whatever order the ways
are tried. -/
theorem fullMatch_of_unique (m : Matcher α) (cs : List Char) (a : α) (ha : (a, []) ∈ m cs)
    (hunique : ∀ b, (b, []) ∈ m cs → b = a) : fullMatch m cs = some a := by
  cases hfind : (m cs).find? fun x => x.2.isEmpty with
  | none =>
    have hnone := List.find?_eq_none.mp hfind (a, []) ha
    exact absurd rfl hnone
  | some x =>
    obtain ⟨b, rest⟩ := x
    have hrest : rest = [] := by
      have hempty := List.find?_some hfind
      simpa using hempty
    have hmem := List.mem_of_find?_eq_some hfind
    rw [hrest] at hmem
    rw [fullMatch, hfind, hunique b hmem]
    rfl

end OpenVoxDB.Matching
