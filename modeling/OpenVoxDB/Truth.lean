import Mathlib

/-!
# Three-valued truth

The truth values of SQL: a filter keeps a row only where it is `yes`.
-/

namespace OpenVoxDB

inductive Truth where
  | no
  | unknown
  | yes
  deriving DecidableEq, Repr

namespace Truth

def ofBool (b : Bool) : Truth := if b then yes else no

def not : Truth → Truth
  | no => yes
  | unknown => unknown
  | yes => no

def and : Truth → Truth → Truth
  | no, _ => no
  | unknown, no => no
  | unknown, _ => unknown
  | yes, b => b

def or : Truth → Truth → Truth
  | yes, _ => yes
  | unknown, yes => yes
  | unknown, _ => unknown
  | no, b => b

def all (ts : List Truth) : Truth := ts.foldr and yes

def any (ts : List Truth) : Truth := ts.foldr or no

@[simp] theorem not_not (t : Truth) : t.not.not = t := by cases t <;> rfl

@[simp] theorem not_yes : yes.not = no := rfl

@[simp] theorem not_no : no.not = yes := rfl

theorem not_eq_iff (t u : Truth) : t.not = u ↔ t = u.not := by cases t <;> cases u <;> decide

@[simp] theorem not_ofBool (b : Bool) : (ofBool b).not = ofBool (!b) := by cases b <;> rfl

@[simp] theorem ofBool_true : ofBool true = yes := rfl

@[simp] theorem ofBool_false : ofBool false = no := rfl

@[simp] theorem ofBool_eq_yes (b : Bool) : ofBool b = yes ↔ b = true := by
  cases b <;> decide

@[simp] theorem yes_and (t : Truth) : yes.and t = t := rfl

@[simp] theorem no_and (t : Truth) : no.and t = no := rfl

@[simp] theorem no_or (t : Truth) : no.or t = t := rfl

@[simp] theorem yes_or (t : Truth) : yes.or t = yes := rfl

theorem and_eq_yes (t u : Truth) : t.and u = yes ↔ t = yes ∧ u = yes := by
  cases t <;> cases u <;> decide

theorem or_yes (t : Truth) : t.or yes = yes := by cases t <;> rfl

theorem not_and (t u : Truth) : (t.and u).not = t.not.or u.not := by
  cases t <;> cases u <;> rfl

@[simp] theorem all_nil : all [] = yes := rfl

@[simp] theorem all_cons (t : Truth) (ts : List Truth) : all (t :: ts) = t.and (all ts) := rfl

@[simp] theorem any_nil : any [] = no := rfl

@[simp] theorem any_cons (t : Truth) (ts : List Truth) : any (t :: ts) = t.or (any ts) := rfl

/-- A disjunction is the dual of a conjunction. -/
theorem any_eq_not_all (ts : List Truth) : any ts = (all (ts.map not)).not := by
  induction ts with
  | nil => rfl
  | cons t ts ih =>
    rw [any_cons, ih, List.map_cons, all_cons, not_and, not_not]

theorem all_eq_yes_iff (ts : List Truth) : all ts = yes ↔ ∀ t ∈ ts, t = yes := by
  induction ts with
  | nil => simp
  | cons t ts ih => rw [all_cons, and_eq_yes, ih, List.forall_mem_cons]

theorem any_eq_no_iff (ts : List Truth) : any ts = no ↔ ∀ t ∈ ts, t = no := by
  rw [any_eq_not_all, not_eq_iff, not_no, all_eq_yes_iff, List.forall_mem_map]
  simp only [not_eq_iff, not_yes]

theorem and_eq_no_iff (t u : Truth) : t.and u = no ↔ t = no ∨ u = no := by
  cases t <;> cases u <;> decide

theorem all_eq_no_iff (ts : List Truth) : all ts = no ↔ ∃ t ∈ ts, t = no := by
  induction ts with
  | nil => simp
  | cons t ts ih => rw [all_cons, and_eq_no_iff, ih, List.exists_mem_cons_iff]

theorem or_eq_yes_iff (t u : Truth) : t.or u = yes ↔ t = yes ∨ u = yes := by
  cases t <;> cases u <;> decide

theorem any_eq_yes_iff (ts : List Truth) : any ts = yes ↔ ∃ t ∈ ts, t = yes := by
  induction ts with
  | nil => simp
  | cons t ts ih => rw [any_cons, or_eq_yes_iff, ih, List.exists_mem_cons_iff]

theorem all_eq_no_of_mem (ts : List Truth) (h : no ∈ ts) : all ts = no :=
  (all_eq_no_iff ts).mpr ⟨no, h, rfl⟩

theorem any_eq_yes_of_mem (ts : List Truth) (h : yes ∈ ts) : any ts = yes :=
  (any_eq_yes_iff ts).mpr ⟨yes, h, rfl⟩

@[simp] theorem or_no (t : Truth) : t.or no = t := by cases t <;> rfl

@[simp] theorem and_yes (t : Truth) : t.and yes = t := by cases t <;> rfl

theorem or_assoc (t u v : Truth) : (t.or u).or v = t.or (u.or v) := by
  cases t <;> cases u <;> cases v <;> rfl

theorem and_assoc (t u v : Truth) : (t.and u).and v = t.and (u.and v) := by
  cases t <;> cases u <;> cases v <;> rfl

theorem all_append (ts us : List Truth) : all (ts ++ us) = (all ts).and (all us) := by
  induction ts with
  | nil => rfl
  | cons t ts ih => rw [List.cons_append, all_cons, all_cons, ih, and_assoc]

theorem any_append (ts us : List Truth) : any (ts ++ us) = (any ts).or (any us) := by
  induction ts with
  | nil => rfl
  | cons t ts ih => rw [List.cons_append, any_cons, any_cons, ih, or_assoc]

variable {α : Type}

/-- Operands that are true can be left out of a conjunction. -/
theorem all_filter (p : α → Bool) (f : α → Truth) (xs : List α)
    (h : ∀ x ∈ xs, p x = false → f x = yes) :
    all ((xs.filter p).map f) = all (xs.map f) := by
  induction xs with
  | nil => rfl
  | cons x xs ih =>
    have ih := ih fun y hy => h y (List.mem_cons_of_mem _ hy)
    cases hp : p x with
    | true => simp [hp, ih]
    | false => simp [hp, ih, h x List.mem_cons_self hp]

/-- Operands that are false can be left out of a disjunction. -/
theorem any_filter (p : α → Bool) (f : α → Truth) (xs : List α)
    (h : ∀ x ∈ xs, p x = false → f x = no) :
    any ((xs.filter p).map f) = any (xs.map f) := by
  have hall := all_filter p (fun x => (f x).not) xs fun x hx hp => by rw [h x hx hp, not_no]
  simpa only [any_eq_not_all, List.map_map, Function.comp_def] using congrArg not hall

/-- The value of a conjunction whose operands are all true or false. -/
theorem all_ofBool (f : α → Bool) (xs : List α) :
    all (xs.map fun x => ofBool (f x)) = ofBool (xs.all f) := by
  induction xs with
  | nil => rfl
  | cons x xs ih => cases h : f x <;> simp [h, ih]

theorem any_ofBool (f : α → Bool) (xs : List α) :
    any (xs.map fun x => ofBool (f x)) = ofBool (xs.any f) := by
  induction xs with
  | nil => rfl
  | cons x xs ih => cases h : f x <;> simp [h, ih]

end Truth

end OpenVoxDB
