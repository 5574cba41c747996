import Mathlib

/-!
# Texts with placeholders

A statement is a text with placeholders, each with the value it stands for. The
database never sees those values: it fills the placeholders, in the order of the
text, with the parameters it is given.
-/

namespace OpenVoxDB.Placeholders

variable {P Q : Type}

inductive Piece (P : Type) where
  | text (s : String)
  | mark (p : P)
  deriving DecidableEq, Repr

/-- What the placeholders stand for, in the order of the text. -/
def marks (pieces : List (Piece P)) : List P :=
  pieces.filterMap fun
    | .text _ => none
    | .mark p => some p

@[simp] theorem marks_nil : marks ([] : List (Piece P)) = [] := rfl

@[simp] theorem marks_text (s : String) (pieces : List (Piece P)) :
    marks (.text s :: pieces) = marks pieces := rfl

@[simp] theorem marks_mark (p : P) (pieces : List (Piece P)) :
    marks (.mark p :: pieces) = p :: marks pieces := rfl

@[simp] theorem marks_append (xs ys : List (Piece P)) : marks (xs ++ ys) = marks xs ++ marks ys :=
  List.filterMap_append

/-- `str/join` -/
def join (separator : String) : List (List (Piece P)) → List (Piece P)
  | [] => []
  | [x] => x
  | x :: y :: rest => x ++ .text separator :: join separator (y :: rest)

@[simp] theorem marks_join (separator : String) (xs : List (List (Piece P))) :
    marks (join separator xs) = xs.flatMap marks := by
  fun_induction join separator xs with
  | case1 => rfl
  | case2 x => simp
  | case3 x y rest ih => simp [ih]

/-- The text with the next parameters in the places of its placeholders, and the parameters that
are left. -/
def fill : List (Piece P) → List P → Option (List (Piece P) × List P)
  | [], params => some ([], params)
  | .text s :: pieces, params => (fill pieces params).map fun x => (.text s :: x.1, x.2)
  | .mark _ :: _, [] => none
  | .mark _ :: pieces, p :: params => (fill pieces params).map fun x => (.mark p :: x.1, x.2)

/-- Parameters in the order of the text go to their own placeholders. -/
theorem fill_marks (pieces : List (Piece P)) (rest : List P) :
    fill pieces (marks pieces ++ rest) = some (pieces, rest) := by
  induction pieces with
  | nil => rfl
  | cons piece pieces ih =>
    cases piece with
    | text s => simp [fill, ih]
    | mark p => simp [fill, ih]

end OpenVoxDB.Placeholders
