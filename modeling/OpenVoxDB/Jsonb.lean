import OpenVoxDB.Dict
import OpenVoxDB.Json

/-!
# Operators on binary JSON

Equality with a scalar, containment, and the operators that follow a path.
Numbers are equal by their value, whether they have a fraction or not.
-/

namespace OpenVoxDB.Jsonb

/-- The equality of two decimal numbers, by mantissa and exponent. -/
def numberEq (m e n f : Int) : Bool :=
  m * 10 ^ (e - min e f).toNat == n * 10 ^ (f - min e f).toNat

theorem numberEq_self (m e : Int) : numberEq m e m e = true := by simp [numberEq]

/-- `=`, for a scalar on the right. -/
def scalarEq : Json → Json → Bool
  | .null, .null => true
  | .bool a, .bool b => a == b
  | .str a, .str b => a == b
  | .int a, .int b => a == b
  | .int a, .float n f => numberEq a 0 n f
  | .float m e, .int b => numberEq m e b 0
  | .float m e, .float n f => numberEq m e n f
  | _, _ => false

mutual

/-- `@>` between values of one level: a scalar contains its equals, an object contains fields
that its own contain, an array contains items that some of its own contain. -/
def contains (left : Json) : Json → Bool
  | .obj fields =>
    match left with
    | .obj own => containsFields own fields
    | _ => false
  | .arr xs =>
    match left with
    | .arr own => containsItems own xs
    | _ => false
  | .null => scalarEq left .null
  | .bool b => scalarEq left (.bool b)
  | .int n => scalarEq left (.int n)
  | .float m e => scalarEq left (.float m e)
  | .str s => scalarEq left (.str s)

def containsFields (own : List (String × Json)) : List (String × Json) → Bool
  | [] => true
  | (k, v) :: fields =>
    (match own.lookup k with
      | some w => contains w v
      | none => false) && containsFields own fields

def containsItems (own : List Json) : List Json → Bool
  | [] => true
  | x :: xs => (own.any fun w => contains w x) && containsItems own xs

end

/-- The element at an index; a negative one counts from the end. -/
def element (xs : List Json) : Int → Option Json
  | .ofNat i => xs[i]?
  | .negSucc i => xs.reverse[i]?

/-- `#>`, which reads a name as an index where it meets an array. -/
def getPath : Json → List String → Option Json
  | w, [] => some w
  | .obj fields, p :: path => (fields.lookup p).bind fun w => getPath w path
  | .arr xs, p :: path => (p.toInt?.bind (element xs)).bind fun w => getPath w path
  | _, _ :: _ => none

/-- `{a: {b: v}}` for the path `a`, `b`. -/
def nest (path : List String) (v : Json) : Json :=
  path.foldr (fun name inner => .obj [(name, inner)]) v

/-- Strings, numbers and booleans. -/
inductive Scalar where
  | str (s : String)
  | int (n : Int)
  | float (mantissa exponent : Int)
  | bool (b : Bool)
  deriving DecidableEq, Repr

def Scalar.json : Scalar → Json
  | str s => .str s
  | int n => .int n
  | float m e => .float m e
  | bool b => .bool b

@[simp] theorem scalarEq_self (v : Scalar) : scalarEq v.json v.json = true := by
  cases v <;> simp [Scalar.json, scalarEq, numberEq_self]

@[simp] theorem contains_scalar (w : Json) (v : Scalar) :
    contains w v.json = scalarEq w v.json := by
  cases v <;> simp [Scalar.json, contains]

theorem contains_nest_cons (fields : List (String × Json)) (name : String) (path : List String)
    (v : Json) : contains (.obj fields) (nest (name :: path) v) =
      (fields.lookup name).any fun w => contains w (nest path v) := by
  have hnest : nest (name :: path) v = .obj [(name, nest path v)] := rfl
  rw [hnest, contains]
  simp only [containsFields, Bool.and_true]
  cases fields.lookup name <;> rfl

/-- A scalar contains no object. -/
theorem contains_nest_of_scalar (w : Scalar) (name : String) (path : List String) (v : Json) :
    contains w.json (nest (name :: path) v) = false := by
  have hnest : nest (name :: path) v = .obj [(name, nest path v)] := rfl
  rw [hnest]
  cases w <;> simp [Scalar.json, contains]

theorem getPath_of_scalar (w : Scalar) (name : String) (path : List String) :
    getPath w.json (name :: path) = none := by
  cases w <;> simp [Scalar.json, getPath]

end OpenVoxDB.Jsonb
