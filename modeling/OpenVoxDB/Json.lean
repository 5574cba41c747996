import Mathlib

/-!
# JSON values

Numbers keep the integer and the floating kind apart, since the source's `=`
does: `(= 1 1.0)` is false. An object lists its fields in order.
-/

namespace OpenVoxDB

inductive Json where
  | null
  | bool (b : Bool)
  | int (n : Int)
  | float (mantissa exponent : Int)
  | str (s : String)
  | arr (xs : List Json)
  | obj (fields : List (String × Json))
  deriving Repr

namespace Json

mutual

def decEq : (a b : Json) → Decidable (a = b)
  | .null, .null => .isTrue rfl
  | .bool a, .bool b =>
    if h : a = b then .isTrue (by rw [h]) else .isFalse (by intro he; cases he; exact h rfl)
  | .int a, .int b =>
    if h : a = b then .isTrue (by rw [h]) else .isFalse (by intro he; cases he; exact h rfl)
  | .float m e, .float n f =>
    if h : m = n ∧ e = f then .isTrue (by rw [h.1, h.2])
    else .isFalse (by intro he; cases he; exact h ⟨rfl, rfl⟩)
  | .str a, .str b =>
    if h : a = b then .isTrue (by rw [h]) else .isFalse (by intro he; cases he; exact h rfl)
  | .arr xs, .arr ys =>
    match decEqList xs ys with
    | .isTrue h => .isTrue (by rw [h])
    | .isFalse h => .isFalse (by intro he; cases he; exact h rfl)
  | .obj xs, .obj ys =>
    match decEqFields xs ys with
    | .isTrue h => .isTrue (by rw [h])
    | .isFalse h => .isFalse (by intro he; cases he; exact h rfl)
  | .null, .bool _ | .null, .int _ | .null, .float _ _ | .null, .str _ | .null, .arr _
  | .null, .obj _ => .isFalse nofun
  | .bool _, .null | .bool _, .int _ | .bool _, .float _ _ | .bool _, .str _ | .bool _, .arr _
  | .bool _, .obj _ => .isFalse nofun
  | .int _, .null | .int _, .bool _ | .int _, .float _ _ | .int _, .str _ | .int _, .arr _
  | .int _, .obj _ => .isFalse nofun
  | .float _ _, .null | .float _ _, .bool _ | .float _ _, .int _ | .float _ _, .str _
  | .float _ _, .arr _ | .float _ _, .obj _ => .isFalse nofun
  | .str _, .null | .str _, .bool _ | .str _, .int _ | .str _, .float _ _ | .str _, .arr _
  | .str _, .obj _ => .isFalse nofun
  | .arr _, .null | .arr _, .bool _ | .arr _, .int _ | .arr _, .float _ _ | .arr _, .str _
  | .arr _, .obj _ => .isFalse nofun
  | .obj _, .null | .obj _, .bool _ | .obj _, .int _ | .obj _, .float _ _ | .obj _, .str _
  | .obj _, .arr _ => .isFalse nofun

def decEqList : (xs ys : List Json) → Decidable (xs = ys)
  | [], [] => .isTrue rfl
  | [], _ :: _ | _ :: _, [] => .isFalse nofun
  | x :: xs, y :: ys =>
    match decEq x y, decEqList xs ys with
    | .isTrue h, .isTrue ht => .isTrue (by rw [h, ht])
    | .isFalse h, _ => .isFalse (by intro he; cases he; exact h rfl)
    | _, .isFalse h => .isFalse (by intro he; cases he; exact h rfl)

def decEqFields : (xs ys : List (String × Json)) → Decidable (xs = ys)
  | [], [] => .isTrue rfl
  | [], _ :: _ | _ :: _, [] => .isFalse nofun
  | (k, x) :: xs, (j, y) :: ys =>
    if hk : k = j then
      match decEq x y, decEqFields xs ys with
      | .isTrue h, .isTrue ht => .isTrue (by rw [hk, h, ht])
      | .isFalse h, _ => .isFalse (by intro he; cases he; exact h rfl)
      | _, .isFalse h => .isFalse (by intro he; cases he; exact h rfl)
    else .isFalse (by intro he; cases he; exact hk rfl)

end

instance : DecidableEq Json := decEq

/-- Every value but `null` and `false` passes the source's `if`, `when` and `filter`. -/
def truthy : Json → Bool
  | .null => false
  | .bool false => false
  | _ => true

end Json

end OpenVoxDB
