import Mathlib
import OpenVoxDB.Utf8Truncation

/-!
# Strings in an encoding

A Ruby string is its bytes and the encoding they are tagged with. Two strings are equal only where
their encodings can be compared. `coerce_to_utf8` reads the bytes as UTF-8, or as US-ASCII with the
bytes that are not ASCII replaced where they are not valid UTF-8.
-/

namespace OpenVoxDB.RubyStrings

open Utf8Truncation

/-- An encoding by its name. UTF-8 is ASCII compatible too. -/
inductive Encoding where
  | utf8
  | asciiCompatible (name : String)
  | other (name : String)
  deriving DecidableEq, Repr

structure RString where
  encoding : Encoding
  bytes : List UInt8
  deriving DecidableEq, Repr

def Encoding.isAsciiCompatible : Encoding → Bool
  | .utf8 => true
  | .asciiCompatible _ => true
  | .other _ => false

def isAscii (b : UInt8) : Bool := b.toNat < 128

/-- The characters of bytes in UTF-8. -/
def decode (bytes : List UInt8) : Option (List Char) :=
  bytes.toByteArray.utf8Decode?.map Array.toList

/-- Whether the bytes are valid UTF-8, whatever they are tagged with. -/
def RString.validUtf8 (s : RString) : Bool := (decode s.bytes).isSome

/-- The code range of a string of ASCII characters only. -/
def RString.sevenBit (s : RString) : Bool :=
  s.encoding.isAsciiCompatible && s.bytes.all isAscii

def RString.comparable (s t : RString) : Bool :=
  s.bytes.isEmpty || t.bytes.isEmpty || s.encoding == t.encoding ||
    (s.sevenBit && (t.sevenBit || t.encoding.isAsciiCompatible)) ||
    (t.sevenBit && s.encoding.isAsciiCompatible)

/-- `==`, and `eql?`. -/
def RString.eql (s t : RString) : Bool := s.bytes == t.bytes && s.comparable t

/-! ## Coercion -/

/-- U+FFFD. -/
def defaultInvalidChar : Char := '\uFFFD'

/-- The bytes that a byte becomes from US-ASCII. -/
def replaceByte (b : UInt8) : List UInt8 := if isAscii b then [b] else [0xEF, 0xBF, 0xBD]

def coerceToUtf8 (s : RString) : RString :=
  if s.validUtf8 then ⟨.utf8, s.bytes⟩ else ⟨.utf8, s.bytes.flatMap replaceByte⟩

/-- The first place from `start` on with a character that `p` holds of. -/
def indexFrom (p : Char → Bool) (text : List Char) (start : Nat) : Option Nat :=
  ((text.drop start).findIdx? p).map (start + ·)

/-- The first and the last place of the first run of U+FFFD. -/
def firstInvalidCharRange (text : List Char) : Option (Nat × Nat) :=
  match indexFrom (· == defaultInvalidChar) text 0 with
  | none => none
  | some first =>
    some (first, (indexFrom (· != defaultInvalidChar) text first).getD text.length - 1)

/-- `text[first..last]`, a negative `last` counted from the end. -/
def slice (text : List Char) (first : Nat) (last : Int) : List Char :=
  let last := if last < 0 then last + text.length else last
  (text.drop first).take (last + 1 - first).toNat

/-- The message about the first run of U+FFFD. The code calls `begin` on nil where there is
none. -/
def errorCharContext (text : List Char) : Option (List Char) := do
  let (first, last) ← firstInvalidCharRange text
  let gap := last + 1 - first
  let startChar := first - 100
  let endChar := min ((indexFrom (· == defaultInvalidChar) text (last + 1)).getD text.length)
    (last + 100)
  let before := slice text startChar ((first : Int) - 1)
  let after := slice text (last + 1) ((endChar : Int) - 1)
  return "'".toList ++ before ++ "' followed by ".toList ++ (Nat.repr gap).toList ++
    " invalid/undefined bytes then '".toList ++ after ++ "'".toList

example : errorCharContext ['a', '\uFFFD', '\uFFFD', 'b'] =
    some "'a' followed by 2 invalid/undefined bytes then 'b'".toList := by decide +kernel

/-! ## Bytes of ASCII -/

/-- The character that a byte becomes from US-ASCII. -/
def asciiChar (b : UInt8) : Char := if isAscii b then Char.ofNat b.toNat else defaultInvalidChar

theorem utf8EncodeChar_asciiChar (b : UInt8) :
    String.utf8EncodeChar (asciiChar b) = replaceByte b := by
  have hall : ∀ n : Fin 256, String.utf8EncodeChar (asciiChar (UInt8.ofNat n)) =
      replaceByte (UInt8.ofNat n) := by decide +kernel
  have hb := hall ⟨b.toNat, b.toNat_lt⟩
  rw [UInt8.ofNat_toNat] at hb
  exact hb

theorem replaceByte_eq (bytes : List UInt8) :
    bytes.flatMap replaceByte = utf8Bytes (bytes.map asciiChar) := by
  induction bytes with
  | nil => rfl
  | cons b bytes ih =>
    rw [List.flatMap_cons, ih, List.map_cons, utf8Bytes, utf8Bytes, List.flatMap_cons,
      utf8EncodeChar_asciiChar]

theorem decode_utf8 (text : List Char) : decode (utf8Bytes text) = some text := by
  rw [decode, decode_utf8Bytes]
  rfl

theorem decode_replaced (bytes : List UInt8) :
    decode (bytes.flatMap replaceByte) = some (bytes.map asciiChar) := by
  rw [replaceByte_eq, decode_utf8]

theorem replaced_ascii (bytes : List UInt8) (h : bytes.all isAscii = true) :
    bytes.flatMap replaceByte = bytes := by
  induction bytes with
  | nil => rfl
  | cons b bytes ih =>
    rw [List.all_cons, Bool.and_eq_true] at h
    rw [List.flatMap_cons, ih h.2, replaceByte, if_pos h.1]
    rfl

/-- ASCII is valid UTF-8. -/
theorem validUtf8_ascii (s : RString) (h : s.bytes.all isAscii = true) : s.validUtf8 = true := by
  have hdecoded := decode_replaced s.bytes
  rw [replaced_ascii s.bytes h] at hdecoded
  rw [RString.validUtf8, hdecoded]
  rfl

/-! ## What the coercion does -/

@[simp] theorem encoding_coerceToUtf8 (s : RString) : (coerceToUtf8 s).encoding = .utf8 := by
  rw [coerceToUtf8]
  split <;> rfl

theorem bytes_coerceToUtf8 (s : RString) : (coerceToUtf8 s).bytes =
    if s.validUtf8 then s.bytes else s.bytes.flatMap replaceByte := by
  rw [coerceToUtf8]
  split <;> rfl

@[simp] theorem validUtf8_coerceToUtf8 (s : RString) : (coerceToUtf8 s).validUtf8 = true := by
  rw [RString.validUtf8, bytes_coerceToUtf8]
  split
  · next h => exact h
  · rw [decode_replaced]
    rfl

/-- What is coerced stays. -/
@[simp] theorem coerceToUtf8_coerceToUtf8 (s : RString) :
    coerceToUtf8 (coerceToUtf8 s) = coerceToUtf8 s := by
  have hvalid := validUtf8_coerceToUtf8 s
  have hencoding := encoding_coerceToUtf8 s
  rw [coerceToUtf8, if_pos hvalid, ← hencoding]

/-- Valid strings that the comparison takes for changed: tagged with another encoding, and not
all ASCII in it. -/
def RString.retagged (s : RString) : Bool :=
  s.validUtf8 && !s.bytes.isEmpty && s.encoding != .utf8 && !s.sevenBit

theorem eql_coerceToUtf8 (s : RString) :
    (coerceToUtf8 s).eql s = (s.validUtf8 && !s.retagged) := by
  cases hvalid : s.validUtf8 with
  | false =>
    have hbytes : (coerceToUtf8 s).bytes ≠ s.bytes := by
      intro hsame
      have hcoerced := validUtf8_coerceToUtf8 s
      rw [RString.validUtf8, hsame] at hcoerced
      rw [RString.validUtf8] at hvalid
      rw [hcoerced] at hvalid
      cases hvalid
    rw [RString.eql, beq_false_of_ne hbytes]
    rfl
  | true =>
    have hcoerced : coerceToUtf8 s = ⟨.utf8, s.bytes⟩ := by rw [coerceToUtf8, if_pos hvalid]
    rw [hcoerced, RString.eql, RString.retagged, hvalid]
    obtain ⟨encoding, bytes⟩ := s
    have hcompatible (name : String) : (Encoding.utf8 == .asciiCompatible name) = false ∧
        (Encoding.asciiCompatible name == .utf8) = false := ⟨rfl, rfl⟩
    have hother (name : String) : (Encoding.utf8 == .other name) = false ∧
        (Encoding.other name == .utf8) = false := ⟨rfl, rfl⟩
    cases encoding <;> cases hascii : bytes.all isAscii <;> cases hempty : bytes.isEmpty <;>
      simp [RString.comparable, RString.sevenBit, Encoding.isAsciiCompatible, bne, hascii, hempty,
        hcompatible, hother]

/-! ## Equality -/

/-- What equality looks at. -/
def RString.shape (s : RString) : List UInt8 × Option Encoding :=
  (s.bytes, if s.bytes.isEmpty || s.sevenBit then none else some s.encoding)

theorem eql_iff (s t : RString) : s.eql t = true ↔ s.shape = t.shape := by
  obtain ⟨se, sb⟩ := s
  obtain ⟨te, tb⟩ := t
  by_cases hbytes : sb = tb
  · subst hbytes
    cases hs : se.isAsciiCompatible <;> cases ht : te.isAsciiCompatible <;>
      cases hascii : sb.all isAscii <;> cases hempty : sb.isEmpty <;>
      simp [RString.eql, RString.comparable, RString.sevenBit, RString.shape, hs, ht, hascii,
        hempty]
    all_goals
      intro hsame
      rw [hsame, ht] at hs
      cases hs
  · simp [RString.eql, RString.shape, hbytes]

/-- Of what is coerced, equality looks at the bytes. -/
theorem eql_coerced (s t : RString) :
    (coerceToUtf8 s).eql (coerceToUtf8 t) = true ↔ coerceToUtf8 s = coerceToUtf8 t := by
  constructor
  · intro h
    have hshape := (eql_iff _ _).mp h
    have hbytes : (coerceToUtf8 s).bytes = (coerceToUtf8 t).bytes := congrArg Prod.fst hshape
    have hs := encoding_coerceToUtf8 s
    have ht := encoding_coerceToUtf8 t
    cases hcs : coerceToUtf8 s with
    | mk se sb =>
      cases hct : coerceToUtf8 t with
      | mk te tb =>
        rw [hcs, hct] at hbytes
        rw [hcs] at hs
        rw [hct] at ht
        cases hbytes
        cases hs
        cases ht
        rfl
  · intro h
    rw [h]
    exact (eql_iff _ _).mpr rfl

/-! ## Messages -/

theorem errorCharContext_isSome (text : List Char) :
    (errorCharContext text).isSome = true ↔ defaultInvalidChar ∈ text := by
  have hfirst : (firstInvalidCharRange text).isSome = true ↔ defaultInvalidChar ∈ text := by
    rw [firstInvalidCharRange, indexFrom, List.drop_zero]
    cases hindex : text.findIdx? (· == defaultInvalidChar) with
    | none =>
      have hnone := List.findIdx?_eq_none_iff.mp hindex
      constructor
      · intro h
        cases h
      · intro h
        have hfalse := hnone _ h
        simp at hfalse
    | some first =>
      obtain ⟨hlt, hc, -⟩ := List.findIdx?_eq_some_iff_getElem.mp hindex
      constructor
      · intro _
        rw [← beq_iff_eq.mp hc]
        exact List.getElem_mem hlt
      · intro _
        rfl
  rw [← hfirst, errorCharContext]
  cases firstInvalidCharRange text <;> rfl

/-- The characters of a string that is valid UTF-8. -/
def RString.text (s : RString) : List Char := (decode s.bytes).getD []

/-- Whether the text of a string has U+FFFD. -/
def RString.hasInvalidChar (s : RString) : Bool := s.text.contains defaultInvalidChar

/-- A string that is not valid has a byte to replace. -/
theorem hasInvalidChar_coerceToUtf8 (s : RString) :
    (coerceToUtf8 s).hasInvalidChar = (!s.validUtf8 || s.hasInvalidChar) := by
  rw [RString.hasInvalidChar, RString.text, bytes_coerceToUtf8]
  cases hvalid : s.validUtf8 with
  | true => rfl
  | false =>
    have hbyte : ∃ b ∈ s.bytes, isAscii b = false := by
      by_contra hnone
      have hascii : s.bytes.all isAscii = true := by
        apply List.all_eq_true.mpr
        intro b hb
        by_contra hb'
        exact hnone ⟨b, hb, Bool.eq_false_iff.mpr hb'⟩
      rw [validUtf8_ascii s hascii] at hvalid
      cases hvalid
    obtain ⟨b, hb, hascii⟩ := hbyte
    rw [if_neg Bool.false_ne_true, decode_replaced]
    have hmem : defaultInvalidChar ∈ s.bytes.map asciiChar := by
      apply List.mem_map.mpr
      refine ⟨b, hb, ?_⟩
      rw [asciiChar, hascii]
      rfl
    simp [hmem]

end OpenVoxDB.RubyStrings
