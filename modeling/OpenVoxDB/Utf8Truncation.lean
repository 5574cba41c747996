import Mathlib
import OpenVoxDB.MetadataCodec

/-!
# Truncation to a number of bytes

`utf8-truncate` encodes a string of UTF-16 code units into a buffer of `max-bytes` and decodes
what the encoder wrote before it ran out of input or of space. Where the code units are those of
characters, the result is their longest start that fits.
-/

namespace OpenVoxDB.Utf8Truncation

open QueueMetadata

/-! ## Code units -/

/-- The code units of a character: one, or a pair of surrogates. -/
def units (c : Char) : List Nat :=
  if c.toNat < 0x10000 then [c.toNat]
  else [0xD800 + (c.toNat - 0x10000) / 0x400, 0xDC00 + (c.toNat - 0x10000) % 0x400]

/-- A string of characters. -/
def utf16 (text : List Char) : List Nat := text.flatMap units

def isHighSurrogate (u : Nat) : Bool := 0xD800 ≤ u && u < 0xDC00

def isLowSurrogate (u : Nat) : Bool := 0xDC00 ≤ u && u < 0xE000

/-- The character of a pair of surrogates. -/
def toCodePoint (high low : Nat) : Char :=
  Char.ofNat (0x10000 + (high - 0xD800) * 0x400 + (low - 0xDC00))

/-- The bytes of a text in UTF-8. -/
def utf8Bytes (text : List Char) : List UInt8 := text.flatMap String.utf8EncodeChar

/-! ## The encoder -/

inductive CoderResult where
  | underflow
  | overflow
  | malformed
  deriving DecidableEq, Repr

/-- `encode` at the end of the input, into a buffer with `remaining` bytes. A character that does
not fit is not begun. -/
def encode (remaining : Nat) : List Nat → List UInt8 × CoderResult
  | [] => ([], .underflow)
  | u :: us =>
    if isHighSurrogate u then
      match us with
      | [] => ([], .malformed)
      | low :: us =>
        if isLowSurrogate low then
          if (toCodePoint u low).utf8Size ≤ remaining then
            let (bytes, result) := encode (remaining - (toCodePoint u low).utf8Size) us
            (String.utf8EncodeChar (toCodePoint u low) ++ bytes, result)
          else ([], .overflow)
        else ([], .malformed)
    else if isLowSurrogate u then ([], .malformed)
    else if (Char.ofNat u).utf8Size ≤ remaining then
      let (bytes, result) := encode (remaining - (Char.ofNat u).utf8Size) us
      (String.utf8EncodeChar (Char.ofNat u) ++ bytes, result)
    else ([], .overflow)

/-- `utf8-truncate`, which throws for a negative size and for a lone surrogate. -/
def utf8Truncate (s : List Nat) (maxBytes : Int) : Option (List Nat) :=
  if 0 ≤ maxBytes then
    match encode maxBytes.toNat s with
    | (_, .malformed) => none
    | (bytes, _) => bytes.toByteArray.utf8Decode?.map fun text => utf16 text.toList
  else none

/-! ## Characters -/

theorem toCodePoint_units (c : Char) (h : 0x10000 ≤ c.toNat) :
    toCodePoint (0xD800 + (c.toNat - 0x10000) / 0x400) (0xDC00 + (c.toNat - 0x10000) % 0x400) =
      c := by
  have hcode : 0x10000 + (0xD800 + (c.toNat - 0x10000) / 0x400 - 0xD800) * 0x400 +
      (0xDC00 + (c.toNat - 0x10000) % 0x400 - 0xDC00) = c.toNat := by omega
  rw [toCodePoint, hcode]
  exact Char.ofNat_toNat c

theorem not_surrogate (c : Char) : isHighSurrogate c.toNat = false ∧
    isLowSurrogate c.toNat = false := by
  have hvalid := c.valid
  have hcode : c.toNat < 0xD800 ∨ 0xDFFF < c.toNat ∧ c.toNat < 0x110000 := hvalid
  constructor
  · simp only [isHighSurrogate, Bool.and_eq_false_iff, decide_eq_false_iff_not]
    omega
  · simp only [isLowSurrogate, Bool.and_eq_false_iff, decide_eq_false_iff_not]
    omega

theorem surrogates (c : Char) (h : 0x10000 ≤ c.toNat) :
    isHighSurrogate (0xD800 + (c.toNat - 0x10000) / 0x400) = true ∧
      isLowSurrogate (0xDC00 + (c.toNat - 0x10000) % 0x400) = true := by
  have hvalid := c.valid
  have hcode : c.toNat < 0xD800 ∨ 0xDFFF < c.toNat ∧ c.toNat < 0x110000 := hvalid
  constructor
  · simp only [isHighSurrogate, Bool.and_eq_true, decide_eq_true_eq]
    omega
  · simp only [isLowSurrogate, Bool.and_eq_true, decide_eq_true_eq]
    omega

theorem encode_single (remaining u : Nat) (us : List Nat) (hhigh : isHighSurrogate u = false)
    (hlow : isLowSurrogate u = false) : encode remaining (u :: us) =
      if (Char.ofNat u).utf8Size ≤ remaining then
        (String.utf8EncodeChar (Char.ofNat u) ++
          (encode (remaining - (Char.ofNat u).utf8Size) us).1,
          (encode (remaining - (Char.ofNat u).utf8Size) us).2)
      else ([], .overflow) := by
  rw [encode.eq_def]
  simp only [hhigh, hlow, Bool.false_eq_true, if_false]

theorem encode_pair (remaining u low : Nat) (us : List Nat) (hhigh : isHighSurrogate u = true)
    (hlow : isLowSurrogate low = true) : encode remaining (u :: low :: us) =
      if (toCodePoint u low).utf8Size ≤ remaining then
        (String.utf8EncodeChar (toCodePoint u low) ++
          (encode (remaining - (toCodePoint u low).utf8Size) us).1,
          (encode (remaining - (toCodePoint u low).utf8Size) us).2)
      else ([], .overflow) := by
  rw [encode.eq_def]
  simp only [hhigh, hlow, if_true]

/-- The encoder on the code units of a character. -/
theorem encode_units (remaining : Nat) (c : Char) (us : List Nat) :
    encode remaining (units c ++ us) =
      if c.utf8Size ≤ remaining then
        (String.utf8EncodeChar c ++ (encode (remaining - c.utf8Size) us).1,
          (encode (remaining - c.utf8Size) us).2)
      else ([], .overflow) := by
  by_cases hplane : c.toNat < 0x10000
  · obtain ⟨hhigh, hlow⟩ := not_surrogate c
    have hsingle := encode_single remaining c.toNat us hhigh hlow
    rw [Char.ofNat_toNat] at hsingle
    rw [units, if_pos hplane]
    exact hsingle
  · have hpair : 0x10000 ≤ c.toNat := by omega
    obtain ⟨hhigh, hlow⟩ := surrogates c hpair
    have hcode := encode_pair remaining _ _ us hhigh hlow
    rw [toCodePoint_units c hpair] at hcode
    rw [units, if_neg hplane]
    exact hcode

/-! ## What fits -/

theorem length_utf8Bytes (text : List Char) : (utf8Bytes text).length = utf8Length text := by
  induction text with
  | nil => rfl
  | cons c text ih =>
    rw [utf8Length_cons, ← ih]
    simp [utf8Bytes]

/-- The encoder writes the characters that fit, and stops for want of space where some do not. -/
theorem encode_utf16 (remaining : Nat) (text : List Char) :
    encode remaining (utf16 text) = (utf8Bytes (takeBytes remaining text),
      if takeBytes remaining text = text then .underflow else .overflow) := by
  induction text generalizing remaining with
  | nil => rfl
  | cons c text ih =>
    rw [utf16, List.flatMap_cons, encode_units, takeBytes]
    split
    · next hfits =>
      have hrest := ih (remaining - c.utf8Size)
      rw [utf16] at hrest
      rw [hrest]
      simp [utf8Bytes]
    · simp [utf8Bytes]

/-- Decoding gives back what was encoded. -/
theorem decode_utf8Bytes (text : List Char) :
    (utf8Bytes text).toByteArray.utf8Decode? = some text.toArray :=
  List.utf8Decode?_utf8Encode

/-- On the code units of characters, the truncation is that of the characters. -/
theorem utf8Truncate_utf16 (text : List Char) (maxBytes : Int) :
    utf8Truncate (utf16 text) maxBytes =
      (QueueMetadata.utf8Truncate text maxBytes).map utf16 := by
  rw [utf8Truncate, QueueMetadata.utf8Truncate, encode_utf16]
  split
  · split
    · next hresult =>
      split at hresult <;> cases hresult
    · next hresult =>
      cases hresult
      rw [decode_utf8Bytes]
      rfl
  · rfl

/-- No longer start fits. -/
theorem prefix_takeBytes (maxBytes : Nat) (start text : List Char) (hstart : start <+: text)
    (hfits : utf8Length start ≤ maxBytes) : start <+: takeBytes maxBytes text := by
  induction text generalizing maxBytes start with
  | nil => exact hstart
  | cons c text ih =>
    cases start with
    | nil => exact List.nil_prefix
    | cons d start =>
      obtain ⟨rfl, hrest⟩ := List.cons_prefix_cons.mp hstart
      rw [utf8Length_cons] at hfits
      rw [takeBytes, if_pos (by omega)]
      exact List.cons_prefix_cons.mpr ⟨rfl, ih _ start hrest (by omega)⟩

/-- A text that fits is kept. -/
theorem takeBytes_eq (maxBytes : Nat) (text : List Char) (h : utf8Length text ≤ maxBytes) :
    takeBytes maxBytes text = text := by
  have hstart := prefix_takeBytes maxBytes text text (List.prefix_refl text) h
  exact (takeBytes_start maxBytes text).eq_of_length_le hstart.length_le

/-- The code units determine the characters. -/
theorem utf16_injective : Function.Injective utf16 := by
  intro a b h
  have hencoded (text : List Char) (n : Nat) (hn : utf8Length text ≤ n) :
      (encode n (utf16 text)).1 = utf8Bytes text := by
    rw [encode_utf16, takeBytes_eq n text hn]
  have ha := hencoded a (utf8Length a + utf8Length b) (by omega)
  have hb := hencoded b (utf8Length a + utf8Length b) (by omega)
  rw [h, hb] at ha
  have hdecoded := decode_utf8Bytes b
  rw [ha, decode_utf8Bytes] at hdecoded
  exact congrArg Array.toList (Option.some.inj hdecoded)

/-! ## Certids -/

/-- Where the hash fits, a certid fits. -/
theorem embeddableCertid_fits (sha1 : List Char → List Char)
    (hhex : ∀ certname, (sha1 certname).length = 40 ∧ ∀ c ∈ sha1 certname, isHex c = true)
    (certname : List Char) (maxUtf8Bytes : Int) (hmax : 41 ≤ maxUtf8Bytes) :
    ∃ certid, embeddableCertid sha1 certname maxUtf8Bytes = some certid ∧
      (utf8Length certid : Int) ≤ maxUtf8Bytes := by
  have htruncated : ∃ certid, (do
      let start ← QueueMetadata.utf8Truncate (sanitizeCertname certname) (maxUtf8Bytes - 41)
      return start ++ '_' :: sha1 certname) = some certid ∧
      (utf8Length certid : Int) ≤ maxUtf8Bytes := by
    have hfits := utf8Length_takeBytes (maxUtf8Bytes - 41).toNat (sanitizeCertname certname)
    rw [QueueMetadata.utf8Truncate, if_pos (by omega)]
    refine ⟨_, rfl, ?_⟩
    rw [utf8Length_hashed sha1 hhex]
    omega
  simp only [embeddableCertid]
  split
  · next hsame =>
    split
    · next hfits =>
      rw [hsame] at hfits
      exact ⟨certname, rfl, hfits⟩
    · exact htruncated
  · split
    · next hfits =>
      refine ⟨_, rfl, ?_⟩
      rw [utf8Length_hashed sha1 hhex]
      omega
    · exact htruncated

/-- A truncation is the longest start of a string whose bytes fit, and so a certid fits. -/
theorem utf8Truncate_longest (sha1 : List Char → List Char)
    (hhex : ∀ certname, (sha1 certname).length = 40 ∧ ∀ c ∈ sha1 certname, isHex c = true) :
    (∀ (text : List Char) (maxBytes : Nat), ∃ start,
      utf8Truncate (utf16 text) maxBytes = some (utf16 start) ∧ start <+: text ∧
      (utf8Bytes start).length ≤ maxBytes ∧
      ∀ longer, longer <+: text → (utf8Bytes longer).length ≤ maxBytes →
        longer.length ≤ start.length) ∧
    ∀ (certname : List Char) (maxUtf8Bytes : Int), 41 ≤ maxUtf8Bytes →
      ∃ certid, embeddableCertid sha1 certname maxUtf8Bytes = some certid ∧
        ((utf8Bytes certid).length : Int) ≤ maxUtf8Bytes := by
  constructor
  · intro text maxBytes
    refine ⟨takeBytes maxBytes text, ?_, takeBytes_start maxBytes text, ?_, ?_⟩
    · rw [utf8Truncate_utf16, QueueMetadata.utf8Truncate, if_pos (Int.natCast_nonneg maxBytes)]
      rfl
    · rw [length_utf8Bytes]
      exact utf8Length_takeBytes maxBytes text
    · intro longer hlonger hfits
      rw [length_utf8Bytes] at hfits
      exact (prefix_takeBytes maxBytes longer text hlonger hfits).length_le
  · intro certname maxUtf8Bytes hmax
    obtain ⟨certid, hcertid, hfits⟩ := embeddableCertid_fits sha1 hhex certname maxUtf8Bytes hmax
    refine ⟨certid, hcertid, ?_⟩
    rw [length_utf8Bytes]
    exact hfits

theorem utf8Truncate_longest_fooBar : ∃ start,
    utf8Truncate (utf16 ['a', '😀', 'b']) (4 : Nat) = some (utf16 start) ∧
      start <+: ['a', '😀', 'b'] := by
  have hhex (certname : List Char) : (fooBarSha1 certname).length = 40 ∧
      ∀ c ∈ fooBarSha1 certname, isHex c = true := by
    unfold fooBarSha1
    split
    · exact ⟨rfl, List.all_eq_true.mp rfl⟩
    · exact ⟨rfl, List.all_eq_true.mp rfl⟩
  obtain ⟨start, htruncated, hstart, -⟩ :=
    (utf8Truncate_longest fooBarSha1 hhex).1 ['a', '😀', 'b'] 4
  exact ⟨start, htruncated, hstart⟩

end OpenVoxDB.Utf8Truncation
