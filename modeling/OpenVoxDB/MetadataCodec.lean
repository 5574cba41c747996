import Mathlib
import OpenVoxDB.Framing
import OpenVoxDB.QueueMetadata

/-!
# Queue metadata is read back as it was written

A text that `metadata-rx` matches falls into its groups in one way only, since
the fields up to the certname have no separator in them and a hash is what
follows the next one. So a name gives back the numbers, the command and the
certid it was written with, and is written again as it was.
-/

namespace OpenVoxDB.QueueMetadata

open CommandBuffer Matching

/-! ## The groups of a text -/

/-- The text with these groups. -/
def Groups.text (g : Groups) : List Char :=
  (g.received ++ g.offset.getD []) ++ '_' :: (g.command ++ '_' :: (g.version ++ '_' ::
    (g.certname ++ (g.hash.getD [] ++ (json ++ (g.compression.map ('.' :: ·)).getD [])))))

structure Groups.WellFormed (g : Groups) : Prop where
  received : g.received ≠ [] ∧ ∀ c ∈ g.received, c.isDigit = true
  offset : ∀ offset ∈ g.offset, ∃ sign digits, offset = sign :: digits ∧
    (sign = '+' ∨ sign = '|' ∨ sign = '-') ∧ digits ≠ [] ∧ ∀ c ∈ digits, c.isDigit = true
  command : g.command ∈ commands.map metadataCommand
  version : g.version ≠ [] ∧ ∀ c ∈ g.version, c.isDigit = true
  certname : g.certname ≠ [] ∧ '_' ∉ g.certname
  hash : ∀ hash ∈ g.hash, ∃ digits, hash = '_' :: digits ∧ digits.length = 40 ∧
    ∀ c ∈ digits, isHex c = true
  compression : ∀ compression ∈ g.compression, compression = ['g', 'z']

theorem reads_offsetRx : Reads offsetRx (fun offset => ∃ sign digits, offset = sign :: digits ∧
    (sign = '+' ∨ sign = '|' ∨ sign = '-') ∧ digits ≠ [] ∧ ∀ c ∈ digits, c.isDigit = true)
    id := by
  intro offset cs rest
  simp only [offsetRx, mem_andThen, mem_one, mem_many, mem_done, Bool.or_eq_true,
    decide_eq_true_eq]
  constructor
  · rintro ⟨sign, mid, ⟨hsign, rfl⟩, digits, mid', ⟨hne, hdigits, rfl⟩, rfl, rfl⟩
    exact ⟨⟨sign, digits, rfl, or_assoc.mp hsign, hne, hdigits⟩, rfl⟩
  · rintro ⟨⟨sign, digits, rfl, hsign, hne, hdigits⟩, rfl⟩
    exact ⟨sign, digits ++ rest, ⟨or_assoc.mpr hsign, rfl⟩, digits, rest,
      ⟨hne, hdigits, rfl⟩, rfl, rfl⟩

theorem reads_hashRx : Reads hashRx (fun hash => ∃ digits, hash = '_' :: digits ∧
    digits.length = 40 ∧ ∀ c ∈ digits, isHex c = true) id := by
  intro hash cs rest
  simp only [hashRx, mem_andThen, mem_literal, mem_times, mem_done]
  constructor
  · rintro ⟨-, mid, rfl, digits, mid', ⟨hlength, hdigits, rfl⟩, rfl, rfl⟩
    exact ⟨⟨digits, rfl, hlength, hdigits⟩, rfl⟩
  · rintro ⟨⟨digits, rfl, hlength, hdigits⟩, rfl⟩
    exact ⟨(), digits ++ rest, rfl, digits, rest, ⟨hlength, hdigits, rfl⟩, rfl, rfl⟩

theorem reads_compressionRx :
    Reads compressionRx (fun compression => compression = ['g', 'z']) ('.' :: ·) := by
  intro compression cs rest
  simp only [compressionRx, mem_andThen, mem_literal, mem_oneOf, List.mem_singleton]
  constructor
  · rintro ⟨-, mid, rfl, hgz, rfl⟩
    exact ⟨hgz, rfl⟩
  · rintro ⟨hgz, rfl⟩
    exact ⟨(), compression ++ rest, rfl, hgz, rfl⟩

/-- The groups with a command that is known. -/
def Groups.withFacts (g : Groups) : Groups := { g with command := metadataCommand .replaceFacts }

/-- The groups that match a text are those it is the text of. -/
theorem mem_metadataRxOf (texts : List (List Char)) (g : Groups) (cs : List Char) :
    (g, []) ∈ metadataRxOf texts cs ↔
      g.command ∈ texts ∧ g.withFacts.WellFormed ∧ cs = g.text := by
  simp only [metadataRxOf, mem_andThen, mem_many, mem_literal, mem_oneOf, mem_done,
    reads_offsetRx.optional _ _ _, reads_hashRx.optional _ _ _,
    reads_compressionRx.optional _ _ _, Option.map_id_fun, id]
  constructor
  · rintro ⟨received, _, ⟨hne, hreceived, rfl⟩, offset, _, ⟨hoffset, rfl⟩, -, _, rfl, command, _,
      ⟨hcommand, rfl⟩, -, _, rfl, version, _, ⟨hversion, hdigits, rfl⟩, -, _, rfl, certname, _,
      ⟨hcert, hcertname, rfl⟩, hash, _, ⟨hhash, rfl⟩, -, _, rfl, compression, _,
      ⟨hcompression, rfl⟩, rfl, rfl⟩
    have hseparator : '_' ∉ certname := fun hmem => by simpa using hcertname '_' hmem
    have hfacts : metadataCommand .replaceFacts ∈ commands.map metadataCommand := by decide
    exact ⟨hcommand, ⟨⟨hne, hreceived⟩, hoffset, hfacts, ⟨hversion, hdigits⟩, ⟨hcert, hseparator⟩,
      hhash, hcompression⟩, by simp [Groups.text]⟩
  · rintro ⟨hcommand, hwf, rfl⟩
    obtain ⟨received, offset, command, version, certname, hash, compression⟩ := g
    have hcertname (c : Char) (hc : c ∈ certname) : decide (c ≠ '_') = true := by
      apply decide_eq_true
      rintro rfl
      exact hwf.certname.2 hc
    exact ⟨received, _, ⟨hwf.received.1, hwf.received.2, List.append_assoc _ _ _⟩,
      offset, _, ⟨hwf.offset, rfl⟩, (), _, rfl, command, _, ⟨hcommand, rfl⟩, (), _, rfl,
      version, _, ⟨hwf.version.1, hwf.version.2, rfl⟩, (), _, rfl,
      certname, _, ⟨hwf.certname.1, hcertname, rfl⟩, hash, _, ⟨hwf.hash, rfl⟩, (), _, rfl,
      compression, [], ⟨hwf.compression, (List.append_nil _).symm⟩, rfl, rfl⟩

theorem mem_metadataRx (g : Groups) (cs : List Char) :
    (g, []) ∈ metadataRx cs ↔ g.WellFormed ∧ cs = g.text := by
  have hrx : metadataRx = metadataRxOf (commands.map metadataCommand) := rfl
  rw [hrx, mem_metadataRxOf, ← and_assoc]
  apply and_congr_left
  intro _
  constructor
  · rintro ⟨hcommand, hwf⟩
    exact ⟨hwf.received, hwf.offset, hcommand, hwf.version, hwf.certname, hwf.hash,
      hwf.compression⟩
  · intro hwf
    have hfacts : metadataCommand .replaceFacts ∈ commands.map metadataCommand := by decide
    exact ⟨hwf.command, hwf.received, hwf.offset, hfacts, hwf.version, hwf.certname, hwf.hash,
      hwf.compression⟩

/-! ## One text, one way to match it -/

theorem separator_not_digit {cs : List Char} (h : ∀ c ∈ cs, c.isDigit = true) : '_' ∉ cs := by
  intro hmem
  exact absurd (h '_' hmem) (by decide)

theorem separator_not_command {text : List Char} (h : text ∈ commands.map metadataCommand) :
    '_' ∉ text := by
  obtain ⟨command, -, rfl⟩ := List.mem_map.mp h
  cases command <;> decide

/-- The received time ends where the digits do. -/
theorem takeWhile_received (g : Groups) (h : g.WellFormed) :
    (g.received ++ g.offset.getD []).takeWhile Char.isDigit = g.received := by
  rw [List.takeWhile_append_of_pos h.received.2]
  cases hoffset : g.offset with
  | none => simp
  | some offset =>
    obtain ⟨sign, digits, rfl, hsign, -, -⟩ := h.offset offset hoffset
    have hdigit : sign.isDigit = false := by
      obtain rfl | rfl | rfl := hsign <;> rfl
    simp [hdigit]

theorem separator_not_stamp (g : Groups) (h : g.WellFormed) :
    '_' ∉ g.received ++ g.offset.getD [] := by
  intro hmem
  obtain hmem | hmem := List.mem_append.mp hmem
  · exact separator_not_digit h.received.2 hmem
  · cases hoffset : g.offset with
    | none => simp [hoffset] at hmem
    | some offset =>
      obtain ⟨sign, digits, rfl, hsign, -, hdigits⟩ := h.offset offset hoffset
      rw [hoffset] at hmem
      obtain rfl | hmem := List.mem_cons.mp hmem
      · simp at hsign
      · exact separator_not_digit hdigits hmem

theorem stamp_inj (g g' : Groups) (h : g.WellFormed) (h' : g'.WellFormed)
    (heq : g.received ++ g.offset.getD [] = g'.received ++ g'.offset.getD []) :
    g.received = g'.received ∧ g.offset = g'.offset := by
  have hreceived : g.received = g'.received := by
    rw [← takeWhile_received g h, heq, takeWhile_received g' h']
  rw [hreceived] at heq
  have hoffset := List.append_cancel_left heq
  constructor
  · exact hreceived
  · cases hleft : g.offset <;> cases hright : g'.offset <;> rw [hleft, hright] at hoffset
    · obtain ⟨sign, digits, rfl, -⟩ := h'.offset _ hright
      cases hoffset
    · obtain ⟨sign, digits, rfl, -⟩ := h.offset _ hleft
      cases hoffset
    · exact congrArg some hoffset

/-- What follows the certname and its hash. -/
def ending (compression : Option (List Char)) : List Char :=
  json ++ (compression.map ('.' :: ·)).getD []

theorem separator_not_ending (g : Groups) (h : g.WellFormed) : '_' ∉ ending g.compression := by
  cases hcompression : g.compression with
  | none => decide
  | some compression =>
    rw [h.compression compression hcompression]
    decide

/-- The last character tells the compression. -/
theorem ending_inj (g g' : Groups) (h : g.WellFormed) (h' : g'.WellFormed) (cs cs' : List Char)
    (heq : cs ++ ending g.compression = cs' ++ ending g'.compression) :
    cs = cs' ∧ g.compression = g'.compression := by
  have hlast := congrArg List.getLast? heq
  cases hleft : g.compression <;> cases hright : g'.compression <;> rw [hleft, hright] at heq hlast
  · exact ⟨List.append_cancel_right heq, rfl⟩
  · rw [h'.compression _ hright] at hlast
    simp [ending, json] at hlast
  · rw [h.compression _ hleft] at hlast
    simp [ending, json] at hlast
  · rw [h.compression _ hleft, h'.compression _ hright] at heq ⊢
    exact ⟨List.append_cancel_right heq, rfl⟩

theorem certid_inj (g g' : Groups) (h : g.WellFormed) (h' : g'.WellFormed)
    (heq : g.certname ++ (g.hash.getD [] ++ ending g.compression) =
      g'.certname ++ (g'.hash.getD [] ++ ending g'.compression)) :
    g.certname = g'.certname ∧ g.hash = g'.hash ∧ g.compression = g'.compression := by
  have hmem := congrArg ('_' ∈ ·) heq
  simp only [List.mem_append, eq_iff_iff, h.certname.2, h'.certname.2, separator_not_ending g h,
    separator_not_ending g' h', or_false, false_or] at hmem
  cases hleft : g.hash <;> cases hright : g'.hash <;> rw [hleft, hright] at heq hmem
  · obtain ⟨hcertname, hcompression⟩ := ending_inj g g' h h' _ _ heq
    exact ⟨hcertname, rfl, hcompression⟩
  · obtain ⟨digits, rfl, -⟩ := h'.hash _ hright
    simp at hmem
  · obtain ⟨digits, rfl, -⟩ := h.hash _ hleft
    simp at hmem
  · obtain ⟨digits, rfl, hlength, -⟩ := h.hash _ hleft
    obtain ⟨digits', rfl, hlength', -⟩ := h'.hash _ hright
    obtain ⟨hcertname, hrest⟩ := Framing.append_terminator_inj '_' _ _ _ _ h.certname.2
      h'.certname.2 heq
    obtain ⟨hdigits, hcompression⟩ := ending_inj g g' h h' _ _ hrest
    exact ⟨hcertname, by rw [hdigits], hcompression⟩

/-- No text has two groupings. -/
theorem text_inj (g g' : Groups) (h : g.WellFormed) (h' : g'.WellFormed) (heq : g.text = g'.text) :
    g = g' := by
  obtain ⟨hstamp, heq⟩ := Framing.append_terminator_inj '_' _ _ _ _ (separator_not_stamp g h)
    (separator_not_stamp g' h') heq
  obtain ⟨hcommand, heq⟩ := Framing.append_terminator_inj '_' _ _ _ _
    (separator_not_command h.command) (separator_not_command h'.command) heq
  obtain ⟨hversion, heq⟩ := Framing.append_terminator_inj '_' _ _ _ _
    (separator_not_digit h.version.2) (separator_not_digit h'.version.2) heq
  obtain ⟨hreceived, hoffset⟩ := stamp_inj g g' h h' hstamp
  obtain ⟨hcertname, hhash, hcompression⟩ := certid_inj g g' h h' heq
  cases g
  cases g'
  simp only [Groups.mk.injEq]
  exact ⟨hreceived, hoffset, hcommand, hversion, hcertname, hhash, hcompression⟩

theorem fullMatch_metadataRxOf (texts : List (List Char)) (g : Groups) (hcommand : g.command ∈ texts)
    (hseparator : ∀ text ∈ texts, '_' ∉ text) (h : g.withFacts.WellFormed) :
    fullMatch (metadataRxOf texts) g.text = some g := by
  apply fullMatch_of_unique
  · exact (mem_metadataRxOf texts g g.text).mpr ⟨hcommand, h, rfl⟩
  · intro g' hmem
    obtain ⟨hcommand', h', heq⟩ := (mem_metadataRxOf texts g' g.text).mp hmem
    obtain ⟨hstamp, hrest⟩ := Framing.append_terminator_inj '_' _ _ _ _
      (separator_not_stamp _ h) (separator_not_stamp _ h') heq
    obtain ⟨hsame, hrest⟩ := Framing.append_terminator_inj '_' _ _ _ _ (hseparator _ hcommand)
      (hseparator _ hcommand') hrest
    have htexts : g'.withFacts.text = g.withFacts.text := by
      simp only [Groups.text, Groups.withFacts]
      simp only [Groups.withFacts] at hstamp
      rw [hstamp, hrest]
    have hfacts := text_inj _ _ h' h htexts
    cases g
    cases g'
    simp only [Groups.withFacts, Groups.mk.injEq, true_and] at hfacts hsame ⊢
    exact ⟨hfacts.1, hfacts.2.1, hsame.symm, hfacts.2.2⟩

theorem fullMatch_text (g : Groups) (h : g.WellFormed) :
    fullMatch metadataRx g.text = some g := by
  apply fullMatch_of_unique
  · exact (mem_metadataRx g g.text).mpr ⟨h, rfl⟩
  · intro g' hmem
    obtain ⟨h', heq⟩ := (mem_metadataRx g' g.text).mp hmem
    exact text_inj g' g h' h heq.symm

/-! ## Certids -/

theorem utf8Length_append (xs ys : List Char) :
    utf8Length (xs ++ ys) = utf8Length xs + utf8Length ys := by
  simp [utf8Length]

@[simp] theorem utf8Length_cons (c : Char) (cs : List Char) :
    utf8Length (c :: cs) = c.utf8Size + utf8Length cs := by
  simp [utf8Length]

theorem utf8Length_ascii (cs : List Char) (h : ∀ c ∈ cs, c.utf8Size = 1) :
    utf8Length cs = cs.length := by
  rw [utf8Length, List.map_congr_left h]
  simp

theorem utf8Size_hex (c : Char) (h : isHex c = true) : c.utf8Size = 1 := by
  rw [Char.utf8Size_eq_one_iff]
  simp [isHex, Char.isDigit, Char.le_def, UInt32.le_iff_toNat_le] at *
  omega

theorem utf8Size_digit (c : Char) (h : c.isDigit = true) : c.utf8Size = 1 :=
  utf8Size_hex c (by simp [isHex, h])

theorem takeBytes_start (maxBytes : Nat) (cs : List Char) : takeBytes maxBytes cs <+: cs := by
  induction cs generalizing maxBytes with
  | nil => exact List.prefix_refl []
  | cons c cs ih =>
    rw [takeBytes]
    split
    · exact (List.prefix_cons_inj c).mpr (ih _)
    · exact List.nil_prefix

theorem utf8Length_takeBytes (maxBytes : Nat) (cs : List Char) :
    utf8Length (takeBytes maxBytes cs) ≤ maxBytes := by
  induction cs generalizing maxBytes with
  | nil => exact Nat.zero_le _
  | cons c cs ih =>
    rw [takeBytes]
    split
    · next hfits =>
      have hrest := ih (maxBytes - c.utf8Size)
      rw [utf8Length_cons]
      omega
    · exact Nat.zero_le _

/-- Four bytes hold any character. -/
theorem takeBytes_ne_nil (maxBytes : Nat) (cs : List Char) (hmax : 4 ≤ maxBytes) (hcs : cs ≠ []) :
    takeBytes maxBytes cs ≠ [] := by
  cases cs with
  | nil => exact absurd rfl hcs
  | cons c cs =>
    have hfits : c.utf8Size ≤ maxBytes := Nat.le_trans c.utf8Size_le_four hmax
    rw [takeBytes, if_pos hfits]
    exact List.cons_ne_nil _ _

theorem separator_not_sanitized (certname : List Char) : '_' ∉ sanitizeCertname certname := by
  intro hmem
  obtain ⟨c, -, hc⟩ := List.mem_map.mp hmem
  split at hc
  · cases hc
  · next hforbidden =>
    rw [hc] at hforbidden
    exact hforbidden rfl

/-- The certname, or what is left of it before its hash. -/
inductive Certid (sha1 : List Char → List Char) (certname : List Char) : List Char → Prop
  | plain (hne : certname ≠ []) (hseparator : '_' ∉ certname) : Certid sha1 certname certname
  | hashed (start : List Char) (hne : start ≠ []) (hstart : start <+: sanitizeCertname certname) :
    Certid sha1 certname (start ++ '_' :: sha1 certname)

section Certids

variable (sha1 : List Char → List Char)

/-- A certname that has a separator in its certid is hashed in it. -/
theorem certid_injective (certname certname' certid : List Char)
    (hinj : sha1 certname = sha1 certname' → certname = certname')
    (h : Certid sha1 certname certid) (h' : Certid sha1 certname' certid) :
    certname = certname' := by
  have hstart (start certname : List Char) (hstarts : start <+: sanitizeCertname certname) :
      '_' ∉ start := fun hmem => separator_not_sanitized certname (hstarts.subset hmem)
  generalize hsame : certid = certid' at h'
  cases h with
  | plain hne hseparator =>
    cases h' with
    | plain hne' hseparator' => exact hsame
    | hashed start hne' hstarts =>
      rw [hsame] at hseparator
      simp at hseparator
  | hashed start hne hstarts =>
    cases h' with
    | plain hne' hseparator' =>
      rw [← hsame] at hseparator'
      simp at hseparator'
    | hashed start' hne' hstarts' =>
      have hboth := Framing.append_terminator_inj '_' _ _ _ _ (hstart _ _ hstarts)
        (hstart _ _ hstarts') hsame
      exact hinj hboth.2

variable (hhex : ∀ certname, (sha1 certname).length = 40 ∧ ∀ c ∈ sha1 certname, isHex c = true)
include hhex

theorem utf8Length_hashed (start certname : List Char) :
    utf8Length (start ++ '_' :: sha1 certname) = utf8Length start + 41 := by
  rw [utf8Length_append, utf8Length_cons,
    utf8Length_ascii _ fun c hc => utf8Size_hex c ((hhex certname).2 c hc), (hhex certname).1]
  rfl

/-- Where the hash and one more character fit there is a certid, and it fits. -/
theorem embeddableCertid_eq (certname : List Char) (maxUtf8Bytes : Int) (hne : certname ≠ [])
    (hmax : 45 ≤ maxUtf8Bytes) : ∃ certid, embeddableCertid sha1 certname maxUtf8Bytes = some certid ∧
      (utf8Length certid : Int) ≤ maxUtf8Bytes ∧ Certid sha1 certname certid := by
  have hsanitized : sanitizeCertname certname ≠ [] := by simpa [sanitizeCertname] using hne
  have htruncated : ∃ certid, (do
      let start ← utf8Truncate (sanitizeCertname certname) (maxUtf8Bytes - 41)
      return start ++ '_' :: sha1 certname) = some certid ∧
      (utf8Length certid : Int) ≤ maxUtf8Bytes ∧ Certid sha1 certname certid := by
    have hfits := utf8Length_takeBytes (maxUtf8Bytes - 41).toNat (sanitizeCertname certname)
    have hstart := takeBytes_ne_nil (maxUtf8Bytes - 41).toNat _ (by omega) hsanitized
    rw [utf8Truncate, if_pos (by omega)]
    exact ⟨_, rfl, by rw [utf8Length_hashed sha1 hhex]; omega,
      .hashed _ hstart (takeBytes_start _ _)⟩
  simp only [embeddableCertid]
  split
  · next hsame =>
    split
    · next hfits =>
      rw [hsame] at hfits
      have hseparator := separator_not_sanitized certname
      rw [hsame] at hseparator
      exact ⟨certname, rfl, hfits, .plain hne hseparator⟩
    · exact htruncated
  · split
    · next hfits =>
      exact ⟨_, rfl, by rw [utf8Length_hashed sha1 hhex]; omega,
        .hashed _ hsanitized (List.prefix_refl _)⟩
    · exact htruncated

end Certids

/-! ## Numbers -/

/-- `Long/MIN_VALUE` and `Long/MAX_VALUE` bound it. -/
def IsLong (n : Int) : Prop := -9223372036854775808 ≤ n ∧ n < 9223372036854775808

theorem isDigit_toDigits (n : Nat) (c : Char) (hc : c ∈ Nat.toDigits 10 n) : c.isDigit = true :=
  Nat.isDigit_of_mem_toDigits (by decide) (by decide) hc

theorem parse_toDigits (n : Nat) : Decimal.parse (Nat.toDigits 10 n) = some n := by
  have hdigits : (Nat.toDigits 10 n).all Char.isDigit = true :=
    List.all_eq_true.mpr (isDigit_toDigits n)
  rw [Decimal.parse, if_pos ⟨Nat.toDigits_ne_nil, hdigits⟩, Nat.ofDigitChars_ten_toDigits]

theorem parseLong_toDigits (n : Nat) (hn : IsLong n) : parseLong (Nat.toDigits 10 n) = some (n : Int) := by
  obtain ⟨hlow, hhigh⟩ := hn
  cases hdigits : Nat.toDigits 10 n with
  | nil => exact absurd hdigits Nat.toDigits_ne_nil
  | cons c cs =>
    have hdigit := isDigit_toDigits n c (hdigits ▸ List.mem_cons_self)
    have hparse := parse_toDigits n
    rw [hdigits] at hparse
    have hminus : c ≠ '-' := by
      rintro rfl
      exact absurd hdigit (by decide)
    have hplus : c ≠ '+' := by
      rintro rfl
      exact absurd hdigit (by decide)
    simp [parseLong, hminus, hplus, hparse, hlow, hhigh]

theorem parseLong_signed (n : Nat) (hn : IsLong n) :
    parseLong ('+' :: Nat.toDigits 10 n) = some (n : Int) := by
  obtain ⟨hlow, hhigh⟩ := hn
  simp [parseLong, parse_toDigits, hlow, hhigh]

theorem parseLong_negative (n : Nat) (hn : IsLong (-n)) :
    parseLong ('-' :: Nat.toDigits 10 n) = some (-n : Int) := by
  obtain ⟨hlow, hhigh⟩ := hn
  simp [parseLong, parse_toDigits, hlow, hhigh]

/-- The sign of an offset, before its digits. -/
theorem offsetText_eq (offset : Int) : ∃ sign, (sign = '+' ∨ sign = '-') ∧
    offsetText offset = sign :: Nat.toDigits 10 offset.natAbs := by
  by_cases hneg : offset < 0
  · exact ⟨'-', .inr rfl, by rw [offsetText, if_pos hneg, intText, if_pos hneg]⟩
  · exact ⟨'+', .inl rfl, by rw [offsetText, if_neg hneg, intText, if_neg hneg]⟩

theorem parseLong_offsetText (offset : Int) (h : IsLong offset) :
    parseLong (offsetText offset) = some offset := by
  by_cases hneg : offset < 0
  · have hvalue : -(offset.natAbs : Int) = offset := by omega
    have hparse := parseLong_negative offset.natAbs (by rw [hvalue]; exact h)
    rw [offsetText, if_pos hneg, intText, if_pos hneg, hparse, hvalue]
  · have hvalue : (offset.natAbs : Int) = offset := by omega
    have hparse := parseLong_signed offset.natAbs (by rw [hvalue]; exact h)
    rw [offsetText, if_neg hneg, intText, if_neg hneg, hparse, hvalue]

theorem length_toDigits (n : Nat) (hn : n < 10 ^ 19) :
    utf8Length (Nat.toDigits 10 n) ≤ 19 := by
  rw [utf8Length_ascii _ fun c hc => utf8Size_digit c (isDigit_toDigits n c hc)]
  exact (Nat.length_toDigits_le_iff (by decide) (by decide)).mpr hn

/-! ## The codec -/

/-- A time that is not before the epoch and numbers that are longs. -/
structure Serializable (received : Instant) (m : CommandMeta) : Prop where
  epoch : 0 ≤ Instant.toLong received
  time : IsLong (Instant.toLong received)
  offset : ∀ producerTs ∈ m.producerTs,
    IsLong (Instant.toLong producerTs - Instant.toLong received)
  version : IsLong m.version
  certname : m.certname ≠ some []

/-- The offset of a request. -/
def producerOffset (received : Instant) (m : CommandMeta) : Option Int :=
  (encodeCommandTime received m.producerTs).2

def compressionGroup : Compression → Option (List Char)
  | .identity => none
  | .gz => some ['g', 'z']

theorem isSome_compressionGroup (compression : Compression) :
    (if (compressionGroup compression).isSome then Compression.gz else .identity) =
      compression := by
  cases compression <;> rfl

theorem extension_eq (compression : Compression) :
    extension compression = ((compressionGroup compression).map ('.' :: ·)).getD [] := by
  cases compression <;> rfl

/-- The groups of the name of a request. -/
def groups (received : Instant) (m : CommandMeta) (certname : List Char)
    (hash : Option (List Char)) : Groups where
  received := Nat.toDigits 10 (Instant.toLong received).natAbs
  offset := (producerOffset received m).map offsetText
  command := metadataCommand m.command
  version := Nat.toDigits 10 m.version
  certname := certname
  hash := hash
  compression := compressionGroup m.compression

theorem certToMeta_eq_text (received : Instant) (m : CommandMeta) (certname : List Char)
    (hash : Option (List Char)) (h : Serializable received m) :
    certToMeta received m (certname ++ hash.getD []) =
      (groups received m certname hash).text := by
  have htime : ¬ Instant.toLong received < 0 := by
    have hepoch := h.epoch
    omega
  simp only [certToMeta, commandTimeText, Groups.text, groups, intText, producerOffset,
    extension_eq, List.append_assoc]
  rw [show (encodeCommandTime received m.producerTs).1 = Instant.toLong received from rfl,
    if_neg htime]

theorem groups_wellFormed (received : Instant) (m : CommandMeta) (certname : List Char)
    (hash : Option (List Char)) (hcertname : certname ≠ [] ∧ '_' ∉ certname)
    (hhash : ∀ x ∈ hash, ∃ digits, x = '_' :: digits ∧ digits.length = 40 ∧
      ∀ c ∈ digits, isHex c = true) : (groups received m certname hash).WellFormed := by
  constructor
  · exact ⟨Nat.toDigits_ne_nil, isDigit_toDigits _⟩
  · intro x hx
    obtain ⟨offset, -, rfl⟩ := Option.map_eq_some_iff.mp hx
    obtain ⟨sign, hsign, heq⟩ := offsetText_eq offset
    exact ⟨sign, _, heq, by tauto, Nat.toDigits_ne_nil, isDigit_toDigits _⟩
  · exact List.mem_map.mpr ⟨m.command, by cases m.command <;> decide, rfl⟩
  · exact ⟨Nat.toDigits_ne_nil, isDigit_toDigits _⟩
  · exact hcertname
  · exact hhash
  · intro x hx
    cases hgz : m.compression with
    | identity => simp [groups, compressionGroup, hgz] at hx
    | gz => simpa [groups, compressionGroup, hgz] using hx.symm

@[simp] theorem puppetdbCommand_metadataCommand (command : CommandType) :
    puppetdbCommand (metadataCommand command) = some command := by
  cases command <;> rfl

/-- What a name that was written with this certid says. -/
def parsed (received : Instant) (m : CommandMeta) (certid : List Char) : Metadata where
  received := Instant.fromLong (Instant.toLong received)
  producerTs := m.producerTs.map fun ts => Instant.fromLong (Instant.toLong ts)
  version := m.version
  command := m.command
  certname := certid
  compression := m.compression

theorem parseMetadata_text (received : Instant) (m : CommandMeta) (certname : List Char)
    (hash : Option (List Char)) (h : Serializable received m)
    (hwf : (groups received m certname hash).WellFormed) :
    parseMetadata (groups received m certname hash).text =
      some (parsed received m (certname ++ hash.getD [])) := by
  have hvalue : ((Instant.toLong received).natAbs : Int) = Instant.toLong received := by
    have hepoch := h.epoch
    omega
  have hreceived : parseLong (groups received m certname hash).received =
      some (Instant.toLong received) := by
    have hlong := h.time
    rw [← hvalue] at hlong
    exact (parseLong_toDigits _ hlong).trans (congrArg some hvalue)
  have hproducer := parseProducerTs_encodeCommandTime received m.producerTs
  have hoffset : parseOffset (groups received m certname hash).offset =
      some (encodeCommandTime received m.producerTs).2 := by
    cases hts : m.producerTs with
    | none => simp [groups, producerOffset, encodeCommandTime, parseOffset, hts]
    | some ts =>
      have hparse := parseLong_offsetText _ (h.offset ts hts)
      simp [groups, producerOffset, encodeCommandTime, parseOffset, hts, hparse]
  have hversion : parseLong (groups received m certname hash).version = some (m.version : Int) :=
    parseLong_toDigits m.version h.version
  have hcommand : puppetdbCommand (groups received m certname hash).command = some m.command :=
    puppetdbCommand_metadataCommand m.command
  have hcompression : (if (groups received m certname hash).compression.isSome then
      Compression.gz else .identity) = m.compression := isSome_compressionGroup m.compression
  have htimes : (Instant.toLong received, (encodeCommandTime received m.producerTs).2) =
      encodeCommandTime received m.producerTs := rfl
  simp only [parseMetadata, fullMatch_text _ hwf, Option.bind_eq_bind, Option.bind_some, hreceived,
    hoffset, hversion, hcommand, htimes, hproducer, hcompression, Int.toNat_natCast]
  rfl

/-- What goes before the certname and behind it takes few bytes. -/
theorem utf8Length_allButCert (received : Instant) (m : CommandMeta) (h : Serializable received m) :
    utf8Length (certToMeta received m []) ≤ 80 := by
  have hshort (n : Int) (hn : IsLong n) : utf8Length (Nat.toDigits 10 n.natAbs) ≤ 19 := by
    obtain ⟨hlow, hhigh⟩ := hn
    exact length_toDigits n.natAbs (by omega)
  have hreceived := hshort (Instant.toLong received) h.time
  have hversion := hshort m.version h.version
  have hoffset : utf8Length (((producerOffset received m).map offsetText).getD []) ≤ 20 := by
    cases hts : m.producerTs with
    | none => simp [producerOffset, encodeCommandTime, hts, utf8Length]
    | some ts =>
      have hdigits := hshort _ (h.offset ts hts)
      obtain ⟨sign, hsign, heq⟩ := offsetText_eq (Instant.toLong ts - Instant.toLong received)
      have hsize : sign.utf8Size = 1 := by
        obtain rfl | rfl := hsign <;> rfl
      simp only [producerOffset, encodeCommandTime, hts, Option.map_some, Option.getD_some, heq,
        utf8Length_cons, hsize]
      omega
  have hcommand : utf8Length (metadataCommand m.command) ≤ 10 := by
    cases m.command <;> decide
  have hextension : utf8Length (extension m.compression) ≤ 3 := by
    cases m.compression <;> decide
  have htext := certToMeta_eq_text received m [] none h
  simp only [Option.getD_none, List.append_nil] at htext
  rw [htext, Groups.text]
  have hseparator : '_'.utf8Size = 1 := rfl
  have hjson : utf8Length json = 5 := by decide
  have hnil : utf8Length [] = 0 := rfl
  simp only [groups, utf8Length_append, utf8Length_cons, ← extension_eq, hseparator, hjson, hnil,
    Option.getD_none]
  simp only [Int.natAbs_natCast] at hversion
  omega

/-- A certid takes the place of an empty certname in the name. -/
theorem utf8Length_certToMeta (received : Instant) (m : CommandMeta) (certid : List Char) :
    utf8Length (certToMeta received m certid) =
      utf8Length (certToMeta received m []) + utf8Length certid := by
  simp only [certToMeta, utf8Length_append, utf8Length_cons, List.nil_append]
  omega

section RoundTrip

variable (sha1 : List Char → List Char)

/-- The name of a request, its certid, what is read back from the name, and the name that is
written for that. -/
structure Codec (received : Instant) (m : CommandMeta) (text certid : List Char) : Prop where
  serialized : serializeMetadata sha1 received m false = some text
  length : utf8Length text ≤ 235
  shape : Certid sha1 (m.certname.getD unknownHost) certid
  entry : parseMetadata text = some (parsed received m certid)
  reserialized : ∀ entry, parseMetadata text = some entry →
    serializeMetadata sha1 entry.received entry.toMeta true = some text

/-- What is read back is written as before. -/
theorem certToMeta_parsed (received : Instant) (m : CommandMeta) (certid : List Char) :
    certToMeta (parsed received m certid).received (parsed received m certid).toMeta certid =
      certToMeta received m certid := by
  have hmillis (t : Instant) :
      Instant.toLong (Instant.fromLong (Instant.toLong t)) = Instant.toLong t := by
    simp only [Instant.toLong, Instant.fromLong]
    omega
  have htime : encodeCommandTime (parsed received m certid).received
      (parsed received m certid).toMeta.producerTs = encodeCommandTime received m.producerTs := by
    cases hts : m.producerTs with
    | none => simp [parsed, Metadata.toMeta, encodeCommandTime, hts, hmillis]
    | some ts => simp [parsed, Metadata.toMeta, encodeCommandTime, hts, hmillis]
  simp only [certToMeta, commandTimeText, htime]
  rfl

variable (hhex : ∀ certname, (sha1 certname).length = 40 ∧ ∀ c ∈ sha1 certname, isHex c = true)
include hhex

theorem certToMeta_groups (received : Instant) (m : CommandMeta) (certname certid : List Char)
    (h : Serializable received m) (hcertid : Certid sha1 certname certid) :
    ∃ start hash, certid = start ++ hash.getD [] ∧
      certToMeta received m certid = (groups received m start hash).text ∧
      (groups received m start hash).WellFormed := by
  cases hcertid with
  | plain hne hseparator =>
    have htext := certToMeta_eq_text received m certname none h
    simp only [Option.getD_none, List.append_nil] at htext
    have hwf := groups_wellFormed received m certname none ⟨hne, hseparator⟩ (by simp)
    exact ⟨certname, none, (List.append_nil _).symm, htext, hwf⟩
  | hashed start hne hstarts =>
    have hstart : '_' ∉ start := fun hmem =>
      separator_not_sanitized certname (hstarts.subset hmem)
    have hwf := groups_wellFormed received m start (some ('_' :: sha1 certname)) ⟨hne, hstart⟩
      (by simpa using hhex certname)
    exact ⟨start, some ('_' :: sha1 certname), rfl,
      certToMeta_eq_text received m start (some ('_' :: sha1 certname)) h, hwf⟩

theorem codec_exists (received : Instant) (m : CommandMeta) (h : Serializable received m) :
    ∃ text certid, Codec sha1 received m text certid := by
  have hne : m.certname.getD unknownHost ≠ [] := by
    cases hcertname : m.certname with
    | none => decide
    | some certname =>
      rintro rfl
      exact h.certname hcertname
  have hbytes := utf8Length_allButCert received m h
  obtain ⟨certid, hembed, hlength, hcertid⟩ := embeddableCertid_eq sha1 hhex
    (m.certname.getD unknownHost)
    ((maxMetadataUtf8Bytes : Int) - utf8Length (certToMeta received m [])) hne (by
      simp only [maxMetadataUtf8Bytes]
      omega)
  obtain ⟨start, hash, rfl, htext, hwf⟩ := certToMeta_groups sha1 hhex received m _ certid h hcertid
  have hparsed : parseMetadata (certToMeta received m (start ++ hash.getD [])) =
      some (parsed received m (start ++ hash.getD [])) := by
    rw [htext]
    exact parseMetadata_text received m start hash h hwf
  apply Exists.intro (certToMeta received m (start ++ hash.getD []))
  apply Exists.intro (start ++ hash.getD [])
  constructor
  · simp only [serializeMetadata, Bool.false_eq_true, if_false, hembed]
    rfl
  · rw [utf8Length_certToMeta]
    simp only [maxMetadataUtf8Bytes] at hlength
    omega
  · exact hcertid
  · exact hparsed
  · intro entry hentry
    rw [hparsed] at hentry
    obtain rfl := Option.some.inj hentry
    exact congrArg some (certToMeta_parsed received m _)

end RoundTrip

/-- A request is written in a name that fits, is read back from it and written again as it, and
two certnames with different hashes have different certids. -/
theorem codec_roundTrip (sha1 : List Char → List Char)
    (hhex : ∀ certname, (sha1 certname).length = 40 ∧ ∀ c ∈ sha1 certname, isHex c = true) :
    (∀ received m, Serializable received m → ∃ text certid, Codec sha1 received m text certid) ∧
    ∀ received m text certid received' m' text' certid', Codec sha1 received m text certid →
      Codec sha1 received' m' text' certid' →
      m.certname.getD unknownHost ≠ m'.certname.getD unknownHost →
      sha1 (m.certname.getD unknownHost) ≠ sha1 (m'.certname.getD unknownHost) →
      certid ≠ certid' := by
  constructor
  · exact codec_exists sha1 hhex
  · intro received m text certid received' m' text' certid' hcodec hcodec' hne hsha1 hsame
    have hshape := hcodec'.shape
    rw [← hsame] at hshape
    exact hne (certid_injective sha1 _ _ certid (fun heq => absurd heq hsha1) hcodec.shape hshape)

/-- A table of hashes. -/
def fooBarSha1 (certname : List Char) : List Char :=
  if certname = ['f', 'o', 'o', '_', 'b', 'a', 'r'] then
    ['5', 'd', '5', 'f', '2', '0', 'e', '7', '4', '7', '7', '1', 'b', '8', '5', '2', '0', '2',
     '5', 'c', '3', 'e', 'd', 'b', '6', '6', 'c', '9', '4', '6', '2', 'e', 'e', 'b', '9', '1',
     '3', 'd', '0', '3']
  else List.replicate 40 '0'

def fooBarFacts : CommandMeta :=
  ⟨.replaceFacts, 5, some ['f', 'o', 'o', '_', 'b', 'a', 'r'], some 1000000, .gz⟩

theorem codec_roundTrip_fooBar : ∃ text certid, Codec fooBarSha1 3000000 fooBarFacts text certid := by
  have hhex (certname : List Char) : (fooBarSha1 certname).length = 40 ∧
      ∀ c ∈ fooBarSha1 certname, isHex c = true := by
    unfold fooBarSha1
    split
    · exact ⟨rfl, List.all_eq_true.mp rfl⟩
    · exact ⟨rfl, List.all_eq_true.mp rfl⟩
  have hserializable : Serializable 3000000 fooBarFacts := by
    constructor
    · decide
    · exact ⟨by decide, by decide⟩
    · intro ts hts
      obtain rfl := Option.some.inj hts
      exact ⟨by decide, by decide⟩
    · exact ⟨by decide, by decide⟩
    · decide
  exact (codec_roundTrip fooBarSha1 hhex).1 3000000 fooBarFacts hserializable

/-- A command that is received before the epoch has a name that is not read back, and so has a
command of a version that is no long. -/
theorem codec_fails :
    (serializeMetadata fooBarSha1 (-1000000) ⟨.replaceFacts, 5, some ['a'], none, .identity⟩
      false).map parseMetadata = some none ∧
    (serializeMetadata fooBarSha1 0 ⟨.replaceFacts, 9223372036854775808, some ['a'], none,
      .identity⟩ false).map parseMetadata = some none := by
  decide

end OpenVoxDB.QueueMetadata
