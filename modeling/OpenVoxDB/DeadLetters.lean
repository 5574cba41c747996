import Mathlib
import OpenVoxDB.Utf8Truncation

/-!
# The dead letter office

A command that failed is a file in the directory of the dead letter office, beside a summary of its
errors. The metrics are counted as commands are discarded, and recounted from the names and sizes
of the files at the next start.
-/

namespace OpenVoxDB.DeadLetters

open CommandBuffer Matching QueueMetadata

/-! ## Names -/

/-- The commands of the dead letter office. -/
inductive Category where
  | known (command : CommandType)
  | unknown
  deriving DecidableEq, Repr

def unknownText : List Char := ['u', 'n', 'k', 'n', 'o', 'w', 'n']

/-- The metadata commands, with `unknown` among them. -/
def Category.text : Category → List Char
  | known command => metadataCommand command
  | unknown => unknownText

def categories : List Category := commands.map .known ++ [.unknown]

/-- `parse-metadata`, of which `metrics-for-dir` takes the command. -/
def parseMetadata (text : List Char) : Option Category := do
  let groups ← fullMatch (metadataRxOf (categories.map Category.text)) text
  let _ ← parseLong groups.received
  let _ ← parseOffset groups.offset
  let _ ← parseLong groups.version
  categories.find? fun category => category.text = groups.command

/-- The characters that `.` does not match. -/
def lineTerminator (c : Char) : Bool :=
  c = '\n' || c = '\r' || c = '\u0085' || c = '\u2028' || c = '\u2029'

/-- `([0-9]+)-(.*)` -/
def idMetaSplitRx : Matcher (List Char) :=
  andThen (many Char.isDigit) fun _ =>
  andThen (literal ['-']) fun _ =>
  andThen (optional (many fun c => !lineTerminator c)) fun qmeta => done (qmeta.getD [])

/-- `parse-cmd-filename` -/
def parseCmdFilename (filename : List Char) : Option Category :=
  (fullMatch idMetaSplitRx filename).bind parseMetadata

/-- `dlo-filename` -/
def dloFilename (id : Nat) (metadata ending : List Char) : Option (List Char) := do
  let idText := Nat.toDigits 10 id
  let kept ← utf8Truncate metadata (255 - idText.length - 1 - utf8Length ending)
  some (idText ++ '-' :: (kept ++ ending))

/-- `strip-metadata-suffix` -/
def stripMetadataSuffix (metadata : List Char) : List Char :=
  if json.isSuffixOf metadata then metadata.take (metadata.length - json.length) else metadata

def entryCmdDataFilename (id : Nat) (metadata : List Char) : Option (List Char) :=
  dloFilename id metadata []

def errSuffix : List Char := ['_', 'e', 'r', 'r', '.', 't', 'x', 't']

def entryCmdErrFilename (id : Nat) (metadata : List Char) : Option (List Char) :=
  dloFilename id (stripMetadataSuffix metadata) errSuffix

def tmperr : List Char := ['t', 'm', 'p', 'e', 'r', 'r', '-']

/-- The name of a temporary file, which ends with a random number. -/
def tempFilename (id : Nat) (command random : List Char) : List Char :=
  tmperr ++ (Nat.toDigits 10 id ++ '-' :: (command ++ random))

/-! ## Metrics -/

structure Counters where
  messages : Nat
  filesize : Nat
  deriving DecidableEq, Repr

def Counters.inc (c : Counters) (size : Nat) : Counters := ⟨c.messages + 1, c.filesize + size⟩

structure Metrics where
  global : Counters
  command : Category → Option Counters

namespace Metrics

/-- The metrics of an empty directory. -/
def empty : Metrics := ⟨⟨0, 0⟩, fun _ => none⟩

/-- `update-metrics`, after `ensure-cmd-metrics`. -/
def update (m : Metrics) (command : Category) (size : Nat) : Metrics where
  global := m.global.inc size
  command := Function.update m.command command
    (some (((m.command command).getD ⟨0, 0⟩).inc size))

end Metrics

/-! ## Directories -/

/-- A name and a size. -/
abbrev File := List Char × Nat

/-- A file is written in the place of one with its name. -/
def put (dir : List File) (file : File) : List File :=
  dir.filter (fun f => f.1 ≠ file.1) ++ [file]

/-- The metrics with a file counted, where its name is that of a command. -/
def countFile (m : Metrics) (file : File) : Metrics :=
  match parseCmdFilename file.1 with
  | some command => m.update command file.2
  | none => m

/-- `metrics-for-dir` -/
def metricsForDir (dir : List File) : Metrics := dir.foldl countFile .empty

/-- The directory and the metrics. -/
structure Dlo where
  dir : List File
  metrics : Metrics

/-- `initialize`, where there is no directory. -/
def Dlo.start : Dlo := ⟨[], metricsForDir []⟩

/-! ## Discarding -/

/-- What a summary of errors takes: a random number for its temporary file, the bytes that were
written before it failed, or those of all of it. -/
structure Summary where
  random : List Char
  size : Nat
  written : Bool

/-- `store-failed-command-info`, which leaves the temporary file where it fails. -/
def storeFailedCommandInfo (dir : List File) (id : Nat) (metadata command : List Char)
    (summary : Summary) : Option (List File) := do
  let tmp := tempFilename id command summary.random
  let dest ← entryCmdErrFilename id metadata
  some (if summary.written then
      put (dir.filter fun f => f.1 ≠ tmp) (dest, summary.size)
    else put dir (tmp, summary.size))

/-- Both kinds of call from where the file of the command has a name. -/
def Dlo.discard (d : Dlo) (id : Nat) (metadata name : List Char) (category : Category)
    (tmpCommand : List Char) (size : Nat) (summary : Summary) : Option Dlo := do
  let dir ← storeFailedCommandInfo (put d.dir (name, size)) id metadata tmpCommand summary
  some ⟨dir, if summary.written then d.metrics.update category size else d.metrics⟩

/-- A command that was stored in the queue: what is parsed of its metadata. -/
structure Cmdref (sha1 : List Char → List Char) where
  id : Nat
  entry : Metadata
  long : id < 2 ^ 63
  queued : ∃ received m text certid, Serializable received m ∧ Codec sha1 received m text certid ∧
    entry = parsed received m certid

/-- Bytes that are no command, with the hash of them. -/
structure Unknown where
  id : Nat
  received : Instant
  digest : List Char
  long : id < 2 ^ 63
  time : 0 ≤ Instant.toLong received ∧ IsLong (Instant.toLong received)
  hex : digest.length = 40 ∧ ∀ c ∈ digest, isHex c = true

/-- `cert->meta` of an unknown command. -/
def Unknown.metadata (u : Unknown) : List Char :=
  commandTimeText u.received none ++ '_' :: (unknownText ++ '_' ::
    (Nat.toDigits 10 0 ++ '_' :: (u.digest ++ (json ++ extension .identity))))

/-- The name of a command as a text. -/
def commandName : CommandType → List Char
  | .replaceCatalog => "replace catalog".toList
  | .replaceCatalogInputs => "replace catalog inputs".toList
  | .replaceFacts => "replace facts".toList
  | .deactivateNode => "deactivate node".toList
  | .storeReport => "store report".toList
  | .configureExpiration => "configure expiration".toList

/-- A call, with the size of the command and the summary of its errors. -/
inductive Call (sha1 : List Char → List Char) where
  | cmdref (c : Cmdref sha1) (size : Nat) (summary : Summary)
  | bytes (u : Unknown) (size : Nat) (summary : Summary)

section Calls

variable {sha1 : List Char → List Char}

/-- The metadata of the entry. -/
def Cmdref.metadata (c : Cmdref sha1) : Option (List Char) :=
  serializeMetadata sha1 c.entry.received c.entry.toMeta true

namespace Call

/-- The name of the file of the command. -/
def filename : Call sha1 → Option (List Char)
  | cmdref c _ _ => c.metadata.bind (entryCmdDataFilename c.id)
  | bytes u _ _ => some (Nat.toDigits 10 u.id ++ '-' :: u.metadata)

def summary : Call sha1 → Summary
  | cmdref _ _ summary => summary
  | bytes _ _ summary => summary

/-- `discard-cmdref` and `discard-bytes` -/
def apply (d : Dlo) : Call sha1 → Option Dlo
  | cmdref c size summary => do
    let metadata ← c.metadata
    let name ← entryCmdDataFilename c.id metadata
    d.discard c.id metadata name (.known c.entry.command) (commandName c.entry.command) size summary
  | bytes u size summary =>
    d.discard u.id u.metadata (Nat.toDigits 10 u.id ++ '-' :: u.metadata) .unknown unknownText size
      summary

end Call

/-- The calls in a row. One whose summary fails throws, after what it has written. -/
def Dlo.run (d : Dlo) : List (Call sha1) → Option Dlo
  | [] => some d
  | call :: calls => (call.apply d).bind fun d => d.run calls

end Calls

/-! ## Names that are read back -/

theorem separator_not_category : ∀ text ∈ categories.map Category.text, '_' ∉ text := by
  decide

theorem find_category (category : Category) :
    categories.find? (fun c => c.text = category.text) = some category := by
  cases category with
  | known command => cases command <;> rfl
  | unknown => rfl

theorem mem_categories (category : Category) : category ∈ categories := by
  cases category with
  | known command => cases command <;> decide
  | unknown => decide

theorem mem_idMetaSplitRx (qmeta cs : List Char) :
    (qmeta, []) ∈ idMetaSplitRx cs ↔ ∃ digits, digits ≠ [] ∧ (∀ c ∈ digits, c.isDigit = true) ∧
      cs = digits ++ '-' :: qmeta ∧ ∀ c ∈ qmeta, lineTerminator c = false := by
  simp only [idMetaSplitRx, mem_andThen, mem_many, mem_literal, mem_optional, mem_done]
  constructor
  · rintro ⟨digits, _, ⟨hne, hdigits, rfl⟩, -, _, rfl, chars, rest, hchars, rfl, rfl⟩
    refine ⟨digits, hne, hdigits, ?_⟩
    obtain ⟨text, rfl, htext, hall, rfl⟩ | ⟨rfl, rfl⟩ := hchars
    · refine ⟨by simp, ?_⟩
      intro c hc
      simpa using hall c hc
    · simp
  · rintro ⟨digits, hne, hdigits, rfl, hchars⟩
    refine ⟨digits, '-' :: qmeta, ⟨hne, hdigits, rfl⟩, (), qmeta, rfl, ?_⟩
    cases qmeta with
    | nil => exact ⟨none, [], Or.inr ⟨rfl, rfl⟩, rfl, rfl⟩
    | cons c qmeta =>
      refine ⟨some (c :: qmeta), [], Or.inl ⟨_, rfl, List.cons_ne_nil _ _, ?_, by simp⟩, rfl, rfl⟩
      intro d hd
      simp [hchars d hd]

theorem dash_not_digit {cs : List Char} (h : ∀ c ∈ cs, c.isDigit = true) : '-' ∉ cs := by
  intro hmem
  exact absurd (h '-' hmem) (by decide)

/-- A name of digits, a dash and metadata without line terminators is split there. -/
theorem fullMatch_idMetaSplitRx (digits qmeta : List Char) (hne : digits ≠ [])
    (hdigits : ∀ c ∈ digits, c.isDigit = true) (hchars : ∀ c ∈ qmeta, lineTerminator c = false) :
    fullMatch idMetaSplitRx (digits ++ '-' :: qmeta) = some qmeta := by
  apply fullMatch_of_unique
  · exact (mem_idMetaSplitRx _ _).mpr ⟨digits, hne, hdigits, rfl, hchars⟩
  · intro qmeta' hmem
    obtain ⟨digits', -, hdigits', heq, -⟩ := (mem_idMetaSplitRx _ _).mp hmem
    exact (Framing.append_terminator_inj '-' _ _ _ _ (dash_not_digit hdigits)
      (dash_not_digit hdigits') heq).2.symm

theorem fullMatch_mem {α : Type} (m : Matcher α) (cs : List Char) (a : α)
    (h : fullMatch m cs = some a) : (a, []) ∈ m cs := by
  obtain ⟨⟨b, rest⟩, hfind, rfl⟩ := Option.map_eq_some_iff.mp h
  have hempty := List.find?_some hfind
  rw [List.isEmpty_iff] at hempty
  have hmem := List.mem_of_find?_eq_some hfind
  rw [show rest = [] from hempty] at hmem
  exact hmem

/-- A name that is that of a command begins with a digit and ends like metadata. -/
theorem parseCmdFilename_eq_some (name : List Char) (category : Category)
    (h : parseCmdFilename name = some category) : ∃ digits g, name = digits ++ '-' :: Groups.text g ∧
      digits ≠ [] ∧ (∀ c ∈ digits, c.isDigit = true) ∧ g.withFacts.WellFormed := by
  obtain ⟨qmeta, hsplit, hparse⟩ := Option.bind_eq_some_iff.mp h
  obtain ⟨g, hmatch, -⟩ := Option.bind_eq_some_iff.mp hparse
  obtain ⟨digits, hne, hdigits, rfl, -⟩ := (mem_idMetaSplitRx _ _).mp (fullMatch_mem _ _ _ hsplit)
  obtain ⟨-, hwf, rfl⟩ := (mem_metadataRxOf _ _ _).mp (fullMatch_mem _ _ _ hmatch)
  exact ⟨digits, g, rfl, hne, hdigits, hwf⟩

/-- The last letter of metadata. -/
theorem getLast_text (g : Groups) (h : g.withFacts.WellFormed) :
    g.text.getLast? = some 'n' ∨ g.text.getLast? = some 'z' := by
  have htext : ∃ start, g.text = start ++ ending g.compression := by
    refine ⟨(g.received ++ g.offset.getD []) ++ '_' :: (g.command ++ '_' :: (g.version ++ '_' ::
      (g.certname ++ g.hash.getD []))), ?_⟩
    simp [Groups.text, ending]
  obtain ⟨start, hstart⟩ := htext
  cases hcompression : g.compression with
  | none =>
    left
    rw [hstart, hcompression]
    simp [ending, json]
  | some compression =>
    right
    rw [hstart, hcompression, h.compression compression hcompression]
    simp [ending, json]

theorem parseCmdFilename_err (id : Nat) (metadata name : List Char)
    (h : entryCmdErrFilename id metadata = some name) : parseCmdFilename name = none := by
  obtain ⟨kept, -, hname⟩ := Option.bind_eq_some_iff.mp h
  cases hparse : parseCmdFilename name with
  | none => rfl
  | some category =>
    obtain ⟨digits, g, heq, -, -, hwf⟩ := parseCmdFilename_eq_some name category hparse
    have hne : g.text ≠ [] := by
      intro hnil
      have hlast := getLast_text g hwf
      rw [hnil] at hlast
      simp at hlast
    have hlast : name.getLast? = g.text.getLast? := by
      rw [heq, List.getLast?_append_of_ne_nil _ (List.cons_ne_nil _ _)]
      exact List.getLast?_cons_of_ne_nil hne
    have herr : name.getLast? = some 't' := by
      have hsplit : Nat.toDigits 10 id ++ '-' :: (kept ++ errSuffix) =
          (Nat.toDigits 10 id ++ '-' :: kept) ++ errSuffix := by simp
      rw [← Option.some.inj hname, hsplit, List.getLast?_append_of_ne_nil _ (by decide)]
      rfl
    rw [herr] at hlast
    obtain hn | hz := getLast_text g hwf
    · rw [hn] at hlast
      cases hlast
    · rw [hz] at hlast
      cases hlast

theorem parseCmdFilename_temp (id : Nat) (command random : List Char) :
    parseCmdFilename (tempFilename id command random) = none := by
  cases hparse : parseCmdFilename (tempFilename id command random) with
  | none => rfl
  | some category =>
    obtain ⟨digits, g, heq, hne, hdigits, -⟩ := parseCmdFilename_eq_some _ category hparse
    cases digits with
    | nil => exact absurd rfl hne
    | cons c digits =>
      have hfirst := (List.cons.inj heq).1
      have hdigit := hdigits c List.mem_cons_self
      rw [← hfirst] at hdigit
      cases hdigit

/-! ## The files of commands -/

theorem length_idText (id : Nat) (hid : id < 2 ^ 63) : (Nat.toDigits 10 id).length ≤ 19 :=
  (Nat.length_toDigits_le_iff (by decide) (by decide)).mpr (by omega)

/-- Metadata of the queue's length is not truncated. -/
theorem entryCmdDataFilename_eq (id : Nat) (metadata : List Char) (hid : id < 2 ^ 63)
    (h : utf8Length metadata ≤ 235) :
    entryCmdDataFilename id metadata = some (Nat.toDigits 10 id ++ '-' :: metadata) := by
  have hlength := length_idText id hid
  have hnil : utf8Length [] = 0 := rfl
  have hkept := Utf8Truncation.takeBytes_eq
    ((255 - ((Nat.toDigits 10 id).length : Int) - 1 - ((utf8Length [] : Nat) : Int)).toNat)
    metadata (by rw [hnil]; omega)
  rw [entryCmdDataFilename, dloFilename, utf8Truncate, if_pos (by rw [hnil]; omega), hkept]
  simp

/-- What is parsed of a name with well-formed metadata. -/
theorem parseCmdFilename_text (id : Nat) (g : Groups) (category : Category)
    (hcommand : g.command = category.text) (hwf : g.withFacts.WellFormed)
    (hreceived : (parseLong g.received).isSome = true)
    (hoffset : (parseOffset g.offset).isSome = true)
    (hversion : (parseLong g.version).isSome = true)
    (hchars : ∀ c ∈ g.text, lineTerminator c = false) :
    parseCmdFilename (Nat.toDigits 10 id ++ '-' :: g.text) = some category := by
  have hmem : g.command ∈ categories.map Category.text := by
    rw [hcommand]
    exact List.mem_map_of_mem (mem_categories category)
  obtain ⟨received, hreceived⟩ := Option.isSome_iff_exists.mp hreceived
  obtain ⟨offset, hoffset⟩ := Option.isSome_iff_exists.mp hoffset
  obtain ⟨version, hversion⟩ := Option.isSome_iff_exists.mp hversion
  rw [parseCmdFilename, fullMatch_idMetaSplitRx _ _ Nat.toDigits_ne_nil (isDigit_toDigits id) hchars,
    Option.bind_some, parseMetadata,
    fullMatch_metadataRxOf _ g hmem separator_not_category hwf]
  simp only [Option.bind_eq_bind, Option.bind_some, hreceived, hoffset, hversion, hcommand]
  exact find_category category

/-- A printable character of ASCII. -/
theorem lineTerminator_plain (c : Char) (h : (Nat.ble 32 c.toNat && Nat.ble c.toNat 126) = true) :
    lineTerminator c = false := by
  by_contra hc
  simp only [lineTerminator, Bool.not_eq_false, Bool.or_eq_true, decide_eq_true_eq] at hc
  obtain (((rfl | rfl) | rfl) | rfl) | rfl := hc <;> exact absurd h (by decide)

theorem lineTerminator_hex (c : Char) (h : isHex c = true) : lineTerminator c = false := by
  by_contra hc
  simp only [lineTerminator, Bool.not_eq_false, Bool.or_eq_true, decide_eq_true_eq] at hc
  obtain (((rfl | rfl) | rfl) | rfl) | rfl := hc <;> exact absurd h (by decide)

theorem lineTerminator_digit (c : Char) (h : c.isDigit = true) : lineTerminator c = false :=
  lineTerminator_hex c (by simp [isHex, h])

/-- Only the certname of metadata can have a line terminator. -/
theorem lineTerminator_text (g : Groups) (category : Category) (hcommand : g.command = category.text)
    (hwf : g.withFacts.WellFormed) (hcertname : ∀ c ∈ g.certname, lineTerminator c = false) (c : Char)
    (hc : c ∈ g.text) : lineTerminator c = false := by
  have hoffset : ∀ c ∈ g.offset.getD [], lineTerminator c = false := by
    intro c hc
    cases hoffset : g.offset with
    | none => simp [hoffset] at hc
    | some offset =>
      obtain ⟨sign, digits, rfl, hsign, -, hdigits⟩ := hwf.offset offset hoffset
      rw [hoffset] at hc
      obtain rfl | hc := List.mem_cons.mp hc
      · obtain rfl | rfl | rfl := hsign <;> exact lineTerminator_plain _ (by decide)
      · exact lineTerminator_digit c (hdigits c hc)
  have hhash : ∀ c ∈ g.hash.getD [], lineTerminator c = false := by
    intro c hc
    cases hhash : g.hash with
    | none => simp [hhash] at hc
    | some hash =>
      obtain ⟨digits, rfl, -, hdigits⟩ := hwf.hash hash hhash
      rw [hhash] at hc
      obtain rfl | hc := List.mem_cons.mp hc
      · exact lineTerminator_plain _ (by decide)
      · exact lineTerminator_hex c (hdigits c hc)
  have hending : ∀ c ∈ ending g.compression, lineTerminator c = false := by
    cases hcompression : g.compression with
    | none => simp [ending, json, lineTerminator]
    | some compression =>
      rw [hwf.compression compression hcompression]
      simp [ending, json, lineTerminator]
  have hcategory : ∀ c ∈ category.text, lineTerminator c = false := by
    cases category with
    | known command => cases command <;> simp [Category.text, metadataCommand, lineTerminator]
    | unknown => simp [Category.text, unknownText, lineTerminator]
  have hseparator : lineTerminator '_' = false := lineTerminator_plain '_' (by decide)
  have htext : g.text = (g.received ++ g.offset.getD []) ++ '_' :: (g.command ++ '_' ::
      (g.version ++ '_' :: (g.certname ++ (g.hash.getD [] ++ ending g.compression)))) := rfl
  rw [htext, hcommand] at hc
  simp only [List.mem_append, List.mem_cons] at hc
  obtain (hc | hc) | rfl | hc | rfl | hc | rfl | hc | hc | hc := hc
  · exact lineTerminator_digit c (hwf.received.2 c hc)
  · exact hoffset c hc
  · exact hseparator
  · exact hcategory c hc
  · exact hseparator
  · exact lineTerminator_digit c (hwf.version.2 c hc)
  · exact hseparator
  · exact hcertname c hc
  · exact hhash c hc
  · exact hending c hc

section Calls

variable {sha1 : List Char → List Char}

/-- A command of the queue has the metadata that it was stored with. -/
theorem Cmdref.metadata_eq (c : Cmdref sha1) (received : Instant) (m : CommandMeta)
    (text certid : List Char) (hcodec : Codec sha1 received m text certid)
    (hentry : c.entry = parsed received m certid) :
    c.metadata = some text ∧ text = certToMeta received m certid := by
  have hmetadata : c.metadata = some text := by
    apply hcodec.reserialized c.entry
    rw [hentry]
    exact hcodec.entry
  refine ⟨hmetadata, ?_⟩
  rw [Cmdref.metadata, hentry] at hmetadata
  have htext := certToMeta_parsed received m certid
  have hwritten : some (certToMeta (parsed received m certid).received
      (parsed received m certid).toMeta certid) = some text := hmetadata
  rw [← Option.some.inj hwritten, htext]

variable (hhex : ∀ certname, (sha1 certname).length = 40 ∧ ∀ c ∈ sha1 certname, isHex c = true)
include hhex

/-- The name of the file of a command is read back as the command where `.` matches the certid. -/
theorem Cmdref.filename (c : Cmdref sha1) : ∃ metadata, c.metadata = some metadata ∧
    entryCmdDataFilename c.id metadata = some (Nat.toDigits 10 c.id ++ '-' :: metadata) ∧
    (parseCmdFilename (Nat.toDigits 10 c.id ++ '-' :: metadata) =
      some (.known c.entry.command) ↔ ∀ x ∈ c.entry.certname, lineTerminator x = false) := by
  obtain ⟨received, m, text, certid, hserializable, hcodec, hentry⟩ := c.queued
  obtain ⟨hmetadata, htext⟩ := c.metadata_eq received m text certid hcodec hentry
  refine ⟨text, hmetadata, entryCmdDataFilename_eq c.id text c.long hcodec.length, ?_⟩
  have hcertname : c.entry.certname = certid := by
    rw [hentry]
    rfl
  rw [hcertname]
  constructor
  · intro hparse x hx
    obtain ⟨qmeta, hsplit, -⟩ := Option.bind_eq_some_iff.mp hparse
    obtain ⟨digits, -, hdigits, heq, hchars⟩ :=
      (mem_idMetaSplitRx _ _).mp (fullMatch_mem _ _ _ hsplit)
    obtain ⟨-, hqmeta⟩ := Framing.append_terminator_inj '-' _ _ _ _
      (dash_not_digit (isDigit_toDigits c.id)) (dash_not_digit hdigits) heq
    apply hchars
    rw [← hqmeta, htext, certToMeta]
    simp [hx]
  · intro hchars
    obtain ⟨start, hash, hsplit, hgroups, hwf⟩ :=
      certToMeta_groups sha1 hhex received m _ certid hserializable hcodec.shape
    rw [hgroups] at htext
    have hknown : metadataCommand .replaceFacts ∈ commands.map metadataCommand := by decide
    have hfacts : (groups received m start hash).withFacts.WellFormed :=
      ⟨hwf.received, hwf.offset, hknown, hwf.version, hwf.certname, hwf.hash, hwf.compression⟩
    have hparsed := hcodec.entry
    rw [htext, QueueMetadata.parseMetadata, fullMatch_text _ hwf] at hparsed
    simp only [Option.bind_eq_bind, Option.bind_some] at hparsed
    obtain ⟨longReceived, hreceived, hparsed⟩ := Option.bind_eq_some_iff.mp hparsed
    obtain ⟨longOffset, hoffset, hparsed⟩ := Option.bind_eq_some_iff.mp hparsed
    obtain ⟨longVersion, hversion, -⟩ := Option.bind_eq_some_iff.mp hparsed
    have hcommand : (groups received m start hash).command =
        (Category.known c.entry.command).text := by
      rw [hentry]
      rfl
    rw [htext]
    apply parseCmdFilename_text c.id _ _ hcommand hfacts
    · rw [hreceived]
      rfl
    · rw [hoffset]
      rfl
    · rw [hversion]
      rfl
    · apply lineTerminator_text _ _ hcommand hfacts
      intro x hx
      exact hchars x (hsplit ▸ List.mem_append_left _ hx)

end Calls

/-- The name of the file of bytes that are no command. -/
theorem Unknown.filename (u : Unknown) :
    parseCmdFilename (Nat.toDigits 10 u.id ++ '-' :: u.metadata) = some .unknown := by
  let g : Groups := ⟨Nat.toDigits 10 (Instant.toLong u.received).natAbs, none, unknownText,
    Nat.toDigits 10 0, u.digest, none, none⟩
  have hepoch : ¬ Instant.toLong u.received < 0 := by
    have htime := u.time.1
    omega
  have hdigest : u.digest ≠ [] ∧ '_' ∉ u.digest := by
    constructor
    · intro hnil
      have hlength := u.hex.1
      rw [hnil] at hlength
      cases hlength
    · intro hmem
      exact absurd (u.hex.2 '_' hmem) (by decide)
  have htext : u.metadata = g.text := by
    simp [metadata, commandTimeText, encodeCommandTime, intText, hepoch, Groups.text, g, extension]
  have hknown : metadataCommand .replaceFacts ∈ commands.map metadataCommand := by decide
  have hversion : Nat.toDigits 10 0 ≠ [] ∧ ∀ c ∈ Nat.toDigits 10 0, c.isDigit = true :=
    ⟨Nat.toDigits_ne_nil, isDigit_toDigits 0⟩
  have hwf : g.withFacts.WellFormed := by
    constructor
    · exact ⟨Nat.toDigits_ne_nil, isDigit_toDigits _⟩
    · intro x hx
      cases hx
    · exact hknown
    · exact hversion
    · exact hdigest
    · intro x hx
      cases hx
    · intro x hx
      cases hx
  have hvalue : ((Instant.toLong u.received).natAbs : Int) = Instant.toLong u.received := by omega
  rw [htext]
  apply parseCmdFilename_text u.id g .unknown rfl hwf
  · have hlong := u.time.2
    rw [← hvalue] at hlong
    rw [parseLong_toDigits _ hlong]
    rfl
  · rfl
  · rfl
  · apply lineTerminator_text g .unknown rfl hwf
    intro c hc
    exact lineTerminator_hex c (u.hex.2 c hc)

/-! ## Counting a directory -/

theorem Counters.inc_comm (c : Counters) (x y : Nat) : (c.inc x).inc y = (c.inc y).inc x := by
  have hfilesize : c.filesize + x + y = c.filesize + y + x := by omega
  simp only [inc, hfilesize]

theorem Metrics.update_comm (m : Metrics) (a b : Category) (x y : Nat) :
    (m.update a x).update b y = (m.update b y).update a x := by
  have hglobal : ((m.update a x).update b y).global = ((m.update b y).update a x).global :=
    m.global.inc_comm x y
  have hcommand : ((m.update a x).update b y).command = ((m.update b y).update a x).command := by
    funext c
    by_cases hab : a = b
    · subst hab
      by_cases hc : c = a
      · simp [update, hc, Counters.inc_comm _ x y]
      · simp [update, hc]
    · by_cases hca : c = a
      · simp [update, hca, hab]
      · by_cases hcb : c = b
        · simp [update, hcb, Ne.symm hab]
        · simp [update, hca, hcb]
  calc (m.update a x).update b y
      = ⟨((m.update a x).update b y).global, ((m.update a x).update b y).command⟩ := rfl
    _ = ⟨((m.update b y).update a x).global, ((m.update b y).update a x).command⟩ := by
        rw [hglobal, hcommand]

theorem countFile_comm (m : Metrics) (f g : File) :
    countFile (countFile m f) g = countFile (countFile m g) f := by
  cases hf : parseCmdFilename f.1 with
  | none => simp [countFile, hf]
  | some a =>
    cases hg : parseCmdFilename g.1 with
    | none => simp [countFile, hf, hg]
    | some b => simpa [countFile, hf, hg] using m.update_comm a b f.2 g.2

/-- The files are counted in any order. -/
theorem metricsForDir_perm (dir listing : List File) (h : listing.Perm dir) :
    metricsForDir listing = metricsForDir dir :=
  h.foldl_eq' (fun f _ g _ m => countFile_comm m f g) _

theorem metricsForDir_append (dir : List File) (file : File) :
    metricsForDir (dir ++ [file]) = countFile (metricsForDir dir) file := by
  rw [metricsForDir, List.foldl_append]
  rfl

theorem countFile_none (m : Metrics) (file : File) (h : parseCmdFilename file.1 = none) :
    countFile m file = m := by
  simp [countFile, h]

theorem countFile_some (m : Metrics) (file : File) (category : Category)
    (h : parseCmdFilename file.1 = some category) : countFile m file = m.update category file.2 := by
  simp [countFile, h]

theorem foldl_countFile_filter (name : List Char) (h : parseCmdFilename name = none)
    (dir : List File) (m : Metrics) :
    (dir.filter fun f => f.1 ≠ name).foldl countFile m = dir.foldl countFile m := by
  induction dir generalizing m with
  | nil => rfl
  | cons file dir ih =>
    by_cases hname : file.1 = name
    · have hskip := countFile_none m file (by rw [hname, h])
      simpa [hname, hskip] using ih m
    · simpa [hname] using ih (countFile m file)

/-- A file that is no command's is not counted, whatever it replaces. -/
theorem metricsForDir_put_none (dir : List File) (file : File)
    (h : parseCmdFilename file.1 = none) : metricsForDir (put dir file) = metricsForDir dir := by
  rw [put, metricsForDir_append, countFile_none _ file h]
  exact foldl_countFile_filter file.1 h dir .empty

/-- A command's file is counted where there was none of its name. -/
theorem metricsForDir_put_some (dir : List File) (file : File) (category : Category)
    (h : parseCmdFilename file.1 = some category) (hfresh : ∀ f ∈ dir, f.1 ≠ file.1) :
    metricsForDir (put dir file) = (metricsForDir dir).update category file.2 := by
  have hkept : dir.filter (fun f => f.1 ≠ file.1) = dir := by
    apply List.filter_eq_self.mpr
    intro f hf
    simpa using hfresh f hf
  rw [put, hkept, metricsForDir_append, countFile_some _ file category h]

/-! ## Runs -/

theorem metricsForDir_stored (dir stored : List File) (id : Nat) (metadata command : List Char)
    (summary : Summary)
    (h : storeFailedCommandInfo dir id metadata command summary = some stored) :
    metricsForDir stored = metricsForDir dir := by
  obtain ⟨dest, hdest, hstored⟩ := Option.bind_eq_some_iff.mp h
  have herr := parseCmdFilename_err id metadata dest hdest
  have htemp := parseCmdFilename_temp id command summary.random
  rw [← Option.some.inj hstored]
  split
  · rw [metricsForDir_put_none _ (dest, summary.size) herr]
    exact foldl_countFile_filter _ htemp dir .empty
  · exact metricsForDir_put_none dir (_, summary.size) htemp

theorem entryCmdErrFilename_isSome (id : Nat) (metadata : List Char) (hid : id < 2 ^ 63) :
    ∃ name, entryCmdErrFilename id metadata = some name := by
  have hlength := length_idText id hid
  have hsuffix : utf8Length errSuffix = 8 := by decide
  rw [entryCmdErrFilename, dloFilename, utf8Truncate, hsuffix, if_pos (by omega)]
  exact ⟨_, rfl⟩

/-- A discarded command is counted as it is recounted. -/
theorem Dlo.discard_counted (d : Dlo) (id : Nat) (metadata name : List Char) (category : Category)
    (tmpCommand : List Char) (size : Nat) (summary : Summary) (hid : id < 2 ^ 63)
    (hd : metricsForDir d.dir = d.metrics) (hname : parseCmdFilename name = some category)
    (hfresh : ∀ f ∈ d.dir, f.1 ≠ name) (hwritten : summary.written = true) :
    ∃ d', d.discard id metadata name category tmpCommand size summary = some d' ∧
      metricsForDir d'.dir = d'.metrics := by
  obtain ⟨dest, hdest⟩ := entryCmdErrFilename_isSome id metadata hid
  obtain ⟨stored, hstored⟩ : ∃ stored, storeFailedCommandInfo (put d.dir (name, size)) id metadata
      tmpCommand summary = some stored := by
    rw [storeFailedCommandInfo, hdest]
    exact ⟨_, rfl⟩
  refine ⟨⟨stored, d.metrics.update category size⟩, ?_, ?_⟩
  · rw [discard, hstored]
    simp [hwritten]
  · show metricsForDir stored = d.metrics.update category size
    rw [metricsForDir_stored _ stored id metadata tmpCommand summary hstored,
      metricsForDir_put_some d.dir (name, size) category hname hfresh, hd]

section Runs

variable {sha1 : List Char → List Char}

namespace Call

/-- The certname of the metadata. -/
def certid : Call sha1 → List Char
  | cmdref c _ _ => c.entry.certname
  | bytes u _ _ => u.digest

def category : Call sha1 → Category
  | cmdref c _ _ => .known c.entry.command
  | bytes _ _ _ => .unknown

/-- `.` matches the certid, there is no file of the name yet, and the summary is written. -/
structure Counted (d : Dlo) (call : Call sha1) : Prop where
  certid : ∀ c ∈ call.certid, lineTerminator c = false
  fresh : ∀ f ∈ d.dir, call.filename ≠ some f.1
  written : call.summary.written = true

end Call

/-- Every call of the run is counted. -/
def Dlo.Counts (d : Dlo) : List (Call sha1) → Prop
  | [] => True
  | call :: calls => call.Counted d ∧ ∀ d', call.apply d = some d' → d'.Counts calls

variable (hhex : ∀ certname, (sha1 certname).length = 40 ∧ ∀ c ∈ sha1 certname, isHex c = true)
include hhex

/-- The file of a call is read back as its command where `.` matches its certid. -/
theorem Call.parse_filename (call : Call sha1) : ∃ name, call.filename = some name ∧
    (parseCmdFilename name = some call.category ↔ ∀ c ∈ call.certid, lineTerminator c = false) := by
  cases call with
  | cmdref c size summary =>
    obtain ⟨metadata, hmetadata, hname, hparse⟩ := c.filename hhex
    refine ⟨_, ?_, hparse⟩
    rw [Call.filename, hmetadata]
    exact hname
  | bytes u size summary =>
    refine ⟨_, rfl, ?_⟩
    constructor
    · intro _ c hc
      exact lineTerminator_hex c (u.hex.2 c hc)
    · intro _
      exact u.filename

theorem Call.apply_counted (d : Dlo) (call : Call sha1) (hd : metricsForDir d.dir = d.metrics)
    (h : call.Counted d) : ∃ d', call.apply d = some d' ∧ metricsForDir d'.dir = d'.metrics := by
  obtain ⟨name, hname, hparse⟩ := call.parse_filename hhex
  have hcategory := hparse.mpr h.certid
  have hfresh : ∀ f ∈ d.dir, f.1 ≠ name := by
    intro f hf heq
    apply h.fresh f hf
    rw [hname, heq]
  cases call with
  | cmdref c size summary =>
    obtain ⟨metadata, hmetadata, hdata⟩ : ∃ metadata, c.metadata = some metadata ∧
        entryCmdDataFilename c.id metadata = some name := Option.bind_eq_some_iff.mp hname
    have hdiscard := d.discard_counted c.id metadata name _ (commandName c.entry.command) size summary
      c.long hd hcategory hfresh h.written
    have happly : Call.apply d (.cmdref c size summary) = d.discard c.id metadata name
        (.known c.entry.command) (commandName c.entry.command) size summary := by
      simp only [Call.apply, hmetadata, hdata, Option.bind_eq_bind, Option.bind_some]
    rw [happly]
    exact hdiscard
  | bytes u size summary =>
    obtain rfl := Option.some.inj hname
    exact d.discard_counted u.id u.metadata _ _ unknownText size summary u.long hd hcategory hfresh
      h.written

theorem Dlo.run_counts (d : Dlo) (calls : List (Call sha1)) (hd : metricsForDir d.dir = d.metrics)
    (h : d.Counts calls) : ∃ d', d.run calls = some d' ∧ metricsForDir d'.dir = d'.metrics := by
  induction calls generalizing d with
  | nil => exact ⟨d, rfl, hd⟩
  | cons call calls ih =>
    obtain ⟨hcall, hcalls⟩ := h
    obtain ⟨d', happly, hd'⟩ := call.apply_counted hhex d hd hcall
    rw [run, happly]
    exact ih d' hd' (hcalls d' happly)

end Runs

/-- The metrics after a run are those of the next start, where the run's calls are counted. The name
of a command's file is read back as its command exactly where `.` matches the certid, and no other
name is read back. -/
theorem initialize_run (sha1 : List Char → List Char)
    (hhex : ∀ certname, (sha1 certname).length = 40 ∧ ∀ c ∈ sha1 certname, isHex c = true) :
    (∀ calls : List (Call sha1), Dlo.start.Counts calls → ∃ d, Dlo.start.run calls = some d ∧
      ∀ listing : List File, listing.Perm d.dir → metricsForDir listing = d.metrics) ∧
    (∀ call : Call sha1, ∃ name, call.filename = some name ∧
      (parseCmdFilename name = some call.category ↔
        ∀ c ∈ call.certid, lineTerminator c = false)) ∧
    (∀ id metadata name, entryCmdErrFilename id metadata = some name →
      parseCmdFilename name = none) ∧
    ∀ id command random, parseCmdFilename (tempFilename id command random) = none := by
  refine ⟨?_, Call.parse_filename hhex, parseCmdFilename_err, parseCmdFilename_temp⟩
  intro calls hcalls
  obtain ⟨d, hrun, hd⟩ := Dlo.start.run_counts hhex calls rfl hcalls
  refine ⟨d, hrun, ?_⟩
  intro listing hlisting
  rw [metricsForDir_perm d.dir listing hlisting, hd]

/-! ## Facts of two nodes -/

/-- Facts of a node, without a producer's time. -/
def factsOf (certname : List Char) : CommandMeta :=
  ⟨.replaceFacts, 5, some certname, none, .identity⟩

/-- The metadata of facts of a node whose certname is one character. -/
def factsText (c : Char) : List Char :=
  ['0', '_', 'f', 'a', 'c', 't', 's', '_', '5', '_', c, '.', 'j', 's', 'o', 'n']

theorem codec_factsOf (c : Char) (hc : c = 'a' ∨ c = '\n') :
    Codec fooBarSha1 0 (factsOf [c]) (factsText c) [c] := by
  have hparsed : QueueMetadata.parseMetadata (factsText c) = some (parsed 0 (factsOf [c]) [c]) := by
    obtain rfl | rfl := hc <;> decide +kernel
  constructor
  · obtain rfl | rfl := hc <;> decide +kernel
  · obtain rfl | rfl := hc <;> decide
  · apply Certid.plain
    · exact List.cons_ne_nil _ _
    · obtain rfl | rfl := hc <;> decide
  · exact hparsed
  · intro entry hentry
    rw [hparsed] at hentry
    rw [← Option.some.inj hentry]
    obtain rfl | rfl := hc <;> decide +kernel

theorem serializable_factsOf (c : Char) : Serializable 0 (factsOf [c]) := by
  constructor
  · decide
  · exact ⟨by decide, by decide⟩
  · intro ts hts
    cases hts
  · have hversion : IsLong ((5 : Nat) : Int) := ⟨by decide, by decide⟩
    exact hversion
  · intro heq
    cases heq

def factsRef (c : Char) (hc : c = 'a' ∨ c = '\n') : Cmdref fooBarSha1 where
  id := 0
  entry := parsed 0 (factsOf [c]) [c]
  long := by decide
  queued := ⟨0, factsOf [c], factsText c, [c], serializable_factsOf c, codec_factsOf c hc, rfl⟩

/-- A call with ten bytes and a summary of twenty. -/
def discardFacts (c : Char) (hc : c = 'a' ∨ c = '\n') : Call fooBarSha1 :=
  .cmdref (factsRef c hc) 10 ⟨['1'], 20, true⟩

theorem initialize_run_letter : ∃ d, Dlo.start.run [discardFacts 'a' (Or.inl rfl)] = some d ∧
    ∀ listing : List File, listing.Perm d.dir → metricsForDir listing = d.metrics := by
  have hhex (certname : List Char) : (fooBarSha1 certname).length = 40 ∧
      ∀ c ∈ fooBarSha1 certname, isHex c = true := by
    rw [fooBarSha1]
    split
    · exact ⟨rfl, List.all_eq_true.mp rfl⟩
    · exact ⟨rfl, List.all_eq_true.mp rfl⟩
  apply (initialize_run fooBarSha1 hhex).1
  constructor
  · constructor
    · intro c hc
      rw [List.mem_singleton.mp hc]
      rfl
    · intro f hf
      cases hf
    · rfl
  · intro d hd
    trivial

/-- Facts of a node whose certname is the end of a line are counted as they are discarded, and are
not counted at the next start. -/
theorem initialize_run_fails : ¬ ∀ (calls : List (Call fooBarSha1)) (d : Dlo),
    Dlo.start.run calls = some d → metricsForDir d.dir = d.metrics := by
  intro h
  have hrun : (Dlo.start.run [discardFacts '\n' (Or.inr rfl)]).map (fun d =>
      ((metricsForDir d.dir).global.messages, d.metrics.global.messages)) = some (0, 1) := by
    decide +kernel
  obtain ⟨d, hd, hcounts⟩ := Option.map_eq_some_iff.mp hrun
  obtain ⟨hdir, hmetrics⟩ := Prod.mk.inj hcounts
  rw [h _ d hd, hmetrics] at hdir
  cases hdir

end OpenVoxDB.DeadLetters
