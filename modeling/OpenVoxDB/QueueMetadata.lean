import Mathlib
import OpenVoxDB.CommandBuffer
import OpenVoxDB.Decimal
import OpenVoxDB.Matching

/-!
# The metadata of queue entries

The name of a queue file tells the times, the command, the version and the
certname of the command in it, in at most 235 bytes. A certname that is long or
has characters that a file name cannot have is replaced by a certid, which ends
with the hash of the certname. Texts are the lists of their characters.
-/

namespace OpenVoxDB.QueueMetadata

open CommandBuffer Matching

inductive Compression where
  | identity
  | gz
  deriving DecidableEq, Repr

/-- What `serialize-metadata` reads of a command. -/
structure CommandMeta where
  command : CommandType
  version : Nat
  certname : Option (List Char)
  producerTs : Option Instant
  compression : Compression

/-- What `parse-metadata` gives. -/
structure Metadata where
  received : Instant
  producerTs : Option Instant
  version : Nat
  command : CommandType
  certname : List Char
  compression : Compression
  deriving DecidableEq

/-- `puppetdb-command->metadata-command` -/
def metadataCommand : CommandType → List Char
  | .replaceCatalog => ['c', 'a', 't', 'a', 'l', 'o', 'g']
  | .replaceCatalogInputs => ['i', 'n', 'p', 'u', 't', 's']
  | .replaceFacts => ['f', 'a', 'c', 't', 's']
  | .deactivateNode => ['r', 'm', '-', 'n', 'o', 'd', 'e']
  | .storeReport => ['r', 'e', 'p', 'o', 'r', 't']
  | .configureExpiration => ['s', 'e', 't', '-', 'e', 'x', 'p', 'i', 'r', 'e']

def commands : List CommandType :=
  [.replaceCatalog, .replaceCatalogInputs, .replaceFacts, .deactivateNode, .storeReport,
    .configureExpiration]

/-- `metadata-command->puppetdb-command` -/
def puppetdbCommand (text : List Char) : Option CommandType :=
  commands.find? fun command => metadataCommand command = text

/-- The bytes of a text in UTF-8. -/
def utf8Length (text : List Char) : Nat := (text.map Char.utf8Size).sum

/-- The characters that fit into the buffer. -/
def takeBytes : Nat → List Char → List Char
  | _, [] => []
  | maxBytes, c :: cs =>
    if c.utf8Size ≤ maxBytes then c :: takeBytes (maxBytes - c.utf8Size) cs else []

/-- There is no buffer of a negative size. -/
def utf8Truncate (text : List Char) (maxBytes : Int) : Option (List Char) :=
  if 0 ≤ maxBytes then some (takeBytes maxBytes.toNat text) else none

/-- The separator, and what a file name cannot have. -/
def forbidden (c : Char) : Bool := c = '_' || c = '/' || c = '\x00' || c = '\\' || c = ':'

def sanitizeCertname (certname : List Char) : List Char :=
  certname.map fun c => if forbidden c then '-' else c

section Serialize

variable (sha1 : List Char → List Char)

def embeddableCertid (certname : List Char) (maxUtf8Bytes : Int) : Option (List Char) :=
  let sanitized := sanitizeCertname certname
  let u8Len : Int := utf8Length sanitized
  let truncated := do
    let start ← utf8Truncate sanitized (maxUtf8Bytes - 41)
    return start ++ '_' :: sha1 certname
  if sanitized = certname then
    if u8Len ≤ maxUtf8Bytes then some certname else truncated
  else
    if u8Len + 41 ≤ maxUtf8Bytes then some (sanitized ++ '_' :: sha1 certname) else truncated

/-- `(str n)` -/
def intText (n : Int) : List Char :=
  if n < 0 then '-' :: Nat.toDigits 10 n.natAbs else Nat.toDigits 10 n.natAbs

def offsetText (offset : Int) : List Char :=
  if offset < 0 then intText offset else '+' :: intText offset

/-- The received time, and the producer's distance to it. -/
def commandTimeText (received : Instant) (producerTs : Option Instant) : List Char :=
  let time := encodeCommandTime received producerTs
  intText time.1 ++ (time.2.map offsetText).getD []

def extension : Compression → List Char
  | .identity => []
  | .gz => ['.', 'g', 'z']

def json : List Char := ['.', 'j', 's', 'o', 'n']

/-- `cert->meta` -/
def certToMeta (received : Instant) (m : CommandMeta) (cert : List Char) : List Char :=
  commandTimeText received m.producerTs ++ '_' :: (metadataCommand m.command ++ '_' ::
    (Nat.toDigits 10 m.version ++ '_' :: (cert ++ (json ++ extension m.compression))))

def maxMetadataUtf8Bytes : Nat := 255 - 20

def unknownHost : List Char := ['u', 'n', 'k', 'n', 'o', 'w', 'n', '-', 'h', 'o', 's', 't']

/-- Every `CommandType` is known. -/
def serializeMetadata (received : Instant) (m : CommandMeta) (fsReady : Bool) :
    Option (List Char) :=
  let certname := m.certname.getD unknownHost
  if fsReady then some (certToMeta received m certname)
  else do
    let allButCert := utf8Length (certToMeta received m [])
    let certid ← embeddableCertid sha1 certname ((maxMetadataUtf8Bytes : Int) - allButCert)
    return certToMeta received m certid

end Serialize

/-! ## Parsing -/

/-- The groups of `metadata-rx`. -/
structure Groups where
  received : List Char
  offset : Option (List Char)
  command : List Char
  version : List Char
  certname : List Char
  hash : Option (List Char)
  compression : Option (List Char)

def isHex (c : Char) : Bool := c.isDigit || ('a' ≤ c && c ≤ 'f') || ('A' ≤ c && c ≤ 'F')

/-- `[+|-][0-9]+` -/
def offsetRx : Matcher (List Char) :=
  andThen (one fun c => c = '+' || c = '|' || c = '-') fun sign =>
    andThen (many Char.isDigit) fun digits => done (sign :: digits)

/-- `_[a-fA-F0-9]{40}` -/
def hashRx : Matcher (List Char) :=
  andThen (literal ['_']) fun _ => andThen (times isHex 40) fun digits => done ('_' :: digits)

/-- `\.(gz)` -/
def compressionRx : Matcher (List Char) :=
  andThen (literal ['.']) fun _ => oneOf [['g', 'z']]

def metadataRx : Matcher Groups :=
  andThen (many Char.isDigit) fun received =>
  andThen (optional offsetRx) fun offset =>
  andThen (literal ['_']) fun _ =>
  andThen (oneOf (commands.map metadataCommand)) fun command =>
  andThen (literal ['_']) fun _ =>
  andThen (many Char.isDigit) fun version =>
  andThen (literal ['_']) fun _ =>
  andThen (many fun c => c ≠ '_') fun certname =>
  andThen (optional hashRx) fun hash =>
  andThen (literal json) fun _ =>
  andThen (optional compressionRx) fun compression =>
  done ⟨received, offset, command, version, certname, hash, compression⟩

/-- `metadata-rx`, for the texts of other commands. -/
def metadataRxOf (texts : List (List Char)) : Matcher Groups :=
  andThen (many Char.isDigit) fun received =>
  andThen (optional offsetRx) fun offset =>
  andThen (literal ['_']) fun _ =>
  andThen (oneOf texts) fun command =>
  andThen (literal ['_']) fun _ =>
  andThen (many Char.isDigit) fun version =>
  andThen (literal ['_']) fun _ =>
  andThen (many fun c => c ≠ '_') fun certname =>
  andThen (optional hashRx) fun hash =>
  andThen (literal json) fun _ =>
  andThen (optional compressionRx) fun compression =>
  done ⟨received, offset, command, version, certname, hash, compression⟩

/-- `Long/parseLong`, which throws where the text is no long. -/
def parseLong (text : List Char) : Option Int :=
  let value : Option Int :=
    match text with
    | '-' :: digits => (Decimal.parse digits).map fun n => - (n : Int)
    | '+' :: digits => (Decimal.parse digits).map fun n => (n : Int)
    | digits => (Decimal.parse digits).map fun n => (n : Int)
  value.filter fun n => -9223372036854775808 ≤ n ∧ n < 9223372036854775808

/-- `(and producer-offset (Long/parseLong producer-offset))` -/
def parseOffset : Option (List Char) → Option (Option Int)
  | none => some none
  | some offset => (parseLong offset).map some

/-- There is no metadata where the text does not match or a number is no long. -/
def parseMetadata (text : List Char) : Option Metadata := do
  let groups ← fullMatch metadataRx text
  let received ← parseLong groups.received
  let offset ← parseOffset groups.offset
  let version ← parseLong groups.version
  let command ← puppetdbCommand groups.command
  return {
    received := Instant.fromLong received
    producerTs := parseProducerTs (received, offset)
    version := version.toNat
    command := command
    certname := groups.certname ++ groups.hash.getD []
    compression := if groups.compression.isSome then .gz else .identity }

/-- What `cmdref->entry` serializes of an entry that has been parsed. -/
def Metadata.toMeta (m : Metadata) : CommandMeta where
  command := m.command
  version := m.version
  certname := some m.certname
  producerTs := m.producerTs
  compression := m.compression

end OpenVoxDB.QueueMetadata
