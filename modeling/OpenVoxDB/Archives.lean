import OpenVoxDB.DeadLetters
import OpenVoxDB.FilePaths
import OpenVoxDB.Json

/-!
# Export and import

An export writes what is stored to the entries of an archive, each under a path that names its
kind and its node. An import reads the versions of the commands from the metadata, finds kind and
certname of every entry behind it in the entry's path, and submits a command for it.
-/

namespace OpenVoxDB.Archives

open Matching FilePaths QueueMetadata DeadLetters
open CommandBuffer (CommandType)

inductive Entity where
  | catalogs
  | reports
  | factsets
  | nodesWithFactExpiration
  | catalogInputs
  deriving DecidableEq, Repr

/-- `export-order`: what configures the expiration of facts comes first. -/
def exportOrder : List Entity :=
  [.nodesWithFactExpiration, .catalogs, .reports, .factsets, .catalogInputs]

/-- The directory of an entity's entries. -/
def Entity.directory : Entity → List Char
  | catalogs => ['c', 'a', 't', 'a', 'l', 'o', 'g', 's']
  | reports => ['r', 'e', 'p', 'o', 'r', 't', 's']
  | factsets => ['f', 'a', 'c', 't', 's']
  | nodesWithFactExpiration =>
    ['c', 'o', 'n', 'f', 'i', 'g', 'u', 'r', 'e', '_', 'e', 'x', 'p', 'i', 'r', 'a', 't', 'i', 'o',
      'n']
  | catalogInputs => ['c', 'a', 't', 'a', 'l', 'o', 'g', '_', 'i', 'n', 'p', 'u', 't', 's']

/-- Whether its entries have the hash of the producer timestamp in their names. -/
def Entity.withHash : Entity → Bool
  | factsets => false
  | _ => true

/-- The command that an entry of its directory is imported with. -/
def Entity.command : Entity → CommandType
  | catalogs => .replaceCatalog
  | reports => .storeReport
  | factsets => .replaceFacts
  | nodesWithFactExpiration => .configureExpiration
  | catalogInputs => .replaceCatalogInputs

/-- A row of a query, in the wire format of its command. -/
structure Datum where
  certname : List Char
  producerTimestamp : Instant
  json : Json

/-- JSON text and the SHA-1 of a time, in hexadecimal digits. -/
structure Format where
  generatePrettyString : Json → List Char
  parseString : List Char → Option Json
  identityHash : Instant → List Char
  identityHash_length : ∀ t, (identityHash t).length = 40
  identityHash_hex : ∀ t, ∀ c ∈ identityHash t, isHex c = true

structure TarEntry where
  path : List Char
  contents : List Char

/-- A command as it is submitted by an import. -/
structure Submission where
  command : CommandType
  version : Option Json
  certname : List Char
  payload : Json

def exportRootDir : List Char := ['p', 'u', 'p', 'p', 'e', 't', 'd', 'b', '-', 'b', 'a', 'k']

def exportMetadataFileName : List Char :=
  ['e', 'x', 'p', 'o', 'r', 't', '-', 'm', 'e', 't', 'a', 'd', 'a', 't', 'a'] ++ json

/-- What follows the certname in the name of an entry. -/
def ending (F : Format) (entity : Entity) (d : Datum) : List Char :=
  if entity.withHash then '-' :: F.identityHash d.producerTimestamp ++ json else json

/-- The name of the file for a datum: `export-filename`, or the certname for facts. -/
def fileName (F : Format) (entity : Entity) (d : Datum) : List Char :=
  d.certname ++ ending F entity d

/-- `export-datum->tar-item` and `add-tar-entry` -/
def exportDatum (F : Format) (entity : Entity) (d : Datum) : Option TarEntry := do
  let directory ← file exportRootDir entity.directory
  let path ← file directory (fileName F entity d)
  return ⟨path, F.generatePrettyString d.json⟩

/-- The key of a command's version in the metadata. -/
def versionKey : CommandType → String
  | .replaceCatalog => "replace_catalog"
  | .replaceFacts => "replace_facts"
  | .storeReport => "store_report"
  | .deactivateNode => "deactivate_node"
  | .configureExpiration => "configure_expiration"
  | .replaceCatalogInputs => "replace_catalog_inputs"

/-- `latest-command-versions` -/
def latestCommandVersions : Json :=
  .obj [(versionKey .replaceCatalog, .int 9), (versionKey .storeReport, .int 8),
    (versionKey .replaceFacts, .int 5), (versionKey .configureExpiration, .int 1),
    (versionKey .replaceCatalogInputs, .int 1)]

def exportMetadata (now : String) : Json :=
  .obj [("timestamp", .str now), ("command_versions", latestCommandVersions)]

/-- `export!` -/
def exportArchive (F : Format) (now : String) (data : Entity → List Datum) :
    Option (List TarEntry) := do
  let metadataPath ← file exportRootDir exportMetadataFileName
  let entries ← exportOrder.mapM fun entity => (data entity).mapM (exportDatum F entity)
  return ⟨metadataPath, F.generatePrettyString (exportMetadata now)⟩ :: entries.flatten

/-- `make-certname-matcher` -/
def certnameRx (entity : Entity) : Matcher (List Char) :=
  andThen (literal (exportRootDir ++ '/' :: entity.directory ++ ['/'])) fun _ =>
  andThen (star fun c => !lineTerminator c) fun certname =>
  andThen (if entity.withHash then andThen (literal ['-']) fun _ => times isHex 40 else done [])
    fun _ => andThen (literal json) fun _ => done certname

/-- The first of the matchers that matches: `command-matcher`. -/
def commandMatcher (path : List Char) : Option (Entity × List Char) :=
  [Entity.catalogs, .reports, .factsets, .nodesWithFactExpiration, .catalogInputs].findSome?
    fun entity => (fullMatch (certnameRx entity) path).map fun certname => (entity, certname)

/-- A field of a JSON object. -/
def get (j : Json) (key : String) : Option Json :=
  match j with
  | .obj fields => fields.lookup key
  | _ => none

/-- `process-tar-entry`: entries of other paths are passed over. -/
def processTarEntry (F : Format) (versions : Json) (e : TarEntry) : Option (List Submission) :=
  match commandMatcher e.path with
  | some (entity, certname) => do
    let payload ← F.parseString e.contents
    return [⟨entity.command, get versions (versionKey entity.command), certname, payload⟩]
  | none => some []

/-- `find-entry`: the entry with what is behind it. -/
def findEntry (path : List Char) : List TarEntry → Option (TarEntry × List TarEntry)
  | [] => none
  | e :: es => if e.path = path then some (e, es) else findEntry path es

/-- `parse-metadata` gives the versions of the commands, with the entries that it leaves. -/
def parseMetadata (F : Format) (entries : List TarEntry) : Option (Json × List TarEntry) := do
  let metadataPath ← file exportRootDir exportMetadataFileName
  let (e, rest) ← findEntry metadataPath entries
  let versions ← get (← F.parseString e.contents) "command_versions"
  if versions.truthy then some (versions, rest) else none

/-- `import!` -/
def importArchive (F : Format) (entries : List TarEntry) : Option (List Submission) := do
  let (versions, rest) ← parseMetadata F entries
  let submissions ← rest.mapM (processTarEntry F versions)
  return submissions.flatten

/-- Every datum is submitted under its certname with the latest version of its command. -/
def submissions (data : Entity → List Datum) : List Submission :=
  exportOrder.flatMap fun entity => (data entity).map fun d =>
    ⟨entity.command, get latestCommandVersions (versionKey entity.command), d.certname, d.json⟩

/-- A certname that a path keeps and that an import reads from it. -/
structure Portable (certname : List Char) : Prop where
  relative : certname.head? ≠ some '/'
  single : Single certname
  oneLine : ∀ c ∈ certname, lineTerminator c = false

/-- What is written can be read again: the metadata and the data. -/
structure Readable (F : Format) (now : String) (data : Entity → List Datum) : Prop where
  metadata : F.parseString (F.generatePrettyString (exportMetadata now)) =
    some (exportMetadata now)
  data : ∀ entity, ∀ d ∈ data entity, F.parseString (F.generatePrettyString d.json) = some d.json

/-! ## Paths of entries -/

theorem isHex_ne_slash (c : Char) (h : isHex c = true) : c ≠ '/' := by
  rintro rfl
  revert h
  decide

theorem ending_ne_nil (F : Format) (entity : Entity) (d : Datum) : ending F entity d ≠ [] := by
  cases entity <;> simp [ending, Entity.withHash, json]

theorem slash_not_mem_ending (F : Format) (entity : Entity) (d : Datum) :
    '/' ∉ ending F entity d := by
  have hhash : '/' ∉ F.identityHash d.producerTimestamp := fun h =>
    isHex_ne_slash _ (F.identityHash_hex _ _ h) rfl
  cases entity <;> simp [ending, Entity.withHash, json, hhash]

def directoryPath (entity : Entity) : List Char := exportRootDir ++ '/' :: entity.directory

theorem file_directory (entity : Entity) :
    file exportRootDir entity.directory = some (directoryPath entity) := by
  cases entity <;> decide

/-- An entry is written unless its certname starts with a slash, and then under the certname
without the slashes that follow others. -/
theorem exportDatum_eq (F : Format) (entity : Entity) (d : Datum) :
    exportDatum F entity d = if d.certname.head? = some '/' then none
      else some ⟨directoryPath entity ++ '/' :: (collapse d.certname ++ ending F entity d),
        F.generatePrettyString d.json⟩ := by
  have hdirectory : directoryPath entity ≠ ['/'] := by
    cases entity <;> simp [directoryPath, exportRootDir]
  rw [exportDatum, file_directory, Option.bind_eq_bind, Option.bind_some, fileName,
    file_append (directoryPath entity) d.certname (ending F entity d) hdirectory
      (ending_ne_nil F entity d) (slash_not_mem_ending F entity d)]
  split <;> rfl

theorem mem_certnameRx (entity : Entity) (certname path rest : List Char) :
    (certname, rest) ∈ certnameRx entity path ↔ (∀ c ∈ certname, lineTerminator c = false) ∧
      ∃ hash, path = directoryPath entity ++ '/' :: (certname ++ (hash ++ (json ++ rest))) ∧
        if entity.withHash then ∃ digits, hash = '-' :: digits ∧ digits.length = 40 ∧
          ∀ c ∈ digits, isHex c = true
        else hash = [] := by
  unfold certnameRx
  cases hhash : entity.withHash with
  | true =>
    simp only [mem_andThen, mem_literal, mem_star, mem_times, mem_done, if_true,
      Bool.not_eq_true']
    constructor
    · rintro ⟨-, _, rfl, certname', _, ⟨hline, rfl⟩, digits, _, ⟨-, _, rfl, hlength, hhex, rfl⟩,
        -, _, rfl, rfl, rfl⟩
      exact ⟨hline, '-' :: digits, by simp [directoryPath], digits, rfl, hlength, hhex⟩
    · rintro ⟨hline, _, rfl, digits, rfl, hlength, hhex⟩
      exact ⟨(), _, by simp [directoryPath], certname, _, ⟨hline, rfl⟩, digits, _,
        ⟨(), _, rfl, hlength, hhex, rfl⟩, (), _, rfl, rfl, rfl⟩
  | false =>
    simp only [mem_andThen, mem_literal, mem_star, mem_done, Bool.false_eq_true, if_false,
      Bool.not_eq_true']
    constructor
    · rintro ⟨-, _, rfl, certname', _, ⟨hline, rfl⟩, _, _, ⟨rfl, rfl⟩, -, _, rfl, rfl, rfl⟩
      exact ⟨hline, [], by simp [directoryPath], rfl⟩
    · rintro ⟨hline, _, rfl, rfl⟩
      exact ⟨(), _, by simp [directoryPath], certname, _, ⟨hline, rfl⟩, [], _, ⟨rfl, rfl⟩, (), _,
        rfl, rfl, rfl⟩

/-! ## The matcher of paths -/

theorem directory_of_path (entity entity' : Entity) (rest rest' : List Char)
    (h : directoryPath entity ++ '/' :: rest = directoryPath entity' ++ '/' :: rest') :
    entity = entity' ∧ rest = rest' := by
  have hfirst (e : Entity) (cs : List Char) :
      (e.directory ++ '/' :: cs).takeWhile (· ≠ '/') = e.directory := by
    rw [List.takeWhile_append_of_pos]
    · simp
    · cases e <;> simp [Entity.directory]
  simp only [directoryPath, List.append_assoc, List.append_cancel_left_eq, List.cons_append,
    List.cons.injEq, true_and] at h
  have hdirectory : entity.directory = entity'.directory := by
    rw [← hfirst entity rest, h, hfirst]
  have hentity : entity = entity' := by
    revert hdirectory
    cases entity <;> cases entity' <;> decide
  subst hentity
  exact ⟨rfl, (List.cons.inj (List.append_cancel_left h)).2⟩

/-- The ending of a name has the form that the matcher looks for. -/
theorem ending_form (F : Format) (entity : Entity) (d : Datum) : ∃ hash,
    ending F entity d = hash ++ json ∧
      if entity.withHash then ∃ digits, hash = '-' :: digits ∧ digits.length = 40 ∧
        ∀ c ∈ digits, isHex c = true
      else hash = [] := by
  unfold ending
  cases entity.withHash with
  | true =>
    exact ⟨_, rfl, F.identityHash d.producerTimestamp, rfl, F.identityHash_length _,
      F.identityHash_hex _⟩
  | false => exact ⟨[], rfl, rfl⟩

theorem length_of_form (entity : Entity) (hash : List Char)
    (h : if entity.withHash then ∃ digits, hash = '-' :: digits ∧ digits.length = 40 ∧
        ∀ c ∈ digits, isHex c = true
      else hash = []) : hash.length = if entity.withHash then 41 else 0 := by
  cases hw : entity.withHash with
  | true =>
    rw [hw, if_pos rfl] at h
    obtain ⟨digits, rfl, hlength, -⟩ := h
    simp [hlength]
  | false =>
    rw [hw, if_neg Bool.false_ne_true] at h
    simp [h]

/-- The path of an entry is matched by the matcher of its own directory only, and the certname
is all of it up to the ending. -/
theorem fullMatch_certnameRx (F : Format) (entity entity' : Entity) (d : Datum)
    (certname : List Char) :
    fullMatch (certnameRx entity')
        (directoryPath entity ++ '/' :: (certname ++ ending F entity d)) =
      if entity' = entity ∧ ∀ c ∈ certname, lineTerminator c = false then some certname
      else none := by
  obtain ⟨hash, hending, hform⟩ := ending_form F entity d
  have hsound (c : List Char) (hc : (c, []) ∈ certnameRx entity'
      (directoryPath entity ++ '/' :: (certname ++ ending F entity d))) :
      (entity' = entity ∧ ∀ ch ∈ certname, lineTerminator ch = false) ∧ c = certname := by
    obtain ⟨hline, hash', hpath, hform'⟩ := (mem_certnameRx _ _ _ _).mp hc
    obtain ⟨rfl, hrest⟩ := directory_of_path _ _ _ _ hpath
    have hlength := (length_of_form entity hash hform).trans (length_of_form entity hash' hform').symm
    rw [hending, List.append_nil] at hrest
    have he := (List.append_inj' hrest (by simp [hlength])).1
    subst he
    exact ⟨⟨rfl, hline⟩, rfl⟩
  split
  · rename_i h
    obtain ⟨rfl, hline⟩ := h
    refine fullMatch_of_unique _ _ certname ?_ fun c hc => (hsound c hc).2
    exact (mem_certnameRx _ _ _ _).mpr ⟨hline, hash, by rw [hending, List.append_nil], hform⟩
  · rename_i h
    cases hmatch : fullMatch (certnameRx entity')
        (directoryPath entity ++ '/' :: (certname ++ ending F entity d)) with
    | none => rfl
    | some c => exact absurd (hsound c (fullMatch_mem _ _ _ hmatch)).1 h

theorem commandMatcher_entry (F : Format) (entity : Entity) (d : Datum) (certname : List Char) :
    commandMatcher (directoryPath entity ++ '/' :: (certname ++ ending F entity d)) =
      if ∀ c ∈ certname, lineTerminator c = false then some (entity, certname) else none := by
  unfold commandMatcher
  simp only [fullMatch_certnameRx]
  by_cases hline : ∀ c ∈ certname, lineTerminator c = false
  · rw [if_pos hline]
    simp only [eq_true hline, and_true]
    cases entity <;> rfl
  · rw [if_neg hline]
    simp only [hline, and_false, if_false]
    rfl

/-! ## A whole archive -/

theorem mapM_eq_some {α β : Type} (f : α → Option β) (g : α → β) (xs : List α)
    (h : ∀ x ∈ xs, f x = some (g x)) : xs.mapM f = some (xs.map g) := by
  induction xs with
  | nil => rfl
  | cons x xs ih =>
    rw [List.mapM_cons, h x List.mem_cons_self, ih fun y hy => h y (List.mem_cons_of_mem _ hy)]
    rfl

theorem mapM_eq_none {α β : Type} (f : α → Option β) (xs : List α) (x : α) (hx : x ∈ xs)
    (h : f x = none) : xs.mapM f = none := by
  induction xs with
  | nil => cases hx
  | cons y ys ih =>
    rw [List.mapM_cons]
    rcases List.mem_cons.mp hx with rfl | hx
    · rw [h]
      rfl
    · rw [ih hx]
      cases f y <;> rfl

/-- Where each element gives one element at most, all give theirs when none is missing. -/
theorem flatMap_eq_map_iff {α β : Type} (f : α → List β) (g : α → β) (xs : List α)
    (hlength : ∀ x, (f x).length ≤ 1) :
    xs.flatMap f = xs.map g ↔ ∀ x ∈ xs, f x = [g x] := by
  have hbound : ∀ xs : List α, (xs.flatMap f).length ≤ xs.length := by
    intro xs
    induction xs with
    | nil => exact le_rfl
    | cons x xs ih =>
      have hx := hlength x
      rw [List.flatMap_cons, List.length_append, List.length_cons]
      omega
  induction xs with
  | nil => simp
  | cons x xs ih =>
    rw [List.flatMap_cons, List.map_cons, List.forall_mem_cons]
    constructor
    · intro h
      cases hx : f x with
      | nil =>
        have hrest := hbound xs
        rw [hx, List.nil_append] at h
        rw [h, List.length_cons, List.length_map] at hrest
        omega
      | cons y ys =>
        have hys : ys = [] := by
          have hone := hlength x
          rw [hx, List.length_cons] at hone
          exact List.length_eq_zero_iff.mp (by omega)
        subst hys
        rw [hx, List.singleton_append, List.cons.injEq] at h
        exact ⟨by rw [h.1], ih.mp h.2⟩
    · rintro ⟨hx, hrest⟩
      rw [hx, ih.mpr hrest, List.singleton_append]

/-- The data of an export with their entities, in the order of the export. -/
def pairs (data : Entity → List Datum) : List (Entity × Datum) :=
  exportOrder.flatMap fun entity => (data entity).map fun d => (entity, d)

theorem mem_pairs (data : Entity → List Datum) (entity : Entity) (d : Datum) :
    (entity, d) ∈ pairs data ↔ d ∈ data entity := by
  simp only [pairs, List.mem_flatMap, List.mem_map, Prod.mk.injEq]
  constructor
  · rintro ⟨e, -, d', hd, rfl, rfl⟩
    exact hd
  · intro hd
    exact ⟨entity, by cases entity <;> decide, d, hd, rfl, rfl⟩

def entryOf (F : Format) (p : Entity × Datum) : TarEntry :=
  ⟨directoryPath p.1 ++ '/' :: (collapse p.2.certname ++ ending F p.1 p.2),
    F.generatePrettyString p.2.json⟩

def submissionOf (p : Entity × Datum) : Submission :=
  ⟨p.1.command, get latestCommandVersions (versionKey p.1.command), p.2.certname, p.2.json⟩

theorem submissions_eq (data : Entity → List Datum) :
    submissions data = (pairs data).map submissionOf := by
  rw [submissions, pairs, List.map_flatMap]
  simp only [List.map_map]
  rfl

def metadataEntry (F : Format) (now : String) : TarEntry :=
  ⟨exportRootDir ++ '/' :: exportMetadataFileName, F.generatePrettyString (exportMetadata now)⟩

theorem file_metadata : file exportRootDir exportMetadataFileName =
    some (exportRootDir ++ '/' :: exportMetadataFileName) := by
  decide

theorem exportArchive_eq (F : Format) (now : String) (data : Entity → List Datum)
    (h : ∀ p ∈ pairs data, p.2.certname.head? ≠ some '/') :
    exportArchive F now data = some (metadataEntry F now :: (pairs data).map (entryOf F)) := by
  have hentity (entity : Entity) : (data entity).mapM (exportDatum F entity) =
      some ((data entity).map fun d => entryOf F (entity, d)) := by
    refine mapM_eq_some _ _ _ fun d hd => ?_
    rw [exportDatum_eq, if_neg (h (entity, d) ((mem_pairs data entity d).mpr hd))]
    rfl
  have hall := mapM_eq_some _ _ exportOrder fun entity _ => hentity entity
  have hentries : (pairs data).map (entryOf F) =
      (exportOrder.map fun entity => (data entity).map fun d => entryOf F (entity, d)).flatten := by
    rw [pairs, List.map_flatMap, List.flatMap_def]
    simp only [List.map_map]
    rfl
  rw [exportArchive, file_metadata, hall, hentries]
  rfl

theorem exportArchive_absolute (F : Format) (now : String) (data : Entity → List Datum)
    (p : Entity × Datum) (hp : p ∈ pairs data) (h : p.2.certname.head? = some '/') :
    exportArchive F now data = none := by
  obtain ⟨entity, d⟩ := p
  have hentity : (data entity).mapM (exportDatum F entity) = none := by
    refine mapM_eq_none _ _ d ((mem_pairs data entity d).mp hp) ?_
    rw [exportDatum_eq, if_pos h]
  have hall := mapM_eq_none (fun e => (data e).mapM (exportDatum F e)) exportOrder entity
    (by cases entity <;> decide) hentity
  rw [exportArchive, file_metadata, hall]
  rfl

theorem get_exportMetadata (now : String) :
    get (exportMetadata now) "command_versions" = some latestCommandVersions := by
  simp [get, exportMetadata, List.lookup]

/-- What an import makes of the entry of a datum. -/
def imported (p : Entity × Datum) : List Submission :=
  if ∀ c ∈ p.2.certname, lineTerminator c = false then
    [{ submissionOf p with certname := collapse p.2.certname }]
  else []

theorem parseMetadata_entry (F : Format) (now : String) (entries : List TarEntry)
    (hmetadata : F.parseString (F.generatePrettyString (exportMetadata now)) =
      some (exportMetadata now)) :
    parseMetadata F (metadataEntry F now :: entries) = some (latestCommandVersions, entries) := by
  have hpath : (metadataEntry F now).path = exportRootDir ++ '/' :: exportMetadataFileName := rfl
  have htruthy : latestCommandVersions.truthy = true := rfl
  rw [parseMetadata, file_metadata, Option.bind_eq_bind, Option.bind_some, findEntry,
    if_pos hpath, Option.bind_eq_bind, Option.bind_some]
  simp only [metadataEntry, hmetadata, Option.bind_eq_bind, Option.bind_some,
    get_exportMetadata, htruthy, if_true]

theorem commandMatcher_entryOf (F : Format) (p : Entity × Datum) :
    commandMatcher (entryOf F p).path =
      if ∀ c ∈ p.2.certname, lineTerminator c = false then some (p.1, collapse p.2.certname)
      else none := by
  have hmatch := commandMatcher_entry F p.1 p.2 (collapse p.2.certname)
  simp only [mem_collapse] at hmatch
  exact hmatch

theorem processTarEntry_entryOf (F : Format) (p : Entity × Datum)
    (hjson : F.parseString (F.generatePrettyString p.2.json) = some p.2.json) :
    processTarEntry F latestCommandVersions (entryOf F p) = some (imported p) := by
  have hmatch := commandMatcher_entryOf F p
  have hcontents : F.parseString (entryOf F p).contents = some p.2.json := hjson
  unfold processTarEntry imported
  by_cases hline : ∀ c ∈ p.2.certname, lineTerminator c = false
  · rw [if_pos hline] at hmatch
    rw [hmatch, if_pos hline]
    simp only [hcontents, Option.bind_eq_bind, Option.bind_some, Option.pure_def, submissionOf]
  · rw [if_neg hline] at hmatch
    rw [hmatch, if_neg hline]

theorem importArchive_eq (F : Format) (now : String) (data : Entity → List Datum)
    (hreadable : Readable F now data) :
    importArchive F (metadataEntry F now :: (pairs data).map (entryOf F)) =
      some ((pairs data).flatMap imported) := by
  have hentries : ((pairs data).map (entryOf F)).mapM (processTarEntry F latestCommandVersions) =
      some ((pairs data).map imported) := by
    rw [List.mapM_map]
    exact mapM_eq_some _ _ _ fun p hp => processTarEntry_entryOf F p
      (hreadable.data p.1 p.2 ((mem_pairs data p.1 p.2).mp hp))
  rw [importArchive, parseMetadata_entry F now _ hreadable.metadata, Option.bind_eq_bind,
    Option.bind_some, List.flatMap_def]
  simp only [hentries]
  rfl

theorem imported_eq_iff (p : Entity × Datum) : imported p = [submissionOf p] ↔
    (∀ c ∈ p.2.certname, lineTerminator c = false) ∧ Single p.2.certname := by
  unfold imported
  by_cases hline : ∀ c ∈ p.2.certname, lineTerminator c = false
  · rw [if_pos hline, and_iff_right hline, ← collapse_eq_self_iff]
    simp [submissionOf]
  · rw [if_neg hline]
    exact iff_of_false (by simp) fun h => hline h.1

/-- The facts of node `n`, which has none. -/
def emptyFacts : Datum :=
  ⟨['n'], 0, .obj [("certname", .str "n"), ("values", .obj [])]⟩

def metadataText : List Char :=
  ['\x7b', '\n', ' ', ' ', '"', 't'] ++
    ("imestamp\" : \"2026-01-01T00:00:00.000Z\",\n  \"command_versions\" : \x7b\n" ++
      "    \"replace_catalog\" : 9,\n    \"store_report\" : 8,\n    \"replace_facts\" : 5,\n" ++
      "    \"configure_expiration\" : 1,\n    \"replace_catalog_inputs\" : 1\n  \x7d\n\x7d").toList

def emptyFactsText : List Char :=
  ['\x7b', '\n', ' ', ' ', '"', 'c'] ++
    "ertname\" : \"n\",\n  \"values\" : \x7b \x7d\n\x7d".toList

/-- A format for the two texts of an archive with these facts. -/
def emptyFactsFormat : Format where
  generatePrettyString := fun j => if j = emptyFacts.json then emptyFactsText else metadataText
  parseString := fun text =>
    if text = emptyFactsText then some emptyFacts.json
    else some (exportMetadata "2026-01-01T00:00:00.000Z")
  identityHash := fun _ => List.replicate 40 '0'
  identityHash_length := fun _ => List.length_replicate
  identityHash_hex := by
    intro t c hc
    rw [List.eq_of_mem_replicate hc]
    rfl

def emptyFactsData : Entity → List Datum
  | .factsets => [emptyFacts]
  | _ => []

end OpenVoxDB.Archives
