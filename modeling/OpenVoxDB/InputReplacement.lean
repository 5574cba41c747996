import Mathlib
import OpenVoxDB.CatalogInputs
import OpenVoxDB.Run

/-!
# Replacement of catalog inputs

`replace-catalog-inputs!` of `scf/storage.clj` on the tables it writes: the inputs of a command
are sorted and hashed as bytes, and where the stored hash is another one the rows of the node are
deleted and inserted again in batches.
-/

namespace OpenVoxDB.InputReplacement

open CatalogInputs (Input InputsData Status sortedSet)

/-! ## The tables -/

/-- A row of `catalog_inputs`, all of whose columns are its primary key. -/
structure InputRow where
  certnameId : Nat
  input : Input
  deriving DecidableEq, Repr

/-- The columns of `certnames` that catalog inputs use. -/
structure CertnameRow (Digest : Type) where
  id : Nat
  certname : String
  catalogInputsUuid : Option String
  catalogInputsTimestamp : Option Instant
  catalogInputsHash : Option Digest
  deriving DecidableEq, Repr

structure Db (Digest : Type) where
  nextId : Nat
  certnames : List (CertnameRow Digest)
  catalogInputs : List InputRow
  deriving DecidableEq, Repr

/-- No NUL in the type or the name. -/
def NulFree (input : Input) : Prop := '\x00' ∉ input.type.toList ∧ '\x00' ∉ input.name.toList

instance (input : Input) : Decidable (NulFree input) :=
  inferInstanceAs (Decidable (_ ∧ _))

/-- The digest, and the inputs PostgreSQL takes: none with a NUL. -/
structure Backend (Digest : Type) where
  sha1 : List UInt8 → Digest
  takes : Input → Bool
  takes_nulFree : ∀ input, takes input = true → NulFree input

inductive SqlError where
  | rejectedValue
  | duplicateKey
  | notNull
  deriving DecidableEq, Repr

variable {Digest : Type}

/-! ## The call -/

/-- `partition-all`, into parts of `n + 1`. -/
def partitionAll {α : Type} (n : Nat) (xs : List α) : List (List α) :=
  match xs with
  | [] => []
  | x :: rest => (x :: rest.take n) :: partitionAll n (rest.drop n)
termination_by xs.length
decreasing_by simp

/-- `delete-catalog-inputs!` -/
def deleteCatalogInputs (certid : Nat) (rows : List InputRow) : List InputRow :=
  rows.filter fun r => r.certnameId ≠ certid

/-- The statement of one batch. -/
def insertBatch (B : Backend Digest) (certid : Nat) (rows : List InputRow) (batch : List Input) :
    Except SqlError (List InputRow) :=
  let values := (batch.map (InputRow.mk certid)).eraseDups
  if values.any fun r => !B.takes r.input then .error .rejectedValue
  else if values.any fun r => r ∈ rows then .error .duplicateKey
  else .ok (rows ++ values)

/-- `store-catalog-inputs!` -/
def storeCatalogInputs (B : Backend Digest) (certid : Nat) (inputs : List Input)
    (rows : List InputRow) : Except SqlError (List InputRow) :=
  (partitionAll 999 inputs).foldlM (insertBatch B certid) rows

/-- `(.getBytes s "UTF-8")` -/
def getBytes (s : String) : List UInt8 := s.toList.flatMap String.utf8EncodeChar

/-- The bytes that `catalog-inputs-hash` digests: a zero byte behind each text. -/
def hashedBytes (certname : String) (inputs : List Input) : List UInt8 :=
  Framing.terminated 0
    (getBytes certname :: inputs.flatMap fun input => [getBytes input.type, getBytes input.name])

def catalogInputsHash (B : Backend Digest) (certname : String) (inputs : List Input) : Digest :=
  B.sha1 (hashedBytes certname inputs)

/-- `update-catalog-input-metadata!` -/
def updateMetadata (certid : Nat) (c : InputsData) (hash : Digest)
    (certnames : List (CertnameRow Digest)) : List (CertnameRow Digest) :=
  certnames.map fun row =>
    if row.id = certid then
      { row with
        catalogInputsUuid := some c.catalogUuid
        catalogInputsTimestamp := some (Instant.toTimestamptz c.producerTimestamp)
        catalogInputsHash := some hash }
    else row

/-- `replace-catalog-inputs!`. For a node that has no row the id is nil, which no input is stored
with. -/
def replaceCatalogInputs [DecidableEq Digest] (B : Backend Digest) (db : Db Digest)
    (c : InputsData) : Except SqlError (Db Digest × Status Digest) :=
  let inputs := (sortedSet c.inputs).keys
  let newHash := catalogInputsHash B c.certname inputs
  match db.certnames.find? fun row => row.certname = c.certname with
  | none => if inputs.isEmpty then .ok (db, .incorporated newHash) else .error .notNull
  | some row =>
    if row.catalogInputsTimestamp.any fun old => !(old < c.producerTimestamp) then .ok (db, .stale)
    else do
      let rows ←
        if row.catalogInputsHash = some newHash then pure db.catalogInputs
        else storeCatalogInputs B row.id inputs (deleteCatalogInputs row.id db.catalogInputs)
      return ({ db with
          catalogInputs := rows
          certnames := updateMetadata row.id c newHash db.certnames },
        .incorporated newHash)

/-! ## Histories -/

/-- What changes the tables: a node's first command of any kind, a command of catalog inputs, and
the removal of a node. -/
inductive Op where
  | addCertname (certname : String)
  | replaceCatalogInputs (c : InputsData)
  | deleteCertname (certname : String)

def addCertname (db : Db Digest) (certname : String) : Db Digest :=
  if db.certnames.any fun row => row.certname = certname then db
  else { db with
    nextId := db.nextId + 1
    certnames := db.certnames ++ [⟨db.nextId, certname, none, none, none⟩] }

/-- `delete-certname!` -/
def deleteCertname (db : Db Digest) (certname : String) : Db Digest :=
  let ids := (db.certnames.filter fun row => row.certname = certname).map (·.id)
  { db with
    catalogInputs := db.catalogInputs.filter fun r => r.certnameId ∉ ids
    certnames := db.certnames.filter fun row => row.certname ≠ certname }

/-- A call that fails is rolled back. -/
def step [DecidableEq Digest] (B : Backend Digest) (db : Db Digest) : Op → Db Digest
  | .addCertname certname => addCertname db certname
  | .replaceCatalogInputs c =>
    match replaceCatalogInputs B db c with
    | .ok (db', _) => db'
    | .error _ => db
  | .deleteCertname certname => deleteCertname db certname

/-- The input is stored for the node. -/
def Stored (db : Db Digest) (certname : String) (input : Input) : Prop :=
  ∃ row ∈ db.certnames, row.certname = certname ∧ ⟨row.id, input⟩ ∈ db.catalogInputs

/-- The inputs of the node are those of the command, and those of other nodes are as before. -/
structure Replaces (db : Db Digest) (c : InputsData) (db' : Db Digest) : Prop where
  replaced : ∀ input, Stored db' c.certname input ↔ input ∈ c.inputs
  others : ∀ certname, certname ≠ c.certname → ∀ input,
    Stored db' certname input ↔ Stored db certname input

/-- The keys of the tables, and rows that PostgreSQL has taken. -/
structure Keyed (db : Db Digest) : Prop where
  ids : (db.certnames.map (·.id)).Nodup
  certnames : (db.certnames.map (·.certname)).Nodup
  fresh : ∀ row ∈ db.certnames, row.id < db.nextId
  owned : ∀ r ∈ db.catalogInputs, ∃ row ∈ db.certnames, row.id = r.certnameId
  nulFree : ∀ r ∈ db.catalogInputs, NulFree r.input

/-- Each stored hash is that of the node's inputs. -/
def HashesCurrent (B : Backend Digest) (db : Db Digest) : Prop :=
  ∀ row ∈ db.certnames, ∀ h, row.catalogInputsHash = some h →
    ∃ inputs : Dict Input Unit, h = catalogInputsHash B row.certname inputs.keys ∧
      ∀ input, input ∈ inputs ↔ ⟨row.id, input⟩ ∈ db.catalogInputs

/-- Tables whose nodes have no hash yet, as the migration that adds it leaves them. -/
structure Migrated (db : Db Digest) : Prop where
  keyed : Keyed db
  unhashed : ∀ row ∈ db.certnames, row.catalogInputsHash = none

/-! ## The digested bytes -/

theorem getBytes_inj (s t : String) (h : getBytes s = getBytes t) : s = t := by
  apply String.toByteArray_inj.mp
  rw [← String.utf8Encode_toList, ← String.utf8Encode_toList]
  exact congrArg List.toByteArray h

theorem ofNat_ne_zero (n : Nat) (hpos : 0 < n) (hlt : n < 256) : UInt8.ofNat n ≠ 0 := by
  intro hzero
  have hmod := congrArg UInt8.toNat hzero
  rw [UInt8.toNat_ofNat', Nat.mod_eq_of_lt (by omega), UInt8.toNat_zero] at hmod
  omega

/-- Only the encoding of NUL has a zero byte. -/
theorem eq_nul_of_zero_mem (c : Char) (h : (0 : UInt8) ∈ String.utf8EncodeChar c) :
    c = '\x00' := by
  have hval : c.val.toNat < 0x110000 := by
    obtain hlow | hhigh := c.valid
    · have hc : c.val.toNat < 0xd800 := hlow
      omega
    · exact hhigh.2
  unfold String.utf8EncodeChar at h
  simp only at h
  split at h
  · have hbyte : (0 : UInt8) = UInt8.ofNat c.val.toNat := by simpa using h
    by_contra hne
    apply ofNat_ne_zero c.val.toNat _ (by omega) hbyte.symm
    apply Nat.pos_of_ne_zero
    intro hzero
    exact hne (Char.ext (UInt32.toNat_inj.mp hzero))
  · split at h
    · simp only [List.mem_cons, List.not_mem_nil, or_false] at h
      obtain h | h := h <;> exact absurd h.symm (ofNat_ne_zero _ (by omega) (by omega))
    · split at h
      · simp only [List.mem_cons, List.not_mem_nil, or_false] at h
        obtain h | h | h := h <;> exact absurd h.symm (ofNat_ne_zero _ (by omega) (by omega))
      · simp only [List.mem_cons, List.not_mem_nil, or_false] at h
        obtain h | h | h | h := h <;> exact absurd h.symm (ofNat_ne_zero _ (by omega) (by omega))

theorem zero_not_mem_getBytes (s : String) (h : '\x00' ∉ s.toList) : 0 ∉ getBytes s := by
  intro hmem
  obtain ⟨c, hc, hbyte⟩ := List.mem_flatMap.mp hmem
  rw [eq_nul_of_zero_mem c hbyte] at hc
  exact h hc

/-- The texts of inputs determine them. -/
theorem texts_inj (left right : List Input)
    (h : (left.flatMap fun input => [getBytes input.type, getBytes input.name]) =
      right.flatMap fun input => [getBytes input.type, getBytes input.name]) : left = right := by
  induction left generalizing right with
  | nil =>
    cases right with
    | nil => rfl
    | cons j right => simp at h
  | cons i left ih =>
    cases right with
    | nil => simp at h
    | cons j right =>
      simp only [List.flatMap_cons, List.cons_append, List.nil_append, List.cons.injEq] at h
      obtain ⟨htype, hname, hrest⟩ := h
      have hij : i = j := by
        cases i
        cases j
        simp only [CatalogInputs.Input.mk.injEq]
        exact ⟨getBytes_inj _ _ htype, getBytes_inj _ _ hname⟩
      rw [hij, ih right hrest]

theorem zero_not_mem_texts (inputs : List Input) (h : ∀ input ∈ inputs, NulFree input) :
    ∀ text ∈ inputs.flatMap (fun input => [getBytes input.type, getBytes input.name]),
      0 ∉ text := by
  intro text htext
  obtain ⟨input, hin, hmem⟩ := List.mem_flatMap.mp htext
  obtain ⟨htype, hname⟩ := h input hin
  obtain rfl | hmem := List.mem_cons.mp hmem
  · exact zero_not_mem_getBytes _ htype
  · rw [List.mem_singleton.mp hmem]
    exact zero_not_mem_getBytes _ hname

/-- The digested bytes determine inputs without NUL. -/
theorem hashedBytes_inj (certname : String) (left right : List Input)
    (hleft : ∀ input ∈ left, NulFree input) (hright : ∀ input ∈ right, NulFree input)
    (h : hashedBytes certname left = hashedBytes certname right) : left = right := by
  rw [hashedBytes, hashedBytes, Framing.terminated_cons, Framing.terminated_cons] at h
  have hrest := (List.cons.inj (List.append_cancel_left h)).2
  exact texts_inj left right (Framing.terminated_inj 0 _ _ (zero_not_mem_texts left hleft)
    (zero_not_mem_texts right hright) hrest)

/-! ## Storing inputs -/

theorem partitionAll_flatten {α : Type} (n : Nat) (xs : List α) :
    (partitionAll n xs).flatten = xs := by
  induction xs using partitionAll.induct n with
  | case1 => simp [partitionAll]
  | case2 x rest ih =>
    rw [partitionAll, List.flatten_cons, ih, List.cons_append, List.take_append_drop]

/-- The rows of a batch, when it is inserted. -/
theorem insertBatch_eq_ok (B : Backend Digest) (certid : Nat) (rows rows' : List InputRow)
    (batch : List Input) (h : insertBatch B certid rows batch = .ok rows') :
    (∀ input ∈ batch, B.takes input = true) ∧
      ∀ r, r ∈ rows' ↔ r ∈ rows ∨ (r.certnameId = certid ∧ r.input ∈ batch) := by
  have hmem : ∀ r, r ∈ (batch.map (InputRow.mk certid)).eraseDups ↔
      r.certnameId = certid ∧ r.input ∈ batch := by
    intro r
    rw [List.mem_eraseDups, List.mem_map]
    constructor
    · intro ⟨input, hin, hr⟩
      rw [← hr]
      exact ⟨rfl, hin⟩
    · intro ⟨hid, hin⟩
      exact ⟨r.input, hin, by rw [← hid]⟩
  unfold insertBatch at h
  simp only at h
  split at h
  · cases h
  · rename_i htakes
    split at h
    · cases h
    · cases h
      constructor
      · intro input hin
        by_contra hnot
        apply htakes
        rw [List.any_eq_true]
        exact ⟨⟨certid, input⟩, (hmem _).mpr ⟨rfl, hin⟩, by simpa using hnot⟩
      · intro r
        rw [List.mem_append, hmem]

/-- The rows of all batches, when they are inserted. -/
theorem foldlM_insertBatch (B : Backend Digest) (certid : Nat) (batches : List (List Input))
    (rows rows' : List InputRow) (h : batches.foldlM (insertBatch B certid) rows = .ok rows') :
    (∀ input ∈ batches.flatten, B.takes input = true) ∧
      ∀ r, r ∈ rows' ↔ r ∈ rows ∨ (r.certnameId = certid ∧ r.input ∈ batches.flatten) := by
  induction batches generalizing rows with
  | nil =>
    cases h
    simp
  | cons batch batches ih =>
    rw [List.foldlM_cons] at h
    cases hbatch : insertBatch B certid rows batch with
    | error e =>
      rw [hbatch] at h
      cases h
    | ok rows'' =>
      rw [hbatch] at h
      obtain ⟨htakes, hrows⟩ := insertBatch_eq_ok B certid rows rows'' batch hbatch
      obtain ⟨htakes', hrows'⟩ := ih rows'' h
      constructor
      · intro input hin
        rw [List.flatten_cons, List.mem_append] at hin
        obtain hin | hin := hin
        · exact htakes input hin
        · exact htakes' input hin
      · intro r
        rw [hrows', hrows, List.flatten_cons, List.mem_append]
        tauto

theorem storeCatalogInputs_eq_ok (B : Backend Digest) (certid : Nat) (inputs : List Input)
    (rows rows' : List InputRow) (h : storeCatalogInputs B certid inputs rows = .ok rows') :
    (∀ input ∈ inputs, B.takes input = true) ∧
      ∀ r, r ∈ rows' ↔ r ∈ rows ∨ (r.certnameId = certid ∧ r.input ∈ inputs) := by
  have hspec := foldlM_insertBatch B certid (partitionAll 999 inputs) rows rows' h
  rwa [partitionAll_flatten] at hspec

/-- Batches of different inputs that the database takes meet no row that is there. -/
theorem foldlM_insertBatch_ok (B : Backend Digest) (certid : Nat) (batches : List (List Input))
    (rows : List InputRow) (htakes : ∀ input ∈ batches.flatten, B.takes input = true)
    (hnodup : batches.flatten.Nodup)
    (hnew : ∀ input ∈ batches.flatten, ⟨certid, input⟩ ∉ rows) :
    ∃ rows', batches.foldlM (insertBatch B certid) rows = .ok rows' := by
  induction batches generalizing rows with
  | nil => exact ⟨rows, rfl⟩
  | cons batch batches ih =>
    rw [List.flatten_cons] at htakes hnodup hnew
    obtain ⟨-, hrest, hdisjoint⟩ := List.nodup_append.mp hnodup
    have hmem : ∀ r ∈ (batch.map (InputRow.mk certid)).eraseDups,
        ∃ input ∈ batch, r = ⟨certid, input⟩ := by
      intro r hr
      rw [List.mem_eraseDups, List.mem_map] at hr
      obtain ⟨input, hin, hr⟩ := hr
      exact ⟨input, hin, hr.symm⟩
    have htaken : ¬ ((batch.map (InputRow.mk certid)).eraseDups.any
        fun r => !B.takes r.input) = true := by
      rw [List.any_eq_true]
      intro ⟨r, hr, hnot⟩
      obtain ⟨input, hin, rfl⟩ := hmem r hr
      rw [htakes input (List.mem_append_left _ hin)] at hnot
      exact absurd hnot (by decide)
    have hkey : ¬ ((batch.map (InputRow.mk certid)).eraseDups.any fun r => r ∈ rows) = true := by
      rw [List.any_eq_true]
      intro ⟨r, hr, hin'⟩
      obtain ⟨input, hin, rfl⟩ := hmem r hr
      exact hnew input (List.mem_append_left _ hin) (by simpa using hin')
    have hbatch : insertBatch B certid rows batch =
        .ok (rows ++ (batch.map (InputRow.mk certid)).eraseDups) := by
      unfold insertBatch
      simp only [if_neg htaken, if_neg hkey]
    obtain ⟨rows', hrows'⟩ := ih (rows ++ (batch.map (InputRow.mk certid)).eraseDups)
      (fun input hin => htakes input (List.mem_append_right _ hin)) hrest (by
        intro input hin hmem'
        obtain hmem' | hmem' := List.mem_append.mp hmem'
        · exact hnew input (List.mem_append_right _ hin) hmem'
        · obtain ⟨input', hin', he⟩ := hmem _ hmem'
          cases he
          exact hdisjoint input hin' input hin rfl)
    exact ⟨rows', by rw [List.foldlM_cons, hbatch]; exact hrows'⟩

/-- Sorted inputs that the database takes are stored. -/
theorem storeCatalogInputs_ok (B : Backend Digest) (certid : Nat) (inputs : Dict Input Unit)
    (rows : List InputRow) (htakes : ∀ input ∈ inputs.keys, B.takes input = true) :
    ∃ rows', storeCatalogInputs B certid inputs.keys (deleteCatalogInputs certid rows) =
      .ok rows' := by
  apply foldlM_insertBatch_ok
  · rwa [partitionAll_flatten]
  · rw [partitionAll_flatten]
    exact inputs.nodup_keys
  · intro input _ hmem
    simp [deleteCatalogInputs] at hmem

/-! ## One call -/

theorem mem_sortedSet (inputs : List Input) (input : Input) :
    input ∈ sortedSet inputs ↔ input ∈ inputs := by
  rw [sortedSet, Std.ExtTreeMap.mem_ofList]
  simp [Function.comp_def]

theorem mem_keys_sortedSet (inputs : List Input) (input : Input) :
    input ∈ (sortedSet inputs).keys ↔ input ∈ inputs := by
  rw [Std.ExtTreeMap.mem_keys, mem_sortedSet]

/-- The row of a node after its metadata is updated. -/
def withMetadata (certid : Nat) (c : InputsData) (hash : Digest) (row : CertnameRow Digest) :
    CertnameRow Digest :=
  if row.id = certid then
    { row with
      catalogInputsUuid := some c.catalogUuid
      catalogInputsTimestamp := some (Instant.toTimestamptz c.producerTimestamp)
      catalogInputsHash := some hash }
  else row

theorem updateMetadata_eq (certid : Nat) (c : InputsData) (hash : Digest)
    (certnames : List (CertnameRow Digest)) :
    updateMetadata certid c hash certnames = certnames.map (withMetadata certid c hash) := rfl

@[simp] theorem withMetadata_id (certid : Nat) (c : InputsData) (hash : Digest)
    (row : CertnameRow Digest) : (withMetadata certid c hash row).id = row.id := by
  unfold withMetadata
  split <;> rfl

@[simp] theorem withMetadata_certname (certid : Nat) (c : InputsData) (hash : Digest)
    (row : CertnameRow Digest) : (withMetadata certid c hash row).certname = row.certname := by
  unfold withMetadata
  split <;> rfl

section Call

variable (B : Backend Digest)

/-- The hash of a command. -/
def newHash (c : InputsData) : Digest :=
  catalogInputsHash B c.certname (sortedSet c.inputs).keys

/-- The rows after a call: those before it, where the hash is the stored one. -/
def Rewrites (db : Db Digest) (c : InputsData) (row : CertnameRow Digest)
    (rows : List InputRow) : Prop :=
  (row.catalogInputsHash = some (newHash B c) ∧ rows = db.catalogInputs) ∨
    (row.catalogInputsHash ≠ some (newHash B c) ∧
      storeCatalogInputs B row.id (sortedSet c.inputs).keys
        (deleteCatalogInputs row.id db.catalogInputs) = .ok rows)

/-- What an accepted call has done. -/
theorem replaceCatalogInputs_accepted [DecidableEq Digest] (db db' : Db Digest)
    (c : InputsData) (hash : Digest) (h : replaceCatalogInputs B db c = .ok (db', .incorporated hash)) :
    ((∀ row ∈ db.certnames, row.certname ≠ c.certname) ∧ c.inputs = [] ∧ db' = db) ∨
      ∃ row ∈ db.certnames, row.certname = c.certname ∧ ∃ rows, Rewrites B db c row rows ∧
        db' = { db with
          catalogInputs := rows
          certnames := updateMetadata row.id c (newHash B c) db.certnames } := by
  unfold replaceCatalogInputs at h
  simp only at h
  split at h
  · rename_i hfind
    apply Or.inl
    split at h
    · rename_i hempty
      refine ⟨?_, ?_, ?_⟩
      · simpa using hfind
      · apply List.eq_nil_iff_forall_not_mem.mpr
        intro input hin
        have hkey := (mem_keys_sortedSet c.inputs input).mpr hin
        rw [List.isEmpty_iff.mp hempty] at hkey
        simp at hkey
      · cases h
        rfl
    · cases h
  · rename_i row hfind
    apply Or.inr
    refine ⟨row, List.mem_of_find?_eq_some hfind, by simpa using List.find?_some hfind, ?_⟩
    split at h
    · cases h
    · by_cases hhit : row.catalogInputsHash = some (newHash B c)
      · have hhit' : row.catalogInputsHash = some (catalogInputsHash B c.certname
            (sortedSet c.inputs).keys) := hhit
        rw [if_pos hhit'] at h
        cases h
        exact ⟨_, Or.inl ⟨hhit, rfl⟩, rfl⟩
      · have hmiss : ¬ row.catalogInputsHash = some (catalogInputsHash B c.certname
            (sortedSet c.inputs).keys) := hhit
        rw [if_neg hmiss] at h
        cases hrows : storeCatalogInputs B row.id (sortedSet c.inputs).keys
            (deleteCatalogInputs row.id db.catalogInputs) with
        | error e =>
          rw [hrows] at h
          cases h
        | ok rows =>
          rw [hrows] at h
          cases h
          exact ⟨rows, Or.inr ⟨hhit, hrows⟩, rfl⟩

/-- A stale call changes nothing. -/
theorem replaceCatalogInputs_stale [DecidableEq Digest] (db db' : Db Digest) (c : InputsData)
    (h : replaceCatalogInputs B db c = .ok (db', .stale)) : db' = db := by
  unfold replaceCatalogInputs at h
  simp only at h
  split at h
  · split at h
    · cases h
    · cases h
  · rename_i row _
    split at h
    · cases h
      rfl
    · by_cases hhit : row.catalogInputsHash = some (catalogInputsHash B c.certname
          (sortedSet c.inputs).keys)
      · rw [if_pos hhit] at h
        cases h
      · rw [if_neg hhit] at h
        cases hrows : storeCatalogInputs B row.id (sortedSet c.inputs).keys
            (deleteCatalogInputs row.id db.catalogInputs) with
        | error e =>
          rw [hrows] at h
          cases h
        | ok rows =>
          rw [hrows] at h
          cases h

/-- The rows of other nodes are as before. -/
theorem rewrites_others (db : Db Digest) (c : InputsData) (row : CertnameRow Digest)
    (rows : List InputRow) (h : Rewrites B db c row rows) (id : Nat) (hid : id ≠ row.id)
    (input : Input) : ⟨id, input⟩ ∈ rows ↔ ⟨id, input⟩ ∈ db.catalogInputs := by
  obtain ⟨-, rfl⟩ | ⟨-, hrows⟩ := h
  · exact Iff.rfl
  · rw [(storeCatalogInputs_eq_ok B row.id _ _ rows hrows).2]
    simp [deleteCatalogInputs, hid]

/-- Rows that are written are those of the command. -/
theorem rewrites_written (db : Db Digest) (c : InputsData) (row : CertnameRow Digest)
    (rows : List InputRow) (hrows : storeCatalogInputs B row.id (sortedSet c.inputs).keys
      (deleteCatalogInputs row.id db.catalogInputs) = .ok rows) :
    (∀ input ∈ c.inputs, NulFree input) ∧
      ∀ input, ⟨row.id, input⟩ ∈ rows ↔ input ∈ c.inputs := by
  obtain ⟨htakes, hmem⟩ := storeCatalogInputs_eq_ok B row.id _ _ rows hrows
  constructor
  · intro input hin
    exact B.takes_nulFree input (htakes input ((mem_keys_sortedSet c.inputs input).mpr hin))
  · intro input
    rw [hmem, mem_keys_sortedSet]
    simp [deleteCatalogInputs]

/-! ## What a step keeps -/

theorem row_eq_of_id {db : Db Digest} (h : Keyed db) (row row' : CertnameRow Digest)
    (hrow : row ∈ db.certnames) (hrow' : row' ∈ db.certnames) (hid : row.id = row'.id) :
    row = row' := List.inj_on_of_nodup_map h.ids hrow hrow' hid

theorem row_eq_of_certname {db : Db Digest} (h : Keyed db) (row row' : CertnameRow Digest)
    (hrow : row ∈ db.certnames) (hrow' : row' ∈ db.certnames)
    (hcertname : row.certname = row'.certname) : row = row' :=
  List.inj_on_of_nodup_map h.certnames hrow hrow' hcertname

theorem keyed_addCertname (db : Db Digest) (h : Keyed db) (certname : String) :
    Keyed (addCertname db certname) := by
  unfold addCertname
  split
  · exact h
  · rename_i hnew
    have habsent : ∀ row ∈ db.certnames, row.certname ≠ certname := by
      intro row hrow he
      apply hnew
      rw [List.any_eq_true]
      exact ⟨row, hrow, by simpa using he⟩
    constructor
    · simp only [List.map_append, List.map_cons, List.map_nil]
      apply List.nodup_append.mpr
      refine ⟨h.ids, by simp, ?_⟩
      intro id hid id' hid' he
      obtain ⟨row, hrow, rfl⟩ := List.mem_map.mp hid
      have hlt := h.fresh row hrow
      rw [List.mem_singleton.mp hid'] at he
      omega
    · simp only [List.map_append, List.map_cons, List.map_nil]
      apply List.nodup_append.mpr
      refine ⟨h.certnames, by simp, ?_⟩
      intro name hname name' hname' he
      obtain ⟨row, hrow, rfl⟩ := List.mem_map.mp hname
      rw [List.mem_singleton.mp hname'] at he
      exact habsent row hrow he
    · intro row hrow
      obtain hrow | hrow := List.mem_append.mp hrow
      · have hlt := h.fresh row hrow
        exact Nat.lt_succ_of_lt hlt
      · rw [List.mem_singleton.mp hrow]
        exact Nat.lt_succ_self _
    · intro r hr
      obtain ⟨row, hrow, hid⟩ := h.owned r hr
      exact ⟨row, List.mem_append_left _ hrow, hid⟩
    · exact h.nulFree

theorem keyed_deleteCertname (db : Db Digest) (h : Keyed db) (certname : String) :
    Keyed (deleteCertname db certname) := by
  constructor
  · exact h.ids.sublist (List.filter_sublist.map _)
  · exact h.certnames.sublist (List.filter_sublist.map _)
  · intro row hrow
    exact h.fresh row (List.mem_filter.mp hrow).1
  · intro r hr
    obtain ⟨hr, hkept⟩ := List.mem_filter.mp hr
    obtain ⟨row, hrow, hid⟩ := h.owned r hr
    refine ⟨row, List.mem_filter.mpr ⟨hrow, ?_⟩, hid⟩
    by_contra hname
    have hdeleted : r.certnameId ∈
        (db.certnames.filter fun row => row.certname = certname).map (·.id) := by
      rw [← hid]
      exact List.mem_map_of_mem (List.mem_filter.mpr ⟨hrow, by simpa using hname⟩)
    simp only [decide_eq_true_eq] at hkept
    exact hkept hdeleted
  · intro r hr
    exact h.nulFree r (List.mem_filter.mp hr).1

theorem keyed_rewrites (db : Db Digest) (h : Keyed db) (c : InputsData)
    (row : CertnameRow Digest) (hrow : row ∈ db.certnames) (rows : List InputRow)
    (hrows : Rewrites B db c row rows) :
    Keyed { db with
      catalogInputs := rows
      certnames := updateMetadata row.id c (newHash B c) db.certnames } := by
  have hids : ∀ f : CertnameRow Digest → Nat, (∀ r, f (withMetadata row.id c (newHash B c) r) =
      f r) → (updateMetadata row.id c (newHash B c) db.certnames).map f = db.certnames.map f := by
    intro f hf
    rw [updateMetadata_eq, List.map_map]
    exact List.map_congr_left fun r _ => hf r
  constructor
  · rw [hids _ fun r => withMetadata_id row.id c (newHash B c) r]
    exact h.ids
  · rw [updateMetadata_eq, List.map_map]
    have hnames : db.certnames.map ((·.certname) ∘ withMetadata row.id c (newHash B c)) =
        db.certnames.map (·.certname) :=
      List.map_congr_left fun r _ => withMetadata_certname row.id c (newHash B c) r
    rw [hnames]
    exact h.certnames
  · intro r hr
    obtain ⟨r', hr', rfl⟩ := List.mem_map.mp hr
    have hlt := h.fresh r' hr'
    exact (withMetadata_id row.id c (newHash B c) r').symm ▸ hlt
  · intro r hr
    have howner : ∃ row' ∈ db.certnames, row'.id = r.certnameId := by
      by_cases hid : r.certnameId = row.id
      · exact ⟨row, hrow, hid.symm⟩
      · have hr' := (rewrites_others B db c row rows hrows r.certnameId hid r.input).mp hr
        exact h.owned r hr'
    obtain ⟨row', hrow', hid⟩ := howner
    exact ⟨_, List.mem_map_of_mem hrow', (withMetadata_id row.id c (newHash B c) row').trans hid⟩
  · intro r hr
    obtain ⟨-, hsame⟩ | ⟨-, hstored⟩ := hrows
    · rw [hsame] at hr
      exact h.nulFree r hr
    · obtain hr | ⟨-, hin⟩ := ((storeCatalogInputs_eq_ok B row.id _ _ rows hstored).2 r).mp hr
      · exact h.nulFree r (List.mem_filter.mp hr).1
      · exact (rewrites_written B db c row rows hstored).1 _
          ((mem_keys_sortedSet c.inputs _).mp hin)

/-! ## The stored hash -/

theorem hashesCurrent_addCertname (db : Db Digest) (h : HashesCurrent B db) (certname : String) :
    HashesCurrent B (addCertname db certname) := by
  unfold addCertname
  split
  · exact h
  · intro row hrow hash hhash
    obtain hrow | hrow := List.mem_append.mp hrow
    · exact h row hrow hash hhash
    · rw [List.mem_singleton.mp hrow] at hhash
      cases hhash

theorem hashesCurrent_deleteCertname (db : Db Digest) (hkeyed : Keyed db)
    (h : HashesCurrent B db) (certname : String) :
    HashesCurrent B (deleteCertname db certname) := by
  intro row hrow hash hhash
  obtain ⟨hrow, hname⟩ := List.mem_filter.mp hrow
  obtain ⟨inputs, hcurrent, hmem⟩ := h row hrow hash hhash
  have hkept : row.id ∉
      (db.certnames.filter fun row => row.certname = certname).map (·.id) := by
    intro hid
    obtain ⟨row', hrow', hid⟩ := List.mem_map.mp hid
    obtain ⟨hrow', hname'⟩ := List.mem_filter.mp hrow'
    have hsame := row_eq_of_id hkeyed row' row hrow' hrow hid
    rw [hsame] at hname'
    simp only [decide_eq_true_eq] at hname hname'
    exact hname hname'
  refine ⟨inputs, hcurrent, ?_⟩
  intro input
  rw [hmem]
  constructor
  · intro hin
    exact List.mem_filter.mpr ⟨hin, decide_eq_true hkept⟩
  · intro hin
    exact (List.mem_filter.mp hin).1

/-- After a call the hash of the node is that of its rows, whether or not they were written. -/
theorem hashesCurrent_rewrites (db : Db Digest) (hkeyed : Keyed db) (h : HashesCurrent B db)
    (c : InputsData) (row : CertnameRow Digest) (hrow : row ∈ db.certnames)
    (hname : row.certname = c.certname) (rows : List InputRow)
    (hrows : Rewrites B db c row rows) :
    HashesCurrent B { db with
      catalogInputs := rows
      certnames := updateMetadata row.id c (newHash B c) db.certnames } := by
  intro updated hupdated hash hhash
  obtain ⟨r, hr, rfl⟩ := List.mem_map.mp hupdated
  change (withMetadata row.id c (newHash B c) r).catalogInputsHash = some hash at hhash
  change ∃ inputs : Dict Input Unit,
    hash = catalogInputsHash B (withMetadata row.id c (newHash B c) r).certname inputs.keys ∧
      ∀ input, input ∈ inputs ↔ ⟨(withMetadata row.id c (newHash B c) r).id, input⟩ ∈ rows
  rw [withMetadata_certname, withMetadata_id]
  by_cases hid : r.id = row.id
  · obtain rfl := row_eq_of_id hkeyed r row hr hrow hid
    have hnew : newHash B c = hash := by
      simpa [withMetadata] using hhash
    obtain ⟨hhit, rfl⟩ | ⟨-, hstored⟩ := hrows
    · rw [← hnew]
      exact h r hr _ hhit
    · refine ⟨sortedSet c.inputs, ?_, ?_⟩
      · rw [← hnew, newHash, hname]
      · intro input
        rw [(rewrites_written B db c r rows hstored).2, mem_sortedSet]
  · rw [withMetadata, if_neg hid] at hhash
    obtain ⟨inputs, hcurrent, hmem⟩ := h r hr hash hhash
    refine ⟨inputs, hcurrent, ?_⟩
    intro input
    rw [hmem, rewrites_others B db c row rows hrows r.id hid]

/-- Tables with their keys and with hashes that describe their rows. -/
structure Sound (db : Db Digest) : Prop where
  keyed : Keyed db
  current : HashesCurrent B db

theorem sound_of_migrated (db : Db Digest) (h : Migrated db) : Sound B db := by
  constructor
  · exact h.keyed
  · intro row hrow hash hhash
    rw [h.unhashed row hrow] at hhash
    cases hhash

theorem sound_step [DecidableEq Digest] (db : Db Digest) (op : Op) (h : Sound B db) :
    Sound B (step B db op) := by
  cases op with
  | addCertname certname =>
    exact ⟨keyed_addCertname db h.keyed certname,
      hashesCurrent_addCertname B db h.current certname⟩
  | deleteCertname certname =>
    exact ⟨keyed_deleteCertname db h.keyed certname,
      hashesCurrent_deleteCertname B db h.keyed h.current certname⟩
  | replaceCatalogInputs c =>
    simp only [step]
    split
    · rename_i db' status hcall
      cases status with
      | stale =>
        rw [replaceCatalogInputs_stale B db db' c hcall]
        exact h
      | incorporated hash =>
        obtain ⟨-, -, rfl⟩ | ⟨row, hrow, hname, rows, hrows, rfl⟩ :=
          replaceCatalogInputs_accepted B db db' c hash hcall
        · exact h
        · exact ⟨keyed_rewrites B db h.keyed c row hrow rows hrows,
            hashesCurrent_rewrites B db h.keyed h.current c row hrow hname rows hrows⟩
    · exact h

theorem sound_run [DecidableEq Digest] (db : Db Digest) (ops : List Op) (h : Migrated db) :
    Sound B (OpenVoxDB.run (step B) db ops) :=
  run_invariant (sound_step B) ops db (sound_of_migrated B db h)

/-! ## The inputs after a call -/

/-- The digest tells the stored inputs of the node from those of the command. -/
def NoCollision (db : Db Digest) (c : InputsData) : Prop :=
  ∀ row ∈ db.certnames, row.certname = c.certname → ∀ inputs : Dict Input Unit,
    (∀ input, input ∈ inputs ↔ ⟨row.id, input⟩ ∈ db.catalogInputs) →
      catalogInputsHash B c.certname inputs.keys = newHash B c →
        hashedBytes c.certname inputs.keys = hashedBytes c.certname (sortedSet c.inputs).keys

/-- What the tables hold for the node and for the others, by the rows of the call. -/
theorem stored_rewrites (db : Db Digest) (h : Keyed db) (c : InputsData)
    (row : CertnameRow Digest) (hrow : row ∈ db.certnames) (hname : row.certname = c.certname)
    (rows : List InputRow) (input : Input) :
    Stored { db with
      catalogInputs := rows
      certnames := updateMetadata row.id c (newHash B c) db.certnames } c.certname input ↔
        ⟨row.id, input⟩ ∈ rows := by
  constructor
  · intro ⟨updated, hupdated, hcertname, hin⟩
    obtain ⟨r, hr, rfl⟩ := List.mem_map.mp hupdated
    have hsame : r = row := by
      apply row_eq_of_certname h r row hr hrow
      rw [hname, ← hcertname]
      exact (withMetadata_certname row.id c (newHash B c) r).symm
    rw [← hsame]
    exact (withMetadata_id row.id c (newHash B c) r) ▸ hin
  · intro hin
    refine ⟨_, List.mem_map_of_mem hrow, ?_, ?_⟩
    · exact (withMetadata_certname row.id c (newHash B c) row).trans hname
    · exact (withMetadata_id row.id c (newHash B c) row).symm ▸ hin

theorem stored_others (db : Db Digest) (h : Keyed db) (c : InputsData)
    (row : CertnameRow Digest) (hrow : row ∈ db.certnames) (hname : row.certname = c.certname)
    (rows : List InputRow) (hrows : Rewrites B db c row rows) (certname : String)
    (hother : certname ≠ c.certname) (input : Input) :
    Stored { db with
      catalogInputs := rows
      certnames := updateMetadata row.id c (newHash B c) db.certnames } certname input ↔
        Stored db certname input := by
  have hid : ∀ r ∈ db.certnames, r.certname = certname → r.id ≠ row.id := by
    intro r hr hcertname hid
    apply hother
    rw [← hcertname, ← hname, row_eq_of_id h r row hr hrow hid]
  constructor
  · intro ⟨updated, hupdated, hcertname, hin⟩
    obtain ⟨r, hr, rfl⟩ := List.mem_map.mp hupdated
    have hcertname' : r.certname = certname :=
      (withMetadata_certname row.id c (newHash B c) r).symm.trans hcertname
    have hin' : (⟨r.id, input⟩ : InputRow) ∈ rows :=
      (withMetadata_id row.id c (newHash B c) r) ▸ hin
    exact ⟨r, hr, hcertname',
      (rewrites_others B db c row rows hrows r.id (hid r hr hcertname') input).mp hin'⟩
  · intro ⟨r, hr, hcertname, hin⟩
    have hin' := (rewrites_others B db c row rows hrows r.id (hid r hr hcertname) input).mpr hin
    refine ⟨_, List.mem_map_of_mem hr, ?_, ?_⟩
    · exact (withMetadata_certname row.id c (newHash B c) r).trans hcertname
    · exact (withMetadata_id row.id c (newHash B c) r).symm ▸ hin'

/-- The rows of the node after a call are those of the command when no input of it has a NUL. -/
theorem rewrites_replaced (db : Db Digest) (h : Sound B db) (c : InputsData)
    (hdigest : NoCollision B db c) (row : CertnameRow Digest) (hrow : row ∈ db.certnames)
    (hname : row.certname = c.certname) (rows : List InputRow)
    (hrows : Rewrites B db c row rows) :
    (∀ input, ⟨row.id, input⟩ ∈ rows ↔ input ∈ c.inputs) ↔ ∀ input ∈ c.inputs, NulFree input := by
  obtain ⟨hhit, rfl⟩ | ⟨-, hstored⟩ := hrows
  · constructor
    · intro hreplaced input hin
      exact h.keyed.nulFree _ ((hreplaced input).mpr hin)
    · intro hfree input
      obtain ⟨inputs, hcurrent, hmem⟩ := h.current row hrow _ hhit
      rw [hname] at hcurrent
      have hbytes := hdigest row hrow hname inputs hmem hcurrent.symm
      have hstoredFree : ∀ input ∈ inputs.keys, NulFree input := by
        intro input hin
        exact h.keyed.nulFree _ ((hmem input).mp (Std.ExtTreeMap.mem_keys.mp hin))
      have hkeys := hashedBytes_inj c.certname _ _ hstoredFree (by
        intro input hin
        exact hfree input ((mem_keys_sortedSet c.inputs input).mp hin)) hbytes
      rw [← hmem, ← Std.ExtTreeMap.mem_keys, hkeys, mem_keys_sortedSet]
  · obtain ⟨hfree, hmem⟩ := rewrites_written B db c row rows hstored
    exact ⟨fun _ => hfree, fun _ => hmem⟩

end Call

/-- In every state that commands lead to, an accepted call leaves the node with the inputs of the
command, and the others as they are, exactly when none of its inputs has a NUL. Between inputs
without NUL the bytes of the hash tell any two sets apart. -/
theorem replaceCatalogInputs_iff [DecidableEq Digest] (B : Backend Digest) (db₀ : Db Digest)
    (hmigrated : Migrated db₀) (ops : List Op) (c : InputsData) (db' : Db Digest) (hash : Digest)
    (hdigest : NoCollision B (OpenVoxDB.run (step B) db₀ ops) c)
    (hcall : replaceCatalogInputs B (OpenVoxDB.run (step B) db₀ ops) c =
      .ok (db', .incorporated hash)) :
    (Replaces (OpenVoxDB.run (step B) db₀ ops) c db' ↔ ∀ input ∈ c.inputs, NulFree input) ∧
      ∀ certname, ∀ left right : Dict Input Unit, (∀ input ∈ left, NulFree input) →
        (∀ input ∈ right, NulFree input) →
          hashedBytes certname left.keys = hashedBytes certname right.keys →
            left.keys = right.keys := by
  have hsound := sound_run B db₀ ops hmigrated
  generalize OpenVoxDB.run (step B) db₀ ops = db at *
  constructor
  · obtain ⟨hnone, hempty, rfl⟩ | ⟨row, hrow, hname, rows, hrows, rfl⟩ :=
      replaceCatalogInputs_accepted B db db' c hash hcall
    · rw [hempty]
      constructor
      · simp
      · intro _
        constructor
        · intro input
          rw [hempty]
          constructor
          · intro ⟨row, hrow, hname, _⟩
            exact absurd hname (hnone row hrow)
          · simp
        · intro certname _ input
          exact Iff.rfl
    · rw [← rewrites_replaced B db hsound c hdigest row hrow hname rows hrows]
      constructor
      · intro hreplaces input
        rw [← hreplaces.replaced input,
          stored_rewrites B db hsound.keyed c row hrow hname rows input]
      · intro hmem
        constructor
        · intro input
          rw [stored_rewrites B db hsound.keyed c row hrow hname rows input, hmem]
        · exact fun certname hother input =>
            stored_others B db hsound.keyed c row hrow hname rows hrows certname hother input
  · intro certname left right hleft hright hbytes
    apply hashedBytes_inj certname _ _ _ _ hbytes
    · intro input hin
      exact hleft input (Std.ExtTreeMap.mem_keys.mp hin)
    · intro input hin
      exact hright input (Std.ExtTreeMap.mem_keys.mp hin)

/-! ## A command with a NUL -/

/-- The digest that keeps the bytes, over a database that takes what has no NUL. -/
def plainBackend : Backend (List UInt8) where
  sha1 := id
  takes input := NulFree input
  takes_nulFree _ h := of_decide_eq_true h

def emptyDb : Db (List UInt8) := ⟨0, [], []⟩

theorem migrated_emptyDb : Migrated emptyDb := by
  constructor
  · constructor <;> simp [emptyDb]
  · simp [emptyDb]

/-- A node that has stored two inputs. -/
def twoInputs : List Op :=
  [.addCertname "a", .replaceCatalogInputs ⟨"a", "u", [⟨"c", "d"⟩, ⟨"a", "b"⟩], 0⟩]

/-- The tables with the two inputs, at a time. -/
def stored (time : Instant) : Db (List UInt8) where
  nextId := 1
  certnames :=
    [⟨0, "a", some "u", some time, some (hashedBytes "a" [⟨"a", "b"⟩, ⟨"c", "d"⟩])⟩]
  catalogInputs := [⟨0, "a", "b"⟩, ⟨0, "c", "d"⟩]

theorem run_twoInputs : OpenVoxDB.run (step plainBackend) emptyDb twoInputs = stored 0 := by
  decide +kernel

/-- The same two inputs again, one of them twice. -/
def repeated : InputsData := ⟨"a", "u", [⟨"a", "b"⟩, ⟨"c", "d"⟩, ⟨"a", "b"⟩], 1000⟩

/-- One input whose bytes are those of the two. -/
def merged : InputsData := ⟨"a", "u", [⟨"a\x00b\x00c", "d"⟩], 1000⟩

theorem noCollision_plain (db : Db (List UInt8)) (c : InputsData) : NoCollision plainBackend db c :=
  fun _ _ _ _ _ h => h

theorem replaceCatalogInputs_repeated :
    Replaces (stored 0) repeated (stored 1000) ∧ ∀ input ∈ repeated.inputs, NulFree input := by
  have hfree : ∀ input ∈ repeated.inputs, NulFree input := by decide
  have h := replaceCatalogInputs_iff plainBackend emptyDb migrated_emptyDb twoInputs repeated
    (stored 1000) (hashedBytes "a" [⟨"a", "b"⟩, ⟨"c", "d"⟩]) (noCollision_plain _ _)
    (by decide +kernel)
  rw [run_twoInputs] at h
  exact ⟨h.1.mpr hfree, hfree⟩

/-- The command with the merged input is accepted, and the two inputs stay. -/
theorem replaceCatalogInputs_fails :
    ¬ ∀ (ops : List Op) (c : InputsData) (db' : Db (List UInt8)) (hash : List UInt8),
      replaceCatalogInputs plainBackend (OpenVoxDB.run (step plainBackend) emptyDb ops) c =
          .ok (db', .incorporated hash) →
        Replaces (OpenVoxDB.run (step plainBackend) emptyDb ops) c db' := by
  intro h
  have hreplaces := h twoInputs merged (stored 1000)
    (hashedBytes "a" [⟨"a", "b"⟩, ⟨"c", "d"⟩]) (by decide +kernel)
  have hstored : Stored (stored 1000) "a" ⟨"a", "b"⟩ := by
    refine ⟨_, List.mem_singleton_self _, rfl, ?_⟩
    simp [stored]
  have hin := (hreplaces.replaced ⟨"a", "b"⟩).mp hstored
  revert hin
  decide

end OpenVoxDB.InputReplacement
