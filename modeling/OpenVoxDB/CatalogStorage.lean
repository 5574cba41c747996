import OpenVoxDB.Catalogs
import OpenVoxDB.Run

/-!
# Storage of catalogs

`replace-catalog!` with its three paths: a catalog whose similarity hash is
stored only gets new metadata, any other catalog has its resource rows
deleted, inserted and updated by reference and its edge rows by value, all in
one transaction. Metrics, logging and the memoized environment and producer
ids are left out.
-/

namespace OpenVoxDB.CatalogStorage

open Catalogs

/-- The columns of `catalog_resources`, without the node's id. -/
inductive Column where
  | resource
  | type
  | title
  | tags
  | exported
  | file
  | line
  deriving DecidableEq, Repr

/-- The key of a resource map that a column holds. -/
def Column.attr : Column → Attr
  | resource => .resource
  | type => .type
  | title => .title
  | tags => .tags
  | exported => .exported
  | file => .file
  | line => .line

abbrev Row := Column → Cell

/-- A row of `edges`, without the certname: two resource hashes and the relationship. -/
structure EdgeRow where
  source : String
  target : String
  type : String
  deriving DecidableEq, Repr

/-- A row of `catalogs`, as `catalog-row-map` builds it. -/
structure CatalogRow (Digest : Type) where
  hash : Digest
  catalogVersion : String
  transactionUuid : Option String
  catalogUuid : Option String
  timestamp : Instant
  codeId : Option String
  jobId : Option String
  environment : Option String
  producerTimestamp : Instant
  producer : Option String
  apiVersion : Nat

/-- What storage takes from elsewhere: the two SHA-1 hashes of catalog content, and
which row values PostgreSQL takes (their columns' domains, the size of an index row). -/
structure Backend (Digest : Type) where
  similarityHash : String × Dict Ref Attributes × Finset Edge → Digest
  resourceIdentityHash : Cell → Cell → Cell → String
  takesCatalog : CatalogRow Digest → Bool
  takesResource : Row → Bool

inductive SqlError where
  | undefinedColumn
  | notNullViolation
  | rejectedValue
  deriving DecidableEq, Repr

/-- The rows of one node. -/
structure NodeCatalog (Digest : Type) where
  metadata : Option (CatalogRow Digest)
  resources : Dict Ref Row
  edges : Finset EdgeRow

structure CatalogStore (Digest : Type) where
  nodes : String → NodeCatalog Digest
  paramsCache : List (String × Cell)

inductive Status (Digest : Type) where
  | stale
  | incorporated (hash : Digest)
  deriving DecidableEq, Repr

variable {Digest : Type}

def CatalogStore.empty : CatalogStore Digest := ⟨fun _ => ⟨none, ∅, ∅⟩, []⟩

def catalogSimilarityHash (B : Backend Digest) (c : Catalog) : Digest :=
  B.similarityHash (catalogSimilarityFormat c)

def resourceHash (B : Backend Digest) (r : Attributes) : String :=
  B.resourceIdentityHash (r.get .type) (r.get .title) (r.get .parameters)

/-- The hash that `refs-to-hashes` has for a reference. -/
def refsToHashes (B : Backend Digest) (c : Catalog) (ref : Ref) : String :=
  (c.resources[ref]?.map (resourceHash B)).getD ""

def catalogRowMap (hash : Digest) (c : Catalog) (received : Instant) : CatalogRow Digest where
  hash := hash
  catalogVersion := c.version
  transactionUuid := c.transactionUuid
  catalogUuid := c.catalogUuid
  timestamp := Instant.toTimestamptz received
  codeId := c.codeId
  jobId := c.jobId
  environment := c.environment
  producerTimestamp := Instant.toTimestamptz c.producerTimestamp
  producer := c.producer
  apiVersion := 1

def updateCatalogMetadata (B : Backend Digest) (hash : Digest) (c : Catalog)
    (received : Instant) (node : NodeCatalog Digest) : Except SqlError (NodeCatalog Digest) :=
  let row := catalogRowMap hash c received
  if B.takesCatalog row then .ok { node with metadata := some row } else .error .rejectedValue

/-- The constraints on a row of `catalog_resources`. -/
def checkRow (B : Backend Digest) (row : Row) : Except SqlError Row :=
  if row .type = .null ∨ row .title = .null ∨ row .tags = .null ∨ row .exported = .null ∨
      row .resource = .null then
    .error .notNullViolation
  else if B.takesResource row then .ok row
  else .error .rejectedValue

/-- The row `insert-catalog-resources!` writes; an absent key becomes a null. -/
def insertedRow (B : Backend Digest) (r : Attributes) : Row
  | .resource => .str (resourceHash B r)
  | col => r.get col.attr

/-- A stored row as `catalog-resources` reads it. -/
def rowAttributes (row : Row) : Attributes
  | .type => some (row .type)
  | .title => some (row .title)
  | .tags => some (row .tags)
  | .exported => some (row .exported)
  | .file => some (row .file)
  | .line => some (row .line)
  | .resource => some (row .resource)
  | .aliases => none
  | .parameters => none

def stripParams (r : Attributes) : Attributes
  | .parameters => none
  | k => r k

/-- `merge-resource-hash` for one resource. -/
def mergeResourceHash (hash : String) (r : Attributes) : Attributes
  | .resource => some (.str hash)
  | k => r k

/-- The keys of `right` whose value differs from that of `left`. -/
def basicDiff (left right : Attributes) : Attributes :=
  fun k => (right k).filter fun value => value ≠ left.get k

def noUpdates (r : Attributes) : Bool :=
  [Attr.type, .title, .exported, .file, .line, .tags, .aliases, .parameters, .resource].all
    fun k => (r k).isNone

/-- `jdbc/update!` of one row; a key that names no column is an error. -/
def updateRow (B : Backend Digest) (row : Row) (updates : Attributes) : Except SqlError Row :=
  if (updates .aliases).isSome ∨ (updates .parameters).isSome then .error .undefinedColumn
  else checkRow B fun col => (updates col.attr).getD (row col)

def deleteCatalogResources (rows : Dict Ref Row) (refs : Ref → Bool) : Dict Ref Row :=
  Dict.dissoc rows refs

def insertCatalogResource (B : Backend Digest) (r : Option Attributes) :
    Except SqlError (Option Row) :=
  match r with
  | some r => some <$> checkRow B (insertedRow B r)
  | none => .ok none

/-- One turn of `update-catalog-resources!`: no statement when nothing differs. -/
def updateCatalogResource (B : Backend Digest) (r : Option Attributes) (stored : Option Row) :
    Except SqlError (Option Row) :=
  match r, stored with
  | some r, some row =>
    let updates := basicDiff (rowAttributes row)
      (mergeResourceHash (resourceHash B r) (stripParams r))
    if noUpdates updates then .ok stored else some <$> updateRow B row updates
  | _, _ => .ok stored

/-- Insert the parameters of the hashes that have no row yet. -/
def addParams (B : Backend Digest) (c : Catalog) (cache : List (String × Cell)) :
    List (String × Cell) :=
  c.resources.toList.foldl
    (fun cache (_, r) =>
      if cache.any fun row => row.1 = resourceHash B r then cache
      else cache ++ [(resourceHash B r, r.get .parameters)])
    cache

/-- The three-way diff of the references: delete, insert, update. -/
def addResources (B : Backend Digest) (c : Catalog) (rows : Dict Ref Row) :
    Except SqlError (Dict Ref Row) := do
  let inserts := c.resources.keys.filter fun ref => !rows.contains ref
  let updates := c.resources.keys.filter fun ref => rows.contains ref
  let deleted := deleteCatalogResources rows fun ref => !c.resources.contains ref
  let inserted ← Dict.alterEach (fun ref _ => insertCatalogResource B c.resources[ref]?)
    deleted inserts
  Dict.alterEach (fun ref row => updateCatalogResource B c.resources[ref]? row) inserted updates

def edgeRows (B : Backend Digest) (c : Catalog) : Finset EdgeRow :=
  c.edges.image fun e =>
    ⟨refsToHashes B c e.source, refsToHashes B c e.target, e.relationship.name⟩

def replaceEdges (new old : Finset EdgeRow) : Finset EdgeRow :=
  let inserts := new \ old
  let deletes := old \ new
  (old ∪ inserts) \ deletes

def updateCatalogAssociations (B : Backend Digest) (c : Catalog) (node : NodeCatalog Digest) :
    Except SqlError (NodeCatalog Digest) := do
  let resources ← addResources B c node.resources
  return { node with resources := resources, edges := replaceEdges (edgeRows B c) node.edges }

/-- A catalog that the stored one makes stale. -/
def Stale (s : CatalogStore Digest) (c : Catalog) : Prop :=
  ∃ row ∈ (s.nodes c.certname).metadata, c.producerTimestamp < row.producerTimestamp

instance (s : CatalogStore Digest) (c : Catalog) : Decidable (Stale s c) :=
  match h : (s.nodes c.certname).metadata with
  | none => .isFalse (by simp [Stale, h])
  | some row => decidable_of_iff (c.producerTimestamp < row.producerTimestamp)
      (by simp [Stale, h])

/-- The rows of the node after an accepted catalog: only metadata when its hash is the
stored one, everything otherwise. -/
def incorporate [DecidableEq Digest] (B : Backend Digest) (node : NodeCatalog Digest)
    (c : Catalog) (received : Instant) : Except SqlError (NodeCatalog Digest) := do
  let hash := catalogSimilarityHash B c
  let node' ← updateCatalogMetadata B hash c received node
  if node.metadata.map (·.hash) = some hash then return node'
  else updateCatalogAssociations B c node'

def replaceCatalog [DecidableEq Digest] (B : Backend Digest) (s : CatalogStore Digest)
    (c : Catalog) (received : Instant) :
    Except SqlError (CatalogStore Digest × Status Digest) := do
  if Stale s c then return (s, .stale)
  else
    let node ← incorporate B (s.nodes c.certname) c received
    let hit := (s.nodes c.certname).metadata.map (·.hash) = some (catalogSimilarityHash B c)
    return (⟨Function.update s.nodes c.certname node,
        if hit then s.paramsCache else addParams B c s.paramsCache⟩,
      .incorporated (catalogSimilarityHash B c))

/-- One submission: the transaction of a call that fails is rolled back. -/
def store [DecidableEq Digest] (B : Backend Digest) (s : CatalogStore Digest)
    (call : Catalog × Instant) : CatalogStore Digest :=
  match replaceCatalog B s call.1 call.2 with
  | .ok (s', _) => s'
  | .error _ => s

/-- The incoming resource names every column it has to, and what it leaves out is null
in the stored row; its aliases, which have no column, are null. -/
structure Updatable (row : Row) (r : Attributes) : Prop where
  aliases : r.get .aliases = .null
  file : r .file = none → row .file = .null
  line : r .line = none → row .line = .null

/-- The rows of a node are those of the catalog. -/
structure Holds (B : Backend Digest) (node : NodeCatalog Digest) (c : Catalog) : Prop where
  resources : ∀ ref : Ref, node.resources[ref]? = c.resources[ref]?.map (insertedRow B)
  edges : node.edges = edgeRows B c

theorem replaceEdges_eq (new old : Finset EdgeRow) : replaceEdges new old = new := by
  ext e
  simp only [replaceEdges, Finset.mem_sdiff, Finset.mem_union]
  by_cases hn : e ∈ new <;> by_cases ho : e ∈ old <;> simp [hn, ho]

theorem checkRow_eq_ok_iff (B : Backend Digest) (row row' : Row) :
    checkRow B row = .ok row' ↔ row' = row ∧ checkRow B row = .ok row := by
  unfold checkRow
  split
  · simp
  · split <;> simp [eq_comm]

/-- A row the database takes is exported or not, so its resource has the key. -/
theorem exported_of_checkRow (B : Backend Digest) (r : Attributes)
    (h : checkRow B (insertedRow B r) = .ok (insertedRow B r)) : r .exported ≠ none := by
  intro he
  have hnull : insertedRow B r .exported = .null := by
    show (r .exported).getD .null = .null
    rw [he]
    rfl
  simp [checkRow, hnull] at h

theorem noUpdates_iff (r : Attributes) : noUpdates r = true ↔ ∀ k, r k = none := by
  simp only [noUpdates, List.all_cons, List.all_nil, Bool.and_true, Bool.and_eq_true,
    Option.isNone_iff_eq_none]
  constructor
  · rintro ⟨h1, h2, h3, h4, h5, h6, h7, h8, h9⟩ k
    cases k <;> assumption
  · intro h
    simp [h]

/-- Writing the differences to a row leaves the incoming value at every key it has and
the stored one at every other. -/
theorem getD_basicDiff (left right : Attributes) (k : Attr) :
    (basicDiff left right k).getD (left.get k) = (right k).getD (left.get k) := by
  unfold basicDiff
  cases right k with
  | none => rfl
  | some v => by_cases h : v = left.get k <;> simp [Option.filter, h]

theorem rowAttributes_attr (row : Row) (col : Column) :
    (rowAttributes row).get col.attr = row col := by
  cases col <;> rfl

/-- The keys every parsed resource has. -/
structure Named (r : Attributes) : Prop where
  type : r .type ≠ none
  title : r .title ≠ none
  tags : r .tags ≠ none

theorem named_of_resource (c : Catalog) (ref : Ref) (r : Attributes)
    (h : c.resources[ref]? = some r) : Named r := by
  obtain ⟨tags, htags⟩ := c.tags_eq ref r h
  exact ⟨by simp [c.type_eq ref r h], by simp [c.title_eq ref r h], by simp [htags]⟩

/-- What `update-catalog-resources!` diffs for a resource with a stored row. -/
def updatesFor (B : Backend Digest) (row : Row) (r : Attributes) : Attributes :=
  basicDiff (rowAttributes row) (mergeResourceHash (resourceHash B r) (stripParams r))

/-- A column takes the incoming value when the resource has the key. -/
theorem updatesFor_getD (B : Backend Digest) (row : Row) (r : Attributes) (col : Column) :
    (updatesFor B row r col.attr).getD (row col) =
      (mergeResourceHash (resourceHash B r) (stripParams r) col.attr).getD (row col) := by
  have h := getD_basicDiff (rowAttributes row)
    (mergeResourceHash (resourceHash B r) (stripParams r)) col.attr
  rwa [rowAttributes_attr] at h

/-- The updated row is the inserted one when no absent key has a value stored. -/
theorem updatesFor_eq_insertedRow_iff (B : Backend Digest) (row : Row) (r : Attributes)
    (hr : Named r) :
    (fun col => (updatesFor B row r col.attr).getD (row col)) = insertedRow B r ↔
      (r .exported = none → row .exported = .null) ∧ (r .file = none → row .file = .null) ∧
        (r .line = none → row .line = .null) := by
  have hpoint : ∀ col : Column, r col.attr ≠ none → col ≠ .resource →
      (updatesFor B row r col.attr).getD (row col) = insertedRow B r col := by
    intro col hcol hres
    obtain ⟨v, hv⟩ := Option.ne_none_iff_exists'.mp hcol
    rw [updatesFor_getD]
    cases col <;> simp_all [mergeResourceHash, stripParams, insertedRow, Column.attr,
      Attributes.get]
  have habsent : ∀ col : Column, r col.attr = none → col ≠ .resource →
      ((updatesFor B row r col.attr).getD (row col) = insertedRow B r col ↔
        row col = .null) := by
    intro col hcol hres
    rw [updatesFor_getD]
    cases col <;> simp_all [mergeResourceHash, stripParams, insertedRow, Column.attr,
      Attributes.get]
  constructor
  · intro h
    refine ⟨fun he => ?_, fun he => ?_, fun he => ?_⟩
    · exact (habsent .exported he (by simp)).mp (congrFun h .exported)
    · exact (habsent .file he (by simp)).mp (congrFun h .file)
    · exact (habsent .line he (by simp)).mp (congrFun h .line)
  · rintro ⟨hexported, hfile, hline⟩
    funext col
    by_cases hres : col = .resource
    · subst hres
      rw [updatesFor_getD]
      rfl
    · by_cases hcol : r col.attr = none
      · refine (habsent col hcol hres).mpr ?_
        cases col with
        | resource => exact absurd rfl hres
        | type => exact absurd hcol hr.type
        | title => exact absurd hcol hr.title
        | tags => exact absurd hcol hr.tags
        | exported => exact hexported hcol
        | file => exact hfile hcol
        | line => exact hline hcol
      · exact hpoint col hcol hres

theorem updatesFor_parameters (B : Backend Digest) (row : Row) (r : Attributes) :
    updatesFor B row r .parameters = none := rfl

theorem updatesFor_aliases (B : Backend Digest) (row : Row) (r : Attributes) :
    updatesFor B row r .aliases = none ↔ r.get .aliases = .null := by
  show (r .aliases).filter (fun value => decide (value ≠ .null)) = none ↔ _
  unfold Attributes.get
  cases r .aliases with
  | none => simp
  | some v => by_cases hv : v = .null <;> simp [Option.filter, hv]

/-- The update turns a stored row into the row an insert would write exactly when the
database takes that row and the stored one can become it. -/
theorem updateCatalogResource_eq_insertedRow_iff (B : Backend Digest) (row : Row)
    (r : Attributes) (hr : Named r) (hrow : checkRow B row = .ok row) :
    updateCatalogResource B (some r) (some row) = .ok (some (insertedRow B r)) ↔
      checkRow B (insertedRow B r) = .ok (insertedRow B r) ∧ Updatable row r := by
  have hcols := updatesFor_eq_insertedRow_iff B row r hr
  have hdef : updateCatalogResource B (some r) (some row) =
      if noUpdates (updatesFor B row r) then .ok (some row)
      else some <$> updateRow B row (updatesFor B row r) := rfl
  rw [hdef]
  by_cases hno : noUpdates (updatesFor B row r) = true
  · rw [if_pos hno]
    have hnone := (noUpdates_iff _).mp hno
    have haliases := (updatesFor_aliases B row r).mp (hnone .aliases)
    simp only [hnone, Option.getD_none] at hcols
    rw [Except.ok.injEq, Option.some.injEq]
    constructor
    · intro h
      have hmissing := hcols.mp h
      exact ⟨h ▸ hrow, haliases, hmissing.2.1, hmissing.2.2⟩
    · rintro ⟨hcheck, hupd⟩
      have hexported := exported_of_checkRow B r hcheck
      exact hcols.mpr ⟨fun he => absurd he hexported, hupd.file, hupd.line⟩
  · rw [if_neg hno]
    unfold updateRow
    rw [updatesFor_parameters]
    by_cases haliases : updatesFor B row r .aliases = none
    · rw [haliases]
      simp only [Option.isSome_none, Bool.false_eq_true, or_self, if_false]
      constructor
      · intro h
        cases hc : checkRow B (fun col => (updatesFor B row r col.attr).getD (row col)) with
        | error e =>
          rw [hc] at h
          cases h
        | ok row' =>
          rw [hc] at h
          have heq : row' = insertedRow B r := by simpa using h
          obtain ⟨hrow', hcheck⟩ := (checkRow_eq_ok_iff B _ _).mp hc
          rw [heq] at hrow'
          have hmissing := hcols.mp hrow'.symm
          rw [← hrow'] at hcheck
          exact ⟨hcheck, (updatesFor_aliases B row r).mp haliases, hmissing.2.1, hmissing.2.2⟩
      · rintro ⟨hcheck, hupd⟩
        have hexported := exported_of_checkRow B r hcheck
        rw [hcols.mpr ⟨fun he => absurd he hexported, hupd.file, hupd.line⟩, hcheck]
        rfl
    · obtain ⟨v, hv⟩ := Option.ne_none_iff_exists'.mp haliases
      rw [hv]
      simp only [Option.isSome_some, true_or, if_true]
      refine iff_of_false nofun ?_
      rintro ⟨-, hupd⟩
      exact haliases ((updatesFor_aliases B row r).mpr hupd.aliases)

/-- The outcome of the three-way diff, reference by reference. -/
theorem addResources_eq_ok_iff (B : Backend Digest) (c : Catalog) (rows rows' : Dict Ref Row) :
    addResources B c rows = .ok rows' ↔
      ∀ ref : Ref, (c.resources[ref]? = none → rows'[ref]? = none) ∧
        ∀ r, c.resources[ref]? = some r →
          (rows[ref]? = none → insertCatalogResource B (some r) = .ok rows'[ref]?) ∧
          ∀ row, rows[ref]? = some row →
            updateCatalogResource B (some r) (some row) = .ok rows'[ref]? := by
  have hnodup : c.resources.keys.Nodup := Std.ExtTreeMap.nodup_keys
  have hmem : ∀ (p : Ref → Bool) (ref : Ref),
      ref ∈ c.resources.keys.filter p ↔ c.resources[ref]?.isSome ∧ p ref := by
    intro p ref
    rw [List.mem_filter, Std.ExtTreeMap.mem_keys, Std.ExtTreeMap.mem_iff_isSome_getElem?]
  have hrows : ∀ ref : Ref, rows.contains ref = rows[ref]?.isSome := fun ref =>
    Std.ExtTreeMap.contains_eq_isSome_getElem?
  have hdeleted : ∀ ref : Ref,
      (deleteCatalogResources rows fun ref => !c.resources.contains ref)[ref]? =
        if c.resources[ref]?.isSome then rows[ref]? else none := by
    intro ref
    rw [deleteCatalogResources, Dict.getElem?_dissoc, Std.ExtTreeMap.contains_eq_isSome_getElem?]
    cases c.resources[ref]? <;> simp
  constructor
  · intro h ref
    cases hins : Dict.alterEach (fun ref _ => insertCatalogResource B c.resources[ref]?)
        (deleteCatalogResources rows fun ref => !c.resources.contains ref)
        (c.resources.keys.filter fun ref => !rows.contains ref) with
    | error e =>
      simp only [addResources, hins] at h
      cases h
    | ok mid =>
      simp only [addResources, hins] at h
      have hmid := (Dict.alterEach_eq_ok_iff _ _ (hnodup.filter _) _ _).mp hins ref
      have hnew := (Dict.alterEach_eq_ok_iff _ _ (hnodup.filter _) _ _).mp h ref
      rw [hmem, hrows, hdeleted] at hmid
      rw [hmem, hrows] at hnew
      refine ⟨fun hnone => ?_, fun r hr => ⟨fun hnone => ?_, fun row hrow => ?_⟩⟩
      · simp only [hnone] at hmid hnew
        rw [hnew.2 (by simp), hmid.2 (by simp)]
        simp
      · simp only [hr, hnone] at hmid hnew
        rw [hnew.2 (by simp)]
        exact hmid.1 (by simp)
      · simp only [hr, hrow] at hmid hnew
        rw [hmid.2 (by simp)] at hnew
        simpa using hnew.1 (by simp)
  · intro h
    -- the state between the inserts and the updates
    have hins : Dict.alterEach (fun ref _ => insertCatalogResource B c.resources[ref]?)
        (deleteCatalogResources rows fun ref => !c.resources.contains ref)
        (c.resources.keys.filter fun ref => !rows.contains ref) =
          .ok ((deleteCatalogResources rows fun ref => !c.resources.contains ref) ∪
            Dict.selectKeys rows' fun ref => !rows.contains ref) := by
      refine (Dict.alterEach_eq_ok_iff _ _ (hnodup.filter _) _ _).mpr fun ref => ?_
      rw [hmem, Std.ExtTreeMap.getElem?_union, Dict.getElem?_selectKeys, hdeleted, hrows]
      obtain ⟨hgone, hkept⟩ := h ref
      cases hr : c.resources[ref]? with
      | none => simp [hgone hr]
      | some r =>
        cases hrow : rows[ref]? with
        | none => simpa using (hkept r hr).1 hrow
        | some row => simp
    simp only [addResources, hins]
    refine (Dict.alterEach_eq_ok_iff _ _ (hnodup.filter _) _ _).mpr fun ref => ?_
    rw [hmem, Std.ExtTreeMap.getElem?_union, Dict.getElem?_selectKeys, hdeleted, hrows]
    obtain ⟨hgone, hkept⟩ := h ref
    cases hr : c.resources[ref]? with
    | none => cases hrow : rows[ref]? <;> simp [hgone hr]
    | some r =>
      cases hrow : rows[ref]? with
      | none => simp
      | some row => simpa using (hkept r hr).2 row hrow

/-- The database takes every row the catalog asks for, and every stored row can become
its new one. -/
def Fits (B : Backend Digest) (rows : Dict Ref Row) (c : Catalog) : Prop :=
  ∀ (ref : Ref) (r : Attributes), c.resources[ref]? = some r →
    checkRow B (insertedRow B r) = .ok (insertedRow B r) ∧
      ∀ row, rows[ref]? = some row → Updatable row r

/-- Every stored row is one the database takes. -/
def RowsChecked (B : Backend Digest) (rows : Dict Ref Row) : Prop :=
  ∀ (ref : Ref) (row : Row), rows[ref]? = some row → checkRow B row = .ok row

theorem insertCatalogResource_eq_insertedRow_iff (B : Backend Digest) (r : Attributes) :
    insertCatalogResource B (some r) = .ok (some (insertedRow B r)) ↔
      checkRow B (insertedRow B r) = .ok (insertedRow B r) := by
  show some <$> checkRow B (insertedRow B r) = _ ↔ _
  cases h : checkRow B (insertedRow B r) with
  | error e => exact iff_of_false nofun nofun
  | ok row =>
    rw [((checkRow_eq_ok_iff B _ _).mp h).1]
    exact iff_of_true rfl rfl

/-- The diff leaves exactly the incoming resources behind when the catalog fits. -/
theorem addResources_exact_iff (B : Backend Digest) (c : Catalog) (rows : Dict Ref Row)
    (hrows : RowsChecked B rows) :
    (∃ rows', addResources B c rows = .ok rows' ∧
      ∀ ref : Ref, rows'[ref]? = c.resources[ref]?.map (insertedRow B)) ↔ Fits B rows c := by
  constructor
  · rintro ⟨rows', hadd, hexact⟩ ref r hr
    have hadd := ((addResources_eq_ok_iff B c rows rows').mp hadd ref).2 r hr
    rw [hexact ref, hr, Option.map_some] at hadd
    cases hrow : rows[ref]? with
    | none => exact ⟨(insertCatalogResource_eq_insertedRow_iff B r).mp (hadd.1 hrow), nofun⟩
    | some row =>
      have hupdate := (updateCatalogResource_eq_insertedRow_iff B row r
        (named_of_resource c ref r hr) (hrows ref row hrow)).mp (hadd.2 row hrow)
      refine ⟨hupdate.1, fun row' h => ?_⟩
      cases h
      exact hupdate.2
  · intro hfits
    have hlookup : ∀ ref : Ref, (c.resources.map fun _ r => insertedRow B r)[ref]? =
        c.resources[ref]?.map (insertedRow B) := fun ref => Std.ExtTreeMap.getElem?_map
    refine ⟨c.resources.map fun _ r => insertedRow B r, ?_, hlookup⟩
    refine (addResources_eq_ok_iff B c rows _).mpr fun ref => ?_
    rw [hlookup]
    refine ⟨fun hnone => by rw [hnone]; rfl, fun r hr => ?_⟩
    obtain ⟨hcheck, hupd⟩ := hfits ref r hr
    rw [hr, Option.map_some]
    refine ⟨fun _ => (insertCatalogResource_eq_insertedRow_iff B r).mpr hcheck,
      fun row hrow => ?_⟩
    exact (updateCatalogResource_eq_insertedRow_iff B row r (named_of_resource c ref r hr)
      (hrows ref row hrow)).mpr ⟨hcheck, hupd row hrow⟩

/-- Catalogs with one similarity hash have the same rows. -/
theorem insertedRow_eq_of_similar (B : Backend Digest)
    (hB : Function.Injective B.similarityHash) (c d : Catalog)
    (h : catalogSimilarityHash B c = catalogSimilarityHash B d) (ref : Ref) :
    c.resources[ref]?.map (insertedRow B) = d.resources[ref]?.map (insertedRow B) := by
  have hformat := catalogSimilarityFormat_resources c d (hB h) ref
  -- the row does not depend on the keys the format drops
  have hrow : ∀ r : Attributes,
      insertedRow B r = insertedRow B (catalogResourceIdentityFormat r) := by
    intro r
    funext col
    cases col <;> rfl
  have hmap : ∀ o : Option Attributes, o.map (insertedRow B) =
      (o.map catalogResourceIdentityFormat).map (insertedRow B) := by
    intro o
    cases o with
    | none => rfl
    | some r => exact congrArg some (hrow r)
  rw [hmap, hformat, ← hmap]

theorem edgeRows_eq_of_similar (B : Backend Digest)
    (hB : Function.Injective B.similarityHash) (c d : Catalog)
    (h : catalogSimilarityHash B c = catalogSimilarityHash B d) : edgeRows B c = edgeRows B d := by
  have hedges : c.edges = d.edges := (Prod.ext_iff.mp (Prod.ext_iff.mp (hB h)).2).2
  have hrefs : refsToHashes B c = refsToHashes B d := by
    funext ref
    have hrow := insertedRow_eq_of_similar B hB c d h ref
    have hcell := congrArg (Option.map fun row : Row => row .resource) hrow
    simp only [Option.map_map] at hcell
    unfold refsToHashes
    cases hc : c.resources[ref]? <;> cases hd : d.resources[ref]? <;>
      simp_all [insertedRow]
  rw [edgeRows, edgeRows, hedges, hrefs]

section Runs

variable [DecidableEq Digest]

/-- An accepted catalog succeeds and leaves exactly itself in the rows of its node. -/
def StoresExactly (B : Backend Digest) (s : CatalogStore Digest) (call : Catalog × Instant) :
    Prop :=
  ¬ Stale s call.1 → ∃ s', replaceCatalog B s call.1 call.2 =
      .ok (s', .incorporated (catalogSimilarityHash B call.1)) ∧
    Holds B (s'.nodes call.1.certname) call.1

/-- The database takes an accepted catalog's own row, and the catalog has the stored
hash or fits the stored rows. -/
def StorableOver (B : Backend Digest) (s : CatalogStore Digest) (call : Catalog × Instant) :
    Prop :=
  ¬ Stale s call.1 →
    B.takesCatalog (catalogRowMap (catalogSimilarityHash B call.1) call.1 call.2) = true ∧
    ((s.nodes call.1.certname).metadata.map (·.hash) = some (catalogSimilarityHash B call.1) ∨
      Fits B (s.nodes call.1.certname).resources call.1)

/-- What every reachable node satisfies: its rows passed the constraints, and they are
those of a catalog with the stored hash. -/
structure NodeOk (B : Backend Digest) (node : NodeCatalog Digest) : Prop where
  checked : RowsChecked B node.resources
  held : ∀ row ∈ node.metadata, ∃ c, catalogSimilarityHash B c = row.hash ∧ Holds B node c

/-- Everything a submission can do. -/
theorem replaceCatalog_cases (B : Backend Digest) (s : CatalogStore Digest) (c : Catalog)
    (received : Instant) :
    (Stale s c ∧ replaceCatalog B s c received = .ok (s, .stale)) ∨
    (¬ Stale s c ∧ ∃ e, incorporate B (s.nodes c.certname) c received = .error e ∧
      replaceCatalog B s c received = .error e) ∨
    (¬ Stale s c ∧ ∃ node s', incorporate B (s.nodes c.certname) c received = .ok node ∧
      s'.nodes = Function.update s.nodes c.certname node ∧
      replaceCatalog B s c received = .ok (s', .incorporated (catalogSimilarityHash B c))) := by
  unfold replaceCatalog
  by_cases hstale : Stale s c
  · exact .inl ⟨hstale, if_pos hstale⟩
  · simp only [if_neg hstale]
    cases h : incorporate B (s.nodes c.certname) c received with
    | error e => exact .inr (.inl ⟨hstale, e, rfl, rfl⟩)
    | ok node => exact .inr (.inr ⟨hstale, node, _, rfl, rfl, rfl⟩)

/-- Everything the accepted branch can do to the rows of the node. -/
theorem incorporate_cases (B : Backend Digest) (node : NodeCatalog Digest) (c : Catalog)
    (received : Instant) (node' : NodeCatalog Digest) :
    incorporate B node c received = .ok node' ↔
      B.takesCatalog (catalogRowMap (catalogSimilarityHash B c) c received) = true ∧
      node'.metadata = some (catalogRowMap (catalogSimilarityHash B c) c received) ∧
      if node.metadata.map (·.hash) = some (catalogSimilarityHash B c) then
        node'.resources = node.resources ∧ node'.edges = node.edges
      else addResources B c node.resources = .ok node'.resources ∧
        node'.edges = edgeRows B c := by
  unfold incorporate updateCatalogMetadata
  by_cases htakes : B.takesCatalog (catalogRowMap (catalogSimilarityHash B c) c received) = true
  · simp only [htakes, if_true, true_and]
    by_cases hhit : node.metadata.map (·.hash) = some (catalogSimilarityHash B c)
    · simp only [if_pos hhit]
      cases node'
      constructor
      · intro h
        cases h
        exact ⟨rfl, rfl, rfl⟩
      · rintro ⟨rfl, rfl, rfl⟩
        rfl
    · simp only [if_neg hhit, updateCatalogAssociations]
      cases hadd : addResources B c node.resources with
      | error e =>
        refine iff_of_false ?_ ?_
        · intro h
          simp only [bind, Except.bind, hadd] at h
          cases h
        · rintro ⟨-, h, -⟩
          cases h
      | ok rows =>
        cases node'
        simp only [bind, Except.bind, hadd, pure, Except.pure, replaceEdges_eq]
        constructor
        · intro h
          cases h
          exact ⟨rfl, rfl, rfl⟩
        · rintro ⟨rfl, h, rfl⟩
          cases h
          rfl
  · simp only [if_neg htakes]
    refine iff_of_false ?_ fun h => htakes h.1
    intro h
    cases h

/-- One accepted catalog: it ends up exactly in the rows when it is storable. -/
theorem incorporate_holds_iff (B : Backend Digest) (hB : Function.Injective B.similarityHash)
    (node : NodeCatalog Digest) (hnode : NodeOk B node) (c : Catalog) (received : Instant) :
    (∃ node', incorporate B node c received = .ok node' ∧ Holds B node' c) ↔
      B.takesCatalog (catalogRowMap (catalogSimilarityHash B c) c received) = true ∧
      (node.metadata.map (·.hash) = some (catalogSimilarityHash B c) ∨
        Fits B node.resources c) := by
  by_cases hhit : node.metadata.map (·.hash) = some (catalogSimilarityHash B c)
  · -- the stored catalog has the incoming one's content, so its rows are right already
    have hheld : Holds B node c := by
      obtain ⟨row, hrow, hhash⟩ := Option.map_eq_some_iff.mp hhit
      obtain ⟨d, hd, hholds⟩ := hnode.held row hrow
      have hsim : catalogSimilarityHash B d = catalogSimilarityHash B c := hd.trans hhash
      refine ⟨fun ref => ?_, ?_⟩
      · rw [hholds.resources ref, insertedRow_eq_of_similar B hB d c hsim ref]
      · rw [hholds.edges, edgeRows_eq_of_similar B hB d c hsim]
    constructor
    · rintro ⟨node', h, -⟩
      exact ⟨((incorporate_cases B node c received node').mp h).1, .inl hhit⟩
    · rintro ⟨htakes, -⟩
      refine ⟨⟨some (catalogRowMap (catalogSimilarityHash B c) c received), node.resources,
        node.edges⟩, ?_, ⟨hheld.resources, hheld.edges⟩⟩
      refine (incorporate_cases B node c received _).mpr ⟨htakes, rfl, ?_⟩
      rw [if_pos hhit]
      exact ⟨rfl, rfl⟩
  · have hexact := addResources_exact_iff B c node.resources hnode.checked
    constructor
    · rintro ⟨node', h, hholds⟩
      obtain ⟨htakes, -, hrest⟩ := (incorporate_cases B node c received node').mp h
      rw [if_neg hhit] at hrest
      exact ⟨htakes, .inr (hexact.mp ⟨_, hrest.1, hholds.resources⟩)⟩
    · rintro ⟨htakes, h | hfits⟩
      · exact absurd h hhit
      · obtain ⟨rows', hadd, hrows'⟩ := hexact.mpr hfits
        refine ⟨⟨some (catalogRowMap (catalogSimilarityHash B c) c received), rows',
          edgeRows B c⟩, ?_, ⟨hrows', rfl⟩⟩
        refine (incorporate_cases B node c received _).mpr ⟨htakes, rfl, ?_⟩
        rw [if_neg hhit]
        exact ⟨hadd, rfl⟩

theorem storesExactly_iff_storableOver (B : Backend Digest)
    (hB : Function.Injective B.similarityHash) (s : CatalogStore Digest)
    (call : Catalog × Instant) (hs : ∀ certname, NodeOk B (s.nodes certname)) :
    StoresExactly B s call ↔ StorableOver B s call := by
  unfold StoresExactly StorableOver
  have hone := incorporate_holds_iff B hB _ (hs call.1.certname) call.1 call.2
  by_cases hstale : Stale s call.1
  · exact iff_of_true (absurd hstale) (absurd hstale)
  · simp only [hstale, not_false_eq_true, forall_const]
    rw [← hone]
    obtain ⟨h, -⟩ | ⟨-, e, hinc, hrep⟩ | ⟨-, node, s', hinc, hnodes, hrep⟩ :=
      replaceCatalog_cases B s call.1 call.2
    · exact absurd h hstale
    · rw [hinc, hrep]
      refine iff_of_false ?_ ?_
      · rintro ⟨s', h, -⟩
        cases h
      · rintro ⟨node', h, -⟩
        cases h
    · rw [hinc, hrep]
      constructor
      · rintro ⟨s'', h, hholds⟩
        cases h
        rw [hnodes, Function.update_self] at hholds
        exact ⟨node, rfl, hholds⟩
      · rintro ⟨node', h, hholds⟩
        cases h
        refine ⟨s', rfl, ?_⟩
        rw [hnodes, Function.update_self]
        exact hholds

/-- A catalog that ends up in the rows leaves every node as the invariant has it. -/
theorem store_nodeOk (B : Backend Digest) (hB : Function.Injective B.similarityHash)
    (s : CatalogStore Digest) (call : Catalog × Instant)
    (hs : ∀ certname, NodeOk B (s.nodes certname)) (hexact : StoresExactly B s call)
    (certname : String) : NodeOk B ((store B s call).nodes certname) := by
  unfold store
  obtain ⟨-, hrep⟩ | ⟨-, e, -, hrep⟩ | ⟨hstale, node, s', hinc, hnodes, hrep⟩ :=
    replaceCatalog_cases B s call.1 call.2
  · rw [hrep]
    exact hs certname
  · rw [hrep]
    exact hs certname
  · rw [hrep]
    simp only [hnodes]
    by_cases hc : certname = call.1.certname
    · subst hc
      rw [Function.update_self]
      obtain ⟨-, hmeta, hrest⟩ := (incorporate_cases B _ call.1 call.2 node).mp hinc
      have hholds : Holds B node call.1 := by
        obtain ⟨s'', h, hholds⟩ := hexact hstale
        rw [hrep] at h
        cases h
        rwa [hnodes, Function.update_self] at hholds
      refine ⟨?_, fun row hrow => ?_⟩
      · have hstorable := (storesExactly_iff_storableOver B hB s call hs).mp hexact hstale
        split at hrest
        · rw [hrest.1]
          exact (hs call.1.certname).checked
        · rename_i hmiss
          have hfits := hstorable.2.resolve_left hmiss
          intro ref row hrow
          rw [hholds.resources ref] at hrow
          obtain ⟨r, hr, rfl⟩ := Option.map_eq_some_iff.mp hrow
          exact (hfits ref r hr).1
      · rw [hmeta] at hrow
        cases hrow
        exact ⟨call.1, rfl, hholds⟩
    · rw [Function.update_of_ne hc]
      exact hs certname

theorem store_of_stale (B : Backend Digest) (s : CatalogStore Digest)
    (call : Catalog × Instant) (h : Stale s call.1) : store B s call = s := by
  have hrep : replaceCatalog B s call.1 call.2 = .ok (s, .stale) := if_pos h
  rw [store, hrep]

/-- A storable catalog that is not stale is what its node holds afterwards. -/
theorem store_of_fresh (B : Backend Digest) (hB : Function.Injective B.similarityHash)
    (s : CatalogStore Digest) (call : Catalog × Instant)
    (hs : ∀ certname, NodeOk B (s.nodes certname)) (hcall : StorableOver B s call)
    (h : ¬ Stale s call.1) :
    Holds B ((store B s call).nodes call.1.certname) call.1 ∧
      ((store B s call).nodes call.1.certname).metadata =
        some (catalogRowMap (catalogSimilarityHash B call.1) call.1 call.2) := by
  obtain ⟨s', hrep, hholds⟩ := (storesExactly_iff_storableOver B hB s call hs).mpr hcall h
  have hstore : store B s call = s' := by rw [store, hrep]
  rw [hstore]
  refine ⟨hholds, ?_⟩
  obtain ⟨hstale, -⟩ | ⟨-, e, -, he⟩ | ⟨-, node, s'', hinc, hnodes, he⟩ :=
    replaceCatalog_cases B s call.1 call.2
  · exact absurd hstale h
  · rw [he] at hrep
    cases hrep
  · rw [he] at hrep
    cases hrep
    rw [hnodes, Function.update_self]
    exact ((incorporate_cases B _ call.1 call.2 node).mp hinc).2.1

omit [DecidableEq Digest] in
theorem nodeOk_empty (B : Backend Digest) (certname : String) :
    NodeOk B ((CatalogStore.empty : CatalogStore Digest).nodes certname) := by
  refine ⟨fun ref row h => ?_, fun row h => ?_⟩
  · simp [CatalogStore.empty] at h
  · simp [CatalogStore.empty] at h

end Runs

/-- The content of a similarity format, in reference order. -/
structure Content where
  certname : String
  resources : List (Ref × List (Option Cell))
  edges : Finset Edge
  deriving DecidableEq

def attributeValues (r : Attributes) : List (Option Cell) :=
  [Attr.type, .title, .exported, .file, .line, .tags, .aliases, .parameters, .resource].map r

/-- A database that takes every row, with hashes that keep what they hash. -/
def contentBackend : Backend Content where
  similarityHash := fun format =>
    ⟨format.1, format.2.1.toList.map fun (ref, r) => (ref, attributeValues r), format.2.2⟩
  resourceIdentityHash
    | .str type, .str title, _ => type ++ "[" ++ title ++ "]"
    | _, _, _ => ""
  takesCatalog := fun _ => true
  takesResource := fun _ => true

theorem attributeValues_injective : Function.Injective attributeValues := by
  intro r r' h
  simp only [attributeValues, List.map_cons, List.map_nil, List.cons.injEq] at h
  funext k
  cases k <;> simp_all

theorem contentBackend_injective : Function.Injective contentBackend.similarityHash := by
  rintro ⟨certname, resources, edges⟩ ⟨certname', resources', edges'⟩ h
  simp only [contentBackend, Content.mk.injEq] at h
  have hlist : resources.toList = resources'.toList := by
    refine List.map_injective_iff.mpr ?_ h.2.1
    rintro ⟨ref, r⟩ ⟨ref', r'⟩ he
    simp only [Prod.mk.injEq] at he
    exact Prod.ext he.1 (attributeValues_injective he.2)
  have hresources : resources = resources' := Std.ExtTreeMap.ext_toList (by rw [hlist])
  rw [h.1, hresources, h.2.2]

/-- `File[/etc/motd]`, with the given `:file`. -/
def motd (file : Option Cell) : Attributes
  | .type => some (.str "File")
  | .title => some (.str "/etc/motd")
  | .exported => some (.bool false)
  | .file => file
  | .tags => some (.strs ∅)
  | .parameters => some (.json (.obj []))
  | _ => none

def motdResources (file : Option Cell) : Dict Ref Attributes :=
  (∅ : Dict Ref Attributes).insert ⟨"File", "/etc/motd"⟩ (motd file)

theorem motd_of_getElem? {file : Option Cell} {ref : Ref} {r : Attributes}
    (h : (motdResources file)[ref]? = some r) : ref = ⟨"File", "/etc/motd"⟩ ∧ r = motd file := by
  rw [motdResources, Std.ExtTreeMap.getElem?_insert] at h
  split at h
  · rename_i heq
    exact ⟨(Std.LawfulEqOrd.eq_of_compare heq).symm, (Option.some.inj h).symm⟩
  · simp at h

def motdCatalog (t : Instant) (file : Option Cell) : Catalog where
  certname := "n"
  version := "1"
  environment := none
  transactionUuid := none
  catalogUuid := none
  codeId := none
  jobId := none
  producerTimestamp := t
  producer := none
  resources := motdResources file
  edges := ∅
  type_eq := by
    intro ref r h
    obtain ⟨rfl, rfl⟩ := motd_of_getElem? h
    rfl
  title_eq := by
    intro ref r h
    obtain ⟨rfl, rfl⟩ := motd_of_getElem? h
    rfl
  tags_eq := by
    intro ref r h
    obtain ⟨rfl, rfl⟩ := motd_of_getElem? h
    exact ⟨∅, rfl⟩
  stripped := by
    intro ref r h
    obtain ⟨rfl, rfl⟩ := motd_of_getElem? h
    rfl
  resolved := by simp

end OpenVoxDB.CatalogStorage
