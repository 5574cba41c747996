import OpenVoxDB.CatalogStorage

/-!
# Parameters of stored resources

A stored resource does not hold its parameters: these are in a table of their own, under the hash
of the resource. A garbage collection deletes the rows of that table that no stored resource has
the hash of. What a node's resources read back is not touched by it, nor by what happens to other
nodes.
-/

namespace OpenVoxDB.ResourceParams

open Catalogs CatalogStorage

variable {Digest : Type}

/-- The names in `certnames`, and what is stored of their catalogs. -/
structure Tables (Digest : Type) where
  certnames : List String
  catalogs : CatalogStore Digest

def Tables.empty : Tables Digest := ⟨[], CatalogStore.empty⟩

inductive Op where
  | replaceCatalog (catalog : Catalog) (received : Instant)
  | deleteCertname (certname : String)
  | deleteUnassociatedParams

def noCatalog : NodeCatalog Digest := ⟨none, ∅, ∅⟩

/-- The rows that refer to a node go with it. -/
def deleteCertname (t : Tables Digest) (certname : String) : Tables Digest where
  certnames := t.certnames.filter (· ≠ certname)
  catalogs := ⟨Function.update t.catalogs.nodes certname noCatalog, t.catalogs.paramsCache⟩

/-- Some row of `catalog_resources` has the hash. -/
def associated (t : Tables Digest) (hash : String) : Bool :=
  t.certnames.any fun n =>
    (t.catalogs.nodes n).resources.toList.any fun entry => entry.2 .resource = .str hash

/-- `delete-unassociated-params!` -/
def deleteUnassociatedParams (t : Tables Digest) : Tables Digest where
  certnames := t.certnames
  catalogs := ⟨t.catalogs.nodes, t.catalogs.paramsCache.filter fun row => associated t row.1⟩

/-- The parameters that the query for resources finds for a row. -/
def parametersOf (cache : List (String × Cell)) (row : Row) : Option Cell :=
  match row .resource with
  | .str hash => (cache.find? fun entry => entry.1 = hash).map Prod.snd
  | _ => none

/-- The node's resources are those of the catalog, with its parameters. -/
def ReadsBack (s : CatalogStore Digest) (certname : String) (c : Catalog) : Prop :=
  ∀ ref : Ref, (s.nodes certname).resources[ref]?.map (parametersOf s.paramsCache) =
    c.resources[ref]?.map fun r => some (r.get .parameters)

/-- A resource of a catalog that is submitted. -/
def Submitted (ops : List Op) (r : Attributes) : Prop :=
  ∃ c received, Op.replaceCatalog c received ∈ ops ∧ ∃ ref : Ref, c.resources[ref]? = some r

/-- Resources with different parameters have different hashes. -/
def CollisionFree (B : Backend Digest) (ops : List Op) : Prop :=
  ∀ r r', Submitted ops r → Submitted ops r' → resourceHash B r = resourceHash B r' →
    r.get .parameters = r'.get .parameters

section Steps

variable [DecidableEq Digest]

/-- Each operation is a transaction of its own. The command's node is there before its catalog. -/
def step (B : Backend Digest) (t : Tables Digest) : Op → Tables Digest
  | .replaceCatalog c received =>
    match CatalogStorage.replaceCatalog B t.catalogs c received with
    | .ok (s, _) => ⟨if c.certname ∈ t.certnames then t.certnames
        else t.certnames ++ [c.certname], s⟩
    | .error _ => t
  | .deleteCertname certname => deleteCertname t certname
  | .deleteUnassociatedParams => deleteUnassociatedParams t

/-- The catalog is newer than the stored one, and the database takes its rows. -/
def Accepted (B : Backend Digest) (t : Tables Digest) (c : Catalog) (received : Instant) : Prop :=
  ¬ Stale t.catalogs c ∧
    (CatalogStorage.replaceCatalog B t.catalogs c received).toBool = true

/-- The operation replaces or deletes what is stored of the node. -/
def Touches (B : Backend Digest) (certname : String) (t : Tables Digest) : Op → Prop
  | .replaceCatalog c received => c.certname = certname ∧ Accepted B t c received
  | .deleteCertname n => n = certname
  | .deleteUnassociatedParams => False

end Steps

/-! ## The table of the parameters -/

theorem parametersOf_str (cache : List (String × Cell)) (row : Row) (hash : String)
    (h : row .resource = .str hash) :
    parametersOf cache row = (cache.find? fun entry => entry.1 = hash).map Prod.snd := by
  rw [parametersOf, h]

/-- A row that finds its parameters finds them among more. -/
theorem parametersOf_append (cache rest : List (String × Cell)) (row : Row) (p : Cell)
    (h : parametersOf cache row = some p) : parametersOf (cache ++ rest) row = some p := by
  unfold parametersOf at h ⊢
  split at h
  · obtain ⟨entry, hfind, rfl⟩ := Option.map_eq_some_iff.mp h
    rw [List.find?_append, hfind]
    rfl
  · cases h

theorem parametersOf_filter (cache : List (String × Cell)) (keep : String → Bool) (row : Row)
    (hkeep : ∀ hash, row .resource = .str hash → keep hash = true) :
    parametersOf (cache.filter fun entry => keep entry.1) row = parametersOf cache row := by
  unfold parametersOf
  split
  · rename_i hash hrow
    rw [List.find?_filter]
    congr 2
    funext entry
    by_cases he : entry.1 = hash
    · simp [he, hkeep hash hrow]
    · simp [he]
  · rfl

/-- Where the entries of the table come from. -/
def CacheOf (B : Backend Digest) (ops : List Op) (cache : List (String × Cell)) : Prop :=
  ∀ entry ∈ cache, ∃ r, Submitted ops r ∧ entry = (resourceHash B r, r.get .parameters)

/-- One turn of `add-params!`. -/
def addParam (B : Backend Digest) (cache : List (String × Cell)) (r : Attributes) :
    List (String × Cell) :=
  if cache.any fun row => row.1 = resourceHash B r then cache
  else cache ++ [(resourceHash B r, r.get .parameters)]

theorem addParams_eq (B : Backend Digest) (c : Catalog) (cache : List (String × Cell)) :
    addParams B c cache = (c.resources.toList.map Prod.snd).foldl (addParam B) cache := by
  rw [List.foldl_map]
  rfl

theorem addParam_append (B : Backend Digest) (cache : List (String × Cell)) (r : Attributes) :
    ∃ rest, addParam B cache r = cache ++ rest := by
  unfold addParam
  split
  · exact ⟨[], (List.append_nil cache).symm⟩
  · exact ⟨_, rfl⟩

theorem addParams_append (B : Backend Digest) (rs : List Attributes)
    (cache : List (String × Cell)) : ∃ rest, rs.foldl (addParam B) cache = cache ++ rest := by
  induction rs generalizing cache with
  | nil => exact ⟨[], (List.append_nil cache).symm⟩
  | cons r rs ih =>
    obtain ⟨first, hfirst⟩ := addParam_append B cache r
    obtain ⟨rest, hrest⟩ := ih (addParam B cache r)
    exact ⟨first ++ rest, by rw [List.foldl_cons, hrest, hfirst, List.append_assoc]⟩

theorem cacheOf_addParams (B : Backend Digest) (ops : List Op) (rs : List Attributes)
    (cache : List (String × Cell)) (hcache : CacheOf B ops cache)
    (hrs : ∀ r ∈ rs, Submitted ops r) : CacheOf B ops (rs.foldl (addParam B) cache) := by
  induction rs generalizing cache with
  | nil => exact hcache
  | cons r rs ih =>
    refine ih (addParam B cache r) ?_ fun r' hr' => hrs r' (List.mem_cons_of_mem _ hr')
    unfold addParam
    split
    · exact hcache
    · intro entry hentry
      rcases List.mem_append.mp hentry with hentry | hentry
      · exact hcache entry hentry
      · exact ⟨r, hrs r List.mem_cons_self, List.mem_singleton.mp hentry⟩

/-- The entry under the hash of a submitted resource has its parameters. -/
theorem find?_of_cacheOf (B : Backend Digest) (ops : List Op) (cache : List (String × Cell))
    (hcache : CacheOf B ops cache) (hfree : CollisionFree B ops) (r : Attributes)
    (hr : Submitted ops r) (hmem : cache.any (fun entry => entry.1 = resourceHash B r) = true) :
    (cache.find? fun entry => entry.1 = resourceHash B r).map Prod.snd =
      some (r.get .parameters) := by
  cases hfind : cache.find? fun entry => entry.1 = resourceHash B r with
  | none =>
    obtain ⟨entry, hentry, he⟩ := List.any_eq_true.mp hmem
    exact absurd he (List.find?_eq_none.mp hfind entry hentry)
  | some entry =>
    obtain ⟨r', hr', rfl⟩ := hcache entry (List.mem_of_find?_eq_some hfind)
    have he := List.find?_some hfind
    rw [Option.map_some, hfree r' r hr' hr (by simpa using he)]

theorem mem_addParams (B : Backend Digest) (rs : List Attributes) (cache : List (String × Cell))
    (r : Attributes) (hr : r ∈ rs) :
    (rs.foldl (addParam B) cache).any (fun entry => entry.1 = resourceHash B r) = true := by
  induction rs generalizing cache with
  | nil => cases hr
  | cons r' rs ih =>
    rw [List.foldl_cons]
    rcases List.mem_cons.mp hr with rfl | hr
    · obtain ⟨rest, hrest⟩ := addParams_append B rs (addParam B cache r)
      rw [hrest, List.any_append]
      unfold addParam
      split
      · rename_i hany
        simp [hany]
      · simp
    · exact ih _ hr

/-! ## Storing a catalog -/

theorem resource_of_insert (B : Backend Digest) (r : Attributes) (o : Option Row)
    (h : insertCatalogResource B (some r) = .ok o) :
    ∃ row, o = some row ∧ row .resource = .str (resourceHash B r) := by
  cases hcheck : checkRow B (insertedRow B r) with
  | error e =>
    rw [insertCatalogResource, hcheck] at h
    cases h
  | ok row =>
    rw [insertCatalogResource, hcheck] at h
    cases h
    obtain ⟨rfl, -⟩ := (checkRow_eq_ok_iff B _ _).mp hcheck
    exact ⟨_, rfl, rfl⟩

/-- A row that is updated has the hash of the resource that it is updated for. -/
theorem resource_of_update (B : Backend Digest) (r : Attributes) (row : Row) (o : Option Row)
    (h : updateCatalogResource B (some r) (some row) = .ok o) :
    ∃ row', o = some row' ∧ row' .resource = .str (resourceHash B r) := by
  have hhash : (updatesFor B row r .resource).getD (row .resource) =
      .str (resourceHash B r) := updatesFor_getD B row r .resource
  have hdef : updateCatalogResource B (some r) (some row) =
      if noUpdates (updatesFor B row r) then .ok (some row)
      else some <$> updateRow B row (updatesFor B row r) := rfl
  rw [hdef] at h
  split at h
  · rename_i hno
    cases h
    rw [(noUpdates_iff _).mp hno .resource] at hhash
    exact ⟨row, rfl, hhash⟩
  · unfold updateRow at h
    split at h
    · cases h
    · cases hcheck : checkRow B fun col => (updatesFor B row r col.attr).getD (row col) with
      | error e =>
        rw [hcheck] at h
        cases h
      | ok row' =>
        rw [hcheck] at h
        cases h
        obtain ⟨rfl, -⟩ := (checkRow_eq_ok_iff B _ _).mp hcheck
        exact ⟨_, rfl, hhash⟩

/-- After the diff each resource of the catalog has a row with its hash, and no other row is
left. -/
theorem resource_of_addResources (B : Backend Digest) (c : Catalog) (rows rows' : Dict Ref Row)
    (h : addResources B c rows = .ok rows') (ref : Ref) :
    rows'[ref]?.map (fun row => row .resource) =
      c.resources[ref]?.map fun r => .str (resourceHash B r) := by
  obtain ⟨hgone, hkept⟩ := (addResources_eq_ok_iff B c rows rows').mp h ref
  cases hr : c.resources[ref]? with
  | none => rw [hgone hr, Option.map_none, Option.map_none]
  | some r =>
    have hrow : ∃ row, rows'[ref]? = some row ∧ row .resource = .str (resourceHash B r) := by
      cases hold : rows[ref]? with
      | none => exact resource_of_insert B r _ ((hkept r hr).1 hold)
      | some row => exact resource_of_update B r row _ ((hkept r hr).2 row hold)
    obtain ⟨row, hrow, hhash⟩ := hrow
    rw [hrow, Option.map_some, hhash, Option.map_some]

/-- Catalogs with one similarity hash have the same parameters. -/
theorem parameters_of_similar (B : Backend Digest) (hB : Function.Injective B.similarityHash)
    (c d : Catalog) (h : catalogSimilarityHash B c = catalogSimilarityHash B d) (ref : Ref) :
    c.resources[ref]?.map (fun r => some (r.get .parameters)) =
      d.resources[ref]?.map fun r => some (r.get .parameters) := by
  have hformat := catalogSimilarityFormat_resources c d (hB h) ref
  have hmap : ∀ o : Option Attributes, o.map (fun r => some (r.get .parameters)) =
      (o.map catalogResourceIdentityFormat).map fun r => some (r.get .parameters) := by
    intro o
    cases o with
    | none => rfl
    | some r => rfl
  rw [hmap, hformat, ← hmap]

section Runs

variable [DecidableEq Digest]

/-- What every run keeps: the table of the parameters holds those of submitted resources, and a
node with a catalog reads back one with the stored hash. -/
structure Inv (B : Backend Digest) (ops : List Op) (t : Tables Digest) : Prop where
  known : ∀ n, n ∉ t.certnames → t.catalogs.nodes n = noCatalog
  cache : CacheOf B ops t.catalogs.paramsCache
  held : ∀ n, ∀ row ∈ (t.catalogs.nodes n).metadata, ∃ c,
    catalogSimilarityHash B c = row.hash ∧ ReadsBack t.catalogs n c

omit [DecidableEq Digest] in
theorem inv_empty (B : Backend Digest) (ops : List Op) : Inv B ops Tables.empty where
  known := fun _ _ => rfl
  cache := by simp [CacheOf, Tables.empty, CatalogStore.empty]
  held := by simp [Tables.empty, CatalogStore.empty]

omit [DecidableEq Digest] in
/-- More entries do not change what is read back. -/
theorem readsBack_append (s : CatalogStore Digest) (rest : List (String × Cell)) (n : String)
    (c : Catalog) (h : ReadsBack s n c) :
    ReadsBack ⟨s.nodes, s.paramsCache ++ rest⟩ n c := by
  intro ref
  have href := h ref
  cases hr : c.resources[ref]? with
  | none =>
    rw [hr, Option.map_none, Option.map_eq_none_iff] at href
    rw [href, Option.map_none, Option.map_none]
  | some r =>
    rw [hr, Option.map_some, Option.map_eq_some_iff] at href
    obtain ⟨row, hrow, hp⟩ := href
    rw [hrow, Option.map_some, parametersOf_append _ _ _ _ hp, Option.map_some]

omit [DecidableEq Digest] in
theorem readsBack_of_nodes_eq (s s' : CatalogStore Digest) (n : String) (c : Catalog)
    (hnode : s'.nodes n = s.nodes n) (hcache : ∃ rest, s'.paramsCache = s.paramsCache ++ rest)
    (h : ReadsBack s n c) : ReadsBack s' n c := by
  obtain ⟨rest, hrest⟩ := hcache
  intro ref
  rw [hnode, hrest]
  exact readsBack_append s rest n c h ref

omit [DecidableEq Digest] in
/-- The garbage collection leaves the parameters of every stored resource. -/
theorem readsBack_gc (t : Tables Digest) (n : String) (c : Catalog)
    (hknown : n ∉ t.certnames → t.catalogs.nodes n = noCatalog) (h : ReadsBack t.catalogs n c) :
    ReadsBack (deleteUnassociatedParams t).catalogs n c := by
  intro ref
  rw [← h ref]
  cases hrow : (t.catalogs.nodes n).resources[ref]? with
  | none => simp [deleteUnassociatedParams, hrow]
  | some row =>
    have hmem : n ∈ t.certnames := by
      by_contra hnot
      rw [hknown hnot] at hrow
      simp [noCatalog] at hrow
    simp only [deleteUnassociatedParams, hrow, Option.map_some]
    rw [parametersOf_filter]
    intro hash hhash
    refine List.any_eq_true.mpr ⟨n, hmem, List.any_eq_true.mpr ⟨(ref, row), ?_, by simpa using hhash⟩⟩
    exact Std.ExtTreeMap.mem_toList_iff_getElem?_eq_some.mpr hrow

/-- What a submission does to the catalogs. -/
theorem step_replaceCatalog (B : Backend Digest) (t : Tables Digest) (c : Catalog)
    (received : Instant) :
    (¬ Accepted B t c received ∧
      (step B t (.replaceCatalog c received)).catalogs = t.catalogs ∧
      ∀ n ∈ t.certnames, n ∈ (step B t (.replaceCatalog c received)).certnames) ∨
    (Accepted B t c received ∧ ∃ node,
      incorporate B (t.catalogs.nodes c.certname) c received = .ok node ∧
      step B t (.replaceCatalog c received) =
        ⟨if c.certname ∈ t.certnames then t.certnames else t.certnames ++ [c.certname],
          Function.update t.catalogs.nodes c.certname node,
          if (t.catalogs.nodes c.certname).metadata.map (·.hash) =
              some (catalogSimilarityHash B c) then t.catalogs.paramsCache
          else addParams B c t.catalogs.paramsCache⟩) := by
  have hcertnames (n : String) (hn : n ∈ t.certnames) :
      n ∈ if c.certname ∈ t.certnames then t.certnames else t.certnames ++ [c.certname] := by
    split
    · exact hn
    · exact List.mem_append_left _ hn
  by_cases hstale : Stale t.catalogs c
  · have hrep : CatalogStorage.replaceCatalog B t.catalogs c received =
        .ok (t.catalogs, .stale) := if_pos hstale
    refine .inl ⟨fun h => h.1 hstale, ?_, ?_⟩ <;> simp only [step, hrep]
    exact hcertnames
  · cases hnode : incorporate B (t.catalogs.nodes c.certname) c received with
    | error e =>
      have hrep : CatalogStorage.replaceCatalog B t.catalogs c received = .error e := by
        rw [CatalogStorage.replaceCatalog, if_neg hstale, hnode]
        rfl
      refine .inl ⟨fun h => ?_, ?_, ?_⟩
      · have h := h.2
        rw [hrep] at h
        cases h
      · simp only [step, hrep]
      · simp only [step, hrep]
        exact fun n hn => hn
    | ok node =>
      have hrep : CatalogStorage.replaceCatalog B t.catalogs c received =
          .ok (⟨Function.update t.catalogs.nodes c.certname node,
            if (t.catalogs.nodes c.certname).metadata.map (·.hash) =
              some (catalogSimilarityHash B c) then t.catalogs.paramsCache
            else addParams B c t.catalogs.paramsCache⟩,
            .incorporated (catalogSimilarityHash B c)) := by
        rw [CatalogStorage.replaceCatalog, if_neg hstale, hnode]
        rfl
      refine .inr ⟨⟨hstale, by rw [hrep]; rfl⟩, node, rfl, ?_⟩
      simp only [step, hrep]

omit [DecidableEq Digest] in
/-- A row with the hash of a resource reads back its parameters once they are in the table. -/
theorem readsBack_of_resource (B : Backend Digest) (ops : List Op) (hfree : CollisionFree B ops)
    (s : CatalogStore Digest) (n : String) (c : Catalog) (hcache : CacheOf B ops s.paramsCache)
    (hc : ∀ (ref : Ref) r, c.resources[ref]? = some r → Submitted ops r ∧
      s.paramsCache.any (fun entry => entry.1 = resourceHash B r) = true)
    (hrows : ∀ ref : Ref, (s.nodes n).resources[ref]?.map (fun row => row .resource) =
      c.resources[ref]?.map fun r => .str (resourceHash B r)) : ReadsBack s n c := by
  intro ref
  have href := hrows ref
  cases hr : c.resources[ref]? with
  | none =>
    rw [hr, Option.map_none, Option.map_eq_none_iff] at href
    rw [href, Option.map_none, Option.map_none]
  | some r =>
    rw [hr, Option.map_some, Option.map_eq_some_iff] at href
    obtain ⟨row, hrow, hhash⟩ := href
    obtain ⟨hsub, hmem⟩ := hc ref r hr
    rw [hrow, Option.map_some, Option.map_some, parametersOf_str _ _ _ hhash,
      find?_of_cacheOf B ops _ hcache hfree r hsub hmem]

/-- A catalog that is accepted reads back. -/
theorem readsBack_accepted (B : Backend Digest) (hB : Function.Injective B.similarityHash)
    (ops : List Op) (hfree : CollisionFree B ops) (t : Tables Digest) (hinv : Inv B ops t)
    (c : Catalog) (received : Instant) (hop : .replaceCatalog c received ∈ ops)
    (haccepted : Accepted B t c received) :
    ReadsBack (step B t (.replaceCatalog c received)).catalogs c.certname c ∧
      CacheOf B ops (step B t (.replaceCatalog c received)).catalogs.paramsCache := by
  obtain ⟨hnot, -⟩ | ⟨-, node, hnode, hstep⟩ := step_replaceCatalog B t c received
  · exact absurd haccepted hnot
  obtain ⟨-, -, hrest⟩ := (incorporate_cases B _ c received node).mp hnode
  have hsub (ref : Ref) (r : Attributes) (hr : c.resources[ref]? = some r) : Submitted ops r :=
    ⟨c, received, hop, ref, hr⟩
  rw [hstep]
  by_cases hhit : (t.catalogs.nodes c.certname).metadata.map (·.hash) =
      some (catalogSimilarityHash B c)
  · -- the rows are those of a catalog with the same hash
    rw [if_pos hhit] at hrest
    simp only [if_pos hhit]
    refine ⟨fun ref => ?_, hinv.cache⟩
    obtain ⟨row, hrow, hhash⟩ := Option.map_eq_some_iff.mp hhit
    obtain ⟨d, hd, hread⟩ := hinv.held c.certname row hrow
    have hrows : (Function.update t.catalogs.nodes c.certname node c.certname).resources =
        (t.catalogs.nodes c.certname).resources := by
      rw [Function.update_self]
      exact hrest.1
    simp only [hrows]
    refine (hread ref).trans ?_
    exact parameters_of_similar B hB d c (hd.trans hhash) ref
  · rw [if_neg hhit] at hrest
    simp only [if_neg hhit]
    have hlist (ref : Ref) (r : Attributes) (hr : c.resources[ref]? = some r) :
        r ∈ c.resources.toList.map Prod.snd :=
      List.mem_map.mpr ⟨(ref, r), Std.ExtTreeMap.mem_toList_iff_getElem?_eq_some.mpr hr, rfl⟩
    have hcache : CacheOf B ops (addParams B c t.catalogs.paramsCache) := by
      rw [addParams_eq]
      refine cacheOf_addParams B ops _ _ hinv.cache fun r hr => ?_
      obtain ⟨⟨ref, r'⟩, hmem, rfl⟩ := List.mem_map.mp hr
      exact hsub ref r' (Std.ExtTreeMap.mem_toList_iff_getElem?_eq_some.mp hmem)
    refine ⟨readsBack_of_resource B ops hfree _ _ c hcache (fun ref r hr => ⟨hsub ref r hr, ?_⟩)
      fun ref => ?_, hcache⟩
    · simp only [addParams_eq]
      exact mem_addParams B _ _ r (hlist ref r hr)
    · simp only [Function.update_self]
      exact resource_of_addResources B c _ _ hrest.1 ref

/-- What a node reads back stays, unless the node itself is touched. -/
theorem readsBack_step (B : Backend Digest) (ops : List Op) (t : Tables Digest)
    (hinv : Inv B ops t) (n : String) (c : Catalog) (op : Op) (hop : ¬ Touches B n t op)
    (h : ReadsBack t.catalogs n c) : ReadsBack (step B t op).catalogs n c := by
  cases op with
  | replaceCatalog d received =>
    obtain ⟨-, hsame, -⟩ | ⟨haccepted, node, -, hstep⟩ := step_replaceCatalog B t d received
    · rw [hsame]
      exact h
    · have hne : n ≠ d.certname := fun he => hop ⟨he.symm, haccepted⟩
      rw [hstep]
      refine readsBack_of_nodes_eq t.catalogs _ n c (Function.update_of_ne hne _ _) ?_ h
      simp only
      split
      · exact ⟨[], (List.append_nil _).symm⟩
      · rw [addParams_eq]
        exact addParams_append B _ _
  | deleteCertname m =>
    have hne : n ≠ m := fun he => hop he.symm
    exact readsBack_of_nodes_eq t.catalogs _ n c (Function.update_of_ne hne _ _)
      ⟨[], (List.append_nil _).symm⟩ h
  | deleteUnassociatedParams => exact readsBack_gc t n c (hinv.known n) h

/-- What one operation keeps. -/
theorem inv_step (B : Backend Digest) (hB : Function.Injective B.similarityHash) (ops : List Op)
    (hfree : CollisionFree B ops) (t : Tables Digest) (hinv : Inv B ops t) (op : Op)
    (hop : op ∈ ops) : Inv B ops (step B t op) := by
  have hheld (n : String) (hnot : ¬ Touches B n t op)
      (hnode : (step B t op).catalogs.nodes n = t.catalogs.nodes n) :
      ∀ row ∈ ((step B t op).catalogs.nodes n).metadata, ∃ c,
        catalogSimilarityHash B c = row.hash ∧ ReadsBack (step B t op).catalogs n c := by
    intro row hrow
    rw [hnode] at hrow
    obtain ⟨c, hhash, hread⟩ := hinv.held n row hrow
    exact ⟨c, hhash, readsBack_step B ops t hinv n c op hnot hread⟩
  cases op with
  | replaceCatalog d received =>
    obtain ⟨hnot, hsame, hnames⟩ | ⟨haccepted, node, hnode, hstep⟩ :=
      step_replaceCatalog B t d received
    · refine ⟨fun n hn => ?_, ?_, fun n => ?_⟩
      · rw [hsame]
        exact hinv.known n fun hmem => hn (hnames n hmem)
      · rw [hsame]
        exact hinv.cache
      · exact hheld n (fun h => hnot h.2) (by rw [hsame])
    · obtain ⟨hread, hcache⟩ := readsBack_accepted B hB ops hfree t hinv d received hop haccepted
      refine ⟨fun n hn => ?_, hcache, fun n => ?_⟩
      · have hne : n ≠ d.certname := by
          rintro rfl
          rw [hstep] at hn
          simp only at hn
          split at hn
          · contradiction
          · simp at hn
        rw [hstep] at hn ⊢
        simp only [Function.update_of_ne hne] at hn ⊢
        refine hinv.known n fun hmem => hn ?_
        split
        · exact hmem
        · exact List.mem_append_left _ hmem
      · by_cases he : n = d.certname
        · subst he
          intro row hrow
          obtain ⟨-, hmeta, -⟩ := (incorporate_cases B _ d received node).mp hnode
          have hrow' : row ∈ node.metadata := by
            rw [hstep] at hrow
            simpa using hrow
          rw [hmeta] at hrow'
          cases hrow'
          exact ⟨d, rfl, hread⟩
        · refine hheld n (fun h => he h.1.symm) ?_
          rw [hstep]
          exact Function.update_of_ne he _ _
  | deleteCertname m =>
    refine ⟨fun n hn => ?_, hinv.cache, fun n => ?_⟩
    · by_cases he : n = m
      · subst he
        exact Function.update_self _ _ _
      · refine (Function.update_of_ne he _ _).trans (hinv.known n fun hmem => hn ?_)
        exact List.mem_filter.mpr ⟨hmem, by simpa using he⟩
    · by_cases he : n = m
      · subst he
        have hnode : (step B t (.deleteCertname n)).catalogs.nodes n = noCatalog :=
          Function.update_self _ _ _
        rw [hnode]
        simp [noCatalog]
      · exact hheld n (fun h => he h.symm) (Function.update_of_ne he _ _)
  | deleteUnassociatedParams =>
    exact ⟨hinv.known, fun entry hentry => hinv.cache entry (List.mem_filter.mp hentry).1,
      fun n => hheld n id rfl⟩

theorem inv_run (B : Backend Digest) (hB : Function.Injective B.similarityHash) (ops : List Op)
    (hfree : CollisionFree B ops) (es : List Op) (hes : ∀ op ∈ es, op ∈ ops) (t : Tables Digest)
    (hinv : Inv B ops t) : Inv B ops (run (step B) t es) := by
  induction es generalizing t with
  | nil => exact hinv
  | cons op es ih =>
    exact ih (fun e he => hes e (List.mem_cons_of_mem _ he)) _
      (inv_step B hB ops hfree t hinv op (hes op List.mem_cons_self))

theorem readsBack_run (B : Backend Digest) (hB : Function.Injective B.similarityHash)
    (ops : List Op) (hfree : CollisionFree B ops) (n : String) (c : Catalog) (es : List Op)
    (hes : ∀ op ∈ es, op ∈ ops) (t : Tables Digest) (hinv : Inv B ops t)
    (halone : Always (step B) (fun t op => ¬ Touches B n t op) t es)
    (h : ReadsBack t.catalogs n c) : ReadsBack (run (step B) t es).catalogs n c := by
  induction es generalizing t with
  | nil => exact h
  | cons op es ih =>
    exact ih (fun e he => hes e (List.mem_cons_of_mem _ he)) _
      (inv_step B hB ops hfree t hinv op (hes op List.mem_cons_self)) halone.2
      (readsBack_step B ops t hinv n c op halone.1 h)

end Runs

end OpenVoxDB.ResourceParams
