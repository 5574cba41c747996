import Mathlib
import OpenVoxDB.InputReplacement
import OpenVoxDB.Packages

/-!
# The tables of packages

A package has a row with an id of a sequence, and a node has a row for each of its packages, which
pairs the two ids. New rows of packages are inserted in batches and found again by the place of
their ids; the ids of a node are compared with those of its inventory, and packages that no node has
any more are deleted.
-/

namespace OpenVoxDB.PackageTables

open Packages InputReplacement

/-! ## Tables -/

structure PackageRow (Hash : Type) where
  id : Nat
  package : PackageTuple
  hash : Hash
  deriving DecidableEq

structure CertnameRow (Digest : Type) where
  id : Nat
  certname : String
  packageHash : Option Digest

/-- `certnames`, `packages`, `certname_packages`, and the last id of `package_id_seq`. -/
structure Tables (Hash Digest : Type) where
  certnames : List (CertnameRow Digest)
  packages : List (PackageRow Hash)
  certnamePackages : List (Nat × Nat)
  packageIdSeq : Nat

/-- A package with its hash: `package-identity-hash`. -/
abbrev HashedPackageTuple (Hash : Type) := PackageTuple × Hash

section Model

variable {Hash Digest : Type} [DecidableEq Hash] [DecidableEq Digest]

/-! ## Maps -/

/-- `assoc` -/
def assoc {ν : Type} (m : List (Hash × ν)) (k : Hash) (v : ν) : List (Hash × ν) :=
  m.filter (fun e => e.1 ≠ k) ++ [(k, v)]

/-- `merge` -/
def mergeMaps {ν : Type} (m n : List (Hash × ν)) : List (Hash × ν) :=
  n.foldl (fun acc e => assoc acc e.1 e.2) m

def zipmap {ν : Type} (ks : List Hash) (vs : List ν) : List (Hash × ν) := mergeMaps [] (ks.zip vs)

/-! ## Statements -/

def findPackageHashes (t : Tables Hash Digest) (packageHashes : List Hash) : List (Hash × Nat) :=
  (t.packages.filter fun row => row.hash ∈ packageHashes).foldl
    (fun acc row => assoc acc row.hash row.id) []

def packageIdSetForCertname (t : Tables Hash Digest) (certnameId : Nat) : List Nat :=
  ((t.certnamePackages.filter fun link => link.1 = certnameId).map Prod.snd).dedup

/-- The rows of one insert into `packages`, and the ids that it returns. -/
def insertBatch (t : Tables Hash Digest) (rows : List (HashedPackageTuple Hash)) :
    Tables Hash Digest × List Nat :=
  let ids := List.range' (t.packageIdSeq + 1) rows.length
  ({ t with
      packages := t.packages ++ (rows.zip ids).map fun row => ⟨row.2, row.1.1, row.1.2⟩
      packageIdSeq := t.packageIdSeq + rows.length }, ids)

def insertBatches (t : Tables Hash Digest) (batches : List (List (HashedPackageTuple Hash))) :
    Tables Hash Digest × List Nat :=
  batches.foldl (fun acc batch =>
    let inserted := insertBatch acc.1 batch
    (inserted.1, acc.2 ++ inserted.2)) (t, [])

def insertMissingPackages (t : Tables Hash Digest) (existingHashesMap : List (Hash × Nat))
    (newHashedPackageTuples : List (HashedPackageTuple Hash)) :
    Tables Hash Digest × List (Hash × Nat) :=
  let needed := newHashedPackageTuples.filter fun p => (existingHashesMap.lookup p.2).isNone
  let inserted := insertBatches t (partitionAll 999 needed)
  (inserted.1, mergeMaps existingHashesMap (zipmap (needed.map Prod.snd) inserted.2))

/-- The update of `certnames`. -/
def setPackageHash (t : Tables Hash Digest) (certnameId : Nat) (packageHash : Option Digest) :
    Tables Hash Digest :=
  { t with certnames := t.certnames.map fun c =>
      if c.id = certnameId then { c with packageHash := packageHash } else c }

/-- The inserts into `certname_packages`. -/
def insertLinks (t : Tables Hash Digest) (certnameId : Nat) (packageIds : List Nat) :
    Tables Hash Digest :=
  (partitionAll 999 packageIds).foldl (fun t batch =>
    { t with certnamePackages := t.certnamePackages ++ batch.map fun id => (certnameId, id) }) t

/-- The deletion of a node's rows, and of the packages that no node has any more. -/
def deletePackages (t : Tables Hash Digest) (certnameId : Nat) (oldPackageIds : List Nat) :
    Tables Hash Digest :=
  let links := t.certnamePackages.filter fun link =>
    ¬ (link.1 = certnameId ∧ link.2 ∈ oldPackageIds)
  { t with
    certnamePackages := links
    packages := t.packages.filter fun row =>
      ¬ (row.id ∈ oldPackageIds ∧ ∀ link ∈ links, link.2 ≠ row.id) }

/-! ## Updates -/

variable (H : PackageDigests Hash Digest)

def hashedPackageTuples (inventory : List PackageTuple) : List (HashedPackageTuple Hash) :=
  inventory.map fun package => (package, H.identity package)

/-- `find-package-hashes` and `insert-missing-packages`, as both updates call them. -/
def realizePackages (t : Tables Hash Digest) (inventory : List PackageTuple) :
    Tables Hash Digest × List (Hash × Nat) :=
  let hashed := hashedPackageTuples H inventory
  insertMissingPackages t (findPackageHashes t (hashed.map Prod.snd)) hashed

def updatePackages (t : Tables Hash Digest) (certnameId : Nat) (packageHash : Option Digest)
    (inventory : List PackageTuple) : Tables Hash Digest :=
  let newPackageHash := packageSimilarityHash H inventory
  if some newPackageHash = packageHash then t
  else
    let realized := realizePackages H t inventory
    let newPackageIdSet := (realized.2.map Prod.snd).dedup
    let existing := packageIdSetForCertname realized.1 certnameId
    let newPackageIds := newPackageIdSet.filter fun id => id ∉ existing
    let oldPackageIds := existing.filter fun id => id ∉ newPackageIdSet
    let t := setPackageHash realized.1 certnameId
      (if inventory = [] then none else some newPackageHash)
    let t := insertLinks t certnameId newPackageIds
    if oldPackageIds = [] then t else deletePackages t certnameId oldPackageIds

def insertPackages (t : Tables Hash Digest) (certname : String) (inventory : List PackageTuple) :
    Tables Hash Digest :=
  match t.certnames.find? fun c => c.certname = certname with
  | none => t
  | some c =>
    let realized := realizePackages H t inventory
    let t := setPackageHash realized.1 c.id (some (packageSimilarityHash H inventory))
    insertLinks t c.id (realized.2.map Prod.snd)

/-- What `add-facts!` does with the inventory of a new node. -/
def addPackages (t : Tables Hash Digest) (certname : String) (inventory : List PackageTuple) :
    Tables Hash Digest :=
  if inventory = [] then t else insertPackages H t certname inventory

end Model

/-! ## Invariant -/

variable {Hash Digest : Type}

/-- The node has the package. -/
def Linked (t : Tables Hash Digest) (certnameId : Nat) (package : PackageTuple) : Prop :=
  ∃ row ∈ t.packages, row.package = package ∧ (certnameId, row.id) ∈ t.certnamePackages

/-- The hash is that of the packages of the node, and there is none where it has none. -/
def HashCurrent (H : PackageDigests Hash Digest) (t : Tables Hash Digest) (c : CertnameRow Digest) :
    Prop :=
  match c.packageHash with
  | none => ∀ package, ¬ Linked t c.id package
  | some hash => ∃ inventory, inventory ≠ [] ∧ packageSimilarityHash H inventory = hash ∧
      ∀ package, Linked t c.id package ↔ package ∈ inventory

structure Invariant (H : PackageDigests Hash Digest) (t : Tables Hash Digest) : Prop where
  ids : (t.packages.map PackageRow.id).Nodup
  sequence : ∀ row ∈ t.packages, row.id ≤ t.packageIdSeq
  hashed : ∀ row ∈ t.packages, row.hash = H.identity row.package
  packages : (t.packages.map PackageRow.package).Nodup
  links : t.certnamePackages.Nodup
  references : ∀ link ∈ t.certnamePackages, ∃ row ∈ t.packages, row.id = link.2
  owners : ∀ link ∈ t.certnamePackages, ∃ c ∈ t.certnames, c.id = link.1
  certnames : (t.certnames.map CertnameRow.id).Nodup
  names : (t.certnames.map CertnameRow.certname).Nodup
  current : ∀ c ∈ t.certnames, HashCurrent H t c

/-! ## Maps and batches -/

section Maps

variable [DecidableEq Hash]

/-- Different keys are put behind each other. -/
theorem mergeMaps_eq {ν : Type} (m n : List (Hash × ν)) (h : ((m ++ n).map Prod.fst).Nodup) :
    mergeMaps m n = m ++ n := by
  induction n generalizing m with
  | nil => simp [mergeMaps]
  | cons e n ih =>
    have hkeys : ((m ++ [e] ++ n).map Prod.fst).Nodup := by simpa using h
    have hfresh : ∀ d ∈ m, d.1 ≠ e.1 := by
      intro d hd heq
      rw [List.map_append, List.nodup_append] at h
      exact h.2.2 d.1 (List.mem_map_of_mem hd) e.1 (by simp) heq
    have hassoc : assoc m e.1 e.2 = m ++ [e] := by
      rw [assoc, List.filter_eq_self.mpr (by simpa using hfresh)]
    have hstep : mergeMaps m (e :: n) = mergeMaps (assoc m e.1 e.2) n := rfl
    rw [hstep, hassoc, ih (m ++ [e]) hkeys, List.append_assoc, List.singleton_append]

theorem zipmap_eq {ν : Type} (ks : List Hash) (vs : List ν) (hks : ks.Nodup)
    (hlength : ks.length ≤ vs.length) : zipmap ks vs = ks.zip vs := by
  apply mergeMaps_eq
  rw [List.nil_append, List.map_fst_zip hlength]
  exact hks

theorem lookup_isNone_iff {ν : Type} (m : List (Hash × ν)) (k : Hash) :
    (m.lookup k).isNone = true ↔ k ∉ m.map Prod.fst := by
  rw [Option.isNone_iff_eq_none, List.lookup_eq_none_iff]
  simp only [List.mem_map, not_exists, not_and, bne_iff_ne, ne_eq]
  exact forall₂_congr fun e _ => not_congr eq_comm

end Maps

/-- One insert after the other is one insert of all. -/
theorem insertBatch_append (t : Tables Hash Digest) (xs ys : List (HashedPackageTuple Hash)) :
    insertBatch t (xs ++ ys) = ((insertBatch (insertBatch t xs).1 ys).1,
      (insertBatch t xs).2 ++ (insertBatch (insertBatch t xs).1 ys).2) := by
  have hids : List.range' (t.packageIdSeq + 1) (xs ++ ys).length =
      List.range' (t.packageIdSeq + 1) xs.length ++
        List.range' (t.packageIdSeq + xs.length + 1) ys.length := by
    rw [List.length_append, ← List.range'_append_1, Nat.add_right_comm]
  have hzip : (xs ++ ys).zip (List.range' (t.packageIdSeq + 1) (xs ++ ys).length) =
      xs.zip (List.range' (t.packageIdSeq + 1) xs.length) ++
        ys.zip (List.range' (t.packageIdSeq + xs.length + 1) ys.length) := by
    rw [hids, List.zip_append (by simp)]
  simp only [insertBatch]
  rw [hzip, hids]
  simp only [List.map_append, List.append_assoc, List.length_append, Nat.add_assoc]

theorem insertBatches_eq (t : Tables Hash Digest) (batches : List (List (HashedPackageTuple Hash))) :
    insertBatches t batches = insertBatch t batches.flatten := by
  have hfrom : ∀ (t : Tables Hash Digest) (ids : List Nat),
      batches.foldl (fun acc batch =>
        ((insertBatch acc.1 batch).1, acc.2 ++ (insertBatch acc.1 batch).2)) (t, ids) =
        ((insertBatch t batches.flatten).1, ids ++ (insertBatch t batches.flatten).2) := by
    induction batches with
    | nil =>
      intro t ids
      simp [insertBatch]
    | cons batch batches ih =>
      intro t ids
      rw [List.foldl_cons, ih, List.flatten_cons, insertBatch_append, List.append_assoc]
  have h := hfrom t []
  rw [List.nil_append] at h
  exact h

theorem insertLinks_eq (t : Tables Hash Digest) (certnameId : Nat) (packageIds : List Nat) :
    insertLinks t certnameId packageIds =
      { t with certnamePackages :=
          t.certnamePackages ++ packageIds.map fun id => (certnameId, id) } := by
  have hfrom : ∀ (batches : List (List Nat)) (t : Tables Hash Digest),
      batches.foldl (fun t batch =>
        { t with certnamePackages := t.certnamePackages ++ batch.map fun id => (certnameId, id) }) t =
        { t with certnamePackages :=
            t.certnamePackages ++ batches.flatten.map fun id => (certnameId, id) } := by
    intro batches
    induction batches with
    | nil =>
      intro t
      simp
    | cons batch batches ih =>
      intro t
      rw [List.foldl_cons, ih]
      simp
  rw [insertLinks, hfrom, partitionAll_flatten]

/-! ## Rows for an inventory -/

section Rows

variable (H : PackageDigests Hash Digest)

theorem hashes_eq (inventory : List PackageTuple) :
    (hashedPackageTuples H inventory).map Prod.snd = inventory.map H.identity := by
  rw [hashedPackageTuples, List.map_map]
  rfl

/-- The new rows. -/
def newRows (t : Tables Hash Digest) (packages : List PackageTuple) : List (PackageRow Hash) :=
  ((hashedPackageTuples H packages).zip (List.range' (t.packageIdSeq + 1) packages.length)).map
    fun row => ⟨row.2, row.1.1, row.1.2⟩

theorem length_newRows (t : Tables Hash Digest) (packages : List PackageTuple) :
    (newRows H t packages).length = packages.length := by
  simp [newRows, hashedPackageTuples]

theorem newRows_package (t : Tables Hash Digest) (packages : List PackageTuple) :
    (newRows H t packages).map PackageRow.package = packages := by
  have hfst : ((hashedPackageTuples H packages).zip
      (List.range' (t.packageIdSeq + 1) packages.length)).map Prod.fst =
        hashedPackageTuples H packages := List.map_fst_zip (by simp [hashedPackageTuples])
  calc (newRows H t packages).map PackageRow.package
      = (((hashedPackageTuples H packages).zip
          (List.range' (t.packageIdSeq + 1) packages.length)).map Prod.fst).map Prod.fst := by
        rw [newRows, List.map_map, List.map_map]
        rfl
    _ = packages := by
        rw [hfst, hashedPackageTuples, List.map_map]
        exact List.map_id' packages

theorem newRows_id (t : Tables Hash Digest) (packages : List PackageTuple) :
    (newRows H t packages).map PackageRow.id =
      List.range' (t.packageIdSeq + 1) packages.length := by
  rw [newRows, List.map_map]
  exact List.map_snd_zip (by simp [hashedPackageTuples])

theorem newRows_hash (t : Tables Hash Digest) (packages : List PackageTuple)
    (row : PackageRow Hash) (hrow : row ∈ newRows H t packages) :
    row.hash = H.identity row.package := by
  obtain ⟨entry, hentry, rfl⟩ := List.mem_map.mp hrow
  obtain ⟨package, -, hpackage⟩ := List.mem_map.mp (List.of_mem_zip hentry).1
  rw [← hpackage]

variable [DecidableEq Hash]

theorem findPackageHashes_eq (hidentity : Function.Injective H.identity) (t : Tables Hash Digest)
    (ht : Invariant H t) (packageHashes : List Hash) : findPackageHashes t packageHashes =
      (t.packages.filter fun row => row.hash ∈ packageHashes).map fun row => (row.hash, row.id) := by
  have hmerge : findPackageHashes t packageHashes = mergeMaps []
      ((t.packages.filter fun row => row.hash ∈ packageHashes).map fun row => (row.hash, row.id)) := by
    rw [findPackageHashes, mergeMaps, List.foldl_map]
  have hhashes : (t.packages.map PackageRow.hash).Nodup := by
    have heq : t.packages.map PackageRow.hash =
        (t.packages.map PackageRow.package).map H.identity := by
      rw [List.map_map]
      exact List.map_congr_left ht.hashed
    rw [heq]
    exact ht.packages.map hidentity
  rw [hmerge, mergeMaps_eq, List.nil_append]
  rw [List.nil_append, List.map_map]
  exact (List.filter_sublist.map PackageRow.hash).nodup hhashes

/-- The packages of the inventory without a row. -/
def missing (t : Tables Hash Digest) (inventory : List PackageTuple) : List PackageTuple :=
  inventory.filter fun package => package ∉ t.packages.map PackageRow.package

theorem needed_eq (hidentity : Function.Injective H.identity) (t : Tables Hash Digest)
    (ht : Invariant H t) (inventory : List PackageTuple) :
    (hashedPackageTuples H inventory).filter (fun p => ((findPackageHashes t
      ((hashedPackageTuples H inventory).map Prod.snd)).lookup p.2).isNone) =
      hashedPackageTuples H (missing t inventory) := by
  have hmem : ∀ package ∈ inventory, ((findPackageHashes t
      ((hashedPackageTuples H inventory).map Prod.snd)).lookup (H.identity package)).isNone = true ↔
        package ∉ t.packages.map PackageRow.package := by
    intro package hpackage
    rw [lookup_isNone_iff, findPackageHashes_eq H hidentity t ht]
    apply not_congr
    simp only [List.map_map, List.mem_map, List.mem_filter, Function.comp_apply]
    constructor
    · rintro ⟨row, ⟨hrow, -⟩, heq⟩
      rw [ht.hashed row hrow] at heq
      exact ⟨row, hrow, hidentity heq⟩
    · rintro ⟨row, hrow, rfl⟩
      refine ⟨row, ⟨hrow, ?_⟩, ht.hashed row hrow⟩
      rw [ht.hashed row hrow, decide_eq_true_eq]
      exact ⟨_, List.mem_map_of_mem hpackage, rfl⟩
  rw [hashedPackageTuples, hashedPackageTuples, missing, List.filter_map]
  congr 1
  apply List.filter_congr
  intro package hpackage
  have hiff := hmem package hpackage
  simp only [Function.comp_apply]
  rw [Bool.eq_iff_iff, decide_eq_true_eq]
  exact hiff

/-- The tables with the rows that are missing, and the ids of the inventory. -/
structure Realized (t : Tables Hash Digest) (inventory : List PackageTuple)
    (r : Tables Hash Digest × List (Hash × Nat)) : Prop where
  certnames : r.1.certnames = t.certnames
  links : r.1.certnamePackages = t.certnamePackages
  kept : ∀ row ∈ t.packages, row ∈ r.1.packages
  ids : (r.1.packages.map PackageRow.id).Nodup
  sequence : ∀ row ∈ r.1.packages, row.id ≤ r.1.packageIdSeq
  hashed : ∀ row ∈ r.1.packages, row.hash = H.identity row.package
  packages : (r.1.packages.map PackageRow.package).Nodup
  found : ∀ package ∈ inventory, ∃ row ∈ r.1.packages, row.package = package
  mem : ∀ id, id ∈ r.2.map Prod.snd ↔ ∃ row ∈ r.1.packages, row.id = id ∧ row.package ∈ inventory
  nodup : (r.2.map Prod.snd).Nodup

/-- The hashes and ids of rows. -/
def entries (rows : List (PackageRow Hash)) : List (Hash × Nat) :=
  rows.map fun row => (row.hash, row.id)

omit [DecidableEq Hash] in
theorem entries_append (rows others : List (PackageRow Hash)) :
    entries (rows ++ others) = entries rows ++ entries others := List.map_append

theorem realizePackages_tables (hidentity : Function.Injective H.identity) (t : Tables Hash Digest)
    (ht : Invariant H t) (inventory : List PackageTuple) :
    (realizePackages H t inventory).1 = { t with
      packages := t.packages ++ newRows H t (missing t inventory)
      packageIdSeq := t.packageIdSeq + (missing t inventory).length } := by
  simp only [realizePackages, insertMissingPackages]
  rw [needed_eq H hidentity t ht, insertBatches_eq, partitionAll_flatten]
  simp [insertBatch, newRows, hashedPackageTuples]

theorem realizePackages_ids (hidentity : Function.Injective H.identity) (t : Tables Hash Digest)
    (ht : Invariant H t) (inventory : List PackageTuple) (hinventory : inventory.Nodup) :
    (realizePackages H t inventory).2.map Prod.snd =
      ((t.packages.filter fun row => row.package ∈ inventory) ++
        newRows H t (missing t inventory)).map PackageRow.id := by
  have hexisting : findPackageHashes t ((hashedPackageTuples H inventory).map Prod.snd) =
      entries (t.packages.filter fun row => row.package ∈ inventory) := by
    rw [findPackageHashes_eq H hidentity t ht, entries]
    congr 1
    apply List.filter_congr
    intro row hrow
    rw [ht.hashed row hrow, hashes_eq, decide_eq_decide, List.mem_map_of_injective hidentity]
  have hmissing : (missing t inventory).Nodup := hinventory.filter _
  have hzip : zipmap ((hashedPackageTuples H (missing t inventory)).map Prod.snd)
      (List.range' (t.packageIdSeq + 1) (missing t inventory).length) =
        entries (newRows H t (missing t inventory)) := by
    rw [zipmap_eq, List.zip_map_left, entries, newRows, List.map_map]
    · rfl
    · rw [hashes_eq]
      exact hmissing.map hidentity
    · simp [hashedPackageTuples]
  have hrows : ∀ row ∈ (t.packages.filter fun row => row.package ∈ inventory) ++
      newRows H t (missing t inventory), row.hash = H.identity row.package := by
    intro row hrow
    obtain hrow | hrow := List.mem_append.mp hrow
    · exact ht.hashed row (List.mem_of_mem_filter hrow)
    · exact newRows_hash H t _ row hrow
  have hpackages : (((t.packages.filter fun row => row.package ∈ inventory) ++
      newRows H t (missing t inventory)).map PackageRow.package).Nodup := by
    rw [List.map_append, newRows_package, List.nodup_append]
    refine ⟨(List.filter_sublist.map _).nodup ht.packages, hmissing, ?_⟩
    intro package hpackage other hother heq
    obtain ⟨row, hrow, rfl⟩ := List.mem_map.mp hpackage
    have hnew := (List.mem_filter.mp hother).2
    rw [← heq, decide_eq_true_eq] at hnew
    exact hnew (List.mem_map_of_mem (List.mem_of_mem_filter hrow))
  simp only [realizePackages, insertMissingPackages]
  rw [needed_eq H hidentity t ht, insertBatches_eq, partitionAll_flatten, hexisting]
  have hids : (insertBatch t (hashedPackageTuples H (missing t inventory))).2 =
      List.range' (t.packageIdSeq + 1) (missing t inventory).length := by
    simp [insertBatch, hashedPackageTuples]
  rw [hids, hzip, mergeMaps_eq, ← entries_append, entries, List.map_map]
  · rfl
  · rw [← entries_append, entries, List.map_map]
    have hhashes : ((t.packages.filter fun row => row.package ∈ inventory) ++
        newRows H t (missing t inventory)).map (Prod.fst ∘ fun row => (row.hash, row.id)) =
          (((t.packages.filter fun row => row.package ∈ inventory) ++
            newRows H t (missing t inventory)).map PackageRow.package).map H.identity := by
      rw [List.map_map]
      exact List.map_congr_left hrows
    rw [hhashes]
    exact hpackages.map hidentity

/-- The rows that an inventory lacks are added, and its ids are those of all of its packages. -/
theorem realizePackages_realized (hidentity : Function.Injective H.identity)
    (t : Tables Hash Digest) (ht : Invariant H t) (inventory : List PackageTuple)
    (hinventory : inventory.Nodup) : Realized H t inventory (realizePackages H t inventory) := by
  have htables := realizePackages_tables H hidentity t ht inventory
  have hids := realizePackages_ids H hidentity t ht inventory hinventory
  have hpackages : (realizePackages H t inventory).1.packages =
      t.packages ++ newRows H t (missing t inventory) := by rw [htables]
  have hmissing : (missing t inventory).Nodup := hinventory.filter _
  have hnew : ∀ row ∈ newRows H t (missing t inventory), row.package ∈ inventory ∧
      row.package ∉ t.packages.map PackageRow.package := by
    intro row hrow
    have hpackage : row.package ∈ missing t inventory := by
      rw [← newRows_package H t (missing t inventory)]
      exact List.mem_map_of_mem hrow
    simpa [missing] using hpackage
  have hnewid : ∀ row ∈ newRows H t (missing t inventory), t.packageIdSeq < row.id ∧
      row.id ≤ t.packageIdSeq + (missing t inventory).length := by
    intro row hrow
    have hid : row.id ∈ List.range' (t.packageIdSeq + 1) (missing t inventory).length := by
      rw [← newRows_id H t (missing t inventory)]
      exact List.mem_map_of_mem hrow
    rw [List.mem_range'_1] at hid
    omega
  have hidsnodup : ((t.packages ++ newRows H t (missing t inventory)).map PackageRow.id).Nodup := by
    rw [List.map_append, newRows_id, List.nodup_append]
    refine ⟨ht.ids, List.nodup_range', ?_⟩
    intro id hid other hother heq
    obtain ⟨row, hrow, rfl⟩ := List.mem_map.mp hid
    have hle := ht.sequence row hrow
    rw [List.mem_range'_1] at hother
    omega
  constructor
  · rw [htables]
  · rw [htables]
  · intro row hrow
    rw [hpackages]
    exact List.mem_append_left _ hrow
  · rw [hpackages]
    exact hidsnodup
  · intro row hrow
    rw [htables] at hrow ⊢
    obtain hrow | hrow := List.mem_append.mp hrow
    · have hle := ht.sequence row hrow
      show row.id ≤ t.packageIdSeq + _
      omega
    · exact (hnewid row hrow).2
  · intro row hrow
    rw [hpackages] at hrow
    obtain hrow | hrow := List.mem_append.mp hrow
    · exact ht.hashed row hrow
    · exact newRows_hash H t _ row hrow
  · rw [hpackages, List.map_append, newRows_package, List.nodup_append]
    refine ⟨ht.packages, hmissing, ?_⟩
    intro package hpackage other hother heq
    have hfresh := (List.mem_filter.mp hother).2
    rw [← heq, decide_eq_true_eq] at hfresh
    exact hfresh hpackage
  · intro package hpackage
    rw [hpackages]
    by_cases hrow : package ∈ t.packages.map PackageRow.package
    · obtain ⟨row, hrow, heq⟩ := List.mem_map.mp hrow
      exact ⟨row, List.mem_append_left _ hrow, heq⟩
    · have hmem : package ∈ (newRows H t (missing t inventory)).map PackageRow.package := by
        rw [newRows_package]
        exact List.mem_filter.mpr ⟨hpackage, by simpa using hrow⟩
      obtain ⟨row, hrow, heq⟩ := List.mem_map.mp hmem
      exact ⟨row, List.mem_append_right _ hrow, heq⟩
  · intro id
    rw [hids, hpackages]
    simp only [List.mem_map, List.mem_append, List.mem_filter, decide_eq_true_eq]
    constructor
    · rintro ⟨row, ⟨hrow, hpackage⟩ | hrow, rfl⟩
      · exact ⟨row, Or.inl hrow, rfl, hpackage⟩
      · exact ⟨row, Or.inr hrow, rfl, (hnew row hrow).1⟩
    · rintro ⟨row, hrow | hrow, rfl, hpackage⟩
      · exact ⟨row, Or.inl ⟨hrow, hpackage⟩, rfl⟩
      · exact ⟨row, Or.inr hrow, rfl⟩
  · rw [hids]
    exact (((List.filter_sublist).append_right _).map PackageRow.id).nodup hidsnodup

end Rows

end OpenVoxDB.PackageTables
