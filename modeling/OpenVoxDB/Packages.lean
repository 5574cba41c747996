import Mathlib
import OpenVoxDB.FactStorage

/-!
# Storage of package inventories

The half of `replace-facts!` that keeps a node's packages. A package has one row
in `packages`, found by its hash; a node has one row in `certname_packages` for
each of its packages, and the hash of them all in `certnames`, which decides
whether an update writes anything.
-/

namespace OpenVoxDB.Packages

open FactStorage

abbrev PackageTuple := String × String × String

/-- The SHA-1 of one package (`package-identity-hash`), the order of such hashes, and the
SHA-1 of a list of them. -/
structure PackageDigests (Hash Digest : Type) where
  identity : PackageTuple → Hash
  le : Hash → Hash → Bool
  ofHashes : List Hash → Digest

/-- The packages of a node and its `package_hash`. -/
structure NodePackages (Digest : Type) where
  packageHash : Option Digest
  rows : Finset PackageTuple

abbrev PackageStore (Digest : Type) := String → NodePackages Digest

variable {Hash Digest : Type}

def PackageStore.empty : PackageStore Digest := fun _ => ⟨none, ∅⟩

/-- `package-similarity-hash`: the hashes are put in order first. -/
def packageSimilarityHash (H : PackageDigests Hash Digest) (inventory : List PackageTuple) : Digest :=
  H.ofHashes ((inventory.map H.identity).mergeSort H.le)

/-- The rows a node without any gets with its first factset. -/
def insertPackages (H : PackageDigests Hash Digest) (node : NodePackages Digest)
    (inventory : List PackageTuple) : NodePackages Digest :=
  ⟨some (packageSimilarityHash H inventory), node.rows ∪ inventory.toFinset⟩

def updatePackages [DecidableEq Digest] (H : PackageDigests Hash Digest) (node : NodePackages Digest)
    (inventory : List PackageTuple) : NodePackages Digest :=
  let newPackageHash := packageSimilarityHash H inventory
  if node.packageHash = some newPackageHash then node
  else
    let newPackages := inventory.toFinset \ node.rows
    let oldPackages := node.rows \ inventory.toFinset
    ⟨if inventory = [] then none else some newPackageHash, (node.rows ∪ newPackages) \ oldPackages⟩

/-- What a submission does to the packages: `facts` is the store it finds. -/
def storePackages [DecidableEq Digest] {FactDigest : Type} (H : PackageDigests Hash Digest)
    (facts : FactStore FactDigest) (s : PackageStore Digest) (d : FactData) :
    PackageStore Digest :=
  match facts.factsets[d.certname]? with
  | some row =>
    if d.producerTimestamp < row.producerTimestamp then s
    else if (s d.certname).packageHash.isSome ∨ d.packageInventory ≠ [] then
      Function.update s d.certname (updatePackages H (s d.certname) d.packageInventory)
    else s
  | none =>
    if d.packageInventory ≠ [] then
      Function.update s d.certname (insertPackages H (s d.certname) d.packageInventory)
    else s

/-- A node without a package hash has no packages, and a package hash is that of the rows. -/
def HashCurrent (H : PackageDigests Hash Digest) (node : NodePackages Digest) : Prop :=
  match node.packageHash with
  | none => node.rows = ∅
  | some h => ∃ inventory, packageSimilarityHash H inventory = h ∧
      node.rows = inventory.toFinset

/-- The hashes of a list of packages, in order, determine which packages are in it. -/
theorem toFinset_eq_of_hash_eq (H : PackageDigests Hash Digest)
    (hidentity : Function.Injective H.identity) (hhashes : Function.Injective H.ofHashes)
    (left right : List PackageTuple)
    (h : packageSimilarityHash H left = packageSimilarityHash H right) :
    left.toFinset = right.toFinset := by
  have hsorted := hhashes h
  have hperm : (left.map H.identity).Perm (right.map H.identity) := by
    have hleft := List.mergeSort_perm (left.map H.identity) H.le
    rw [hsorted] at hleft
    exact hleft.symm.trans (List.mergeSort_perm _ _)
  exact List.toFinset_eq_of_perm _ _ ((List.map_perm_map_iff hidentity).mp hperm)

section Step

variable [DecidableEq Digest]

/-- After an update the rows are those of the inventory. -/
theorem updatePackages_rows (H : PackageDigests Hash Digest)
    (hidentity : Function.Injective H.identity) (hhashes : Function.Injective H.ofHashes)
    (node : NodePackages Digest) (inventory : List PackageTuple) (hnode : HashCurrent H node) :
    (updatePackages H node inventory).rows = inventory.toFinset ∧
      HashCurrent H (updatePackages H node inventory) := by
  unfold updatePackages
  by_cases hhit : node.packageHash = some (packageSimilarityHash H inventory)
  · simp only [if_pos hhit]
    refine ⟨?_, hnode⟩
    rw [HashCurrent, hhit] at hnode
    obtain ⟨stored, hhash, hrows⟩ := hnode
    rw [hrows, toFinset_eq_of_hash_eq H hidentity hhashes _ _ hhash]
  · simp only [if_neg hhit]
    have hrows : (node.rows ∪ inventory.toFinset \ node.rows) \ (node.rows \ inventory.toFinset) =
        inventory.toFinset := by
      ext p
      simp only [Finset.mem_sdiff, Finset.mem_union]
      tauto
    refine ⟨hrows, ?_⟩
    by_cases hempty : inventory = []
    · rw [if_pos hempty]
      rw [hempty] at hrows ⊢
      exact hrows
    · rw [if_neg hempty]
      exact ⟨inventory, rfl, hrows⟩

/-- A submission that its factset refuses leaves the packages alone. -/
theorem storePackages_of_stale {FactDigest : Type} (H : PackageDigests Hash Digest)
    (facts : FactStore FactDigest) (s : PackageStore Digest) (d : FactData)
    (row : Factset FactDigest) (hrow : facts.factsets[d.certname]? = some row)
    (h : d.producerTimestamp < row.producerTimestamp) : storePackages H facts s d = s := by
  simp only [storePackages, hrow, if_pos h]

/-- Any other leaves its own inventory, and the packages of other nodes as they were. -/
theorem storePackages_of_fresh {FactDigest : Type} (H : PackageDigests Hash Digest)
    (hidentity : Function.Injective H.identity) (hhashes : Function.Injective H.ofHashes)
    (facts : FactStore FactDigest) (s : PackageStore Digest) (d : FactData)
    (hs : HashCurrent H (s d.certname))
    (hfirst : facts.factsets[d.certname]? = none → (s d.certname).rows = ∅)
    (h : ∀ row, facts.factsets[d.certname]? = some row →
      ¬ d.producerTimestamp < row.producerTimestamp) :
    (storePackages H facts s d d.certname).rows = d.packageInventory.toFinset ∧
      HashCurrent H (storePackages H facts s d d.certname) := by
  unfold storePackages
  cases hrow : facts.factsets[d.certname]? with
  | none =>
    by_cases hempty : d.packageInventory = []
    · simp only [hempty, ne_eq, not_true_eq_false, if_false]
      exact ⟨hfirst hrow, hs⟩
    · simp only [ne_eq, hempty, not_false_eq_true, if_true, Function.update_self]
      have hrows : (s d.certname).rows ∪ d.packageInventory.toFinset =
          d.packageInventory.toFinset := by
        rw [hfirst hrow, Finset.empty_union]
      exact ⟨hrows, d.packageInventory, rfl, hrows⟩
  | some row =>
    simp only [if_neg (h row hrow)]
    by_cases hwrite : (s d.certname).packageHash.isSome ∨ d.packageInventory ≠ []
    · simp only [if_pos hwrite, Function.update_self]
      exact updatePackages_rows H hidentity hhashes _ _ hs
    · simp only [if_neg hwrite]
      obtain ⟨hnone, hempty⟩ := not_or.mp hwrite
      refine ⟨?_, hs⟩
      rw [not_not.mp hempty]
      rw [HashCurrent, Option.not_isSome_iff_eq_none.mp hnone] at hs
      exact hs

end Step

end OpenVoxDB.Packages
