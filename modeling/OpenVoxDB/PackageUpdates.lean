import Mathlib
import OpenVoxDB.PackageTables

/-!
# Updates of package inventories

After an update or a first insert the packages of a node are those of its inventory, the packages of
the other nodes are as they were, and the hash of the node is that of the inventory.
-/

namespace OpenVoxDB.PackageUpdates

open PackageTables
open Packages (PackageTuple PackageDigests packageSimilarityHash)

variable {Hash Digest : Type}

/-- The hash of a node whose packages are those of the inventory. -/
def inventoryHash (H : PackageDigests Hash Digest) (inventory : List PackageTuple) : Option Digest :=
  if inventory = [] then none else some (packageSimilarityHash H inventory)

/-- What an update of a node's packages leaves behind. -/
structure Updated (H : PackageDigests Hash Digest) (t t' : Tables Hash Digest) (certnameId : Nat)
    (inventory : List PackageTuple) : Prop where
  invariant : Invariant H t'
  linked : ∀ package, Linked t' certnameId package ↔ package ∈ inventory
  packages : (t'.packages.map PackageRow.package).Nodup
  others : ∀ other, other ≠ certnameId → ∀ package, Linked t' other package ↔ Linked t other package
  kept : ∀ row ∈ t.packages, (∃ link ∈ t'.certnamePackages, link.2 = row.id) → row ∈ t'.packages
  node : ∃ c ∈ t'.certnames, c.id = certnameId ∧ c.packageHash = inventoryHash H inventory

/-- The tables with the hash of a node, its links to the ids, and the rows that are linked. -/
structure Relinked (t : Tables Hash Digest) (r : Tables Hash Digest × List (Hash × Nat))
    (t' : Tables Hash Digest) (certnameId : Nat) (packageHash : Option Digest) : Prop where
  certnames : t'.certnames = t.certnames.map fun c =>
    if c.id = certnameId then { c with packageHash := packageHash } else c
  sequence : t'.packageIdSeq = r.1.packageIdSeq
  rows : t'.packages.Sublist r.1.packages
  kept : ∀ row ∈ r.1.packages, (∃ link ∈ t'.certnamePackages, link.2 = row.id) → row ∈ t'.packages
  links : t'.certnamePackages.Nodup
  own : ∀ id, (certnameId, id) ∈ t'.certnamePackages ↔ id ∈ r.2.map Prod.snd
  other : ∀ link, link.1 ≠ certnameId → (link ∈ t'.certnamePackages ↔ link ∈ t.certnamePackages)

/-! ## From links to packages -/

section Relinked

variable {H : PackageDigests Hash Digest} {t t' : Tables Hash Digest}
  {r : Tables Hash Digest × List (Hash × Nat)} {certnameId : Nat} {packageHash : Option Digest}
  {inventory : List PackageTuple}

theorem row_eq_of_id (hr : Realized H t inventory r) (row other : PackageRow Hash)
    (hrow : row ∈ r.1.packages) (hother : other ∈ r.1.packages) (h : row.id = other.id) :
    row = other :=
  List.inj_on_of_nodup_map hr.ids hrow hother h

theorem Relinked.linked (hr : Realized H t inventory r)
    (h : Relinked t r t' certnameId packageHash) (package : PackageTuple) :
    Linked t' certnameId package ↔ package ∈ inventory := by
  constructor
  · rintro ⟨row, hrow, rfl, hlink⟩
    obtain ⟨other, hother, hid, hpackage⟩ := (hr.mem row.id).mp ((h.own row.id).mp hlink)
    rwa [row_eq_of_id hr row other (h.rows.subset hrow) hother hid.symm]
  · intro hpackage
    obtain ⟨row, hrow, rfl⟩ := hr.found package hpackage
    have hlink := (h.own row.id).mpr ((hr.mem row.id).mpr ⟨row, hrow, rfl, hpackage⟩)
    exact ⟨row, h.kept row hrow ⟨_, hlink, rfl⟩, rfl, hlink⟩

theorem Relinked.linked_other (ht : Invariant H t) (hr : Realized H t inventory r)
    (h : Relinked t r t' certnameId packageHash) (other : Nat) (hne : other ≠ certnameId)
    (package : PackageTuple) : Linked t' other package ↔ Linked t other package := by
  constructor
  · rintro ⟨row, hrow, rfl, hlink⟩
    have hlink := (h.other (other, row.id) hne).mp hlink
    obtain ⟨stored, hstored, hid⟩ := ht.references _ hlink
    have heq := row_eq_of_id hr stored row (hr.kept stored hstored) (h.rows.subset hrow) hid
    exact ⟨row, heq ▸ hstored, rfl, hlink⟩
  · rintro ⟨row, hrow, rfl, hlink⟩
    have hlink := (h.other (other, row.id) hne).mpr hlink
    exact ⟨row, h.kept row (hr.kept row hrow) ⟨_, hlink, rfl⟩, rfl, hlink⟩

theorem Relinked.references (ht : Invariant H t) (hr : Realized H t inventory r)
    (h : Relinked t r t' certnameId packageHash) (link : Nat × Nat)
    (hlink : link ∈ t'.certnamePackages) : ∃ row ∈ t'.packages, row.id = link.2 := by
  have hrow : ∃ row ∈ r.1.packages, row.id = link.2 := by
    by_cases hcertname : link.1 = certnameId
    · have hown : (certnameId, link.2) ∈ t'.certnamePackages := hcertname ▸ hlink
      obtain ⟨row, hrow, hid, -⟩ := (hr.mem link.2).mp ((h.own link.2).mp hown)
      exact ⟨row, hrow, hid⟩
    · obtain ⟨row, hrow, hid⟩ := ht.references link ((h.other link hcertname).mp hlink)
      exact ⟨row, hr.kept row hrow, hid⟩
  obtain ⟨row, hrow, hid⟩ := hrow
  exact ⟨row, h.kept row hrow ⟨link, hlink, hid.symm⟩, hid⟩

/-- The tables are as they should be where the links are. -/
theorem Relinked.updated (ht : Invariant H t) (hr : Realized H t inventory r)
    (h : Relinked t r t' certnameId (inventoryHash H inventory))
    (hnode : ∃ c ∈ t.certnames, c.id = certnameId) : Updated H t t' certnameId inventory := by
  have hcertnameIds : t'.certnames.map CertnameRow.id = t.certnames.map CertnameRow.id := by
    rw [h.certnames, List.map_map]
    apply List.map_congr_left
    intro c _
    simp only [Function.comp_apply]
    split <;> rfl
  have hcertnames : t'.certnames.map CertnameRow.certname =
      t.certnames.map CertnameRow.certname := by
    rw [h.certnames, List.map_map]
    apply List.map_congr_left
    intro c _
    simp only [Function.comp_apply]
    split <;> rfl
  have howner : ∀ id, (∃ c ∈ t.certnames, c.id = id) → ∃ c ∈ t'.certnames, c.id = id := by
    rintro id ⟨c, hc, rfl⟩
    have hmem : c.id ∈ t'.certnames.map CertnameRow.id := by
      rw [hcertnameIds]
      exact List.mem_map_of_mem hc
    exact List.mem_map.mp hmem
  have hpackages : (t'.packages.map PackageRow.package).Nodup :=
    (h.rows.map PackageRow.package).nodup hr.packages
  refine ⟨?_, h.linked hr, hpackages, h.linked_other ht hr, ?_, ?_⟩
  · constructor
    · exact (h.rows.map PackageRow.id).nodup hr.ids
    · intro row hrow
      rw [h.sequence]
      exact hr.sequence row (h.rows.subset hrow)
    · intro row hrow
      exact hr.hashed row (h.rows.subset hrow)
    · exact hpackages
    · exact h.links
    · exact h.references ht hr
    · intro link hlink
      by_cases hcertname : link.1 = certnameId
      · rw [hcertname]
        exact howner certnameId hnode
      · exact howner link.1 (ht.owners link ((h.other link hcertname).mp hlink))
    · rw [hcertnameIds]
      exact ht.certnames
    · rw [hcertnames]
      exact ht.names
    · intro c hc
      rw [h.certnames] at hc
      obtain ⟨stored, hstored, rfl⟩ := List.mem_map.mp hc
      split
      · next hid =>
        by_cases hempty : inventory = []
        · simp only [HashCurrent, inventoryHash, if_pos hempty]
          intro package hlinked
          rw [hid, h.linked hr, hempty] at hlinked
          cases hlinked
        · simp only [HashCurrent, inventoryHash, if_neg hempty]
          refine ⟨inventory, hempty, rfl, ?_⟩
          rw [hid]
          exact h.linked hr
      · next hid =>
        have hcurrent := ht.current stored hstored
        rw [HashCurrent] at hcurrent ⊢
        simpa only [h.linked_other ht hr stored.id hid] using hcurrent
  · intro row hrow
    exact h.kept row (hr.kept row hrow)
  · obtain ⟨c, hc, hid⟩ := hnode
    refine ⟨{ c with packageHash := inventoryHash H inventory }, ?_, hid, rfl⟩
    rw [h.certnames]
    exact List.mem_map.mpr ⟨c, hc, if_pos hid⟩

end Relinked

/-! ## The updates -/

section Updates

theorem deletePackages_nil (t : Tables Hash Digest) (certnameId : Nat) :
    deletePackages t certnameId [] = t := by
  simp [deletePackages]

theorem mem_packageIdSet (t : Tables Hash Digest) (certnameId id : Nat) :
    id ∈ packageIdSetForCertname t certnameId ↔ (certnameId, id) ∈ t.certnamePackages := by
  simp only [packageIdSetForCertname, List.mem_dedup, List.mem_map, List.mem_filter,
    decide_eq_true_eq]
  constructor
  · rintro ⟨link, ⟨hlink, rfl⟩, rfl⟩
    exact hlink
  · intro hlink
    exact ⟨_, ⟨hlink, rfl⟩, rfl⟩

variable {H : PackageDigests Hash Digest} {t : Tables Hash Digest}
  {r : Tables Hash Digest × List (Hash × Nat)} {inventory : List PackageTuple}

/-- The ids that a node lacks are inserted and those that it should not have are deleted: it is left
with those of the inventory. -/
theorem relinked_diff (ht : Invariant H t) (hr : Realized H t inventory r) (certnameId : Nat)
    (packageHash : Option Digest) (newIds oldIds : List Nat) (hnodup : newIds.Nodup)
    (hnew : ∀ id, id ∈ newIds ↔ id ∈ r.2.map Prod.snd ∧ (certnameId, id) ∉ t.certnamePackages)
    (hold : ∀ id, id ∈ oldIds ↔ (certnameId, id) ∈ t.certnamePackages ∧ id ∉ r.2.map Prod.snd) :
    Relinked t r (deletePackages (insertLinks (setPackageHash r.1 certnameId packageHash) certnameId
      newIds) certnameId oldIds) certnameId packageHash := by
  let links := (t.certnamePackages ++ newIds.map fun id => (certnameId, id)).filter fun link =>
    ¬ (link.1 = certnameId ∧ link.2 ∈ oldIds)
  have htables : deletePackages (insertLinks (setPackageHash r.1 certnameId packageHash) certnameId
      newIds) certnameId oldIds = ⟨t.certnames.map fun c =>
        if c.id = certnameId then { c with packageHash := packageHash } else c,
        r.1.packages.filter fun row => ¬ (row.id ∈ oldIds ∧ ∀ link ∈ links, link.2 ≠ row.id),
        links, r.1.packageIdSeq⟩ := by
    rw [insertLinks_eq]
    simp only [deletePackages, setPackageHash, hr.certnames, hr.links, links]
  have hlinks (link : Nat × Nat) : link ∈ links ↔ (link ∈ t.certnamePackages ∨
      link.1 = certnameId ∧ link.2 ∈ newIds) ∧ ¬ (link.1 = certnameId ∧ link.2 ∈ oldIds) := by
    have hmap : link ∈ (newIds.map fun id => (certnameId, id)) ↔
        link.1 = certnameId ∧ link.2 ∈ newIds := by
      rw [List.mem_map]
      constructor
      · rintro ⟨id, hid, rfl⟩
        exact ⟨rfl, hid⟩
      · rintro ⟨rfl, hid⟩
        exact ⟨link.2, hid, rfl⟩
    simp only [links, List.mem_filter, List.mem_append, hmap, decide_eq_true_eq]
  rw [htables]
  constructor
  · rfl
  · rfl
  · exact List.filter_sublist
  · rintro row hrow ⟨link, hlink, hid⟩
    apply List.mem_filter.mpr ⟨hrow, ?_⟩
    rw [decide_eq_true_eq]
    rintro ⟨-, hunlinked⟩
    exact hunlinked link hlink hid
  · apply List.Nodup.filter
    rw [List.nodup_append]
    refine ⟨ht.links, hnodup.map fun a b hab => (Prod.mk.inj hab).2, ?_⟩
    intro link hlink other hother heq
    obtain ⟨id, hid, rfl⟩ := List.mem_map.mp hother
    exact ((hnew id).mp hid).2 (heq ▸ hlink)
  · intro id
    rw [hlinks, hnew, hold]
    constructor
    · rintro ⟨hlink | ⟨-, hid, -⟩, hkept⟩
      · by_contra hid
        exact hkept ⟨rfl, hlink, hid⟩
      · exact hid
    · intro hid
      refine ⟨?_, fun hdeleted => hdeleted.2.2 hid⟩
      by_cases hlink : (certnameId, id) ∈ t.certnamePackages
      · exact Or.inl hlink
      · exact Or.inr ⟨rfl, hid, hlink⟩
  · intro link hne
    rw [hlinks]
    simp [hne]

/-- The tables of a node whose hash is that of the inventory are those of an update. -/
theorem updated_of_hash (hidentity : Function.Injective H.identity)
    (hofHashes : Function.Injective H.ofHashes) (ht : Invariant H t) (c : CertnameRow Digest)
    (hc : c ∈ t.certnames) (inventory : List PackageTuple)
    (hhash : some (packageSimilarityHash H inventory) = c.packageHash) :
    Updated H t t c.id inventory := by
  have hcurrent := ht.current c hc
  rw [HashCurrent, ← hhash] at hcurrent
  obtain ⟨stored, hstored, heq, hlinked⟩ := hcurrent
  have hsame := Packages.toFinset_eq_of_hash_eq H hidentity hofHashes stored inventory heq
  have hmem (package : PackageTuple) : package ∈ stored ↔ package ∈ inventory := by
    rw [← List.mem_toFinset, hsame, List.mem_toFinset]
  have hempty : inventory ≠ [] := by
    rintro rfl
    obtain ⟨package, hpackage⟩ := List.exists_mem_of_ne_nil stored hstored
    cases (hmem package).mp hpackage
  refine ⟨ht, ?_, ht.packages, fun _ _ _ => Iff.rfl, fun row hrow _ => hrow, c, hc, rfl, ?_⟩
  · intro package
    rw [hlinked, hmem]
  · rw [← hhash, inventoryHash, if_neg hempty]

/-- A node without a hash has no links. -/
theorem no_links (ht : Invariant H t) (c : CertnameRow Digest) (hc : c ∈ t.certnames)
    (hnew : c.packageHash = none) (id : Nat) : (c.id, id) ∉ t.certnamePackages := by
  intro hlink
  have hcurrent := ht.current c hc
  rw [HashCurrent, hnew] at hcurrent
  obtain ⟨row, hrow, hid⟩ := ht.references _ hlink
  have hrowlink : (c.id, row.id) ∈ t.certnamePackages := by
    rw [hid]
    exact hlink
  exact hcurrent row.package ⟨row, hrow, rfl, hrowlink⟩

variable [DecidableEq Hash]

/-- The update of a node whose hash is not that of the inventory. -/
theorem updatePackages_updated [DecidableEq Digest]
    (hidentity : Function.Injective H.identity) (ht : Invariant H t) (c : CertnameRow Digest) (hc : c ∈ t.certnames) (inventory : List PackageTuple)
    (hinventory : inventory.Nodup) (hhash : some (packageSimilarityHash H inventory) ≠ c.packageHash) :
    Updated H t (updatePackages H t c.id c.packageHash inventory) c.id inventory := by
  have hr := realizePackages_realized H hidentity t ht inventory hinventory
  have hupdate : updatePackages H t c.id c.packageHash inventory =
      deletePackages (insertLinks (setPackageHash (realizePackages H t inventory).1 c.id
        (inventoryHash H inventory)) c.id
        (((realizePackages H t inventory).2.map Prod.snd).dedup.filter fun id =>
          id ∉ packageIdSetForCertname (realizePackages H t inventory).1 c.id)) c.id
        ((packageIdSetForCertname (realizePackages H t inventory).1 c.id).filter fun id =>
          id ∉ ((realizePackages H t inventory).2.map Prod.snd).dedup) := by
    rw [updatePackages, if_neg hhash]
    simp only [inventoryHash]
    split
    · next hempty => rw [hempty, deletePackages_nil]
    · rfl
  rw [hupdate]
  apply Relinked.updated ht hr _ ⟨c, hc, rfl⟩
  apply relinked_diff ht hr
  · exact (List.nodup_dedup _).filter _
  · intro id
    rw [List.mem_filter, List.mem_dedup, decide_eq_true_eq, mem_packageIdSet, hr.links]
  · intro id
    rw [List.mem_filter, decide_eq_true_eq, List.mem_dedup, mem_packageIdSet, hr.links]

/-- The first packages of a node. -/
theorem addPackages_updated (hidentity : Function.Injective H.identity) (ht : Invariant H t)
    (c : CertnameRow Digest) (hc : c ∈ t.certnames) (hnew : c.packageHash = none)
    (inventory : List PackageTuple) (hinventory : inventory.Nodup) :
    Updated H t (addPackages H t c.certname inventory) c.id inventory := by
  have hlinks := no_links ht c hc hnew
  by_cases hempty : inventory = []
  · rw [addPackages, if_pos hempty]
    refine ⟨ht, ?_, ht.packages, fun _ _ _ => Iff.rfl, fun row hrow _ => hrow, c, hc, rfl, ?_⟩
    · intro package
      rw [hempty]
      constructor
      · rintro ⟨row, -, -, hlink⟩
        exact absurd hlink (hlinks row.id)
      · intro hpackage
        cases hpackage
    · rw [hnew, inventoryHash, if_pos hempty]
  · have hr := realizePackages_realized H hidentity t ht inventory hinventory
    have hfind : t.certnames.find? (fun d => d.certname = c.certname) = some c := by
      cases hfound : t.certnames.find? fun d => d.certname = c.certname with
      | none => exact absurd (List.find?_eq_none.mp hfound c hc) (by simp)
      | some d =>
        have hcertname := List.find?_some hfound
        rw [decide_eq_true_eq] at hcertname
        have hd := List.mem_of_find?_eq_some hfound
        rw [List.inj_on_of_nodup_map ht.names hd hc hcertname]
    have hinsert : addPackages H t c.certname inventory =
        deletePackages (insertLinks (setPackageHash (realizePackages H t inventory).1 c.id
          (inventoryHash H inventory)) c.id ((realizePackages H t inventory).2.map Prod.snd)) c.id
          [] := by
      rw [addPackages, if_neg hempty, insertPackages, hfind, deletePackages_nil, inventoryHash,
        if_neg hempty]
    rw [hinsert]
    apply Relinked.updated ht hr _ ⟨c, hc, rfl⟩
    apply relinked_diff ht hr
    · exact hr.nodup
    · intro id
      simp [hlinks id]
    · intro id
      simp [hlinks id]

end Updates

/-- After an update of a node, and after the first insert for a node without packages, its packages
are those of the inventory, no two rows have one package, the packages of other nodes are as they
were, no package that is linked is deleted, and the node's hash is that of the inventory, or none
where that is empty. -/
theorem packages_updated [DecidableEq Hash] [DecidableEq Digest] (H : PackageDigests Hash Digest)
    (hidentity : Function.Injective H.identity) (hofHashes : Function.Injective H.ofHashes)
    (t : Tables Hash Digest) (ht : Invariant H t) (c : CertnameRow Digest) (hc : c ∈ t.certnames)
    (inventory : List PackageTuple) (hinventory : inventory.Nodup) :
    Updated H t (updatePackages H t c.id c.packageHash inventory) c.id inventory ∧
      (c.packageHash = none →
        Updated H t (addPackages H t c.certname inventory) c.id inventory) := by
  constructor
  · by_cases hhash : some (packageSimilarityHash H inventory) = c.packageHash
    · rw [updatePackages, if_pos hhash]
      exact updated_of_hash hidentity hofHashes ht c hc inventory hhash
    · exact updatePackages_updated hidentity ht c hc inventory hinventory hhash
  · intro hnew
    exact addPackages_updated hidentity ht c hc hnew inventory hinventory

/-- A node whose hash is that of its own packages alone. -/
def plainDigests : PackageDigests PackageTuple (List PackageTuple) where
  identity := id
  le p q := decide (p.1 ≤ q.1)
  ofHashes := id

/-- A node without packages. -/
def firstNode : CertnameRow (List PackageTuple) := ⟨1, "node.example.com", none⟩

def noPackages : Tables PackageTuple (List PackageTuple) := ⟨[firstNode], [], [], 0⟩

theorem invariant_noPackages : Invariant plainDigests noPackages where
  ids := List.nodup_nil
  sequence row hrow := by cases hrow
  hashed row hrow := by cases hrow
  packages := List.nodup_nil
  links := List.nodup_nil
  references link hlink := by cases hlink
  owners link hlink := by cases hlink
  certnames := List.nodup_singleton _
  names := List.nodup_singleton _
  current c hc := by
    rw [List.mem_singleton.mp hc]
    rintro package ⟨row, hrow, -⟩
    cases hrow

theorem packages_updated_openssl :
    Updated plainDigests noPackages (updatePackages plainDigests noPackages 1 none
      [("openssl", "1.1.1", "apt")]) 1 [("openssl", "1.1.1", "apt")] ∧
    Updated plainDigests noPackages (addPackages plainDigests noPackages "node.example.com"
      [("openssl", "1.1.1", "apt")]) 1 [("openssl", "1.1.1", "apt")] := by
  have h := packages_updated plainDigests Function.injective_id Function.injective_id noPackages
    invariant_noPackages firstNode List.mem_cons_self [("openssl", "1.1.1", "apt")]
    (List.nodup_singleton _)
  exact ⟨h.1, h.2 rfl⟩

/-! ## One node -/

/-- The hash and the packages of a node, as the tables have them. -/
structure Represents (t : Tables Hash Digest) (c : CertnameRow Digest)
    (node : Packages.NodePackages Digest) : Prop where
  packageHash : node.packageHash = c.packageHash
  rows : ∀ package, package ∈ node.rows ↔ Linked t c.id package

/-- The update of the tables is the update of the node. -/
theorem updatePackages_represents [DecidableEq Hash] [DecidableEq Digest]
    (H : PackageDigests Hash Digest) (hidentity : Function.Injective H.identity)
    (t : Tables Hash Digest) (ht : Invariant H t) (c : CertnameRow Digest) (hc : c ∈ t.certnames)
    (node : Packages.NodePackages Digest) (hnode : Represents t c node)
    (inventory : List PackageTuple) (hinventory : inventory.Nodup) :
    ∃ c' ∈ (updatePackages H t c.id c.packageHash inventory).certnames, c'.id = c.id ∧
      Represents (updatePackages H t c.id c.packageHash inventory) c'
        (Packages.updatePackages H node inventory) := by
  by_cases hhash : some (packageSimilarityHash H inventory) = c.packageHash
  · rw [updatePackages, if_pos hhash, Packages.updatePackages,
      if_pos (hnode.packageHash.trans hhash.symm)]
    exact ⟨c, hc, rfl, hnode⟩
  · have hupdated := updatePackages_updated hidentity ht c hc inventory hinventory hhash
    obtain ⟨c', hc', hid, hpackageHash⟩ := hupdated.node
    have hmiss : ¬ node.packageHash = some (packageSimilarityHash H inventory) := by
      rw [hnode.packageHash]
      exact fun heq => hhash heq.symm
    refine ⟨c', hc', hid, ?_⟩
    rw [Packages.updatePackages, if_neg hmiss]
    constructor
    · exact hpackageHash.symm
    · intro package
      rw [hid, hupdated.linked]
      simp only [Finset.mem_sdiff, Finset.mem_union, List.mem_toFinset]
      tauto

end OpenVoxDB.PackageUpdates
