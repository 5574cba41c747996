import Mathlib
import OpenVoxDB.CatalogInputs
import OpenVoxDB.CatalogStorage
import OpenVoxDB.LatestWins
import OpenVoxDB.Packages

/-!
# Confluence of the replace commands

What a node has stored after its replace commands have been processed, in any
order and any number of times each. Each kind of command is offered to a
register of its own: the staleness test of its store is what the register
refuses, and the hash that lets a store skip its writes never shows.
-/

namespace OpenVoxDB.Confluence

open Catalogs FactStorage

/-- The hashes and databases behind the stores. -/
structure Backends (C F H P I : Type) where
  catalogs : CatalogStorage.Backend C
  facts : FactDigests F
  packages : Packages.PackageDigests H P
  inputs : CatalogInputs.Backend I

structure Stores (C F P I : Type) where
  catalogs : CatalogStorage.CatalogStore C
  facts : FactStore F
  packages : Packages.PackageStore P
  inputs : CatalogInputs.InputStore I

inductive Kind where
  | replaceCatalog
  | replaceFacts
  | replaceCatalogInputs
  deriving DecidableEq, Repr

inductive Command where
  | replaceCatalog (catalog : Catalog) (received : Instant)
  | replaceFacts (factData : FactData)
  | replaceCatalogInputs (inputs : CatalogInputs.InputsData)

namespace Command

def kind : Command → Kind
  | replaceCatalog _ _ => .replaceCatalog
  | replaceFacts _ => .replaceFacts
  | replaceCatalogInputs _ => .replaceCatalogInputs

def certname : Command → String
  | replaceCatalog c _ => c.certname
  | replaceFacts d => d.certname
  | replaceCatalogInputs i => i.certname

def producerTimestamp : Command → Instant
  | replaceCatalog c _ => c.producerTimestamp
  | replaceFacts d => d.producerTimestamp
  | replaceCatalogInputs i => i.producerTimestamp

end Command

variable {C F H P I : Type}

def Stores.empty : Stores C F P I :=
  ⟨CatalogStorage.CatalogStore.empty, FactStore.empty, Packages.PackageStore.empty,
    CatalogInputs.InputStore.empty⟩

/-- No two contents have one hash. -/
structure Backends.CollisionFree (B : Backends C F H P I) : Prop where
  similarityHash : Function.Injective B.catalogs.similarityHash
  genericIdentity : Function.Injective B.facts.genericIdentity
  packageIdentity : Function.Injective B.packages.identity
  packageHashes : Function.Injective B.packages.ofHashes
  inputsSha1 : Function.Injective B.inputs.sha1

/-- A held command's time refuses that of another command of its kind. -/
def Refuses (kind : Kind) (held incoming : Instant) : Prop :=
  match kind with
  | .replaceCatalogInputs => ¬ Instant.toTimestamptz held < incoming
  | _ => incoming < Instant.toTimestamptz held

instance (kind : Kind) (held incoming : Instant) : Decidable (Refuses kind held incoming) :=
  match kind with
  | .replaceCatalogInputs => inferInstanceAs (Decidable (¬ _ < _))
  | .replaceCatalog => inferInstanceAs (Decidable (_ < _))
  | .replaceFacts => inferInstanceAs (Decidable (_ < _))

/-- Two times that their stored values keep apart: the later is not refused after the
earlier, and the earlier is refused after the later. -/
def Apart (kind : Kind) (earlier later : Instant) : Prop :=
  Refuses kind later earlier ∧ ¬ Refuses kind earlier later

/-- Times whose stored values differ are apart. -/
theorem apart_of_toTimestamptz_lt (kind : Kind) (earlier later : Instant)
    (h : Instant.toTimestamptz earlier < Instant.toTimestamptz later) :
    Apart kind earlier later := by
  have hearlier := Instant.lt_toTimestamptz_of_toTimestamptz_lt h
  have hlater := Instant.toTimestamptz_lt_of_toTimestamptz_lt h
  cases kind with
  | replaceCatalog => exact ⟨hearlier, not_lt.mpr hlater.le⟩
  | replaceFacts => exact ⟨hearlier, not_lt.mpr hlater.le⟩
  | replaceCatalogInputs => exact ⟨not_lt.mpr hearlier.le, not_not.mpr hlater⟩

section Execution

variable [DecidableEq C] [DecidableEq F] [DecidableEq P] [DecidableEq I]

/-- One command against the stores: `exec-replace-catalog`, `exec-replace-facts` and
`exec-replace-catalog-inputs`. -/
def execute (B : Backends C F H P I) (s : Stores C F P I) : Command → Stores C F P I
  | .replaceCatalog c received =>
    { s with catalogs := CatalogStorage.store B.catalogs s.catalogs (c, received) }
  | .replaceFacts d =>
    { s with
      facts := FactStorage.store B.facts s.facts d
      packages := Packages.storePackages B.packages s.facts s.packages d }
  | .replaceCatalogInputs i =>
    { s with inputs := CatalogInputs.store B.inputs s.inputs i }

/-- A node's rows are those of a catalog received at a time. -/
def HoldsCatalog (B : CatalogStorage.Backend C) (s : CatalogStorage.CatalogStore C)
    (call : Catalog × Instant) : Prop :=
  CatalogStorage.Holds B (s.nodes call.1.certname) call.1 ∧
    (s.nodes call.1.certname).metadata = some (CatalogStorage.catalogRowMap
      (CatalogStorage.catalogSimilarityHash B call.1) call.1 call.2)

/-- A node's factset and packages are those of a submission. -/
def HoldsFacts (D : FactDigests F) (s : FactStore F) (packages : Packages.PackageStore P)
    (d : FactData) : Prop :=
  (∃ row, s.factsets[d.certname]? = some row ∧ RowHolds D row d) ∧
    (packages d.certname).rows = d.packageInventory.toFinset

/-- The command's content and its producer timestamp are what its node has stored. -/
def Holds (B : Backends C F H P I) (s : Stores C F P I) : Command → Prop
  | .replaceCatalog c received => HoldsCatalog B.catalogs s.catalogs (c, received)
  | .replaceFacts d => HoldsFacts B.facts s.facts s.packages d
  | .replaceCatalogInputs i => CatalogInputs.Holds (s.inputs i.certname) i

/-- No command of the same kind is newer. -/
def Newest (commands : List Command) (c : Command) : Prop :=
  c ∈ commands ∧ ∀ other ∈ commands, other.kind = c.kind →
    other.producerTimestamp ≤ c.producerTimestamp

/-- Each kind that is among the commands has a newest one, and after `order` that is what
is stored. -/
def StoresNewest (B : Backends C F H P I) (commands order : List Command) : Prop :=
  ∀ c ∈ commands, ∃ newest, newest.kind = c.kind ∧ Newest commands newest ∧
    Holds B (run (execute B) Stores.empty order) newest

/-- Commands of one kind have different producer timestamps. -/
def DistinctTimes (commands : List Command) : Prop :=
  ∀ a ∈ commands, ∀ b ∈ commands, a.kind = b.kind →
    a.producerTimestamp = b.producerTimestamp → a = b

/-- Commands of one kind have times that their stored values keep apart. -/
def TimesApart (commands : List Command) : Prop :=
  ∀ a ∈ commands, ∀ b ∈ commands, a.kind = b.kind →
    a.producerTimestamp < b.producerTimestamp →
      Apart a.kind a.producerTimestamp b.producerTimestamp

/-- The stores take a command as it is, should they not find it stale: a catalog fits the
rows it meets, facts turn no truthy stable fact false or null, and there are inputs, all of
which the database takes. -/
def Takes (B : Backends C F H P I) (s : Stores C F P I) : Command → Prop
  | .replaceCatalog c received => CatalogStorage.StorableOver B.catalogs s.catalogs (c, received)
  | .replaceFacts d => KeepsTruth B.facts s.facts d
  | .replaceCatalogInputs i => CatalogInputs.Storable B.inputs i

end Execution

/-- What a register with the timestamps of one kind refuses. -/
def refuses {α : Type} (kind : Kind) (stamp : α → Instant) (held incoming : α) : Prop :=
  Refuses kind (stamp held) (stamp incoming)

instance {α : Type} (kind : Kind) (stamp : α → Instant) : DecidableRel (refuses kind stamp) :=
  fun held incoming => inferInstanceAs (Decidable (Refuses kind (stamp held) (stamp incoming)))

/-- The catalog of node `n` is what a register holds. -/
structure CatalogTracks (B : CatalogStorage.Backend C) (n : String)
    (s : CatalogStorage.CatalogStore C) (held : Option (Catalog × Instant)) : Prop where
  nodeOk : ∀ certname, CatalogStorage.NodeOk B (s.nodes certname)
  none : held = none → (s.nodes n).metadata = none
  some : ∀ call, held = some call → call.1.certname = n ∧ HoldsCatalog B s call

/-- The facts and packages of node `n` are what a register holds. -/
structure FactsTracks (D : FactDigests F) (Q : Packages.PackageDigests H P) (n : String)
    (s : FactStore F) (packages : Packages.PackageStore P) (held : Option FactData) : Prop where
  hashes : HashesCurrent D s
  packageHash : Packages.HashCurrent Q (packages n)
  none : held = none → s.factsets[n]? = none ∧ (packages n).rows = ∅
  some : ∀ d, held = some d → d.certname = n ∧ HoldsFacts D s packages d

/-- The catalog inputs of node `n` are what a register holds. -/
structure InputsTracks (B : CatalogInputs.Backend I) (n : String)
    (s : CatalogInputs.InputStore I) (held : Option CatalogInputs.InputsData) : Prop where
  hash : CatalogInputs.HashCurrent B n (s n)
  none : held = none → (s n).timestamp = none
  some : ∀ i, held = some i → i.certname = n ∧ CatalogInputs.Holds (s n) i

/-- The staleness test of a store is the refusal of the register it tracks. -/
theorem catalog_stale_iff (B : CatalogStorage.Backend C) (s : CatalogStorage.CatalogStore C)
    (call : Catalog × Instant) (held : Option (Catalog × Instant))
    (h : CatalogTracks B call.1.certname s held) : CatalogStorage.Stale s call.1 ↔
      ∃ old, held = some old ∧
        refuses .replaceCatalog (fun c => c.1.producerTimestamp) old call := by
  cases held with
  | none => simp [CatalogStorage.Stale, h.none rfl]
  | some old =>
    obtain ⟨hn, -, hmeta⟩ := h.some old rfl
    rw [hn] at hmeta
    simp [CatalogStorage.Stale, hmeta, CatalogStorage.catalogRowMap, refuses, Refuses]

theorem catalogTracks_store [DecidableEq C] (B : CatalogStorage.Backend C)
    (hB : Function.Injective B.similarityHash) (s : CatalogStorage.CatalogStore C)
    (call : Catalog × Instant) (held : Option (Catalog × Instant))
    (hcall : CatalogStorage.StorableOver B s call) (h : CatalogTracks B call.1.certname s held) :
    CatalogTracks B call.1.certname (CatalogStorage.store B s call)
      (LatestWins.offer (refuses .replaceCatalog fun c => c.1.producerTimestamp) held call) := by
  have hstale := catalog_stale_iff B s call held h
  by_cases hs : CatalogStorage.Stale s call.1
  · obtain ⟨old, rfl, hrefuse⟩ := hstale.mp hs
    rw [CatalogStorage.store_of_stale B s call hs, LatestWins.offer_of_refuses _ _ _ hrefuse]
    exact h
  · rw [LatestWins.offer_of_not_refuses _ _ _ fun old hold hrefuse =>
      hs (hstale.mpr ⟨old, hold, hrefuse⟩)]
    have hexact :=
      (CatalogStorage.storesExactly_iff_storableOver B hB s call h.nodeOk).mpr hcall
    refine ⟨CatalogStorage.store_nodeOk B hB s call h.nodeOk hexact, nofun, fun c hc => ?_⟩
    cases hc
    exact ⟨rfl, CatalogStorage.store_of_fresh B hB s call h.nodeOk hcall hs⟩

theorem inputs_stale_iff (B : CatalogInputs.Backend I) (s : CatalogInputs.InputStore I)
    (i : CatalogInputs.InputsData) (held : Option CatalogInputs.InputsData)
    (h : InputsTracks B i.certname s held) : CatalogInputs.Stale s i ↔
      ∃ old, held = some old ∧
        refuses .replaceCatalogInputs (fun c => c.producerTimestamp) old i := by
  cases held with
  | none => simp [CatalogInputs.Stale, h.none rfl]
  | some old =>
    obtain ⟨-, hholds⟩ := h.some old rfl
    simp [CatalogInputs.Stale, hholds.timestamp, refuses, Refuses]

theorem inputsTracks_store [DecidableEq I] (B : CatalogInputs.Backend I)
    (hB : Function.Injective B.sha1) (s : CatalogInputs.InputStore I)
    (i : CatalogInputs.InputsData) (held : Option CatalogInputs.InputsData)
    (hi : CatalogInputs.Storable B i) (h : InputsTracks B i.certname s held) :
    InputsTracks B i.certname (CatalogInputs.store B s i)
      (LatestWins.offer (refuses .replaceCatalogInputs fun c => c.producerTimestamp) held i) := by
  have hstale := inputs_stale_iff B s i held h
  by_cases hs : CatalogInputs.Stale s i
  · obtain ⟨old, rfl, hrefuse⟩ := hstale.mp hs
    rw [CatalogInputs.store_of_stale B s i hs, LatestWins.offer_of_refuses _ _ _ hrefuse]
    exact h
  · rw [LatestWins.offer_of_not_refuses _ _ _ fun old hold hrefuse =>
      hs (hstale.mpr ⟨old, hold, hrefuse⟩)]
    obtain ⟨node, hstore, hholds, hcur⟩ := CatalogInputs.store_of_fresh B hB s i h.hash hi hs
    rw [hstore]
    refine ⟨by rwa [Function.update_self], nofun, fun c hc => ?_⟩
    cases hc
    exact ⟨rfl, by rwa [Function.update_self]⟩

theorem facts_stale_iff (D : FactDigests F) (Q : Packages.PackageDigests H P) (s : FactStore F)
    (packages : Packages.PackageStore P) (d : FactData) (held : Option FactData)
    (h : FactsTracks D Q d.certname s packages held) :
    (∃ row, s.factsets[d.certname]? = some row ∧ d.producerTimestamp < row.producerTimestamp) ↔
      ∃ old, held = some old ∧ refuses .replaceFacts (fun c => c.producerTimestamp) old d := by
  cases held with
  | none => simp [(h.none rfl).1]
  | some old =>
    obtain ⟨hn, ⟨row, hrow, hholds⟩, -⟩ := h.some old rfl
    rw [hn] at hrow
    simp [hrow, hholds.producerTimestamp, refuses, Refuses]

theorem factsTracks_store [DecidableEq F] [DecidableEq P] (D : FactDigests F)
    (hD : Function.Injective D.genericIdentity) (Q : Packages.PackageDigests H P)
    (hidentity : Function.Injective Q.identity) (hhashes : Function.Injective Q.ofHashes)
    (s : FactStore F) (packages : Packages.PackageStore P) (d : FactData)
    (held : Option FactData) (hd : KeepsTruth D s d)
    (h : FactsTracks D Q d.certname s packages held) :
    FactsTracks D Q d.certname (FactStorage.store D s d)
      (Packages.storePackages Q s packages d)
      (LatestWins.offer (refuses .replaceFacts fun c => c.producerTimestamp) held d) := by
  have hstale := facts_stale_iff D Q s packages d held h
  by_cases hs : ∃ row, s.factsets[d.certname]? = some row ∧
      d.producerTimestamp < row.producerTimestamp
  · obtain ⟨old, rfl, hrefuse⟩ := hstale.mp hs
    obtain ⟨row, hrow, hlt⟩ := hs
    rw [FactStorage.store_of_stale D s d row hrow hlt,
      Packages.storePackages_of_stale Q s packages d row hrow hlt,
      LatestWins.offer_of_refuses _ _ _ hrefuse]
    exact h
  · rw [LatestWins.offer_of_not_refuses _ _ _ fun old hold hrefuse =>
      hs (hstale.mpr ⟨old, hold, hrefuse⟩)]
    have hfresh : ∀ row, s.factsets[d.certname]? = some row →
        ¬ d.producerTimestamp < row.producerTimestamp := fun row hrow hlt => hs ⟨row, hrow, hlt⟩
    -- a node without a factset tracks an empty register, so it has no packages
    have hfirst : s.factsets[d.certname]? = none → (packages d.certname).rows = ∅ := by
      intro hnone
      cases held with
      | none => exact (h.none rfl).2
      | some old =>
        obtain ⟨hn, ⟨row, hrow, -⟩, -⟩ := h.some old rfl
        rw [hn, hnone] at hrow
        cases hrow
    obtain ⟨hrows, hcur⟩ := Packages.storePackages_of_fresh Q hidentity hhashes s packages d
      h.packageHash hfirst hfresh
    refine ⟨store_hashesCurrent D s d h.hashes, hcur, nofun, fun c hc => ?_⟩
    cases hc
    exact ⟨rfl, FactStorage.store_of_fresh D hD s d h.hashes hd hfresh, hrows⟩

/-- How one kind of command carries what its store is given. -/
structure Payload (α : Type) where
  kind : Kind
  wrap : α → Command
  stamp : α → Instant
  select : Command → Option α
  select_eq_some : ∀ c w, select c = some w ↔ c = wrap w
  kind_wrap : ∀ w, (wrap w).kind = kind
  stamp_wrap : ∀ w, (wrap w).producerTimestamp = stamp w

def catalogPayload : Payload (Catalog × Instant) where
  kind := .replaceCatalog
  wrap := fun call => .replaceCatalog call.1 call.2
  stamp := fun call => call.1.producerTimestamp
  select
    | .replaceCatalog c received => some (c, received)
    | _ => none
  select_eq_some := by
    rintro (_ | _ | _) ⟨c, received⟩ <;> simp
  kind_wrap := fun _ => rfl
  stamp_wrap := fun _ => rfl

def factsPayload : Payload FactData where
  kind := .replaceFacts
  wrap := .replaceFacts
  stamp := fun d => d.producerTimestamp
  select
    | .replaceFacts d => some d
    | _ => none
  select_eq_some := by
    rintro (_ | _ | _) d <;> simp
  kind_wrap := fun _ => rfl
  stamp_wrap := fun _ => rfl

def inputsPayload : Payload CatalogInputs.InputsData where
  kind := .replaceCatalogInputs
  wrap := .replaceCatalogInputs
  stamp := fun i => i.producerTimestamp
  select
    | .replaceCatalogInputs i => some i
    | _ => none
  select_eq_some := by
    rintro (_ | _ | _) i <;> simp
  kind_wrap := fun _ => rfl
  stamp_wrap := fun _ => rfl

/-- A register offered every command of a kind, in any order, ends with the newest. -/
theorem register_newest {α : Type} (K : Payload α) (commands order : List Command)
    (hsame : ∀ c, c ∈ order ↔ c ∈ commands) (hdistinct : DistinctTimes commands)
    (hapart : TimesApart commands) (m : α) (hm : Newest commands (K.wrap m)) :
    (order.filterMap K.select).foldl (LatestWins.offer (refuses K.kind K.stamp)) none =
      some m := by
  have hmem : ∀ w, w ∈ order.filterMap K.select ↔ K.wrap w ∈ commands := by
    intro w
    rw [List.mem_filterMap, ← hsame]
    constructor
    · rintro ⟨c, hc, hsel⟩
      rwa [← (K.select_eq_some c w).mp hsel]
    · intro hw
      exact ⟨_, hw, (K.select_eq_some _ w).mpr rfl⟩
  refine LatestWins.foldl_offer_eq _ _ _ m ((hmem m).mpr hm.1) nofun fun w hw => ?_
  have hw' := (hmem w).mp hw
  have hkind : (K.wrap w).kind = (K.wrap m).kind := by rw [K.kind_wrap, K.kind_wrap]
  rcases (hm.2 _ hw' hkind).lt_or_eq with hlt | heq
  · have hwm := hapart _ hw' _ hm.1 hkind hlt
    rw [K.kind_wrap, K.stamp_wrap, K.stamp_wrap] at hwm
    exact .inr hwm
  · -- only the newest itself has its time
    have hself := hdistinct _ hw' _ hm.1 hkind heq
    have hsel := (K.select_eq_some _ w).mpr rfl
    rw [hself, (K.select_eq_some _ m).mpr rfl] at hsel
    exact .inl (Option.some.inj hsel).symm

theorem exists_newest (commands : List Command) (c : Command) (hc : c ∈ commands) :
    ∃ newest, newest.kind = c.kind ∧ Newest commands newest := by
  let ofKind := commands.filter fun other => other.kind = c.kind
  have hmem : c ∈ ofKind := List.mem_filter.mpr ⟨hc, by simp⟩
  cases hmax : ofKind.argmax Command.producerTimestamp with
  | none =>
    rw [List.argmax_eq_none.mp hmax] at hmem
    cases hmem
  | some m =>
    obtain ⟨hm, hkind⟩ := List.mem_filter.mp (List.argmax_mem hmax)
    have hkind : m.kind = c.kind := of_decide_eq_true hkind
    refine ⟨m, hkind, hm, fun other hother hsame => ?_⟩
    exact List.le_of_mem_argmax (List.mem_filter.mpr ⟨hother, by simp [hsame, hkind]⟩) hmax

section Runs

variable [DecidableEq C] [DecidableEq F] [DecidableEq P] [DecidableEq I]

/-- The three registers of a node after a run whose commands are all for it and all taken. -/
theorem run_tracks (B : Backends C F H P I) (hB : B.CollisionFree) (n : String)
    (order : List Command) (hname : ∀ c ∈ order, c.certname = n)
    (htakes : Always (execute B) (Takes B) Stores.empty order) :
    CatalogTracks B.catalogs n (run (execute B) Stores.empty order).catalogs
        ((order.filterMap catalogPayload.select).foldl
          (LatestWins.offer (refuses .replaceCatalog catalogPayload.stamp)) none) ∧
      FactsTracks B.facts B.packages n (run (execute B) Stores.empty order).facts
        (run (execute B) Stores.empty order).packages
        ((order.filterMap factsPayload.select).foldl
          (LatestWins.offer (refuses .replaceFacts factsPayload.stamp)) none) ∧
      InputsTracks B.inputs n (run (execute B) Stores.empty order).inputs
        ((order.filterMap inputsPayload.select).foldl
          (LatestWins.offer (refuses .replaceCatalogInputs inputsPayload.stamp)) none) := by
  have hsteps := always_and order Stores.empty hname htakes
  refine ⟨?_, ?_, ?_⟩
  · refine LatestWins.run_tracks _ (execute B) _ catalogPayload.select
      (fun s held => CatalogTracks B.catalogs n s.catalogs held) ?_ order _ none hsteps ?_
    · rintro s c held ⟨rfl, hc⟩ h
      cases c with
      | replaceCatalog c received =>
        exact catalogTracks_store B.catalogs hB.similarityHash s.catalogs (c, received) held hc h
      | replaceFacts d => exact h
      | replaceCatalogInputs i => exact h
    · exact ⟨CatalogStorage.nodeOk_empty B.catalogs, fun _ => rfl, fun _ h => by cases h⟩
  · refine LatestWins.run_tracks _ (execute B) _ factsPayload.select
      (fun s held => FactsTracks B.facts B.packages n s.facts s.packages held) ?_ order _ none
      hsteps ?_
    · rintro s c held ⟨rfl, hc⟩ h
      cases c with
      | replaceCatalog c received => exact h
      | replaceFacts d =>
        exact factsTracks_store B.facts hB.genericIdentity B.packages hB.packageIdentity
          hB.packageHashes s.facts s.packages d held hc h
      | replaceCatalogInputs i => exact h
    · exact ⟨hashesCurrent_empty B.facts, rfl, fun _ => ⟨by simp [Stores.empty, FactStore.empty],
        rfl⟩, fun _ h => by cases h⟩
  · refine LatestWins.run_tracks _ (execute B) _ inputsPayload.select
      (fun s held => InputsTracks B.inputs n s.inputs held) ?_ order _ none hsteps ?_
    · rintro s c held ⟨rfl, hc⟩ h
      cases c with
      | replaceCatalog c received => exact h
      | replaceFacts d => exact h
      | replaceCatalogInputs i =>
        exact inputsTracks_store B.inputs hB.inputsSha1 s.inputs i held hc h
    · exact ⟨CatalogInputs.hashCurrent_empty B.inputs n, fun _ => rfl, fun _ h => by cases h⟩

end Runs

/-- Databases that take every row without a NUL, with hashes that keep what they hash. -/
def contentBackends : Backends CatalogStorage.Content (List (String × Json))
    Packages.PackageTuple (List Packages.PackageTuple) (List Char) where
  catalogs := CatalogStorage.contentBackend
  facts := contentDigests
  packages := ⟨id, fun a b => decide (a.1 ≤ b.1), id⟩
  inputs :=
    { sha1 := id
      takes := fun input => !(input.type.toList.contains '\x00' || input.name.toList.contains '\x00')
      takes_nulFree := fun input h => by simpa using h }

theorem contentBackends_collisionFree : contentBackends.CollisionFree where
  similarityHash := CatalogStorage.contentBackend_injective
  genericIdentity := contentDigests_injective
  packageIdentity := Function.injective_id
  packageHashes := Function.injective_id
  inputsSha1 := Function.injective_id

/-- A catalog at time `t` for node `n`, with one resource and the given `:file`. -/
def motdCommand (t : Instant) (file : Option Cell) : Command :=
  .replaceCatalog (CatalogStorage.motdCatalog t file) t

/-- A catalog without `:file` fits a node that has no rows. -/
theorem fits_motd (t : Instant) :
    CatalogStorage.Fits CatalogStorage.contentBackend ∅ (CatalogStorage.motdCatalog t none) := by
  intro ref r hr
  obtain ⟨-, rfl⟩ := CatalogStorage.motd_of_getElem? hr
  exact ⟨rfl, fun row hrow => by simp at hrow⟩

end OpenVoxDB.Confluence
