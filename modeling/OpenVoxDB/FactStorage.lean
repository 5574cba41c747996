import OpenVoxDB.Dict
import OpenVoxDB.Json
import OpenVoxDB.Run
import OpenVoxDB.Time

/-!
# Storage of facts

A factset row keeps the facts of one node in two columns: `stable` holds facts
that have not changed since the row was written, `volatile` those that have.
Readers see the concatenation `stable || volatile`, and the facts entities list
the entries of both columns. The model follows `replace-facts!` with its first
insert, its hash-gated update and the rows it adds to `fact_paths`; the package
inventory is kept in tables of its own and is left out.
-/

namespace OpenVoxDB.FactStorage

abbrev FactMap := Dict String Json

/-- A row of `fact_paths`, as `path->pathmap` builds it. -/
structure Pathmap where
  path : String
  valueTypeId : Nat
  pathArray : List String
  name : String
  depth : Nat
  deriving DecidableEq, Repr

/-- A replace facts submission after normalization (`facts-schema`). -/
structure FactData where
  certname : String
  values : FactMap
  timestamp : Instant
  environment : Option String
  producerTimestamp : Instant
  producer : Option String
  packageInventory : List (String × String × String)

/-- A row of `factsets`. Environment and producer stand for their row ids. -/
structure Factset (Digest : Type) where
  timestamp : Instant
  environment : Option String
  producerTimestamp : Instant
  producer : Option String
  stable : FactMap
  stableHash : Option Digest
  volatile : FactMap
  pathsHash : Option Digest
  hash : Digest

/-- What storage takes from the hash and path code: the SHA-1 of the sorted JSON
text of a map (`generic-identity-sha1-bytes`), of a list of paths
(`hash-pathmaps-paths`) and of a submission (`fact-identity-hash`), and the
paths of a map (`facts->pathmaps`). -/
structure FactDigests (Digest : Type) where
  genericIdentity : FactMap → Digest
  hashPathmapsPaths : List Pathmap → Digest
  factIdentity : FactData → Digest
  factsToPathmaps : FactMap → List Pathmap

structure FactStore (Digest : Type) where
  factsets : Dict String (Factset Digest)
  factPaths : List Pathmap

inductive Status where
  | incorporated
  | stale
  deriving DecidableEq, Repr

variable {Digest : Type}

def FactStore.empty : FactStore Digest := ⟨∅, []⟩

/-- Insert the paths that have no row yet: `on conflict do nothing`. -/
def realizePaths (rows : List Pathmap) (pathmaps : List Pathmap) : List Pathmap :=
  pathmaps.foldl
    (fun rows pm =>
      if rows.any fun row => row.path = pm.path ∧ row.valueTypeId = pm.valueTypeId then rows
      else rows ++ [pm])
    rows

def addFacts (D : FactDigests Digest) (s : FactStore Digest) (d : FactData) :
    FactStore Digest :=
  let pathmaps := D.factsToPathmaps d.values
  let row : Factset Digest :=
    { timestamp := Instant.toTimestamptz d.timestamp
      environment := d.environment
      producerTimestamp := Instant.toTimestamptz d.producerTimestamp
      producer := d.producer
      stable := d.values
      stableHash := some (D.genericIdentity d.values)
      volatile := ∅
      pathsHash := some (D.hashPathmapsPaths pathmaps)
      hash := D.factIdentity d }
  ⟨s.factsets.insert d.certname row, realizePaths s.factPaths pathmaps⟩

/-- Incoming stable facts whose current value is truthy and differs. -/
def changedFacts (current incomingStable : FactMap) : FactMap :=
  incomingStable.filter fun fact newValue =>
    match current[fact]? with
    | some value => value.truthy && newValue ≠ value
    | none => false

/-- `(remove (fn [[fact _]] (get changed-facts fact)))`: the test is on the value. -/
def newStableFacts (changed incomingStable : FactMap) : FactMap :=
  incomingStable.filter fun fact _ => !(changed[fact]?.any Json.truthy)

def incomingVolatileFacts (row : Factset Digest) (values : FactMap) : FactMap :=
  Dict.selectKeys values row.volatile.contains

def incomingStableFacts (row : Factset Digest) (values : FactMap) : FactMap :=
  Dict.dissoc values row.volatile.contains

/-- The `stable`, `stable_hash` and `volatile` columns after an update. Facts that were
volatile stay so; a stable fact that changed is to become volatile. -/
def factJsonUpdates [DecidableEq Digest] (D : FactDigests Digest) (row : Factset Digest)
    (values : FactMap) : Factset Digest :=
  if row.stableHash = some (D.genericIdentity (incomingStableFacts row values)) then
    { row with volatile := incomingVolatileFacts row values }
  else
    let changed := changedFacts row.stable (incomingStableFacts row values)
    let newStable := newStableFacts changed (incomingStableFacts row values)
    { row with
      stable := newStable
      stableHash := some (D.genericIdentity newStable)
      volatile := incomingVolatileFacts row values ∪ changed }

/-- The new `paths_hash` with whether the incoming paths are written. -/
def updatePathsHash [DecidableEq Digest] (D : FactDigests Digest) (existing : Option Digest)
    (pathmaps : List Pathmap) : Digest × Bool :=
  let incoming := D.hashPathmapsPaths pathmaps
  match existing with
  | some h => if h = incoming then (h, false) else (incoming, true)
  | none => (incoming, true)

def updateFacts [DecidableEq Digest] (D : FactDigests Digest) (s : FactStore Digest) (row : Factset Digest)
    (d : FactData) : FactStore Digest :=
  let pathmaps := D.factsToPathmaps d.values
  let (pathsHash, realize) := updatePathsHash D row.pathsHash pathmaps
  let row' : Factset Digest :=
    { factJsonUpdates D row d.values with
      timestamp := Instant.toTimestamptz d.timestamp
      environment := d.environment
      producerTimestamp := Instant.toTimestamptz d.producerTimestamp
      producer := d.producer
      pathsHash := some pathsHash
      hash := D.factIdentity d }
  ⟨s.factsets.insert d.certname row',
    if realize then realizePaths s.factPaths pathmaps else s.factPaths⟩

def replaceFacts [DecidableEq Digest] (D : FactDigests Digest) (s : FactStore Digest) (d : FactData) :
    FactStore Digest × Status :=
  match s.factsets[d.certname]? with
  | some row =>
    if d.producerTimestamp < row.producerTimestamp then (s, .stale)
    else (updateFacts D s row d, .incorporated)
  | none => (addFacts D s d, .incorporated)

/-- The store after one submission, its status dropped. -/
def store [DecidableEq Digest] (D : FactDigests Digest) (s : FactStore Digest) (d : FactData) : FactStore Digest :=
  (replaceFacts D s d).1

def Accepted [DecidableEq Digest] (D : FactDigests Digest) (s : FactStore Digest) (d : FactData) : Prop :=
  (replaceFacts D s d).2 = .incorporated

instance [DecidableEq Digest] (D : FactDigests Digest) (s : FactStore Digest) (d : FactData) :
    Decidable (Accepted D s d) := inferInstanceAs (Decidable (_ = _))

/-- The two columns split `values` between them. -/
structure WellSplit (row : Factset Digest) (values : FactMap) : Prop where
  disjoint : Dict.DisjointKeys row.stable row.volatile
  union : row.stable ∪ row.volatile = values

/-- Some fact outside `volatile` goes from a truthy value to `false` or `null`. -/
def LosesTruth (row : Factset Digest) (values : FactMap) : Prop :=
  ∃ (fact : String) (old new : Json), row.volatile[fact]? = none ∧
    row.stable[fact]? = some old ∧ old.truthy = true ∧
    values[fact]? = some new ∧ new.truthy = false

/-- The stored hash is that of the stored stable facts. -/
def HashCurrent (D : FactDigests Digest) (row : Factset Digest) : Prop :=
  row.stableHash = some (D.genericIdentity row.stable)

theorem getElem?_changedFacts (current incoming : FactMap) (fact : String) (v : Json) :
    (changedFacts current incoming)[fact]? = some v ↔
      incoming[fact]? = some v ∧
        ∃ old, current[fact]? = some old ∧ old.truthy = true ∧ v ≠ old := by
  rw [changedFacts, Std.ExtTreeMap.getElem?_filter']
  cases hc : current[fact]? with
  | none => simp
  | some old => simp [Option.filter_eq_some_iff]

theorem getElem?_newStableFacts (changed incoming : FactMap) (fact : String) :
    (newStableFacts changed incoming)[fact]? =
      if changed[fact]?.any Json.truthy then none else incoming[fact]? := by
  rw [newStableFacts, Std.ExtTreeMap.getElem?_filter']
  cases incoming[fact]? with
  | none => simp
  | some v => cases changed[fact]?.any Json.truthy <;> simp [Option.filter]

/-- Facts kept stable and changed facts together are the incoming stable facts. -/
theorem newStable_union_changed (current incoming : FactMap) :
    newStableFacts (changedFacts current incoming) incoming ∪ changedFacts current incoming =
      incoming := by
  apply Std.ExtTreeMap.ext_getElem?
  intro fact
  rw [Std.ExtTreeMap.getElem?_union, getElem?_newStableFacts]
  cases h : (changedFacts current incoming)[fact]? with
  | none => simp
  | some v =>
    have hv := (getElem?_changedFacts current incoming fact v).mp h
    simp [hv.1]

/-- An unchanged hash means unchanged stable facts. -/
theorem stable_eq_of_hash_eq (D : FactDigests Digest)
    (hD : Function.Injective D.genericIdentity) (row : Factset Digest) (incoming : FactMap)
    (hrow : HashCurrent D row) (h : row.stableHash = some (D.genericIdentity incoming)) :
    row.stable = incoming := by
  rw [hrow] at h
  exact hD (Option.some.inj h)

theorem getElem?_incomingStableFacts (row : Factset Digest) (values : FactMap) (fact : String) :
    (incomingStableFacts row values)[fact]? =
      if row.volatile[fact]?.isSome then none else values[fact]? := by
  rw [incomingStableFacts, Dict.getElem?_dissoc, Std.ExtTreeMap.contains_eq_isSome_getElem?]

theorem getElem?_incomingVolatileFacts (row : Factset Digest) (values : FactMap)
    (fact : String) :
    (incomingVolatileFacts row values)[fact]? =
      if row.volatile[fact]?.isSome then values[fact]? else none := by
  rw [incomingVolatileFacts, Dict.getElem?_selectKeys,
    Std.ExtTreeMap.contains_eq_isSome_getElem?]

/-- A changed fact is an incoming stable one, so it is not among the volatile keys. -/
theorem volatile_none_of_changed (row : Factset Digest) (values : FactMap) (fact : String)
    (v : Json)
    (h : (changedFacts row.stable (incomingStableFacts row values))[fact]? = some v) :
    row.volatile[fact]? = none ∧ values[fact]? = some v := by
  have hin := ((getElem?_changedFacts _ _ _ _).mp h).1
  rw [getElem?_incomingStableFacts] at hin
  cases hv : row.volatile[fact]? with
  | some w => simp [hv] at hin
  | none => exact ⟨rfl, by simpa [hv] using hin⟩

section Update

variable [DecidableEq Digest]

/-- Everything an update does to the fact columns. -/
theorem factJsonUpdates_cases (D : FactDigests Digest) (row : Factset Digest)
    (values : FactMap) :
    (row.stableHash = some (D.genericIdentity (incomingStableFacts row values)) ∧
      factJsonUpdates D row values = { row with volatile := incomingVolatileFacts row values }) ∨
    ∃ changed newStable, changed = changedFacts row.stable (incomingStableFacts row values) ∧
      newStable = newStableFacts changed (incomingStableFacts row values) ∧
      factJsonUpdates D row values =
        { row with
          stable := newStable
          stableHash := some (D.genericIdentity newStable)
          volatile := incomingVolatileFacts row values ∪ changed } := by
  by_cases h : row.stableHash = some (D.genericIdentity (incomingStableFacts row values))
  · exact .inl ⟨h, if_pos h⟩
  · exact .inr ⟨_, _, rfl, rfl, if_neg h⟩

theorem factJsonUpdates_hashCurrent (D : FactDigests Digest) (row : Factset Digest)
    (values : FactMap) (hrow : HashCurrent D row) :
    HashCurrent D (factJsonUpdates D row values) := by
  obtain ⟨-, he⟩ | ⟨changed, newStable, -, -, he⟩ := factJsonUpdates_cases D row values
  · rw [he]
    exact hrow
  · rw [he]
    rfl

/-- Whatever the values, the two columns together give them back. -/
theorem factJsonUpdates_union (D : FactDigests Digest)
    (hD : Function.Injective D.genericIdentity) (row : Factset Digest) (values : FactMap)
    (hrow : HashCurrent D row) :
    (factJsonUpdates D row values).stable ∪ (factJsonUpdates D row values).volatile = values := by
  obtain ⟨h, he⟩ | ⟨changed, newStable, hchanged, hnew, he⟩ := factJsonUpdates_cases D row values
  · rw [he]
    simp only
    rw [stable_eq_of_hash_eq D hD row _ hrow h]
    exact Dict.dissoc_union_selectKeys values row.volatile.contains
  · rw [he]
    simp only
    apply Std.ExtTreeMap.ext_getElem?
    intro fact
    have hjoin := congrArg (fun m : FactMap => m[fact]?)
      (newStable_union_changed row.stable (incomingStableFacts row values))
    simp only [Std.ExtTreeMap.getElem?_union] at hjoin ⊢
    rw [← hchanged, ← hnew, getElem?_incomingStableFacts] at hjoin
    rw [getElem?_incomingVolatileFacts]
    cases hv : row.volatile[fact]? with
    | none => simpa [hv] using hjoin
    | some w =>
      -- a fact that was volatile is in neither part of the incoming stable facts
      simp only [hv, Option.isSome_some, if_true, Option.or_eq_none_iff] at hjoin ⊢
      rw [hjoin.1, hjoin.2]
      simp

/-- The update keeps the columns disjoint exactly when no fact loses its truth. -/
theorem factJsonUpdates_disjoint_iff (D : FactDigests Digest)
    (hD : Function.Injective D.genericIdentity) (row : Factset Digest) (values : FactMap)
    (hrow : HashCurrent D row) :
    Dict.DisjointKeys (factJsonUpdates D row values).stable
      (factJsonUpdates D row values).volatile ↔ ¬ LosesTruth row values := by
  obtain ⟨h, he⟩ | ⟨changed, newStable, hchanged, hnew, he⟩ := factJsonUpdates_cases D row values
  · have hstable := stable_eq_of_hash_eq D hD row _ hrow h
    rw [he]
    refine iff_of_true ?_ ?_
    · intro fact
      simp only
      rw [hstable, getElem?_incomingStableFacts, getElem?_incomingVolatileFacts]
      cases row.volatile[fact]?.isSome <;> simp
    · -- a fact kept by the fast path has the value that is stored
      rintro ⟨fact, old, new, hvol, hold, ht, hin, hf⟩
      rw [hstable, getElem?_incomingStableFacts, hvol] at hold
      have heq : new = old := by simpa [hin] using hold
      rw [heq, ht] at hf
      exact absurd hf (by decide)
  · rw [he]
    simp only
    constructor
    · rintro hdis ⟨fact, old, new, hvol, hold, ht, hin, hf⟩
      have hstable : (incomingStableFacts row values)[fact]? = some new := by
        rw [getElem?_incomingStableFacts, hvol]
        exact hin
      have hc : changed[fact]? = some new := by
        rw [hchanged]
        refine (getElem?_changedFacts _ _ _ _).mpr ⟨hstable, old, hold, ht, ?_⟩
        rintro rfl
        rw [hf] at ht
        exact absurd ht (by decide)
      rcases hdis fact with hs | hv
      · rw [hnew, getElem?_newStableFacts, hc, hstable] at hs
        simp [hf] at hs
      · rw [Std.ExtTreeMap.getElem?_union, hc] at hv
        simp at hv
    · intro hkeep fact
      rw [hnew, getElem?_newStableFacts, Std.ExtTreeMap.getElem?_union,
        getElem?_incomingVolatileFacts, getElem?_incomingStableFacts]
      cases hc : changed[fact]? with
      | none => cases row.volatile[fact]?.isSome <;> simp
      | some new =>
        rw [hchanged] at hc
        obtain ⟨hvol, hin⟩ := volatile_none_of_changed row values fact new hc
        obtain ⟨-, old, hold, ht, -⟩ := (getElem?_changedFacts _ _ _ _).mp hc
        have htrue : new.truthy = true := by
          cases hn : new.truthy with
          | true => rfl
          | false => exact absurd ⟨fact, old, new, hvol, hold, ht, hin, hn⟩ hkeep
        exact .inl (by simp [htrue])

/-- Everything a submission can do to the store. -/
theorem replaceFacts_cases (D : FactDigests Digest) (s : FactStore Digest) (d : FactData) :
    (s.factsets[d.certname]? = none ∧ replaceFacts D s d = (addFacts D s d, .incorporated)) ∨
    (∃ row, s.factsets[d.certname]? = some row ∧
      d.producerTimestamp < row.producerTimestamp ∧ replaceFacts D s d = (s, .stale)) ∨
    (∃ row, s.factsets[d.certname]? = some row ∧ ¬ d.producerTimestamp < row.producerTimestamp ∧
      replaceFacts D s d = (updateFacts D s row d, .incorporated)) := by
  unfold replaceFacts
  cases s.factsets[d.certname]? with
  | none => exact .inl ⟨rfl, rfl⟩
  | some row =>
    by_cases h : d.producerTimestamp < row.producerTimestamp
    · exact .inr (.inl ⟨row, rfl, h, if_pos h⟩)
    · exact .inr (.inr ⟨row, rfl, h, if_neg h⟩)

/-- The row an update writes carries the fact columns of `factJsonUpdates`. -/
theorem updateFacts_row (D : FactDigests Digest) (s : FactStore Digest) (row : Factset Digest)
    (d : FactData) :
    ∃ row', (updateFacts D s row d).factsets = s.factsets.insert d.certname row' ∧
      row'.stable = (factJsonUpdates D row d.values).stable ∧
      row'.volatile = (factJsonUpdates D row d.values).volatile ∧
      row'.stableHash = (factJsonUpdates D row d.values).stableHash :=
  ⟨_, rfl, rfl, rfl, rfl⟩

/-- Every stored row has the hash of its stable facts. -/
def HashesCurrent (D : FactDigests Digest) (s : FactStore Digest) : Prop :=
  ∀ (certname : String) (row : Factset Digest), s.factsets[certname]? = some row →
    HashCurrent D row

omit [DecidableEq Digest] in
theorem hashesCurrent_empty (D : FactDigests Digest) :
    HashesCurrent D (FactStore.empty : FactStore Digest) := by
  intro certname row h
  simp [FactStore.empty] at h

omit [DecidableEq Digest] in
theorem hashesCurrent_insert (D : FactDigests Digest) (s : FactStore Digest)
    (hs : HashesCurrent D s) (c : String) (row : Factset Digest) (hrow : HashCurrent D row)
    (paths : List Pathmap) : HashesCurrent D ⟨s.factsets.insert c row, paths⟩ := by
  intro certname row' h
  simp only [Std.ExtTreeMap.getElem?_insert] at h
  split at h
  · cases h
    exact hrow
  · exact hs certname row' h

/-- One submission keeps every stored hash current. -/
theorem store_hashesCurrent (D : FactDigests Digest) (s : FactStore Digest) (d : FactData)
    (hs : HashesCurrent D s) : HashesCurrent D (store D s d) := by
  unfold store
  obtain ⟨-, he⟩ | ⟨row, -, -, he⟩ | ⟨row, hrow, -, he⟩ := replaceFacts_cases D s d
  · rw [he]
    exact hashesCurrent_insert D s hs _ _ (by rfl : HashCurrent D ⟨_, _, _, _, d.values, some (D.genericIdentity d.values), _, _, _⟩) _
  · rw [he]
    exact hs
  · rw [he]
    obtain ⟨row', hins, hstable, -, hhash⟩ := updateFacts_row D s row d
    have hcur : HashCurrent D row' := by
      rw [HashCurrent, hhash, hstable]
      exact factJsonUpdates_hashCurrent D row d.values (hs _ _ hrow)
    have := hashesCurrent_insert D s hs d.certname row' hcur (updateFacts D s row d).factPaths
    rwa [← hins] at this

/-- After an accepted call the row of its node splits the submitted values. -/
def SplitsValues (D : FactDigests Digest) (s : FactStore Digest) (d : FactData) : Prop :=
  Accepted D s d →
    ∃ row, (store D s d).factsets[d.certname]? = some row ∧ WellSplit row d.values

/-- An accepted call turns no truthy fact of the `stable` column to `false` or `null`. -/
def KeepsTruth (D : FactDigests Digest) (s : FactStore Digest) (d : FactData) : Prop :=
  Accepted D s d → ∀ row, s.factsets[d.certname]? = some row → ¬ LosesTruth row d.values

/-- One call: the columns split the values exactly when no fact loses its truth. -/
theorem splitsValues_iff_keepsTruth (D : FactDigests Digest)
    (hD : Function.Injective D.genericIdentity) (s : FactStore Digest) (d : FactData)
    (hs : HashesCurrent D s) : SplitsValues D s d ↔ KeepsTruth D s d := by
  unfold SplitsValues KeepsTruth Accepted store
  obtain ⟨hnone, he⟩ | ⟨row, hrow, -, he⟩ | ⟨row, hrow, -, he⟩ := replaceFacts_cases D s d
  · -- a first insert stores everything as stable
    rw [he]
    refine iff_of_true ?_ ?_
    · intro _
      refine ⟨_, Std.ExtTreeMap.getElem?_insert_self, Dict.disjointKeys_empty _, ?_⟩
      apply Std.ExtTreeMap.ext_getElem?
      intro fact
      rw [Std.ExtTreeMap.getElem?_union]
      simp
    · intro _ row h
      rw [hnone] at h
      cases h
  · rw [he]
    exact iff_of_true (by simp) (by simp)
  · obtain ⟨row', hins, hstable, hvol, -⟩ := updateFacts_row D s row d
    have hrow' : (updateFacts D s row d).factsets[d.certname]? = some row' := by
      rw [hins, Std.ExtTreeMap.getElem?_insert_self]
    have hunion := factJsonUpdates_union D hD row d.values (hs _ _ hrow)
    have hdisjoint := factJsonUpdates_disjoint_iff D hD row d.values (hs _ _ hrow)
    rw [← hstable, ← hvol] at hunion hdisjoint
    rw [he]
    simp only [forall_const, hrow', hrow, Option.some.injEq, forall_eq', exists_eq_left']
    exact ⟨fun h => hdisjoint.mp h.disjoint, fun h => ⟨hdisjoint.mpr h, hunion⟩⟩

/-- Along every sequence of submissions the columns of each accepted call split its
values exactly as long as no accepted call makes a truthy stable fact false or null. -/
theorem splitsValues_along_run_iff (D : FactDigests Digest)
    (hD : Function.Injective D.genericIdentity) (calls : List FactData) :
    Always (store D) (SplitsValues D) FactStore.empty calls ↔
      Always (store D) (KeepsTruth D) FactStore.empty calls :=
  always_congr (fun s d hs => splitsValues_iff_keepsTruth D hD s d hs)
    (fun s d hs _ => store_hashesCurrent D s d hs) calls _ (hashesCurrent_empty D)

/-- A row is that of a submission: its columns split the values, and what else is stored
comes from the submission too. -/
structure RowHolds (D : FactDigests Digest) (row : Factset Digest) (d : FactData) : Prop where
  split : WellSplit row d.values
  timestamp : row.timestamp = Instant.toTimestamptz d.timestamp
  environment : row.environment = d.environment
  producerTimestamp : row.producerTimestamp = Instant.toTimestamptz d.producerTimestamp
  producer : row.producer = d.producer
  hash : row.hash = D.factIdentity d

theorem store_of_stale (D : FactDigests Digest) (s : FactStore Digest) (d : FactData)
    (row : Factset Digest) (hrow : s.factsets[d.certname]? = some row)
    (h : d.producerTimestamp < row.producerTimestamp) : store D s d = s := by
  simp only [store, replaceFacts, hrow, if_pos h]

/-- A submission that is not stale and turns no truthy stable fact false or null is what the
row of its node holds afterwards. -/
theorem store_of_fresh (D : FactDigests Digest) (hD : Function.Injective D.genericIdentity)
    (s : FactStore Digest) (d : FactData) (hs : HashesCurrent D s) (hkeep : KeepsTruth D s d)
    (h : ∀ row, s.factsets[d.certname]? = some row →
      ¬ d.producerTimestamp < row.producerTimestamp) :
    ∃ row, (store D s d).factsets[d.certname]? = some row ∧ RowHolds D row d := by
  have hsplits := (splitsValues_iff_keepsTruth D hD s d hs).mpr hkeep
  unfold SplitsValues Accepted store at hsplits
  unfold store
  obtain ⟨-, he⟩ | ⟨row, hrow, hlt, -⟩ | ⟨row, -, -, he⟩ := replaceFacts_cases D s d
  · rw [he] at hsplits ⊢
    obtain ⟨row, hrow, hsplit⟩ := hsplits rfl
    refine ⟨row, hrow, ?_⟩
    rw [addFacts, Std.ExtTreeMap.getElem?_insert_self] at hrow
    cases hrow
    exact ⟨hsplit, rfl, rfl, rfl, rfl, rfl⟩
  · exact absurd hlt (h row hrow)
  · rw [he] at hsplits ⊢
    obtain ⟨row', hrow', hsplit⟩ := hsplits rfl
    refine ⟨row', hrow', ?_⟩
    rw [updateFacts, Std.ExtTreeMap.getElem?_insert_self] at hrow'
    cases hrow'
    exact ⟨hsplit, rfl, rfl, rfl, rfl, rfl⟩

end Update

/-- Digests that keep all of what they digest. -/
def contentDigests : FactDigests (List (String × Json)) where
  genericIdentity := Std.ExtTreeMap.toList
  hashPathmapsPaths := fun _ => []
  factIdentity := fun d => d.values.toList
  factsToPathmaps := fun _ => []

theorem contentDigests_injective : Function.Injective contentDigests.genericIdentity := by
  intro m n h
  exact Std.ExtTreeMap.ext_toList (by rw [show m.toList = n.toList from h])

/-- Node `n` reports the single fact `flag` at time `t`. -/
def flagReport (t : Instant) (v : Json) : FactData :=
  ⟨"n", Std.ExtTreeMap.ofList [("flag", v)], t, none, t, none, []⟩

/-- A fact that goes from `true` to `false` ends up in both columns. -/
theorem splitsValues_fails : ¬ Always (store contentDigests) (SplitsValues contentDigests)
    FactStore.empty [flagReport 0 (.bool true), flagReport 1 (.bool false)] := by
  rintro ⟨-, h, -⟩
  obtain ⟨row, hrow, hsplit⟩ := h (by decide)
  have hstable : ((store contentDigests (store contentDigests FactStore.empty
      (flagReport 0 (.bool true))) (flagReport 1 (.bool false))).factsets["n"]?.bind
        fun r => r.stable["flag"]?) = some (.bool false) := by
    decide +kernel
  have hvolatile : ((store contentDigests (store contentDigests FactStore.empty
      (flagReport 0 (.bool true))) (flagReport 1 (.bool false))).factsets["n"]?.bind
        fun r => r.volatile["flag"]?) = some (.bool false) := by
    decide +kernel
  rw [show (flagReport 1 (.bool false)).certname = "n" from rfl] at hrow
  rw [hrow] at hstable hvolatile
  rcases hsplit.disjoint "flag" with he | he <;> simp_all

theorem splitsValues_along_run_iff_flag :
    Always (store contentDigests) (SplitsValues contentDigests)
        FactStore.empty [flagReport 0 (.bool true)] ↔
      Always (store contentDigests) (KeepsTruth contentDigests)
        FactStore.empty [flagReport 0 (.bool true)] :=
  splitsValues_along_run_iff contentDigests contentDigests_injective _

end OpenVoxDB.FactStorage
