import OpenVoxDB.Dict
import OpenVoxDB.Framing
import OpenVoxDB.Time

/-!
# Storage of catalog inputs

The inputs of a node's catalog are rows of `catalog_inputs`; their time, uuid
and hash are columns of the node's row in `certnames`. Rows whose hash has not
changed are not written again.
-/

namespace OpenVoxDB.CatalogInputs

/-- An input: its type and its name. -/
structure Input where
  type : String
  name : String
  deriving DecidableEq, Repr

instance : Ord Input := ⟨compareLex (compareOn Input.type) (compareOn Input.name)⟩

instance : Std.TransOrd Input :=
  inferInstanceAs (Std.TransCmp (compareLex (compareOn Input.type) (compareOn Input.name)))

instance : Std.LawfulEqOrd Input where
  eq_of_compare {a b} h := by
    obtain ⟨htype, hname⟩ : compare a.type b.type = .eq ∧ compare a.name b.name = .eq := by
      simpa [compare, compareLex, compareOn, Ordering.then_eq_eq] using h
    cases a
    cases b
    simp_all

/-- The payload of a replace catalog inputs command. -/
structure InputsData where
  certname : String
  catalogUuid : String
  inputs : List Input
  producerTimestamp : Instant

/-- The inputs of a node and the columns of its `certnames` row. -/
structure NodeInputs (Digest : Type) where
  catalogUuid : Option String
  timestamp : Option Instant
  hash : Option Digest
  rows : Dict Input Unit

abbrev InputStore (Digest : Type) := String → NodeInputs Digest

/-- The SHA-1 of a text, and the rows PostgreSQL takes: none with a NUL in it. -/
structure Backend (Digest : Type) where
  sha1 : List Char → Digest
  takes : Input → Bool
  takes_nulFree : ∀ input, takes input = true →
    '\x00' ∉ input.type.toList ∧ '\x00' ∉ input.name.toList

inductive SqlError where
  | rejectedValue
  deriving DecidableEq, Repr

inductive Status (Digest : Type) where
  | stale
  | incorporated (hash : Digest)
  deriving DecidableEq, Repr

variable {Digest : Type}

def InputStore.empty : InputStore Digest := fun _ => ⟨none, none, none, ∅⟩

/-- `(apply sorted-set inputs)` -/
def sortedSet (inputs : List Input) : Dict Input Unit :=
  Std.ExtTreeMap.ofList (inputs.map fun input => (input, ()))

/-- The texts of the inputs, in the order they are digested. -/
def inputTexts (inputs : Dict Input Unit) : List (List Char) :=
  inputs.keys.flatMap fun input => [input.type.toList, input.name.toList]

/-- `catalog-inputs-hash`: a zero byte ends each text. -/
def catalogInputsHash (B : Backend Digest) (certname : String) (inputs : Dict Input Unit) :
    Digest :=
  B.sha1 (Framing.terminated '\x00' (certname.toList :: inputTexts inputs))

/-- The stored time is not before the incoming one. -/
def Stale (s : InputStore Digest) (c : InputsData) : Prop :=
  ∃ old ∈ (s c.certname).timestamp, ¬ old < c.producerTimestamp

instance (s : InputStore Digest) (c : InputsData) : Decidable (Stale s c) :=
  match h : (s c.certname).timestamp with
  | none => .isFalse (by simp [Stale, h])
  | some old => decidable_of_iff (¬ old < c.producerTimestamp) (by simp [Stale, h])

/-- `store-catalog-inputs!`: the rows of one node, all of them or none. -/
def storeCatalogInputs (B : Backend Digest) (inputs : Dict Input Unit) :
    Except SqlError (Dict Input Unit) :=
  if inputs.keys.all B.takes then .ok inputs else .error .rejectedValue

/-- The node after an accepted command: rows whose hash is the stored one stay. -/
def incorporate [DecidableEq Digest] (B : Backend Digest) (node : NodeInputs Digest)
    (c : InputsData) : Except SqlError (NodeInputs Digest) := do
  let inputs := sortedSet c.inputs
  let newHash := catalogInputsHash B c.certname inputs
  let rows ← if node.hash = some newHash then pure node.rows else storeCatalogInputs B inputs
  return ⟨some c.catalogUuid, some (Instant.toTimestamptz c.producerTimestamp), some newHash, rows⟩

def replaceCatalogInputs [DecidableEq Digest] (B : Backend Digest) (s : InputStore Digest)
    (c : InputsData) : Except SqlError (InputStore Digest × Status Digest) := do
  if Stale s c then return (s, .stale)
  else
    let node ← incorporate B (s c.certname) c
    return (Function.update s c.certname node,
      .incorporated (catalogInputsHash B c.certname (sortedSet c.inputs)))

/-- `exec-replace-catalog-inputs` for one command: it does nothing when there are no
inputs, and a call that fails is rolled back. -/
def store [DecidableEq Digest] (B : Backend Digest) (s : InputStore Digest) (c : InputsData) :
    InputStore Digest :=
  if c.inputs = [] then s
  else
    match replaceCatalogInputs B s c with
    | .ok (s', _) => s'
    | .error _ => s

/-- A node's rows and columns are those of the command. -/
structure Holds (node : NodeInputs Digest) (c : InputsData) : Prop where
  rows : node.rows = sortedSet c.inputs
  catalogUuid : node.catalogUuid = some c.catalogUuid
  timestamp : node.timestamp = some (Instant.toTimestamptz c.producerTimestamp)

/-- The stored hash is that of the stored rows, which passed the column types. -/
def HashCurrent (B : Backend Digest) (certname : String) (node : NodeInputs Digest) : Prop :=
  ∀ h ∈ node.hash, h = catalogInputsHash B certname node.rows ∧
    ∀ input ∈ node.rows.keys, B.takes input = true

/-- There are inputs, and the database takes each of them. -/
def Storable (B : Backend Digest) (c : InputsData) : Prop :=
  c.inputs ≠ [] ∧ ∀ input ∈ (sortedSet c.inputs).keys, B.takes input = true

theorem nul_not_mem_inputTexts (B : Backend Digest) (inputs : Dict Input Unit)
    (h : ∀ input ∈ inputs.keys, B.takes input = true) : ∀ text ∈ inputTexts inputs,
    '\x00' ∉ text := by
  intro text htext
  obtain ⟨input, hin, hmem⟩ := List.mem_flatMap.mp htext
  obtain ⟨htype, hname⟩ := B.takes_nulFree input (h input hin)
  rcases List.mem_cons.mp hmem with rfl | hmem
  · exact htype
  · rw [List.mem_singleton.mp hmem]
    exact hname

theorem inputTexts_injective {left right : Dict Input Unit}
    (h : inputTexts left = inputTexts right) : left = right := by
  have hpairs : ∀ (ks js : List Input),
      (ks.flatMap fun input => [input.type.toList, input.name.toList]) =
        (js.flatMap fun input => [input.type.toList, input.name.toList]) → ks = js := by
    intro ks
    induction ks with
    | nil =>
      intro js h
      cases js with
      | nil => rfl
      | cons j js => simp at h
    | cons k ks ih =>
      intro js h
      cases js with
      | nil => simp at h
      | cons j js =>
        simp only [List.flatMap_cons, List.cons_append, List.nil_append, List.cons.injEq] at h
        obtain ⟨htype, hname, hrest⟩ := h
        have hk : k = j := by
          cases k
          cases j
          simp_all [String.toList_inj]
        rw [hk, ih js hrest]
  have hkeys : left.keys = right.keys := hpairs _ _ h
  apply Std.ExtTreeMap.ext_getElem?
  intro input
  have hmem : ∀ m : Dict Input Unit, m[input]? = if input ∈ m.keys then some () else none := by
    intro m
    cases hm : m[input]? with
    | none =>
      rw [if_neg]
      rw [Std.ExtTreeMap.mem_keys, Std.ExtTreeMap.mem_iff_isSome_getElem?, hm]
      simp
    | some u =>
      rw [if_pos]
      rw [Std.ExtTreeMap.mem_keys, Std.ExtTreeMap.mem_iff_isSome_getElem?, hm]
      rfl
  rw [hmem left, hmem right, hkeys]

/-- Rows the database takes are determined by their hash. -/
theorem rows_eq_of_hash_eq (B : Backend Digest) (hB : Function.Injective B.sha1)
    (certname : String) (left right : Dict Input Unit)
    (hleft : ∀ input ∈ left.keys, B.takes input = true)
    (hright : ∀ input ∈ right.keys, B.takes input = true)
    (h : catalogInputsHash B certname left = catalogInputsHash B certname right) :
    left = right := by
  have htexts := hB h
  rw [Framing.terminated_cons, Framing.terminated_cons] at htexts
  have hrest := (List.cons.inj (List.append_cancel_left htexts)).2
  exact inputTexts_injective (Framing.terminated_inj '\x00' _ _
    (nul_not_mem_inputTexts B left hleft) (nul_not_mem_inputTexts B right hright) hrest)

section Step

variable [DecidableEq Digest]

/-- The node that an accepted command writes over `rows`. -/
def writtenNode (B : Backend Digest) (c : InputsData) (rows : Dict Input Unit) :
    NodeInputs Digest :=
  ⟨some c.catalogUuid, some (Instant.toTimestamptz c.producerTimestamp),
    some (catalogInputsHash B c.certname (sortedSet c.inputs)), rows⟩

/-- What an accepted command leaves when the database takes its inputs. -/
theorem incorporate_holds (B : Backend Digest) (hB : Function.Injective B.sha1)
    (node : NodeInputs Digest) (c : InputsData) (hnode : HashCurrent B c.certname node)
    (hc : ∀ input ∈ (sortedSet c.inputs).keys, B.takes input = true) :
    ∃ node', incorporate B node c = .ok node' ∧ Holds node' c ∧
      HashCurrent B c.certname node' := by
  by_cases hhit : node.hash = some (catalogInputsHash B c.certname (sortedSet c.inputs))
  · -- rows with the incoming hash are the incoming rows
    obtain ⟨hhash, htaken⟩ := hnode _ hhit
    have hrows : node.rows = sortedSet c.inputs :=
      (rows_eq_of_hash_eq B hB c.certname _ _ hc htaken hhash).symm
    have hinc : incorporate B node c = .ok (writtenNode B c node.rows) := by
      simp only [incorporate, if_pos hhit]
      rfl
    refine ⟨_, hinc, ⟨hrows, rfl, rfl⟩, ?_⟩
    intro h hh
    rw [← Option.some.inj hh]
    exact ⟨hhash, htaken⟩
  · have htake : storeCatalogInputs B (sortedSet c.inputs) = .ok (sortedSet c.inputs) :=
      if_pos (List.all_eq_true.mpr hc)
    have hinc : incorporate B node c = .ok (writtenNode B c (sortedSet c.inputs)) := by
      simp only [incorporate, if_neg hhit, htake]
      rfl
    refine ⟨_, hinc, ⟨rfl, rfl, rfl⟩, ?_⟩
    intro h hh
    rw [← Option.some.inj hh]
    exact ⟨rfl, hc⟩

theorem store_of_stale (B : Backend Digest) (s : InputStore Digest) (c : InputsData)
    (h : Stale s c) : store B s c = s := by
  unfold store replaceCatalogInputs
  rw [if_pos h]
  split <;> rfl

/-- A storable command that is not stale is what its node holds afterwards. -/
theorem store_of_fresh (B : Backend Digest) (hB : Function.Injective B.sha1)
    (s : InputStore Digest) (c : InputsData) (hnode : HashCurrent B c.certname (s c.certname))
    (hc : Storable B c) (h : ¬ Stale s c) :
    ∃ node', store B s c = Function.update s c.certname node' ∧ Holds node' c ∧
      HashCurrent B c.certname node' := by
  obtain ⟨node', hinc, hholds, hcur⟩ := incorporate_holds B hB (s c.certname) c hnode hc.2
  refine ⟨node', ?_, hholds, hcur⟩
  unfold store replaceCatalogInputs
  rw [if_neg hc.1, if_neg h, hinc]
  rfl

end Step

theorem hashCurrent_empty (B : Backend Digest) (certname : String) :
    HashCurrent B certname ((InputStore.empty : InputStore Digest) certname) := nofun

end OpenVoxDB.CatalogInputs
