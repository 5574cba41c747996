import Mathlib
import OpenVoxDB.FactStorage
import OpenVoxDB.Entities

/-!
# The rows of facts

A facts query reads one row for each entry of the two maps of a factset. Where
the name of the fact is known the rows can be looked up instead.
-/

namespace OpenVoxDB.FactRows

open FactStorage Plans

/-- A row of `fs`; the value is the column's, so that a JSON null is a value. -/
structure FactRow where
  certname : String
  environment : Option String
  key : String
  value : Option Json
  deriving DecidableEq, Repr

variable {Digest : Type}

/-- The two maps of a factset have no fact in common. -/
def DisjointMaps (s : FactStore Digest) : Prop :=
  ∀ (certname : String) (row : Factset Digest), s.factsets[certname]? = some row →
    Dict.DisjointKeys row.stable row.volatile

/-- `jsonb_each` on both maps. -/
def unnestRow (certname : String) (row : Factset Digest) : List FactRow :=
  (row.stable.toList ++ row.volatile.toList).map fun (key, value) =>
    ⟨certname, row.environment, key, some value⟩

/-- The row of one fact, where the factset has it. -/
def lookupRow (name : String) (certname : String) (row : Factset Digest) : List FactRow :=
  if (row.stable ∪ row.volatile).contains name then
    [⟨certname, row.environment, name, row.volatile[name]?.or row.stable[name]?⟩]
  else []

/-- The rows of the source of a facts query. A name that is no string makes SQL that fails. -/
def sourceRows (s : FactStore Digest) : FromTables Json → List FactRow
  | .tables _ => s.factsets.toList.flatMap fun (certname, row) => unnestRow certname row
  | .factNamed (.str name) =>
    s.factsets.toList.flatMap fun (certname, row) => lookupRow name certname row
  | .factNamed _ => []

section Lookup

/-- The entries of one fact, in the maps of a factset that share none. -/
theorem unnestRow_filter_key (name certname : String) (row : Factset Digest)
    (h : Dict.DisjointKeys row.stable row.volatile) :
    (unnestRow certname row).filter (fun r => r.key = name) = lookupRow name certname row := by
  have hmap : ∀ entries : List (String × Json),
      (entries.map fun (key, value) =>
        (⟨certname, row.environment, key, some value⟩ : FactRow)).filter (fun r => r.key = name) =
      (entries.filter fun entry => entry.1 = name).map fun (key, value) =>
        ⟨certname, row.environment, key, some value⟩ := by
    intro entries
    rw [List.filter_map]
    rfl
  rw [unnestRow, hmap, List.filter_append, Dict.toList_filter_key, Dict.toList_filter_key,
    lookupRow, Std.ExtTreeMap.contains_union]
  rcases h name with hnone | hnone
  · cases hv : row.volatile[name]? with
    | none => simp [hnone, hv, ← Std.ExtTreeMap.isSome_getElem?_eq_contains]
    | some v => simp [hnone, hv, ← Std.ExtTreeMap.isSome_getElem?_eq_contains]
  · cases hv : row.stable[name]? with
    | none => simp [hnone, hv, ← Std.ExtTreeMap.isSome_getElem?_eq_contains]
    | some v => simp [hnone, hv, ← Std.ExtTreeMap.isSome_getElem?_eq_contains]

/-- A filter that only rows of one fact pass keeps the same rows of both sources. -/
theorem sourceRows_filter (s : FactStore Digest) (hs : DisjointMaps s) (tables : List Table)
    (name : String) (keeps : FactRow → Bool) (hkeeps : ∀ r, keeps r = true → r.key = name) :
    (sourceRows s (.tables tables)).filter keeps =
      (sourceRows s (.factNamed (.str name))).filter keeps := by
  simp only [sourceRows, List.filter_flatMap]
  refine List.flatMap_congr fun (certname, row) hrow => ?_
  have hdisjoint := hs certname row (Std.ExtTreeMap.mem_toList_iff_getElem?_eq_some.mp hrow)
  rw [← unnestRow_filter_key name certname row hdisjoint, List.filter_filter]
  refine List.filter_congr fun r _ => ?_
  cases h : keeps r with
  | false => rfl
  | true => simp [hkeeps r h]

end Lookup

/-- A store with one fact of one node. -/
def storeOf [Inhabited Digest] (name : String) (value : Json) : FactStore Digest where
  factsets := (∅ : Dict String (Factset Digest)).insert "n"
    ⟨0, none, 0, none, (∅ : FactMap).insert name value, none, ∅, none, default⟩
  factPaths := []

theorem mem_sourceRows_storeOf [Inhabited Digest] (name : String) (value : Json)
    (tables : List Table) : (⟨"n", none, name, some value⟩ : FactRow) ∈
      sourceRows (storeOf name value : FactStore Digest) (.tables tables) := by
  refine List.mem_flatMap.mpr ⟨("n", _), Std.ExtTreeMap.mem_toList_iff_getElem?_eq_some.mpr
    Std.ExtTreeMap.getElem?_insert_self, ?_⟩
  refine List.mem_map.mpr ⟨(name, value), List.mem_append_left _ ?_, rfl⟩
  exact Std.ExtTreeMap.mem_toList_iff_getElem?_eq_some.mpr Std.ExtTreeMap.getElem?_insert_self

/-- The factset of the node, and its one fact. -/
theorem factset_storeOf [Inhabited Digest] (name : String) (value : Json) (certname : String)
    (row : Factset Digest)
    (h : (storeOf name value : FactStore Digest).factsets[certname]? = some row) :
    row.volatile = ∅ ∧ row.stable = (∅ : FactMap).insert name value := by
  simp only [storeOf, Std.ExtTreeMap.getElem?_insert] at h
  split at h
  · cases h
    exact ⟨rfl, rfl⟩
  · simp at h

theorem disjointMaps_storeOf [Inhabited Digest] (name : String) (value : Json) :
    DisjointMaps (storeOf name value : FactStore Digest) := by
  intro certname row hrow
  rw [(factset_storeOf name value certname row hrow).1]
  exact Dict.disjointKeys_empty _

theorem key_of_mem_factNamed (s : FactStore Digest) (name : String) (row : FactRow)
    (h : row ∈ sourceRows s (.factNamed (.str name))) : row.key = name := by
  obtain ⟨⟨certname, factset⟩, -, h⟩ := List.mem_flatMap.mp h
  simp only [lookupRow] at h
  split at h
  · rw [List.mem_singleton.mp h]
  · simp at h

end OpenVoxDB.FactRows
