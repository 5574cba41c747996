import OpenVoxDB.FactStorage

/-!
# Fact paths

A fact path names a value inside a fact. Its database form joins the encoded
elements with a delimiter; a factset's paths are hashed as one stream of these
strings with their value types, and the stored hash decides whether the paths of
a submission are written.
-/

namespace OpenVoxDB.FactPaths

open FactStorage

/-- An element of a fact path: a key of an object or an index of an array. -/
inductive Element where
  | key (k : String)
  | index (i : Nat)
  deriving DecidableEq, Repr

abbrev FactPath := List Element

def factpathDelimiter : String := "#~"

/-- The groups of `(\\{0,1}#)(\\*\\{0,1}~)` where it matches at the start, and the rest. -/
def matchDelimiter (cs : List Char) : Option (List Char × List Char × List Char) :=
  let (bs, afterBs) := if cs.head? = some '\\' then (['\\'], cs.tail) else ([], cs)
  match afterBs with
  | '#' :: rest =>
    let slashes := rest.takeWhile (· = '\\')
    match rest.dropWhile (· = '\\') with
    | '~' :: rest' => some (bs ++ ['#'], slashes ++ ['~'], rest')
    | _ => none
  | _ => none

/-- Put a backslash before both groups of every match, from left to right. -/
def escapeMatches : Nat → List Char → List Char
  | 0, cs => cs
  | _, [] => []
  | n + 1, c :: cs =>
    match matchDelimiter (c :: cs) with
    | some (left, right, rest) => '\\' :: left ++ '\\' :: right ++ escapeMatches n rest
    | none => c :: escapeMatches n cs

def escapeDelimiter (element : String) : String :=
  String.ofList (escapeMatches element.toList.length element.toList)

def digit (c : Char) : Bool := '0' ≤ c && c ≤ '9'

/-- Every character is a digit, as also in the empty string. -/
def quoteIntegerStrings (s : String) : String :=
  if s.toList.all digit then "\"" ++ s ++ "\"" else s

def encodeFactpathElement : Element → String
  | .key k => escapeDelimiter (quoteIntegerStrings k)
  | .index i => toString i

def factpathToString (path : FactPath) : String :=
  factpathDelimiter.intercalate (path.map encodeFactpathElement)

/-- The element as `path->array` writes it. -/
def Element.str : Element → String
  | key k => k
  | index i => toString i

def valueTypeId : Json → Nat
  | .str _ => 0
  | .int _ => 1
  | .float _ _ => 2
  | .bool _ => 3
  | .null => 4
  | .arr _ => 5
  | .obj _ => 5

def pathToPathmap (path : FactPath) (leaf : Json) : Pathmap where
  path := factpathToString path
  valueTypeId := valueTypeId leaf
  pathArray := path.map Element.str
  name := (path.head?.map Element.str).getD ""
  depth := path.length - 1

mutual

/-- `flatten-facts-with` below a fact's name: every leaf, and the fact's own value when it
is a collection that is not empty. -/
def flattenFactsWith {α : Type} (leafFn : FactPath → Json → α) (path : FactPath) :
    Json → List α
  | .arr [] => []
  | .obj [] => []
  | .arr (x :: xs) =>
    (if path.length = 1 then [leafFn path (.arr (x :: xs))] else []) ++
      flattenItems leafFn path 0 (x :: xs)
  | .obj (f :: fs) =>
    (if path.length = 1 then [leafFn path (.obj (f :: fs))] else []) ++
      flattenFields leafFn path (f :: fs)
  | .null => [leafFn path .null]
  | .bool b => [leafFn path (.bool b)]
  | .int n => [leafFn path (.int n)]
  | .float m e => [leafFn path (.float m e)]
  | .str s => [leafFn path (.str s)]

def flattenItems {α : Type} (leafFn : FactPath → Json → α) (path : FactPath) (i : Nat) :
    List Json → List α
  | [] => []
  | x :: xs => flattenFactsWith leafFn (path ++ [.index i]) x ++ flattenItems leafFn path (i + 1) xs

def flattenFields {α : Type} (leafFn : FactPath → Json → α) (path : FactPath) :
    List (String × Json) → List α
  | [] => []
  | (k, v) :: fs => flattenFactsWith leafFn (path ++ [.key k]) v ++ flattenFields leafFn path fs

end

/-- `facts->pathmaps` -/
def factsToPathmaps (facts : FactMap) : List Pathmap :=
  flattenFields pathToPathmap [] facts.toList

/-- The text that `pathmap-digestor` feeds to the digest: no separator, no lengths. -/
def pathmapStream (pathmaps : List Pathmap) : List Char :=
  pathmaps.flatMap fun pm => (pm.path ++ toString pm.valueTypeId).toList

/-- The paths, hashed as `hash-pathmaps-paths` does, beside the other hashes of a factset. -/
def digests {Digest : Type} (sha1 : List Char → Digest) (genericIdentity : FactMap → Digest)
    (factIdentity : FactData → Digest) : FactDigests Digest where
  genericIdentity := genericIdentity
  hashPathmapsPaths := fun pathmaps => sha1 (pathmapStream pathmaps)
  factIdentity := factIdentity
  factsToPathmaps := factsToPathmaps

/-- Each of the paths, with its value type, has a row. -/
def Covers (rows pathmaps : List Pathmap) : Prop :=
  ∀ pm ∈ pathmaps, ∃ row ∈ rows, row.path = pm.path ∧ row.valueTypeId = pm.valueTypeId

instance (rows pathmaps : List Pathmap) : Decidable (Covers rows pathmaps) :=
  inferInstanceAs (Decidable (∀ pm ∈ pathmaps, ∃ row ∈ rows, _ ∧ _))

variable {Digest : Type}

/-- Every path of every stored factset has a row. -/
def PathsCovered (s : FactStore Digest) : Prop :=
  ∀ (certname : String) (row : Factset Digest), s.factsets[certname]? = some row →
    Covers s.factPaths (factsToPathmaps (row.stable ∪ row.volatile))

/-- The stored hash is that of the paths of the stored facts. -/
def PathsHashCurrent (D : FactDigests Digest) (s : FactStore Digest) : Prop :=
  ∀ (certname : String) (row : Factset Digest), s.factsets[certname]? = some row →
    row.pathsHash = some (D.hashPathmapsPaths (D.factsToPathmaps (row.stable ∪ row.volatile)))

section Realize

theorem mem_realizePaths_of_mem (rows pathmaps : List Pathmap) (row : Pathmap) (h : row ∈ rows) :
    row ∈ realizePaths rows pathmaps := by
  unfold realizePaths
  induction pathmaps generalizing rows with
  | nil => exact h
  | cons pm pathmaps ih =>
    refine ih _ ?_
    beta_reduce
    split
    · exact h
    · exact List.mem_append_left _ h

/-- Rows are only added. -/
theorem covers_realizePaths_of_covers (rows pathmaps others : List Pathmap)
    (h : Covers rows others) : Covers (realizePaths rows pathmaps) others := by
  intro pm hpm
  obtain ⟨row, hrow, hsame⟩ := h pm hpm
  exact ⟨row, mem_realizePaths_of_mem rows pathmaps row hrow, hsame⟩

theorem covers_realizePaths (rows pathmaps : List Pathmap) :
    Covers (realizePaths rows pathmaps) pathmaps := by
  induction pathmaps generalizing rows with
  | nil => exact nofun
  | cons pm pathmaps ih =>
    intro q hq
    rcases List.mem_cons.mp hq with rfl | hq
    · -- the row of the first path is there before the others are looked at
      suffices hfirst : ∃ row ∈ realizePaths rows [q],
          row.path = q.path ∧ row.valueTypeId = q.valueTypeId by
        obtain ⟨row, hrow, hsame⟩ := hfirst
        exact ⟨row, mem_realizePaths_of_mem (realizePaths rows [q]) pathmaps row hrow, hsame⟩
      by_cases hany : (rows.any fun row => row.path = q.path ∧ row.valueTypeId = q.valueTypeId)
      · obtain ⟨row, hrow, hsame⟩ := List.any_eq_true.mp hany
        exact ⟨row, mem_realizePaths_of_mem rows [q] row hrow, of_decide_eq_true hsame⟩
      · refine ⟨q, ?_, rfl, rfl⟩
        simp only [realizePaths, List.foldl_cons, List.foldl_nil, if_neg hany]
        exact List.mem_append_right _ (List.mem_singleton.mpr rfl)
    · exact ih _ q hq

end Realize

section Runs

variable [DecidableEq Digest]

/-- What an update does: the row it writes and the paths it writes with it. -/
theorem updateFacts_spec (D : FactDigests Digest) (hD : Function.Injective D.genericIdentity)
    (s : FactStore Digest) (row : Factset Digest) (d : FactData) (hrow : HashCurrent D row)
    (hash : Digest) (hhash : row.pathsHash = some hash) :
    ∃ row', (updateFacts D s row d).factsets = s.factsets.insert d.certname row' ∧
      row'.stable ∪ row'.volatile = d.values ∧
      row'.pathsHash = some (D.hashPathmapsPaths (D.factsToPathmaps d.values)) ∧
      (updateFacts D s row d).factPaths =
        if hash = D.hashPathmapsPaths (D.factsToPathmaps d.values) then s.factPaths
        else realizePaths s.factPaths (D.factsToPathmaps d.values) := by
  have hunion := factJsonUpdates_union D hD row d.values hrow
  by_cases heq : hash = D.hashPathmapsPaths (D.factsToPathmaps d.values)
  · refine ⟨_, rfl, hunion, ?_, ?_⟩
    · simp [hhash, heq]
    · simp [updateFacts, updatePathsHash, hhash, heq]
  · refine ⟨_, rfl, hunion, ?_, ?_⟩
    · simp [hhash, heq]
    · simp [updateFacts, updatePathsHash, hhash, heq]

/-- What every reachable store satisfies as long as its paths are covered. -/
structure Inv (D : FactDigests Digest) (s : FactStore Digest) : Prop where
  hashes : HashesCurrent D s
  pathsHash : PathsHashCurrent D s
  covered : PathsCovered s

omit [DecidableEq Digest] in
theorem inv_empty (D : FactDigests Digest) : Inv D (FactStore.empty : FactStore Digest) where
  hashes := hashesCurrent_empty D
  pathsHash := by intro certname row h; simp [FactStore.empty] at h
  covered := by intro certname row h; simp [FactStore.empty] at h

/-- After an accepted call every path of every stored factset has a row. -/
def CoversPaths (D : FactDigests Digest) (s : FactStore Digest) (d : FactData) : Prop :=
  Accepted D s d → PathsCovered (store D s d)

/-- Facts that are accepted and have the path stream of the facts they replace find a row for
each of their paths. -/
def SkipsSafely (s : FactStore Digest) (d : FactData) : Prop :=
  ∀ row, s.factsets[d.certname]? = some row → ¬ d.producerTimestamp < row.producerTimestamp →
    pathmapStream (factsToPathmaps (row.stable ∪ row.volatile)) =
        pathmapStream (factsToPathmaps d.values) →
      Covers s.factPaths (factsToPathmaps d.values)

omit [DecidableEq Digest] in
/-- A row written over one of a covered store leaves it covered when its own paths are. -/
theorem pathsCovered_insert_iff (s : FactStore Digest) (hs : PathsCovered s) (certname : String)
    (row : Factset Digest) (rows : List Pathmap)
    (hrows : ∀ others, Covers s.factPaths others → Covers rows others) :
    PathsCovered ⟨s.factsets.insert certname row, rows⟩ ↔
      Covers rows (factsToPathmaps (row.stable ∪ row.volatile)) := by
  constructor
  · intro h
    exact h certname row Std.ExtTreeMap.getElem?_insert_self
  · intro h other row' hrow'
    simp only [Std.ExtTreeMap.getElem?_insert] at hrow'
    split at hrow'
    · cases hrow'
      exact h
    · exact hrows _ (hs other row' hrow')

section Digested

variable (sha1 : List Char → Digest) (genericIdentity : FactMap → Digest)
  (factIdentity : FactData → Digest)

/-- One call: every path has a row exactly when the skip of `realize-paths` was safe. -/
theorem coversPaths_iff_skipsSafely (hsha1 : Function.Injective sha1)
    (hidentity : Function.Injective genericIdentity) (s : FactStore Digest) (d : FactData)
    (hs : Inv (digests sha1 genericIdentity factIdentity) s) :
    CoversPaths (digests sha1 genericIdentity factIdentity) s d ↔ SkipsSafely s d := by
  unfold CoversPaths SkipsSafely Accepted store
  obtain ⟨hnone, he⟩ | ⟨row, hrow, hlt, he⟩ | ⟨row, hrow, hlt, he⟩ :=
    replaceFacts_cases (digests sha1 genericIdentity factIdentity) s d
  · -- a first insert writes all its paths
    rw [he]
    refine iff_of_true (fun _ => ?_) (fun row hrow => ?_)
    · refine (pathsCovered_insert_iff s hs.covered _ _ _
        fun others h => covers_realizePaths_of_covers _ _ _ h).mpr ?_
      rw [Dict.union_empty]
      exact covers_realizePaths _ _
    · rw [hnone] at hrow
      cases hrow
  · rw [he]
    refine iff_of_true nofun fun row' hrow' hnot => ?_
    rw [hrow] at hrow'
    cases hrow'
    exact absurd hlt hnot
  · obtain ⟨row', hins, hunion, -, hpaths⟩ := updateFacts_spec
      (digests sha1 genericIdentity factIdentity) hidentity s row d (hs.hashes _ _ hrow) _
      (hs.pathsHash _ _ hrow)
    rw [he]
    simp only [forall_const, hrow, Option.some.injEq, forall_eq', hlt, not_false_eq_true]
    have hpaths : (updateFacts (digests sha1 genericIdentity factIdentity) s row d).factPaths =
        if sha1 (pathmapStream (factsToPathmaps (row.stable ∪ row.volatile))) =
            sha1 (pathmapStream (factsToPathmaps d.values)) then s.factPaths
        else realizePaths s.factPaths (factsToPathmaps d.values) := hpaths
    have hstore : updateFacts (digests sha1 genericIdentity factIdentity) s row d =
        ⟨s.factsets.insert d.certname row', (updateFacts (digests sha1 genericIdentity
          factIdentity) s row d).factPaths⟩ := by
      rw [← hins]
    rw [hstore, pathsCovered_insert_iff s hs.covered, hunion, hpaths]
    · by_cases hstream : pathmapStream (factsToPathmaps (row.stable ∪ row.volatile)) =
          pathmapStream (factsToPathmaps d.values)
      · rw [if_pos (congrArg sha1 hstream)]
        exact ⟨fun h _ => h, fun h => h hstream⟩
      · rw [if_neg fun h => hstream (hsha1 h)]
        exact iff_of_true (covers_realizePaths _ _) fun h => absurd h hstream
    · intro others h
      rw [hpaths]
      split
      · exact h
      · exact covers_realizePaths_of_covers _ _ _ h

/-- The stored hashes of paths stay current. -/
theorem pathsHashCurrent_store (hidentity : Function.Injective genericIdentity)
    (s : FactStore Digest) (d : FactData)
    (hs : Inv (digests sha1 genericIdentity factIdentity) s) :
    PathsHashCurrent (digests sha1 genericIdentity factIdentity)
      (store (digests sha1 genericIdentity factIdentity) s d) := by
  have hinsert : ∀ (row : Factset Digest) (rows : List Pathmap),
      row.pathsHash = some ((digests sha1 genericIdentity factIdentity).hashPathmapsPaths
        (factsToPathmaps (row.stable ∪ row.volatile))) →
      PathsHashCurrent (digests sha1 genericIdentity factIdentity)
        ⟨s.factsets.insert d.certname row, rows⟩ := by
    intro row rows hrow certname row' hrow'
    simp only [Std.ExtTreeMap.getElem?_insert] at hrow'
    split at hrow'
    · cases hrow'
      exact hrow
    · exact hs.pathsHash certname row' hrow'
  unfold store
  obtain ⟨-, he⟩ | ⟨row, -, -, he⟩ | ⟨row, hrow, -, he⟩ :=
    replaceFacts_cases (digests sha1 genericIdentity factIdentity) s d
  · rw [he]
    refine hinsert _ _ ?_
    rw [Dict.union_empty]
    rfl
  · rw [he]
    exact hs.pathsHash
  · obtain ⟨row', hins, hunion, hhash, -⟩ := updateFacts_spec
      (digests sha1 genericIdentity factIdentity) hidentity s row d (hs.hashes _ _ hrow) _
      (hs.pathsHash _ _ hrow)
    rw [he]
    have hnext := hinsert row' (updateFacts (digests sha1 genericIdentity factIdentity) s row
      d).factPaths (by rw [hhash, hunion]; rfl)
    rw [← hins] at hnext
    exact hnext

end Digested

end Runs

/-- Digests that keep all of what they digest. -/
def contentDigests : FactDigests (List Char ⊕ List (String × Json)) :=
  digests .inl (fun facts => .inr facts.toList) fun d => .inr d.values.toList

/-- Node `n` reports some facts that are all strings. -/
def stringFacts (t : Instant) (facts : List (String × String)) : FactData :=
  ⟨"n", Std.ExtTreeMap.ofList (facts.map fun (name, value) => (name, Json.str value)), t, none, t,
    none, []⟩

end OpenVoxDB.FactPaths
