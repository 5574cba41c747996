import OpenVoxDB.FactPathEncoding
import OpenVoxDB.RecursiveQuery

/-!
# Garbage collection of fact paths

`delete-unused-fact-paths` rebuilds the paths of all stored facts with a
recursive query, which joins the keys as they are, and deletes the rows that it
does not find among them.
-/

namespace OpenVoxDB.FactPaths

open FactStorage Delimited

mutual

/-- The depth of nesting, one for a collection without items. -/
def depth : Json → Nat
  | .arr xs => depthItems xs + 1
  | .obj fields => depthFields fields + 1
  | _ => 0

def depthItems : List Json → Nat
  | [] => 0
  | x :: xs => max (depth x) (depthItems xs)

def depthFields : List (String × Json) → Nat
  | [] => 0
  | (_, v) :: fields => max (depth v) (depthFields fields)

end

/-- The rows of `sub_level`: the fields of an object; of an array, the numbers up to the length
of `value - 1`, which is the array without its element 1, beside the elements. The shorter of
the two is filled up with nulls. -/
def subLevel : Option Json → List (String × Option Json)
  | some (.obj fields) => fields.map fun (k, v) => (k, some v)
  | some (.arr xs) =>
    (List.range (max ((xs.eraseIdx 1).length + 1) xs.length)).map fun i => (toString i, xs[i]?)
  | _ => []

variable {Digest : Type}

/-- The base case of `live_paths`. -/
def baseRows (s : FactStore Digest) : List (String × Option Json) :=
  s.factsets.toList.flatMap fun (_, row) =>
    (row.stable ∪ row.volatile).toList.map fun (name, v) => (name, some v)

/-- The recursive part of `live_paths`. -/
def subRows : String × Option Json → List (String × Option Json)
  | (path, value) => (subLevel value).map fun (key, v) => (path ++ "#~" ++ key, v)

def rank (row : String × Option Json) : Nat := (row.2.map depth).getD 0

def livePaths (s : FactStore Digest) : List String :=
  (recursiveQuery subRows ((baseRows s).foldr (fun row n => max (rank row) n) 0)
    (baseRows s)).map Prod.fst

def deleteUnusedFactPaths (s : FactStore Digest) : FactStore Digest :=
  { s with factPaths := s.factPaths.filter fun pm => pm.path ∈ livePaths s }

/-- The value that the facts have at a path. -/
inductive ValueAt (facts : FactMap) : FactPath → Json → Prop
  | fact (name : String) (v : Json) (h : facts[name]? = some v) : ValueAt facts [.key name] v
  | field (p : FactPath) (fields : List (String × Json)) (k : String) (v : Json)
      (hp : ValueAt facts p (.obj fields)) (h : (k, v) ∈ fields) : ValueAt facts (p ++ [.key k]) v
  | item (p : FactPath) (xs : List Json) (i : Nat) (v : Json)
      (hp : ValueAt facts p (.arr xs)) (h : xs[i]? = some v) : ValueAt facts (p ++ [.index i]) v

/-- Some factset has a value at the path. -/
def StoredAt (s : FactStore Digest) (p : FactPath) (v : Json) : Prop :=
  ∃ (certname : String) (row : Factset Digest), s.factsets[certname]? = some row ∧
    ValueAt (row.stable ∪ row.volatile) p v

def HasPath (s : FactStore Digest) (p : FactPath) : Prop := ∃ v, StoredAt s p v

/-- The index after the last one of an array. -/
def PastEnd (s : FactStore Digest) (p : FactPath) : Prop :=
  ∃ q xs, StoredAt s q (.arr xs) ∧ p = q ++ [.index xs.length]

/-- The paths that the collector makes a row for: of the indexes past an end, those of arrays
with at most one element. -/
def Collected (s : FactStore Digest) (p : FactPath) : Prop :=
  HasPath s p ∨ ∃ q xs, StoredAt s q (.arr xs) ∧ xs.length ≤ 1 ∧ p = q ++ [.index xs.length]

/-- The path as the collector writes it. -/
def rawPath (p : FactPath) : String := factpathDelimiter.intercalate (p.map Element.str)

section Paths

theorem ValueAt.ne_nil {facts : FactMap} {p : FactPath} {v : Json} (h : ValueAt facts p v) :
    p ≠ [] := by
  cases h <;> simp

theorem rawPath_singleton (name : String) : rawPath [.key name] = name := by
  simp [rawPath, Element.str]

theorem rawPath_append (p : FactPath) (e : Element) (hp : p ≠ []) :
    rawPath (p ++ [e]) = rawPath p ++ "#~" ++ e.str := by
  rw [rawPath, List.map_append, List.map_singleton,
    String.intercalate_append_of_ne_nil (by simpa using hp) (by simp),
    String.intercalate_singleton]
  rfl

end Paths

section Collector

theorem depth_le_depthItems (xs : List Json) (x : Json) (h : x ∈ xs) : depth x ≤ depthItems xs := by
  induction xs with
  | nil => simp at h
  | cons y ys ih =>
    rw [depthItems]
    rcases List.mem_cons.mp h with rfl | h
    · exact le_max_left _ _
    · exact (ih h).trans (le_max_right _ _)

theorem depth_le_depthFields (fields : List (String × Json)) (k : String) (v : Json)
    (h : (k, v) ∈ fields) : depth v ≤ depthFields fields := by
  induction fields with
  | nil => simp at h
  | cons f fields ih =>
    obtain ⟨j, w⟩ := f
    rw [depthFields]
    rcases List.mem_cons.mp h with he | h
    · cases he
      exact le_max_left _ _
    · exact (ih h).trans (le_max_right _ _)

/-- The rows that one row leads to. -/
theorem mem_subRows (path path' : String) (value v : Option Json) :
    (path', v) ∈ subRows (path, value) ↔
      (∃ fields k w, value = some (.obj fields) ∧ (k, w) ∈ fields ∧
        path' = path ++ "#~" ++ k ∧ v = some w) ∨
      (∃ xs i, value = some (.arr xs) ∧ (i < xs.length ∨ xs.length ≤ 1 ∧ i = xs.length) ∧
        path' = path ++ "#~" ++ toString i ∧ v = xs[i]?) := by
  have hindexes : ∀ (xs : List Json) (i : Nat), i < max ((xs.eraseIdx 1).length + 1) xs.length ↔
      i < xs.length ∨ xs.length ≤ 1 ∧ i = xs.length := by
    intro xs i
    rw [List.length_eraseIdx]
    split <;> omega
  rcases value with _ | v'
  · simp [subRows, subLevel]
  · cases v' with
    | obj fields =>
      simp only [subRows, subLevel, List.map_map, List.mem_map, Function.comp_apply, Prod.mk.injEq,
        Prod.exists, Option.some.injEq, Json.obj.injEq, reduceCtorEq, false_and, exists_false,
        or_false]
      constructor
      · rintro ⟨k, w, hmem, hpath, hv⟩
        exact ⟨fields, k, w, rfl, hmem, hpath.symm, hv.symm⟩
      · rintro ⟨_, k, w, rfl, hmem, hpath, hv⟩
        exact ⟨k, w, hmem, hpath.symm, hv.symm⟩
    | arr xs =>
      simp only [subRows, subLevel, List.map_map, List.mem_map, List.mem_range, hindexes,
        Function.comp_apply, Prod.mk.injEq, Option.some.injEq, Json.arr.injEq, reduceCtorEq,
        false_and, exists_false, false_or]
      constructor
      · rintro ⟨i, hi, hpath, hv⟩
        exact ⟨xs, i, rfl, hi, hpath.symm, hv.symm⟩
      · rintro ⟨_, i, rfl, hi, hpath, hv⟩
        exact ⟨i, hi, hpath.symm, hv.symm⟩
    | _ => simp [subRows, subLevel]

theorem rank_lt_of_mem_subRows (row : String × Option Json) :
    ∀ row' ∈ subRows row, rank row' < rank row := by
  obtain ⟨path, value⟩ := row
  rintro ⟨path', v⟩ h
  obtain ⟨fields, k, w, rfl, hmem, -, rfl⟩ | ⟨xs, i, rfl, -, -, rfl⟩ :=
    (mem_subRows path path' value v).mp h
  · have := depth_le_depthFields fields k w hmem
    simp only [rank, Option.map_some, Option.getD_some, depth]
    omega
  · cases hx : xs[i]? with
    | none => simp [rank, depth]
    | some x =>
      have := depth_le_depthItems xs x (List.mem_of_getElem? hx)
      simp only [rank, Option.map_some, Option.getD_some, depth]
      omega

theorem le_foldr_max {α : Type} (f : α → Nat) (xs : List α) (x : α) (h : x ∈ xs) :
    f x ≤ xs.foldr (fun y n => max (f y) n) 0 := by
  induction xs with
  | nil => simp at h
  | cons y ys ih =>
    rw [List.foldr_cons]
    rcases List.mem_cons.mp h with rfl | h
    · exact le_max_left _ _
    · exact (ih h).trans (le_max_right _ _)

theorem mem_livePaths_iff_derives (s : FactStore Digest) (path : String) :
    path ∈ livePaths s ↔ ∃ v, Derives subRows (baseRows s) (path, v) := by
  unfold livePaths
  simp only [List.mem_map, Prod.exists, exists_and_right, exists_eq_right]
  refine exists_congr fun v => mem_recursiveQuery subRows rank rank_lt_of_mem_subRows _ _ ?_ _
  exact fun row h => le_foldr_max rank _ row h

theorem mem_baseRows (s : FactStore Digest) (path : String) (v : Option Json) :
    (path, v) ∈ baseRows s ↔ ∃ (certname : String) (row : Factset Digest) (w : Json),
      s.factsets[certname]? = some row ∧ (row.stable ∪ row.volatile)[path]? = some w ∧
        v = some w := by
  simp only [baseRows, List.mem_flatMap, List.mem_map, Prod.exists, Prod.mk.injEq,
    Std.ExtTreeMap.mem_toList_iff_getElem?_eq_some]
  constructor
  · rintro ⟨certname, row, hrow, name, w, hname, rfl, rfl⟩
    exact ⟨certname, row, w, hrow, hname, rfl⟩
  · rintro ⟨certname, row, w, hrow, hname, rfl⟩
    exact ⟨certname, row, hrow, path, w, hname, rfl, rfl⟩

/-- What a row of the collector stands for. -/
def Stands (s : FactStore Digest) (row : String × Option Json) (p : FactPath) : Prop :=
  row.1 = rawPath p ∧
    ((∃ v, row.2 = some v ∧ StoredAt s p v) ∨
      row.2 = none ∧ ∃ q xs, StoredAt s q (.arr xs) ∧ xs.length ≤ 1 ∧ p = q ++ [.index xs.length])

theorem stands_baseRows (s : FactStore Digest) (row : String × Option Json)
    (h : row ∈ baseRows s) : ∃ p, Stands s row p := by
  obtain ⟨name, value⟩ := row
  obtain ⟨certname, row, w, hrow, hname, rfl⟩ := (mem_baseRows s name value).mp h
  exact ⟨[.key name], (rawPath_singleton name).symm,
    .inl ⟨w, rfl, certname, row, hrow, .fact name w hname⟩⟩

/-- One round keeps the rows and the paths in step. -/
theorem stands_subRows (s : FactStore Digest) (row row' : String × Option Json) (p : FactPath)
    (hrow : Stands s row p) (h : row' ∈ subRows row) : ∃ p', Stands s row' p' := by
  obtain ⟨path, value⟩ := row
  obtain ⟨path', v⟩ := row'
  obtain ⟨hpath, hvalue⟩ := hrow
  simp only at hpath hvalue
  obtain ⟨fields, k, w, rfl, hmem, rfl, rfl⟩ | ⟨xs, i, rfl, hi, rfl, rfl⟩ :=
    (mem_subRows path path' value v).mp h
  · obtain ⟨_, he, certname, row, hrow, hat⟩ | ⟨he, -⟩ := hvalue
    · cases he
      refine ⟨p ++ [.key k], ?_, .inl ⟨w, rfl, certname, row, hrow, .field p fields k w hat hmem⟩⟩
      rw [rawPath_append p _ hat.ne_nil, ← hpath]
      rfl
    · cases he
  · obtain ⟨_, he, certname, row, hrow, hat⟩ | ⟨he, -⟩ := hvalue
    · cases he
      refine ⟨p ++ [.index i], ?_, ?_⟩
      · rw [rawPath_append p _ hat.ne_nil, ← hpath]
        rfl
      · rcases hi with hi | ⟨hlength, rfl⟩
        · exact .inl ⟨xs[i], List.getElem?_eq_getElem hi, certname, row, hrow,
            .item p xs i xs[i] hat (List.getElem?_eq_getElem hi)⟩
        · exact .inr ⟨List.getElem?_eq_none le_rfl, p, xs, ⟨certname, row, hrow, hat⟩, hlength, rfl⟩
    · cases he

/-- Every stored value has its row. -/
theorem derives_of_storedAt (s : FactStore Digest) (p : FactPath) (v : Json)
    (h : StoredAt s p v) : Derives subRows (baseRows s) (rawPath p, some v) := by
  obtain ⟨certname, row, hrow, hat⟩ := h
  induction hat with
  | fact name v h =>
    rw [rawPath_singleton]
    exact .base ((mem_baseRows s name (some v)).mpr ⟨certname, row, v, hrow, h, rfl⟩)
  | field p fields k v hp h ih =>
    rw [rawPath_append p _ hp.ne_nil]
    exact Derives.tail ih ((mem_subRows _ _ _ _).mpr (.inl ⟨fields, k, v, rfl, h, rfl, rfl⟩))
  | item p xs i v hp h ih =>
    rw [rawPath_append p _ hp.ne_nil, ← h]
    exact Derives.tail ih ((mem_subRows _ _ _ _).mpr
      (.inr ⟨xs, i, rfl, .inl (List.getElem?_eq_some_iff.mp h).1, rfl, rfl⟩))

/-- The collector finds the stored paths as it writes them, and few others. -/
theorem mem_livePaths (s : FactStore Digest) (path : String) :
    path ∈ livePaths s ↔ ∃ p, Collected s p ∧ path = rawPath p := by
  rw [mem_livePaths_iff_derives]
  constructor
  · rintro ⟨v, hv⟩
    obtain ⟨p, hpath, ⟨w, -, hw⟩ | ⟨-, hend⟩⟩ := hv.invariant (I := fun row => ∃ p, Stands s row p)
      (fun row hrow => stands_baseRows s row hrow)
      (fun row ⟨p, hp⟩ row' hrow' => stands_subRows s row row' p hp hrow')
    · exact ⟨p, .inl ⟨w, hw⟩, hpath⟩
    · exact ⟨p, .inr hend, hpath⟩
  · rintro ⟨p, ⟨v, hv⟩ | ⟨q, xs, hq, hlength, rfl⟩, rfl⟩
    · exact ⟨some v, derives_of_storedAt s p v hv⟩
    · refine ⟨none, ?_⟩
      have hne : q ≠ [] := by
        obtain ⟨certname, row, -, hat⟩ := hq
        exact hat.ne_nil
      rw [rawPath_append q _ hne]
      exact Derives.tail (derives_of_storedAt s q _ hq) ((mem_subRows _ _ _ _).mpr
        (.inr ⟨xs, xs.length, rfl, .inr ⟨hlength, rfl⟩, rfl,
          (List.getElem?_eq_none le_rfl).symm⟩))

end Collector

end OpenVoxDB.FactPaths
