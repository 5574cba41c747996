import Mathlib
import OpenVoxDB.KeySort
import OpenVoxDB.Utf8Truncation

/-!
# Nested maps and sets

Data of maps, vectors and sets, whose maps and sets have entries in some order. `sort-nested-maps`
puts all of them in their natural order, and so makes equal data the same.
-/

namespace OpenVoxDB.NestedMaps

open Std Utf8Truncation

/-! ## Natural order -/

/-- `compare` of strings: by their UTF-16 code units. -/
def compareStrings : String → String → Ordering := compareOn fun s : String => utf16 s.toList

/-- The namespace and the name of a keyword with the text. -/
def splitKeyword (text : List Char) : Option (List Char) × List Char :=
  match text.dropWhile (· ≠ '/') with
  | [] => (none, text)
  | _ :: name => if text = ['/'] then (none, text) else (some (text.takeWhile (· ≠ '/')), name)

/-- `compare` of keywords: those without a namespace come first. -/
def compareKeywords : String → String → Ordering :=
  compareLex (compareOn fun k : String => (splitKeyword k.toList).1.map utf16)
    (compareOn fun k : String => utf16 (splitKeyword k.toList).2)

instance : TransCmp compareStrings := inferInstanceAs (TransCmp (compareOn _))

instance : TransCmp compareKeywords := inferInstanceAs (TransCmp (compareLex _ _))

instance : LawfulEqCmp compareStrings where
  compare_self := ReflCmp.compare_self
  eq_of_compare {a b} h := by
    have hunits : utf16 a.toList = utf16 b.toList := LawfulEqOrd.eq_of_compare h
    exact String.toList_inj.mp (utf16_injective hunits)

/-- The namespace and the name make up the text. -/
theorem splitKeyword_injective : Function.Injective splitKeyword := by
  have hjoin (text : List Char) : ((splitKeyword text).1.map (· ++ ['/'])).getD [] ++
      (splitKeyword text).2 = text := by
    have htext := List.takeWhile_append_dropWhile (p := fun c => decide (c ≠ '/')) (l := text)
    rw [splitKeyword]
    split
    · rfl
    · next c name hdrop =>
      have hc : c = '/' := by
        have hhead := List.head?_dropWhile_not (fun c => decide (c ≠ '/')) text
        rw [hdrop] at hhead
        simpa using hhead
      split
      · rfl
      · rw [hdrop, hc] at htext
        simpa using htext
  intro a b h
  rw [← hjoin a, h, hjoin b]

instance : LawfulEqCmp compareKeywords where
  compare_self := ReflCmp.compare_self
  eq_of_compare {a b} h := by
    obtain ⟨hnamespace, hname⟩ := Ordering.then_eq_eq.mp h
    have hnamespace := Option.map_injective utf16_injective (LawfulEqOrd.eq_of_compare hnamespace)
    have hname := utf16_injective (LawfulEqOrd.eq_of_compare hname)
    exact String.toList_inj.mp (splitKeyword_injective (Prod.ext hnamespace hname))

/-! ## Data -/

inductive Scalar where
  | null
  | bool (b : Bool)
  | int (n : Int)
  | float (mantissa exponent : Int)
  | str (s : String)
  | keyword (k : String)
  deriving DecidableEq, Repr

/-- Clojure data: the keys of maps are keywords, the sets are sets of strings. -/
inductive Data where
  | scalar (s : Scalar)
  | vec (xs : List Data)
  | map (fields : List (String × Data))
  | set (ss : List String)
  deriving Repr

abbrev Data.str (s : String) : Data := .scalar (.str s)

namespace Data

mutual

/-- No key twice in a map and no string twice in a set. -/
def Distinct : Data → Prop
  | .scalar _ => True
  | .vec xs => DistinctItems xs
  | .map fs => (fs.map Prod.fst).Nodup ∧ DistinctFields fs
  | .set ss => ss.Nodup

def DistinctItems : List Data → Prop
  | [] => True
  | x :: xs => x.Distinct ∧ DistinctItems xs

def DistinctFields : List (String × Data) → Prop
  | [] => True
  | f :: fs => f.2.Distinct ∧ DistinctFields fs

end

mutual

/-- `=` of data: vectors item by item; maps and sets of one size, whose entries are all in the
other. -/
def Same : Data → Data → Prop
  | .scalar a, .scalar b => a = b
  | .vec xs, .vec ys => SameItems xs ys
  | .map fs, .map gs => fs.length = gs.length ∧ SameFields fs gs
  | .set ss, .set ts => ss.length = ts.length ∧ ∀ s ∈ ss, s ∈ ts
  | _, _ => False

def SameItems : List Data → List Data → Prop
  | [], [] => True
  | x :: xs, y :: ys => Same x y ∧ SameItems xs ys
  | _, _ => False

def SameFields : List (String × Data) → List (String × Data) → Prop
  | [], _ => True
  | f :: fs, gs => (∃ g ∈ gs, f.1 = g.1 ∧ Same f.2 g.2) ∧ SameFields fs gs

end

end Data

/-- What `sort-nested-maps` does: maps and sets are sorted by the natural order of their keys and
strings, at every depth. -/
structure SortsNestedMaps (sortNestedMaps : Data → Data) : Prop where
  scalar : ∀ s, sortNestedMaps (.scalar s) = .scalar s
  vec : ∀ xs, sortNestedMaps (.vec xs) = .vec (xs.map sortNestedMaps)
  map : ∀ fs : List (String × Data), (fs.map Prod.fst).Nodup → ∃ gs,
    sortNestedMaps (.map fs) = .map gs ∧ gs.Perm (fs.map fun f => (f.1, sortNestedMaps f.2)) ∧
      gs.Pairwise fun f g => compareKeywords f.1 g.1 = .lt
  set : ∀ ss : List String, ss.Nodup → ∃ ts, sortNestedMaps (.set ss) = .set ts ∧ ts.Perm ss ∧
    ts.Pairwise fun s t => compareStrings s t = .lt

namespace Data

theorem sameItems_iff (xs ys : List Data) : SameItems xs ys ↔ List.Forall₂ Same xs ys := by
  induction xs generalizing ys with
  | nil => cases ys <;> simp [SameItems]
  | cons x xs ih =>
    cases ys with
    | nil => simp [SameItems]
    | cons y ys => rw [SameItems, List.forall₂_cons, ih]

theorem sameFields_iff (fs gs : List (String × Data)) :
    SameFields fs gs ↔ ∀ f ∈ fs, ∃ g ∈ gs, f.1 = g.1 ∧ Same f.2 g.2 := by
  induction fs with
  | nil => simp [SameFields]
  | cons f fs ih => rw [SameFields, ih, List.forall_mem_cons]

/-- An entry has an equal one under its key. -/
theorem same_entry (fs gs : List (String × Data)) (h : (map fs).Same (map gs)) (k : String)
    (d : Data) (hd : (k, d) ∈ fs) : ∃ e, (k, e) ∈ gs ∧ d.Same e := by
  obtain ⟨g, hg, rfl, hsame⟩ := (sameFields_iff fs gs).mp h.2 (k, d) hd
  exact ⟨g.2, hg, hsame⟩

theorem distinctItems_iff (xs : List Data) : DistinctItems xs ↔ ∀ x ∈ xs, x.Distinct := by
  induction xs with
  | nil => simp [DistinctItems]
  | cons x xs ih => rw [DistinctItems, ih, List.forall_mem_cons]

theorem distinctFields_iff (fs : List (String × Data)) :
    DistinctFields fs ↔ ∀ f ∈ fs, f.2.Distinct := by
  induction fs with
  | nil => simp [DistinctFields]
  | cons f fs ih => rw [DistinctFields, ih, List.forall_mem_cons]

end Data

/-- A list without repetition and one of its length have the same elements when the one's are all
in the other. -/
theorem perm_iff_of_nodup {α : Type} (l l' : List α) (hl : l.Nodup) :
    l.Perm l' ↔ l.length = l'.length ∧ ∀ a ∈ l, a ∈ l' := by
  constructor
  · intro h
    exact ⟨h.length_eq, fun a ha => h.mem_iff.mp ha⟩
  · rintro ⟨hlength, hsubset⟩
    exact (List.subperm_of_subset hl hsubset).perm_of_length_le (by omega)

section Sorting

variable {sortNestedMaps : Data → Data}

/-- Sorted maps are the same when they have the same sorted entries. -/
theorem sort_map_eq_iff (hsort : SortsNestedMaps sortNestedMaps) (fs gs : List (String × Data))
    (hfs : (fs.map Prod.fst).Nodup) (hgs : (gs.map Prod.fst).Nodup) : sortNestedMaps (.map fs) = sortNestedMaps (.map gs) ↔
      fs.length = gs.length ∧
        ∀ f ∈ fs, ∃ g ∈ gs, f.1 = g.1 ∧ sortNestedMaps f.2 = sortNestedMaps g.2 := by
  obtain ⟨fs', hfs', hfperm, hfsorted⟩ := hsort.map fs hfs
  obtain ⟨gs', hgs', hgperm, hgsorted⟩ := hsort.map gs hgs
  have hnodup : (fs.map fun f => (f.1, sortNestedMaps f.2)).Nodup := by
    apply List.Nodup.of_map Prod.fst
    rw [List.map_map]
    exact hfs
  have hperm : fs' = gs' ↔ (fs.map fun f => (f.1, sortNestedMaps f.2)).Perm
      (gs.map fun f => (f.1, sortNestedMaps f.2)) := by
    constructor
    · rintro rfl
      exact hfperm.symm.trans hgperm
    · intro h
      exact KeySort.eq_of_perm_of_lt Prod.fst compareKeywords fs' gs'
        ((hfperm.trans h).trans hgperm.symm) hfsorted hgsorted
  have hmem (f : String × Data) : (f.1, sortNestedMaps f.2) ∈
      (gs.map fun f => (f.1, sortNestedMaps f.2)) ↔
        ∃ g ∈ gs, f.1 = g.1 ∧ sortNestedMaps f.2 = sortNestedMaps g.2 := by
    simp only [List.mem_map, Prod.mk.injEq, eq_comm]
  rw [hfs', hgs', Data.map.injEq, hperm, perm_iff_of_nodup _ _ hnodup, List.length_map,
    List.length_map, List.forall_mem_map]
  simp only [hmem]

theorem sort_set_eq_iff (hsort : SortsNestedMaps sortNestedMaps) (ss ts : List String)
    (hss : ss.Nodup) (hts : ts.Nodup) :
    sortNestedMaps (.set ss) = sortNestedMaps (.set ts) ↔
      ss.length = ts.length ∧ ∀ s ∈ ss, s ∈ ts := by
  obtain ⟨ss', hss', hsperm, hssorted⟩ := hsort.set ss hss
  obtain ⟨ts', hts', htperm, htsorted⟩ := hsort.set ts hts
  rw [hss', hts', Data.set.injEq, ← perm_iff_of_nodup ss ts hss]
  constructor
  · rintro rfl
    exact hsperm.symm.trans htperm
  · intro h
    exact KeySort.eq_of_perm_of_lt id compareStrings ss' ts' ((hsperm.trans h).trans htperm.symm)
      hssorted htsorted

mutual

/-- Data are the same once sorted exactly when they are equal. -/
theorem sort_eq_iff (hsort : SortsNestedMaps sortNestedMaps) (x y : Data) (hx : x.Distinct)
    (hy : y.Distinct) : sortNestedMaps x = sortNestedMaps y ↔ x.Same y := by
  cases x with
  | scalar a =>
    rw [hsort.scalar]
    cases y with
    | scalar b => rw [hsort.scalar, Data.scalar.injEq, Data.Same]
    | vec ys => simp [hsort.vec, Data.Same]
    | map gs =>
      obtain ⟨gs', hgs', -⟩ := hsort.map gs hy.1
      simp [hgs', Data.Same]
    | set ts =>
      obtain ⟨ts', hts', -⟩ := hsort.set ts hy
      simp [hts', Data.Same]
  | vec xs =>
    rw [hsort.vec]
    cases y with
    | scalar b => simp [hsort.scalar, Data.Same]
    | vec ys =>
      rw [hsort.vec, Data.vec.injEq, Data.Same]
      exact sort_items_eq_iff hsort xs ys hx hy
    | map gs =>
      obtain ⟨gs', hgs', -⟩ := hsort.map gs hy.1
      simp [hgs', Data.Same]
    | set ts =>
      obtain ⟨ts', hts', -⟩ := hsort.set ts hy
      simp [hts', Data.Same]
  | map fs =>
    obtain ⟨fs', hfs', -⟩ := hsort.map fs hx.1
    cases y with
    | scalar b => simp [hfs', hsort.scalar, Data.Same]
    | vec ys => simp [hfs', hsort.vec, Data.Same]
    | map gs =>
      rw [sort_map_eq_iff hsort fs gs hx.1 hy.1, Data.Same]
      apply and_congr_right
      intro _
      exact sort_fields_iff hsort fs gs hx.2 hy.2
    | set ts =>
      obtain ⟨ts', hts', -⟩ := hsort.set ts hy
      simp [hfs', hts', Data.Same]
  | set ss =>
    obtain ⟨ss', hss', -⟩ := hsort.set ss hx
    cases y with
    | scalar b => simp [hss', hsort.scalar, Data.Same]
    | vec ys => simp [hss', hsort.vec, Data.Same]
    | map gs =>
      obtain ⟨gs', hgs', -⟩ := hsort.map gs hy.1
      simp [hss', hgs', Data.Same]
    | set ts => rw [sort_set_eq_iff hsort ss ts hx hy, Data.Same]

theorem sort_items_eq_iff (hsort : SortsNestedMaps sortNestedMaps) (xs ys : List Data)
    (hxs : Data.DistinctItems xs) (hys : Data.DistinctItems ys) :
    xs.map sortNestedMaps = ys.map sortNestedMaps ↔ Data.SameItems xs ys := by
  cases xs with
  | nil => cases ys <;> simp [Data.SameItems]
  | cons x xs =>
    cases ys with
    | nil => simp [Data.SameItems]
    | cons y ys =>
      rw [List.map_cons, List.map_cons, List.cons.injEq, Data.SameItems,
        sort_eq_iff hsort x y hxs.1 hys.1, sort_items_eq_iff hsort xs ys hxs.2 hys.2]

theorem sort_fields_iff (hsort : SortsNestedMaps sortNestedMaps) (fs gs : List (String × Data))
    (hfs : Data.DistinctFields fs) (hgs : Data.DistinctFields gs) :
    (∀ f ∈ fs, ∃ g ∈ gs, f.1 = g.1 ∧ sortNestedMaps f.2 = sortNestedMaps g.2) ↔
      Data.SameFields fs gs := by
  cases fs with
  | nil => simp [Data.SameFields]
  | cons f fs =>
    rw [List.forall_mem_cons, Data.SameFields, sort_fields_iff hsort fs gs hfs.2 hgs]
    apply and_congr_left
    intro _
    apply exists_congr
    intro g
    apply and_congr_right
    intro hg
    rw [sort_eq_iff hsort f.2 g.2 hfs.1 ((Data.distinctFields_iff gs).mp hgs g hg)]

end

mutual

/-- Sorting once is enough. -/
theorem sort_sort (hsort : SortsNestedMaps sortNestedMaps) (x : Data) (hx : x.Distinct) :
    sortNestedMaps (sortNestedMaps x) = sortNestedMaps x := by
  cases x with
  | scalar a => rw [hsort.scalar, hsort.scalar]
  | vec xs => rw [hsort.vec, hsort.vec, sort_sort_items hsort xs hx]
  | map fs =>
    obtain ⟨gs, hgs, hperm, hsorted⟩ := hsort.map fs hx.1
    have hkeys : (gs.map Prod.fst).Nodup := by
      apply (hperm.map Prod.fst).nodup_iff.mpr
      rw [List.map_map]
      exact hx.1
    obtain ⟨gs', hgs', hperm', hsorted'⟩ := hsort.map gs hkeys
    have hvalues : (gs.map fun g => (g.1, sortNestedMaps g.2)) = gs := by
      have hid : (gs.map fun g => (g.1, sortNestedMaps g.2)) = gs.map id := by
        apply List.map_congr_left
        intro g hg
        obtain ⟨f, hf, rfl⟩ := List.mem_map.mp (hperm.mem_iff.mp hg)
        rw [sort_sort_fields hsort fs hx.2 f hf]
        rfl
      rw [hid, List.map_id]
    rw [hvalues] at hperm'
    rw [hgs, hgs', KeySort.eq_of_perm_of_lt Prod.fst compareKeywords gs' gs hperm' hsorted' hsorted]
  | set ss =>
    obtain ⟨ts, hts, hperm, hsorted⟩ := hsort.set ss hx
    obtain ⟨ts', hts', hperm', hsorted'⟩ := hsort.set ts (hperm.nodup_iff.mpr hx)
    rw [hts, hts', KeySort.eq_of_perm_of_lt id compareStrings ts' ts hperm' hsorted' hsorted]

theorem sort_sort_items (hsort : SortsNestedMaps sortNestedMaps) (xs : List Data)
    (hxs : Data.DistinctItems xs) :
    (xs.map sortNestedMaps).map sortNestedMaps = xs.map sortNestedMaps := by
  cases xs with
  | nil => rfl
  | cons x xs =>
    rw [List.map_cons, List.map_cons, sort_sort hsort x hxs.1, sort_sort_items hsort xs hxs.2]

theorem sort_sort_fields (hsort : SortsNestedMaps sortNestedMaps) (fs : List (String × Data))
    (hfs : Data.DistinctFields fs) (f : String × Data) (hf : f ∈ fs) :
    sortNestedMaps (sortNestedMaps f.2) = sortNestedMaps f.2 := by
  cases fs with
  | nil => cases hf
  | cons g fs =>
    obtain hg | hf := List.mem_cons.mp hf
    · rw [hg]
      exact sort_sort hsort g.2 hfs.1
    · exact sort_sort_fields hsort fs hfs.2 f hf

end

end Sorting

/-! ## A sort -/

mutual

/-- A function that sorts nested maps. -/
def sorted : Data → Data
  | .scalar s => .scalar s
  | .vec xs => .vec (sortedItems xs)
  | .map fs => .map (KeySort.sortBy Prod.fst compareKeywords (sortedFields fs))
  | .set ss => .set (KeySort.sortBy id compareStrings ss)

def sortedItems : List Data → List Data
  | [] => []
  | x :: xs => sorted x :: sortedItems xs

def sortedFields : List (String × Data) → List (String × Data)
  | [] => []
  | f :: fs => (f.1, sorted f.2) :: sortedFields fs

end

theorem sortedItems_eq (xs : List Data) : sortedItems xs = xs.map sorted := by
  induction xs with
  | nil => rfl
  | cons x xs ih => rw [sortedItems, ih, List.map_cons]

theorem sortedFields_eq (fs : List (String × Data)) :
    sortedFields fs = fs.map fun f => (f.1, sorted f.2) := by
  induction fs with
  | nil => rfl
  | cons f fs ih => rw [sortedFields, ih, List.map_cons]

theorem sortsNestedMaps_sorted : SortsNestedMaps sorted where
  scalar s := rfl
  vec xs := by rw [sorted, sortedItems_eq]
  map fs h := by
    refine ⟨_, by rw [sorted, sortedFields_eq], KeySort.sortBy_perm _ _ _, ?_⟩
    apply KeySort.pairwise_lt_sortBy
    rw [List.map_map]
    exact h
  set ss h := by
    refine ⟨_, by rw [sorted], KeySort.sortBy_perm _ _ _, ?_⟩
    apply KeySort.pairwise_lt_sortBy
    simpa using h

/-- Equality of data is symmetric. -/
theorem Data.same_comm (x y : Data) (hx : x.Distinct) (hy : y.Distinct) : x.Same y ↔ y.Same x := by
  rw [← sort_eq_iff sortsNestedMaps_sorted x y hx hy, eq_comm,
    sort_eq_iff sortsNestedMaps_sorted y x hy hx]

theorem Data.same_refl (x : Data) (hx : x.Distinct) : x.Same x :=
  (sort_eq_iff sortsNestedMaps_sorted x x hx hx).mp rfl

end OpenVoxDB.NestedMaps
