import Mathlib
import OpenVoxDB.FactPathCodec
import OpenVoxDB.FactPathGc

/-!
# Flattening facts

One walk over a fact map collects a pathmap for every leaf, and one for every fact that is a
collection which is not empty. The walk carries what it has collected from child to child.
-/

namespace OpenVoxDB.FactPaths

open FactStorage

/-! ## The walk -/

section Walk

variable {α : Type} (leafFn : FactPath → Json → α)

/-- What the loop over the children of a branch starts with. -/
def branchMem (data : Json) (mem : List α) (path : FactPath) : List α :=
  if (path.length : Int) - 1 = 0 then mem ++ [leafFn path data] else mem

mutual

/-- `flatten-facts-with` -/
def flattenInto (data : Json) (mem : List α) (path : FactPath) : List α :=
  match data with
  | .arr [] => mem
  | .obj [] => mem
  | .arr (x :: xs) => loopItems (x :: xs) 0 (branchMem leafFn (.arr (x :: xs)) mem path) path
  | .obj (f :: fs) => loopFields (f :: fs) (branchMem leafFn (.obj (f :: fs)) mem path) path
  | .null => mem ++ [leafFn path .null]
  | .bool b => mem ++ [leafFn path (.bool b)]
  | .int n => mem ++ [leafFn path (.int n)]
  | .float m e => mem ++ [leafFn path (.float m e)]
  | .str s => mem ++ [leafFn path (.str s)]

/-- The loop where the indexes are the keys. -/
def loopItems (remaining : List Json) (i : Nat) (fp : List α) (path : FactPath) : List α :=
  match remaining with
  | [] => fp
  | x :: xs => loopItems xs (i + 1) (flattenInto x fp (path ++ [.index i])) path

def loopFields (remaining : List (String × Json)) (fp : List α) (path : FactPath) : List α :=
  match remaining with
  | [] => fp
  | (k, v) :: fs => loopFields fs (flattenInto v fp (path ++ [.key k])) path

end

/-- `flatten-facts-with` of a fact map -/
def flattenFacts (facts : FactMap) : List α := flattenInto leafFn (.obj facts.toList) [] []

end Walk

/-! ## Documents -/

mutual

/-- No object has a key twice. -/
def DistinctKeys : Json → Prop
  | .arr xs => DistinctItems xs
  | .obj fs => (fs.map Prod.fst).Nodup ∧ DistinctFields fs
  | .null => True
  | .bool _ => True
  | .int _ => True
  | .float _ _ => True
  | .str _ => True

def DistinctItems : List Json → Prop
  | [] => True
  | x :: xs => DistinctKeys x ∧ DistinctItems xs

def DistinctFields : List (String × Json) → Prop
  | [] => True
  | (_, v) :: fs => DistinctKeys v ∧ DistinctFields fs

end

/-- A fact map whose objects are maps at every depth. -/
structure FactDocument where
  values : FactMap
  distinct : ∀ (name : String) (v : Json), values[name]? = some v → DistinctKeys v

/-- A leaf, or a collection that is not empty at the top level. -/
def Kept (path : FactPath) : Json → Prop
  | .arr xs => path.length = 1 ∧ xs ≠ []
  | .obj fs => path.length = 1 ∧ fs ≠ []
  | .null => True
  | .bool _ => True
  | .int _ => True
  | .float _ _ => True
  | .str _ => True

/-- A document and a path below it have the value. -/
def Below : Json → FactPath → Json → Prop
  | v, [], w => v = w
  | .arr xs, .index i :: p, w => ∃ x, xs[i]? = some x ∧ Below x p w
  | .obj fs, .key k :: p, w => ∃ x, (k, x) ∈ fs ∧ Below x p w
  | _, _ :: _, _ => False

theorem below_append (v : Json) (p q : FactPath) (w : Json) :
    Below v (p ++ q) w ↔ ∃ u, Below v p u ∧ Below u q w := by
  induction p generalizing v with
  | nil => simp [Below]
  | cons e p ih =>
    cases v with
    | arr xs =>
      cases e with
      | index i =>
        simp only [List.cons_append, Below, ih]
        constructor
        · rintro ⟨x, hx, u, hu, hw⟩
          exact ⟨u, ⟨x, hx, hu⟩, hw⟩
        · rintro ⟨u, ⟨x, hx, hu⟩, hw⟩
          exact ⟨x, hx, u, hu, hw⟩
      | key k => simp [Below]
    | obj fs =>
      cases e with
      | index i => simp [Below]
      | key k =>
        simp only [List.cons_append, Below, ih]
        constructor
        · rintro ⟨x, hx, u, hu, hw⟩
          exact ⟨u, ⟨x, hx, hu⟩, hw⟩
        · rintro ⟨u, ⟨x, hx, hu⟩, hw⟩
          exact ⟨x, hx, u, hu, hw⟩
    | null => simp [Below]
    | bool b => simp [Below]
    | int n => simp [Below]
    | float m e => simp [Below]
    | str s => simp [Below]

/-- The values of a fact map are those below it as one object. -/
theorem valueAt_iff (facts : FactMap) (p : FactPath) (v : Json) :
    ValueAt facts p v ↔ p ≠ [] ∧ Below (.obj facts.toList) p v := by
  constructor
  · intro h
    induction h with
    | fact name v h =>
      refine ⟨List.cons_ne_nil _ _, v, ?_, rfl⟩
      exact Std.ExtTreeMap.mem_toList_iff_getElem?_eq_some.mpr h
    | field p fields k v hp h ih =>
      refine ⟨by simp, (below_append _ p [.key k] v).mpr ⟨_, ih.2, v, h, rfl⟩⟩
    | item p xs i v hp h ih =>
      refine ⟨by simp, (below_append _ p [.index i] v).mpr ⟨_, ih.2, v, h, rfl⟩⟩
  · rintro ⟨hne, h⟩
    induction p using List.reverseRecOn generalizing v with
    | nil => exact absurd rfl hne
    | append_singleton p e ih =>
      obtain ⟨u, hu, hv⟩ := (below_append _ p [e] v).mp h
      cases e with
      | key k =>
        cases u with
        | obj fs =>
          obtain ⟨x, hx, hxv⟩ := hv
          obtain rfl : x = v := hxv
          cases p with
          | nil =>
            obtain rfl := Json.obj.inj hu
            exact .fact k x (Std.ExtTreeMap.mem_toList_iff_getElem?_eq_some.mp hx)
          | cons e p => exact .field _ fs k x (ih _ (List.cons_ne_nil _ _) hu) hx
        | arr | null | bool | int | float | str => exact absurd hv id
      | index i =>
        cases u with
        | arr xs =>
          obtain ⟨x, hx, hxv⟩ := hv
          obtain rfl : x = v := hxv
          cases p with
          | nil => cases hu
          | cons e p => exact .item _ xs i x (ih _ (List.cons_ne_nil _ _) hu) hx
        | obj | null | bool | int | float | str => exact absurd hv id

/-! ## What the walk collects -/

section Walk

variable {α : Type} (leafFn : FactPath → Json → α)

theorem branchMem_eq (data : Json) (mem : List α) (path : FactPath) : branchMem leafFn data mem path =
    mem ++ (if path.length = 1 then [leafFn path data] else []) := by
  have hdepth : (path.length : Int) - 1 = 0 ↔ path.length = 1 := by omega
  rw [branchMem]
  simp only [hdepth]
  split <;> simp

mutual

/-- The walk adds to what it has, and loses none of it. -/
theorem flattenInto_eq (data : Json) (mem : List α) (path : FactPath) :
    flattenInto leafFn data mem path = mem ++ flattenFactsWith leafFn path data := by
  cases data with
  | arr xs =>
    cases xs with
    | nil => simp [flattenInto, flattenFactsWith]
    | cons x xs =>
      rw [flattenInto, loopItems_eq (x :: xs), branchMem_eq, flattenFactsWith, List.append_assoc]
  | obj fs =>
    cases fs with
    | nil => simp [flattenInto, flattenFactsWith]
    | cons f fs =>
      rw [flattenInto, loopFields_eq (f :: fs), branchMem_eq, flattenFactsWith, List.append_assoc]
  | null => simp [flattenInto, flattenFactsWith]
  | bool b => simp [flattenInto, flattenFactsWith]
  | int n => simp [flattenInto, flattenFactsWith]
  | float m e => simp [flattenInto, flattenFactsWith]
  | str s => simp [flattenInto, flattenFactsWith]

theorem loopItems_eq (remaining : List Json) (i : Nat) (fp : List α) (path : FactPath) :
    loopItems leafFn remaining i fp path = fp ++ flattenItems leafFn path i remaining := by
  cases remaining with
  | nil => simp [loopItems, flattenItems]
  | cons x xs =>
    rw [loopItems, flattenInto_eq x, loopItems_eq xs, flattenItems, List.append_assoc]

theorem loopFields_eq (remaining : List (String × Json)) (fp : List α) (path : FactPath) :
    loopFields leafFn remaining fp path = fp ++ flattenFields leafFn path remaining := by
  cases remaining with
  | nil => simp [loopFields, flattenFields]
  | cons f fs =>
    rw [loopFields, flattenInto_eq f.2, loopFields_eq fs, flattenFields, List.append_assoc]

end

mutual

/-- The function is applied to the paths and values that are collected. -/
theorem flattenFactsWith_map (path : FactPath) (data : Json) : flattenFactsWith leafFn path data =
    (flattenFactsWith Prod.mk path data).map fun e => leafFn e.1 e.2 := by
  cases data with
  | arr xs =>
    cases xs with
    | nil => rfl
    | cons x xs =>
      rw [flattenFactsWith, flattenFactsWith, List.map_append, flattenItems_map path 0 (x :: xs)]
      split <;> rfl
  | obj fs =>
    cases fs with
    | nil => rfl
    | cons f fs =>
      rw [flattenFactsWith, flattenFactsWith, List.map_append, flattenFields_map path (f :: fs)]
      split <;> rfl
  | null => rfl
  | bool b => rfl
  | int n => rfl
  | float m e => rfl
  | str s => rfl

theorem flattenItems_map (path : FactPath) (i : Nat) (xs : List Json) :
    flattenItems leafFn path i xs =
      (flattenItems Prod.mk path i xs).map fun e => leafFn e.1 e.2 := by
  cases xs with
  | nil => rfl
  | cons x xs =>
    rw [flattenItems, flattenItems, List.map_append, flattenFactsWith_map (path ++ [Element.index i]) x,
      flattenItems_map path (i + 1) xs]

theorem flattenFields_map (path : FactPath) (fs : List (String × Json)) :
    flattenFields leafFn path fs =
      (flattenFields Prod.mk path fs).map fun e => leafFn e.1 e.2 := by
  cases fs with
  | nil => rfl
  | cons f fs =>
    rw [flattenFields, flattenFields, List.map_append, flattenFactsWith_map (path ++ [Element.key f.1]) f.2,
      flattenFields_map path fs]

end

end Walk

theorem mem_flatten_leaf (path : FactPath) (data : Json)
    (hbelow : ∀ p w, Below data p w ↔ p = [] ∧ data = w) (hkept : Kept path data) (q : FactPath)
    (w : Json) : (q, w) ∈ [(path, data)] ↔ ∃ p, q = path ++ p ∧ Below data p w ∧ Kept q w := by
  rw [List.mem_singleton, Prod.mk.injEq]
  constructor
  · rintro ⟨rfl, rfl⟩
    exact ⟨[], by simp, (hbelow [] w).mpr ⟨rfl, rfl⟩, hkept⟩
  · rintro ⟨p, rfl, hp, -⟩
    obtain ⟨rfl, rfl⟩ := (hbelow p w).mp hp
    exact ⟨List.append_nil path, rfl⟩

mutual

/-- The paths and values that are collected below a path. -/
theorem mem_flattenFactsWith (path : FactPath) (data : Json) (q : FactPath) (w : Json) :
    (q, w) ∈ flattenFactsWith Prod.mk path data ↔
      ∃ p, q = path ++ p ∧ Below data p w ∧ Kept q w := by
  cases data with
  | arr xs =>
    have hitems := mem_flattenItems path 0 xs q w
    have hbranch : (q, w) ∈ flattenFactsWith Prod.mk path (.arr xs) ↔
        ((path.length = 1 ∧ xs ≠ []) ∧ (q, w) = (path, .arr xs)) ∨
          (q, w) ∈ flattenItems Prod.mk path 0 xs := by
      cases xs with
      | nil => simp [flattenFactsWith, flattenItems]
      | cons x xs => simp [flattenFactsWith]
    rw [hbranch, hitems, Prod.mk.injEq]
    constructor
    · rintro (⟨hkept, rfl, rfl⟩ | ⟨j, x, p, hx, rfl, hp, hkept⟩)
      · exact ⟨[], by simp, rfl, hkept⟩
      · exact ⟨.index (0 + j) :: p, rfl, ⟨x, by simpa using hx, hp⟩, hkept⟩
    · rintro ⟨p, rfl, hp, hkept⟩
      cases p with
      | nil =>
        obtain rfl : Json.arr xs = w := hp
        rw [List.append_nil] at hkept
        exact Or.inl ⟨hkept, List.append_nil path, rfl⟩
      | cons e p =>
        cases e with
        | key k => exact absurd hp id
        | index j =>
          obtain ⟨x, hx, hp⟩ := hp
          exact Or.inr ⟨j, x, p, hx, by simp, hp, hkept⟩
  | obj fs =>
    have hfields := mem_flattenFields path fs q w
    have hbranch : (q, w) ∈ flattenFactsWith Prod.mk path (.obj fs) ↔
        ((path.length = 1 ∧ fs ≠ []) ∧ (q, w) = (path, .obj fs)) ∨
          (q, w) ∈ flattenFields Prod.mk path fs := by
      cases fs with
      | nil => simp [flattenFactsWith, flattenFields]
      | cons f fs => simp [flattenFactsWith]
    rw [hbranch, hfields, Prod.mk.injEq]
    constructor
    · rintro (⟨hkept, rfl, rfl⟩ | ⟨k, x, p, hx, rfl, hp, hkept⟩)
      · exact ⟨[], by simp, rfl, hkept⟩
      · exact ⟨.key k :: p, rfl, ⟨x, hx, hp⟩, hkept⟩
    · rintro ⟨p, rfl, hp, hkept⟩
      cases p with
      | nil =>
        obtain rfl : Json.obj fs = w := hp
        rw [List.append_nil] at hkept
        exact Or.inl ⟨hkept, List.append_nil path, rfl⟩
      | cons e p =>
        cases e with
        | index i => exact absurd hp id
        | key k =>
          obtain ⟨x, hx, hp⟩ := hp
          exact Or.inr ⟨k, x, p, hx, rfl, hp, hkept⟩
  | null => exact mem_flatten_leaf path .null (fun p w => by cases p <;> simp [Below]) trivial q w
  | bool b => exact mem_flatten_leaf path (.bool b) (fun p w => by cases p <;> simp [Below]) trivial q w
  | int n => exact mem_flatten_leaf path (.int n) (fun p w => by cases p <;> simp [Below]) trivial q w
  | float m e =>
    exact mem_flatten_leaf path (.float m e) (fun p w => by cases p <;> simp [Below]) trivial q w
  | str s => exact mem_flatten_leaf path (.str s) (fun p w => by cases p <;> simp [Below]) trivial q w

theorem mem_flattenItems (path : FactPath) (i : Nat) (xs : List Json) (q : FactPath) (w : Json) :
    (q, w) ∈ flattenItems Prod.mk path i xs ↔
      ∃ j x p, xs[j]? = some x ∧ q = path ++ .index (i + j) :: p ∧ Below x p w ∧ Kept q w := by
  cases xs with
  | nil => simp [flattenItems]
  | cons x xs =>
    rw [flattenItems, List.mem_append, mem_flattenFactsWith (path ++ [Element.index i]) x,
      mem_flattenItems path (i + 1) xs]
    constructor
    · rintro (⟨p, rfl, hp⟩ | ⟨j, y, p, hy, rfl, hp⟩)
      · exact ⟨0, x, p, rfl, by simp, hp⟩
      · exact ⟨j + 1, y, p, hy, by rw [Nat.add_right_comm, Nat.add_assoc], hp⟩
    · rintro ⟨j, y, p, hy, rfl, hp⟩
      cases j with
      | zero =>
        obtain rfl := Option.some.inj hy
        exact Or.inl ⟨p, by simp, hp⟩
      | succ j => exact Or.inr ⟨j, y, p, hy, by rw [Nat.add_right_comm, Nat.add_assoc], hp⟩

theorem mem_flattenFields (path : FactPath) (fs : List (String × Json)) (q : FactPath) (w : Json) :
    (q, w) ∈ flattenFields Prod.mk path fs ↔
      ∃ k x p, (k, x) ∈ fs ∧ q = path ++ .key k :: p ∧ Below x p w ∧ Kept q w := by
  cases fs with
  | nil => simp [flattenFields]
  | cons f fs =>
    rw [flattenFields, List.mem_append, mem_flattenFactsWith (path ++ [Element.key f.1]) f.2,
      mem_flattenFields path fs]
    constructor
    · rintro (⟨p, rfl, hp⟩ | ⟨k, x, p, hx, rfl, hp⟩)
      · exact ⟨f.1, f.2, p, List.mem_cons_self, by simp, hp⟩
      · exact ⟨k, x, p, List.mem_cons_of_mem _ hx, rfl, hp⟩
    · rintro ⟨k, x, p, hx, rfl, hp⟩
      obtain hf | hx := List.mem_cons.mp hx
      · rw [← hf]
        exact Or.inl ⟨p, by simp, hp⟩
      · exact Or.inr ⟨k, x, p, hx, rfl, hp⟩

end

mutual

/-- No path is collected twice. -/
theorem nodup_flattenFactsWith (path : FactPath) (data : Json) (h : DistinctKeys data) :
    ((flattenFactsWith Prod.mk path data).map Prod.fst).Nodup := by
  cases data with
  | arr xs =>
    have hitems := nodup_flattenItems path 0 xs h
    cases xs with
    | nil => exact List.nodup_nil
    | cons x xs =>
      rw [flattenFactsWith, List.map_append, List.nodup_append]
      refine ⟨by split <;> simp, hitems, ?_⟩
      intro q hq r hr heq
      obtain ⟨e, he, rfl⟩ := List.mem_map.mp hr
      obtain ⟨j, y, p, -, hp, -⟩ := (mem_flattenItems path 0 (x :: xs) e.1 e.2).mp he
      have hpath : q = path := by
        split at hq
        · simpa using hq
        · cases hq
      rw [hpath, hp] at heq
      simp at heq
  | obj fs =>
    have hfields := nodup_flattenFields path fs h.1 h.2
    cases fs with
    | nil => exact List.nodup_nil
    | cons f fs =>
      rw [flattenFactsWith, List.map_append, List.nodup_append]
      refine ⟨by split <;> simp, hfields, ?_⟩
      intro q hq r hr heq
      obtain ⟨e, he, rfl⟩ := List.mem_map.mp hr
      obtain ⟨k, y, p, -, hp, -⟩ := (mem_flattenFields path (f :: fs) e.1 e.2).mp he
      have hpath : q = path := by
        split at hq
        · simpa using hq
        · cases hq
      rw [hpath, hp] at heq
      simp at heq
  | null => exact List.nodup_singleton path
  | bool b => exact List.nodup_singleton path
  | int n => exact List.nodup_singleton path
  | float m e => exact List.nodup_singleton path
  | str s => exact List.nodup_singleton path

theorem nodup_flattenItems (path : FactPath) (i : Nat) (xs : List Json) (h : DistinctItems xs) :
    ((flattenItems Prod.mk path i xs).map Prod.fst).Nodup := by
  cases xs with
  | nil => exact List.nodup_nil
  | cons x xs =>
    rw [flattenItems, List.map_append, List.nodup_append]
    refine ⟨nodup_flattenFactsWith (path ++ [Element.index i]) x h.1,
      nodup_flattenItems path (i + 1) xs h.2, ?_⟩
    intro q hq r hr heq
    obtain ⟨d, hd, rfl⟩ := List.mem_map.mp hq
    obtain ⟨e, he, rfl⟩ := List.mem_map.mp hr
    obtain ⟨p, hp, -⟩ := (mem_flattenFactsWith _ x d.1 d.2).mp hd
    obtain ⟨j, y, p', -, hp', -⟩ := (mem_flattenItems path (i + 1) xs e.1 e.2).mp he
    rw [hp, hp', List.append_assoc, List.append_cancel_left_eq] at heq
    have hindex := Element.index.inj (List.cons.inj heq).1
    omega

theorem nodup_flattenFields (path : FactPath) (fs : List (String × Json))
    (hkeys : (fs.map Prod.fst).Nodup) (h : DistinctFields fs) :
    ((flattenFields Prod.mk path fs).map Prod.fst).Nodup := by
  cases fs with
  | nil => exact List.nodup_nil
  | cons f fs =>
    rw [List.map_cons, List.nodup_cons] at hkeys
    rw [flattenFields, List.map_append, List.nodup_append]
    refine ⟨nodup_flattenFactsWith (path ++ [Element.key f.1]) f.2 h.1,
      nodup_flattenFields path fs hkeys.2 h.2, ?_⟩
    intro q hq r hr heq
    obtain ⟨d, hd, rfl⟩ := List.mem_map.mp hq
    obtain ⟨e, he, rfl⟩ := List.mem_map.mp hr
    obtain ⟨p, hp, -⟩ := (mem_flattenFactsWith _ f.2 d.1 d.2).mp hd
    obtain ⟨k, y, p', hy, hp', -⟩ := (mem_flattenFields path fs e.1 e.2).mp he
    rw [hp, hp', List.append_assoc, List.append_cancel_left_eq] at heq
    have hkey := Element.key.inj (List.cons.inj heq).1
    apply hkeys.1
    rw [hkey]
    exact List.mem_map_of_mem hy

end

/-! ## Fact maps -/

/-- The paths and values that the walk collects from a fact map. -/
def positions (facts : FactMap) : List (FactPath × Json) := flattenFacts Prod.mk facts

theorem flattenFacts_eq {α : Type} (leafFn : FactPath → Json → α) (facts : FactMap) :
    flattenFacts leafFn facts = flattenFields leafFn [] facts.toList := by
  rw [flattenFacts, flattenInto_eq, List.nil_append]
  cases facts.toList with
  | nil => rfl
  | cons f fs => simp [flattenFactsWith]

theorem flattenFacts_positions {α : Type} (leafFn : FactPath → Json → α) (facts : FactMap) :
    flattenFacts leafFn facts = (positions facts).map fun e => leafFn e.1 e.2 := by
  rw [flattenFacts_eq, positions, flattenFacts_eq, flattenFields_map]

theorem mem_positions (facts : FactMap) (p : FactPath) (v : Json) :
    (p, v) ∈ positions facts ↔ ValueAt facts p v ∧ Kept p v := by
  rw [positions, flattenFacts_eq, mem_flattenFields, valueAt_iff]
  constructor
  · rintro ⟨k, x, q, hx, rfl, hq, hkept⟩
    exact ⟨⟨List.cons_ne_nil _ _, x, hx, hq⟩, hkept⟩
  · rintro ⟨⟨hne, hp⟩, hkept⟩
    cases p with
    | nil => exact absurd rfl hne
    | cons e p =>
      cases e with
      | index i => exact absurd hp id
      | key k =>
        obtain ⟨x, hx, hp⟩ := hp
        exact ⟨k, x, p, hx, rfl, hp, hkept⟩

theorem distinctFields_of_forall (fs : List (String × Json)) (h : ∀ f ∈ fs, DistinctKeys f.2) :
    DistinctFields fs := by
  induction fs with
  | nil => trivial
  | cons f fs ih =>
    exact ⟨h f List.mem_cons_self, ih fun g hg => h g (List.mem_cons_of_mem _ hg)⟩

theorem nodup_positions (facts : FactDocument) : ((positions facts.values).map Prod.fst).Nodup := by
  rw [positions, flattenFacts_eq]
  apply nodup_flattenFields
  · have hkeys := facts.values.distinct_keys_toList
    rw [List.Nodup, List.pairwise_map]
    apply hkeys.imp
    intro a b hab heq
    rw [heq] at hab
    exact hab Std.ReflCmp.compare_self
  · apply distinctFields_of_forall
    intro f hf
    exact facts.distinct f.1 f.2 (Std.ExtTreeMap.mem_toList_iff_getElem?_eq_some.mp hf)

/-! ## Path strings -/

/-- One element is the other, or a key that is digits the other key without its quotes. -/
def SameInQuotes (e e' : Element) : Prop :=
  e = e' ∨ ∃ k k', e = .key k ∧ e' = .key k' ∧ (InQuotes k k' ∨ InQuotes k' k)

theorem encodeFactpathElement_iff (e e' : Element) :
    encodeFactpathElement e = encodeFactpathElement e' ↔ SameInQuotes e e' := by
  constructor
  · exact encodeFactpathElement_eq e e'
  · rintro (rfl | ⟨k, k', rfl, rfl, h | h⟩)
    · rfl
    · exact (encodeFactpathElement_inQuotes k k' h).symm
    · exact encodeFactpathElement_inQuotes k' k h

/-- Two paths have one string exactly when they are the same but for quotes around digits. -/
theorem factpathToString_eq_iff_forall₂ (p q : FactPath) (hp : p ≠ []) (hq : q ≠ []) :
    factpathToString p = factpathToString q ↔ List.Forall₂ SameInQuotes p q := by
  rw [factpathToString_eq_iff q p hq hp, ← List.forall₂_eq_eq_eq, List.forall₂_map_left_iff,
    List.forall₂_map_right_iff]
  simp only [encodeFactpathElement_iff]

/-- No two paths that are collected are the same but for quotes around digits. -/
def NoTwins (facts : FactMap) : Prop :=
  ∀ p v q w, ValueAt facts p v → Kept p v → ValueAt facts q w → Kept q w →
    List.Forall₂ SameInQuotes p q → p = q

theorem ValueAt.key_cons {facts : FactMap} {p : FactPath} {v : Json} (h : ValueAt facts p v) :
    ∃ name rest, p = .key name :: rest := by
  induction h with
  | fact name v h => exact ⟨name, [], rfl⟩
  | field p fields k v hp h ih =>
    obtain ⟨name, rest, rfl⟩ := ih
    exact ⟨name, rest ++ [.key k], rfl⟩
  | item p xs i v hp h ih =>
    obtain ⟨name, rest, rfl⟩ := ih
    exact ⟨name, rest ++ [.index i], rfl⟩

theorem nodup_paths_iff (facts : FactDocument) :
    ((flattenFacts pathToPathmap facts.values).map Pathmap.path).Nodup ↔ NoTwins facts.values := by
  have hpaths : (flattenFacts pathToPathmap facts.values).map Pathmap.path =
      ((positions facts.values).map Prod.fst).map factpathToString := by
    rw [flattenFacts_positions, List.map_map, List.map_map]
    rfl
  have hne : ∀ p ∈ (positions facts.values).map Prod.fst, p ≠ [] := by
    intro p hp
    obtain ⟨e, he, rfl⟩ := List.mem_map.mp hp
    obtain ⟨name, rest, heq⟩ := ((mem_positions facts.values e.1 e.2).mp he).1.key_cons
    rw [heq]
    exact List.cons_ne_nil _ _
  rw [hpaths, List.nodup_map_iff_inj_on (nodup_positions facts)]
  constructor
  · intro h p v q w hp hpv hq hqw htwins
    have hp := List.mem_map_of_mem (f := Prod.fst) ((mem_positions _ p v).mpr ⟨hp, hpv⟩)
    have hq := List.mem_map_of_mem (f := Prod.fst) ((mem_positions _ q w).mpr ⟨hq, hqw⟩)
    exact h p hp q hq ((factpathToString_eq_iff_forall₂ p q (hne p hp) (hne q hq)).mpr htwins)
  · intro h p hp q hq heq
    have htwins := (factpathToString_eq_iff_forall₂ p q (hne p hp) (hne q hq)).mp heq
    obtain ⟨d, hd, rfl⟩ := List.mem_map.mp hp
    obtain ⟨e, he, rfl⟩ := List.mem_map.mp hq
    obtain ⟨hd, hdkept⟩ := (mem_positions _ d.1 d.2).mp hd
    obtain ⟨he, hekept⟩ := (mem_positions _ e.1 e.2).mp he
    exact h d.1 d.2 e.1 e.2 hd hdkept he hekept htwins

/-- The walk makes one pathmap for every leaf and every fact that is a collection with elements, of
its path, type, name and depth. Two of them have one path string exactly where their paths are the
same but for quotes around digits. -/
theorem flattenFacts_exact (facts : FactDocument) :
    (flattenFacts pathToPathmap facts.values =
      (positions facts.values).map fun e => pathToPathmap e.1 e.2) ∧
    (∀ p v, (p, v) ∈ positions facts.values ↔ ValueAt facts.values p v ∧ Kept p v) ∧
    ((positions facts.values).map Prod.fst).Nodup ∧
    (∀ p v, (p, v) ∈ positions facts.values → ∃ name rest, p = .key name :: rest ∧
      pathToPathmap p v = ⟨factpathToString p, valueTypeId v, p.map Element.str, name, rest.length⟩) ∧
    (((flattenFacts pathToPathmap facts.values).map Pathmap.path).Nodup ↔ NoTwins facts.values) := by
  refine ⟨flattenFacts_positions pathToPathmap facts.values, mem_positions facts.values,
    nodup_positions facts, ?_, nodup_paths_iff facts⟩
  intro p v h
  obtain ⟨name, rest, rfl⟩ := ((mem_positions facts.values p v).mp h).1.key_cons
  exact ⟨name, rest, rfl, rfl⟩

/-- A fact whose name is twelve, and one whose name is twelve in quotes. -/
def twelves : FactDocument where
  values := ((∅ : FactMap).insert "12" (.int 1)).insert "\"12\"" (.int 2)
  distinct := by
    intro name v h
    rw [Std.ExtTreeMap.getElem?_insert, Std.ExtTreeMap.getElem?_insert] at h
    split at h
    · obtain rfl := Option.some.inj h
      trivial
    · split at h
      · obtain rfl := Option.some.inj h
        trivial
      · simp at h

/-- The two facts have one path string. -/
theorem flattenFacts_fails : ¬ ∀ facts : FactDocument,
    ((flattenFacts pathToPathmap facts.values).map Pathmap.path).Nodup := by
  intro h
  have htwelve : ValueAt twelves.values [.key "12"] (.int 1) := .fact _ _ (by decide)
  have hquoted : ValueAt twelves.values [.key "\"12\""] (.int 2) := .fact _ _ (by decide)
  have hsame : SameInQuotes (.key "12") (.key "\"12\"") :=
    .inr ⟨_, _, rfl, rfl, .inl ⟨by decide, by decide⟩⟩
  have heq := (nodup_paths_iff twelves).mp (h twelves) _ _ _ _ htwelve trivial hquoted trivial
    (.cons hsame .nil)
  exact absurd heq (by decide)

end OpenVoxDB.FactPaths
