import Mathlib
import Std.Data.ExtTreeMap

/-!
# Finite maps

The extensional tree maps of the standard library, with the key-set operations
of an immutable map library: two maps are equal when they agree at every key,
and iteration is in key order.
-/

namespace OpenVoxDB

abbrev Dict (κ ν : Type) [Ord κ] := Std.ExtTreeMap κ ν

namespace Dict

variable {κ ν : Type} [Ord κ] [Std.TransOrd κ] [Std.LawfulEqOrd κ]

/-- The entries of `m` whose key is in `keys`. -/
def selectKeys (m : Dict κ ν) (keys : κ → Bool) : Dict κ ν := m.filter fun k _ => keys k

/-- The entries of `m` whose key is not in `keys`. -/
def dissoc (m : Dict κ ν) (keys : κ → Bool) : Dict κ ν := m.filter fun k _ => !keys k

/-- No key has an entry on both sides. -/
def DisjointKeys (left right : Dict κ ν) : Prop :=
  ∀ k : κ, left[k]? = none ∨ right[k]? = none

@[simp] theorem getElem?_selectKeys (m : Dict κ ν) (keys : κ → Bool) (k : κ) :
    (selectKeys m keys)[k]? = if keys k then m[k]? else none := by
  rw [selectKeys, Std.ExtTreeMap.getElem?_filter']
  cases m[k]? with
  | none => simp
  | some v => cases keys k <;> simp [Option.filter]

@[simp] theorem getElem?_dissoc (m : Dict κ ν) (keys : κ → Bool) (k : κ) :
    (dissoc m keys)[k]? = if keys k then none else m[k]? := by
  rw [dissoc, Std.ExtTreeMap.getElem?_filter']
  cases m[k]? with
  | none => simp
  | some v => cases keys k <;> simp [Option.filter]

/-- Splitting a map along a set of keys and joining the parts loses nothing. -/
theorem dissoc_union_selectKeys (m : Dict κ ν) (keys : κ → Bool) :
    dissoc m keys ∪ selectKeys m keys = m := by
  apply Std.ExtTreeMap.ext_getElem?
  intro k
  rw [Std.ExtTreeMap.getElem?_union, getElem?_dissoc, getElem?_selectKeys]
  cases keys k <;> simp

/-- A map has at most one entry for a key. -/
theorem toList_filter_key [DecidableEq κ] (m : Dict κ ν) (k : κ) :
    m.toList.filter (fun entry => entry.1 = k) = m[k]?.toList.map fun v => (k, v) := by
  suffices h : ∀ (entries : List (κ × ν)) (o : Option ν),
      entries.Pairwise (fun a b => ¬ compare a.1 b.1 = .eq) →
      (∀ v, (k, v) ∈ entries ↔ o = some v) →
      entries.filter (fun entry => entry.1 = k) = o.toList.map fun v => (k, v) from
    h m.toList m[k]? m.distinct_keys_toList fun _ =>
      Std.ExtTreeMap.mem_toList_iff_getElem?_eq_some
  intro entries
  induction entries with
  | nil =>
    intro o _ ho
    cases o with
    | none => rfl
    | some v => exact absurd ((ho v).mpr rfl) List.not_mem_nil
  | cons entry entries ih =>
    obtain ⟨j, w⟩ := entry
    intro o hkeys ho
    obtain ⟨hhead, htail⟩ := List.pairwise_cons.mp hkeys
    by_cases hj : j = k
    · subst hj
      have hnone : ∀ v, (j, v) ∈ entries ↔ none = some v :=
        fun v => iff_of_false (fun hmem => hhead _ hmem Std.ReflCmp.compare_self) nofun
      rw [(ho w).mp List.mem_cons_self, List.filter_cons_of_pos (by simp), ih none htail hnone]
      rfl
    · have hrest : ∀ v, (k, v) ∈ entries ↔ o = some v := by
        intro v
        rw [← ho v, List.mem_cons]
        exact ⟨.inr, fun hmem => hmem.resolve_left fun he => hj (Prod.mk.inj he).1.symm⟩
      rw [List.filter_cons_of_neg (by simpa using hj), ih o htail hrest]

theorem lookup_toList [BEq κ] [LawfulBEq κ] [DecidableEq κ] (m : Dict κ ν) (k : κ) :
    m.toList.lookup k = m[k]? := by
  have hfirst : ∀ entries : List (κ × ν), entries.lookup k =
      (entries.filter fun entry => entry.1 = k).head?.map Prod.snd := by
    intro entries
    induction entries with
    | nil => rfl
    | cons entry entries ih =>
      obtain ⟨j, w⟩ := entry
      by_cases hj : j = k
      · simp [hj, List.lookup_cons_self]
      · have hkj : (k == j) = false := beq_false_of_ne fun he => hj he.symm
        rw [List.lookup_cons, hkj, List.filter_cons_of_neg (by simpa using hj), ih]
  rw [hfirst, toList_filter_key]
  cases m[k]? <;> rfl

omit [Std.LawfulEqOrd κ] in
theorem disjointKeys_empty (m : Dict κ ν) : DisjointKeys m ∅ := fun _ => .inr (by simp)

theorem union_empty (m : Dict κ ν) : m ∪ ∅ = m := by
  apply Std.ExtTreeMap.ext_getElem?
  intro k
  rw [Std.ExtTreeMap.getElem?_union]
  simp

/-- Rewrite the entries at `keys` one after the other; `none` is no entry. The first
error ends the walk. -/
def alterEach {ε : Type} (f : κ → Option ν → Except ε (Option ν)) :
    Dict κ ν → List κ → Except ε (Dict κ ν)
  | m, [] => .ok m
  | m, k :: ks => do
    let v ← f k m[k]?
    alterEach f (m.alter k fun _ => v) ks

/-- A walk over distinct keys succeeds exactly when it does at each key, and gives each
key the entry computed there from the map it started with. -/
theorem alterEach_eq_ok_iff {ε : Type} (f : κ → Option ν → Except ε (Option ν))
    (ks : List κ) (hks : ks.Nodup) (m m' : Dict κ ν) :
    alterEach f m ks = .ok m' ↔
      ∀ k : κ, (k ∈ ks → f k m[k]? = .ok m'[k]?) ∧ (k ∉ ks → m'[k]? = m[k]?) := by
  induction ks generalizing m with
  | nil =>
    simp only [alterEach, Except.ok.injEq, List.not_mem_nil, false_imp_iff, true_and,
      not_false_eq_true, true_imp_iff]
    constructor
    · rintro rfl k
      rfl
    · intro h
      exact Std.ExtTreeMap.ext_getElem? fun k => (h k).symm
  | cons j ks ih =>
    obtain ⟨hj, hks⟩ := List.nodup_cons.mp hks
    have hother : ∀ (v : Option ν) (k : κ), k ≠ j → (m.alter j fun _ => v)[k]? = m[k]? := by
      intro v k hk
      rw [Std.ExtTreeMap.getElem?_alter, if_neg]
      exact fun h => hk (Std.LawfulEqOrd.eq_of_compare h).symm
    cases hf : f j m[j]? with
    | error e =>
      have herror : alterEach f m (j :: ks) = .error e := by
        simp only [alterEach, hf]
        rfl
      rw [herror]
      refine iff_of_false nofun fun h => ?_
      have hj' := (h j).1 (by simp)
      rw [hf] at hj'
      cases hj'
    | ok v =>
      have hstep : alterEach f m (j :: ks) = alterEach f (m.alter j fun _ => v) ks := by
        simp only [alterEach, hf]
        rfl
      rw [hstep, ih hks]
      refine forall_congr' fun k => ?_
      by_cases hk : k = j
      · subst hk
        have hself : (m.alter k fun _ => v)[k]? = v := by
          rw [Std.ExtTreeMap.getElem?_alter, if_pos Std.ReflOrd.compare_self]
        rw [hself, hf]
        constructor
        · intro h
          exact ⟨fun _ => congrArg _ (h.2 hj).symm, fun hn => absurd List.mem_cons_self hn⟩
        · intro h
          exact ⟨fun hm => absurd hm hj, fun _ => (Except.ok.inj (h.1 List.mem_cons_self)).symm⟩
      · rw [hother v k hk]
        simp [hk]

end Dict

end OpenVoxDB
