import OpenVoxDB.FactPathGc

/-!
# When the collector and the writer agree

The collector knows the paths as their raw keys write them, the writer quotes
numbers and escapes delimiters. The two agree on all factsets whose keys need
neither; beyond these, only when for every path with a number the paths that the
two spellings confuse it with are stored as well.
-/

namespace OpenVoxDB.FactPaths

open FactStorage Delimited

variable {Digest : Type}

/-- The store with other rows of paths. -/
def withRows (s : FactStore Digest) (rows : List Pathmap) : FactStore Digest :=
  { s with factPaths := rows }

/-- Every row of a path of some factset survives. -/
def KeepsLive (s : FactStore Digest) : Prop :=
  ∀ rows, ∀ pm ∈ rows, (∃ p, HasPath s p ∧ pm.path = factpathToString p) →
    pm ∈ (deleteUnusedFactPaths (withRows s rows)).factPaths

/-- Every row that survives is that of a path of some factset, or of an index past an end. -/
def RemovesDead (s : FactStore Digest) : Prop :=
  ∀ rows, ∀ pm ∈ (deleteUnusedFactPaths (withRows s rows)).factPaths,
    ∃ p, (HasPath s p ∨ PastEnd s p) ∧ pm.path = factpathToString p

/-- Some key is a number in digits, or empty. -/
def HasDigitKey (p : FactPath) : Prop := ∃ k, .key k ∈ p ∧ k.toList.all digit

/-- No key holds a delimiter, and a path with numbers for keys is stored beside the path with
these keys in quotes and the path with them for indexes. -/
structure Collectable (s : FactStore Digest) : Prop where
  unescaped : ∀ p, HasPath s p → ∀ k, .key k ∈ p → escapeDelimiter k = k
  quoted : ∀ p, HasPath s p → HasDigitKey p →
    ∃ q, Collected s q ∧ q.map Element.str = p.map encodeFactpathElement
  unquoted : ∀ p, Collected s p → HasDigitKey p →
    ∃ q, (HasPath s q ∨ PastEnd s q) ∧ q.map encodeFactpathElement = p.map Element.str

section Segments

theorem segments_rawPath (p : FactPath) (hp : p ≠ []) :
    segments '#' '~' (rawPath p).toList = p.flatMap fun e => segments '#' '~' e.str.toList := by
  rw [rawPath, String.toList_intercalate, List.map_map]
  refine (segments_intercalate '#' '~' (by decide) _ (by simpa using hp)).trans ?_
  rw [List.flatMap_map]
  rfl

theorem clean_str (e : Element) (h : ∀ k, e = .key k → escapeDelimiter k = k) :
    Clean '#' '~' e.str.toList := by
  cases e with
  | key k =>
    have := clean_escapeDelimiter k
    rwa [h k rfl] at this
  | index i => exact clean_index i

theorem segments_rawPath_of_unescaped (p : FactPath) (hp : p ≠ [])
    (h : ∀ k, .key k ∈ p → escapeDelimiter k = k) :
    segments '#' '~' (rawPath p).toList = p.map fun e => e.str.toList := by
  rw [segments_rawPath p hp, List.flatMap_congr fun e he => segments_of_clean '#' '~' e.str.toList
    (clean_str e fun k hk => h k (hk ▸ he)), ← List.map_eq_flatMap]

/-- Without delimiters in the raw path, equal strings have equal elements. -/
theorem factpathToString_eq_rawPath_iff (p q : FactPath) (hp : p ≠ []) (hq : q ≠ [])
    (h : ∀ k, .key k ∈ q → escapeDelimiter k = k) :
    factpathToString p = rawPath q ↔ p.map encodeFactpathElement = q.map Element.str := by
  constructor
  · intro he
    have hsegments := segments_factpathToString p hp
    rw [he, segments_rawPath_of_unescaped q hq h] at hsegments
    refine List.map_injective_iff.mpr (fun _ _ h => String.toList_injective h) ?_
    rw [List.map_map, List.map_map]
    exact hsegments.symm
  · intro he
    rw [factpathToString, he, rawPath]

theorem length_le_rawPath (p : FactPath) (e : Element) (h : e ∈ p) :
    e.str.toList.length ≤ (rawPath p).toList.length := by
  rw [rawPath, String.toList_intercalate, List.map_map]
  have hmem : e.str.toList ∈ p.map (String.toList ∘ Element.str) := List.mem_map.mpr ⟨e, h, rfl⟩
  exact (infix_intercalate _ _ _ hmem).length_le

end Segments

section Spellings

theorem Collected.ne_nil {s : FactStore Digest} {p : FactPath} (h : Collected s p) : p ≠ [] := by
  obtain ⟨v, certname, row, -, hat⟩ | ⟨q, xs, -, -, rfl⟩ := h
  · exact hat.ne_nil
  · simp

theorem ne_nil_of_hasPath_or_pastEnd {s : FactStore Digest} {p : FactPath}
    (h : HasPath s p ∨ PastEnd s p) : p ≠ [] := by
  obtain ⟨v, certname, row, -, hat⟩ | ⟨q, xs, -, rfl⟩ := h
  · exact hat.ne_nil
  · simp

theorem Collected.hasPath_or_pastEnd {s : FactStore Digest} {p : FactPath} (h : Collected s p) :
    HasPath s p ∨ PastEnd s p := by
  obtain h | ⟨q, xs, hq, -, rfl⟩ := h
  · exact .inl h
  · exact .inr ⟨q, xs, hq, rfl⟩

/-- The keys of a path of the collector are those of a stored path. -/
theorem Collected.hasPath_of_key {s : FactStore Digest} {p : FactPath} (h : Collected s p)
    (k : String) (hk : .key k ∈ p) : ∃ q, HasPath s q ∧ .key k ∈ q := by
  obtain h | ⟨q, xs, hq, -, rfl⟩ := h
  · exact ⟨p, h, hk⟩
  · exact ⟨q, ⟨_, hq⟩, by simpa using hk⟩

theorem mem_deleteUnusedFactPaths (s : FactStore Digest) (rows : List Pathmap) (pm : Pathmap) :
    pm ∈ (deleteUnusedFactPaths (withRows s rows)).factPaths ↔
      pm ∈ rows ∧ ∃ q, Collected s q ∧ pm.path = rawPath q := by
  simp only [deleteUnusedFactPaths, List.mem_filter, decide_eq_true_eq]
  exact and_congr_right fun _ => mem_livePaths s pm.path

/-- A row with a path. -/
def rowOf (path : String) : Pathmap := ⟨path, 0, [], "", 0⟩

theorem keepsLive_iff (s : FactStore Digest) : KeepsLive s ↔
    ∀ p, HasPath s p → ∃ q, Collected s q ∧ factpathToString p = rawPath q := by
  constructor
  · intro h p hp
    exact ((mem_deleteUnusedFactPaths s _ _).mp
      (h [rowOf (factpathToString p)] _ List.mem_cons_self ⟨p, hp, rfl⟩)).2
  · rintro h rows pm hpm ⟨p, hp, hpath⟩
    rw [mem_deleteUnusedFactPaths, hpath]
    exact ⟨hpm, h p hp⟩

theorem removesDead_iff (s : FactStore Digest) : RemovesDead s ↔
    ∀ q, Collected s q → ∃ p, (HasPath s p ∨ PastEnd s p) ∧ factpathToString p = rawPath q := by
  constructor
  · intro h q hq
    obtain ⟨p, hp, hpath⟩ := h [rowOf (rawPath q)] (rowOf (rawPath q))
      ((mem_deleteUnusedFactPaths s _ _).mpr ⟨List.mem_cons_self, q, hq, rfl⟩)
    exact ⟨p, hp, hpath.symm⟩
  · intro h rows pm hpm
    obtain ⟨-, q, hq, hpath⟩ := (mem_deleteUnusedFactPaths s rows pm).mp hpm
    obtain ⟨p, hp, he⟩ := h q hq
    exact ⟨p, hp, hpath.trans he.symm⟩

theorem encode_eq_str (e : Element) (h : ∀ k, e = .key k → escapeDelimiter k = k)
    (hdigits : ∀ k, e = .key k → ¬ k.toList.all digit) : encodeFactpathElement e = e.str := by
  cases e with
  | key k =>
    rw [encodeFactpathElement_key, if_neg (hdigits k rfl), h k rfl]
    rfl
  | index i => rfl

theorem map_encode_eq_map_str (p : FactPath) (h : ∀ k, .key k ∈ p → escapeDelimiter k = k)
    (hdigits : ¬ HasDigitKey p) : p.map encodeFactpathElement = p.map Element.str :=
  List.map_congr_left fun e he => encode_eq_str e (fun k hk => h k (hk ▸ he))
    fun k hk hall => hdigits ⟨k, hk ▸ he, hall⟩

end Spellings

section Delimiters

theorem rawPath_bounded (s : FactStore Digest) :
    ∃ n, ∀ q, Collected s q → (rawPath q).toList.length ≤ n := by
  refine ⟨(livePaths s).foldr (fun path n => max path.toList.length n) 0, fun q hq => ?_⟩
  have hmem : rawPath q ∈ livePaths s := (mem_livePaths s _).mpr ⟨q, hq, rfl⟩
  exact le_foldr_max (fun path => path.toList.length) _ _ hmem

/-- The row of a key with a delimiter survives only through a longer key with one. -/
theorem exists_longer_key (s : FactStore Digest) (hs : KeepsLive s) (p : FactPath) (k : String)
    (hp : HasPath s p) (hk : .key k ∈ p) (hne : escapeDelimiter k ≠ k) :
    ∃ q k', HasPath s q ∧ .key k' ∈ q ∧ escapeDelimiter k' ≠ k' ∧
      k.toList.length < k'.toList.length := by
  obtain ⟨q, hq, he⟩ := (keepsLive_iff s).mp hs p hp
  have hp' : p ≠ [] := Collected.ne_nil (.inl hp)
  obtain ⟨hdelim, hlength⟩ := escapeDelimiter_ne k hne
  have hencode : encodeFactpathElement (.key k) = escapeDelimiter k := by
    rw [encodeFactpathElement_key, if_neg]
    intro hdigits
    exact hne (escapeDelimiter_of_not_mem k (not_mem_of_digits k hdigits))
  -- the escaped key is a segment of some raw element
  have hmem : (escapeDelimiter k).toList ∈ q.flatMap fun e => segments '#' '~' e.str.toList := by
    rw [← segments_rawPath q hq.ne_nil, ← he, segments_factpathToString p hp', ← hencode]
    exact List.mem_map.mpr ⟨_, hk, rfl⟩
  obtain ⟨e, hmem, hsegment⟩ := List.mem_flatMap.mp hmem
  have hinfix := infix_of_mem_segments '#' '~' _ _ hsegment
  cases e with
  | index i => exact absurd (hdelim.mono hinfix).mem (not_mem_index i)
  | key k' =>
    obtain ⟨q', hq', hk'⟩ := hq.hasPath_of_key k' hmem
    exact ⟨q', k', hq', hk', escapeDelimiter_ne_of_hasDelimiter k' (hdelim.mono hinfix),
      hlength.trans_le hinfix.length_le⟩

theorem unescaped_of_keepsLive (s : FactStore Digest) (hs : KeepsLive s) (p : FactPath)
    (hp : HasPath s p) (k : String) (hk : .key k ∈ p) : escapeDelimiter k = k := by
  obtain ⟨n, hn⟩ := rawPath_bounded s
  -- keys cannot become longer without end
  suffices h : ∀ room p k, HasPath s p → .key k ∈ p → n ≤ k.toList.length + room →
      escapeDelimiter k = k by
    exact h n p k hp hk (by omega)
  intro room
  induction room with
  | zero =>
    intro p k hp hk hroom
    by_contra hne
    obtain ⟨q, k', hq, hk', -, hlt⟩ := exists_longer_key s hs p k hp hk hne
    have hle : k'.toList.length ≤ n := (length_le_rawPath q _ hk').trans (hn q (.inl hq))
    omega
  | succ room ih =>
    intro p k hp hk hroom
    by_contra hne
    obtain ⟨q, k', hq, hk', hne', hlt⟩ := exists_longer_key s hs p k hp hk hne
    exact hne' (ih q k' hq hk' (by omega))

end Delimiters

/-- The collector keeps all live rows and removes all others, indexes past an end aside, exactly
on the factsets that its spelling of paths suits. -/
theorem collects_iff (s : FactStore Digest) : KeepsLive s ∧ RemovesDead s ↔ Collectable s := by
  constructor
  · rintro ⟨hkeeps, hremoves⟩
    have hunescaped := unescaped_of_keepsLive s hkeeps
    have hkeys : ∀ q, Collected s q → ∀ k, .key k ∈ q → escapeDelimiter k = k := by
      intro q hq k hk
      obtain ⟨q', hq', hk'⟩ := hq.hasPath_of_key k hk
      exact hunescaped q' hq' k hk'
    refine ⟨hunescaped, fun p hp _ => ?_, fun p hp _ => ?_⟩
    · obtain ⟨q, hq, he⟩ := (keepsLive_iff s).mp hkeeps p hp
      exact ⟨q, hq, ((factpathToString_eq_rawPath_iff p q (Collected.ne_nil (.inl hp)) hq.ne_nil
        (hkeys q hq)).mp he).symm⟩
    · obtain ⟨q, hq, he⟩ := (removesDead_iff s).mp hremoves p hp
      exact ⟨q, hq, (factpathToString_eq_rawPath_iff q p (ne_nil_of_hasPath_or_pastEnd hq) hp.ne_nil
        (hkeys p hp)).mp he⟩
  · intro h
    have hkeys : ∀ q, Collected s q → ∀ k, .key k ∈ q → escapeDelimiter k = k := by
      intro q hq k hk
      obtain ⟨q', hq', hk'⟩ := hq.hasPath_of_key k hk
      exact h.unescaped q' hq' k hk'
    rw [keepsLive_iff, removesDead_iff]
    refine ⟨fun p hp => ?_, fun q hq => ?_⟩
    · by_cases hdigits : HasDigitKey p
      · obtain ⟨q, hq, he⟩ := h.quoted p hp hdigits
        exact ⟨q, hq, by rw [factpathToString, rawPath, he]⟩
      · refine ⟨p, .inl hp, ?_⟩
        rw [factpathToString, rawPath, map_encode_eq_map_str p (h.unescaped p hp) hdigits]
    · by_cases hdigits : HasDigitKey q
      · obtain ⟨p, hp, he⟩ := h.unquoted q hq hdigits
        exact ⟨p, hp, by rw [factpathToString, rawPath, he]⟩
      · refine ⟨q, hq.hasPath_or_pastEnd, ?_⟩
        rw [factpathToString, rawPath, map_encode_eq_map_str q (hkeys q hq) hdigits]

/-- Keys that are written as they are, are collected as they are written. -/
theorem collectable_of_plain (s : FactStore Digest)
    (h : ∀ p, HasPath s p → ∀ k, .key k ∈ p → encodeFactpathElement (.key k) = k) :
    Collectable s := by
  have hdigits : ∀ k, encodeFactpathElement (.key k) = k → ¬ k.toList.all digit := by
    intro k hk hall
    rw [encodeFactpathElement_key, if_pos hall, quoteIntegerStrings, if_pos hall] at hk
    have := congrArg (fun t : String => t.toList.length) hk
    simp at this
    omega
  have hnone : ∀ q, Collected s q → ¬ HasDigitKey q := by
    rintro q hq ⟨k, hk, hall⟩
    obtain ⟨q', hq', hk'⟩ := hq.hasPath_of_key k hk
    exact hdigits k (h q' hq' k hk') hall
  refine ⟨fun p hp k hk => ?_, fun p hp hk => absurd hk (hnone p (.inl hp)),
    fun p hp hk => absurd hk (hnone p hp)⟩
  have hplain := h p hp k hk
  have hnot := hdigits k hplain
  rwa [encodeFactpathElement_key, if_neg hnot] at hplain

section Writer

mutual

/-- The writer's paths below a value are paths of the facts. -/
theorem valueAt_of_mem_flattenFactsWith (facts : FactMap) (path : FactPath) (v : Json)
    (hv : ValueAt facts path v) (pm : Pathmap) (h : pm ∈ flattenFactsWith pathToPathmap path v) :
    ∃ q w, ValueAt facts q w ∧ pm.path = factpathToString q := by
  cases v with
  | arr xs =>
    cases xs with
    | nil => simp [flattenFactsWith] at h
    | cons x xs =>
      rw [flattenFactsWith, List.mem_append] at h
      rcases h with h | h
      · split at h
        · rw [List.mem_singleton.mp h]
          exact ⟨path, _, hv, rfl⟩
        · simp at h
      · exact valueAt_of_mem_flattenItems facts path (x :: xs) 0 (x :: xs) hv (by simp) pm h
  | obj fields =>
    cases fields with
    | nil => simp [flattenFactsWith] at h
    | cons f fields =>
      rw [flattenFactsWith, List.mem_append] at h
      rcases h with h | h
      · split at h
        · rw [List.mem_singleton.mp h]
          exact ⟨path, _, hv, rfl⟩
        · simp at h
      · exact valueAt_of_mem_flattenFields facts path (f :: fields)
          (fun k w hw => .field path _ k w hv hw) pm h
  | null | bool _ | int _ | float _ _ | str _ =>
    rw [flattenFactsWith, List.mem_singleton] at h
    exact ⟨path, _, hv, h ▸ rfl⟩

theorem valueAt_of_mem_flattenItems (facts : FactMap) (path : FactPath) (xs : List Json) (i : Nat)
    (rest : List Json) (hxs : ValueAt facts path (.arr xs)) (hrest : rest = xs.drop i)
    (pm : Pathmap) (h : pm ∈ flattenItems pathToPathmap path i rest) :
    ∃ q w, ValueAt facts q w ∧ pm.path = factpathToString q := by
  cases rest with
  | nil => simp [flattenItems] at h
  | cons x rest =>
    rw [flattenItems, List.mem_append] at h
    have hx : xs[i]? = some x := by
      rw [← List.head?_drop, ← hrest]
      rfl
    have htail : rest = xs.drop (i + 1) := by
      rw [← List.tail_drop, ← hrest]
      rfl
    rcases h with h | h
    · exact valueAt_of_mem_flattenFactsWith facts (path ++ [.index i]) x
        (.item path xs i x hxs hx) pm h
    · exact valueAt_of_mem_flattenItems facts path xs (i + 1) rest hxs htail pm h

theorem valueAt_of_mem_flattenFields (facts : FactMap) (path : FactPath)
    (fields : List (String × Json))
    (hfields : ∀ k w, (k, w) ∈ fields → ValueAt facts (path ++ [.key k]) w) (pm : Pathmap)
    (h : pm ∈ flattenFields pathToPathmap path fields) :
    ∃ q w, ValueAt facts q w ∧ pm.path = factpathToString q := by
  cases fields with
  | nil => simp [flattenFields] at h
  | cons f fields =>
    obtain ⟨k, v⟩ := f
    rw [flattenFields, List.mem_append] at h
    rcases h with h | h
    · exact valueAt_of_mem_flattenFactsWith facts (path ++ [.key k]) v
        (hfields k v List.mem_cons_self) pm h
    · exact valueAt_of_mem_flattenFields facts path fields
        (fun j w hw => hfields j w (List.mem_cons_of_mem _ hw)) pm h

end

theorem valueAt_of_mem_factsToPathmaps (facts : FactMap) (pm : Pathmap)
    (h : pm ∈ factsToPathmaps facts) : ∃ q w, ValueAt facts q w ∧ pm.path = factpathToString q := by
  refine valueAt_of_mem_flattenFields facts [] facts.toList (fun k w hw => ?_) pm h
  exact .fact k w (Std.ExtTreeMap.mem_toList_iff_getElem?_eq_some.mp hw)

/-- A collection that keeps live rows leaves every stored path covered. -/
theorem pathsCovered_deleteUnusedFactPaths (s : FactStore Digest) (hs : PathsCovered s)
    (hkeeps : KeepsLive s) : PathsCovered (deleteUnusedFactPaths s) := by
  intro certname row hrow pm hpm
  obtain ⟨pm', hpm', hpath, htype⟩ := hs certname row hrow pm hpm
  obtain ⟨q, w, hat, hq⟩ := valueAt_of_mem_factsToPathmaps _ pm hpm
  refine ⟨pm', ?_, hpath, htype⟩
  exact hkeeps s.factPaths pm' hpm' ⟨q, ⟨w, certname, row, hrow, hat⟩, hpath.trans hq⟩

end Writer

/-- Node `n` reports a fact `a` with a number for a key. -/
def numberedFacts (t : Instant) : FactData :=
  ⟨"n", Std.ExtTreeMap.ofList [("a", Json.obj [("1", .str "x")])], t, none, t, none, []⟩

/-- The row of the number is deleted while its fact is stored, and the same facts sent again do
not bring it back. -/
theorem keepsLive_fails :
    (let s := store contentDigests FactStore.empty (numberedFacts 0)
     let collected := deleteUnusedFactPaths s
     s.factPaths.map (·.path) = ["a", factpathToString [.key "a", .key "1"]] ∧
       collected.factPaths.map (·.path) = ["a"] ∧
       (store contentDigests collected (numberedFacts 1)).factPaths.map (·.path) = ["a"]) ∧
    ¬ KeepsLive (store contentDigests FactStore.empty (numberedFacts 0)) := by
  refine ⟨by decide +kernel, fun h => ?_⟩
  have hfact : (store contentDigests FactStore.empty (numberedFacts 0)).factsets["n"]?.map
      (fun row => (row.stable ∪ row.volatile)["a"]?) = some (some (.obj [("1", .str "x")])) := by
    decide +kernel
  obtain ⟨row, hrow, hat⟩ := Option.map_eq_some_iff.mp hfact
  have hlive : HasPath (store contentDigests FactStore.empty (numberedFacts 0))
      [.key "a", .key "1"] :=
    ⟨.str "x", "n", row, hrow, .field [.key "a"] _ "1" _ (.fact "a" _ hat) List.mem_cons_self⟩
  have hmem := (h [rowOf (factpathToString [.key "a", .key "1"])] _ List.mem_cons_self
    ⟨_, hlive, rfl⟩)
  exact absurd hmem (by decide +kernel)

end OpenVoxDB.FactPaths
