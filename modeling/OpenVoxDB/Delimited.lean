import Mathlib

/-!
# Lists joined by a delimiter of two different symbols

Segments that do not contain the delimiter can be read back from the joined
list: the delimiter cannot start inside a segment and end in the next one.
-/

namespace OpenVoxDB.Delimited

variable {α : Type}

/-- The two symbols of the delimiter do not follow each other. -/
def Clean (a b : α) (xs : List α) : Prop := xs.IsChain fun c d => ¬ (c = a ∧ d = b)

theorem Clean.cons_of_ne {a b c : α} {xs : List α} (hc : c ≠ a) (h : Clean a b xs) :
    Clean a b (c :: xs) :=
  List.isChain_cons.mpr ⟨fun _ _ hdelim => hc hdelim.1, h⟩

theorem clean_append_of_not_mem {a b : α} (xs ys : List α) (hxs : a ∉ xs) (h : Clean a b ys) :
    Clean a b (xs ++ ys) := by
  induction xs with
  | nil => exact h
  | cons x xs ih =>
    exact (ih fun hmem => hxs (List.mem_cons_of_mem _ hmem)).cons_of_ne
      fun hx => hxs (hx ▸ List.mem_cons_self)

/-- Put a symbol before the first segment. -/
def consFirst (c : α) : List (List α) → List (List α)
  | [] => [[c]]
  | seg :: segs => (c :: seg) :: segs

theorem consFirst_append (c : α) (segs segs' : List (List α)) (h : segs ≠ []) :
    consFirst c (segs ++ segs') = consFirst c segs ++ segs' := by
  cases segs with
  | nil => exact absurd rfl h
  | cons seg segs => rfl

theorem infix_intercalate (sep : List α) (parts : List (List α)) (part : List α)
    (h : part ∈ parts) : part <:+: sep.intercalate parts := by
  induction parts with
  | nil => simp at h
  | cons first parts ih =>
    cases parts with
    | nil => simp_all
    | cons next parts =>
      rw [List.intercalate_cons_cons, List.append_assoc]
      rcases List.mem_cons.mp h with rfl | h
      · exact (List.prefix_append _ _).isInfix
      · exact (ih h).trans ((List.suffix_append _ _).isInfix.trans (List.suffix_append _ _).isInfix)

variable [DecidableEq α]

/-- What stands between the delimiters. -/
def segments (a b : α) : List α → List (List α)
  | [] => [[]]
  | [c] => [[c]]
  | c :: d :: xs =>
    if c = a ∧ d = b then [] :: segments a b xs else consFirst c (segments a b (d :: xs))

theorem segments_ne_nil (a b : α) (xs : List α) : segments a b xs ≠ [] := by
  cases xs with
  | nil => simp [segments]
  | cons c xs =>
    cases xs with
    | nil => simp [segments]
    | cons d xs =>
      rw [segments]
      split
      · simp
      · cases segments a b (d :: xs) <;> simp [consFirst]

theorem segments_append (a b : α) (hab : a ≠ b) (xs ys : List α) :
    segments a b (xs ++ a :: b :: ys) = segments a b xs ++ segments a b ys := by
  induction xs using segments.induct a b with
  | case1 => simp [segments]
  | case2 c => simp [segments, hab, consFirst]
  | case3 c d xs hdelim ih =>
    obtain ⟨rfl, rfl⟩ := hdelim
    simp [segments, ih]
  | case4 c d xs hnot ih =>
    rw [List.cons_append, List.cons_append, segments, segments, if_neg hnot, if_neg hnot,
      ← consFirst_append c _ _ (segments_ne_nil a b (d :: xs)), ← ih, List.cons_append]

theorem segments_of_clean (a b : α) (xs : List α) (h : Clean a b xs) :
    segments a b xs = [xs] := by
  induction xs using segments.induct a b with
  | case1 => rfl
  | case2 c => rfl
  | case3 c d xs hdelim ih => exact absurd hdelim (List.isChain_cons_cons.mp h).1
  | case4 c d xs hnot ih =>
    rw [segments, if_neg hnot, ih (List.isChain_cons_cons.mp h).2]
    rfl

theorem infix_of_mem_segments (a b : α) (xs seg : List α) (h : seg ∈ segments a b xs) :
    seg <:+: xs := by
  -- the first segment is a prefix, the others lie behind it
  suffices hfirst : ∀ xs : List α, ∃ seg segs, segments a b xs = seg :: segs ∧ seg <+: xs ∧
      ∀ s ∈ segs, s <:+: xs by
    obtain ⟨first, segs, he, hstarts, hrest⟩ := hfirst xs
    rw [he] at h
    rcases List.mem_cons.mp h with rfl | h
    · exact hstarts.isInfix
    · exact hrest seg h
  intro xs
  induction xs using segments.induct a b with
  | case1 => exact ⟨[], [], rfl, List.prefix_refl _, by simp⟩
  | case2 c => exact ⟨[c], [], rfl, List.prefix_refl _, by simp⟩
  | case3 c d xs hdelim ih =>
    obtain ⟨first, segs, he, hstarts, hrest⟩ := ih
    refine ⟨[], first :: segs, by rw [segments, if_pos hdelim, he], List.nil_prefix, ?_⟩
    have htail : xs <:+: c :: d :: xs := ⟨[c, d], [], by simp⟩
    intro s hs
    rcases List.mem_cons.mp hs with rfl | hs
    · exact hstarts.isInfix.trans htail
    · exact (hrest s hs).trans htail
  | case4 c d xs hnot ih =>
    obtain ⟨first, segs, he, hstarts, hrest⟩ := ih
    refine ⟨c :: first, segs, by rw [segments, if_neg hnot, he]; rfl,
      List.cons_prefix_cons.mpr ⟨rfl, hstarts⟩, fun s hs => ?_⟩
    exact (hrest s hs).trans ⟨[c], [], by simp⟩

/-- The segments of a joined list are those of its parts. -/
theorem segments_intercalate (a b : α) (hab : a ≠ b) (parts : List (List α)) (h : parts ≠ []) :
    segments a b ([a, b].intercalate parts) = parts.flatMap (segments a b) := by
  induction parts with
  | nil => exact absurd rfl h
  | cons part parts ih =>
    cases parts with
    | nil => simp
    | cons next parts =>
      rw [List.intercalate_cons_cons, List.append_assoc, List.cons_append, List.cons_append,
        List.nil_append, segments_append a b hab, ih (by simp)]
      rfl

theorem segments_intercalate_of_clean (a b : α) (hab : a ≠ b) (parts : List (List α))
    (h : parts ≠ []) (hclean : ∀ part ∈ parts, Clean a b part) :
    segments a b ([a, b].intercalate parts) = parts := by
  rw [segments_intercalate a b hab parts h,
    List.flatMap_congr fun part hpart => segments_of_clean a b part (hclean part hpart)]
  simp

end OpenVoxDB.Delimited
