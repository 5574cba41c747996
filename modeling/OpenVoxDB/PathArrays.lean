import Mathlib
import OpenVoxDB.InventoryRedirect
import OpenVoxDB.TextArray

/-!
# Paths as array parameters

`strs->db-array` of `jdbc.clj` writes the names on a path as the text of a `text[]`, which
`parse-dot-query` of `query_eng/engine.clj` binds for a path that may go through an array.
-/

namespace OpenVoxDB.PathArrays

open FieldSyntax (parseField)
open QueryExpansion (Part partName)
open InventoryRedirect (maybeIndex)
open TextArray (Reader advance readChars escape)

/-- `(str/replace s "\\" "\\\\")` -/
def doubleBackslashes (chars : List Char) : List Char :=
  chars.flatMap fun c => if c = '\\' then ['\\', '\\'] else [c]

/-- `string->text-array-literal` -/
def stringToTextArrayLiteral (s : String) : List Char :=
  '"' :: (doubleBackslashes s.toList ++ ['"'])

/-- The value of the `text[]` that `strs->db-array` makes. -/
def strsToDbArray (strs : List String) : String :=
  String.ofList
    ('\x7b' :: ([','].intercalate (strs.map stringToTextArrayLiteral) ++ ['\x7d']))

/-- The names on the path of a dotted field. -/
def pathNames (field : String) : Except String (List String) :=
  (parseField false field).map fun parts => parts.tail.filterMap partName

/-- The array that `parse-dot-query` binds, for a path with a name that may be an index. -/
def dotQueryArray (field : String) : Except String (Option String) :=
  (pathNames field).map fun path =>
    if path.any maybeIndex then some (strsToDbArray path) else none

/-- The text is read as an array of the strings. -/
def Denotes (text : String) (strs : List String) : Prop :=
  TextArray.read text = some (strs.map some)

/-- A text that needs no backslash before a double quote and that PostgreSQL takes. -/
def Plain (s : String) : Prop := '"' ∉ s.toList ∧ '\x00' ∉ s.toList

/-- An array that the field binds is read as the path of the field. -/
def LooksUp (field : String) : Prop :=
  ∀ names text, pathNames field = .ok names → dotQueryArray field = .ok (some text) →
    Denotes text names

/-! ## Reading the array -/

theorem doubleBackslashes_eq (chars : List Char) (h : '"' ∉ chars) :
    doubleBackslashes chars = escape chars := by
  induction chars with
  | nil => rfl
  | cons c chars ih =>
    rw [List.mem_cons, not_or] at h
    have hc : c ≠ '"' := fun he => h.1 he.symm
    have hrest := ih h.2
    rw [doubleBackslashes, escape] at hrest ⊢
    rw [List.flatMap_cons, List.flatMap_cons, hrest]
    by_cases hs : c = '\\'
    · simp [hs]
    · simp [hs, hc]

/-- The text up to the first double quote. -/
theorem doubleBackslashes_split (chars : List Char) (h : '"' ∈ chars) :
    ∃ name rest, name.length < chars.length ∧
      doubleBackslashes chars = escape name ++ '"' :: rest := by
  obtain ⟨name, rest, hsplit, hname⟩ := List.eq_append_cons_of_mem h
  refine ⟨name, doubleBackslashes rest, ?_, ?_⟩
  · rw [hsplit]
    simp
  · rw [hsplit, ← doubleBackslashes_eq name hname]
    simp [doubleBackslashes]

/-- The text behind the first item. -/
def laterItems : List String → List Char
  | [] => ['\x7d']
  | s :: strs => ',' :: (stringToTextArrayLiteral s ++ laterItems strs)

theorem intercalate_eq (s : String) (strs : List String) :
    [','].intercalate ((s :: strs).map stringToTextArrayLiteral) ++ ['\x7d'] =
      stringToTextArrayLiteral s ++ laterItems strs := by
  induction strs generalizing s with
  | nil => simp [laterItems, List.intercalate]
  | cons t strs ih =>
    have hcons : [','].intercalate ((s :: t :: strs).map stringToTextArrayLiteral) =
        stringToTextArrayLiteral s ++
          ',' :: [','].intercalate ((t :: strs).map stringToTextArrayLiteral) := by
      simp [List.intercalate]
    rw [hcons, laterItems, ← ih t]
    simp

/-- An item is read as the string or as a shorter one. -/
theorem advance_literal (phase : TextArray.Phase) (hphase : phase = .opened ∨ phase = .next)
    (s : String) (rest : List Char) (items : List (Option (List Char))) :
    ('"' ∉ s.toList ∧ advance ⟨items, phase⟩ (stringToTextArrayLiteral s ++ rest) =
      advance ⟨items, .closed s.toList⟩ rest) ∨
    ('"' ∈ s.toList ∧ ∃ (name rest' : List Char), name ≠ s.toList ∧
      advance ⟨items, phase⟩ (stringToTextArrayLiteral s ++ rest) =
        advance ⟨items, .closed name⟩ rest') := by
  by_cases h : '"' ∈ s.toList
  · apply Or.inr
    obtain ⟨name, rest', hlt, hsplit⟩ := doubleBackslashes_split s.toList h
    refine ⟨h, name, rest' ++ '"' :: rest, ?_, ?_⟩
    · intro he
      rw [he] at hlt
      exact lt_irrefl _ hlt
    · rw [stringToTextArrayLiteral, hsplit]
      simpa using TextArray.advance_quotes phase hphase name (rest' ++ '"' :: rest) items
  · apply Or.inl
    refine ⟨h, ?_⟩
    rw [stringToTextArrayLiteral, doubleBackslashes_eq s.toList h]
    simpa using TextArray.advance_quotes phase hphase s.toList rest items

/-- Behind an item, the rest is read as the strings exactly when none has a double quote. -/
theorem advance_laterItems (strs : List String) (item : List Char)
    (items : List (Option (List Char))) :
    (advance ⟨items, .closed item⟩ (laterItems strs)).bind Reader.result =
        some (items ++ some item :: strs.map fun s => some s.toList) ↔
      ∀ s ∈ strs, '"' ∉ s.toList := by
  induction strs generalizing item items with
  | nil => simp [laterItems, TextArray.step, TextArray.endItem, TextArray.isSpace, Reader.result]
  | cons s strs ih =>
    have hcomma : ∀ chars, advance ⟨items, .closed item⟩ (',' :: chars) =
        advance ⟨items ++ [some item], .next⟩ chars := by
      intro chars
      simp [TextArray.step, TextArray.endItem, TextArray.isSpace]
    have hitems : items ++ some item :: (s :: strs).map (fun s => some s.toList) =
        (items ++ [some item]) ++ some s.toList :: strs.map fun s => some s.toList := by simp
    rw [laterItems, hcomma, hitems]
    obtain ⟨hs, hadvance⟩ | ⟨hs, name, rest, hne, hadvance⟩ :=
      advance_literal .next (Or.inr rfl) s (laterItems strs) (items ++ [some item])
    · rw [hadvance, ih]
      simp [hs]
    · rw [hadvance]
      constructor
      · intro hread
        obtain ⟨later, hlater⟩ := TextArray.advance_closed rest name _ _ hread
        rw [List.append_assoc] at hlater
        have hcons := List.append_cancel_left hlater
        simp only [List.singleton_append, List.cons.injEq, Option.some.injEq] at hcons
        exact absurd hcons.1 hne
      · intro hall
        exact absurd hs (hall s (by simp))

theorem readChars_strsToDbArray (strs : List String) :
    readChars (strsToDbArray strs).toList = some (strs.map fun s => some s.toList) ↔
      ∀ s ∈ strs, '"' ∉ s.toList := by
  have hopen : ∀ chars, (('\x7b' :: chars).foldlM TextArray.step ⟨[], .start⟩) =
      advance ⟨[], .opened⟩ chars := by
    intro chars
    rfl
  rw [strsToDbArray, String.toList_ofList, readChars, hopen]
  cases strs with
  | nil => simp [TextArray.step, TextArray.isSpace, List.intercalate, Reader.result]
  | cons s strs =>
    rw [intercalate_eq]
    obtain ⟨hs, hadvance⟩ | ⟨hs, name, rest, hne, hadvance⟩ :=
      advance_literal .opened (Or.inl rfl) s (laterItems strs) []
    · have hlater := advance_laterItems strs s.toList []
      rw [hadvance]
      simpa [hs] using hlater
    · rw [hadvance]
      constructor
      · intro hread
        obtain ⟨later, hlater⟩ := TextArray.advance_closed rest name [] _ hread
        simp only [List.nil_append, List.singleton_append, List.map_cons, List.cons.injEq,
          Option.some.injEq] at hlater
        exact absurd hlater.1 hne
      · intro hall
        exact absurd hs (hall s (by simp))

theorem nul_mem_literal (s : String) :
    '\x00' ∈ stringToTextArrayLiteral s ↔ '\x00' ∈ s.toList := by
  simp only [stringToTextArrayLiteral, List.mem_cons, List.mem_append,
    doubleBackslashes, List.mem_flatMap]
  constructor
  · intro h
    obtain h | ⟨c, hc, h⟩ | h := h
    · exact absurd h (by decide)
    · split at h
      · simp at h
      · rw [List.mem_singleton.mp h]
        exact hc
    · exact absurd h (by decide)
  · intro h
    exact Or.inr (Or.inl ⟨'\x00', h, by simp⟩)

theorem nul_mem_laterItems (strs : List String) :
    '\x00' ∈ laterItems strs ↔ ∃ s ∈ strs, '\x00' ∈ s.toList := by
  induction strs with
  | nil => simp [laterItems]
  | cons s strs ih => simp [laterItems, nul_mem_literal, ih]

theorem nul_mem_strsToDbArray (strs : List String) :
    '\x00' ∈ (strsToDbArray strs).toList ↔ ∃ s ∈ strs, '\x00' ∈ s.toList := by
  rw [strsToDbArray, String.toList_ofList]
  cases strs with
  | nil => simp [List.intercalate]
  | cons s strs =>
    rw [intercalate_eq]
    simp [nul_mem_literal, nul_mem_laterItems]

/-- Items are read as strings when their characters are. -/
theorem map_ofList_eq (items : List (Option (List Char))) (strs : List String) :
    items.map (fun item => item.map String.ofList) = strs.map some ↔
      items = strs.map fun s => some s.toList := by
  constructor
  · intro h
    have hback := congrArg (List.map fun item : Option String => item.map String.toList) h
    simpa [List.map_map, Function.comp_def] using hback
  · intro h
    simp [h, Function.comp_def]

theorem denotes_iff (strs : List String) :
    Denotes (strsToDbArray strs) strs ↔ ∀ s ∈ strs, Plain s := by
  have hread : Denotes (strsToDbArray strs) strs ↔ '\x00' ∉ (strsToDbArray strs).toList ∧
      readChars (strsToDbArray strs).toList = some (strs.map fun s => some s.toList) := by
    unfold Denotes TextArray.read
    split
    · rename_i hnul
      simp [hnul]
    · rename_i hnul
      rw [Option.map_eq_some_iff]
      simp [hnul, map_ofList_eq]
  rw [hread, readChars_strsToDbArray, nul_mem_strsToDbArray]
  constructor
  · intro ⟨hnul, hquote⟩ s hs
    exact ⟨hquote s hs, fun h => hnul ⟨s, hs, h⟩⟩
  · intro h
    exact ⟨fun ⟨s, hs, hnul⟩ => (h s hs).2 hnul, fun s hs => (h s hs).1⟩

/-- Strings are read back exactly when none has a double quote or NUL, and so for the names on
the path of a field that binds an array. -/
theorem strsToDbArray_iff (strs : List String) (field : String) :
    (Denotes (strsToDbArray strs) strs ↔ ∀ s ∈ strs, Plain s) ∧
      (LooksUp field ↔ ∀ names, pathNames field = .ok names →
        names.any maybeIndex → ∀ s ∈ names, Plain s) := by
  refine ⟨denotes_iff strs, ?_⟩
  constructor
  · intro h names hnames hindex
    have hbound : dotQueryArray field = .ok (some (strsToDbArray names)) := by
      rw [dotQueryArray, hnames]
      simp only [Except.map, hindex, if_true]
    exact (denotes_iff names).mp (h names _ hnames hbound)
  · intro h names text hnames hbound
    rw [dotQueryArray, hnames] at hbound
    simp only [Except.map, Except.ok.injEq] at hbound
    split at hbound
    · rename_i hindex
      cases hbound
      exact (denotes_iff names).mpr (h names hnames hindex)
    · simp at hbound

theorem strsToDbArray_fails :
    ¬ ∀ strs : List String, Denotes (strsToDbArray strs) strs := by
  intro h
  have hread := h ["a\"b", "5"]
  have hnone : TextArray.read (strsToDbArray ["a\"b", "5"]) = none := by decide +kernel
  rw [Denotes, hnone] at hread
  simp at hread

end OpenVoxDB.PathArrays
