import Mathlib

/-!
# Text arrays

How PostgreSQL reads the text form of a one-dimensional `text[]`, a character at a time: items
between braces and commas, in double quotes or bare, where a backslash takes the character
behind it as it is.
-/

namespace OpenVoxDB.TextArray

inductive Phase where
  | start
  | opened
  | next
  | quoted (chars : List Char)
  | quotedEscape (chars : List Char)
  | closed (chars : List Char)
  /-- The characters of an item without quotes, each with whether it was behind a backslash. -/
  | bare (chars : List (Char × Bool))
  | bareEscape (chars : List (Char × Bool))
  | ended
  deriving DecidableEq

/-- The items that are complete, where `none` is a null. -/
structure Reader where
  items : List (Option (List Char))
  phase : Phase
  deriving DecidableEq

def isSpace (c : Char) : Bool := c ∈ [' ', '\t', '\n', '\r', '\x0b', '\x0c']

/-- An item without quotes: white space at its end does not count, and `NULL` is a null. -/
def bareItem (chars : List (Char × Bool)) : Option (List Char) :=
  let item := chars.rdropWhile fun p => isSpace p.1 && !p.2
  if item.all (!·.2) ∧ item.map (·.1.toLower) = "null".toList then none
  else some (item.map (·.1))

/-- The first character of an item. An inner array is no text. -/
def beginItem (r : Reader) (c : Char) : Option Reader :=
  if c = '"' then some { r with phase := .quoted [] }
  else if c = '\\' then some { r with phase := .bareEscape [] }
  else if c ∈ [',', '\x7b', '\x7d'] then none
  else some { r with phase := .bare [(c, false)] }

/-- A character behind an item. -/
def endItem (items : List (Option (List Char))) (item : Option (List Char)) (c : Char) :
    Option Reader :=
  if c = ',' then some ⟨items ++ [item], .next⟩
  else if c = '\x7d' then some ⟨items ++ [item], .ended⟩
  else none

def step (r : Reader) (c : Char) : Option Reader :=
  match r.phase with
  | .start =>
    if isSpace c then some r
    else if c = '\x7b' then some { r with phase := .opened }
    else none
  | .opened =>
    if isSpace c then some r
    else if c = '\x7d' then some { r with phase := .ended }
    else beginItem r c
  | .next => if isSpace c then some r else beginItem r c
  | .quoted chars =>
    if c = '\\' then some { r with phase := .quotedEscape chars }
    else if c = '"' then some { r with phase := .closed chars }
    else some { r with phase := .quoted (chars ++ [c]) }
  | .quotedEscape chars => some { r with phase := .quoted (chars ++ [c]) }
  | .closed chars => if isSpace c then some r else endItem r.items (some chars) c
  | .bare chars =>
    if c = '\\' then some { r with phase := .bareEscape chars }
    else if c = '"' ∨ c = '\x7b' then none
    else if c = ',' ∨ c = '\x7d' then endItem r.items (bareItem chars) c
    else some { r with phase := .bare (chars ++ [(c, false)]) }
  | .bareEscape chars => some { r with phase := .bare (chars ++ [(c, true)]) }
  | .ended => if isSpace c then some r else none

/-- The items of a text that is read to its end. -/
def Reader.result (r : Reader) : Option (List (Option (List Char))) :=
  if r.phase = .ended then some r.items else none

def readChars (chars : List Char) : Option (List (Option (List Char))) :=
  (chars.foldlM step ⟨[], .start⟩).bind Reader.result

/-- The array a text denotes, which a text with NUL is not. -/
def read (text : String) : Option (List (Option String)) :=
  if '\x00' ∈ text.toList then none
  else (readChars text.toList).map fun items => items.map fun item => item.map String.ofList

example : read "\x7b \"a,\\\"b\" , Null,x\\,y\x7d " =
    some [some "a,\"b", none, some "x,y"] := by decide +kernel

example : read "\x7b\"a\"b\x7d" = none := by decide +kernel

/-! ## Items in quotes -/

/-- What quotes leave: a backslash before each double quote and each backslash. -/
def escape (chars : List Char) : List Char :=
  chars.flatMap fun c => if c = '"' ∨ c = '\\' then ['\\', c] else [c]

/-- Reading on from a reader. -/
def advance (r : Reader) (chars : List Char) : Option Reader := chars.foldlM step r

@[simp] theorem advance_nil (r : Reader) : advance r [] = some r := rfl

@[simp] theorem advance_cons (r : Reader) (c : Char) (chars : List Char) :
    advance r (c :: chars) = (step r c).bind fun r' => advance r' chars := rfl

theorem advance_append (r : Reader) (chars chars' : List Char) :
    advance r (chars ++ chars') = (advance r chars).bind fun r' => advance r' chars' := by
  rw [advance, List.foldlM_append]
  rfl

/-- A character of a quoted item that stands for itself. -/
theorem step_quoted (items : List (Option (List Char))) (chars : List Char) (c : Char)
    (hquote : c ≠ '"') (hslash : c ≠ '\\') :
    step ⟨items, .quoted chars⟩ c = some ⟨items, .quoted (chars ++ [c])⟩ := by
  simp [step, hquote, hslash]

theorem endItem_items (items : List (Option (List Char))) (item : Option (List Char)) (c : Char)
    (r : Reader) (h : endItem items item c = some r) : r.items = items ++ [item] := by
  unfold endItem at h
  split at h
  · cases h
    rfl
  · split at h
    · cases h
      rfl
    · simp at h

theorem beginItem_items (r r' : Reader) (c : Char) (h : beginItem r c = some r') :
    r'.items = r.items := by
  unfold beginItem at h
  split at h
  · cases h
    rfl
  · split at h
    · cases h
      rfl
    · split at h
      · simp at h
      · cases h
        rfl

/-- A step leaves the items that are complete. -/
theorem step_items (r r' : Reader) (c : Char) (h : step r c = some r') :
    r.items <+: r'.items := by
  obtain ⟨items, phase⟩ := r
  have hsame : ∀ {phase' : Phase}, some (⟨items, phase'⟩ : Reader) = some r' →
      items <+: r'.items := by
    intro phase' hr
    cases hr
    exact List.prefix_refl items
  have hend : ∀ {item : Option (List Char)}, endItem items item c = some r' →
      items <+: r'.items := by
    intro item hr
    rw [endItem_items items item c r' hr]
    exact List.prefix_append items [item]
  have hbegin : ∀ {phase' : Phase}, beginItem ⟨items, phase'⟩ c = some r' →
      items <+: r'.items := by
    intro phase' hr
    rw [beginItem_items _ r' c hr]
  cases phase with
  | start =>
    simp only [step] at h
    split at h
    · exact hsame h
    · split at h
      · exact hsame h
      · simp at h
  | opened =>
    simp only [step] at h
    split at h
    · exact hsame h
    · split at h
      · exact hsame h
      · exact hbegin h
  | next =>
    simp only [step] at h
    split at h
    · exact hsame h
    · exact hbegin h
  | quoted chars =>
    simp only [step] at h
    split at h
    · exact hsame h
    · split at h
      · exact hsame h
      · exact hsame h
  | quotedEscape chars => exact hsame h
  | closed chars =>
    simp only [step] at h
    split at h
    · exact hsame h
    · exact hend h
  | bare chars =>
    simp only [step] at h
    split at h
    · exact hsame h
    · split at h
      · simp at h
      · split at h
        · exact hend h
        · exact hsame h
  | bareEscape chars => exact hsame h
  | ended =>
    simp only [step] at h
    split at h
    · exact hsame h
    · simp at h

theorem advance_items (chars : List Char) (r r' : Reader) (h : advance r chars = some r') :
    r.items <+: r'.items := by
  induction chars generalizing r with
  | nil =>
    cases h
    exact List.prefix_refl _
  | cons c chars ih =>
    rw [advance_cons, Option.bind_eq_some_iff] at h
    obtain ⟨r'', hstep, hadvance⟩ := h
    exact (step_items r r'' c hstep).trans (ih r'' hadvance)

/-- An item whose quotes are closed is the next item, or there is no array. -/
theorem advance_closed (chars item : List Char) (items result : List (Option (List Char)))
    (h : (advance ⟨items, .closed item⟩ chars).bind Reader.result = some result) :
    items ++ [some item] <+: result := by
  induction chars with
  | nil => simp [Reader.result] at h
  | cons c chars ih =>
    rw [advance_cons] at h
    by_cases hs : isSpace c
    · have hstep : step ⟨items, .closed item⟩ c = some ⟨items, .closed item⟩ := by
        simp [step, hs]
      rw [hstep] at h
      exact ih h
    · have hstep : step ⟨items, .closed item⟩ c = endItem items (some item) c := by
        simp [step, hs]
      rw [hstep, Option.bind_eq_some_iff] at h
      obtain ⟨r', hadvance, hresult⟩ := h
      rw [Option.bind_eq_some_iff] at hadvance
      obtain ⟨r, hend, hadvance⟩ := hadvance
      have hitems := advance_items chars r r' hadvance
      rw [endItem_items items (some item) c r hend] at hitems
      unfold Reader.result at hresult
      split at hresult
      · cases hresult
        exact hitems
      · simp at hresult

/-- Escaped characters are read back within quotes. -/
theorem advance_escape (chars item : List Char) (items : List (Option (List Char))) :
    advance ⟨items, .quoted item⟩ (escape chars) = some ⟨items, .quoted (item ++ chars)⟩ := by
  induction chars generalizing item with
  | nil => simp [escape]
  | cons c chars ih =>
    have hcons : escape (c :: chars) =
        (if c = '"' ∨ c = '\\' then ['\\', c] else [c]) ++ escape chars := by simp [escape]
    rw [hcons, advance_append]
    by_cases hc : c = '"' ∨ c = '\\'
    · rw [if_pos hc]
      simp [step, ih]
    · obtain ⟨hquote, hslash⟩ := not_or.mp hc
      rw [if_neg hc, advance_cons, step_quoted items item c hquote hslash]
      simp [ih]

/-- An item in quotes where an item may begin. -/
theorem advance_quotes (phase : Phase) (hphase : phase = .opened ∨ phase = .next)
    (chars rest : List Char) (items : List (Option (List Char))) :
    advance ⟨items, phase⟩ ('"' :: (escape chars ++ '"' :: rest)) =
      advance ⟨items, .closed chars⟩ rest := by
  have hbegin : step ⟨items, phase⟩ '"' = some ⟨items, .quoted []⟩ := by
    obtain rfl | rfl := hphase
    · rfl
    · rfl
  rw [advance_cons, hbegin, Option.bind_some, advance_append, advance_escape]
  simp [step]

end OpenVoxDB.TextArray
