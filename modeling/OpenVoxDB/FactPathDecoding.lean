import Mathlib
import OpenVoxDB.FactPathEncoding

/-!
# Decoding fact paths

`string-to-factpath` splits the string at the delimiters and reads each segment
as a number, as a number in quotes or as an escaped key.
-/

namespace OpenVoxDB.FactPaths

open Delimited

/-- The groups of `(\\*)\\#(\\*)\\~` where it matches at the start, and the rest. -/
def matchEscaped (cs : List Char) : Option (List Char × List Char × List Char) :=
  match cs.takeWhile (· = '\\'), cs.dropWhile (· = '\\') with
  | _ :: left, '#' :: rest =>
    match rest.takeWhile (· = '\\'), rest.dropWhile (· = '\\') with
    | _ :: right, '~' :: rest' => some (left, right, rest')
    | _, _ => none
  | _, _ => none

/-- Take a backslash from both groups of every match, from left to right. -/
def unescapeMatches : Nat → List Char → List Char
  | 0, cs => cs
  | _, [] => []
  | n + 1, c :: cs =>
    match matchEscaped (c :: cs) with
    | some (left, right, rest) => left ++ '#' :: (right ++ '~' :: unescapeMatches n rest)
    | none => c :: unescapeMatches n cs

def unescapeDelimiter (segment : List Char) : String :=
  String.ofList (unescapeMatches segment.length segment)

/-- The zeros of the decimal digits of Unicode, among the characters of 16 bits. -/
def digitZeros : List Nat :=
  [0x30, 0x660, 0x6F0, 0x7C0, 0x966, 0x9E6, 0xA66, 0xAE6, 0xB66, 0xBE6, 0xC66, 0xCE6, 0xD66, 0xDE6,
    0xE50, 0xED0, 0xF20, 0x1040, 0x1090, 0x17E0, 0x1810, 0x1946, 0x19D0, 0x1A80, 0x1A90, 0x1B50,
    0x1BB0, 0x1C40, 0x1C50, 0xA620, 0xA8D0, 0xA900, 0xA9D0, 0xA9F0, 0xAA50, 0xABF0, 0xFF10]

/-- `Character.digit`, which knows more digits than the regular expressions and `digit?`. -/
def characterDigit (c : Char) : Option Nat :=
  (digitZeros.find? fun start => start ≤ c.toNat && c.toNat < start + 10).map fun start =>
    c.toNat - start

/-- `Long.valueOf` of a text without a sign. -/
def longValueOf (cs : List Char) : Option Nat := do
  let digits ← cs.mapM characterDigit
  let n := digits.foldl (fun n d => 10 * n + d) 0
  if cs ≠ [] ∧ n < 2 ^ 63 then some n else none

/-- `str->num` of a text that is not empty. -/
def strToNum (cs : List Char) : Option Nat :=
  if cs.head?.any digit then longValueOf cs else none

/-- What stands between the quotes where `^"\d+"$` matches. -/
def quotedNumber : List Char → Option (List Char)
  | '"' :: cs =>
    if cs.getLast? = some '"' ∧ cs.dropLast ≠ [] ∧ cs.dropLast.all digit then some cs.dropLast
    else none
  | _ => none

/-- `unencode-path-segment`, which fails on the empty segment. -/
def unencodePathSegment (segment : List Char) : Option Element :=
  if segment.isEmpty then none
  else match strToNum segment with
    | some n => some (.index n)
    | none =>
      match quotedNumber segment with
      | some digits => some (.key (String.ofList digits))
      | none => some (.key (unescapeDelimiter segment))

/-- `(str/split s #"#~")`, without the empty segments at the end. -/
def splitDelimiter (s : String) : List (List Char) :=
  let parts := segments '#' '~' s.toList
  if parts.length = 1 then parts else (parts.reverse.dropWhile List.isEmpty).reverse

/-- `string-to-factpath` -/
def stringToFactpath (s : String) : Option FactPath := (splitDelimiter s).mapM unencodePathSegment

/-! ## Escapes are taken back -/

/-- Backslashes, a number sign, backslashes and a tilde. -/
theorem matchEscaped_of_slashes (left right rest : List Char) (hleft : ∀ c ∈ left, c = '\\')
    (hright : ∀ c ∈ right, c = '\\') :
    matchEscaped ('\\' :: left ++ '#' :: ('\\' :: right ++ '~' :: rest)) =
      some (left, right, rest) := by
  have htake : ∀ (slashes others : List Char) (c : Char), c ≠ '\\' → (∀ c ∈ slashes, c = '\\') →
      ('\\' :: slashes ++ c :: others).takeWhile (· = '\\') = '\\' :: slashes ∧
        ('\\' :: slashes ++ c :: others).dropWhile (· = '\\') = c :: others := by
    intro slashes others c hc hslashes
    constructor
    · rw [List.takeWhile_append_of_pos (by simpa using hslashes)]
      simp [hc]
    · rw [List.dropWhile_append_of_pos (by simpa using hslashes)]
      simp [hc]
  obtain ⟨htake₁, hdrop₁⟩ := htake left ('\\' :: right ++ '~' :: rest) '#' (by decide) hleft
  obtain ⟨htake₂, hdrop₂⟩ := htake right rest '~' (by decide) hright
  rw [matchEscaped, htake₁, hdrop₁]
  simp only
  rw [htake₂, hdrop₂]
  simp only

/-- Backslashes before anything but a number sign are no match. -/
theorem matchEscaped_of_dropWhile (cs : List Char)
    (h : (cs.dropWhile (· = '\\')).head? ≠ some '#') : matchEscaped cs = none := by
  rw [matchEscaped]
  split
  · next hdrop => exact absurd (by rw [hdrop]; rfl) h
  · rfl

theorem matchEscaped_of_ne (c : Char) (cs : List Char) (h : c ≠ '\\') :
    matchEscaped (c :: cs) = none := by
  simp [matchEscaped, h]

/-- What a match takes off the text. -/
theorem matchEscaped_spec (cs left right rest : List Char)
    (h : matchEscaped cs = some (left, right, rest)) :
    cs = '\\' :: left ++ '#' :: '\\' :: right ++ '~' :: rest ∧ (∀ c ∈ left, c = '\\') ∧
      ∀ c ∈ right, c = '\\' := by
  rw [matchEscaped] at h
  split at h
  · next l tail htake hdrop =>
    split at h
    · next r rest' htake' hdrop' =>
      simp only [Option.some.injEq, Prod.mk.injEq] at h
      obtain ⟨rfl, rfl, rfl⟩ := h
      have hhead : ∀ d ds, (d :: ds : List Char) = cs.takeWhile (· = '\\') ∨
          d :: ds = tail.takeWhile (· = '\\') → d = '\\' ∧ ∀ c ∈ ds, c = '\\' := by
        intro d ds hds
        have hall : ∀ c ∈ d :: ds, c = '\\' := by
          intro c hc
          obtain hds | hds := hds
          · rw [hds] at hc
            simpa using List.mem_takeWhile_imp hc
          · rw [hds] at hc
            simpa using List.mem_takeWhile_imp hc
        exact ⟨hall d (by simp), fun c hc => hall c (by simp [hc])⟩
      obtain ⟨rfl, hleft⟩ := hhead _ _ (.inl htake.symm)
      obtain ⟨rfl, hright⟩ := hhead _ _ (.inr htake'.symm)
      have hcs := List.takeWhile_append_dropWhile (p := (· = '\\')) (l := cs)
      have htail := List.takeWhile_append_dropWhile (p := (· = '\\')) (l := tail)
      rw [htake, hdrop] at hcs
      rw [htake', hdrop'] at htail
      exact ⟨by rw [← hcs, ← htail]; simp, hleft, hright⟩
    · cases h
  · cases h

theorem length_of_matchEscaped (cs left right rest : List Char)
    (h : matchEscaped cs = some (left, right, rest)) : rest.length < cs.length := by
  obtain ⟨rfl, -, -⟩ := matchEscaped_spec cs left right rest h
  simp only [List.length_append, List.length_cons]
  omega

/-- Fuel for each character is enough. -/
theorem unescapeMatches_congr (n m : Nat) (cs : List Char) (hn : cs.length ≤ n)
    (hm : cs.length ≤ m) : unescapeMatches n cs = unescapeMatches m cs := by
  induction n generalizing m cs with
  | zero =>
    rw [List.eq_nil_of_length_eq_zero (Nat.le_zero.mp hn)]
    cases m <;> simp [unescapeMatches]
  | succ n ih =>
    cases cs with
    | nil => cases m <;> simp [unescapeMatches]
    | cons c cs =>
      obtain ⟨m, rfl⟩ : ∃ k, m = k + 1 := Nat.exists_eq_succ_of_ne_zero (by simp at hm; omega)
      simp only [List.length_cons, Nat.add_le_add_iff_right] at hn hm
      simp only [unescapeMatches]
      cases hmatch : matchEscaped (c :: cs) with
      | none => simp only [ih m cs hn hm]
      | some groups =>
        obtain ⟨left, right, rest⟩ := groups
        have hlt := length_of_matchEscaped _ _ _ _ hmatch
        simp only [List.length_cons] at hlt
        simp only [ih m rest (by omega) (by omega)]

/-- `unescape-delimiter` on characters. -/
def unescape (cs : List Char) : List Char := unescapeMatches cs.length cs

theorem unescape_of_none (c : Char) (cs : List Char) (h : matchEscaped (c :: cs) = none) :
    unescape (c :: cs) = c :: unescape cs := by
  simp only [unescape, List.length_cons, unescapeMatches, h]

theorem unescape_of_some (cs left right rest : List Char)
    (h : matchEscaped cs = some (left, right, rest)) :
    unescape cs = left ++ '#' :: (right ++ '~' :: unescape rest) := by
  have hlt := length_of_matchEscaped _ _ _ _ h
  cases cs with
  | nil => simp at hlt
  | cons c cs =>
    simp only [List.length_cons] at hlt
    simp only [unescape, List.length_cons, unescapeMatches, h]
    rw [unescapeMatches_congr cs.length rest.length rest (by omega) le_rfl]

/-- A backslash before others is kept by what happens to them. -/
theorem unescape_cons_cons (cs : List Char) :
    unescape ('\\' :: '\\' :: cs) = '\\' :: unescape ('\\' :: cs) := by
  cases h : matchEscaped ('\\' :: '\\' :: cs) with
  | none =>
    apply unescape_of_none
    exact h
  | some groups =>
    obtain ⟨left, right, rest⟩ := groups
    obtain ⟨hcs, hleft, hright⟩ := matchEscaped_spec _ _ _ _ h
    -- the second backslash is in the first group
    obtain ⟨left, rfl⟩ : ∃ left', left = '\\' :: left' := by
      cases left with
      | nil => simp at hcs
      | cons c left => exact ⟨left, by rw [hleft c (by simp)]⟩
    have hnext : matchEscaped ('\\' :: cs) = some (left, right, rest) := by
      have hcs : '\\' :: cs = '\\' :: left ++ '#' :: ('\\' :: right ++ '~' :: rest) := by
        simpa using hcs
      rw [hcs]
      exact matchEscaped_of_slashes _ _ _ (fun c hc => hleft c (by simp [hc])) hright
    rw [unescape_of_some _ _ _ _ h, unescape_of_some _ _ _ _ hnext]
    simp

/-- Escaping writes no tilde after backslashes. -/
theorem slashes_of_escapeMatches (n k : Nat) (cs rest : List Char)
    (h : escapeMatches n cs = List.replicate k '\\' ++ '~' :: rest) :
    ∃ rest', cs = List.replicate k '\\' ++ '~' :: rest' := by
  induction n, cs using escapeMatches.induct generalizing k with
  | case1 cs => exact ⟨rest, h⟩
  | case2 n => simp [escapeMatches] at h
  | case3 n c cs left right rest' hmatch ih =>
    obtain ⟨bs, m, hbs, rfl, -, -⟩ := matchDelimiter_spec _ _ _ _ hmatch
    rw [escapeMatches_of_match n c cs _ right rest' hmatch] at h
    -- the number sign stands where only backslashes and a tilde may
    exfalso
    obtain rfl | rfl := hbs
    · obtain _ | _ | k := k
      · simp at h
      · simp at h
      · simp [List.replicate_succ] at h
    · obtain _ | _ | _ | k := k
      · simp at h
      · simp at h
      · simp at h
      · simp [List.replicate_succ] at h
  | case4 n c cs hmatch ih =>
    rw [escapeMatches_of_none n c cs hmatch] at h
    cases k with
    | zero =>
      obtain ⟨rfl, -⟩ := List.cons.inj h
      exact ⟨cs, rfl⟩
    | succ k =>
      rw [List.replicate_succ, List.cons_append] at h
      obtain ⟨rfl, htail⟩ := List.cons.inj h
      obtain ⟨rest', rfl⟩ := ih k htail
      exact ⟨rest', rfl⟩

theorem matchDelimiter_escaped (k : Nat) (rest : List Char) :
    matchDelimiter ('\\' :: '#' :: (List.replicate k '\\' ++ '~' :: rest)) =
      some (['\\', '#'], List.replicate k '\\' ++ ['~'], rest) := by
  simp [matchDelimiter]

/-- A backslash that is not escaped is not taken back either. -/
theorem unescape_cons_escapeMatches (n : Nat) (cs : List Char) (hn : cs.length ≤ n)
    (h : matchDelimiter ('\\' :: cs) = none) :
    unescape ('\\' :: escapeMatches n cs) = '\\' :: unescape (escapeMatches n cs) := by
  cases hcs : escapeMatches n cs with
  | nil => exact unescape_of_none _ _ (by decide)
  | cons d ds =>
    by_cases hslash : d = '\\'
    · rw [hslash, unescape_cons_cons]
    apply unescape_of_none
    by_cases hsign : d = '#'
    · rw [Option.eq_none_iff_forall_ne_some]
      rintro ⟨left, right, rest⟩ hmatch
      obtain ⟨hds, hleft, hright⟩ := matchEscaped_spec _ _ _ _ hmatch
      cases left with
      | cons c left =>
        have hc : d = c := by simpa using (List.cons.inj (List.cons.inj hds).2).1
        exact hslash (by rw [hc, hleft c (by simp)])
      | nil =>
        -- then the text before the escapes has a delimiter where none was found
        have htail : ds = List.replicate (right.length + 1) '\\' ++ '~' :: rest := by
          have hright : right = List.replicate right.length '\\' := List.eq_replicate_iff.mpr
            ⟨rfl, hright⟩
          rw [List.replicate_succ, ← hright]
          simpa using (List.cons.inj (List.cons.inj hds).2).2
        obtain ⟨tail, rfl, htails⟩ : ∃ tail, cs = '#' :: tail ∧
            ds = escapeMatches (n - 1) tail := by
          cases n with
          | zero => simp [List.eq_nil_of_length_eq_zero (Nat.le_zero.mp hn), escapeMatches] at hcs
          | succ n =>
            cases cs with
            | nil => simp [escapeMatches] at hcs
            | cons c cs =>
              cases hm : matchDelimiter (c :: cs) with
              | some groups =>
                rw [escapeMatches_of_match n c cs _ _ _ hm] at hcs
                exact absurd (List.cons.inj hcs).1.symm hslash
              | none =>
                rw [escapeMatches_of_none n c cs hm, hsign] at hcs
                obtain ⟨rfl, rfl⟩ := List.cons.inj hcs
                exact ⟨cs, rfl, rfl⟩
        obtain ⟨rest', rfl⟩ := slashes_of_escapeMatches _ _ _ _ (htails.symm.trans htail)
        rw [matchDelimiter_escaped] at h
        cases h
    · exact matchEscaped_of_dropWhile _ (by simp [hslash, hsign])

/-- Taking the escapes back gives what was escaped. -/
theorem unescape_escapeMatches (n : Nat) (cs : List Char) (hn : cs.length ≤ n) :
    unescape (escapeMatches n cs) = cs := by
  induction n, cs using escapeMatches.induct with
  | case1 cs =>
    rw [List.eq_nil_of_length_eq_zero (Nat.le_zero.mp hn)]
    rfl
  | case2 n => simp [escapeMatches, unescape, unescapeMatches]
  | case3 n c cs left right rest h ih =>
    obtain ⟨bs, m, hbs, rfl, rfl, hcs⟩ := matchDelimiter_spec _ _ _ _ h
    have hrest : unescape (escapeMatches n rest) = rest := by
      apply ih
      have := congrArg List.length hcs
      simp at this hn
      omega
    have hmatch : matchEscaped (escapeMatches (n + 1) (c :: cs)) =
        some (bs, List.replicate m '\\', escapeMatches n rest) := by
      rw [escapeMatches_of_match n c cs _ _ rest h]
      have := matchEscaped_of_slashes bs (List.replicate m '\\') (escapeMatches n rest)
        (by obtain rfl | rfl := hbs <;> simp) (by simp)
      simpa using this
    rw [unescape_of_some _ _ _ _ hmatch, hrest, hcs]
    simp
  | case4 n c cs h ih =>
    have htail : unescape (escapeMatches n cs) = cs := ih (by simpa using hn)
    rw [escapeMatches_of_none n c cs h]
    by_cases hc : c = '\\'
    · subst hc
      rw [unescape_cons_escapeMatches n cs (by simpa using hn) h, htail]
    · rw [unescape_of_none _ _ (matchEscaped_of_ne c _ hc), htail]

end OpenVoxDB.FactPaths
