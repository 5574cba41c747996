import Mathlib
import OpenVoxDB.FactPathDecoding

/-!
# The round trip of fact paths

An element is read back unless it is the empty key, a number in quotes, a number in
other digits than those that are quoted, or an index beyond a `long`; and a key shares its
encoded form with another one exactly when quotes are, or could have been, put around it.
-/

namespace OpenVoxDB.FactPaths

open Delimited

/-- Digits in quotes, where the digits may be none. -/
def InQuotes (digits k : String) : Prop := digits.toList.all digit ∧ k = "\"" ++ digits ++ "\""

/-- A number for `Long/valueOf` whose first digit is an ASCII digit. -/
def LongText (k : String) : Prop :=
  k.toList.head?.any digit ∧ (longValueOf k.toList).isSome

/-- What is read back as it was. -/
def Decodable : Element → Prop
  | .key k => k ≠ "" ∧ (LongText k → k.toList.all digit) ∧
      ¬ ∃ digits, digits ≠ "" ∧ InQuotes digits k
  | .index i => i < 2 ^ 63

/-- What no other element is encoded as. -/
def Unshared : Element → Prop
  | .key k => ¬ k.toList.all digit ∧ ¬ ∃ digits, InQuotes digits k
  | .index _ => True

theorem unescapeDelimiter_escapeDelimiter (k : String) :
    unescapeDelimiter (escapeDelimiter k).toList = k := by
  have h := unescape_escapeMatches _ _ (le_refl k.toList.length)
  rw [unescape] at h
  rw [unescapeDelimiter, escapeDelimiter, String.toList_ofList, h, String.ofList_toList]

theorem escapeDelimiter_injective : Function.Injective escapeDelimiter := by
  intro k k' h
  rw [← unescapeDelimiter_escapeDelimiter k, h, unescapeDelimiter_escapeDelimiter]

/-! ## Numbers -/

theorem digit_iff (c : Char) : digit c ↔ 48 ≤ c.toNat ∧ c.toNat ≤ 57 := by
  rw [digit, Bool.and_eq_true, decide_eq_true_iff, decide_eq_true_iff, Char.le_def, Char.le_def,
    UInt32.le_iff_toNat_le, UInt32.le_iff_toNat_le]
  rfl

theorem characterDigit_of_digit (c : Char) (h : digit c) :
    characterDigit c = some (c.toNat - '0'.toNat) := by
  obtain ⟨hlow, hhigh⟩ := (digit_iff c).mp h
  have hc : (48 ≤ c.toNat && c.toNat < 48 + 10) = true := by simp; omega
  rw [characterDigit, digitZeros, List.find?_cons_of_pos (by simpa using hc)]
  rfl

theorem mapM_characterDigit (cs : List Char) (h : ∀ c ∈ cs, digit c) :
    cs.mapM characterDigit = some (cs.map fun c => c.toNat - '0'.toNat) := by
  induction cs with
  | nil => rfl
  | cons c cs ih =>
    have hc := characterDigit_of_digit c (h c (by simp))
    have hcs := ih fun d hd => h d (by simp [hd])
    simp [hc, hcs]

theorem longValueOf_of_digits (cs : List Char) (h : ∀ c ∈ cs, digit c) (hne : cs ≠ []) :
    longValueOf cs = if Nat.ofDigitChars 10 cs 0 < 2 ^ 63 then some (Nat.ofDigitChars 10 cs 0)
      else none := by
  rw [longValueOf, mapM_characterDigit cs h]
  simp only [hne, Option.bind_eq_bind, Option.bind_some, List.foldl_map, Nat.ofDigitChars, ne_eq,
    not_false_eq_true, true_and]
  congr

theorem digits_index (i : Nat) : ∀ c ∈ (toString i).toList, digit c := by
  intro c hc
  rw [Nat.toString_eq_ofList_toDigits, String.toList_ofList] at hc
  have hdigit := Nat.isDigit_of_mem_toDigits (b := 10) (by decide) (by decide) hc
  simpa [digit, Char.isDigit, Char.le_def] using hdigit

theorem index_ne_nil (i : Nat) : (toString i).toList ≠ [] := by
  rw [Nat.toString_eq_ofList_toDigits, String.toList_ofList]
  exact Nat.toDigits_ne_nil

theorem longValueOf_index (i : Nat) :
    longValueOf (toString i).toList = if i < 2 ^ 63 then some i else none := by
  rw [longValueOf_of_digits _ (digits_index i) (index_ne_nil i), Nat.toString_eq_ofList_toDigits,
    String.toList_ofList, Nat.ofDigitChars_ten_toDigits]

/-- A text with a number sign is no number. -/
theorem longValueOf_of_mem (cs : List Char) (h : '#' ∈ cs) : longValueOf cs = none := by
  have hmapM : cs.mapM characterDigit = none := by
    induction cs with
    | nil => cases h
    | cons c cs ih =>
      obtain rfl | h := List.mem_cons.mp h
      · have hc : characterDigit '#' = none := by decide
        simp [hc]
      · have hcs := ih h
        cases hc : characterDigit c <;> simp [hc, hcs]
  rw [longValueOf, hmapM]
  rfl

/-! ## Elements -/

theorem quoteIntegerStrings_of_digits (k : String) (h : k.toList.all digit) :
    quoteIntegerStrings k = "\"" ++ k ++ "\"" := by
  rw [quoteIntegerStrings, if_pos h]

theorem encodeFactpathElement_of_digits (k : String) (h : k.toList.all digit) :
    encodeFactpathElement (.key k) = "\"" ++ k ++ "\"" := by
  rw [encodeFactpathElement_key, if_pos h, quoteIntegerStrings_of_digits k h]

theorem encodeFactpathElement_of_not_digits (k : String) (h : ¬ k.toList.all digit) :
    encodeFactpathElement (.key k) = escapeDelimiter k := by
  rw [encodeFactpathElement_key, if_neg h]

/-- Only what holds a number sign is escaped. -/
theorem eq_of_escapeDelimiter (k s : String) (h : escapeDelimiter k = s) (hs : '#' ∉ s.toList) :
    k = s := by
  apply escapeDelimiter_injective
  rw [h, escapeDelimiter_of_not_mem s hs]

theorem mem_escapeDelimiter (k : String) : '#' ∈ (escapeDelimiter k).toList ↔ '#' ∈ k.toList := by
  by_cases hk : '#' ∈ k.toList
  · refine iff_of_true ?_ hk
    by_contra h
    exact h (eq_of_escapeDelimiter k _ rfl h ▸ hk)
  · rw [escapeDelimiter_of_not_mem k hk]

theorem not_mem_inQuotes (digits k : String) (h : InQuotes digits k) : '#' ∉ k.toList := by
  obtain ⟨hdigits, rfl⟩ := h
  simpa using not_mem_of_digits digits hdigits

theorem InQuotes.not_digits {digits k : String} (h : InQuotes digits k) :
    ¬ k.toList.all digit := by
  obtain ⟨-, rfl⟩ := h
  simp [digit]

theorem InQuotes.ne {digits k : String} (h : InQuotes digits k) : digits ≠ k := by
  intro he
  have hlength := congrArg (fun s => s.toList.length) (he.trans h.2)
  simp at hlength
  omega

/-- Two encoded elements agree only where one of them is the other in quotes. -/
theorem encodeFactpathElement_eq (e e' : Element)
    (h : encodeFactpathElement e = encodeFactpathElement e') :
    e = e' ∨ ∃ k k', e = .key k ∧ e' = .key k' ∧ (InQuotes k k' ∨ InQuotes k' k) := by
  have hindex : ∀ k i, encodeFactpathElement (.key k) ≠ encodeFactpathElement (.index i) := by
    intro k i he
    have hdigits := digits_index i
    by_cases hk : k.toList.all digit
    · rw [encodeFactpathElement_of_digits k hk] at he
      have hquote := hdigits '"' (by rw [← show _ = toString i from he]; simp)
      exact absurd hquote (by decide)
    · rw [encodeFactpathElement_of_not_digits k hk] at he
      apply hk
      rw [eq_of_escapeDelimiter k (toString i) he (not_mem_index i)]
      exact List.all_eq_true.mpr hdigits
  cases e with
  | index i =>
    cases e' with
    | key k => exact absurd h.symm (hindex k i)
    | index j => exact .inl (congrArg Element.index (Nat.repr_inj.mp h))
  | key k =>
    cases e' with
    | index i => exact absurd h (hindex k i)
    | key k' =>
      by_cases hk : k.toList.all digit <;> by_cases hk' : k'.toList.all digit
      · rw [encodeFactpathElement_of_digits k hk, encodeFactpathElement_of_digits k' hk'] at h
        have hlists := congrArg String.toList h
        simp at hlists
        exact .inl (congrArg Element.key (String.toList_inj.mp hlists))
      · rw [encodeFactpathElement_of_digits k hk, encodeFactpathElement_of_not_digits k' hk'] at h
        have hmem : '#' ∉ ("\"" ++ k ++ "\"").toList := not_mem_inQuotes k _ ⟨hk, rfl⟩
        exact .inr ⟨k, k', rfl, rfl, .inl ⟨hk, eq_of_escapeDelimiter k' _ h.symm hmem⟩⟩
      · rw [encodeFactpathElement_of_not_digits k hk, encodeFactpathElement_of_digits k' hk'] at h
        have hmem : '#' ∉ ("\"" ++ k' ++ "\"").toList := not_mem_inQuotes k' _ ⟨hk', rfl⟩
        exact .inr ⟨k, k', rfl, rfl, .inr ⟨hk', eq_of_escapeDelimiter k _ h hmem⟩⟩
      · rw [encodeFactpathElement_of_not_digits k hk,
          encodeFactpathElement_of_not_digits k' hk'] at h
        exact .inl (congrArg Element.key (escapeDelimiter_injective h))

theorem encodeFactpathElement_inQuotes (k k' : String) (h : InQuotes k k') :
    encodeFactpathElement (.key k') = encodeFactpathElement (.key k) := by
  rw [encodeFactpathElement_of_not_digits k' h.not_digits, encodeFactpathElement_of_digits k h.1,
    escapeDelimiter_of_not_mem k' (not_mem_inQuotes k k' h), h.2]

/-- No other element has the encoded form. -/
theorem unshared_iff (e : Element) :
    Unshared e ↔ ∀ e', encodeFactpathElement e' = encodeFactpathElement e → e' = e := by
  cases e with
  | index i =>
    refine iff_of_true trivial fun e' h => ?_
    obtain rfl | ⟨k, k', -, hk', -⟩ := encodeFactpathElement_eq e' (.index i) h
    · rfl
    · cases hk'
  | key k =>
    constructor
    · rintro ⟨hdigits, hquotes⟩ e' h
      obtain rfl | ⟨k', k'', -, hk, hshared | hshared⟩ := encodeFactpathElement_eq e' (.key k) h
      · rfl
      · cases hk
        exact absurd ⟨k', hshared⟩ hquotes
      · cases hk
        exact absurd hshared.1 hdigits
    · intro h
      constructor
      · intro hdigits
        have hshared : InQuotes k ("\"" ++ k ++ "\"") := ⟨hdigits, rfl⟩
        have he := h _ (encodeFactpathElement_inQuotes k _ hshared)
        exact hshared.ne (Element.key.inj he).symm
      · rintro ⟨digits, hshared⟩
        have he := h _ (encodeFactpathElement_inQuotes digits k hshared).symm
        exact hshared.ne (Element.key.inj he)

theorem quotedNumber_eq_some (cs digits : List Char) :
    quotedNumber cs = some digits ↔
      digits ≠ [] ∧ digits.all digit ∧ cs = '"' :: digits ++ ['"'] := by
  constructor
  · intro h
    unfold quotedNumber at h
    split at h
    · next cs =>
      split at h
      · next hall =>
        cases h
        obtain ⟨hlast, hne, hdigits⟩ := hall
        obtain ⟨init, rfl⟩ := List.getLast?_eq_some_iff.mp hlast
        exact ⟨hne, hdigits, by simp⟩
      · cases h
    · cases h
  · rintro ⟨hne, hdigits, rfl⟩
    simp only [quotedNumber, List.cons_append, List.getLast?_append_cons, List.getLast?_singleton,
      List.dropLast_concat]
    rw [if_pos ⟨trivial, hne, hdigits⟩]

theorem quotedNumber_eq_none (k : String) :
    quotedNumber k.toList = none ↔ ¬ ∃ digits, digits ≠ "" ∧ InQuotes digits k := by
  rw [Option.eq_none_iff_forall_ne_some, not_exists]
  constructor
  · rintro h digits ⟨hne, hdigits, hk⟩
    apply h digits.toList
    rw [quotedNumber_eq_some, hk]
    exact ⟨by simpa using hne, hdigits, by simp⟩
  · intro h digits hsome
    obtain ⟨hne, hdigits, hk⟩ := (quotedNumber_eq_some _ _).mp hsome
    refine h (String.ofList digits) ⟨by simpa using hne, by simpa using hdigits, ?_⟩
    rw [← String.toList_inj, hk]
    simp

theorem strToNum_eq_none (k : String) : strToNum k.toList = none ↔ ¬ LongText k := by
  rw [strToNum, LongText]
  split
  · next h => simp [h]
  · next h => simp [h]

/-! ## Reading elements back -/

theorem strToNum_escapeDelimiter (k : String) :
    strToNum (escapeDelimiter k).toList = strToNum k.toList := by
  by_cases hk : '#' ∈ k.toList
  · have hmem := (mem_escapeDelimiter k).mpr hk
    rw [strToNum, strToNum, longValueOf_of_mem _ hmem, longValueOf_of_mem _ hk, ite_self, ite_self]
  · rw [escapeDelimiter_of_not_mem k hk]

theorem quotedNumber_escapeDelimiter (k : String) :
    quotedNumber (escapeDelimiter k).toList = quotedNumber k.toList := by
  have hmem : ∀ cs digits, quotedNumber cs = some digits → '#' ∉ cs := by
    intro cs digits h
    obtain ⟨-, hdigits, rfl⟩ := (quotedNumber_eq_some _ _).mp h
    have := not_mem_of_digits (String.ofList digits) (by simpa using hdigits)
    simpa using this
  by_cases hk : '#' ∈ k.toList
  · have hescaped := (mem_escapeDelimiter k).mpr hk
    rw [Option.eq_none_iff_forall_ne_some.mpr fun d h => hmem _ d h hescaped,
      Option.eq_none_iff_forall_ne_some.mpr fun d h => hmem _ d h hk]
  · rw [escapeDelimiter_of_not_mem k hk]

theorem isEmpty_escapeDelimiter (k : String) (h : ¬ k.toList.all digit) :
    (escapeDelimiter k).toList.isEmpty = false := by
  rw [List.isEmpty_eq_false_iff]
  intro hempty
  have hk := eq_of_escapeDelimiter k "" (by simpa using hempty) (by simp)
  exact h (by simp [hk])

/-- A key that is not all digits. -/
theorem unencodePathSegment_escaped_iff (k : String) (h : ¬ k.toList.all digit) :
    unencodePathSegment (escapeDelimiter k).toList = some (.key k) ↔
      ¬ LongText k ∧ ¬ ∃ digits, digits ≠ "" ∧ InQuotes digits k := by
  rw [unencodePathSegment, isEmpty_escapeDelimiter k h, strToNum_escapeDelimiter,
    quotedNumber_escapeDelimiter, unescapeDelimiter_escapeDelimiter, ← quotedNumber_eq_none,
    ← strToNum_eq_none]
  cases hnum : strToNum k.toList with
  | some n => simp
  | none =>
    cases hquoted : quotedNumber k.toList with
    | none => simp
    | some digits =>
      have hne : String.ofList digits ≠ k := by
        rintro rfl
        have hlength := congrArg List.length ((quotedNumber_eq_some _ _).mp hquoted).2.2
        simp at hlength
        omega
      simp [hne]

/-- A key in digits stands in quotes. -/
theorem unencodePathSegment_quoted_iff (k : String) (h : k.toList.all digit) :
    unencodePathSegment ("\"" ++ k ++ "\"").toList = some (.key k) ↔ k ≠ "" := by
  have hlist : ("\"" ++ k ++ "\"").toList = '"' :: k.toList ++ ['"'] := by simp
  have hnum : strToNum ('"' :: k.toList ++ ['"']) = none := by simp [strToNum, digit]
  rw [hlist, unencodePathSegment, hnum]
  by_cases hk : k = ""
  · subst hk
    refine iff_of_false ?_ (by simp)
    decide
  · rw [(quotedNumber_eq_some _ _).mpr ⟨by simpa using hk, h, rfl⟩]
    simp [hk]

theorem unencodePathSegment_index_iff (i : Nat) :
    unencodePathSegment (toString i).toList = some (.index i) ↔ i < 2 ^ 63 := by
  have hempty : (toString i).toList.isEmpty = false := by
    rw [List.isEmpty_eq_false_iff]
    exact index_ne_nil i
  have hhead : (toString i).toList.head?.any digit = true := by
    cases hlist : (toString i).toList with
    | nil => exact absurd hlist (index_ne_nil i)
    | cons c cs => exact digits_index i c (hlist ▸ List.mem_cons_self)
  rw [unencodePathSegment, hempty, strToNum, hhead, longValueOf_index]
  by_cases hi : i < 2 ^ 63
  · refine iff_of_true ?_ hi
    simp only [if_pos hi, if_true, Bool.false_eq_true, if_false]
  · refine iff_of_false ?_ hi
    simp only [if_neg hi, if_true, Bool.false_eq_true, if_false]
    split <;> simp

theorem unencodePathSegment_iff (e : Element) :
    unencodePathSegment (encodeFactpathElement e).toList = some e ↔ Decodable e := by
  cases e with
  | index i => exact unencodePathSegment_index_iff i
  | key k =>
    by_cases hk : k.toList.all digit
    · rw [encodeFactpathElement_of_digits k hk, unencodePathSegment_quoted_iff k hk, Decodable]
      have hquotes : ¬ ∃ digits, digits ≠ "" ∧ InQuotes digits k := by
        rintro ⟨digits, -, h⟩
        exact h.not_digits hk
      simp [hk, hquotes]
    · rw [encodeFactpathElement_of_not_digits k hk, unencodePathSegment_escaped_iff k hk, Decodable]
      have hne : k ≠ "" := by
        rintro rfl
        exact hk (by simp)
      simp [hk, hne]

/-! ## Paths -/

theorem encodeFactpathElement_ne_nil (e : Element) : (encodeFactpathElement e).toList ≠ [] := by
  cases e with
  | index i => exact index_ne_nil i
  | key k =>
    by_cases hk : k.toList.all digit
    · rw [encodeFactpathElement_of_digits k hk]
      simp
    · rw [encodeFactpathElement_of_not_digits k hk]
      simpa using isEmpty_escapeDelimiter k hk

/-- No segment of an encoded path is empty, so none is dropped at the end. -/
theorem splitDelimiter_factpathToString (p : FactPath) (hp : p ≠ []) :
    splitDelimiter (factpathToString p) = p.map fun e => (encodeFactpathElement e).toList := by
  rw [splitDelimiter, segments_factpathToString p hp]
  split
  · rfl
  · have hkept : (p.map fun e => (encodeFactpathElement e).toList).reverse.dropWhile
        List.isEmpty = (p.map fun e => (encodeFactpathElement e).toList).reverse := by
      apply List.dropWhile_eq_self_iff.mpr
      intro hlength hempty
      have hmem := List.getElem_mem hlength
      rw [List.mem_reverse, List.mem_map] at hmem
      obtain ⟨e, -, he⟩ := hmem
      exact encodeFactpathElement_ne_nil e (by simpa [he] using hempty)
    rw [hkept, List.reverse_reverse]

theorem mapM_map_eq_some_iff {α β : Type} (f : α → β) (g : β → Option α) (l : List α) :
    (l.map f).mapM g = some l ↔ ∀ x ∈ l, g (f x) = some x := by
  induction l with
  | nil => simp
  | cons x l ih =>
    rw [List.map_cons, List.mapM_cons, List.forall_mem_cons, ← ih]
    cases hx : g (f x) with
    | none => simp
    | some y => cases hl : (l.map f).mapM g <;> simp

/-- A path is read back exactly when each of its elements is. -/
theorem stringToFactpath_iff (p : FactPath) (hp : p ≠ []) :
    stringToFactpath (factpathToString p) = some p ↔ ∀ e ∈ p, Decodable e := by
  rw [stringToFactpath, splitDelimiter_factpathToString p hp, mapM_map_eq_some_iff]
  simp only [unencodePathSegment_iff]

theorem factpathToString_eq_iff (p q : FactPath) (hp : p ≠ []) (hq : q ≠ []) :
    factpathToString q = factpathToString p ↔
      q.map encodeFactpathElement = p.map encodeFactpathElement := by
  constructor
  · intro h
    have hsplit := congrArg splitDelimiter h
    rw [splitDelimiter_factpathToString q hq, splitDelimiter_factpathToString p hp] at hsplit
    have hinj : Function.Injective (List.map String.toList) :=
      List.map_injective_iff.mpr fun _ _ => String.toList_inj.mp
    apply hinj
    rw [List.map_map, List.map_map]
    exact hsplit
  · intro h
    rw [factpathToString, factpathToString, h]

/-- No other path has the string exactly when no element shares its encoded form. -/
theorem factpathToString_unshared_iff (p : FactPath) (hp : p ≠ []) :
    (∀ q, q ≠ [] → factpathToString q = factpathToString p → q = p) ↔ ∀ e ∈ p, Unshared e := by
  constructor
  · intro h e he
    rw [unshared_iff]
    intro e' henc
    obtain ⟨before, after, rfl⟩ := List.append_of_mem he
    have hq := h (before ++ e' :: after) (by simp)
      ((factpathToString_eq_iff _ _ hp (by simp)).mpr (by simp [henc]))
    simpa using hq
  · intro h q hq hstring
    rw [factpathToString_eq_iff p q hp hq] at hstring
    clear hp hq
    induction p generalizing q with
    | nil => simpa using hstring
    | cons e p ih =>
      cases q with
      | nil => simp at hstring
      | cons e' q =>
        simp only [List.map_cons, List.cons.injEq] at hstring
        rw [(unshared_iff e).mp (h e (by simp)) e' hstring.1,
          ih (fun e he => h e (by simp [he])) q hstring.2]

/-- A path is read back exactly when its keys are not empty, no number in quotes and no number
in other digits, and its indexes fit a `long`; its string is its own exactly when its keys
are no digits, in quotes or not. -/
theorem factpath_codec_iff (p : FactPath) (hp : p ≠ []) :
    (stringToFactpath (factpathToString p) = some p ↔ ∀ e ∈ p, Decodable e) ∧
      ((∀ q, q ≠ [] → factpathToString q = factpathToString p → q = p) ↔
        ∀ e ∈ p, Unshared e) :=
  ⟨stringToFactpath_iff p hp, factpathToString_unshared_iff p hp⟩

theorem factpath_codec_iff_escaped :
    (stringToFactpath (factpathToString [.key "a\\#~b", .key "12", .index 0]) =
        some [.key "a\\#~b", .key "12", .index 0] ↔
      ∀ e ∈ [Element.key "a\\#~b", .key "12", .index 0], Decodable e) ∧
    ((∀ q, q ≠ [] → factpathToString q =
        factpathToString [.key "a\\#~b", .key "12", .index 0] →
          q = [.key "a\\#~b", .key "12", .index 0]) ↔
      ∀ e ∈ [Element.key "a\\#~b", .key "12", .index 0], Unshared e) :=
  factpath_codec_iff _ (by simp)

/-- The key `"12"` with its quotes is read back without them, and shares its string with the
key that has none. -/
theorem factpath_codec_fails :
    [Element.key "\"12\""] ≠ [.key "12"] ∧
      factpathToString [.key "\"12\""] = factpathToString [.key "12"] ∧
      stringToFactpath (factpathToString [.key "\"12\""]) = some [.key "12"] := by
  decide

end OpenVoxDB.FactPaths
