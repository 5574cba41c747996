import Mathlib
import OpenVoxDB.FactPaths
import OpenVoxDB.Delimited

/-!
# The encoding of path elements

An encoded element never contains the delimiter, and an encoded key is never a
number, so the encoded elements can be read back from a path's string. Keys that
hold an escaped delimiter already are escaped again.
-/

namespace OpenVoxDB.FactPaths

open Delimited

/-- A number sign, any backslashes and a tilde: what `escape-delimiter` looks for. -/
def delimiterMatch (n : Nat) : List Char := '#' :: List.replicate n '\\' ++ ['~']

def HasDelimiter (cs : List Char) : Prop := ∃ n, delimiterMatch n <:+: cs

theorem HasDelimiter.mono {cs ds : List Char} (h : HasDelimiter cs) (hcs : cs <:+: ds) :
    HasDelimiter ds := by
  obtain ⟨n, hn⟩ := h
  exact ⟨n, hn.trans hcs⟩

theorem matchDelimiter_delimiterMatch (n : Nat) (rest : List Char) :
    matchDelimiter (delimiterMatch n ++ rest) =
      some (['#'], List.replicate n '\\' ++ ['~'], rest) := by
  simp [matchDelimiter, delimiterMatch]

/-- What a match takes off the text. -/
theorem matchDelimiter_spec (cs left right rest : List Char)
    (h : matchDelimiter cs = some (left, right, rest)) :
    ∃ bs n, (bs = [] ∨ bs = ['\\']) ∧ left = bs ++ ['#'] ∧
      right = List.replicate n '\\' ++ ['~'] ∧ cs = left ++ right ++ rest := by
  unfold matchDelimiter at h
  generalize hpair : (if cs.head? = some '\\' then (['\\'], cs.tail) else ([], cs)) = pair at h
  obtain ⟨bs, after⟩ := pair
  have hbs : (bs = [] ∨ bs = ['\\']) ∧ bs ++ after = cs := by
    split at hpair
    · next hhead =>
      obtain ⟨tail, rfl⟩ : ∃ tail, cs = '\\' :: tail := List.head?_eq_some_iff.mp hhead
      cases hpair
      exact ⟨.inr rfl, rfl⟩
    · cases hpair
      exact ⟨.inl rfl, rfl⟩
  simp only at h
  split at h
  · next tail =>
    split at h
    · next rest' hdrop =>
      simp only [Option.some.injEq, Prod.mk.injEq] at h
      obtain ⟨rfl, rfl, rfl⟩ := h
      have hslashes : tail.takeWhile (· = '\\') =
          List.replicate (tail.takeWhile (· = '\\')).length '\\' := by
        rw [List.eq_replicate_iff]
        exact ⟨rfl, fun c hc => by simpa using List.mem_takeWhile_imp hc⟩
      refine ⟨bs, _, hbs.1, rfl, by rw [← hslashes], ?_⟩
      have hsplit := List.takeWhile_append_dropWhile (p := (· = '\\')) (l := tail)
      rw [hdrop] at hsplit
      rw [← hbs.2, List.append_assoc, List.append_assoc, List.append_assoc, List.singleton_append,
        List.singleton_append, hsplit]
    · cases h
  · cases h

/-- Nothing is matched where no delimiter starts. -/
theorem not_matched_before (c : Char) (cs : List Char)
    (h : matchDelimiter (c :: cs) = none) (n : Nat) : ¬ delimiterMatch n <+: c :: cs := by
  rintro ⟨rest, hrest⟩
  rw [← hrest, matchDelimiter_delimiterMatch] at h
  cases h

theorem escapeMatches_of_match (n : Nat) (c : Char) (cs left right rest : List Char)
    (h : matchDelimiter (c :: cs) = some (left, right, rest)) :
    escapeMatches (n + 1) (c :: cs) = '\\' :: left ++ '\\' :: right ++ escapeMatches n rest := by
  simp only [escapeMatches, h]

theorem escapeMatches_of_none (n : Nat) (c : Char) (cs : List Char)
    (h : matchDelimiter (c :: cs) = none) :
    escapeMatches (n + 1) (c :: cs) = c :: escapeMatches n cs := by
  simp only [escapeMatches, h]

theorem length_le_escapeMatches (n : Nat) (cs : List Char) :
    cs.length ≤ (escapeMatches n cs).length := by
  induction n, cs using escapeMatches.induct with
  | case1 cs => simp [escapeMatches]
  | case2 n => simp [escapeMatches]
  | case3 n c cs left right rest h ih =>
    obtain ⟨bs, m, -, -, -, hcs⟩ := matchDelimiter_spec _ _ _ _ h
    rw [escapeMatches_of_match n c cs left right rest h, hcs]
    simp only [List.length_append, List.length_cons]
    omega
  | case4 n c cs h ih =>
    rw [escapeMatches_of_none n c cs h, List.length_cons, List.length_cons]
    omega

/-- A text with a delimiter is changed. -/
theorem escapeMatches_ne (n : Nat) (cs : List Char) (hn : cs.length ≤ n) (hcs : HasDelimiter cs) :
    escapeMatches n cs ≠ cs := by
  induction n, cs using escapeMatches.induct with
  | case1 cs =>
    obtain ⟨m, hm⟩ := hcs
    have := hm.length_le
    simp [delimiterMatch] at this
    omega
  | case2 n =>
    obtain ⟨m, hm⟩ := hcs
    simpa [delimiterMatch] using hm.length_le
  | case3 n c cs left right rest h ih =>
    intro he
    have hlength := congrArg List.length he
    have := length_le_escapeMatches n rest
    obtain ⟨bs, m, -, -, -, hcs⟩ := matchDelimiter_spec _ _ _ _ h
    rw [escapeMatches_of_match n c cs left right rest h, hcs] at hlength
    simp only [List.length_append, List.length_cons] at hlength
    omega
  | case4 n c cs h ih =>
    have htail : HasDelimiter cs := by
      obtain ⟨m, hm⟩ := hcs
      rcases List.infix_cons_iff.mp hm with hm | hm
      · exact absurd hm (not_matched_before c cs h m)
      · exact ⟨m, hm⟩
    rw [escapeMatches_of_none n c cs h]
    intro he
    exact ih (by simpa using hn) htail (List.cons.inj he).2

/-- A text that is changed becomes longer. -/
theorem length_lt_escapeMatches (n : Nat) (cs : List Char) (hne : escapeMatches n cs ≠ cs) :
    cs.length < (escapeMatches n cs).length := by
  induction n, cs using escapeMatches.induct with
  | case1 cs => exact absurd rfl hne
  | case2 n => exact absurd (by simp [escapeMatches]) hne
  | case3 n c cs left right rest h ih =>
    have := length_le_escapeMatches n rest
    obtain ⟨bs, m, -, -, -, hcs⟩ := matchDelimiter_spec _ _ _ _ h
    rw [escapeMatches_of_match n c cs left right rest h, hcs]
    simp only [List.length_append, List.length_cons]
    omega
  | case4 n c cs h ih =>
    rw [escapeMatches_of_none n c cs h] at hne ⊢
    have := ih fun he => hne (by rw [he])
    simp only [List.length_cons]
    omega

theorem escapeMatches_of_not_mem (n : Nat) (cs : List Char) (hcs : '#' ∉ cs) :
    escapeMatches n cs = cs := by
  induction n, cs using escapeMatches.induct with
  | case1 cs => rfl
  | case2 n => simp [escapeMatches]
  | case3 n c cs left right rest h ih =>
    obtain ⟨bs, m, -, rfl, -, he⟩ := matchDelimiter_spec _ _ _ _ h
    exact absurd (by simp [he]) hcs
  | case4 n c cs h ih =>
    rw [escapeMatches_of_none n c cs h, ih fun hmem => hcs (List.mem_cons_of_mem _ hmem)]

/-- Where anything is escaped, the escaped text holds a delimiter with backslashes. -/
theorem hasDelimiter_escapeMatches (n : Nat) (cs : List Char) (h : escapeMatches n cs ≠ cs) :
    HasDelimiter (escapeMatches n cs) := by
  induction n, cs using escapeMatches.induct with
  | case1 cs => exact absurd rfl h
  | case2 n => exact absurd (by simp [escapeMatches]) h
  | case3 n c cs left right rest hmatch ih =>
    obtain ⟨bs, m, -, rfl, rfl, -⟩ := matchDelimiter_spec _ _ _ _ hmatch
    refine ⟨m + 1, '\\' :: bs, escapeMatches n rest, ?_⟩
    simp [escapeMatches, hmatch, delimiterMatch, List.replicate_succ]
  | case4 n c cs hmatch ih =>
    simp only [escapeMatches, hmatch, ne_eq, List.cons.injEq, true_and] at h ⊢
    exact (ih h).mono (List.suffix_cons c _).isInfix

/-- Escaping puts no tilde at the start. -/
theorem head?_escapeMatches (n : Nat) (cs : List Char)
    (h : (escapeMatches n cs).head? = some '~') : cs.head? = some '~' := by
  cases n with
  | zero => exact h
  | succ n =>
    cases cs with
    | nil => exact h
    | cons c cs =>
      cases hmatch : matchDelimiter (c :: cs) with
      | none => simpa [escapeMatches_of_none n c cs hmatch] using h
      | some m =>
        obtain ⟨left, right, rest⟩ := m
        rw [escapeMatches_of_match n c cs left right rest hmatch] at h
        simp at h

/-- No delimiter without backslashes stands in an escaped text. -/
theorem clean_escapeMatches (n : Nat) (cs : List Char) (hn : cs.length ≤ n) :
    Clean '#' '~' (escapeMatches n cs) := by
  induction n, cs using escapeMatches.induct with
  | case1 cs =>
    rw [List.eq_nil_of_length_eq_zero (Nat.le_zero.mp hn)]
    exact List.isChain_nil
  | case2 n => simp [escapeMatches, Clean]
  | case3 n c cs left right rest hmatch ih =>
    rw [escapeMatches_of_match n c cs left right rest hmatch]
    obtain ⟨bs, m, hbs, rfl, rfl, hcs⟩ := matchDelimiter_spec _ _ _ _ hmatch
    have hrest : Clean '#' '~' (escapeMatches n rest) := by
      refine ih ?_
      have := congrArg List.length hcs
      simp at this hn
      omega
    have hright : Clean '#' '~' ('\\' :: (List.replicate m '\\' ++ '~' :: escapeMatches n rest)) :=
      (clean_append_of_not_mem _ _ (by simp) (hrest.cons_of_ne (by decide))).cons_of_ne (by decide)
    have hleft : Clean '#' '~' ('#' :: '\\' :: (List.replicate m '\\' ++ '~' ::
        escapeMatches n rest)) :=
      List.isChain_cons_cons.mpr ⟨by decide, hright⟩
    have hall := clean_append_of_not_mem ('\\' :: bs) _
      (by rcases hbs with rfl | rfl <;> decide) hleft
    simpa using hall
  | case4 n c cs hmatch ih =>
    rw [escapeMatches_of_none n c cs hmatch]
    refine List.isChain_cons.mpr ⟨?_, ih (by simpa using hn)⟩
    rintro d hd ⟨rfl, rfl⟩
    -- such a tilde would have been matched with the number sign before it
    obtain ⟨tail, rfl⟩ := List.head?_eq_some_iff.mp (head?_escapeMatches n cs hd)
    exact not_matched_before '#' _ hmatch 0 ⟨tail, rfl⟩

theorem clean_escapeDelimiter (element : String) :
    Clean '#' '~' (escapeDelimiter element).toList := by
  rw [escapeDelimiter, String.toList_ofList]
  exact clean_escapeMatches _ _ le_rfl

theorem escapeDelimiter_eq_iff (element : String) :
    escapeDelimiter element = element ↔
      escapeMatches element.toList.length element.toList = element.toList := by
  rw [escapeDelimiter, ← String.toList_inj, String.toList_ofList]

/-- An escaped text that differs from what it escapes is longer than it and holds a delimiter
again. -/
theorem escapeDelimiter_ne (element : String) (h : escapeDelimiter element ≠ element) :
    HasDelimiter (escapeDelimiter element).toList ∧
      element.toList.length < (escapeDelimiter element).toList.length := by
  rw [Ne, escapeDelimiter_eq_iff] at h
  rw [escapeDelimiter, String.toList_ofList]
  exact ⟨hasDelimiter_escapeMatches _ _ h, length_lt_escapeMatches _ _ h⟩

theorem escapeDelimiter_ne_of_hasDelimiter (element : String) (h : HasDelimiter element.toList) :
    escapeDelimiter element ≠ element := by
  rw [Ne, escapeDelimiter_eq_iff]
  exact escapeMatches_ne _ _ le_rfl h

theorem escapeDelimiter_of_not_mem (element : String) (h : '#' ∉ element.toList) :
    escapeDelimiter element = element :=
  (escapeDelimiter_eq_iff element).mpr (escapeMatches_of_not_mem _ _ h)

theorem not_mem_of_digits (s : String) (h : s.toList.all digit) : '#' ∉ s.toList := by
  intro hmem
  exact absurd (List.all_eq_true.mp h '#' hmem) (by decide)

theorem escapeDelimiter_quoteIntegerStrings_of_digits (k : String) (h : k.toList.all digit) :
    escapeDelimiter (quoteIntegerStrings k) = quoteIntegerStrings k := by
  refine escapeDelimiter_of_not_mem _ ?_
  rw [quoteIntegerStrings, if_pos h]
  simpa using not_mem_of_digits k h

/-- A key is encoded by quotes or by escapes, never by both. -/
theorem encodeFactpathElement_key (k : String) :
    encodeFactpathElement (.key k) =
      if k.toList.all digit then quoteIntegerStrings k else escapeDelimiter k := by
  rw [encodeFactpathElement]
  split
  · next h => exact escapeDelimiter_quoteIntegerStrings_of_digits k h
  · next h => rw [quoteIntegerStrings, if_neg h]

theorem not_mem_index (i : Nat) : '#' ∉ (toString i).toList := by
  intro hmem
  rw [Nat.toString_eq_ofList_toDigits, String.toList_ofList] at hmem
  have := Nat.isDigit_of_mem_toDigits (b := 10) (by decide) (by decide) hmem
  exact absurd this (by decide)

theorem clean_index (i : Nat) : Clean '#' '~' (toString i).toList := by
  simpa using clean_append_of_not_mem _ [] (not_mem_index i) List.isChain_nil

theorem HasDelimiter.mem {cs : List Char} (h : HasDelimiter cs) : '#' ∈ cs := by
  obtain ⟨n, hn⟩ := h
  exact hn.subset (by simp [delimiterMatch])

theorem clean_encodeFactpathElement (e : Element) :
    Clean '#' '~' (encodeFactpathElement e).toList := by
  cases e with
  | key k => exact clean_escapeDelimiter _
  | index i => exact clean_index i

/-- The encoded elements are read back from the string of a path. -/
theorem segments_factpathToString (p : FactPath) (hp : p ≠ []) :
    segments '#' '~' (factpathToString p).toList =
      p.map fun e => (encodeFactpathElement e).toList := by
  rw [factpathToString, String.toList_intercalate, List.map_map]
  refine segments_intercalate_of_clean '#' '~' (by decide) _ (by simpa using hp) ?_
  intro part hpart
  obtain ⟨e, -, rfl⟩ := List.mem_map.mp hpart
  exact clean_encodeFactpathElement e

end OpenVoxDB.FactPaths
