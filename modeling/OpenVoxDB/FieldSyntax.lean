import Mathlib
import OpenVoxDB.QueryExpansion

/-!
# The syntax of dotted fields

`parse-field` takes a field such as `facts.partition[3]` apart. Each of its
regular expressions is a function that takes a component from the start of a
text, where it finds one.
-/

namespace OpenVoxDB.FieldSyntax

open QueryExpansion (Part partName)

/-- Where `$` matches: at the end, and before a last line terminator. -/
def lineEnd (cs : List Char) : Bool :=
  ["", "\n", "\r\n", "\r", "\u0085", "\u2028", "\u2029"].contains (String.ofList cs)

/-- `(?=\.|$)` -/
def componentEnd (cs : List Char) : Bool := cs.head? = some '.' || lineEnd cs

def isLetter (c : Char) : Bool := ('a' ≤ c && c ≤ 'z') || ('A' ≤ c && c ≤ 'Z')

def isDigit (c : Char) : Bool := '0' ≤ c && c ≤ '9'

/-- `top-field-rx` -/
def topField : List Char → Option (List Char × List Char)
  | [] => none
  | c :: cs =>
    if isLetter c then
      let wordChar := fun c => isLetter c || isDigit c || c = '_'
      let name := c :: cs.takeWhile wordChar
      match cs.dropWhile wordChar with
      | '?' :: rest => if componentEnd rest then some (name ++ ['?'], rest) else none
      | rest => if componentEnd rest then some (name, rest) else none
    else none

/-- `field-rx` -/
def unquotedField (cs : List Char) : Option (List Char × List Char) :=
  match cs.takeWhile (· ≠ '.') with
  | [] => none
  | c :: name => some (c :: name, cs.dropWhile (· ≠ '.'))

/-- A group that does not end with a backslash, and is not empty. -/
def closable (group : List Char) : Bool := group ≠ [] && group.getLast? ≠ some '\\'

/-- The first quote that can end the group. -/
def closeQuote (group : List Char) : List Char → Option (List Char × List Char)
  | [] => none
  | c :: cs =>
    if c = '"' && closable group && componentEnd cs then some (group, cs)
    else closeQuote (group ++ [c]) cs

/-- `quoted-field-rx` -/
def quotedField : List Char → Option (List Char × List Char)
  | '"' :: cs => closeQuote [] cs
  | _ => none

/-- The last quote with a parenthesis that can end the group. -/
def closeMatch (group : List Char) : List Char → Option (List Char × List Char)
  | [] => none
  | c :: cs =>
    (closeMatch (group ++ [c]) cs).or
      (if c = '"' && closable group && cs.head? = some ')' && componentEnd cs.tail then
        some (group, cs.tail)
      else none)

/-- `match-rx` -/
def matchField (cs : List Char) : Option (List Char × List Char) :=
  if "match(\"".toList.isPrefixOf cs then closeMatch [] (cs.drop 7) else none

/-- `index-or-name`; an index is a 32-bit integer. -/
def indexOrName (cs : List Char) : Except String Part :=
  match cs.reverse with
  | ']' :: rs =>
    match rs.takeWhile isDigit, rs.dropWhile isDigit with
    | d :: ds, '[' :: c :: name =>
      let index := (d :: ds).foldr (fun d n => 10 * n + (d.toNat - '0'.toNat)) 0
      if index < 2 ^ 31 then .ok (.indexed (String.ofList (c :: name).reverse) index)
      else .error "For input string"
    | _, _ => .ok (.named (String.ofList cs))
  | _ => .ok (.named (String.ofList cs))

/-- `parse-field-components`, with or without `match()` parts. -/
def parseFieldComponents (withMatches : Bool) : Nat → List Char → Except String (List Part)
  | _, [] => .ok []
  | n + 1, '.' :: cs =>
    if "\"\"".toList.isPrefixOf cs then .error "Empty AST field component"
    else
      match if withMatches then matchField cs else none with
      | some (rx, rest) => do
        let parts ← parseFieldComponents withMatches n rest
        return .pattern (String.ofList rx) :: parts
      | none =>
        match (quotedField cs).or (unquotedField cs) with
        | some (name, rest) => do
          let part ← indexOrName name
          let parts ← parseFieldComponents withMatches n rest
          return part :: parts
        | none => .error "Don't recognize AST field component"
  | _, _ => .error "AST field component does not begin with a dot"

/-- `parse-field` -/
def parseField (withMatches : Bool) (field : String) : Except String (List Part) :=
  match topField field.toList with
  | some (name, rest) => do
    let parts ← parseFieldComponents withMatches rest.length rest
    return .named (String.ofList name) :: parts
  | none => .error "First component of AST field is invalid"

example : parseField true "v.\"w x\".y[3].match(\"z\")" =
    .ok [.named "v", .named "w x", .indexed "y" 3, .pattern "z"] := by decide +kernel

example : parseField true "foo.\"bar.baz\"bax\".xyz" =
    .ok [.named "foo", .named "bar.baz\"bax", .named "xyz"] := by decide +kernel

/-- The text is read back as itself where it stands behind a dot: it is one unquoted component
without an index, and a `match()` ends where it ends. -/
def standsForItself (name : List Char) : Bool :=
  !name.isEmpty && !name.contains '.' && !"\"\"".toList.isPrefixOf name &&
    (quotedField name).isNone && decide (indexOrName name = .ok (.named (String.ofList name))) &&
    (matchField name).all fun (_, rest) => rest.isEmpty

section Components

theorem unquotedField_of_noDot (name : List Char) (hne : name ≠ []) (hdot : '.' ∉ name) :
    unquotedField name = some (name, []) := by
  have hall : ∀ c ∈ name, decide (c ≠ '.') = true := by
    intro c hc
    exact decide_eq_true fun he => hdot (he ▸ hc)
  cases name with
  | nil => exact absurd rfl hne
  | cons c cs =>
    rw [unquotedField, List.takeWhile_eq_self_iff.mpr hall, List.dropWhile_eq_nil_iff.mpr hall]

theorem prefix_of_unquotedField (cs name rest : List Char)
    (h : unquotedField cs = some (name, rest)) : name <+: cs := by
  unfold unquotedField at h
  split at h
  · cases h
  · next c n hn =>
    cases h
    rw [← hn]
    exact List.takeWhile_prefix _

theorem unquotedField_whole (cs rest : List Char) (h : unquotedField cs = some (cs, rest)) :
    cs ≠ [] ∧ '.' ∉ cs := by
  unfold unquotedField at h
  split at h
  · cases h
  · next c n hn =>
    simp only [Option.some.injEq, Prod.mk.injEq] at h
    rw [h.1] at hn
    refine ⟨by rw [← h.1]; exact List.cons_ne_nil c n, fun hdot => ?_⟩
    exact absurd (List.mem_takeWhile_imp (hn ▸ hdot)) (by decide)

theorem closeQuote_length (group cs name rest : List Char)
    (h : closeQuote group cs = some (name, rest)) :
    name.length + rest.length < group.length + cs.length := by
  induction cs generalizing group with
  | nil => simp [closeQuote] at h
  | cons c cs ih =>
    rw [closeQuote] at h
    split at h
    · cases h
      simp
    · have := ih _ h
      simp at this ⊢
      omega

/-- A quoted component is shorter than its text. -/
theorem quotedField_length (cs name rest : List Char) (h : quotedField cs = some (name, rest)) :
    name.length < cs.length := by
  unfold quotedField at h
  split at h
  · have := closeQuote_length [] _ name rest h
    simp at this ⊢
    omega
  · cases h

theorem indexOrName_cases (cs : List Char) (part : Part) (h : indexOrName cs = .ok part) :
    part = .named (String.ofList cs) ∨
      ∃ name index, part = .indexed name index ∧ name.toList.length < cs.length := by
  unfold indexOrName at h
  split at h
  · next rs hrs =>
    split at h
    · next d ds c n hdigits hrest =>
      simp only at h
      split at h
      · cases h
        refine .inr ⟨_, _, rfl, ?_⟩
        have hlength := congrArg List.length hrs
        have hsplit := congrArg List.length (List.takeWhile_append_dropWhile (p := isDigit) (l := rs))
        rw [hrest] at hsplit
        simp at hlength hsplit ⊢
        omega
      · cases h
    · cases h
      exact .inl rfl
  · cases h
    exact .inl rfl

/-- A text that stands for itself is one named component where no `match()` is found. -/
theorem parseFieldComponents_named (withMatches : Bool) (n : Nat) (name : List Char)
    (h : standsForItself name = true)
    (hmatch : (if withMatches then matchField name else none) = none) :
    parseFieldComponents withMatches (n + 1) ('.' :: name) =
      .ok [.named (String.ofList name)] := by
  simp only [standsForItself, Bool.and_eq_true, Bool.not_eq_true', List.isEmpty_eq_false_iff,
    Option.isNone_iff_eq_none, decide_eq_true_eq] at h
  obtain ⟨⟨⟨⟨⟨hne, hdot⟩, hempty⟩, hquoted⟩, hnamed⟩, -⟩ := h
  have hdot : '.' ∉ name := by simpa using hdot
  rw [parseFieldComponents, if_neg (by rw [hempty]; exact Bool.false_ne_true)]
  simp only [hmatch, hquoted, Option.none_or, unquotedField_of_noDot name hne hdot, hnamed, bind,
    Except.bind, pure, Except.pure]
  cases n <;> rfl

/-- With `match()` parts, it is one component without an index. -/
theorem parseFieldComponents_matches (n : Nat) (name : List Char)
    (h : standsForItself name = true) :
    ∃ part, parseFieldComponents true (n + 1) ('.' :: name) = .ok [part] ∧
      ∀ base index, part ≠ .indexed base index := by
  cases hm : matchField name with
  | none =>
    exact ⟨_, parseFieldComponents_named true n name h (by simpa using hm), by simp⟩
  | some found =>
    obtain ⟨rx, rest⟩ := found
    simp only [standsForItself, Bool.and_eq_true, Bool.not_eq_true', hm] at h
    obtain ⟨⟨⟨⟨⟨-, -⟩, hempty⟩, -⟩, -⟩, hrest⟩ := h
    have hrest : rest = [] := by simpa using hrest
    subst hrest
    refine ⟨.pattern (String.ofList rx), ?_, by simp⟩
    rw [parseFieldComponents, if_neg (by rw [hempty]; exact Bool.false_ne_true)]
    simp only [if_true, hm, bind, Except.bind, pure, Except.pure]
    cases n <;> rfl

theorem parseFieldComponents_cons (withMatches : Bool) (n : Nat) (cs : List Char)
    (parts : List Part) (hmatch : (if withMatches then matchField cs else none) = none)
    (h : parseFieldComponents withMatches (n + 1) ('.' :: cs) = .ok parts) :
    "\"\"".toList.isPrefixOf cs = false ∧ ∃ name rest part parts',
      (quotedField cs).or (unquotedField cs) = some (name, rest) ∧ indexOrName name = .ok part ∧
        parseFieldComponents withMatches n rest = .ok parts' ∧ parts = part :: parts' := by
  rw [parseFieldComponents] at h
  split at h
  · cases h
  · next hempty =>
    refine ⟨Bool.eq_false_iff.mpr hempty, ?_⟩
    rw [hmatch] at h
    simp only at h
    split at h
    · next name rest hfound =>
      obtain ⟨part, hpart, h⟩ := (QueryExpansion.bind_eq_ok _ _ _).mp h
      obtain ⟨parts', hparts', h⟩ := (QueryExpansion.bind_eq_ok _ _ _).mp h
      cases h
      exact ⟨name, rest, part, parts', hfound, hpart, hparts', rfl⟩
    · cases h

theorem closeMatch_suffix (group cs rx rest : List Char)
    (h : closeMatch group cs = some (rx, rest)) : rest <:+ cs := by
  induction cs generalizing group with
  | nil => simp [closeMatch] at h
  | cons c cs ih =>
    rw [closeMatch] at h
    cases hlater : closeMatch (group ++ [c]) cs with
    | some found =>
      rw [hlater] at h
      cases h
      exact (ih _ hlater).trans (List.suffix_cons c cs)
    | none =>
      rw [hlater, Option.none_or] at h
      split at h
      · cases h
        exact (List.tail_suffix cs).trans (List.suffix_cons c cs)
      · cases h

theorem matchField_suffix (cs rx rest : List Char) (h : matchField cs = some (rx, rest)) :
    rest <:+ cs := by
  unfold matchField at h
  split at h
  · exact (closeMatch_suffix [] _ rx rest h).trans (List.drop_suffix 7 cs)
  · cases h

theorem parseFieldComponents_head (withMatches : Bool) (n : Nat) (c : Char) (cs : List Char)
    (parts : List Part) (hc : c ≠ '.')
    (h : parseFieldComponents withMatches n (c :: cs) = .ok parts) : False := by
  unfold parseFieldComponents at h
  split at h <;> simp_all

/-- A text that reads as one component as long as it is stands for itself. -/
theorem standsForItself_of_parse (n : Nat) (name : List Char) (parts parts' : List Part)
    (x : String) (h : parseFieldComponents false (n + 1) ('.' :: name) = .ok parts)
    (hname : parts.filterMap partName = [x]) (hx : x.toList.length = name.length)
    (h' : parseFieldComponents true (n + 1) ('.' :: name) = .ok parts') :
    standsForItself name = true := by
  obtain ⟨hempty, text, rest, part, others, hfound, hpart, -, rfl⟩ :=
    parseFieldComponents_cons false n name parts rfl h
  -- the component keeps all of the text
  have hstarts : text <+: name ∨ text.length < name.length := by
    cases hquoted : quotedField name with
    | some found =>
      rw [hquoted] at hfound
      cases hfound
      exact .inr (quotedField_length name text rest hquoted)
    | none =>
      rw [hquoted, Option.none_or] at hfound
      exact .inl (prefix_of_unquotedField name text rest hfound)
  have hshort : text.length ≤ name.length := hstarts.elim (·.length_le) (·.le)
  have hwhole : part = .named (String.ofList text) ∧ text.length = name.length := by
    obtain rfl | ⟨y, index, rfl, hlt⟩ := indexOrName_cases text part hpart
    · simp only [List.filterMap_cons, partName] at hname
      rw [← (List.cons.inj hname).1, String.toList_ofList] at hx
      exact ⟨rfl, hx⟩
    · simp only [List.filterMap_cons, partName] at hname
      rw [(List.cons.inj hname).1] at hlt
      omega
  obtain ⟨rfl, hlength⟩ := hwhole
  have hsame : text = name := by
    rcases hstarts with hstarts | hlt
    · exact hstarts.eq_of_length hlength
    · omega
  subst hsame
  have hquoted : quotedField text = none := by
    cases hquoted : quotedField text with
    | none => rfl
    | some found =>
      rw [hquoted] at hfound
      cases hfound
      exact absurd (quotedField_length text text rest hquoted) (lt_irrefl _)
  rw [hquoted, Option.none_or] at hfound
  obtain ⟨hne, hdot⟩ := unquotedField_whole text rest hfound
  have hmatch : (matchField text).all (fun (_, rest) => rest.isEmpty) = true := by
    cases hm : matchField text with
    | none => rfl
    | some found =>
      obtain ⟨rx, after⟩ := found
      cases after with
      | nil => rfl
      | cons c after =>
        have hc : c ≠ '.' := by
          rintro rfl
          exact hdot ((matchField_suffix text rx _ hm).subset List.mem_cons_self)
        rw [parseFieldComponents, if_neg (by rw [hempty]; exact Bool.false_ne_true)] at h'
        simp only [if_true, hm] at h'
        obtain ⟨others, hothers, -⟩ := (QueryExpansion.bind_eq_ok _ _ _).mp h'
        exact absurd hothers fun h => parseFieldComponents_head true n c after others hc h
  have hne : text.isEmpty = false := by simpa using hne
  have hdot : text.contains '.' = false := by simpa using hdot
  rw [standsForItself, hne, hdot, hempty, hquoted, hpart, hmatch]
  simp

end Components

end OpenVoxDB.FieldSyntax
