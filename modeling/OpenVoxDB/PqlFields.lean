import Mathlib
import OpenVoxDB.FieldRoundTrips

/-!
# Dotted fields of PQL

The grammar of PQL has its own regular expressions for the components of a dotted
field. `transform-field` joins them again, and the query engine takes the field apart
with those of `parse-field`.
-/

namespace OpenVoxDB.PqlFields

open QueryExpansion (Part)
open FieldSyntax

/-- `\s` -/
def isSpace (c : Char) : Bool := c ∈ [' ', '\t', '\n', '\x0b', '\x0c', '\r']

/-- What `.` does not match. -/
def isLineTerminator (c : Char) : Bool := c ∈ ['\n', '\r', '\u0085', '\u2028', '\u2029']

/-- What stands up to the first quote before a dot or white space. -/
def closeQuotedfield (group : List Char) : List Char → Option (List Char × List Char)
  | [] => none
  | c :: cs =>
    if c = '"' && cs.head?.any (fun d => d = '.' || isSpace d) then some (group, cs)
    else if isLineTerminator c then none
    else closeQuotedfield (group ++ [c]) cs

/-- `quotedfield` -/
def quotedfield : List Char → Option (List Char × List Char)
  | '"' :: cs => closeQuotedfield [] cs
  | _ => none

/-- What stands up to the first parenthesis. -/
def closeMatchfield (group : List Char) : List Char → Option (List Char × List Char)
  | [] => none
  | c :: cs =>
    if c = ')' then some (group, cs)
    else if isLineTerminator c then none
    else closeMatchfield (group ++ [c]) cs

/-- `matchfield` -/
def matchfield (cs : List Char) : Option (List Char × List Char) :=
  if "match(".toList.isPrefixOf cs then closeMatchfield [] (cs.drop 6) else none

def standardChar (c : Char) : Bool :=
  !isSpace c && !(c ∈ ['.', '"', ',', '[', ']', '!', '<', '=', '>', '~'])

/-- `(\[\d+\])?` -/
def indexSuffix : List Char → Option (List Char × List Char)
  | '[' :: cs =>
    match cs.takeWhile isDigit, cs.dropWhile isDigit with
    | d :: ds, ']' :: rest => some (d :: ds, rest)
    | _, _ => none
  | _ => none

/-- A component of a dotted field. -/
inductive FieldToken where
  | quotedfield (w : List Char)
  | standardfield (base : List Char) (digits : Option (List Char))
  | matchfield (b : List Char)

/-- `standardfield` -/
def standardfield (cs : List Char) : Option (FieldToken × List Char) :=
  match cs.takeWhile standardChar with
  | [] => none
  | c :: base =>
    match indexSuffix (cs.dropWhile standardChar) with
    | some (digits, rest) => some (.standardfield (c :: base) (some digits), rest)
    | none => some (.standardfield (c :: base) none, cs.dropWhile standardChar)

/-- `quotedfield | standardfield | matchfield`, where each matches at most one text. -/
def PathComponent (cs : List Char) (token : FieldToken) (rest : List Char) : Prop :=
  (∃ w, quotedfield cs = some (w, rest) ∧ token = .quotedfield w) ∨
    standardfield cs = some (token, rest) ∨
      ∃ b, matchfield cs = some (b, rest) ∧ token = .matchfield b

/-- `fieldpath` -/
inductive Fieldpath : List Char → List FieldToken → List Char → Prop where
  | last {cs rest : List Char} {token : FieldToken} :
      PathComponent cs token rest → Fieldpath ('.' :: cs) [token] rest
  | cons {cs next rest : List Char} {token : FieldToken} {tokens : List FieldToken} :
      PathComponent cs token next → Fieldpath next tokens rest →
        Fieldpath ('.' :: cs) (token :: tokens) rest

def FieldToken.text : FieldToken → List Char
  | quotedfield w => '"' :: (w ++ ['"'])
  | standardfield base none => base
  | standardfield base (some digits) => base ++ '[' :: (digits ++ [']'])
  | matchfield b => "match(".toList ++ (b ++ [')'])

/-- `transform-field` -/
def transformField (dottedfield : String) (fieldpath : List FieldToken) : String :=
  ".".intercalate (dottedfield :: fieldpath.map fun token => String.ofList token.text)

/-- What the component says. -/
def FieldToken.part : FieldToken → Part
  | quotedfield w => .named (String.ofList w)
  | standardfield base none => .named (String.ofList base)
  | standardfield base (some digits) =>
    .indexed (String.ofList base) (Nat.ofDigitChars 10 digits 0)
  | matchfield b => .pattern (String.ofList (innerQuotes b))

def FieldToken.component : FieldToken → FieldSyntax.Component
  | quotedfield w => .quoted w
  | standardfield base none => .plain base
  | standardfield base (some digits) => .plain (base ++ '[' :: (digits ++ [']']))
  | matchfield b => .matching b

theorem text_component (token : FieldToken) : token.component.text = token.text := by
  cases token with
  | quotedfield w => rfl
  | matchfield b => rfl
  | standardfield base digits => cases digits <;> rfl

/-! ## What the regular expressions accept -/

theorem closeQuotedfield_spec (group cs w rest : List Char)
    (h : closeQuotedfield group cs = some (w, rest)) :
    ∃ g, cs = g ++ '"' :: rest ∧ w = group ++ g ∧ ∀ g' r, g ≠ g' ++ '"' :: '.' :: r := by
  induction cs generalizing group with
  | nil => simp [closeQuotedfield] at h
  | cons c cs ih =>
    rw [closeQuotedfield] at h
    split at h
    · next hclose =>
      simp only [Bool.and_eq_true, decide_eq_true_eq] at hclose
      cases h
      exact ⟨[], by rw [hclose.1]; rfl, by simp, by simp⟩
    · next hopen =>
      split at h
      · cases h
      · obtain ⟨g, rfl, rfl, hg⟩ := ih _ h
        refine ⟨c :: g, by simp, by simp, ?_⟩
        intro g' r hcut
        cases g' with
        | cons d g' => exact hg g' r (List.cons.inj hcut).2
        | nil =>
          -- the quote would have ended the text
          obtain ⟨rfl, rfl⟩ := List.cons.inj hcut
          simp at hopen

theorem mem_of_indexSuffix (cs digits rest : List Char)
    (h : indexSuffix cs = some (digits, rest)) : digits ≠ [] ∧ ∀ d ∈ digits, isDigit d := by
  unfold indexSuffix at h
  split at h
  · split at h
    · next hdigits _ =>
      cases h
      refine ⟨by simp, fun d hd => ?_⟩
      rw [← hdigits] at hd
      exact List.mem_takeWhile_imp hd
    · cases h
  · cases h

/-- What the grammar says of the components it accepts. -/
def FieldToken.Accepted : FieldToken → Prop
  | quotedfield w => ∀ g r, w ≠ g ++ '"' :: '.' :: r
  | standardfield base digits => base ≠ [] ∧ (∀ c ∈ base, standardChar c) ∧
      ∀ ds, digits = some ds → ds ≠ [] ∧ ∀ d ∈ ds, isDigit d
  | matchfield _ => True

theorem accepted_standardfield (cs rest : List Char) (token : FieldToken)
    (h : standardfield cs = some (token, rest)) : token.Accepted := by
  unfold standardfield at h
  split at h
  · cases h
  · next c base hbase =>
    have hall : ∀ d ∈ c :: base, standardChar d := by
      intro d hd
      rw [← hbase] at hd
      exact List.mem_takeWhile_imp hd
    split at h
    · next digits rest hsuffix =>
      cases h
      refine ⟨by simp, hall, ?_⟩
      rintro ds ⟨⟩
      exact mem_of_indexSuffix _ _ _ hsuffix
    · cases h
      exact ⟨by simp, hall, by simp⟩

theorem accepted_pathComponent (cs rest : List Char) (token : FieldToken)
    (h : PathComponent cs token rest) : token.Accepted := by
  obtain ⟨w, hquoted, rfl⟩ | hstandard | ⟨b, -, rfl⟩ := h
  · unfold quotedfield at hquoted
    split at hquoted
    · obtain ⟨g, -, rfl, hg⟩ := closeQuotedfield_spec [] _ _ _ hquoted
      exact hg
    · cases hquoted
  · exact accepted_standardfield cs rest token hstandard
  · trivial

theorem Fieldpath.accepted {cs rest : List Char} {tokens : List FieldToken}
    (h : Fieldpath cs tokens rest) : ∀ token ∈ tokens, token.Accepted := by
  induction h with
  | last hcomponent => simpa using accepted_pathComponent _ _ _ hcomponent
  | cons hcomponent _ ih => simpa using ⟨accepted_pathComponent _ _ _ hcomponent, ih⟩

/-! ## Reading them again -/

theorem standardChar_spec (c : Char) (h : standardChar c) :
    c ≠ '.' ∧ c ≠ '"' ∧ c ≠ '[' ∧ c ≠ ']' := by
  refine ⟨?_, ?_, ?_, ?_⟩
  all_goals
    rintro rfl
    exact absurd h (by decide)

theorem isDigit_ne (c : Char) (h : isDigit c) : c ≠ '.' ∧ c ≠ '"' := by
  constructor
  all_goals
    rintro rfl
    exact absurd h (by decide)

/-- A name without quotes is always read as itself. -/
theorem reads_plain (w : List Char) (later : List FieldSyntax.Component) (hne : w ≠ [])
    (hquote : '"' ∉ w) : (FieldSyntax.Component.plain w).Reads later := by
  refine ⟨hne, ?_, ?_, ?_⟩
  · rintro ⟨rest, rfl⟩
    simp at hquote
  · rintro g rfl
    simp at hquote
  · rintro g rfl
    exact absurd (List.mem_append_left g (by decide)) hquote

/-- A dotted field is read as PQL reads it up to this component. -/
def FieldToken.Reads (later : List FieldToken) : FieldToken → Prop
  | quotedfield w => closable w ∧ w.head? ≠ some '"' ∧ ¬ HasIndex w
  | standardfield _ none => True
  | standardfield _ (some digits) => Nat.ofDigitChars 10 digits 0 < 2 ^ 31
  | matchfield b => ∃ w, b = '"' :: (w ++ ['"']) ∧ closable w ∧
      ¬ Ending ['"', ')'] (later.map FieldToken.component)

def AllRead : List FieldToken → Prop
  | [] => True
  | token :: later => token.Reads later ∧ AllRead later

theorem FieldToken.Accepted.writes {token : FieldToken} (h : token.Accepted) :
    token.component.Writes token.part := by
  cases token with
  | quotedfield w => simp [component, part, FieldSyntax.Component.Writes, Spells]
  | matchfield b => rfl
  | standardfield base digits =>
    obtain ⟨-, hbase, hdigits⟩ := h
    have hdot : '.' ∉ base := fun hmem => (standardChar_spec _ (hbase _ hmem)).1 rfl
    cases digits with
    | none => exact ⟨hdot, by simp [part, Spells]⟩
    | some ds =>
      obtain ⟨hne, hds⟩ := hdigits ds rfl
      have hdot' : '.' ∉ ds := fun hmem => (isDigit_ne _ (hds _ hmem)).1 rfl
      exact ⟨by simp [hdot, hdot'], ds, hne, hds, by simp⟩

theorem reads_component_iff (token : FieldToken) (later : List FieldToken) (h : token.Accepted) :
    token.component.Reads (later.map FieldToken.component) ∧
        token.component.part = .ok token.part ↔ token.Reads later := by
  cases token with
  | quotedfield w =>
    rw [FieldToken.component, FieldToken.part, FieldSyntax.Component.part, indexOrName_named_iff]
    constructor
    · rintro ⟨⟨hclosable, hhead, -⟩, hindex⟩
      exact ⟨hclosable, hhead, hindex⟩
    · rintro ⟨hclosable, hhead, hindex⟩
      exact ⟨⟨hclosable, hhead, fun g r hw => absurd hw (h g r)⟩, hindex⟩
  | matchfield b =>
    rw [FieldToken.component, FieldToken.part, FieldSyntax.Component.part]
    exact and_iff_left rfl
  | standardfield base digits =>
    obtain ⟨hne, hbase, hdigits⟩ := h
    have hquote : '"' ∉ base := fun hmem => (standardChar_spec _ (hbase _ hmem)).2.1 rfl
    cases digits with
    | none =>
      refine iff_of_true ⟨reads_plain base _ hne hquote, ?_⟩ trivial
      rw [FieldToken.component, FieldToken.part, FieldSyntax.Component.part, indexOrName_named_iff]
      rintro ⟨name, ds, -, -, -, rfl⟩
      exact (standardChar_spec '[' (hbase '[' (by simp))).2.2.1 rfl
    | some ds =>
      obtain ⟨hds, hall⟩ := hdigits ds rfl
      have hquote' : '"' ∉ ds := fun hmem => (isDigit_ne _ (hall _ hmem)).2 rfl
      have hreads := reads_plain (base ++ '[' :: (ds ++ [']']))
        (later.map FieldToken.component) (by simp) (by simp [hquote, hquote'])
      rw [FieldToken.component, FieldToken.part, FieldSyntax.Component.part,
        indexOrName_bracket base ds hne hds hall, FieldToken.Reads, and_iff_right hreads]
      split
      · next hi => exact iff_of_true rfl hi
      · next hi => exact iff_of_false (by simp) hi

theorem readable_component_iff (tokens : List FieldToken) (h : ∀ token ∈ tokens, token.Accepted) :
    (Readable (tokens.map FieldToken.component) ∧
        ∀ token ∈ tokens, token.component.part = .ok token.part) ↔ AllRead tokens := by
  induction tokens with
  | nil => simp [Readable, AllRead]
  | cons token later ih =>
    have hfirst := reads_component_iff token later (h token (by simp))
    have hlater := ih fun token htoken => h token (by simp [htoken])
    rw [List.map_cons, Readable, AllRead, List.forall_mem_cons, ← hfirst, ← hlater]
    tauto

theorem transformField_eq (dottedfield : String) (tokens : List FieldToken) :
    transformField dottedfield tokens =
      dottedfield ++ String.ofList (componentsText (tokens.map FieldToken.component)) := by
  rw [transformField, ← intercalate_dot, List.map_map]
  congr 2
  exact List.map_congr_left fun token _ => by rw [Function.comp_apply, text_component]

/-- The field that PQL joins is read component by component, each of its kind and with its text,
exactly when quoted names are plain ones, indexes fit an `Integer` and each `match()` has a quoted
pattern and nothing after it could end it. -/
theorem parseField_transformField_iff (dottedfield : String)
    (hfield : dottedfield ∈ ["facts", "trusted", "parameters"]) (cs rest : List Char)
    (tokens : List FieldToken) (hpath : Fieldpath cs tokens rest) :
    parseField true (transformField dottedfield tokens) =
        .ok (.named dottedfield :: tokens.map FieldToken.part) ↔ AllRead tokens := by
  have htop : TopName dottedfield := by
    simp only [List.mem_cons, List.not_mem_nil, or_false] at hfield
    obtain rfl | rfl | rfl := hfield
    all_goals
      rw [TopName]
      decide
  have hread := parseField_iff dottedfield htop
    (tokens.map fun token => (token.component, token.part))
    (by simpa using fun token htoken => (hpath.accepted token htoken).writes)
  simp only [List.map_map, List.forall_mem_map] at hread
  rw [transformField_eq, ← readable_component_iff tokens hpath.accepted]
  exact hread

/-- The field `facts.a[3].b ` up to its last blank. -/
theorem parseField_transformField_iff_indexed :
    parseField true (transformField "facts"
        [.standardfield ['a'] (some ['3']), .standardfield ['b'] none]) =
      .ok (.named "facts" ::
        [FieldToken.standardfield ['a'] (some ['3']), .standardfield ['b'] none].map
          FieldToken.part) ↔
      AllRead [.standardfield ['a'] (some ['3']), .standardfield ['b'] none] :=
  parseField_transformField_iff "facts" (by simp) ".a[3].b ".toList [' '] _
    (@Fieldpath.cons _ ".b ".toList _ _ _ (.inr (.inl (by rfl))) (.last (.inr (.inl (by rfl)))))

/-- Two `match()` components of PQL are one for `parse-field`. -/
theorem parseField_transformField_fails :
    Fieldpath ".match(\"a\").match(\"b\") ".toList
        [.matchfield ['"', 'a', '"'], .matchfield ['"', 'b', '"']] [' '] ∧
      parseField true (transformField "facts"
        [.matchfield ['"', 'a', '"'], .matchfield ['"', 'b', '"']]) =
          .ok [.named "facts", .pattern "a\").match(\"b"] := by
  refine ⟨?_, by decide +kernel⟩
  exact @Fieldpath.cons _ ".match(\"b\") ".toList _ _ _ (.inr (.inr ⟨['"', 'a', '"'], by rfl, rfl⟩))
    (.last (.inr (.inr ⟨['"', 'b', '"'], by rfl, rfl⟩)))

end OpenVoxDB.PqlFields
