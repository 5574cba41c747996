import Mathlib
import OpenVoxDB.FieldComponents

/-!
# Printing and reading dotted fields

Parts printed with the documented syntax are read back exactly when no quote or
`match()` runs past its component and no name looks like a name with an index. The
printer of `query-eng.parse` is the case of plain names, of which it refuses some.
-/

namespace OpenVoxDB.FieldSyntax

open QueryExpansion (Part fieldStr quotePathName unquotableFieldSegment)

/-- A name that `index-or-name` takes for a name with an index. -/
def HasIndex (w : List Char) : Prop :=
  ∃ name digits, name ≠ [] ∧ digits ≠ [] ∧ (∀ d ∈ digits, isDigit d) ∧
    w = name ++ '[' :: (digits ++ [']'])

theorem indexOrName_bracket (name digits : List Char) (hname : name ≠ []) (hne : digits ≠ [])
    (hdigits : ∀ d ∈ digits, isDigit d) :
    indexOrName (name ++ '[' :: (digits ++ [']'])) =
      if Nat.ofDigitChars 10 digits 0 < 2 ^ 31 then
        .ok (.indexed (String.ofList name) (Nat.ofDigitChars 10 digits 0))
      else .error "For input string" := by
  have hreverse : (name ++ '[' :: (digits ++ [']'])).reverse =
      ']' :: (digits.reverse ++ '[' :: name.reverse) := by simp
  have hall : ∀ d ∈ digits.reverse, isDigit d := by simpa using hdigits
  have hbracket : isDigit '[' = false := by decide
  rw [indexOrName, hreverse]
  simp only
  rw [List.takeWhile_append_of_pos hall, List.dropWhile_append_of_pos hall,
    List.takeWhile_cons_of_neg (by simp [hbracket]), List.dropWhile_cons_of_neg (by simp [hbracket]),
    List.append_nil]
  obtain ⟨d, ds, hds⟩ : ∃ d ds, digits.reverse = d :: ds :=
    List.exists_cons_of_ne_nil (by simpa using hne)
  obtain ⟨c, cs, hcs⟩ : ∃ c cs, name.reverse = c :: cs :=
    List.exists_cons_of_ne_nil (by simpa using hname)
  have hvalue : (d :: ds).foldr (fun d n => 10 * n + (d.toNat - '0'.toNat)) 0 =
      Nat.ofDigitChars 10 digits 0 := by
    rw [← hds, List.foldr_reverse, Nat.ofDigitChars]
  have hback : (c :: cs).reverse = name := by rw [← hcs, List.reverse_reverse]
  rw [hds, hcs]
  simp only [hvalue, hback]

theorem indexOrName_named_iff (w : List Char) :
    indexOrName w = .ok (.named (String.ofList w)) ↔ ¬ HasIndex w := by
  constructor
  · rintro h ⟨name, digits, hname, hne, hdigits, rfl⟩
    rw [indexOrName_bracket name digits hname hne hdigits] at h
    split at h <;> cases h
  · intro h
    unfold indexOrName
    split
    · next rs hrs =>
      split
      · next d ds c name hdigits hrest =>
        refine absurd ⟨(c :: name).reverse, (d :: ds).reverse, by simp, by simp, ?_, ?_⟩ h
        · intro x hx
          rw [List.mem_reverse, ← hdigits] at hx
          exact List.mem_takeWhile_imp hx
        · have hsplit := List.takeWhile_append_dropWhile (p := isDigit) (l := rs)
          rw [hdigits, hrest] at hsplit
          rw [← List.reverse_reverse w, hrs, ← hsplit]
          simp
      · rfl
    · rfl

/-! ## The documented syntax -/

/-- The text of a part between its quotes, if it has any. -/
def partText : Part → List Char
  | .named name => name.toList
  | .indexed name i => name.toList ++ '[' :: ((toString i).toList ++ [']'])
  | .pattern rx => rx.toList

/-- Print a part in the documented syntax, in quotes where its text needs them. -/
def printPart (needsQuotes : List Char → Bool) (part : Part) : Component :=
  match part with
  | .pattern rx => .matching ('"' :: (rx.toList ++ ['"']))
  | part => if needsQuotes (partText part) then .quoted (partText part) else .plain (partText part)

def printField (needsQuotes : List Char → Bool) (top : String) (parts : List Part) : String :=
  top ++ String.ofList (componentsText (parts.map (printPart needsQuotes)))

/-- A part whose text alone is read as the part. -/
def Distinct : Part → Prop
  | .named name => ¬ HasIndex name.toList
  | .indexed name i => name ≠ "" ∧ i < 2 ^ 31
  | .pattern _ => True

theorem digits_toString (i : Nat) :
    (toString i).toList ≠ [] ∧ (∀ d ∈ (toString i).toList, isDigit d) ∧
      Nat.ofDigitChars 10 (toString i).toList 0 = i := by
  rw [Nat.toString_eq_ofList_toDigits, String.toList_ofList]
  refine ⟨Nat.toDigits_ne_nil, ?_, Nat.ofDigitChars_ten_toDigits⟩
  intro d hd
  have hdigit := Nat.isDigit_of_mem_toDigits (b := 10) (by decide) (by decide) hd
  simpa [isDigit, Char.isDigit, Char.le_def] using hdigit

/-- An index is read where the name before it is not empty and it fits an `Integer`. -/
theorem indexOrName_partText (part : Part) (hpart : ∀ rx, part ≠ .pattern rx) :
    indexOrName (partText part) = .ok part ↔ Distinct part := by
  cases part with
  | pattern rx => exact absurd rfl (hpart rx)
  | named name =>
    have h := indexOrName_named_iff name.toList
    rwa [String.ofList_toList] at h
  | indexed name i =>
    obtain ⟨hne, hdigits, hvalue⟩ := digits_toString i
    rw [partText, Distinct]
    by_cases hname : name = ""
    · subst hname
      refine iff_of_false ?_ fun h => h.1 rfl
      have hnone : ¬ HasIndex ('[' :: ((toString i).toList ++ [']'])) := by
        rintro ⟨name, digits, hname, -, -, heq⟩
        obtain ⟨c, name, rfl⟩ := List.exists_cons_of_ne_nil hname
        have htail := (List.cons.inj heq).2
        have hmem : '[' ∈ (toString i).toList ++ [']'] := by rw [htail]; simp
        obtain hmem | hmem := List.mem_append.mp hmem
        · exact absurd (hdigits '[' hmem) (by decide)
        · simp at hmem
      rw [String.toList_empty, List.nil_append, (indexOrName_named_iff _).mpr hnone]
      simp
    · rw [indexOrName_bracket _ _ (by simpa using hname) hne hdigits, hvalue, String.ofList_toList]
      split
      · next hi => exact iff_of_true rfl ⟨hname, hi⟩
      · next hi => exact iff_of_false (by simp) fun h => hi h.2

theorem spells_partText (part : Part) (hpart : ∀ rx, part ≠ .pattern rx) :
    Spells (partText part) part := by
  cases part with
  | pattern rx => exact absurd rfl (hpart rx)
  | named name => rfl
  | indexed name i =>
    obtain ⟨hne, hdigits, -⟩ := digits_toString i
    exact ⟨_, hne, hdigits, rfl⟩

theorem innerQuotes_quotes (w : List Char) : innerQuotes ('"' :: (w ++ ['"'])) = w := by
  simp [innerQuotes]

theorem printPart_writes (needsQuotes : List Char → Bool)
    (hdot : ∀ w, '.' ∈ w → needsQuotes w = true) (part : Part) :
    (printPart needsQuotes part).Writes part := by
  have hplain : ∀ part : Part, (∀ rx, part ≠ .pattern rx) →
      (if needsQuotes (partText part) then Component.quoted (partText part)
        else .plain (partText part)).Writes part := by
    intro part hpart
    split
    · exact spells_partText part hpart
    · next hquotes => exact ⟨fun hmem => hquotes (hdot _ hmem), spells_partText part hpart⟩
  cases part with
  | pattern rx => rw [printPart, Component.Writes, innerQuotes_quotes, String.ofList_toList]
  | named name => exact hplain _ (by simp)
  | indexed name i => exact hplain _ (by simp)

theorem part_printPart_iff (needsQuotes : List Char → Bool) (part : Part) :
    (printPart needsQuotes part).part = .ok part ↔ Distinct part := by
  have hplain : ∀ part : Part, (∀ rx, part ≠ .pattern rx) →
      ((if needsQuotes (partText part) then Component.quoted (partText part)
        else .plain (partText part)).part = .ok part ↔ Distinct part) := by
    intro part hpart
    rw [← indexOrName_partText part hpart]
    split <;> rfl
  cases part with
  | pattern rx =>
    rw [printPart, Component.part, innerQuotes_quotes, String.ofList_toList]
    exact iff_of_true rfl trivial
  | named name => exact hplain _ (by simp)
  | indexed name i => exact hplain _ (by simp)

/-- Printed parts are read back exactly when their texts are distinct from those of other parts
and no component is read as another one or runs into a later one. -/
theorem parseField_printField_iff (needsQuotes : List Char → Bool)
    (hdot : ∀ w, '.' ∈ w → needsQuotes w = true) (top : String) (htop : TopName top)
    (parts : List Part) :
    parseField true (printField needsQuotes top parts) = .ok (.named top :: parts) ↔
      Readable (parts.map (printPart needsQuotes)) ∧ ∀ part ∈ parts, Distinct part := by
  have h := parseField_iff top htop (parts.map fun part => (printPart needsQuotes part, part))
    (by simpa using fun part _ => printPart_writes needsQuotes hdot part)
  simp only [List.map_map, List.forall_mem_map, part_printPart_iff] at h
  have hfst : (Prod.fst ∘ fun part => (printPart needsQuotes part, part)) =
      printPart needsQuotes := rfl
  have hsnd : (Prod.snd ∘ fun part : Part => (printPart needsQuotes part, part)) = id := rfl
  rw [hfst, hsnd, List.map_id] at h
  exact h

theorem parseField_printField_iff_quoted :
    parseField true (printField (fun w => decide ('.' ∈ w)) "facts"
        [.named "x.y", .indexed "z" 3, .pattern "sd.*"]) =
          .ok [.named "facts", .named "x.y", .indexed "z" 3, .pattern "sd.*"] ↔
      Readable ([.named "x.y", .indexed "z" 3, .pattern "sd.*"].map
          (printPart fun w => decide ('.' ∈ w))) ∧
        ∀ part ∈ [Part.named "x.y", .indexed "z" 3, .pattern "sd.*"], Distinct part :=
  parseField_printField_iff (fun w => decide ('.' ∈ w)) (by simp) "facts"
    (by rw [TopName]; decide) _

/-- The first of two `match()` parts runs to the end of the second. -/
theorem parseField_printField_fails :
    printField (fun w => decide ('.' ∈ w)) "facts" [.pattern "a", .pattern "b"] =
        "facts.match(\"a\").match(\"b\")" ∧
      parseField true "facts.match(\"a\").match(\"b\")" =
        .ok [.named "facts", .pattern "a\").match(\"b"] := by
  decide +kernel

/-! ## Names of fact paths -/

/-- A name as `path-names->field-str` writes it. -/
def nameComponent (name : String) : Component :=
  if '.' ∈ name.toList then .quoted name.toList else .plain name.toList

/-- A name that `path-names->field-str` refuses. -/
def Unquotable (name : String) : Prop :=
  '.' ∈ name.toList ∧ name.toList.getLast? = some '\\'

theorem quotePathName_eq (name : String) :
    quotePathName name =
      if '.' ∈ name.toList ∧ name.toList.getLast? = some '\\' then
        .error (unquotableFieldSegment name)
      else .ok (String.ofList (nameComponent name).text) := by
  rw [quotePathName, nameComponent]
  by_cases hdot : '.' ∈ name.toList
  · have hcontains : name.toList.contains '.' = true := by simpa using hdot
    rw [if_pos hcontains]
    by_cases hlast : name.toList.getLast? = some '\\'
    · rw [if_pos hlast, if_pos ⟨hdot, hlast⟩]
    · rw [if_neg hlast, if_neg fun h => hlast h.2, if_pos hdot, Component.text]
      congr 1
      rw [← String.toList_inj]
      simp
  · have hcontains : ¬ name.toList.contains '.' = true := by simpa using hdot
    rw [if_neg hcontains, if_neg fun h => hdot h.1, if_neg hdot, Component.text,
      String.ofList_toList]

theorem mapM_quotePathName (names : List String) :
    (∃ name ∈ names, Unquotable name ∧
        names.mapM quotePathName = .error (unquotableFieldSegment name)) ∨
      ((∀ name ∈ names, ¬ Unquotable name) ∧
        names.mapM quotePathName =
          .ok (names.map fun name => String.ofList (nameComponent name).text)) := by
  induction names with
  | nil => exact .inr ⟨by simp, rfl⟩
  | cons name names ih =>
    rw [List.mapM_cons, quotePathName_eq]
    by_cases hname : '.' ∈ name.toList ∧ name.toList.getLast? = some '\\'
    · exact .inl ⟨name, by simp, hname, by rw [if_pos hname]; rfl⟩
    · rw [if_neg hname]
      obtain ⟨other, hother, hunquotable, hmap⟩ | ⟨hall, hmap⟩ := ih
      · exact .inl ⟨other, by simp [hother], hunquotable, by rw [hmap]; rfl⟩
      · refine .inr ⟨?_, by rw [hmap]; rfl⟩
        simpa using ⟨hname, hall⟩

theorem TopName.noDot {top : String} (h : TopName top) : '.' ∉ top.toList := by
  have hword : ∀ d, wordChar d → d ≠ '.' := by
    rintro d hd rfl
    exact absurd hd (by decide)
  obtain ⟨c, w, hc, hw, htop | htop⟩ := h.word
  all_goals
    have hc : c ≠ '.' := hword c (by simp [wordChar, hc])
    have hw : '.' ∉ w := fun hmem => hword '.' (hw '.' hmem) rfl
    rw [htop]
    simp [hc.symm, hw]

theorem intercalate_dot (top : String) (cs : List Component) :
    ".".intercalate (top :: cs.map fun c => String.ofList c.text) =
      top ++ String.ofList (componentsText cs) := by
  rw [← String.toList_inj, String.toList_intercalate, String.toList_append, String.toList_ofList]
  induction cs generalizing top with
  | nil => simp
  | cons c cs ih =>
    have ih := ih (String.ofList c.text)
    rw [componentsText_cons]
    simp only [List.map_cons, String.toList_ofList] at ih ⊢
    rw [List.intercalate_cons_cons, ih]
    simp

/-- The names are refused, or they are written in the documented syntax. -/
theorem fieldStr_cases (top : String) (htop : TopName top) (names : List String) :
    (∃ name ∈ names, Unquotable name ∧
        fieldStr (top :: names) = .error (unquotableFieldSegment name)) ∨
      ((∀ name ∈ names, ¬ Unquotable name) ∧ fieldStr (top :: names) =
        .ok (top ++ String.ofList (componentsText (names.map nameComponent)))) := by
  have hquote : quotePathName top = .ok top := by
    rw [quotePathName_eq, if_neg fun h => htop.noDot h.1, nameComponent, if_neg htop.noDot,
      Component.text, String.ofList_toList]
  rw [fieldStr, List.mapM_cons, hquote]
  obtain ⟨name, hname, hunquotable, hmap⟩ | ⟨hall, hmap⟩ := mapM_quotePathName names
  · exact .inl ⟨name, hname, hunquotable, by rw [hmap]; rfl⟩
  · refine .inr ⟨hall, ?_⟩
    rw [hmap]
    have h := intercalate_dot top (names.map nameComponent)
    rw [List.map_map] at h
    exact congrArg Except.ok h

theorem nameComponent_writes (name : String) : (nameComponent name).Writes (.named name) := by
  rw [nameComponent]
  split
  · exact rfl
  · next hdot => exact ⟨hdot, rfl⟩

theorem part_nameComponent_iff (name : String) :
    (nameComponent name).part = .ok (.named name) ↔ ¬ HasIndex name.toList := by
  have h := indexOrName_named_iff name.toList
  rw [String.ofList_toList] at h
  rw [← h, nameComponent]
  split <;> rfl

/-- The names of a path are refused or read back exactly when one of them cannot be quoted, or no
name looks like a name with an index and each is read as itself before the others. -/
theorem fieldStr_parseField_iff (top : String) (htop : TopName top) (names : List String) :
    ((∃ name ∈ names, Unquotable name ∧
        fieldStr (top :: names) = .error (unquotableFieldSegment name)) ∨
      ∃ field, fieldStr (top :: names) = .ok field ∧
        parseField true field = .ok ((top :: names).map .named)) ↔
      (∃ name ∈ names, Unquotable name) ∨
        (Readable (names.map nameComponent) ∧ ∀ name ∈ names, ¬ HasIndex name.toList) := by
  have hread := parseField_iff top htop (names.map fun name => (nameComponent name, .named name))
    (by simpa using fun name _ => nameComponent_writes name)
  simp only [List.map_map, List.forall_mem_map, part_nameComponent_iff] at hread
  obtain ⟨name, hname, hunquotable, hfield⟩ | ⟨hall, hfield⟩ := fieldStr_cases top htop names
  · exact iff_of_true (.inl ⟨name, hname, hunquotable, hfield⟩) (.inl ⟨name, hname, hunquotable⟩)
  · rw [hfield]
    have hnone : ¬ ∃ name ∈ names, Unquotable name := by
      rintro ⟨name, hname, hunquotable⟩
      exact hall name hname hunquotable
    simp only [reduceCtorEq, and_false, exists_false, false_or, hnone, Except.ok.injEq,
      exists_eq_left']
    exact hread

theorem fieldStr_parseField_iff_dots :
    ((∃ name ∈ ["x.y", "z w"], Unquotable name ∧
        fieldStr ("facts" :: ["x.y", "z w"]) = .error (unquotableFieldSegment name)) ∨
      ∃ field, fieldStr ("facts" :: ["x.y", "z w"]) = .ok field ∧
        parseField true field = .ok (["facts", "x.y", "z w"].map .named)) ↔
      (∃ name ∈ ["x.y", "z w"], Unquotable name) ∨
        (Readable (["x.y", "z w"].map nameComponent) ∧
          ∀ name ∈ ["x.y", "z w"], ¬ HasIndex name.toList) :=
  fieldStr_parseField_iff "facts" (by rw [TopName]; decide) ["x.y", "z w"]

/-- A fact with the name `a[3]` is looked for as the fourth item of a fact named `a`. -/
theorem fieldStr_parseField_fails :
    fieldStr ["facts", "a[3]"] = .ok "facts.a[3]" ∧
      parseField true "facts.a[3]" = .ok [.named "facts", .indexed "a" 3] := by
  decide +kernel

end OpenVoxDB.FieldSyntax
