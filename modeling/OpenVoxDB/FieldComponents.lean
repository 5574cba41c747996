import Mathlib
import OpenVoxDB.FieldTerminators

/-!
# Components of dotted fields

A field is written as a sequence of plain names, quoted names and `match()` calls. The
parts that are read are those that were written exactly when no component is taken for
one of another kind and none ends before or after its own end.
-/

namespace OpenVoxDB.FieldSyntax

open QueryExpansion (Part)

/-- A component as it is written: plain, between quotes, or between `match(` and `)`. -/
inductive Component where
  | plain (w : List Char)
  | quoted (w : List Char)
  | matching (b : List Char)
  deriving DecidableEq

def Component.text : Component → List Char
  | plain w => w
  | quoted w => '"' :: (w ++ ['"'])
  | matching b => "match(".toList ++ (b ++ [')'])

/-- What follows the first component of a field. -/
def componentsText (cs : List Component) : List Char := cs.flatMap fun c => '.' :: c.text

@[simp] theorem componentsText_nil : componentsText [] = [] := rfl

theorem componentsText_cons (c : Component) (cs : List Component) :
    componentsText (c :: cs) = '.' :: (c.text ++ componentsText cs) := rfl

/-- The text before what ends a group, where the group may begin before the text: the terminator
is followed by a dot or by the end of the text, in the last component also by a line terminator. -/
def EndsIn (terminator group w : List Char) (isLast : Bool) : Prop :=
  ∃ g rest, w = g ++ terminator ++ rest ∧ closable (group ++ g) ∧
    (rest = [] ∨ rest.head? = some '.' ∨ isLast ∧ lineEnd rest)

/-- Some component ends a group that began before the components. -/
def Ending (terminator : List Char) : List Component → Prop
  | [] => False
  | c :: later => EndsIn terminator ['.'] c.text later.isEmpty ∨ Ending terminator later

theorem componentEnd_append (rest : List Char) (later : List Component) :
    componentEnd (rest ++ componentsText later) ↔
      rest = [] ∨ rest.head? = some '.' ∨ later.isEmpty ∧ lineEnd rest := by
  rw [componentEnd_iff]
  cases later with
  | nil =>
    have hnil : rest = [] → lineEnd rest := by
      rintro rfl
      decide
    simp only [componentsText_nil, List.append_nil, List.isEmpty_nil, true_and]
    tauto
  | cons c later =>
    rw [componentsText_cons]
    cases rest with
    | nil => simp
    | cons d rest =>
      have hend : ¬ lineEnd (d :: (rest ++ '.' :: (c.text ++ componentsText later))) := by
        intro h
        exact (not_mem_lineEnd _ h).2.2.1 (by simp)
      simp [hend]

theorem closable_append_dot (group g : List Char) :
    closable (group ++ '.' :: g) ↔ closable (['.'] ++ g) := by
  simp [closable, List.getLast?_append]

/-- A terminator stands in the text itself or in a component that follows it. -/
theorem terminated_append_iff (terminator : List Char)
    (hdot : '.' ∉ terminator) (group w : List Char) (later : List Component) :
    Terminated terminator group (w ++ componentsText later) ↔
      EndsIn terminator group w later.isEmpty ∨ Ending terminator later := by
  induction later generalizing group w with
  | nil =>
    simp only [Terminated, EndsIn, Ending, or_false, componentsText_nil, List.append_nil]
    constructor
    · rintro ⟨g, rest, hw, hg, hrest⟩
      have hend := (componentEnd_append rest []).mp (by simpa using hrest)
      exact ⟨g, rest, hw, hg, hend⟩
    · rintro ⟨g, rest, hw, hg, hrest⟩
      have hend := (componentEnd_append rest []).mpr hrest
      exact ⟨g, rest, hw, hg, by simpa using hend⟩
  | cons c later ih =>
    rw [Ending, ← ih]
    constructor
    · rintro ⟨g, rest, heq, hg, hrest⟩
      obtain ⟨a, hgt, htail⟩ | ⟨a, hw, hrest'⟩ := List.append_eq_append_iff.mp heq
      · cases a with
        | nil =>
          refine .inl ⟨g, [], by simpa using hgt.symm, hg, .inl rfl⟩
        | cons d a =>
          rw [componentsText_cons, List.cons_append] at htail
          obtain ⟨rfl, htext⟩ := List.cons.inj htail
          obtain ⟨b, -, hterm⟩ | ⟨b, rfl, hterm⟩ := List.append_eq_append_iff.mp hgt
          · exact absurd (by simp [hterm]) hdot
          · cases b with
            | nil =>
              rw [List.nil_append] at hterm
              exact absurd (by simp [← hterm]) hdot
            | cons d b =>
              rw [List.cons_append] at hterm
              obtain ⟨rfl, rfl⟩ := List.cons.inj hterm
              refine .inr ⟨b, rest, htext, ?_, hrest⟩
              rw [← List.append_assoc] at hg
              exact (closable_append_dot _ b).mp hg
      · rw [hrest'] at hrest
        exact .inl ⟨g, a, hw, hg, (componentEnd_append a _).mp hrest⟩
    · rintro (⟨g, rest, rfl, hg, hrest⟩ | ⟨g, rest, heq, hg, hrest⟩)
      · exact ⟨g, rest ++ componentsText (c :: later), by simp, hg,
          (componentEnd_append rest _).mpr hrest⟩
      · refine ⟨w ++ '.' :: g, rest, by rw [componentsText_cons, heq]; simp, ?_, hrest⟩
        rw [← List.append_assoc]
        exact (closable_append_dot _ g).mpr hg

/-- The component is read as itself before the others. -/
def Component.Reads (later : List Component) : Component → Prop
  | plain w => w ≠ [] ∧ ¬ ['"', '"'] <+: w ∧
      (∀ g, w = '"' :: g → ¬ (EndsIn ['"'] [] g later.isEmpty ∨ Ending ['"'] later)) ∧
      ∀ g, w = "match(\"".toList ++ g →
        ¬ (EndsIn ['"', ')'] [] g later.isEmpty ∨ Ending ['"', ')'] later)
  | quoted w => closable w ∧ w.head? ≠ some '"' ∧ ∀ g r, w = g ++ '"' :: '.' :: r → ¬ closable g
  | matching b => ∃ w, b = '"' :: (w ++ ['"']) ∧ closable w ∧ ¬ Ending ['"', ')'] later

def Readable : List Component → Prop
  | [] => True
  | c :: later => c.Reads later ∧ Readable later

/-- The text between the quotes of a `match()`, where it has them. -/
def innerQuotes : List Char → List Char
  | '"' :: cs => if cs.getLast? = some '"' then cs.dropLast else '"' :: cs
  | b => b

/-- What the component is read as where it is read as itself. -/
def Component.part : Component → Except String Part
  | plain w | quoted w => indexOrName w
  | matching b => .ok (.pattern (String.ofList (innerQuotes b)))

/-- The text is the name of the part, or its name and an index. -/
def Spells (w : List Char) : Part → Prop
  | .named name => w = name.toList
  | .indexed name _ => ∃ digits, digits ≠ [] ∧ (∀ d ∈ digits, isDigit d) ∧
      w = name.toList ++ '[' :: (digits ++ [']'])
  | .pattern _ => False

/-- The component is a way to write the part. -/
def Component.Writes (p : Part) : Component → Prop
  | plain w => '.' ∉ w ∧ Spells w p
  | quoted w => Spells w p
  | matching b => p = .pattern (String.ofList (innerQuotes b))

/-! ## Spelling -/

theorem spells_indexOrName (w : List Char) (p : Part) (h : indexOrName w = .ok p) :
    Spells w p := by
  unfold indexOrName at h
  split at h
  · next rs hrs =>
    have hw : w = rs.reverse ++ [']'] := by
      rw [← List.reverse_reverse w, hrs, List.reverse_cons]
    split at h
    · next d ds c name hdigits hrest =>
      simp only at h
      split at h
      · cases h
        have hrs := List.takeWhile_append_dropWhile (p := isDigit) (l := rs)
        rw [hdigits, hrest] at hrs
        refine ⟨(d :: ds).reverse, by simp, ?_, ?_⟩
        · intro x hx
          rw [List.mem_reverse, ← hdigits] at hx
          exact List.mem_takeWhile_imp hx
        · rw [hw, ← hrs]
          simp
      · cases h
    · cases h
      simp [Spells]
  · cases h
    simp [Spells]

theorem Spells.head {w w' : List Char} {p : Part} (h : Spells w p) (h' : Spells w' p) :
    w.head? = w'.head? := by
  cases p with
  | named name => rw [Spells] at h h'; rw [h, h']
  | indexed name i =>
    obtain ⟨digits, -, -, rfl⟩ := h
    obtain ⟨digits', -, -, rfl⟩ := h'
    simp [List.head?_append]
  | pattern rx => cases h

theorem Spells.mem_dot {w w' : List Char} {p : Part} (h : Spells w p) (h' : Spells w' p)
    (hdot : '.' ∈ w) : '.' ∈ w' := by
  cases p with
  | named name =>
    rw [Spells] at h h'
    rw [h', ← h]
    exact hdot
  | indexed name i =>
    obtain ⟨digits, -, hdigits, rfl⟩ := h
    obtain ⟨digits', -, -, rfl⟩ := h'
    have hdigit : '.' ∉ digits := by
      intro hmem
      exact absurd (hdigits '.' hmem) (by decide)
    have hname : '.' ∈ name.toList := by simpa [hdigit] using hdot
    exact List.mem_append_left _ hname
  | pattern rx => cases h

/-- The index ends where its bracket does. -/
theorem Spells.eq_of_prefix {w w' : List Char} {p : Part} (h : Spells w p) (h' : Spells w' p)
    (hstarts : w <+: w') : w = w' := by
  cases p with
  | named name => rw [Spells] at h h'; rw [h, h']
  | indexed name i =>
    obtain ⟨digits, -, hdigits, rfl⟩ := h
    obtain ⟨digits', -, hdigits', rfl⟩ := h'
    rw [List.prefix_append_right_inj, List.cons_prefix_cons] at hstarts
    have htake : ∀ ds : List Char, (∀ d ∈ ds, isDigit d) → ∀ others,
        (ds ++ ']' :: others).takeWhile isDigit = ds := by
      intro ds hds others
      rw [List.takeWhile_append_of_pos hds]
      simp [show isDigit ']' = false by decide]
    obtain ⟨others, hothers⟩ := hstarts.2
    have hsame : digits = digits' := by
      rw [← htake digits hdigits others, ← htake digits' hdigits' [], ← hothers]
      simp
    rw [hsame]
  | pattern rx => cases h

theorem Spells.ne_pattern {w : List Char} {p : Part} (h : Spells w p) (rx : String) :
    p ≠ .pattern rx := by
  rintro rfl
  exact h

/-! ## One component -/

theorem parseFieldComponents_cons_iff (n : Nat) (cs : List Char) (p : Part) (parts : List Part) :
    parseFieldComponents true (n + 1) ('.' :: cs) = .ok (p :: parts) ↔
      ¬ ['"', '"'] <+: cs ∧
        ((∃ rx rest, matchField cs = some (rx, rest) ∧ p = .pattern (String.ofList rx) ∧
            parseFieldComponents true n rest = .ok parts) ∨
          (matchField cs = none ∧ ∃ name rest, (quotedField cs).or (unquotedField cs) =
            some (name, rest) ∧ indexOrName name = .ok p ∧
              parseFieldComponents true n rest = .ok parts)) := by
  rw [parseFieldComponents]
  have hempty : "\"\"".toList.isPrefixOf cs ↔ ['"', '"'] <+: cs := List.isPrefixOf_iff_prefix
  split
  · next h => simp [hempty.mp h]
  · next h =>
    rw [hempty] at h
    simp only [h, not_false_eq_true, true_and, if_true]
    cases hm : matchField cs with
    | some found =>
      obtain ⟨rx, rest⟩ := found
      simp [QueryExpansion.bind_eq_ok, pure, Except.pure]
      tauto
    | none =>
      cases hfound : (quotedField cs).or (unquotedField cs) with
      | none => simp
      | some found =>
        obtain ⟨name, rest⟩ := found
        simp [QueryExpansion.bind_eq_ok, pure, Except.pure]

theorem componentEnd_componentsText (later : List Component) :
    componentEnd (componentsText later) := by
  have h := (componentEnd_append [] later).mpr (.inl rfl)
  simpa using h

theorem head_componentsText (later : List Component) (c : Char) (hc : c ≠ '.')
    (cs : List Char) : componentsText later ≠ c :: cs := by
  cases later with
  | nil => simp
  | cons d later =>
    rw [componentsText_cons]
    intro h
    exact hc (List.cons.inj h).1.symm

/-- A quoted name ends at its last quote exactly when no quote ends it before. -/
theorem quotedField_eq_iff (w : List Char) (later : List Component) :
    quotedField ('"' :: (w ++ '"' :: componentsText later)) =
        some (w, componentsText later) ↔
      closable w ∧ ∀ g r, w = g ++ '"' :: '.' :: r → ¬ closable g := by
  rw [quotedField]
  constructor
  · intro h
    obtain ⟨g, -, -, hclosable, -⟩ := closeQuote_spec [] _ _ _ h
    refine ⟨hclosable, ?_⟩
    rintro g r rfl hg
    obtain ⟨name, rest, hclose, hlength⟩ := closeQuote_le [] g
      ('.' :: (r ++ '"' :: componentsText later)) (by simpa using hg) (componentEnd_dot _)
    simp only [List.append_assoc, List.cons_append] at h
    rw [h] at hclose
    cases hclose
    simp at hlength
  · rintro ⟨hclosable, hfirst⟩
    have hclose := closeQuote_append [] w (componentsText later) (by simpa using hclosable)
      (componentEnd_componentsText later)
    rw [hclose]
    · simp
    · intro g r hw hg hend
      cases r with
      | nil =>
        rw [List.nil_append, componentEnd_iff] at hend
        obtain hend | hend := hend
        · simp at hend
        · exact (not_mem_lineEnd _ hend).1 (by simp)
      | cons d r =>
        rw [List.cons_append, componentEnd_iff] at hend
        obtain hend | hend := hend
        · simp only [List.head?_cons, Option.some.injEq] at hend
          exact hfirst g r (by rw [hw, hend]) (by simpa using hg)
        · exact (not_mem_lineEnd _ hend).1 (by simp)

theorem unquotedField_quote (cs name rest : List Char)
    (h : unquotedField ('"' :: cs) = some (name, rest)) : name.head? = some '"' := by
  rw [unquotedField, List.takeWhile_cons_of_pos (by decide)] at h
  cases h
  rfl

/-- What is found in a quoted name is all of it or nothing that spells the same. -/
theorem parse_quoted_iff (n : Nat) (w : List Char) (later : List Component) (p : Part)
    (parts : List Part) (hw : Spells w p) :
    parseFieldComponents true (n + 1) ('.' :: ('"' :: (w ++ '"' :: componentsText later))) =
        .ok (p :: parts) ↔
      (closable w ∧ w.head? ≠ some '"' ∧ ∀ g r, w = g ++ '"' :: '.' :: r → ¬ closable g) ∧
        indexOrName w = .ok p ∧
          parseFieldComponents true n (componentsText later) = .ok parts := by
  rw [parseFieldComponents_cons_iff]
  have hmatch : matchField ('"' :: (w ++ '"' :: componentsText later)) = none := by
    simp [matchField]
  have hempty : ['"', '"'] <+: '"' :: (w ++ '"' :: componentsText later) ↔
      w = [] ∨ w.head? = some '"' := by
    cases w with
    | nil => simp
    | cons c w => simp [List.cons_prefix_cons, eq_comm]
  rw [hmatch, hempty]
  constructor
  · rintro ⟨hhead, ⟨rx, rest, hm, -, -⟩ | ⟨-, name, rest, hfound, hpart, hrest⟩⟩
    · cases hm
    · rw [not_or] at hhead
      have hname := spells_indexOrName name p hpart
      cases hquoted : quotedField ('"' :: (w ++ '"' :: componentsText later)) with
      | none =>
        rw [hquoted, Option.none_or] at hfound
        -- a part that begins with the quote spells another name
        have hhead' := unquotedField_quote _ name rest hfound
        rw [hname.head hw] at hhead'
        exact absurd hhead' hhead.2
      | some found =>
        rw [hquoted, Option.some_or] at hfound
        cases hfound
        obtain ⟨g, hcs, hg, -, -⟩ := closeQuote_spec [] _ _ _ hquoted
        rw [List.nil_append] at hg
        subst hg
        have hsame : w = name := by
          obtain ⟨a, ha, -⟩ | ⟨a, ha, -⟩ := List.append_eq_append_iff.mp hcs
          · exact hw.eq_of_prefix hname ⟨a, ha.symm⟩
          · exact (hname.eq_of_prefix hw ⟨a, ha.symm⟩).symm
        subst hsame
        obtain ⟨-, hrest'⟩ := List.cons.inj (List.append_cancel_left hcs)
        subst hrest'
        obtain ⟨hclosable, hfirst⟩ := (quotedField_eq_iff w later).mp hquoted
        exact ⟨⟨hclosable, hhead.2, hfirst⟩, hpart, hrest⟩
  · rintro ⟨⟨hclosable, hhead, hfirst⟩, hpart, hrest⟩
    have hne : w ≠ [] := by
      rintro rfl
      exact absurd hclosable (by decide)
    refine ⟨by simp [hne, hhead], .inr ⟨rfl, w, componentsText later, ?_, hpart, hrest⟩⟩
    rw [(quotedField_eq_iff w later).mpr ⟨hclosable, hfirst⟩, Option.some_or]

theorem terminated_componentsText_iff (terminator : List Char) (hdot : '.' ∉ terminator)
    (hne : terminator ≠ []) (group : List Char) (later : List Component) :
    Terminated terminator group (componentsText later) ↔ Ending terminator later := by
  have h := terminated_append_iff terminator hdot group [] later
  rw [List.nil_append] at h
  rw [h, or_iff_right]
  rintro ⟨g, rest, hnil, -⟩
  exact hne (List.append_eq_nil_iff.mp (List.append_eq_nil_iff.mp hnil.symm).1).2

theorem matchField_call (b t : List Char) :
    matchField ("match(".toList ++ (b ++ [')']) ++ t) =
      match b with
      | '"' :: cs => closeMatch [] (cs ++ ')' :: t)
      | _ => none := by
  have hstarts : "match(\"".toList.isPrefixOf ("match(".toList ++ (b ++ [')']) ++ t) ↔
      b.head? = some '"' := by
    have hquote : "match(\"".toList = "match(".toList ++ ['"'] := by decide
    rw [List.isPrefixOf_iff_prefix, hquote, List.append_assoc, List.prefix_append_right_inj]
    cases b with
    | nil => simp [List.cons_prefix_cons]
    | cons c b => simp [List.cons_prefix_cons, eq_comm]
  rw [matchField]
  split
  · next h =>
    obtain ⟨cs, rfl⟩ := List.head?_eq_some_iff.mp (hstarts.mp h)
    simp
  · next h =>
    rw [hstarts] at h
    split
    · next cs => simp at h
    · rfl

/-- A `match()` ends at its own parenthesis where no later text could end it. -/
theorem parse_matching_iff (n : Nat) (b : List Char) (later : List Component)
    (parts : List Part) :
    parseFieldComponents true (n + 1)
        ('.' :: ("match(".toList ++ (b ++ [')']) ++ componentsText later)) =
          .ok (.pattern (String.ofList (innerQuotes b)) :: parts) ↔
      (∃ w, b = '"' :: (w ++ ['"']) ∧ closable w ∧ ¬ Ending ['"', ')'] later) ∧
        parseFieldComponents true n (componentsText later) = .ok parts := by
  rw [parseFieldComponents_cons_iff, matchField_call]
  have hinner : ∀ w, innerQuotes ('"' :: (w ++ ['"'])) = w := by
    intro w
    simp [innerQuotes]
  have hlast : ∀ w, closeMatch [] (w ++ '"' :: ')' :: componentsText later) =
      some (w, componentsText later) ↔ closable w ∧ ¬ Ending ['"', ')'] later := by
    intro w
    rw [← terminated_componentsText_iff ['"', ')'] (by decide) (by decide) (w ++ ['"', ')'])]
    exact closeMatch_last_iff [] w _ (componentEnd_componentsText later)
  constructor
  · rintro ⟨-, ⟨rx, rest, hm, hrx, hrest⟩ | ⟨-, name, rest, -, hpart, -⟩⟩
    · split at hm
      · next cs =>
        have hrx : innerQuotes ('"' :: cs) = rx := String.ofList_inj.mp (Part.pattern.inj hrx)
        obtain ⟨g, hcs, hg, -, -⟩ := closeMatch_spec [] _ _ _ hm
        rw [List.nil_append] at hg
        subst hg
        by_cases hquote : cs.getLast? = some '"'
        · obtain ⟨w, rfl⟩ := List.getLast?_eq_some_iff.mp hquote
          rw [hinner] at hrx
          subst hrx
          have hrest' : rest = componentsText later := by simpa using hcs.symm
          subst hrest'
          have hclose : closeMatch [] (w ++ '"' :: ')' :: componentsText later) =
              some (w, componentsText later) := by simpa using hm
          exact ⟨⟨w, rfl, (hlast w).mp hclose⟩, hrest⟩
        · -- without a last quote the pattern would have to hold one more parenthesis than it has
          exfalso
          rw [innerQuotes, if_neg hquote] at hrx
          have htake := congrArg (fun l => (l.take (cs.length + 1)).count ')') hcs
          rw [← hrx] at htake
          simp [List.take_append, List.take_of_length_le (Nat.le_succ cs.length)] at htake
      · cases hm
    · exact absurd rfl ((spells_indexOrName name _ hpart).ne_pattern _)
  · rintro ⟨⟨w, rfl, hw⟩, hrest⟩
    refine ⟨by simp [List.cons_prefix_cons], .inl ⟨w, componentsText later, ?_, ?_, hrest⟩⟩
    · simpa using (hlast w).mpr hw
    · rw [hinner]

theorem quotedField_plain_iff (w : List Char) (later : List Component) :
    quotedField (w ++ componentsText later) = none ↔
      ∀ g, w = '"' :: g → ¬ (EndsIn ['"'] [] g later.isEmpty ∨ Ending ['"'] later) := by
  by_cases hquote : w.head? = some '"'
  · obtain ⟨g, rfl⟩ := List.head?_eq_some_iff.mp hquote
    rw [List.cons_append, quotedField, closeQuote_eq_none, terminated_append_iff _ (by decide)]
    constructor
    · intro h g' hg'
      obtain ⟨-, rfl⟩ := List.cons.inj hg'
      exact h
    · intro h
      exact h g rfl
  · refine iff_of_true ?_ ?_
    · unfold quotedField
      split
      · next cs heq =>
        cases w with
        | nil => exact absurd heq (head_componentsText later '"' (by decide) cs)
        | cons c w =>
          obtain ⟨rfl, -⟩ := List.cons.inj heq
          exact absurd rfl hquote
      · rfl
    · rintro g rfl
      exact absurd rfl hquote

theorem matchField_plain_iff (w : List Char) (later : List Component) :
    matchField (w ++ componentsText later) = none ↔
      ∀ g, w = "match(\"".toList ++ g →
        ¬ (EndsIn ['"', ')'] [] g later.isEmpty ∨ Ending ['"', ')'] later) := by
  rw [matchField]
  by_cases hstarts : "match(\"".toList <+: w
  · obtain ⟨g, rfl⟩ := hstarts
    have hdrop : ("match(\"".toList ++ g ++ componentsText later).drop 7 =
        g ++ componentsText later := by simp
    rw [hdrop, if_pos (List.isPrefixOf_iff_prefix.mpr ⟨g ++ componentsText later, by simp⟩),
      closeMatch_eq_none, terminated_append_iff _ (by decide)]
    constructor
    · intro h g' hg'
      rw [← List.append_cancel_left hg']
      exact h
    · intro h
      exact h g rfl
  · have hnone : ¬ "match(\"".toList.isPrefixOf (w ++ componentsText later) := by
      rw [List.isPrefixOf_iff_prefix]
      rintro ⟨rest, hrest⟩
      obtain ⟨a, ha, -⟩ | ⟨a, ha, hcut⟩ := List.append_eq_append_iff.mp hrest
      · exact hstarts ⟨a, ha.symm⟩
      · cases a with
        | nil => exact hstarts ⟨[], by simpa using ha⟩
        | cons c a =>
          refine head_componentsText later c ?_ (a ++ rest) (by rw [hcut]; rfl)
          rintro rfl
          have hmem : '.' ∈ "match(\"".toList := by rw [ha]; simp
          exact absurd hmem (by decide)
    rw [if_neg hnone]
    refine iff_of_true rfl ?_
    rintro g rfl
    exact absurd (List.prefix_append _ g) hstarts

theorem unquotedField_plain (w : List Char) (later : List Component) (hne : w ≠ [])
    (hdot : '.' ∉ w) :
    unquotedField (w ++ componentsText later) = some (w, componentsText later) := by
  have hall : ∀ c ∈ w, decide (c ≠ '.') = true := by
    intro c hc
    exact decide_eq_true fun he => hdot (he ▸ hc)
  have htake : (componentsText later).takeWhile (· ≠ '.') = [] ∧
      (componentsText later).dropWhile (· ≠ '.') = componentsText later := by
    cases later with
    | nil => simp
    | cons c later => simp [componentsText_cons]
  rw [unquotedField, List.takeWhile_append_of_pos hall, List.dropWhile_append_of_pos hall,
    htake.1, htake.2, List.append_nil]
  cases w with
  | nil => exact absurd rfl hne
  | cons c w => rfl

/-- What a name without dots would be in quotes spells something else. -/
theorem not_spells_of_quotedField (w name rest : List Char) (later : List Component) (p : Part)
    (hdot : '.' ∉ w) (hw : Spells w p) (hname : Spells name p)
    (h : quotedField (w ++ componentsText later) = some (name, rest)) : False := by
  unfold quotedField at h
  split at h
  · next cs heq =>
    obtain ⟨g, hcs, hg, -, hrest⟩ := closeQuote_spec [] _ _ _ h
    rw [List.nil_append] at hg
    subst hg
    cases w with
    | nil => exact absurd heq (head_componentsText later '"' (by decide) cs)
    | cons c w =>
      obtain ⟨rfl, htail⟩ := List.cons.inj heq
      change w ++ componentsText later = cs at htail
      rw [← htail] at hcs
      obtain ⟨a, ha, hafter⟩ | ⟨a, ha, hafter⟩ := List.append_eq_append_iff.mp hcs
      · -- the quote stands in a later component
        cases a with
        | nil => exact head_componentsText later '"' (by decide) rest (by simpa using hafter)
        | cons c a =>
          by_cases hc : c = '.'
          · have hmem : '.' ∈ name := by rw [ha, hc]; simp
            exact hdot (hname.mem_dot hw hmem)
          · exact head_componentsText later c hc _ hafter
      · -- the quote stands in the name itself
        cases a with
        | nil => exact head_componentsText later '"' (by decide) rest (by simpa using hafter.symm)
        | cons c a =>
          obtain ⟨rfl, rfl⟩ := List.cons.inj hafter
          subst ha
          cases p with
          | named x =>
            rw [Spells] at hw hname
            have hlength := congrArg List.length (hw.trans hname.symm)
            simp at hlength
            omega
          | pattern rx => exact hw
          | indexed x i =>
            -- the bracket of the index would be neither before a dot nor at the end
            obtain ⟨digits, -, -, hspelled⟩ := hw
            have hbracket : ∀ init c, '"' :: (name ++ '"' :: a) = init ++ [c] → c = ']' := by
              intro init c hinit
              have hlast : init ++ [c] = (x.toList ++ '[' :: digits) ++ [']'] := by
                rw [← hinit, hspelled]
                simp
              exact (List.cons.inj (List.append_inj' hlast rfl).2).1
            have hmem : ']' ∈ a := by
              obtain rfl | ⟨init, c, rfl⟩ := List.eq_nil_or_concat' a
              · exact absurd (hbracket ('"' :: name) '"' rfl) (by decide)
              · rw [hbracket ('"' :: (name ++ '"' :: init)) c (by simp)]
                simp
            obtain hend | hend | ⟨-, hend⟩ := (componentEnd_append a later).mp hrest
            · simp [hend] at hmem
            · obtain ⟨a', rfl⟩ := List.head?_eq_some_iff.mp hend
              exact hdot (by simp)
            · exact (not_mem_lineEnd a hend).2.2.2 hmem
  · cases h

/-- A name without dots is read where no quote and no `match()` begins with it. -/
theorem parse_plain_iff (n : Nat) (w : List Char) (later : List Component) (p : Part)
    (parts : List Part) (hdot : '.' ∉ w) (hw : Spells w p) :
    parseFieldComponents true (n + 1) ('.' :: (w ++ componentsText later)) = .ok (p :: parts) ↔
      (Component.plain w).Reads later ∧ indexOrName w = .ok p ∧
        parseFieldComponents true n (componentsText later) = .ok parts := by
  rw [parseFieldComponents_cons_iff, Component.Reads, ← quotedField_plain_iff,
    ← matchField_plain_iff]
  constructor
  · rintro ⟨hempty, ⟨rx, rest, -, hrx, -⟩ | ⟨hm, name, rest, hfound, hpart, hrest⟩⟩
    · exact absurd hrx (hw.ne_pattern _)
    · have hne : w ≠ [] := by
        rintro rfl
        cases later with
        | nil => simp [quotedField, unquotedField] at hfound
        | cons c later => simp [componentsText_cons, quotedField, unquotedField] at hfound
      cases hquoted : quotedField (w ++ componentsText later) with
      | some found =>
        rw [hquoted, Option.some_or] at hfound
        cases hfound
        exact absurd hquoted fun h => not_spells_of_quotedField w name rest later p hdot hw
          (spells_indexOrName name p hpart) h
      | none =>
        rw [hquoted, Option.none_or, unquotedField_plain w later hne hdot] at hfound
        cases hfound
        exact ⟨⟨hne, fun h => hempty (h.trans (List.prefix_append _ _)), rfl, hm⟩, hpart, hrest⟩
  · rintro ⟨⟨hne, hempty, hquoted, hm⟩, hpart, hrest⟩
    refine ⟨?_, .inr ⟨hm, w, componentsText later, ?_, hpart, hrest⟩⟩
    · rintro ⟨rest, hrest⟩
      cases w with
      | nil => exact hne rfl
      | cons c w =>
        cases w with
        | nil =>
          rw [List.cons_append, List.cons_append, List.nil_append, List.cons_append,
            List.nil_append] at hrest
          exact head_componentsText later '"' (by decide) rest (List.cons.inj hrest).2.symm
        | cons d w =>
          simp only [List.cons_append, List.cons.injEq] at hrest
          exact hempty ⟨w, by rw [← hrest.1, ← hrest.2.1]; rfl⟩
    · rw [hquoted, Option.none_or, unquotedField_plain w later hne hdot]

/-! ## Sequences of components -/

theorem parse_component_iff (n : Nat) (c : Component) (later : List Component) (p : Part)
    (parts : List Part) (hc : c.Writes p) :
    parseFieldComponents true (n + 1) ('.' :: (c.text ++ componentsText later)) =
        .ok (p :: parts) ↔
      c.Reads later ∧ c.part = .ok p ∧
        parseFieldComponents true n (componentsText later) = .ok parts := by
  cases c with
  | plain w => exact parse_plain_iff n w later p parts hc.1 hc.2
  | quoted w =>
    have htext : (Component.quoted w).text ++ componentsText later =
        '"' :: (w ++ '"' :: componentsText later) := by simp [Component.text]
    rw [htext]
    exact parse_quoted_iff n w later p parts hc
  | matching b =>
    rw [Component.Writes] at hc
    subst hc
    have h := parse_matching_iff n b later parts
    simpa [Component.text, Component.Reads, Component.part] using h

/-- What was written is read exactly when each component is read as itself before the others. -/
theorem parseFieldComponents_iff (cs : List (Component × Part))
    (hcs : ∀ c ∈ cs, c.1.Writes c.2) (n : Nat) (hn : cs.length ≤ n) :
    parseFieldComponents true n (componentsText (cs.map Prod.fst)) = .ok (cs.map Prod.snd) ↔
      Readable (cs.map Prod.fst) ∧ ∀ c ∈ cs, c.1.part = .ok c.2 := by
  induction cs generalizing n with
  | nil => simp [parseFieldComponents, Readable]
  | cons c cs ih =>
    obtain ⟨n, rfl⟩ : ∃ m, n = m + 1 := Nat.exists_eq_succ_of_ne_zero (by simp at hn; omega)
    have ih := ih (fun c hc => hcs c (by simp [hc])) n (by simpa using hn)
    rw [List.map_cons, List.map_cons, componentsText_cons,
      parse_component_iff n c.1 _ c.2 _ (hcs c (by simp)), ih, Readable, List.forall_mem_cons]
    tauto

/-- A first component that is valid and complete. -/
def TopName (top : String) : Prop := topField top.toList = some (top.toList, [])

def wordChar (c : Char) : Bool := isLetter c || isDigit c || c = '_'

/-- The first component ends at the first character that is not in a word. -/
theorem topField_of_stop (c : Char) (cs t : List Char) (hc : isLetter c)
    (hdrop : cs.dropWhile wordChar = t) (ht : componentEnd t) (hstop : ∀ d ∈ t.head?, d ≠ '?') :
    topField (c :: cs) = some (c :: cs.takeWhile wordChar, t) := by
  rw [topField, if_pos hc]
  change cs.dropWhile (fun c => isLetter c || isDigit c || c = '_') = t at hdrop
  simp only [hdrop]
  split
  · next rest => exact absurd rfl (hstop '?' rfl)
  · rw [if_pos ht]
    rfl

/-- A question mark behind the word belongs to the first component. -/
theorem topField_of_question (c : Char) (cs t : List Char) (hc : isLetter c)
    (hdrop : cs.dropWhile wordChar = '?' :: t) (ht : componentEnd t) :
    topField (c :: cs) = some (c :: cs.takeWhile wordChar ++ ['?'], t) := by
  rw [topField, if_pos hc]
  change cs.dropWhile (fun c => isLetter c || isDigit c || c = '_') = '?' :: t at hdrop
  simp only [hdrop]
  rw [if_pos ht]
  rfl

theorem topField_word (c : Char) (w t : List Char) (hc : isLetter c) (hw : ∀ d ∈ w, wordChar d)
    (ht : componentEnd t) (hstop : ∀ d ∈ t.head?, ¬ wordChar d ∧ d ≠ '?') :
    topField (c :: (w ++ t)) = some (c :: w, t) ∧
      topField (c :: (w ++ '?' :: t)) = some (c :: (w ++ ['?']), t) := by
  have htake : t.takeWhile wordChar = [] ∧ t.dropWhile wordChar = t := by
    cases t with
    | nil => simp
    | cons d t => simp [(hstop d rfl).1]
  have hquestion : wordChar '?' = false := by decide
  constructor
  · have hdrop : (w ++ t).dropWhile wordChar = t := by
      rw [List.dropWhile_append_of_pos hw, htake.2]
    rw [topField_of_stop c _ t hc hdrop ht fun d hd => (hstop d hd).2,
      List.takeWhile_append_of_pos hw, htake.1, List.append_nil]
  · have hdrop : (w ++ '?' :: t).dropWhile wordChar = '?' :: t := by
      rw [List.dropWhile_append_of_pos hw,
        List.dropWhile_cons_of_neg (by simp [hquestion])]
    rw [topField_of_question c _ t hc hdrop ht, List.takeWhile_append_of_pos hw,
      List.takeWhile_cons_of_neg (by simp [hquestion]), List.append_nil]
    rfl

/-- A valid first component is a word, with or without a question mark. -/
theorem TopName.word {top : String} (h : TopName top) :
    ∃ c w, isLetter c ∧ (∀ d ∈ w, wordChar d) ∧
      (top.toList = c :: w ∨ top.toList = c :: (w ++ ['?'])) := by
  rw [TopName] at h
  cases htop : top.toList with
  | nil => simp [htop, topField] at h
  | cons c cs =>
    rw [htop, topField] at h
    split at h
    · next hc =>
      have hsplit := List.takeWhile_append_dropWhile (p := wordChar) (l := cs)
      refine ⟨c, cs.takeWhile wordChar, hc, fun d hd => List.mem_takeWhile_imp hd, ?_⟩
      simp only at h
      split at h
      · next rest hrest =>
        split at h
        · simp only [Option.some.injEq, Prod.mk.injEq] at h
          refine .inr ?_
          change cs.dropWhile wordChar = _ at hrest
          rw [h.2] at hrest
          rw [← hrest, hsplit]
        · cases h
      · split at h
        · simp only [Option.some.injEq, Prod.mk.injEq] at h
          refine .inl ?_
          have hdrop : cs.dropWhile wordChar = [] := h.2
          rw [hdrop, List.append_nil] at hsplit
          rw [hsplit]
        · cases h
    · cases h

theorem topField_append (top : String) (htop : TopName top) (cs : List Component) :
    topField (top.toList ++ componentsText cs) = some (top.toList, componentsText cs) := by
  obtain ⟨c, w, hc, hw, h⟩ := htop.word
  have hstop : ∀ d ∈ (componentsText cs).head?, ¬ wordChar d ∧ d ≠ '?' := by
    intro d hd
    cases cs with
    | nil => simp at hd
    | cons c cs =>
      simp only [componentsText_cons, List.head?_cons, Option.mem_def, Option.some.injEq] at hd
      subst hd
      decide
  have hword := topField_word c w (componentsText cs) hc hw (componentEnd_componentsText cs) hstop
  obtain h | h := h
  · rw [h]
    exact hword.1
  · rw [h]
    simpa using hword.2

/-- A field is read as it was written exactly when its components are. -/
theorem parseField_iff (top : String) (htop : TopName top) (cs : List (Component × Part))
    (hcs : ∀ c ∈ cs, c.1.Writes c.2) :
    parseField true (top ++ String.ofList (componentsText (cs.map Prod.fst))) =
        .ok (.named top :: cs.map Prod.snd) ↔
      Readable (cs.map Prod.fst) ∧ ∀ c ∈ cs, c.1.part = .ok c.2 := by
  have hlength : cs.length ≤ (componentsText (cs.map Prod.fst)).length := by
    induction cs with
    | nil => simp
    | cons c cs ih =>
      have := ih fun c hc => hcs c (by simp [hc])
      simp only [List.map_cons, componentsText_cons, List.length_cons, List.length_append]
      omega
  rw [← parseFieldComponents_iff cs hcs _ hlength, parseField, String.toList_append,
    String.toList_ofList, topField_append top htop]
  simp only [String.ofList_toList]
  rw [QueryExpansion.bind_eq_ok]
  simp [pure, Except.pure]

end OpenVoxDB.FieldSyntax
