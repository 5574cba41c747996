import Mathlib
import OpenVoxDB.Catalogs

/-!
# Resource references

The text `Type[title]`, as `resource_ref_to_hash` in `catalog/puppetdb.rb` reads it and
as its format is checked. Both regular expressions are anchored at lines, not at the
text, so that a part of a text with line breaks can be read too.
-/

namespace OpenVoxDB.ResourceRefs

open Catalogs (Ref)

/-! ## `resource_ref_to_hash` -/

/-- `$` before these characters. -/
def lineEnd : List Char → Bool
  | [] => true
  | c :: _ => c == '\n'

/-- The longest text before a `]` at the end of a line. -/
def lastClose : List Char → Option (List Char)
  | [] => none
  | c :: cs =>
    match lastClose cs with
    | some title => some (c :: title)
    | none => if c == ']' && lineEnd cs then some [] else none

def notBracket (c : Char) : Bool := c != '[' && c != ']'

/-- `([^\[\]]+)\[(.+)\]$`, from here. -/
def refAt (cs : List Char) : Option (List Char × List Char) :=
  match cs.dropWhile notBracket with
  | '[' :: rest =>
    match lastClose rest with
    | some title =>
      if cs.takeWhile notBracket = [] ∨ title = [] then none
      else some (cs.takeWhile notBracket, title)
    | none => none
  | _ => none

/-- The first match at the start of a line. -/
def refSearch (start : Bool) : List Char → Option (List Char × List Char)
  | [] => none
  | c :: cs =>
    match if start then refAt (c :: cs) else none with
    | some ref => some ref
    | none => refSearch (c == '\n') cs

def resourceRefToHash (ref : String) : Option Ref :=
  (refSearch true ref.toList).map fun (type, title) =>
    ⟨String.ofList type, String.ofList title⟩

def resourceHashToRef (hash : Ref) : String := hash.type ++ "[" ++ hash.title ++ "]"

/-! ## The format -/

def isUpper (c : Char) : Bool := 'A' ≤ c && c ≤ 'Z'

/-- `[a-z0-9_]` -/
def isNameChar (c : Char) : Bool := ('a' ≤ c && c ≤ 'z') || ('0' ≤ c && c ≤ '9') || c == '_'

/-- `[a-z0-9_]*(::[A-Z][a-z0-9_]*)*\[`, and what is after it. -/
def afterName : List Char → Option (List Char)
  | [] => none
  | '[' :: cs => some cs
  | ':' :: ':' :: c :: cs => if isUpper c then afterName cs else none
  | c :: cs => if isNameChar c then afterName cs else none

/-- `[A-Z][a-z0-9_]*(::[A-Z][a-z0-9_]*)*\[.*\]`, from here. -/
def formatAt : List Char → Bool
  | [] => false
  | c :: cs => isUpper c && (afterName cs).any fun rest => ']' ∈ rest

/-- A match at the start of a line. -/
def formatSearch (start : Bool) : List Char → Bool
  | [] => false
  | c :: cs => (start && formatAt (c :: cs)) || formatSearch (c == '\n') cs

/-- `ref =~ /^[A-Z][a-z0-9_]*(::[A-Z][a-z0-9_]*)*\[.*\]/m` -/
def correctFormat (ref : String) : Bool := formatSearch true ref.toList

/-! ## Trailing slashes -/

def isSlash (c : Char) : Bool := c == '/'

/-- `title =~ /\/$/` -/
def slashEndsLine : List Char → Bool
  | [] => false
  | c :: cs => (isSlash c && lineEnd cs) || slashEndsLine cs

/-- `title.sub(/\/+$/, '')` -/
def subSlashes : List Char → List Char
  | [] => []
  | c :: cs =>
    if isSlash c && lineEnd (cs.dropWhile isSlash) then cs.dropWhile isSlash
    else c :: subSlashes cs

/-- The title that is looked up for a reference. -/
def mungeTitle (hash : Ref) : Ref :=
  if hash.type = "File" ∧ slashEndsLine hash.title.toList then
    { hash with title := String.ofList (subSlashes hash.title.toList) }
  else hash

/-! ## Well-formed references -/

/-- The rest of a type name after its first letter. -/
def isNameRest : List Char → Bool
  | [] => true
  | ':' :: ':' :: c :: cs => isUpper c && isNameRest cs
  | c :: cs => isNameChar c && isNameRest cs

/-- `Classname` or `Modulename::Classname`. -/
def isTypeName : List Char → Bool
  | [] => false
  | c :: cs => isUpper c && isNameRest cs

/-- The text is `Classname[title]` or `Modulename::Classname[title]`. -/
structure IsReference (text : String) (hash : Ref) : Prop where
  text_eq : text = resourceHashToRef hash
  type : isTypeName hash.type.toList = true
  title : hash.title ≠ ""

theorem lastClose_append (title : List Char) : lastClose (title ++ [']']) = some title := by
  induction title with
  | nil => rfl
  | cons c cs ih => rw [List.cons_append, lastClose, ih]

theorem notBracket_of_isUpper (c : Char) (h : isUpper c = true) : notBracket c = true := by
  simp only [isUpper, Bool.and_eq_true, decide_eq_true_eq] at h
  have hne : ∀ d : Char, ('Z' < d) → c ≠ d := fun d hd hc =>
    absurd (hc ▸ h.2) (not_le.mpr hd)
  simp [notBracket, hne '[' (by decide), hne ']' (by decide)]

theorem notBracket_of_isNameChar (c : Char) (h : isNameChar c = true) : notBracket c = true := by
  have hne : c ≠ '[' ∧ c ≠ ']' := by
    constructor <;> (rintro rfl; revert h; decide)
  simp [notBracket, hne]

theorem notBracket_of_isNameRest (cs : List Char) (h : isNameRest cs = true) :
    ∀ c ∈ cs, notBracket c = true := by
  fun_induction isNameRest cs with
  | case1 => simp
  | case2 c cs ih =>
    rw [Bool.and_eq_true] at h
    rw [List.forall_mem_cons, List.forall_mem_cons, List.forall_mem_cons]
    exact ⟨by decide, by decide, notBracket_of_isUpper c h.1, ih h.2⟩
  | case3 c cs _ ih =>
    rw [Bool.and_eq_true] at h
    exact List.forall_mem_cons.mpr ⟨notBracket_of_isNameChar c h.1, ih h.2⟩

theorem notBracket_of_isTypeName (cs : List Char) (h : isTypeName cs = true) :
    ∀ c ∈ cs, notBracket c = true := by
  cases cs with
  | nil => simp
  | cons c cs =>
    rw [isTypeName, Bool.and_eq_true] at h
    exact List.forall_mem_cons.mpr
      ⟨notBracket_of_isUpper c h.1, notBracket_of_isNameRest cs h.2⟩

theorem afterName_append (cs rest : List Char) (h : isNameRest cs = true) :
    afterName (cs ++ '[' :: rest) = some rest := by
  fun_induction isNameRest cs with
  | case1 => rfl
  | case2 c cs ih =>
    rw [Bool.and_eq_true] at h
    rw [List.cons_append, List.cons_append, List.cons_append, afterName, if_pos h.1, ih h.2]
  | case3 c cs _ ih =>
    rw [Bool.and_eq_true] at h
    have hopen : c ≠ '[' := by
      rintro rfl
      exact absurd h.1 (by decide)
    have hcolon : c ≠ ':' := by
      rintro rfl
      exact absurd h.1 (by decide)
    rw [List.cons_append]
    unfold afterName
    split
    · simp_all
    · simp_all
    · simp_all
    · rename_i heq
      cases heq
      rw [if_pos h.1, ih h.2]

/-- A text of the form `Type[title]` is read as a whole. -/
theorem refAt_reference (type title : List Char) (htype : type ≠ [])
    (hbracket : ∀ c ∈ type, notBracket c = true) (htitle : title ≠ []) :
    refAt (type ++ '[' :: (title ++ [']'])) = some (type, title) := by
  have htake : (type ++ '[' :: (title ++ [']'])).takeWhile notBracket = type := by
    rw [List.takeWhile_append_of_pos hbracket, List.takeWhile_cons_of_neg (by decide),
      List.append_nil]
  have hdrop : (type ++ '[' :: (title ++ [']'])).dropWhile notBracket = '[' :: (title ++ [']']) := by
    rw [List.dropWhile_append_of_pos hbracket, List.dropWhile_cons_of_neg (by decide)]
  rw [refAt, hdrop]
  simp only [lastClose_append, htake]
  rw [if_neg (by simp [htype, htitle])]

theorem toList_resourceHashToRef (hash : Ref) :
    (resourceHashToRef hash).toList = hash.type.toList ++ '[' :: (hash.title.toList ++ [']']) := by
  simp [resourceHashToRef]

theorem resourceRefToHash_reference (text : String) (hash : Ref) (h : IsReference text hash) :
    resourceRefToHash text = some hash := by
  have htype : hash.type.toList ≠ [] := by
    intro hnil
    have := h.type
    rw [hnil] at this
    cases this
  have htitle : hash.title.toList ≠ [] := by simpa using h.title
  have hat := refAt_reference hash.type.toList hash.title.toList htype
    (notBracket_of_isTypeName _ h.type) htitle
  rw [resourceRefToHash, h.text_eq, toList_resourceHashToRef]
  cases hcs : hash.type.toList ++ '[' :: (hash.title.toList ++ [']']) with
  | nil => simp at hcs
  | cons c cs =>
    rw [hcs] at hat
    simp [refSearch, hat]

theorem correctFormat_reference (text : String) (hash : Ref) (h : IsReference text hash) :
    correctFormat text = true := by
  rw [correctFormat, h.text_eq, toList_resourceHashToRef]
  have htype := h.type
  cases hcs : hash.type.toList with
  | nil =>
    rw [hcs] at htype
    cases htype
  | cons c cs =>
    rw [hcs, isTypeName, Bool.and_eq_true] at htype
    rw [List.cons_append, formatSearch, formatAt, afterName_append cs _ htype.2]
    simp [htype.1]

/-- A text is a reference in one way at most. -/
theorem isReference_unique (text : String) (hash hash' : Ref) (h : IsReference text hash)
    (h' : IsReference text hash') : hash = hash' := by
  have hread := resourceRefToHash_reference text hash h
  rw [resourceRefToHash_reference text hash' h'] at hread
  exact (Option.some.inj hread).symm

end OpenVoxDB.ResourceRefs
