import Mathlib
import OpenVoxDB.Payloads

/-!
# Coercion of payloads

`coerce_payload` coerces every string of a command's payload to UTF-8, keys of hashes included,
and reports whether some string was changed. At debug level it logs a message about each string
that was.
-/

namespace OpenVoxDB.PayloadCoercion

open RubyStrings Payloads

variable {Obj : Type} [DecidableEq Obj]

/-! ## The coercion -/

mutual
/-- The coerced payload, whether some string was lossy, and the messages logged. The code raises
where there is none. -/
def coercePayload (debug : Bool) (errorContextStr : List Char) :
    Payload Obj → Option (Payload Obj × Bool × List (List Char))
  | .hash entries => do
    let (memo, hadLossyString, messages) ← coerceEntries debug errorContextStr entries [] false
    return (.hash memo, hadLossyString, messages)
  | .array elements => do
    let (c, hadLossyString, messages) ← coerceElements debug errorContextStr elements
    return (.array c, hadLossyString, messages)
  | .string s =>
    let coercedStr := coerceToUtf8 s
    if coercedStr.eql s then some (.string coercedStr, false, [])
    else if debug then do
      let context ← errorCharContext coercedStr.text
      return (.string coercedStr, true, [errorContextStr ++ '\n' :: context])
    else some (.string coercedStr, true, [])
  | .other value => some (.other value, false, [])
termination_by structural p => p

def coerceEntries (debug : Bool) (errorContextStr : List Char) :
    List (Payload Obj × Payload Obj) → List (Payload Obj × Payload Obj) → Bool →
      Option (List (Payload Obj × Payload Obj) × Bool × List (List Char))
  | [], memo, hadLossyString => some (memo, hadLossyString, [])
  | (k, v) :: entries, memo, hadLossyString => do
    let (newK, lossyKey, ofKey) ← coercePayload debug errorContextStr k
    let (newV, lossyValue, ofValue) ← coercePayload debug errorContextStr v
    let (memo, hadLossyString, messages) ← coerceEntries debug errorContextStr entries
      (put memo newK newV) (hadLossyString || lossyKey || lossyValue)
    return (memo, hadLossyString, ofKey ++ ofValue ++ messages)
termination_by structural entries => entries

def coerceElements (debug : Bool) (errorContextStr : List Char) :
    List (Payload Obj) → Option (List (Payload Obj) × Bool × List (List Char))
  | [] => some ([], false, [])
  | v :: elements => do
    let (newV, lossy, ofElement) ← coercePayload debug errorContextStr v
    let (c, hadLossyString, messages) ← coerceElements debug errorContextStr elements
    return (newV :: c, lossy || hadLossyString, ofElement ++ messages)
termination_by structural elements => elements
end

/-! ## Payloads in UTF-8 -/

mutual
/-- The strings of a payload, in the order of the coercion. -/
def strings : Payload Obj → List RString
  | .hash entries => entryStrings entries
  | .array elements => elementStrings elements
  | .string s => [s]
  | .other _ => []
termination_by structural p => p

def entryStrings : List (Payload Obj × Payload Obj) → List RString
  | [] => []
  | (k, v) :: entries => strings k ++ strings v ++ entryStrings entries
termination_by structural entries => entries

def elementStrings : List (Payload Obj) → List RString
  | [] => []
  | v :: elements => strings v ++ elementStrings elements
termination_by structural elements => elements
end

mutual
/-- A payload with its strings read as UTF-8. -/
def inUtf8 : Payload Obj → Payload Obj
  | .hash entries => .hash (entriesInUtf8 entries [])
  | .array elements => .array (elementsInUtf8 elements)
  | .string s => .string (coerceToUtf8 s)
  | .other value => .other value
termination_by structural p => p

def entriesInUtf8 : List (Payload Obj × Payload Obj) → List (Payload Obj × Payload Obj) →
    List (Payload Obj × Payload Obj)
  | [], memo => memo
  | (k, v) :: entries, memo => entriesInUtf8 entries (put memo (inUtf8 k) (inUtf8 v))
termination_by structural entries => entries

def elementsInUtf8 : List (Payload Obj) → List (Payload Obj)
  | [] => []
  | v :: elements => inUtf8 v :: elementsInUtf8 elements
termination_by structural elements => elements
end

/-- Strings that the code takes for lossy. -/
def changed (s : RString) : Bool := !(coerceToUtf8 s).eql s

/-- The messages about a string. -/
def report (debug : Bool) (errorContextStr : List Char) (s : RString) :
    Option (List (List Char)) :=
  if changed s && debug then
    (errorCharContext (coerceToUtf8 s).text).map fun context =>
      [errorContextStr ++ '\n' :: context]
  else some []

def reports (debug : Bool) (errorContextStr : List Char) :
    List RString → Option (List (List Char))
  | [] => some []
  | s :: ss => do
    let ofString ← report debug errorContextStr s
    let messages ← reports debug errorContextStr ss
    return ofString ++ messages

theorem reports_append (debug : Bool) (errorContextStr : List Char) (ss ts : List RString) :
    reports debug errorContextStr (ss ++ ts) = do
      let before ← reports debug errorContextStr ss
      let after ← reports debug errorContextStr ts
      return before ++ after := by
  induction ss with
  | nil => simp [reports]
  | cons s ss ih =>
    rw [List.cons_append, reports, reports, ih]
    simp [Option.bind_assoc]

mutual
/-- A payload is coerced to its reading as UTF-8, unless a message fails. -/
theorem coercePayload_eq (debug : Bool) (errorContextStr : List Char) (p : Payload Obj) :
    coercePayload debug errorContextStr p =
      (reports debug errorContextStr (strings p)).map fun messages =>
        (inUtf8 p, (strings p).any changed, messages) := by
  cases p with
  | hash entries =>
    rw [coercePayload, coerceEntries_eq debug errorContextStr entries [] false, strings, inUtf8]
    cases reports debug errorContextStr (entryStrings entries) <;> simp
  | array elements =>
    rw [coercePayload, coerceElements_eq debug errorContextStr elements, strings, inUtf8]
    cases reports debug errorContextStr (elementStrings elements) <;> simp
  | string s =>
    rw [coercePayload, strings, inUtf8, reports, reports, report]
    cases hsame : (coerceToUtf8 s).eql s <;> cases debug <;> simp [changed, hsame]
    cases errorCharContext (coerceToUtf8 s).text <;> simp
  | other value => rfl
termination_by sizeOf p

theorem coerceEntries_eq (debug : Bool) (errorContextStr : List Char)
    (entries memo : List (Payload Obj × Payload Obj)) (hadLossyString : Bool) :
    coerceEntries debug errorContextStr entries memo hadLossyString =
      (reports debug errorContextStr (entryStrings entries)).map fun messages =>
        (entriesInUtf8 entries memo, hadLossyString || (entryStrings entries).any changed,
          messages) := by
  cases entries with
  | nil => simp [coerceEntries, entryStrings, reports, entriesInUtf8]
  | cons e entries =>
    obtain ⟨k, v⟩ := e
    rw [coerceEntries, coercePayload_eq debug errorContextStr k,
      coercePayload_eq debug errorContextStr v, entryStrings, reports_append, reports_append,
      entriesInUtf8]
    cases reports debug errorContextStr (strings k) with
    | none => rfl
    | some ofKey =>
      cases reports debug errorContextStr (strings v) with
      | none => rfl
      | some ofValue =>
        simp only [Option.map_some, Option.bind_eq_bind, Option.bind_some]
        rw [coerceEntries_eq debug errorContextStr entries]
        cases reports debug errorContextStr (entryStrings entries) <;>
          simp [Bool.or_assoc]
termination_by sizeOf entries

theorem coerceElements_eq (debug : Bool) (errorContextStr : List Char)
    (elements : List (Payload Obj)) :
    coerceElements debug errorContextStr elements =
      (reports debug errorContextStr (elementStrings elements)).map fun messages =>
        (elementsInUtf8 elements, (elementStrings elements).any changed, messages) := by
  cases elements with
  | nil => rfl
  | cons v elements =>
    rw [coerceElements, coercePayload_eq debug errorContextStr v,
      coerceElements_eq debug errorContextStr elements, elementStrings, reports_append,
      elementsInUtf8]
    cases reports debug errorContextStr (strings v) <;>
      cases reports debug errorContextStr (elementStrings elements) <;> simp
termination_by sizeOf elements
end

/-! ## Hashes in UTF-8 -/

/-- The last entry whose key reads in UTF-8 as `k` does. -/
def lastUnder (entries : List (Payload Obj × Payload Obj)) (k : Payload Obj) :
    Option (Payload Obj × Payload Obj) :=
  entries.reverse.find? fun e => eql (inUtf8 e.1) (inUtf8 k)

theorem lastUnder_cons (e : Payload Obj × Payload Obj)
    (entries : List (Payload Obj × Payload Obj)) (k : Payload Obj) :
    lastUnder (e :: entries) k =
      (lastUnder entries k).or (if eql (inUtf8 e.1) (inUtf8 k) then some e else none) := by
  rw [lastUnder, List.reverse_cons, List.find?_append, List.find?_singleton]
  rfl

theorem lastUnder_of_mem (entries : List (Payload Obj × Payload Obj))
    (e : Payload Obj × Payload Obj) (he : e ∈ entries) : (lastUnder entries e.1).isSome := by
  rw [lastUnder, List.find?_isSome]
  exact ⟨e, List.mem_reverse.mpr he, eql_refl _⟩

theorem get_entriesInUtf8 (entries memo : List (Payload Obj × Payload Obj)) (k : Payload Obj) :
    get (entriesInUtf8 entries memo) (inUtf8 k) =
      ((lastUnder entries k).map fun e => inUtf8 e.2).or (get memo (inUtf8 k)) := by
  induction entries generalizing memo with
  | nil => rfl
  | cons e entries ih =>
    rw [entriesInUtf8, ih, get_put, lastUnder_cons]
    cases lastUnder entries k <;> cases eql (inUtf8 e.1) (inUtf8 k) <;> simp

theorem distinct_entriesInUtf8 (entries memo : List (Payload Obj × Payload Obj))
    (h : Distinct memo) : Distinct (entriesInUtf8 entries memo) := by
  induction entries generalizing memo with
  | nil => exact h
  | cons e entries ih => exact ih _ (distinct_put memo _ _ h)

/-- An entry of a hash in UTF-8 was there before, or comes from an entry of the hash. -/
theorem mem_entriesInUtf8 (entries memo : List (Payload Obj × Payload Obj))
    (f : Payload Obj × Payload Obj) (h : f ∈ entriesInUtf8 entries memo) :
    f ∈ memo ∨ ∃ e ∈ entries, eql (inUtf8 e.1) f.1 = true ∧ f.2 = inUtf8 e.2 := by
  induction entries generalizing memo with
  | nil => exact .inl h
  | cons e entries ih =>
    cases ih _ h with
    | inl hput =>
      cases mem_put memo _ _ f hput with
      | inl hmemo => exact .inl hmemo
      | inr hnew => exact .inr ⟨e, List.mem_cons_self, hnew⟩
    | inr hrest =>
      obtain ⟨d, hd, hfrom⟩ := hrest
      exact .inr ⟨d, List.mem_cons_of_mem _ hd, hfrom⟩

theorem keys_entriesInUtf8 (P : Payload Obj → Prop)
    (entries memo : List (Payload Obj × Payload Obj)) (hmemo : ∀ f ∈ memo, P f.1)
    (hentries : ∀ e ∈ entries, P (inUtf8 e.1)) : ∀ f ∈ entriesInUtf8 entries memo, P f.1 := by
  induction entries generalizing memo with
  | nil => exact hmemo
  | cons e entries ih =>
    obtain ⟨he, hentries⟩ := List.forall_mem_cons.mp hentries
    exact ih _ (keys_put P memo _ _ hmemo he) hentries

/-- Each key has an entry. -/
theorem exists_entriesInUtf8 (entries : List (Payload Obj × Payload Obj))
    (e : Payload Obj × Payload Obj) (he : e ∈ entries) :
    ∃ f ∈ entriesInUtf8 entries [], eql f.1 (inUtf8 e.1) = true := by
  obtain ⟨last, hlast⟩ := Option.isSome_iff_exists.mp (lastUnder_of_mem entries e he)
  have hget := get_entriesInUtf8 entries [] e.1
  rw [hlast] at hget
  obtain ⟨f, hf, hkey, -⟩ := (get_eq_some _ (distinct_entriesInUtf8 entries [] .nil) _ _).mp hget
  exact ⟨f, hf, hkey⟩

/-! ## Strings -/

omit [DecidableEq Obj] in
theorem mem_entryStrings (entries : List (Payload Obj × Payload Obj)) (s : RString) :
    s ∈ entryStrings entries ↔ ∃ e ∈ entries, s ∈ strings e.1 ∨ s ∈ strings e.2 := by
  induction entries with
  | nil => simp [entryStrings]
  | cons e entries ih =>
    rw [entryStrings, List.mem_append, List.mem_append, ih, List.exists_mem_cons_iff]

omit [DecidableEq Obj] in
theorem mem_elementStrings (elements : List (Payload Obj)) (s : RString) :
    s ∈ elementStrings elements ↔ ∃ v ∈ elements, s ∈ strings v := by
  induction elements with
  | nil => simp [elementStrings]
  | cons v elements ih => rw [elementStrings, List.mem_append, ih, List.exists_mem_cons_iff]

theorem elementsInUtf8_eq (elements : List (Payload Obj)) :
    elementsInUtf8 elements = elements.map inUtf8 := by
  induction elements with
  | nil => rfl
  | cons v elements ih => rw [elementsInUtf8, ih, List.map_cons]

/-- The strings of a payload in UTF-8 are in UTF-8. -/
theorem strings_inUtf8 (p : Payload Obj) :
    ∀ s ∈ strings (inUtf8 p), s.encoding = .utf8 ∧ s.validUtf8 = true := by
  induction p using payload_induction with
  | hhash entries ih =>
    intro s hs
    rw [inUtf8, strings, mem_entryStrings] at hs
    obtain ⟨f, hf, hs⟩ := hs
    cases hs with
    | inl hkey =>
      exact keys_entriesInUtf8
        (fun k => ∀ s ∈ strings k, s.encoding = .utf8 ∧ s.validUtf8 = true) entries []
        (fun f hf => absurd hf List.not_mem_nil) (fun e he => (ih e he).1) f hf s hkey
    | inr hvalue =>
      cases mem_entriesInUtf8 entries [] f hf with
      | inl hnil => cases hnil
      | inr hfrom =>
        obtain ⟨e, he, -, hsame⟩ := hfrom
        rw [hsame] at hvalue
        exact (ih e he).2 s hvalue
  | harray vs ih =>
    intro s hs
    rw [inUtf8, strings, elementsInUtf8_eq, mem_elementStrings] at hs
    obtain ⟨w, hw, hs⟩ := hs
    obtain ⟨v, hv, rfl⟩ := List.mem_map.mp hw
    exact ih v hv s hs
  | hstring t =>
    intro s hs
    rw [inUtf8, strings, List.mem_singleton] at hs
    rw [hs]
    exact ⟨encoding_coerceToUtf8 t, validUtf8_coerceToUtf8 t⟩
  | hother value =>
    intro s hs
    cases hs

/-! ## Shapes -/

mutual
/-- The same shape, with the bytes of strings that are not valid UTF-8 replaced where they are
not ASCII. Several keys of a hash may have become one. -/
def SameShape : Payload Obj → Payload Obj → Prop
  | .hash es, .hash fs => (∀ f ∈ fs, ComesFrom es f) ∧ KeysAmong es fs
  | .array vs, .array ws => SameElements vs ws
  | .string s, .string t =>
    t.bytes = if s.validUtf8 then s.bytes else s.bytes.flatMap replaceByte
  | .other a, .other b => a = b
  | _, _ => False
termination_by structural p => p

/-- Some entry has the shape of `f`. -/
def ComesFrom : List (Payload Obj × Payload Obj) → Payload Obj × Payload Obj → Prop
  | [], _ => False
  | (k, v) :: es, f => SameShape k f.1 ∧ SameShape v f.2 ∨ ComesFrom es f
termination_by structural es => es

/-- Each key is there. -/
def KeysAmong : List (Payload Obj × Payload Obj) → List (Payload Obj × Payload Obj) → Prop
  | [], _ => True
  | (k, _) :: es, fs => (∃ f ∈ fs, SameShape k f.1) ∧ KeysAmong es fs
termination_by structural es => es

def SameElements : List (Payload Obj) → List (Payload Obj) → Prop
  | [], [] => True
  | v :: vs, w :: ws => SameShape v w ∧ SameElements vs ws
  | _, _ => False
termination_by structural vs => vs
end

omit [DecidableEq Obj] in
theorem comesFrom_iff (es : List (Payload Obj × Payload Obj)) (f : Payload Obj × Payload Obj) :
    ComesFrom es f ↔ ∃ e ∈ es, SameShape e.1 f.1 ∧ SameShape e.2 f.2 := by
  induction es with
  | nil => simp [ComesFrom]
  | cons e es ih => rw [ComesFrom, ih, List.exists_mem_cons_iff]

omit [DecidableEq Obj] in
theorem keysAmong_iff (es fs : List (Payload Obj × Payload Obj)) :
    KeysAmong es fs ↔ ∀ e ∈ es, ∃ f ∈ fs, SameShape e.1 f.1 := by
  induction es with
  | nil => simp [KeysAmong]
  | cons e es ih => rw [KeysAmong, ih, List.forall_mem_cons]

omit [DecidableEq Obj] in
theorem sameShape_hash (es fs : List (Payload Obj × Payload Obj)) :
    SameShape (.hash es) (.hash fs) ↔
      (∀ f ∈ fs, ∃ e ∈ es, SameShape e.1 f.1 ∧ SameShape e.2 f.2) ∧
        ∀ e ∈ es, ∃ f ∈ fs, SameShape e.1 f.1 := by
  rw [SameShape, keysAmong_iff]
  simp only [comesFrom_iff]

omit [DecidableEq Obj] in
theorem sameShape_array (vs ws : List (Payload Obj)) :
    SameShape (.array vs) (.array ws) ↔ List.Forall₂ SameShape vs ws := by
  rw [SameShape]
  induction vs generalizing ws with
  | nil => cases ws <;> simp [SameElements]
  | cons v vs ih =>
    cases ws with
    | nil => simp [SameElements]
    | cons w ws => rw [SameElements, ih, List.forall₂_cons]

/-- A shape does not tell equal payloads apart. -/
theorem sameShape_eql (p c d : Payload Obj) (h : SameShape p c) (hcd : eql c d = true) :
    SameShape p d := by
  induction p using payload_induction generalizing c d with
  | hhash es ih =>
    cases c with
    | hash fs =>
      obtain ⟨gs, rfl⟩ := hash_of_eql fs d hcd
      obtain ⟨-, hleft, hright⟩ := (eql_hash fs gs).mp hcd
      obtain ⟨hfrom, hkeys⟩ := (sameShape_hash es fs).mp h
      apply (sameShape_hash es gs).mpr
      constructor
      · intro g hg
        obtain ⟨f, hf, hkey, hvalue⟩ := hright g hg
        obtain ⟨e, he, hshape⟩ := hfrom f hf
        exact ⟨e, he, (ih e he).1 _ _ hshape.1 hkey, (ih e he).2 _ _ hshape.2 hvalue⟩
      · intro e he
        obtain ⟨f, hf, hshape⟩ := hkeys e he
        obtain ⟨g, hg, hkey, -⟩ := hleft f hf
        exact ⟨g, hg, (ih e he).1 _ _ hshape hkey⟩
    | _ => cases h
  | harray vs ih =>
    cases c with
    | array ws =>
      obtain ⟨xs, rfl⟩ := array_of_eql ws d hcd
      have hshapes := (sameShape_array vs ws).mp h
      have hpairs := (eql_array ws xs).mp hcd
      apply (sameShape_array vs xs).mpr
      clear h hcd
      induction hshapes generalizing xs with
      | nil =>
        cases hpairs
        exact .nil
      | cons hvw _ ihrest =>
        cases hpairs with
        | cons hwx hrest =>
          refine .cons (ih _ List.mem_cons_self _ _ hvw hwx) (ihrest ?_ _ hrest)
          intro v hv
          exact ih v (List.mem_cons_of_mem _ hv)
    | _ => cases h
  | hstring s =>
    cases c with
    | string t =>
      obtain ⟨u, rfl⟩ := string_of_eql t d hcd
      have hbytes : t.bytes = u.bytes := congrArg Prod.fst ((eql_iff t u).mp hcd)
      rw [SameShape] at h ⊢
      rw [← hbytes]
      exact h
    | _ => cases h
  | hother a =>
    cases c with
    | other b =>
      rw [other_of_eql b d hcd]
      exact h
    | _ => cases h

theorem sameShape_inUtf8 (p : Payload Obj) : SameShape p (inUtf8 p) := by
  induction p using payload_induction with
  | hhash es ih =>
    rw [inUtf8, sameShape_hash]
    constructor
    · intro f hf
      cases mem_entriesInUtf8 es [] f hf with
      | inl hnil => cases hnil
      | inr hfrom =>
        obtain ⟨e, he, hkey, hvalue⟩ := hfrom
        rw [hvalue]
        exact ⟨e, he, sameShape_eql e.1 _ _ (ih e he).1 hkey, (ih e he).2⟩
    · intro e he
      obtain ⟨f, hf, hkey⟩ := exists_entriesInUtf8 es e he
      exact ⟨f, hf, sameShape_eql e.1 _ _ (ih e he).1 (eql_symm _ _ hkey)⟩
  | harray vs ih =>
    rw [inUtf8, elementsInUtf8_eq, sameShape_array, List.forall₂_map_right_iff]
    exact List.forall₂_same.mpr ih
  | hstring s =>
    rw [inUtf8, SameShape]
    exact bytes_coerceToUtf8 s
  | hother value => rfl

/-! ## What the coercion promises -/

/-- All strings of a payload are valid UTF-8. -/
def Valid (p : Payload Obj) : Prop := ∀ s ∈ strings p, s.validUtf8 = true

/-- A payload within another, at any depth. -/
inductive Within : Payload Obj → Payload Obj → Prop where
  | self (p : Payload Obj) : Within p p
  | key (q : Payload Obj) (es : List (Payload Obj × Payload Obj)) (e : Payload Obj × Payload Obj)
    (he : e ∈ es) (h : Within q e.1) : Within q (.hash es)
  | value (q : Payload Obj) (es : List (Payload Obj × Payload Obj))
    (e : Payload Obj × Payload Obj) (he : e ∈ es) (h : Within q e.2) : Within q (.hash es)
  | element (q : Payload Obj) (vs : List (Payload Obj)) (v : Payload Obj) (hv : v ∈ vs)
    (h : Within q v) : Within q (.array vs)

/-- The payload that the code returns. -/
def coerced (debug : Bool) (errorContextStr : List Char) (p : Payload Obj) :
    Option (Payload Obj) :=
  (coercePayload debug errorContextStr p).map Prod.fst

/-- The hash is coerced to one that has the coerced entry. -/
def KeepsEntry (debug : Bool) (errorContextStr : List Char)
    (es : List (Payload Obj × Payload Obj)) (e : Payload Obj × Payload Obj) : Prop :=
  ∃ fs k v, coerced debug errorContextStr (.hash es) = some (.hash fs) ∧
    coerced debug errorContextStr e.1 = some k ∧ coerced debug errorContextStr e.2 = some v ∧
    ∃ f ∈ fs, eql f.1 k = true ∧ eql f.2 v = true

/-- A payload is coerced without an error, to its shape in valid UTF-8, with the entries of its
hashes whose keys are valid, and is lossy where some string is not valid. -/
def CoercedSafely (debug : Bool) (errorContextStr : List Char) (p : Payload Obj) : Prop :=
  ∃ c hadLossyString messages,
    coercePayload debug errorContextStr p = some (c, hadLossyString, messages) ∧
    SameShape p c ∧ (∀ s ∈ strings c, s.encoding = .utf8 ∧ s.validUtf8 = true) ∧
    (∀ es, Within (.hash es) p → ∀ e ∈ es, Valid e.1 → KeepsEntry debug errorContextStr es e) ∧
    (hadLossyString = true ↔ ∃ s ∈ strings p, s.validUtf8 = false)

omit [DecidableEq Obj] in
theorem strings_within (q p : Payload Obj) (h : Within q p) : ∀ s ∈ strings q, s ∈ strings p := by
  induction h with
  | self => exact fun s hs => hs
  | key es e he _ ih =>
    intro s hs
    exact (mem_entryStrings es s).mpr ⟨e, he, .inl (ih s hs)⟩
  | value es e he _ ih =>
    intro s hs
    exact (mem_entryStrings es s).mpr ⟨e, he, .inr (ih s hs)⟩
  | element vs v hv _ ih =>
    intro s hs
    exact (mem_elementStrings vs s).mpr ⟨v, hv, ih s hs⟩

theorem changed_iff (s : RString) :
    changed s = true ↔ s.validUtf8 = false ∨ s.retagged = true := by
  rw [changed, eql_coerceToUtf8]
  cases s.validUtf8 <;> simp

/-! ## Messages -/

theorem report_isSome (debug : Bool) (errorContextStr : List Char) (s : RString) :
    (report debug errorContextStr s).isSome = true ↔
      (debug = true → s.retagged = true → s.hasInvalidChar = true) := by
  have hcontext : (errorCharContext (coerceToUtf8 s).text).isSome = true ↔
      s.validUtf8 = false ∨ s.hasInvalidChar = true := by
    have hcoerced := hasInvalidChar_coerceToUtf8 s
    rw [errorCharContext_isSome, ← List.contains_iff_mem]
    rw [RString.hasInvalidChar] at hcoerced
    rw [hcoerced, Bool.or_eq_true, Bool.not_eq_true']
  have hretagged : s.retagged = true → s.validUtf8 = true := by
    intro h
    rw [RString.retagged, Bool.and_eq_true, Bool.and_eq_true, Bool.and_eq_true] at h
    exact h.1.1.1
  rw [report]
  cases debug with
  | false => simp
  | true =>
    cases hchanged : changed s with
    | false =>
      have hsame : s.retagged = false := by
        by_contra h
        rw [(changed_iff s).mpr (.inr (Bool.not_eq_false _ ▸ h))] at hchanged
        cases hchanged
      simp [hsame]
    | true =>
      rw [Bool.and_self, if_pos rfl, Option.isSome_map, hcontext]
      cases (changed_iff s).mp hchanged with
      | inl hinvalid =>
        constructor
        · intro _ _ hr
          rw [hretagged hr] at hinvalid
          cases hinvalid
        · intro _
          exact .inl hinvalid
      | inr hr => simp [hr, hretagged hr]

theorem reports_isSome (debug : Bool) (errorContextStr : List Char) (ss : List RString) :
    (reports debug errorContextStr ss).isSome = true ↔
      ∀ s ∈ ss, debug = true → s.retagged = true → s.hasInvalidChar = true := by
  induction ss with
  | nil => simp [reports]
  | cons s ss ih =>
    rw [List.forall_mem_cons, ← report_isSome debug errorContextStr s, ← ih, reports]
    cases report debug errorContextStr s <;> cases reports debug errorContextStr ss <;> simp

/-- Where no message fails, the payload is the one in UTF-8. -/
theorem coerced_eq (debug : Bool) (errorContextStr : List Char) (p : Payload Obj)
    (h : ∀ s ∈ strings p, debug = true → s.retagged = true → s.hasInvalidChar = true) :
    coerced debug errorContextStr p = some (inUtf8 p) := by
  have hreports := (reports_isSome debug errorContextStr (strings p)).mpr h
  obtain ⟨messages, hmessages⟩ := Option.isSome_iff_exists.mp hreports
  rw [coerced, coercePayload_eq, hmessages]
  rfl

/-- An entry is kept where the last entry with its key has its value. -/
theorem keepsEntry_iff (debug : Bool) (errorContextStr : List Char)
    (es : List (Payload Obj × Payload Obj)) (e : Payload Obj × Payload Obj) (he : e ∈ es)
    (h : ∀ s ∈ entryStrings es, debug = true → s.retagged = true → s.hasInvalidChar = true) :
    KeepsEntry debug errorContextStr es e ↔
      ∀ last, lastUnder es e.1 = some last → eql (inUtf8 last.2) (inUtf8 e.2) = true := by
  have hhash : coerced debug errorContextStr (.hash es) = some (.hash (entriesInUtf8 es [])) :=
    coerced_eq debug errorContextStr (.hash es) h
  have hkey : coerced debug errorContextStr e.1 = some (inUtf8 e.1) :=
    coerced_eq debug errorContextStr e.1
      fun s hs => h s ((mem_entryStrings es s).mpr ⟨e, he, .inl hs⟩)
  have hvalue : coerced debug errorContextStr e.2 = some (inUtf8 e.2) :=
    coerced_eq debug errorContextStr e.2
      fun s hs => h s ((mem_entryStrings es s).mpr ⟨e, he, .inr hs⟩)
  have hget := get_entriesInUtf8 es [] e.1
  obtain ⟨last, hlast⟩ := Option.isSome_iff_exists.mp (lastUnder_of_mem es e he)
  rw [hlast] at hget ⊢
  have hentry := get_eq_some _ (distinct_entriesInUtf8 es [] .nil) (inUtf8 e.1)
  constructor
  · rintro ⟨fs, k, v, hfs, hk, hv, f, hf, hfk, hfv⟩ last' hlast'
    cases hhash.symm.trans hfs
    cases hkey.symm.trans hk
    cases hvalue.symm.trans hv
    cases hlast'
    have hsame := (hentry f.2).mpr ⟨f, hf, hfk, rfl⟩
    have hlastvalue : inUtf8 last.2 = f.2 := Option.some.inj (hget.symm.trans hsame)
    rw [hlastvalue]
    exact hfv
  · intro hsame
    obtain ⟨f, hf, hfk, hfv⟩ := (hentry _).mp hget
    refine ⟨_, _, _, hhash, hkey, hvalue, f, hf, hfk, ?_⟩
    rw [hfv]
    exact hsame last rfl

/-- A payload is coerced as promised where, at debug level, each retagged string has U+FFFD of its
own, where no string is retagged unless some string is not valid, and where no entry with a valid
key is overwritten by another value. -/
theorem coercedSafely_iff (debug : Bool) (errorContextStr : List Char) (p : Payload Obj) :
    CoercedSafely debug errorContextStr p ↔
      (∀ s ∈ strings p, debug = true → s.retagged = true → s.hasInvalidChar = true) ∧
      ((∃ s ∈ strings p, s.retagged = true) → ∃ s ∈ strings p, s.validUtf8 = false) ∧
      ∀ es, Within (.hash es) p → ∀ e ∈ es, Valid e.1 → ∀ last,
        lastUnder es e.1 = some last → eql (inUtf8 last.2) (inUtf8 e.2) = true := by
  have hlossy : (((strings p).any changed = true) ↔ ∃ s ∈ strings p, s.validUtf8 = false) ↔
      ((∃ s ∈ strings p, s.retagged = true) → ∃ s ∈ strings p, s.validUtf8 = false) := by
    rw [List.any_eq_true]
    simp only [changed_iff]
    constructor
    · intro h hr
      obtain ⟨s, hs, hr⟩ := hr
      exact h.mp ⟨s, hs, .inr hr⟩
    · intro h
      constructor
      · rintro ⟨s, hs, hinvalid | hr⟩
        · exact ⟨s, hs, hinvalid⟩
        · exact h ⟨s, hs, hr⟩
      · rintro ⟨s, hs, hinvalid⟩
        exact ⟨s, hs, .inl hinvalid⟩
  have hwithin (h : ∀ s ∈ strings p, debug = true → s.retagged = true → s.hasInvalidChar = true)
      (es) (hes : Within (.hash es) p) (e) (he : e ∈ es) :=
    keepsEntry_iff debug errorContextStr es e he fun s hs => h s (strings_within _ p hes s hs)
  constructor
  · rintro ⟨c, hadLossyString, messages, hrun, -, -, hkeeps, hflag⟩
    rw [coercePayload_eq] at hrun
    obtain ⟨log, hlog, hresult⟩ := Option.map_eq_some_iff.mp hrun
    cases hresult
    have hmessages := (reports_isSome debug errorContextStr (strings p)).mp
      (Option.isSome_iff_exists.mpr ⟨_, hlog⟩)
    refine ⟨hmessages, hlossy.mp hflag, ?_⟩
    intro es hes e he hvalid
    exact (hwithin hmessages es hes e he).mp (hkeeps es hes e he hvalid)
  · rintro ⟨hmessages, hflag, hkeeps⟩
    obtain ⟨log, hlog⟩ := Option.isSome_iff_exists.mp
      ((reports_isSome debug errorContextStr (strings p)).mpr hmessages)
    refine ⟨inUtf8 p, (strings p).any changed, log, ?_, sameShape_inUtf8 p, strings_inUtf8 p, ?_,
      hlossy.mpr hflag⟩
    · rw [coercePayload_eq, hlog]
      rfl
    · intro es hes e he hvalid
      exact (hwithin hmessages es hes e he).mpr (hkeeps es hes e he hvalid)

/-- An é tagged as binary is taken for lossy. -/
theorem coercedSafely_fails : ¬ ∀ (debug : Bool) (errorContextStr : List Char)
    (p : Payload Nat), CoercedSafely debug errorContextStr p := by
  intro h
  obtain ⟨c, hadLossyString, messages, hrun, -, -, -, hflag⟩ :=
    h false [] (.string ⟨.asciiCompatible "ASCII-8BIT", [0xC3, 0xA9]⟩)
  have hvalid : (⟨.asciiCompatible "ASCII-8BIT", [0xC3, 0xA9]⟩ : RString).validUtf8 = true := by
    rw [RString.validUtf8]
    exact congrArg Option.isSome (decode_utf8 ['é'])
  rw [coercePayload_eq] at hrun
  obtain ⟨log, -, hresult⟩ := Option.map_eq_some_iff.mp hrun
  cases hresult
  have hchanged := (changed_iff ⟨.asciiCompatible "ASCII-8BIT", [0xC3, 0xA9]⟩).mpr
    (.inr (by rw [RString.retagged, hvalid]; rfl))
  have hany := List.any_eq_true.mpr ⟨_, List.mem_singleton_self _, hchanged⟩
  obtain ⟨s, hs, hinvalid⟩ := hflag.mp hany
  cases List.mem_singleton.mp hs
  rw [hvalid] at hinvalid
  cases hinvalid

end OpenVoxDB.PayloadCoercion
