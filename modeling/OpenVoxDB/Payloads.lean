import Mathlib
import OpenVoxDB.RubyStrings

/-!
# Payloads

What a command carries: hashes, arrays, strings and other values. A hash finds its entries by
`eql?` of their keys, which for hashes as keys does not look at the order of the entries.
-/

namespace OpenVoxDB.Payloads

open RubyStrings

/-- A payload, with `Obj` for numbers, booleans and nil. -/
inductive Payload (Obj : Type) where
  | hash (entries : List (Payload Obj × Payload Obj))
  | array (elements : List (Payload Obj))
  | string (s : RString)
  | other (value : Obj)
  deriving Repr

variable {Obj : Type} [DecidableEq Obj]

/-! ## Equality of keys -/

mutual
/-- `eql?`. Hashes are equal where each entry of one is in the other. -/
def eql : Payload Obj → Payload Obj → Bool
  | .hash es, .hash fs => es.length == fs.length && included es fs && (remaining es fs).isEmpty
  | .array vs, .array ws => eqlElements vs ws
  | .string s, .string t => s.eql t
  | .other a, .other b => a == b
  | _, _ => false
termination_by structural p => p

def included : List (Payload Obj × Payload Obj) → List (Payload Obj × Payload Obj) → Bool
  | [], _ => true
  | (k, v) :: es, fs => fs.any (fun f => eql k f.1 && eql v f.2) && included es fs
termination_by structural es => es

/-- The entries of `fs` that are not among those of the first. -/
def remaining : List (Payload Obj × Payload Obj) → List (Payload Obj × Payload Obj) →
    List (Payload Obj × Payload Obj)
  | [], fs => fs
  | (k, v) :: es, fs => remaining es (fs.filter fun f => !(eql k f.1 && eql v f.2))
termination_by structural es => es

def eqlElements : List (Payload Obj) → List (Payload Obj) → Bool
  | [], [] => true
  | v :: vs, w :: ws => eql v w && eqlElements vs ws
  | _, _ => false
termination_by structural vs => vs
end

/-- `memo[k] = v`, which keeps a key that is there. -/
def put : List (Payload Obj × Payload Obj) → Payload Obj → Payload Obj →
    List (Payload Obj × Payload Obj)
  | [], k, v => [(k, v)]
  | f :: memo, k, v => if eql f.1 k then (f.1, v) :: memo else f :: put memo k v

/-! ## Induction on payloads -/

omit [DecidableEq Obj] in
theorem sizeOf_entry (es : List (Payload Obj × Payload Obj)) (e : Payload Obj × Payload Obj)
    (he : e ∈ es) : sizeOf e.1 < sizeOf (Payload.hash es) ∧
      sizeOf e.2 < sizeOf (Payload.hash es) := by
  have hentry := List.sizeOf_lt_of_mem he
  obtain ⟨k, v⟩ := e
  simp only [Prod.mk.sizeOf_spec, Payload.hash.sizeOf_spec] at hentry ⊢
  omega

omit [DecidableEq Obj] in
theorem payload_induction (P : Payload Obj → Prop)
    (hhash : ∀ es, (∀ e ∈ es, P e.1 ∧ P e.2) → P (.hash es))
    (harray : ∀ vs, (∀ v ∈ vs, P v) → P (.array vs))
    (hstring : ∀ s, P (.string s)) (hother : ∀ value, P (.other value)) (p : Payload Obj) :
    P p := by
  cases p with
  | hash es =>
    apply hhash
    intro e he
    obtain ⟨hkey, hvalue⟩ := sizeOf_entry es e he
    exact ⟨payload_induction P hhash harray hstring hother e.1,
      payload_induction P hhash harray hstring hother e.2⟩
  | array vs =>
    apply harray
    intro v hv
    have helement := List.sizeOf_lt_of_mem hv
    exact payload_induction P hhash harray hstring hother v
  | string s => exact hstring s
  | other value => exact hother value
termination_by sizeOf p
decreasing_by
  · exact hkey
  · exact hvalue
  · simp only [Payload.array.sizeOf_spec]
    omega

/-! ## Equality is an equivalence -/

/-- An entry with the same key and the same value. -/
def eqlEntry (e f : Payload Obj × Payload Obj) : Prop := eql e.1 f.1 = true ∧ eql e.2 f.2 = true

theorem included_iff (es fs : List (Payload Obj × Payload Obj)) :
    included es fs = true ↔ ∀ e ∈ es, ∃ f ∈ fs, eqlEntry e f := by
  induction es with
  | nil => simp [included]
  | cons e es ih =>
    obtain ⟨k, v⟩ := e
    rw [included, Bool.and_eq_true, ih]
    simp [eqlEntry]

theorem mem_remaining (es fs : List (Payload Obj × Payload Obj))
    (f : Payload Obj × Payload Obj) :
    f ∈ remaining es fs ↔ f ∈ fs ∧ ∀ e ∈ es, ¬ eqlEntry e f := by
  induction es generalizing fs with
  | nil => simp [remaining]
  | cons e es ih =>
    obtain ⟨k, v⟩ := e
    have hkept : (!(eql k f.1 && eql v f.2)) = true ↔ ¬ eqlEntry (k, v) f := by
      rw [Bool.not_eq_true', ← Bool.not_eq_true, Bool.and_eq_true]
      rfl
    rw [remaining, ih, List.mem_filter, hkept, List.forall_mem_cons, and_assoc]

theorem eql_hash (es fs : List (Payload Obj × Payload Obj)) :
    eql (.hash es) (.hash fs) = true ↔ es.length = fs.length ∧
      (∀ e ∈ es, ∃ f ∈ fs, eqlEntry e f) ∧ ∀ f ∈ fs, ∃ e ∈ es, eqlEntry e f := by
  have hremaining : (remaining es fs).isEmpty = true ↔ ∀ f ∈ fs, ∃ e ∈ es, eqlEntry e f := by
    rw [List.isEmpty_iff, List.eq_nil_iff_forall_not_mem]
    simp only [mem_remaining, not_and, not_forall, not_not, exists_prop]
  rw [eql, Bool.and_eq_true, Bool.and_eq_true, included_iff, hremaining, beq_iff_eq, and_assoc]

theorem eqlElements_iff (vs ws : List (Payload Obj)) :
    eqlElements vs ws = true ↔ List.Forall₂ (fun v w => eql v w = true) vs ws := by
  induction vs generalizing ws with
  | nil => cases ws <;> simp [eqlElements]
  | cons v vs ih =>
    cases ws with
    | nil => simp [eqlElements]
    | cons w ws => rw [eqlElements, Bool.and_eq_true, ih, List.forall₂_cons]

theorem eql_array (vs ws : List (Payload Obj)) :
    eql (.array vs) (.array ws) = true ↔ List.Forall₂ (fun v w => eql v w = true) vs ws :=
  eqlElements_iff vs ws

@[simp] theorem eql_string (s t : RString) :
    eql (.string s : Payload Obj) (.string t) = s.eql t := rfl

theorem hash_of_eql (es : List (Payload Obj × Payload Obj)) (q : Payload Obj)
    (h : eql (.hash es) q = true) : ∃ fs, q = .hash fs := by
  cases q with
  | hash fs => exact ⟨fs, rfl⟩
  | _ => cases h

theorem array_of_eql (vs : List (Payload Obj)) (q : Payload Obj)
    (h : eql (.array vs) q = true) : ∃ ws, q = .array ws := by
  cases q with
  | array ws => exact ⟨ws, rfl⟩
  | _ => cases h

theorem string_of_eql (s : RString) (q : Payload Obj) (h : eql (.string s) q = true) :
    ∃ t, q = .string t := by
  cases q with
  | string t => exact ⟨t, rfl⟩
  | _ => cases h

theorem other_of_eql (value : Obj) (q : Payload Obj) (h : eql (.other value) q = true) :
    q = .other value := by
  cases q with
  | other b =>
    have hsame : value = b := beq_iff_eq.mp h
    rw [hsame]
  | _ => cases h

theorem eql_refl (p : Payload Obj) : eql p p = true := by
  induction p using payload_induction with
  | hhash es ih =>
    exact (eql_hash es es).mpr ⟨rfl, fun e he => ⟨e, he, ih e he⟩, fun e he => ⟨e, he, ih e he⟩⟩
  | harray vs ih => exact (eql_array vs vs).mpr (List.forall₂_same.mpr ih)
  | hstring s => exact (eql_iff s s).mpr rfl
  | hother value => exact beq_self_eq_true value

theorem eql_symm (p q : Payload Obj) (h : eql p q = true) : eql q p = true := by
  induction p using payload_induction generalizing q with
  | hhash es ih =>
    obtain ⟨fs, rfl⟩ := hash_of_eql es q h
    obtain ⟨hlength, hleft, hright⟩ := (eql_hash es fs).mp h
    have hentry (e f) (he : e ∈ es) (hef : eqlEntry e f) : eqlEntry f e :=
      ⟨(ih e he).1 f.1 hef.1, (ih e he).2 f.2 hef.2⟩
    apply (eql_hash fs es).mpr
    refine ⟨hlength.symm, ?_, ?_⟩
    · intro f hf
      obtain ⟨e, he, hef⟩ := hright f hf
      exact ⟨e, he, hentry e f he hef⟩
    · intro e he
      obtain ⟨f, hf, hef⟩ := hleft e he
      exact ⟨f, hf, hentry e f he hef⟩
  | harray vs ih =>
    obtain ⟨ws, rfl⟩ := array_of_eql vs q h
    have hpairs := (eql_array vs ws).mp h
    apply (eql_array ws vs).mpr
    clear h
    induction hpairs with
    | nil => exact .nil
    | cons hvw _ ihrest =>
      refine .cons (ih _ List.mem_cons_self _ hvw) (ihrest ?_)
      intro v hv
      exact ih v (List.mem_cons_of_mem _ hv)
  | hstring s =>
    obtain ⟨t, rfl⟩ := string_of_eql s q h
    exact (eql_iff t s).mpr ((eql_iff s t).mp h).symm
  | hother value =>
    rw [other_of_eql value q h]
    exact eql_refl _

theorem eql_trans (p q r : Payload Obj) (hpq : eql p q = true) (hqr : eql q r = true) :
    eql p r = true := by
  induction p using payload_induction generalizing q r with
  | hhash es ih =>
    obtain ⟨fs, rfl⟩ := hash_of_eql es q hpq
    obtain ⟨gs, rfl⟩ := hash_of_eql fs r hqr
    obtain ⟨hlength, hleft, hright⟩ := (eql_hash es fs).mp hpq
    obtain ⟨hlength', hleft', hright'⟩ := (eql_hash fs gs).mp hqr
    have hentry (e f g) (he : e ∈ es) (hef : eqlEntry e f) (hfg : eqlEntry f g) :
        eqlEntry e g :=
      ⟨(ih e he).1 f.1 g.1 hef.1 hfg.1, (ih e he).2 f.2 g.2 hef.2 hfg.2⟩
    apply (eql_hash es gs).mpr
    refine ⟨hlength.trans hlength', ?_, ?_⟩
    · intro e he
      obtain ⟨f, hf, hef⟩ := hleft e he
      obtain ⟨g, hg, hfg⟩ := hleft' f hf
      exact ⟨g, hg, hentry e f g he hef hfg⟩
    · intro g hg
      obtain ⟨f, hf, hfg⟩ := hright' g hg
      obtain ⟨e, he, hef⟩ := hright f hf
      exact ⟨e, he, hentry e f g he hef hfg⟩
  | harray vs ih =>
    obtain ⟨ws, rfl⟩ := array_of_eql vs q hpq
    obtain ⟨xs, rfl⟩ := array_of_eql ws r hqr
    have hpairs := (eql_array vs ws).mp hpq
    have hpairs' := (eql_array ws xs).mp hqr
    apply (eql_array vs xs).mpr
    clear hpq hqr
    induction hpairs generalizing xs with
    | nil => exact hpairs'
    | cons hvw _ ihrest =>
      cases hpairs' with
      | cons hwx hrest =>
        refine .cons (ih _ List.mem_cons_self _ _ hvw hwx) (ihrest ?_ _ hrest)
        intro v hv
        exact ih v (List.mem_cons_of_mem _ hv)
  | hstring s =>
    obtain ⟨t, rfl⟩ := string_of_eql s q hpq
    obtain ⟨u, rfl⟩ := string_of_eql t r hqr
    exact (eql_iff s u).mpr (((eql_iff s t).mp hpq).trans ((eql_iff t u).mp hqr))
  | hother value =>
    rw [other_of_eql value q hpq] at hqr
    exact hqr

/-! ## Hashes -/

/-- The value under a key. -/
def get (memo : List (Payload Obj × Payload Obj)) (k : Payload Obj) : Option (Payload Obj) :=
  (memo.find? fun f => eql f.1 k).map Prod.snd

/-- Keys of a hash are distinct. -/
def Distinct (memo : List (Payload Obj × Payload Obj)) : Prop :=
  memo.Pairwise fun f g => eql f.1 g.1 = false

theorem eql_congr (p q r : Payload Obj) (h : eql p q = true) : eql p r = eql q r := by
  apply Bool.eq_iff_iff.mpr
  constructor
  · intro hpr
    exact eql_trans q p r (eql_symm p q h) hpr
  · intro hqr
    exact eql_trans p q r h hqr

theorem get_put (memo : List (Payload Obj × Payload Obj)) (k v k' : Payload Obj) :
    get (put memo k v) k' = if eql k k' then some v else get memo k' := by
  induction memo with
  | nil => cases h : eql k k' <;> simp [put, get, h]
  | cons f memo ih =>
    rw [put]
    split
    · next hkey =>
      rw [← eql_congr f.1 k k' hkey]
      cases h : eql f.1 k' <;> simp [get, h]
    · next hkey =>
      cases h : eql f.1 k' with
      | false =>
        simp only [get] at ih
        simp [get, h, ih]
      | true =>
        have hother : eql k k' = false := by
          by_contra hsame
          apply hkey
          exact eql_trans _ k' _ h (eql_symm _ _ (by simpa using hsame))
        simp [get, h, hother]

/-- An entry of the hash after a `put` was there, or has the value put. -/
theorem mem_put (memo : List (Payload Obj × Payload Obj)) (k v : Payload Obj)
    (f : Payload Obj × Payload Obj) (h : f ∈ put memo k v) :
    f ∈ memo ∨ eql k f.1 = true ∧ f.2 = v := by
  induction memo with
  | nil =>
    rw [put, List.mem_singleton] at h
    rw [h]
    exact .inr ⟨eql_refl k, rfl⟩
  | cons g memo ih =>
    rw [put] at h
    split at h
    · next hkey =>
      cases List.mem_cons.mp h with
      | inl hf =>
        rw [hf]
        exact .inr ⟨eql_symm _ _ hkey, rfl⟩
      | inr hf => exact .inl (List.mem_cons_of_mem _ hf)
    · cases List.mem_cons.mp h with
      | inl hf => exact .inl (List.mem_cons.mpr (.inl hf))
      | inr hf =>
        cases ih hf with
        | inl hmem => exact .inl (List.mem_cons_of_mem _ hmem)
        | inr hput => exact .inr hput

/-- What holds of the keys of a hash and of one put in holds of the keys after. -/
theorem keys_put (P : Payload Obj → Prop) (memo : List (Payload Obj × Payload Obj))
    (k v : Payload Obj) (hmemo : ∀ f ∈ memo, P f.1) (hk : P k) :
    ∀ f ∈ put memo k v, P f.1 := by
  induction memo with
  | nil => simpa [put] using hk
  | cons g memo ih =>
    obtain ⟨hg, hmemo⟩ := List.forall_mem_cons.mp hmemo
    rw [put]
    split
    · exact List.forall_mem_cons.mpr ⟨hg, hmemo⟩
    · exact List.forall_mem_cons.mpr ⟨hg, ih hmemo⟩

theorem distinct_put (memo : List (Payload Obj × Payload Obj)) (k v : Payload Obj)
    (h : Distinct memo) : Distinct (put memo k v) := by
  induction memo with
  | nil => exact List.pairwise_singleton _ _
  | cons g memo ih =>
    obtain ⟨hg, hmemo⟩ := List.pairwise_cons.mp h
    rw [put]
    split
    · exact List.pairwise_cons.mpr ⟨hg, hmemo⟩
    · next hkey =>
      apply List.pairwise_cons.mpr
      refine ⟨?_, ih hmemo⟩
      exact keys_put (fun key => eql g.1 key = false) memo k v hg (by simpa using hkey)

/-- With distinct keys, what is under a key is the value of its one entry. -/
theorem get_eq_some (memo : List (Payload Obj × Payload Obj)) (h : Distinct memo)
    (k v : Payload Obj) : get memo k = some v ↔ ∃ f ∈ memo, eql f.1 k = true ∧ f.2 = v := by
  induction memo with
  | nil => simp [get]
  | cons g memo ih =>
    obtain ⟨hg, hmemo⟩ := List.pairwise_cons.mp h
    have hrest := ih hmemo
    cases hkey : eql g.1 k with
    | false =>
      simp only [get, List.find?_cons, hkey, List.exists_mem_cons_iff, Bool.false_eq_true,
        false_and, false_or]
      exact hrest
    | true =>
      have hnone : ¬ ∃ f ∈ memo, eql f.1 k = true ∧ f.2 = v := by
        rintro ⟨f, hf, hsame, -⟩
        have hother := hg f hf
        rw [eql_trans g.1 k f.1 hkey (eql_symm _ _ hsame)] at hother
        cases hother
      simp [get, hkey, hnone]

end OpenVoxDB.Payloads
