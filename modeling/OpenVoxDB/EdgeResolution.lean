import Mathlib
import OpenVoxDB.EdgeSynthesis
import OpenVoxDB.QueryExpansion

/-!
# References that are resolved right

When the resource that is looked up for a relationship is the one that it names. The
two part at references to the root directory and to files with a slash before a line
break, at names that several resources share, and at references that are a line of a
longer text.
-/

namespace OpenVoxDB.EdgeSynthesis

open Catalogs (Ref Edge Relationship)
open ResourceRefs

/-! ## Lists -/

theorem mem_of_lookup_some {α β : Type} [BEq α] [LawfulBEq α] (key : α) (xs : List (α × β)) (x : β)
    (h : xs.lookup key = some x) : (key, x) ∈ xs := by
  obtain ⟨before, after, rfl, _⟩ := List.lookup_eq_some_iff.mp h
  simp

theorem nodup_eraseDups {α : Type} [DecidableEq α] (xs : List α) : xs.eraseDups.Nodup := by
  induction h : xs.length using Nat.strong_induction_on generalizing xs with
  | _ n ih =>
    cases xs with
    | nil => simp
    | cons x xs =>
      rw [List.eraseDups_cons, List.nodup_cons]
      constructor
      · rw [List.mem_eraseDups]
        simp
      · have hlen : (xs.filter fun y => !y == x).length < n := by
          have hle := List.length_filter_le (fun y => !y == x) xs
          rw [List.length_cons] at h
          omega
        exact ih _ hlen _ rfl

theorem mapM_error_iff {ε α β : Type} (f : α → Except ε β) (xs : List α) :
    (∃ e, xs.mapM f = .error e) ↔ ∃ x ∈ xs, ∃ e, f x = .error e := by
  induction xs with
  | nil => simp [pure, Except.pure]
  | cons x xs ih =>
    rw [List.mapM_cons, List.exists_mem_cons_iff, ← ih]
    cases hx : f x with
    | error e => simp [bind, Except.bind]
    | ok y => cases hxs : xs.mapM f <;> simp [bind, Except.bind, pure, Except.pure]

theorem mem_of_mapM {ε α β : Type} (f : α → Except ε β) (xs : List α) (ys : List β)
    (h : xs.mapM f = .ok ys) (y : β) : y ∈ ys ↔ ∃ x ∈ xs, f x = .ok y := by
  induction xs generalizing ys with
  | nil =>
    cases h
    simp
  | cons x xs ih =>
    rw [List.mapM_cons] at h
    cases hx : f x with
    | error e =>
      rw [hx] at h
      cases h
    | ok z =>
      cases hxs : xs.mapM f with
      | error e =>
        rw [hx, hxs] at h
        cases h
      | ok zs =>
        rw [hx, hxs] at h
        cases h
        rw [List.mem_cons, ih zs hxs, List.exists_mem_cons_iff, hx, Except.ok.injEq, eq_comm]

/-! ## Look-up -/

section Resolution

variable (virtual : Ref → Bool) (cat : Catalog)

theorem mem_mapAliasesToTitle (type : String) (name : Json) (ref : Ref) :
    ((type, name), ref) ∈ mapAliasesToTitle cat ↔
      ∃ r ∈ cat.resources, r.type = type ∧ r.ref = ref ∧
        name ∈ arrayOf (r.parameters.lookup "alias") := by
  rw [mapAliasesToTitle, List.mem_flatMap]
  constructor
  · rintro ⟨r, hr, hmem⟩
    obtain ⟨n, hn, h⟩ := List.mem_map.mp hmem
    cases h
    exact ⟨r, hr, rfl, rfl, hn⟩
  · rintro ⟨r, hr, rfl, rfl, hname⟩
    exact ⟨r, hr, List.mem_map.mpr ⟨name, hname, rfl⟩⟩

theorem mem_names (r : Resource) (name : String) :
    name ∈ r.names ↔ name = r.title ∨ .str name ∈ arrayOf (r.parameters.lookup "alias") := by
  rw [Resource.names, List.mem_cons, List.mem_filterMap]
  constructor
  · rintro (h | ⟨j, hj, h⟩)
    · exact .inl h
    · cases j with
      | str s =>
        cases h
        exact .inr hj
      | null | bool _ | int _ | float _ _ | arr _ | obj _ => cases h
  · rintro (h | h)
    · exact .inl h
    · exact .inr ⟨.str name, h, rfl⟩

/-- What is found has the title looked up among its names. -/
theorem findResource_some (hash ref : Ref) (h : findResource cat hash = some ref) :
    ∃ r ∈ cat.resources, r.ref = ref ∧ r.type = hash.type ∧ hash.title ∈ r.names := by
  unfold findResource at h
  split at h
  · rename_i hany
    obtain ⟨r, hr, href⟩ := List.any_eq_true.mp hany
    cases h
    have href := of_decide_eq_true href
    refine ⟨r, hr, href, ?_, ?_⟩
    · rw [← href]
      rfl
    · rw [← href]
      exact List.mem_cons_self
  · obtain ⟨r, hr, htype, href, hname⟩ := (mem_mapAliasesToTitle cat _ _ _).mp
      (List.mem_reverse.mp (mem_of_lookup_some _ _ _ h))
    exact ⟨r, hr, href, htype, (mem_names r _).mpr (.inr hname)⟩

/-- Nothing is found where no resource has the name. -/
theorem findResource_none (hash : Ref) (h : findResource cat hash = none) (r : Resource)
    (hr : r ∈ cat.resources) (htype : r.type = hash.type) : hash.title ∉ r.names := by
  intro hname
  unfold findResource at h
  split at h
  · cases h
  · rename_i hany
    obtain htitle | halias := (mem_names r _).mp hname
    · apply hany
      rw [List.any_eq_true]
      refine ⟨r, hr, decide_eq_true ?_⟩
      rw [Resource.ref, htype, ← htitle]
    · have hnone := List.lookup_eq_none_iff.mp h ((r.type, .str hash.title), r.ref)
        (List.mem_reverse.mpr ((mem_mapAliasesToTitle cat _ _ _).mpr ⟨r, hr, rfl, rfl, halias⟩))
      rw [htype] at hnone
      simp at hnone

/-- The resource is found by its title, or else the last with the alias, and is not virtual. -/
def Found (hash ref : Ref) : Prop := findResource cat hash = some ref ∧ virtual ref = false

theorem resolve_ok_iff (text : String) (ref : Ref) :
    resolve virtual cat (.str text) = .ok ref ↔
      correctFormat text = true ∧ ∃ hash, resourceRefToHash text = some hash ∧
        Found virtual cat (mungeTitle hash) ref := by
  rw [resolve]
  by_cases hformat : correctFormat text = true
  · rw [if_pos hformat, hformat]
    cases hhash : resourceRefToHash text with
    | none => simp
    | some hash =>
      simp only [Option.bind_some, Option.some.injEq, exists_eq_left', Found]
      cases hfind : findResource cat (mungeTitle hash) with
      | none => simp
      | some other =>
        cases hv : virtual other with
        | true =>
          simp only [hv, if_true, true_and]
          constructor
          · intro h
            cases h
          · rintro ⟨h, hnot⟩
            cases h
            rw [hv] at hnot
            cases hnot
        | false =>
          simp only [hv, Bool.false_eq_true, if_false, Except.ok.injEq, Option.some.injEq, true_and]
          constructor
          · rintro rfl
            exact ⟨rfl, hv⟩
          · rintro ⟨h, _⟩
            exact h
  · simp [hformat]

theorem resolve_reference (text : String) (hash : Ref) (h : IsReference text hash) (ref : Ref) :
    resolve virtual cat (.str text) = .ok ref ↔ Found virtual cat (mungeTitle hash) ref := by
  rw [resolve_ok_iff, resourceRefToHash_reference text hash h]
  simp [correctFormat_reference text hash h]

/-! ## Right resolution -/

/-- A value that names no resource, as one that is no reference does, or a virtual one. -/
def Bad (other : Json) : Prop :=
  (∀ r ∈ cat.resources, ¬ Names other r) ∨ ∃ r ∈ cat.resources, Names other r ∧ virtual r.ref = true

/-- It raises for a bad value, and for any other finds the resource that the value names. -/
structure ResolvesRight (other : Json) : Prop where
  raises : (∃ reason, resolve virtual cat other = .error reason) ↔ Bad virtual cat other
  names : ∀ ref, resolve virtual cat other = .ok ref →
    (∃ r ∈ cat.resources, Names other r ∧ r.ref = ref) ∧
      ∀ r ∈ cat.resources, Names other r → r.ref = ref

theorem names_reference (text : String) (hash : Ref) (h : IsReference text hash) (r : Resource) :
    Names (.str text) r ↔ r.isNamed hash := by
  constructor
  · rintro ⟨t, hash', ht, h', hr⟩
    cases ht
    rwa [isReference_unique text hash hash' h h']
  · intro hr
    exact ⟨text, hash, rfl, h, hr⟩

theorem bad_reference (text : String) (hash : Ref) (h : IsReference text hash) :
    Bad virtual cat (.str text) ↔
      (∀ r ∈ cat.resources, ¬ r.isNamed hash) ∨
        ∃ r ∈ cat.resources, r.isNamed hash ∧ virtual r.ref = true := by
  simp only [Bad, names_reference text hash h]

/-- Whether a text is resolved right, by its kind: a text that is no reference, a reference to a
file, and any other reference. -/
structure Settled (text : String) : Prop where
  malformed : (∀ hash, ¬ IsReference text hash) → correctFormat text = true →
    ∀ hash ref, resourceRefToHash text = some hash → ¬ Found virtual cat (mungeTitle hash) ref
  unshared : ∀ hash, IsReference text hash → hash.type ≠ "File" →
    ∀ ref, Found virtual cat hash ref →
      ∀ r ∈ cat.resources, r.type = hash.type → hash.title ∈ r.names → r.ref = ref
  file : ∀ hash, IsReference text hash → hash.type = "File" →
    ∀ ref, Found virtual cat (mungeTitle hash) ref →
      (∃ r ∈ cat.resources, r.isNamed hash ∧ r.ref = ref) ∧
        ∀ r ∈ cat.resources, r.isNamed hash → r.ref = ref
  noFile : ∀ hash, IsReference text hash → hash.type = "File" →
    (∀ ref, ¬ Found virtual cat (mungeTitle hash) ref) →
      (∀ r ∈ cat.resources, ¬ r.isNamed hash) ∨
        ∃ r ∈ cat.resources, r.isNamed hash ∧ virtual r.ref = true

theorem mungeTitle_of_ne (hash : Ref) (h : hash.type ≠ "File") : mungeTitle hash = hash :=
  if_neg fun hand => h hand.1

theorem isNamed_of_ne (r : Resource) (hash : Ref) (h : hash.type ≠ "File") :
    r.isNamed hash ↔ r.type = hash.type ∧ hash.title ∈ r.names := by
  rw [Resource.isNamed, if_neg h]

/-- It raises or finds a resource. -/
theorem resolve_error_iff (other : Json) :
    (∃ reason, resolve virtual cat other = .error reason) ↔
      ∀ ref, resolve virtual cat other ≠ .ok ref := by
  cases resolve virtual cat other <;> simp

theorem found_isNamed (hash ref : Ref) (hne : hash.type ≠ "File")
    (hfound : Found virtual cat hash ref) :
    ∃ r ∈ cat.resources, r.isNamed hash ∧ r.ref = ref := by
  obtain ⟨r, hr, href, htype, hname⟩ := findResource_some cat hash ref hfound.1
  exact ⟨r, hr, (isNamed_of_ne r hash hne).mpr ⟨htype, hname⟩, href⟩

/-- Where nothing is found that is not virtual, nothing is named, or a virtual resource. -/
theorem bad_of_not_found (hash : Ref) (hne : hash.type ≠ "File")
    (hnot : ∀ ref, ¬ Found virtual cat hash ref) :
    (∀ r ∈ cat.resources, ¬ r.isNamed hash) ∨
      ∃ r ∈ cat.resources, r.isNamed hash ∧ virtual r.ref = true := by
  cases hfind : findResource cat hash with
  | none =>
    refine .inl fun r hr hnamed => ?_
    obtain ⟨htype, hname⟩ := (isNamed_of_ne r hash hne).mp hnamed
    exact findResource_none cat hash hfind r hr htype hname
  | some ref =>
    obtain ⟨r, hr, href, htype, hname⟩ := findResource_some cat hash ref hfind
    refine .inr ⟨r, hr, (isNamed_of_ne r hash hne).mpr ⟨htype, hname⟩, ?_⟩
    cases hv : virtual r.ref with
    | true => rfl
    | false =>
      rw [href] at hv
      exact absurd ⟨hfind, hv⟩ (hnot ref)

/-- A reference is resolved right when what is found is all that it names, and nothing is found
only where nothing is named, or a virtual resource. -/
theorem resolvesRight_reference (text : String) (hash : Ref) (h : IsReference text hash) :
    ResolvesRight virtual cat (.str text) ↔
      (∀ ref, Found virtual cat (mungeTitle hash) ref →
        (∃ r ∈ cat.resources, r.isNamed hash ∧ r.ref = ref) ∧
          ∀ r ∈ cat.resources, r.isNamed hash → r.ref = ref) ∧
        ((∀ ref, ¬ Found virtual cat (mungeTitle hash) ref) →
          (∀ r ∈ cat.resources, ¬ r.isNamed hash) ∨
            ∃ r ∈ cat.resources, r.isNamed hash ∧ virtual r.ref = true) := by
  constructor
  · intro hright
    constructor
    · intro ref hfound
      have hnames := hright.names ref ((resolve_reference virtual cat text hash h ref).mpr hfound)
      simpa only [names_reference text hash h] using hnames
    · intro hnot
      apply (bad_reference virtual cat text hash h).mp
      apply hright.raises.mp
      rw [resolve_error_iff]
      intro ref hok
      exact hnot ref ((resolve_reference virtual cat text hash h ref).mp hok)
  · rintro ⟨hfound, hnot⟩
    constructor
    · rw [resolve_error_iff, bad_reference virtual cat text hash h]
      simp only [ne_eq, resolve_reference virtual cat text hash h]
      constructor
      · exact hnot
      · intro hbad ref hf
        obtain ⟨⟨r, hr, hnamed, _⟩, hall⟩ := hfound ref hf
        obtain hnone | ⟨r', hr', hnamed', hv⟩ := hbad
        · exact hnone r hr hnamed
        · rw [hall r' hr' hnamed', hf.2] at hv
          cases hv
    · intro ref hok
      simp only [names_reference text hash h]
      exact hfound ref ((resolve_reference virtual cat text hash h ref).mp hok)

theorem names_malformed (text : String) (h : ∀ hash, ¬ IsReference text hash) (r : Resource) :
    ¬ Names (.str text) r := by
  rintro ⟨t, hash, ht, href, _⟩
  cases ht
  exact h hash href

/-- A text that is no reference is resolved right when it raises. -/
theorem resolvesRight_malformed (text : String) (h : ∀ hash, ¬ IsReference text hash) :
    ResolvesRight virtual cat (.str text) ↔
      (correctFormat text = true →
        ∀ hash ref, resourceRefToHash text = some hash → ¬ Found virtual cat (mungeTitle hash) ref) := by
  have hbad : Bad virtual cat (.str text) := .inl fun r _ => names_malformed text h r
  have hraise : (∃ reason, resolve virtual cat (.str text) = .error reason) ↔
      (correctFormat text = true →
        ∀ hash ref, resourceRefToHash text = some hash → ¬ Found virtual cat (mungeTitle hash) ref) := by
    rw [resolve_error_iff]
    simp only [ne_eq, resolve_ok_iff]
    constructor
    · intro hno hformat hash ref hhash hf
      exact hno ref ⟨hformat, hash, hhash, hf⟩
    · rintro hno ref ⟨hformat, hash, hhash, hf⟩
      exact hno hformat hash ref hhash hf
  constructor
  · intro hright
    exact hraise.mp (hright.raises.mpr hbad)
  · intro hno
    have herror := hraise.mpr hno
    refine ⟨iff_of_true herror hbad, fun ref hok => ?_⟩
    exact absurd hok ((resolve_error_iff virtual cat _).mp herror ref)

/-- A text is resolved right exactly when it is settled. -/
theorem resolvesRight_iff (text : String) :
    ResolvesRight virtual cat (.str text) ↔ Settled virtual cat text := by
  by_cases hwhole : ∃ hash, IsReference text hash
  · obtain ⟨hash, h⟩ := hwhole
    have hunique : ∀ hash', IsReference text hash' → hash' = hash := fun hash' h' =>
      isReference_unique text hash' hash h' h
    rw [resolvesRight_reference virtual cat text hash h]
    by_cases hfile : hash.type = "File"
    · constructor
      · rintro ⟨hfound, hnot⟩
        refine ⟨fun hno => absurd h (hno hash), fun hash' h' hne => ?_, fun hash' h' _ => ?_,
          fun hash' h' _ => ?_⟩
        · rw [hunique hash' h'] at hne
          exact absurd hfile hne
        · rw [hunique hash' h']
          exact hfound
        · rw [hunique hash' h']
          exact hnot
      · intro hsettled
        exact ⟨hsettled.file hash h hfile, hsettled.noFile hash h hfile⟩
    · rw [mungeTitle_of_ne hash hfile]
      constructor
      · rintro ⟨hfound, _⟩
        refine ⟨fun hno => absurd h (hno hash), fun hash' h' _ ref hf r hr htype hname => ?_,
          fun hash' h' hfile' => ?_, fun hash' h' hfile' => ?_⟩
        · rw [hunique hash' h'] at hf htype hname
          exact (hfound ref hf).2 r hr ((isNamed_of_ne r hash hfile).mpr ⟨htype, hname⟩)
        · rw [hunique hash' h'] at hfile'
          exact absurd hfile' hfile
        · rw [hunique hash' h'] at hfile'
          exact absurd hfile' hfile
      · intro hsettled
        refine ⟨fun ref hf => ⟨found_isNamed virtual cat hash ref hfile hf, ?_⟩,
          bad_of_not_found virtual cat hash hfile⟩
        intro r hr hnamed
        obtain ⟨htype, hname⟩ := (isNamed_of_ne r hash hfile).mp hnamed
        exact hsettled.unshared hash h hfile ref hf r hr htype hname
  · have hno : ∀ hash, ¬ IsReference text hash := fun hash h => hwhole ⟨hash, h⟩
    rw [resolvesRight_malformed virtual cat text hno]
    constructor
    · intro hmalformed
      exact ⟨fun _ => hmalformed, fun hash h => absurd h (hno hash), fun hash h => absurd h (hno hash),
        fun hash h => absurd h (hno hash)⟩
    · intro hsettled
      exact hsettled.malformed hno

/-- A value that is no text raises, as it should. -/
theorem resolvesRight_of_notText (other : Json) (h : ∀ text, other ≠ .str text) :
    ResolvesRight virtual cat other := by
  have herror : resolve virtual cat other = .error .notText := by
    cases other with
    | str text => exact absurd rfl (h text)
    | null | bool _ | int _ | float _ _ | arr _ | obj _ => rfl
  constructor
  · refine iff_of_true ⟨_, herror⟩ (.inl fun r _ hnames => ?_)
    obtain ⟨text, _, htext, _⟩ := hnames
    exact h text htext
  · intro ref hok
    rw [herror] at hok
    cases hok

/-! ## The whole catalog -/

def InCatalog (e : Edge) : Prop :=
  (∃ r ∈ cat.resources, r.ref = e.source) ∧ ∃ r ∈ cat.resources, r.ref = e.target

/-- Every reference is resolved right, the catalog is rejected exactly when some reference is bad,
and otherwise has the edges that it came with and those of its references, each once. -/
structure Synthesizes : Prop where
  each : ∀ x ∈ relationsToSynthesize virtual cat, ResolvesRight virtual cat x.2.2
  raises : (∃ e, synthesizeEdges virtual cat = .error e) ↔
    ∃ x ∈ relationsToSynthesize virtual cat, Bad virtual cat x.2.2
  edges : ∀ es, synthesizeEdges virtual cat = .ok es → ∀ e,
    e ∈ es ↔ e ∈ cat.edges ∨ ∃ x ∈ relationsToSynthesize virtual cat, ∃ r ∈ cat.resources,
      Names x.2.2 r ∧ e = edgeOf x.1 r.ref x.2.1
  unique : ∀ es, synthesizeEdges virtual cat = .ok es → es.Nodup
  endpoints : ∀ es, synthesizeEdges virtual cat = .ok es → (∀ e ∈ cat.edges, InCatalog cat e) →
    ∀ e ∈ es, InCatalog cat e

theorem synthesizeEdge_ok_iff (resource : Ref) (relation : Relation) (other : Json) (e : Edge) :
    synthesizeEdge virtual cat resource relation other = .ok e ↔
      ∃ ref, resolve virtual cat other = .ok ref ∧ e = edgeOf resource ref relation := by
  rw [synthesizeEdge]
  cases resolve virtual cat other <;> simp [eq_comm]

theorem synthesizeEdge_error_iff (resource : Ref) (relation : Relation) (other : Json) :
    (∃ e, synthesizeEdge virtual cat resource relation other = .error e) ↔
      ∃ reason, resolve virtual cat other = .error reason := by
  rw [synthesizeEdge]
  cases resolve virtual cat other <;> simp

theorem synthesizeEdges_error_iff :
    (∃ e, synthesizeEdges virtual cat = .error e) ↔
      ∃ x ∈ relationsToSynthesize virtual cat, ∃ reason,
        resolve virtual cat x.2.2 = .error reason := by
  have hmap := mapM_error_iff (fun x : Ref × Relation × Json =>
    synthesizeEdge virtual cat x.1 x.2.1 x.2.2) (relationsToSynthesize virtual cat)
  simp only [synthesizeEdge_error_iff] at hmap
  rw [← hmap, synthesizeEdges]
  cases (relationsToSynthesize virtual cat).mapM fun x : Ref × Relation × Json =>
    synthesizeEdge virtual cat x.1 x.2.1 x.2.2 <;> simp [bind, Except.bind, pure, Except.pure]

theorem mem_synthesizeEdges (es : List Edge) (h : synthesizeEdges virtual cat = .ok es) (e : Edge) :
    e ∈ es ↔ e ∈ cat.edges ∨ ∃ x ∈ relationsToSynthesize virtual cat, ∃ ref,
      resolve virtual cat x.2.2 = .ok ref ∧ e = edgeOf x.1 ref x.2.1 := by
  obtain ⟨edges, hedges, h⟩ := (QueryExpansion.bind_eq_ok _ _ _).mp h
  cases h
  rw [List.mem_eraseDups, List.mem_append, mem_of_mapM _ _ _ hedges]
  simp only [synthesizeEdge_ok_iff]

theorem mem_relationsToSynthesize (x : Ref × Relation × Json)
    (hx : x ∈ relationsToSynthesize virtual cat) : ∃ r ∈ cat.resources, r.ref = x.1 := by
  rw [relationsToSynthesize, List.mem_flatMap] at hx
  obtain ⟨r, hr, hx⟩ := hx
  obtain ⟨y, _, rfl⟩ := List.mem_map.mp hx
  exact ⟨r, (List.mem_filter.mp hr).1, rfl⟩

theorem inCatalog_edgeOf (resource other : Ref) (relation : Relation)
    (hresource : ∃ r ∈ cat.resources, r.ref = resource)
    (hother : ∃ r ∈ cat.resources, r.ref = other) : InCatalog cat (edgeOf resource other relation) := by
  unfold edgeOf
  split
  · exact ⟨hresource, hother⟩
  · exact ⟨hother, hresource⟩

/-- Where every reference is resolved right, so is the catalog. -/
theorem synthesizes_of_resolvesRight
    (h : ∀ x ∈ relationsToSynthesize virtual cat, ResolvesRight virtual cat x.2.2) :
    Synthesizes virtual cat := by
  have hedges : ∀ es, synthesizeEdges virtual cat = .ok es → ∀ e,
      e ∈ es ↔ e ∈ cat.edges ∨ ∃ x ∈ relationsToSynthesize virtual cat, ∃ r ∈ cat.resources,
        Names x.2.2 r ∧ e = edgeOf x.1 r.ref x.2.1 := by
    intro es hes e
    have hok : ∀ x ∈ relationsToSynthesize virtual cat, ∃ ref, resolve virtual cat x.2.2 = .ok ref := by
      intro x hx
      cases hr : resolve virtual cat x.2.2 with
      | ok ref => exact ⟨ref, rfl⟩
      | error reason =>
        obtain ⟨err, herr⟩ := (synthesizeEdges_error_iff virtual cat).mpr ⟨x, hx, reason, hr⟩
        rw [hes] at herr
        cases herr
    rw [mem_synthesizeEdges virtual cat es hes]
    apply or_congr_right
    constructor
    · rintro ⟨x, hx, ref, href, rfl⟩
      obtain ⟨⟨r, hr, hnames, rfl⟩, _⟩ := (h x hx).names ref href
      exact ⟨x, hx, r, hr, hnames, rfl⟩
    · rintro ⟨x, hx, r, hr, hnames, rfl⟩
      obtain ⟨ref, href⟩ := hok x hx
      refine ⟨x, hx, ref, href, ?_⟩
      rw [((h x hx).names ref href).2 r hr hnames]
  refine ⟨h, ?_, hedges, ?_, ?_⟩
  · rw [synthesizeEdges_error_iff]
    constructor
    · rintro ⟨x, hx, hreason⟩
      exact ⟨x, hx, (h x hx).raises.mp hreason⟩
    · rintro ⟨x, hx, hbad⟩
      exact ⟨x, hx, (h x hx).raises.mpr hbad⟩
  · intro es hes
    obtain ⟨edges, _, hes⟩ := (QueryExpansion.bind_eq_ok _ _ _).mp hes
    cases hes
    exact nodup_eraseDups _
  · intro es hes hcat e he
    obtain he | ⟨x, hx, r, hr, _, rfl⟩ := (hedges es hes e).mp he
    · exact hcat e he
    · exact inCatalog_edgeOf cat _ _ _ (mem_relationsToSynthesize virtual cat x hx) ⟨r, hr, rfl⟩

/-! ## Files -/

/-- No slash stands before a line break. -/
def noSlashBreak : List Char → Bool
  | [] => true
  | c :: cs => !(isSlash c && cs.head? == some '\n') && noSlashBreak cs

theorem subSlashes_of_not_slashEndsLine (cs : List Char) (h : slashEndsLine cs = false) :
    subSlashes cs = cs := by
  induction cs with
  | nil => rfl
  | cons c cs ih =>
    rw [slashEndsLine, Bool.or_eq_false_iff] at h
    have hrest := ih h.2
    have hno : ¬ (isSlash c && lineEnd (cs.dropWhile isSlash)) = true := by
      intro hand
      rw [Bool.and_eq_true] at hand
      rw [hand.1, Bool.true_and] at h
      cases cs with
      | nil => exact Bool.false_ne_true (h.1.symm.trans rfl)
      | cons d ds =>
        by_cases hd : isSlash d = true
        · rw [List.dropWhile_cons_of_pos hd] at hand
          rw [subSlashes, if_pos (by rw [hd, hand.2]; rfl)] at hrest
          have hlen := congrArg List.length hrest
          have hle := List.Sublist.length_le (List.dropWhile_sublist isSlash (l := ds))
          rw [List.length_cons] at hlen
          omega
        · rw [List.dropWhile_cons_of_neg hd, h.1] at hand
          cases hand.2
    rw [subSlashes, if_neg hno, hrest]

theorem mungeTitle_file (hash : Ref) (h : hash.type = "File") :
    mungeTitle hash = ⟨"File", String.ofList (subSlashes hash.title.toList)⟩ := by
  obtain ⟨type, title⟩ := hash
  cases h
  unfold mungeTitle
  split
  · rfl
  · rename_i hno
    have hno : slashEndsLine title.toList = false := by simpa using hno
    rw [subSlashes_of_not_slashEndsLine _ hno, String.ofList_toList]

theorem rdropWhile_all (cs : List Char) (h : cs.all isSlash = true) :
    cs.rdropWhile isSlash = [] := by
  rw [List.rdropWhile_eq_nil_iff]
  exact List.all_eq_true.mp h

theorem rdropWhile_cons (c : Char) (cs : List Char) (h : (c :: cs).all isSlash = false) :
    (c :: cs).rdropWhile isSlash = c :: cs.rdropWhile isSlash := by
  induction cs using List.reverseRecOn with
  | nil =>
    have hc : ¬ isSlash c = true := by simpa using h
    rw [List.rdropWhile_singleton, if_neg hc, List.rdropWhile_nil]
  | append_singleton ds d ih =>
    rw [← List.cons_append]
    by_cases hd : isSlash d = true
    · rw [List.rdropWhile_concat_pos _ _ _ hd, List.rdropWhile_concat_pos _ _ _ hd]
      apply ih
      rw [← List.cons_append, List.all_append] at h
      simpa [hd] using h
    · rw [List.rdropWhile_concat_neg _ _ _ hd, List.rdropWhile_concat_neg _ _ _ hd,
        List.cons_append]

/-- Slashes that end a line end the text. -/
theorem all_isSlash (cs : List Char) (h : noSlashBreak ('/' :: cs) = true)
    (hline : lineEnd (cs.dropWhile isSlash) = true) : cs.all isSlash = true := by
  induction cs with
  | nil => rfl
  | cons d ds ih =>
    rw [noSlashBreak, Bool.and_eq_true] at h
    by_cases hd : isSlash d = true
    · rw [List.dropWhile_cons_of_pos hd] at hline
      obtain rfl := beq_iff_eq.mp hd
      rw [List.all_cons, hd, Bool.true_and]
      exact ih h.2 hline
    · rw [List.dropWhile_cons_of_neg hd] at hline
      obtain rfl := beq_iff_eq.mp hline
      exact absurd h.1 (by simp [isSlash])

/-- Without a slash before a line break the slashes at the end are all that is dropped. -/
theorem subSlashes_eq (cs : List Char) (h : noSlashBreak cs = true) :
    subSlashes cs = cs.rdropWhile isSlash := by
  induction cs with
  | nil => rfl
  | cons c cs ih =>
    have hcs : noSlashBreak cs = true := by
      rw [noSlashBreak, Bool.and_eq_true] at h
      exact h.2
    by_cases hslash : (isSlash c && lineEnd (cs.dropWhile isSlash)) = true
    · rw [subSlashes, if_pos hslash]
      rw [Bool.and_eq_true] at hslash
      obtain ⟨hc, hline⟩ := hslash
      obtain rfl := beq_iff_eq.mp hc
      have hall := all_isSlash cs h hline
      rw [rdropWhile_all ('/' :: cs) (by rw [List.all_cons, hc, hall]; rfl)]
      exact List.dropWhile_eq_nil_iff.mpr (List.all_eq_true.mp hall)
    · rw [subSlashes, if_neg hslash, ih hcs]
      cases hall : (c :: cs).all isSlash with
      | false => exact (rdropWhile_cons c cs hall).symm
      | true =>
        rw [List.all_cons, Bool.and_eq_true] at hall
        rw [hall.1, List.dropWhile_eq_nil_iff.mpr (List.all_eq_true.mp hall.2)] at hslash
        exact absurd rfl hslash

/-- A file is looked up by its path without the slashes at the end, but for the root. -/
theorem mungeTitle_canonicalPath (hash : Ref) (h : hash.type = "File")
    (hroot : hash.title.toList.all isSlash = false)
    (hbreak : noSlashBreak hash.title.toList = true) :
    mungeTitle hash = ⟨"File", canonicalPath hash.title⟩ := by
  rw [mungeTitle_file hash h, subSlashes_eq _ hbreak, canonicalPath, hroot]
  rfl

theorem canonicalPath_canonicalPath (path : String) :
    canonicalPath (canonicalPath path) = canonicalPath path := by
  by_cases hroot : (path.toList.all isSlash && path != "") = true
  · rw [canonicalPath, canonicalPath, if_pos hroot]
    decide
  · have hpath : canonicalPath path = String.ofList (path.toList.rdropWhile isSlash) := if_neg hroot
    rw [hpath, canonicalPath, String.toList_ofList, List.rdropWhile_idempotent]
    apply if_neg
    rw [Bool.and_eq_true]
    rintro ⟨hall, hne⟩
    have hnil : path.toList.rdropWhile isSlash = [] := by
      have hdrop := rdropWhile_all _ hall
      rwa [List.rdropWhile_idempotent] at hdrop
    rw [hnil] at hne
    exact absurd hne (by decide)

/-- A reference to a file that is not the root and has no slash before a line break is settled
where files are named by their paths without the slashes at the end too, and share no name. -/
theorem settled_file (text : String) (hash : Ref) (h : IsReference text hash)
    (hfile : hash.type = "File") (hroot : hash.title.toList.all isSlash = false)
    (hbreak : noSlashBreak hash.title.toList = true)
    (hcanonical : ∀ r ∈ cat.resources, r.type = "File" → ∀ name ∈ r.names,
      canonicalPath name ∈ r.names)
    (hshared : ∀ r ∈ cat.resources, ∀ r' ∈ cat.resources, r.type = "File" → r'.type = "File" →
      ∀ name ∈ r.names, name ∈ r'.names → r.ref = r'.ref) :
    Settled virtual cat text := by
  have hmunge := mungeTitle_canonicalPath hash hfile hroot hbreak
  have hnamed : ∀ r ∈ cat.resources, r.isNamed hash ↔
      r.type = "File" ∧ canonicalPath hash.title ∈ r.names := by
    intro r hr
    rw [Resource.isNamed, hfile, if_pos rfl]
    apply and_congr_right
    intro htype
    constructor
    · rintro ⟨name, hname, heq⟩
      rw [← heq]
      exact hcanonical r hr htype name hname
    · intro hname
      exact ⟨_, hname, canonicalPath_canonicalPath _⟩
  have hunique : ∀ hash', IsReference text hash' → hash' = hash := fun hash' h' =>
    isReference_unique text hash' hash h' h
  refine ⟨fun hno => absurd h (hno hash), fun hash' h' hne => ?_, fun hash' h' _ ref hf => ?_,
    fun hash' h' _ hnot => ?_⟩
  · rw [hunique hash' h'] at hne
    exact absurd hfile hne
  · rw [hunique hash' h', hmunge] at hf
    rw [hunique hash' h']
    obtain ⟨r, hr, href, htype, hname⟩ := findResource_some cat _ ref hf.1
    refine ⟨⟨r, hr, (hnamed r hr).mpr ⟨htype, hname⟩, href⟩, fun r' hr' hnamed' => ?_⟩
    obtain ⟨htype', hname'⟩ := (hnamed r' hr').mp hnamed'
    rw [← href]
    exact hshared r' hr' r hr htype' htype _ hname' hname
  · rw [hunique hash' h', hmunge] at hnot
    rw [hunique hash' h']
    cases hfind : findResource cat ⟨"File", canonicalPath hash.title⟩ with
    | none =>
      refine .inl fun r hr hn => ?_
      obtain ⟨htype, hname⟩ := (hnamed r hr).mp hn
      exact findResource_none cat _ hfind r hr htype hname
    | some ref =>
      obtain ⟨r, hr, href, htype, hname⟩ := findResource_some cat _ ref hfind
      refine .inr ⟨r, hr, (hnamed r hr).mpr ⟨htype, hname⟩, ?_⟩
      cases hv : virtual r.ref with
      | true => rfl
      | false =>
        rw [href] at hv
        exact absurd ⟨hfind, hv⟩ (hnot ref)

end Resolution

/-- The root directory, and a resource that requires it. -/
def rootCatalog : Catalog where
  resources := [⟨"File", "/", []⟩, ⟨"Notify", "done", [("require", .str "File[/]")]⟩]
  edges := []

end OpenVoxDB.EdgeSynthesis
