import Mathlib
import OpenVoxDB.Catalogs
import OpenVoxDB.NestedMaps

/-!
# The similarity hash of a catalog

The resources and edges of a catalog come in the order of a hash map and of a hash set. The hash is
that of their text once they are sorted: catalogs of one node have one hash exactly when they have
the same resources and the same edges.
-/

namespace OpenVoxDB.SimilarityHash

open Std Catalogs NestedMaps

/-! ## Catalogs -/

/-- The key as a text. -/
def attrText : Attr → String
  | .type => "type"
  | .title => "title"
  | .exported => "exported"
  | .file => "file"
  | .line => "line"
  | .tags => "tags"
  | .aliases => "aliases"
  | .parameters => "parameters"
  | .resource => "resource"

mutual

/-- What is read from a JSON text: no sets and no keywords, and no key twice. -/
def IsJson : Data → Prop
  | .scalar (.keyword _) => False
  | .scalar _ => True
  | .vec xs => AreJson xs
  | .map fs => (fs.map Prod.fst).Nodup ∧ FieldsAreJson fs
  | .set _ => False

def AreJson : List Data → Prop
  | [] => True
  | x :: xs => IsJson x ∧ AreJson xs

def FieldsAreJson : List (String × Data) → Prop
  | [] => True
  | f :: fs => IsJson f.2 ∧ FieldsAreJson fs

end

/-- A resource of a parsed catalog, whose tags are a set. -/
structure Resource where
  ref : Ref
  attributes : Attr → Option Data
  tags : List String
  type_eq : attributes .type = some (.str ref.type)
  title_eq : attributes .title = some (.str ref.title)
  tags_eq : attributes .tags = some (.set tags)
  tags_nodup : tags.Nodup
  json : ∀ k d, k ≠ .tags → attributes k = some d → IsJson d

/-- What is hashed of a parsed catalog, with its resources and edges in some order. -/
structure Catalog where
  certname : String
  resources : List (Ref × Resource)
  edges : List Edge
  keyed : ∀ entry ∈ resources, entry.2.ref = entry.1
  resources_nodup : (resources.map Prod.fst).Nodup
  edges_nodup : edges.Nodup

/-! ## Format -/

/-- `resource-comparator` -/
def resourceComparator (lhs rhs : Ref) : Ordering :=
  (compareStrings lhs.title rhs.title).then (compareStrings lhs.type rhs.type)

/-- `edge-comparator` -/
def edgeComparator (lhs rhs : Edge) : Ordering :=
  (resourceComparator lhs.source rhs.source).then
    ((resourceComparator lhs.target rhs.target).then
      (compareKeywords lhs.relationship.name rhs.relationship.name))

def identityKeys : List Attr := [.type, .title, .parameters, .exported, .file, .line, .tags]

/-- `catalog-resource-identity-format` -/
def catalogResourceIdentityFormat (attributes : Attr → Option Data) : Data :=
  .map (identityKeys.filterMap fun k => (attributes k).map fun d => (attrText k, d))

/-- The string under a key of a map. -/
def textAt (k : String) : Data → String
  | .map fs =>
    match fs.lookup k with
    | some (.scalar (.str s)) => s
    | _ => ""
  | _ => ""

/-- The title and the type, as `resource-comparator` takes them. -/
def refOf (resource : Data) : Ref := ⟨textAt "type" resource, textAt "title" resource⟩

def refData (ref : Ref) : Data := .map [("type", .str ref.type), ("title", .str ref.title)]

def edgeData (e : Edge) : Data :=
  .map [("source", refData e.source), ("target", refData e.target),
    ("relationship", .scalar (.keyword e.relationship.name))]

def formattedResources (c : Catalog) : List Data :=
  c.resources.map fun entry => catalogResourceIdentityFormat entry.2.attributes

def sortedResources (c : Catalog) : List Data :=
  KeySort.sortBy refOf resourceComparator (formattedResources c)

def sortedEdges (c : Catalog) : List Data := (KeySort.sortBy id edgeComparator c.edges).map edgeData

/-- The map that `catalog-similarity-format` sorts. -/
def contents (c : Catalog) : Data :=
  .map [("certname", .str c.certname), ("resources", .vec (sortedResources c)),
    ("edges", .vec (sortedEdges c))]

section Hash

variable {Text Digest : Type} (sortNestedMaps : Data → Data) (generateString : Data → Text)
  (sha1 : Text → Digest)

def catalogSimilarityFormat (c : Catalog) : Data := sortNestedMaps (contents c)

/-- `generic-identity-string` -/
def genericIdentityString (data : Data) : Text := generateString (sortNestedMaps data)

/-- `generic-identity-hash` -/
def genericIdentityHash (data : Data) : Digest :=
  sha1 (genericIdentityString sortNestedMaps generateString data)

def catalogSimilarityHash (c : Catalog) : Digest :=
  genericIdentityHash sortNestedMaps generateString sha1 (catalogSimilarityFormat sortNestedMaps c)

end Hash

/-! ## Equal catalogs -/

/-- The same keys of those that are hashed, with equal values. -/
def SameResource (left right : Attr → Option Data) : Prop :=
  ∀ k ∈ identityKeys, Option.Rel Data.Same (left k) (right k)

/-- Equality of the maps of resources, in what is hashed of them. -/
def SameResources (a b : Catalog) : Prop :=
  a.resources.length = b.resources.length ∧ ∀ entry ∈ a.resources, ∃ entry' ∈ b.resources,
    entry.1 = entry'.1 ∧ SameResource entry.2.attributes entry'.2.attributes

def SameEdges (a b : Catalog) : Prop := ∀ e, e ∈ a.edges ↔ e ∈ b.edges

/-! ## Comparators -/

instance : TransCmp resourceComparator :=
  inferInstanceAs (TransCmp (compareLex (compareOn fun r : Ref => Utf8Truncation.utf16 r.title.toList)
    (compareOn fun r : Ref => Utf8Truncation.utf16 r.type.toList)))

instance : LawfulEqCmp resourceComparator where
  compare_self := by simp [resourceComparator, ReflCmp.compare_self]
  eq_of_compare {a b} h := by
    obtain ⟨htitle, htype⟩ := Ordering.then_eq_eq.mp h
    have htitle : a.title = b.title := LawfulEqCmp.eq_of_compare htitle
    have htype : a.type = b.type := LawfulEqCmp.eq_of_compare htype
    cases a
    cases b
    simp_all

instance : TransCmp edgeComparator :=
  haveI := KeySort.transCmp_on resourceComparator Edge.source
  haveI := KeySort.transCmp_on resourceComparator Edge.target
  haveI := KeySort.transCmp_on compareKeywords fun e : Edge => e.relationship.name
  inferInstanceAs (TransCmp (compareLex _ (compareLex _ _)))

theorem relationship_name_injective : Function.Injective Relationship.name := by
  intro a b h
  cases a <;> cases b <;> first | rfl | exact absurd h (by decide)

instance : LawfulEqCmp edgeComparator where
  compare_self := by simp [edgeComparator, ReflCmp.compare_self]
  eq_of_compare {a b} h := by
    obtain ⟨hsource, hrest⟩ := Ordering.then_eq_eq.mp h
    obtain ⟨htarget, hrelationship⟩ := Ordering.then_eq_eq.mp hrest
    have hsource : a.source = b.source := LawfulEqCmp.eq_of_compare hsource
    have htarget : a.target = b.target := LawfulEqCmp.eq_of_compare htarget
    have hrelationship : a.relationship = b.relationship :=
      relationship_name_injective (LawfulEqCmp.eq_of_compare hrelationship)
    cases a
    cases b
    simp_all

/-! ## Resources -/

theorem attrText_injective : Function.Injective attrText := by
  intro a b h
  cases a <;> cases b <;> first | rfl | exact absurd h (by decide)

mutual

theorem IsJson.distinct (d : Data) (h : IsJson d) : d.Distinct := by
  cases d with
  | scalar s => trivial
  | vec xs => exact areJson_distinct xs h
  | map fs => exact ⟨h.1, fieldsAreJson_distinct fs h.2⟩
  | set ss => exact absurd h id

theorem areJson_distinct (xs : List Data) (h : AreJson xs) : Data.DistinctItems xs := by
  cases xs with
  | nil => trivial
  | cons x xs => exact ⟨IsJson.distinct x h.1, areJson_distinct xs h.2⟩

theorem fieldsAreJson_distinct (fs : List (String × Data)) (h : FieldsAreJson fs) :
    Data.DistinctFields fs := by
  cases fs with
  | nil => trivial
  | cons f fs => exact ⟨IsJson.distinct f.2 h.1, fieldsAreJson_distinct fs h.2⟩

end

theorem Resource.distinct (r : Resource) (k : Attr) (d : Data) (h : r.attributes k = some d) :
    d.Distinct := by
  by_cases hk : k = .tags
  · subst hk
    rw [r.tags_eq] at h
    rw [← Option.some.inj h]
    exact r.tags_nodup
  · exact (r.json k d hk h).distinct

/-- The entries of a resource that are hashed. -/
def identityFields (attributes : Attr → Option Data) : List (String × Data) :=
  identityKeys.filterMap fun k => (attributes k).map fun d => (attrText k, d)

theorem mem_identityFields (attributes : Attr → Option Data) (f : String × Data) :
    f ∈ identityFields attributes ↔
      ∃ k ∈ identityKeys, attributes k = some f.2 ∧ f.1 = attrText k := by
  simp only [identityFields, List.mem_filterMap, Option.map_eq_some_iff]
  constructor
  · rintro ⟨k, hk, d, hd, rfl⟩
    exact ⟨k, hk, hd, rfl⟩
  · rintro ⟨k, hk, hd, hf⟩
    exact ⟨k, hk, f.2, hd, by rw [← hf]⟩

theorem nodup_identityFields (attributes : Attr → Option Data) :
    ((identityFields attributes).map Prod.fst).Nodup := by
  have hsublist (ks : List Attr) : ((ks.filterMap fun k => (attributes k).map fun d =>
      (attrText k, d)).map Prod.fst).Sublist (ks.map attrText) := by
    induction ks with
    | nil => exact .slnil
    | cons k ks ih =>
      cases hk : attributes k with
      | none => simpa [hk] using ih.cons _
      | some d => simpa [hk] using ih
  exact (hsublist identityKeys).nodup (by decide)

theorem Resource.format_distinct (r : Resource) :
    (catalogResourceIdentityFormat r.attributes).Distinct := by
  refine ⟨nodup_identityFields r.attributes, (Data.distinctFields_iff _).mpr ?_⟩
  intro f hf
  obtain ⟨k, -, hd, -⟩ := (mem_identityFields r.attributes f).mp hf
  exact r.distinct k f.2 hd

theorem length_identityFields (left right : Attr → Option Data)
    (h : ∀ k ∈ identityKeys, (left k).isSome = (right k).isSome) :
    (identityFields left).length = (identityFields right).length := by
  have hkeys (ks : List Attr) (hks : ∀ k ∈ ks, (left k).isSome = (right k).isSome) :
      (ks.filterMap fun k => (left k).map fun d => (attrText k, d)).length =
        (ks.filterMap fun k => (right k).map fun d => (attrText k, d)).length := by
    induction ks with
    | nil => rfl
    | cons k ks ih =>
      have hk := hks k List.mem_cons_self
      have hrest := ih fun j hj => hks j (List.mem_cons_of_mem k hj)
      cases hl : left k with
      | none =>
        cases hr : right k with
        | none => simpa [hl, hr] using hrest
        | some d => simp [hl, hr] at hk
      | some c =>
        cases hr : right k with
        | none => simp [hl, hr] at hk
        | some d => simpa [hl, hr] using hrest
  exact hkeys identityKeys h

/-- An entry of the one has an equal one in the other. -/
theorem rel_of_same (left right : Attr → Option Data) (k : Attr) (hk : k ∈ identityKeys) (d : Data)
    (hd : left k = some d) (h : (catalogResourceIdentityFormat left).Same
      (catalogResourceIdentityFormat right)) : ∃ e, right k = some e ∧ d.Same e := by
  have hmem := (mem_identityFields left (attrText k, d)).mpr ⟨k, hk, hd, rfl⟩
  obtain ⟨g, hg, hkey, hsame⟩ := (Data.sameFields_iff _ _).mp h.2 _ hmem
  obtain ⟨k', -, hvalue, htext⟩ := (mem_identityFields right g).mp hg
  obtain rfl : k = k' := attrText_injective (hkey.trans htext)
  exact ⟨g.2, hvalue, hsame⟩

/-- Formatted resources are equal exactly when the keys that are hashed have equal values. -/
theorem same_format_iff (r s : Resource) : (catalogResourceIdentityFormat r.attributes).Same
    (catalogResourceIdentityFormat s.attributes) ↔ SameResource r.attributes s.attributes := by
  constructor
  · intro h k hk
    cases hr : r.attributes k with
    | some d =>
      obtain ⟨e, he, hsame⟩ := rel_of_same _ _ k hk d hr h
      rw [he]
      exact .some hsame
    | none =>
      cases hs : s.attributes k with
      | none => exact .none
      | some e =>
        have hsymm := (Data.same_comm _ _ r.format_distinct s.format_distinct).mp h
        obtain ⟨d, hd, -⟩ := rel_of_same _ _ k hk e hs hsymm
        rw [hr] at hd
        cases hd
  · intro h
    constructor
    · apply length_identityFields
      intro k hk
      have hrel := h k hk
      cases hr : r.attributes k with
      | none =>
        rw [hr] at hrel
        cases hs : s.attributes k with
        | none => rfl
        | some e =>
          rw [hs] at hrel
          cases hrel
      | some d =>
        rw [hr] at hrel
        cases hs : s.attributes k with
        | none =>
          rw [hs] at hrel
          cases hrel
        | some e => rfl
    · apply (Data.sameFields_iff _ _).mpr
      intro f hf
      obtain ⟨k, hk, hd, hkey⟩ := (mem_identityFields r.attributes f).mp hf
      have hrel := h k hk
      rw [hd] at hrel
      cases hs : s.attributes k with
      | none =>
        rw [hs] at hrel
        cases hrel
      | some e =>
        rw [hs] at hrel
        obtain ⟨hsame⟩ := hrel
        exact ⟨(attrText k, e), (mem_identityFields _ _).mpr ⟨k, hk, hs, rfl⟩, hkey, hsame⟩

theorem Resource.refOf_format (r : Resource) :
    refOf (catalogResourceIdentityFormat r.attributes) = r.ref := by
  have hformat : catalogResourceIdentityFormat r.attributes = .map (("type", .str r.ref.type) ::
      ("title", .str r.ref.title) :: identityKeys.tail.tail.filterMap fun k =>
        (r.attributes k).map fun d => (attrText k, d)) := by
    rw [catalogResourceIdentityFormat, identityKeys, List.filterMap_cons, List.filterMap_cons,
      r.type_eq, r.title_eq]
    rfl
  rw [hformat]
  rfl

theorem ref_eq_of_sameResource (r s : Resource) (h : SameResource r.attributes s.attributes) :
    r.ref = s.ref := by
  have htype := h .type (by decide)
  have htitle := h .title (by decide)
  rw [r.type_eq, s.type_eq] at htype
  rw [r.title_eq, s.title_eq] at htitle
  obtain ⟨htype⟩ := htype
  obtain ⟨htitle⟩ := htitle
  have htype : r.ref.type = s.ref.type := Scalar.str.inj htype
  have htitle : r.ref.title = s.ref.title := Scalar.str.inj htitle
  calc r.ref = ⟨r.ref.type, r.ref.title⟩ := rfl
    _ = ⟨s.ref.type, s.ref.title⟩ := by rw [htype, htitle]
    _ = s.ref := rfl

/-! ## Edges -/

theorem distinct_refData (r : Ref) : (refData r).Distinct := by
  simp [refData, Data.Distinct, Data.DistinctFields]

theorem distinct_edgeData (e : Edge) : (edgeData e).Distinct := by
  simp [edgeData, Data.Distinct, Data.DistinctFields, distinct_refData]

theorem same_refData_iff (r s : Ref) : (refData r).Same (refData s) ↔ r = s := by
  constructor
  · intro h
    obtain ⟨d, hd, htype⟩ := Data.same_entry _ _ h "type" (.str r.type) (by simp)
    obtain rfl : d = .str s.type := by simpa using hd
    obtain ⟨d, hd, htitle⟩ := Data.same_entry _ _ h "title" (.str r.title) (by simp)
    obtain rfl : d = .str s.title := by simpa using hd
    calc r = ⟨r.type, r.title⟩ := rfl
      _ = ⟨s.type, s.title⟩ := by rw [Scalar.str.inj htype, Scalar.str.inj htitle]
      _ = s := rfl
  · rintro rfl
    exact Data.same_refl _ (distinct_refData r)

theorem same_edgeData_iff (e f : Edge) : (edgeData e).Same (edgeData f) ↔ e = f := by
  constructor
  · intro h
    obtain ⟨d, hd, hsource⟩ := Data.same_entry _ _ h "source" (refData e.source) (by simp)
    obtain rfl : d = refData f.source := by simpa using hd
    obtain ⟨d, hd, htarget⟩ := Data.same_entry _ _ h "target" (refData e.target) (by simp)
    obtain rfl : d = refData f.target := by simpa using hd
    obtain ⟨d, hd, hname⟩ := Data.same_entry _ _ h "relationship"
      (.scalar (.keyword e.relationship.name)) (by simp)
    obtain rfl : d = .scalar (.keyword f.relationship.name) := by simpa using hd
    calc e = ⟨e.source, e.target, e.relationship⟩ := rfl
      _ = ⟨f.source, f.target, f.relationship⟩ := by
          rw [(same_refData_iff _ _).mp hsource, (same_refData_iff _ _).mp htarget,
            relationship_name_injective (Scalar.keyword.inj hname)]
      _ = f := rfl
  · rintro rfl
    exact Data.same_refl _ (distinct_edgeData e)

/-- The sorted edges are equal exactly when the sets are. -/
theorem same_edges_iff (a b : Catalog) :
    List.Forall₂ Data.Same (sortedEdges a) (sortedEdges b) ↔ SameEdges a b := by
  rw [sortedEdges, sortedEdges, List.forall₂_map_left_iff, List.forall₂_map_right_iff]
  simp only [same_edgeData_iff]
  rw [KeySort.forall₂_sortBy_iff id edgeComparator (fun e f : Edge => e = f) a.edges b.edges
    (fun e _ f _ h => h) (by simpa using a.edges_nodup) (by simpa using b.edges_nodup)]
  have hmem : (∀ e ∈ a.edges, ∃ f ∈ b.edges, e = f) ↔ ∀ e ∈ a.edges, e ∈ b.edges := by simp
  rw [hmem, ← perm_iff_of_nodup a.edges b.edges a.edges_nodup,
    List.perm_ext_iff_of_nodup a.edges_nodup b.edges_nodup, SameEdges]

/-! ## Catalogs -/

theorem map_refOf_format (c : Catalog) :
    (formattedResources c).map refOf = c.resources.map Prod.fst := by
  rw [formattedResources, List.map_map]
  apply List.map_congr_left
  intro entry hentry
  rw [← c.keyed entry hentry]
  exact entry.2.refOf_format

/-- The sorted resources are equal exactly when the maps are, in what is hashed of them. -/
theorem same_resources_iff (a b : Catalog) :
    List.Forall₂ Data.Same (sortedResources a) (sortedResources b) ↔ SameResources a b := by
  have hkeys : ∀ x ∈ formattedResources a, ∀ y ∈ formattedResources b,
      x.Same y → refOf x = refOf y := by
    intro x hx y hy h
    obtain ⟨r, -, rfl⟩ := List.mem_map.mp hx
    obtain ⟨s, -, rfl⟩ := List.mem_map.mp hy
    rw [Resource.refOf_format, Resource.refOf_format]
    exact ref_eq_of_sameResource r.2 s.2 ((same_format_iff r.2 s.2).mp h)
  rw [sortedResources, sortedResources,
    KeySort.forall₂_sortBy_iff refOf resourceComparator Data.Same _ _ hkeys
      (map_refOf_format a ▸ a.resources_nodup) (map_refOf_format b ▸ b.resources_nodup),
    formattedResources, formattedResources, List.length_map, List.length_map, List.forall_mem_map,
    SameResources]
  apply and_congr_right
  intro _
  constructor
  · intro h r hr
    obtain ⟨y, hy, hsame⟩ := h r hr
    obtain ⟨s, hs, rfl⟩ := List.mem_map.mp hy
    have hsame := (same_format_iff r.2 s.2).mp hsame
    refine ⟨s, hs, ?_, hsame⟩
    rw [← a.keyed r hr, ← b.keyed s hs]
    exact ref_eq_of_sameResource r.2 s.2 hsame
  · intro h r hr
    obtain ⟨s, hs, -, hsame⟩ := h r hr
    exact ⟨_, List.mem_map_of_mem hs, (same_format_iff r.2 s.2).mpr hsame⟩

theorem distinct_contents (c : Catalog) : (contents c).Distinct := by
  have hresources : Data.DistinctItems (sortedResources c) := by
    apply (Data.distinctItems_iff _).mpr
    intro x hx
    obtain ⟨r, -, rfl⟩ := List.mem_map.mp ((KeySort.sortBy_perm _ _ _).mem_iff.mp hx)
    exact r.2.format_distinct
  have hedges : Data.DistinctItems (sortedEdges c) := by
    apply (Data.distinctItems_iff _).mpr
    intro x hx
    obtain ⟨e, -, rfl⟩ := List.mem_map.mp hx
    exact distinct_edgeData e
  exact ⟨by simp, trivial, hresources, hedges, trivial⟩

/-- The formats of two catalogs are equal exactly when the catalogs are, in what is hashed. -/
theorem same_contents_iff (a b : Catalog) : (contents a).Same (contents b) ↔
    a.certname = b.certname ∧ SameResources a b ∧ SameEdges a b := by
  rw [← same_resources_iff a b, ← same_edges_iff a b, ← Data.sameItems_iff, ← Data.sameItems_iff]
  constructor
  · intro h
    obtain ⟨d, hd, hcertname⟩ := Data.same_entry _ _ h "certname" _ List.mem_cons_self
    obtain rfl : d = .str b.certname := by simpa using hd
    obtain ⟨d, hd, hresources⟩ := Data.same_entry _ _ h "resources" _
      (List.mem_cons_of_mem _ List.mem_cons_self)
    obtain rfl : d = .vec _ := by simpa using hd
    obtain ⟨d, hd, hedges⟩ := Data.same_entry _ _ h "edges" _
      (List.mem_cons_of_mem _ (List.mem_cons_of_mem _ List.mem_cons_self))
    obtain rfl : d = .vec _ := by simpa using hd
    exact ⟨Scalar.str.inj hcertname, hresources, hedges⟩
  · rintro ⟨hcertname, hresources, hedges⟩
    have hsecond : ("resources", Data.vec (sortedResources b)) ∈ [("certname",
        Data.str b.certname), ("resources", .vec (sortedResources b)),
        ("edges", .vec (sortedEdges b))] := by simp
    have hthird : ("edges", Data.vec (sortedEdges b)) ∈ [("certname", Data.str b.certname),
        ("resources", .vec (sortedResources b)), ("edges", .vec (sortedEdges b))] := by simp
    exact ⟨rfl, ⟨_, List.mem_cons_self, rfl, congrArg Scalar.str hcertname⟩,
      ⟨_, hsecond, rfl, hresources⟩, ⟨_, hthird, rfl, hedges⟩, trivial⟩

section Hash

variable {Text Digest : Type}

/-- The hash determines what is hashed of a catalog, and nothing else. Where SHA-1 and the printing
of formatted catalogs are injective, catalogs of one node have one similarity hash exactly when they
have the same resources and the same edges; the orders of the resources and of the edges do not
count. -/
theorem catalogSimilarityHash_eq_iff (sortNestedMaps : Data → Data)
    (hsort : SortsNestedMaps sortNestedMaps) (generateString : Data → Text)
    (hprint : Set.InjOn generateString
      (Set.range fun c => sortNestedMaps (catalogSimilarityFormat sortNestedMaps c)))
    (sha1 : Text → Digest) (hsha1 : Function.Injective sha1) (a b : Catalog)
    (hcertname : a.certname = b.certname) :
    (catalogSimilarityHash sortNestedMaps generateString sha1 a =
      catalogSimilarityHash sortNestedMaps generateString sha1 b ↔
        SameResources a b ∧ SameEdges a b) ∧
    (a.resources.Perm b.resources → a.edges.Perm b.edges →
      catalogSimilarityHash sortNestedMaps generateString sha1 a =
        catalogSimilarityHash sortNestedMaps generateString sha1 b) := by
  have hhash : catalogSimilarityHash sortNestedMaps generateString sha1 a =
      catalogSimilarityHash sortNestedMaps generateString sha1 b ↔
        SameResources a b ∧ SameEdges a b := by
    rw [catalogSimilarityHash, catalogSimilarityHash, genericIdentityHash, genericIdentityHash,
      hsha1.eq_iff, genericIdentityString, genericIdentityString,
      hprint.eq_iff ⟨a, rfl⟩ ⟨b, rfl⟩]
    simp only [catalogSimilarityFormat]
    rw [sort_sort hsort _ (distinct_contents a), sort_sort hsort _ (distinct_contents b),
      sort_eq_iff hsort _ _ (distinct_contents a) (distinct_contents b), same_contents_iff,
      and_iff_right hcertname]
  refine ⟨hhash, ?_⟩
  intro hresources hedges
  apply hhash.mpr
  refine ⟨⟨hresources.length_eq, ?_⟩, fun e => hedges.mem_iff⟩
  intro entry hentry
  refine ⟨entry, hresources.mem_iff.mp hentry, rfl, ?_⟩
  exact (same_format_iff entry.2 entry.2).mp (Data.same_refl _ entry.2.format_distinct)

end Hash

/-- A file with tags. -/
def fileResource (tags : List String) (h : tags.Nodup) : Resource where
  ref := ⟨"File", "/etc/hosts"⟩
  attributes
    | .type => some (.str "File")
    | .title => some (.str "/etc/hosts")
    | .exported => some (.scalar (.bool false))
    | .tags => some (.set tags)
    | _ => none
  tags := tags
  type_eq := rfl
  title_eq := rfl
  tags_eq := rfl
  tags_nodup := h
  json k d hk hd := by
    cases k with
    | type => exact Option.some.inj hd ▸ trivial
    | title => exact Option.some.inj hd ▸ trivial
    | exported => exact Option.some.inj hd ▸ trivial
    | tags => exact absurd rfl hk
    | file | line | aliases | parameters | resource => cases hd

/-- The catalog of that file. -/
def fileCatalog (tags : List String) (h : tags.Nodup) : Catalog where
  certname := "node.example.com"
  resources := [(⟨"File", "/etc/hosts"⟩, fileResource tags h)]
  edges := []
  keyed entry hentry := by
    rw [List.mem_singleton.mp hentry]
    rfl
  resources_nodup := List.nodup_singleton _
  edges_nodup := List.nodup_nil

/-- The order of the tags does not count. -/
theorem catalogSimilarityHash_eq_iff_tags :
    catalogSimilarityHash sorted id id (fileCatalog ["a", "b"] (by decide)) =
      catalogSimilarityHash sorted id id (fileCatalog ["b", "a"] (by decide)) := by
  apply (catalogSimilarityHash_eq_iff sorted sortsNestedMaps_sorted id Function.injective_id.injOn
    id Function.injective_id (fileCatalog ["a", "b"] (by decide)) (fileCatalog ["b", "a"] (by decide))
    rfl).1.mpr
  refine ⟨⟨rfl, ?_⟩, fun e => Iff.rfl⟩
  intro entry hentry
  refine ⟨_, List.mem_singleton_self _, by rw [List.mem_singleton.mp hentry], ?_⟩
  rw [List.mem_singleton.mp hentry]
  intro k hk
  cases k with
  | type => exact .some rfl
  | title => exact .some rfl
  | exported => exact .some rfl
  | tags => exact .some ⟨rfl, by decide⟩
  | file | line | aliases | parameters | resource => exact .none

end OpenVoxDB.SimilarityHash
