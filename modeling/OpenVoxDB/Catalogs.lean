import Mathlib
import OpenVoxDB.Dict
import OpenVoxDB.Json
import OpenVoxDB.Time

/-!
# Catalogs

The wire-format-neutral catalog that `parse-catalog` hands to storage. A
resource is a map over the keys the parser keeps, any of which but the type,
the title and the tags may be missing; an edge joins two resources of the
catalog.
-/

namespace OpenVoxDB.Catalogs

/-- A resource reference: `resource-ref-schema`. -/
structure Ref where
  type : String
  title : String
  deriving DecidableEq, Repr

instance : Ord Ref := ⟨compareLex (compareOn Ref.type) (compareOn Ref.title)⟩

instance : Std.TransOrd Ref :=
  inferInstanceAs (Std.TransCmp (compareLex (compareOn Ref.type) (compareOn Ref.title)))

instance : Std.LawfulEqOrd Ref where
  eq_of_compare {a b} h := by
    obtain ⟨htype, htitle⟩ : compare a.type b.type = .eq ∧ compare a.title b.title = .eq := by
      simpa [compare, compareLex, compareOn, Ordering.then_eq_eq] using h
    cases a
    cases b
    simp_all

/-- The keys of a resource: `expected-keys`, and the hash that
`merge-resource-hash` adds. -/
inductive Attr where
  | type
  | title
  | exported
  | file
  | line
  | tags
  | aliases
  | parameters
  | resource
  deriving DecidableEq, Repr

/-- A value of a resource key, or of a column of its row. -/
inductive Cell where
  | null
  | bool (b : Bool)
  | int (n : Int)
  | str (s : String)
  | strs (ss : Finset String)
  | json (j : Json)
  deriving DecidableEq

/-- A Clojure map over resource keys: a key may be absent, or present with `null`. -/
abbrev Attributes := Attr → Option Cell

/-- `(get attributes k)`: an absent key reads as `null`. -/
def Attributes.get (r : Attributes) (k : Attr) : Cell := (r k).getD .null

inductive Relationship where
  | contains
  | requiredBy
  | notifies
  | before
  | subscriptionOf
  deriving DecidableEq, Repr

/-- `(name relationship)` -/
def Relationship.name : Relationship → String
  | contains => "contains"
  | requiredBy => "required-by"
  | notifies => "notifies"
  | before => "before"
  | subscriptionOf => "subscription-of"

structure Edge where
  source : Ref
  target : Ref
  relationship : Relationship
  deriving DecidableEq, Repr

/-- A catalog that has been transformed and validated: `transform-resources` keys each
resource by its type and title and makes its tags a set, `validate-edges` finds both
ends of every edge. -/
structure Catalog where
  certname : String
  version : String
  environment : Option String
  transactionUuid : Option String
  catalogUuid : Option String
  codeId : Option String
  jobId : Option String
  producerTimestamp : Instant
  producer : Option String
  resources : Dict Ref Attributes
  edges : Finset Edge
  type_eq : ∀ (ref : Ref) (r : Attributes), resources[ref]? = some r →
    r .type = some (.str ref.type)
  title_eq : ∀ (ref : Ref) (r : Attributes), resources[ref]? = some r →
    r .title = some (.str ref.title)
  tags_eq : ∀ (ref : Ref) (r : Attributes), resources[ref]? = some r →
    ∃ tags, r .tags = some (.strs tags)
  stripped : ∀ (ref : Ref) (r : Attributes), resources[ref]? = some r → r .resource = none
  resolved : ∀ e ∈ edges, resources[e.source]?.isSome ∧ resources[e.target]?.isSome

/-- `catalog-resource-identity-format` -/
def catalogResourceIdentityFormat (r : Attributes) : Attributes
  | .aliases => none
  | .resource => none
  | k => r k

/-- `catalog-similarity-format`; the resources, sorted there, stand under their
references here. -/
def catalogSimilarityFormat (c : Catalog) : String × Dict Ref Attributes × Finset Edge :=
  (c.certname, c.resources.map fun _ r => catalogResourceIdentityFormat r, c.edges)

/-- Catalogs with one similarity format agree on every key but the aliases. -/
theorem catalogSimilarityFormat_resources (c d : Catalog)
    (h : catalogSimilarityFormat c = catalogSimilarityFormat d) (ref : Ref) :
    c.resources[ref]?.map catalogResourceIdentityFormat =
      d.resources[ref]?.map catalogResourceIdentityFormat := by
  have hres : (c.resources.map fun _ r => catalogResourceIdentityFormat r) =
      d.resources.map fun _ r => catalogResourceIdentityFormat r :=
    (Prod.ext_iff.mp (Prod.ext_iff.mp h).2).1
  have hget := congrArg (fun m : Dict Ref Attributes => m[ref]?) hres
  simpa only [Std.ExtTreeMap.getElem?_map] using hget

end OpenVoxDB.Catalogs
