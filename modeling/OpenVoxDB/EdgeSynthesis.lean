import Mathlib
import OpenVoxDB.Json
import OpenVoxDB.ResourceRefs

/-!
# Edges from relationship parameters

`synthesize_edges` of the catalog terminus: every `before`, `require`, `notify` and
`subscribe` of a resource becomes an edge, or the catalog is rejected. Which resources
are virtual is known to the compiled catalog alone, and is a parameter.
-/

namespace OpenVoxDB.EdgeSynthesis

open Catalogs (Ref Edge Relationship)
open ResourceRefs

structure Resource where
  type : String
  title : String
  parameters : List (String × Json)

def Resource.ref (r : Resource) : Ref := ⟨r.type, r.title⟩

structure Catalog where
  resources : List Resource
  edges : List Edge

/-! ## Parameters -/

/-- `Array(value)`, of a missing value too. -/
def arrayOf : Option Json → List Json
  | none | some .null => []
  | some (.arr xs) => xs
  | some x => [x]

/-- `[value].flatten` -/
def flatten : Json → List Json
  | .arr xs => xs.flatMap flatten
  | x => [x]

/-- The values of a relationship, but for `nil` and `false`. -/
def relationshipValues : Option Json → List Json
  | none | some .null | some (.bool false) => []
  | some value => flatten value

structure Relation where
  param : String
  forward : Bool
  relationship : Relationship

def relationships : List Relation :=
  [⟨"before", true, .before⟩, ⟨"require", false, .requiredBy⟩, ⟨"notify", true, .notifies⟩,
    ⟨"subscribe", false, .subscriptionOf⟩]

/-- The relationships of a resource, each with one value. -/
def Resource.relations (r : Resource) : List (Relation × Json) :=
  relationships.flatMap fun relation =>
    (relationshipValues (r.parameters.lookup relation.param)).map (relation, ·)

/-! ## Look-up -/

/-- `map_aliases_to_title`, in the order of the assignments. -/
def mapAliasesToTitle (cat : Catalog) : List ((String × Json) × Ref) :=
  cat.resources.flatMap fun r =>
    (arrayOf (r.parameters.lookup "alias")).map fun name => ((r.type, name), r.ref)

/-- By type and title, or else by the last alias. -/
def findResource (cat : Catalog) (hash : Ref) : Option Ref :=
  if cat.resources.any (·.ref = hash) then some hash
  else (mapAliasesToTitle cat).reverse.lookup (hash.type, .str hash.title)

inductive Reason where
  | notText
  | format
  | missing
  | notCollected
  deriving DecidableEq, Repr

section Synthesis

variable (virtual : Ref → Bool) (cat : Catalog)

/-- The resource that a value refers to. -/
def resolve : Json → Except Reason Ref
  | .str ref =>
    if correctFormat ref then
      match (resourceRefToHash ref).bind fun hash => findResource cat (mungeTitle hash) with
      | some other => if virtual other then .error .notCollected else .ok other
      | none => .error .missing
    else .error .format
  | _ => .error .notText

structure InvalidRelationship where
  resource : Ref
  param : String
  other : Json
  reason : Reason

/-- `edge_to_s` -/
def edgeToS (specifier referred param : String) : String :=
  specifier ++ " \x7b " ++ param ++ " => " ++ referred ++ " \x7d"

/-- What is raised for a text that is no reference to a resource. -/
def InvalidRelationship.message (e : InvalidRelationship) : Option String :=
  match e.other with
  | .str other =>
    let rel := edgeToS (resourceHashToRef e.resource) other e.param
    match e.reason with
    | .notText => none
    | .format => some ("Invalid relationship: " ++ rel ++ ", because " ++ other ++
      " doesn't seem to be in the correct format. Resource references should be formatted as: " ++
      "Classname['title'] or Modulename::Classname['title'] (take careful note of the " ++
      "capitalization).")
    | .missing => some ("Invalid relationship: " ++ rel ++ ", because " ++ other ++
      " doesn't seem to be in the catalog")
    | .notCollected => some ("Invalid relationship: " ++ rel ++ ", because " ++ other ++
      " is exported but not collected")
  | _ => none

def edgeOf (resource other : Ref) (relation : Relation) : Edge :=
  if relation.forward then ⟨resource, other, relation.relationship⟩
  else ⟨other, resource, relation.relationship⟩

def synthesizeEdge (resource : Ref) (relation : Relation) (other : Json) :
    Except InvalidRelationship Edge :=
  match resolve virtual cat other with
  | .ok ref => .ok (edgeOf resource ref relation)
  | .error reason => .error ⟨resource, relation.param, other, reason⟩

/-- The relationships that become edges, in order: those of the resources that are not virtual. -/
def relationsToSynthesize : List (Ref × Relation × Json) :=
  (cat.resources.filter fun r => !virtual r.ref).flatMap fun r =>
    r.relations.map fun (relation, other) => (r.ref, relation, other)

def synthesizeEdges : Except InvalidRelationship (List Edge) := do
  let edges ← (relationsToSynthesize virtual cat).mapM fun (resource, relation, other) =>
    synthesizeEdge virtual cat resource relation other
  return (cat.edges ++ edges).eraseDups

end Synthesis

/-! ## What a reference names -/

/-- A path without the slashes at its end, where the root keeps its own. -/
def canonicalPath (path : String) : String :=
  if path.toList.all isSlash && path != "" then "/"
  else String.ofList (path.toList.rdropWhile isSlash)

/-- Its title and its aliases. -/
def Resource.names (r : Resource) : List String :=
  r.title :: (arrayOf (r.parameters.lookup "alias")).filterMap fun name =>
    match name with
    | .str s => some s
    | _ => none

/-- The resource has this name; files up to the slashes at its end. -/
def Resource.isNamed (r : Resource) (hash : Ref) : Prop :=
  r.type = hash.type ∧
    if hash.type = "File" then ∃ name ∈ r.names, canonicalPath name = canonicalPath hash.title
    else hash.title ∈ r.names

/-- The value is a reference that names the resource. -/
def Names (other : Json) (r : Resource) : Prop :=
  ∃ text hash, other = .str text ∧ IsReference text hash ∧ r.isNamed hash

end OpenVoxDB.EdgeSynthesis
