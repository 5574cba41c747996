import Mathlib
import OpenVoxDB.Extracts
import OpenVoxDB.InventoryRedirect

/-!
# Explicit subqueries

An `in` has its subquery as a `from` or as an `extract` over a `select_<entity>`. The passes of
`compile-query` on both: `push-down-context` with its checks, `expand-user-query`,
`optimize-user-query` and the plan. Conditions of other operators are left open.
-/

namespace OpenVoxDB.Subqueries

open QueryExpansion InventoryRedirect Plans

/-! ## Entities -/

/-- The keys of `user-name->query-rec-name`, without `select_`. -/
inductive EntityName where
  | catalogs
  | catalogInputContents
  | catalogInputs
  | edges
  | environments
  | producers
  | packages
  | packageInventory
  | events
  | facts
  | factsets
  | factContents
  | factPaths
  | nodes
  | notActiveNodes
  | inactiveNodes
  | latestReport
  | latestReportId
  | params
  | reports
  | inventory
  | resources
  deriving DecidableEq, Repr

namespace EntityName

def text : EntityName → String
  | catalogs => "catalogs"
  | catalogInputContents => "catalog_input_contents"
  | catalogInputs => "catalog_inputs"
  | edges => "edges"
  | environments => "environments"
  | producers => "producers"
  | packages => "packages"
  | packageInventory => "package_inventory"
  | events => "events"
  | facts => "facts"
  | factsets => "factsets"
  | factContents => "fact_contents"
  | factPaths => "fact_paths"
  | nodes => "nodes"
  | notActiveNodes => "not_active_nodes"
  | inactiveNodes => "inactive_nodes"
  | latestReport => "latest_report"
  | latestReportId => "latest_report_id"
  | params => "params"
  | reports => "reports"
  | inventory => "inventory"
  | resources => "resources"

def all : List EntityName :=
  [catalogs, catalogInputContents, catalogInputs, edges, environments, producers, packages,
    packageInventory, events, facts, factsets, factContents, factPaths, nodes, notActiveNodes,
    inactiveNodes, latestReport, latestReportId, params, reports, inventory, resources]

/-- The key of `user-name->query-rec-name`. -/
def selectName (e : EntityName) : String := "select_" ++ e.text

/-- The entity that a node names. -/
def find (a : Ast) : Option EntityName := all.find? fun e => a.isStr e.text

/-- The entity that a node selects from. -/
def findSelect (a : Ast) : Option EntityName := all.find? fun e => a.isStr e.selectName

end EntityName

/-- What the passes read of a query record. -/
structure Entity (V : Type) where
  query : QueryRec V
  context : Context
  /-- `projectable-json-fields` -/
  jsonFields : List String

namespace Entity

variable {V : Type} (x : Entity V)

def queryableFields : List String :=
  (x.query.projections.filter fun (_, column) => column.queryable).map Prod.fst

def projectableFields : List String :=
  (x.query.projections.filter fun (_, column) => !column.unprojectable).map Prod.fst

end Entity

/-- The operators of a query, without the names of subqueries. -/
def operators : List String :=
  ["from", "in", "extract", "subquery", "and", "or", "not", "function", "group_by", "null?"] ++
    simpleBinaryOperators

/-- What the passes use of the rest of the engine: the query records, the syntax of fields, and
what is made of the nodes that are not read here, of which the first pass leaves the operator.
No field of an entity is called like an operator or has a dot, and the nodes have no field that
`expand-query-node` compares with a serialized value. -/
structure Engine (V : Type) where
  env : QueryExpansion.Env
  parser : FieldParser
  entity : EntityName → Entity V
  /-- `push-down-context` on another node. -/
  pushNode : Entity V → Ast → Option Ast
  pushNode_head : ∀ x ctx args a, ∀ op ∈ operators,
    pushNode x (.vec ctx (.str op :: args)) = some a → ∃ ctx args, a = .vec ctx (.str op :: args)
  /-- `user-node->plan-node` on another node: nothing where it throws, and a node may have no
  plan. -/
  planNode : Entity V → Ast → Option (Option (Plan V))
  /-- `user-node->plan-node` on another subquery of an `in`. -/
  planQuery : Entity V → Ast → Option (QueryRec V × Option (Plan V))
  undotted : ∀ e, ∀ c ∈ (entity e).query.projections.map Prod.fst, (parser.parts c).length ≤ 1
  named : ∀ e, ∀ c ∈ (entity e).query.projections.map Prod.fst, c ∉ operators
  words : ∀ c ∈ operators ++ ["new_value", "old_value"], (parser.parts c).length ≤ 1
  unchanged : ∀ c ∈ ["new_value", "old_value"], c ∉ (entity .nodes).query.projections.map Prod.fst

variable {V : Type} (E : Engine V)

namespace Engine

/-! ## Columns -/

/-- `valid-dotted-field?` -/
def validDottedField (field : String) (jsonFields : List String) : Bool :=
  match E.parser.parts field with
  | .named top :: _ :: _ => jsonFields.contains top
  | _ => false

/-- A column that is not among `unsupported-fields`. -/
def supported (fields jsonFields : List String) : Ast → Bool
  | .lit (.str c) => fields.contains c || E.validDottedField c jsonFields
  | .vec _ (f :: .lit (.str g) :: _) => f.isStr "function" && (pdbFnsToPgFns g).isSome
  | _ => false

/-- `validate-query-operation-fields` -/
def validFields (fields jsonFields : List String) : Ast → Bool
  | .vec _ columns => columns.all (E.supported fields jsonFields)
  | column => E.supported fields jsonFields column

end Engine

/-- `vector-maybe`, of columns that are all names. -/
def columnList : Ast → Option (List String)
  | .vec _ columns => columns.mapM Ast.str?
  | column => column.str?.map fun c => [c]

/-! ## Operators of an extract -/

/-- `valid-operator?` -/
def validOperator (op : Ast) : Bool := op.isOp operators || (EntityName.findSelect op).isSome

mutual

/-- A clause that `validate-extract-filters` lets pass. It takes the first element of every
clause, which throws for numbers, booleans and maps. -/
def checkExtractClause : Ast → Bool
  | .vec _ (op :: clauses) =>
    if op.isOp ["or", "and"] then checkExtractClauses clauses else validOperator op
  | .vec _ [] => false
  | .lit (.str _) => true
  | .lit .null => true
  | .lit (.arr _) => true
  | _ => false

def checkExtractClauses : List Ast → Bool
  | [] => true
  | clause :: clauses => checkExtractClause clause && checkExtractClauses clauses

end

/-- The first element of a vector of two. -/
def pairHead : Ast → Option Ast
  | .vec _ [op, _] => some op
  | _ => none

/-- The entity of a `select_<entity>` node. -/
def selected : Ast → Option EntityName
  | .vec _ (op :: _) => EntityName.findSelect op
  | _ => none

/-- An operation with a condition, and no query of its own. -/
def isFilter : Ast → Bool
  | .vec _ (.lit (.str op) :: _) =>
    op != "from" && op != "extract" && (EntityName.findSelect (.str op)).isNone
  | _ => false

/-- The filter of a `select_<entity>` with no more than that. -/
def filter? : Ast → Option Ast
  | .vec _ [_, a] => some a
  | _ => none

/-- `extract-expression?` -/
def isExtract : Ast → Bool
  | .vec _ (op :: _) => op.isStr "extract"
  | _ => false

def connectives : List String := ["and", "or", "not"]

namespace Engine

/-! ## The first pass -/

mutual

/-- `push-down-context`, which leaves the context on the vectors, where it finds no error. A list
of columns is left as it is. -/
def pushDown (x : Entity V) : Ast → Option Ast
  | .vec ctx (op :: args) =>
    if op.isOp connectives then do
      let clauses ← pushAll x args
      some (.vec x.context (op :: clauses))
    else if op.isStr "from" then
      match args with
      | entity :: query :: clauses => do
        let e ← EntityName.find entity
        let query ← pushDown (E.entity e) query
        some (.vec (E.entity e).context (op :: entity :: query :: clauses))
      | _ => E.pushNode x (.vec ctx (op :: args))
    else if op.isStr "in" then
      match args with
      | [columns, subquery] =>
        if (subquery.tagged? "array").isSome then E.pushNode x (.vec ctx [op, columns, subquery])
        else do
          guard (E.validFields x.queryableFields [] columns)
          let subquery ← pushDown x subquery
          some (.vec x.context [op, columns, subquery])
      | _ => E.pushNode x (.vec ctx (op :: args))
    else if op.isStr "extract" then
      match args with
      | [columns, query] =>
        match (pairHead query).bind EntityName.findSelect with
        | some e =>
          if (filter? query).all isFilter then do
            let query ← pushSelect (E.entity e) query
            guard (E.validFields (E.entity e).queryableFields (E.entity e).jsonFields columns)
            some (.vec (E.entity e).context [op, columns, query])
          else E.pushNode x (.vec ctx [op, columns, query])
        | none => do
          guard ((pairHead query).all (·.isOp ["not", "group_by", "or", "and"]))
          guard (E.validFields x.projectableFields x.jsonFields columns)
          guard (checkExtractClause query)
          let query ← pushDown x query
          some (.vec x.context [op, columns, query])
      | _ => E.pushNode x (.vec ctx (op :: args))
    else E.pushNode x (.vec ctx (op :: args))
  | .vec _ [] => some (.vec x.context [])
  | node => some node

def pushAll (x : Entity V) : List Ast → Option (List Ast)
  | [] => some []
  | a :: rest => do
    let first ← pushDown x a
    let clauses ← pushAll x rest
    some (first :: clauses)

/-- The query of a `select_<entity>`, in the context of the entity. -/
def pushSelect (x : Entity V) : Ast → Option Ast
  | .vec _ [op, a] => do
    let query ← pushDown x a
    some (.vec x.context [op, query])
  | _ => none

end

/-! ## The plan -/

def column (x : Entity V) (name : String) : Option Column := x.query.projections.lookup name

/-- The columns of `create-from-node`. -/
def fromFields (x : Entity V) (name : String) : Option (String × Column) :=
  (x.query.projections.lookup name).map fun column => (name, column)

/-- The query record of a subquery. -/
def subqueryOf (x : Entity V) (fields : List (String × Column)) : QueryRec V :=
  { x.query with subquery := true, projectedFields := fields }

mutual

/-- `user-node->plan-node`. What is no vector has no plan, and an operand or a subquery without
one has no SQL. -/
def plan (x : Entity V) : Ast → Option (Option (Plan V))
  | .vec ctx (op :: args) =>
    if op.isStr "and" then do
      let clauses ← planAll x args
      some (some (.and clauses))
    else if op.isStr "or" then do
      let clauses ← planAll x args
      some (some (.or clauses))
    else if op.isStr "not" then
      match args with
      | [clause] => do
        let clause ← plan x clause
        let clause ← clause
        some (some (.not clause))
      | _ => E.planNode x (.vec ctx (op :: args))
    else if op.isStr "in" then
      match args with
      | [columns, subquery] =>
        if (subquery.tagged? "array").isSome then E.planNode x (.vec ctx [op, columns, subquery])
        else do
          let names ← columnList columns
          let columns ← names.mapM (column x)
          let (query, filter) ← planSubquery x subquery
          some (some (.inSub columns query filter))
      | _ => E.planNode x (.vec ctx (op :: args))
    else E.planNode x (.vec ctx (op :: args))
  | _ => some none

def planAll (x : Entity V) : List Ast → Option (List (Plan V))
  | [] => some []
  | a :: rest => do
    let first ← plan x a
    let clause ← first
    let clauses ← planAll x rest
    some (clause :: clauses)

/-- The subquery of an `in`: `create-from-node` without paging, and `create-extract-node` for
names. -/
def planSubquery (x : Entity V) : Ast → Option (QueryRec V × Option (Plan V))
  | .vec ctx [op, a, query] =>
    if op.isStr "from" then do
      let e ← EntityName.find a
      if isExtract query then planFrom (E.entity e) query
      else do
        let filter ← plan (E.entity e) query
        some ({ (E.entity e).query with subquery := true }, filter)
    else if op.isStr "extract" && (columnList a).isSome then do
      let names ← columnList a
      match selected query with
      | some e => do
        let fields ← names.mapM (namesToFields E.parser (E.entity e).query.projections)
        let filter ← planSelect (E.entity e) query
        some (subqueryOf (E.entity e) fields, filter)
      | none => do
        let fields ← names.mapM (namesToFields E.parser x.query.projections)
        let filter ← plan x query
        some ({ x.query with projectedFields := fields }, filter)
    else E.planQuery x (.vec ctx [op, a, query])
  | .vec ctx args => E.planQuery x (.vec ctx args)
  | _ => none

/-- The `extract` of a `from`. -/
def planFrom (x : Entity V) : Ast → Option (QueryRec V × Option (Plan V))
  | .vec _ [_, columns] => do
    let names ← columnList columns
    let fields ← names.mapM (fromFields x)
    some (subqueryOf x fields, none)
  | .vec _ (_ :: columns :: query :: _) => do
    let names ← columnList columns
    let fields ← names.mapM (fromFields x)
    let filter ← plan x query
    some (subqueryOf x fields, filter)
  | _ => none

/-- The filter of a `select_<entity>`. -/
def planSelect (x : Entity V) : Ast → Option (Option (Plan V))
  | .vec _ (_ :: query :: _) => plan x query
  | _ => some none

end

/-- The passes, for a query of an entity. -/
def compile (x : Entity V) (query : Ast) : Option (Option (Plan V)) := do
  let pushed ← E.pushDown x query
  let expanded ← (expandUserQuery E.env pushed).toOption
  E.plan x (optimizeUserQuery E.env expanded)

/-- A filter stays an operation. -/
theorem pushDown_head (x : Entity V) (ctx : Context) (op : String) (args : List Ast) (a : Ast)
    (hop : op ∈ operators) (hfrom : op ≠ "from") (hextract : op ≠ "extract")
    (h : E.pushDown x (.vec ctx (.str op :: args)) = some a) :
    ∃ ctx args, a = .vec ctx (.str op :: args) := by
  rw [pushDown.eq_def] at h
  have hnoFrom : (Ast.str op).isStr "from" = false := by simp [Ast.isStr, Ast.str?, hfrom]
  have hnoExtract : (Ast.str op).isStr "extract" = false := by
    simp [Ast.isStr, Ast.str?, hextract]
  simp only [hnoFrom, hnoExtract, Bool.false_eq_true, if_false] at h
  by_cases hconnective : (Ast.str op).isOp connectives = true
  · rw [if_pos hconnective] at h
    obtain ⟨clauses, -, h⟩ := Option.bind_eq_some_iff.mp h
    exact ⟨_, _, (Option.some.inj h).symm⟩
  · rw [if_neg hconnective] at h
    by_cases hin : (Ast.str op).isStr "in" = true
    · rw [if_pos hin] at h
      split at h
      · split at h
        · exact E.pushNode_head x ctx _ a op hop h
        · obtain ⟨-, -, h⟩ := Option.bind_eq_some_iff.mp h
          obtain ⟨subquery, -, h⟩ := Option.bind_eq_some_iff.mp h
          exact ⟨_, _, (Option.some.inj h).symm⟩
      · exact E.pushNode_head x ctx _ a op hop h
    · rw [if_neg hin] at h
      exact E.pushNode_head x ctx _ a op hop h

end Engine

end OpenVoxDB.Subqueries
