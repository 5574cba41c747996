import OpenVoxDB.FactRows
import OpenVoxDB.FieldSyntax
import OpenVoxDB.Jsonb

/-!
# Fact subqueries on the inventory

`optimize-user-query` turns the subquery for the nodes whose fact has a value into
a subquery on the inventory, which names the fact in a dotted field. The nodes
are the same when the name stands for itself there, and the two maps of a
factset tell the same of the fact.
-/

namespace OpenVoxDB.InventoryRedirect

open FactStorage FactRows FieldSyntax Jsonb QueryExpansion
open Plans (Step FromTables Table)

/-! ## The redirection -/

/-- `(str "facts." name)` -/
def factField (env : Env) (name : Ast) : Ast :=
  .str ("facts." ++ (name.str?.getD (env.text name)))

def isVector : Ast → Bool
  | .vec _ _ => true
  | _ => false

/-- `[op "value" value]`, for a value that is no vector. -/
def valueTest : Ast → Option (Ast × Ast)
  | .vec _ [op, field, value] =>
    if field.isStr "value" && !isVector value then some (op, value) else none
  | _ => none

/-- `["=" ["function" "jsonb_typeof" "value"] _]` -/
def typeTest : Ast → Bool
  | .vec _ [op, .vec _ [f, g, field], _] =>
    op.isStr "=" && f.isStr "function" && g.isStr "jsonb_typeof" && field.isStr "value"
  | _ => false

/-- The value test, alone or behind a restriction of the type. -/
def factTest : Ast → Option (Ast × Ast)
  | .vec ctx [op, x, y] =>
    (valueTest (.vec ctx [op, x, y])).or
      (if op.isStr "and" && typeTest x then valueTest y else none)
  | _ => none

/-- `["and" ["=" "name" name] test]` -/
def namedTest : Ast → Option (Ast × Ast)
  | .vec _ [conj, .vec _ [eq, field, name], test] =>
    if conj.isStr "and" && eq.isStr "=" && field.isStr "name" then some (name, test) else none
  | _ => none

/-- `optimize-user-query-node`, where it changes a node. -/
def redirect (env : Env) : Ast → Option Ast
  | .vec _ [extract, column, .vec _ [entity, filter]] =>
    if extract.isStr "extract" && column.isOp ["certname", "environment"] &&
        entity.isStr "select_facts" then do
      let (name, test) ← namedTest filter
      let (op, value) ← factTest test
      return .made [.str "extract", column,
        .made [.str "select_inventory", .made [op, factField env name, value]]]
    else none
  | _ => none

mutual

/-- `optimize-user-query`. The walk goes on into what it has made of a node, where nothing is
left to redirect. -/
def optimizeUserQuery (env : Env) : Ast → Ast
  | .vec ctx xs => (redirect env (.vec ctx xs)).getD (.vec ctx (optimizeAll env xs))
  | a => a

def optimizeAll (env : Env) : List Ast → List Ast
  | [] => []
  | x :: xs => optimizeUserQuery env x :: optimizeAll env xs

end

/-! ## What the inventory compares -/

/-- A text parameter of a statement. -/
def sqlText (s : String) : Except String String :=
  if s.toList.contains '\x00' then .error "invalid byte sequence for encoding UTF8" else .ok s

/-- `munge-jsonb-for-storage` on a text. -/
def mungeText (s : String) : String :=
  String.ofList (s.toList.map fun c => if c = '\x00' then '\ufffd' else c)

def munge : Scalar → Scalar
  | .str s => .str (mungeText s)
  | v => v

/-- How a comparison with a part of the facts is made. -/
inductive PathTest where
  | contains (path : List String)
  | atPath (path : List String)
  | elements (name : String) (steps : List Step)
  deriving DecidableEq, Repr

def isIndexed : Part → Bool
  | .indexed _ _ => true
  | _ => false

/-- `maybe-index?` -/
def maybeIndex (name : String) : Bool := name ≠ "" && name.toList.all isDigit

/-- The steps of `parse-dot-query-with-array-elements`. -/
def elementSteps : List Part → Except String (List Step)
  | [] => .ok []
  | .named name :: parts => (elementSteps parts).map fun steps => .name name :: steps
  | .indexed name index :: parts =>
    (elementSteps parts).map fun steps => .name name :: .index index :: steps
  | .pattern _ :: _ => .error "No matching clause"

/-- The plan of an equality on a field of the facts, with its parameters. -/
def planPath (field : String) : Except String PathTest := do
  let parts ← parseField true field
  if parts.tail.any isIndexed then
    let steps ← elementSteps parts.tail
    match steps with
    | .name name :: steps => return .elements name steps
    | _ => .error "the first step is a name"
  else
    let parts ← parseField false field
    let path := parts.tail.filterMap partName
    if path.any maybeIndex then return .atPath (← path.mapM sqlText)
    else return .contains (path.map mungeText)

/-- `->`, a step at a time. -/
def getSteps : Json → List Step → Option Json
  | w, [] => some w
  | .obj fields, .name name :: steps => (fields.lookup name).bind fun w => getSteps w steps
  | .arr xs, .index i :: steps => xs[i]?.bind fun w => getSteps w steps
  | _, _ :: _ => none

/-- The comparison with a value; SQL's null lets no row through. -/
def PathTest.holds (facts : List (String × Json)) (v : Scalar) : PathTest → Bool
  | contains path => Jsonb.contains (.obj facts) (nest path v.json)
  | atPath path => (getPath (.obj facts) path).any fun w => scalarEq w v.json
  | elements name steps =>
    ((getSteps (.obj facts) (.name name :: steps)).any fun w => scalarEq w v.json) &&
      (facts.lookup name).isSome

/-! ## The rows of the subqueries -/

/-- The columns that the redirection takes. -/
inductive NodeColumn where
  | certname
  | environment
  deriving DecidableEq, Repr

def NodeColumn.text : NodeColumn → String
  | certname => "certname"
  | environment => "environment"

def NodeColumn.ofRow (column : NodeColumn) (certname : String) (environment : Option String) :
    Option String :=
  match column with
  | .certname => some certname
  | .environment => environment

variable {Digest : Type}

/-- `["extract" column ["select_facts" ["and" ["=" "name" name] ["=" "value" v]]]]` -/
def factSubquery (column : NodeColumn) (name : String) (v : Scalar) : Ast :=
  .made [.str "extract", .str column.text, .made [.str "select_facts",
    .made [.str "and", .made [.str "=", .str "name", .str name],
      .made [.str "=", .str "value", .lit v.json]]]]

/-- `["extract" column ["select_inventory" ["=" field v]]]` -/
def inventorySubquery (column : NodeColumn) (field : String) (v : Scalar) : Ast :=
  .made [.str "extract", .str column.text, .made [.str "select_inventory",
    .made [.str "=", .str field, .lit v.json]]]

/-- What the subquery on facts selects. -/
def factNodes (s : FactStore Digest) (column : NodeColumn) (name : String) (v : Scalar) :
    Except String (List (Option String)) := do
  let name ← sqlText name
  return ((sourceRows s (.tables [])).filter fun row =>
    row.key = name && row.value.any fun w => scalarEq w (munge v).json).map fun row =>
      column.ofRow row.certname row.environment

/-- What the subquery on the inventory selects. -/
def inventoryNodes (s : FactStore Digest) (column : NodeColumn) (field : String) (v : Scalar) :
    Except String (List (Option String)) := do
  let test ← planPath field
  return (s.factsets.toList.filter fun (_, row) =>
    test.holds (row.stable ∪ row.volatile).toList (munge v)).map fun (certname, row) =>
      column.ofRow certname row.environment

/-- The redirected subquery selects the nodes of the subquery it is made of. -/
def SameNodes (env : Env) (s : FactStore Digest) (column : NodeColumn) (name : String)
    (v : Scalar) : Prop :=
  ∃ field, optimizeUserQuery env (factSubquery column name v) = inventorySubquery column field v ∧
    ∃ nodes nodes', factNodes s column name v = .ok nodes ∧
      inventoryNodes s column field v = .ok nodes' ∧ ∀ c, c ∈ nodes ↔ c ∈ nodes'

/-- No factset has the value in its stable map and another one in its volatile map. -/
def Settled (s : FactStore Digest) (name : String) (v : Scalar) : Prop :=
  ∀ (certname : String) (row : Factset Digest), s.factsets[certname]? = some row →
    ∀ w, row.stable[name]? = some w → scalarEq w (munge v).json = true →
      ∀ w', row.volatile[name]? = some w' → scalarEq w' (munge v).json = true

/-- The name is a text of the database, and stands for itself in a dotted field. -/
def Named (name : String) : Prop := '\x00' ∉ name.toList ∧ standsForItself name.toList = true

end OpenVoxDB.InventoryRedirect
