import OpenVoxDB.PlanOrder
import OpenVoxDB.Entities

/-!
# The columns of an extract

`create-extract-node` puts the columns and the function calls of an `extract`
into its query record. A query with two calls that have arguments shows the
order of their parameters.
-/

namespace OpenVoxDB.Plans

open Entities (reportsQuery)
open QueryExpansion (Part)

variable {V : Type} (parser : FieldParser)

/-- A column of an `extract`. -/
inductive Extracted where
  | name (column : String)
  | call (function : String) (args : List Arg)
  deriving DecidableEq, Repr

def pdbFnsToPgFns : String → Option String
  | "sum" => some "sum"
  | "avg" => some "avg"
  | "min" => some "min"
  | "max" => some "max"
  | "count" => some "count"
  | "to_string" => some "to_char"
  | "jsonb_typeof" => some "jsonb_typeof"
  | _ => none

/-- An argument of a call: a column, or what is passed on as it is. -/
inductive CallArg where
  | column (field : Field) (joinDeps : List String)
  | literal (a : Arg)

/-- `coalesce-fact-values` -/
def coalesceFactValues (query : QueryRec V) : Arg → CallArg
  | .text col =>
    if query.sourceTables.contains "factsets" && col = "value" then
      .column (.hsql ⟨"(value#>>'\x7b\x7d')::numeric", []⟩) ["factsets"]
    else
      match query.projections.lookup col with
      | some column => .column column.field (column.joinDeps.getD [])
      | none => .literal (.text col)
  | a => .literal a

def CallArg.literal? : CallArg → Option Arg
  | .column _ _ => none
  | .literal a => some a

/-- `create-fnexpression`; honeysql has no SQL for a column among the other arguments. -/
def createFnexpression (f : String) : List CallArg → Option FnExpression
  | [] => (pdbFnsToPgFns f).map fun g => ⟨g, .keyword none "*", [], []⟩
  | first :: rest => do
    let g ← pdbFnsToPgFns f
    let params ← rest.mapM CallArg.literal?
    match first with
    | .column field joinDeps => some ⟨g, field, joinDeps, params⟩
    | .literal _ => some ⟨g, .hsql ⟨"NULL", []⟩, [], params⟩

/-- `strip-function-calls` -/
def stripFunctionCalls (columns : List Extracted) : List (String × List Arg) × List String :=
  (columns.filterMap fun
    | .call f args => some (f, args)
    | .name _ => none,
   columns.filterMap fun
    | .call _ _ => none
    | .name column => some column)

/-- The calls that `create-extract-node` makes. -/
def QueryRec.createCalls (query : QueryRec V) (columns : List Extracted) :
    Option (List FnExpression) :=
  (stripFunctionCalls columns).1.mapM fun call =>
    createFnexpression call.1 (call.2.map (coalesceFactValues query))

def named? : Part → Option String
  | .named name => some name
  | _ => none

/-- `create-json-subtree-projection` -/
def createJsonSubtreeProjection (projections : List (String × Column)) : List Part → Option Column
  | [] => none
  | top :: path => do
    let base ← projections.lookup (← named? top)
    let names ← path.mapM named?
    some { type := .json
           field := .hsql ⟨base.field.text ++
             String.join (names.map fun n => " -> " ++ singleQuote n), base.field.tables⟩
           joinDeps := base.joinDeps
           queryable := false }

/-- The column of a name: a projection, or what a dotted name selects from one. -/
def namesToFields (projections : List (String × Column)) (name : String) :
    Option (String × Column) :=
  let parsed := parser.parts name
  if parsed.length > 1 then
    (createJsonSubtreeProjection projections parsed).map fun column => (name, column)
  else (projections.lookup name).map fun column => (name, column)

/-- `create-extract-node` but for its filter. -/
def QueryRec.createExtractNode (query : QueryRec V) (columns : List Extracted) :
    Option (QueryRec V) := do
  let call ← query.createCalls columns
  let projectedFields ←
    (stripFunctionCalls columns).2.mapM (namesToFields parser query.projections)
  some { query with call := call, projectedFields := projectedFields }

/-- A parser for fields without dots. -/
def undotted : FieldParser := ⟨fun s => [s], fun s => [.named s]⟩

/-- An extract of the producer timestamps of the reports, once for each format. -/
def timesOfReports (formats : List String) : Option (QueryRec String) :=
  (reportsQuery String).createExtractNode undotted
    (formats.map fun format => .call "to_string" [.text "producer_timestamp", .text format])

end OpenVoxDB.Plans
