import OpenVoxDB.Plans

/-!
# The SQL of a plan

`-plan->sql` makes honeysql forms of a plan, and honeysql writes them out:
the columns, the tables, the joins, the filter. The placeholders are kept
apart from the text, each with the parameter it stands for.
-/

namespace OpenVoxDB.Plans

open QueryExpansion (Part)

/-- What is bound to a placeholder: a value of the query, that value as `jsonb`, that value
at the end of a path, a path, a step of a path, or an argument of a function. -/
inductive Param (V : Type) where
  | value (v : V)
  | jsonb (v : V)
  | nested (path : List String) (v : V)
  | names (path : List String)
  | step (s : Step)
  | arg (a : Arg)
  deriving DecidableEq, Repr

inductive Token (V : Type) where
  | sql (s : Sql)
  | mark (p : Param V)
  deriving DecidableEq, Repr

/-- `parse-field` for the fields of the plan. -/
structure FieldParser where
  /-- The names on the path of a field, with neither indexes nor `match()`. -/
  names : String → List String
  /-- The parts on the path of a field. -/
  parts : String → List Part

variable {V : Type} (parser : FieldParser)

/-- Text that names no table. -/
def plain (text : String) : Token V := .sql ⟨text, []⟩

/-- A field of a table. -/
def Field.token (field : Field) : Token V := .sql ⟨field.text, field.tables⟩

def singleQuote (s : String) : String :=
  "'" ++ String.ofList (s.toList.flatMap fun c => if c = '\'' then [c, c] else [c]) ++ "'"

def Step.text : Step → String
  | .name s => s
  | .index n => toString n

/-- The letter of a step in the signature of a path. -/
def Step.sig : Step → String
  | .name _ => "s"
  | .index _ => "i"

/-- `path-array-col-matches-ast-path` -/
def pathMatch (column : Column) (path : List Step) : List (Token V) :=
  [plain "(", column.field.token,
   plain (" = (array[" ++ ", ".intercalate (path.map fun s => singleQuote s.text) ++ "]) and "),
   column.field.token, plain ("_sig = " ++ singleQuote (String.join (path.map Step.sig)) ++ ")")]

/-- `path-array-col-matches-rx-vec`, whose expressions are inlined. -/
def pathRegexMatch (column : Column) (path : List Step) : List (Token V) :=
  [plain "(case when array_length(", column.field.token,
   plain (", 1) = " ++ toString path.length ++ " then "),
   plain (" and ".intercalate (path.map fun s => " ~ " ++ singleQuote s.text)),
   plain " else false end)"]

/-- Whether a name on a path may be an index into an array. -/
def maybeIndex (s : String) : Bool := s.toList.all Char.isDigit && s ≠ ""

/-- The parameters of a `JsonContainsExpression`, as `parse-dot-query` makes them. -/
def containsParams (path : List String) (value : V) : List (Param V) :=
  if path.any maybeIndex then [.names path, .jsonb value] else [.nested path value]

def Part.steps : Part → List Step
  | .named name => [.name name]
  | .indexed name index => [.name name, .index index]
  | .pattern _ => []

/-- The steps of a path that `parse-dot-query-with-array-elements` makes parameters of. -/
def pathSteps (field : String) : List Step := (parser.parts field).flatMap Part.steps

/-- The key whose existence a path expression checks. -/
def firstStep (path : List Step) : Param V :=
  match path with
  | [] => .arg .null
  | s :: _ => .step s

/-- `jsonb-path-binary-expression`, with a mark for each step of the path. -/
def jsonbPathTokens (operator : String) (column : Column) (path : List Step) (value : V) :
    List (Token V) :=
  [plain "(", column.field.token] ++
    path.flatMap (fun s => [plain " -> ", .mark (.step s)]) ++
    (if operator = "~" then
      [plain (" " ++ operator ++ " ("), .mark (.jsonb value), plain " #>> '\x7b\x7d'))"]
    else [plain (" " ++ operator ++ " "), .mark (.jsonb value), plain ")"]) ++
    [plain " AND (", column.field.token, plain " ?? ", .mark (firstStep path), plain ")"]

/-- A string or a number becomes a parameter of honeysql's, a boolean or null is written
out. -/
def Arg.bound : Arg → Bool
  | .text _ | .number _ => true
  | .boolean _ | .null => false

def Arg.token : Arg → Token V
  | .boolean b => plain (if b then "TRUE" else "FALSE")
  | .null => plain "NULL"
  | a => .mark (.arg a)

namespace FnExpression

/-- The statement of a function call. -/
def tokens (call : FnExpression) : List (Token V) :=
  [plain (call.function ++ "("), call.column.token] ++
    call.params.flatMap (fun a => [plain ", ", a.token]) ++ [plain ")"]

def parameters (call : FnExpression) : List (Param V) := call.params.map .arg

end FnExpression

def Table.token (table : Table) : Token V := .sql table.source

/-- The tables of a query; the selection that picks one fact names it four times. -/
def FromTables.tokens : FromTables V → List (Token V)
  | tables items => items.map Table.token
  | factNamed name =>
    [plain "(SELECT certname, environment_id, CAST(", .mark (.value name),
     plain " AS text) AS key, COALESCE(volatile -> ", .mark (.value name),
     plain ", stable -> ", .mark (.value name),
     plain ") AS value FROM factsets WHERE (stable || volatile) ?? ", .mark (.value name),
     plain ") AS fs"]

/-- `:selection-params` -/
def FromTables.parameters : FromTables V → List (Param V)
  | tables _ => []
  | factNamed name => [.value name, .value name, .value name, .value name]

def Join.tokens (j : Join) : List (Token V) :=
  [plain " JOIN ", j.table.token, plain " ON ", .sql j.on]

/-- The columns that are projected, when neither `extract` nor a call names others. -/
def QueryRec.projected (query : QueryRec V) : List (String × Column) :=
  (if query.call.isEmpty && query.projectedFields.isEmpty then query.projections
   else query.projectedFields).filter fun p => !p.2.unprojectable

/-- `include-projection-dependencies`: what `projected` depends on and lacks comes last. -/
def includeProjectionDependencies (projections projected : List (String × Column)) :
    List (String × Column) :=
  (projected.flatMap fun p => p.2.depends).foldl (fun result dep =>
    if (result.map Prod.fst).contains dep then result
    else result ++ (projections.lookup dep).toList.map fun column => (dep, column)) projected

/-- `sql-select-for-query`: the calls come before the columns. -/
def QueryRec.selectTokens (query : QueryRec V) : List (Token V) :=
  plain "SELECT " :: query.call.flatMap FnExpression.tokens ++
    (includeProjectionDependencies query.projections query.projected).map fun p =>
      p.2.field.token

/-- The clauses of a query in the order in which honeysql writes them. -/
def QueryRec.tokens (query : QueryRec V) (filter : List (Token V)) : List (Token V) :=
  query.selectTokens ++ plain " FROM " :: query.selection.source.tokens ++
    query.selection.joins.flatMap Join.tokens ++ plain " WHERE " ::
    query.selection.whereSql.toList.map Token.sql ++ filter ++
    plain " GROUP BY " :: query.groupBy.map Field.token

mutual

/-- `-plan->sql` -/
def Plan.tokens : Plan V → List (Token V)
  | .fnBinary operator function args value =>
    [plain (function ++ "(" ++ ", ".intercalate args ++ ") " ++ operator ++ " "),
     .mark (.value value)]
  | .binary operator column value =>
    [column.field.token, plain (" " ++ operator ++ " "), .mark (.value value)]
  | .regex column value =>
    [column.field.token, plain " ~ ", .mark (.value value), plain " AND ", column.field.token,
     plain " IS NOT NULL"]
  | .inArray column value =>
    [column.field.token, plain " = ANY(", .mark (.value value), plain ")"]
  | .arrayBinary column value =>
    [plain "ARRAY[", .mark (.value value), plain "::text] <@ ", column.field.token]
  | .arrayRegex column value =>
    [plain "EXISTS(SELECT 1 FROM UNNEST(", column.field.token, plain ") WHERE UNNEST ~ ",
     .mark (.value value), plain ")"]
  | .null column isNull =>
    [column.field.token, plain (if isNull then " IS NULL" else " IS NOT NULL")]
  | .pathArrayMatch column path => pathMatch column path
  | .pathArrayAnyMatch column paths =>
    plain "(" :: (paths.flatMap fun path => plain " or " :: pathMatch column path) ++ [plain ")"]
  | .pathArrayRegexMatch column path => pathRegexMatch column path
  | .jsonContains field column value =>
    let path := parser.names field
    if path.any maybeIndex then
      [column.field.token, plain " #> ", .mark (.names path), plain " = ", .mark (.jsonb value)]
    else [column.field.token, plain " @> ", .mark (.nested path value)]
  | .jsonbPathBinary operator field column value =>
    jsonbPathTokens operator column (pathSteps parser field) value
  | .jsonbScalarRegex column value =>
    [plain "(", column.field.token, plain "#>>'\x7b\x7d')::text ~ ", .mark (.value value)]
  | .inSub columns query filter =>
    plain "(" :: columns.map (fun c => c.field.token) ++
      plain (") IN (SELECT " ++ ", ".intercalate (query.projected.map Prod.fst) ++ " FROM (") ::
      query.tokens (filterTokens filter) ++ [plain ") AS sub)"]
  | .and clauses => plain "(AND" :: clausesTokens clauses ++ [plain ")"]
  | .or clauses => plain "(OR" :: clausesTokens clauses ++ [plain ")"]
  | .not clause => plain "NOT " :: clause.tokens

def filterTokens : Option (Plan V) → List (Token V)
  | none => []
  | some plan => plan.tokens

def clausesTokens : List (Plan V) → List (Token V)
  | [] => []
  | plan :: plans => plan.tokens ++ clausesTokens plans

end

/-- The parameters that the placeholders of the SQL stand for, in the order of the text. -/
def marks (tokens : List (Token V)) : List (Param V) :=
  tokens.filterMap fun
    | .mark p => some p
    | .sql _ => none

/-- `plan->sql` -/
def Query.tokens (q : Query V) : List (Token V) := q.query.tokens (filterTokens parser q.filter)

end OpenVoxDB.Plans
