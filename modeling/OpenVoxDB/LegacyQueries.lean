import Mathlib
import OpenVoxDB.Json
import OpenVoxDB.Placeholders
import OpenVoxDB.Time

/-!
# The legacy query compiler

`compile-term` turns a term of a query into a condition and its parameters. It
is what is left of the query compiler before the query engine: events are still
compiled by it where only the distinct resources are asked for. The subqueries
of an event query go to the compilers for resources and facts.
-/

namespace OpenVoxDB.LegacyQueries

open Placeholders

/-- What is bound to a placeholder: a value of the query as it is, or made into a timestamp, into
JSON, into a string, into lower case or into a number; an end of the time window; or a parameter
of the query engine. -/
inductive Bound (E : Type) where
  | value (v : Json)
  | timestamp (t : Instant)
  | serialized (v : Json)
  | string (v : Json)
  | lower (v : Json)
  | number (v : Json)
  | window (t : Instant)
  | engine (p : E)
  deriving DecidableEq

variable {E : Type}

/-- A `where`: comparisons of columns, and other SQL. -/
inductive Condition (E : Type) where
  | compare (column operator : String) (value : Bound E)
  | isNull (column : String)
  | latestReport (isIn : Bool)
  | notNullAnd (condition : Condition E) (column : String)
  | group (condition : Condition E)
  | null
  | raw (pieces : List (Piece (Bound E)))
  | all (conditions : List (Condition E))
  | any (conditions : List (Condition E))
  | not (condition : Condition E)

namespace Condition

/-- A piece of SQL between parentheses. -/
def parens (pieces : List (Piece (Bound E))) : List (Piece (Bound E)) :=
  .text "(" :: pieces ++ [.text ")"]

mutual

/-- The text of a condition. -/
def pieces : Condition E → List (Piece (Bound E))
  | compare column operator value => [.text (column ++ " " ++ operator ++ " "), .mark value]
  | isNull column => [.text (column ++ " IS NULL")]
  | latestReport isIn =>
    [.text ("resource_events.report_id " ++ (if isIn then "IN" else "NOT IN") ++
      " (SELECT reports_latest.id FROM reports_latest)")]
  | notNullAnd condition column =>
    condition.pieces ++ [.text (" AND " ++ column ++ " IS NOT NULL")]
  | group condition => parens condition.pieces
  | null => [.text "null"]
  | raw pieces => pieces
  | all conditions => join " AND " (operandPieces conditions)
  | any conditions => join " OR " (operandPieces conditions)
  | not condition => .text "NOT " :: parens condition.pieces

/-- The operands of `compile-boolean-operator*`. -/
def operandPieces : List (Condition E) → List (List (Piece (Bound E)))
  | [] => []
  | condition :: conditions => parens condition.pieces :: operandPieces conditions

end

/-- `legacy-sql-regexp-match` -/
def regexpMatch (column : String) (pattern : Json) : Condition E :=
  group (notNullAnd (compare column "~" (.value pattern)) column)

end Condition

/-- What `compile-term` gives: a map for a filter, a vector for a select. -/
inductive Compiled (E : Type) where
  | filter (condition : Option (Condition E)) (params : List (Bound E))
      (latestReportClause : Option (Condition E))
  | select (sql : List (Piece (Bound E))) (params : List (Bound E))

namespace Compiled

/-- `:where` -/
def condition : Compiled E → Option (Condition E)
  | filter condition _ _ => condition
  | select _ _ => none

/-- `:params` -/
def params : Compiled E → List (Bound E)
  | filter _ params _ => params
  | select _ _ => []

/-- `:latest-report-clause` -/
def latestReportClause : Compiled E → Option (Condition E)
  | filter _ _ clause => clause
  | select _ _ => none

/-- `:where` in a text; `nil` is written out. -/
def operand (c : Compiled E) : Condition E := c.condition.getD .null

/-- One comparison, and its parameter. -/
def comparison (column operator : String) (value : Bound E) : Compiled E :=
  filter (some (.compare column operator value)) [value] none

def regexp (column : String) (pattern : Json) : Compiled E :=
  filter (some (.regexpMatch column pattern)) [.value pattern] none

end Compiled

/-! ## Comparisons -/

/-- The operators of a query: those for events, for resources and for facts. -/
inductive Kind where
  | event
  | resource
  | fact
  deriving DecidableEq, Repr

/-- What a comparison is about. -/
inductive Path where
  | field (name : String)
  | nodeActive
  | parameter (name : String)
  deriving DecidableEq

inductive Inequality where
  | lt
  | gt
  | le
  | ge
  deriving DecidableEq, Repr

def Inequality.text : Inequality → String
  | lt => "<"
  | gt => ">"
  | le => "<="
  | ge => ">="

/-- The values that the compiler reads with libraries. -/
structure Readers where
  /-- `to-timestamp` -/
  toTimestamp : Json → Option Instant
  /-- `(parse-number (str value))` -/
  parseNumber : Json → Option Json

/-- `dashes->underscores` -/
def dashesToUnderscores (s : String) : String :=
  String.ofList (s.toList.map fun c => if c = '-' then '_' else c)

def eventColumn (field : String) : String := "resource_events." ++ field

/-- The fields whose column may be `NULL`. -/
def nullableFields : List String :=
  ["property", "message", "file", "line", "containing_class", "corrective_change"]

/-- `compile-resource-event-equality` -/
def compileResourceEventEquality (field : String) (value : Json) : Option (Compiled E) :=
  let path := dashesToUnderscores field
  if path = "certname" then some (.comparison "reports.certname" "=" (.value value))
  else if path = "report" then
    some (.comparison "encode(reports.hash::bytea, 'hex')" "=" (.value value))
  else if path = "latest_report?" then
    some (.filter (some (.latestReport value.truthy)) [] (some (.latestReport value.truthy)))
  else if path = "environment" then
    some (.comparison "environments.environment" "=" (.value value))
  else if ["report", "resource_type", "resource_title", "status"].contains path then
    some (.comparison (eventColumn path) "=" (.value value))
  else if nullableFields.contains path then
    if value = .null then some (.filter (some (.isNull (eventColumn path))) [] none)
    else some (.filter (some (.notNullAnd (.compare (eventColumn path) "=" (.value value))
      (eventColumn path))) [.value value] none)
  else if ["old_value", "new_value"].contains path then
    some (.filter (some (.notNullAnd (.compare (eventColumn path) "=" (.serialized value))
      (eventColumn path))) [.serialized value] none)
  else none

/-- `compile-resource-event-regexp` -/
def compileResourceEventRegexp (field : String) (pattern : Json) : Option (Compiled E) :=
  let path := dashesToUnderscores field
  if path = "certname" then some (.regexp "reports.certname" pattern)
  else if path = "environment" then some (.regexp "environments.environment" pattern)
  else if ["report", "resource_type", "resource_title", "status"].contains path then
    some (.regexp (eventColumn path) pattern)
  else if ["property", "message", "file", "line", "containing_class"].contains path then
    some (.filter (some (.notNullAnd (.regexpMatch (eventColumn path) pattern)
      (eventColumn path))) [.value pattern] none)
  else none

/-- The columns of `timestamp-fields`. -/
def timestampColumn (field : String) : Option String :=
  if field = "timestamp" then some "resource_events.timestamp"
  else if field = "run_start_time" then some "reports.start_time"
  else if field = "run_end_time" then some "reports.end_time"
  else if field = "report_receive_time" then some "reports.receive_time"
  else none

variable (readers : Readers)

/-- `compile-resource-event-inequality` -/
def compileResourceEventInequality (op : Inequality) (field : String) (value : Json) :
    Option (Compiled E) := do
  let column ← timestampColumn field
  let timestamp ← readers.toTimestamp value
  return .comparison column op.text (.timestamp timestamp)

/-- `certname-names-query` -/
def certnameNamesQuery (active : Bool) : String :=
  if active then
    "SELECT certname FROM certnames_status WHERE deactivated IS NULL AND expired IS NULL"
  else
    "SELECT certname FROM certnames_status WHERE deactivated IS NOT NULL OR expired IS NOT NULL"

/-- `compile-resource-equality`. The SQL for a tag is a form and no text; written out, its
placeholder stands in a quoted name. -/
def compileResourceEquality (path : Path) (value : Json) : Option (Compiled E) :=
  match path with
  | .nodeActive =>
    some (.filter (some (.raw [.text
      ("catalogs.certname IN (" ++ certnameNamesQuery value.truthy ++ ")")])) [] none)
  | .parameter name =>
    some (.filter (some (.raw [.text ("catalog_resources.resource IN " ++
      "(SELECT rp.resource FROM resource_params rp WHERE rp.name = "),
      .mark (.value (.str name)), .text " AND rp.value = ", .mark (.serialized value),
      .text ")"])) [.value (.str name), .serialized value] none)
  | .field field =>
    if field = "tag" then
      some (.filter (some (.raw [.text "[:raw \"ARRAY[?::text] <@ tags\"]"])) [.lower value] none)
    else if field = "certname" then some (.comparison "catalogs.certname" "=" (.value value))
    else if field = "environment" then
      some (.comparison "catalog_resources.environment" "=" (.value value))
    else if ["catalog", "resource", "type", "title", "tags", "exported", "file", "line"].contains
        field then
      some (.comparison ("catalog_resources." ++ field) "=" (.value value))
    else none

/-- `compile-resource-regexp` -/
def compileResourceRegexp (field : String) (value : Json) : Option (Compiled E) :=
  if field = "tag" then
    some (.filter (some (.raw [.text "EXISTS(SELECT 1 FROM UNNEST(tags) WHERE UNNEST ~ ",
      .mark (.value value), .text ")"])) [.value value] none)
  else if field = "certname" then some (.regexp "catalogs.certname" value)
  else if field = "environment" then some (.regexp "catalog_resources.environment" value)
  else if ["type", "title", "exported", "file"].contains field then
    some (.regexp ("catalog_resources." ++ field) value)
  else none

/-- `compile-fact-equality` -/
def compileFactEquality (path : Path) (value : Json) : Option (Compiled E) :=
  match path with
  | .nodeActive =>
    some (.filter (some (.raw [.text
      ("facts.certname IN (" ++ certnameNamesQuery value.truthy ++ ")")])) [] none)
  | .parameter _ => none
  | .field field =>
    if field = "value" then
      some (.filter (some (.raw [.text "facts.value = ", .mark (.string value),
        .text " and depth = 0"])) [.string value] none)
    else if ["name", "certname", "environment"].contains field then
      some (.comparison ("facts." ++ field) "=" (.value value))
    else none

/-- `compile-fact-regexp` -/
def compileFactRegexp (field : String) (pattern : Json) : Option (Compiled E) :=
  if field = "value" then
    some (.filter (some (.raw ((Condition.regexpMatch "facts.value" pattern).pieces ++
      [.text " and depth = 0"]))) [.value pattern] none)
  else if ["certname", "environment", "name"].contains field then
    some (.regexp ("facts." ++ field) pattern)
  else none

/-- `sql-as-numeric` -/
def sqlAsNumeric (column : String) : String :=
  "CASE WHEN " ++ column ++ "~E'^\\\\d+$' THEN " ++ column ++ "::bigint WHEN " ++ column ++
    "~E'^\\\\d+\\\\.\\\\d+$' THEN " ++ column ++ "::float ELSE NULL END"

/-- `compile-fact-inequality` -/
def compileFactInequality (op : Inequality) (field : String) (value : Json) :
    Option (Compiled E) := do
  let number ← readers.parseNumber value
  if field = "value" then
    return .filter (some (.raw [.text (sqlAsNumeric "facts.value" ++ " " ++ op.text ++ " "),
      .mark (.number number), .text " and depth = 0"])) [.number number] none
  else none

def compileEquality (kind : Kind) (path : Path) (value : Json) : Option (Compiled E) :=
  match kind, path with
  | .event, .field field => compileResourceEventEquality field value
  | .event, _ => none
  | .resource, _ => compileResourceEquality path value
  | .fact, _ => compileFactEquality path value

def compileRegexp (kind : Kind) (path : Path) (pattern : Json) : Option (Compiled E) :=
  match kind, path with
  | .event, .field field => compileResourceEventRegexp field pattern
  | .resource, .field field => compileResourceRegexp field pattern
  | .fact, .field field => compileFactRegexp field pattern
  | _, _ => none

/-- There are no inequalities of resources. -/
def compileInequality (kind : Kind) (op : Inequality) (path : Path) (value : Json) :
    Option (Compiled E) :=
  match kind, path with
  | .event, .field field => compileResourceEventInequality readers op field value
  | .fact, .field field => compileFactInequality readers op field value
  | _, _ => none

/-! ## Terms -/

inductive Term where
  | empty
  | equal (path : Path) (value : Json)
  | regexp (path : Path) (pattern : Json)
  | inequality (op : Inequality) (path : Path) (value : Json)
  | and (terms : List Term)
  | or (terms : List Term)
  | not (terms : List Term)
  | extract (field : String) (subquery : Term)
  | isIn (field : String) (subquery : Term)
  | selectResources (query : Term)
  | selectFacts (query : Term)

/-- `resource-columns` -/
def resourceColumns : List (String × String) :=
  [("certname", "catalogs"), ("environment", "catalog_resources"),
    ("catalog", "catalog_resources"), ("resource", "catalog_resources"),
    ("type", "catalog_resources"), ("title", "catalog_resources"),
    ("tags", "catalog_resources"), ("exported", "catalog_resources"),
    ("file", "catalog_resources"), ("line", "catalog_resources")]

/-- `fact-columns` -/
def factColumns : List (String × String) :=
  [("certname", "facts"), ("name", "facts"), ("value", "facts"), ("environment", "facts")]

/-- The keys of `event-columns`. -/
def eventFields : List String :=
  ["certname", "configuration_version", "start_time", "end_time", "receive_time", "hash",
    "status", "timestamp", "resource_type", "resource_title", "property", "new_value",
    "old_value", "message", "file", "line", "containment_path", "containing_class", "name",
    "environment"]

/-- `resource-event-in-columns` -/
def resourceEventInColumns : List (String × String) :=
  [("certname", "reports"), ("configuration_version", "reports"), ("run_start_time", "reports"),
    ("run_end_time", "reports"), ("report_receive_time", "reports"), ("hash", "reports"),
    ("status", "resource_events"), ("timestamp", "resource_events"),
    ("resource_type", "resource_events"), ("resource_title", "resource_events"),
    ("property", "resource_events"), ("new_value", "resource_events"),
    ("old_value", "resource_events"), ("message", "resource_events"),
    ("file", "resource_events"), ("line", "resource_events"),
    ("containment_path", "resource_events"), ("containing_class", "resource_events"),
    ("name", "resource_events"), ("environment", "environments")]

/-- `queryable-fields` -/
def queryableFields : Kind → List String
  | .event => eventFields
  | .resource => resourceColumns.map Prod.fst
  | .fact => factColumns.map Prod.fst

/-- The columns that `compile-in` takes the field of. -/
def inColumns : Kind → List (String × String)
  | .event => resourceEventInColumns
  | .resource => resourceColumns
  | .fact => factColumns

/-- `qualified-column`; a field without a table is written with `nil`. -/
def qualifiedColumn (field : String) (columns : List (String × String)) : String :=
  (columns.lookup field).getD "null" ++ "." ++ field

/-- `column-map->sql` -/
def columnMapToSql (columns : List (String × String)) : String :=
  ", ".intercalate (columns.map fun (field, table) => table ++ "." ++ field)

/-- `subquery->type` -/
def subqueryType : Term → Option Kind
  | .selectResources _ => some .resource
  | .selectFacts _ => some .fact
  | _ => none

def Term.isExtract : Term → Bool
  | .extract _ _ => true
  | _ => false

namespace Compiled

/-- `compile-boolean-operator*` -/
def boolean (operator : List (Condition E) → Condition E) (terms : List (Compiled E)) :
    Option (Compiled E) :=
  if terms.isEmpty then none
  else some (filter (some (operator (terms.map operand))) (terms.flatMap params) none)

/-- `negate-term*`, which puts the condition into the map it is given. -/
def negate : Compiled E → Option (Compiled E)
  | filter condition params clause =>
    some (filter (some (.not (condition.getD .null))) params clause)
  | select _ _ => none

/-- `compile-extract` of a select. -/
def extract (field : String) : Compiled E → Option (Compiled E)
  | select sql params =>
    some (filter (some (.raw (.text ("SELECT r1." ++ field ++ " FROM (") :: sql ++
      [.text ") r1"]))) params none)
  | filter _ _ _ => none

/-- `compile-in` of an extract. -/
def isIn (column : String) (c : Compiled E) : Compiled E :=
  filter (some (.raw (.text (column ++ " IN (") :: c.operand.pieces ++ [.text ")"])))
    c.params c.latestReportClause

/-- `resource-query->sql` -/
def resourceQuery (c : Compiled E) : Compiled E :=
  select (.text ("SELECT " ++ columnMapToSql resourceColumns ++
    " FROM (SELECT encode(c.hash::bytea, 'hex') as catalog, e.environment, certnames.certname, " ++
    "resource, type, title, tags, exported, file, line FROM catalog_resources cr " ++
    "INNER JOIN certnames ON certnames.id = cr.certname_id " ++
    "INNER JOIN catalogs c ON c.certname = certnames.certname " ++
    "LEFT OUTER JOIN environments e ON c.environment_id = e.id) AS catalog_resources " ++
    "JOIN catalogs ON catalog_resources.certname = catalogs.certname WHERE ") ::
    c.operand.pieces) c.params

/-- `fact-query->sql` -/
def factQuery (c : Compiled E) : Compiled E :=
  select (.text ("SELECT " ++ columnMapToSql factColumns ++
    " FROM (SELECT certname, environment, value #>> '\x7b\x7d' AS value, producer_timestamp, " ++
    "key AS name FROM (SELECT certname, producer_timestamp, environment_id, facts.* " ++
    "FROM factsets, lateral (select * from jsonb_each(stable) union all " ++
    "select * from jsonb_each(volatile)) as facts) fs " ++
    "LEFT JOIN environments env ON fs.environment_id = env.id) AS facts WHERE ") ::
    c.operand.pieces) c.params

end Compiled

mutual

/-- `compile-term` with the operators for a kind of query; there is nothing where it throws. -/
def compileTerm (kind : Kind) : Term → Option (Compiled E)
  | .empty => some (.filter none [] none)
  | .equal path value => compileEquality kind path value
  | .regexp path pattern => compileRegexp kind path pattern
  | .inequality op path value => compileInequality readers kind op path value
  | .and terms => (compileTerms kind terms).bind (Compiled.boolean .all)
  | .or terms => (compileTerms kind terms).bind (Compiled.boolean .any)
  | .not terms =>
    (compileTerms kind terms).bind fun compiled =>
      match compiled with
      | [c] => c.negate
      | _ => none
  | .extract field subquery =>
    (compileTerm kind subquery).bind fun c =>
      (subqueryType subquery).bind fun type =>
        if (queryableFields type).contains field then c.extract field else none
  | .isIn field subquery =>
    if (queryableFields kind).contains field && subquery.isExtract then
      (compileTerm kind subquery).map fun c =>
        c.isIn (qualifiedColumn field (inColumns kind))
    else none
  | .selectResources query => (compileTerm .resource query).map Compiled.resourceQuery
  | .selectFacts query => (compileTerm .fact query).map Compiled.factQuery

/-- The terms of a boolean operator. -/
def compileTerms (kind : Kind) : List Term → Option (List (Compiled E))
  | [] => some []
  | term :: terms =>
    (compileTerm kind term).bind fun c => (compileTerms kind terms).map fun cs => c :: cs

end

end OpenVoxDB.LegacyQueries
