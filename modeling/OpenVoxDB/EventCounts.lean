import Mathlib
import OpenVoxDB.LegacyQueries
import OpenVoxDB.PlanParams

/-!
# Event counts

The counts of events by node, class or resource, and the aggregates of these
counts. The SQL is put together from texts, the parameters are put together
next to it. The rows are counted as the SQL says; what a select of events gives
is left to the database.
-/

namespace OpenVoxDB.EventCounts

open LegacyQueries Placeholders Plans

abbrev Value := Bound (Plans.Param Json)

abbrev Text := List (Piece Value)

/-! ## The texts -/

/-- `get-group-by` -/
def getGroupBy (summarizeBy : String) : Option (List String) :=
  if summarizeBy = "certname" then some ["certname"]
  else if summarizeBy = "containing_class" then some ["containing_class"]
  else if summarizeBy = "resource" then some ["resource_type", "resource_title"]
  else none

/-- What is counted: `fields-basic` and `fields-with-correctives`. -/
inductive Field where
  | failures
  | skips
  | successes
  | noops
  | intentionalSuccesses
  | correctiveSuccesses
  | intentionalNoops
  | correctiveNoops
  deriving DecidableEq, Repr

def Field.name : Field → String
  | failures => "failures"
  | skips => "skips"
  | successes => "successes"
  | noops => "noops"
  | intentionalSuccesses => "intentional_successes"
  | correctiveSuccesses => "corrective_successes"
  | intentionalNoops => "intentional_noops"
  | correctiveNoops => "corrective_noops"

/-- The condition of the `CASE` that counts a field. -/
def Field.condition : Field → String
  | failures => "status = 'failure'"
  | skips => "status = 'skipped'"
  | successes => "status = 'success'"
  | noops => "status = 'noop'"
  | intentionalSuccesses => "(status = 'success' and coalesce(corrective_change, false) = false)"
  | correctiveSuccesses => "(status = 'success' and corrective_change = true)"
  | intentionalNoops => "(status = 'noop' and coalesce(corrective_change, false) = false)"
  | correctiveNoops => "(status = 'noop' and corrective_change = true)"

/-- `fields` -/
def fields (storeCorrectiveChange : Bool) : List Field :=
  if storeCorrectiveChange then
    [.failures, .skips, .intentionalSuccesses, .correctiveSuccesses, .intentionalNoops,
      .correctiveNoops]
  else [.failures, .skips, .successes, .noops]

/-- A counts filter: `event-count-ops` knows comparisons only. -/
inductive CountsFilter where
  | empty
  | equal (path : String) (value : Json)
  | inequality (op : Inequality) (path : String) (value : Json)

/-- A condition on the counts, with its parameter. -/
structure CountsCondition where
  field : String
  operator : String
  value : Json
  deriving DecidableEq

/-- `get-counts-filter-where-clause`; there is nothing where it throws. -/
def getCountsFilterWhereClause (storeCorrectiveChange : Bool) :
    Option CountsFilter → Option (Option CountsCondition)
  | none => some none
  | some .empty => some none
  | some (.equal path value) =>
    let field := dashesToUnderscores path
    if ((fields storeCorrectiveChange).map Field.name).contains field then
      some (some ⟨field, "=", value⟩)
    else none
  | some (.inequality op path value) =>
    if ((fields storeCorrectiveChange).map Field.name).contains path then
      some (some ⟨path, op.text, value⟩)
    else none

def CountsCondition.text (c : CountsCondition) : Text :=
  [.text (c.field ++ " " ++ c.operator ++ " "), .mark (.value c.value)]

def commaSeparated (names : List String) : String := ", ".intercalate names

inductive CountBy where
  | resource
  | certname
  deriving DecidableEq, Repr

/-- `count_by`, by resources where it is left out; there is nothing for other values. -/
def countBy : Option String → Option CountBy
  | none => some .resource
  | some name =>
    if name = "resource" then some .resource
    else if name = "certname" then some .certname
    else none

/-- `get-count-by-sql` -/
def getCountBySql (sql : Text) (countBy : CountBy) (groupBy : List String) : Text :=
  match countBy with
  | .resource => sql
  | .certname =>
    let fieldString := if groupBy = ["certname"] then "" else ", " ++ commaSeparated groupBy
    .text ("SELECT DISTINCT certname, status, corrective_change" ++ fieldString ++ " FROM (") ::
      sql ++ [.text ") distinct_events"]

/-- `get-event-count-sql` -/
def getEventCountSql (storeCorrectiveChange : Bool) (eventSql : Text) (groupBy : List String) :
    Text :=
  .text ("SELECT " ++ commaSeparated groupBy ++ ", " ++
    commaSeparated ((fields storeCorrectiveChange).map fun f =>
      "SUM(CASE WHEN " ++ f.condition ++ " THEN 1 ELSE 0 END) AS " ++ f.name) ++ " FROM (") ::
    eventSql ++ [.text (") events GROUP BY " ++ commaSeparated groupBy)]

/-- `get-filtered-sql` -/
def getFilteredSql (sql : Text) : Option CountsCondition → Text
  | none => sql
  | some condition =>
    .text "SELECT * FROM (" :: sql ++ .text ") count_results WHERE " :: condition.text

/-- `get-aggregate-sql` -/
def getAggregateSql (storeCorrectiveChange : Bool) (eventCountSql : Text) (summarizeBy : String) :
    Text :=
  .text ("(SELECT '" ++ summarizeBy ++ "' as summarize_by, " ++
    commaSeparated ((fields storeCorrectiveChange).map fun f =>
      "SUM(CASE WHEN " ++ f.name ++ " > 0 THEN 1 ELSE 0 END) as " ++ f.name) ++
    ", COUNT(*) as total FROM (") :: eventCountSql ++ [.text ") event_counts)"]

/-- `with-latest-events` puts this in front of a query. -/
def latestEvents (start stop : Instant) (condition latestReportClause : Option (Condition
    (Plans.Param Json))) : Text :=
  .text ("WITH latest_events AS (SELECT certname, report_id, configuration_version, " ++
    "start_time as run_start_time, end_time as run_end_time, " ++
    "receive_time as report_receive_time, hash, status, " ++
    "resource_events.corrective_change as corrective_change, " ++
    "distinct_events.latest_timestamp AS timestamp, " ++
    "distinct_events.resource_type AS resource_type, " ++
    "distinct_events.resource_title AS resource_title, distinct_events.property as property, " ++
    "distinct_events.name as name, new_value, old_value, message, file, line, " ++
    "containment_path, containing_class, environment FROM (SELECT certname_id, " ++
    "resource_type COLLATE \"C\" AS resource_type, " ++
    "resource_title COLLATE \"C\" AS resource_title, property COLLATE \"C\" AS property, " ++
    "name COLLATE \"C\" AS name, MAX(resource_events.timestamp) AS latest_timestamp " ++
    "FROM resource_events WHERE resource_events.timestamp >= ") :: .mark (.window start) ::
  .text " AND resource_events.timestamp <= " :: .mark (.window stop) ::
  ((latestReportClause.map fun clause => .text " AND " :: clause.pieces).getD [] ++
    .text (" GROUP BY certname_id, resource_type COLLATE \"C\", resource_title COLLATE \"C\", " ++
      "property COLLATE \"C\", name COLLATE \"C\") distinct_events INNER JOIN resource_events " ++
      "ON resource_events.resource_type = distinct_events.resource_type " ++
      "AND resource_events.resource_title = distinct_events.resource_title " ++
      "AND ((resource_events.property = distinct_events.property) OR " ++
      "(resource_events.property IS NULL AND distinct_events.property IS NULL)) " ++
      "AND ((resource_events.name = distinct_events.name) OR " ++
      "(resource_events.name IS NULL AND distinct_events.name IS NULL)) " ++
      "AND resource_events.timestamp = distinct_events.latest_timestamp " ++
      "AND resource_events.certname_id = distinct_events.certname_id " ++
      "INNER JOIN reports ON resource_events.report_id = reports.id " ++
      "LEFT OUTER JOIN environments ON reports.environment_id = environments.id ") ::
    ((condition.map fun condition => .text "WHERE " :: condition.pieces).getD [] ++ [.text ")"]))

/-- The fields of `resource-event-columns`, each with its alias. -/
def resourceEventColumns : List (String × Option String) :=
  [("certname", none), ("configuration_version", none), ("run_start_time", none),
    ("run_end_time", none), ("report_receive_time", none), ("hash", some "report"),
    ("status", none), ("corrective_change", none), ("timestamp", none), ("resource_type", none),
    ("resource_title", none), ("property", none), ("name", none), ("new_value", none),
    ("old_value", none), ("message", none), ("file", none), ("line", none),
    ("containment_path", none), ("containing_class", none), ("environment", some "environment")]

/-- `distinct-select` -/
def distinctSelect : Text :=
  [.text ("SELECT " ++ commaSeparated (resourceEventColumns.map fun (column, label) =>
    (if column = "hash" then "encode(latest_events.hash::bytea, 'hex')"
      else "latest_events." ++ column) ++ (label.map (" AS " ++ ·)).getD "") ++
    " FROM latest_events")]

/-! ## The rows -/

/-- What the counts read of an event. -/
structure Event where
  certname : String
  status : String
  correctiveChange : Option Bool
  resourceType : String
  resourceTitle : String
  containingClass : Option String

def Event.column (e : Event) (column : String) : Option String :=
  if column = "certname" then some e.certname
  else if column = "containing_class" then e.containingClass
  else if column = "resource_type" then some e.resourceType
  else if column = "resource_title" then some e.resourceTitle
  else none

/-- An event as it is counted: the columns of the `GROUP BY` and those of the `CASE`s. -/
structure Counted where
  subject : List (Option String)
  certname : String
  status : String
  correctiveChange : Option Bool
  deriving DecidableEq

def Event.counted (groupBy : List String) (e : Event) : Counted :=
  ⟨groupBy.map e.column, e.certname, e.status, e.correctiveChange⟩

/-- The `CASE` of a field. -/
def Field.counts (c : Counted) : Field → Bool
  | failures => c.status = "failure"
  | skips => c.status = "skipped"
  | successes => c.status = "success"
  | noops => c.status = "noop"
  | intentionalSuccesses => c.status = "success" && c.correctiveChange ≠ some true
  | correctiveSuccesses => c.status = "success" && c.correctiveChange = some true
  | intentionalNoops => c.status = "noop" && c.correctiveChange ≠ some true
  | correctiveNoops => c.status = "noop" && c.correctiveChange = some true

/-- A row of event counts. -/
structure CountRow where
  subject : List (Option String)
  counts : List (Field × Nat)
  deriving DecidableEq

/-- A row of aggregate event counts; the sum over no rows is shown as 0. -/
structure AggregateRow where
  summarizeBy : String
  counts : List (Field × Nat)
  total : Nat
  deriving DecidableEq

/-- What the database gives for a select of events behind a `WITH`, and for a condition on the
counts. -/
structure Database where
  events : Text → Text → List Event
  meets : Text → CountRow → Bool

/-- The SQL of event counts in its parts. -/
structure CountsQuery where
  latest : Text
  select : Text
  countBy : CountBy
  summarizeBy : String
  groupBy : List String
  filter : Option CountsCondition

/-- The parts with their placeholders filled. -/
structure Filled where
  latest : Text
  select : Text
  filter : Option Text

variable (storeCorrectiveChange : Bool)

namespace CountsQuery

def sql (e : CountsQuery) : Text :=
  getFilteredSql (getEventCountSql storeCorrectiveChange
    (getCountBySql (e.latest ++ e.select) e.countBy e.groupBy) e.groupBy) e.filter

/-- The parts with the next parameters in their placeholders, in the order of the text. -/
def fill (e : CountsQuery) (params : List Value) : Option (Filled × List Value) := do
  let (latest, params) ← Placeholders.fill e.latest params
  let (select, params) ← Placeholders.fill e.select params
  match e.filter with
  | none => return (⟨latest, select, none⟩, params)
  | some condition =>
    let (condition, params) ← Placeholders.fill condition.text params
    return (⟨latest, select, some condition⟩, params)

/-- The rows that are counted. -/
def counted (e : CountsQuery) (events : List Event) : List Counted :=
  let rows := events.map (Event.counted e.groupBy)
  match e.countBy with
  | .resource => rows
  | .certname => rows.dedup

/-- The rows of the statement, with what its placeholders have been filled with. -/
def rows (e : CountsQuery) (db : Database) (filled : Filled) : List CountRow :=
  let counted := e.counted (db.events filled.latest filled.select)
  let rows := (counted.map Counted.subject).dedup.map fun subject =>
    ⟨subject, (fields storeCorrectiveChange).map fun f =>
      (f, (counted.filter fun c => c.subject = subject && f.counts c).length)⟩
  match filled.filter with
  | none => rows
  | some condition => rows.filter (db.meets condition)

/-- The rows of the statement run with these parameters, if they are as many as its
placeholders. -/
def run (e : CountsQuery) (db : Database) (params : List Value) : Option (List CountRow) := do
  let (filled, rest) ← e.fill params
  if rest.isEmpty then return e.rows storeCorrectiveChange db filled else none

end CountsQuery

/-- The aggregate of the rows of event counts. -/
def aggregateRow (summarizeBy : String) (rows : List CountRow) : AggregateRow :=
  ⟨summarizeBy, (fields storeCorrectiveChange).map fun f =>
    (f, (rows.filter fun row => row.counts.any fun (g, n) => f = g && 0 < n).length), rows.length⟩

/-- A `WITH` and the members of a union behind it. -/
structure Aggregate where
  latest : Text
  members : List CountsQuery

namespace Aggregate

def sql (a : Aggregate) : Text :=
  a.latest ++ join " UNION ALL " (a.members.map fun e =>
    getAggregateSql storeCorrectiveChange (e.sql storeCorrectiveChange) e.summarizeBy)

/-- The members with the next parameters in their placeholders. -/
def fillMembers : List CountsQuery → List Value → Option (List (CountsQuery × Filled) × List Value)
  | [], params => some ([], params)
  | e :: es, params => do
    let (filled, params) ← e.fill params
    let (rest, params) ← fillMembers es params
    return ((e, filled) :: rest, params)

/-- The rows of the union run with these parameters: every member sees the `WITH`. -/
def run (a : Aggregate) (db : Database) (params : List Value) : Option (List AggregateRow) := do
  let (latest, params) ← Placeholders.fill a.latest params
  let (members, params) ← fillMembers a.members params
  if params.isEmpty then
    return members.map fun (e, filled) => aggregateRow storeCorrectiveChange e.summarizeBy
      (e.rows storeCorrectiveChange db { filled with latest := latest ++ filled.latest })
  else none

end Aggregate

/-! ## The queries -/

/-- A request: the query as the legacy compiler reads it and as the query engine plans it. -/
structure Request where
  query : Term
  plan : Plans.Query Json
  summarizeBy : String
  countsFilter : Option CountsFilter
  countBy : Option String
  /-- `distinct_resources`, with the start and the end of its time window. -/
  distinctResources : Option (Instant × Instant)

def ofToken : Token Json → Piece Value
  | .sql s => .text s.text
  | .mark p => .mark (.engine p)

variable (readers : Readers) (parser : FieldParser)

/-- The select of the events with what stands before it, and its parameters:
`legacy-query->sql`, or `compile-user-query->sql` for the events. -/
def eventsSql (willUnion : Bool) (query : Term) (r : Request) : Option (Text × Text × List Value) :=
  match r.distinctResources with
  | some (start, stop) => do
    let c ← compileTerm readers .event query
    let latest :=
      if willUnion then [] else latestEvents start stop c.condition c.latestReportClause
    return (latest, distinctSelect, .window start :: .window stop :: c.params)
  | none =>
    some ([], (r.plan.tokens parser).map ofToken, (r.plan.extractAllParams parser).map .engine)

/-- `event-counts/query->sql` -/
def eventCounts (willUnion : Bool) (query : Term) (r : Request) (summarizeBy : String) :
    Option (CountsQuery × List Value) := do
  let countBy ← countBy r.countBy
  let groupBy ← getGroupBy summarizeBy
  let filter ← getCountsFilterWhereClause storeCorrectiveChange r.countsFilter
  let (latest, select, eventParams) ← eventsSql readers parser willUnion query r
  return (⟨latest, select, countBy, summarizeBy, groupBy, filter⟩,
    eventParams ++ filter.toList.map fun c => .value c.value)

/-- `(str/split s #",")`, without the empty strings at the end. -/
def splitCommas (s : String) : List String :=
  let parts := (s.toList.splitOn ',').map String.ofList
  if parts.length = 1 then parts else (parts.reverse.dropWhile String.isEmpty).reverse

mutual

/-- `flatten` of a value. -/
def flattenJson : Json → List Json
  | .arr xs => flattenAll xs
  | v => [v]

def flattenAll : List Json → List Json
  | [] => []
  | x :: xs => flattenJson x ++ flattenAll xs

end

/-- `flatten` of a parameter; only a value of the query can be a list. -/
def flattenValue : Value → List Value
  | .value v => (flattenJson v).map .value
  | .engine (.value v) => (flattenJson v).map fun v => .engine (.value v)
  | p => [p]

/-- `aggregate-event-counts/query->sql` -/
def aggregateEventCounts (r : Request) : Option (Aggregate × List Value) := do
  let summaries := splitCommas r.summarizeBy
  let query := if r.distinctResources.isSome then .empty else r.query
  let compiled ← summaries.mapM (eventCounts storeCorrectiveChange readers parser true query r)
  let commonParams := (compiled.head?.map Prod.snd).getD []
  let c ← compileTerm readers .event r.query
  match r.distinctResources with
  | some (start, stop) =>
    return (⟨latestEvents start stop c.condition c.latestReportClause, compiled.map Prod.fst⟩,
      commonParams ++ c.params)
  | none =>
    return (⟨[], compiled.map Prod.fst⟩,
      (List.replicate summaries.length commonParams).flatten.flatMap flattenValue)

end OpenVoxDB.EventCounts
