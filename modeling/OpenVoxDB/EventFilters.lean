import Mathlib
import OpenVoxDB.DistinctEvents
import OpenVoxDB.ReportEvents

/-!
# The filters of events in both compilers

A filter of events is compiled by the legacy compiler where the distinct
resources are asked for, and planned by the query engine elsewhere. Both
conditions are read here on the columns of an event in the logic of SQL.
-/

namespace OpenVoxDB.EventFilters

open LegacyQueries Plans DistinctEvents

variable {E ρ : Type}

/-! ## The columns of an event -/

/-- `encode(reports.hash::bytea, 'hex')` -/
def reportHash : String := "encode(reports.hash::bytea, 'hex')"

/-- The columns that may not be `NULL`. -/
def requiredColumns : List String :=
  ["reports.certname", reportHash, "reports.start_time", "reports.end_time",
    "reports.receive_time", "resource_events.status", "resource_events.timestamp",
    "resource_events.resource_type", "resource_events.resource_title"]

/-- The columns that a filter can be about. -/
def knownColumns : List String :=
  requiredColumns ++ ["environments.environment", "resource_events.property",
    "resource_events.message", "resource_events.file", "resource_events.line",
    "resource_events.containing_class", "resource_events.corrective_change",
    "resource_events.old_value", "resource_events.new_value"]

/-- Which columns of an event are `NULL`, and how the others compare with a value. -/
structure Columns (E ρ : Type) where
  isNull : String → Event ρ → Bool
  test : String → String → Bound E → Event ρ → Bool
  required : ∀ column ∈ requiredColumns, ∀ e, isNull column e = false

/-- A parameter that is `NULL`. -/
def isNullBound : Bound E → Bool
  | .value .null => true
  | _ => false

namespace Columns

variable (columns : Columns E ρ)

/-- A comparison is unknown where either side is `NULL`. -/
def compare (column operator : String) (value : Bound E) (e : Event ρ) : Truth :=
  if columns.isNull column e || isNullBound value then .unknown
  else .ofBool (columns.test column operator value e)

/-- There is no other SQL in the filters. -/
def semantics : Semantics E ρ where
  compare := columns.compare
  isNull := columns.isNull
  raw := fun _ _ => .unknown

end Columns

/-! ## The legacy compiler -/

mutual

/-- The columns of a condition exist; the database rejects others. -/
def wellFormed : Condition E → Bool
  | .compare column _ _ => knownColumns.contains column
  | .isNull column => knownColumns.contains column
  | .notNullAnd condition column => wellFormed condition && knownColumns.contains column
  | .group condition => wellFormed condition
  | .all conditions => allWellFormed conditions
  | .any conditions => allWellFormed conditions
  | .not condition => wellFormed condition
  | .latestReport _ => true
  | .null => true
  | .raw _ => true

def allWellFormed : List (Condition E) → Bool
  | [] => true
  | condition :: conditions => wellFormed condition && allWellFormed conditions

end

variable (columns : Columns E ρ) (db : Database ρ) (e : Event ρ)

/-- Whether the event is selected, unless the database rejects the statement. -/
def legacySelects (c : Compiled E) : Option Bool :=
  if wellFormed c.operand then some (truth columns.semantics db e c.operand = .yes) else none

/-! ## The query engine -/

/-- `validate-query-fields` -/
def queryable (field : String) : Option Column :=
  (ReportEvents.projections.lookup field).filter Column.queryable

/-- What `simple-binary-operator-checker` takes for a value. -/
def checkedValue : Json → Bool
  | .arr xs => xs.all fun x => match x with
    | .str _ => true
    | .int _ => true
    | _ => false
  | .str _ => true
  | .bool _ => true
  | .int _ => true
  | .float _ _ => true
  | _ => false

/-- The fields whose values are serialized. -/
def serializedFields : List String := ["new_value", "old_value"]

variable (readers : Readers)

/-- A clause for equality: `expand-query-node`, `validate-binary-operators` and
`user-node->plan-node`. -/
def planEquality (field : String) (value : Json) : Option (Plan (Bound E)) := do
  let column ← queryable field
  if field = "latest_report?" then some (.binary "=" column (.value value))
  else if field ∈ serializedFields then some (.binary "=" column (.serialized value))
  else if value = .null then some (.null column true)
  else match column.type, value with
    | .numeric, .str _ => none
    | .timestamp, _ => (readers.toTimestamp value).map fun t => .binary "=" column (.timestamp t)
    | .array, _ => some (.arrayBinary column (.value value))
    | _, _ => some (.binary "=" column (.value value))

def planRegexp (field : String) (pattern : Json) : Option (Plan (Bound E)) := do
  let column ← queryable field
  if field ∈ serializedFields then some (.regex column (.serialized pattern))
  else if checkedValue pattern then
    if column.type = .array then some (.arrayRegex column (.value pattern))
    else some (.regex column (.value pattern))
  else none

def isNumber : Json → Bool
  | .int _ => true
  | .float _ _ => true
  | _ => false

def planInequality (op : Inequality) (field : String) (value : Json) :
    Option (Plan (Bound E)) := do
  let column ← queryable field
  if column.type = .timestamp then
    (readers.toTimestamp value).map fun t => .binary op.text column (.timestamp t)
  else if column.type = .numeric && isNumber value then
    some (.binary op.text column (.value value))
  else none

mutual

/-- The plan of a filter, if the engine accepts it. -/
def planTerm : Term → Option (Plan (Bound E))
  | .equal (.field field) value => planEquality readers field value
  | .regexp (.field field) pattern => planRegexp field pattern
  | .inequality op (.field field) value => planInequality readers op field value
  | .and terms => if terms.isEmpty then none else (planTerms terms).map .and
  | .or terms => if terms.isEmpty then none else (planTerms terms).map .or
  | .not terms => (planTerms terms).bind fun plans =>
    match plans with
    | [plan] => some (.not plan)
    | _ => none
  | _ => none

def planTerms : List Term → Option (List (Plan (Bound E)))
  | [] => some []
  | term :: terms => (planTerm term).bind fun plan => (planTerms terms).map fun plans => plan :: plans

end

/-- The field of `latest_report?`. -/
def latestReportField : Field := .hsql ⟨"(events.latest AND reports.latest)", ["events", "reports"]⟩

/-- A field of the engine as the legacy compiler names it: the events are called `events`. -/
def columnOf : Field → String
  | .keyword none column => "resource_events." ++ column
  | .keyword (some "events") column => "resource_events." ++ column
  | .keyword (some table) column => table ++ "." ++ column
  | .hsql sql => if Field.hsql sql = Entities.hashAsStr "reports" "hash" then reportHash else sql.text

/-- A comparison of a field. The latest reports are those of the partition in which the flag is
set. -/
def compareField (field : Field) (operator : String) (value : Bound E) : Truth :=
  if field = latestReportField then
    match value with
    | .value (.bool b) => .ofBool (db.latest e == b)
    | _ => .unknown
  else columns.compare (columnOf field) operator value e

mutual

/-- `-plan->sql`, for the nodes of the filters. -/
def planTruth : Plan (Bound E) → Truth
  | .binary operator column value => compareField columns db e column.field operator value
  | .regex column value =>
    (compareField columns db e column.field "~" value).and
      (.ofBool (!columns.isNull (columnOf column.field) e))
  | .null column isNull => .ofBool (columns.isNull (columnOf column.field) e == isNull)
  | .and clauses => .all (planTruths clauses)
  | .or clauses => .any (planTruths clauses)
  | .not clause => (planTruth clause).not
  | _ => .unknown

def planTruths : List (Plan (Bound E)) → List Truth
  | [] => []
  | clause :: clauses => planTruth clause :: planTruths clauses

end

/-- A flag can only be compared with a flag. -/
def comparable (field : Field) (value : Bound E) : Bool :=
  field != latestReportField || match value with
    | .value (.bool _) => true
    | .value .null => true
    | _ => false

mutual

/-- The comparisons of a plan are of the types of the columns; the database rejects others. -/
def wellTyped : Plan (Bound E) → Bool
  | .binary _ column value => comparable column.field value
  | .regex column value => comparable column.field value
  | .and clauses => allWellTyped clauses
  | .or clauses => allWellTyped clauses
  | .not clause => wellTyped clause
  | _ => true

def allWellTyped : List (Plan (Bound E)) → Bool
  | [] => true
  | clause :: clauses => wellTyped clause && allWellTyped clauses

end

def engineSelects (plan : Plan (Bound E)) : Option Bool :=
  if wellTyped plan then some (planTruth columns db e plan = .yes) else none

end OpenVoxDB.EventFilters
