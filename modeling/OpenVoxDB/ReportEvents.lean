import OpenVoxDB.Entities

/-!
# The events of reports

The query record of the events, which keeps all its joins.
-/

namespace OpenVoxDB.ReportEvents

open Plans Entities
open QueryExpansion (FieldType)

/-- A projection without join dependencies. -/
def projection (type : FieldType) (field : Field) : Column where
  type := type
  field := field
  joinDeps := none

/-- A column that is not qualified with a table. -/
def bare (column : String) : Field := .keyword none column

def projections : List (String × Column) :=
  [("certname", projection .string (keyword "reports" "certname")),
   ("configuration_version", projection .string (keyword "reports" "configuration_version")),
   ("run_start_time", projection .timestamp (keyword "reports" "start_time")),
   ("run_end_time", projection .timestamp (keyword "reports" "end_time")),
   ("report_receive_time", projection .timestamp (keyword "reports" "receive_time")),
   ("report", projection .string (hashAsStr "reports" "hash")),
   ("status", projection .string (bare "status")),
   ("corrective_change", projection .boolean (keyword "events" "corrective_change")),
   ("timestamp", projection .timestamp (bare "timestamp")),
   ("resource_type", projection .string (bare "resource_type")),
   ("resource_title", projection .string (bare "resource_title")),
   ("property", projection .string (bare "property")),
   ("new_value", projection .string (bare "new_value")),
   ("old_value", projection .string (bare "old_value")),
   ("message", projection .string (bare "message")),
   ("file", projection .string (bare "file")),
   ("line", projection .numeric (bare "line")),
   ("containment_path", projection .array (bare "containment_path")),
   ("containing_class", projection .string (bare "containing_class")),
   ("environment", projection .string (keyword "environments" "environment")),
   ("latest_report?", { projection .boolean
     (.hsql ⟨"(events.latest AND reports.latest)", ["events", "reports"]⟩) with
     unprojectable := true }),
   ("report_id", { projection .numeric (keyword "events" "report_id") with
     queryable := false, unprojectable := true }),
   ("name", projection .string (bare "name"))]

/-- `report-events-query` -/
def reportEventsQuery (V : Type) : QueryRec V where
  name := "report-events"
  subquery := false
  canDropUnusedJoins := false
  projections := projections
  selection := ⟨.tables [aliased "resource_events" "events"],
    [⟨.join, table "reports", on ("events", "report_id") ("reports", "id")⟩,
     leftJoin (table "environments") (on ("reports", "environment_id") ("environments", "id"))],
    none⟩
  sourceTables := ["resource_events"]
  projectedFields := []
  call := []
  groupBy := []

end OpenVoxDB.ReportEvents
