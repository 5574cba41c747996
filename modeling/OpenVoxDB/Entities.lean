import OpenVoxDB.PlanSql

/-!
# The entities

The query records that opt in to dropping unused joins, with their projections
and their joins. SQL that is not a single column is kept as text, with the
tables that it needs from outside.
-/

namespace OpenVoxDB.Entities

open Plans
open QueryExpansion (FieldType)

/-- A column `table.column`. -/
def keyword (table column : String) : Field := .keyword (some table) column

/-- `hsql-hash-as-str` -/
def hashAsStr (table column : String) : Field :=
  .hsql ⟨"ENCODE(CAST(" ++ table ++ "." ++ column ++ " AS BYTEA), 'hex')", [table]⟩

/-- `hsql-uuid-as-str` -/
def uuidAsStr (table column : String) : Field :=
  .hsql ⟨"CAST(" ++ table ++ "." ++ column ++ " AS TEXT)", [table]⟩

/-- `hsql-hash-as-href` -/
def hashAsHref (entity parent child : String) : String :=
  "FORMAT('/pdb/query/v4/" ++ parent ++ "/%s/" ++ child ++ "', " ++ entity ++ ")"

/-- The hash of the row that is selected. -/
def ownHash : String := "ENCODE(CAST(hash AS BYTEA), 'hex')"

/-- A projection that a query may refer to. -/
def column (type : FieldType) (field : Field) (joinDeps : List String) : Column where
  type := type
  field := field
  joinDeps := some joinDeps

/-- A projection that no query may refer to. -/
def hidden (type : FieldType) (field : Field) (joinDeps : List String) : Column :=
  { column type field joinDeps with queryable := false }

/-- A table under its own name. -/
def table (name : String) : Table := ⟨⟨name, []⟩, name⟩

/-- A table, or another source of rows, under an alias. -/
def aliased (source name : String) : Table := ⟨⟨source ++ " " ++ name, []⟩, name⟩

/-- `[:= left right]`, between columns of two tables. -/
def on (left : String × String) (right : String × String) : Sql :=
  ⟨left.1 ++ "." ++ left.2 ++ " = " ++ right.1 ++ "." ++ right.2, [left.1, right.1]⟩

def leftJoin (table : Table) (on : Sql) : Join := ⟨.leftJoin, table, on⟩

/-- A query record as it stands in the program, before anything is asked of it. -/
def entity (V : Type) (name : String) (projections : List (String × Column))
    (source : List Table) (joins : List Join) (sourceTables : List String)
    (whereSql : Option Sql) : QueryRec V where
  name := name
  subquery := false
  canDropUnusedJoins := true
  projections := projections
  selection := ⟨.tables source, joins, whereSql⟩
  sourceTables := sourceTables
  projectedFields := []
  call := []
  groupBy := []

variable (V : Type)

def inventoryQuery : QueryRec V :=
  entity V "inventory"
    [("certname", column .string (keyword "certnames" "certname") ["certnames"]),
     ("timestamp", column .timestamp (keyword "fs" "timestamp") ["fs"]),
     ("environment", column .string (keyword "environments" "environment") ["environments"]),
     ("facts", column .queryableJson (.hsql ⟨"(fs.stable || fs.volatile)", ["fs"]⟩) ["fs"]),
     ("trusted", column .queryableJson
       (.hsql ⟨"(fs.stable || fs.volatile) -> 'trusted'", ["fs"]⟩) ["fs"])]
    [aliased "factsets" "fs"]
    [leftJoin (table "environments") (on ("fs", "environment_id") ("environments", "id")),
     leftJoin (table "certnames") (on ("fs", "certname") ("certnames", "certname"))]
    [] none

def nodesProjections : List (String × Column) :=
  [("certname", column .string (keyword "certnames_status" "certname") ["certnames_status"]),
   ("deactivated",
     column .string (keyword "certnames_status" "deactivated") ["certnames_status"]),
   ("expired", column .timestamp (keyword "certnames_status" "expired") ["certnames_status"]),
   ("facts_environment",
     column .string (keyword "facts_environment" "environment") ["facts_environment", "fs"]),
   ("catalog_timestamp", column .timestamp (keyword "catalogs" "timestamp") ["catalogs"]),
   ("facts_timestamp", column .timestamp (keyword "fs" "timestamp") ["fs"]),
   ("report_timestamp",
     column .timestamp (keyword "reports_latest" "end_time") ["certnames", "reports_latest"]),
   ("latest_report_hash",
     column .string (hashAsStr "reports_latest" "hash") ["certnames", "reports_latest"]),
   ("latest_report_noop",
     column .boolean (keyword "reports_latest" "noop") ["certnames", "reports_latest"]),
   ("latest_report_noop_pending",
     column .boolean (keyword "reports_latest" "noop_pending") ["certnames", "reports_latest"]),
   ("latest_report_status",
     column .string (keyword "report_statuses" "status")
       ["certnames", "report_statuses", "reports_latest"]),
   ("latest_report_corrective_change",
     column .boolean (keyword "reports_latest" "corrective_change")
       ["certnames", "reports_latest"]),
   ("latest_report_job_id",
     column .string (keyword "reports_latest" "job_id") ["certnames", "reports_latest"]),
   ("cached_catalog_status",
     column .string (keyword "reports_latest" "cached_catalog_status")
       ["certnames", "reports_latest"]),
   ("catalog_environment",
     column .string (keyword "catalog_environment" "environment")
       ["catalog_environment", "catalogs"]),
   ("report_environment",
     column .string (keyword "reports_environment" "environment")
       ["certnames", "reports_environment", "reports_latest"])]

def nodesJoins : List Join :=
  [leftJoin (table "certnames") (on ("certnames_status", "certname") ("certnames", "certname")),
   leftJoin (table "catalogs") (on ("certnames_status", "certname") ("catalogs", "certname")),
   leftJoin (aliased "factsets" "fs") (on ("certnames_status", "certname") ("fs", "certname")),
   leftJoin (table "reports_latest") (on ("certnames", "certname") ("reports_latest", "certname")),
   leftJoin (aliased "environments" "catalog_environment")
     (on ("catalog_environment", "id") ("catalogs", "environment_id")),
   leftJoin (table "report_statuses") (on ("reports_latest", "status_id") ("report_statuses", "id")),
   leftJoin (aliased "environments" "facts_environment")
     (on ("facts_environment", "id") ("fs", "environment_id")),
   leftJoin (aliased "environments" "reports_environment")
     (on ("reports_environment", "id") ("reports_latest", "environment_id"))]

def nodesQuery : QueryRec V :=
  entity V "nodes" nodesProjections [table "certnames_status"] nodesJoins ["certnames"] none

def nodesQueryWithFactExpiration : QueryRec V :=
  entity V "nodes-with-fact-expiration"
    (nodesProjections ++
      [("expires_facts", column .boolean
         (.hsql ⟨"COALESCE(certname_fact_expiration.expire, TRUE)", ["certname_fact_expiration"]⟩)
         ["certname_fact_expiration"]),
       ("expires_facts_updated", column .timestamp
         (keyword "certname_fact_expiration" "updated") ["certname_fact_expiration"])])
    [table "certnames_status"]
    (nodesJoins ++
      [leftJoin (table "certname_fact_expiration")
        (on ("certnames", "id") ("certname_fact_expiration", "certid"))])
    ["certnames"] none

def factPathsQuery : QueryRec V :=
  entity V "fact-paths"
    [("type", column .string (keyword "vt" "type") ["vt"]),
     ("path", column .encodedPath (.keyword none "path") ["fp"]),
     ("name", column .string (.keyword none "name") ["fp"]),
     ("depth", { column .numeric (keyword "fp" "depth") ["fp"] with unprojectable := true })]
    [aliased "fact_paths" "fp"]
    [leftJoin (aliased "value_types" "vt") (on ("fp", "value_type_id") ("vt", "id"))]
    ["fact_paths"] (some ⟨"fp.value_type_id <> 5", ["fp"]⟩)

def factsQuery : QueryRec V :=
  entity V "facts"
    [("certname", column .string (keyword "fs" "certname") ["fs"]),
     ("environment", column .string (keyword "env" "environment") ["env"]),
     ("name", column .string (keyword "fs" "key") ["fs"]),
     ("value", column .jsonbScalar (keyword "fs" "value") ["fs"])]
    [aliased ("(SELECT certname, environment_id, facts.key, facts.value FROM factsets CROSS JOIN " ++
      "LATERAL (SELECT * FROM JSONB_EACH(stable) UNION ALL SELECT * FROM JSONB_EACH(volatile)) " ++
      "AS facts)") "fs"]
    [leftJoin (aliased "environments" "env") (on ("fs", "environment_id") ("env", "id"))]
    ["factsets"] none

def factContentsQuery : QueryRec V :=
  entity V "fact-contents"
    [("certname", column .string (keyword "fc" "certname") ["fc"]),
     ("environment", column .string (keyword "env" "environment") ["env"]),
     ("path",
       { column .pathArray (keyword "fc" "path") ["fc"] with depends := ["path_types"] }),
     ("path_types", { hidden .string (keyword "fc" "types") ["fc"] with unprojectable := true }),
     ("name", column .string (keyword "fc" "name") ["fc"]),
     ("value", column .jsonbScalar (.keyword none "value") ["fc"])]
    [aliased "fact_contents_core" "fc"]
    [leftJoin (aliased "environments" "env") (on ("fc", "environment_id") ("env", "id"))]
    ["factsets", "fact_paths"] none

/-- The log or the metrics of a report. -/
def reportData (column : String) : Field :=
  .hsql ⟨"(SELECT ROW_TO_JSON(t) FROM (SELECT COALESCE(" ++ column ++ ", CAST(" ++ column ++
    "_json AS JSONB)) AS data, " ++ hashAsHref ownHash "reports" column ++ " AS href) AS t)", []⟩

/-- The events of a report. -/
def reportEvents : Field :=
  .hsql ⟨"(SELECT ROW_TO_JSON(event_data) FROM (SELECT JSON_AGG(ROW_TO_JSON(t)) AS data, " ++
    hashAsHref ownHash "reports" "events" ++ " AS href FROM (SELECT re.status, re.timestamp, " ++
    "re.resource_type, re.resource_title, re.property, re.corrective_change, " ++
    "CAST(re.new_value AS JSONB), CAST(re.old_value AS JSONB), re.message, re.file, re.line, " ++
    "re.containment_path, re.containing_class, re.name FROM resource_events AS re " ++
    "WHERE reports.id = re.report_id) AS t) AS event_data)", ["reports"]⟩

def reportsQuery : QueryRec V :=
  entity V "reports"
    [("hash", column .string (hashAsStr "reports" "hash") ["reports"]),
     ("certname", column .string (keyword "reports" "certname") ["reports"]),
     ("noop_pending", column .boolean (keyword "reports" "noop_pending") ["reports"]),
     ("puppet_version", column .string (keyword "reports" "puppet_version") ["reports"]),
     ("report_format", column .numeric (keyword "reports" "report_format") ["reports"]),
     ("configuration_version",
       column .string (keyword "reports" "configuration_version") ["reports"]),
     ("start_time", column .timestamp (keyword "reports" "start_time") ["reports"]),
     ("end_time", column .timestamp (keyword "reports" "end_time") ["reports"]),
     ("producer_timestamp",
       column .timestamp (keyword "reports" "producer_timestamp") ["reports"]),
     ("producer", column .string (keyword "producers" "name") ["producers"]),
     ("corrective_change", column .string (keyword "reports" "corrective_change") ["reports"]),
     ("metrics", hidden .json (reportData "metrics") ["reports"]),
     ("logs", hidden .json (reportData "logs") ["reports"]),
     ("receive_time", column .timestamp (keyword "reports" "receive_time") ["reports"]),
     ("transaction_uuid", column .string (uuidAsStr "reports" "transaction_uuid") ["reports"]),
     ("catalog_uuid", column .string (uuidAsStr "reports" "catalog_uuid") ["reports"]),
     ("noop", column .boolean (keyword "reports" "noop") ["reports"]),
     ("code_id", column .string (keyword "reports" "code_id") ["reports"]),
     ("job_id", column .string (keyword "reports" "job_id") ["reports"]),
     ("cached_catalog_status",
       column .string (keyword "reports" "cached_catalog_status") ["reports"]),
     ("environment", column .string (keyword "environments" "environment") ["environments"]),
     ("status", column .string (keyword "report_statuses" "status") ["report_statuses"]),
     ("type", column .string (keyword "reports" "report_type") ["reports"]),
     ("latest_report?",
       { column .string (keyword "reports" "latest") ["reports"] with unprojectable := true }),
     ("resource_events", hidden .json reportEvents ["reports"])]
    [table "reports"]
    [leftJoin (table "environments") (on ("environments", "id") ("reports", "environment_id")),
     leftJoin (table "producers") (on ("producers", "id") ("reports", "producer_id")),
     leftJoin (table "report_statuses") (on ("reports", "status_id") ("report_statuses", "id"))]
    ["reports"] none

def catalogResources : Field :=
  .hsql ⟨"(SELECT ROW_TO_JSON(resource_data) FROM (SELECT JSON_AGG(ROW_TO_JSON(t)) AS data, " ++
    hashAsHref "c.certname" "catalogs" "resources" ++ " AS href FROM (SELECT " ++
    "ENCODE(CAST(cr.resource AS BYTEA), 'hex') AS resource, cr.type, cr.title, cr.tags, " ++
    "cr.exported, cr.file, cr.line, CAST(rpc.parameters AS JSON) AS parameters " ++
    "FROM catalog_resources AS cr INNER JOIN resource_params_cache AS rpc " ++
    "ON rpc.resource = cr.resource WHERE cr.certname_id = certnames.id) AS t) AS resource_data)",
    ["c", "certnames"]⟩

def catalogEdges : Field :=
  .hsql ⟨"(SELECT ROW_TO_JSON(edge_data) FROM (SELECT JSON_AGG(ROW_TO_JSON(t)) AS data, " ++
    hashAsHref "c.certname" "catalogs" "edges" ++ " AS href FROM (SELECT sources.type AS " ++
    "source_type, sources.title AS source_title, targets.type AS target_type, " ++
    "targets.title AS target_title, edges.type AS relationship FROM edges " ++
    "INNER JOIN catalog_resources AS sources ON edges.source = sources.resource AND " ++
    "sources.certname_id = certnames.id INNER JOIN catalog_resources AS targets ON " ++
    "edges.target = targets.resource AND targets.certname_id = certnames.id " ++
    "WHERE edges.certname = c.certname) AS t) AS edge_data)", ["c", "certnames"]⟩

def catalogQuery : QueryRec V :=
  entity V "catalog"
    [("version", column .string (keyword "c" "catalog_version") ["c"]),
     ("certname", column .string (keyword "c" "certname") ["c"]),
     ("hash", column .string (hashAsStr "c" "hash") ["c"]),
     ("transaction_uuid", column .string (uuidAsStr "c" "transaction_uuid") ["c"]),
     ("catalog_uuid", column .string (uuidAsStr "c" "catalog_uuid") ["c"]),
     ("code_id", column .string (keyword "c" "code_id") ["c"]),
     ("job_id", column .string (keyword "c" "job_id") ["c"]),
     ("environment", column .string (keyword "e" "environment") ["e"]),
     ("producer_timestamp", column .timestamp (keyword "c" "producer_timestamp") ["c"]),
     ("producer", column .string (keyword "producers" "name") ["producers"]),
     ("resources", hidden .json catalogResources ["c", "certnames"]),
     ("edges", hidden .json catalogEdges ["c", "certnames"])]
    [aliased "catalogs" "c"]
    [leftJoin (aliased "environments" "e") (on ("c", "environment_id") ("e", "id")),
     leftJoin (table "certnames") (on ("c", "certname") ("certnames", "certname")),
     leftJoin (table "producers") (on ("producers", "id") ("c", "producer_id"))]
    ["catalogs"] none

def catalogInputContentsQuery : QueryRec V :=
  entity V "catalog-input-contents"
    [("certname", column .string (keyword "certnames" "certname") ["certnames"]),
     ("producer_timestamp",
       column .timestamp (keyword "certnames" "catalog_inputs_timestamp") ["certnames"]),
     ("catalog_uuid", column .string (uuidAsStr "certnames" "catalog_inputs_uuid") ["certnames"]),
     ("name", column .string (keyword "catalog_inputs" "name") ["catalog_inputs"]),
     ("type", column .string (keyword "catalog_inputs" "type") ["catalog_inputs"])]
    [table "catalog_inputs"]
    [leftJoin (table "certnames") (on ("certnames", "id") ("catalog_inputs", "certname_id"))]
    ["catalog_inputs"] none

def catalogInputsQuery : QueryRec V :=
  entity V "catalog-inputs"
    [("certname", column .string (keyword "certnames" "certname") ["certnames"]),
     ("producer_timestamp",
       column .timestamp (keyword "certnames" "catalog_inputs_timestamp") ["certnames"]),
     ("catalog_uuid", column .string (uuidAsStr "certnames" "catalog_inputs_uuid") ["certnames"]),
     ("inputs", column .array (keyword "ci" "inputs") ["ci"])]
    [table "certnames"]
    [⟨.join, aliased ("(SELECT certname_id, ARRAY_AGG(ARRAY[catalog_inputs.type, name]) AS inputs " ++
        "FROM catalog_inputs GROUP BY certname_id)") "ci",
      on ("certnames", "id") ("ci", "certname_id")⟩]
    ["certnames"] (some ⟨"certnames.catalog_inputs_timestamp IS NOT NULL", ["certnames"]⟩)

def packageInventoryQuery : QueryRec V :=
  entity V "package-inventory"
    [("certname", column .string (keyword "certnames" "certname") ["certnames", "cp"]),
     ("package_name", column .string (keyword "p" "name") ["p"]),
     ("version", column .string (keyword "p" "version") ["p"]),
     ("provider", column .string (keyword "p" "provider") ["p"])]
    [aliased "packages" "p"]
    [⟨.join, aliased "certname_packages" "cp", on ("cp", "package_id") ("p", "id")⟩,
     ⟨.join, table "certnames", on ("cp", "certname_id") ("certnames", "id")⟩]
    ["packages"] none

/-- The facts of a factset. -/
def factsetFacts : Field :=
  .hsql ⟨"(SELECT ROW_TO_JSON(facts_data) FROM (SELECT JSON_AGG(JSON_BUILD_OBJECT('name', t.name, " ++
    "'value', t.value)) AS data, " ++ hashAsHref "fs.certname" "factsets" "facts" ++
    " AS href FROM (SELECT key AS name, value, fs.certname FROM (SELECT * FROM " ++
    "JSONB_EACH(fs.stable) UNION ALL SELECT * FROM JSONB_EACH(fs.volatile)) AS t_union) AS t) " ++
    "AS facts_data)", ["fs"]⟩

def factsetsProjections : List (String × Column) :=
  [("timestamp", column .timestamp (.keyword none "timestamp") ["fs"]),
   ("facts", column .queryableJson factsetFacts ["fs"]),
   ("certname", column .string (keyword "fs" "certname") ["fs"]),
   ("hash", column .string (hashAsStr "fs" "hash") ["fs"]),
   ("producer_timestamp", column .timestamp (keyword "fs" "producer_timestamp") ["fs"]),
   ("producer", column .string (keyword "producers" "name") ["producers"]),
   ("environment", column .string (keyword "environments" "environment") ["environments"])]

def factsetsJoins : List Join :=
  [leftJoin (table "environments") (on ("fs", "environment_id") ("environments", "id")),
   leftJoin (table "producers") (on ("producers", "id") ("fs", "producer_id"))]

def factsetsQuery : QueryRec V :=
  entity V "factsets" factsetsProjections [aliased "factsets" "fs"] factsetsJoins ["factsets"] none

def factsetsWithPackagesQuery : QueryRec V :=
  entity V "factsets-with-packages"
    (factsetsProjections ++
      [("package_inventory", hidden .array (keyword "package_inventory" "packages")
        ["certnames", "package_inventory"])])
    [aliased "factsets" "fs"]
    (factsetsJoins ++
      [leftJoin (table "certnames") (on ("certnames", "certname") ("fs", "certname")),
       leftJoin (aliased ("(SELECT certname_packages.certname_id AS certname_id, " ++
           "ARRAY_AGG(p.triple) AS packages FROM certname_packages LEFT JOIN (SELECT id, " ++
           "ARRAY[name, version, provider] AS triple FROM packages) AS p " ++
           "ON p.id = certname_packages.package_id GROUP BY certname_id)") "package_inventory")
         (on ("package_inventory", "certname_id") ("certnames", "id"))])
    ["factsets"] none

/-- The query records with `:can-drop-unused-joins?`. -/
def optedIn : List (QueryRec V) :=
  [inventoryQuery V, nodesQuery V, nodesQueryWithFactExpiration V, factPathsQuery V, factsQuery V,
   factContentsQuery V, reportsQuery V, catalogQuery V, catalogInputContentsQuery V,
   catalogInputsQuery V, packageInventoryQuery V, factsetsQuery V, factsetsWithPackagesQuery V]

end OpenVoxDB.Entities
