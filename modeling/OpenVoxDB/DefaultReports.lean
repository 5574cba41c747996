import OpenVoxDB.Json

/-!
# The default filter on report types

Before a query is compiled, the filters over reports that do not mention a type
are restricted to the reports of agents. One matcher rewrites the subqueries,
another one looks for a mention of the type, and both take a query apart by
their own rows. Here `none` is the mark of an elided filter.
-/

namespace OpenVoxDB.DefaultReports

/-- What the rewriting throws. -/
inductive Thrown where
  | unrecognized (clause : Json)
  | unrecognizedIn (clause query : Json)
  | notAString (name : Json)
  deriving DecidableEq, Repr

/-! ## The entities -/

/-- What is read of a query record. -/
structure QueryRec where
  sourceTables : List String
  deriving DecidableEq, Repr

/-- `user-name->query-rec-name`; a keyword keeps its colon. -/
def userNameToQueryRecName : List (String × QueryRec) :=
  [("select_catalogs", ⟨[":catalogs"]⟩),
   ("select_catalog_input_contents", ⟨["catalog_inputs"]⟩),
   ("select_catalog_inputs", ⟨["certnames"]⟩),
   ("select_edges", ⟨[":edges"]⟩),
   ("select_environments", ⟨[":environments"]⟩),
   ("select_producers", ⟨[":producers"]⟩),
   ("select_packages", ⟨[":packages"]⟩),
   ("select_package_inventory", ⟨[":packages"]⟩),
   ("select_events", ⟨[":resource_events"]⟩),
   ("select_facts", ⟨[":factsets"]⟩),
   ("select_factsets", ⟨[":factsets"]⟩),
   ("select_fact_contents", ⟨[":factsets", ":fact_paths"]⟩),
   ("select_fact_paths", ⟨[":fact_paths"]⟩),
   ("select_nodes", ⟨[":certnames"]⟩),
   ("select_not_active_nodes", ⟨[":not_active_nodes"]⟩),
   ("select_inactive_nodes", ⟨[":inactive_nodes"]⟩),
   ("select_latest_report", ⟨[":reports_latest"]⟩),
   ("select_latest_report_id", ⟨[":reports_latest"]⟩),
   ("select_params", ⟨[":resource_params"]⟩),
   ("select_reports", ⟨[":reports"]⟩),
   ("select_inventory", ⟨[]⟩),
   ("select_resources", ⟨[":catalog_resources"]⟩)]

/-- `qrec-involving-reports?`; there is no record for an unknown name. -/
def qrecInvolvingReports : Option QueryRec → Bool
  | none => false
  | some qrec => qrec.sourceTables.contains ":reports"

/-- `qrec-for-select-entity` -/
def qrecForSelectEntity : Json → Except Thrown (Option QueryRec)
  | .str name => .ok (userNameToQueryRecName.lookup name)
  | name => .error (.notAString name)

/-- `qrec-for-entity` -/
def qrecForEntity : Json → Except Thrown (Option QueryRec)
  | .str name => .ok (userNameToQueryRecName.lookup ("select_" ++ name))
  | name => .error (.notAString name)

/-! ## The matchers -/

def comparisons : List String := ["=", ">", "<", "<=", ">=", "~", "~>"]

/-- The first of a clause, where it is a string. -/
def firstText : Json → Option String
  | .arr (.str s :: _) => some s
  | _ => none

/-- `is-page-order-opt?`. A number or boolean among the clauses makes the source's `first` throw;
here it fails the guard, and no other row takes such clauses. -/
def isPageOrderOpt (opts : List Json) : Bool :=
  opts.all fun opt => (firstText opt).any ["limit", "group_by", "order_by", "offset"].contains

mutual

/-- `mentions-report-type?` -/
def mentionsReportType : Json → Except Thrown Bool
  | .null => .ok false
  | .arr [] => .ok false
  | .arr [.str "not", expr] => mentionsReportType expr
  | .arr [.str "null?", field, _] => .ok (field = .str "type")
  | .arr [.str "in", field, .arr (.str "array" :: _)] => .ok (field = .str "type")
  | .arr [.str "in", _, .arr (.str "from" :: _ :: .arr [.str "extract", _, _] :: _)] => .ok false
  | .arr [.str "in", _, .arr [.str "extract", _, .arr (_ :: _ :: _)]] => .ok false
  | .arr [.str "subquery", _, _] => .ok false
  | .arr (.str op :: args) =>
    if ["and", "or"].contains op then mentionsAny args
    else
      match comparisons.contains op, args with
      | true, [field, _] => .ok (field = .str "type")
      | _, _ => .error (.unrecognized (.arr (.str op :: args)))
  | clause => .error (.unrecognized clause)

/-- `some` stops at the first mention. -/
def mentionsAny : List Json → Except Thrown Bool
  | [] => .ok false
  | expr :: exprs => do
    if ← mentionsReportType expr then return true
    mentionsAny exprs

end

/-- `["=" "type" "agent"]` -/
def agentFilter : Json := .arr [.str "=", .str "type", .str "agent"]

/-- `(seq expr)` -/
def isBlank : Json → Bool
  | .null | .arr [] => true
  | _ => false

/-- `maybe-restrict-expr-to-agent-reports` -/
def maybeRestrictExprToAgentReports (qrec : Option QueryRec) :
    Option Json → Except Thrown (Option Json)
  | none => .ok (if qrecInvolvingReports qrec then some agentFilter else none)
  | some expr => do
    if !qrecInvolvingReports qrec then return some expr
    if ← mentionsReportType expr then return some expr
    if isBlank expr then return some agentFilter
    return some (.arr [.str "and", expr, agentFilter])

mutual

/-- `maybe-add-agent-report-filter-to-subqueries` -/
def maybeAddAgentReportFilterToSubqueries : Json → Except Thrown Json
  | .null => .ok .null
  | .arr [] => .ok (.arr [])
  | .arr [.str "null?", field, b] => .ok (.arr [.str "null?", field, b])
  | .arr [.str "not", expr] => do
    let expr ← maybeAddAgentReportFilterToSubqueries expr
    return .arr [.str "not", expr]
  | .arr [.str "in", field, .arr (.str "array" :: values)] =>
    .ok (.arr [.str "in", field, .arr (.str "array" :: values)])
  | .arr [.str "in", fields, .arr (.str "from" :: entity :: .arr [.str "extract", subFields] ::
      opts)] =>
    if isPageOrderOpt opts then do
      let qrec ← qrecForEntity entity
      let expr ← maybeRestrictExprToAgentReports qrec none
      return .arr [.str "in", fields, .arr (.str "from" :: entity ::
        .arr (.str "extract" :: subFields :: expr.toList) :: opts)]
    else
      .error (.unrecognized (.arr [.str "in", fields, .arr (.str "from" :: entity ::
        .arr [.str "extract", subFields] :: opts)]))
  | .arr [.str "in", fields, .arr (.str "from" :: entity ::
      .arr [.str "extract", subFields, expr] :: opts)] =>
    if isPageOrderOpt opts then do
      let qrec ← qrecForEntity entity
      let expr ← maybeAddAgentReportFilterToSubqueries expr
      let expr ← maybeRestrictExprToAgentReports qrec (some expr)
      return .arr [.str "in", fields, .arr (.str "from" :: entity ::
        .arr (.str "extract" :: subFields :: expr.toList) :: opts)]
    else
      .error (.unrecognized (.arr [.str "in", fields, .arr (.str "from" :: entity ::
        .arr [.str "extract", subFields, expr] :: opts)]))
  | .arr [.str "in", fields, .arr [.str "extract", subFields, .arr [selectEntity]]] => do
    let qrec ← qrecForSelectEntity selectEntity
    let expr ← maybeRestrictExprToAgentReports qrec none
    return .arr [.str "in", fields,
      .arr [.str "extract", subFields, .arr (selectEntity :: expr.toList)]]
  | .arr [.str "in", fields, .arr [.str "extract", subFields, .arr (selectEntity :: x :: opts)]] =>
    -- the guard of the row without a filter
    if isPageOrderOpt (x :: opts) then do
      let qrec ← qrecForSelectEntity selectEntity
      let expr ← maybeRestrictExprToAgentReports qrec none
      return .arr [.str "in", fields,
        .arr [.str "extract", subFields, .arr (selectEntity :: (expr.toList ++ x :: opts))]]
    else do
      let qrec ← qrecForSelectEntity selectEntity
      let expr ← maybeAddAgentReportFilterToSubqueries x
      let expr ← maybeRestrictExprToAgentReports qrec (some expr)
      return .arr [.str "in", fields,
        .arr [.str "extract", subFields, .arr (selectEntity :: (expr.toList ++ opts))]]
  | .arr [.str "subquery", entity, expr] => do
    let qrec ← qrecForEntity entity
    let expr ← maybeAddAgentReportFilterToSubqueries expr
    let expr ← maybeRestrictExprToAgentReports qrec (some expr)
    return .arr (.str "subquery" :: entity :: expr.toList)
  | .arr (.str op :: args) =>
    if ["and", "or"].contains op then do
      let exprs ← maybeAddAgentReportFilterToAll args
      return .arr (.str op :: exprs)
    else
      match comparisons.contains op, args with
      | true, [field, value] => .ok (.arr [.str op, field, value])
      | _, _ => .error (.unrecognized (.arr (.str op :: args)))
  | clause => .error (.unrecognized clause)

/-- `mapv` of the rewriting. -/
def maybeAddAgentReportFilterToAll : List Json → Except Thrown (List Json)
  | [] => .ok []
  | expr :: exprs => do
    let expr ← maybeAddAgentReportFilterToSubqueries expr
    let exprs ← maybeAddAgentReportFilterToAll exprs
    return expr :: exprs

end

/-- `maybe-add-agent-report-filter` -/
def maybeAddAgentReportFilter (qrec : Option QueryRec) :
    Option Json → Except Thrown (Option Json)
  | none => maybeRestrictExprToAgentReports qrec none
  | some ast => do
    let ast ← maybeAddAgentReportFilterToSubqueries ast
    maybeRestrictExprToAgentReports qrec (some ast)

/-- A top-level `extract` takes its filter where its next clause is none of the paging. -/
def addToTopLevel (qrec : Option QueryRec) (ast : Json) : Except Thrown Json :=
  match ast with
  | .arr (.str "extract" :: fields :: args) =>
    if isPageOrderOpt args then do
      let expr ← maybeAddAgentReportFilter qrec none
      return .arr (.str "extract" :: fields :: (expr.toList ++ args))
    else
      match args with
      | [] => .error (.unrecognized ast)
      | expr :: opts => do
        let expr ← maybeAddAgentReportFilter qrec (some expr)
        return .arr (.str "extract" :: fields :: (expr.toList ++ opts))
  | ast => do
    let expr ← maybeAddAgentReportFilter qrec (some ast)
    return expr.getD .null

/-- `maybe-add-agent-report-filter-to-query` -/
def maybeAddAgentReportFilterToQuery (qrec : Option QueryRec) (ast : Json) :
    Except Thrown Json :=
  match addToTopLevel qrec ast with
  | .error (.unrecognized clause) => .error (.unrecognizedIn clause ast)
  | result => result

end OpenVoxDB.DefaultReports
