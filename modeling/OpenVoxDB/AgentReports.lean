import OpenVoxDB.DefaultReports

/-!
# The reports of agents

The queries of the documentation, and what the default filter on report types is
to make of them: a filter over reports that does not mention the type is
restricted, at every depth, and nothing else changes.
-/

namespace OpenVoxDB.DefaultReports

/-! ## The documented queries -/

/-- A field: a column, or `["fact" name]` and its kind. -/
inductive Field where
  | column (name : String)
  | applied (head : String) (args : List String)
  deriving DecidableEq, Repr

def Field.json : Field → Json
  | column name => .str name
  | applied head args => .arr (.str head :: args.map .str)

/-- The fields of an `in` with a subquery. -/
inductive Columns where
  | one (name : String)
  | many (names : List String)
  deriving DecidableEq, Repr

def Columns.json : Columns → Json
  | one name => .str name
  | many names => .arr (names.map .str)

def Columns.contains : Columns → String → Bool
  | one name, s => name = s
  | many names, s => names.contains s

inductive Comparison where
  | eq
  | gt
  | lt
  | le
  | ge
  | regexp
  | arrayRegexp
  deriving DecidableEq, Repr

def Comparison.text : Comparison → String
  | eq => "="
  | gt => ">"
  | lt => "<"
  | le => "<="
  | ge => ">="
  | regexp => "~"
  | arrayRegexp => "~>"

/-- The clauses on one field. -/
inductive Test where
  | compare (op : Comparison) (field : Field) (value : Json)
  | isNull (field : Field) (value : Bool)
  | inArray (field : Field) (values : List Json)
  deriving DecidableEq, Repr

def Test.field : Test → Field
  | compare _ field _ | isNull field _ | inArray field _ => field

def Test.json : Test → Json
  | compare op field value => .arr [.str op.text, field.json, value]
  | isNull field value => .arr [.str "null?", field.json, .bool value]
  | inArray field values =>
    .arr [.str "in", field.json, .arr [.str "array", .arr values]]

inductive Junction where
  | and
  | or
  deriving DecidableEq, Repr

def Junction.text : Junction → String
  | and => "and"
  | or => "or"

inductive PagingKind where
  | limit
  | offset
  | orderBy
  | groupBy
  deriving DecidableEq, Repr

def PagingKind.text : PagingKind → String
  | limit => "limit"
  | offset => "offset"
  | orderBy => "order_by"
  | groupBy => "group_by"

structure Paging where
  kind : PagingKind
  args : List Json
  deriving DecidableEq, Repr

def Paging.json (p : Paging) : Json := .arr (.str p.kind.text :: p.args)

/-- What a subquery is on: `from` an entity, or a `select_` of one. -/
inductive Source where
  | entity (name : String)
  | select (name : String)
  deriving DecidableEq, Repr

def Source.qrec : Source → Option QueryRec
  | entity name => userNameToQueryRecName.lookup ("select_" ++ name)
  | select name => userNameToQueryRecName.lookup name

def Source.reports (source : Source) : Bool := qrecInvolvingReports source.qrec

/-- What follows the fields of an `in`. -/
def Source.json (source : Source) (extracted : Json) (filter grouping paging : List Json) : Json :=
  match source with
  | entity name => .arr (.str "from" :: .str name ::
      .arr (.str "extract" :: extracted :: (filter ++ grouping)) :: paging)
  | select name => .arr (.str "extract" :: extracted ::
      .arr (.str name :: (filter ++ paging)) :: grouping)

/-- A filter. An `in` with a subquery has the filter, the grouping and the paging of its
`extract` where the query gives them. -/
inductive Query where
  | nil
  | empty
  | test (t : Test)
  | junction (j : Junction) (qs : List Query)
  | not (q : Query)
  | within (columns : Columns) (source : Source) (extracted : Json) (filter : Option Query)
      (grouping : Option (List Json)) (paging : List Paging)
  | subquery (entity : String) (q : Query)
  deriving Repr

def groupingJson : Option (List Json) → List Json
  | none => []
  | some args => [.arr (.str "group_by" :: args)]

mutual

def Query.json : Query → Json
  | .nil => .null
  | .empty => .arr []
  | .test t => t.json
  | .junction j qs => .arr (.str j.text :: jsonAll qs)
  | .not q => .arr [.str "not", q.json]
  | .within columns source extracted filter grouping paging =>
    .arr [.str "in", columns.json, source.json extracted (jsonFilter filter)
      (groupingJson grouping) (paging.map Paging.json)]
  | .subquery entity q => .arr [.str "subquery", .str entity, q.json]

def jsonAll : List Query → List Json
  | [] => []
  | q :: qs => q.json :: jsonAll qs

def jsonFilter : Option Query → List Json
  | none => []
  | some q => [q.json]

end

/-- A query of an endpoint, behind its `from`. -/
inductive TopQuery where
  | bare (q : Query)
  | extract (fields : Json) (filter : Option Query) (paging : List Paging)
  deriving Repr

def TopQuery.json : TopQuery → Json
  | bare q => q.json
  | extract fields filter paging =>
    .arr (.str "extract" :: fields :: (jsonFilter filter ++ paging.map Paging.json))

/-! ## The restriction to agents -/

def Test.mentionsType (t : Test) : Bool := t.field = .column "type"

mutual

/-- The filter mentions the type; its subqueries do not count, the fields they are compared
with do. -/
def Query.mentionsType : Query → Bool
  | .nil | .empty | .subquery _ _ => false
  | .test t => t.mentionsType
  | .junction _ qs => anyMentionsType qs
  | .not q => q.mentionsType
  | .within columns _ _ _ _ _ => columns.contains "type"

def anyMentionsType : List Query → Bool
  | [] => false
  | q :: qs => q.mentionsType || anyMentionsType qs

end

/-- `["=" "type" "agent"]` -/
def Query.ofAgents : Query := .test (.compare .eq (.column "type") (.str "agent"))

/-- The filter with the conjunct. -/
def Query.andOfAgents : Query → Query
  | .nil | .empty => .ofAgents
  | q => .junction .and [q, .ofAgents]

/-- The restriction of a filter, over reports or not. -/
def Query.restricted (reports : Bool) (q : Query) : Query :=
  if reports && !q.mentionsType then q.andOfAgents else q

mutual

/-- Every subquery has the filter that it is to have. -/
def Query.onlyAgents : Query → Query
  | .nil => .nil
  | .empty => .empty
  | .test t => .test t
  | .junction j qs => .junction j (allOnlyAgents qs)
  | .not q => .not q.onlyAgents
  | .within columns source extracted filter grouping paging =>
    .within columns source extracted (filterOnlyAgents source.reports filter) grouping paging
  | .subquery entity q =>
    .subquery entity (q.onlyAgents.restricted (Source.entity entity).reports)

def allOnlyAgents : List Query → List Query
  | [] => []
  | q :: qs => q.onlyAgents :: allOnlyAgents qs

def filterOnlyAgents (reports : Bool) : Option Query → Option Query
  | none => if reports then some .ofAgents else none
  | some q => some (q.onlyAgents.restricted reports)

end

def TopQuery.onlyAgents (reports : Bool) : TopQuery → TopQuery
  | bare q => bare (q.onlyAgents.restricted reports)
  | extract fields filter paging => extract fields (filterOnlyAgents reports filter) paging

/-- The query is rewritten to what it is to be, and that is not rewritten again. -/
def AddsAgentFilter (qrec : Option QueryRec) (query : TopQuery) : Prop :=
  let reports := qrecInvolvingReports qrec
  maybeAddAgentReportFilterToQuery qrec query.json = .ok (query.onlyAgents reports).json ∧
    maybeAddAgentReportFilterToQuery qrec (query.onlyAgents reports).json =
      .ok (query.onlyAgents reports).json

/-! ## The queries that are handled -/

mutual

/-- The search finds a mention of the type: it does not look at the fields of subqueries. -/
def Query.findsType : Query → Bool
  | .nil | .empty | .subquery _ _ | .within _ _ _ _ _ _ => false
  | .test t => t.mentionsType
  | .junction _ qs => anyFindsType qs
  | .not q => q.findsType

/-- The search goes from left to right as far as it recognizes the clauses. -/
def anyFindsType : List Query → Bool
  | [] => false
  | q :: qs => q.findsType || (q.legible && anyFindsType qs)

/-- The search recognizes the clauses: the subqueries among them have a filter, their own or
the default one, or at least paging where they are a `select_`. -/
def Query.legible : Query → Bool
  | .nil | .empty | .test _ | .subquery _ _ => true
  | .junction _ qs => allLegible qs
  | .not q => q.legible
  | .within _ (.entity name) _ filter _ _ => filter.isSome || (Source.entity name).reports
  | .within _ (.select name) _ filter _ paging =>
    filter.isSome || (Source.select name).reports || !paging.isEmpty

def allLegible : List Query → Bool
  | [] => true
  | q :: qs => q.legible && allLegible qs

end

/-- The search finds the type where it is mentioned. -/
def Query.searchable (reports : Bool) (q : Query) : Bool :=
  !reports || q.findsType || (q.legible && !q.mentionsType)

mutual

/-- No subquery is grouped, and the filters over reports are searchable. -/
def Query.handled : Query → Bool
  | .nil | .empty | .test _ => true
  | .junction _ qs => allHandled qs
  | .not q => q.handled
  | .within _ source _ filter grouping _ =>
    grouping.isNone && filterHandled source.reports filter
  | .subquery entity q => q.handled && q.searchable (Source.entity entity).reports

def allHandled : List Query → Bool
  | [] => true
  | q :: qs => q.handled && allHandled qs

def filterHandled (reports : Bool) : Option Query → Bool
  | none => true
  | some q => q.handled && q.searchable reports

end

def TopQuery.handled (reports : Bool) : TopQuery → Bool
  | bare q => q.handled && q.searchable reports
  | extract _ filter _ => filterHandled reports filter

end OpenVoxDB.DefaultReports
