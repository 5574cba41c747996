import OpenVoxDB.QueryExpansion

/-!
# Query plans

The records of the query plan. The values that come from the user's query are
left open; SQL that has no placeholder is a text with the tables it names.
-/

namespace OpenVoxDB.Plans

open QueryExpansion (FieldType Part)

/-- A piece of SQL without placeholders, and the tables it refers to. -/
structure Sql where
  text : String
  tables : List String
  deriving DecidableEq, Repr

/-- The field of a projection: a keyword `table.column`, or other SQL. -/
inductive Field where
  | keyword (table : Option String) (column : String)
  | hsql (sql : Sql)
  deriving DecidableEq, Repr

namespace Field

def text : Field → String
  | keyword (some table) column => table ++ "." ++ column
  | keyword none column => column
  | hsql sql => sql.text

/-- The tables that a field refers to. -/
def tables : Field → List String
  | keyword table _ => table.toList
  | hsql sql => sql.tables

end Field

/-- A projection of a query record; `depends` names those that are selected with it. -/
structure Column where
  type : FieldType
  field : Field
  joinDeps : Option (List String)
  queryable : Bool := true
  unprojectable : Bool := false
  depends : List String := []
  deriving DecidableEq, Repr

/-- A step of a path into an array or an object. -/
inductive Step where
  | name (s : String)
  | index (n : Nat)
  deriving DecidableEq, Repr

/-- An argument of a function after its column. -/
inductive Arg where
  | text (s : String)
  | number (n : Int)
  | boolean (b : Bool)
  | null
  deriving DecidableEq, Repr

/-- A function call in the columns of an `extract`. -/
structure FnExpression where
  function : String
  column : Field
  joinDeps : List String
  params : List Arg
  deriving DecidableEq, Repr

/-- A table of a `FROM` or a join, with its alias. -/
structure Table where
  source : Sql
  name : String
  deriving DecidableEq, Repr

/-- The kinds of join of the query records. -/
inductive JoinKind where
  | join
  | leftJoin
  | innerJoin
  deriving DecidableEq, Repr

structure Join where
  kind : JoinKind
  table : Table
  on : Sql
  deriving DecidableEq, Repr

/-- The tables that a query selects from: those of its query record, or the factsets with
one fact picked out of them, for facts of a given name. -/
inductive FromTables (V : Type) where
  | tables (items : List Table)
  | factNamed (name : V)
  deriving DecidableEq, Repr

structure Selection (V : Type) where
  source : FromTables V
  joins : List Join
  whereSql : Option Sql
  deriving DecidableEq, Repr

/-- A query record but for its filter. -/
structure QueryRec (V : Type) where
  name : String
  subquery : Bool
  canDropUnusedJoins : Bool
  projections : List (String × Column)
  selection : Selection V
  sourceTables : List String
  projectedFields : List (String × Column)
  call : List FnExpression
  groupBy : List Field
  deriving DecidableEq, Repr

/-- The nodes of a filter; `inSub` holds the query record of its subquery and the filter
of that. -/
inductive Plan (V : Type) where
  | fnBinary (operator function : String) (args : List String) (value : V)
  | binary (operator : String) (column : Column) (value : V)
  | regex (column : Column) (value : V)
  | inArray (column : Column) (value : V)
  | arrayBinary (column : Column) (value : V)
  | arrayRegex (column : Column) (value : V)
  | null (column : Column) (isNull : Bool)
  | pathArrayMatch (column : Column) (path : List Step)
  | pathArrayAnyMatch (column : Column) (paths : List (List Step))
  | pathArrayRegexMatch (column : Column) (path : List Step)
  | jsonContains (field : String) (column : Column) (value : V)
  | jsonbPathBinary (operator field : String) (column : Column) (value : V)
  | jsonbScalarRegex (column : Column) (value : V)
  | inSub (columns : List Column) (query : QueryRec V) (filter : Option (Plan V))
  | and (clauses : List (Plan V))
  | or (clauses : List (Plan V))
  | not (clause : Plan V)

structure Query (V : Type) where
  query : QueryRec V
  filter : Option (Plan V)

/-- The induction over a filter. -/
theorem Plan.ind {V : Type} {P : Plan V → Prop}
    (fnBinary : ∀ operator function args value, P (.fnBinary operator function args value))
    (binary : ∀ operator column value, P (.binary operator column value))
    (regex : ∀ column value, P (.regex column value))
    (inArray : ∀ column value, P (.inArray column value))
    (arrayBinary : ∀ column value, P (.arrayBinary column value))
    (arrayRegex : ∀ column value, P (.arrayRegex column value))
    (null : ∀ column isNull, P (.null column isNull))
    (pathArrayMatch : ∀ column path, P (.pathArrayMatch column path))
    (pathArrayAnyMatch : ∀ column paths, P (.pathArrayAnyMatch column paths))
    (pathArrayRegexMatch : ∀ column path, P (.pathArrayRegexMatch column path))
    (jsonContains : ∀ field column value, P (.jsonContains field column value))
    (jsonbPathBinary : ∀ operator field column value,
      P (.jsonbPathBinary operator field column value))
    (jsonbScalarRegex : ∀ column value, P (.jsonbScalarRegex column value))
    (inSub : ∀ columns query filter, (∀ plan ∈ filter, P plan) → P (.inSub columns query filter))
    (and : ∀ clauses, (∀ plan ∈ clauses, P plan) → P (.and clauses))
    (or : ∀ clauses, (∀ plan ∈ clauses, P plan) → P (.or clauses))
    (not : ∀ clause, P clause → P (.not clause)) : ∀ plan, P plan :=
  Plan.rec (motive_1 := P) (motive_2 := fun filter => ∀ plan ∈ filter, P plan)
    (motive_3 := fun clauses => ∀ plan ∈ clauses, P plan) fnBinary binary regex inArray
    arrayBinary arrayRegex null pathArrayMatch pathArrayAnyMatch pathArrayRegexMatch
    jsonContains jsonbPathBinary jsonbScalarRegex inSub and or not (fun _ h => nomatch h)
    (fun _ h _ hmem => Option.mem_some.mp hmem ▸ h) (fun _ h => nomatch h)
    (fun _ _ hplan hplans => List.forall_mem_cons.mpr ⟨hplan, hplans⟩)

end OpenVoxDB.Plans
