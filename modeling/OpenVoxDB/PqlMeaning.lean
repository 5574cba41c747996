import Mathlib
import OpenVoxDB.Truth
import OpenVoxDB.PqlTotality

/-!
# What a PQL query selects

The meaning of a parse tree, read off the grammar, and the reading that
`query_eng/engine.clj` has of an AST query. Both give a selection: an entity, a
projection, a filter, a grouping and the paging. What a single comparison says of a
row, and how a row is matched with the rows of another query, is a parameter.
-/

namespace OpenVoxDB.Pql

/-- A filter that is absent keeps every row. -/
structure Selection (Row : Type) where
  entity : String
  columns : Option (List Json)
  filter : Option (Row → Truth)
  groupBy : Option (List Json)
  limit : List Json
  offset : List Json
  orderBy : List Json

/-- What comparisons and subqueries say of a row. -/
structure Model (Row : Type) where
  atom : Json → Row → Truth
  inQuery : Json → Selection Row → Row → Truth
  subquery : Selection Row → Row → Truth

/-! ## Meaning -/

def Paging.limit? : Paging → Option Json
  | .limit n => some (.int n.value)
  | _ => none

def Paging.offset? : Paging → Option Json
  | .offset n => some (.int n.value)
  | _ => none

def Paging.orderBy? : Paging → Option Json
  | .orderby first rest => some (.arr ((first :: rest).map transformOrderParam))
  | _ => none

def Clauses.pagingClauses : Clauses → List Paging
  | .groupby _ _ => []
  | .paging clauses => clauses

def Clauses.groupBy (json : JsonDecoder) : Clauses → Except InternalError (Option (List Json))
  | .groupby first rest => do
    let xs ← (first :: rest).mapM (transformColumn json)
    return some xs
  | .paging _ => .ok none

def Where.clauses : Where → Clauses
  | .all clauses => clauses
  | .expr _ clauses => clauses

section Meaning

variable {Row : Type} (json : JsonDecoder) (M : Model Row)

def Condexpression.meaning : Condexpression → Except InternalError (Row → Truth)
  | .notEqual f value => do
    let x ← transformLiteral json value
    return fun row => (M.atom (.arr [.str "=", transformField f, x]) row).not
  | .notRegexp f value => do
    let x ← transformLiteral json value
    return fun row => (M.atom (.arr [.str "~", transformField f, x]) row).not
  | c => do
    let x ← transformCondexpression json c
    return M.atom x

/-- The selection of an entity with these clauses. -/
def select (entity : String) (columns : Option (List Json)) (filter : Option (Row → Truth))
    (clauses : Clauses) : Except InternalError (Selection Row) := do
  let groupBy ← clauses.groupBy json
  return {
    entity := entity
    columns := columns
    filter := filter
    groupBy := groupBy
    limit := clauses.pagingClauses.filterMap Paging.limit?
    offset := clauses.pagingClauses.filterMap Paging.offset?
    orderBy := clauses.pagingClauses.filterMap Paging.orderBy? }

mutual

def ExprOr.meaning : ExprOr → Except InternalError (Row → Truth)
  | .single a => a.meaning
  | .or a b => do
    let f ← a.meaning
    let g ← b.meaning
    return fun row => (f row).or (g row)

def ExprAnd.meaning : ExprAnd → Except InternalError (Row → Truth)
  | .single a => a.meaning
  | .and a b => do
    let f ← a.meaning
    let g ← b.meaning
    return fun row => (f row).and (g row)

def ExprNot.meaning : ExprNot → Except InternalError (Row → Truth)
  | .not a => do
    let f ← a.meaning
    return fun row => (f row).not
  | .parens e => e.meaning
  | .cond c => c.meaning json M
  | .inQuery columns q => do
    let cols ← transformInColumns json columns
    let s ← q.meaning
    return M.inQuery cols s
  | .subquery entity w => do
    let s ← w.meaning entity none
    return M.subquery s

def Where.meaning (entity : String) (columns : Option (List Json)) :
    Where → Except InternalError (Selection Row)
  | .all clauses => select json entity columns none clauses
  | .expr e clauses => do
    let f ← e.meaning
    select json entity columns (some f) clauses

def From.meaning : From → Except InternalError (Selection Row)
  | .mk entity none w => w.meaning entity none
  | .mk entity (some columns) w => do
    let cols ← columns.mapM (transformColumn json)
    w.meaning entity (some cols)

end

end Meaning

/-! ## Reading -/

/-- The argument of a clause. -/
def clauseArg : Json → Option Json
  | .arr (_ :: arg :: _) => some arg
  | _ => none

def truthy : Json → Bool
  | .null | .bool false => false
  | _ => true

/-- `get-clause`, where `none` is a `bad-query-ex`. -/
def getClause (clause : String) (clauses : List Json) : Option (Option Json) :=
  match clauses.filter (tag · = some clause) with
  | [] => some none
  | [c] =>
    match clauseArg c with
    | some arg => if truthy arg then some (some arg) else none
    | none => none
  | _ => none

structure PagingMap where
  limit : Option Json
  offset : Option Json
  orderBy : Option Json

/-- `create-paging-map` -/
def createPagingMap (clauses : List Json) : Option PagingMap := do
  let limit ← getClause "limit" clauses
  let offset ← getClause "offset" clauses
  let orderBy ← getClause "order_by" clauses
  return ⟨limit, offset, orderBy⟩

def PagingMap.empty : PagingMap := ⟨none, none, none⟩

def selection {Row : Type} (entity : String) (columns : Option (List Json))
    (filter : Option (Row → Truth)) (groupBy : Option (List Json)) (paging : PagingMap) :
    Selection Row :=
  { entity := entity
    columns := columns
    filter := filter
    groupBy := groupBy
    limit := paging.limit.toList
    offset := paging.offset.toList
    orderBy := paging.orderBy.toList }

/-- `vector-maybe` -/
def vectorMaybe : Json → List Json
  | .arr xs => xs
  | x => [x]

def isExtract (expr : Json) : Bool := tag expr = some "extract"

def comparisonOperators : List String := ["=", "~", "~>", "<", "<=", ">", ">=", "null?"]

section Reading

variable {Row : Type} (M : Model Row)

mutual

/-- `user-node->plan-node` for a filter, and its SQL: `none` is an exception, `some none` is a
node that there is no case for, which is no filter. -/
def readNode : Json → Option (Option (Row → Truth))
  | .arr (.str op :: xs) =>
    if op = "and" then
      (readOperands xs).map fun fs => some fun row => Truth.all (fs.map (· row))
    else if op = "or" then
      (readOperands xs).map fun fs => some fun row => Truth.any (fs.map (· row))
    else if op = "not" then
      match xs with
      | [x] =>
        match readNode x with
        | some (some f) => some (some fun row => (f row).not)
        | _ => none
      | _ => some none
    else if op = "in" then
      match xs with
      | [_, .arr (.str "array" :: _)] => some (some (M.atom (.arr (.str op :: xs))))
      | [cols, .arr (.str "from" :: .str entity :: expr :: clauses)] =>
        (createFromNode entity expr clauses).map fun s => some (M.inQuery cols s)
      | [_, _] => none
      | _ => some none
    else if op = "subquery" then
      match xs with
      | [.str entity, expr] =>
        (readNode expr).map fun f =>
          some (M.subquery (selection entity none f none PagingMap.empty))
      | _ => some none
    else if op ∈ comparisonOperators ∧ xs.length = 2 then
      some (some (M.atom (.arr (.str op :: xs))))
    else some none
  | _ => some none

/-- The operands of `and` and `or`: no node may be missing. -/
def readOperands : List Json → Option (List (Row → Truth))
  | [] => some []
  | x :: xs =>
    match readNode x with
    | some (some f) => (readOperands xs).map (f :: ·)
    | _ => none

/-- `create-from-node` -/
def createFromNode (entity : String) (expr : Json) (clauses : List Json) :
    Option (Selection Row) :=
  (createPagingMap clauses).bind fun paging =>
    match expr with
    | .arr [.str "extract", columns] =>
      some (selection entity (some (vectorMaybe columns)) none none paging)
    | .arr (.str "extract" :: columns :: remainingExpr :: _) =>
      (readNode remainingExpr).map fun f =>
        selection entity (some (vectorMaybe columns)) f none paging
    | expr => (readNode expr).map fun f => selection entity none f none paging

end

structure QueryContext where
  entity : String
  remainingQuery : Json
  pagingClauses : PagingMap

/-- `parse-query-context`, where `none` is a `bad-query-ex`. -/
def parseQueryContext : Json → Option QueryContext
  | .arr (.str "from" :: .str entity :: remaining) =>
    match remaining with
    | [] => some ⟨entity, .arr [], PagingMap.empty⟩
    | c :: clauses =>
      if pagingClause c then (createPagingMap (c :: clauses)).map (⟨entity, .arr [], ·⟩)
      else
        match c with
        | .arr _ => (createPagingMap clauses).map (⟨entity, c, ·⟩)
        | _ => none
  | _ => none

/-- `user-node->plan-node` for the query after `from`: a query that there is no case for has no
filter. -/
def readRemaining (c : QueryContext) : Option (Selection Row) :=
  match c.remainingQuery with
  | .arr (.str "extract" :: columns :: rest) =>
    let columns := some (vectorMaybe columns)
    match rest with
    | [] => some (selection c.entity columns none none c.pagingClauses)
    | [.arr (.str "group_by" :: fields)] =>
      some (selection c.entity columns none (some fields) c.pagingClauses)
    | [expr] =>
      (readNode M expr).map fun f => selection c.entity columns f none c.pagingClauses
    | [expr, .arr (.str "group_by" :: fields)] =>
      (readNode M expr).map fun f =>
        selection c.entity columns f (some fields) c.pagingClauses
    | _ => some (selection c.entity none none none c.pagingClauses)
  | query => (readNode M query).map fun f => selection c.entity none f none c.pagingClauses

/-- The selection of a query. -/
def readQuery (ast : Json) : Option (Selection Row) := (parseQueryContext ast).bind (readRemaining M)

/-- The selection of a `from` after `in`. -/
def readFrom : Json → Option (Selection Row)
  | .arr (.str "from" :: .str entity :: expr :: clauses) => createFromNode M entity expr clauses
  | _ => none

/-- The selection of an implicit subquery. -/
def readSubquery : Json → Option (Selection Row)
  | .arr [.str "subquery", .str entity, expr] =>
    (readNode M expr).map fun f => selection entity none f none PagingMap.empty
  | _ => none

end Reading

end OpenVoxDB.Pql
