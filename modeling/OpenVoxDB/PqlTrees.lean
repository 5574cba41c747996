import Mathlib
import OpenVoxDB.Json
import OpenVoxDB.PqlFields

/-!
# PQL parse trees

The trees of the PQL grammar, one constructor for each alternative of a production,
and the functions of `pql/transform.clj`, which turn them into AST queries from the
leaves up. An AST query is a JSON value here.
-/

namespace OpenVoxDB.Pql

open PqlFields (FieldToken isLineTerminator)
open FieldSyntax (isDigit)

/-! ## Trees -/

/-- `#"[0-9]+"` -/
structure Digits where
  chars : List Char
  nonempty : chars ≠ []
  digits : ∀ d ∈ chars, isDigit d

def Digits.value (ds : Digits) : Nat := Nat.ofDigitChars 10 ds.chars 0

/-- `#'(?:[^"\\]|\\.)*'`, for either quote. -/
def stringWithoutQuotes (quote : Char) : List Char → Bool
  | [] => true
  | ['\\'] => false
  | '\\' :: c :: cs => !isLineTerminator c && stringWithoutQuotes quote cs
  | c :: cs => c ≠ quote && stringWithoutQuotes quote cs

structure Quoted (quote : Char) where
  chars : List Char
  accepted : stringWithoutQuotes quote chars = true

inductive PqlString where
  | dqstring (s : Quoted '"')
  | sqstring (s : Quoted '\'')

structure PqlInteger where
  negative : Bool
  digits : Digits

def PqlInteger.value (n : PqlInteger) : Int :=
  if n.negative then -n.digits.value else n.digits.value

/-- `[negative | positive], digits`, where no sign is a plus too. -/
structure PqlReal where
  negative : Bool
  whole : Digits
  fraction : Digits
  exp : Option PqlInteger

/-- The double of the text, as the decimal that it is read from. -/
def PqlReal.value (x : PqlReal) : Json :=
  let mantissa : Int := Nat.ofDigitChars 10 (x.whole.chars ++ x.fraction.chars) 0
  .float (if x.negative then -mantissa else mantissa)
    ((x.exp.map PqlInteger.value).getD 0 - x.fraction.chars.length)

inductive Literal where
  | string (s : PqlString)
  | integer (n : PqlInteger)
  | real (x : PqlReal)
  | boolean (b : Bool)
  | array (first : Literal) (rest : List Literal)

inductive Field where
  | name (s : String)
  | dotted (dottedfield : String) (fieldpath : List FieldToken)

inductive Arg where
  | field (f : Field)
  | string (s : PqlString)

/-- `field | function`, where a function may have no arguments. -/
inductive Column where
  | field (f : Field)
  | function (functionname : String) (arglist : Option (Arg × List PqlString))

inductive Inequality where
  | ge | le | lt | gt

def Inequality.str : Inequality → String
  | ge => ">="
  | le => "<="
  | lt => "<"
  | gt => ">"

inductive ValueOrdered where
  | integer (n : PqlInteger)
  | real (x : PqlReal)
  | string (s : PqlString)

/-- `field | groupedfieldlist` -/
inductive InColumns where
  | field (f : Field)
  | list (first : Column) (rest : List Column)

/-- `condexpression` and `condexpnull`, but for `in` with a query. -/
inductive Condexpression where
  | regexp (f : Field) (value : PqlString)
  | regexparray (f : Field) (first : PqlString) (rest : List PqlString)
  | inequality (f : Field) (op : Inequality) (value : ValueOrdered)
  | isEqual (f : Field) (value : Literal)
  | notEqual (f : Field) (value : Literal)
  | notRegexp (f : Field) (value : Literal)
  | inLiterals (columns : InColumns) (first : Literal) (rest : List Literal)
  | null (f : Field) (isNull : Bool)

structure OrderParam where
  field : Field
  direction : Option String

inductive Paging where
  | limit (n : PqlInteger)
  | offset (n : PqlInteger)
  | orderby (first : OrderParam) (rest : List OrderParam)

/-- `[groupbyclause | {pagingclause}]` -/
inductive Clauses where
  | groupby (first : Column) (rest : List Column)
  | paging (clauses : List Paging)

mutual

/-- `expr-or` -/
inductive ExprOr where
  | single (a : ExprAnd)
  | or (a : ExprAnd) (b : ExprOr)

/-- `expr-and` -/
inductive ExprAnd where
  | single (a : ExprNot)
  | and (a : ExprNot) (b : ExprAnd)

/-- `expr-not`, with `expr-rest` in it. -/
inductive ExprNot where
  | not (a : ExprNot)
  | parens (e : ExprOr)
  | cond (c : Condexpression)
  | inQuery (columns : InColumns) (q : From)
  | subquery (entity : String) (w : Where)

/-- `where`, with or without an expression. -/
inductive Where where
  | all (clauses : Clauses)
  | expr (e : ExprOr) (clauses : Clauses)

/-- `from`, where an `extract` may have no fields. -/
inductive From where
  | mk (entity : String) (extract : Option (List Column)) (w : Where)

end

/-! ## Leaves -/

/-- What is thrown besides a `bad-query-ex`. -/
inductive InternalError where
  | arity
  | jsonParse
  | numberFormat
  deriving DecidableEq

def hexDigit (c : Char) : Bool :=
  isDigit c || ('a' ≤ c && c ≤ 'f') || ('A' ≤ c && c ≤ 'F')

/-- The text is what JSON has between the quotes of a string. -/
def jsonText : List Char → Bool
  | [] => true
  | '\\' :: 'u' :: a :: b :: c :: d :: cs =>
    hexDigit a && hexDigit b && hexDigit c && hexDigit d && jsonText cs
  | '\\' :: c :: cs => c ∈ ['"', '\\', '/', 'b', 'f', 'n', 'r', 't'] && jsonText cs
  | c :: cs => c ≠ '\\' && c ≠ '"' && 0x20 ≤ c.toNat && jsonText cs

/-- A JSON decoder, on a text that is given to it between quotes: it reads the strings of JSON and
no others. -/
structure JsonDecoder where
  decode : List Char → Option String
  reads : ∀ cs, (decode cs).isSome = jsonText cs

/-- `transform-sqstring` -/
def unescapeQuotes : List Char → List Char
  | '\\' :: '\'' :: cs => '\'' :: unescapeQuotes cs
  | c :: cs => c :: unescapeQuotes cs
  | [] => []

/-- `transform-dqstring`, `transform-sqstring` -/
def transformString (json : JsonDecoder) : PqlString → Except InternalError Json
  | .dqstring s =>
    match json.decode s.chars with
    | some text => .ok (.str text)
    | none => .error .jsonParse
  | .sqstring s => .ok (.str (String.ofList (unescapeQuotes s.chars)))

/-- A 64-bit integer. -/
def isLong (n : Int) : Bool := -2 ^ 63 ≤ n && n < 2 ^ 63

/-- `transform-integer` -/
def transformInteger (n : PqlInteger) : Except InternalError Json :=
  if isLong n.value then .ok (.int n.value) else .error .numberFormat

/-- `transform-field` -/
def transformField : Field → Json
  | .name s => .str s
  | .dotted dottedfield fieldpath => .str (PqlFields.transformField dottedfield fieldpath)

mutual

/-- `transform-boolean`, `transform-real`, `transform-array` -/
def transformLiteral (json : JsonDecoder) : Literal → Except InternalError Json
  | .string s => transformString json s
  | .integer n => transformInteger n
  | .real x => .ok x.value
  | .boolean b => .ok (.bool b)
  | .array first rest => do
    let x ← transformLiteral json first
    let xs ← transformLiterals json rest
    return .arr (x :: xs)

def transformLiterals (json : JsonDecoder) : List Literal → Except InternalError (List Json)
  | [] => .ok []
  | l :: ls => do
    let x ← transformLiteral json l
    let xs ← transformLiterals json ls
    return x :: xs

end

def transformArg (json : JsonDecoder) : Arg → Except InternalError Json
  | .field f => .ok (transformField f)
  | .string s => transformString json s

/-- `transform-function` -/
def transformColumn (json : JsonDecoder) : Column → Except InternalError Json
  | .field f => .ok (transformField f)
  | .function functionname none => .ok (.arr [.str "function", .str functionname])
  | .function functionname (some (arg, strings)) => do
    let x ← transformArg json arg
    let xs ← strings.mapM (transformString json)
    return .arr (.str "function" :: .str functionname :: x :: xs)

def transformInColumns (json : JsonDecoder) : InColumns → Except InternalError Json
  | .field f => .ok (transformField f)
  | .list first rest => do
    let xs ← (first :: rest).mapM (transformColumn json)
    return .arr xs

def transformValueOrdered (json : JsonDecoder) : ValueOrdered → Except InternalError Json
  | .integer n => transformInteger n
  | .real x => .ok x.value
  | .string s => transformString json s

/-- `transform-condexpression`, `transform-condexpnull`, `transform-groupedliterallist` -/
def transformCondexpression (json : JsonDecoder) : Condexpression → Except InternalError Json
  | .regexp f value => do
    let x ← transformString json value
    return .arr [.str "~", transformField f, x]
  | .regexparray f first rest => do
    let xs ← (first :: rest).mapM (transformString json)
    return .arr [.str "~>", transformField f, .arr xs]
  | .inequality f op value => do
    let x ← transformValueOrdered json value
    return .arr [.str op.str, transformField f, x]
  | .isEqual f value => do
    let x ← transformLiteral json value
    return .arr [.str "=", transformField f, x]
  | .notEqual f value => do
    let x ← transformLiteral json value
    return .arr [.str "not", .arr [.str "=", transformField f, x]]
  | .notRegexp f value => do
    let x ← transformLiteral json value
    return .arr [.str "not", .arr [.str "~", transformField f, x]]
  | .inLiterals columns first rest => do
    let cols ← transformInColumns json columns
    let xs ← transformLiterals json (first :: rest)
    return .arr [.str "in", cols, .arr [.str "array", .arr xs]]
  | .null f isNull => .ok (.arr [.str "null?", transformField f, .bool isNull])

def transformOrderParam (p : OrderParam) : Json :=
  match p.direction with
  | none => transformField p.field
  | some direction => .arr [transformField p.field, .str direction]

/-- `transform-limit`, `transform-offset`, `transform-orderby` -/
def transformPaging : Paging → Except InternalError Json
  | .limit n => do
    let x ← transformInteger n
    return .arr [.str "limit", x]
  | .offset n => do
    let x ← transformInteger n
    return .arr [.str "offset", x]
  | .orderby first rest =>
    .ok (.arr [.str "order_by", .arr ((first :: rest).map transformOrderParam)])

/-- `transform-groupby`, or the paging clauses. -/
def transformClauses (json : JsonDecoder) : Clauses → Except InternalError (List Json)
  | .groupby first rest => do
    let xs ← (first :: rest).mapM (transformColumn json)
    return [.arr (.str "group_by" :: xs)]
  | .paging clauses => clauses.mapM transformPaging

/-! ## Queries -/

/-- The first element of a clause. -/
def tag : Json → Option String
  | .arr (.str s :: _) => some s
  | _ => none

def pagingClause (clause : Json) : Bool :=
  (tag clause).any fun s => s ∈ ["limit", "offset", "order_by"]

/-- `slurp-expr->extract` -/
def slurpExprToExtract (clauses : List Json) : List Json :=
  let pagingClauses := clauses.filter pagingClause
  match clauses.filter (!pagingClause ·) with
  | .arr (.str "extract" :: columns) :: c :: others =>
    .arr (.str "extract" :: (columns ++ c :: others)) :: pagingClauses
  | _ => clauses

/-- The operands of a clause with this operator, and any other clause alone. -/
def operandsOf (op : String) : Json → List Json
  | .arr (.str s :: xs) => if s = op then xs else [.arr (.str s :: xs)]
  | x => [x]

/-- `transform-expr-or`, `transform-expr-and` of several arguments. -/
def flattenOperands (op : String) (args : List Json) : Json :=
  .arr (.str op :: args.flatMap (operandsOf op))

/-- `transform-subquery` -/
def transformSubquery (entity : String) : List Json → Except InternalError Json
  | [] => .ok (.arr [.str "subquery", .str entity])
  | [arg] => .ok (.arr [.str "subquery", .str entity, arg])
  | _ => .error .arity

mutual

def transformExprOr (json : JsonDecoder) : ExprOr → Except InternalError Json
  | .single a => transformExprAnd json a
  | .or a b => do
    let x ← transformExprAnd json a
    let y ← transformExprOr json b
    return flattenOperands "or" [x, y]

def transformExprAnd (json : JsonDecoder) : ExprAnd → Except InternalError Json
  | .single a => transformExprNot json a
  | .and a b => do
    let x ← transformExprNot json a
    let y ← transformExprAnd json b
    return flattenOperands "and" [x, y]

def transformExprNot (json : JsonDecoder) : ExprNot → Except InternalError Json
  | .not a => do
    let x ← transformExprNot json a
    return .arr [.str "not", x]
  | .parens e => transformExprOr json e
  | .cond c => transformCondexpression json c
  | .inQuery columns q => do
    let cols ← transformInColumns json columns
    let x ← transformFrom json q
    return .arr [.str "in", cols, x]
  | .subquery entity w => do
    let xs ← transformWhere json w
    transformSubquery entity xs

def transformWhere (json : JsonDecoder) : Where → Except InternalError (List Json)
  | .all clauses => transformClauses json clauses
  | .expr e clauses => do
    let x ← transformExprOr json e
    let xs ← transformClauses json clauses
    return x :: xs

/-- `transform-from`, `transform-extract` -/
def transformFrom (json : JsonDecoder) : From → Except InternalError Json
  | .mk entity none w => do
    let xs ← transformWhere json w
    return .arr (.str "from" :: .str entity :: slurpExprToExtract xs)
  | .mk entity (some columns) w => do
    let cols ← columns.mapM (transformColumn json)
    let xs ← transformWhere json w
    return .arr (.str "from" :: .str entity ::
      slurpExprToExtract (.arr [.str "extract", .arr cols] :: xs))

end

inductive QueryError where
  | badQuery (message : String)
  | internal (e : InternalError)

/-- `parse-pql-query`, with the parser of the grammar. -/
def parsePqlQuery (json : JsonDecoder) (parse : String → Except String From) (query : String) :
    Except QueryError Json :=
  match parse query with
  | .error message => .error (.badQuery message)
  | .ok tree =>
    match transformFrom json tree with
    | .ok ast => .ok ast
    | .error e => .error (.internal e)

end OpenVoxDB.Pql
