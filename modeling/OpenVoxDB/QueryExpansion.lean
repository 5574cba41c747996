import OpenVoxDB.Json

/-!
# Expanding a user query

`expand-user-query` walks a query from its leaves up and passes each node to
three visitors: `expand-query-node` rewrites it into lower-level operators,
`validate-binary-operators` rejects it or not, and `remove-elided-nodes`
drops the operands that were elided.
-/

namespace OpenVoxDB.QueryExpansion

/-- The field types of the query records. -/
inductive FieldType where
  | array
  | boolean
  | encodedPath
  | json
  | jsonbScalar
  | numeric
  | pathArray
  | queryableJson
  | string
  | timestamp
  deriving DecidableEq, Repr

/-- What the expansion reads of a projection: its type and the SQL field behind it. -/
structure Projection where
  type : FieldType
  field : String
  deriving DecidableEq, Repr

/-- The columns of an implicit relationship between two entities. -/
structure Relationship where
  columns : Option (List String)
  localColumns : Option (List String)
  foreignColumns : Option (List String)
  deriving DecidableEq, Repr

/-- The query context that `push-down-context` leaves on the vectors of a query. -/
structure Context where
  entity : Option String
  projections : List (String × Projection)
  relationships : List (String × Relationship)
  deriving DecidableEq, Repr

/-- A vector that the expansion makes carries no context. -/
def Context.none : Context := ⟨.none, [], []⟩

def Context.type (ctx : Context) (field : String) : Option FieldType :=
  (ctx.projections.lookup field).map Projection.type

/-- A query: vectors with their context, other values, and the mark of an elided clause. -/
inductive Ast where
  | elide
  | lit (v : Json)
  | vec (ctx : Context) (xs : List Ast)
  deriving Repr

namespace Ast

/-- A string. -/
abbrev str (s : String) : Ast := .lit (.str s)

/-- A vector that the expansion makes. -/
abbrev made (xs : List Ast) : Ast := .vec .none xs

def str? : Ast → Option String
  | .lit (.str s) => some s
  | _ => Option.none

def isStr (a : Ast) (s : String) : Bool := a.str? == some s

/-- A string among `ops`. -/
def isOp (a : Ast) (ops : List String) : Bool :=
  match a.str? with
  | some s => ops.contains s
  | Option.none => false

def number? : Ast → Bool
  | .lit (.int _) | .lit (.float _ _) => true
  | _ => false

def string? (a : Ast) : Bool := a.str?.isSome

def boolean? : Ast → Bool
  | .lit (.bool _) => true
  | _ => false

def truthy : Ast → Bool
  | .lit v => v.truthy
  | _ => true

/-- `[head arg]`, for a head that is the string `s`. -/
def tagged? (s : String) : Ast → Option Ast
  | .vec _ [h, x] => if h.isStr s then some x else Option.none
  | _ => Option.none

end Ast

/-- The parts of a dotted field. -/
inductive Part where
  | named (name : String)
  | indexed (name : String) (index : Nat)
  | pattern (rx : String)
  deriving DecidableEq, Repr

/-- A field that is a letter and then letters, digits and underscores. -/
def plainField (s : String) : Bool :=
  match s.toList with
  | [] => false
  | c :: cs => c.isAlpha && cs.all fun c => c.isAlphanum || c == '_'

/-- What the expansion asks of the rest of the program: the syntax of dotted fields, the
fact paths that match a regular expression, lower case, and the stored form and the text
of a value. -/
structure Env where
  parseField : String → Except String (List Part)
  parseField_plain : ∀ s, plainField s = true → parseField s = .ok [.named s]
  factPaths : String → List (List String)
  lowerCase : String → String
  serialize : Ast → String
  text : Ast → String

/-- `char-escape-string` -/
def charEscape : Char → List Char
  | '\n' => ['\\', 'n']
  | '\t' => ['\\', 't']
  | '\r' => ['\\', 'r']
  | '"' => ['\\', '"']
  | '\\' => ['\\', '\\']
  | '\x0c' => ['\\', 'f']
  | '\x08' => ['\\', 'b']
  | c => [c]

/-- `pr-str` of a string. -/
def prStr (s : String) : String := "\"" ++ String.ofList (s.toList.flatMap charEscape) ++ "\""

/-- The message of `::unquotable-field-segment`. -/
def unquotableFieldSegment (s : String) : String :=
  "AST has no way to quote a path segment including a dot and ending in backslash: " ++ prStr s

/-- `quote-path-name-for-field-str` -/
def quotePathName (s : String) : Except String String :=
  if s.toList.contains '.' then
    if s.toList.getLast? = some '\\' then .error (unquotableFieldSegment s)
    else .ok ("\"" ++ s ++ "\"")
  else .ok s

/-- `path-names->field-str` -/
def fieldStr (names : List String) : Except String String := do
  let quoted ← names.mapM quotePathName
  return String.intercalate "." quoted

/-- `db-path->ast-field`, which prints a key that the caught data do not have. -/
def dbPathToAstField (path : List String) : Except String String :=
  (fieldStr path).mapError fun _ => "Currently unable to match this path: nil"

/-- The regular expression that a field with a `match()` part looks for. -/
def pathRegexp (path : List Part) : String :=
  String.intercalate "#~" (path.flatMap fun
    | .named name => [name]
    | .indexed name index => [name, toString index]
    | .pattern rx => [rx])

def isPattern : Part → Bool
  | .pattern _ => true
  | _ => false

def partName : Part → Option String
  | .named name | .indexed name _ => some name
  | .pattern _ => none

def maybeAddMatchFunctionFilter (env : Env) (op : Ast) (field : String) (parts : List Part)
    (value : Ast) : Except String Ast :=
  let trusted := (parts.head?.bind partName) = some "trusted"
  if parts.any isPattern then do
    let path := if trusted then parts else parts.tail
    let found := (env.factPaths (pathRegexp path)).map fun path =>
      if path.head? = some "trusted" then path else "facts" :: path
    let fields ← found.mapM dbPathToAstField
    return match fields with
      | [] => .made [.str "or", .str "false"]
      | [field] => .made [op, .str field, value]
      | fields => .made (.str "or" :: fields.map fun field => .made [op, .str field, value])
  else if trusted then .ok (.made [op, .str ("facts." ++ field), value])
  else .ok (.made [op, .str field, value])

/-- `["=" ["function" "jsonb_typeof" "value"] type]` -/
def typeofValue (type : String) : Ast :=
  .made [.str "=", .made [.str "function", .str "jsonb_typeof", .str "value"], .str type]

/-- Whether a column of an `extract` is a call of a numeric function. -/
def numericCall : Ast → Bool
  | .vec _ (h :: f :: _) => h.isStr "function" && f.isOp ["sum", "avg", "min", "max"]
  | _ => false

/-- `numeric-fact-functions?` -/
def numericFactFunctions : Ast → Bool
  | .vec _ columns => columns.any numericCall
  | _ => false

/-- `["=" ["function" "jsonb_typeof" "value"] "number"]` -/
def numberRestriction : Ast → Bool
  | .vec _ [op, .vec _ [f, g, field], type] =>
    op.isStr "=" && f.isStr "function" && g.isStr "jsonb_typeof" && field.isStr "value"
      && type.isStr "number"
  | _ => false

mutual

/-- The negation of `no-type-restriction?`. -/
def typeRestriction : Ast → Bool
  | .vec ctx xs => numberRestriction (.vec ctx xs) || typeRestrictionIn xs
  | _ => false

def typeRestrictionIn : List Ast → Bool
  | [] => false
  | x :: xs => typeRestriction x || typeRestrictionIn xs

end

/-- `dashes->underscores` -/
def dashesToUnderscores (s : String) : String :=
  String.ofList (s.toList.map fun c => if c = '-' then '_' else c)

/-- What a row of the match makes of a node it matches: a node, nothing, or an error. -/
abbrev Outcome := Except String (Option Ast)

/-! ## The rows of `expand-query-node`, all for vectors `[op x y]` -/

def inCertname (subquery : List Ast) : Ast :=
  .made [.str "in", .str "certname", .made [.str "extract", .str "certname", .made subquery]]

def notActive : Ast := .made [.str "not", inCertname [.str "select_not_active_nodes"]]

def inactive : Ast := inCertname [.str "select_inactive_nodes"]

def factPathRow (env : Env) (op x y : Ast) : Option Outcome :=
  match op.isOp ["=", ">", "<", "<=", ">=", "~"], x.str? with
  | true, some column =>
    match env.parseField column with
    | .error e => some (.error e)
    | .ok parts =>
      match parts.head?.bind partName with
      | some name =>
        if ["facts", "trusted"].contains name then
          some ((maybeAddMatchFunctionFilter env op column parts y).map some)
        else none
      | none => none
  | _, _ => none

def extractRow (ctx : Context) (op x y : Ast) : Option Outcome :=
  if op.isStr "extract" && numericFactFunctions x && !typeRestriction y then
    if ctx.entity = some "facts" then
      some (.ok (some (.made [.str "extract", x,
        .made [.str "and", typeofValue "number", y]])))
    else some (.ok none)
  else none

def valueRow (op x y : Ast) : Option Outcome :=
  if x.isStr "value" then
    if op.isOp ["=", "<", ">", "<=", ">="] && y.number? then
      some (.ok (some (.made [.str "and", typeofValue "number", .made [op, .str "value", y]])))
    else if op.isStr "=" && y.string? then
      some (.ok (some (.made [.str "and", typeofValue "string", .made [op, .str "value", y]])))
    else if op.isStr "=" && y.boolean? then
      some (.ok (some (.made [.str "and", typeofValue "boolean", .made [op, .str "value", y]])))
    else none
  else none

def typeAnyRow (op x y : Ast) : Option Outcome :=
  if op.isStr "=" && x.isStr "type" && y.isStr "any" then some (.ok (some .elide)) else none

/-- `["node" "active"]` -/
def nodeActiveField (a : Ast) : Bool :=
  match a.tagged? "node" with
  | some x => x.isStr "active"
  | none => false

def nodeActiveRow (op x y : Ast) : Option Outcome :=
  if op.isStr "=" && nodeActiveField x then
    some (.ok (some (if y.truthy then notActive else inactive)))
  else none

/-- `["=" ["node" "active"] b]`, for the boolean `b`. -/
def nodeActiveIs (b : Bool) : Ast → Bool
  | .vec _ [op, x, .lit (.bool c)] => op.isStr "=" && nodeActiveField x && b == c
  | _ => false

/-- Both spellings of the disjunction of the active and the inactive nodes. -/
def activeOrInactiveRow (op x y : Ast) : Option Outcome :=
  if op.isStr "or" && (nodeActiveIs true x && nodeActiveIs false y
      || nodeActiveIs false x && nodeActiveIs true y) then
    some (.ok (some .elide))
  else none

def nodeStateRow (env : Env) (op x y : Ast) : Option Outcome :=
  if op.isStr "=" && x.isStr "node_state" then
    some (match y.str?.map env.lowerCase with
      | some "active" => .ok (some notActive)
      | some "inactive" => .ok (some inactive)
      | some "any" => .ok (some .elide)
      | _ => .error "No matching clause")
  else none

def parameterRow (env : Env) (op x y : Ast) : Option Outcome :=
  match op.isOp ["=", "~"], x.tagged? "parameter" with
  | true, some name =>
    some (.ok (some (.made [.str "in", .str "resource",
      .made [.str "extract", .str "res_param_resource",
        .made [.str "select_params",
          .made [.str "and", .made [op, .str "res_param_name", name],
            .made [op, .str "res_param_value", .str (env.serialize y)]]]]])))
  | _, _ => none

/-- The nodes that have the fact `name` with a value that passes `test`. -/
def inFacts (name test : Ast) : Ast :=
  inCertname [.str "select_facts",
    .made [.str "and", .made [.str "=", .str "name", name], test]]

/-- The class of a value, as `type` tells them apart. -/
def valueClass : Ast → Nat
  | .lit .null => 0
  | .lit (.bool _) => 1
  | .lit (.int _) => 2
  | .lit (.float _ _) => 3
  | .lit (.str _) => 4
  | .lit (.arr _) | .vec _ _ => 5
  | .lit (.obj _) => 6
  | .elide => 7

/-- Whether the values are of one class. -/
def oneClass : List Ast → Bool
  | [] => false
  | v :: vs => vs.all fun w => valueClass w == valueClass v

def factRow (env : Env) (op x y : Ast) : Option Outcome :=
  match x.tagged? "fact" with
  | none => none
  | some name =>
    if op.isOp ["=", "~"] && (y.string? || y.boolean?) then
      some (.ok (some (inFacts name (.made [op, .str "value", y]))))
    else
      match op.isStr "in", y.tagged? "array" with
      | true, some (.vec ctx values) =>
        if oneClass values then
          some (.ok (some (inFacts name
            (.made [.str "in", .str "value", .made [.str "array", .vec ctx values]]))))
        else some (.error "All values in 'array' must be the same type.")
      | true, some _ => some (.error "All values in 'array' must be the same type.")
      | _, _ =>
        if op.isOp ["=", ">", "<", "<=", ">="] then
          if y.number? then some (.ok (some (inFacts name (.made [op, .str "value", y]))))
          else some (.error ("Operator '" ++ op.str?.getD "" ++ "' not allowed on value '"
            ++ env.text y ++ "'"))
        else none

def subqueryRow (ctx : Context) (op x y : Ast) : Option Outcome :=
  if op.isStr "subquery" then
    let entity := x.str?.getD ""
    some (match ctx.relationships.lookup entity with
      | some rel =>
        match rel.localColumns.or rel.columns, rel.foreignColumns.or rel.columns with
        | some localColumns, some foreignColumns =>
          .ok (some (.made [.str "in", .made (localColumns.map .str),
            .made [.str "extract", .made (foreignColumns.map .str),
              .made [.str ("select_" ++ entity), y]]]))
        | _, _ => .error ("Column definition for entity relationship '" ++ entity
            ++ "' not valid")
      | none => .error ("No implicit relationship for entity '" ++ entity ++ "'"))
  else none

def latestReportRow (ctx : Context) (op x y : Ast) : Option Outcome :=
  if op.isStr "=" && x.isStr "latest_report?" then
    if ctx.entity = some "reports" ∨ ctx.entity = some "events" then
      some (.ok (some (.made [op, x, y])))
    else some (.error ("Field 'latest_report?' not supported on endpoint '"
      ++ ctx.entity.getD "" ++ "'"))
  else none

def changedValueRow (env : Env) (op x y : Ast) : Option Outcome :=
  if x.isOp ["new_value", "old_value"] then
    some (.ok (some (.made [op, x, .str (env.serialize y)])))
  else none

def nullRow (op x y : Ast) : Option Outcome :=
  match op.isStr "=", y with
  | true, .lit .null =>
    some (match x.str? with
      | some field =>
        .ok (some (.made [.str "null?", .str (dashesToUnderscores field), .lit (.bool true)]))
      | none => .error "not a field")
  | _, _ => none

def tagRow (env : Env) (op x y : Ast) : Option Outcome :=
  if x.isStr "tag" then
    some (match y.str? with
      | some tag => .ok (some (.made [op, .str "tags", .str (env.lowerCase tag)]))
      | none => .error "not a tag")
  else none

/-- The rows in order; the first that matches decides. -/
def rows (env : Env) (ctx : Context) (op x y : Ast) : List (Option Outcome) :=
  [factPathRow env op x y, extractRow ctx op x y, valueRow op x y, typeAnyRow op x y,
   nodeActiveRow op x y, activeOrInactiveRow op x y, nodeStateRow env op x y,
   parameterRow env op x y, factRow env op x y, subqueryRow ctx op x y,
   latestReportRow ctx op x y, changedValueRow env op x y, nullRow op x y, tagRow env op x y]

def expandQueryNode (env : Env) : Ast → Outcome
  | .vec ctx [op, x, y] => ((rows env ctx op x y).findSome? id).getD (.ok none)
  | _ => .ok none

/-! ## The other visitors -/

def simpleBinaryOperators : List String := ["=", ">", "<", ">=", "<=", "~", "~>"]

/-- The fields and values that `simple-binary-operator-checker` lets pass. -/
def checkedField : Ast → Bool
  | .vec _ xs => xs.length = 2 && xs.all Ast.string?
  | a => a.string?

def checkedElement : Ast → Bool
  | .lit (.str _) | .lit (.int _) => true
  | _ => false

def checkedValue : Ast → Bool
  | .vec _ xs => xs.all checkedElement
  | .lit (.str _) | .lit (.int _) | .lit (.bool _) | .lit (.float _ _) => true
  | _ => false

/-- What `empty?` says of a clause, or that it has no answer. -/
def emptyClause : Ast → Option Bool
  | .vec _ xs => some xs.isEmpty
  | .lit .null => some true
  | .lit (.str s) => some (s = "")
  | .lit (.arr xs) => some xs.isEmpty
  | .lit (.obj fields) => some fields.isEmpty
  | .elide => some false
  | .lit (.bool _) | .lit (.int _) | .lit (.float _ _) => none

/-- The error of the first clause of an `and` that is not well formed. -/
def malformedClause (clauses : List Ast) : Option String :=
  clauses.findSome? fun c =>
    match emptyClause c with
    | some false => none
    | some true => some "[] is not well-formed: queries must contain at least one operator"
    | none => some "Don't know how to create ISeq"

def validateOperands (op : String) (clauses : List Ast) : Except String Unit :=
  if op = "and" then
    if clauses.isEmpty then
      .error "'and' takes at least one argument, but none were supplied"
    else
      match malformedClause clauses with
      | some e => .error e
      | none => .ok ()
  else if op = "or" then
    if clauses.isEmpty then
      .error "'or' takes at least one argument, but none were supplied"
    else .ok ()
  else if op = "not" then
    if clauses.length = 1 then .ok ()
    else .error ("'not' takes exactly one argument, but " ++ toString clauses.length
      ++ " were supplied")
  else if simpleBinaryOperators.contains op then
    match clauses with
    | [field, value] =>
      if checkedField field && checkedValue value then .ok ()
      else .error ("Invalid " ++ op ++ " clause")
    | _ => .error (op ++ " requires exactly two arguments")
  else .ok ()

/-- The rows for comparisons; `none` where none of them matches. -/
def validateComparison (env : Env) (ctx : Context) (op : String) (field value : Ast) :
    Option (Except String Unit) :=
  if op = "=" then
    some (match field.str?, value with
      | some name, .lit (.str s) =>
        if ctx.type name = some .numeric then
          .error ("Argument \"" ++ s ++ "\" is incompatible with numeric field \"" ++ name
            ++ "\".")
        else .ok ()
      | _, _ => .ok ())
  else if [">", ">=", "<", "<="].contains op then
    match field.str? with
    | none => some (.error "Assert failed: (string? s)")
    | some name =>
      match env.parseField name with
      | .error e => some (.error e)
      | .ok [_] =>
        if [some .numeric, some .timestamp, some .jsonbScalar].contains (ctx.type name) then
          some (.ok ())
        else some (.error ("Query operators >,>=,<,<= are not allowed on field " ++ name))
      | .ok _ => none
  else if op = "~>" then
    match field.str? with
    | some name =>
      if [some .encodedPath, some .pathArray].contains (ctx.type name) then some (.ok ())
      else some (.error ("Query operator ~> is not allowed on field " ++ name))
    | none => some (.error ("Query operator ~> is not allowed on field " ++ env.text field))
  else none

def validateBinaryOperators (env : Env) : Ast → Except String Unit
  | .vec ctx (.lit (.str op) :: clauses) =>
    match clauses with
    | [field, value] =>
      (validateComparison env ctx op field value).getD (validateOperands op clauses)
    | _ => validateOperands op clauses
  | _ => .ok ()

/-- `removeable-clause?` -/
def removable : Ast → Bool
  | .elide => true
  | .vec _ [.lit (.str op)] => ["not", "and", "or"].contains op
  | _ => false

def removeElidedNodes : Ast → Ast
  | .vec _ xs => .made (xs.filter fun x => !removable x)
  | a => a

/-- The visitors of `expand-user-query`, each on what the one before left. -/
def visit (env : Env) (node : Ast) : Except String Ast := do
  let expanded ← expandQueryNode env node
  let node := expanded.getD node
  validateBinaryOperators env node
  return removeElidedNodes node

mutual

/-- The post-order traversal. -/
def expandUserQuery (env : Env) : Ast → Except String Ast
  | .vec ctx xs => do
    let xs ← expandAll env xs
    visit env (.vec ctx xs)
  | .lit v => visit env (.lit v)
  | .elide => visit env .elide

def expandAll (env : Env) : List Ast → Except String (List Ast)
  | [] => return []
  | x :: xs => do
    let y ← expandUserQuery env x
    let ys ← expandAll env xs
    return y :: ys

end

/-! ## What the visitors leave -/

theorem bind_eq_ok {ε α β : Type} (x : Except ε α) (f : α → Except ε β) (b : β) :
    x >>= f = .ok b ↔ ∃ a, x = .ok a ∧ f a = .ok b := by
  cases x with
  | error e => exact ⟨fun h => (nomatch h), fun ⟨_, h, _⟩ => (nomatch h)⟩
  | ok a => exact ⟨fun h => ⟨a, rfl, h⟩, fun ⟨_, h, hf⟩ => by cases h; exact hf⟩

theorem map_eq_ok {ε α β : Type} (x : Except ε α) (f : α → β) (b : β) :
    x.map f = .ok b ↔ ∃ a, x = .ok a ∧ f a = b := by
  cases x with
  | error e => exact ⟨fun h => (nomatch h), fun ⟨_, h, _⟩ => (nomatch h)⟩
  | ok a =>
    exact ⟨fun h => ⟨a, rfl, Except.ok.inj h⟩,
      fun ⟨_, h, hf⟩ => by cases h; exact congrArg _ hf⟩

/-- What a visit that succeeds leaves. -/
theorem visit_eq_ok (env : Env) (node r : Ast) (h : visit env node = .ok r) :
    ∃ o, expandQueryNode env node = .ok o ∧ r = removeElidedNodes (o.getD node) := by
  obtain ⟨o, ho, h⟩ := (bind_eq_ok _ _ _).mp h
  obtain ⟨-, -, h⟩ := (bind_eq_ok _ _ _).mp h
  exact ⟨o, ho, (Except.ok.inj h).symm⟩

/-- A node that no row of `expand-query-node` matches loses only its elided operands. -/
theorem visit_of_none (env : Env) (ctx : Context) (xs : List Ast) (r : Ast)
    (hnone : expandQueryNode env (.vec ctx xs) = .ok none)
    (h : visit env (.vec ctx xs) = .ok r) : r = .made (xs.filter fun x => !removable x) := by
  obtain ⟨o, ho, rfl⟩ := visit_eq_ok env _ r h
  rw [hnone] at ho
  cases ho
  rfl

theorem visit_of_some (env : Env) (node n r : Ast)
    (hsome : expandQueryNode env node = .ok (some n)) (h : visit env node = .ok r) :
    r = removeElidedNodes n := by
  obtain ⟨o, ho, rfl⟩ := visit_eq_ok env node r h
  rw [hsome] at ho
  cases ho
  rfl

theorem expandUserQuery_lit (env : Env) (v : Json) :
    expandUserQuery env (.lit v) = .ok (.lit v) := by
  simp [expandUserQuery, visit, expandQueryNode, validateBinaryOperators, removeElidedNodes,
    bind, Except.bind, pure, Except.pure]

theorem expandAll_lits (env : Env) (vs : List Json) :
    expandAll env (vs.map .lit) = .ok (vs.map .lit) := by
  induction vs with
  | nil => simp [expandAll, pure, Except.pure]
  | cons v vs ih =>
    simp [expandAll, expandUserQuery_lit, ih, bind, Except.bind, pure, Except.pure]

theorem expandUserQuery_lits (env : Env) (ctx : Context) (vs : List Json) :
    expandUserQuery env (.vec ctx (vs.map .lit)) = visit env (.vec ctx (vs.map .lit)) := by
  rw [expandUserQuery, expandAll_lits]
  rfl

theorem expandUserQuery_vec_eq_ok (env : Env) (ctx : Context) (xs : List Ast) (r : Ast)
    (h : expandUserQuery env (.vec ctx xs) = .ok r) :
    ∃ ys, expandAll env xs = .ok ys ∧ visit env (.vec ctx ys) = .ok r := by
  simpa only [expandUserQuery, bind_eq_ok] using h

theorem expandAll_cons_eq_ok (env : Env) (x : Ast) (xs rs : List Ast)
    (h : expandAll env (x :: xs) = .ok rs) :
    ∃ y ys, expandUserQuery env x = .ok y ∧ expandAll env xs = .ok ys ∧ rs = y :: ys := by
  simp only [expandAll, bind_eq_ok, pure, Except.pure] at h
  obtain ⟨y, hy, ys, hys, h⟩ := h
  exact ⟨y, ys, hy, hys, (Except.ok.inj h).symm⟩


@[simp] theorem removable_lit (v : Json) : removable (.lit v) = false := rfl

@[simp] theorem removable_vec_cons_cons (ctx : Context) (x y : Ast) (xs : List Ast) :
    removable (.vec ctx (x :: y :: xs)) = false := by
  unfold removable
  split <;> simp_all

/-- A node that stays where it is: it keeps operands and is no comparison on the activity
of a node. -/
structure Standing (node : Ast) : Prop where
  made : ∃ x y xs, node = .made (x :: y :: xs) ∧ ∀ z ∈ x :: y :: xs, removable z = false
  not_nodeActive : ∀ b, nodeActiveIs b node = false

theorem Standing.removable {node : Ast} (h : Standing node) : removable node = false := by
  obtain ⟨x, y, xs, rfl, -⟩ := h.made
  exact removable_vec_cons_cons _ x y xs

theorem Standing.removeElidedNodes {node : Ast} (h : Standing node) :
    removeElidedNodes node = node := by
  obtain ⟨x, y, xs, rfl, hxs⟩ := h.made
  exact congrArg Ast.made (List.filter_eq_self.mpr fun z hz => by simp [hxs z hz])

theorem nodeActiveIs_of_ne (b : Bool) (op : String) (xs : List Ast) (h : op ≠ "=") :
    nodeActiveIs b (.made (.str op :: xs)) = false := by
  unfold nodeActiveIs
  split
  · next heq =>
    cases heq
    simp [Ast.isStr, Ast.str?, h]
  · rfl

theorem nodeActiveIs_of_lit (b : Bool) (op : Ast) (v : Json) (y : Ast) :
    nodeActiveIs b (.made [op, .lit v, y]) = false := by
  unfold nodeActiveIs
  split
  · next heq =>
    cases heq
    simp [nodeActiveField, Ast.tagged?]
  · rfl

theorem standing_of_ne (op : String) (x : Ast) (xs : List Ast) (hop : op ≠ "=")
    (hxs : ∀ z ∈ x :: xs, removable z = false) : Standing (.made (.str op :: x :: xs)) :=
  ⟨⟨_, _, _, rfl, List.forall_mem_cons.mpr ⟨rfl, hxs⟩⟩,
    fun b => nodeActiveIs_of_ne b op _ hop⟩

theorem standing_of_lit (op : String) (v : Json) (y : Ast) (hy : removable y = false) :
    Standing (.made [.str op, .lit v, y]) :=
  ⟨⟨_, _, _, rfl, by simp [hy]⟩, fun b => nodeActiveIs_of_lit b _ v y⟩

theorem standing_inCertname (subquery : List Ast) : Standing (inCertname subquery) :=
  standing_of_ne "in" _ _ (by decide) (by simp)

theorem standing_inFacts (name test : Ast) : Standing (inFacts name test) :=
  standing_inCertname _

/-- The row that decides. -/
theorem exists_row (env : Env) (ctx : Context) (op x y n : Ast)
    (h : expandQueryNode env (.vec ctx [op, x, y]) = .ok (some n)) :
    some (.ok (some n)) ∈ rows env ctx op x y := by
  unfold expandQueryNode at h
  cases hrow : (rows env ctx op x y).findSome? id with
  | none => simp [hrow] at h
  | some o =>
    obtain ⟨row, hmem, rfl⟩ := List.exists_of_findSome?_eq_some hrow
    simp only [hrow, Option.getD_some] at h
    rw [← h]
    exact hmem


theorem fieldStr_results (fields : List String) (op : String) (y : Ast)
    (hy : removable y = false) :
    Standing (match fields with
      | [] => .made [.str "or", .str "false"]
      | [field] => .made [.str op, .str field, y]
      | fields => .made (.str "or" :: fields.map fun field => .made [.str op, .str field, y])) := by
  match fields with
  | [] => exact standing_of_ne "or" _ _ (by decide) (by simp)
  | [field] => exact standing_of_lit op _ y hy
  | field :: field' :: fields =>
    exact standing_of_ne "or" _ _ (by decide) (by simp)

theorem maybeAddMatchFunctionFilter_standing (env : Env) (op field : String) (parts : List Part)
    (y n : Ast) (hy : removable y = false)
    (h : maybeAddMatchFunctionFilter env (.str op) field parts y = .ok n) : Standing n := by
  unfold maybeAddMatchFunctionFilter at h
  simp only at h
  split at h
  · obtain ⟨fields, -, h⟩ := (bind_eq_ok _ _ _).mp h
    rw [← Except.ok.inj h]
    exact fieldStr_results fields op y hy
  · split at h <;> rw [← Except.ok.inj h] <;> exact standing_of_lit op _ y hy

theorem factPathRow_standing (env : Env) (op : String) (x y n : Ast)
    (hy : removable y = false) (h : factPathRow env (.str op) x y = some (.ok (some n))) :
    Standing n := by
  unfold factPathRow at h
  repeat' split at h
  all_goals try cases h
  obtain ⟨m, hm, hmn⟩ := (map_eq_ok _ _ _).mp (Option.some.inj h)
  cases hmn
  exact maybeAddMatchFunctionFilter_standing env op _ _ y n hy hm

theorem valueRow_standing (op x y n : Ast) (h : valueRow op x y = some (.ok (some n))) :
    Standing n := by
  unfold valueRow at h
  repeat' split at h
  all_goals cases h
  all_goals exact standing_of_ne "and" _ _ (by decide) (by simp [typeofValue])

theorem factRow_standing (env : Env) (op x y n : Ast)
    (h : factRow env op x y = some (.ok (some n))) : Standing n := by
  unfold factRow at h
  repeat' split at h
  all_goals cases h
  all_goals exact standing_inFacts _ _

theorem changedValueRow_standing (env : Env) (op : String) (x y n : Ast)
    (h : changedValueRow env (.str op) x y = some (.ok (some n))) : Standing n := by
  unfold changedValueRow at h
  split at h
  · cases h
    match x with
    | .lit v => exact standing_of_lit op v _ rfl
    | .elide | .vec _ _ => simp_all [Ast.isOp, Ast.str?]
  · cases h

/-- What a row makes of a comparison stays, unless it is one of those that are elided. -/
theorem row_standing (env : Env) (ctx : Context) (op : String) (x y n : Ast)
    (hy : removable y = false) (hop : op ∉ ["extract", "subquery", "or"])
    (helided : typeAnyRow (.str op) x y = none) (hstate : nodeStateRow env (.str op) x y = none)
    (hmem : some (.ok (some n)) ∈ rows env ctx (.str op) x y) : Standing n := by
  simp only [List.mem_cons, List.not_mem_nil, or_false, not_or] at hop
  obtain ⟨hextract, hsubquery, hor⟩ := hop
  simp only [rows, List.mem_cons, List.not_mem_nil, or_false] at hmem
  rcases hmem with h | h | h | h | h | h | h | h | h | h | h | h | h | h
  · exact factPathRow_standing env op x y n hy h.symm
  · simp [extractRow, Ast.isStr, Ast.str?, hextract] at h
  · exact valueRow_standing _ x y n h.symm
  · simp [helided] at h
  · unfold nodeActiveRow at h
    split at h
    · cases h
      split
      · exact standing_of_ne "not" _ _ (by decide) (by simp [inCertname])
      · exact standing_inCertname _
    · cases h
  · simp [activeOrInactiveRow, Ast.isStr, Ast.str?, hor] at h
  · simp [hstate] at h
  · unfold parameterRow at h
    split at h <;> cases h
    exact standing_of_ne "in" _ _ (by decide) (by simp)
  · exact factRow_standing env _ x y n h.symm
  · simp [subqueryRow, Ast.isStr, Ast.str?, hsubquery] at h
  · unfold latestReportRow at h
    split at h
    · next hx =>
      split at h <;> cases h
      match x with
      | .lit v => exact standing_of_lit op v y hy
      | .elide | .vec _ _ => simp [Ast.isStr, Ast.str?] at hx
    · cases h
  · exact changedValueRow_standing env op x y n h.symm
  · unfold nullRow at h
    split at h
    · split at h <;> cases h
      exact standing_of_ne "null?" _ _ (by decide) (by simp)
    · cases h
  · unfold tagRow at h
    split at h
    · split at h <;> cases h
      exact standing_of_lit op _ _ rfl
    · cases h

/-- An operator that compares nothing, beside a column that is not rewritten. -/
theorem expandQueryNode_none (env : Env) (ctx : Context) (op : String) (x y : Ast)
    (hop : op ∉ ["=", ">", "<", "<=", ">=", "~", "subquery"])
    (hx : x.isOp ["new_value", "old_value", "tag"] = false)
    (harray : op = "in" → y.tagged? "array" = none)
    (hextract : extractRow ctx (.str op) x y = none)
    (hor : activeOrInactiveRow (.str op) x y = none) :
    expandQueryNode env (.vec ctx [.str op, x, y]) = .ok none := by
  simp only [List.mem_cons, List.not_mem_nil, or_false, not_or] at hop
  have hrows : ∀ row ∈ rows env ctx (.str op) x y, row = none := by
    simp only [rows, List.forall_mem_cons, hextract, hor]
    refine ⟨?_, trivial, ?_, ?_, ?_, trivial, ?_, ?_, ?_, ?_, ?_, ?_, ?_, ?_, nofun⟩
    · simp [factPathRow, Ast.isOp, Ast.str?, hop]
    · simp [valueRow, Ast.isOp, Ast.isStr, Ast.str?, hop]
    · simp [typeAnyRow, Ast.isStr, Ast.str?, hop]
    · simp [nodeActiveRow, Ast.isStr, Ast.str?, hop]
    · simp [nodeStateRow, Ast.isStr, Ast.str?, hop]
    · simp [parameterRow, Ast.isOp, Ast.str?, hop]
    · cases hfact : x.tagged? "fact" with
      | none => simp [factRow, hfact]
      | some name =>
        cases hin : (Ast.str op).isStr "in" with
        | false => simp [factRow, hfact, hin, Ast.isOp, Ast.str?, hop]
        | true =>
          have harray := harray (by simpa [Ast.isStr, Ast.str?] using hin)
          simp [factRow, hfact, hin, harray, Ast.isOp, Ast.str?, hop]
    · simp [subqueryRow, Ast.isStr, Ast.str?, hop]
    · simp [latestReportRow, Ast.isStr, Ast.str?, hop]
    · cases hs : x.str? with
      | none => simp [changedValueRow, Ast.isOp, hs]
      | some s => simp_all [changedValueRow, Ast.isOp]
    · simp [nullRow, Ast.isStr, Ast.str?, hop]
    · cases hs : x.str? with
      | none => simp [tagRow, Ast.isStr, hs]
      | some s => simp_all [tagRow, Ast.isStr, Ast.isOp]
  have hnone : (rows env ctx (.str op) x y).findSome? id = none :=
    List.findSome?_eq_none_iff.mpr fun row hrow => hrows row hrow
  simp [expandQueryNode, hnone]

end OpenVoxDB.QueryExpansion
