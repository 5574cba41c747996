import OpenVoxDB.FactRows
import OpenVoxDB.ElisionExact
import OpenVoxDB.QueryCriteria

/-!
# Facts queries that name a fact

`rewrite-fact-query` looks a fact up by the name that the query demands, before
the query is expanded and planned. The filter of the query stays as it is, so
that the rows it keeps are the same, as long as the planner finds the filter.
-/

namespace OpenVoxDB.FactRows

open FactStorage Plans QueryExpansion Elision
open Entities (factsQuery)
open QueryCriteria (lower)

/-! ## The rewriting -/

mutual

/-- The first name that the clause, or an operand of the conjunction, demands. -/
def nameConstraint : Ast → Option Ast
  | .vec _ (op :: xs) =>
    match op.isStr "=", xs with
    | true, x :: value :: _ =>
      if x.isStr "name" && value.truthy then some value else none
    | true, _ => none
    | false, xs => if op.isStr "and" then someConstraint xs else none
  | _ => none

def someConstraint : List Ast → Option Ast
  | [] => none
  | x :: xs => (nameConstraint x).or (someConstraint xs)

end

mutual

/-- A value as a parameter of the query. -/
def parameter : Ast → Json
  | .lit v => v
  | .vec _ xs => .arr (parameters xs)
  | .elide => .null

def parameters : List Ast → List Json
  | [] => []
  | x :: xs => parameter x :: parameters xs

end

/-- The clause in which the name is looked for: the query, or the filter of its `extract`. -/
def constrainedClause : Ast → Ast
  | .vec ctx (op :: columns :: clause :: further) =>
    if op.isStr "extract" then clause else .vec ctx (op :: columns :: clause :: further)
  | query => query

def rewriteFactQuery (query : QueryRec Json) (userQuery : Ast) : QueryRec Json :=
  if query = factsQuery Json then
    match nameConstraint (constrainedClause userQuery) with
    | some name =>
      { factsQuery Json with
        selection := { (factsQuery Json).selection with source := .factNamed (parameter name) } }
    | none => query
  else query

/-! ## The pipeline -/

def subqueryNames : List String :=
  ["catalogs", "catalog_input_contents", "catalog_inputs", "edges", "environments", "producers",
   "packages", "package_inventory", "events", "facts", "factsets", "fact_contents", "fact_paths",
   "nodes", "not_active_nodes", "inactive_nodes", "latest_report", "latest_report_id", "params",
   "reports", "inventory", "resources"].map selectName

def validOperator (op : String) : Bool :=
  ["from", "in", "extract", "subquery", "and", "or", "not", "function", "group_by",
   "null?"].contains op || simpleBinaryOperators.contains op || subqueryNames.contains op

/-- The lowered operator of a vector. -/
def lowerOp : List Ast → List Ast
  | .lit (.str op) :: xs =>
    if validOperator (lower op) then .str (lower op) :: xs else .str op :: xs
  | xs => xs

mutual

/-- `ops-to-lower` on every vector of a query. -/
def opsToLower : Ast → Ast
  | .vec ctx xs => .vec ctx (lowerOp (allToLower xs))
  | a => a

def allToLower : List Ast → List Ast
  | [] => []
  | x :: xs => opsToLower x :: allToLower xs

end

def isGroupBy : Ast → Bool
  | .vec _ (op :: _) => op.isStr "group_by"
  | _ => false

/-- The filter that `convert-to-plan` finds in an expanded query. It finds none in an `extract`
that has anything but one `group_by` behind the filter. -/
def planFilter : Ast → Option Ast
  | .vec ctx (op :: xs) =>
    if op.isStr "extract" then
      match xs with
      | [_, clause] => if isGroupBy clause then none else some clause
      | [_, clause, grouping] => if isGroupBy grouping then some clause else none
      | _ => none
    else some (.vec ctx (op :: xs))
  | a => some a

variable {Row Digest : Type} (env : Env) (blank : Truth) (W : World Row) (embed : FactRow → Row)

/-- Whether a planned filter lets a row through. -/
def passes (filter : Option Ast) (row : FactRow) : Bool :=
  match filter with
  | some clause => meaning blank W "select_facts" clause (embed row) = .yes
  | none => true

/-- The rows that a facts query selects; its columns, calls, grouping and paging are made of
these. -/
def selectedRows (query : QueryRec Json) (userQuery : Ast) (s : FactStore Digest) :
    Except String (List FactRow) :=
  (expandUserQuery env (opsToLower userQuery)).map fun expanded =>
    (sourceRows s query.selection.source).filter (passes blank W embed (planFilter expanded))

/-- The rewritten query selects the rows of the query it is made of. -/
def Transparent (Digest : Type) (userQuery : Ast) : Prop :=
  ∀ s : FactStore Digest, DisjointMaps s →
    selectedRows env blank W embed (rewriteFactQuery (factsQuery Json) userQuery) userQuery s =
      selectedRows env blank W embed (factsQuery Json) userQuery s

/-- The comparisons of fact rows: the column `name` is the key of the row, and a value that is
no clause is no comparison. -/
structure ComparesNames : Prop where
  name : ∀ name row, W.compare "select_facts" (.made [.str "=", .str "name", .str name])
    (embed row) = .ofBool (row.key = name)
  literal : ∀ v row, W.compare "select_facts" (.lit v) (embed row) ≠ .yes

/-! ## What a name constraint demands -/

/-- The clause is an equality with the name, or a conjunction that has one. -/
inductive Demands (name : String) : Ast → Prop
  | equals (ctx : Context) (xs : List Ast) :
    Demands name (.vec ctx (.str "=" :: .str "name" :: .str name :: xs))
  | and (ctx : Context) (xs : List Ast) (x : Ast) (hx : x ∈ xs) (h : Demands name x) :
    Demands name (.vec ctx (.str "and" :: xs))

theorem eq_str_of_str? (a : Ast) (s : String) (h : a.str? = some s) : a = .str s := by
  unfold Ast.str? at h
  split at h <;> simp_all

theorem eq_str_of_isStr (a : Ast) (s : String) (h : a.isStr s = true) : a = .str s :=
  eq_str_of_str? a s (by simpa [Ast.isStr] using h)

mutual

theorem demands_of_nameConstraint (name : String) (a : Ast)
    (h : nameConstraint a = some (.str name)) : Demands name a := by
  match a with
  | .elide | .lit _ | .vec _ [] => simp [nameConstraint] at h
  | .vec ctx (op :: xs) =>
    unfold nameConstraint at h
    split at h
    · next x value ys hop =>
      split at h
      · next hx =>
        simp only [Bool.and_eq_true] at hx
        cases h
        rw [eq_str_of_isStr op "=" hop, eq_str_of_isStr x "name" hx.1]
        exact .equals ctx ys
      · cases h
    · cases h
    · next ys _ _ hop =>
      split at h
      · next hand =>
        obtain ⟨x, hx, hdemands⟩ := demands_of_someConstraint name ys h
        rw [eq_str_of_isStr op "and" hand]
        exact .and ctx ys x hx hdemands
      · cases h

theorem demands_of_someConstraint (name : String) (xs : List Ast)
    (h : someConstraint xs = some (.str name)) : ∃ x ∈ xs, Demands name x := by
  match xs with
  | [] => simp [someConstraint] at h
  | x :: xs =>
    rw [someConstraint] at h
    cases hx : nameConstraint x with
    | none =>
      rw [hx] at h
      obtain ⟨y, hy, hdemands⟩ := demands_of_someConstraint name xs h
      exact ⟨y, List.mem_cons_of_mem _ hy, hdemands⟩
    | some a =>
      rw [hx] at h
      cases h
      exact ⟨x, List.mem_cons_self, demands_of_nameConstraint name x hx⟩

end

theorem allToLower_eq (xs : List Ast) : allToLower xs = xs.map opsToLower := by
  induction xs with
  | nil => simp [allToLower]
  | cons x xs ih => simp [allToLower, ih]

theorem Demands.opsToLower {name : String} {a : Ast} (h : Demands name a) :
    Demands name (opsToLower a) := by
  induction h with
  | equals ctx xs =>
    have hlower : lowerOp (allToLower (.str "=" :: .str "name" :: .str name :: xs)) =
        .str "=" :: .str "name" :: .str name :: allToLower xs := rfl
    rw [FactRows.opsToLower, hlower]
    exact .equals ctx _
  | and ctx xs x hx h ih =>
    have hlower : lowerOp (allToLower (.str "and" :: xs)) = .str "and" :: allToLower xs := rfl
    rw [FactRows.opsToLower, hlower]
    exact .and ctx _ _ (by rw [allToLower_eq]; exact List.mem_map_of_mem hx) ih

/-! ## What the expansion leaves of it -/

theorem mem_expandAll (xs ys : List Ast) (h : expandAll env xs = .ok ys) (x : Ast) (hx : x ∈ xs) :
    ∃ y ∈ ys, expandUserQuery env x = .ok y := by
  induction xs generalizing ys with
  | nil => simp at hx
  | cons z zs ih =>
    obtain ⟨y, rest, hy, hrest, rfl⟩ := expandAll_cons_eq_ok env z zs ys h
    rcases List.mem_cons.mp hx with rfl | hx
    · exact ⟨y, List.mem_cons_self, hy⟩
    · obtain ⟨y', hy', he⟩ := ih rest hrest hx
      exact ⟨y', List.mem_cons_of_mem _ hy', he⟩

/-- A conjunction or a call whose second element is a string is left as it is, or its third is
made a string. -/
theorem expandQueryNode_str (ctx : Context) (op s : String) (y : Ast) (o : Option Ast)
    (hop : op = "and" ∨ op = "function")
    (h : expandQueryNode env (.vec ctx [.str op, .str s, y]) = .ok o) :
    o = none ∨ ∃ field text, o = some (.made [.str op, .str field, .str text]) := by
  have hfirst : ∀ c t : Option Outcome, ([c, none, t].findSome? id).getD (.ok none) =
      c.getD (t.getD (.ok none)) := by
    intro c t
    cases c <;> cases t <;> rfl
  have hrows : expandQueryNode env (.vec ctx [.str op, .str s, y]) =
      (changedValueRow env (.str op) (.str s) y).getD ((tagRow env (.str op) (.str s) y).getD
        (.ok none)) := by
    rcases hop with rfl | rfl
    all_goals
      rw [← hfirst]
      simp [expandQueryNode, rows, factPathRow, extractRow, numericFactFunctions, valueRow,
        typeAnyRow, nodeActiveRow, nodeActiveField, activeOrInactiveRow, nodeActiveIs, nodeStateRow,
        parameterRow, factRow, subqueryRow, latestReportRow, nullRow, Ast.isOp, Ast.isStr,
        Ast.str?, Ast.tagged?]
  rw [hrows] at h
  unfold changedValueRow tagRow at h
  split at h
  · cases h
    exact .inr ⟨_, _, rfl⟩
  · split at h
    · cases htag : y.str? with
      | none =>
        rw [htag] at h
        cases h
      | some tag =>
        rw [htag] at h
        cases h
        exact .inr ⟨_, _, rfl⟩
    · cases h
      exact .inl rfl

theorem expandQueryNode_left (ctx : Context) (op : String) (xs : List Ast) (o : Option Ast)
    (hop : op = "and" ∨ op = "function")
    (h : expandQueryNode env (.vec ctx (.str op :: xs)) = .ok o) :
    o = none ∨ ∃ field text, o = some (.made [.str op, .str field, .str text]) := by
  match xs with
  | [] | [_] | _ :: _ :: _ :: _ =>
    cases h
    exact .inl rfl
  | [x, y] =>
    cases hx : x.str? with
    | some s =>
      rw [eq_str_of_str? x s hx] at h
      exact expandQueryNode_str env ctx op s y o hop h
    | none =>
      rw [expandQueryNode_none env ctx op x y (by rcases hop with rfl | rfl <;> decide)
        (by simp [Ast.isOp, hx]) (by rcases hop with rfl | rfl <;> exact fun h => absurd h (by decide))
        (by rcases hop with rfl | rfl <;> simp [extractRow, Ast.isStr, Ast.str?])
        (by rcases hop with rfl | rfl <;> simp [activeOrInactiveRow, Ast.isStr, Ast.str?])] at h
      cases h
      exact .inl rfl

theorem expandUserQuery_equals (ctx : Context) (name : String) (xs : List Ast) (r : Ast)
    (hr : expandUserQuery env (.vec ctx (.str "=" :: .str "name" :: .str name :: xs)) = .ok r) :
    r = .made [.str "=", .str "name", .str name] := by
  obtain ⟨zs, hzs, hvisit⟩ := expandUserQuery_vec_eq_ok env _ _ r hr
  obtain ⟨_, ys, ho, hys, rfl⟩ := expandAll_cons_eq_ok env _ _ zs hzs
  obtain ⟨_, xs', hx, hxs', rfl⟩ := expandAll_cons_eq_ok env _ _ ys hys
  obtain ⟨_, zs, hy, -, rfl⟩ := expandAll_cons_eq_ok env _ _ xs' hxs'
  rw [expandUserQuery_lit] at ho hx hy
  cases ho
  cases hx
  cases hy
  cases zs with
  | nil =>
    have hpath := factPathRow_plain env "name" (.str "=") (.str name) (by decide)
      (by decide)
    refine visit_of_none env _ _ r ?_ hvisit
    simp [expandQueryNode, rows, hpath, extractRow, valueRow, typeAnyRow, nodeActiveRow,
      nodeActiveField, activeOrInactiveRow, nodeStateRow, parameterRow, factRow, subqueryRow,
      latestReportRow, changedValueRow, nullRow, tagRow, Ast.isOp, Ast.isStr, Ast.str?,
      Ast.tagged?]
  | cons z zs =>
    -- an equality with more than two operands is rejected
    have hrejected : validateBinaryOperators env (.vec ctx (.str "=" :: .str "name" ::
        .str name :: z :: zs)) = .error "= requires exactly two arguments" := rfl
    have hnone : expandQueryNode env (.vec ctx (.str "=" :: .str "name" :: .str name :: z :: zs)) =
        .ok none := rfl
    rw [visit, hnone] at hvisit
    simp only [bind, Except.bind, Option.getD_none, hrejected] at hvisit
    cases hvisit

/-- A row passes a conjunction when it passes each operand. -/
theorem meaning_and (x : Ast) (xs : List Ast) (row : Row)
    (h : meaning blank W "select_facts" (.made (.str "and" :: x :: xs)) row = .yes) :
    ∀ y ∈ x :: xs, meaning blank W "select_facts" y row = .yes := by
  have hall : meaning blank W "select_facts" (.made (.str "and" :: x :: xs)) row =
      .all ((x :: xs).map fun y => meaning blank W "select_facts" y row) := by
    rw [meaning, meanings_eq_map]
    simp [combine]
  rw [hall, Truth.all_eq_yes_iff] at h
  exact fun y hy => h _ (List.mem_map_of_mem hy)

/-- What the expansion of a demanding clause demands. -/
theorem Demands.expand {name : String} {a : Ast} (h : Demands name a)
    (hW : ComparesNames W embed) (r : Ast) (hr : expandUserQuery env a = .ok r) :
    (∃ op x xs, r = .made (.str op :: x :: xs) ∧ op ∈ ["=", "and"]) ∧
      ∀ row, meaning blank W "select_facts" r (embed row) = .yes → row.key = name := by
  induction h generalizing r with
  | equals ctx xs =>
    rw [expandUserQuery_equals env ctx name xs r hr]
    refine ⟨⟨"=", _, _, rfl, by decide⟩, fun row hrow => ?_⟩
    simp only [meaning, combine] at hrow
    have hcompare : W.compare "select_facts" (.made [.str "=", .str "name", .str name])
        (embed row) = .yes := by
      simpa using hrow
    rw [hW.name, Truth.ofBool_eq_yes] at hcompare
    exact of_decide_eq_true hcompare
  | and ctx xs x hx h ih =>
    obtain ⟨zs, hzs, hvisit⟩ := expandUserQuery_vec_eq_ok env _ _ r hr
    obtain ⟨_, ys, ho, hys, rfl⟩ := expandAll_cons_eq_ok env _ _ zs hzs
    rw [expandUserQuery_lit] at ho
    cases ho
    obtain ⟨y, hy, hexpand⟩ := mem_expandAll env xs ys hys x hx
    obtain ⟨⟨op, z, zs, rfl, hop⟩, hdemands⟩ := ih y hexpand
    obtain ⟨o, ho, rfl⟩ := visit_eq_ok env _ r hvisit
    obtain rfl | ⟨field, text, rfl⟩ := expandQueryNode_left env ctx "and" ys o (.inl rfl) ho
    · -- the clause stays among the operands
      have hmem : (.made (.str op :: z :: zs) : Ast) ∈ ys.filter fun x => !removable x :=
        List.mem_filter.mpr ⟨hy, by simp⟩
      obtain ⟨u, us, hus⟩ := List.exists_cons_of_ne_nil (List.ne_nil_of_mem hmem)
      have hleft : removeElidedNodes ((none : Option Ast).getD (.vec ctx (.str "and" :: ys))) =
          .made (.str "and" :: u :: us) := by
        rw [← hus]
        rfl
      rw [hleft]
      refine ⟨⟨"and", u, us, rfl, by decide⟩, fun row hrow => hdemands row ?_⟩
      exact meaning_and blank W u us _ hrow _ (hus ▸ hmem)
    · refine ⟨⟨"and", _, _, rfl, by decide⟩, fun row hrow => ?_⟩
      have hfield := meaning_and blank W (.str field) [.str text] _ hrow _ List.mem_cons_self
      rw [meaning] at hfield
      exact absurd hfield (hW.literal _ row)

/-! ## Columns -/

/-- A column of a facts query: a field or a call of a function. -/
def isColumn : Ast → Bool
  | .lit (.str s) => ["certname", "environment", "name", "value"].contains s
  | .vec _ (f :: _) => f.isStr "function"
  | _ => false

/-- The columns of an `extract` that `validate-query-fields` lets pass. -/
def validColumns : Ast → Bool
  | .vec _ xs => xs.all isColumn
  | a => isColumn a

/-- What the expansion leaves of a column. -/
def ColumnImage (a : Ast) : Prop :=
  (∃ s, a = .str s ∧ s ∈ ["certname", "environment", "name", "value"]) ∨
    ∃ xs, a = .made (.str "function" :: xs)

theorem ColumnImage.not_removable {a : Ast} (h : ColumnImage a) : removable a = false := by
  obtain ⟨s, rfl, -⟩ | ⟨xs, rfl⟩ := h
  · rfl
  · cases xs with
    | nil => rfl
    | cons x xs => exact removable_vec_cons_cons _ _ x xs

theorem ColumnImage.not_rewritten {a : Ast} (h : ColumnImage a) :
    a.isOp ["new_value", "old_value", "tag"] = false := by
  obtain ⟨s, rfl, hs⟩ | ⟨xs, rfl⟩ := h
  · simp only [List.mem_cons, List.not_mem_nil, or_false] at hs
    rcases hs with rfl | rfl | rfl | rfl <;> decide
  · rfl

theorem columnImage_expand (a : Ast) (h : isColumn a = true) (r : Ast)
    (hr : expandUserQuery env (opsToLower a) = .ok r) : ColumnImage r := by
  match a with
  | .elide | .lit .null | .lit (.bool _) | .lit (.int _) | .lit (.float _ _) | .lit (.arr _)
  | .lit (.obj _) | .vec _ [] => simp [isColumn] at h
  | .lit (.str s) =>
    have hlower : opsToLower (.lit (.str s)) = .lit (.str s) := by simp [opsToLower]
    rw [hlower, expandUserQuery_lit] at hr
    cases hr
    exact .inl ⟨s, rfl, by simpa [isColumn] using h⟩
  | .vec ctx (f :: xs) =>
    rw [eq_str_of_isStr f "function" h] at hr
    have hlower : opsToLower (.vec ctx (.str "function" :: xs)) =
        .vec ctx (.str "function" :: allToLower xs) := by
      rw [opsToLower]
      rfl
    rw [hlower] at hr
    obtain ⟨zs, hzs, hvisit⟩ := expandUserQuery_vec_eq_ok env _ _ r hr
    obtain ⟨_, ys, ho, -, rfl⟩ := expandAll_cons_eq_ok env _ _ zs hzs
    rw [expandUserQuery_lit] at ho
    cases ho
    obtain ⟨o, ho, rfl⟩ := visit_eq_ok env _ r hvisit
    obtain rfl | ⟨field, text, rfl⟩ := expandQueryNode_left env ctx "function" ys o (.inr rfl) ho
    · exact .inr ⟨_, rfl⟩
    · exact .inr ⟨_, rfl⟩

/-- Columns are no node that the expansion rewrites. -/
theorem expandQueryNode_columns (ctx : Context) (rs : List Ast) (h : ∀ r ∈ rs, ColumnImage r) :
    expandQueryNode env (.vec ctx rs) = .ok none := by
  match rs with
  | [] | [_] | [_, _] | _ :: _ :: _ :: _ :: _ => rfl
  | [op, x, y] =>
    have hx := (h x (by simp)).not_rewritten
    obtain ⟨s, rfl, hs⟩ | ⟨xs, rfl⟩ := h op (by simp)
    · simp only [List.mem_cons, List.not_mem_nil, or_false] at hs
      refine expandQueryNode_none env ctx s x y ?_ hx ?_ ?_ ?_
      · rcases hs with rfl | rfl | rfl | rfl <;> decide
      · rcases hs with rfl | rfl | rfl | rfl <;> exact fun h => absurd h (by decide)
      · rcases hs with rfl | rfl | rfl | rfl <;> simp [extractRow, Ast.isStr, Ast.str?]
      · rcases hs with rfl | rfl | rfl | rfl <;> simp [activeOrInactiveRow, Ast.isStr, Ast.str?]
    · have hchanged : x.isOp ["new_value", "old_value"] = false := by
        cases hs : x.str? with
        | none => simp [Ast.isOp, hs]
        | some s => simp_all [Ast.isOp]
      have htag : x.isStr "tag" = false := by
        cases hs : x.str? with
        | none => simp [Ast.isStr, hs]
        | some s => simp_all [Ast.isOp, Ast.isStr]
      have hop : ∀ ops, (Ast.made (.str "function" :: xs)).isOp ops = false := fun _ => rfl
      have hstr : ∀ s, (Ast.made (.str "function" :: xs)).isStr s = false := fun _ => rfl
      have hfact : factRow env (.made (.str "function" :: xs)) x y = none := by
        cases htagged : x.tagged? "fact" <;> simp [factRow, htagged, hop, hstr]
      simp [expandQueryNode, rows, factPathRow, extractRow, valueRow, typeAnyRow, nodeActiveRow,
        activeOrInactiveRow, nodeStateRow, parameterRow, hfact, subqueryRow, latestReportRow,
        changedValueRow, nullRow, tagRow, hop, hstr, hchanged, htag]

theorem lowerOp_columns (xs : List Ast) (h : ∀ x ∈ xs, isColumn x = true) :
    lowerOp (allToLower xs) = allToLower xs := by
  rw [allToLower_eq]
  cases xs with
  | nil => rfl
  | cons x xs =>
    have hx := h x List.mem_cons_self
    match x with
    | .elide | .lit .null | .lit (.bool _) | .lit (.int _) | .lit (.float _ _) | .lit (.arr _)
    | .lit (.obj _) | .vec _ [] => simp [isColumn] at hx
    | .lit (.str s) =>
      have hlower : opsToLower (.lit (.str s)) = .lit (.str s) := by simp [opsToLower]
      have hs : validOperator (lower s) = false := by
        simp only [isColumn, List.contains_iff_mem, List.mem_cons, List.not_mem_nil,
          or_false] at hx
        rcases hx with rfl | rfl | rfl | rfl <;> decide
      simp [hlower, lowerOp, hs]
    | .vec ctx (f :: fs) =>
      have hlower : ∃ zs, opsToLower (.vec ctx (f :: fs)) = .vec ctx zs := by
        exact ⟨_, by rw [opsToLower]⟩
      obtain ⟨zs, hzs⟩ := hlower
      simp [hzs, lowerOp]

theorem forall_expandAll (P : Ast → Prop) (xs ys : List Ast) (h : expandAll env xs = .ok ys)
    (hxs : ∀ x ∈ xs, ∀ y, expandUserQuery env x = .ok y → P y) : ∀ y ∈ ys, P y := by
  induction xs generalizing ys with
  | nil =>
    simp only [expandAll, pure, Except.pure, Except.ok.injEq] at h
    simp [← h]
  | cons x xs ih =>
    obtain ⟨y, rest, hy, hrest, rfl⟩ := expandAll_cons_eq_ok env x xs ys h
    exact List.forall_mem_cons.mpr ⟨hxs x List.mem_cons_self y hy,
      ih rest hrest fun z hz => hxs z (List.mem_cons_of_mem _ hz)⟩

theorem validColumns_expand (a : Ast) (h : validColumns a = true) (r : Ast)
    (hr : expandUserQuery env (opsToLower a) = .ok r) :
    removable r = false ∧ r.isOp ["new_value", "old_value", "tag"] = false := by
  match a with
  | .elide => simp [validColumns, isColumn] at h
  | .lit v =>
    have himage := columnImage_expand env (.lit v) h r hr
    exact ⟨himage.not_removable, himage.not_rewritten⟩
  | .vec ctx xs =>
    have hxs : ∀ x ∈ xs, isColumn x = true := List.all_eq_true.mp h
    rw [opsToLower, lowerOp_columns xs hxs, allToLower_eq] at hr
    obtain ⟨zs, hzs, hvisit⟩ := expandUserQuery_vec_eq_ok env _ _ r hr
    have himages : ∀ z ∈ zs, ColumnImage z := by
      refine forall_expandAll env ColumnImage _ zs hzs fun x hx y hy => ?_
      obtain ⟨column, hcolumn, rfl⟩ := List.mem_map.mp hx
      exact columnImage_expand env column (hxs column hcolumn) y hy
    have hr := visit_of_none env _ _ r (expandQueryNode_columns env ctx zs himages) hvisit
    have hkept : zs.filter (fun x => !removable x) = zs :=
      List.filter_eq_self.mpr fun z hz => by simp [(himages z hz).not_removable]
    rw [hr, hkept]
    refine ⟨?_, rfl⟩
    match zs with
    | [] => rfl
    | _ :: _ :: _ => exact removable_vec_cons_cons _ _ _ _
    | [z] =>
      obtain ⟨s, rfl, hs⟩ | ⟨ys, rfl⟩ := himages z List.mem_cons_self
      · simp only [List.mem_cons, List.not_mem_nil, or_false] at hs
        rcases hs with rfl | rfl | rfl | rfl <;> decide
      · rfl

/-! ## The rows of the rewritten query -/

/-- The columns of a query are valid, where it is an `extract`. -/
def acceptedColumns : Ast → Bool
  | .vec _ (op :: columns :: _) => !op.isStr "extract" || validColumns columns
  | _ => true

theorem planFilter_extract (columns c : Ast) (rest : List Ast) (f : Ast)
    (hc : isGroupBy c = false)
    (h : planFilter (.made (.str "extract" :: columns :: c :: rest)) = some f) : f = c := by
  match rest with
  | [] => simpa [planFilter, Ast.isStr, Ast.str?, hc, eq_comm] using h
  | [grouping] =>
    simp only [planFilter, Ast.isStr, Ast.str?, BEq.rfl, if_true] at h
    split at h
    · exact (Option.some.inj h).symm
    · cases h
  | _ :: _ :: _ => simp [planFilter, Ast.isStr, Ast.str?] at h

/-- An `extract` is left as it is, or its filter is restricted to numbers. -/
theorem expandQueryNode_extract (ctx : Context) (columns c : Ast) (further : List Ast)
    (o : Option Ast) (hcolumns : columns.isOp ["new_value", "old_value", "tag"] = false)
    (h : expandQueryNode env (.vec ctx (.str "extract" :: columns :: c :: further)) = .ok o) :
    o = none ∨ further = [] ∧
      o = some (.made [.str "extract", columns, .made [.str "and", typeofValue "number", c]]) := by
  cases further with
  | cons z zs =>
    cases h
    exact .inl rfl
  | nil =>
    cases hextract : extractRow ctx (.str "extract") columns c with
    | none =>
      rw [expandQueryNode_none env ctx "extract" columns c (by decide) hcolumns
        (fun h => absurd h (by decide)) hextract
        (by simp [activeOrInactiveRow, Ast.isStr, Ast.str?])] at h
      cases h
      exact .inl rfl
    | some outcome =>
      have hfirst : expandQueryNode env (.vec ctx [.str "extract", columns, c]) = outcome := by
        simp [expandQueryNode, rows, factPathRow, hextract, Ast.isOp, Ast.str?]
      rw [hfirst] at h
      subst h
      unfold extractRow at hextract
      split at hextract
      · split at hextract
        · cases hextract
          exact .inr ⟨rfl, rfl⟩
        · cases hextract
          exact .inl rfl
      · cases hextract

/-- The planned filter of a query that names a fact lets only rows of this fact through. -/
theorem planned_demands (hW : ComparesNames W embed) (name : String) (userQuery : Ast)
    (hdemands : Demands name (constrainedClause userQuery))
    (hcolumns : acceptedColumns userQuery = true) (r : Ast)
    (hr : expandUserQuery env (opsToLower userQuery) = .ok r) (f : Ast)
    (hf : planFilter r = some f) (row : FactRow)
    (hrow : meaning blank W "select_facts" f (embed row) = .yes) : row.key = name := by
  -- a query that is a clause is its own filter
  have hclause : ∀ userQuery, Demands name userQuery →
      expandUserQuery env (opsToLower userQuery) = .ok r → row.key = name := by
    intro userQuery hdemands hr
    obtain ⟨⟨op, x, xs, rfl, hop⟩, hall⟩ := hdemands.opsToLower.expand env blank W embed hW r hr
    refine hall row ?_
    have hself : planFilter (.made (.str op :: x :: xs)) = some (.made (.str op :: x :: xs)) := by
      simp only [List.mem_cons, List.not_mem_nil, or_false] at hop
      rcases hop with rfl | rfl <;> simp [planFilter, Ast.isStr, Ast.str?]
    rw [hself] at hf
    exact Option.some.inj hf ▸ hrow
  obtain ⟨ctx, op, columns, clause, further, rfl⟩ | hshort :
      (∃ ctx op columns clause further, userQuery = .vec ctx (op :: columns :: clause :: further)) ∨
        constrainedClause userQuery = userQuery := by
    cases userQuery with
    | elide => exact .inr rfl
    | lit v => exact .inr rfl
    | vec ctx xs =>
      cases xs with
      | nil => exact .inr rfl
      | cons op xs =>
        cases xs with
        | nil => exact .inr rfl
        | cons columns xs =>
          cases xs with
          | nil => exact .inr rfl
          | cons clause further => exact .inl ⟨ctx, op, columns, clause, further, rfl⟩
  · cases hop : op.isStr "extract" with
    | false =>
      rw [constrainedClause, hop] at hdemands
      exact hclause _ hdemands hr
    | true =>
      rw [constrainedClause, hop, if_pos rfl] at hdemands
      rw [acceptedColumns, hop] at hcolumns
      rw [eq_str_of_isStr op "extract" hop, opsToLower] at hr
      obtain ⟨zs, hzs, hvisit⟩ := expandUserQuery_vec_eq_ok env _ _ r hr
      have hlower : lowerOp (allToLower (.str "extract" :: columns :: clause :: further)) =
          .str "extract" :: opsToLower columns :: opsToLower clause :: allToLower further := rfl
      rw [hlower] at hzs
      obtain ⟨_, ys, ho, hys, rfl⟩ := expandAll_cons_eq_ok env _ _ zs hzs
      obtain ⟨columns', xs, hcolumns', hxs, rfl⟩ := expandAll_cons_eq_ok env _ _ ys hys
      obtain ⟨c, zs, hc, -, rfl⟩ := expandAll_cons_eq_ok env _ _ xs hxs
      rw [expandUserQuery_lit] at ho
      cases ho
      obtain ⟨hkept, hplain⟩ := validColumns_expand env columns (by simpa using hcolumns) columns'
        hcolumns'
      obtain ⟨⟨op', x, xs, rfl, hop'⟩, hall⟩ :=
        hdemands.opsToLower.expand env blank W embed hW c hc
      have hgroup : isGroupBy (.made (.str op' :: x :: xs)) = false := by
        simp only [List.mem_cons, List.not_mem_nil, or_false] at hop'
        rcases hop' with rfl | rfl <;> simp [isGroupBy, Ast.isStr, Ast.str?]
      obtain ⟨o, ho, rfl⟩ := visit_eq_ok env _ r hvisit
      obtain rfl | ⟨rfl, rfl⟩ := expandQueryNode_extract env ctx columns' _ zs o hplain ho
      · have hleft : removeElidedNodes ((none : Option Ast).getD (.vec ctx (.str "extract" ::
            columns' :: .made (.str op' :: x :: xs) :: zs))) =
            .made (.str "extract" :: columns' :: .made (.str op' :: x :: xs) ::
              zs.filter fun z => !removable z) := by
          simp [removeElidedNodes, hkept]
        rw [hleft] at hf
        exact hall row (planFilter_extract _ _ _ f hgroup hf ▸ hrow)
      · have hleft : removeElidedNodes ((some (.made [.str "extract", columns', .made [.str "and",
            typeofValue "number", .made (.str op' :: x :: xs)]])).getD (.vec ctx [.str "extract",
              columns', .made (.str op' :: x :: xs)])) =
            .made [.str "extract", columns', .made [.str "and", typeofValue "number",
              .made (.str op' :: x :: xs)]] := by
          simp [removeElidedNodes, hkept]
        rw [hleft] at hf
        have hf := planFilter_extract _ _ _ f (by simp [isGroupBy, Ast.isStr, Ast.str?]) hf
        rw [hf] at hrow
        exact hall row (meaning_and blank W _ _ _ hrow _ (by simp))
  · rw [hshort] at hdemands
    exact hclause _ hdemands hr

/-- The rewriting of a facts query that names a fact is transparent exactly when the planner
takes a filter from it. -/
theorem transparent_iff [Inhabited Digest] (hW : ComparesNames W embed) (userQuery : Ast)
    (name : String) (hname : nameConstraint (constrainedClause userQuery) = some (.str name))
    (hcolumns : acceptedColumns userQuery = true) :
    Transparent env blank W embed Digest userQuery ↔
      ∀ r, expandUserQuery env (opsToLower userQuery) = .ok r → (planFilter r).isSome = true := by
  have hrewrite : (rewriteFactQuery (factsQuery Json) userQuery).selection.source =
      .factNamed (.str name) := by
    rw [rewriteFactQuery, if_pos rfl, hname]
    rfl
  have horiginal : ∃ tables, (factsQuery Json).selection.source = .tables tables := ⟨_, rfl⟩
  obtain ⟨tables, htables⟩ := horiginal
  unfold Transparent selectedRows
  rw [hrewrite, htables]
  constructor
  · intro h r hr
    rw [← Option.not_isNone, Bool.not_eq_true', Bool.eq_false_iff]
    intro hnone
    -- without a filter the query returns facts of every name
    have hsame := h (storeOf (name ++ "x") .null) (disjointMaps_storeOf _ _)
    have hall : ∀ rows : List FactRow, rows.filter (passes blank W embed (planFilter r)) = rows :=
      fun rows => List.filter_eq_self.mpr fun row _ => by
        rw [Option.isNone_iff_eq_none.mp hnone]
        rfl
    rw [hr] at hsame
    simp only [Except.map, hall, Except.ok.injEq] at hsame
    have hkey := key_of_mem_factNamed (storeOf (name ++ "x") .null : FactStore Digest) name _
      (hsame ▸ mem_sourceRows_storeOf (name ++ "x") .null tables)
    simp at hkey
  · intro h s hs
    cases hr : expandUserQuery env (opsToLower userQuery) with
    | error e => rfl
    | ok r =>
      obtain ⟨f, hf⟩ := Option.isSome_iff_exists.mp (h r hr)
      refine congrArg Except.ok (sourceRows_filter s hs tables name _ fun row hrow => ?_).symm
      simp only [passes, hf, decide_eq_true_eq] at hrow
      exact planned_demands env blank W embed hW name userQuery
        (demands_of_nameConstraint name _ hname) hcolumns r hr f hf row hrow

/-! ## Facts of one node -/

/-- Comparisons of fact rows with a name; no other clause holds. -/
def namedFacts : World FactRow where
  compare
    | _, .vec _ [.lit (.str "="), .lit (.str "name"), .lit (.str name)], row =>
      .ofBool (row.key = name)
    | _, _, _ => .no
  rows _ := []
  equal _ _ _ _ _ := .no

theorem comparesNames_namedFacts : ComparesNames namedFacts id where
  name _ _ := rfl
  literal _ _ := nofun

/-- `["extract" "certname" ["=" "name" "a"] ["=" "certname" "n"]]` -/
def strayClause : Ast :=
  .made [.str "extract", .str "certname", .made [.str "=", .str "name", .str "a"],
    .made [.str "=", .str "certname", .str "n"]]

/-- With a clause behind the filter the planner takes no filter: the query returns every fact,
the rewritten query those with the name. -/
theorem transparent_fails :
    (nameConstraint (constrainedClause strayClause) = some (.str "a") ∧
      acceptedColumns strayClause = true ∧
      expandUserQuery nodesEnv (opsToLower strayClause) = .ok strayClause ∧
      planFilter strayClause = none) ∧
    ¬ Transparent nodesEnv .yes namedFacts id (List Char) strayClause := by
  refine ⟨⟨rfl, by decide, rfl, rfl⟩, fun h => ?_⟩
  have hsame := h (storeOf "b" .null) (disjointMaps_storeOf "b" .null)
  have horiginal : selectedRows nodesEnv .yes namedFacts id (factsQuery Json) strayClause
      (storeOf "b" .null : FactStore (List Char)) = .ok [⟨"n", none, "b", some .null⟩] := by
    decide +kernel
  have hrewritten : selectedRows nodesEnv .yes namedFacts id
      (rewriteFactQuery (factsQuery Json) strayClause) strayClause
        (storeOf "b" .null : FactStore (List Char)) = .ok [] := by
    decide +kernel
  rw [horiginal, hrewritten] at hsame
  cases hsame

/-- `["extract" "certname" ["and" ["=" "name" "a"] ["=" "name" "b"]] ["group_by" "certname"]]` -/
def twoNames : Ast :=
  .made [.str "extract", .str "certname",
    .made [.str "and", .made [.str "=", .str "name", .str "a"],
      .made [.str "=", .str "name", .str "b"]],
    .made [.str "group_by", .str "certname"]]

theorem transparent_iff_twoNames :
    Transparent nodesEnv .yes namedFacts id (List Char) twoNames ↔
      ∀ r, expandUserQuery nodesEnv (opsToLower twoNames) = .ok r →
        (planFilter r).isSome = true :=
  transparent_iff nodesEnv .yes namedFacts id comparesNames_namedFacts twoNames "a" rfl
    (by decide)

end OpenVoxDB.FactRows
