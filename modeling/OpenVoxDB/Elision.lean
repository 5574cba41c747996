import OpenVoxDB.QueryExpansion

/-!
# Eliding the criteria that let everything pass

Queries of `and`, `or`, `not`, subqueries and leaf clauses, and what
`expand-user-query` makes of them.
-/

namespace OpenVoxDB.Elision

open QueryExpansion

/-! ## Queries -/

/-- A field or a value of a comparison: a value, a list of values, or `["array" values]`. -/
inductive Operand where
  | one (v : Json)
  | many (vs : List Json)
  | array (vs : List Json)

namespace Operand

def ast (ctx : Context) : Operand → Ast
  | one v => .lit v
  | many vs => .vec ctx (vs.map .lit)
  | array vs => .vec ctx [.str "array", .vec ctx (vs.map .lit)]

/-- A list of values that no visitor takes for a clause. -/
def StillList (env : Env) (vs : List Json) : Prop :=
  ∀ ctx, visit env (.vec ctx (vs.map .lit)) = .ok (.made (vs.map .lit))

def Still (env : Env) : Operand → Prop
  | one _ => True
  | many vs | array vs => StillList env vs

end Operand

/-- The operators of the clauses that relate a field to a value. -/
def leafOperators : List String := ["=", ">", "<", ">=", "<=", "~", "~>", "null?", "in"]

/-- A clause that relates a field to a value, none of those with a meaning of their own. -/
structure Leaf (env : Env) where
  op : String
  field : Operand
  value : Operand
  op_mem : op ∈ leafOperators
  field_still : field.Still env
  value_still : value.Still env
  not_nodeState : field ≠ .one (.str "node_state")
  not_nodeActive : field ≠ .many [.str "node", .str "active"]
  not_typeAny : ¬ (op = "=" ∧ field = .one (.str "type") ∧ value = .one (.str "any"))

/-- The columns of a subquery, none of which is rewritten with the value beside it. -/
structure Columns (env : Env) where
  operand : Operand
  still : operand.Still env
  not_array : ∀ vs, operand ≠ .array vs
  not_rewritten : ∀ s ∈ ["new_value", "old_value", "tag"], operand ≠ .one (.str s)

/-- The columns that a subquery compares, and the entity that it ranges over. -/
structure Link (env : Env) where
  columns : Columns env
  entity : String
  foreign : Columns env
  entity_not_rewritten : entity ∉ ["new_value", "old_value", "tag"]

/-- `select` is `["in" columns ["extract" foreign ["select_entity" filter]]]`, `fromEntity` is
`["in" columns ["from" entity ["extract" foreign filter]]]`, and `implicit` is
`["subquery" entity filter]`. -/
inductive Clause (env : Env) where
  | leaf (l : Leaf env)
  | typeAny
  | nodeState (s : String)
  | nodeActive (v : Json)
  | and (cs : List (Clause env))
  | or (cs : List (Clause env))
  | not (c : Clause env)
  | select (link : Link env) (filter : Clause env)
  | fromEntity (link : Link env) (filter : Clause env)
  | implicit (entity : String) (filter : Clause env)

/-- The name of the query record of an entity. -/
def selectName (entity : String) : String := "select_" ++ entity

/-- The contexts of the query records; no relationship has an operator for its column. -/
structure Schema where
  context : String → Context
  columns_plain : ∀ name entity rel,
    (context name).relationships.lookup entity = some rel →
    ∀ columns, rel.localColumns.or rel.columns = some columns →
      removable (.made (columns.map .str)) = false

/-- Whether `type` is the type of a report. -/
def reportType (ctx : Context) : Bool :=
  (ctx.projections.lookup "type").map Projection.field == some "reports.report_type"

variable {env : Env} (schema : Schema)

namespace Clause

/-- The induction over a query, its subqueries included. -/
theorem ind {P : Clause env → Prop} (leaf : ∀ l, P (.leaf l)) (typeAny : P .typeAny)
    (nodeState : ∀ s, P (.nodeState s)) (nodeActive : ∀ v, P (.nodeActive v))
    (and : ∀ cs, (∀ c ∈ cs, P c) → P (.and cs)) (or : ∀ cs, (∀ c ∈ cs, P c) → P (.or cs))
    (not : ∀ c, P c → P (.not c)) (select : ∀ link c, P c → P (.select link c))
    (fromEntity : ∀ link c, P c → P (.fromEntity link c))
    (implicit : ∀ entity c, P c → P (.implicit entity c)) : ∀ c, P c :=
  Clause.rec (motive_1 := P) (motive_2 := fun cs => ∀ c ∈ cs, P c) leaf typeAny nodeState
    nodeActive and or not select fromEntity implicit (fun _ h => nomatch h)
    (fun _ _ hc hcs => List.forall_mem_cons.mpr ⟨hc, hcs⟩)

mutual

/-- The clause as the user writes it, in a context. -/
def ast (name : String) : Clause env → Ast
  | leaf l => .vec (schema.context name) [.str l.op, l.field.ast (schema.context name),
      l.value.ast (schema.context name)]
  | typeAny => .vec (schema.context name) [.str "=", .str "type", .str "any"]
  | nodeState s => .vec (schema.context name) [.str "=", .str "node_state", .str s]
  | nodeActive v => .vec (schema.context name)
      [.str "=", .vec (schema.context name) [.str "node", .str "active"], .lit v]
  | and cs => .vec (schema.context name) (.str "and" :: asts name cs)
  | or cs => .vec (schema.context name) (.str "or" :: asts name cs)
  | not c => .vec (schema.context name) [.str "not", ast name c]
  | select link c => .vec (schema.context name) [.str "in",
      link.columns.operand.ast (schema.context name),
      .vec (schema.context (selectName link.entity)) [.str "extract",
        link.foreign.operand.ast (schema.context (selectName link.entity)),
        .vec (schema.context (selectName link.entity)) [.str (selectName link.entity),
          ast (selectName link.entity) c]]]
  | fromEntity link c => .vec (schema.context name) [.str "in",
      link.columns.operand.ast (schema.context name),
      .vec (schema.context (selectName link.entity)) [.str "from", .str link.entity,
        .vec (schema.context (selectName link.entity)) [.str "extract",
          link.foreign.operand.ast (schema.context (selectName link.entity)),
          ast (selectName link.entity) c]]]
  | implicit entity c => .vec (schema.context name) [.str "subquery", .str entity,
      ast (selectName entity) c]

def asts (name : String) : List (Clause env) → List Ast
  | [] => []
  | c :: cs => ast name c :: asts name cs

end

end Clause

/-! ## What the expansion makes of a query -/

/-- What `expand-query-node` makes of a leaf whose operands are left as they are. -/
def Leaf.image (name : String) (l : Leaf env) : Ast :=
  match expandQueryNode env (.vec (schema.context name)
      [.str l.op, l.field.ast .none, l.value.ast .none]) with
  | .ok (some node) => node
  | _ => .made [.str l.op, l.field.ast .none, l.value.ast .none]

/-- The operands that `remove-elided-nodes` keeps. -/
def keep (xs : List Ast) : List Ast := xs.filter fun x => !removable x

/-- A subquery on an entity without a relationship, which is rejected. -/
def unrelated (entity : String) : Ast := .made [.str "subquery", .str entity, .elide]

/-- The columns of the relationship of a query record with an entity. -/
def relationshipColumns (name entity : String) : Option (List String × List String) := do
  let rel ← (schema.context name).relationships.lookup entity
  let localColumns ← rel.localColumns.or rel.columns
  let foreignColumns ← rel.foreignColumns.or rel.columns
  return (localColumns, foreignColumns)

/-- `["in" columns ["extract" foreign subquery]]`, on columns from a relationship. -/
def relationshipImage (name entity : String) (filter : Ast) : Ast :=
  match relationshipColumns schema name entity with
  | some (localColumns, foreignColumns) =>
    .made [.str "in", .made (localColumns.map .str),
      .made [.str "extract", .made (foreignColumns.map .str),
        .made [.str (selectName entity), filter]]]
  | none => unrelated entity

/-- The expansion of a clause, when the clause is accepted. -/
def Clause.image (name : String) : Clause env → Ast
  | leaf l => l.image schema name
  | typeAny => .elide
  | nodeState s =>
    if env.lowerCase s = "active" then notActive
    else if env.lowerCase s = "inactive" then inactive
    else .elide
  | nodeActive v => if v.truthy then notActive else inactive
  | and cs => .made (.str "and" :: keep (cs.map (image name)))
  | or cs => .made (.str "or" :: keep (cs.map (image name)))
  | not c => .made (.str "not" :: keep [image name c])
  | select link c => .made [.str "in", link.columns.operand.ast .none,
      .made [.str "extract", link.foreign.operand.ast .none,
        .made (.str (selectName link.entity) :: keep [image (selectName link.entity) c])]]
  | fromEntity link c => .made [.str "in", link.columns.operand.ast .none,
      .made [.str "from", .str link.entity,
        .made (.str "extract" :: link.foreign.operand.ast .none ::
          keep [image (selectName link.entity) c])]]
  | implicit entity c => relationshipImage schema name entity (image (selectName entity) c)

/-! ## The traversal computes the image -/

@[simp] theorem not_removable_of_stillList (env : Env) (ctx : Context) (vs : List Json)
    (h : Operand.StillList env vs) : removable (.vec ctx (vs.map .lit)) = false := by
  match vs with
  | [] => rfl
  | [.str op] =>
    have hvisit : visit env (.vec .none [.str op]) = .ok (.made [.str op]) := h .none
    by_contra hne
    have hop : op = "not" ∨ op = "and" ∨ op = "or" := by simp [removable] at hne; grind
    obtain rfl | rfl | rfl := hop <;>
      simp [visit, expandQueryNode, validateBinaryOperators, validateOperands, bind,
        Except.bind] at hvisit
  | [.null] | [.bool _] | [.int _] | [.float _ _] | [.arr _] | [.obj _] => rfl
  | _ :: _ :: _ => exact removable_vec_cons_cons ..

theorem Operand.expand (o : Operand) (ho : o.Still env) (ctx : Context) :
    expandUserQuery env (o.ast ctx) = .ok (o.ast .none) := by
  match o, ho with
  | .one v, _ => exact expandUserQuery_lit env v
  | .many vs, ho =>
    simpa [ast, expandUserQuery, expandAll_lits, bind, Except.bind] using ho ctx
  | .array vs, ho =>
    have hvs : expandUserQuery env (.vec ctx (vs.map .lit)) = .ok (.made (vs.map .lit)) := by
      simpa [expandUserQuery, expandAll_lits, bind, Except.bind] using ho ctx
    have hkeep := not_removable_of_stillList env .none vs ho
    rw [ast, expandUserQuery]
    simp [expandAll, expandUserQuery_lit, hvs, hkeep, visit, expandQueryNode,
      validateBinaryOperators, validateOperands, simpleBinaryOperators, removeElidedNodes, ast,
      bind, Except.bind, pure, Except.pure]

theorem Operand.not_removable (o : Operand) (ho : o.Still env) :
    removable (o.ast .none) = false := by
  match o, ho with
  | .one _, _ => rfl
  | .many vs, ho => exact not_removable_of_stillList env .none vs ho
  | .array vs, _ => exact removable_vec_cons_cons ..

theorem Columns.not_rewritten' (columns : Columns env) :
    (columns.operand.ast .none).isOp ["new_value", "old_value", "tag"] = false := by
  have h := columns.not_rewritten
  match hc : columns.operand with
  | .one (.str s) =>
    rw [hc] at h
    have hs : s ∉ ["new_value", "old_value", "tag"] := fun hmem => h s hmem rfl
    simpa [Operand.ast, Ast.isOp, Ast.str?] using hs
  | .one .null | .one (.bool _) | .one (.int _) | .one (.float _ _) | .one (.arr _)
  | .one (.obj _) | .many _ | .array _ => rfl

theorem Columns.not_numeric (columns : Columns env) :
    numericFactFunctions (columns.operand.ast .none) = false := by
  have h := columns.not_array
  match hc : columns.operand with
  | .one _ => rfl
  | .array vs => exact absurd hc (h vs)
  | .many vs => simp [Operand.ast, numericFactFunctions, numericCall]

theorem selectName_not_junction (entity : String) :
    selectName entity ≠ "not" ∧ selectName entity ≠ "and" ∧ selectName entity ≠ "or" := by
  refine ⟨?_, ?_, ?_⟩ <;> intro h <;>
    simpa [selectName, String.toList_append] using congrArg String.toList h

theorem not_removable_select (entity : String) (xs : List Ast) :
    removable (.made (.str (selectName entity) :: xs)) = false := by
  cases xs with
  | nil => simp [removable, selectName_not_junction entity]
  | cons x xs => exact removable_vec_cons_cons ..

theorem keep_select (entity : String) (xs : List Ast) :
    keep [.made (.str (selectName entity) :: xs)] = [.made (.str (selectName entity) :: xs)] :=
  List.filter_eq_self.mpr (by simp [not_removable_select])

/-- The image of a clause: elided, or a vector that is no comparison on the activity of a
node. -/
structure Clausal (a : Ast) : Prop where
  not_str : a.str? = none
  not_nodeActive : ∀ b, nodeActiveIs b a = false

theorem Clausal.of_standing {a : Ast} (h : Standing a) : Clausal a := by
  refine ⟨?_, h.not_nodeActive⟩
  obtain ⟨x, y, xs, rfl, -⟩ := h.made
  rfl

theorem Clausal.of_ne (op : String) (xs : List Ast) (hop : op ≠ "=") :
    Clausal (.made (.str op :: xs)) :=
  ⟨rfl, fun b => nodeActiveIs_of_ne b op xs hop⟩

theorem clausal_elide : Clausal .elide := ⟨rfl, fun _ => rfl⟩

theorem standing_notActive : Standing notActive :=
  standing_of_ne "not" _ _ (by decide) (by simp [inCertname])

theorem standing_inactive : Standing inactive := standing_inCertname _

theorem Leaf.op_not (l : Leaf env) : l.op ∉ ["extract", "subquery", "or"] := by
  have h : ∀ op ∈ leafOperators, op ∉ ["extract", "subquery", "or"] := by decide
  exact h l.op l.op_mem

theorem Operand.isStr_ast (o : Operand) (ctx : Context) (s : String)
    (h : (o.ast ctx).isStr s = true) : o = .one (.str s) := by
  match o, h with
  | .one (.str t), h =>
    have ht : t = s := by simpa [ast, Ast.isStr, Ast.str?] using h
    rw [ht]

theorem Operand.nodeActiveField_ast (o : Operand) (ctx : Context)
    (h : nodeActiveField (o.ast ctx) = true) : o = .many [.str "node", .str "active"] := by
  match o, h with
  | .many [v, w], h =>
    have hv : v = .str "node" ∧ w = .str "active" := by
      unfold nodeActiveField at h
      split at h
      · next x hx =>
        simp only [ast, List.map_cons, List.map_nil, Ast.tagged?] at hx
        split at hx
        · next hnode =>
          cases hx
          exact ⟨by simpa using isStr_ast (.one v) ctx _ hnode,
            by simpa using isStr_ast (.one w) ctx _ h⟩
        · cases hx
      · cases h
    rw [hv.1, hv.2]
  | .array vs, h => simp [nodeActiveField, ast, Ast.tagged?, Ast.isStr, Ast.str?] at h

theorem Leaf.typeAnyRow_none (l : Leaf env) (ctx : Context) :
    typeAnyRow (.str l.op) (l.field.ast ctx) (l.value.ast ctx) = none := by
  unfold typeAnyRow
  split
  · next h =>
    simp only [Bool.and_eq_true] at h
    obtain ⟨⟨hop, hfield⟩, hvalue⟩ := h
    exact absurd ⟨by simpa [Ast.isStr, Ast.str?] using hop, l.field.isStr_ast ctx _ hfield,
      l.value.isStr_ast ctx _ hvalue⟩ l.not_typeAny
  · rfl

theorem Leaf.nodeStateRow_none (l : Leaf env) (ctx : Context) :
    nodeStateRow env (.str l.op) (l.field.ast ctx) (l.value.ast ctx) = none := by
  unfold nodeStateRow
  split
  · next h =>
    exact absurd (l.field.isStr_ast ctx _ (Bool.and_eq_true _ _ ▸ h).2) l.not_nodeState
  · rfl

theorem Leaf.not_nodeActive_field (l : Leaf env) (ctx : Context) :
    nodeActiveField (l.field.ast ctx) = false := by
  by_contra h
  exact l.not_nodeActive (l.field.nodeActiveField_ast ctx (by simpa using h))

/-- What `expand-query-node` makes of a leaf stays. -/
theorem Leaf.standing (l : Leaf env) (ctx : Context) (n : Ast)
    (h : expandQueryNode env (.vec ctx
      [.str l.op, l.field.ast .none, l.value.ast .none]) = .ok (some n)) : Standing n :=
  row_standing env ctx l.op _ _ n (l.value.not_removable l.value_still) l.op_not
    (l.typeAnyRow_none .none) (l.nodeStateRow_none .none) (exists_row env ctx _ _ _ n h)

theorem nodeActiveIs_of_not_field (b : Bool) (op x y : Ast) (h : nodeActiveField x = false) :
    nodeActiveIs b (.made [op, x, y]) = false := by
  unfold nodeActiveIs
  split
  · next heq =>
    cases heq
    simp [h]
  · rfl

theorem Leaf.clausal_image (l : Leaf env) (name : String) : Clausal (l.image schema name) := by
  unfold Leaf.image
  split
  · next node h => exact .of_standing (l.standing _ node h)
  · exact ⟨rfl, fun b => nodeActiveIs_of_not_field b _ _ _ (l.not_nodeActive_field .none)⟩

theorem Leaf.not_removable_image (l : Leaf env) (name : String) :
    removable (l.image schema name) = false := by
  unfold Leaf.image
  split
  · next node h => exact (l.standing _ node h).removable
  · exact removable_vec_cons_cons ..

theorem clausal_relationshipImage (name entity : String) (filter : Ast) :
    Clausal (relationshipImage schema name entity filter) := by
  unfold relationshipImage
  split
  · exact .of_ne "in" _ (by decide)
  · exact .of_ne "subquery" _ (by decide)

theorem clausal_image (c : Clause env) (name : String) : Clausal (c.image schema name) := by
  cases c with
  | leaf l => simpa only [Clause.image] using l.clausal_image schema name
  | typeAny => simpa only [Clause.image] using clausal_elide
  | nodeState s =>
    simp only [Clause.image]
    split
    · exact .of_standing standing_notActive
    · split
      · exact .of_standing standing_inactive
      · exact clausal_elide
  | nodeActive v =>
    simp only [Clause.image]
    split
    · exact .of_standing standing_notActive
    · exact .of_standing standing_inactive
  | and cs => simpa only [Clause.image] using Clausal.of_ne "and" _ (by decide)
  | or cs => simpa only [Clause.image] using Clausal.of_ne "or" _ (by decide)
  | not c => simpa only [Clause.image] using Clausal.of_ne "not" _ (by decide)
  | select link c => simpa only [Clause.image] using Clausal.of_ne "in" _ (by decide)
  | fromEntity link c => simpa only [Clause.image] using Clausal.of_ne "in" _ (by decide)
  | implicit entity c =>
    simpa only [Clause.image] using clausal_relationshipImage schema name entity _

theorem asts_eq (name : String) (cs : List (Clause env)) :
    Clause.asts schema name cs = cs.map (Clause.ast schema name) := by
  induction cs with
  | nil => simp [Clause.asts]
  | cons c cs ih => simp [Clause.asts, ih]

theorem expandAll_images (name : String) (cs : List (Clause env)) (rs : List Ast)
    (ih : ∀ c ∈ cs, ∀ r, expandUserQuery env (c.ast schema name) = .ok r →
      r = c.image schema name)
    (h : expandAll env (cs.map (Clause.ast schema name)) = .ok rs) :
    rs = cs.map (Clause.image schema name) := by
  induction cs generalizing rs with
  | nil => simpa [expandAll, pure, Except.pure, eq_comm] using h
  | cons c cs ihcs =>
    obtain ⟨y, ys, hy, hys, rfl⟩ := expandAll_cons_eq_ok env _ _ rs h
    rw [ih c List.mem_cons_self y hy,
      ihcs ys (fun d hd => ih d (List.mem_cons_of_mem _ hd)) hys, List.map_cons]

/-- No row matches a junction of expanded clauses. -/
theorem expandQueryNode_junction (ctx : Context) (op : String) (xs : List Ast)
    (hop : op = "and" ∨ op = "or") (hxs : ∀ x ∈ xs, Clausal x) :
    expandQueryNode env (.vec ctx (.str op :: xs)) = .ok none := by
  match xs with
  | [] | [_] | _ :: _ :: _ :: _ => rfl
  | [x, y] =>
    have hx := hxs x (by simp)
    refine expandQueryNode_none env ctx op x y ?_ ?_ ?_ ?_ ?_
    · rcases hop with rfl | rfl <;> decide
    · simp [Ast.isOp, hx.not_str]
    · rcases hop with rfl | rfl <;> exact fun h => absurd h (by decide)
    · rcases hop with rfl | rfl <;> simp [extractRow, Ast.isStr, Ast.str?]
    · simp [activeOrInactiveRow, hx.not_nodeActive]

theorem image_junction (name op : String) (cs : List (Clause env)) (r : Ast)
    (hop : op = "and" ∨ op = "or")
    (ih : ∀ c ∈ cs, ∀ r, expandUserQuery env (c.ast schema name) = .ok r →
      r = c.image schema name)
    (h : expandUserQuery env (.vec (schema.context name)
      (.str op :: Clause.asts schema name cs)) = .ok r) :
    r = .made (.str op :: keep (cs.map (Clause.image schema name))) := by
  obtain ⟨ys, hys, hvisit⟩ := expandUserQuery_vec_eq_ok env _ _ r h
  obtain ⟨o, rs, ho, hrs, rfl⟩ := expandAll_cons_eq_ok env _ _ ys hys
  rw [expandUserQuery_lit] at ho
  cases ho
  rw [asts_eq] at hrs
  rw [expandAll_images schema name cs rs ih hrs] at hvisit
  refine visit_of_none env _ _ r (expandQueryNode_junction _ op _ hop fun x hx => ?_) hvisit
  obtain ⟨c, -, rfl⟩ := List.mem_map.mp hx
  exact clausal_image schema c name

theorem plainField_type : plainField "type" = true := by decide

theorem plainField_nodeState : plainField "node_state" = true := by decide

theorem factPathRow_plain (env : Env) (s : String) (op y : Ast) (hs : plainField s = true)
    (hname : s ≠ "facts" ∧ s ≠ "trusted") : factPathRow env op (.str s) y = none := by
  unfold factPathRow
  split
  · next heq =>
    cases heq
    simp [env.parseField_plain s hs, partName, hname]
  · rfl

theorem image_typeAny (ctx : Context) (r : Ast)
    (h : expandUserQuery env (.vec ctx [.str "=", .str "type", .str "any"]) = .ok r) :
    r = .elide := by
  have hvisit := (expandUserQuery_lits env ctx [.str "=", .str "type", .str "any"]).symm.trans h
  have hpath := factPathRow_plain env "type" (.str "=") (.str "any")
    plainField_type (by decide)
  refine visit_of_some env _ .elide r ?_ hvisit
  simp [expandQueryNode, rows, hpath, extractRow, valueRow, typeAnyRow, Ast.isStr, Ast.str?]

theorem nodeStateRow_decides (ctx : Context) (s : String) :
    expandQueryNode env (.vec ctx [.str "=", .str "node_state", .str s]) =
      (nodeStateRow env (.str "=") (.str "node_state") (.str s)).getD (.ok none) := by
  have hpath := factPathRow_plain env "node_state" (.str "=") (.str s)
    plainField_nodeState (by decide)
  have hstate : ∃ o, nodeStateRow env (.str "=") (.str "node_state") (.str s) = some o :=
    ⟨_, rfl⟩
  obtain ⟨o, ho⟩ := hstate
  simp [expandQueryNode, rows, hpath, extractRow, valueRow, typeAnyRow, nodeActiveRow,
    nodeActiveField, Ast.tagged?, activeOrInactiveRow, ho, Ast.isStr, Ast.str?]

theorem image_nodeState (ctx : Context) (s : String) (r : Ast)
    (h : expandUserQuery env (.vec ctx [.str "=", .str "node_state", .str s]) = .ok r) :
    r = if env.lowerCase s = "active" then notActive
      else if env.lowerCase s = "inactive" then inactive else .elide := by
  have hvisit := (expandUserQuery_lits env ctx [.str "=", .str "node_state", .str s]).symm.trans h
  obtain ⟨o, ho, rfl⟩ := visit_eq_ok env _ r hvisit
  have ho := (nodeStateRow_decides ctx s).symm.trans ho
  simp only [nodeStateRow, Ast.isStr, Ast.str?, BEq.rfl, Bool.and_self, if_true,
    Option.getD_some, Option.map_some] at ho
  split at ho
  · next heq =>
    cases ho
    simpa [Option.some.inj heq] using standing_notActive.removeElidedNodes
  · next heq =>
    cases ho
    simpa [Option.some.inj heq] using standing_inactive.removeElidedNodes
  · next heq =>
    cases ho
    simp [Option.some.inj heq, removeElidedNodes]
  · cases ho

theorem image_nodeActive (ctx : Context) (v : Json) (r : Ast)
    (h : expandUserQuery env (.vec ctx
      [.str "=", .vec ctx [.str "node", .str "active"], .lit v]) = .ok r) :
    r = if v.truthy then notActive else inactive := by
  obtain ⟨ys, hys, hvisit⟩ := expandUserQuery_vec_eq_ok env _ _ r h
  have hfield : expandUserQuery env (.vec ctx [.str "node", .str "active"]) =
      .ok (.made [.str "node", .str "active"]) := by
    rw [show [Ast.str "node", Ast.str "active"] = [Json.str "node", .str "active"].map .lit from
      rfl, expandUserQuery_lits]
    simp [visit, expandQueryNode, validateBinaryOperators, validateOperands,
      simpleBinaryOperators, removeElidedNodes, bind, Except.bind, pure, Except.pure]
  have hys' : ys = [.str "=", .made [.str "node", .str "active"], .lit v] := by
    simpa [expandAll, expandUserQuery_lit, hfield, bind, Except.bind, pure, Except.pure,
      eq_comm] using hys
  subst hys'
  have hrow : expandQueryNode env (.vec ctx
      [.str "=", .made [.str "node", .str "active"], .lit v]) =
      .ok (some (if v.truthy then notActive else inactive)) := by
    simp [expandQueryNode, rows, factPathRow, extractRow, valueRow, typeAnyRow, nodeActiveRow,
      nodeActiveField, Ast.tagged?, Ast.isStr, Ast.str?, Ast.truthy]
    rfl
  rw [visit_of_some env _ _ r hrow hvisit]
  split
  · exact standing_notActive.removeElidedNodes
  · exact standing_inactive.removeElidedNodes

theorem image_leaf (name : String) (l : Leaf env) (r : Ast)
    (h : expandUserQuery env ((Clause.leaf l).ast schema name) = .ok r) :
    r = l.image schema name := by
  rw [Clause.ast] at h
  obtain ⟨ys, hys, hvisit⟩ := expandUserQuery_vec_eq_ok env _ _ r h
  have hys' : ys = [.str l.op, l.field.ast .none, l.value.ast .none] := by
    simpa [expandAll, expandUserQuery_lit, l.field.expand l.field_still,
      l.value.expand l.value_still, bind, Except.bind, pure, Except.pure, eq_comm] using hys
  subst hys'
  obtain ⟨o, ho, rfl⟩ := visit_eq_ok env _ r hvisit
  unfold Leaf.image
  rw [ho]
  cases o with
  | some n => exact (l.standing _ n ho).removeElidedNodes
  | none =>
    have hfield := l.field.not_removable l.field_still
    have hvalue := l.value.not_removable l.value_still
    simp [removeElidedNodes, hfield, hvalue]

theorem expandAll_pair (a a' b s : Ast) (ys : List Ast) (ha : expandUserQuery env a = .ok a')
    (hs : ∀ r, expandUserQuery env b = .ok r → r = s) (h : expandAll env [a, b] = .ok ys) :
    ys = [a', s] := by
  obtain ⟨_, rs, ho, hrs, rfl⟩ := expandAll_cons_eq_ok env _ _ ys h
  obtain ⟨r, _, hr, hnil, rfl⟩ := expandAll_cons_eq_ok env _ _ rs hrs
  cases ha.symm.trans ho
  rw [hs r hr]
  simpa [expandAll, pure, Except.pure, eq_comm] using hnil

theorem expandAll_triple (a a' b b' c s : Ast) (ys : List Ast)
    (ha : expandUserQuery env a = .ok a') (hb : expandUserQuery env b = .ok b')
    (hs : ∀ r, expandUserQuery env c = .ok r → r = s) (h : expandAll env [a, b, c] = .ok ys) :
    ys = [a', b', s] := by
  obtain ⟨_, rs, ho, hrs, rfl⟩ := expandAll_cons_eq_ok env _ _ ys h
  cases ha.symm.trans ho
  rw [expandAll_pair b b' c s rs hb hs hrs]

section Subqueries

variable (ctx : Context) (sub s : Ast) (hs : ∀ r, expandUserQuery env sub = .ok r → r = s)

include hs

theorem image_in (columns : Columns env) (r : Ast) (harray : s.tagged? "array" = none)
    (hkeep : removable s = false)
    (h : expandUserQuery env (.vec ctx [.str "in", columns.operand.ast ctx, sub]) = .ok r) :
    r = .made [.str "in", columns.operand.ast .none, s] := by
  obtain ⟨ys, hys, hvisit⟩ := expandUserQuery_vec_eq_ok env _ _ r h
  obtain rfl := expandAll_triple _ _ _ _ sub s ys (expandUserQuery_lit env _)
    (columns.operand.expand columns.still ctx) hs hys
  have hnone := expandQueryNode_none env ctx "in" _ s (by decide) columns.not_rewritten'
    (fun _ => harray) rfl rfl
  have hcolumns := columns.operand.not_removable columns.still
  simpa [hcolumns, hkeep] using visit_of_none env ctx _ r hnone hvisit

theorem image_extract (columns : Columns env) (r : Ast)
    (h : expandUserQuery env (.vec ctx [.str "extract", columns.operand.ast ctx, sub]) = .ok r) :
    r = .made (.str "extract" :: columns.operand.ast .none :: keep [s]) := by
  obtain ⟨ys, hys, hvisit⟩ := expandUserQuery_vec_eq_ok env _ _ r h
  obtain rfl := expandAll_triple _ _ _ _ sub s ys (expandUserQuery_lit env _)
    (columns.operand.expand columns.still ctx) hs hys
  have hnone := expandQueryNode_none env ctx "extract" _ s (by decide) columns.not_rewritten'
    (fun he => absurd he (by decide)) (by simp [extractRow, columns.not_numeric]) rfl
  have hcolumns := columns.operand.not_removable columns.still
  have hr := visit_of_none env ctx _ r hnone hvisit
  rw [List.filter_cons_of_pos (by simp), List.filter_cons_of_pos (by simp [hcolumns])] at hr
  exact hr

theorem image_from (entity : String) (r : Ast) (hkeep : removable s = false)
    (hentity : entity ∉ ["new_value", "old_value", "tag"])
    (h : expandUserQuery env (.vec ctx [.str "from", .str entity, sub]) = .ok r) :
    r = .made [.str "from", .str entity, s] := by
  obtain ⟨ys, hys, hvisit⟩ := expandUserQuery_vec_eq_ok env _ _ r h
  obtain rfl := expandAll_triple _ _ _ _ sub s ys (expandUserQuery_lit env _)
    (expandUserQuery_lit env _) hs hys
  have hnone := expandQueryNode_none env ctx "from" (.str entity) s (by decide)
    (by simpa [Ast.isOp, Ast.str?] using hentity) (fun he => absurd he (by decide)) rfl rfl
  simpa [hkeep] using visit_of_none env ctx _ r hnone hvisit

theorem image_select (entity : String) (r : Ast)
    (h : expandUserQuery env (.vec ctx [.str (selectName entity), sub]) = .ok r) :
    r = .made (.str (selectName entity) :: keep [s]) := by
  obtain ⟨ys, hys, hvisit⟩ := expandUserQuery_vec_eq_ok env _ _ r h
  obtain rfl := expandAll_pair _ _ sub s ys (expandUserQuery_lit env _) hs hys
  have hr := visit_of_none env ctx _ r rfl hvisit
  rwa [List.filter_cons_of_pos (by simp)] at hr

theorem image_not (r : Ast)
    (h : expandUserQuery env (.vec ctx [.str "not", sub]) = .ok r) :
    r = .made (.str "not" :: keep [s]) := by
  obtain ⟨ys, hys, hvisit⟩ := expandUserQuery_vec_eq_ok env _ _ r h
  obtain rfl := expandAll_pair _ _ sub s ys (expandUserQuery_lit env _) hs hys
  have hr := visit_of_none env ctx _ r rfl hvisit
  rwa [List.filter_cons_of_pos (by simp)] at hr

end Subqueries

theorem image_implicit (name entity : String) (sub s r : Ast)
    (hs : ∀ r, expandUserQuery env sub = .ok r → r = s)
    (h : expandUserQuery env (.vec (schema.context name)
      [.str "subquery", .str entity, sub]) = .ok r) :
    r = relationshipImage schema name entity s := by
  obtain ⟨ys, hys, hvisit⟩ := expandUserQuery_vec_eq_ok env _ _ r h
  obtain rfl := expandAll_triple _ _ _ _ sub s ys (expandUserQuery_lit env _)
    (expandUserQuery_lit env _) hs hys
  obtain ⟨o, ho, rfl⟩ := visit_eq_ok env _ r hvisit
  have hrow : expandQueryNode env (.vec (schema.context name)
      [.str "subquery", .str entity, s]) =
      (subqueryRow (schema.context name) (.str "subquery") (.str entity) s).getD (.ok none) := by
    simp [expandQueryNode, rows, factPathRow, extractRow, valueRow, typeAnyRow, nodeActiveRow,
      activeOrInactiveRow, nodeStateRow, parameterRow, factRow, subqueryRow, Ast.tagged?,
      Ast.isOp, Ast.isStr, Ast.str?]
  rw [hrow] at ho
  simp only [subqueryRow, Ast.isStr, Ast.str?, BEq.rfl, if_true, Option.getD_some] at ho
  cases hrel : (schema.context name).relationships.lookup entity with
  | none => simp [hrel] at ho
  | some rel =>
    simp only [hrel] at ho
    split at ho
    · next localColumns foreignColumns hlocal hforeign =>
      cases ho
      have hplain := schema.columns_plain name entity rel hrel localColumns hlocal
      simp [relationshipImage, relationshipColumns, hrel, hlocal, hforeign, removeElidedNodes, hplain, selectName]
    · cases ho

/-- What the expansion of an accepted query is. -/
theorem expand_image (c : Clause env) (name : String) (r : Ast)
    (h : expandUserQuery env (c.ast schema name) = .ok r) : r = c.image schema name := by
  induction c using Clause.ind generalizing name r with
  | leaf l => rw [Clause.image]; exact image_leaf schema name l r h
  | typeAny => rw [Clause.image]; exact image_typeAny _ r h
  | nodeState s => rw [Clause.image]; exact image_nodeState _ s r h
  | nodeActive v => rw [Clause.image]; exact image_nodeActive _ v r h
  | and cs ih =>
    rw [Clause.image]
    exact image_junction schema name "and" cs r (.inl rfl) (fun c hc => ih c hc name) h
  | or cs ih =>
    rw [Clause.image]
    exact image_junction schema name "or" cs r (.inr rfl) (fun c hc => ih c hc name) h
  | not c ih => rw [Clause.image]; exact image_not _ _ _ (ih name) r h
  | select link c ih =>
    rw [Clause.image]
    refine image_in _ _ _ (fun s hs => ?_) link.columns r rfl (by simp) h
    have hs := image_extract _ _ _ (image_select _ _ _ (ih _) link.entity) link.foreign s hs
    rwa [keep_select] at hs
  | fromEntity link c ih =>
    rw [Clause.image]
    refine image_in _ _ _ (fun s hs => ?_) link.columns r rfl (by simp) h
    exact image_from _ _ _ (image_extract _ _ _ (ih _) link.foreign) link.entity s (by simp)
      link.entity_not_rewritten hs
  | implicit entity c ih =>
    rw [Clause.image]
    exact image_implicit schema name entity _ _ r (ih (selectName entity)) h

end OpenVoxDB.Elision
