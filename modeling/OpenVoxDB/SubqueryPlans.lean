import Mathlib
import OpenVoxDB.SubqueryForms

/-!
# The plans of the two forms

The subquery of an `in` is planned apart from the rest: its record has the columns that the form
finds, and its filter is that of the entity, or of the inventory where the query is redirected.
-/

namespace OpenVoxDB.Subqueries

open QueryExpansion InventoryRedirect Plans

/-! ## The redirection -/

theorem optimize_toAst (env : QueryExpansion.Env) (columns : Columns) :
    optimizeUserQuery env columns.toAst = columns.toAst := by
  cases columns with
  | name c => rfl
  | names cs =>
    have hall : ∀ cs : List String, optimizeAll env (cs.map Ast.str) = cs.map Ast.str := by
      intro cs
      induction cs with
      | nil => rfl
      | cons c cs ih =>
        rw [List.map_cons, optimizeAll, ih]
        rfl
    have hredirect : redirect env (Columns.names cs).toAst = none := by
      obtain _ | ⟨a, _ | ⟨b, _ | ⟨c, _ | ⟨d, cs⟩⟩⟩⟩ := cs <;> rfl
    rw [Columns.toAst] at hredirect ⊢
    rw [optimizeUserQuery, hredirect, hall]
    rfl

/-- The filter in the inventory of a query on the facts. -/
def redirected (env : QueryExpansion.Env) (e : EntityName) (columns : Columns) (f : Ast) :
    Option Ast :=
  if e = .facts ∧ (columns = .name "certname" ∨ columns = .name "environment") then do
    let (name, test) ← namedTest f
    let (op, value) ← factTest test
    some (.made [op, factField env name, value])
  else none

theorem removable_of_namedTest (f : Ast) (test : Ast × Ast) (h : namedTest f = some test) :
    removable f = false := by
  unfold namedTest at h
  split at h
  · exact removable_vec_cons_cons _ _ _ _
  · cases h

theorem redirect_of_head (env : QueryExpansion.Env) (ctx : Context) (op : String)
    (args : List Ast) (h : op ≠ "extract") : redirect env (.vec ctx (.str op :: args)) = none := by
  unfold redirect
  split
  · next heq =>
    cases heq
    simp [Ast.isStr, Ast.str?, h]
  · rfl

theorem optimize_of_head (env : QueryExpansion.Env) (ctx : Context) (op : String)
    (args : List Ast) (h : op ≠ "extract") :
    optimizeUserQuery env (.vec ctx (.str op :: args)) =
      .vec ctx (.str op :: optimizeAll env args) := by
  rw [optimizeUserQuery, redirect_of_head env ctx op args h]
  rfl

/-- An operation that is no query of facts. -/
def NoFacts (f : Ast) : Prop :=
  ∀ ctx entity filter, f = .vec ctx [entity, filter] → entity.isStr "select_facts" = false

theorem noFacts_of_headed (op : String) (f : Ast) (hop : op ∈ operators) (h : Headed op f) :
    NoFacts f := by
  have hfacts : "select_facts" ∉ operators ∧ "select_facts" ∉ madeOperators := by decide
  obtain rfl | ⟨w, args, rfl, hw⟩ := h
  · intro ctx entity filter heq
    cases heq
  · intro ctx entity filter heq
    cases heq
    have hne : w ≠ "select_facts" := by
      obtain rfl | hw := hw
      · intro hw
        exact hfacts.1 (hw ▸ hop)
      · intro hfact
        exact hfacts.2 (hfact ▸ hw)
    simp [Ast.isStr, Ast.str?, hne]

theorem redirect_extract (env : QueryExpansion.Env) (columns : Columns) (f : Ast)
    (h : NoFacts f) : redirect env (.made [.str "extract", columns.toAst, f]) = none := by
  unfold redirect
  split
  · next heq =>
    cases heq
    simp [h _ _ _ rfl]
  · rfl

theorem selectName_eq_facts (e : EntityName) : e.selectName = "select_facts" ↔ e = .facts := by
  cases e <;> decide +kernel

theorem columns_isOp (columns : Columns) : columns.toAst.isOp ["certname", "environment"] = true ↔
    columns = .name "certname" ∨ columns = .name "environment" := by
  cases columns with
  | name c => simp [Columns.toAst, Ast.isOp, Ast.str?]
  | names cs => simp [Columns.toAst, Ast.isOp, Ast.str?]

theorem redirect_selectMade (env : QueryExpansion.Env) (e : EntityName) (columns : Columns)
    (f : Ast) : redirect env (selectMade e columns f) =
      (redirected env e columns f).map fun g =>
        .made [.str "extract", columns.toAst, .made [.str "select_inventory", g]] := by
  have hfacts : (Ast.str e.selectName).isStr "select_facts" = true ↔ e = .facts := by
    simp [Ast.isStr, Ast.str?, selectName_eq_facts]
  have hcolumns := columns_isOp columns
  cases hstays : removable f with
  | true =>
    have htest : namedTest f = none := by
      cases htest : namedTest f with
      | none => rfl
      | some test =>
        rw [removable_of_namedTest f test htest] at hstays
        cases hstays
    have hnone : redirected env e columns f = none := by
      simp [redirected, htest]
    have hkept : kept f = [] := by simp [kept, hstays]
    rw [hnone, selectMade, hkept]
    rfl
  | false =>
    have hredirect : redirect env (.made [.str "extract", columns.toAst,
        .made [.str e.selectName, f]]) =
        if columns.toAst.isOp ["certname", "environment"] &&
            (Ast.str e.selectName).isStr "select_facts" then do
          let (name, test) ← namedTest f
          let (op, value) ← factTest test
          return .made [.str "extract", columns.toAst,
            .made [.str "select_inventory", .made [op, factField env name, value]]]
        else none := rfl
    rw [selectMade, kept_of_stays f hstays, hredirect, redirected]
    by_cases h : e = .facts ∧ (columns = .name "certname" ∨ columns = .name "environment")
    · rw [if_pos h, if_pos (by rw [Bool.and_eq_true]; exact ⟨hcolumns.mpr h.2, hfacts.mpr h.1⟩)]
      cases namedTest f with
      | none => rfl
      | some test =>
        cases htest : factTest test.2 with
        | none => simp [htest]
        | some value => simp [htest]
    · rw [if_neg h, if_neg]
      · rfl
      · intro hboth
        rw [Bool.and_eq_true] at hboth
        exact h ⟨hfacts.mp hboth.2, hcolumns.mp hboth.1⟩

variable {V : Type} (E : Engine V)

namespace Engine

/-- The plan of a filter, where it was not elided. -/
def plannedKept (e : EntityName) (f : Ast) : Option (Option (Plan V)) :=
  if removable f then some none else E.planned (E.entity e) f

/-- The subquery of a `from`. -/
def fromQuery (e : EntityName) (columns : Columns) (f : Ast) :
    Option (QueryRec V × Option (Plan V)) := do
  let fields ← columns.list.mapM (fromFields (E.entity e))
  let filter ← E.plannedKept e f
  some (subqueryOf (E.entity e) fields, filter)

/-- The subquery of a `select_<entity>` that is not redirected. -/
def keptQuery (e : EntityName) (columns : Columns) (f : Ast) :
    Option (QueryRec V × Option (Plan V)) := do
  let fields ← columns.list.mapM (namesToFields E.parser (E.entity e).query.projections)
  let filter ← E.plannedKept e f
  some (subqueryOf (E.entity e) fields, filter)

/-- The subquery of a `select_facts` that is redirected, for its filter in the inventory. -/
def inventoryQuery (columns : Columns) (filter : Ast) :
    Option (QueryRec V × Option (Plan V)) := do
  let fields ← columns.list.mapM
    (namesToFields E.parser (E.entity .inventory).query.projections)
  let filter ← E.plan (E.entity .inventory) filter
  some (subqueryOf (E.entity .inventory) fields, filter)

/-- The subquery of a `select_<entity>`. -/
def selectQuery (e : EntityName) (columns : Columns) (f : Ast) :
    Option (QueryRec V × Option (Plan V)) :=
  match redirected E.env e columns f with
  | some filter => E.inventoryQuery columns filter
  | none => E.keptQuery e columns f

/-- The `in` of a subquery. -/
def inPlan (r : EntityName) (cols : Columns) (subquery : Option (QueryRec V × Option (Plan V))) :
    Option (Option (Plan V)) := do
  let columns ← cols.list.mapM (column (E.entity r))
  let (query, filter) ← subquery
  some (some (.inSub columns query filter))

theorem plan_in (x : Entity V) (cols : Columns) (subquery : Ast)
    (h : subquery.tagged? "array" = none) : E.plan x (inMade cols subquery) = (do
      let columns ← cols.list.mapM (column x)
      let (query, filter) ← E.planSubquery x subquery
      some (some (.inSub columns query filter))) := by
  rw [inMade, plan]
  simp [Ast.isStr, Ast.str?, h]

theorem optimize_inMade (env : QueryExpansion.Env) (cols : Columns) (subquery : Ast) :
    optimizeUserQuery env (inMade cols subquery) =
      inMade cols (optimizeUserQuery env subquery) := by
  rw [inMade, optimize_of_head env _ _ _ (by decide), optimizeAll, optimizeAll, optimizeAll,
    optimize_toAst]
  rfl

theorem optimize_fromMade (env : QueryExpansion.Env) (e : EntityName) (columns : Columns) (f : Ast)
    (hf : NoFacts f) : optimizeUserQuery env (fromMade e columns f) =
      .made [.str "from", .str e.text,
        .made (.str "extract" :: columns.toAst :: (kept f).map (optimizeUserQuery env))] := by
  have hextract : optimizeUserQuery env (.made (.str "extract" :: columns.toAst :: kept f)) =
      .made (.str "extract" :: columns.toAst :: (kept f).map (optimizeUserQuery env)) := by
    cases hstays : removable f with
    | true =>
      have hkept : kept f = [] := by simp [kept, hstays]
      rw [hkept, optimizeUserQuery]
      simp [redirect, optimizeAll, optimize_toAst, optimizeUserQuery]
    | false =>
      rw [kept_of_stays f hstays, optimizeUserQuery, redirect_extract env columns f hf]
      simp [optimizeAll, optimize_toAst, optimizeUserQuery]
  rw [fromMade, optimize_of_head env _ _ _ (by decide), optimizeAll, optimizeAll, optimizeAll,
    hextract]
  rfl

theorem planned_inFrom (r e : EntityName) (cols columns : Columns) (f : Ast) (hf : NoFacts f) :
    E.planned (E.entity r) (inMade cols (fromMade e columns f)) =
      E.inPlan r cols (E.fromQuery e columns f) := by
  have hsub : E.planSubquery (E.entity r) (optimizeUserQuery E.env (fromMade e columns f)) =
      E.fromQuery e columns f := by
    rw [optimize_fromMade E.env e columns f hf, planSubquery]
    simp only [find_text]
    cases hstays : removable f with
    | true =>
      have hkept : kept f = [] := by simp [kept, hstays]
      rw [hkept, fromQuery, plannedKept, hstays]
      simp [Ast.isStr, Ast.str?, isExtract, planFrom]
    | false =>
      rw [kept_of_stays f hstays, fromQuery, plannedKept, hstays]
      simp [Ast.isStr, Ast.str?, isExtract, planFrom, planned]
  have harray : (optimizeUserQuery E.env (fromMade e columns f)).tagged? "array" = none := by
    rw [optimize_fromMade E.env e columns f hf]
    rfl
  rw [planned, optimize_inMade, E.plan_in _ cols _ harray, hsub]
  rfl

theorem selectName_ne_extract (e : EntityName) : e.selectName ≠ "extract" := by
  cases e <;> decide +kernel

theorem optimize_selectMade_redirected (env : QueryExpansion.Env) (e : EntityName)
    (columns : Columns) (f filter : Ast) (h : redirected env e columns f = some filter) :
    optimizeUserQuery env (selectMade e columns f) = .made [.str "extract", columns.toAst,
      .made [.str (EntityName.selectName .inventory), filter]] := by
  have hredirect := redirect_selectMade env e columns f
  rw [h] at hredirect
  rw [selectMade] at hredirect ⊢
  rw [optimizeUserQuery, hredirect]
  rfl

theorem optimize_selectMade_kept (env : QueryExpansion.Env) (e : EntityName) (columns : Columns)
    (f : Ast) (h : redirected env e columns f = none) :
    optimizeUserQuery env (selectMade e columns f) = .made [.str "extract", columns.toAst,
      .made (.str e.selectName :: (kept f).map (optimizeUserQuery env))] := by
  have hredirect := redirect_selectMade env e columns f
  rw [h] at hredirect
  have hall : optimizeAll env (kept f) = (kept f).map (optimizeUserQuery env) := by
    cases hstays : removable f with
    | true => simp [kept, hstays, optimizeAll]
    | false => simp [kept, hstays, optimizeAll]
  rw [selectMade] at hredirect ⊢
  rw [optimizeUserQuery, hredirect]
  simp only [Option.map_none, Option.getD_none, optimizeAll, optimize_toAst,
    optimize_of_head env _ _ _ (selectName_ne_extract e), hall]
  rfl

theorem planned_inSelect (r e : EntityName) (cols columns : Columns) (f : Ast) :
    E.planned (E.entity r) (inMade cols (selectMade e columns f)) =
      E.inPlan r cols (E.selectQuery e columns f) := by
  have hsub : E.planSubquery (E.entity r) (optimizeUserQuery E.env (selectMade e columns f)) =
      E.selectQuery e columns f := by
    rw [selectQuery]
    cases hredirect : redirected E.env e columns f with
    | some filter =>
      rw [optimize_selectMade_redirected E.env e columns f filter hredirect]
      exact E.planSubquery_select _ .inventory columns [filter]
    | none =>
      rw [optimize_selectMade_kept E.env e columns f hredirect, keptQuery, plannedKept]
      cases hstays : removable f with
      | true =>
        have hkept : kept f = [] := by simp [kept, hstays]
        rw [hkept]
        exact E.planSubquery_select _ e columns []
      | false =>
        rw [kept_of_stays f hstays]
        exact E.planSubquery_select _ e columns [optimizeUserQuery E.env f]
  have harray : (optimizeUserQuery E.env (selectMade e columns f)).tagged? "array" = none := by
    cases hredirect : redirected E.env e columns f with
    | some filter =>
      rw [optimize_selectMade_redirected E.env e columns f filter hredirect]
      rfl
    | none =>
      rw [optimize_selectMade_kept E.env e columns f hredirect]
      rfl
  rw [planned, optimize_inMade, E.plan_in _ cols _ harray, hsub]
  rfl

end Engine

end OpenVoxDB.Subqueries
