import Mathlib
import OpenVoxDB.OuterQueries
import OpenVoxDB.ElisionExact

/-!
# The agreement of the two forms

A `from` and a `select_<entity>` are accepted in the same queries and select the same rows there
just where both forms take the columns or neither does. The columns of a `from` are names of
projections, while those of a `select_<entity>` may be paths into them.
-/

namespace OpenVoxDB.Subqueries

open QueryExpansion InventoryRedirect Plans

variable {V Rows : Type} (E : Engine V)

/-- A filter: an operation, and no query of its own. -/
structure Filter where
  ast : Ast
  operation : isFilter ast = true

/-- Both subqueries are refused, or they select the same rows. -/
def AlikeQueries (M : Meaning V Rows) (o o' : Option (QueryRec V × Option (Plan V))) : Prop :=
  (o = none ∧ o' = none) ∨ ∃ q q', o = some q ∧ o' = some q' ∧ M.rows q = M.rows q'

namespace Engine

/-! ## When the forms agree -/

/-- The columns and the filter that a `from` takes. -/
def fromTakes (e : EntityName) (columns : Columns) (f : Ast) : Bool :=
  E.fromChecks e columns f &&
    ((columns.expand E.env).list.mapM (fromFields (E.entity e))).isSome

/-- The columns that a `select_<entity>` takes, where it is planned for the entity `target`. -/
def selectTakes (e target : EntityName) (columns : Columns) : Bool :=
  E.selectChecks e columns &&
    ((columns.expand E.env).list.mapM
      (namesToFields E.parser (E.entity target).query.projections)).isSome

/-- The forms agree on a filter that is `f'` after the first two passes. -/
def AgreesOn (M : Meaning V Rows) (e : EntityName) (columns : Columns) (f f' : Ast) : Prop :=
  match redirected E.env e (columns.expand E.env) f' with
  | none => (E.plannedKept e f').isSome = true →
      (E.fromTakes e columns f = true ↔ E.selectTakes e e columns = true)
  | some g =>
    (E.fromTakes e columns f = true ∧ (E.plannedKept e f').isSome = true ↔
      E.selectTakes e .inventory columns = true ∧
        (E.plan (E.entity .inventory) g).isSome = true) ∧
    (E.fromTakes e columns f = true → E.selectTakes e .inventory columns = true → ∀ q q',
      E.fromQuery e (columns.expand E.env) f' = some q →
      E.inventoryQuery (columns.expand E.env) g = some q' → M.rows q = M.rows q')

/-- The forms agree on the columns and the filter of a subquery. -/
def Agrees (M : Meaning V Rows) (e : EntityName) (columns : Columns) (f : Ast) : Prop :=
  columns = .name "tag" ∨ ∀ f', E.prepared (E.entity e) f = some f' →
    if columns = .name "new_value" ∨ columns = .name "old_value" then
      E.fromChecks e columns f = false ∧ E.selectChecks e columns = false
    else E.AgreesOn M e columns f f'

/-! ## Columns -/

theorem namesToFields_of_fromFields (e : EntityName) (c : String) (field : String × Column)
    (h : fromFields (E.entity e) c = some field) :
    namesToFields E.parser (E.entity e).query.projections c = some field := by
  obtain ⟨column, hlookup, rfl⟩ := Option.map_eq_some_iff.mp h
  have hmem : c ∈ (E.entity e).query.projections.map Prod.fst := by
    obtain ⟨l, m, hl, -⟩ := List.lookup_eq_some_iff.mp hlookup
    rw [hl]
    simp
  have hparts := E.undotted e c hmem
  rw [namesToFields]
  simp only [if_neg (show ¬ (E.parser.parts c).length > 1 by omega), hlookup, Option.map_some]

theorem mapM_of_le {α β : Type} (f g : α → Option β) (l : List α) (r : List β)
    (hle : ∀ a b, f a = some b → g a = some b) (h : l.mapM f = some r) : l.mapM g = some r := by
  induction l generalizing r with
  | nil => exact h
  | cons a l ih =>
    rw [List.mapM_cons] at h ⊢
    obtain ⟨b, hb, h⟩ := Option.bind_eq_some_iff.mp h
    obtain ⟨bs, hbs, h⟩ := Option.bind_eq_some_iff.mp h
    rw [hle a b hb, ih bs hbs]
    exact h

/-! ## The subqueries -/

theorem fromQuery_eq_some (e : EntityName) (columns : Columns) (f : Ast)
    (q : QueryRec V × Option (Plan V)) (h : E.fromQuery e columns f = some q) :
    E.keptQuery e columns f = some q := by
  obtain ⟨fields, hfields, h⟩ := Option.bind_eq_some_iff.mp h
  have hnames := mapM_of_le _ _ _ fields (E.namesToFields_of_fromFields e) hfields
  rw [keptQuery, hnames]
  exact h

theorem isSome_fromQuery (e : EntityName) (columns : Columns) (f : Ast) :
    (E.fromQuery e columns f).isSome = true ↔
      (columns.list.mapM (fromFields (E.entity e))).isSome = true ∧
        (E.plannedKept e f).isSome = true := by
  rw [fromQuery]
  cases columns.list.mapM (fromFields (E.entity e)) with
  | none => simp
  | some fields => cases E.plannedKept e f <;> simp

theorem isSome_keptQuery (e : EntityName) (columns : Columns) (f : Ast) :
    (E.keptQuery e columns f).isSome = true ↔
      (columns.list.mapM (namesToFields E.parser (E.entity e).query.projections)).isSome = true ∧
        (E.plannedKept e f).isSome = true := by
  rw [keptQuery]
  cases columns.list.mapM (namesToFields E.parser (E.entity e).query.projections) with
  | none => simp
  | some fields => cases E.plannedKept e f <;> simp

theorem isSome_inventoryQuery (columns : Columns) (g : Ast) :
    (E.inventoryQuery columns g).isSome = true ↔
      (columns.list.mapM
        (namesToFields E.parser (E.entity .inventory).query.projections)).isSome = true ∧
        (E.plan (E.entity .inventory) g).isSome = true := by
  rw [inventoryQuery]
  cases columns.list.mapM
      (namesToFields E.parser (E.entity .inventory).query.projections) with
  | none => simp
  | some fields => cases E.plan (E.entity .inventory) g <;> simp

/-- A `from` that passes its checks. -/
def checkedFrom (e : EntityName) (columns : Columns) (f f' : Ast) :
    Option (QueryRec V × Option (Plan V)) :=
  if E.fromChecks e columns f then E.fromQuery e (columns.expand E.env) f' else none

/-- A `select_<entity>` that passes its checks. -/
def checkedSelect (e : EntityName) (columns : Columns) (f' : Ast) :
    Option (QueryRec V × Option (Plan V)) :=
  if E.selectChecks e columns then E.selectQuery e (columns.expand E.env) f' else none

end Engine

theorem alikeQueries_iff (M : Meaning V Rows) (o o' : Option (QueryRec V × Option (Plan V))) :
    AlikeQueries M o o' ↔ (o.isSome = true ↔ o'.isSome = true) ∧
      ∀ q q', o = some q → o' = some q' → M.rows q = M.rows q' := by
  cases o with
  | none =>
    cases o' with
    | none => simp [AlikeQueries]
    | some q' => simp [AlikeQueries]
  | some q =>
    cases o' with
    | none => simp [AlikeQueries]
    | some q' => simp [AlikeQueries]

namespace Engine

theorem agreesOn_iff (M : Meaning V Rows) (e : EntityName) (columns : Columns) (f f' : Ast) :
    E.AgreesOn M e columns f f' ↔
      AlikeQueries M (E.checkedFrom e columns f f') (E.checkedSelect e columns f') := by
  rw [alikeQueries_iff, AgreesOn, checkedFrom, checkedSelect, selectQuery, fromTakes, selectTakes,
    selectTakes]
  have hfrom := E.isSome_fromQuery e (columns.expand E.env) f'
  have hkept := E.isSome_keptQuery e (columns.expand E.env) f'
  cases hredirect : redirected E.env e (columns.expand E.env) f' with
  | none =>
    have hrows : ∀ q q', (if E.fromChecks e columns f then
          E.fromQuery e (columns.expand E.env) f' else none) = some q →
        (if E.selectChecks e columns then E.keptQuery e (columns.expand E.env) f' else none) =
          some q' → M.rows q = M.rows q' := by
      intro q q' hq hq'
      split at hq
      · split at hq'
        · rw [E.fromQuery_eq_some e _ f' q hq] at hq'
          rw [Option.some.inj hq']
        · cases hq'
      · cases hq
    rw [and_iff_left hrows]
    cases E.fromChecks e columns f with
    | false =>
      cases E.selectChecks e columns with
      | false => simp
      | true =>
        simp only [Bool.false_and, Bool.true_and, Bool.false_eq_true, if_false, if_true,
          Option.isSome_none, hkept]
        tauto
    | true =>
      cases E.selectChecks e columns with
      | false =>
        simp only [Bool.false_and, Bool.true_and, Bool.false_eq_true, if_false, if_true,
          Option.isSome_none, hfrom]
        tauto
      | true =>
        simp only [Bool.true_and, if_true, hfrom, hkept]
        tauto
  | some g =>
    have hinventory := E.isSome_inventoryQuery (columns.expand E.env) g
    cases E.fromChecks e columns f with
    | false =>
      cases E.selectChecks e columns with
      | false => simp
      | true => simp [hinventory]
    | true =>
      cases E.selectChecks e columns with
      | false => simp [hfrom]
      | true =>
        simp only [Bool.true_and, if_true, hfrom, hinventory]
        constructor
        · rintro ⟨hiff, hrows⟩
          refine ⟨hiff, ?_⟩
          intro q q' hq hq'
          have hsome : (E.fromQuery e (columns.expand E.env) f').isSome = true := by rw [hq]; rfl
          have hsome' : (E.inventoryQuery (columns.expand E.env) g).isSome = true := by
            rw [hq']
            rfl
          exact hrows (hfrom.mp hsome).1 (hinventory.mp hsome').1 q q' hq hq'
        · rintro ⟨hiff, hrows⟩
          exact ⟨hiff, fun _ _ => hrows⟩

/-! ## The forms in an `in` -/

theorem compile_inFrom (r e : EntityName) (cols columns : Columns) (f : Ast)
    (hfilter : isFilter f = true) (hcols : ¬ cols.Rewritten) (hcolumns : ¬ columns.Rewritten) :
    E.compile (E.entity r) (inForm cols (fromForm e columns f)) =
      if E.inChecks (E.entity r) cols then
        (E.prepared (E.entity e) f).bind fun f' =>
          E.inPlan r (cols.expand E.env) (E.checkedFrom e columns f f')
      else none := by
  have hrefused : E.inPlan r (cols.expand E.env) none = none := by
    rw [inPlan]
    cases (cols.expand E.env).list.mapM (column (E.entity r)) <;> rfl
  rw [compile_eq, E.prepared_inFrom r e cols columns f hfilter hcols hcolumns]
  cases E.inChecks (E.entity r) cols with
  | false => rfl
  | true =>
    simp only [checkedFrom]
    cases hchecks : E.fromChecks e columns f with
    | false =>
      cases E.prepared (E.entity e) f with
      | none => rfl
      | some f' => exact hrefused.symm
    | true =>
      cases hf : E.prepared (E.entity e) f with
      | none => rfl
      | some f' =>
        have hclause : checkExtractClause f = true := by
          simp only [fromChecks, Bool.and_eq_true] at hchecks
          exact hchecks.2
        obtain ⟨op, hop, hheaded⟩ := E.prepared_filter e f f' hfilter hclause hf
        exact E.planned_inFrom r e _ _ f' (noFacts_of_headed op f' hop hheaded)

theorem compile_inSelect (r e : EntityName) (cols columns : Columns) (f : Ast)
    (hfilter : isFilter f = true) (hcols : ¬ cols.Rewritten) (hcolumns : ¬ columns.Rewritten) :
    E.compile (E.entity r) (inForm cols (selectForm e columns f)) =
      if E.inChecks (E.entity r) cols then
        (E.prepared (E.entity e) f).bind fun f' =>
          E.inPlan r (cols.expand E.env) (E.checkedSelect e columns f')
      else none := by
  have hrefused : E.inPlan r (cols.expand E.env) none = none := by
    rw [inPlan]
    cases (cols.expand E.env).list.mapM (column (E.entity r)) <;> rfl
  rw [compile_eq, E.prepared_inSelect r e cols columns f hfilter hcols hcolumns]
  cases E.inChecks (E.entity r) cols with
  | false => rfl
  | true =>
    simp only [checkedSelect]
    cases E.selectChecks e columns with
    | false =>
      cases E.prepared (E.entity e) f with
      | none => rfl
      | some f' => exact hrefused.symm
    | true =>
      cases E.prepared (E.entity e) f with
      | none => rfl
      | some f' => exact E.planned_inSelect r e _ _ f'

theorem alike_inPlan (M : Meaning V Rows) (r : EntityName) (cols : Columns)
    (o o' : Option (QueryRec V × Option (Plan V))) (h : AlikeQueries M o o') :
    Alike M (E.inPlan r cols o) (E.inPlan r cols o') := by
  unfold inPlan
  cases cols.list.mapM (column (E.entity r)) with
  | none => exact Alike.refused M
  | some columns =>
    obtain ⟨rfl, rfl⟩ | ⟨q, q', rfl, rfl, hrows⟩ := h
    · exact Alike.refused M
    · exact Or.inr ⟨_, _, rfl, rfl, .inSub columns q q' hrows⟩

/-- An `in` without columns tells the subqueries apart. -/
theorem alikeQueries_of_inPlan (M : Meaning V Rows) (r : EntityName)
    (o o' : Option (QueryRec V × Option (Plan V)))
    (h : Alike M (E.inPlan r (.names []) o) (E.inPlan r (.names []) o')) :
    AlikeQueries M o o' := by
  cases o with
  | none =>
    cases o' with
    | none => exact Or.inl ⟨rfl, rfl⟩
    | some q' =>
      obtain ⟨-, hnone⟩ | ⟨a, b, hsome, -, -⟩ := h
      · cases hnone
      · cases hsome
  | some q =>
    cases o' with
    | none =>
      obtain ⟨hnone, -⟩ | ⟨a, b, -, hsome, -⟩ := h
      · cases hnone
      · cases hsome
    | some q' =>
      obtain ⟨hnone, -⟩ | ⟨a, b, ha, hb, hrows⟩ := h
      · cases hnone
      · cases ha
        cases hb
        exact Or.inr ⟨q, q', rfl, rfl, SameRows.rows_eq hrows⟩

end Engine

/-! ## Refused forms -/

theorem expand_of_last (env : QueryExpansion.Env) (ctx : Context) (a b c : Ast)
    (h : (expandUserQuery env c).toOption = none) :
    (expandUserQuery env (.vec ctx [a, b, c])).toOption = none := by
  rw [expand_vec, expandAll_cons, expandAll_cons, expandAll_cons, h]
  cases (expandUserQuery env a).toOption with
  | none => rfl
  | some a' => cases (expandUserQuery env b).toOption <;> rfl

namespace Engine

theorem prepared_from_none (r e : EntityName) (cols columns : Columns) (f : Ast)
    (hfilter : isFilter f = true)
    (h : ∀ f₁, E.fromChecks e columns f = true → E.pushDown (E.entity e) f = some f₁ →
      (expandUserQuery E.env
        (.vec (E.entity e).context [.str "extract", columns.toAst, f₁])).toOption = none) :
    E.prepared (E.entity r) (inForm cols (fromForm e columns f)) = none := by
  have hpush := E.pushDown_in (E.entity r) cols "from" (.str e.text)
    (.made [.str "extract", columns.toAst, f])
  have hsub := E.pushDown_from (E.entity r) e columns f hfilter
  rw [prepared, fromForm, hpush, ← fromForm, hsub]
  cases E.inChecks (E.entity r) cols with
  | false => rfl
  | true =>
    cases hchecks : E.fromChecks e columns f with
    | false => rfl
    | true =>
      cases hf : E.pushDown (E.entity e) f with
      | none => rfl
      | some f₁ =>
        have hfrom := expand_of_last E.env (E.entity e).context (.str "from") (.str e.text) _
          (h f₁ hchecks hf)
        exact expand_of_last E.env (E.entity r).context (.str "in") cols.toAst _ hfrom

theorem prepared_select_none (r e : EntityName) (cols columns : Columns) (f : Ast)
    (hfilter : isFilter f = true)
    (h : ∀ f₁, E.selectChecks e columns = true → E.pushDown (E.entity e) f = some f₁ →
      (expandUserQuery E.env (.vec (E.entity e).context [.str "extract", columns.toAst,
        .vec (E.entity e).context [.str e.selectName, f₁]])).toOption = none) :
    E.prepared (E.entity r) (inForm cols (selectForm e columns f)) = none := by
  have hpush := E.pushDown_in (E.entity r) cols "extract" columns.toAst
    (.made [.str e.selectName, f])
  have hsub := E.pushDown_select (E.entity r) e columns f hfilter
  rw [prepared, selectForm, hpush, ← selectForm, hsub]
  cases E.inChecks (E.entity r) cols with
  | false => rfl
  | true =>
    cases hchecks : E.selectChecks e columns with
    | false => rfl
    | true =>
      cases hf : E.pushDown (E.entity e) f with
      | none => rfl
      | some f₁ =>
        exact expand_of_last E.env (E.entity r).context (.str "in") cols.toAst _ (h f₁ hchecks hf)

/-- What is not a text after the passes is compared with no tag. -/
theorem prepared_from_tag (r e : EntityName) (cols : Columns) (f : Ast)
    (hfilter : isFilter f = true) :
    E.prepared (E.entity r) (inForm cols (fromForm e (.name "tag") f)) = none := by
  apply E.prepared_from_none r e cols _ f hfilter
  intro f₁ hchecks hpush
  apply expand_tag E.env _ "extract" f₁ (by simp)
  intro f' hf'
  have hprepared : E.prepared (E.entity e) f = some f' := by
    rw [prepared, hpush]
    simp only [Option.bind_eq_bind, Option.bind_some, hf']
    rfl
  have hclause : checkExtractClause f = true := by
    simp only [fromChecks, Bool.and_eq_true] at hchecks
    exact hchecks.2
  obtain ⟨op, -, rfl | ⟨w, args, rfl, -⟩⟩ := E.prepared_filter e f f' hfilter hclause hprepared
  · rfl
  · rfl

theorem prepared_select_tag (r e : EntityName) (cols : Columns) (f : Ast)
    (hfilter : isFilter f = true) :
    E.prepared (E.entity r) (inForm cols (selectForm e (.name "tag") f)) = none := by
  apply E.prepared_select_none r e cols _ f hfilter
  intro f₁ _ _
  apply expand_tag E.env _ "extract" _ (by simp)
  intro f' hf'
  obtain rfl | ⟨w, args, rfl, -⟩ := expand_headed E.env _ e.selectName _ f' hf'
  · rfl
  · rfl

/-- A form is refused where its filter or its checks are. -/
theorem prepared_from_refused (r e : EntityName) (cols columns : Columns) (f : Ast)
    (hfilter : isFilter f = true)
    (h : ∀ f', E.prepared (E.entity e) f = some f' → E.fromChecks e columns f = false) :
    E.prepared (E.entity r) (inForm cols (fromForm e columns f)) = none := by
  apply E.prepared_from_none r e cols columns f hfilter
  intro f₁ hchecks hpush
  apply expand_of_last
  cases hf : (expandUserQuery E.env f₁).toOption with
  | none => rfl
  | some f' =>
    have hprepared : E.prepared (E.entity e) f = some f' := by
      rw [prepared, hpush]
      exact hf
    rw [h f' hprepared] at hchecks
    cases hchecks

theorem prepared_select_refused (r e : EntityName) (cols columns : Columns) (f : Ast)
    (hfilter : isFilter f = true)
    (h : ∀ f', E.prepared (E.entity e) f = some f' → E.selectChecks e columns = false) :
    E.prepared (E.entity r) (inForm cols (selectForm e columns f)) = none := by
  apply E.prepared_select_none r e cols columns f hfilter
  intro f₁ hchecks hpush
  apply expand_of_last
  rw [expand_select]
  cases hf : (expandUserQuery E.env f₁).toOption with
  | none => rfl
  | some f' =>
    have hprepared : E.prepared (E.entity e) f = some f' := by
      rw [prepared, hpush]
      exact hf
    rw [h f' hprepared] at hchecks
    cases hchecks

end Engine

/-! ## Columns with serialized values -/

namespace Engine

theorem expanded_fromForm_changed (ctx ctx' : Context) (e : EntityName) (c : String) (f : Ast)
    (hc : c = "new_value" ∨ c = "old_value") :
    (expandUserQuery E.env (.vec ctx [.str "from", .str e.text,
        .vec ctx' [.str "extract", .str c, f]])).toOption =
      (expandUserQuery E.env f).toOption.map fun f' => .made [.str "from", .str e.text,
        .made [.str "extract", .str c, .str (E.env.serialize f')]] := by
  rw [expand_node E.env ctx "from" _ _ _ (by simp) (expandUserQuery_lit E.env _) (inert_entity e)
    (fun h => absurd h (by decide)), expand_changed E.env ctx' "extract" c f (by simp) hc]
  cases (expandUserQuery E.env f).toOption <;> rfl

/-- A `from` that extracts such a column has no filter left. -/
theorem compile_from_changed (r e : EntityName) (c : String) (f f' : Ast) (field : Column)
    (hfilter : isFilter f = true) (hc : c = "new_value" ∨ c = "old_value")
    (hchecks : E.fromChecks e (.name c) f = true) (hf : E.prepared (E.entity e) f = some f')
    (hfield : (E.entity e).query.projections.lookup c = some field) :
    (E.compile (E.entity r) (inForm (.names []) (fromForm e (.name c) f))).isSome = true := by
  have hpush := E.pushDown_in (E.entity r) (.names []) "from" (.str e.text)
    (.made [.str "extract", .str c, f])
  have hsub := E.pushDown_from (E.entity r) e (.name c) f hfilter
  have hin : E.inChecks (E.entity r) (.names []) = true := rfl
  obtain ⟨f₁, hf₁, hf'⟩ := Option.bind_eq_some_iff.mp hf
  have hform := E.expanded_fromForm_changed (E.entity e).context (E.entity e).context e c f₁ hc
  rw [hf'] at hform
  have hexpand := expand_inForm E.env (E.entity r).context (.names []) _
    (fun f' => .made [.str "from", .str e.text,
      .made [.str "extract", .str c, .str (E.env.serialize f')]]) (some f') trivial id hform
    fun _ => ⟨rfl, rfl⟩
  have hprepared : E.prepared (E.entity r) (inForm (.names []) (fromForm e (.name c) f)) =
      some (inMade (.names []) (.made [.str "from", .str e.text,
        .made [.str "extract", .str c, .str (E.env.serialize f')]])) := by
    rw [prepared, fromForm, Columns.toAst, hpush, hin, if_pos rfl]
    have hsub' := hsub
    rw [fromForm, Columns.toAst, hchecks, if_pos rfl, hf₁] at hsub'
    rw [hsub']
    exact hexpand
  have hplan : E.planSubquery (E.entity r) (.made [.str "from", .str e.text,
      .made [.str "extract", .str c, .str (E.env.serialize f')]]) =
      some (subqueryOf (E.entity e) [(c, field)], none) := by
    rw [planSubquery]
    simp [find_text, Ast.isStr, Ast.str?, isExtract, planFrom, columnList, fromFields, hfield, plan]
  rw [compile_eq, hprepared]
  have hoptimize := optimize_inMade E.env (.names []) (.made [.str "from", .str e.text,
    .made [.str "extract", .str c, .str (E.env.serialize f')]])
  have hrest : optimizeUserQuery E.env (.made [.str "from", .str e.text,
      .made [.str "extract", .str c, .str (E.env.serialize f')]]) =
      .made [.str "from", .str e.text,
        .made [.str "extract", .str c, .str (E.env.serialize f')]] := rfl
  rw [hrest] at hoptimize
  rw [Option.bind_some, planned, hoptimize, E.plan_in _ _ _ rfl, hplan]
  rfl

/-- A `select_<entity>` that extracts such a column is the outer entity, without a filter. -/
theorem compile_select_changed (r e : EntityName) (c : String) (f f' : Ast)
    (hfilter : isFilter f = true) (hc : c = "new_value" ∨ c = "old_value")
    (hchecks : E.selectChecks e (.name c) = true) (hf : E.prepared (E.entity e) f = some f') :
    (E.compile (E.entity r) (inForm (.names []) (selectForm e (.name c) f))).isSome =
      ((E.entity r).query.projections.lookup c).isSome := by
  have hpush := E.pushDown_in (E.entity r) (.names []) "extract" (.str c)
    (.made [.str e.selectName, f])
  have hsub := E.pushDown_select (E.entity r) e (.name c) f hfilter
  have hin : E.inChecks (E.entity r) (.names []) = true := rfl
  obtain ⟨f₁, hf₁, hf'⟩ := Option.bind_eq_some_iff.mp hf
  obtain ⟨g, hg⟩ : ∃ g, (expandUserQuery E.env
      (.vec (E.entity e).context [.str e.selectName, f₁])).toOption = some g := by
    rw [expand_select, hf']
    exact ⟨_, rfl⟩
  have hform := expand_changed E.env (E.entity e).context "extract" c
    (.vec (E.entity e).context [.str e.selectName, f₁]) (by simp) hc
  rw [hg] at hform
  have hexpand := expand_inForm E.env (E.entity r).context (.names []) _
    (fun g => .made [.str "extract", .str c, .str (E.env.serialize g)]) (some g) trivial id hform
    fun _ => ⟨rfl, rfl⟩
  have hprepared : E.prepared (E.entity r) (inForm (.names []) (selectForm e (.name c) f)) =
      some (inMade (.names []) (.made [.str "extract", .str c, .str (E.env.serialize g)])) := by
    rw [prepared, selectForm, Columns.toAst, hpush, hin, if_pos rfl]
    rw [selectForm, Columns.toAst, hchecks, if_pos rfl, hf₁] at hsub
    rw [hsub]
    exact hexpand
  have hword : c ∈ operators ++ ["new_value", "old_value"] := by
    apply List.mem_append_right
    simpa using hc
  have hparts := E.words c hword
  have hnames : namesToFields E.parser (E.entity r).query.projections c =
      ((E.entity r).query.projections.lookup c).map fun column => (c, column) := by
    rw [namesToFields]
    simp only [if_neg (show ¬ (E.parser.parts c).length > 1 by omega)]
  have hplan : (E.planSubquery (E.entity r)
      (.made [.str "extract", .str c, .str (E.env.serialize g)])).isSome =
      ((E.entity r).query.projections.lookup c).isSome := by
    rw [planSubquery]
    cases hlookup : (E.entity r).query.projections.lookup c with
    | none => simp [Ast.isStr, Ast.str?, columnList, selected, hnames, hlookup]
    | some field => simp [Ast.isStr, Ast.str?, columnList, selected, hnames, hlookup, plan]
  have hoptimize := optimize_inMade E.env (.names [])
    (.made [.str "extract", .str c, .str (E.env.serialize g)])
  have hrest : optimizeUserQuery E.env (.made [.str "extract", .str c,
      .str (E.env.serialize g)]) = .made [.str "extract", .str c, .str (E.env.serialize g)] := rfl
  rw [hrest] at hoptimize
  rw [compile_eq, hprepared, Option.bind_some, planned, hoptimize, E.plan_in _ _ _ rfl, ← hplan]
  cases E.planSubquery (E.entity r)
      (.made [.str "extract", .str c, .str (E.env.serialize g)]) with
  | none => rfl
  | some q => rfl

end Engine

/-! ## The forms in every query -/

theorem twins_none (M : Meaning V Rows) (x : Entity V) : Twins E M x none none := by
  apply twins_of_refused E
  · intro q hq
    cases hq
  · intro q hq
    cases hq

/-- Where the forms agree, neither extracts a column with serialized values. -/
theorem Engine.checks_of_alike (M : Meaning V Rows) (e : EntityName) (columns : Columns)
    (f f' : Ast) (hfilter : isFilter f = true)
    (hchanged : columns = .name "new_value" ∨ columns = .name "old_value")
    (hf : E.prepared (E.entity e) f = some f')
    (h : ∀ r, Alike M (E.compile (E.entity r) (inForm (.names []) (fromForm e columns f)))
      (E.compile (E.entity r) (inForm (.names []) (selectForm e columns f)))) :
    E.fromChecks e columns f = false ∧ E.selectChecks e columns = false := by
  obtain ⟨c, rfl, hc⟩ : ∃ c, columns = .name c ∧ (c = "new_value" ∨ c = "old_value") := by
    obtain rfl | rfl := hchanged
    · exact ⟨_, rfl, Or.inl rfl⟩
    · exact ⟨_, rfl, Or.inr rfl⟩
  have hsame : ∀ r, (E.compile (E.entity r) (inForm (.names []) (fromForm e (.name c) f))).isSome =
      (E.compile (E.entity r) (inForm (.names []) (selectForm e (.name c) f))).isSome := by
    intro r
    obtain ⟨hnone, hnone'⟩ | ⟨p, p', hp, hp', -⟩ := h r
    · rw [hnone, hnone']
    · rw [hp, hp']
      rfl
  have hlookup : ∀ r, c ∈ (E.entity r).query.projections.map Prod.fst ↔
      ((E.entity r).query.projections.lookup c).isSome = true := by
    intro r
    simp [List.lookup_isSome_iff]
  have hword : c ∈ operators ++ ["new_value", "old_value"] := by
    apply List.mem_append_right
    simpa using hc
  have hparts := E.words c hword
  -- The nodes tell a `from` that is accepted from the other form.
  have hfrom : E.fromChecks e (.name c) f = false := by
    by_contra hchecks
    rw [Bool.not_eq_false] at hchecks
    have hcolumn : c ∈ (E.entity e).query.projections.map Prod.fst := by
      simp only [fromChecks, Bool.and_eq_true] at hchecks
      obtain hmem | hdot := E.supported_str _ _ c hchecks.1.2
      · exact mem_projectableFields _ c hmem
      · omega
    obtain ⟨field, hfield⟩ := Option.isSome_iff_exists.mp ((hlookup e).mp hcolumn)
    have haccepted := E.compile_from_changed .nodes e c f f' field hfilter hc hchecks hf hfield
    rw [hsame] at haccepted
    cases hselect : E.selectChecks e (.name c) with
    | false =>
      rw [E.compile_eq, E.prepared_select_refused _ e _ _ f hfilter fun _ _ => hselect] at haccepted
      cases haccepted
    | true =>
      rw [E.compile_select_changed .nodes e c f f' hfilter hc hselect hf] at haccepted
      exact E.unchanged c (by simpa using hc) ((hlookup .nodes).mpr haccepted)
  refine ⟨hfrom, ?_⟩
  by_contra hchecks
  rw [Bool.not_eq_false] at hchecks
  have hcolumn : c ∈ (E.entity e).query.projections.map Prod.fst := by
    obtain hmem | hdot := E.supported_str _ _ c hchecks
    · exact mem_queryableFields _ c hmem
    · omega
  have haccepted := E.compile_select_changed e e c f f' hfilter hc hchecks hf
  rw [(hlookup e).mp hcolumn, ← hsame, E.compile_eq,
    E.prepared_from_refused _ e _ _ f hfilter fun _ _ => hfrom] at haccepted
  cases haccepted

theorem Columns.not_rewritten (columns : Columns) (htag : columns ≠ .name "tag")
    (hchanged : ¬ (columns = .name "new_value" ∨ columns = .name "old_value")) :
    ¬ columns.Rewritten := by
  cases columns with
  | names cs => exact id
  | name c =>
    rintro (rfl | rfl | rfl)
    · exact hchanged (Or.inl rfl)
    · exact hchanged (Or.inr rfl)
    · exact htag rfl

/-- The forms in an `in` of any columns. -/
theorem Engine.Agrees.twins {E : Engine V} {M : Meaning V Rows} {e : EntityName}
    {columns : Columns} {f : Filter} (h : E.Agrees M e columns f.ast) (cols : Columns)
    (r : EntityName) : Twins E M (E.entity r)
      (E.prepared (E.entity r) (inForm cols (fromForm e columns f.ast)))
      (E.prepared (E.entity r) (inForm cols (selectForm e columns f.ast))) := by
  have hfilter := f.operation
  by_cases hcols : cols.Rewritten
  · apply twins_of_refused E
    · intro q hq
      exact E.prepared_rewritten _ cols _ _ _ q hcols (E.pushed_from _ e columns _ hfilter) hq
    · intro q hq
      exact E.prepared_rewritten _ cols _ _ _ q hcols (E.pushed_select _ e columns _ hfilter) hq
  · by_cases htag : columns = .name "tag"
    · rw [htag, E.prepared_from_tag r e cols _ hfilter, E.prepared_select_tag r e cols _ hfilter]
      exact twins_none E M _
    · have h := h.resolve_left htag
      by_cases hchanged : columns = .name "new_value" ∨ columns = .name "old_value"
      · rw [E.prepared_from_refused r e cols columns _ hfilter, E.prepared_select_refused r e cols
          columns _ hfilter]
        · exact twins_none E M _
        · intro f' hf'
          have hrefused := h f' hf'
          rw [if_pos hchanged] at hrefused
          exact hrefused.2
        · intro f' hf'
          have hrefused := h f' hf'
          rw [if_pos hchanged] at hrefused
          exact hrefused.1
      · have hcolumns := Columns.not_rewritten columns htag hchanged
        have hsteady : ∀ (o : Option Ast) (checks : Bool) (G : Ast → Ast),
            (∀ a, Steady (G a)) →
            ∀ a, (if checks then o.map G else none) = some a → Steady a := by
          intro o checks G hG a ha
          split at ha
          · obtain ⟨f', -, rfl⟩ := Option.map_eq_some_iff.mp ha
            exact hG f'
          · cases ha
        constructor
        · intro a ha
          rw [E.prepared_inFrom r e cols columns _ hfilter hcols hcolumns] at ha
          exact hsteady _ _ _ (fun f' => steady_inMade _ _ _ _ _) a ha
        · intro a ha
          rw [E.prepared_inSelect r e cols columns _ hfilter hcols hcolumns] at ha
          exact hsteady _ _ _ (fun f' => steady_inMade _ _ _ _ _) a ha
        · rw [← E.compile_eq, ← E.compile_eq, E.compile_inFrom r e cols columns _ hfilter hcols
            hcolumns, E.compile_inSelect r e cols columns _ hfilter hcols hcolumns]
          cases E.inChecks (E.entity r) cols with
          | false => exact Alike.refused M
          | true =>
            cases hf : E.prepared (E.entity e) f.ast with
            | none => exact Alike.refused M
            | some f' =>
              have hagrees := h f' hf
              rw [if_neg hchanged, E.agreesOn_iff] at hagrees
              exact E.alike_inPlan M r _ _ _ hagrees

/-! ## A path into the facts -/

/-- Fields with dots between their names. -/
def dotted : FieldParser where
  names s := (s.toList.splitOn '.').map String.ofList
  parts s := (s.toList.splitOn '.').map fun name => .named (String.ofList name)

def inventoryEntity : Entity String := ⟨Entities.inventoryQuery String, .none, ["facts", "trusted"]⟩

def nodesEntity : Entity String := ⟨Entities.nodesQuery String, .none, []⟩

/-- A vector is put into the context of the entity. -/
def inContext (x : Entity String) : Ast → Option Ast
  | .vec _ xs => some (.vec x.context xs)
  | a => some a

/-- The plan of a comparison of a column with a text. -/
def comparison (x : Entity String) : Ast → Option (Option (Plan String))
  | .vec _ [.lit (.str op), .lit (.str c), .lit (.str v)] =>
    (x.query.projections.lookup c).map fun column => some (.binary op column v)
  | _ => some none

/-- The inventory, and the nodes under every other name. -/
def inventoryOrNodes (e : EntityName) : Entity String :=
  if e = .inventory then inventoryEntity else nodesEntity

theorem inContext_head (x : Entity String) (ctx : Context) (args : List Ast) (a : Ast)
    (op : String) (h : inContext x (.vec ctx (.str op :: args)) = some a) :
    ∃ ctx args, a = .vec ctx (.str op :: args) :=
  ⟨x.context, args, (Option.some.inj h).symm⟩

theorem inventoryOrNodes_undotted (e : EntityName) :
    ∀ c ∈ (inventoryOrNodes e).query.projections.map Prod.fst, (dotted.parts c).length ≤ 1 := by
  rw [inventoryOrNodes]
  split <;> decide +kernel

theorem inventoryOrNodes_named (e : EntityName) :
    ∀ c ∈ (inventoryOrNodes e).query.projections.map Prod.fst, c ∉ operators := by
  rw [inventoryOrNodes]
  split <;> decide +kernel

theorem operators_undotted :
    ∀ c ∈ operators ++ ["new_value", "old_value"], (dotted.parts c).length ≤ 1 := by
  decide +kernel

theorem inventoryOrNodes_unchanged : ∀ c ∈ ["new_value", "old_value"],
    c ∉ (inventoryOrNodes .nodes).query.projections.map Prod.fst := by
  decide +kernel

/-- An engine for the nodes and the inventory, with comparisons of texts. -/
def inventoryEngine : Engine String where
  env := Elision.nodesEnv
  parser := dotted
  entity := inventoryOrNodes
  pushNode := inContext
  pushNode_head x ctx args a op _ h := inContext_head x ctx args a op h
  planNode := comparison
  planQuery _ _ := none
  undotted := inventoryOrNodes_undotted
  named := inventoryOrNodes_named
  words := operators_undotted
  unchanged := inventoryOrNodes_unchanged

/-- `["=" "certname" "a"]` -/
def certnameFilter : Filter := ⟨.made [.str "=", .str "certname", .str "a"], by decide +kernel⟩

/-- The trusted data among the facts are a column of a `select_inventory` only. -/
theorem compile_factsTrusted :
    inventoryEngine.compile inventoryEntity (inForm (.name "trusted")
        (fromForm .inventory (.name "facts.trusted") certnameFilter.ast)) = none ∧
      (inventoryEngine.compile inventoryEntity (inForm (.name "trusted")
        (selectForm .inventory (.name "facts.trusted") certnameFilter.ast))).isSome = true :=
  ⟨Option.isNone_iff_eq_none.mp (by decide +kernel), by decide +kernel⟩

end OpenVoxDB.Subqueries
