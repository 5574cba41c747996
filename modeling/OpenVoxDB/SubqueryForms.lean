import Mathlib
import OpenVoxDB.SubqueryPasses

/-!
# The two forms of a subquery

A filter of an entity goes through the first two passes on its own. Both forms put what comes out
into the nodes that they began with, after checks of the columns and of the filter.
-/

namespace OpenVoxDB.Subqueries

open QueryExpansion InventoryRedirect Plans

/-! ## Syntax -/

/-- The subquery with a `from`. -/
def fromForm (e : EntityName) (columns : Columns) (f : Ast) : Ast :=
  .made [.str "from", .str e.text, .made [.str "extract", columns.toAst, f]]

/-- The subquery with a `select_<entity>`. -/
def selectForm (e : EntityName) (columns : Columns) (f : Ast) : Ast :=
  .made [.str "extract", columns.toAst, .made [.str e.selectName, f]]

/-- The `in` of a subquery. -/
def inForm (cols : Columns) (subquery : Ast) : Ast :=
  .made [.str "in", cols.toAst, subquery]

variable {V : Type} (E : Engine V)

namespace Engine

/-! ## Checks -/

/-- The checks of the columns and of the filter of a `from`. -/
def fromChecks (e : EntityName) (columns : Columns) (f : Ast) : Bool :=
  (pairHead f).all (·.isOp ["not", "group_by", "or", "and"]) &&
    E.validFields (E.entity e).projectableFields (E.entity e).jsonFields columns.toAst &&
    checkExtractClause f

/-- The checks of the columns of a `select_<entity>`. -/
def selectChecks (e : EntityName) (columns : Columns) : Bool :=
  E.validFields (E.entity e).queryableFields (E.entity e).jsonFields columns.toAst

/-- The check of the columns of an `in`. -/
def inChecks (x : Entity V) (cols : Columns) : Bool :=
  E.validFields x.queryableFields [] cols.toAst

/-- A query after the first two passes. -/
def prepared (x : Entity V) (query : Ast) : Option Ast := do
  let pushed ← E.pushDown x query
  (expandUserQuery E.env pushed).toOption

/-- The plan of a query after the first two passes. -/
def planned (x : Entity V) (query : Ast) : Option (Option (Plan V)) :=
  E.plan x (optimizeUserQuery E.env query)

theorem compile_eq (x : Entity V) (query : Ast) :
    E.compile x query = (E.prepared x query).bind (E.planned x) := by
  rw [compile, prepared]
  cases E.pushDown x query with
  | none => rfl
  | some pushed => rfl

end Engine

/-! ## The first pass -/

theorem findSelect_selectName (e : EntityName) : EntityName.findSelect (.str e.selectName) = some e := by
  cases e <;> decide +kernel

theorem find_text (e : EntityName) : EntityName.find (.str e.text) = some e := by
  cases e <;> decide +kernel

/-- A filter is no query of its own. -/
theorem findSelect_of_isFilter (f : Ast) (h : isFilter f = true) :
    (pairHead f).bind EntityName.findSelect = none := by
  unfold isFilter at h
  split at h
  · next ctx op args =>
    have hselect : EntityName.findSelect (.str op) = none := by
      simp only [Bool.and_eq_true, Option.isNone_iff_eq_none] at h
      exact h.2
    unfold pairHead
    split
    · next heq =>
      cases heq
      exact hselect
    · rfl
  · cases h

/-- The columns of a form as a vector or a string is none. -/
theorem tagged_made (s op : String) (a b : Ast) (args : List Ast) :
    (Ast.made (.str op :: a :: b :: args)).tagged? s = none := rfl

namespace Engine

theorem planSubquery_select (x : Entity V) (e : EntityName) (columns : Columns) (f : List Ast) :
    E.planSubquery x (.made [.str "extract", columns.toAst, .made (.str e.selectName :: f)]) =
      (do
        let fields ← columns.list.mapM (namesToFields E.parser (E.entity e).query.projections)
        let filter ← (f.head?.map (E.plan (E.entity e))).getD (some none)
        some (subqueryOf (E.entity e) fields, filter)) := by
  rw [planSubquery]
  simp only [selected, findSelect_selectName]
  cases f with
  | nil => simp [Ast.isStr, Ast.str?, planSelect]
  | cons a f => simp [Ast.isStr, Ast.str?, planSelect]

theorem pushDown_from (x : Entity V) (e : EntityName) (columns : Columns) (f : Ast)
    (hfilter : isFilter f = true) : E.pushDown x (fromForm e columns f) =
      if E.fromChecks e columns f then
        (E.pushDown (E.entity e) f).map fun f' =>
          .vec (E.entity e).context [.str "from", .str e.text,
            .vec (E.entity e).context [.str "extract", columns.toAst, f']]
      else none := by
  have hhead := findSelect_of_isFilter f hfilter
  have hnode : E.pushDown (E.entity e) (.made [.str "extract", columns.toAst, f]) =
      if E.fromChecks e columns f then
        (E.pushDown (E.entity e) f).map fun f' =>
          .vec (E.entity e).context [.str "extract", columns.toAst, f']
      else none := by
    have hnone : E.pushDown (E.entity e) (.made [.str "extract", columns.toAst, f]) = (do
        guard ((pairHead f).all (·.isOp ["not", "group_by", "or", "and"]))
        guard (E.validFields (E.entity e).projectableFields (E.entity e).jsonFields columns.toAst)
        guard (checkExtractClause f)
        let query ← E.pushDown (E.entity e) f
        some (.vec (E.entity e).context [.str "extract", columns.toAst, query])) := by
      rw [pushDown]
      simp [Ast.isOp, Ast.isStr, Ast.str?, connectives, hhead]
    rw [hnone, fromChecks]
    cases (pairHead f).all (·.isOp ["not", "group_by", "or", "and"]) with
    | false => rfl
    | true =>
      cases E.validFields (E.entity e).projectableFields (E.entity e).jsonFields columns.toAst with
      | false => rfl
      | true =>
        cases checkExtractClause f with
        | false => rfl
        | true =>
          cases E.pushDown (E.entity e) f with
          | none => rfl
          | some f' => rfl
  have hfrom : E.pushDown x (fromForm e columns f) = (do
      let entity ← EntityName.find (.str e.text)
      let query ← E.pushDown (E.entity entity) (.made [.str "extract", columns.toAst, f])
      some (.vec (E.entity entity).context [.str "from", .str e.text, query])) := by
    rw [fromForm, pushDown]
    simp [Ast.isOp, Ast.isStr, Ast.str?, connectives]
  rw [hfrom, find_text]
  simp only [Option.bind_eq_bind, Option.bind_some, hnode]
  cases E.fromChecks e columns f with
  | false => rfl
  | true =>
    cases E.pushDown (E.entity e) f with
    | none => rfl
    | some f' => rfl

theorem pushDown_select (x : Entity V) (e : EntityName) (columns : Columns) (f : Ast)
    (hfilter : isFilter f = true) : E.pushDown x (selectForm e columns f) =
      if E.selectChecks e columns then
        (E.pushDown (E.entity e) f).map fun f' =>
          .vec (E.entity e).context [.str "extract", columns.toAst,
            .vec (E.entity e).context [.str e.selectName, f']]
      else none := by
  have hnode : E.pushDown x (selectForm e columns f) = (do
      let query ← E.pushSelect (E.entity e) (.made [.str e.selectName, f])
      guard (E.validFields (E.entity e).queryableFields (E.entity e).jsonFields columns.toAst)
      some (.vec (E.entity e).context [.str "extract", columns.toAst, query])) := by
    rw [selectForm, pushDown]
    simp [Ast.isOp, Ast.isStr, Ast.str?, connectives, pairHead, findSelect_selectName, filter?,
      hfilter]
  rw [hnode, selectChecks]
  simp only [pushSelect]
  cases E.pushDown (E.entity e) f with
  | none =>
    cases E.validFields (E.entity e).queryableFields (E.entity e).jsonFields columns.toAst with
    | false => rfl
    | true => rfl
  | some f' =>
    cases E.validFields (E.entity e).queryableFields (E.entity e).jsonFields columns.toAst with
    | false => rfl
    | true => rfl

theorem pushDown_in (x : Entity V) (cols : Columns) (op : String) (a b : Ast) :
    E.pushDown x (inForm cols (.made [.str op, a, b])) =
      if E.inChecks x cols then
        (E.pushDown x (.made [.str op, a, b])).map fun s =>
          .vec x.context [.str "in", cols.toAst, s]
      else none := by
  have hnode : E.pushDown x (inForm cols (.made [.str op, a, b])) = (do
      guard (E.validFields x.queryableFields [] cols.toAst)
      let subquery ← E.pushDown x (.made [.str op, a, b])
      some (.vec x.context [.str "in", cols.toAst, subquery])) := by
    rw [inForm, pushDown]
    simp [Ast.isOp, Ast.isStr, Ast.str?, connectives, tagged_made]
  rw [hnode, inChecks]
  cases E.validFields x.queryableFields [] cols.toAst with
  | false => rfl
  | true =>
    cases E.pushDown x (.made [.str op, a, b]) with
    | none => rfl
    | some s => rfl

/-! ## Filters after the passes -/

/-- What a filter that a `from` lets pass becomes: an operation, which selects from no entity. -/
theorem prepared_filter (e : EntityName) (f f' : Ast) (hfilter : isFilter f = true)
    (hclause : checkExtractClause f = true) (h : E.prepared (E.entity e) f = some f') :
    ∃ op ∈ operators, Headed op f' := by
  unfold isFilter at hfilter
  split at hfilter
  · next ctx op args =>
    simp only [Bool.and_eq_true, bne_iff_ne, ne_eq, Option.isNone_iff_eq_none] at hfilter
    obtain ⟨⟨hfrom, hextract⟩, hselect⟩ := hfilter
    have hop : op ∈ operators := by
      rw [checkExtractClause] at hclause
      split at hclause
      · next hconj =>
        have hconj : op = "or" ∨ op = "and" := by simpa [Ast.isOp, Ast.str?] using hconj
        obtain rfl | rfl := hconj <;> decide
      · simp only [validOperator, hselect, Option.isSome_none, Bool.or_false] at hclause
        simpa [Ast.isOp, Ast.str?] using hclause
    obtain ⟨f₁, hpush, hexpand⟩ := Option.bind_eq_some_iff.mp h
    obtain ⟨ctx', args', rfl⟩ := E.pushDown_head _ ctx op args f₁ hop hfrom hextract hpush
    cases hexpanded : expandUserQuery E.env (.vec ctx' (.str op :: args')) with
    | error err =>
      rw [hexpanded] at hexpand
      cases hexpand
    | ok f₂ =>
      rw [hexpanded] at hexpand
      cases hexpand
      exact ⟨op, hop, expand_headed E.env ctx' op args' f' hexpanded⟩
  · cases hfilter

/-! ## Checked columns -/

theorem mem_queryableFields (x : Entity V) (c : String) (h : c ∈ x.queryableFields) :
    c ∈ x.query.projections.map Prod.fst := by
  obtain ⟨p, hp, rfl⟩ := List.mem_map.mp h
  exact List.mem_map_of_mem (List.mem_of_mem_filter hp)

theorem mem_projectableFields (x : Entity V) (c : String) (h : c ∈ x.projectableFields) :
    c ∈ x.query.projections.map Prod.fst := by
  obtain ⟨p, hp, rfl⟩ := List.mem_map.mp h
  exact List.mem_map_of_mem (List.mem_of_mem_filter hp)

/-- A checked name is a column of the entity or has a dot. -/
theorem supported_str (fields jsonFields : List String) (c : String)
    (h : E.supported fields jsonFields (.str c) = true) :
    c ∈ fields ∨ 1 < (E.parser.parts c).length := by
  simp only [supported, Bool.or_eq_true, List.contains_iff_mem] at h
  obtain h | h := h
  · exact Or.inl h
  · right
    unfold validDottedField at h
    split at h
    · next heq =>
      rw [heq]
      simp
    · cases h

/-- Columns that pass a check begin with no operator. -/
theorem sound_of_validFields (e : EntityName) (fields jsonFields : List String) (columns : Columns)
    (hfields : ∀ c ∈ fields, c ∈ (E.entity e).query.projections.map Prod.fst)
    (h : E.validFields fields jsonFields columns.toAst = true) : columns.Sound := by
  cases columns with
  | name c => trivial
  | names cs =>
    cases cs with
    | nil => trivial
    | cons c cs =>
      intro hop
      have hc : E.supported fields jsonFields (.str c) = true := by
        simp only [Columns.toAst, validFields, List.map_cons, List.all_cons,
          Bool.and_eq_true] at h
        exact h.1
      obtain hmem | hdot := E.supported_str fields jsonFields c hc
      · exact E.named e c (hfields c hmem) hop
      · have hword := E.words c (List.mem_append_left _ hop)
        omega

theorem sound_of_inChecks (r : EntityName) (cols : Columns)
    (h : E.inChecks (E.entity r) cols = true) : cols.Sound :=
  E.sound_of_validFields r _ _ cols (mem_queryableFields _) h

theorem sound_of_selectChecks (e : EntityName) (columns : Columns)
    (h : E.selectChecks e columns = true) : columns.Sound :=
  E.sound_of_validFields e _ _ columns (mem_queryableFields _) h

theorem sound_of_fromChecks (e : EntityName) (columns : Columns) (f : Ast)
    (h : E.fromChecks e columns f = true) : columns.Sound := by
  simp only [fromChecks, Bool.and_eq_true] at h
  exact E.sound_of_validFields e _ _ columns (mem_projectableFields _) h.1.2

end Engine

/-! ## The second pass -/

theorem kept_of_stays (a : Ast) (h : removable a = false) : kept a = [a] := by
  rw [kept, List.filter_cons, h]
  rfl

theorem removable_select (e : EntityName) (args : List Ast) :
    removable (.made (.str e.selectName :: args)) = false := by
  cases args with
  | nil =>
    obtain ⟨-, hand, hor, hnot⟩ := selectName_words e
    simp [removable, hand, hor, hnot]
  | cons a args => exact removable_vec_cons_cons _ _ _ _

theorem expand_fromForm (env : QueryExpansion.Env) (ctx ctx' : Context) (e : EntityName)
    (columns : Columns) (f : Ast) (hsound : columns.Sound) (hkept : ¬ columns.Rewritten) :
    (expandUserQuery env (.vec ctx [.str "from", .str e.text,
        .vec ctx' [.str "extract", columns.toAst, f]])).toOption =
      (expandUserQuery env f).toOption.map fun f' => .made [.str "from", .str e.text,
        .made (.str "extract" :: (columns.expand env).toAst :: kept f')] := by
  have hinert : Inert (columns.expand env).toAst := by
    apply inert_columns _ hsound.expand
    rw [Columns.Rewritten.expand]
    exact hkept
  have hnode := expand_node env ctx' "extract" _ _ f (by simp) (expand_columns env columns hsound)
    hinert fun h => absurd h (by decide)
  have hentity := expandUserQuery_lit env (.str e.text)
  rw [expand_node env ctx "from" _ _ _ (by simp) hentity (inert_entity e) (fun h => absurd h (by decide)),
    hnode]
  cases (expandUserQuery env f).toOption with
  | none => rfl
  | some f' => rfl

theorem expand_selectForm (env : QueryExpansion.Env) (ctx ctx' : Context) (e : EntityName)
    (columns : Columns) (f : Ast) (hsound : columns.Sound) (hkept : ¬ columns.Rewritten) :
    (expandUserQuery env (.vec ctx [.str "extract", columns.toAst,
        .vec ctx' [.str e.selectName, f]])).toOption =
      (expandUserQuery env f).toOption.map fun f' => .made [.str "extract",
        (columns.expand env).toAst, .made (.str e.selectName :: kept f')] := by
  have hinert : Inert (columns.expand env).toAst := by
    apply inert_columns _ hsound.expand
    rw [Columns.Rewritten.expand]
    exact hkept
  rw [expand_node env ctx "extract" _ _ _ (by simp) (expand_columns env columns hsound) hinert
    (fun h => absurd h (by decide)), expand_select]
  cases (expandUserQuery env f).toOption with
  | none => rfl
  | some f' =>
    have hselect := removable_select e (kept f')
    simp only [Option.map_some, kept_of_stays _ hselect]

/-- An `in` is expanded as its subquery is, which stays an operation on two operands or more. -/
theorem expand_inForm (env : QueryExpansion.Env) (ctx : Context) (cols : Columns) (s : Ast)
    (g : Ast → Ast) (f : Option Ast) (hsound : cols.Sound) (hkept : ¬ cols.Rewritten)
    (hs : (expandUserQuery env s).toOption = f.map g)
    (hg : ∀ a, (g a).tagged? "array" = none ∧ removable (g a) = false) :
    (expandUserQuery env (.vec ctx [.str "in", cols.toAst, s])).toOption =
      f.map fun a => .made [.str "in", (cols.expand env).toAst, g a] := by
  have hinert : Inert (cols.expand env).toAst := by
    apply inert_columns _ hsound.expand
    rw [Columns.Rewritten.expand]
    exact hkept
  have harray : "in" = "in" → ∀ b, expandUserQuery env s = .ok b → b.tagged? "array" = none := by
    intro _ b hb
    rw [hb] at hs
    obtain ⟨a, -, ha⟩ := Option.map_eq_some_iff.mp hs.symm
    rw [← ha]
    exact (hg a).1
  rw [expand_node env ctx "in" _ _ _ (by simp) (expand_columns env cols hsound) hinert harray, hs]
  cases f with
  | none => rfl
  | some a => simp only [Option.map_some, kept_of_stays _ (hg a).2]

/-- The two forms after the second pass. -/
def fromMade (e : EntityName) (columns : Columns) (f : Ast) : Ast :=
  .made [.str "from", .str e.text, .made (.str "extract" :: columns.toAst :: kept f)]

def selectMade (e : EntityName) (columns : Columns) (f : Ast) : Ast :=
  .made [.str "extract", columns.toAst, .made (.str e.selectName :: kept f)]

def inMade (cols : Columns) (subquery : Ast) : Ast :=
  .made [.str "in", cols.toAst, subquery]

namespace Engine

/-- The `in` of a `from` is prepared as its filter is. -/
theorem prepared_inFrom (r e : EntityName) (cols columns : Columns) (f : Ast)
    (hfilter : isFilter f = true) (hcols : ¬ cols.Rewritten) (hcolumns : ¬ columns.Rewritten) :
    E.prepared (E.entity r) (inForm cols (fromForm e columns f)) =
      if E.inChecks (E.entity r) cols && E.fromChecks e columns f then
        (E.prepared (E.entity e) f).map fun f' =>
          inMade (cols.expand E.env) (fromMade e (columns.expand E.env) f')
      else none := by
  have hpush := E.pushDown_in (E.entity r) cols "from" (.str e.text)
    (.made [.str "extract", columns.toAst, f])
  have hsub := E.pushDown_from (E.entity r) e columns f hfilter
  rw [prepared, prepared, fromForm, hpush, ← fromForm, hsub]
  cases hin : E.inChecks (E.entity r) cols with
  | false => rfl
  | true =>
    cases hfrom : E.fromChecks e columns f with
    | false => rfl
    | true =>
      cases E.pushDown (E.entity e) f with
      | none => rfl
      | some f₁ =>
        have hform := expand_fromForm E.env (E.entity e).context (E.entity e).context e columns f₁
          (E.sound_of_fromChecks e columns f hfrom) hcolumns
        exact expand_inForm E.env (E.entity r).context cols _ _ _
          (E.sound_of_inChecks r cols hin) hcols hform fun _ => ⟨rfl, rfl⟩

/-- And so is that of a `select_<entity>`. -/
theorem prepared_inSelect (r e : EntityName) (cols columns : Columns) (f : Ast)
    (hfilter : isFilter f = true) (hcols : ¬ cols.Rewritten) (hcolumns : ¬ columns.Rewritten) :
    E.prepared (E.entity r) (inForm cols (selectForm e columns f)) =
      if E.inChecks (E.entity r) cols && E.selectChecks e columns then
        (E.prepared (E.entity e) f).map fun f' =>
          inMade (cols.expand E.env) (selectMade e (columns.expand E.env) f')
      else none := by
  have hpush := E.pushDown_in (E.entity r) cols "extract" columns.toAst
    (.made [.str e.selectName, f])
  have hsub := E.pushDown_select (E.entity r) e columns f hfilter
  rw [prepared, prepared, selectForm, hpush, ← selectForm, hsub]
  cases hin : E.inChecks (E.entity r) cols with
  | false => rfl
  | true =>
    cases hselect : E.selectChecks e columns with
    | false => rfl
    | true =>
      cases E.pushDown (E.entity e) f with
      | none => rfl
      | some f₁ =>
        have hform := expand_selectForm E.env (E.entity e).context (E.entity e).context e columns
          f₁ (E.sound_of_selectChecks e columns hselect) hcolumns
        exact expand_inForm E.env (E.entity r).context cols _ _ _
          (E.sound_of_inChecks r cols hin) hcols hform fun _ => ⟨rfl, rfl⟩

end Engine

end OpenVoxDB.Subqueries
