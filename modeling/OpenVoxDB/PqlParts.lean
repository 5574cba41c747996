import Mathlib
import OpenVoxDB.PqlReadings

/-!
# The clauses of a PQL query in its AST

The filter, the grouping and the paging of a query, where they stand in its AST, and
what is read of them at the top, after `in` and in an implicit subquery.
-/

namespace OpenVoxDB.Pql

/-! ## Parts of a query -/

def Where.expr? : Where → Option ExprOr
  | .all _ => none
  | .expr e _ => some e

def From.columns? : From → Option (List Column)
  | .mk _ columns _ => columns

def From.entity : From → String
  | .mk entity _ _ => entity

def From.where : From → Where
  | .mk _ _ w => w

def Clauses.grouped : Clauses → Bool
  | .groupby _ _ => true
  | .paging _ => false

def Where.pagingNodes (w : Where) : List Json := w.clauses.pagingClauses.map Paging.clause

def groupNodes (g : Option (List Json)) : List Json :=
  (g.map fun fields => .arr (.str "group_by" :: fields)).toList

/-- The AST of the filter, the grouping and the paging of a `where`. -/
structure Parts (json : JsonDecoder) (w : Where) where
  filter : Option Json
  groupBy : Option (List Json)
  filter_none : w.expr? = none → filter = none
  filter_some : ∀ e, w.expr? = some e → ∃ x, filter = some x ∧ transformExprOr json e = .ok x
  groupBy_ok : w.clauses.groupBy json = .ok groupBy
  paging_nil : groupBy.isSome = true → w.clauses.pagingClauses = []

namespace Parts

variable {json : JsonDecoder} {w : Where} (p : Parts json w)

/-- The clauses that are no paging clauses. -/
def bodyNodes : List Json := p.filter.toList ++ groupNodes p.groupBy

theorem isFilter (x : Json) (hx : p.filter = some x) : IsFilter x := by
  cases he : w.expr? with
  | none =>
    rw [p.filter_none he] at hx
    cases hx
  | some e =>
    obtain ⟨y, hy, hok⟩ := p.filter_some e he
    rw [hy] at hx
    cases hx
    exact isFilter_transformExprOr json e x hok

theorem isSome_groupBy : p.groupBy.isSome = w.clauses.grouped := by
  have h := p.groupBy_ok
  cases hw : w.clauses with
  | groupby first rest =>
    rw [hw] at h
    obtain ⟨xs, hxs, h⟩ := (QueryExpansion.bind_eq_ok _ _ _).mp h
    rw [← Except.ok.inj h]
    rfl
  | paging ps =>
    rw [hw] at h
    rw [← Except.ok.inj h]
    rfl

theorem pagingClause_of_isFilter (x : Json) (hx : IsFilter x) :
    pagingClause x = false ∧ tag x ≠ some "extract" ∧ tag x ≠ some "group_by" := by
  obtain ⟨op, hop, htag⟩ := tag_of_isFilter x hx
  rw [pagingClause, htag]
  simp only [filterOperators, comparisonOperators, List.cons_append, List.nil_append, List.mem_cons,
    List.not_mem_nil, or_false] at hop
  obtain rfl | rfl | rfl | rfl | rfl | rfl | rfl | rfl | rfl | rfl | rfl | rfl | rfl := hop <;> decide

theorem pagingClause_groupBy (fields : List Json) :
    pagingClause (.arr (.str "group_by" :: fields)) = false ∧
      tag (.arr (.str "group_by" :: fields)) ≠ some "extract" := by
  simp [pagingClause, tag]

theorem mem_bodyNodes (x : Json) (hx : x ∈ p.bodyNodes) :
    pagingClause x = false ∧ tag x ≠ some "extract" := by
  rw [bodyNodes, List.mem_append, Option.mem_toList, groupNodes, Option.mem_toList] at hx
  obtain hx | hx := hx
  · obtain ⟨hpaging, hextract, _⟩ := pagingClause_of_isFilter x (p.isFilter x hx)
    exact ⟨hpaging, hextract⟩
  · obtain ⟨fields, _, rfl⟩ := Option.map_eq_some_iff.mp hx
    exact pagingClause_groupBy fields

/-- The nodes apart from the paging and the paging apart. -/
theorem filter_nodes :
    (p.bodyNodes ++ w.pagingNodes).filter pagingClause = w.pagingNodes ∧
      (p.bodyNodes ++ w.pagingNodes).filter (!pagingClause ·) = p.bodyNodes := by
  have hbody : ∀ x ∈ p.bodyNodes, pagingClause x = false := fun x hx => (p.mem_bodyNodes x hx).1
  have hpaging : ∀ x ∈ w.pagingNodes, pagingClause x = true := by
    intro x hx
    obtain ⟨c, _, rfl⟩ := List.mem_map.mp hx
    exact pagingClause_clause c
  rw [List.filter_append, List.filter_append]
  constructor
  · rw [List.filter_eq_nil_iff.mpr fun x hx => by simp [hbody x hx], List.nil_append,
      List.filter_eq_self.mpr hpaging]
  · rw [List.filter_eq_self.mpr fun x hx => by simp [hbody x hx],
      List.filter_eq_nil_iff.mpr fun x hx => by simp [hpaging x hx], List.append_nil]

end Parts

theorem transformClauses_parts (json : JsonDecoder) (clauses : Clauses) (xs : List Json)
    (hxs : transformClauses json clauses = .ok xs) :
    ∃ g, clauses.groupBy json = .ok g ∧ (g.isSome = true → clauses.pagingClauses = []) ∧
      xs = groupNodes g ++ clauses.pagingClauses.map Paging.clause := by
  cases clauses with
  | groupby first rest =>
    obtain ⟨gs, hgs, h⟩ := (QueryExpansion.bind_eq_ok _ _ _).mp hxs
    cases h
    exact ⟨some gs, (QueryExpansion.bind_eq_ok _ _ _).mpr ⟨gs, hgs, rfl⟩, fun _ => rfl, rfl⟩
  | paging ps =>
    rw [transformClauses] at hxs
    exact ⟨none, rfl, by simp, mapM_transformPaging_eq ps xs hxs⟩

theorem transformWhere_parts (json : JsonDecoder) (w : Where) (xs : List Json)
    (hxs : transformWhere json w = .ok xs) :
    ∃ p : Parts json w, xs = p.bodyNodes ++ w.pagingNodes := by
  cases w with
  | all clauses =>
    rw [transformWhere] at hxs
    obtain ⟨g, hg, hnil, rfl⟩ := transformClauses_parts json clauses xs hxs
    exact ⟨⟨none, g, fun _ => rfl, by simp [Where.expr?], hg, hnil⟩, rfl⟩
  | expr e clauses =>
    rw [transformWhere] at hxs
    obtain ⟨x, hx, h⟩ := (QueryExpansion.bind_eq_ok _ _ _).mp hxs
    obtain ⟨ys, hys, h⟩ := (QueryExpansion.bind_eq_ok _ _ _).mp h
    cases h
    obtain ⟨g, hg, hnil, rfl⟩ := transformClauses_parts json clauses ys hys
    exact ⟨⟨some x, g, by simp [Where.expr?], by simpa [Where.expr?] using hx, hg, hnil⟩, rfl⟩

/-- An extract takes in the clauses that are no paging clauses. -/
theorem slurpExprToExtract_columns (json : JsonDecoder) (w : Where) (p : Parts json w)
    (cols : List Json) :
    slurpExprToExtract (.arr [.str "extract", .arr cols] :: (p.bodyNodes ++ w.pagingNodes)) =
      .arr (.str "extract" :: .arr cols :: p.bodyNodes) :: w.pagingNodes := by
  have hextract : pagingClause (.arr [.str "extract", .arr cols]) = false := by
    simp [pagingClause, tag]
  obtain ⟨hpaging, hother⟩ := p.filter_nodes
  have hpaging' : (.arr [.str "extract", .arr cols] :: (p.bodyNodes ++ w.pagingNodes)).filter
      pagingClause = w.pagingNodes := by
    rw [List.filter_cons_of_neg (by simp [hextract]), hpaging]
  have hother' : (.arr [.str "extract", .arr cols] :: (p.bodyNodes ++ w.pagingNodes)).filter
      (!pagingClause ·) = .arr [.str "extract", .arr cols] :: p.bodyNodes := by
    rw [List.filter_cons_of_pos (by simp [hextract]), hother]
  rw [slurpExprToExtract, hpaging', hother']
  cases hbody : p.bodyNodes <;> rfl

/-- Without an extract the clauses stay as they are. -/
theorem slurpExprToExtract_parts (json : JsonDecoder) (w : Where) (p : Parts json w) :
    slurpExprToExtract (p.bodyNodes ++ w.pagingNodes) = p.bodyNodes ++ w.pagingNodes := by
  obtain ⟨hpaging, hother⟩ := p.filter_nodes
  rw [slurpExprToExtract, hpaging, hother]
  split
  · rename_i columns c others hbody
    have hmem : .arr (.str "extract" :: columns) ∈ p.bodyNodes := by
      rw [hbody]
      exact List.mem_cons_self
    exact absurd rfl (p.mem_bodyNodes _ hmem).2
  · rfl

/-- The AST of a query. -/
theorem transformFrom_parts (json : JsonDecoder) (q : From) (ast : Json)
    (hast : transformFrom json q = .ok ast) :
    ∃ p : Parts json q.where,
      (q.columns? = none ∧
        ast = .arr (.str "from" :: .str q.entity :: (p.bodyNodes ++ q.where.pagingNodes))) ∨
      ∃ columns cols, q.columns? = some columns ∧
        columns.mapM (transformColumn json) = .ok cols ∧
          ast = .arr (.str "from" :: .str q.entity ::
            .arr (.str "extract" :: .arr cols :: p.bodyNodes) :: q.where.pagingNodes) := by
  obtain ⟨entity, columns, w⟩ := q
  cases columns with
  | none =>
    rw [transformFrom] at hast
    obtain ⟨xs, hxs, h⟩ := (QueryExpansion.bind_eq_ok _ _ _).mp hast
    cases h
    obtain ⟨p, rfl⟩ := transformWhere_parts json w xs hxs
    refine ⟨p, .inl ⟨rfl, ?_⟩⟩
    rw [slurpExprToExtract_parts]
    rfl
  | some columns =>
    rw [transformFrom] at hast
    obtain ⟨cols, hcols, h⟩ := (QueryExpansion.bind_eq_ok _ _ _).mp hast
    obtain ⟨xs, hxs, h⟩ := (QueryExpansion.bind_eq_ok _ _ _).mp h
    cases h
    obtain ⟨p, rfl⟩ := transformWhere_parts json w xs hxs
    refine ⟨p, .inr ⟨columns, cols, rfl, hcols, ?_⟩⟩
    rw [slurpExprToExtract_columns]
    rfl

/-! ## Readings of the parts -/

section Readings

variable {Row : Type} (M : Model Row)

def readFilter : Option Json → Option (Option (Row → Truth))
  | none => some none
  | some x => readNode M x

theorem getClause_groupNodes (kind : String) (hkind : kind ≠ "group_by") (g : Option (List Json))
    (cs : List Json) : getClause kind (groupNodes g ++ cs) = getClause kind cs := by
  cases g with
  | none => rfl
  | some fields =>
    have htag : ¬ tag (.arr (.str "group_by" :: fields)) = some kind := by
      simpa [tag] using fun h => hkind h.symm
    rw [getClause, getClause, groupNodes, Option.map_some, Option.toList_some, List.singleton_append,
      List.filter_cons_of_neg (by simpa using htag)]

/-- A group by clause is no part of the paging. -/
theorem createPagingMap_groupNodes (g : Option (List Json)) (cs : List Json) :
    createPagingMap (groupNodes g ++ cs) = createPagingMap cs := by
  rw [createPagingMap, createPagingMap, getClause_groupNodes "limit" (by decide),
    getClause_groupNodes "offset" (by decide), getClause_groupNodes "order_by" (by decide)]

theorem readNode_groupBy (fields : List Json) :
    readNode M (.arr (.str "group_by" :: fields)) = some none := by
  rw [readNode.eq_def]
  simp [comparisonOperators]

theorem readNode_paging (c : Paging) : readNode M c.clause = some none := by
  cases c <;> (rw [readNode.eq_def]; simp [Paging.clause, comparisonOperators])

theorem readNode_empty : readNode M (.arr []) = some none := by rw [readNode.eq_def]

/-- A query that is no extract has its filter alone. -/
theorem readRemaining_of_tag (c : QueryContext) (h : tag c.remainingQuery ≠ some "extract") :
    readRemaining M c =
      (readNode M c.remainingQuery).map fun f => selection c.entity none f none c.pagingClauses := by
  obtain ⟨entity, query, paging⟩ := c
  rw [readRemaining]
  split
  · rename_i hquery
    exact absurd (by rw [hquery]; rfl) h
  · rfl

variable {json : JsonDecoder} {w : Where} (p : Parts json w) (entity : String)

/-- At the top a query without a projection has no grouping. -/
theorem readQuery_parts :
    readQuery M (.arr (.str "from" :: .str entity :: (p.bodyNodes ++ w.pagingNodes))) =
      (createPagingMap w.pagingNodes).bind fun m =>
        (readFilter M p.filter).map fun f => selection entity none f none m := by
  cases hfilter : p.filter with
  | some x =>
    obtain ⟨hpaging, hextract, _⟩ := Parts.pagingClause_of_isFilter x (p.isFilter x hfilter)
    obtain ⟨op, xs, rfl, _⟩ := p.isFilter x hfilter
    rw [readQuery, Parts.bodyNodes, hfilter, Option.toList_some, List.cons_append, List.nil_append,
      List.cons_append, parseQueryContext]
    simp only [hpaging, Bool.false_eq_true, if_false, createPagingMap_groupNodes, readFilter]
    cases hm : createPagingMap w.pagingNodes with
    | none => rfl
    | some m => exact readRemaining_of_tag M ⟨entity, _, m⟩ hextract
  | none =>
    cases hgroup : p.groupBy with
    | some fields =>
      have hnil : w.pagingNodes = [] := by
        rw [Where.pagingNodes, p.paging_nil (by rw [hgroup]; rfl), List.map_nil]
      obtain ⟨hpaging, hextract⟩ := Parts.pagingClause_groupBy fields
      rw [readQuery, Parts.bodyNodes, hfilter, hgroup, hnil, Option.toList_none, List.nil_append,
        List.append_nil, groupNodes, Option.map_some, Option.toList_some, parseQueryContext]
      simp only [hpaging, Bool.false_eq_true, if_false]
      have hm : createPagingMap [] = some PagingMap.empty := rfl
      rw [hm, Option.map_some, Option.bind_some, Option.bind_some,
        readRemaining_of_tag M _ hextract, readNode_groupBy]
      rfl
    | none =>
      rw [readQuery, Parts.bodyNodes, hfilter, hgroup, Where.pagingNodes]
      cases hps : w.clauses.pagingClauses with
      | nil =>
        have hm : createPagingMap [] = some PagingMap.empty := rfl
        rw [List.map_nil, hm, Option.bind_some]
        exact (readRemaining_of_tag M ⟨entity, .arr [], PagingMap.empty⟩ (by simp [tag])).trans
          (by rw [readNode_empty]; rfl)
      | cons c cs =>
        simp only [groupNodes, Option.map_none, Option.toList_none, List.nil_append, List.map_cons,
          parseQueryContext, pagingClause_clause, if_true]
        cases hm : createPagingMap (c.clause :: cs.map Paging.clause) with
        | none => rfl
        | some m =>
          exact (readRemaining_of_tag M ⟨entity, .arr [], m⟩ (by simp [tag])).trans
            (by rw [readNode_empty]; rfl)

/-- At the top a projection has the grouping with it. -/
theorem readQuery_columns (cols : List Json) :
    readQuery M (.arr (.str "from" :: .str entity ::
        .arr (.str "extract" :: .arr cols :: p.bodyNodes) :: w.pagingNodes)) =
      (createPagingMap w.pagingNodes).bind fun m =>
        (readFilter M p.filter).map fun f => selection entity (some cols) f p.groupBy m := by
  have hextract : pagingClause (.arr (.str "extract" :: .arr cols :: p.bodyNodes)) = false := by
    simp [pagingClause, tag]
  rw [readQuery, parseQueryContext]
  simp only [hextract, Bool.false_eq_true, if_false]
  cases hm : createPagingMap w.pagingNodes with
  | none => rfl
  | some m =>
    rw [Option.map_some, Option.bind_some, Option.bind_some, readRemaining, Parts.bodyNodes]
    cases hfilter : p.filter with
    | none =>
      cases hgroup : p.groupBy <;> rfl
    | some x =>
      obtain ⟨hpaging, _, hx⟩ := Parts.pagingClause_of_isFilter x (p.isFilter x hfilter)
      obtain ⟨op, xs, rfl, _⟩ := p.isFilter x hfilter
      have hop : op ≠ "group_by" := fun h => hx (by rw [h]; rfl)
      cases hgroup : p.groupBy with
      | none => simp [groupNodes, readFilter, vectorMaybe, hop]
      | some fields => simp [groupNodes, readFilter, vectorMaybe]

theorem createFromNode_of_tag (expr : Json) (clauses : List Json)
    (h : tag expr ≠ some "extract") :
    createFromNode M entity expr clauses = (createPagingMap clauses).bind fun m =>
      (readNode M expr).map fun f => selection entity none f none m := by
  rw [createFromNode.eq_def]
  congr 1
  funext m
  split
  · exact absurd rfl h
  · exact absurd rfl h
  · rfl

/-- Below the top a filter without a projection has no grouping. -/
theorem readFrom_filter (x : Json) (hfilter : p.filter = some x) :
    readFrom M (.arr (.str "from" :: .str entity :: (p.bodyNodes ++ w.pagingNodes))) =
      (createPagingMap w.pagingNodes).bind fun m =>
        (readNode M x).map fun f => selection entity none f none m := by
  obtain ⟨_, hextract, _⟩ := Parts.pagingClause_of_isFilter x (p.isFilter x hfilter)
  rw [Parts.bodyNodes, hfilter, Option.toList_some, List.cons_append, List.nil_append,
    List.cons_append, readFrom, createFromNode_of_tag M entity x _ hextract,
    createPagingMap_groupNodes]

/-- Below the top the first clause is lost where there is no filter. -/
theorem readFrom_noFilter (hfilter : p.filter = none) :
    readFrom M (.arr (.str "from" :: .str entity :: (p.bodyNodes ++ w.pagingNodes))) =
      if p.groupBy.isSome then some (selection entity none none none PagingMap.empty)
      else match w.clauses.pagingClauses with
        | [] => none
        | _ :: cs => (createPagingMap (cs.map Paging.clause)).map fun m =>
          selection entity none none none m := by
  cases hgroup : p.groupBy with
  | some fields =>
    have hnil : w.pagingNodes = [] := by
      rw [Where.pagingNodes, p.paging_nil (by rw [hgroup]; rfl), List.map_nil]
    rw [Parts.bodyNodes, hfilter, hgroup, hnil, Option.toList_none, List.nil_append,
      List.append_nil, groupNodes, Option.map_some, Option.toList_some, readFrom,
      createFromNode_of_tag M entity _ _ (Parts.pagingClause_groupBy fields).2, readNode_groupBy]
    rfl
  | none =>
    rw [Parts.bodyNodes, hfilter, hgroup, Where.pagingNodes]
    cases hps : w.clauses.pagingClauses with
    | nil => rfl
    | cons c cs =>
      have htag : tag c.clause ≠ some "extract" := by cases c <;> simp [Paging.clause, tag]
      simp only [groupNodes, Option.map_none, Option.toList_none, List.nil_append, List.map_cons,
        readFrom, createFromNode_of_tag M entity c.clause _ htag, readNode_paging,
        Option.map_some, Option.isSome_none, Bool.false_eq_true, if_false]
      exact Option.map_eq_bind.symm

/-- Below the top a projection has no grouping with it. -/
theorem readFrom_columns (cols : List Json) :
    readFrom M (.arr (.str "from" :: .str entity ::
        .arr (.str "extract" :: .arr cols :: p.bodyNodes) :: w.pagingNodes)) =
      (createPagingMap w.pagingNodes).bind fun m =>
        (readFilter M p.filter).map fun f => selection entity (some cols) f none m := by
  rw [readFrom, createFromNode.eq_def, Parts.bodyNodes]
  congr 1
  funext m
  cases hfilter : p.filter with
  | some x => simp [readFilter, vectorMaybe]
  | none =>
    cases hgroup : p.groupBy with
    | none => rfl
    | some fields => simp [groupNodes, readNode_groupBy, readFilter, vectorMaybe]

end Readings

/-! ## Meanings of the parts -/

section Meanings

variable {Row : Type} (json : JsonDecoder) (M : Model Row)

/-- The filter of a `where`. -/
def Where.filter (w : Where) : Except InternalError (Option (Row → Truth)) :=
  match w.expr? with
  | none => .ok none
  | some e => do
    let f ← e.meaning json M
    return some f

theorem Where.meaning_eq (w : Where) (entity : String) (columns : Option (List Json))
    (s : Selection Row) :
    w.meaning json M entity columns = .ok s ↔
      ∃ f g, w.filter json M = .ok f ∧ w.clauses.groupBy json = .ok g ∧
        s = { entity := entity
              columns := columns
              filter := f
              groupBy := g
              limit := w.clauses.pagingClauses.filterMap Paging.limit?
              offset := w.clauses.pagingClauses.filterMap Paging.offset?
              orderBy := w.clauses.pagingClauses.filterMap Paging.orderBy? } := by
  cases w with
  | all clauses =>
    rw [Where.meaning, select, QueryExpansion.bind_eq_ok]
    constructor
    · rintro ⟨g, hg, h⟩
      exact ⟨none, g, rfl, hg, (Except.ok.inj h).symm⟩
    · rintro ⟨f, g, hf, hg, rfl⟩
      cases hf
      exact ⟨g, hg, rfl⟩
  | expr e clauses =>
    rw [Where.meaning, QueryExpansion.bind_eq_ok]
    simp only [select, QueryExpansion.bind_eq_ok]
    constructor
    · rintro ⟨f, hf, g, hg, h⟩
      exact ⟨some f, g, (QueryExpansion.bind_eq_ok _ _ _).mpr ⟨f, hf, rfl⟩, hg,
        (Except.ok.inj h).symm⟩
    · rintro ⟨f, g, hf, hg, rfl⟩
      obtain ⟨f', hf', h⟩ := (QueryExpansion.bind_eq_ok _ _ _).mp hf
      cases h
      exact ⟨f', hf', g, hg, rfl⟩

theorem From.meaning_of_none (q : From) (s : Selection Row) (hq : q.columns? = none)
    (hs : q.where.meaning json M q.entity none = .ok s) : q.meaning json M = .ok s := by
  obtain ⟨entity, columns, w⟩ := q
  cases hq
  rw [From.meaning]
  exact hs

theorem From.meaning_of_some (q : From) (columns : List Column) (cols : List Json)
    (s : Selection Row) (hq : q.columns? = some columns)
    (hcols : columns.mapM (transformColumn json) = .ok cols)
    (hs : q.where.meaning json M q.entity (some cols) = .ok s) : q.meaning json M = .ok s := by
  obtain ⟨entity, columns, w⟩ := q
  cases hq
  rw [From.meaning]
  exact (QueryExpansion.bind_eq_ok _ _ _).mpr ⟨cols, hcols, hs⟩

/-- The selection has the grouping and the paging of the clauses. -/
structure ClausesOf (w : Where) (s : Selection Row) : Prop where
  groupBy : w.clauses.groupBy json = .ok s.groupBy
  limit : w.clauses.pagingClauses.filterMap Paging.limit? = s.limit
  offset : w.clauses.pagingClauses.filterMap Paging.offset? = s.offset
  orderBy : w.clauses.pagingClauses.filterMap Paging.orderBy? = s.orderBy

theorem Where.clausesOf (w : Where) (entity : String) (columns : Option (List Json))
    (s : Selection Row) (hs : w.meaning json M entity columns = .ok s) : ClausesOf json w s := by
  obtain ⟨f, g, _, hg, rfl⟩ := (Where.meaning_eq json M w entity columns s).mp hs
  exact ⟨hg, rfl, rfl, rfl⟩

theorem From.clausesOf (q : From) (s : Selection Row) (hs : q.meaning json M = .ok s) :
    ClausesOf json q.where s := by
  obtain ⟨entity, columns, w⟩ := q
  cases columns with
  | none =>
    rw [From.meaning] at hs
    exact w.clausesOf json M entity none s hs
  | some columns =>
    rw [From.meaning] at hs
    obtain ⟨cols, _, hs⟩ := (QueryExpansion.bind_eq_ok _ _ _).mp hs
    exact w.clausesOf json M entity (some cols) s hs

/-- The selection that is read has the paging of its meaning. -/
theorem selection_eq (w : Where) (entity : String) (columns : Option (List Json))
    (f : Option (Row → Truth)) (g : Option (List Json)) (m : PagingMap)
    (hm : createPagingMap w.pagingNodes = some m) :
    selection entity columns f g m =
      { entity := entity
        columns := columns
        filter := f
        groupBy := g
        limit := w.clauses.pagingClauses.filterMap Paging.limit?
        offset := w.clauses.pagingClauses.filterMap Paging.offset?
        orderBy := w.clauses.pagingClauses.filterMap Paging.orderBy? } := by
  obtain ⟨hlimit, hoffset, horder⟩ := (createPagingMap_clauses _ m).mp hm
  rw [selection, hlimit, hoffset, horder]

end Meanings

end OpenVoxDB.Pql
