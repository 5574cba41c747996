import Mathlib
import OpenVoxDB.PqlParts

/-!
# Where the reading of a PQL query is its meaning

A query and its subqueries, each with the clauses that the reader of its AST keeps.
-/

namespace OpenVoxDB.Pql

/-! ## Queries in a query -/

/-- A query at the top, after `in`, or as an implicit subquery. -/
inductive QueryNode where
  | top (q : From)
  | nested (q : From)
  | implicit (entity : String) (w : Where)

mutual

def ExprOr.subqueries : ExprOr → List QueryNode
  | .single a => a.subqueries
  | .or a b => a.subqueries ++ b.subqueries

def ExprAnd.subqueries : ExprAnd → List QueryNode
  | .single a => a.subqueries
  | .and a b => a.subqueries ++ b.subqueries

def ExprNot.subqueries : ExprNot → List QueryNode
  | .not a => a.subqueries
  | .parens e => e.subqueries
  | .cond _ => []
  | .inQuery _ q => .nested q :: q.subqueries
  | .subquery entity w => .implicit entity w :: w.subqueries

def Where.subqueries : Where → List QueryNode
  | .all _ => []
  | .expr e _ => e.subqueries

def From.subqueries : From → List QueryNode
  | .mk _ _ w => w.subqueries

end

/-- The query and those in it, at every depth. -/
def From.queries (q : From) : List QueryNode := .top q :: q.subqueries

namespace QueryNode

def transform (json : JsonDecoder) : QueryNode → Except InternalError Json
  | top q | nested q => transformFrom json q
  | implicit entity w => transformExprNot json (.subquery entity w)

def meaning {Row : Type} (json : JsonDecoder) (M : Model Row) :
    QueryNode → Except InternalError (Selection Row)
  | top q | nested q => q.meaning json M
  | implicit entity w => w.meaning json M entity none

def read {Row : Type} (M : Model Row) : QueryNode → Json → Option (Selection Row)
  | top _ => readQuery M
  | nested _ => readFrom M
  | implicit _ _ => readSubquery M

/-- There is an AST, and what is read from it is what the query means. -/
def Agrees (json : JsonDecoder) (n : QueryNode) : Prop :=
  ∃ ast, n.transform json = .ok ast ∧
    ∀ (Row : Type) (M : Model Row), ∃ s, n.meaning json M = .ok s ∧ n.read M ast = some s

/-- The clauses are those that are read where the query stands. -/
def Kept : QueryNode → Prop
  | top q =>
    (q.where.clauses.grouped = true → q.columns?.isSome = true) ∧
      Unrepeated q.where.clauses.pagingClauses
  | nested q =>
    (q.columns?.isSome = true ∨ q.where.expr?.isSome = true) ∧
      q.where.clauses.grouped = false ∧ Unrepeated q.where.clauses.pagingClauses
  | implicit _ w =>
    w.expr?.isSome = true ∧ w.clauses.grouped = false ∧ w.clauses.pagingClauses = []

end QueryNode

/-! ## Kept clauses are read -/

section Kept

variable {Row : Type} (json : JsonDecoder) (M : Model Row)

/-- The AST of the filter is read as its meaning. -/
def Where.Reads (w : Where) : Prop :=
  ∀ e, w.expr? = some e → ∀ x, transformExprOr json e = .ok x →
    ∃ f, e.meaning json M = .ok f ∧ readNode M x = some (some f)

theorem Where.Reads.filter {w : Where} (h : w.Reads json M) (p : Parts json w) :
    ∃ f, w.filter json M = .ok f ∧ readFilter M p.filter = some f := by
  cases he : w.expr? with
  | none =>
    rw [Where.filter, he, p.filter_none he]
    exact ⟨none, rfl, rfl⟩
  | some e =>
    obtain ⟨x, hx, hok⟩ := p.filter_some e he
    obtain ⟨f, hf, hread⟩ := h e he x hok
    rw [Where.filter, he, hx]
    exact ⟨some f, (QueryExpansion.bind_eq_ok _ _ _).mpr ⟨f, hf, rfl⟩, hread⟩

theorem Parts.groupBy_of_not_grouped {json : JsonDecoder} {w : Where} (p : Parts json w)
    (h : w.clauses.grouped = false) : p.groupBy = none := by
  rw [← Option.not_isSome_iff_eq_none, p.isSome_groupBy, h]
  exact Bool.false_ne_true

/-- The parts of a query with its filter, grouping and paging are its meaning. -/
theorem From.meaning_parts (q : From) (hreads : q.where.Reads json M) (p : Parts json q.where)
    (m : PagingMap) (hm : createPagingMap q.where.pagingNodes = some m)
    (columns : Option (List Json)) :
    ∃ f, readFilter M p.filter = some f ∧
      q.where.meaning json M q.entity columns =
        .ok (selection q.entity columns f p.groupBy m) := by
  obtain ⟨f, hf, hread⟩ := hreads.filter json M p
  exact ⟨f, hread, (Where.meaning_eq json M _ _ _ _).mpr
    ⟨f, p.groupBy, hf, p.groupBy_ok, selection_eq _ _ _ _ _ m hm⟩⟩

theorem From.reads_top (q : From) (hk : (QueryNode.top q).Kept) (hreads : q.where.Reads json M)
    (ast : Json) (hast : transformFrom json q = .ok ast) :
    ∃ s, q.meaning json M = .ok s ∧ readQuery M ast = some s := by
  obtain ⟨hgroup, hpaging⟩ := hk
  obtain ⟨m, hm⟩ := createPagingMap_of_unrepeated _ hpaging
  obtain ⟨p, ⟨hq, rfl⟩ | ⟨columns, cols, hq, hcols, rfl⟩⟩ := transformFrom_parts json q ast hast
  · obtain ⟨f, hread, hs⟩ := q.meaning_parts json M hreads p m hm none
    have hnone : p.groupBy = none := by
      apply p.groupBy_of_not_grouped
      rw [hq] at hgroup
      simpa using hgroup
    refine ⟨_, q.meaning_of_none json M _ hq hs, ?_⟩
    rw [readQuery_parts, show createPagingMap q.where.pagingNodes = some m from hm, hread, hnone]
    rfl
  · obtain ⟨f, hread, hs⟩ := q.meaning_parts json M hreads p m hm (some cols)
    refine ⟨_, q.meaning_of_some json M columns cols _ hq hcols hs, ?_⟩
    rw [readQuery_columns, show createPagingMap q.where.pagingNodes = some m from hm, hread]
    rfl

theorem From.reads_nested (q : From) (hk : (QueryNode.nested q).Kept)
    (hreads : q.where.Reads json M) (ast : Json) (hast : transformFrom json q = .ok ast) :
    ∃ s, q.meaning json M = .ok s ∧ readFrom M ast = some s := by
  obtain ⟨hsome, hgroup, hpaging⟩ := hk
  obtain ⟨m, hm⟩ := createPagingMap_of_unrepeated _ hpaging
  obtain ⟨p, ⟨hq, rfl⟩ | ⟨columns, cols, hq, hcols, rfl⟩⟩ := transformFrom_parts json q ast hast
  · obtain ⟨f, hread, hs⟩ := q.meaning_parts json M hreads p m hm none
    rw [hq] at hsome
    obtain ⟨e, he⟩ := Option.isSome_iff_exists.mp (hsome.resolve_left (by simp))
    obtain ⟨x, hx, _⟩ := p.filter_some e he
    refine ⟨_, q.meaning_of_none json M _ hq hs, ?_⟩
    rw [hx] at hread
    rw [readFrom_filter M p _ x hx, show createPagingMap q.where.pagingNodes = some m from hm,
      show readNode M x = some f from hread, p.groupBy_of_not_grouped hgroup]
    rfl
  · obtain ⟨f, hread, hs⟩ := q.meaning_parts json M hreads p m hm (some cols)
    refine ⟨_, q.meaning_of_some json M columns cols _ hq hcols hs, ?_⟩
    rw [readFrom_columns, show createPagingMap q.where.pagingNodes = some m from hm, hread,
      p.groupBy_of_not_grouped hgroup]
    rfl

theorem Where.reads_implicit (entity : String) (w : Where) (hk : (QueryNode.implicit entity w).Kept)
    (hreads : w.Reads json M) (ast : Json)
    (hast : transformExprNot json (.subquery entity w) = .ok ast) :
    ∃ s, w.meaning json M entity none = .ok s ∧ readSubquery M ast = some s := by
  obtain ⟨hsome, hgroup, hpaging⟩ := hk
  obtain ⟨e, he⟩ := Option.isSome_iff_exists.mp hsome
  rw [transformExprNot] at hast
  obtain ⟨xs, hxs, hast⟩ := (QueryExpansion.bind_eq_ok _ _ _).mp hast
  obtain ⟨p, rfl⟩ := transformWhere_parts json w xs hxs
  obtain ⟨x, hx, _⟩ := p.filter_some e he
  have hnodes : p.bodyNodes ++ w.pagingNodes = [x] := by
    rw [Parts.bodyNodes, hx, p.groupBy_of_not_grouped hgroup, Where.pagingNodes, hpaging]
    rfl
  rw [hnodes, transformSubquery] at hast
  cases hast
  obtain ⟨f, hf, hread⟩ := hreads.filter json M p
  rw [hx] at hread
  have hm : createPagingMap w.pagingNodes = some PagingMap.empty := by
    rw [Where.pagingNodes, hpaging]
    rfl
  refine ⟨_, (Where.meaning_eq json M _ _ _ _).mpr
    ⟨f, none, hf, ?_, selection_eq _ _ _ _ _ PagingMap.empty hm⟩, ?_⟩
  · rw [← p.groupBy_of_not_grouped hgroup]
    exact p.groupBy_ok
  · rw [readSubquery, show readNode M x = some f from hread]
    rfl

/-- A comparison is read as its meaning. -/
theorem Condexpression.reads (c : Condexpression) (x : Json)
    (hx : transformCondexpression json c = .ok x) :
    ∃ f, c.meaning json M = .ok f ∧ readNode M x = some (some f) := by
  cases c with
  | notEqual f value | notRegexp f value =>
    obtain ⟨v, hv, h⟩ := (QueryExpansion.bind_eq_ok _ _ _).mp hx
    cases h
    refine ⟨_, (QueryExpansion.bind_eq_ok _ _ _).mpr ⟨v, hv, rfl⟩, ?_⟩
    apply readNode_not
    exact readNode_comparison M _ _ _ (by decide)
  | null f isNull =>
    cases hx
    exact ⟨_, rfl, readNode_comparison M _ _ _ (by decide)⟩
  | inequality f op value =>
    refine ⟨M.atom x, (QueryExpansion.bind_eq_ok _ _ _).mpr ⟨x, hx, rfl⟩, ?_⟩
    obtain ⟨v, hv, h⟩ := (QueryExpansion.bind_eq_ok _ _ _).mp hx
    cases h
    apply readNode_comparison
    cases op <;> decide
  | inLiterals columns first rest =>
    refine ⟨M.atom x, (QueryExpansion.bind_eq_ok _ _ _).mpr ⟨x, hx, rfl⟩, ?_⟩
    obtain ⟨cols, hcols, h⟩ := (QueryExpansion.bind_eq_ok _ _ _).mp hx
    obtain ⟨xs, hxs, h⟩ := (QueryExpansion.bind_eq_ok _ _ _).mp h
    cases h
    exact readNode_inArray M cols _
  | regexp f value | regexparray f first rest | isEqual f value =>
    refine ⟨M.atom x, (QueryExpansion.bind_eq_ok _ _ _).mpr ⟨x, hx, rfl⟩, ?_⟩
    obtain ⟨v, hv, h⟩ := (QueryExpansion.bind_eq_ok _ _ _).mp hx
    cases h
    exact readNode_comparison M _ _ _ (by decide)

mutual

theorem ExprOr.reads : (e : ExprOr) → (∀ n ∈ e.subqueries, n.Kept) → (x : Json) →
    transformExprOr json e = .ok x →
      ∃ f, e.meaning json M = .ok f ∧ readNode M x = some (some f)
  | .single a, hk, x, hx => by
    rw [transformExprOr] at hx
    rw [ExprOr.meaning]
    exact a.reads hk x hx
  | .or a b, hk, x, hx => by
    rw [ExprOr.subqueries, List.forall_mem_append] at hk
    rw [transformExprOr] at hx
    obtain ⟨y, hy, h⟩ := (QueryExpansion.bind_eq_ok _ _ _).mp hx
    obtain ⟨z, hz, h⟩ := (QueryExpansion.bind_eq_ok _ _ _).mp h
    cases h
    obtain ⟨f, hf, hfy⟩ := a.reads hk.1 y hy
    obtain ⟨g, hg, hgz⟩ := b.reads hk.2 z hz
    refine ⟨fun row => (f row).or (g row), ?_, ?_⟩
    · rw [ExprOr.meaning, hf, hg]
      rfl
    · exact readNode_flattenOperands M "or" Truth.any Truth.or (readNode_or M) Truth.or_no
        Truth.any_append y z f g hfy hgz

theorem ExprAnd.reads : (e : ExprAnd) → (∀ n ∈ e.subqueries, n.Kept) → (x : Json) →
    transformExprAnd json e = .ok x →
      ∃ f, e.meaning json M = .ok f ∧ readNode M x = some (some f)
  | .single a, hk, x, hx => by
    rw [transformExprAnd] at hx
    rw [ExprAnd.meaning]
    exact a.reads hk x hx
  | .and a b, hk, x, hx => by
    rw [ExprAnd.subqueries, List.forall_mem_append] at hk
    rw [transformExprAnd] at hx
    obtain ⟨y, hy, h⟩ := (QueryExpansion.bind_eq_ok _ _ _).mp hx
    obtain ⟨z, hz, h⟩ := (QueryExpansion.bind_eq_ok _ _ _).mp h
    cases h
    obtain ⟨f, hf, hfy⟩ := a.reads hk.1 y hy
    obtain ⟨g, hg, hgz⟩ := b.reads hk.2 z hz
    refine ⟨fun row => (f row).and (g row), ?_, ?_⟩
    · rw [ExprAnd.meaning, hf, hg]
      rfl
    · exact readNode_flattenOperands M "and" Truth.all Truth.and (readNode_and M) Truth.and_yes
        Truth.all_append y z f g hfy hgz

theorem ExprNot.reads : (e : ExprNot) → (∀ n ∈ e.subqueries, n.Kept) → (x : Json) →
    transformExprNot json e = .ok x →
      ∃ f, e.meaning json M = .ok f ∧ readNode M x = some (some f)
  | .not a, hk, x, hx => by
    rw [transformExprNot] at hx
    obtain ⟨y, hy, h⟩ := (QueryExpansion.bind_eq_ok _ _ _).mp hx
    cases h
    obtain ⟨f, hf, hfy⟩ := a.reads hk y hy
    refine ⟨fun row => (f row).not, ?_, readNode_not M y f hfy⟩
    rw [ExprNot.meaning, hf]
    rfl
  | .parens e, hk, x, hx => by
    rw [transformExprNot] at hx
    rw [ExprNot.meaning]
    exact e.reads hk x hx
  | .cond c, _, x, hx => by
    rw [transformExprNot] at hx
    rw [ExprNot.meaning]
    exact c.reads json M x hx
  | .inQuery columns q, hk, x, hx => by
    rw [ExprNot.subqueries, List.forall_mem_cons] at hk
    rw [transformExprNot] at hx
    obtain ⟨cols, hcols, h⟩ := (QueryExpansion.bind_eq_ok _ _ _).mp hx
    obtain ⟨ast, hast, h⟩ := (QueryExpansion.bind_eq_ok _ _ _).mp h
    cases h
    obtain ⟨s, hs, hread⟩ := q.reads_nested json M hk.1 (q.reads hk.2) ast hast
    refine ⟨M.inQuery cols s, ?_, readNode_inFrom M cols ast s hread⟩
    rw [ExprNot.meaning, hcols, hs]
    rfl
  | .subquery entity w, hk, x, hx => by
    rw [ExprNot.subqueries, List.forall_mem_cons] at hk
    obtain ⟨s, hs, hread⟩ := w.reads_implicit json M entity hk.1 (w.reads hk.2) x hx
    refine ⟨M.subquery s, ?_, readNode_subquery M x s hread⟩
    rw [ExprNot.meaning, hs]
    rfl

theorem Where.reads : (w : Where) → (∀ n ∈ w.subqueries, n.Kept) → w.Reads json M
  | .all _, _ => by
    intro e he
    cases he
  | .expr e _, hk => by
    intro e' he' x hx
    cases he'
    exact e.reads hk x hx

theorem From.reads : (q : From) → (∀ n ∈ q.subqueries, n.Kept) → q.where.Reads json M
  | .mk _ _ w, hk => w.reads hk

end

end Kept

/-! ## Agreement -/

section Agreement

variable (json : JsonDecoder)

theorem QueryNode.agrees_top (q : From) (hk : (QueryNode.top q).Kept)
    (hsub : ∀ n ∈ q.subqueries, n.Kept) (hq : q.Transformable) :
    (QueryNode.top q).Agrees json := by
  obtain ⟨ast, hast⟩ := (succeeds_transformFrom json q).mpr hq
  exact ⟨ast, hast, fun Row M => q.reads_top json M hk (q.reads json M hsub) ast hast⟩

theorem QueryNode.agrees_nested (q : From) (hk : (QueryNode.nested q).Kept)
    (hsub : ∀ n ∈ q.subqueries, n.Kept) (hq : q.Transformable) :
    (QueryNode.nested q).Agrees json := by
  obtain ⟨ast, hast⟩ := (succeeds_transformFrom json q).mpr hq
  exact ⟨ast, hast, fun Row M => q.reads_nested json M hk (q.reads json M hsub) ast hast⟩

theorem QueryNode.agrees_implicit (entity : String) (w : Where)
    (hk : (QueryNode.implicit entity w).Kept) (hsub : ∀ n ∈ w.subqueries, n.Kept)
    (hw : (ExprNot.subquery entity w).Transformable) :
    (QueryNode.implicit entity w).Agrees json := by
  obtain ⟨ast, hast⟩ := (succeeds_transformExprNot json (.subquery entity w)).mpr hw
  exact ⟨ast, hast, fun Row M =>
    w.reads_implicit json M entity hk (w.reads json M hsub) ast hast⟩

mutual

theorem ExprOr.agrees : (e : ExprOr) → (∀ n ∈ e.subqueries, n.Kept) → e.Transformable →
    ∀ n ∈ e.subqueries, n.Agrees json
  | .single a, hk, ht => a.agrees hk ht
  | .or a b, hk, ht => by
    rw [ExprOr.subqueries, List.forall_mem_append] at hk ⊢
    exact ⟨a.agrees hk.1 ht.1, b.agrees hk.2 ht.2⟩

theorem ExprAnd.agrees : (e : ExprAnd) → (∀ n ∈ e.subqueries, n.Kept) → e.Transformable →
    ∀ n ∈ e.subqueries, n.Agrees json
  | .single a, hk, ht => a.agrees hk ht
  | .and a b, hk, ht => by
    rw [ExprAnd.subqueries, List.forall_mem_append] at hk ⊢
    exact ⟨a.agrees hk.1 ht.1, b.agrees hk.2 ht.2⟩

theorem ExprNot.agrees : (e : ExprNot) → (∀ n ∈ e.subqueries, n.Kept) → e.Transformable →
    ∀ n ∈ e.subqueries, n.Agrees json
  | .not a, hk, ht => a.agrees hk ht
  | .parens e, hk, ht => e.agrees hk ht
  | .cond _, _, _ => by
    intro n hn
    cases hn
  | .inQuery columns q, hk, ht => by
    rw [ExprNot.subqueries, List.forall_mem_cons] at hk ⊢
    exact ⟨QueryNode.agrees_nested json q hk.1 hk.2 ht.2, q.agrees hk.2 ht.2⟩
  | .subquery entity w, hk, ht => by
    rw [ExprNot.subqueries, List.forall_mem_cons] at hk ⊢
    exact ⟨QueryNode.agrees_implicit json entity w hk.1 hk.2 ht, w.agrees hk.2 ht.1⟩

theorem Where.agrees : (w : Where) → (∀ n ∈ w.subqueries, n.Kept) → w.Transformable →
    ∀ n ∈ w.subqueries, n.Agrees json
  | .all _, _, _ => by
    intro n hn
    cases hn
  | .expr e _, hk, ht => e.agrees hk ht.1

theorem From.agrees : (q : From) → (∀ n ∈ q.subqueries, n.Kept) → q.Transformable →
    ∀ n ∈ q.subqueries, n.Agrees json
  | .mk _ none w, hk, ht => w.agrees hk ht
  | .mk _ (some _) w, hk, ht => w.agrees hk ht.2

end

/-! ## What is read is kept -/

instance {Row : Type} : Inhabited (Model Row) :=
  ⟨⟨fun _ _ => .unknown, fun _ _ _ => .unknown, fun _ _ => .unknown⟩⟩

theorem unrepeated_of_createPagingMap (ps : List Paging) (m : PagingMap)
    (hm : createPagingMap (ps.map Paging.clause) = some m) : Unrepeated ps := by
  obtain ⟨hlimit, hoffset, horder⟩ := (createPagingMap_clauses ps m).mp hm
  constructor
  · rw [hlimit]
    exact length_toList_le _
  · rw [hoffset]
    exact length_toList_le _
  · rw [horder]
    exact length_toList_le _

/-- A selection without a grouping is of clauses without one. -/
theorem not_grouped {json : JsonDecoder} {Row : Type} {w : Where} {s : Selection Row}
    (p : Parts json w) (h : ClausesOf json w s) (hs : s.groupBy = none) :
    w.clauses.grouped = false := by
  have hgroup := h.groupBy
  rw [p.groupBy_ok, hs] at hgroup
  rw [← p.isSome_groupBy, Except.ok.inj hgroup]
  rfl

theorem isSome_expr {json : JsonDecoder} {w : Where} (p : Parts json w) (x : Json)
    (hx : p.filter = some x) : w.expr?.isSome = true := by
  cases he : w.expr? with
  | some e => rfl
  | none =>
    rw [p.filter_none he] at hx
    cases hx

theorem QueryNode.kept_top (q : From) (h : (QueryNode.top q).Agrees json) :
    (QueryNode.top q).Kept := by
  obtain ⟨ast, hast, hM⟩ := h
  obtain ⟨s, hs, hread⟩ := hM Unit default
  have hclauses := q.clausesOf json default s hs
  change readQuery _ ast = some s at hread
  obtain ⟨p, ⟨hq, rfl⟩ | ⟨columns, cols, hq, hcols, rfl⟩⟩ := transformFrom_parts json q ast hast
  · rw [readQuery_parts] at hread
    obtain ⟨m, hm, hread⟩ := Option.bind_eq_some_iff.mp hread
    obtain ⟨f, _, rfl⟩ := Option.map_eq_some_iff.mp hread
    refine ⟨fun hgrouped => ?_, unrepeated_of_createPagingMap _ m hm⟩
    rw [not_grouped p hclauses rfl] at hgrouped
    cases hgrouped
  · rw [readQuery_columns] at hread
    obtain ⟨m, hm, hread⟩ := Option.bind_eq_some_iff.mp hread
    exact ⟨fun _ => by rw [hq]; rfl, unrepeated_of_createPagingMap _ m hm⟩

/-- A paging clause that is taken for the filter is missing in the paging. -/
theorem paging_lost (c : Paging) (cs : List Paging) (m : PagingMap)
    (hm : createPagingMap (cs.map Paging.clause) = some m)
    (hlimit : (c :: cs).filterMap Paging.limit? = m.limit.toList)
    (hoffset : (c :: cs).filterMap Paging.offset? = m.offset.toList)
    (horder : (c :: cs).filterMap Paging.orderBy? = m.orderBy.toList) : False := by
  obtain ⟨hlimit', hoffset', horder'⟩ := (createPagingMap_clauses cs m).mp hm
  cases c with
  | limit n =>
    rw [← hlimit'] at hlimit
    exact List.cons_ne_self _ _ hlimit
  | offset n =>
    rw [← hoffset'] at hoffset
    exact List.cons_ne_self _ _ hoffset
  | orderby first rest =>
    rw [← horder'] at horder
    exact List.cons_ne_self _ _ horder

theorem QueryNode.kept_nested (q : From) (h : (QueryNode.nested q).Agrees json) :
    (QueryNode.nested q).Kept := by
  obtain ⟨ast, hast, hM⟩ := h
  obtain ⟨s, hs, hread⟩ := hM Unit default
  have hclauses := q.clausesOf json default s hs
  change readFrom _ ast = some s at hread
  obtain ⟨p, ⟨hq, rfl⟩ | ⟨columns, cols, hq, hcols, rfl⟩⟩ := transformFrom_parts json q ast hast
  · cases hfilter : p.filter with
    | some x =>
      rw [readFrom_filter _ p _ x hfilter] at hread
      obtain ⟨m, hm, hread⟩ := Option.bind_eq_some_iff.mp hread
      obtain ⟨f, _, rfl⟩ := Option.map_eq_some_iff.mp hread
      exact ⟨.inr (isSome_expr p x hfilter), not_grouped p hclauses rfl,
        unrepeated_of_createPagingMap _ m hm⟩
    | none =>
      exfalso
      rw [readFrom_noFilter _ p _ hfilter] at hread
      split at hread
      · rename_i hgroup
        cases hread
        have hnone := not_grouped p hclauses rfl
        rw [← p.isSome_groupBy, hgroup] at hnone
        cases hnone
      · cases hps : q.where.clauses.pagingClauses with
        | nil =>
          rw [hps] at hread
          cases hread
        | cons c cs =>
          rw [hps] at hread
          obtain ⟨m, hm, rfl⟩ := Option.map_eq_some_iff.mp hread
          exact paging_lost c cs m hm (by rw [← hps]; exact hclauses.limit)
            (by rw [← hps]; exact hclauses.offset) (by rw [← hps]; exact hclauses.orderBy)
  · rw [readFrom_columns] at hread
    obtain ⟨m, hm, hread⟩ := Option.bind_eq_some_iff.mp hread
    obtain ⟨f, _, rfl⟩ := Option.map_eq_some_iff.mp hread
    exact ⟨.inl (by rw [hq]; rfl), not_grouped p hclauses rfl,
      unrepeated_of_createPagingMap _ m hm⟩

theorem pagingClauses_eq_nil (ps : List Paging) (hlimit : ps.filterMap Paging.limit? = [])
    (hoffset : ps.filterMap Paging.offset? = []) (horder : ps.filterMap Paging.orderBy? = []) :
    ps = [] := by
  cases ps with
  | nil => rfl
  | cons p ps =>
    cases p with
    | limit n => cases hlimit
    | offset n => cases hoffset
    | orderby first rest => cases horder

theorem QueryNode.kept_implicit (entity : String) (w : Where)
    (h : (QueryNode.implicit entity w).Agrees json) : (QueryNode.implicit entity w).Kept := by
  obtain ⟨ast, hast, hM⟩ := h
  obtain ⟨s, hs, hread⟩ := hM Unit default
  have hclauses := w.clausesOf json default entity none s hs
  change readSubquery _ ast = some s at hread
  change transformExprNot json (.subquery entity w) = .ok ast at hast
  rw [transformExprNot] at hast
  obtain ⟨xs, hxs, hast⟩ := (QueryExpansion.bind_eq_ok _ _ _).mp hast
  obtain ⟨p, rfl⟩ := transformWhere_parts json w xs hxs
  unfold readSubquery at hread
  split at hread
  · rename_i e expr
    obtain ⟨f, _, rfl⟩ := Option.map_eq_some_iff.mp hread
    have hgrouped := not_grouped p hclauses rfl
    have hpaging := pagingClauses_eq_nil _ hclauses.limit hclauses.offset hclauses.orderBy
    refine ⟨?_, hgrouped, hpaging⟩
    cases hfilter : p.filter with
    | some x => exact isSome_expr p x hfilter
    | none =>
      rw [Parts.bodyNodes, hfilter, p.groupBy_of_not_grouped hgrouped, Where.pagingNodes,
        hpaging] at hast
      cases hast
  · cases hread

theorem QueryNode.kept_of_agrees (n : QueryNode) (h : n.Agrees json) : n.Kept := by
  cases n with
  | top q => exact kept_top json q h
  | nested q => exact kept_nested json q h
  | implicit entity w => exact kept_implicit json entity w h

end Agreement

/-- `nodes { certname = 'a' group by certname }` -/
def ungroupedQuery : From :=
  .mk "nodes" none (.expr (.single (.single (.cond
    (.isEqual (.name "certname") (.string (.sqstring singleQuotedA))))))
      (.groupby (.field (.name "certname")) []))

end OpenVoxDB.Pql
