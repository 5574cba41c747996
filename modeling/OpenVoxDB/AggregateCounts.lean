import Mathlib
import OpenVoxDB.EventCounts
import OpenVoxDB.LegacyParams
import OpenVoxDB.PlanOrder
import OpenVoxDB.ReportEvents

/-!
# The parameters of aggregate event counts

A `WITH` in front of a union takes its parameters first, and each member of the
union takes those of its own counts filter. The aggregate query puts one list of
parameters together for all of that.
-/

namespace OpenVoxDB.Plans

variable {V : Type} (parser : FieldParser)

/-- A parameter without a placeholder is an argument of a function. -/
def Plan.Placed (plan : Plan V) : Prop :=
  ∀ p ∈ plan.front ++ plan.back parser, (∃ a, p = .arg a) ∨ p ∈ marks (plan.tokens parser)

theorem clauses_placed (clauses : List (Plan V)) (ih : ∀ plan ∈ clauses, plan.Placed parser) :
    ∀ p ∈ frontClauses clauses ++ backClauses parser clauses,
      (∃ a, p = .arg a) ∨ p ∈ marks (clausesTokens parser clauses) := by
  induction clauses with
  | nil => simp [frontClauses, backClauses]
  | cons plan plans ihplans =>
    have hplan := ih plan List.mem_cons_self
    have hplans := ihplans fun p hp => ih p (List.mem_cons_of_mem _ hp)
    intro p hp
    have hp : p ∈ plan.front ++ plan.back parser ∨
        p ∈ frontClauses plans ++ backClauses parser plans := by
      simp only [frontClauses, backClauses, List.mem_append] at hp ⊢
      tauto
    rw [clausesTokens, marks_append, List.mem_append]
    obtain hp | hp := hp
    · exact (hplan p hp).imp_right .inl
    · exact (hplans p hp).imp_right .inr

theorem QueryRec.mem_lead (query : QueryRec V) (p : Param V) (hp : p ∈ query.lead) :
    ∃ a, p = .arg a := by
  rw [QueryRec.lead, List.mem_flatten] at hp
  obtain ⟨block, hblock, hp⟩ := hp
  obtain ⟨call, -, rfl⟩ := List.mem_map.mp (List.mem_reverse.mp hblock)
  obtain ⟨a, -, rfl⟩ := List.mem_map.mp hp
  exact ⟨a, rfl⟩

theorem Plan.placed (plan : Plan V) : plan.Placed parser := by
  induction plan using Plan.ind with
  | inSub columns query filter ih =>
    have hfilter : ∀ p ∈ frontFilter filter ++ backFilter parser filter,
        (∃ a, p = .arg a) ∨ p ∈ marks (filterTokens parser filter) := by
      cases filter with
      | none => simp [frontFilter, backFilter]
      | some plan => exact ih plan rfl
    have htext : marks (Plan.tokens parser (.inSub columns query filter)) =
        query.callMarks ++ (query.selectionParams ++ marks (filterTokens parser filter)) := by
      simp [Plan.tokens, marks_map_field (fun c : Column => c.field), QueryRec.marks_tokens]
    intro p hp
    rw [htext]
    simp only [Plan.front, Plan.back, List.mem_append] at hp hfilter ⊢
    obtain ((hp | hp) | hp) | hp := hp
    · exact .inl (query.mem_lead p hp)
    · exact (hfilter p (.inl hp)).imp_right fun h => .inr (.inr h)
    · exact .inr (.inr (.inl hp))
    · exact (hfilter p (.inr hp)).imp_right fun h => .inr (.inr h)
  | and clauses ih | or clauses ih =>
    simpa [Plan.Placed, Plan.front, Plan.back, Plan.tokens] using clauses_placed parser clauses ih
  | not clause ih => simpa [Plan.Placed, Plan.front, Plan.back, Plan.tokens] using ih
  | _ =>
    rw [Plan.Placed, Plan.marks_expression parser _ rfl]
    intro p hp
    exact .inr (by simpa [Plan.front, Plan.back] using hp)

theorem Query.placed (q : Query V) (p : Param V) (hp : p ∈ q.extractAllParams parser) :
    (∃ a, p = .arg a) ∨ p ∈ marks (q.tokens parser) := by
  rw [q.extractAllParams_eq] at hp
  rw [q.marks_tokens]
  apply Plan.placed parser (.inSub [] q.query q.filter) p
  simpa [Plan.front, Plan.back] using hp

end OpenVoxDB.Plans

namespace OpenVoxDB.EventCounts

open LegacyQueries Placeholders Plans

variable (storeCorrectiveChange : Bool)

/-! ## The placeholders -/

def filterMarks (filter : Option CountsCondition) : List Value :=
  filter.toList.map fun c => .value c.value

theorem marks_countBySql (sql : Text) (countBy : CountBy) (groupBy : List String) :
    Placeholders.marks (getCountBySql sql countBy groupBy) = Placeholders.marks sql := by
  cases countBy <;> simp [getCountBySql]

theorem marks_filteredSql (sql : Text) (filter : Option CountsCondition) :
    Placeholders.marks (getFilteredSql sql filter) = Placeholders.marks sql ++ filterMarks filter := by
  cases filter <;> simp [getFilteredSql, filterMarks, CountsCondition.text]

theorem CountsQuery.marks_sql (e : CountsQuery) :
    Placeholders.marks (e.sql storeCorrectiveChange) =
      Placeholders.marks e.latest ++ (Placeholders.marks e.select ++ filterMarks e.filter) := by
  simp [CountsQuery.sql, marks_filteredSql, getEventCountSql, marks_countBySql]

theorem Aggregate.marks_sql (a : Aggregate) :
    Placeholders.marks (a.sql storeCorrectiveChange) = Placeholders.marks a.latest ++
      a.members.flatMap fun e => Placeholders.marks (e.sql storeCorrectiveChange) := by
  simp [Aggregate.sql, List.flatMap_map, getAggregateSql]

/-! ## Running a statement with its own parameters -/

/-- The parts of a query with their own values. -/
def CountsQuery.filled (e : CountsQuery) : Filled :=
  ⟨e.latest, e.select, e.filter.map CountsCondition.text⟩

theorem CountsQuery.fill_marks (e : CountsQuery) (rest : List Value) :
    e.fill (Placeholders.marks (e.sql storeCorrectiveChange) ++ rest) = some (e.filled, rest) := by
  rw [e.marks_sql, List.append_assoc, List.append_assoc]
  cases hfilter : e.filter with
  | none => simp [CountsQuery.fill, Placeholders.fill_marks, filterMarks, hfilter, filled]
  | some condition =>
    have hcondition : Placeholders.fill condition.text (.value condition.value :: rest) =
        some (condition.text, rest) := Placeholders.fill_marks condition.text rest
    simp [CountsQuery.fill, Placeholders.fill_marks, filterMarks, hfilter, filled, hcondition]

theorem CountsQuery.run_marks (e : CountsQuery) (db : Database) :
    e.run storeCorrectiveChange db (Placeholders.marks (e.sql storeCorrectiveChange)) =
      some (e.rows storeCorrectiveChange db e.filled) := by
  have hfill := e.fill_marks storeCorrectiveChange []
  rw [List.append_nil] at hfill
  simp [CountsQuery.run, hfill]

theorem Aggregate.fillMembers_marks (members : List CountsQuery) (rest : List Value) :
    Aggregate.fillMembers members (members.flatMap (fun e =>
      Placeholders.marks (e.sql storeCorrectiveChange)) ++ rest) =
      some (members.map fun e => (e, e.filled), rest) := by
  induction members with
  | nil => rfl
  | cons e es ih =>
    rw [List.flatMap_cons, List.append_assoc]
    simp [Aggregate.fillMembers, e.fill_marks, ih]

/-- The rows of a member that sees what is in front of the union. -/
def Aggregate.memberRow (a : Aggregate) (db : Database) (e : CountsQuery) : AggregateRow :=
  aggregateRow storeCorrectiveChange e.summarizeBy
    (e.rows storeCorrectiveChange db { e.filled with latest := a.latest ++ e.latest })

theorem Aggregate.run_marks (a : Aggregate) (db : Database) :
    a.run storeCorrectiveChange db (Placeholders.marks (a.sql storeCorrectiveChange)) =
      some (a.members.map (a.memberRow storeCorrectiveChange db)) := by
  have hmembers := Aggregate.fillMembers_marks storeCorrectiveChange a.members []
  rw [List.append_nil] at hmembers
  rw [a.marks_sql, Aggregate.run, Placeholders.fill_marks]
  simp only [Option.bind_eq_bind, Option.bind_some, hmembers, List.isEmpty_nil, if_true,
    List.map_map]
  rfl

/-! ## Lists of lists -/

theorem forall₂_of_mapM {α β : Type} (f : α → Option β) (xs : List α) (ys : List β)
    (h : xs.mapM f = some ys) : List.Forall₂ (fun x y => f x = some y) xs ys := by
  induction xs generalizing ys with
  | nil =>
    obtain rfl := Option.some.inj h
    exact .nil
  | cons x xs ih =>
    rw [List.mapM_cons] at h
    obtain ⟨y, hy, h⟩ := Option.bind_eq_some_iff.mp h
    obtain ⟨rest, hrest, h⟩ := Option.bind_eq_some_iff.mp h
    obtain rfl := Option.some.inj h
    exact .cons hy (ih rest hrest)

theorem flatMap_replicate {α β : Type} (f : α → List β) (n : Nat) (xs : List α) :
    (List.replicate n xs).flatten.flatMap f = (List.replicate n (xs.flatMap f)).flatten := by
  induction n with
  | zero => rfl
  | succ n ih => simp [List.replicate_succ, ih]

theorem flatten_replicate_inj {α : Type} (n : Nat) (xs ys : List α) (hn : n ≠ 0)
    (h : (List.replicate n xs).flatten = (List.replicate n ys).flatten) : xs = ys := by
  have hlength := congrArg List.length h
  simp only [List.length_flatten, List.map_replicate, List.sum_replicate, smul_eq_mul] at hlength
  have heq : xs.length = ys.length := Nat.eq_of_mul_eq_mul_left (Nat.pos_of_ne_zero hn) hlength
  cases n with
  | zero => exact absurd rfl hn
  | succ n =>
    rw [List.replicate_succ, List.replicate_succ, List.flatten_cons, List.flatten_cons] at h
    exact (List.append_inj h heq).1

/-- A list to which an element is put at either end. -/
theorem cons_eq_append_iff {α : Type} (a : α) (xs : List α) :
    a :: xs = xs ++ [a] ↔ ∀ x ∈ xs, x = a := by
  induction xs with
  | nil => simp
  | cons x xs ih =>
    rw [List.cons_append, List.cons.injEq, List.forall_mem_cons]
    constructor
    · rintro ⟨rfl, hrest⟩
      exact ⟨rfl, ih.mp hrest⟩
    · rintro ⟨rfl, hall⟩
      exact ⟨rfl, ih.mpr hall⟩

/-! ## Values that are lists -/

def isList : Value → Bool
  | .value (.arr _) => true
  | .engine (.value (.arr _)) => true
  | _ => false

mutual

theorem flattenJson_ne_arr (v : Json) (xs : List Json) : .arr xs ∉ flattenJson v := by
  cases v with
  | arr ys =>
    rw [flattenJson]
    exact flattenAll_ne_arr ys xs
  | _ => simp [flattenJson]

theorem flattenAll_ne_arr (vs : List Json) (xs : List Json) : .arr xs ∉ flattenAll vs := by
  cases vs with
  | nil => simp [flattenAll]
  | cons v vs =>
    rw [flattenAll, List.mem_append]
    rintro (h | h)
    · exact flattenJson_ne_arr v xs h
    · exact flattenAll_ne_arr vs xs h

end

theorem isList_flattenValue (p q : Value) (h : q ∈ flattenValue p) : isList q = false := by
  unfold flattenValue at h
  split at h
  · next v =>
    obtain ⟨w, hw, rfl⟩ := List.mem_map.mp h
    cases w with
    | arr xs => exact absurd hw (flattenJson_ne_arr v xs)
    | _ => rfl
  · next v =>
    obtain ⟨w, hw, rfl⟩ := List.mem_map.mp h
    cases w with
    | arr xs => exact absurd hw (flattenJson_ne_arr v xs)
    | _ => rfl
  · next hvalue hengine =>
    rw [List.mem_singleton.mp h]
    unfold isList
    split
    · next xs => exact absurd rfl (hvalue (.arr xs))
    · next xs => exact absurd rfl (hengine (.arr xs))
    · rfl

theorem flattenValue_eq (p : Value) (h : isList p = false) : flattenValue p = [p] := by
  unfold flattenValue
  split
  · next v =>
    cases v with
    | arr xs => cases h
    | _ => rfl
  · next v =>
    cases v with
    | arr xs => cases h
    | _ => rfl
  · rfl

theorem flatMap_flattenValue (params : List Value) (h : ∀ p ∈ params, isList p = false) :
    params.flatMap flattenValue = params := by
  rw [List.flatMap_congr fun p hp => flattenValue_eq p (h p hp)]
  simp
/-! ## Requests -/

variable (readers : Readers) (parser : FieldParser)

theorem marks_ofToken (tokens : List (Token Json)) :
    Placeholders.marks (tokens.map ofToken) = (Plans.marks tokens).map .engine := by
  induction tokens with
  | nil => rfl
  | cons token tokens ih =>
    cases token with
    | sql s => simpa [ofToken] using ih
    | mark p => simp [ofToken, ih]

theorem marks_latestEvents (start stop : Instant) (c : Compiled (Plans.Param Json))
    (hc : c.InOrder) (hclause : c.PlainClause) :
    Placeholders.marks (latestEvents start stop c.condition c.latestReportClause) =
      .window start :: .window stop :: placed c.params := by
  have hcondition := marks_condition c hc
  have hlatest := marks_latestReportClause c hclause
  have hwhere : Placeholders.marks ((c.condition.map fun condition =>
      .text "WHERE " :: condition.pieces).getD []) = placed c.params := by
    rw [← hcondition]
    cases c.condition <;> rfl
  simp only [latestEvents, Placeholders.marks_text, Placeholders.marks_mark,
    Placeholders.marks_append, hlatest, hwhere, Placeholders.marks_nil, List.nil_append, List.append_nil]

/-- What the parts of event counts are made of. -/
theorem eventCounts_spec (willUnion : Bool) (query : Term) (r : Request) (summarizeBy : String)
    (x : CountsQuery × List Value)
    (h : eventCounts storeCorrectiveChange readers parser willUnion query r summarizeBy = some x) :
    ∃ eventParams, eventsSql readers parser willUnion query r =
        some (x.1.latest, x.1.select, eventParams) ∧
      countBy r.countBy = some x.1.countBy ∧ getGroupBy summarizeBy = some x.1.groupBy ∧
      getCountsFilterWhereClause storeCorrectiveChange r.countsFilter = some x.1.filter ∧
      x.1.summarizeBy = summarizeBy ∧ x.2 = eventParams ++ filterMarks x.1.filter := by
  obtain ⟨countBy, hcountBy, h⟩ := Option.bind_eq_some_iff.mp h
  obtain ⟨groupBy, hgroupBy, h⟩ := Option.bind_eq_some_iff.mp h
  obtain ⟨filter, hfilter, h⟩ := Option.bind_eq_some_iff.mp h
  obtain ⟨⟨latest, select, eventParams⟩, hevents, h⟩ := Option.bind_eq_some_iff.mp h
  obtain rfl := Option.some.inj h
  exact ⟨eventParams, hevents, hcountBy, hgroupBy, hfilter, rfl, rfl⟩

/-- Parts like these make event counts. -/
theorem eventCounts_eq (willUnion : Bool) (query : Term) (r : Request) (e : CountsQuery)
    (eventParams : List Value)
    (hevents : eventsSql readers parser willUnion query r = some (e.latest, e.select, eventParams))
    (hcountBy : countBy r.countBy = some e.countBy)
    (hgroupBy : getGroupBy e.summarizeBy = some e.groupBy)
    (hfilter : getCountsFilterWhereClause storeCorrectiveChange r.countsFilter = some e.filter) :
    eventCounts storeCorrectiveChange readers parser willUnion query r e.summarizeBy =
      some (e, eventParams ++ filterMarks e.filter) := by
  simp [eventCounts, hevents, hcountBy, hgroupBy, hfilter, filterMarks]

/-- Every parameter stands for the placeholder that its clause wrote, and each row of the union
is the aggregate of the event counts for its value. -/
def BindsInOrder (r : Request) (a : Aggregate) (params : List Value) : Prop :=
  params = Placeholders.marks (a.sql storeCorrectiveChange) ∧
  ∀ db, ∃ rows, a.run storeCorrectiveChange db params = some rows ∧
    List.Forall₂ (fun summarizeBy row => ∃ single singleParams counts,
      eventCounts storeCorrectiveChange readers parser false r.query r summarizeBy =
        some (single, singleParams) ∧
      single.run storeCorrectiveChange db singleParams = some counts ∧
      row = aggregateRow storeCorrectiveChange summarizeBy counts)
    (splitCommas r.summarizeBy) rows

/-- The value of the counts filter. -/
def CountsFilter.value : CountsFilter → Option Json
  | .empty => none
  | .equal _ value => some value
  | .inequality _ _ value => some value

theorem filterMarks_eq (countsFilter : Option CountsFilter) (filter : Option CountsCondition)
    (h : getCountsFilterWhereClause storeCorrectiveChange countsFilter = some filter) :
    filterMarks filter = ((countsFilter.bind CountsFilter.value).map .value).toList := by
  cases countsFilter with
  | none =>
    obtain rfl := Option.some.inj h
    rfl
  | some countsFilter =>
    cases countsFilter with
    | empty =>
      obtain rfl := Option.some.inj h
      rfl
    | equal path value =>
      simp only [getCountsFilterWhereClause] at h
      split at h
      · obtain rfl := Option.some.inj h
        rfl
      · cases h
    | inequality op path value =>
      simp only [getCountsFilterWhereClause] at h
      split at h
      · obtain rfl := Option.some.inj h
        rfl
      · cases h

/-- The parameter of the counts filter, if there is one. -/
def Request.countsValues (r : Request) : List Value :=
  ((r.countsFilter.bind CountsFilter.value).map .value).toList

/-- A member of the union: what it was made of, without a `WITH` of its own. -/
structure Member (r : Request) (summarizeBy : String) (e : CountsQuery) : Prop where
  countBy : countBy r.countBy = some e.countBy
  groupBy : getGroupBy summarizeBy = some e.groupBy
  filter : getCountsFilterWhereClause storeCorrectiveChange r.countsFilter = some e.filter
  summarizeBy : e.summarizeBy = summarizeBy
  latest : e.latest = []

theorem Member.filterMarks (r : Request) (summarizeBy : String) (e : CountsQuery)
    (h : Member storeCorrectiveChange r summarizeBy e) : filterMarks e.filter = r.countsValues :=
  filterMarks_eq storeCorrectiveChange r.countsFilter e.filter h.filter

/-- The placeholders of members that select alike. -/
theorem marks_members (r : Request) (select : Text) (summaries : List String)
    (members : List CountsQuery)
    (h : List.Forall₂ (fun s e => Member storeCorrectiveChange r s e ∧ e.select = select)
      summaries members) :
    (members.flatMap fun e => Placeholders.marks (e.sql storeCorrectiveChange)) =
      (List.replicate summaries.length (Placeholders.marks select ++ r.countsValues)).flatten := by
  induction h with
  | nil => rfl
  | cons hmember hrest ih =>
    obtain ⟨hmember, hselect⟩ := hmember
    rw [List.flatMap_cons, ih, CountsQuery.marks_sql, hmember.latest, hselect,
      Member.filterMarks storeCorrectiveChange r _ _ hmember, List.length_cons,
      List.replicate_succ, List.flatten_cons]
    rfl

/-- The rows of members that each come from a single query. -/
theorem rows_members (r : Request) (a : Aggregate) (db : Database) (select : Text)
    (eventParams : List Value) (summaries : List String) (members : List CountsQuery)
    (h : List.Forall₂ (fun s e => Member storeCorrectiveChange r s e ∧ e.select = select)
      summaries members)
    (hevents : eventsSql readers parser false r.query r = some (a.latest, select, eventParams))
    (hparams : eventParams = Placeholders.marks a.latest ++ Placeholders.marks select) :
    List.Forall₂ (fun summarizeBy row => ∃ single singleParams counts,
      eventCounts storeCorrectiveChange readers parser false r.query r summarizeBy =
        some (single, singleParams) ∧
      single.run storeCorrectiveChange db singleParams = some counts ∧
      row = aggregateRow storeCorrectiveChange summarizeBy counts) summaries
      (members.map (a.memberRow storeCorrectiveChange db)) := by
  induction h with
  | nil => exact .nil
  | @cons s e summaries members hmember hrest ih =>
    obtain ⟨⟨hcountBy, hgroupBy, hfilter, rfl, hlatest⟩, rfl⟩ := hmember
    rw [List.map_cons]
    apply List.Forall₂.cons _ ih
    have hsingle := eventCounts_eq storeCorrectiveChange readers parser false r.query r
      { e with latest := a.latest } eventParams hevents hcountBy hgroupBy hfilter
    have hrun := CountsQuery.run_marks storeCorrectiveChange { e with latest := a.latest } db
    rw [CountsQuery.marks_sql, ← List.append_assoc, ← hparams] at hrun
    refine ⟨_, _, _, hsingle, hrun, ?_⟩
    rw [Aggregate.memberRow, hlatest, List.append_nil]
    rfl

/-! ## Distinct resources -/

theorem placed_placed (params : List Value) : placed (placed params) = placed params := by
  simp [placed]

theorem placed_eq_self_iff (params : List Value) :
    placed params = params ↔ hasLower params = false := by
  simp [placed, hasLower, List.filter_eq_self]

theorem placed_of_length (params : List Value) (h : (placed params).length = params.length) :
    placed params = params :=
  List.filter_eq_self.mpr (List.length_filter_eq_length_iff.mp h)

/-- Without the window of the members, the query's parameters are one window short. -/
theorem window_params_ne (start stop : Instant) (params : List Value) :
    params ≠ .window start :: .window stop :: placed params := by
  intro h
  have hplaced := congrArg (fun xs => (placed xs).length) h
  have hwindow : placed (.window start :: .window stop :: placed params) =
      .window start :: .window stop :: placed params := by
    rw [← placed_placed params]
    simp [placed, Bound.isLower]
  simp only [hwindow, List.length_cons] at hplaced
  omega

/-- The parameter of the counts filter comes once, in front of the query's, and is wanted once
for each member, behind them. -/
theorem counted_params_iff (v : Json) (n : Nat) (params : List Value) :
    .value v :: params = placed params ++ List.replicate n (.value v) ↔
      hasLower params = false ∧ n = 1 ∧ ∀ p ∈ params, p = .value v := by
  constructor
  · intro h
    have hplaced := congrArg (fun xs => (placed xs).length) h
    have hleft : placed (.value v :: params) = .value v :: placed params := rfl
    have hvalues : placed (List.replicate n (.value v : Value)) = List.replicate n (.value v) := by
      simp [placed, Bound.isLower]
    simp only [hleft, placed_append, placed_placed, hvalues, List.length_cons, List.length_append,
      List.length_replicate] at hplaced
    have hn : n = 1 := by omega
    have hlength := congrArg List.length h
    simp only [List.length_cons, List.length_append, List.length_replicate] at hlength
    have hself := placed_of_length params (by omega)
    rw [hself, hn] at h
    exact ⟨(placed_eq_self_iff params).mp hself, hn, (cons_eq_append_iff _ params).mp h⟩
  · rintro ⟨hlower, rfl, hall⟩
    rw [(placed_eq_self_iff params).mpr hlower]
    exact (cons_eq_append_iff _ params).mpr hall

theorem distinct_params_iff (start stop : Instant) (n : Nat) (r : Request) (params : List Value) :
    ((if n = 0 then [] else .window start :: .window stop :: r.countsValues) ++ params =
      .window start :: .window stop :: (placed params ++
        (List.replicate n r.countsValues).flatten)) ↔
    hasLower params = false ∧ n ≠ 0 ∧
      ∀ v ∈ r.countsFilter.bind CountsFilter.value, n = 1 ∧ ∀ p ∈ params, p = .value v := by
  by_cases hn : n = 0
  · rw [if_pos hn, hn, List.replicate_zero, List.flatten_nil, List.append_nil, List.nil_append]
    have hne := window_params_ne start stop params
    simp [hne]
  · rw [if_neg hn, List.cons_append, List.cons_append, List.cons.injEq, List.cons.injEq]
    unfold Request.countsValues
    cases hvalue : r.countsFilter.bind CountsFilter.value with
    | none =>
      have hself := placed_eq_self_iff params
      simp [hn, ← hself, eq_comm]
    | some v =>
      have hcounted := counted_params_iff v n params
      have hflatten : (List.replicate n [(.value v : Value)]).flatten =
          List.replicate n (.value v) := by
        simp
      simp only [Option.map_some, Option.toList_some, List.cons_append, List.nil_append, hflatten,
        hcounted, true_and, Option.mem_def, Option.some.injEq, forall_eq']
      tauto

/-! ## All events -/

/-- The parameters of the query engine, and those that its placeholders stand for. -/
def Request.engineParams (r : Request) : List Value :=
  (r.plan.extractAllParams parser).map .engine

def Request.engineMarks (r : Request) : List Value :=
  (Plans.marks (r.plan.tokens parser)).map .engine

/-- A list among the parameters is one of those that the placeholders stand for. -/
theorem isList_engineParams (r : Request) (h : ∀ p ∈ r.engineMarks parser, isList p = false)
    (p : Value) (hp : p ∈ r.engineParams parser) : isList p = false := by
  obtain ⟨param, hparam, rfl⟩ := List.mem_map.mp hp
  obtain ⟨a, rfl⟩ | hmark := r.plan.placed parser param hparam
  · rfl
  · exact h _ (List.mem_map.mpr ⟨param, hmark, rfl⟩)

theorem engine_params_iff (r : Request) (n : Nat) :
    (List.replicate n (r.engineParams parser ++ r.countsValues)).flatten.flatMap flattenValue =
      (List.replicate n (r.engineMarks parser ++ r.countsValues)).flatten ↔
    n = 0 ∨ r.engineParams parser = r.engineMarks parser ∧
      ∀ p ∈ r.engineMarks parser ++ r.countsValues, isList p = false := by
  rw [flatMap_replicate]
  by_cases hn : n = 0
  · simp [hn]
  · constructor
    · intro h
      have heq := flatten_replicate_inj n _ _ hn h
      have hmarks : ∀ p ∈ r.engineMarks parser ++ r.countsValues, isList p = false := by
        intro p hp
        rw [← heq] at hp
        obtain ⟨q, -, hq⟩ := List.mem_flatMap.mp hp
        exact isList_flattenValue q p hq
      have hparams : ∀ p ∈ r.engineParams parser ++ r.countsValues, isList p = false := by
        rw [List.forall_mem_append] at hmarks ⊢
        exact ⟨isList_engineParams parser r hmarks.1, hmarks.2⟩
      rw [flatMap_flattenValue _ hparams] at heq
      exact .inr ⟨List.append_cancel_right heq, hmarks⟩
    · rintro (hzero | ⟨heq, hmarks⟩)
      · exact absurd hzero hn
      · rw [heq, flatMap_flattenValue _ hmarks]

/-! ## The condition -/

/-- When the parameters of a request are bound as they are meant. With distinct resources: no
`tag` in a subquery, at least one value to summarize by, and without a counts filter or with one
value and no other parameters than its own. Otherwise: the query engine has its parameters in
order, and none of them nor that of the counts filter is a list. -/
def Request.Bindable (r : Request) : Prop :=
  match r.distinctResources with
  | some _ => r.query.tagged .event = false ∧ splitCommas r.summarizeBy ≠ [] ∧
      ∀ v ∈ r.countsFilter.bind CountsFilter.value, (splitCommas r.summarizeBy).length = 1 ∧
        ∀ c, compileTerm readers .event r.query = some c → ∀ p ∈ c.params, p = (.value v : Value)
  | none => splitCommas r.summarizeBy = [] ∨ (r.plan.bound = true ∧ r.plan.ordered = true) ∧
      ∀ p ∈ r.engineMarks parser ++ r.countsValues, isList p = false

theorem engineParams_eq_iff (r : Request) :
    r.engineParams parser = r.engineMarks parser ↔
      r.plan.extractAllParams parser = Plans.marks (r.plan.tokens parser) := by
  have hinj : Function.Injective (Bound.engine : Plans.Param Json → Value) :=
    fun _ _ h => Bound.engine.inj h
  exact (List.map_injective_iff.mpr hinj).eq_iff

/-- The union for distinct resources. -/
theorem aggregate_distinct (r : Request) (start stop : Instant)
    (hdistinct : r.distinctResources = some (start, stop)) (a : Aggregate) (params : List Value)
    (h : aggregateEventCounts storeCorrectiveChange readers parser r = some (a, params)) :
    ∃ c, compileTerm readers .event r.query = some c ∧
      a.latest = latestEvents start stop c.condition c.latestReportClause ∧
      List.Forall₂ (fun s e => Member storeCorrectiveChange r s e ∧ e.select = distinctSelect)
        (splitCommas r.summarizeBy) a.members ∧
      params = (if (splitCommas r.summarizeBy).length = 0 then []
        else .window start :: .window stop :: r.countsValues) ++ c.params := by
  obtain ⟨compiled, hcompiled, h⟩ := Option.bind_eq_some_iff.mp h
  obtain ⟨c, hc, h⟩ := Option.bind_eq_some_iff.mp h
  rw [hdistinct] at h hcompiled
  obtain ⟨rfl, rfl⟩ := Prod.mk.inj (Option.some.inj h)
  have hall := forall₂_of_mapM _ _ _ hcompiled
  have hmembers : List.Forall₂ (fun s x => (Member storeCorrectiveChange r s x.1 ∧
      x.1.select = distinctSelect) ∧ x.2 = .window start :: .window stop :: r.countsValues)
      (splitCommas r.summarizeBy) compiled := by
    apply hall.imp
    intro s x hx
    obtain ⟨eventParams, hevents, hcountBy, hgroupBy, hfilter, hsummarize, hx⟩ :=
      eventCounts_spec storeCorrectiveChange readers parser true _ r s x hx
    simp only [eventsSql, hdistinct, Option.isSome_some, if_true, compileTerm] at hevents
    obtain ⟨hlatest, hparts⟩ := Prod.mk.inj (Option.some.inj hevents)
    obtain ⟨hselect, rfl⟩ := Prod.mk.inj hparts
    have hmember : Member storeCorrectiveChange r s x.1 :=
      ⟨hcountBy, hgroupBy, hfilter, hsummarize, hlatest.symm⟩
    exact ⟨⟨hmember, hselect.symm⟩, by
      rw [hx, Member.filterMarks storeCorrectiveChange r s x.1 hmember]
      rfl⟩
  refine ⟨c, hc, rfl, ?_, ?_⟩
  · rw [List.forall₂_map_right_iff]
    exact hmembers.imp fun _ _ hx => hx.1
  · generalize splitCommas r.summarizeBy = summaries at hmembers
    cases hmembers with
    | nil => rfl
    | cons hx hrest => simp [hx.2]

/-- The union for all events. -/
theorem aggregate_all (r : Request) (hdistinct : r.distinctResources = none) (a : Aggregate)
    (params : List Value)
    (h : aggregateEventCounts storeCorrectiveChange readers parser r = some (a, params)) :
    a.latest = [] ∧ List.Forall₂ (fun s e => Member storeCorrectiveChange r s e ∧
        e.select = (r.plan.tokens parser).map ofToken) (splitCommas r.summarizeBy) a.members ∧
      params = (List.replicate (splitCommas r.summarizeBy).length
        (r.engineParams parser ++ r.countsValues)).flatten.flatMap flattenValue := by
  obtain ⟨compiled, hcompiled, h⟩ := Option.bind_eq_some_iff.mp h
  obtain ⟨c, -, h⟩ := Option.bind_eq_some_iff.mp h
  rw [hdistinct] at h hcompiled
  obtain ⟨rfl, rfl⟩ := Prod.mk.inj (Option.some.inj h)
  have hall := forall₂_of_mapM _ _ _ hcompiled
  have hmembers : List.Forall₂ (fun s x => (Member storeCorrectiveChange r s x.1 ∧
      x.1.select = (r.plan.tokens parser).map ofToken) ∧
      x.2 = r.engineParams parser ++ r.countsValues) (splitCommas r.summarizeBy) compiled := by
    apply hall.imp
    intro s x hx
    obtain ⟨eventParams, hevents, hcountBy, hgroupBy, hfilter, hsummarize, hx⟩ :=
      eventCounts_spec storeCorrectiveChange readers parser true _ r s x hx
    simp only [eventsSql, hdistinct] at hevents
    obtain ⟨hlatest, hparts⟩ := Prod.mk.inj (Option.some.inj hevents)
    obtain ⟨hselect, rfl⟩ := Prod.mk.inj hparts
    have hmember : Member storeCorrectiveChange r s x.1 :=
      ⟨hcountBy, hgroupBy, hfilter, hsummarize, hlatest.symm⟩
    exact ⟨⟨hmember, hselect.symm⟩, by
      rw [hx, Member.filterMarks storeCorrectiveChange r s x.1 hmember]
      rfl⟩
  refine ⟨rfl, ?_, ?_⟩
  · rw [List.forall₂_map_right_iff]
    exact hmembers.imp fun _ _ hx => hx.1
  · generalize splitCommas r.summarizeBy = summaries at hmembers ⊢
    cases hmembers with
    | nil => rfl
    | cons hx hrest => simp [hx.2]

theorem marks_distinctSelect : Placeholders.marks distinctSelect = [] := rfl

/-- The placeholders of the union for distinct resources. -/
theorem marks_distinct (r : Request) (start stop : Instant) (a : Aggregate)
    (c : Compiled (Plans.Param Json)) (hc : compileTerm readers .event r.query = some c)
    (hlatest : a.latest = latestEvents start stop c.condition c.latestReportClause)
    (hmembers : List.Forall₂ (fun s e => Member storeCorrectiveChange r s e ∧
      e.select = distinctSelect) (splitCommas r.summarizeBy) a.members) :
    Placeholders.marks (a.sql storeCorrectiveChange) =
      .window start :: .window stop :: (placed c.params ++
        (List.replicate (splitCommas r.summarizeBy).length r.countsValues).flatten) := by
  rw [Aggregate.marks_sql, hlatest,
    marks_latestEvents start stop c (inOrder_compileTerm readers .event r.query c hc)
      (plainClause_compileTerm readers .event r.query c hc),
    marks_members storeCorrectiveChange r distinctSelect _ _ hmembers, marks_distinctSelect,
    List.nil_append]
  rfl

theorem marks_all (r : Request) (a : Aggregate) (hlatest : a.latest = [])
    (hmembers : List.Forall₂ (fun s e => Member storeCorrectiveChange r s e ∧
      e.select = (r.plan.tokens parser).map ofToken) (splitCommas r.summarizeBy) a.members) :
    Placeholders.marks (a.sql storeCorrectiveChange) =
      (List.replicate (splitCommas r.summarizeBy).length
        (r.engineMarks parser ++ r.countsValues)).flatten := by
  rw [Aggregate.marks_sql, hlatest, marks_members storeCorrectiveChange r _ _ _ hmembers,
    marks_ofToken]
  rfl

/-- A union of members that come from single queries has the rows of the claim. -/
theorem bindsInOrder_of_members (r : Request) (a : Aggregate) (params : List Value)
    (hparams : params = Placeholders.marks (a.sql storeCorrectiveChange))
    (hrows : ∀ db, List.Forall₂ (fun summarizeBy row => ∃ single singleParams counts,
      eventCounts storeCorrectiveChange readers parser false r.query r summarizeBy =
        some (single, singleParams) ∧
      single.run storeCorrectiveChange db singleParams = some counts ∧
      row = aggregateRow storeCorrectiveChange summarizeBy counts) (splitCommas r.summarizeBy)
      (a.members.map (a.memberRow storeCorrectiveChange db))) :
    BindsInOrder storeCorrectiveChange readers parser r a params := by
  constructor
  · exact hparams
  · intro db
    have hrun := a.run_marks storeCorrectiveChange db
    rw [← hparams] at hrun
    exact ⟨_, hrun, hrows db⟩

theorem distinct_inOrder (r : Request) (start stop : Instant)
    (hdistinct : r.distinctResources = some (start, stop)) (a : Aggregate) (params : List Value)
    (h : aggregateEventCounts storeCorrectiveChange readers parser r = some (a, params)) :
    BindsInOrder storeCorrectiveChange readers parser r a params ↔ r.Bindable readers parser := by
  obtain ⟨c, hc, hlatest, hmembers, rfl⟩ :=
    aggregate_distinct storeCorrectiveChange readers parser r start stop hdistinct a params h
  have hmarks := marks_distinct storeCorrectiveChange readers r start stop a c hc hlatest hmembers
  have hiff := distinct_params_iff start stop (splitCommas r.summarizeBy).length r c.params
  rw [← hmarks, lower_compileTerm readers .event r.query c hc] at hiff
  have hbindable : r.Bindable readers parser ↔ r.query.tagged .event = false ∧
      (splitCommas r.summarizeBy).length ≠ 0 ∧ ∀ v ∈ r.countsFilter.bind CountsFilter.value,
        (splitCommas r.summarizeBy).length = 1 ∧ ∀ p ∈ c.params, p = .value v := by
    simp only [Request.Bindable, hdistinct, hc, Option.some.injEq, forall_eq', ne_eq,
      List.length_eq_zero_iff]
  rw [hbindable, ← hiff]
  constructor
  · exact fun h => h.1
  · intro hparams
    apply bindsInOrder_of_members storeCorrectiveChange readers parser r a _ hparams
    intro db
    have hlower : hasLower c.params = false := by
      rw [lower_compileTerm readers .event r.query c hc]
      exact (hiff.mp hparams).1
    have hevents : eventsSql readers parser false r.query r =
        some (a.latest, distinctSelect, .window start :: .window stop :: c.params) := by
      simp [eventsSql, hdistinct, hc, hlatest]
    apply rows_members storeCorrectiveChange readers parser r a db distinctSelect _ _ _ hmembers
      hevents
    rw [hlatest, marks_latestEvents start stop c (inOrder_compileTerm readers .event r.query c hc)
      (plainClause_compileTerm readers .event r.query c hc), (placed_eq_self_iff c.params).mpr hlower,
      marks_distinctSelect, List.append_nil]

theorem all_inOrder (r : Request) (hdistinct : r.distinctResources = none) (a : Aggregate)
    (params : List Value)
    (h : aggregateEventCounts storeCorrectiveChange readers parser r = some (a, params)) :
    BindsInOrder storeCorrectiveChange readers parser r a params ↔
      splitCommas r.summarizeBy = [] ∨
        r.plan.extractAllParams parser = Plans.marks (r.plan.tokens parser) ∧
        ∀ p ∈ r.engineMarks parser ++ r.countsValues, isList p = false := by
  obtain ⟨hlatest, hmembers, rfl⟩ :=
    aggregate_all storeCorrectiveChange readers parser r hdistinct a params h
  have hmarks := marks_all storeCorrectiveChange parser r a hlatest hmembers
  have hiff := engine_params_iff parser r (splitCommas r.summarizeBy).length
  rw [← hmarks, engineParams_eq_iff, List.length_eq_zero_iff] at hiff
  rw [← hiff]
  constructor
  · exact fun h => h.1
  · intro hparams
    apply bindsInOrder_of_members storeCorrectiveChange readers parser r a _ hparams
    intro db
    obtain hnil | ⟨hplan, -⟩ := hiff.mp hparams
    · rw [hnil] at hmembers ⊢
      rw [List.forall₂_nil_left_iff.mp hmembers]
      exact .nil
    · have hevents : eventsSql readers parser false r.query r =
          some (a.latest, (r.plan.tokens parser).map ofToken, r.engineParams parser) := by
        simp [eventsSql, hdistinct, hlatest, Request.engineParams]
      apply rows_members storeCorrectiveChange readers parser r a db _ _ _ _ hmembers hevents
      rw [(engineParams_eq_iff parser r).mpr hplan, hlatest, marks_ofToken]
      rfl

/-- The parameters of an accepted request are bound as they are meant where the request is
bindable; and only there, if no parameter of one part of the plan is one of another. -/
theorem aggregateEventCounts_bindsInOrder (r : Request) (a : Aggregate) (params : List Value)
    (h : aggregateEventCounts storeCorrectiveChange readers parser r = some (a, params)) :
    (r.Bindable readers parser → BindsInOrder storeCorrectiveChange readers parser r a params) ∧
    ((r.distinctResources = none → r.plan.Separate parser) →
      (BindsInOrder storeCorrectiveChange readers parser r a params ↔
        r.Bindable readers parser)) := by
  cases hdistinct : r.distinctResources with
  | some window =>
    have hiff := distinct_inOrder storeCorrectiveChange readers parser r window.1 window.2
      hdistinct a params h
    exact ⟨hiff.mpr, fun _ => hiff⟩
  | none =>
    have hiff := all_inOrder storeCorrectiveChange readers parser r hdistinct a params h
    have hbindable : r.Bindable readers parser ↔ splitCommas r.summarizeBy = [] ∨
        (r.plan.bound = true ∧ r.plan.ordered = true) ∧
        ∀ p ∈ r.engineMarks parser ++ r.countsValues, isList p = false := by
      simp only [Request.Bindable, hdistinct]
    have hparams : r.plan.bound = true ∧ r.plan.ordered = true →
        r.plan.extractAllParams parser = Plans.marks (r.plan.tokens parser) :=
      fun h => r.plan.params_of_ordered parser h.1 h.2
    rw [hbindable, hiff]
    constructor
    · exact Or.imp_right (And.imp_left hparams)
    · intro hseparate
      have hordered := r.plan.ordered_of_params parser (hseparate rfl)
      exact or_congr_right (and_congr_left fun _ => ⟨hordered, hparams⟩)

/-- Readers of nothing. -/
def noReaders : Readers := ⟨fun _ => none, fun _ => none⟩

def noFields : FieldParser := ⟨fun s => [s], fun _ => []⟩

/-- The distinct resources with one failure, by node and by resource. -/
def failuresByNodeAndResource : Request where
  query := .empty
  plan := ⟨ReportEvents.reportEventsQuery Json, none⟩
  summarizeBy := "certname,resource"
  countsFilter := some (.equal "failures" (.int 1))
  countBy := none
  distinctResources := some (0, 10)

/-- The failed events, by node and by resource. -/
def failedEvents : Request where
  query := .equal (.field "status") (.str "failure")
  plan := ⟨ReportEvents.reportEventsQuery Json, some (.binary "="
    (ReportEvents.projection .string (ReportEvents.bare "status")) (.str "failure"))⟩
  summarizeBy := "certname,resource"
  countsFilter := some (.equal "failures" (.int 1))
  countBy := none
  distinctResources := none

theorem aggregateEventCounts_bindsInOrder_failedEvents : ∃ a params,
    aggregateEventCounts false noReaders noFields failedEvents = some (a, params) ∧
      BindsInOrder false noReaders noFields failedEvents a params := by
  have haccepted : (aggregateEventCounts false noReaders noFields failedEvents).isSome = true := by
    decide
  obtain ⟨⟨a, params⟩, h⟩ := Option.isSome_iff_exists.mp haccepted
  have hlists : ∀ p ∈ failedEvents.engineMarks noFields ++ failedEvents.countsValues,
      isList p = false := by
    decide
  have hbindable : failedEvents.Bindable noReaders noFields :=
    .inr ⟨⟨by decide, by decide⟩, hlists⟩
  exact ⟨a, params, h,
    (aggregateEventCounts_bindsInOrder false noReaders noFields failedEvents a params h).1 hbindable⟩

/-- Three parameters for four placeholders: the counts filter of the second member has none. -/
theorem bindsInOrder_fails : ∃ a params,
    aggregateEventCounts false noReaders noFields failuresByNodeAndResource = some (a, params) ∧
      ¬ BindsInOrder false noReaders noFields failuresByNodeAndResource a params := by
  have hlengths : (aggregateEventCounts false noReaders noFields failuresByNodeAndResource).map
      (fun x => (x.2.length, (Placeholders.marks (x.1.sql false)).length)) = some (3, 4) := by
    decide
  obtain ⟨⟨a, params⟩, h, hpair⟩ := Option.map_eq_some_iff.mp hlengths
  obtain ⟨hparams, hmarks⟩ := Prod.mk.inj hpair
  refine ⟨a, params, h, fun hbinds => ?_⟩
  have hlength := congrArg List.length hbinds.1
  rw [hparams, hmarks] at hlength
  cases hlength

end OpenVoxDB.EventCounts
