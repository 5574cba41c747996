import Mathlib
import OpenVoxDB.JoinDropping
import OpenVoxDB.LeftJoins
import OpenVoxDB.Truth

/-!
# Rows without the unused joins

The rows of a query on an entity, from the tables that it selects from and the joins in their
order, and the names that are left without the joins that it does not need.
-/

namespace OpenVoxDB.JoinRows

open Plans Entities JoinDropping LeftJoins

/-- The rows of the tables, and what SQL makes of them. Under the name of a table there is a row,
or none where a left join found none. -/
structure Database (V R Val : Type) where
  rows : Table → List R
  factRows : V → List R
  on : Sql → (String → Option R) → Bool
  value : Field → (String → Option R) → Val
  holds : Plan V → (String → Option R) → Truth
  callValue : FnExpression → List Val → Val

mutual

/-- A filter, by what its conditions are. -/
def truthOf {V : Type} (holds : Plan V → Truth) : Plan V → Truth
  | .and clauses => Truth.all (truthsOf holds clauses)
  | .or clauses => Truth.any (truthsOf holds clauses)
  | .not clause => (truthOf holds clause).not
  | plan => holds plan

def truthsOf {V : Type} (holds : Plan V → Truth) : List (Plan V) → List Truth
  | [] => []
  | clause :: clauses => truthOf holds clause :: truthsOf holds clauses

end

/-- Filters that nothing passes, whatever their conditions are. -/
def Contradictory {V : Type} (filter : Option (Plan V)) : Prop :=
  ∀ holds : Plan V → Truth, (filter.all fun plan => truthOf holds plan == .yes) = false

/-- The names of the tables that a query selects from. -/
def sources {V : Type} (query : QueryRec V) : List String :=
  match query.selection.source with
  | .tables items => items.map Table.name
  | .factNamed _ => ["fs"]

def joinNames {V : Type} (query : QueryRec V) : List String :=
  query.selection.joins.map fun j => j.table.name

/-- The tables that the SQL of a query names outside of its subqueries. -/
def referenced {V : Type} (query : QueryRec V) (filter : Option (Plan V)) : List String :=
  (includeProjectionDependencies query.projections query.projected).flatMap
      (fun p => p.2.field.tables) ++
    query.groupBy.flatMap Field.tables ++
    query.call.flatMap (fun call => call.column.tables) ++
    (filter.toList.flatMap (columnsOf query.projections)).flatMap (fun c => c.field.tables) ++
    query.selection.whereSql.toList.flatMap Sql.tables ++
    query.selection.joins.flatMap fun j => j.on.tables

namespace Database

variable {V R Val : Type} (db : Database V R Val)

def sourceRows : FromTables V → List (String → Option R)
  | .tables items =>
    items.foldl (fun envs table =>
      envs.flatMap fun env => (db.rows table).map fun r => Function.update env table.name (some r))
      [fun _ => none]
  | .factNamed name =>
    (db.factRows name).map fun r => Function.update (fun _ => none) "fs" (some r)

def step (j : Join) : Step String R where
  outer := j.kind == .leftJoin
  name := j.table.name
  rows := db.rows j.table
  on := db.on j.on

def joined (query : QueryRec V) : List (String → Option R) :=
  LeftJoins.run (query.selection.joins.map db.step) (db.sourceRows query.selection.source)

/-- The conditions of a filter, on the rows that are there. -/
def conditions (env : String → Option R) (condition : Plan V) : Truth := db.holds condition env

def passes (query : QueryRec V) (filter : Option (Plan V)) (env : String → Option R) : Bool :=
  query.selection.whereSql.all (fun sql => db.on sql env) &&
    filter.all fun plan => truthOf (db.conditions env) plan == .yes

/-- The columns that are selected, those that are grouped by, and those of the calls. -/
def read (query : QueryRec V) (env : String → Option R) : List Val × List Val × List Val :=
  ((includeProjectionDependencies query.projections query.projected).map
      fun p => db.value p.2.field env,
    query.groupBy.map fun field => db.value field env,
    query.call.map fun call => db.value call.column env)

/-- The row of a group: the calls on all of it, and the columns of its first. -/
def groupRow (query : QueryRec V) (group : List (List Val × List Val × List Val)) : List Val :=
  query.call.zipIdx.map (fun call =>
    db.callValue call.1 (group.filterMap fun row => row.2.2[call.2]?)) ++
    (group.head?.map Prod.fst).getD []

/-- The rows of a query. Calls are taken as aggregates. -/
def result [DecidableEq Val] (query : QueryRec V) (filter : Option (Plan V)) : List (List Val) :=
  let rows := ((db.joined query).filter (db.passes query filter)).map (db.read query)
  if query.groupBy.isEmpty then
    if query.call.isEmpty then rows.map Prod.fst else [db.groupRow query rows]
  else
    (rows.map fun row => row.2.1).dedup.map fun key =>
      db.groupRow query (rows.filter fun row => row.2.1 = key)

/-- The answer of PostgreSQL, which refuses a query that names a table that is not there. -/
def answer [DecidableEq Val] (query : QueryRec V) (filter : Option (Plan V)) :
    Option (List (List Val)) :=
  if ∀ t ∈ referenced query filter, t ∈ sources query ∨ t ∈ joinNames query then
    some (db.result query filter)
  else none

/-- SQL reads the tables that it names. Columns without a table are of those selected from. -/
structure Lawful (query : QueryRec V) : Prop where
  on : ∀ sql : Sql, DependsOn (db.on sql) {t | t ∈ sql.tables ∨ t ∈ sources query}
  value : ∀ field : Field, DependsOn (db.value field) {t | t ∈ field.tables ∨ t ∈ sources query}
  holds : ∀ plan : Plan V, DependsOn (db.holds plan)
    {t | (∃ c ∈ conditionColumns query.projections plan, t ∈ c.field.tables) ∨ t ∈ sources query}

/-- The right side of a left join has one match at most. -/
def Constrained (query : QueryRec V) : Prop :=
  ∀ j ∈ query.selection.joins, j.kind = .leftJoin → ∀ env,
    ((db.step j).matching env).length ≤ 1

end Database

/-! ## The entities -/

/-- The parts of an entity that do not depend on the values of a query. -/
structure Parts where
  projections : List (String × Column)
  joins : List Join
  whereSql : Option Sql
  sources : List String

def parts {V : Type} (e : QueryRec V) : Parts :=
  ⟨e.projections, e.selection.joins, e.selection.whereSql, sources e⟩

/-- What the join dependencies of an entity are to say: columns are from their tables, and tables
that are joined to others bring those. The expiration of facts does not. -/
structure Sound (p : Parts) : Prop where
  covered : ∀ c ∈ p.projections, ∀ t ∈ c.2.field.tables, t ∈ Column.needs c.2 ∨ t ∈ p.sources
  depends : ∀ c ∈ p.projections, ∀ d ∈ c.2.depends, ∀ c' ∈ (p.projections.lookup d).toList,
    ∀ t ∈ c'.field.tables, t ∈ Column.needs c.2 ∨ t ∈ p.sources
  known : ∀ c ∈ p.projections, ∀ t ∈ c.2.field.tables,
    t ∈ p.sources ∨ t ∈ p.joins.map fun j => j.table.name
  closed : ∀ j ∈ p.joins, ∀ t ∈ j.on.tables, t = j.table.name ∨ t ∈ p.sources ∨
    (∀ c ∈ p.projections, j.table.name ∈ Column.needs c.2 → t ∈ Column.needs c.2) ∨
    j.table.name = "certname_fact_expiration" ∧ t = "certnames"
  onKnown : ∀ j ∈ p.joins, ∀ t ∈ j.on.tables,
    t ∈ p.sources ∨ t ∈ p.joins.map fun j => j.table.name
  inner : ∀ j ∈ p.joins, j.kind ≠ .innerJoin ∧ (j.kind = .join → ∀ t ∈ j.on.tables,
    t ∈ p.sources ∨ ∃ j' ∈ p.joins, j'.kind = .join ∧ j'.table.name = t)
  expiration : ∀ c ∈ p.projections, "certname_fact_expiration" ∈ Column.needs c.2 →
    (∃ j ∈ p.joins, j.table.name = "certname_fact_expiration" ∧ "certnames" ∈ j.on.tables) ∧
      "certnames" ∉ p.sources ∧ ∀ j ∈ p.joins, j.kind = .leftJoin
  whereSql : ∀ sql ∈ p.whereSql.toList, ∀ t ∈ sql.tables, t ∈ p.sources
  apart : ∀ j ∈ p.joins, j.table.name ∉ p.sources
  coalesced : ∀ j ∈ p.joins, j.table.name ≠ "factsets"
  distinct : (p.joins.map fun j => j.table.name).Nodup

theorem columns_sound : ∀ p ∈ (optedIn Unit).map parts,
    (∀ c ∈ p.projections, ∀ t ∈ c.2.field.tables, t ∈ Column.needs c.2 ∨ t ∈ p.sources) ∧
    (∀ c ∈ p.projections, ∀ d ∈ c.2.depends, ∀ c' ∈ (p.projections.lookup d).toList,
      ∀ t ∈ c'.field.tables, t ∈ Column.needs c.2 ∨ t ∈ p.sources) ∧
    (∀ c ∈ p.projections, ∀ t ∈ c.2.field.tables,
      t ∈ p.sources ∨ t ∈ p.joins.map fun j => j.table.name) := by
  decide +kernel

theorem on_sound : ∀ p ∈ (optedIn Unit).map parts,
    (∀ j ∈ p.joins, ∀ t ∈ j.on.tables, t = j.table.name ∨ t ∈ p.sources ∨
      (∀ c ∈ p.projections, j.table.name ∈ Column.needs c.2 → t ∈ Column.needs c.2) ∨
      j.table.name = "certname_fact_expiration" ∧ t = "certnames") ∧
    (∀ j ∈ p.joins, ∀ t ∈ j.on.tables,
      t ∈ p.sources ∨ t ∈ p.joins.map fun j => j.table.name) ∧
    (∀ j ∈ p.joins, j.kind ≠ .innerJoin ∧ (j.kind = .join → ∀ t ∈ j.on.tables,
      t ∈ p.sources ∨ ∃ j' ∈ p.joins, j'.kind = .join ∧ j'.table.name = t)) := by
  decide +kernel

theorem expiration_sound : ∀ p ∈ (optedIn Unit).map parts,
    ∀ c ∈ p.projections, "certname_fact_expiration" ∈ Column.needs c.2 →
      (∃ j ∈ p.joins, j.table.name = "certname_fact_expiration" ∧ "certnames" ∈ j.on.tables) ∧
        "certnames" ∉ p.sources ∧ ∀ j ∈ p.joins, j.kind = .leftJoin := by
  decide +kernel

theorem names_sound : ∀ p ∈ (optedIn Unit).map parts,
    (∀ sql ∈ p.whereSql.toList, ∀ t ∈ sql.tables, t ∈ p.sources) ∧
    (∀ j ∈ p.joins, j.table.name ∉ p.sources ∧ j.table.name ≠ "factsets") ∧
    (p.joins.map fun j => j.table.name).Nodup := by
  decide +kernel

theorem optedIn_sound {V : Type} (e : QueryRec V) (he : OptsIn e) : Sound (parts e) := by
  have hsame : (optedIn V).map parts = (optedIn Unit).map parts := rfl
  have hmem : parts e ∈ (optedIn Unit).map parts := by
    rw [← hsame]
    cases he with
    | inl he => exact List.mem_map_of_mem he
    | inr he =>
      obtain ⟨name, rfl⟩ := he
      have hfacts : factsQuery V ∈ optedIn V := by simp [optedIn]
      have hparts : parts (factsQuery V) ∈ (optedIn V).map parts := List.mem_map_of_mem hfacts
      exact hparts
  obtain ⟨hcovered, hdepends, hknown⟩ := columns_sound _ hmem
  obtain ⟨hclosed, honKnown, hinner⟩ := on_sound _ hmem
  obtain ⟨hwhere, hnames, hdistinct⟩ := names_sound _ hmem
  exact ⟨hcovered, hdepends, hknown, hclosed, honKnown, hinner, expiration_sound _ hmem, hwhere,
    fun j hj => (hnames j hj).1, fun j hj => (hnames j hj).2, hdistinct⟩

/-! ## What is read -/

variable {V : Type} (names : String → List String) {e query : QueryRec V}
  {filter : Option (Plan V)}

/-- The tables that a query reads, and those of inner joins that a call keeps. -/
def kept (query : QueryRec V) (filter : Option (Plan V)) : Set String :=
  {t | t ∈ sources query ∨ t ∈ neededTables query filter ∨
    ∃ j ∈ query.selection.joins, joinKey query j.kind = false ∧ j.table.name = t}

/-- What an extract takes from its entity. -/
structure ExtractOf (e query : QueryRec V) : Prop where
  projections : query.projections = e.projections
  selection : query.selection = e.selection
  selected : ∀ p ∈ query.projectedFields, Selected names e.projections p
  calls : ∀ call ∈ query.call,
    (call.column.tables = [] ∧ ∀ t ∈ call.joinDeps, t = "factsets") ∨
      ∃ p ∈ e.projections, call.column = p.2.field ∧ call.joinDeps = Column.needs p.2
  groups : ∀ field ∈ query.groupBy,
    field.tables = [] ∨ ∃ p ∈ e.projections, field = p.2.field

theorem call_createFnexpression (query : QueryRec V) (function : String) (args : List Arg)
    (call : FnExpression)
    (h : createFnexpression function (args.map (coalesceFactValues query)) = some call) :
    (call.column.tables = [] ∧ ∀ t ∈ call.joinDeps, t = "factsets") ∨
      ∃ p ∈ query.projections, call.column = p.2.field ∧ call.joinDeps = Column.needs p.2 := by
  cases args with
  | nil =>
    obtain ⟨g, -, rfl⟩ := Option.map_eq_some_iff.mp h
    exact .inl ⟨rfl, fun t ht => absurd ht List.not_mem_nil⟩
  | cons first rest =>
    rw [List.map_cons, createFnexpression] at h
    obtain ⟨g, -, h⟩ := Option.bind_eq_some_iff.mp h
    obtain ⟨params, -, h⟩ := Option.bind_eq_some_iff.mp h
    cases hfirst : coalesceFactValues query first with
    | literal a =>
      rw [hfirst] at h
      obtain rfl := Option.some.inj h
      exact .inl ⟨rfl, fun t ht => absurd ht List.not_mem_nil⟩
    | column field joinDeps =>
      rw [hfirst] at h
      obtain rfl := Option.some.inj h
      cases first with
      | text col =>
        rw [coalesceFactValues] at hfirst
        split at hfirst
        · cases hfirst
          exact .inl ⟨rfl, fun t ht => List.mem_singleton.mp ht⟩
        · split at hfirst
          · next column hcolumn =>
            cases hfirst
            exact .inr ⟨_, mem_of_lookup_column _ _ _ hcolumn, rfl, rfl⟩
          · cases hfirst
      | number n => cases hfirst
      | boolean b => cases hfirst
      | null => cases hfirst

theorem group_groupByEntryToSqlField (parser : FieldParser) (query : QueryRec V) (entry : String)
    (field : Field) (h : groupByEntryToSqlField parser query entry = some field) :
    field.tables = [] ∨ ∃ p ∈ query.projections, field = p.2.field := by
  rw [groupByEntryToSqlField] at h
  split at h
  · obtain rfl := Option.some.inj h
    exact .inl rfl
  · split at h
    · next column hcolumn =>
      obtain rfl := Option.some.inj h
      exact .inr ⟨_, mem_of_lookup_column _ _ _ hcolumn, rfl⟩
    · split at h
      · obtain rfl := Option.some.inj h
        exact .inl rfl
      · cases h

theorem extractOf_queryOn (h : QueryOn names e query) : ExtractOf names e query := by
  obtain ⟨columns, entries, groupBy, subquery, hgroupBy, hextract⟩ := h.extract
  rw [QueryRec.createExtractNode] at hextract
  obtain ⟨call, hcall, hextract⟩ := Option.bind_eq_some_iff.mp hextract
  obtain ⟨projectedFields, hfields, hextract⟩ := Option.bind_eq_some_iff.mp hextract
  obtain rfl := Option.some.inj hextract
  refine ⟨rfl, rfl, ?_, ?_, ?_⟩
  · intro p hp
    obtain ⟨name, -, hname⟩ := mem_of_mapM _ _ _ hfields p hp
    exact selected_namesToFields names _ name p hname
  · intro c hc
    obtain ⟨made, -, hmade⟩ := mem_of_mapM _ _ _ hcall c hc
    exact call_createFnexpression _ made.1 made.2 c hmade
  · intro field hfield
    obtain ⟨entry, -, hentry⟩ := mem_of_mapM _ _ _ hgroupBy field hfield
    exact group_groupByEntryToSqlField _ _ entry field hentry

/-- Columns of a filter are projections, or paths into them. -/
def FilterOf (e : QueryRec V) (filter : Option (Plan V)) : Prop :=
  ∀ c ∈ filter.toList.flatMap (columnsOf e.projections), Projected e.projections c

/-- The tables of the inner joins are needed, unless a call keeps these. -/
def InnerNeeded (query : QueryRec V) (filter : Option (Plan V)) : Prop :=
  ∀ j ∈ query.selection.joins, j.kind = .join → query.call.isEmpty = true →
    j.table.name ∈ neededTables query filter

/-- The tables of the groups, and of what the expiration of facts is joined to, are kept. -/
structure NamesKept (query : QueryRec V) (filter : Option (Plan V)) : Prop where
  groups : ∀ field ∈ query.groupBy, ∀ t ∈ field.tables, t ∈ kept query filter
  expiration : "certname_fact_expiration" ∈ neededTables query filter →
    "certnames" ∈ neededTables query filter

theorem needs_of_projected (hsound : Sound (parts e)) (column : Column)
    (h : Projected e.projections column) :
    (∀ t ∈ column.field.tables, t ∈ Column.needs column ∨ t ∈ sources e) ∧
      ∀ t ∈ column.field.tables, t ∈ sources e ∨ t ∈ joinNames e := by
  obtain ⟨base, hbase, hdeps, htables⟩ := h
  obtain ⟨p, hp, rfl⟩ := List.mem_map.mp hbase
  rw [htables, Column.needs, hdeps]
  exact ⟨hsound.covered p hp, hsound.known p hp⟩

section Kept

variable (hsound : Sound (parts e)) (hextract : ExtractOf names e query)
  (hfilter : FilterOf e filter)

include hextract in
theorem sources_eq : sources query = sources e := by
  rw [sources, sources, hextract.selection]

include hextract in
theorem joinNames_eq : joinNames query = joinNames e := by
  rw [joinNames, joinNames, hextract.selection]

include hextract hfilter in
/-- A table that is needed is needed by a column of the entity, which needs all of its tables. -/
theorem needed_by (t : String) (h : t ∈ neededTables query filter) : t = "factsets" ∨
    ∃ p ∈ e.projections, t ∈ Column.needs p.2 ∧
      ∀ u ∈ Column.needs p.2, u ∈ neededTables query filter := by
  have hcolumn (column : Column) (hcolumn : Projected e.projections column)
      (ht : t ∈ Column.needs column)
      (hneeded : ∀ u ∈ Column.needs column, u ∈ neededTables query filter) :
      ∃ p ∈ e.projections, t ∈ Column.needs p.2 ∧
        ∀ u ∈ Column.needs p.2, u ∈ neededTables query filter := by
    obtain ⟨base, hbase, hdeps, -⟩ := hcolumn
    obtain ⟨p, hp, rfl⟩ := List.mem_map.mp hbase
    rw [Column.needs, hdeps] at ht hneeded
    exact ⟨p, hp, ht, hneeded⟩
  rw [neededTables, List.mem_append, List.mem_append] at h
  obtain (hp | hc) | hcall := h
  · obtain ⟨p, hp, ht⟩ := List.mem_flatMap.mp hp
    refine .inr (hcolumn p.2 (hextract.selected p (List.mem_filter.mp hp).1).projected ht ?_)
    intro u hu
    exact List.mem_append_left _ (List.mem_append_left _ (List.mem_flatMap.mpr ⟨p, hp, hu⟩))
  · obtain ⟨c, hc, ht⟩ := List.mem_flatMap.mp hc
    refine .inr (hcolumn c (hfilter c (hextract.projections ▸ hc)) ht ?_)
    intro u hu
    exact List.mem_append_left _ (List.mem_append_right _ (List.mem_flatMap.mpr ⟨c, hc, hu⟩))
  · obtain ⟨call, hcall, ht⟩ := List.mem_flatMap.mp hcall
    obtain ⟨-, hdeps⟩ | ⟨p, hp, -, hdeps⟩ := hextract.calls call hcall
    · exact .inl (hdeps t ht)
    · rw [hdeps] at ht
      refine .inr ⟨p, hp, ht, ?_⟩
      intro u hu
      exact List.mem_append_right _ (List.mem_flatMap.mpr ⟨call, hcall, hdeps ▸ hu⟩)

include hsound hextract hfilter in
/-- The joins that are kept are on tables that are kept. -/
theorem on_kept (hexpiration : "certname_fact_expiration" ∈ neededTables query filter →
      "certnames" ∈ neededTables query filter) (j : Join) (hj : j ∈ query.selection.joins)
    (hkept : joinKey query j.kind = false ∨ j.table.name ∈ neededTables query filter) :
    ∀ t ∈ j.on.tables, t ∈ kept query filter := by
  intro t ht
  have hj' : j ∈ e.selection.joins := hextract.selection ▸ hj
  have hsources := sources_eq names hextract
  cases hkept with
  | inl hkey =>
    obtain ⟨hkind, hinner⟩ := hsound.inner j hj'
    cases hjoin : j.kind with
    | leftJoin =>
      rw [hjoin] at hkey
      cases hkey
    | innerJoin => exact absurd hjoin hkind
    | join =>
      cases hinner hjoin t ht with
      | inl h => exact .inl (hsources ▸ h)
      | inr h =>
        obtain ⟨j', hmem, hkind', hname⟩ := h
        have hmem' : j' ∈ query.selection.joins := hextract.selection ▸ hmem
        refine .inr (.inr ⟨j', hmem', ?_, hname⟩)
        rw [hkind', ← hjoin]
        exact hkey
  | inr hneeded =>
    obtain hown | hfrom | hclosed | ⟨hname, hcertnames⟩ := hsound.closed j hj' t ht
    · rw [hown]
      exact .inr (.inl hneeded)
    · exact .inl (hsources ▸ hfrom)
    · cases needed_by names hextract hfilter _ hneeded with
      | inl h => exact absurd h (hsound.coalesced j hj')
      | inr h =>
        obtain ⟨p, hp, hname, hneeds⟩ := h
        exact .inr (.inl (hneeds t (hclosed p hp hname)))
    · rw [hcertnames]
      rw [hname] at hneeded
      exact .inr (.inl (hexpiration hneeded))

include hsound hextract in
/-- The joins that are not kept are left joins under names that are not kept. -/
theorem dropped (hinner : InnerNeeded query filter) (j : Join) (hj : j ∈ query.selection.joins)
    (hkey : joinKey query j.kind = true) (hneeded : j.table.name ∉ neededTables query filter) :
    j.kind = .leftJoin ∧ j.table.name ∉ kept query filter := by
  have hj' : j ∈ e.selection.joins := hextract.selection ▸ hj
  constructor
  · cases hjoin : j.kind with
    | leftJoin => rfl
    | innerJoin => exact absurd hjoin (hsound.inner j hj').1
    | join =>
      rw [hjoin] at hkey
      exact absurd (hinner j hj hjoin hkey) hneeded
  · rintro (hfrom | hin | ⟨j', hmem, hkey', hname⟩)
    · rw [sources_eq names hextract] at hfrom
      exact hsound.apart j hj' hfrom
    · exact hneeded hin
    · have hmem' : j' ∈ e.selection.joins := hextract.selection ▸ hmem
      have hsame : j' = j := List.inj_on_of_nodup_map hsound.distinct hmem' hj' hname
      rw [hsame, hkey] at hkey'
      cases hkey'

include hsound hextract hfilter in
theorem filter_kept (c : Column)
    (hc : c ∈ filter.toList.flatMap (columnsOf query.projections)) :
    ∀ t ∈ c.field.tables, t ∈ kept query filter := by
  intro t ht
  have hprojected := hfilter c (hextract.projections ▸ hc)
  cases (needs_of_projected hsound c hprojected).1 t ht with
  | inl hneeds =>
    refine .inr (.inl (List.mem_append_left _ (List.mem_append_right _ ?_)))
    exact List.mem_flatMap.mpr ⟨c, hc, hneeds⟩
  | inr hfrom => exact .inl (sources_eq names hextract ▸ hfrom)

include hsound hextract in
theorem call_kept (call : FnExpression) (hcall : call ∈ query.call) :
    ∀ t ∈ call.column.tables, t ∈ kept query filter := by
  intro t ht
  obtain ⟨hnone, -⟩ | ⟨p, hp, hfield, hdeps⟩ := hextract.calls call hcall
  · rw [hnone] at ht
    cases ht
  · rw [hfield] at ht
    cases hsound.covered p hp t ht with
    | inl ht =>
      refine .inr (.inl (List.mem_append_right _ (List.mem_flatMap.mpr ⟨call, hcall, ?_⟩)))
      exact hdeps ▸ ht
    | inr ht => exact .inl (sources_eq names hextract ▸ ht)

end Kept

theorem mem_includeProjectionDependencies (projections projected : List (String × Column))
    (p : String × Column) (h : p ∈ includeProjectionDependencies projections projected) :
    p ∈ projected ∨ ∃ q ∈ projected, ∃ d ∈ q.2.depends, p.2 ∈ (projections.lookup d).toList := by
  rw [includeProjectionDependencies] at h
  have hfold (deps : List String) (found : List (String × Column))
      (hp : p ∈ deps.foldl (fun result dep =>
        if (result.map Prod.fst).contains dep then result
        else result ++ (projections.lookup dep).toList.map fun column => (dep, column)) found) :
      p ∈ found ∨ ∃ d ∈ deps, p.2 ∈ (projections.lookup d).toList := by
    induction deps generalizing found with
    | nil => exact .inl hp
    | cons dep deps ih =>
      rw [List.foldl_cons] at hp
      cases ih _ hp with
      | inl hfound =>
        split at hfound
        · exact .inl hfound
        · cases List.mem_append.mp hfound with
          | inl hfound => exact .inl hfound
          | inr hnew =>
            obtain ⟨column, hcolumn, rfl⟩ := List.mem_map.mp hnew
            exact .inr ⟨dep, List.mem_cons_self, hcolumn⟩
      | inr hrest =>
        obtain ⟨d, hd, hcolumn⟩ := hrest
        exact .inr ⟨d, List.mem_cons_of_mem _ hd, hcolumn⟩
  cases hfold _ _ h with
  | inl hfound => exact .inl hfound
  | inr hdep =>
    obtain ⟨d, hd, hcolumn⟩ := hdep
    obtain ⟨q, hq, hd⟩ := List.mem_flatMap.mp hd
    exact .inr ⟨q, hq, d, hd, hcolumn⟩

theorem selected_kept (hsound : Sound (parts e)) (hextract : ExtractOf names e query)
    (hextracted : (query.call.isEmpty && query.projectedFields.isEmpty) = false)
    (p : String × Column)
    (hp : p ∈ includeProjectionDependencies query.projections query.projected) :
    ∀ t ∈ p.2.field.tables, t ∈ kept query filter := by
  have hsources := sources_eq names hextract
  have hneeds (p : String × Column) (hp : p ∈ query.projected) :
      Selected names e.projections p ∧ ∀ t ∈ Column.needs p.2, t ∈ kept query filter := by
    rw [QueryRec.projected, hextracted, if_neg Bool.false_ne_true] at hp
    refine ⟨hextract.selected p (List.mem_filter.mp hp).1, ?_⟩
    intro t ht
    exact .inr (.inl (List.mem_append_left _ (List.mem_append_left _
      (List.mem_flatMap.mpr ⟨p, hp, ht⟩))))
  intro t ht
  cases mem_includeProjectionDependencies _ _ p hp with
  | inl hp =>
    obtain ⟨hselected, hneeds⟩ := hneeds p hp
    cases (needs_of_projected hsound p.2 hselected.projected).1 t ht with
    | inl ht => exact hneeds t ht
    | inr ht => exact .inl (hsources ▸ ht)
  | inr hdep =>
    obtain ⟨q, hq, d, hd, hcolumn⟩ := hdep
    obtain ⟨hselected, hneeds⟩ := hneeds q hq
    cases hselected.depends with
    | inl hnone =>
      rw [hnone] at hd
      cases hd
    | inr hmem =>
      rw [hextract.projections] at hcolumn
      cases hsound.depends q hmem d hd p.2 hcolumn t ht with
      | inl ht => exact hneeds t ht
      | inr ht => exact .inl (hsources ▸ ht)

/-! ## What is dropped -/

theorem isSome_of_mapM {α β : Type} (f : α → Option β) (xs : List α) (ys : List β)
    (h : xs.mapM f = some ys) : ∀ x ∈ xs, ∃ y, f x = some y := by
  induction xs generalizing ys with
  | nil => exact fun x hx => absurd hx List.not_mem_nil
  | cons x xs ih =>
    rw [List.mapM_cons] at h
    obtain ⟨y, hy, htail⟩ := Option.bind_eq_some_iff.mp h
    obtain ⟨rest, hrest, -⟩ := Option.bind_eq_some_iff.mp htail
    exact List.forall_mem_cons.mpr ⟨⟨y, hy⟩, ih rest hrest⟩

/-- What is required is what is needed. -/
theorem mem_required (hextract : ExtractOf names e query) (projReqs whereReqs : List String)
    (hproj : requiredByProjections (fieldParser names) query = some projReqs)
    (hwhere : extractWhereDeps query.projections filter = some whereReqs) (t : String) :
    t ∈ projReqs ++ whereReqs ++ extractFunctionDeps query ↔ t ∈ neededTables query filter := by
  have hprojected : t ∈ projReqs ↔
      t ∈ (query.projectedFields.filter fun p => !p.2.unprojectable).flatMap
        fun p => Column.needs p.2 := by
    obtain ⟨found, hfound, -⟩ := Option.map_eq_some_iff.mp hproj
    rw [mem_mapM_flatten _ _ _ hproj, List.mem_flatMap]
    simp only [List.mem_map, exists_exists_and_eq_and]
    have hdeps (p) (hp : p ∈ query.projectedFields.filter fun p => !p.2.unprojectable) :=
      (hextract.selected p (List.mem_filter.mp hp).1).deps
    apply exists_congr
    intro p
    apply and_congr_right
    intro hp
    obtain ⟨deps, hsome⟩ := isSome_of_mapM _ _ _ hfound p.1 (List.mem_map_of_mem hp)
    rw [hsome]
    rw [hextract.projections] at hsome
    rw [Column.needs, hdeps p hp deps hsome]
  have hfiltered : t ∈ whereReqs ↔
      t ∈ (filter.toList.flatMap (columnsOf query.projections)).flatMap Column.needs := by
    rw [mem_extractWhereDeps _ _ _ hwhere, List.mem_flatMap]
  rw [neededTables, List.mem_append, List.mem_append, List.mem_append, List.mem_append,
    hprojected, hfiltered, extractFunctionDeps]

/-- The query without the joins that it does not need. -/
def without (query : QueryRec V) (filter : Option (Plan V)) : QueryRec V :=
  { query with
    selection := { query.selection with
      joins := query.selection.joins.filter fun j =>
        !joinKey query j.kind || (neededTables query filter).contains j.table.name } }

/-- Where joins are dropped, the query selects columns, and those that it needs are left. -/
theorem dropLocalUnusedJoins_eq (hextract : ExtractOf names e query) (query' : QueryRec V)
    (hdrop : dropLocalUnusedJoinsFromQuery (fieldParser names) query filter = some query')
    (hremoved : query'.selection.joins ≠ query.selection.joins) :
    (query.call.isEmpty && query.projectedFields.isEmpty) = false ∧
      query' = without query filter := by
  rw [dropLocalUnusedJoinsFromQuery] at hdrop
  split at hdrop
  · obtain rfl := Option.some.inj hdrop
    exact absurd rfl hremoved
  · split at hdrop
    · cases hdrop
    · obtain ⟨projReqs, hproj, hdrop⟩ := Option.bind_eq_some_iff.mp hdrop
      split at hdrop
      · obtain rfl := Option.some.inj hdrop
        exact absurd rfl hremoved
      · next hempty =>
        obtain ⟨whereReqs, hwhere, hdrop⟩ := Option.bind_eq_some_iff.mp hdrop
        obtain rfl := Option.some.inj hdrop
        constructor
        · by_contra hplain
          rw [Bool.not_eq_false, Bool.and_eq_true] at hplain
          rw [requiredByProjections, List.isEmpty_iff.mp hplain.2] at hproj
          obtain rfl := Option.some.inj hproj
          exact hempty hplain.1
        · have hrequired (t : String) :
              (projReqs ++ whereReqs ++ extractFunctionDeps query).contains t =
                (neededTables query filter).contains t := by
            rw [Bool.eq_iff_iff, List.contains_iff_mem, List.contains_iff_mem]
            exact mem_required names hextract projReqs whereReqs hproj hwhere t
          rw [without]
          simp only [hrequired]

/-! ## Names -/

/-- The names of the tables of a query. -/
def there (query : QueryRec V) : Set String := {t | t ∈ sources query ∨ t ∈ joinNames query}

theorem mem_there_without (t : String) : t ∈ there (without query filter) ↔
    t ∈ kept query filter ∧ t ∈ there query := by
  have hjoins : t ∈ joinNames (without query filter) ↔ ∃ j ∈ query.selection.joins,
      (joinKey query j.kind = false ∨ j.table.name ∈ neededTables query filter) ∧
        j.table.name = t := by
    simp [joinNames, without, and_assoc]
  constructor
  · rintro (hfrom | hjoin)
    · exact ⟨.inl hfrom, .inl hfrom⟩
    · obtain ⟨j, hj, hkept, rfl⟩ := hjoins.mp hjoin
      refine ⟨?_, .inr (List.mem_map_of_mem hj)⟩
      cases hkept with
      | inl hkey => exact .inr (.inr ⟨j, hj, hkey, rfl⟩)
      | inr hneeded => exact .inr (.inl hneeded)
  · rintro ⟨hkept, hthere⟩
    obtain hfrom | hneeded | ⟨j, hj, hkey, hname⟩ := hkept
    · exact .inl hfrom
    · cases hthere with
      | inl hfrom => exact .inl hfrom
      | inr hjoin =>
        obtain ⟨j, hj, hname⟩ := List.mem_map.mp hjoin
        exact .inr (hjoins.mpr ⟨j, hj, .inr (hname ▸ hneeded), hname⟩)
    · exact .inr (hjoins.mpr ⟨j, hj, .inl hkey, hname⟩)

theorem forall_referenced (P : String → Prop) : (∀ t ∈ referenced query filter, P t) ↔
    (∀ p ∈ includeProjectionDependencies query.projections query.projected,
      ∀ t ∈ p.2.field.tables, P t) ∧
    (∀ field ∈ query.groupBy, ∀ t ∈ field.tables, P t) ∧
    (∀ call ∈ query.call, ∀ t ∈ call.column.tables, P t) ∧
    (∀ c ∈ filter.toList.flatMap (columnsOf query.projections), ∀ t ∈ c.field.tables, P t) ∧
    (∀ sql ∈ query.selection.whereSql.toList, ∀ t ∈ sql.tables, P t) ∧
    ∀ j ∈ query.selection.joins, ∀ t ∈ j.on.tables, P t := by
  have hflat {α : Type} (xs : List α) (f : α → List String) :
      (∀ t ∈ xs.flatMap f, P t) ↔ ∀ x ∈ xs, ∀ t ∈ f x, P t := by
    constructor
    · intro h x hx t ht
      exact h t (List.mem_flatMap.mpr ⟨x, hx, ht⟩)
    · intro h t ht
      obtain ⟨x, hx, ht⟩ := List.mem_flatMap.mp ht
      exact h x hx t ht
  simp only [referenced, List.forall_mem_append, hflat, and_assoc]

section Scope

variable (hsound : Sound (parts e)) (hextract : ExtractOf names e query)
  (hfilter : FilterOf e filter)
  (hextracted : (query.call.isEmpty && query.projectedFields.isEmpty) = false)

include hextract in
theorem there_eq : there query = there e := by
  rw [there, there, sources_eq names hextract, joinNames_eq names hextract]

include hsound hextract hfilter hextracted in
/-- A query on an entity names no table that is not there. -/
theorem referenced_there : ∀ t ∈ referenced query filter, t ∈ there query := by
  rw [there_eq names hextract]
  have hcolumn (p : String × Column) (hp : p ∈ query.projected) :
      Selected names e.projections p := by
    rw [QueryRec.projected, hextracted, if_neg Bool.false_ne_true] at hp
    exact hextract.selected p (List.mem_filter.mp hp).1
  apply (forall_referenced fun t => t ∈ there e).mpr
  refine ⟨?_, ?_, ?_, ?_, ?_, ?_⟩
  · intro p hp t ht
    cases mem_includeProjectionDependencies _ _ p hp with
    | inl hp => exact (needs_of_projected hsound p.2 (hcolumn p hp).projected).2 t ht
    | inr hdep =>
      obtain ⟨q, -, d, -, hlookup⟩ := hdep
      rw [hextract.projections] at hlookup
      have hmem := mem_of_lookup_column _ _ _ (Option.mem_toList.mp hlookup)
      exact hsound.known _ hmem t ht
  · intro field hfield t ht
    cases hextract.groups field hfield with
    | inl hnone =>
      rw [hnone] at ht
      cases ht
    | inr hprojection =>
      obtain ⟨p, hp, rfl⟩ := hprojection
      exact hsound.known p hp t ht
  · intro call hcall t ht
    obtain ⟨hnone, -⟩ | ⟨p, hp, hfield, -⟩ := hextract.calls call hcall
    · rw [hnone] at ht
      cases ht
    · rw [hfield] at ht
      exact hsound.known p hp t ht
  · intro c hc t ht
    exact (needs_of_projected hsound c (hfilter c (hextract.projections ▸ hc))).2 t ht
  · intro sql hsql t ht
    rw [hextract.selection] at hsql
    exact .inl (hsound.whereSql sql hsql t ht)
  · intro j hj t ht
    rw [hextract.selection] at hj
    exact hsound.onKnown j hj t ht

include hsound hextract hfilter hextracted in
/-- What is left names no table that is not there just where the names are kept. -/
theorem referenced_without : (∀ t ∈ referenced (without query filter) filter,
    t ∈ there (without query filter)) ↔ NamesKept query filter := by
  have hthere := (forall_referenced fun t => t ∈ there query).mp
    (referenced_there names hsound hextract hfilter hextracted)
  obtain ⟨hcolumns, hgroups, hcalls, hconditions, hwhere, hon⟩ := hthere
  have hleft (j : Join) : j ∈ (without query filter).selection.joins ↔
      j ∈ query.selection.joins ∧
        (joinKey query j.kind = false ∨ j.table.name ∈ neededTables query filter) := by
    simp [without]
  apply (forall_referenced fun t => t ∈ there (without query filter)).trans
  constructor
  · rintro ⟨-, hgroups, -, -, -, hon⟩
    refine ⟨fun field hfield t ht => ((mem_there_without t).mp (hgroups field hfield t ht)).1, ?_⟩
    intro hneeded
    cases needed_by names hextract hfilter _ hneeded with
    | inl h => exact absurd h (by decide)
    | inr h =>
      obtain ⟨p, hp, hname, -⟩ := h
      obtain ⟨⟨j, hj, hjoin, hcertnames⟩, hsource, hkinds⟩ := hsound.expiration p hp hname
      have hj' : j ∈ query.selection.joins := hextract.selection ▸ hj
      have hmem := (hleft j).mpr ⟨hj', .inr (hjoin ▸ hneeded)⟩
      obtain hfrom | hin | ⟨j', hmem', hkey, -⟩ :=
        ((mem_there_without _).mp (hon j hmem _ hcertnames)).1
      · rw [sources_eq names hextract] at hfrom
        exact absurd hfrom hsource
      · exact hin
      · have hj'' : j' ∈ e.selection.joins := hextract.selection ▸ hmem'
        rw [hkinds j' hj''] at hkey
        cases hkey
  · intro h
    refine ⟨?_, ?_, ?_, ?_, ?_, ?_⟩
    · intro p hp t ht
      exact (mem_there_without t).mpr
        ⟨selected_kept names hsound hextract hextracted p hp t ht, hcolumns p hp t ht⟩
    · intro field hfield t ht
      exact (mem_there_without t).mpr ⟨h.groups field hfield t ht, hgroups field hfield t ht⟩
    · intro call hcall t ht
      exact (mem_there_without t).mpr
        ⟨call_kept names hsound hextract call hcall t ht, hcalls call hcall t ht⟩
    · intro c hc t ht
      exact (mem_there_without t).mpr
        ⟨filter_kept names hsound hextract hfilter c hc t ht, hconditions c hc t ht⟩
    · intro sql hsql t ht
      have hsql' : sql ∈ e.selection.whereSql.toList := hextract.selection ▸ hsql
      have hfrom := hsound.whereSql sql hsql' t ht
      refine (mem_there_without t).mpr ⟨.inl ?_, hwhere sql hsql t ht⟩
      rw [sources_eq names hextract]
      exact hfrom
    · intro j hj t ht
      obtain ⟨hj', hkept⟩ := (hleft j).mp hj
      exact (mem_there_without t).mpr ⟨on_kept names hsound hextract hfilter h.expiration j hj'
        hkept t ht, hon j hj' t ht⟩

end Scope

end OpenVoxDB.JoinRows
