import Mathlib
import OpenVoxDB.Extracts
import OpenVoxDB.FieldSyntax

/-!
# Unused joins

`drop-local-unused-joins-from-query` takes out of a query the joins that neither its columns nor
its filter require. It gives up where it does not know what a condition requires.
-/

namespace OpenVoxDB.JoinDropping

open Plans Entities FieldSyntax
open QueryExpansion (Part)

variable {V : Type}

/-- `parse-field`. A field that it refuses has no parts. -/
def fieldParser (names : String → List String) : FieldParser where
  names := names
  parts s := (parseField true s).toOption.getD []

variable (parser : FieldParser)

/-! ## What a query requires -/

def Field.isKeyword : Field → Bool
  | .keyword _ _ => true
  | .hsql _ => false

/-- `extract-deps` -/
def extractDeps (projections : List (String × Column)) : Plan V → Option (List String)
  | .binary _ column _ => if Field.isKeyword column.field then column.joinDeps else none
  | .fnBinary operator function args _ =>
    if function = "jsonb_typeof" ∧ operator = "=" then
      match args with
      | [field] => (projections.lookup field).bind Column.joinDeps
      | _ => none
    else none
  | .inSub columns _ _ =>
    if columns.all fun c => Field.isKeyword c.field then
      (columns.mapM Column.joinDeps).map List.flatten
    else none
  | .jsonContains _ column _ => column.joinDeps
  | .jsonbPathBinary _ _ column _ => column.joinDeps
  | .jsonbScalarRegex column _ => column.joinDeps
  | _ => none

/-- `extract-where-deps-from-clause` -/
def extractWhereDepsFromClause (projections : List (String × Column)) :
    Plan V → Option (List String)
  | .binary _ column _ => column.joinDeps
  | .regex column _ => column.joinDeps
  | .inArray column _ => column.joinDeps
  | .arrayBinary column _ => column.joinDeps
  | .arrayRegex column _ => column.joinDeps
  | .null column _ => column.joinDeps
  | .pathArrayMatch column _ => column.joinDeps
  | .pathArrayAnyMatch column _ => column.joinDeps
  | .pathArrayRegexMatch column _ => column.joinDeps
  | .inSub columns _ _ =>
    if columns.all fun c => Field.isKeyword c.field then
      (columns.mapM Column.joinDeps).map List.flatten
    else none
  | .and clauses => (clauses.mapM (extractDeps projections)).map List.flatten
  | .or clauses => (clauses.mapM (extractDeps projections)).map List.flatten
  | .not clause => extractDeps projections clause
  | .jsonContains _ column _ => column.joinDeps
  | .jsonbPathBinary _ _ column _ => column.joinDeps
  | .jsonbScalarRegex column _ => column.joinDeps
  | .fnBinary _ _ _ _ => none

def extractWhereDeps (projections : List (String × Column)) :
    Option (Plan V) → Option (List String)
  | none => some []
  | some (.and clauses) =>
    (clauses.mapM (extractWhereDepsFromClause projections)).map List.flatten
  | some (.or clauses) =>
    (clauses.mapM (extractWhereDepsFromClause projections)).map List.flatten
  | some plan => extractWhereDepsFromClause projections plan

/-- The name of the projection that a field is of. -/
def basename (field : String) : Option String := (parser.parts field).head?.bind named?

def requiredByProjections (query : QueryRec V) : Option (List String) :=
  (((query.projectedFields.filter fun p => !p.2.unprojectable).map Prod.fst).mapM fun field =>
    ((basename parser field).bind fun name => query.projections.lookup name).bind
      Column.joinDeps).map List.flatten

def extractFunctionDeps (query : QueryRec V) : List String :=
  query.call.flatMap FnExpression.joinDeps

/-- `join-key?`: with a count, only left joins may go. -/
def joinKey (query : QueryRec V) : JoinKind → Bool
  | .leftJoin => true
  | .join => query.call.isEmpty
  | .innerJoin => false

/-- Nothing where the code throws, and the whole plan is left as it is. -/
def dropLocalUnusedJoinsFromQuery (query : QueryRec V) (filter : Option (Plan V)) :
    Option (QueryRec V) :=
  if !query.canDropUnusedJoins then some query
  else if !query.call.isEmpty && query.call.map FnExpression.function ≠ ["count"] then none
  else do
    let projReqs ← requiredByProjections parser query
    if projReqs.isEmpty && query.call.isEmpty then return query
    else
      let whereReqs ← extractWhereDeps query.projections filter
      let required := projReqs ++ whereReqs ++ extractFunctionDeps query
      return { query with
        selection := { query.selection with
          joins := query.selection.joins.filter fun j =>
            !joinKey query j.kind || required.contains j.table.name } }

/-! ## The columns of a query -/

/-- The columns that a condition reads. -/
def conditionColumns (projections : List (String × Column)) : Plan V → List Column
  | .fnBinary _ _ args _ => args.filterMap fun name => projections.lookup name
  | .binary _ column _ => [column]
  | .regex column _ => [column]
  | .inArray column _ => [column]
  | .arrayBinary column _ => [column]
  | .arrayRegex column _ => [column]
  | .null column _ => [column]
  | .pathArrayMatch column _ => [column]
  | .pathArrayAnyMatch column _ => [column]
  | .pathArrayRegexMatch column _ => [column]
  | .jsonContains _ column _ => [column]
  | .jsonbPathBinary _ _ column _ => [column]
  | .jsonbScalarRegex column _ => [column]
  | .inSub columns _ _ => columns
  | .and _ => []
  | .or _ => []
  | .not _ => []

mutual

/-- The columns that a filter reads. -/
def columnsOf (projections : List (String × Column)) : Plan V → List Column
  | .and clauses => clauseColumns projections clauses
  | .or clauses => clauseColumns projections clauses
  | .not clause => columnsOf projections clause
  | plan => conditionColumns projections plan

def clauseColumns (projections : List (String × Column)) : List (Plan V) → List Column
  | [] => []
  | clause :: clauses => columnsOf projections clause ++ clauseColumns projections clauses

end

/-- The tables that a column is from. -/
def Column.needs (column : Column) : List String := column.joinDeps.getD []

/-- The tables that the columns, the calls and the filter of a query are from. -/
def neededTables (query : QueryRec V) (filter : Option (Plan V)) : List String :=
  (query.projectedFields.filter fun p => !p.2.unprojectable).flatMap (fun p => Column.needs p.2) ++
    (filter.toList.flatMap (columnsOf query.projections)).flatMap Column.needs ++
    query.call.flatMap FnExpression.joinDeps

/-- Columns of the projections, or of a path into one. -/
def Projected (projections : List (String × Column)) (column : Column) : Prop :=
  ∃ base ∈ projections.map Prod.snd, column.joinDeps = base.joinDeps ∧
    column.field.tables = base.field.tables

/-! ## What is required is what is needed -/

theorem mem_mapM_flatten {α : Type} (f : α → Option (List String)) (xs : List α)
    (deps : List String) (h : (xs.mapM f).map List.flatten = some deps) (t : String) :
    t ∈ deps ↔ ∃ x ∈ xs, t ∈ (f x).getD [] := by
  obtain ⟨parts, hparts, rfl⟩ := Option.map_eq_some_iff.mp h
  clear h
  induction xs generalizing parts with
  | nil =>
    rw [List.mapM_nil] at hparts
    obtain rfl := Option.some.inj hparts
    simp
  | cons x xs ih =>
    rw [List.mapM_cons] at hparts
    obtain ⟨part, hpart, htail⟩ := Option.bind_eq_some_iff.mp hparts
    obtain ⟨rest, hrest, hcons⟩ := Option.bind_eq_some_iff.mp htail
    obtain rfl := Option.some.inj hcons
    rw [List.flatten_cons, List.mem_append, ih rest hrest, List.exists_mem_cons_iff, hpart]
    rfl

theorem mem_extractDeps (projections : List (String × Column)) (plan : Plan V)
    (deps : List String) (h : extractDeps projections plan = some deps) (t : String) :
    t ∈ deps ↔ ∃ c ∈ columnsOf projections plan, t ∈ Column.needs c := by
  cases plan with
  | binary operator column value =>
    rw [extractDeps] at h
    split at h
    · simp [columnsOf, conditionColumns, Column.needs, h]
    · cases h
  | fnBinary operator function args value =>
    rw [extractDeps.eq_def] at h
    simp only at h
    split at h
    · split at h
      · next field =>
        obtain ⟨column, hcolumn, hdeps⟩ := Option.bind_eq_some_iff.mp h
        simp [columnsOf, conditionColumns, Column.needs, hcolumn, hdeps]
      · cases h
    · cases h
  | inSub columns query filter =>
    rw [extractDeps] at h
    split at h
    · simp only [mem_mapM_flatten _ _ _ h, columnsOf, conditionColumns, Column.needs]
    · cases h
  | jsonContains field column value =>
    rw [extractDeps] at h
    simp [columnsOf, conditionColumns, Column.needs, h]
  | jsonbPathBinary operator field column value =>
    rw [extractDeps] at h
    simp [columnsOf, conditionColumns, Column.needs, h]
  | jsonbScalarRegex column value =>
    rw [extractDeps] at h
    simp [columnsOf, conditionColumns, Column.needs, h]
  | _ => cases h

theorem mem_clauses (projections : List (String × Column))
    (f : Plan V → Option (List String)) (clauses : List (Plan V)) (deps : List String)
    (hf : ∀ plan deps, f plan = some deps → ∀ t, t ∈ deps ↔
      ∃ c ∈ columnsOf projections plan, t ∈ Column.needs c)
    (h : (clauses.mapM f).map List.flatten = some deps) (t : String) :
    t ∈ deps ↔ ∃ c ∈ clauseColumns projections clauses, t ∈ Column.needs c := by
  obtain ⟨parts, hparts, rfl⟩ := Option.map_eq_some_iff.mp h
  clear h
  induction clauses generalizing parts with
  | nil =>
    rw [List.mapM_nil] at hparts
    obtain rfl := Option.some.inj hparts
    simp [clauseColumns]
  | cons clause clauses ih =>
    rw [List.mapM_cons] at hparts
    obtain ⟨part, hpart, htail⟩ := Option.bind_eq_some_iff.mp hparts
    obtain ⟨rest, hrest, hcons⟩ := Option.bind_eq_some_iff.mp htail
    obtain rfl := Option.some.inj hcons
    rw [List.flatten_cons, List.mem_append, ih rest hrest, hf clause part hpart, clauseColumns]
    simp only [List.mem_append, or_and_right, exists_or]

theorem mem_extractWhereDepsFromClause (projections : List (String × Column)) (plan : Plan V)
    (deps : List String) (h : extractWhereDepsFromClause projections plan = some deps)
    (t : String) : t ∈ deps ↔ ∃ c ∈ columnsOf projections plan, t ∈ Column.needs c := by
  cases plan with
  | and clauses =>
    rw [extractWhereDepsFromClause] at h
    rw [columnsOf]
    exact mem_clauses projections _ clauses deps (mem_extractDeps projections) h t
  | or clauses =>
    rw [extractWhereDepsFromClause] at h
    rw [columnsOf]
    exact mem_clauses projections _ clauses deps (mem_extractDeps projections) h t
  | not clause =>
    rw [extractWhereDepsFromClause] at h
    rw [columnsOf]
    exact mem_extractDeps projections clause deps h t
  | inSub columns query filter =>
    rw [extractWhereDepsFromClause] at h
    split at h
    · simp only [mem_mapM_flatten _ _ _ h, columnsOf, conditionColumns, Column.needs]
    · cases h
  | fnBinary operator function args value => cases h
  | _ =>
    rw [extractWhereDepsFromClause] at h
    simp [columnsOf, conditionColumns, Column.needs, h]

theorem mem_extractWhereDeps (projections : List (String × Column)) (filter : Option (Plan V))
    (deps : List String) (h : extractWhereDeps projections filter = some deps) (t : String) :
    t ∈ deps ↔ ∃ c ∈ filter.toList.flatMap (columnsOf projections), t ∈ Column.needs c := by
  rw [extractWhereDeps.eq_def] at h
  split at h
  · obtain rfl := Option.some.inj h
    simp
  · next clauses =>
    rw [mem_clauses projections _ clauses deps (mem_extractWhereDepsFromClause projections) h t]
    simp [columnsOf]
  · next clauses =>
    rw [mem_clauses projections _ clauses deps (mem_extractWhereDepsFromClause projections) h t]
    simp [columnsOf]
  · next plan _ _ =>
    rw [mem_extractWhereDepsFromClause projections plan deps h t]
    simp

/-! ## The columns of an extract -/

theorem topField_append_rest (cs name rest : List Char) (h : topField cs = some (name, rest)) :
    name ++ rest = cs := by
  cases cs with
  | nil => cases h
  | cons c cs =>
    have hsplit (p : Char → Bool) : cs.takeWhile p ++ cs.dropWhile p = cs :=
      List.takeWhile_append_dropWhile
    rw [topField] at h
    split at h
    · simp only at h
      split at h
      · next hdrop =>
        split at h
        · obtain ⟨rfl, rfl⟩ := Prod.mk.inj (Option.some.inj h)
          rw [List.append_assoc, List.singleton_append, ← hdrop, List.cons_append, hsplit]
        · cases h
      · split at h
        · obtain ⟨rfl, rfl⟩ := Prod.mk.inj (Option.some.inj h)
          rw [List.cons_append, hsplit]
        · cases h
    · cases h

/-- What is left of a field has a part. -/
theorem parseFieldComponents_nil (n : Nat) (cs : List Char)
    (h : parseFieldComponents true n cs = .ok []) : cs = [] := by
  have hbind {α : Type} (x : Except String α) (f : α → List Part) (hf : ∀ a, f a ≠ []) :
      (x >>= fun a => pure (f a)) ≠ .ok [] := by
    cases x with
    | error message => exact fun h => by cases h
    | ok a => exact fun h => hf a (Except.ok.inj h)
  rw [parseFieldComponents.eq_def] at h
  split at h
  · rfl
  · split at h
    · cases h
    · split at h
      · exact absurd h (hbind _ _ fun _ => List.cons_ne_nil _ _)
      · split at h
        · next name _ _ =>
          cases hpart : indexOrName name with
          | error message =>
            rw [hpart] at h
            cases h
          | ok part =>
            rw [hpart] at h
            exact absurd h (hbind _ _ fun _ => List.cons_ne_nil _ _)
        · cases h
  · cases h

/-- A field of one part is a name. -/
theorem parseField_single (field : String) (part : Part) (h : parseField true field = .ok [part]) :
    part = .named field := by
  rw [parseField] at h
  cases htop : topField field.toList with
  | none =>
    rw [htop] at h
    cases h
  | some found =>
    obtain ⟨name, rest⟩ := found
    rw [htop] at h
    simp only at h
    cases hrest : parseFieldComponents true rest.length rest with
    | error message =>
      rw [hrest] at h
      cases h
    | ok parts =>
      rw [hrest] at h
      obtain ⟨hpart, hparts⟩ := List.cons.inj (Except.ok.inj h)
      rw [hparts] at hrest
      obtain rfl := parseFieldComponents_nil _ _ hrest
      have hname := topField_append_rest _ _ _ htop
      rw [List.append_nil] at hname
      rw [← hpart, hname, String.ofList_toList]

theorem mem_of_lookup_column (projections : List (String × Column)) (name : String)
    (column : Column) (h : projections.lookup name = some column) :
    (name, column) ∈ projections := by
  obtain ⟨before, after, rfl, -⟩ := List.lookup_eq_some_iff.mp h
  exact List.mem_append_right _ List.mem_cons_self

variable (names : String → List String)

/-- What an extract selects: a projection or a path into one, with its dependencies, which are
those that `required-by-projections` finds. -/
structure Selected (projections : List (String × Column)) (p : String × Column) : Prop where
  projected : Projected projections p.2
  depends : p.2.depends = [] ∨ p ∈ projections
  deps : ∀ deps, (((basename (fieldParser names) p.1).bind fun name => projections.lookup name).bind
    Column.joinDeps) = some deps → p.2.joinDeps = some deps

theorem selected_namesToFields (projections : List (String × Column)) (name : String)
    (p : String × Column) (h : namesToFields (fieldParser names) projections name = some p) :
    Selected names projections p := by
  rw [namesToFields] at h
  split at h
  · next hlength =>
    obtain ⟨column, hcolumn, rfl⟩ := Option.map_eq_some_iff.mp h
    cases hparts : (fieldParser names).parts name with
    | nil =>
      rw [hparts] at hlength
      simp at hlength
    | cons top path =>
      rw [hparts, createJsonSubtreeProjection] at hcolumn
      obtain ⟨first, hfirst, hcolumn⟩ := Option.bind_eq_some_iff.mp hcolumn
      obtain ⟨base, hbase, hcolumn⟩ := Option.bind_eq_some_iff.mp hcolumn
      obtain ⟨steps, -, hcolumn⟩ := Option.bind_eq_some_iff.mp hcolumn
      obtain rfl := Option.some.inj hcolumn
      refine ⟨⟨base, ?_, rfl, rfl⟩, .inl rfl, ?_⟩
      · exact List.mem_map_of_mem (mem_of_lookup_column projections first base hbase)
      · intro deps hdeps
        rw [basename, hparts] at hdeps
        have hname : named? top = some first := hfirst
        simpa [hname, hbase] using hdeps
  · next hlength =>
    obtain ⟨column, hcolumn, rfl⟩ := Option.map_eq_some_iff.mp h
    have hmem := mem_of_lookup_column projections name column hcolumn
    refine ⟨⟨column, List.mem_map_of_mem hmem, rfl, rfl⟩, .inr hmem, ?_⟩
    intro deps hdeps
    cases hparse : parseField true name with
    | error message =>
      simp [basename, fieldParser, hparse, Except.toOption] at hdeps
    | ok parts =>
      have hparts : (fieldParser names).parts name = parts := by
        simp [fieldParser, hparse, Except.toOption]
      rw [hparts] at hlength
      cases parts with
      | nil =>
        rw [basename, hparts] at hdeps
        cases hdeps
      | cons part parts =>
        rw [List.length_cons] at hlength
        obtain rfl : parts = [] := List.eq_nil_of_length_eq_zero (by omega)
        rw [basename, hparts, parseField_single name part hparse] at hdeps
        simpa [named?, hcolumn] using hdeps

theorem mem_of_mapM {α β : Type} (f : α → Option β) (xs : List α) (ys : List β)
    (h : xs.mapM f = some ys) : ∀ y ∈ ys, ∃ x ∈ xs, f x = some y := by
  induction xs generalizing ys with
  | nil =>
    rw [List.mapM_nil] at h
    obtain rfl := Option.some.inj h
    simp
  | cons x xs ih =>
    rw [List.mapM_cons] at h
    obtain ⟨y, hy, htail⟩ := Option.bind_eq_some_iff.mp h
    obtain ⟨rest, hrest, hcons⟩ := Option.bind_eq_some_iff.mp htail
    obtain rfl := Option.some.inj hcons
    intro z hz
    cases List.mem_cons.mp hz with
    | inl hzy =>
      rw [hzy]
      exact ⟨x, List.mem_cons_self, hy⟩
    | inr hz =>
      obtain ⟨x', hx', hz⟩ := ih rest hrest z hz
      exact ⟨x', List.mem_cons_of_mem _ hx', hz⟩

/-- `group-by-entry->sql-field`, which makes an alias of an entry with a dot. -/
def groupByEntryToSqlField (query : QueryRec V) (entry : String) : Option Field :=
  let parsed := parser.parts entry
  if parsed.length > 1 ∧
      ((parsed.head?.bind named?).bind fun name => query.projections.lookup name).isSome then
    some (.keyword none entry)
  else
    match query.projections.lookup entry with
    | some column => some column.field
    | none => if (pdbFnsToPgFns entry).isSome then some (.keyword none entry) else none

/-- `group-by-entries->fields`, of columns and of the names of functions. -/
def groupByEntriesToFields (query : QueryRec V) (entries : List String) : Option (List Field) :=
  (entries.mergeSort fun a b => decide (a ≤ b)).mapM (groupByEntryToSqlField parser query)

/-- A query on an entity: an extract of its columns and calls, in groups. With no columns it is
the entity's own query. -/
structure QueryOn (e query : QueryRec V) : Prop where
  extract : ∃ columns entries groupBy subquery,
    groupByEntriesToFields (fieldParser names) e entries = some groupBy ∧
    { e with groupBy := groupBy, subquery := subquery }.createExtractNode
      (fieldParser names) columns = some query

/-- The facts of one name, as `rewrite-fact-query` selects them. -/
def oneFact (name : V) : QueryRec V :=
  { factsQuery V with selection := { (factsQuery V).selection with source := .factNamed name } }

/-- The entities whose unused joins may be dropped. -/
def OptsIn (e : QueryRec V) : Prop := e ∈ optedIn V ∨ ∃ name, e = oneFact name

end OpenVoxDB.JoinDropping
