import Mathlib
import OpenVoxDB.EventFilters
import OpenVoxDB.LegacyParams

/-!
# What the compilers of event filters disagree on

Under a polarity a clause is either true or not, and false or not; `and`, `or`
and `not` only ask for that. The compilers read a clause alike, but for a
comparison guarded against `NULL`, which the legacy compiler makes false and the
engine leaves unknown, and for a comparison with `NULL`, which the engine makes
a test for `NULL` and the legacy compiler leaves unknown.
-/

namespace OpenVoxDB.EventFilters

open LegacyQueries Plans DistinctEvents

variable {E ρ : Type} (columns : Columns E ρ) (db : Database ρ) (e : Event ρ) (readers : Readers)

/-! ## The meaning of a clause -/

/-- The column of a field. -/
def fieldColumn (field : String) : String :=
  if field = "certname" then "reports.certname"
  else if field = "report" then reportHash
  else if field = "environment" then "environments.environment"
  else if field = "configuration_version" then "reports.configuration_version"
  else if field = "run_start_time" then "reports.start_time"
  else if field = "run_end_time" then "reports.end_time"
  else if field = "report_receive_time" then "reports.receive_time"
  else eventColumn field

/-- The comparison is guarded against `NULL` by the legacy compiler. -/
def guarded (field : String) (value : Json) : Bool :=
  field ∈ serializedFields || (field ∈ nullableFields && value ≠ .null)

def equalityTruth (field : String) (value : Json) : Truth :=
  if field = "latest_report?" then .ofBool (db.latest e == value.truthy)
  else if field ∈ serializedFields then
    columns.compare (fieldColumn field) "=" (.serialized value) e
  else if value = .null then .ofBool (columns.isNull (fieldColumn field) e)
  else columns.compare (fieldColumn field) "=" (.value value) e

def regexpTruth (field : String) (pattern : Json) : Truth :=
  (columns.compare (fieldColumn field) "~" (.value pattern) e).and
    (.ofBool (!columns.isNull (fieldColumn field) e))

def inequalityTruth (op : Inequality) (field : String) (value : Json) : Truth :=
  ((readers.toTimestamp value).map fun t =>
    columns.compare (fieldColumn field) op.text (.timestamp t) e).getD .unknown

/-- Only the legacy compiler makes the clause true, or false: for `polarity` true or false. -/
def legacyOnly (polarity : Bool) (field : String) (value : Json) : Bool :=
  if field = "latest_report?" then value = .null && db.latest e != polarity
  else guarded field value && !polarity && columns.isNull (fieldColumn field) e

/-- Only the engine makes the clause true, or false. -/
def engineOnly (polarity : Bool) (field : String) (value : Json) : Bool :=
  field ≠ "latest_report?" && field ∉ serializedFields && field ∉ nullableFields &&
    value = .null && columns.isNull (fieldColumn field) e == polarity

mutual

/-- The filter is true, or false, where the clauses that one compiler alone makes so are taken
from the legacy compiler or from the engine. -/
def comesOut (legacy polarity : Bool) : Term → Bool
  | .equal (.field field) value =>
    if legacyOnly columns db e polarity field value then legacy
    else if engineOnly columns e polarity field value then !legacy
    else equalityTruth columns db e field value = .ofBool polarity
  | .regexp (.field field) pattern => regexpTruth columns e field pattern = .ofBool polarity
  | .inequality op (.field field) value =>
    inequalityTruth columns e readers op field value = .ofBool polarity
  | .and terms =>
    if polarity then allComeOut legacy polarity terms else anyComesOut legacy polarity terms
  | .or terms =>
    if polarity then anyComesOut legacy polarity terms else allComeOut legacy polarity terms
  | .not terms => allComeOut legacy (!polarity) terms
  | _ => false

def allComeOut (legacy polarity : Bool) : List Term → Bool
  | [] => true
  | term :: terms => comesOut legacy polarity term && allComeOut legacy polarity terms

def anyComesOut (legacy polarity : Bool) : List Term → Bool
  | [] => false
  | term :: terms => comesOut legacy polarity term || anyComesOut legacy polarity terms

end

/-! ## Clauses that the database rejects -/

mutual

/-- There is no column `resource_events.report` to match. -/
def legacyRejects : Term → Bool
  | .regexp (.field field) _ => field = "report"
  | .and terms => anyLegacyRejects terms
  | .or terms => anyLegacyRejects terms
  | .not terms => anyLegacyRejects terms
  | _ => false

def anyLegacyRejects : List Term → Bool
  | [] => false
  | term :: terms => legacyRejects term || anyLegacyRejects terms

end

def isFlag : Json → Bool
  | .bool _ => true
  | .null => true
  | _ => false

mutual

/-- A flag cannot be compared with another value. -/
def engineRejects : Term → Bool
  | .equal (.field field) value => field = "latest_report?" && !isFlag value
  | .and terms => anyEngineRejects terms
  | .or terms => anyEngineRejects terms
  | .not terms => anyEngineRejects terms
  | _ => false

def anyEngineRejects : List Term → Bool
  | [] => false
  | term :: terms => engineRejects term || anyEngineRejects terms

end

/-! ## The fields of both compilers -/

theorem mem_of_lookup {α : Type} (key : String) (xs : List (String × α)) (x : α)
    (h : xs.lookup key = some x) : (key, x) ∈ xs := by
  induction xs with
  | nil => cases h
  | cons p xs ih =>
    rw [List.lookup_cons] at h
    split at h
    · next heq =>
      obtain rfl := Option.some.inj h
      rw [eq_of_beq heq]
      exact List.mem_cons_self
    · exact List.mem_cons_of_mem _ (ih h)

theorem mem_of_queryable (field : String) (column : Column) (h : queryable field = some column) :
    (field, column) ∈ ReportEvents.projections :=
  mem_of_lookup field _ column (Option.eq_some_of_filter_eq_some h)

theorem underscores_of_queryable (field : String) (column : Column)
    (h : queryable field = some column) : dashesToUnderscores field = field := by
  have hall : ∀ p ∈ ReportEvents.projections, dashesToUnderscores p.1 = p.1 := by decide
  exact hall _ (mem_of_queryable field column h)

theorem columnOf_of_queryable (field : String) (column : Column)
    (h : queryable field = some column) (hfield : field ≠ "latest_report?") :
    column.field ≠ latestReportField ∧ columnOf column.field = fieldColumn field := by
  have hall : ∀ p ∈ ReportEvents.projections, p.1 ≠ "latest_report?" →
      p.2.field ≠ latestReportField ∧ columnOf p.2.field = fieldColumn p.1 := by decide
  exact hall _ (mem_of_queryable field column h) hfield

theorem field_of_latestReport (column : Column) (h : queryable "latest_report?" = some column) :
    column.field = latestReportField := by
  have hall : ∀ p ∈ ReportEvents.projections, p.1 = "latest_report?" →
      p.2.field = latestReportField := by decide
  exact hall _ (mem_of_queryable _ column h) rfl

/-- The types of the fields that the legacy compiler takes in a clause for equality. -/
theorem type_of_queryable (field : String) (column : Column) (h : queryable field = some column)
    (hfield : ["certname", "report", "environment", "resource_type", "resource_title", "status",
      "property", "message", "file", "line", "containing_class", "corrective_change"].contains
        field = true) : column.type ≠ .timestamp ∧ column.type ≠ .array := by
  have hall : ∀ p ∈ ReportEvents.projections, ["certname", "report", "environment",
      "resource_type", "resource_title", "status", "property", "message", "file", "line",
      "containing_class", "corrective_change"].contains p.1 = true →
        p.2.type ≠ .timestamp ∧ p.2.type ≠ .array := by decide
  exact hall _ (mem_of_queryable field column h) hfield

/-! ## Clauses in the engine -/

/-- A clause for equality that is neither serialized nor about `latest_report?`. -/
theorem planEquality_plain (field : String) (value : Json) (column : Column)
    (plan : Plan (Bound E)) (hcolumn : queryable field = some column)
    (htype : column.type ≠ .timestamp ∧ column.type ≠ .array) (hlatest : field ≠ "latest_report?")
    (hserialized : field ∉ serializedFields)
    (hp : planEquality readers field value = some plan) :
    plan = if value = .null then .null column true else .binary "=" column (.value value) := by
  rw [planEquality, hcolumn] at hp
  simp only [Option.bind_eq_bind, Option.bind_some, if_neg hlatest, if_neg hserialized] at hp
  split at hp
  · next hnull =>
    rw [if_pos hnull]
    exact (Option.some.inj hp).symm
  · next hnull =>
    rw [if_neg hnull]
    split at hp
    · cases hp
    · exact absurd ‹column.type = .timestamp› htype.1
    · exact absurd ‹column.type = .array› htype.2
    · exact (Option.some.inj hp).symm

theorem planEquality_serialized (field : String) (value : Json) (column : Column)
    (plan : Plan (Bound E)) (hcolumn : queryable field = some column)
    (hlatest : field ≠ "latest_report?") (hserialized : field ∈ serializedFields)
    (hp : planEquality readers field value = some plan) :
    plan = .binary "=" column (.serialized value) := by
  rw [planEquality, hcolumn] at hp
  simp only [Option.bind_eq_bind, Option.bind_some, if_neg hlatest, if_pos hserialized] at hp
  exact (Option.some.inj hp).symm

theorem planEquality_latestReport (value : Json) (column : Column) (plan : Plan (Bound E))
    (hcolumn : queryable "latest_report?" = some column)
    (hp : planEquality readers "latest_report?" value = some plan) :
    plan = .binary "=" column (.value value) := by
  rw [planEquality, hcolumn] at hp
  exact (Option.some.inj hp).symm

theorem queryable_of_planEquality (field : String) (value : Json) (plan : Plan (Bound E))
    (hp : planEquality readers field value = some plan) :
    ∃ column, queryable field = some column := by
  obtain ⟨column, hcolumn, -⟩ := Option.bind_eq_some_iff.mp hp
  exact ⟨column, hcolumn⟩

/-- What the engine makes of a clause for equality. -/
theorem planTruth_equality (field : String) (value : Json) (column : Column)
    (plan : Plan (Bound E)) (hcolumn : queryable field = some column)
    (htype : column.type ≠ .timestamp ∧ column.type ≠ .array) (hlatest : field ≠ "latest_report?")
    (hserialized : field ∉ serializedFields)
    (hp : planEquality readers field value = some plan) :
    wellTyped plan = true ∧ planTruth columns db e plan =
      equalityTruth columns db e field value := by
  obtain rfl := planEquality_plain readers field value column plan hcolumn htype hlatest
    hserialized hp
  obtain ⟨hfield, hcolumnOf⟩ := columnOf_of_queryable field column hcolumn hlatest
  simp only [equalityTruth, if_neg hlatest, if_neg hserialized]
  by_cases hnull : value = .null
  · simp only [if_pos hnull]
    exact ⟨rfl, by simp [planTruth, hcolumnOf]⟩
  · simp only [if_neg hnull]
    exact ⟨by simp [wellTyped, comparable, hfield], by
      simp [planTruth, compareField, hfield, hcolumnOf]⟩

theorem planTruth_serialized (field : String) (value : Json) (column : Column)
    (plan : Plan (Bound E)) (hcolumn : queryable field = some column)
    (hlatest : field ≠ "latest_report?") (hserialized : field ∈ serializedFields)
    (hp : planEquality readers field value = some plan) :
    wellTyped plan = true ∧ planTruth columns db e plan =
      equalityTruth columns db e field value := by
  obtain rfl := planEquality_serialized readers field value column plan hcolumn hlatest
    hserialized hp
  obtain ⟨hfield, hcolumnOf⟩ := columnOf_of_queryable field column hcolumn hlatest
  simp only [equalityTruth, if_neg hlatest, if_pos hserialized]
  exact ⟨by simp [wellTyped, comparable, hfield], by
    simp [planTruth, compareField, hfield, hcolumnOf]⟩

/-! ## A clause under a polarity -/

/-- Nothing is compared with `NULL`. -/
theorem compare_null (column operator : String) :
    columns.compare column operator (.value .null) e = .unknown := by
  simp [Columns.compare, isNullBound]

theorem compare_of_isNull (column operator : String) (value : Bound E)
    (h : columns.isNull column e = true) : columns.compare column operator value e = .unknown := by
  simp [Columns.compare, h]

theorem unknown_ne_ofBool (b : Bool) : Truth.unknown ≠ .ofBool b := by cases b <;> decide

theorem ofBool_inj (a b : Bool) : Truth.ofBool a = .ofBool b ↔ a = b := by
  cases a <;> cases b <;> decide

theorem and_notNull (column operator : String) (value : Bound E) (polarity : Bool) :
    (columns.compare column operator value e).and (.ofBool (!columns.isNull column e)) =
        .ofBool polarity ↔
      (polarity = false ∧ columns.isNull column e = true) ∨
        columns.compare column operator value e = .ofBool polarity := by
  cases hnull : columns.isNull column e with
  | true =>
    rw [compare_of_isNull columns e column operator value hnull]
    cases polarity <;> decide
  | false => cases h : columns.compare column operator value e <;> simp [Truth.and]

/-- The engine takes a clause for what it means, where only the engine does. -/
theorem comesOut_engine (polarity : Bool) (field : String) (value : Json)
    (hlatest : field ≠ "latest_report?") :
    comesOut columns db e readers false polarity (.equal (.field field) value) = true ↔
      equalityTruth columns db e field value = .ofBool polarity := by
  rw [comesOut]
  split
  · next h =>
    simp only [legacyOnly, if_neg hlatest, Bool.and_eq_true, guarded, Bool.or_eq_true,
      decide_eq_true_eq] at h
    obtain ⟨⟨hguarded, -⟩, hnull⟩ := h
    simp only [equalityTruth, if_neg hlatest]
    split
    · simp [compare_of_isNull columns e _ _ _ hnull, unknown_ne_ofBool]
    · next hserialized =>
      obtain hserialized' | hvalue := hguarded
      · exact absurd hserialized' hserialized
      · simp [compare_of_isNull columns e _ _ _ hnull, unknown_ne_ofBool, hvalue.2]
  · split
    · next h =>
      simp only [engineOnly, Bool.and_eq_true, decide_eq_true_eq, beq_iff_eq] at h
      obtain ⟨⟨⟨⟨-, hserialized⟩, -⟩, hvalue⟩, hisNull⟩ := h
      simp [equalityTruth, hlatest, hserialized, hvalue, hisNull]
    · simp

theorem comesOut_guarded (polarity : Bool) (field : String) (value : Json)
    (hlatest : field ≠ "latest_report?") (hguarded : guarded field value = true) :
    comesOut columns db e readers true polarity (.equal (.field field) value) = true ↔
      (polarity = false ∧ columns.isNull (fieldColumn field) e = true) ∨
        equalityTruth columns db e field value = .ofBool polarity := by
  have hengine : engineOnly columns e polarity field value = false := by
    simp only [guarded, Bool.or_eq_true, Bool.and_eq_true, decide_eq_true_eq] at hguarded
    obtain hserialized | hnullable := hguarded
    · simp [engineOnly, hserialized]
    · simp [engineOnly, hnullable.1]
  rw [comesOut, hengine, legacyOnly, if_neg hlatest, hguarded, Bool.true_and]
  by_cases h : (!polarity && columns.isNull (fieldColumn field) e) = true
  · rw [if_pos h]
    simp only [Bool.and_eq_true, Bool.not_eq_true'] at h
    exact iff_of_true rfl (Or.inl h)
  · rw [if_neg h, if_neg (by decide)]
    simp only [Bool.and_eq_true, Bool.not_eq_true'] at h
    simp only [decide_eq_true_eq, h, false_or]

theorem comesOut_null (polarity : Bool) (field : String) (hlatest : field ≠ "latest_report?")
    (hserialized : field ∉ serializedFields)
    (hnullable : field ∈ nullableFields) :
    comesOut columns db e readers true polarity (.equal (.field field) .null) = true ↔
      columns.isNull (fieldColumn field) e = polarity := by
  have hguarded : guarded field .null = false := by simp [guarded, hserialized]
  rw [comesOut, legacyOnly, if_neg hlatest, hguarded]
  simp [engineOnly, hnullable, equalityTruth, hlatest, hserialized, ofBool_inj]

theorem comesOut_unguarded (polarity : Bool) (field : String) (value : Json)
    (hlatest : field ≠ "latest_report?") (hserialized : field ∉ serializedFields)
    (hnullable : field ∉ nullableFields) :
    comesOut columns db e readers true polarity (.equal (.field field) value) = true ↔
      columns.compare (fieldColumn field) "=" (.value value) e = .ofBool polarity := by
  have hguarded : guarded field value = false := by simp [guarded, hserialized, hnullable]
  rw [comesOut, legacyOnly, if_neg hlatest, hguarded]
  by_cases hvalue : value = .null
  · obtain rfl := hvalue
    rw [compare_null]
    cases polarity <;> cases h : columns.isNull (fieldColumn field) e <;>
      simp [engineOnly, hlatest, hserialized, hnullable, equalityTruth, h, Truth.ofBool]
  · simp [engineOnly, equalityTruth, hlatest, hserialized, hvalue]

theorem comesOut_latestReport (polarity : Bool) (value : Json) :
    comesOut columns db e readers true polarity (.equal (.field "latest_report?") value) = true ↔
      Truth.ofBool (db.latest e == value.truthy) = .ofBool polarity := by
  rw [comesOut]
  by_cases hvalue : value = .null
  · obtain rfl := hvalue
    cases polarity <;> cases h : db.latest e <;>
      simp [legacyOnly, engineOnly, equalityTruth, h, Json.truthy, Truth.ofBool]
  · simp [legacyOnly, engineOnly, equalityTruth, hvalue]

theorem comesOut_latestReport_engine (polarity : Bool) (value : Json) (column : Column)
    (hcolumn : column.field = latestReportField) (htyped : isFlag value = true) :
    planTruth columns db e (.binary "=" column (.value value)) = .ofBool polarity ↔
      comesOut columns db e readers false polarity
        (.equal (.field "latest_report?") value) = true := by
  simp only [planTruth, compareField, if_pos hcolumn]
  cases value with
  | null =>
    rw [comesOut]
    cases polarity <;> cases h : db.latest e <;>
      simp [legacyOnly, engineOnly, equalityTruth, h, Json.truthy, Truth.ofBool]
  | bool b => cases b <;> simp [comesOut, legacyOnly, engineOnly, equalityTruth, Json.truthy]
  | int n => cases htyped
  | float m x => cases htyped
  | str s => cases htyped
  | arr xs => cases htyped
  | obj fields => cases htyped

/-! ## The clauses of both compilers -/

/-- What both compilers make of a term under both polarities. -/
structure Reads (term : Term) (c : Compiled E) (plan : Plan (Bound E)) : Prop where
  wellFormed : wellFormed c.operand = !legacyRejects term
  wellTyped : wellTyped plan = !engineRejects term
  legacy : legacyRejects term = false → ∀ polarity, truth columns.semantics db e c.operand =
    .ofBool polarity ↔ comesOut columns db e readers true polarity term = true
  engine : engineRejects term = false → ∀ polarity, planTruth columns db e plan =
    .ofBool polarity ↔ comesOut columns db e readers false polarity term = true

/-- The column of a field that the legacy compiler does not guard against `NULL`. -/
theorem reads_unguarded (field : String) (value : Json) (column : Column) (plan : Plan (Bound E))
    (hcolumn : queryable field = some column)
    (hp : planEquality readers field value = some plan)
    (hfield : ["certname", "report", "environment", "resource_type", "resource_title",
      "status"].contains field = true) :
    Reads columns db e readers (.equal (.field field) value)
      (.comparison (fieldColumn field) "=" (.value value)) plan := by
  have hall : ∀ f ∈ ["certname", "report", "environment", "resource_type", "resource_title",
      "status"], f ≠ "latest_report?" ∧ f ∉ serializedFields ∧
        f ∉ nullableFields ∧ knownColumns.contains (fieldColumn f) = true ∧
          ["certname", "report", "environment", "resource_type", "resource_title", "status",
            "property", "message", "file", "line", "containing_class",
            "corrective_change"].contains f = true := by decide
  obtain ⟨hlatest, hserialized, hnullable, hknown, hequality⟩ :=
    hall field (List.contains_iff_mem.mp hfield)
  have htype := type_of_queryable field column hcolumn hequality
  obtain ⟨htyped, htruth⟩ := planTruth_equality columns db e readers field value column plan
    hcolumn htype hlatest hserialized hp
  constructor
  · simpa [Compiled.operand, Compiled.condition, Compiled.comparison, EventFilters.wellFormed,
      legacyRejects] using hknown
  · simpa [engineRejects, hlatest] using htyped
  · intro _ polarity
    exact (comesOut_unguarded columns db e readers polarity field value hlatest hserialized
      hnullable).symm
  · intro _ polarity
    rw [htruth]
    exact (comesOut_engine columns db e readers polarity field value hlatest).symm

/-- The fields whose column may be `NULL`, each in the columns of the events. -/
theorem eventColumn_of_mem (field : String) (h : field ∈ nullableFields ++ serializedFields) :
    field ≠ "latest_report?" ∧ fieldColumn field = eventColumn field ∧
      knownColumns.contains (eventColumn field) = true := by
  have hall : ∀ f ∈ nullableFields ++ serializedFields, f ≠ "latest_report?" ∧
      fieldColumn f = eventColumn f ∧ knownColumns.contains (eventColumn f) = true := by decide
  exact hall field h

theorem type_of_nullable (field : String) (column : Column) (h : queryable field = some column)
    (hfield : field ∈ nullableFields) :
    (column.type ≠ .timestamp ∧ column.type ≠ .array) ∧ field ∉ serializedFields := by
  have hall : ∀ f ∈ nullableFields, ["certname", "report", "environment", "resource_type",
      "resource_title", "status", "property", "message", "file", "line", "containing_class",
      "corrective_change"].contains f = true ∧ f ∉ serializedFields := by decide
  exact ⟨type_of_queryable field column h (hall field hfield).1, (hall field hfield).2⟩

theorem reads_null (field : String) (column : Column) (plan : Plan (Bound E))
    (hcolumn : queryable field = some column)
    (hp : planEquality readers field .null = some plan) (hfield : field ∈ nullableFields) :
    Reads columns db e readers (.equal (.field field) .null)
      (.filter (some (.isNull (eventColumn field))) [] none) plan := by
  obtain ⟨hlatest, hcolumnOf, hknown⟩ :=
    eventColumn_of_mem field (List.mem_append_left _ hfield)
  obtain ⟨htype, hserialized⟩ := type_of_nullable field column hcolumn hfield
  obtain ⟨htyped, htruth⟩ := planTruth_equality columns db e readers field .null column plan
    hcolumn htype hlatest hserialized hp
  constructor
  · simpa [Compiled.operand, Compiled.condition, EventFilters.wellFormed, legacyRejects]
      using hknown
  · simpa [engineRejects, hlatest] using htyped
  · intro _ polarity
    rw [comesOut_null columns db e readers polarity field hlatest hserialized hfield, hcolumnOf]
    exact ofBool_inj _ _
  · intro _ polarity
    rw [htruth]
    exact (comesOut_engine columns db e readers polarity field .null hlatest).symm

/-- A comparison that the legacy compiler guards, for what the engine plans of it. -/
theorem reads_guarded (field : String) (value : Json) (bound : Bound E) (plan : Plan (Bound E))
    (hfield : field ∈ nullableFields ++ serializedFields) (hguarded : guarded field value = true)
    (hbound : equalityTruth columns db e field value =
      columns.compare (eventColumn field) "=" bound e)
    (htyped : wellTyped plan = true)
    (htruth : planTruth columns db e plan = equalityTruth columns db e field value) :
    Reads columns db e readers (.equal (.field field) value)
      (.filter (some (.notNullAnd (.compare (eventColumn field) "=" bound) (eventColumn field)))
        [bound] none) plan := by
  obtain ⟨hlatest, hcolumnOf, hknown⟩ := eventColumn_of_mem field hfield
  constructor
  · simpa [Compiled.operand, Compiled.condition, EventFilters.wellFormed, legacyRejects]
      using hknown
  · simpa [engineRejects, hlatest] using htyped
  · intro _ polarity
    rw [comesOut_guarded columns db e readers polarity field value hlatest hguarded, hcolumnOf,
      hbound]
    exact and_notNull columns e (eventColumn field) "=" bound polarity
  · intro _ polarity
    rw [htruth]
    exact (comesOut_engine columns db e readers polarity field value hlatest).symm

theorem reads_nullable (field : String) (value : Json) (column : Column) (plan : Plan (Bound E))
    (hcolumn : queryable field = some column)
    (hp : planEquality readers field value = some plan) (hfield : field ∈ nullableFields)
    (hvalue : value ≠ .null) :
    Reads columns db e readers (.equal (.field field) value)
      (.filter (some (.notNullAnd (.compare (eventColumn field) "=" (.value value))
        (eventColumn field))) [.value value] none) plan := by
  have hmem := List.mem_append_left serializedFields hfield
  obtain ⟨hlatest, hcolumnOf, hknown⟩ := eventColumn_of_mem field hmem
  obtain ⟨htype, hserialized⟩ := type_of_nullable field column hcolumn hfield
  obtain ⟨htyped, htruth⟩ := planTruth_equality columns db e readers field value column plan
    hcolumn htype hlatest hserialized hp
  apply reads_guarded columns db e readers field value (.value value) plan hmem
  · simp [guarded, hfield, hvalue]
  · rw [equalityTruth, if_neg hlatest, if_neg hserialized, if_neg hvalue, hcolumnOf]
  · exact htyped
  · exact htruth

theorem reads_serialized (field : String) (value : Json) (column : Column)
    (plan : Plan (Bound E)) (hcolumn : queryable field = some column)
    (hp : planEquality readers field value = some plan) (hfield : field ∈ serializedFields) :
    Reads columns db e readers (.equal (.field field) value)
      (.filter (some (.notNullAnd (.compare (eventColumn field) "=" (.serialized value))
        (eventColumn field))) [.serialized value] none) plan := by
  have hmem := List.mem_append_right nullableFields hfield
  obtain ⟨hlatest, hcolumnOf, hknown⟩ := eventColumn_of_mem field hmem
  obtain ⟨htyped, htruth⟩ := planTruth_serialized columns db e readers field value column plan
    hcolumn hlatest hfield hp
  apply reads_guarded columns db e readers field value (.serialized value) plan hmem
  · simp [guarded, hfield]
  · rw [equalityTruth, if_neg hlatest, if_pos hfield, hcolumnOf]
  · exact htyped
  · exact htruth

theorem reads_latestReport (value : Json) (column : Column) (plan : Plan (Bound E))
    (hcolumn : queryable "latest_report?" = some column)
    (hp : planEquality readers "latest_report?" value = some plan) :
    Reads columns db e readers (.equal (.field "latest_report?") value)
      (.filter (some (.latestReport value.truthy)) [] (some (.latestReport value.truthy))) plan := by
  obtain rfl := planEquality_latestReport readers value column plan hcolumn hp
  have hfield := field_of_latestReport column hcolumn
  have hflag : comparable column.field (.value value : Bound E) = isFlag value := by
    rw [hfield]
    cases value <;> rfl
  constructor
  · rfl
  · simp [EventFilters.wellTyped, hflag, engineRejects]
  · intro _ polarity
    exact (comesOut_latestReport columns db e readers polarity value).symm
  · intro hrejects polarity
    apply comesOut_latestReport_engine columns db e readers polarity value column hfield
    simpa [engineRejects] using hrejects

theorem reads_equality (field : String) (value : Json) (c : Compiled E) (plan : Plan (Bound E))
    (hc : compileResourceEventEquality field value = some c)
    (hp : planEquality readers field value = some plan) :
    Reads columns db e readers (.equal (.field field) value) c plan := by
  obtain ⟨column, hcolumn⟩ := queryable_of_planEquality readers field value plan hp
  have hunguarded := reads_unguarded columns db e readers field value column plan hcolumn hp
  simp only [compileResourceEventEquality, underscores_of_queryable field column hcolumn] at hc
  split_ifs at hc with hcertname hreport hlatest henvironment htyped hnullable hnull hserialized
  · obtain rfl := hcertname
    obtain rfl := Option.some.inj hc
    exact hunguarded rfl
  · obtain rfl := hreport
    obtain rfl := Option.some.inj hc
    exact hunguarded rfl
  · obtain rfl := hlatest
    obtain rfl := Option.some.inj hc
    exact reads_latestReport columns db e readers value column plan hcolumn hp
  · obtain rfl := henvironment
    obtain rfl := Option.some.inj hc
    exact hunguarded rfl
  · obtain rfl := Option.some.inj hc
    have hall : ∀ f ∈ ["report", "resource_type", "resource_title", "status"], f ≠ "report" →
        fieldColumn f = eventColumn f ∧ ["certname", "report", "environment", "resource_type",
          "resource_title", "status"].contains f = true := by decide
    obtain ⟨hcolumnOf, hfield⟩ := hall field (List.contains_iff_mem.mp htyped) hreport
    rw [← hcolumnOf]
    exact hunguarded hfield
  · obtain rfl := hnull
    obtain rfl := Option.some.inj hc
    exact reads_null columns db e readers field column plan hcolumn hp
      (List.contains_iff_mem.mp hnullable)
  · obtain rfl := Option.some.inj hc
    exact reads_nullable columns db e readers field value column plan hcolumn hp
      (List.contains_iff_mem.mp hnullable) hnull
  · obtain rfl := Option.some.inj hc
    have hall : ∀ f ∈ ["old_value", "new_value"], f ∈ serializedFields := by decide
    exact reads_serialized columns db e readers field value column plan hcolumn hp
      (hall field (List.contains_iff_mem.mp hserialized))

/-- The fields that the legacy compiler matches. -/
def regexpFields : List String :=
  ["certname", "environment", "report", "resource_type", "resource_title", "status", "property",
    "message", "file", "line", "containing_class"]

theorem planTruth_regexp (field : String) (pattern : Json) (plan : Plan (Bound E))
    (hp : planRegexp field pattern = some plan) (hfield : field ∈ regexpFields) :
    wellTyped plan = true ∧ planTruth columns db e plan = regexpTruth columns e field pattern := by
  have hall : ∀ f ∈ regexpFields, f ∉ serializedFields ∧ f ≠ "latest_report?" ∧
      ["certname", "report", "environment", "resource_type", "resource_title", "status",
        "property", "message", "file", "line", "containing_class", "corrective_change"].contains f =
          true := by decide
  obtain ⟨hserialized, hlatest, hequality⟩ := hall field hfield
  obtain ⟨column, hcolumn, hp⟩ := Option.bind_eq_some_iff.mp hp
  obtain ⟨hcolumnField, hcolumnOf⟩ := columnOf_of_queryable field column hcolumn hlatest
  have htype := type_of_queryable field column hcolumn hequality
  rw [if_neg hserialized] at hp
  split at hp
  · rw [if_neg htype.2] at hp
    obtain rfl := Option.some.inj hp
    exact ⟨by simp [wellTyped, comparable, hcolumnField], by
      simp [planTruth, compareField, hcolumnField, hcolumnOf, regexpTruth]⟩
  · cases hp

theorem reads_of_regexp (field : String) (pattern : Json) (c : Compiled E) (plan : Plan (Bound E))
    (hp : planRegexp field pattern = some plan) (hfield : field ∈ regexpFields)
    (hformed : wellFormed c.operand = !legacyRejects (.regexp (.field field) pattern))
    (htruth : field ≠ "report" →
      truth columns.semantics db e c.operand = regexpTruth columns e field pattern) :
    Reads columns db e readers (.regexp (.field field) pattern) c plan := by
  obtain ⟨htyped, hplan⟩ := planTruth_regexp columns db e field pattern plan hp hfield
  constructor
  · exact hformed
  · exact htyped
  · intro hrejects polarity
    rw [htruth (by simpa [legacyRejects] using hrejects), comesOut, decide_eq_true_eq]
  · intro _ polarity
    rw [hplan, comesOut, decide_eq_true_eq]

/-- `legacy-sql-regexp-match` of a column. -/
theorem truth_regexpMatch (column : String) (pattern : Json) :
    truth columns.semantics db e (.regexpMatch column pattern) =
      (columns.compare column "~" (.value pattern) e).and
        (.ofBool (!columns.isNull column e)) := rfl

theorem and_and_self (t u : Truth) : (t.and u).and u = t.and u := by
  cases t <;> cases u <;> rfl

theorem reads_regexp (field : String) (pattern : Json) (c : Compiled E) (plan : Plan (Bound E))
    (hc : compileResourceEventRegexp field pattern = some c)
    (hp : planRegexp field pattern = some plan) :
    Reads columns db e readers (.regexp (.field field) pattern) c plan := by
  obtain ⟨column, hcolumn, -⟩ := Option.bind_eq_some_iff.mp hp
  simp only [compileResourceEventRegexp, underscores_of_queryable field column hcolumn] at hc
  split_ifs at hc with hcertname henvironment htyped hnullable
  · obtain rfl := hcertname
    obtain rfl := Option.some.inj hc
    exact reads_of_regexp columns db e readers "certname" pattern _ plan hp (by decide) rfl
      fun _ => rfl
  · obtain rfl := henvironment
    obtain rfl := Option.some.inj hc
    exact reads_of_regexp columns db e readers "environment" pattern _ plan hp (by decide) rfl
      fun _ => rfl
  · obtain rfl := Option.some.inj hc
    have hall : ∀ f ∈ ["report", "resource_type", "resource_title", "status"], f ∈ regexpFields ∧
        knownColumns.contains (eventColumn f) = !decide (f = "report") ∧
          (f ≠ "report" → fieldColumn f = eventColumn f) := by decide
    obtain ⟨hfield, hknown, hcolumnOf⟩ := hall field (List.contains_iff_mem.mp htyped)
    apply reads_of_regexp columns db e readers field pattern _ plan hp hfield
    · simp only [Compiled.operand, Compiled.condition, Compiled.regexp, Condition.regexpMatch,
        Option.getD_some, wellFormed, hknown, Bool.and_self, legacyRejects]
    · intro hreport
      rw [regexpTruth, hcolumnOf hreport]
      exact truth_regexpMatch columns db e (eventColumn field) pattern
  · obtain rfl := Option.some.inj hc
    have hall : ∀ f ∈ ["property", "message", "file", "line", "containing_class"],
        f ∈ regexpFields ∧ f ≠ "report" ∧ fieldColumn f = eventColumn f ∧
          knownColumns.contains (eventColumn f) = true := by decide
    obtain ⟨hfield, hreport, hcolumnOf, hknown⟩ := hall field (List.contains_iff_mem.mp hnullable)
    apply reads_of_regexp columns db e readers field pattern _ plan hp hfield
    · simp only [Compiled.operand, Compiled.condition, Condition.regexpMatch, Option.getD_some,
        wellFormed, hknown, Bool.and_self, legacyRejects, hreport, decide_false, Bool.not_false]
    · intro _
      rw [regexpTruth, hcolumnOf]
      exact and_and_self _ _

theorem timestampColumn_spec (field column : String) (h : timestampColumn field = some column) :
    column = fieldColumn field ∧ knownColumns.contains column = true ∧
      field ≠ "latest_report?" ∧
        ∀ p ∈ ReportEvents.projections, p.1 = field → p.2.type = .timestamp := by
  have hall : ∀ f ∈ ["timestamp", "run_start_time", "run_end_time", "report_receive_time"],
      timestampColumn f = some (fieldColumn f) ∧ knownColumns.contains (fieldColumn f) = true ∧
        f ≠ "latest_report?" ∧
          ∀ p ∈ ReportEvents.projections, p.1 = f → p.2.type = .timestamp := by decide
  have hmem : field ∈ ["timestamp", "run_start_time", "run_end_time", "report_receive_time"] := by
    rw [timestampColumn] at h
    split_ifs at h <;> simp [*]
  obtain ⟨hcolumn, hspec⟩ := hall field hmem
  obtain rfl := Option.some.inj (hcolumn.symm.trans h)
  exact ⟨rfl, hspec⟩

theorem reads_inequality (op : Inequality) (field : String) (value : Json) (c : Compiled E)
    (plan : Plan (Bound E)) (hc : compileResourceEventInequality readers op field value = some c)
    (hp : planInequality readers op field value = some plan) :
    Reads columns db e readers (.inequality op (.field field) value) c plan := by
  obtain ⟨column, hcolumn, hc⟩ := Option.bind_eq_some_iff.mp hc
  obtain ⟨t, ht, hc⟩ := Option.bind_eq_some_iff.mp hc
  obtain rfl := Option.some.inj hc
  obtain ⟨planColumn, hplanColumn, hp⟩ := Option.bind_eq_some_iff.mp hp
  obtain ⟨rfl, hknown, hlatest, htype⟩ := timestampColumn_spec field column hcolumn
  obtain ⟨hplanField, hcolumnOf⟩ := columnOf_of_queryable field planColumn hplanColumn hlatest
  rw [if_pos (htype _ (mem_of_queryable field planColumn hplanColumn) rfl), ht] at hp
  obtain rfl := Option.some.inj hp
  have htruth : inequalityTruth columns e readers op field value =
      columns.compare (fieldColumn field) op.text (.timestamp t) e := by
    rw [inequalityTruth, ht]
    rfl
  constructor
  · simpa [Compiled.operand, Compiled.condition, Compiled.comparison, wellFormed, legacyRejects]
      using hknown
  · simp [wellTyped, comparable, hplanField, engineRejects]
  · intro _ polarity
    rw [comesOut, htruth, decide_eq_true_eq]
    rfl
  · intro _ polarity
    rw [comesOut, htruth, decide_eq_true_eq]
    simp [planTruth, compareField, hplanField, hcolumnOf]

/-! ## Whole filters -/

/-- `Reads` for the operands of a boolean operator. -/
structure ReadsAll (terms : List Term) (cs : List (Compiled E)) (plans : List (Plan (Bound E))) :
    Prop where
  wellFormed : allWellFormed (cs.map Compiled.operand) = !anyLegacyRejects terms
  wellTyped : allWellTyped plans = !anyEngineRejects terms
  legacyAll : anyLegacyRejects terms = false → ∀ polarity,
    (∀ t ∈ truths columns.semantics db e (cs.map Compiled.operand), t = .ofBool polarity) ↔
      allComeOut columns db e readers true polarity terms = true
  legacyAny : anyLegacyRejects terms = false → ∀ polarity,
    (∃ t ∈ truths columns.semantics db e (cs.map Compiled.operand), t = .ofBool polarity) ↔
      anyComesOut columns db e readers true polarity terms = true
  engineAll : anyEngineRejects terms = false → ∀ polarity,
    (∀ t ∈ planTruths columns db e plans, t = .ofBool polarity) ↔
      allComeOut columns db e readers false polarity terms = true
  engineAny : anyEngineRejects terms = false → ∀ polarity,
    (∃ t ∈ planTruths columns db e plans, t = .ofBool polarity) ↔
      anyComesOut columns db e readers false polarity terms = true

theorem readsAll_nil : ReadsAll columns db e readers [] [] ([] : List (Plan (Bound E))) := by
  constructor
  · rfl
  · rfl
  · intro _ polarity
    simp [truths, allComeOut]
  · intro _ polarity
    simp [truths, anyComesOut]
  · intro _ polarity
    simp [planTruths, allComeOut]
  · intro _ polarity
    simp [planTruths, anyComesOut]

theorem readsAll_cons (term : Term) (terms : List Term) (c : Compiled E) (cs : List (Compiled E))
    (plan : Plan (Bound E)) (plans : List (Plan (Bound E)))
    (h : Reads columns db e readers term c plan)
    (hs : ReadsAll columns db e readers terms cs plans) :
    ReadsAll columns db e readers (term :: terms) (c :: cs) (plan :: plans) := by
  constructor
  · rw [List.map_cons, allWellFormed, h.wellFormed, hs.wellFormed, anyLegacyRejects,
      Bool.not_or]
  · rw [allWellTyped, h.wellTyped, hs.wellTyped, anyEngineRejects, Bool.not_or]
  · intro hrejects polarity
    rw [anyLegacyRejects, Bool.or_eq_false_iff] at hrejects
    rw [List.map_cons, truths, List.forall_mem_cons, h.legacy hrejects.1 polarity,
      hs.legacyAll hrejects.2 polarity, allComeOut, Bool.and_eq_true]
  · intro hrejects polarity
    rw [anyLegacyRejects, Bool.or_eq_false_iff] at hrejects
    rw [List.map_cons, truths, List.exists_mem_cons_iff, h.legacy hrejects.1 polarity,
      hs.legacyAny hrejects.2 polarity, anyComesOut, Bool.or_eq_true]
  · intro hrejects polarity
    rw [anyEngineRejects, Bool.or_eq_false_iff] at hrejects
    rw [planTruths, List.forall_mem_cons, h.engine hrejects.1 polarity,
      hs.engineAll hrejects.2 polarity, allComeOut, Bool.and_eq_true]
  · intro hrejects polarity
    rw [anyEngineRejects, Bool.or_eq_false_iff] at hrejects
    rw [planTruths, List.exists_mem_cons_iff, h.engine hrejects.1 polarity,
      hs.engineAny hrejects.2 polarity, anyComesOut, Bool.or_eq_true]

theorem reads_and (terms : List Term) (cs : List (Compiled E)) (params : List (Bound E))
    (plans : List (Plan (Bound E))) (hs : ReadsAll columns db e readers terms cs plans) :
    Reads columns db e readers (.and terms)
      (.filter (some (.all (cs.map Compiled.operand))) params none) (.and plans) := by
  constructor
  · exact hs.wellFormed
  · exact hs.wellTyped
  · intro hrejects polarity
    cases polarity with
    | true =>
      rw [comesOut, if_pos rfl, ← hs.legacyAll hrejects true]
      exact Truth.all_eq_yes_iff _
    | false =>
      rw [comesOut, if_neg (by decide), ← hs.legacyAny hrejects false]
      exact Truth.all_eq_no_iff _
  · intro hrejects polarity
    cases polarity with
    | true =>
      rw [comesOut, if_pos rfl, ← hs.engineAll hrejects true, planTruth]
      exact Truth.all_eq_yes_iff _
    | false =>
      rw [comesOut, if_neg (by decide), ← hs.engineAny hrejects false, planTruth]
      exact Truth.all_eq_no_iff _

theorem reads_or (terms : List Term) (cs : List (Compiled E)) (params : List (Bound E))
    (plans : List (Plan (Bound E))) (hs : ReadsAll columns db e readers terms cs plans) :
    Reads columns db e readers (.or terms)
      (.filter (some (.any (cs.map Compiled.operand))) params none) (.or plans) := by
  constructor
  · exact hs.wellFormed
  · exact hs.wellTyped
  · intro hrejects polarity
    cases polarity with
    | true =>
      rw [comesOut, if_pos rfl, ← hs.legacyAny hrejects true]
      exact Truth.any_eq_yes_iff _
    | false =>
      rw [comesOut, if_neg (by decide), ← hs.legacyAll hrejects false]
      exact Truth.any_eq_no_iff _
  · intro hrejects polarity
    cases polarity with
    | true =>
      rw [comesOut, if_pos rfl, ← hs.engineAny hrejects true, planTruth]
      exact Truth.any_eq_yes_iff _
    | false =>
      rw [comesOut, if_neg (by decide), ← hs.engineAll hrejects false, planTruth]
      exact Truth.any_eq_no_iff _

theorem not_eq_ofBool (t : Truth) (b : Bool) : t.not = .ofBool b ↔ t = .ofBool (!b) := by
  rw [Truth.not_eq_iff, Truth.not_ofBool]

/-- A negation has one operand. -/
theorem reads_not (terms : List Term) (c d : Compiled E) (plan : Plan (Bound E))
    (hs : ReadsAll columns db e readers terms [c] [plan]) (hd : c.negate = some d) :
    Reads columns db e readers (.not terms) d (.not plan) := by
  have hoperand : d.operand = .not c.operand := by
    cases c with
    | filter condition params clause =>
      obtain rfl := Option.some.inj hd
      rfl
    | select sql params => cases hd
  constructor
  · rw [hoperand, EventFilters.wellFormed, legacyRejects, ← hs.wellFormed]
    simp [allWellFormed]
  · rw [EventFilters.wellTyped, engineRejects, ← hs.wellTyped]
    simp [allWellTyped]
  · intro hrejects polarity
    have hall := hs.legacyAll hrejects (!polarity)
    rw [comesOut, ← hall, hoperand, truth, not_eq_ofBool]
    simp [truths]
  · intro hrejects polarity
    have hall := hs.engineAll hrejects (!polarity)
    rw [comesOut, ← hall, planTruth, not_eq_ofBool]
    simp [planTruths]

mutual

theorem reads_term (term : Term) (c : Compiled E) (plan : Plan (Bound E))
    (hc : compileTerm readers .event term = some c) (hp : planTerm readers term = some plan) :
    Reads columns db e readers term c plan := by
  cases term with
  | equal path value =>
    cases path with
    | field field => exact reads_equality columns db e readers field value c plan hc hp
    | nodeActive => cases hc
    | parameter name => cases hc
  | regexp path pattern =>
    cases path with
    | field field => exact reads_regexp columns db e readers field pattern c plan hc hp
    | nodeActive => cases hc
    | parameter name => cases hc
  | inequality op path value =>
    cases path with
    | field field => exact reads_inequality columns db e readers op field value c plan hc hp
    | nodeActive => cases hc
    | parameter name => cases hc
  | and terms =>
    obtain ⟨cs, hcs, hc⟩ := Option.bind_eq_some_iff.mp hc
    rw [Compiled.boolean] at hc
    rw [planTerm] at hp
    split at hc
    · cases hc
    · split at hp
      · cases hp
      · obtain rfl := Option.some.inj hc
        obtain ⟨plans, hplans, rfl⟩ := Option.map_eq_some_iff.mp hp
        exact reads_and columns db e readers terms cs _ plans (reads_terms terms cs plans hcs hplans)
  | or terms =>
    obtain ⟨cs, hcs, hc⟩ := Option.bind_eq_some_iff.mp hc
    rw [Compiled.boolean] at hc
    rw [planTerm] at hp
    split at hc
    · cases hc
    · split at hp
      · cases hp
      · obtain rfl := Option.some.inj hc
        obtain ⟨plans, hplans, rfl⟩ := Option.map_eq_some_iff.mp hp
        exact reads_or columns db e readers terms cs _ plans (reads_terms terms cs plans hcs hplans)
  | not terms =>
    obtain ⟨cs, hcs, hc⟩ := Option.bind_eq_some_iff.mp hc
    obtain ⟨plans, hplans, hp⟩ := Option.bind_eq_some_iff.mp hp
    have hs := reads_terms terms cs plans hcs hplans
    split at hc
    · split at hp
      · obtain rfl := Option.some.inj hp
        exact reads_not columns db e readers terms _ c _ hs hc
      · cases hp
    · cases hc
  | empty => cases hp
  | extract field subquery => cases hp
  | isIn field subquery => cases hp
  | selectResources query => cases hp
  | selectFacts query => cases hp

theorem reads_terms (terms : List Term) (cs : List (Compiled E)) (plans : List (Plan (Bound E)))
    (hcs : compileTerms readers .event terms = some cs)
    (hplans : planTerms readers terms = some plans) :
    ReadsAll columns db e readers terms cs plans := by
  cases terms with
  | nil =>
    obtain rfl := Option.some.inj hcs
    obtain rfl := Option.some.inj hplans
    exact readsAll_nil columns db e readers
  | cons term terms =>
    obtain ⟨c, hc, hcs⟩ := Option.bind_eq_some_iff.mp hcs
    obtain ⟨rest, hrest, rfl⟩ := Option.map_eq_some_iff.mp hcs
    obtain ⟨plan, hp, hplans⟩ := Option.bind_eq_some_iff.mp hplans
    obtain ⟨planRest, hplanRest, rfl⟩ := Option.map_eq_some_iff.mp hplans
    exact readsAll_cons columns db e readers term terms c rest plan planRest
      (reads_term term c plan hc hp) (reads_terms terms rest planRest hrest hplanRest)

end

/-! ## Agreement -/

/-- The filter selects the event or not whichever compiler the clauses are taken from that one
compiler alone makes true, or false; and the database rejects neither statement or both. -/
def Undivided (q : Term) : Prop :=
  legacyRejects q = engineRejects q ∧ (legacyRejects q = false →
    comesOut columns db e readers true true q = comesOut columns db e readers false true q)

mutual

/-- No clause is true, or false, for one compiler alone. -/
def settled (polarity : Bool) : Term → Bool
  | .equal (.field field) value =>
    !legacyOnly columns db e polarity field value && !engineOnly columns e polarity field value
  | .and terms => allSettled polarity terms
  | .or terms => allSettled polarity terms
  | .not terms => allSettled (!polarity) terms
  | _ => true

def allSettled (polarity : Bool) : List Term → Bool
  | [] => true
  | term :: terms => settled polarity term && allSettled polarity terms

end

mutual

theorem comesOut_of_settled (polarity : Bool) (term : Term)
    (h : settled columns db e polarity term = true) :
    comesOut columns db e readers true polarity term =
      comesOut columns db e readers false polarity term := by
  cases term with
  | equal path value =>
    cases path with
    | field field =>
      simp only [settled, Bool.and_eq_true, Bool.not_eq_true'] at h
      simp only [comesOut, h.1, h.2, Bool.false_eq_true, if_false]
    | nodeActive => rfl
    | parameter name => rfl
  | and terms =>
    obtain ⟨hall, hany⟩ := comeOut_of_settled polarity terms h
    rw [comesOut, comesOut, hall, hany]
  | or terms =>
    obtain ⟨hall, hany⟩ := comeOut_of_settled polarity terms h
    rw [comesOut, comesOut, hall, hany]
  | not terms =>
    rw [comesOut, comesOut]
    exact (comeOut_of_settled (!polarity) terms h).1
  | regexp path pattern => cases path <;> rfl
  | inequality op path value => cases path <;> rfl
  | empty => rfl
  | extract field subquery => rfl
  | isIn field subquery => rfl
  | selectResources query => rfl
  | selectFacts query => rfl

theorem comeOut_of_settled (polarity : Bool) (terms : List Term)
    (h : allSettled columns db e polarity terms = true) :
    allComeOut columns db e readers true polarity terms =
        allComeOut columns db e readers false polarity terms ∧
      anyComesOut columns db e readers true polarity terms =
        anyComesOut columns db e readers false polarity terms := by
  cases terms with
  | nil => exact ⟨rfl, rfl⟩
  | cons term terms =>
    rw [allSettled, Bool.and_eq_true] at h
    obtain ⟨hall, hany⟩ := comeOut_of_settled polarity terms h.2
    have hterm := comesOut_of_settled polarity term h.1
    rw [allComeOut, allComeOut, anyComesOut, anyComesOut, hterm, hall, hany]
    exact ⟨rfl, rfl⟩

end

/-- A filter whose clauses mean the same to both compilers is undivided. -/
theorem undivided_of_settled (q : Term) (h : settled columns db e true q = true)
    (hrejects : legacyRejects q = engineRejects q) : Undivided columns db e readers q :=
  ⟨hrejects, fun _ => comesOut_of_settled columns db e readers true q h⟩

/-! ## A negated comparison of an event without a property -/

/-- A database in which the column `property` is `NULL`. -/
def withoutProperty : Columns Empty Unit where
  isNull column _ := column = "resource_events.property"
  test _ _ _ _ := false
  required := by
    have hall : ∀ column ∈ requiredColumns,
        decide (column = "resource_events.property") = false := by decide
    exact fun column hcolumn _ => hall column hcolumn

def skipped : Event Unit := ⟨1, 1, "Notify", "hello", none, none, 0, ()⟩

def oneEvent : Database Unit := ⟨[skipped], by decide, [1]⟩

def noReaders : Readers := ⟨fun _ => none, fun _ => none⟩

/-- `["=" "property" "message"]` -/
def propertyIsMessage : Term := .equal (.field "property") (.str "message")

end OpenVoxDB.EventFilters
