import Mathlib
import OpenVoxDB.Calendar
import OpenVoxDB.Decimal

/-!
# Daily partitions

Reports and resource events are kept in a partition for each UTC day. The name of
a partition ends with its date, and garbage collection reads that date back to
decide what is older than a cut-off. Where the server can detach partitions
concurrently, they are first detached and then dropped in a transaction. Instants
count nanoseconds from the epoch.
-/

namespace OpenVoxDB.Partitions

open Calendar Decimal

/-- The nanoseconds of a day. -/
def dayNs : Int := 86400000000000

/-- The UTC day of an instant. -/
def epochDay (t : Int) : Int := t / dayNs

def truncateToDay (t : Int) : Int := epochDay t * dayNs

/-- The year field of `BASIC_ISO_DATE`, which has a sign where it exceeds four digits. -/
def yearText (year : Int) : List Char :=
  if year < 0 then '-' :: fixed 4 year.natAbs
  else if year ≤ 9999 then fixed 4 year.toNat
  else '+' :: Nat.toDigits 10 year.toNat

/-- `date-suffix` of a UTC day. -/
def dateSuffix (day : Int) : List Char :=
  let date := ofEpochDay day
  yearText date.year ++ (fixed 2 date.month.toNat ++ (fixed 2 date.day.toNat ++ ['z']))

structure Partition where
  name : String
  /-- `FOR VALUES FROM` -/
  start : Int
  /-- `TO` -/
  stop : Int
  deriving DecidableEq, Repr

/-- A partitioned table: its partitions, and the tables that have been detached from it. -/
structure Table where
  children : List Partition
  stranded : List String
  deriving DecidableEq, Repr

def Table.empty : Table := ⟨[], []⟩

def partitionOf (tableName : String) (day : Int) : Partition where
  name := tableName ++ String.ofList ('_' :: dateSuffix day)
  start := day * dayNs
  stop := (day + 1) * dayNs

/-- A name that need not be quoted. -/
def identifier (name : String) : Bool := name.toList.all fun c => c.isAlphanum || c == '_'

/-- `create table if not exists`, which fails where the name is no identifier. -/
def createPartition (tableName : String) (t : Table) (date : Int) : Option Table :=
  let partition := partitionOf tableName (epochDay date)
  if identifier partition.name then
    if partition.name ∈ t.children.map Partition.name ∨ partition.name ∈ t.stranded then some t
    else some { t with children := t.children ++ [partition] }
  else none

/-- What follows the last underscore. -/
def lastPart (table : List Char) : List Char := (table.reverse.takeWhile (· ≠ '_')).reverse

/-- `ZonedDateTime/of` throws where there is no such date. -/
def zonedDateTimeOf (year month day : Nat) : Option Int :=
  let date : Date := ⟨year, month, day⟩
  if ofEpochDay date.toEpochDay = date then some (date.toEpochDay * dayNs) else none

/-- The date in a partition's name. -/
def tableDate (table : String) : Option Int :=
  let fullDate := lastPart table.toList
  if 8 ≤ fullDate.length then do
    let year ← parse (fullDate.take 4)
    let month ← parse ((fullDate.drop 4).take 2)
    let day ← parse ((fullDate.drop 6).take 2)
    zonedDateTimeOf year month day
  else none

/-- The names of the expired partitions, unless one of the names cannot be read. -/
def candidates (t : Table) (date : Int) : Option (List String) :=
  let names := t.children.map Partition.name
  if names.all fun name => (tableDate name).isSome then
    some ((names.filter fun name => (tableDate name).any (· < date)).mergeSort (· ≤ ·))
  else none

/-- The partition is detached or dropped. -/
def dropOne (justDetach : Bool) (t : Table) (name : String) : Table where
  children := t.children.filter fun p => p.name ≠ name
  stranded := if justDetach then t.stranded ++ [name] else t.stranded

def pruneDailyPartitions (t : Table) (date : Int) (incremental justDetach : Bool) :
    Option (Table × List String) := do
  let candidates ← candidates t date
  let removed := if incremental then candidates.take 1 else candidates
  return (removed.foldl (dropOne justDetach) t, removed)

/-- Names of the form `tableName_\d\d\d\d\d\d\d\dz`. -/
def childFormat (tableName name : String) : Bool :=
  let start := tableName.toList ++ ['_']
  let rest := name.toList.drop start.length
  name.toList.take start.length == start && rest.length == 9 && (rest.take 8).all Char.isDigit &&
    rest.drop 8 == ['z']

def findStrandedPartitions (tableName : String) (t : Table) : List String :=
  t.stranded.filter (childFormat tableName)

def dropPartitionTables (names : List String) (t : Table) : Table :=
  { t with stranded := t.stranded.filter (· ∉ names) }

/-- What both versions of garbage collection do with one partitioned table. -/
def pruneTable (concurrently : Bool) (tableName : String) (date : Int) (incremental : Bool)
    (t : Table) : Option Table :=
  if concurrently then do
    let (t, detached) ← pruneDailyPartitions t date incremental true
    return dropPartitionTables (detached ++ findStrandedPartitions tableName t) t
  else do
    let (t, _) ← pruneDailyPartitions t date incremental false
    return t

structure Db where
  reports : Table
  resourceEvents : Table
  deriving DecidableEq, Repr

def deleteResourceEventsOlderThan (concurrently : Bool) (date : Int) (incremental : Bool)
    (db : Db) : Option Db := do
  let resourceEvents ← pruneTable concurrently "resource_events" date incremental db.resourceEvents
  return { db with resourceEvents := resourceEvents }

def deleteReportsOlderThan (concurrently : Bool) (reportTtl : Int)
    (resourceEventsTtl : Option Int) (incremental : Bool) (db : Db) : Option Db := do
  let resourceEventsTtl := resourceEventsTtl.getD reportTtl
  let effectiveResourceEventsTtl :=
    if reportTtl < resourceEventsTtl then resourceEventsTtl else reportTtl
  let resourceEvents ← pruneTable concurrently "resource_events" effectiveResourceEventsTtl
    incremental db.resourceEvents
  let reports ← pruneTable concurrently "reports" reportTtl incremental db.reports
  return ⟨reports, resourceEvents⟩

/-! ## Names -/

theorem dateSuffix_eq (day : Int) (h : 0 ≤ (ofEpochDay day).year ∧ (ofEpochDay day).year ≤ 9999) :
    dateSuffix day = fixed 8 (ofEpochDay day).number.toNat ++ ['z'] := by
  obtain ⟨hmonth, hmonth'⟩ := ofEpochDay_month day
  obtain ⟨hday, hday'⟩ := ofEpochDay_day day
  have hnot : ¬ (ofEpochDay day).year < 0 := by omega
  have htail := fixed_append 2 2 (ofEpochDay day).month.toNat (ofEpochDay day).day.toNat (by omega)
  have hall := fixed_append 4 4 (ofEpochDay day).year.toNat
    (10 ^ 2 * (ofEpochDay day).month.toNat + (ofEpochDay day).day.toNat) (by omega)
  have hnumber : 10 ^ 4 * (ofEpochDay day).year.toNat +
      (10 ^ 2 * (ofEpochDay day).month.toNat + (ofEpochDay day).day.toNat) =
        (ofEpochDay day).number.toNat := by
    unfold Date.number
    omega
  rw [hnumber] at hall
  rw [dateSuffix, yearText, if_neg hnot, if_pos h.2, ← hall, ← htail]
  simp only [List.append_assoc]

theorem underscore_notMem_fixed (width n : Nat) : '_' ∉ fixed width n := by
  intro h
  have hdigit := isDigit_fixed width n '_' h
  exact absurd hdigit (by decide)

theorem lastPart_append (xs ys : List Char) (h : '_' ∉ ys) : lastPart (xs ++ '_' :: ys) = ys := by
  have hall : ∀ c ∈ ys.reverse, (decide (c ≠ '_')) = true := by
    intro c hc
    apply decide_eq_true
    rintro rfl
    exact h (List.mem_reverse.mp hc)
  rw [lastPart, List.reverse_append, List.reverse_cons, List.append_assoc,
    List.takeWhile_append_of_pos hall]
  simp

theorem toList_name (tableName : String) (day : Int) :
    (partitionOf tableName day).name.toList = tableName.toList ++ '_' :: dateSuffix day := by
  rw [partitionOf, String.toList_append, String.toList_ofList]

/-- The date in the name of a partition is the day of its range. -/
theorem tableDate_name (tableName : String) (day : Int)
    (h : 0 ≤ (ofEpochDay day).year ∧ (ofEpochDay day).year ≤ 9999) :
    tableDate (partitionOf tableName day).name = some (partitionOf tableName day).start := by
  obtain ⟨hmonth, hmonth'⟩ := ofEpochDay_month day
  obtain ⟨hday, hday'⟩ := ofEpochDay_day day
  have hnot : ¬ (ofEpochDay day).year < 0 := by omega
  have hsuffix : dateSuffix day = fixed 4 (ofEpochDay day).year.toNat ++
      (fixed 2 (ofEpochDay day).month.toNat ++ (fixed 2 (ofEpochDay day).day.toNat ++ ['z'])) := by
    rw [dateSuffix, yearText, if_neg hnot, if_pos h.2]
  have hpart : lastPart (partitionOf tableName day).name.toList = dateSuffix day := by
    rw [toList_name]
    apply lastPart_append
    rw [hsuffix]
    simp [underscore_notMem_fixed]
  have hyear : parse (fixed 4 (ofEpochDay day).year.toNat) = some (ofEpochDay day).year.toNat :=
    parse_fixed 4 _ (by omega) (by omega)
  have hmonths : parse (fixed 2 (ofEpochDay day).month.toNat) = some (ofEpochDay day).month.toNat :=
    parse_fixed 2 _ (by omega) (by omega)
  have hdays : parse (fixed 2 (ofEpochDay day).day.toNat) = some (ofEpochDay day).day.toNat :=
    parse_fixed 2 _ (by omega) (by omega)
  have hlength : (dateSuffix day).length = 9 := by
    rw [hsuffix]
    simp [length_fixed]
  have htake : (dateSuffix day).take 4 = fixed 4 (ofEpochDay day).year.toNat := by
    rw [hsuffix, List.take_left' (length_fixed 4 _)]
  have hrest : (dateSuffix day).drop 4 = fixed 2 (ofEpochDay day).month.toNat ++
      (fixed 2 (ofEpochDay day).day.toNat ++ ['z']) := by
    rw [hsuffix, List.drop_left' (length_fixed 4 _)]
  have hlast : (dateSuffix day).drop 6 = fixed 2 (ofEpochDay day).day.toNat ++ ['z'] := by
    have hdrop : (dateSuffix day).drop 6 = ((dateSuffix day).drop 4).drop 2 := by
      rw [List.drop_drop]
    rw [hdrop, hrest, List.drop_left' (length_fixed 2 _)]
  have hdate : (⟨(ofEpochDay day).year.toNat, (ofEpochDay day).month.toNat,
      (ofEpochDay day).day.toNat⟩ : Date) = ofEpochDay day := by
    apply Date.ext
    · exact Int.toNat_of_nonneg h.1
    · exact Int.toNat_of_nonneg (by omega)
    · exact Int.toNat_of_nonneg (by omega)
  have hzoned : zonedDateTimeOf (ofEpochDay day).year.toNat (ofEpochDay day).month.toNat
      (ofEpochDay day).day.toNat = some (day * dayNs) := by
    rw [zonedDateTimeOf, hdate, toEpochDay_ofEpochDay, if_pos rfl]
  rw [tableDate, hpart]
  simp only [hlength, htake, hrest, hlast, List.take_left' (length_fixed 2 _), hyear, hmonths, hdays,
    Option.bind_eq_bind, Option.bind_some, hzoned]
  rfl

/-- Names of later days order after names of earlier ones. -/
theorem name_lt (tableName : String) {m n : Int} (hmn : m < n)
    (hm : 0 ≤ (ofEpochDay m).year ∧ (ofEpochDay m).year ≤ 9999)
    (hn : 0 ≤ (ofEpochDay n).year ∧ (ofEpochDay n).year ≤ 9999) :
    (partitionOf tableName m).name < (partitionOf tableName n).name := by
  have hnumber := number_lt hmn
  have hmonth := ofEpochDay_month m
  have hday := ofEpochDay_day m
  have hmonth' := ofEpochDay_month n
  have hday' := ofEpochDay_day n
  apply String.lt_iff_toList_lt.mpr
  rw [toList_name, toList_name, dateSuffix_eq m hm, dateSuffix_eq n hn]
  apply List.append_left_lt
  apply List.cons_lt_cons_iff.mpr
  refine .inr ⟨rfl, lt_append (fixed_lt 8 _ _ ?_ ?_) ?_⟩
  · unfold Date.number at *
    omega
  · unfold Date.number at *
    omega
  · rw [length_fixed, length_fixed]

end OpenVoxDB.Partitions
