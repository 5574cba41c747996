import Mathlib
import OpenVoxDB.Partitions

/-!
# What the garbage collection of partitions retains

A cut-off stands for its UTC day, and the services round theirs to it. The
comparison with the date of a partition does not: a cut-off later in the day is
also after the start of its own day, and the partition of that day is removed.
-/

namespace OpenVoxDB.Partitions

open Calendar

/-- The partitions that are there after some have been created, for the days of these instants.
What cannot be created is not there. -/
def created (tableName : String) (dates : List Int) : Table :=
  dates.foldl (fun t date => (createPartition tableName t date).getD t) Table.empty

def createdDb (reports resourceEvents : List Int) : Db :=
  ⟨created "reports" reports, created "resource_events" resourceEvents⟩

/-- A call of one of the two functions, with its cut-offs. -/
inductive Request where
  | resourceEvents (date : Int)
  | reports (reportTtl : Int) (resourceEventsTtl : Option Int)

def Request.delete (concurrently incremental : Bool) (db : Db) : Request → Option Db
  | resourceEvents date => deleteResourceEventsOlderThan concurrently date incremental db
  | reports reportTtl resourceEventsTtl =>
    deleteReportsOlderThan concurrently reportTtl resourceEventsTtl incremental db

/-- The cut-off for events: the newer one. -/
def Request.eventsCutoff : Request → Int
  | resourceEvents date => date
  | reports reportTtl resourceEventsTtl => max reportTtl (resourceEventsTtl.getD reportTtl)

def Request.reportsCutoff : Request → Option Int
  | resourceEvents _ => none
  | reports reportTtl _ => some reportTtl

/-- Every instant of the partition's day lies before the day of the cut-off. -/
def OlderThanDay (cutoff : Int) (p : Partition) : Prop :=
  ∀ t, p.start ≤ t → t < p.stop → t < truncateToDay cutoff

/-- A partition that is to be removed: any that is older, or the oldest of them. -/
def ToRemove (incremental : Bool) (cutoff : Int) (t : Table) (p : Partition) : Prop :=
  OlderThanDay cutoff p ∧
    (incremental = true → ∀ q ∈ t.children, OlderThanDay cutoff q → p.start ≤ q.start)

/-- The partitions to be removed are gone, and all others are there. -/
structure Pruned (incremental : Bool) (cutoff : Int) (before after : Table) : Prop where
  exact : ∀ p, p ∈ after.children ↔ p ∈ before.children ∧ ¬ ToRemove incremental cutoff before p
  dropped : after.stranded = []

/-- The date in each partition's name is the day of its range. -/
def NamesRead (t : Table) : Prop :=
  ∀ p ∈ t.children, tableDate p.name = some p.start ∧ p.stop = p.start + dayNs

/-- What the garbage collection promises. -/
def Retains (concurrently incremental : Bool) (request : Request) (db : Db) : Prop :=
  (∃ after, request.delete concurrently incremental db = some after ∧
    Pruned incremental request.eventsCutoff db.resourceEvents after.resourceEvents ∧
    (match request.reportsCutoff with
      | some cutoff => Pruned incremental cutoff db.reports after.reports
      | none => after.reports = db.reports)) ∧
  NamesRead db.reports ∧ NamesRead db.resourceEvents

/-- The cut-off is the start of a day, or its day has no partition, or an older partition is
removed first. -/
def Settled (incremental : Bool) (cutoff : Int) (t : Table) : Prop :=
  cutoff = truncateToDay cutoff ∨ (∀ p ∈ t.children, p.start ≠ truncateToDay cutoff) ∨
    (incremental = true ∧ ∃ p ∈ t.children, p.start < truncateToDay cutoff)

/-! ## Created partitions -/

/-- The table holds partitions for distinct days, and nothing has been detached. -/
structure Daily (tableName : String) (t : Table) : Prop where
  day : ∀ p ∈ t.children, ∃ day, (0 ≤ (ofEpochDay day).year ∧ (ofEpochDay day).year ≤ 9999) ∧
    p = partitionOf tableName day
  stranded : t.stranded = []

theorem year_of_identifier (tableName : String) (day : Int)
    (h : identifier (partitionOf tableName day).name = true) :
    0 ≤ (ofEpochDay day).year ∧ (ofEpochDay day).year ≤ 9999 := by
  have hall : ∀ c ∈ yearText (ofEpochDay day).year, (c.isAlphanum || c == '_') = true := by
    intro c hc
    apply List.all_eq_true.mp h c
    rw [toList_name, dateSuffix]
    exact List.mem_append_right _ (List.mem_cons_of_mem _ (List.mem_append_left _ hc))
  constructor
  · by_contra hlt
    have hminus := hall '-' (by simp [yearText, Int.not_le.mp hlt])
    exact absurd hminus (by decide)
  · by_contra hlt
    have hnot : ¬ (ofEpochDay day).year < 0 := by omega
    have hplus := hall '+' (by simp [yearText, hnot, hlt])
    exact absurd hplus (by decide)

theorem daily_createPartition (tableName : String) (t t' : Table) (date : Int)
    (h : Daily tableName t) (hcreated : createPartition tableName t date = some t') :
    Daily tableName t' := by
  simp only [createPartition] at hcreated
  split at hcreated
  · next hidentifier =>
    split at hcreated
    · cases hcreated
      exact h
    · cases hcreated
      refine ⟨?_, h.stranded⟩
      intro p hp
      obtain hp | hp := List.mem_append.mp hp
      · exact h.day p hp
      · exact ⟨epochDay date, year_of_identifier tableName _ hidentifier, List.mem_singleton.mp hp⟩
  · cases hcreated

theorem daily_created (tableName : String) (dates : List Int) :
    Daily tableName (created tableName dates) := by
  have hfold : ∀ t, Daily tableName t →
      Daily tableName (dates.foldl (fun t date => (createPartition tableName t date).getD t) t) := by
    intro t ht
    induction dates generalizing t with
    | nil => exact ht
    | cons date dates ih =>
      apply ih
      cases hcreated : createPartition tableName t date with
      | none => simpa only [hcreated, Option.getD_none] using ht
      | some t' => 
        simpa only [hcreated, Option.getD_some] using
          daily_createPartition tableName t t' date ht hcreated
  exact hfold Table.empty ⟨fun _ h => (by cases h), rfl⟩

theorem Daily.namesRead {tableName : String} {t : Table} (h : Daily tableName t) : NamesRead t := by
  intro p hp
  obtain ⟨day, hyear, rfl⟩ := h.day p hp
  refine ⟨tableDate_name tableName day hyear, ?_⟩
  simp only [partitionOf]
  rw [Int.add_mul, Int.one_mul]

/-- Partitions order by their names as by their days. -/
theorem Daily.name_le_iff {tableName : String} {t : Table} (h : Daily tableName t)
    {p q : Partition} (hp : p ∈ t.children) (hq : q ∈ t.children) :
    p.name ≤ q.name ↔ p.start ≤ q.start := by
  obtain ⟨m, hm, rfl⟩ := h.day p hp
  obtain ⟨n, hn, rfl⟩ := h.day q hq
  have hstart : (partitionOf tableName m).start ≤ (partitionOf tableName n).start ↔ m ≤ n := by
    simp only [partitionOf, dayNs]
    omega
  rw [hstart]
  constructor
  · intro hle
    by_contra hlt
    exact absurd (name_lt tableName (Int.not_le.mp hlt) hn hm) (not_lt.mpr hle)
  · intro hle
    obtain hlt | rfl := Int.lt_or_eq_of_le hle
    · exact (name_lt tableName hlt hm hn).le
    · exact le_refl _

theorem Daily.eq_of_start {tableName : String} {t : Table} (h : Daily tableName t)
    {p q : Partition} (hp : p ∈ t.children) (hq : q ∈ t.children) (hstart : p.start = q.start) :
    p = q := by
  obtain ⟨m, -, rfl⟩ := h.day p hp
  obtain ⟨n, -, rfl⟩ := h.day q hq
  have hday : m = n := by
    simp only [partitionOf, dayNs] at hstart
    omega
  rw [hday]

theorem Daily.eq_of_name {tableName : String} {t : Table} (h : Daily tableName t)
    {p q : Partition} (hp : p ∈ t.children) (hq : q ∈ t.children) (hname : p.name = q.name) :
    p = q := by
  apply h.eq_of_start hp hq
  exact le_antisymm ((h.name_le_iff hp hq).mp hname.le) ((h.name_le_iff hq hp).mp hname.ge)

theorem Daily.olderThanDay_iff {tableName : String} {t : Table} (h : Daily tableName t)
    (cutoff : Int) {p : Partition} (hp : p ∈ t.children) :
    OlderThanDay cutoff p ↔ p.start < truncateToDay cutoff := by
  obtain ⟨day, -, rfl⟩ := h.day p hp
  simp only [OlderThanDay, partitionOf, truncateToDay]
  constructor
  · intro hall
    exact hall (day * dayNs) (Int.le_refl _) (by unfold dayNs; omega)
  · intro hlt t _ hstop
    unfold dayNs at *
    omega

/-! ## Pruning -/

/-- What is removed: a partition that starts before the bound, or the first of them. -/
def RemovedBefore (incremental : Bool) (bound : Int) (t : Table) (p : Partition) : Prop :=
  p.start < bound ∧ (incremental = true → ∀ q ∈ t.children, q.start < bound → p.start ≤ q.start)

theorem dropAll_children (justDetach : Bool) (names : List String) (t : Table) (p : Partition) :
    p ∈ (names.foldl (dropOne justDetach) t).children ↔ p ∈ t.children ∧ p.name ∉ names := by
  induction names generalizing t with
  | nil => simp
  | cons name names ih =>
    rw [List.foldl_cons, ih]
    simp only [dropOne, List.mem_filter, decide_eq_true_eq, List.mem_cons, not_or]
    exact and_assoc

theorem dropAll_stranded (justDetach : Bool) (names : List String) (t : Table)
    (ht : t.stranded = []) :
    (names.foldl (dropOne justDetach) t).stranded = if justDetach then names else [] := by
  have hfold : ∀ t : Table, (names.foldl (dropOne justDetach) t).stranded =
      if justDetach then t.stranded ++ names else t.stranded := by
    induction names with
    | nil => simp
    | cons name names ih =>
      intro t
      rw [List.foldl_cons, ih]
      cases justDetach with
      | false => rfl
      | true => simp [dropOne]
  rw [hfold, ht]
  rfl

/-- The candidates are the partitions that start before the cut-off, the oldest one first. -/
theorem Daily.candidates_eq {tableName : String} {t : Table} (h : Daily tableName t)
    (date : Int) : ∃ names, candidates t date = some names ∧ names.Pairwise (· ≤ ·) ∧
      ∀ name, name ∈ names ↔ ∃ p ∈ t.children, p.name = name ∧ p.start < date := by
  have hread : (t.children.map Partition.name).all (fun name => (tableDate name).isSome) = true := by
    apply List.all_eq_true.mpr
    intro name hname
    obtain ⟨p, hp, rfl⟩ := List.mem_map.mp hname
    rw [(h.namesRead p hp).1]
    rfl
  refine ⟨_, if_pos hread, ?_, ?_⟩
  · have hsorted := @List.pairwise_mergeSort String (fun a b => decide (a ≤ b))
      (fun a b c hab hbc => decide_eq_true (le_trans (of_decide_eq_true hab) (of_decide_eq_true hbc)))
      (fun a b => by simpa using le_total a b)
      ((t.children.map Partition.name).filter fun name => (tableDate name).any (· < date))
    exact hsorted.imp of_decide_eq_true
  · intro name
    rw [List.mem_mergeSort, List.mem_filter, List.mem_map]
    constructor
    · rintro ⟨⟨p, hp, rfl⟩, hexpired⟩
      rw [(h.namesRead p hp).1] at hexpired
      exact ⟨p, hp, rfl, of_decide_eq_true hexpired⟩
    · rintro ⟨p, hp, rfl, hlt⟩
      refine ⟨⟨p, hp, rfl⟩, ?_⟩
      rw [(h.namesRead p hp).1]
      exact decide_eq_true hlt

theorem Daily.prune {tableName : String} {t : Table} (h : Daily tableName t) (date : Int)
    (incremental justDetach : Bool) : ∃ after removed,
      pruneDailyPartitions t date incremental justDetach = some (after, removed) ∧
      (∀ p, p ∈ after.children ↔ p ∈ t.children ∧ ¬ RemovedBefore incremental date t p) ∧
      after.stranded = if justDetach then removed else [] := by
  obtain ⟨names, hnames, hsorted, hmem⟩ := h.candidates_eq date
  have hprune : pruneDailyPartitions t date incremental justDetach =
      some ((if incremental then names.take 1 else names).foldl (dropOne justDetach) t,
        if incremental then names.take 1 else names) := by
    simp only [pruneDailyPartitions, hnames]
    rfl
  refine ⟨_, _, hprune, ?_, dropAll_stranded justDetach _ t h.stranded⟩
  intro p
  rw [dropAll_children]
  apply and_congr_right
  intro hp
  apply not_congr
  cases incremental with
  | false =>
    have hall := hmem p.name
    simp only [Bool.false_eq_true, if_false, hall]
    constructor
    · rintro ⟨q, hq, hname, hlt⟩
      rw [h.eq_of_name hq hp hname] at hlt
      exact ⟨hlt, fun hf => by cases hf⟩
    · exact fun hremoved => ⟨p, hp, rfl, hremoved.1⟩
  | true =>
    simp only [if_true]
    cases names with
    | nil =>
      constructor
      · intro hin
        cases hin
      · intro hremoved
        have hin := (hmem p.name).mpr ⟨p, hp, rfl, hremoved.1⟩
        cases hin
    | cons name names =>
      obtain ⟨oldest, holdest, hname, hlt⟩ := (hmem name).mp List.mem_cons_self
      -- The first name is that of the oldest candidate.
      have hfirst : ∀ q ∈ t.children, q.start < date → oldest.start ≤ q.start := by
        intro q hq hqlt
        apply (h.name_le_iff holdest hq).mp
        rw [hname]
        obtain heq | hin := List.mem_cons.mp ((hmem q.name).mpr ⟨q, hq, rfl, hqlt⟩)
        · exact heq.ge
        · exact (List.pairwise_cons.mp hsorted).1 q.name hin
      simp only [List.take_succ_cons, List.take_zero, List.mem_singleton]
      constructor
      · intro heq
        have hsame := h.eq_of_name hp holdest (heq.trans hname.symm)
        rw [hsame]
        exact ⟨hlt, fun _ => hfirst⟩
      · rintro ⟨hplt, hleast⟩
        have hstart := le_antisymm (hleast rfl oldest holdest hlt) (hfirst p hp hplt)
        rw [h.eq_of_start hp holdest hstart, hname]

theorem Daily.pruneTable {tableName : String} {t : Table} (h : Daily tableName t)
    (concurrently : Bool) (date : Int) (incremental : Bool) : ∃ after,
      pruneTable concurrently tableName date incremental t = some after ∧
      (∀ p, p ∈ after.children ↔ p ∈ t.children ∧ ¬ RemovedBefore incremental date t p) ∧
      after.stranded = [] := by
  obtain ⟨after, removed, hprune, hchildren, hstranded⟩ := h.prune date incremental concurrently
  cases concurrently with
  | false =>
    refine ⟨after, ?_, hchildren, hstranded⟩
    simp [Partitions.pruneTable, hprune]
  | true =>
    refine ⟨dropPartitionTables (removed ++ findStrandedPartitions tableName after) after, ?_,
      hchildren, ?_⟩
    · simp [Partitions.pruneTable, hprune]
    · have hdropped : after.stranded = removed := hstranded
      simp only [dropPartitionTables, hdropped]
      apply List.filter_eq_nil_iff.mpr
      intro name hname
      simp [hname]

/-- Removing what starts before the cut-off removes what is older than its day exactly in the
settled cases. -/
theorem Daily.removedBefore_iff {tableName : String} {t : Table} (h : Daily tableName t)
    (incremental : Bool) (cutoff : Int) :
    (∀ p ∈ t.children, RemovedBefore incremental cutoff t p ↔ ToRemove incremental cutoff t p) ↔
      Settled incremental cutoff t := by
  have hday : ∀ p ∈ t.children, p.start < cutoff ↔ p.start ≤ truncateToDay cutoff ∧
      (p.start = truncateToDay cutoff → cutoff ≠ truncateToDay cutoff) := by
    intro p hp
    obtain ⟨day, -, rfl⟩ := h.day p hp
    simp only [partitionOf, truncateToDay, epochDay, dayNs]
    omega
  have hremove : ∀ p ∈ t.children, ToRemove incremental cutoff t p ↔
      RemovedBefore incremental (truncateToDay cutoff) t p := by
    intro p hp
    simp only [ToRemove, RemovedBefore, h.olderThanDay_iff cutoff hp]
    apply and_congr_right
    intro _
    apply imp_congr_right
    intro _
    apply forall_congr'
    intro q
    apply imp_congr_right
    intro hq
    rw [h.olderThanDay_iff cutoff hq]
  constructor
  · intro hsame
    by_contra hsettled
    simp only [Settled, not_or, not_forall, not_not, not_and, not_exists] at hsettled
    obtain ⟨hcutoff, ⟨p, hp, hstart⟩, holder⟩ := hsettled
    have hplt : p.start < cutoff := (hday p hp).mpr ⟨hstart.le, fun _ => hcutoff⟩
    have hremoved : RemovedBefore incremental cutoff t p := by
      refine ⟨hplt, ?_⟩
      intro hincremental q hq _
      rw [hstart]
      exact Int.not_lt.mp (holder hincremental q hq)
    have holder := ((hremove p hp).mp ((hsame p hp).mp hremoved)).1
    omega
  · intro hsettled p hp
    rw [hremove p hp]
    obtain hcutoff | hnone | ⟨hincremental, first, hfirst, hlt⟩ := hsettled
    · rw [← hcutoff]
    · have hiff : ∀ q ∈ t.children, q.start < cutoff ↔ q.start < truncateToDay cutoff := by
        intro q hq
        have hne := hnone q hq
        rw [hday q hq]
        omega
      simp only [RemovedBefore, hiff p hp]
      apply and_congr_right
      intro _
      apply imp_congr_right
      intro _
      apply forall_congr'
      intro q
      apply imp_congr_right
      intro hq
      rw [hiff q hq]
    · have hbefore : ∀ q ∈ t.children, q.start < truncateToDay cutoff → q.start < cutoff := by
        intro q hq hqlt
        rw [hday q hq]
        omega
      constructor
      · rintro ⟨-, hleast⟩
        have hle := hleast hincremental first hfirst (hbefore first hfirst hlt)
        exact ⟨by omega, fun _ q hq hqlt => hleast hincremental q hq (hbefore q hq hqlt)⟩
      · rintro ⟨hplt, hleast⟩
        refine ⟨hbefore p hp hplt, ?_⟩
        intro _ q hq _
        by_cases hqlt : q.start < truncateToDay cutoff
        · exact hleast hincremental q hq hqlt
        · omega

/-- One table is pruned as promised exactly in the settled cases. -/
theorem Daily.pruned_iff {tableName : String} {t : Table} (h : Daily tableName t)
    (concurrently incremental : Bool) (cutoff : Int) : ∃ after,
      Partitions.pruneTable concurrently tableName cutoff incremental t = some after ∧
      (Pruned incremental cutoff t after ↔ Settled incremental cutoff t) := by
  obtain ⟨after, hprune, hchildren, hstranded⟩ := h.pruneTable concurrently cutoff incremental
  refine ⟨after, hprune, ?_⟩
  rw [← h.removedBefore_iff incremental cutoff]
  constructor
  · intro hpruned p hp
    have hexact := hpruned.exact p
    rw [hchildren p] at hexact
    have hnot := and_congr_right_iff.mp hexact hp
    exact not_iff_not.mp hnot
  · intro hsame
    refine ⟨?_, hstranded⟩
    intro p
    rw [hchildren p]
    apply and_congr_right
    intro hp
    rw [hsame p hp]

/-- The garbage collection keeps its promise exactly when each cut-off is settled. -/
theorem daily_retains_iff (db : Db) (hreports : Daily "reports" db.reports)
    (hevents : Daily "resource_events" db.resourceEvents) (concurrently incremental : Bool)
    (request : Request) :
    Retains concurrently incremental request db ↔
      Settled incremental request.eventsCutoff db.resourceEvents ∧
        ∀ cutoff, request.reportsCutoff = some cutoff → Settled incremental cutoff db.reports := by
  have hread : NamesRead db.reports ∧ NamesRead db.resourceEvents :=
    ⟨hreports.namesRead, hevents.namesRead⟩
  obtain ⟨events, hprune, hpruned⟩ :=
    hevents.pruned_iff concurrently incremental request.eventsCutoff
  cases request with
  | resourceEvents date =>
    have hdelete : (Request.resourceEvents date).delete concurrently incremental db =
        some ⟨db.reports, events⟩ := by
      simp only [Request.eventsCutoff] at hprune
      simp [Request.delete, deleteResourceEventsOlderThan, hprune]
    constructor
    · rintro ⟨⟨after, hafter, hboth, -⟩, -⟩
      rw [hdelete] at hafter
      cases hafter
      exact ⟨hpruned.mp hboth, fun _ hcutoff => by cases hcutoff⟩
    · rintro ⟨hsettled, -⟩
      exact ⟨⟨_, hdelete, hpruned.mpr hsettled, rfl⟩, hread⟩
  | reports reportTtl resourceEventsTtl =>
    obtain ⟨pruned, hprune', hpruned'⟩ := hreports.pruned_iff concurrently incremental reportTtl
    have hnewer : (if reportTtl < resourceEventsTtl.getD reportTtl then
        resourceEventsTtl.getD reportTtl else reportTtl) =
          max reportTtl (resourceEventsTtl.getD reportTtl) := by
      split <;> omega
    have hdelete : (Request.reports reportTtl resourceEventsTtl).delete concurrently incremental db =
        some ⟨pruned, events⟩ := by
      simp only [Request.eventsCutoff] at hprune
      simp [Request.delete, deleteReportsOlderThan, hnewer, hprune, hprune']
    constructor
    · rintro ⟨⟨after, hafter, hboth, hrest⟩, -⟩
      rw [hdelete] at hafter
      cases hafter
      refine ⟨hpruned.mp hboth, ?_⟩
      intro cutoff hcutoff
      cases hcutoff
      exact hpruned'.mp hrest
    · rintro ⟨hsettled, hsettled'⟩
      exact ⟨⟨_, hdelete, hpruned.mpr hsettled, hpruned'.mpr (hsettled' _ rfl)⟩, hread⟩

/-! ## The services -/

/-- What `sweep-reports!` asks for. -/
def sweepReports (now reportTtl : Int) (resourceEventsTtl : Option Int) : Request :=
  .reports (truncateToDay (now - reportTtl))
    (resourceEventsTtl.map fun ttl => truncateToDay (now - ttl))

/-- What `gc-resource-events!` asks for. -/
def gcResourceEvents (now resourceEventsTtl : Int) : Request :=
  .resourceEvents (truncateToDay (now - resourceEventsTtl))

theorem truncateToDay_truncateToDay (t : Int) : truncateToDay (truncateToDay t) = truncateToDay t := by
  unfold truncateToDay epochDay dayNs
  omega

theorem truncateToDay_max (t u : Int) :
    truncateToDay (max (truncateToDay t) (truncateToDay u)) =
      max (truncateToDay t) (truncateToDay u) := by
  obtain hle | hle := Int.le_total (truncateToDay t) (truncateToDay u)
  · rw [max_eq_right hle, truncateToDay_truncateToDay]
  · rw [max_eq_left hle, truncateToDay_truncateToDay]

/-- The services round their cut-offs, so they keep the promise. -/
theorem sweepReports_retains (db : Db) (hreports : Daily "reports" db.reports)
    (hevents : Daily "resource_events" db.resourceEvents) (concurrently incremental : Bool)
    (now reportTtl : Int) (resourceEventsTtl : Option Int) :
    Retains concurrently incremental (sweepReports now reportTtl resourceEventsTtl) db := by
  apply (daily_retains_iff db hreports hevents concurrently incremental _).mpr
  constructor
  · apply Or.inl
    cases resourceEventsTtl with
    | none => exact (truncateToDay_max (now - reportTtl) (now - reportTtl)).symm
    | some ttl => exact (truncateToDay_max (now - reportTtl) (now - ttl)).symm
  · intro cutoff hcutoff
    cases hcutoff
    exact .inl (truncateToDay_truncateToDay _).symm

theorem gcResourceEvents_retains (db : Db) (hreports : Daily "reports" db.reports)
    (hevents : Daily "resource_events" db.resourceEvents) (concurrently incremental : Bool)
    (now resourceEventsTtl : Int) :
    Retains concurrently incremental (gcResourceEvents now resourceEventsTtl) db := by
  apply (daily_retains_iff db hreports hevents concurrently incremental _).mpr
  exact ⟨.inl (truncateToDay_truncateToDay _).symm, fun _ hcutoff => by cases hcutoff⟩

/-- The partitions that have been created are retained as promised exactly when each cut-off is
settled. -/
theorem retains_iff (concurrently incremental : Bool) (reports resourceEvents : List Int)
    (request : Request) :
    Retains concurrently incremental request (createdDb reports resourceEvents) ↔
      Settled incremental request.eventsCutoff (createdDb reports resourceEvents).resourceEvents ∧
        ∀ cutoff, request.reportsCutoff = some cutoff →
          Settled incremental cutoff (createdDb reports resourceEvents).reports :=
  daily_retains_iff _ (daily_created "reports" reports)
    (daily_created "resource_events" resourceEvents) concurrently incremental request

/-- Noon of 2024-01-10. -/
def noon : Int := 1704888000000000000

/-- With noon as the cut-off, the events of that morning are removed. -/
theorem retains_fails :
    ¬ ∀ (concurrently incremental : Bool) (reports resourceEvents : List Int) (request : Request),
      Retains concurrently incremental request (createdDb reports resourceEvents) := by
  intro h
  have hevents : created "resource_events" [noon] = ⟨[partitionOf "resource_events" 19732], []⟩ := by
    decide +kernel
  obtain ⟨⟨after, hafter, hpruned, -⟩, -⟩ := h true false [] [noon] (.resourceEvents noon)
  obtain ⟨events, hprune, hsettled⟩ :=
    (daily_created "resource_events" [noon]).pruned_iff true false noon
  have hdelete : (Request.resourceEvents noon).delete true false (createdDb [] [noon]) =
      some ⟨created "reports" [], events⟩ := by
    simp [Request.delete, deleteResourceEventsOlderThan, createdDb, hprune]
  rw [hdelete] at hafter
  cases hafter
  obtain hcutoff | hnone | ⟨hincremental, -⟩ := hsettled.mp hpruned
  · exact absurd hcutoff (by decide)
  · rw [hevents] at hnone
    exact hnone _ List.mem_cons_self rfl
  · cases hincremental

end OpenVoxDB.Partitions
