import Mathlib
import OpenVoxDB.Certnames
import OpenVoxDB.Run

/-!
# Storage of reports

`add-report!`: the newest report of a node that is not of a plan is marked as
its latest, and the mark of the report before it is taken back. Rows that carry
no mark are kept in one partition for each day; a call that finds a partition
missing is rolled back, has it created and is made once more.
-/

namespace OpenVoxDB.Reports

open Certnames

inductive ReportType where
  | agent
  | plan
  deriving DecidableEq, Repr

structure ResourceEvent where
  resourceType : String
  resourceTitle : String
  property : Option String
  timestamp : Instant
  status : String
  oldValue : Option String
  newValue : Option String
  message : Option String
  file : Option String
  line : Option Int
  name : Option String
  deriving DecidableEq, Repr

/-- The fields that `report-identity-hash` hashes. -/
structure ReportIdentity where
  certname : String
  puppetVersion : String
  reportFormat : Int
  configurationVersion : String
  startTime : Instant
  endTime : Instant
  producerTimestamp : Instant
  transactionUuid : Option String
  deriving DecidableEq, Repr

/-- A normalized report. -/
structure Report extends ReportIdentity where
  type : Option ReportType
  resourceEvents : List ResourceEvent
  deriving DecidableEq, Repr

/-- A call of `add-report!`: the configured `resource-events-ttl` and the clock with it. -/
structure Submission where
  report : Report
  ttl : Option Int
  now : Instant

/-- A row of `reports`. -/
structure ReportRow (Digest : Type) where
  id : Nat
  hash : Digest
  certname : String
  producerTimestamp : Instant
  reportType : ReportType
  latest : Bool
  deriving DecidableEq, Repr

/-- A row of `resource_events`. -/
structure EventRow (Digest : Type) where
  eventHash : Digest
  reportId : Nat
  certname : String
  timestamp : Instant
  latest : Bool
  deriving DecidableEq, Repr

/-- The tables, and the days that `reports_historical` and `resource_events_historical`
have partitions for. -/
structure ReportDb (Digest : Type) where
  statuses : Statuses
  nextId : Nat
  reports : List (ReportRow Digest)
  events : List (EventRow Digest)
  reportDays : List Int
  eventDays : List Int

/-- The hashes of a report and of an event of a report, and which reports PostgreSQL takes
once their partitions exist. -/
structure Backend (Digest : Type) where
  identity : ReportIdentity → Digest
  eventHash : Nat → ResourceEvent → Digest
  takes : Report → Bool

inductive StoreError where
  | missingReportPartition
  | noPartition
  | rejectedValue
  deriving DecidableEq, Repr

inductive Status (Digest : Type) where
  | duplicate (hash : Digest)
  | incorporated (hash : Digest)
  deriving DecidableEq, Repr

variable {Digest : Type}

def ReportDb.empty : ReportDb Digest := ⟨∅, 0, [], [], [], []⟩

/-- The UTC day of a stored time. -/
def day (t : Int) : Int := t / 86400000000000

def reportIdentityHash (B : Backend Digest) (r : Report) : Digest := B.identity r.toReportIdentity

def isLatestOf (certname : String) (row : ReportRow Digest) : Bool :=
  row.certname = certname && row.latest

/-- `latest-report-metadata` -/
def latestReportMetadata (db : ReportDb Digest) (certname : String) : Option (ReportRow Digest) :=
  db.reports.find? (isLatestOf certname)

/-- `latest = true and id = ?`, which no row satisfies when there is no previous report. -/
def ReportRow.isMarked (previous : Option (ReportRow Digest)) (row : ReportRow Digest) : Bool :=
  row.latest && previous.any fun p => row.id = p.id

def EventRow.isMarked (previous : Option (ReportRow Digest)) (row : EventRow Digest) : Bool :=
  row.latest && previous.any fun p => row.reportId = p.id

def ReportRow.retire (previous : Option (ReportRow Digest)) (row : ReportRow Digest) :
    ReportRow Digest :=
  if row.isMarked previous then { row with latest := false } else row

def EventRow.retire (previous : Option (ReportRow Digest)) (row : EventRow Digest) :
    EventRow Digest :=
  if row.isMarked previous then { row with latest := false } else row

/-- Mark the previous latest report and its events as historical. -/
def markHistorical (db : ReportDb Digest) (previous : Option (ReportRow Digest)) :
    Except StoreError (ReportDb Digest) :=
  if (db.events.filter (·.isMarked previous)).all (fun e => day e.timestamp ∈ db.eventDays) ∧
      (db.reports.filter (·.isMarked previous)).all
        (fun r => day r.producerTimestamp ∈ db.reportDays) then
    .ok { db with
      events := db.events.map (EventRow.retire previous)
      reports := db.reports.map (ReportRow.retire previous) }
  else .error .missingReportPartition

/-- `resource-event-expired?`: the event is younger than the configured time to live. -/
def resourceEventExpired (now ttl : Int) (timestamp : Int) : Bool := now - ttl < timestamp

/-- Add the row of an event unless one with its hash is there. -/
def addEventRow [DecidableEq Digest] (B : Backend Digest) (certname : String) (id : Nat)
    (latest : Bool) (rows : List (EventRow Digest)) (e : ResourceEvent) : List (EventRow Digest) :=
  let hash := B.eventHash id e
  if rows.any (·.eventHash = hash) then rows
  else rows ++ [⟨hash, id, certname, Instant.toTimestamptz e.timestamp, latest⟩]

/-- The rows of a report's events that have not expired. -/
def eventRows [DecidableEq Digest] (B : Backend Digest) (sub : Submission) (id : Nat)
    (latest : Bool) : List (EventRow Digest) :=
  let kept := sub.report.resourceEvents.filter fun e =>
    sub.ttl.all fun ttl => resourceEventExpired sub.now ttl e.timestamp
  kept.foldl (addEventRow B sub.report.certname id latest) []

/-- `save-event` -/
def saveEvent (sub : Submission) : Bool := sub.ttl ≠ some 0

/-- The event rows that are saved with a report. -/
def newEventRows [DecidableEq Digest] (B : Backend Digest) (sub : Submission) (id : Nat)
    (latest : Bool) : List (EventRow Digest) :=
  if saveEvent sub then eventRows B sub id latest else []

/-- The row of a new report. -/
def newRow (B : Backend Digest) (id : Nat) (r : Report) (latest : Bool) : ReportRow Digest where
  id := id
  hash := reportIdentityHash B r
  certname := r.certname
  producerTimestamp := Instant.toTimestamptz r.producerTimestamp
  reportType := r.type.getD .agent
  latest := latest

/-- The new row and its events, where the partitions they need exist. -/
def insertReport [DecidableEq Digest] (B : Backend Digest) (db : ReportDb Digest)
    (sub : Submission) (latest : Bool) : Except StoreError (ReportDb Digest) :=
  let row := newRow B db.nextId sub.report latest
  let events := newEventRows B sub db.nextId latest
  if B.takes sub.report = false then .error .rejectedValue
  else if latest ∨ (day row.producerTimestamp ∈ db.reportDays ∧
      ∀ e ∈ events, day e.timestamp ∈ db.eventDays) then
    .ok { db with
      nextId := db.nextId + 1
      reports := db.reports ++ [row]
      events := db.events ++ events }
  else .error .noPartition

/-- Whether a new report becomes its node's latest. -/
def isNewLatest (previous : Option (ReportRow Digest)) (r : Report) : Bool :=
  r.type ≠ some .plan && previous.all (·.producerTimestamp < r.producerTimestamp)

/-- Make way for a new latest report. -/
def retirePrevious (db : ReportDb Digest) (r : Report) : Except StoreError (ReportDb Digest) :=
  let previous := latestReportMetadata db r.certname
  if isNewLatest previous r then markHistorical db previous else .ok db

/-- `add-report!*` -/
def addReportRow [DecidableEq Digest] (B : Backend Digest) (db : ReportDb Digest)
    (sub : Submission) : Except StoreError (ReportDb Digest × Status Digest) := do
  let reportHash := reportIdentityHash B sub.report
  if db.reports.any (·.hash = reportHash) then return (db, .duplicate reportHash)
  else
    let latest := isNewLatest (latestReportMetadata db sub.report.certname) sub.report
    let db' ← retirePrevious db sub.report
    let db'' ← insertReport B db' sub latest
    return (db'', .incorporated reportHash)

/-- `store!`: one transaction. -/
def storeReport [DecidableEq Digest] (B : Backend Digest) (db : ReportDb Digest)
    (sub : Submission) : Except StoreError (ReportDb Digest × Status Digest) :=
  addReportRow B
    { db with
      statuses :=
        (maybeActivateNode db.statuses sub.report.certname sub.report.producerTimestamp).1 } sub

/-- The partitions that the previous latest report and its events are moved to. -/
def createPreviousPartitions (db : ReportDb Digest) (certname : String) : ReportDb Digest :=
  let previous := latestReportMetadata db certname
  { db with
    reportDays := previous.toList.map (fun p => day p.producerTimestamp) ++ db.reportDays
    eventDays := (db.events.filter (·.isMarked previous)).map (fun e => day e.timestamp) ++
      db.eventDays }

/-- The partitions that a new report and its events need: days of the times submitted. -/
def createNewPartitions (db : ReportDb Digest) (r : Report) : ReportDb Digest :=
  { db with
    reportDays := day r.producerTimestamp :: db.reportDays
    eventDays := r.resourceEvents.map (fun e => day e.timestamp) ++ db.eventDays }

/-- The database after a transaction: as it was when the transaction failed. -/
def settled (db : ReportDb Digest) (result : Except StoreError (ReportDb Digest × Status Digest)) :
    ReportDb Digest × Except StoreError (Status Digest) :=
  match result with
  | .ok (db', status) => (db', .ok status)
  | .error e => (db, .error e)

/-- `add-report!` -/
def addReport [DecidableEq Digest] (B : Backend Digest) (db : ReportDb Digest)
    (sub : Submission) : ReportDb Digest × Except StoreError (Status Digest) :=
  match storeReport B db sub with
  | .error .missingReportPartition =>
    let db' := createPreviousPartitions db sub.report.certname
    settled db' (storeReport B db' sub)
  | .error .noPartition =>
    let db' := createNewPartitions db sub.report
    settled db' (storeReport B db' sub)
  | result => settled db result

/-- The database after one call. -/
def store [DecidableEq Digest] (B : Backend Digest) (db : ReportDb Digest) (sub : Submission) :
    ReportDb Digest :=
  (addReport B db sub).1

/-- The latest rows of a node. -/
def latestRows (db : ReportDb Digest) (certname : String) : List (ReportRow Digest) :=
  db.reports.filter (isLatestOf certname)

/-- Exactly one row of the node is its latest, no plan's, and none of its rows that is no
plan's is newer. -/
def HasLatest (db : ReportDb Digest) (certname : String) : Prop :=
  ∃ row, latestRows db certname = [row] ∧ row.reportType ≠ .plan ∧
    ∀ r ∈ db.reports, r.certname = certname → r.reportType ≠ .plan →
      r.producerTimestamp ≤ row.producerTimestamp

/-- Every event belongs to one report, whose mark it carries. -/
def EventsMarked (db : ReportDb Digest) : Prop :=
  ∀ e ∈ db.events, ∃ r, db.reports.filter (·.id = e.reportId) = [r] ∧ e.latest = r.latest

/-- A report that is stored already. -/
def IsDuplicate (B : Backend Digest) (db : ReportDb Digest) (sub : Submission) : Prop :=
  ∃ row ∈ db.reports, row.hash = reportIdentityHash B sub.report

/-- What the tables of every database reached by calls satisfy. -/
structure Inv (B : Backend Digest) (db : ReportDb Digest) : Prop where
  idsNodup : (db.reports.map (·.id)).Nodup
  idsBelow : ∀ r ∈ db.reports, r.id < db.nextId
  hashes : ∀ r ∈ db.reports, ∃ i, r.hash = B.identity i ∧ i.certname = r.certname
  times : ∀ r ∈ db.reports, ∃ t, r.producerTimestamp = Instant.toTimestamptz t
  notPlan : ∀ r ∈ db.reports, r.latest = true → r.reportType ≠ .plan
  marked : ∀ r ∈ db.reports, r.reportType ≠ .plan → HasLatest db r.certname
  events : EventsMarked db

/-- As long as nothing deactivates a node, every node is active, those with reports included. -/
structure AllActive (db : ReportDb Digest) : Prop where
  all : ∀ (certname : String) (node : NodeStatus), db.statuses[certname]? = some node →
    node = active
  known : ∀ r ∈ db.reports, db.statuses[r.certname]? = some active

theorem inv_empty (B : Backend Digest) : Inv B ReportDb.empty where
  idsNodup := List.nodup_nil
  idsBelow := nofun
  hashes := nofun
  times := nofun
  notPlan := nofun
  marked := nofun
  events := nofun

theorem allActive_empty : AllActive (ReportDb.empty : ReportDb Digest) :=
  ⟨by simp [ReportDb.empty], nofun⟩

/-- What a database has besides its partitions. -/
structure SameTables (db db' : ReportDb Digest) : Prop where
  statuses : db'.statuses = db.statuses
  nextId : db'.nextId = db.nextId
  reports : db'.reports = db.reports
  events : db'.events = db.events

theorem inv_of_sameTables (B : Backend Digest) (db db' : ReportDb Digest)
    (h : SameTables db db') (hdb : Inv B db) : Inv B db' := by
  obtain ⟨hstatuses, hnextId, hreports, hevents⟩ := h
  cases db
  cases db'
  simp only at hstatuses hnextId hreports hevents
  subst hstatuses hnextId hreports hevents
  exact ⟨hdb.idsNodup, hdb.idsBelow, hdb.hashes, hdb.times, hdb.notPlan, hdb.marked, hdb.events⟩

/-- It does not look at the nodes' activity. -/
theorem inv_statuses (B : Backend Digest) (db : ReportDb Digest) (hdb : Inv B db)
    (statuses : Statuses) : Inv B { db with statuses := statuses } :=
  ⟨hdb.idsNodup, hdb.idsBelow, hdb.hashes, hdb.times, hdb.notPlan, hdb.marked, hdb.events⟩

theorem allActive_of_sameTables (db db' : ReportDb Digest) (h : SameTables db db')
    (hdb : AllActive db) : AllActive db' := by
  constructor
  · rw [h.statuses]
    exact hdb.all
  · rw [h.statuses, h.reports]
    exact hdb.known

@[simp] theorem retire_id (previous : Option (ReportRow Digest)) (r : ReportRow Digest) :
    (r.retire previous).id = r.id := by
  unfold ReportRow.retire
  split <;> rfl
@[simp] theorem retire_hash (previous : Option (ReportRow Digest)) (r : ReportRow Digest) :
    (r.retire previous).hash = r.hash := by
  unfold ReportRow.retire
  split <;> rfl
@[simp] theorem retire_certname (previous : Option (ReportRow Digest)) (r : ReportRow Digest) :
    (r.retire previous).certname = r.certname := by
  unfold ReportRow.retire
  split <;> rfl
@[simp] theorem retire_producerTimestamp (previous : Option (ReportRow Digest))
    (r : ReportRow Digest) : (r.retire previous).producerTimestamp = r.producerTimestamp := by
  unfold ReportRow.retire
  split <;> rfl
@[simp] theorem retire_reportType (previous : Option (ReportRow Digest)) (r : ReportRow Digest) :
    (r.retire previous).reportType = r.reportType := by
  unfold ReportRow.retire
  split <;> rfl

theorem latest_of_retire (previous : Option (ReportRow Digest)) (r : ReportRow Digest)
    (h : (r.retire previous).latest = true) : r.latest = true := by
  unfold ReportRow.retire at h
  split at h
  · cases h
  · exact h

@[simp] theorem event_retire_reportId (previous : Option (ReportRow Digest))
    (e : EventRow Digest) : (e.retire previous).reportId = e.reportId := by
  unfold EventRow.retire
  split <;> rfl

/-- An event and its report lose their marks together. -/
theorem event_retire_latest (previous : Option (ReportRow Digest)) (e : EventRow Digest)
    (r : ReportRow Digest) (hid : r.id = e.reportId) (h : e.latest = r.latest) :
    (e.retire previous).latest = (r.retire previous).latest := by
  unfold EventRow.retire ReportRow.retire EventRow.isMarked ReportRow.isMarked
  rw [h, hid]
  split <;> simp_all

/-- Rows that a map leaves alone, or that no test selects before or after it. -/
theorem filter_map_of_unselected {α : Type} (f : α → α) (q : α → Bool) (rows : List α)
    (h : ∀ r ∈ rows, f r = r ∨ q r = false ∧ q (f r) = false) :
    (rows.map f).filter q = rows.filter q := by
  induction rows with
  | nil => rfl
  | cons r rows ih =>
    have hrest := ih fun s hs => h s (List.mem_cons_of_mem _ hs)
    rw [List.map_cons]
    rcases h r List.mem_cons_self with heq | ⟨hbefore, hafter⟩
    · rw [heq, List.filter_cons, List.filter_cons, hrest]
    · rw [List.filter_cons_of_neg (by simp [hafter]), List.filter_cons_of_neg (by simp [hbefore]),
        hrest]

theorem mem_latestRows (db : ReportDb Digest) (certname : String) (r : ReportRow Digest) :
    r ∈ latestRows db certname ↔ r ∈ db.reports ∧ r.certname = certname ∧ r.latest = true := by
  simp [latestRows, isLatestOf]

/-- A node with a latest row has one, and `latest-report-metadata` finds it. -/
theorem latestReportMetadata_cases (B : Backend Digest) (db : ReportDb Digest) (hdb : Inv B db)
    (certname : String) :
    (latestReportMetadata db certname = none ∧
      ∀ r ∈ db.reports, r.certname = certname → r.latest = false ∧ r.reportType = .plan) ∨
    ∃ p, latestReportMetadata db certname = some p ∧ latestRows db certname = [p] ∧
      p ∈ db.reports ∧ p.certname = certname ∧ p.latest = true ∧
      ∀ r ∈ db.reports, r.certname = certname → r.reportType ≠ .plan →
        r.producerTimestamp ≤ p.producerTimestamp := by
  have hhead : latestReportMetadata db certname = (latestRows db certname).head? :=
    List.head?_filter.symm
  cases hmeta : latestReportMetadata db certname with
  | none =>
    refine .inl ⟨rfl, fun r hr hc => ?_⟩
    rw [hmeta] at hhead
    have hnone := List.head?_eq_none_iff.mp hhead.symm
    have hplan : r.reportType = .plan := by
      by_contra hne
      obtain ⟨row, hrow, -⟩ := hdb.marked r hr hne
      rw [hc, hnone] at hrow
      cases hrow
    refine ⟨?_, hplan⟩
    cases hlatest : r.latest with
    | false => rfl
    | true => exact absurd hplan (hdb.notPlan r hr hlatest)
  | some p =>
    rw [hmeta] at hhead
    have hp : p ∈ latestRows db certname := List.mem_of_mem_head? hhead.symm
    obtain ⟨hmem, hc, hlatest⟩ := (mem_latestRows db certname p).mp hp
    obtain ⟨row, hrow, -, hmax⟩ := hdb.marked p hmem (hdb.notPlan p hmem hlatest)
    rw [hc] at hrow hmax
    obtain rfl : p = row := by
      rw [hrow] at hp
      exact List.mem_singleton.mp hp
    exact .inr ⟨p, rfl, hrow, hmem, hc, hlatest, hmax⟩

/-- Retiring a node's latest row leaves it without one. -/
theorem latestRows_retire_self (B : Backend Digest) (db : ReportDb Digest) (hdb : Inv B db)
    (certname : String) :
    (db.reports.map (ReportRow.retire (latestReportMetadata db certname))).filter
      (isLatestOf certname) = [] := by
  refine List.filter_eq_nil_iff.mpr fun r' hr' hlatest => ?_
  obtain ⟨r, hr, rfl⟩ := List.mem_map.mp hr'
  simp only [isLatestOf, retire_certname, Bool.and_eq_true, decide_eq_true_eq] at hlatest
  obtain ⟨hc, hmark⟩ := hlatest
  have hbefore := latest_of_retire _ r hmark
  obtain ⟨-, hnone⟩ | ⟨p, hp, hrows, -⟩ := latestReportMetadata_cases B db hdb certname
  · rw [(hnone r hr hc).1] at hbefore
    cases hbefore
  · have hrp : r = p := by
      have := (mem_latestRows db certname r).mpr ⟨hr, hc, hbefore⟩
      rw [hrows] at this
      exact List.mem_singleton.mp this
    subst hrp
    rw [hp] at hmark
    simp [ReportRow.retire, ReportRow.isMarked, hbefore] at hmark

/-- It leaves other nodes the latest row they have. -/
theorem latestRows_retire_other (B : Backend Digest) (db : ReportDb Digest) (hdb : Inv B db)
    (certname other : String) (hne : other ≠ certname) :
    (db.reports.map (ReportRow.retire (latestReportMetadata db certname))).filter
      (isLatestOf other) = latestRows db other := by
  refine filter_map_of_unselected _ _ _ fun r hr => ?_
  by_cases hmarked : r.isMarked (latestReportMetadata db certname) = true
  · -- ids are unique, so the row is the one that was looked up
    obtain ⟨hnone, -⟩ | ⟨p, hp, -, hpmem, hpc, -⟩ := latestReportMetadata_cases B db hdb certname
    · simp [ReportRow.isMarked, hnone] at hmarked
    · have hid : r.id = p.id := by
        simp only [ReportRow.isMarked, hp, Option.any_some, Bool.and_eq_true,
          decide_eq_true_eq] at hmarked
        exact hmarked.2
      obtain rfl : r = p := List.inj_on_of_nodup_map hdb.idsNodup hr hpmem hid
      have hc : r.certname ≠ other := fun h => hne (h.symm.trans hpc)
      exact .inr ⟨by simp [isLatestOf, hc], by simp [isLatestOf, hc]⟩
  · exact .inl (if_neg hmarked)

section Step

variable [DecidableEq Digest]

theorem addEventRow_mem (B : Backend Digest) (certname : String) (id : Nat) (latest : Bool)
    (rows : List (EventRow Digest)) (e : ResourceEvent)
    (h : ∀ row ∈ rows, row.reportId = id ∧ row.latest = latest) :
    ∀ row ∈ addEventRow B certname id latest rows e, row.reportId = id ∧ row.latest = latest := by
  unfold addEventRow
  simp only
  split
  · exact h
  · intro row hrow
    rcases List.mem_append.mp hrow with hold | hnew
    · exact h row hold
    · rw [List.mem_singleton.mp hnew]
      exact ⟨rfl, rfl⟩

/-- The rows of a report's events carry its id and its mark. -/
theorem newEventRows_mem (B : Backend Digest) (sub : Submission) (id : Nat) (latest : Bool) :
    ∀ row ∈ newEventRows B sub id latest, row.reportId = id ∧ row.latest = latest := by
  unfold newEventRows eventRows
  split
  · exact List.foldlRecOn _ _ (b := []) nofun
      fun rows h e _ => addEventRow_mem B sub.report.certname id latest rows e h
  · exact nofun

/-- The report rows after a new report, but for its own. -/
def olderReports (db : ReportDb Digest) (r : Report) : List (ReportRow Digest) :=
  let previous := latestReportMetadata db r.certname
  if isNewLatest previous r then db.reports.map (ReportRow.retire previous) else db.reports

def olderEvents (db : ReportDb Digest) (r : Report) : List (EventRow Digest) :=
  let previous := latestReportMetadata db r.certname
  if isNewLatest previous r then db.events.map (EventRow.retire previous) else db.events

omit [DecidableEq Digest] in
theorem markHistorical_eq_ok (db db' : ReportDb Digest) (previous : Option (ReportRow Digest))
    (h : markHistorical db previous = .ok db') :
    db' = { db with
      events := db.events.map (EventRow.retire previous)
      reports := db.reports.map (ReportRow.retire previous) } := by
  unfold markHistorical at h
  split at h
  · cases h
    rfl
  · cases h

omit [DecidableEq Digest] in
theorem retirePrevious_eq_ok (db db' : ReportDb Digest) (r : Report)
    (h : retirePrevious db r = .ok db') :
    db' = { db with events := olderEvents db r, reports := olderReports db r } := by
  unfold retirePrevious at h
  unfold olderEvents olderReports
  by_cases hnew : isNewLatest (latestReportMetadata db r.certname) r = true
  · simp only [if_pos hnew] at h ⊢
    exact markHistorical_eq_ok db db' _ h
  · simp only [if_neg hnew, Except.ok.injEq] at h ⊢
    exact h.symm

theorem insertReport_eq_ok (B : Backend Digest) (db db' : ReportDb Digest) (sub : Submission)
    (latest : Bool) (h : insertReport B db sub latest = .ok db') :
    ∃ newEvents, (∀ e ∈ newEvents, e.reportId = db.nextId ∧ e.latest = latest) ∧
      db' = { db with
        nextId := db.nextId + 1
        reports := db.reports ++ [newRow B db.nextId sub.report latest]
        events := db.events ++ newEvents } := by
  refine ⟨_, newEventRows_mem B sub db.nextId latest, ?_⟩
  unfold insertReport at h
  simp only at h
  by_cases htakes : B.takes sub.report = false
  · rw [if_pos htakes] at h
    cases h
  · rw [if_neg htakes] at h
    split at h
    · exact (Except.ok.inj h).symm
    · cases h

/-- What a transaction that succeeds has done. -/
theorem addReportRow_cases (B : Backend Digest) (db db' : ReportDb Digest) (sub : Submission)
    (status : Status Digest) (h : addReportRow B db sub = .ok (db', status)) :
    IsDuplicate B db sub ∧ db' = db ∧ status = .duplicate (reportIdentityHash B sub.report) ∨
      ∃ latest newEvents, status = .incorporated (reportIdentityHash B sub.report) ∧
        latest = isNewLatest (latestReportMetadata db sub.report.certname) sub.report ∧
        (∀ e ∈ newEvents, e.reportId = db.nextId ∧ e.latest = latest) ∧
        db' = { db with
          nextId := db.nextId + 1
          reports := olderReports db sub.report ++ [newRow B db.nextId sub.report latest]
          events := olderEvents db sub.report ++ newEvents } := by
  unfold addReportRow at h
  simp only at h
  by_cases hdup : (db.reports.any (·.hash = reportIdentityHash B sub.report)) = true
  · rw [if_pos hdup] at h
    cases h
    exact .inl ⟨by simpa [IsDuplicate] using hdup, rfl, rfl⟩
  · rw [if_neg hdup] at h
    cases hretire : retirePrevious db sub.report with
    | error e =>
      rw [hretire] at h
      cases h
    | ok db₁ =>
      rw [hretire] at h
      simp only [bind, Except.bind] at h
      have hdb₁ := retirePrevious_eq_ok db db₁ _ hretire
      cases hinsert : insertReport B db₁ sub
          (isNewLatest (latestReportMetadata db sub.report.certname) sub.report) with
      | error e =>
        rw [hinsert] at h
        cases h
      | ok db₂ =>
        rw [hinsert] at h
        cases h
        obtain ⟨newEvents, hnew, hdb₂⟩ := insertReport_eq_ok B db₁ _ sub _ hinsert
        rw [hdb₁] at hnew hdb₂
        exact .inr ⟨_, newEvents, rfl, rfl, hnew, hdb₂⟩

end Step

/-- Whatever becomes of its mark, an older row keeps its other columns. -/
theorem mem_olderReports (db : ReportDb Digest) (r : Report) (row : ReportRow Digest)
    (h : row ∈ olderReports db r) : ∃ old ∈ db.reports, row.id = old.id ∧ row.hash = old.hash ∧
      row.certname = old.certname ∧ row.producerTimestamp = old.producerTimestamp ∧
      row.reportType = old.reportType ∧ (row.latest = true → old.latest = true) := by
  unfold olderReports at h
  simp only at h
  split at h
  · obtain ⟨old, hold, rfl⟩ := List.mem_map.mp h
    exact ⟨old, hold, by simp, by simp, by simp, by simp, by simp, latest_of_retire _ old⟩
  · exact ⟨row, h, rfl, rfl, rfl, rfl, rfl, id⟩

theorem olderReports_ids (db : ReportDb Digest) (r : Report) :
    (olderReports db r).map (·.id) = db.reports.map (·.id) := by
  unfold olderReports
  simp only
  split
  · rw [List.map_map]
    exact List.map_congr_left fun old _ => retire_id _ old
  · rfl

/-- The latest rows after a new report: its own when it is the latest, with no other left. -/
theorem latestRows_add (B : Backend Digest) (db : ReportDb Digest) (hdb : Inv B db) (r : Report)
    (id : Nat) (certname : String) :
    (olderReports db r ++ [newRow B id r (isNewLatest (latestReportMetadata db r.certname) r)]).filter
        (isLatestOf certname) =
      if certname = r.certname ∧ isNewLatest (latestReportMetadata db r.certname) r = true then
        [newRow B id r true]
      else latestRows db certname := by
  rw [List.filter_append]
  unfold olderReports
  simp only
  cases hnew : isNewLatest (latestReportMetadata db r.certname) r with
  | false => simp [isLatestOf, newRow, latestRows]
  | true =>
    by_cases hc : certname = r.certname
    · rw [hc, if_pos rfl, latestRows_retire_self B db hdb r.certname]
      simp [isLatestOf, newRow]
    · rw [if_pos rfl, latestRows_retire_other B db hdb r.certname certname hc]
      simp [isLatestOf, newRow, hc, Ne.symm hc]

/-- A report that is no plan's is compared with its node's latest: it becomes the latest, or
is stored no later. -/
theorem newRow_le_latest (B : Backend Digest) (db : ReportDb Digest) (hdb : Inv B db)
    (r : Report) (htype : r.type ≠ some .plan) :
    (isNewLatest (latestReportMetadata db r.certname) r = true ∧
      ∀ row ∈ db.reports, row.certname = r.certname → row.reportType ≠ .plan →
        row.producerTimestamp ≤ Instant.toTimestamptz r.producerTimestamp) ∨
    (isNewLatest (latestReportMetadata db r.certname) r = false ∧
      ∃ p, latestRows db r.certname = [p] ∧
        Instant.toTimestamptz r.producerTimestamp ≤ p.producerTimestamp) := by
  obtain ⟨hnone, hall⟩ | ⟨p, hp, hrows, hpmem, -, -, hmax⟩ :=
    latestReportMetadata_cases B db hdb r.certname
  · refine .inl ⟨by simp [isNewLatest, hnone, htype], fun row hrow hc hne => ?_⟩
    exact absurd (hall row hrow hc).2 hne
  · obtain ⟨t, ht⟩ := hdb.times p hpmem
    by_cases hlt : p.producerTimestamp < r.producerTimestamp
    · refine .inl ⟨by simp [isNewLatest, hp, htype, hlt], fun row hrow hc hne => ?_⟩
      refine Int.le_trans (hmax row hrow hc hne) ?_
      rw [ht] at hlt ⊢
      exact Instant.le_toTimestamptz_of_le (Int.le_of_lt hlt)
    · refine .inr ⟨by simp [isNewLatest, hp, htype, hlt], p, hrows, ?_⟩
      rw [ht] at hlt ⊢
      exact Instant.toTimestamptz_le_of_le (Int.not_lt.mp hlt)

theorem newRow_reportType (B : Backend Digest) (id : Nat) (r : Report) (latest : Bool) :
    (newRow B id r latest).reportType = .plan ↔ r.type = some .plan := by
  cases h : r.type with
  | none => simp [newRow, h]
  | some type => simp [newRow, h]

/-- A new report keeps every node's latest report as the invariant has it. -/
theorem marked_add (B : Backend Digest) (db db' : ReportDb Digest) (hdb : Inv B db) (r : Report)
    (hreports : db'.reports = olderReports db r ++
      [newRow B db.nextId r (isNewLatest (latestReportMetadata db r.certname) r)]) :
    ∀ row ∈ db'.reports, row.reportType ≠ .plan → HasLatest db' row.certname := by
  intro row hrow hne
  have hlatest : latestRows db' row.certname = _ :=
    (congrArg (List.filter (isLatestOf row.certname)) hreports).trans
      (latestRows_add B db hdb r db.nextId row.certname)
  have hcases : ∀ s ∈ db'.reports, s ∈ olderReports db r ∨ s = newRow B db.nextId r
      (isNewLatest (latestReportMetadata db r.certname) r) := by
    intro s hs
    rw [hreports] at hs
    exact (List.mem_append.mp hs).imp_right List.mem_singleton.mp
  by_cases hnew : row.certname = r.certname ∧
      isNewLatest (latestReportMetadata db r.certname) r = true
  · -- the new row takes the mark, and was compared with the row that had it
    rw [if_pos hnew] at hlatest
    have htype : r.type ≠ some .plan := by
      intro h
      have := hnew.2
      simp [isNewLatest, h] at this
    refine ⟨_, hlatest, fun h => htype ((newRow_reportType B _ r true).mp h), fun s hs hc hplan => ?_⟩
    obtain ⟨-, hmax⟩ | ⟨hfalse, -⟩ := newRow_le_latest B db hdb r htype
    · rcases hcases s hs with hs | rfl
      · obtain ⟨old, hmem, -, -, hcert, htime, hold, -⟩ := mem_olderReports db r s hs
        rw [htime]
        exact hmax old hmem (by rw [← hcert, hc, hnew.1]) (by rwa [← hold])
      · exact Int.le_refl _
    · rw [hnew.2] at hfalse
      cases hfalse
  · rw [if_neg hnew] at hlatest
    have hbefore : HasLatest db row.certname := by
      rcases hcases row hrow with hmem | rfl
      · obtain ⟨old, hmem, -, -, hcert, -, hold, -⟩ := mem_olderReports db r row hmem
        rw [hcert]
        exact hdb.marked old hmem (by rwa [← hold])
      · have htype : r.type ≠ some .plan := fun h => hne ((newRow_reportType B _ r _).mpr h)
        obtain ⟨htrue, -⟩ | ⟨-, p, hrows, -⟩ := newRow_le_latest B db hdb r htype
        · exact absurd ⟨rfl, htrue⟩ hnew
        · obtain ⟨hmem, hc, hmark⟩ := (mem_latestRows db r.certname p).mp (by simp [hrows])
          have hp := hdb.marked p hmem (hdb.notPlan p hmem hmark)
          rwa [hc] at hp
    obtain ⟨p, hrows, hpne, hmax⟩ := hbefore
    refine ⟨p, hlatest.trans hrows, hpne, fun s hs hc hplan => ?_⟩
    rcases hcases s hs with hs | rfl
    · obtain ⟨old, hmem, -, -, hcert, htime, hold, -⟩ := mem_olderReports db r s hs
      rw [htime]
      exact hmax old hmem (by rw [← hcert, hc]) (by rwa [← hold])
    · have htype : r.type ≠ some .plan := fun h => hplan ((newRow_reportType B _ r _).mpr h)
      have hcert : r.certname = row.certname := hc
      obtain ⟨htrue, -⟩ | ⟨-, q, hqrows, hle⟩ := newRow_le_latest B db hdb r htype
      · exact absurd ⟨hcert.symm, htrue⟩ hnew
      · rw [hcert, hrows] at hqrows
        rw [List.singleton_inj.mp hqrows]
        exact hle

/-- A new report's events carry its mark, and older ones lose theirs with their report. -/
theorem eventsMarked_add (B : Backend Digest) (db db' : ReportDb Digest) (hdb : Inv B db)
    (r : Report) (newEvents : List (EventRow Digest)) (latest : Bool)
    (hnew : ∀ e ∈ newEvents, e.reportId = db.nextId ∧ e.latest = latest)
    (hreports : db'.reports = olderReports db r ++ [newRow B db.nextId r latest])
    (hevents : db'.events = olderEvents db r ++ newEvents) : EventsMarked db' := by
  intro e he
  rw [hevents] at he
  rw [hreports, List.filter_append]
  have hbelow : ∀ row ∈ olderReports db r, row.id < db.nextId := by
    intro row hrow
    obtain ⟨old, hmem, hid, -⟩ := mem_olderReports db r row hrow
    rw [hid]
    exact hdb.idsBelow old hmem
  rcases List.mem_append.mp he with hold | hmem
  · have hfresh : ∀ row ∈ db.reports, row.id = e.reportId → db.nextId ≠ e.reportId := by
      intro row hrow hid
      have := hdb.idsBelow row hrow
      omega
    have hkept : ∃ row, (olderReports db r).filter (·.id = e.reportId) = [row] ∧
        e.latest = row.latest ∧ ∃ row' ∈ db.reports, row'.id = e.reportId := by
      unfold olderEvents at hold
      unfold olderReports
      simp only at hold ⊢
      split at hold
      · obtain ⟨old, hmem, rfl⟩ := List.mem_map.mp hold
        obtain ⟨row, hrow, hmark⟩ := hdb.events old hmem
        have hin : row ∈ db.reports.filter (·.id = old.reportId) := by simp [hrow]
        obtain ⟨hrmem, hid⟩ := List.mem_filter.mp hin
        have hid : row.id = old.reportId := of_decide_eq_true hid
        refine ⟨row.retire (latestReportMetadata db r.certname), ?_,
          event_retire_latest _ old row hid hmark, row, hrmem, by simpa using hid⟩
        rw [if_pos (by assumption), List.filter_map, event_retire_reportId]
        have hsame : ((fun row : ReportRow Digest => decide (row.id = old.reportId)) ∘
            ReportRow.retire (latestReportMetadata db r.certname)) =
            fun row => decide (row.id = old.reportId) := by
          funext row
          simp
        rw [hsame, hrow, List.map_singleton]
      · obtain ⟨row, hrow, hmark⟩ := hdb.events e hold
        have hin : row ∈ db.reports.filter (·.id = e.reportId) := by simp [hrow]
        obtain ⟨hrmem, hid⟩ := List.mem_filter.mp hin
        rw [if_neg (by assumption)]
        exact ⟨row, hrow, hmark, row, hrmem, of_decide_eq_true hid⟩
    obtain ⟨row, hrow, hmark, row', hmem', hid'⟩ := hkept
    have hne := hfresh row' hmem' hid'
    refine ⟨row, ?_, hmark⟩
    rw [hrow]
    simp [newRow, hne]
  · obtain ⟨hid, hmark⟩ := hnew e hmem
    refine ⟨newRow B db.nextId r latest, ?_, hmark⟩
    have hnone : (olderReports db r).filter (·.id = e.reportId) = [] := by
      refine List.filter_eq_nil_iff.mpr fun row hrow => ?_
      have := hbelow row hrow
      simp only [decide_eq_true_eq]
      omega
    rw [hnone, hid]
    simp [newRow]

section Calls

variable [DecidableEq Digest]

/-- A transaction that succeeds keeps the invariant. -/
theorem inv_addReportRow (B : Backend Digest) (db db' : ReportDb Digest) (hdb : Inv B db)
    (sub : Submission) (status : Status Digest)
    (h : addReportRow B db sub = .ok (db', status)) : Inv B db' := by
  obtain ⟨-, rfl, -⟩ | ⟨latest, newEvents, -, hlatest, hnew, rfl⟩ :=
    addReportRow_cases B db db' sub status h
  · exact hdb
  · have hmem : ∀ row ∈ olderReports db sub.report ++ [newRow B db.nextId sub.report latest],
        row ∈ olderReports db sub.report ∨ row = newRow B db.nextId sub.report latest :=
      fun row hrow => (List.mem_append.mp hrow).imp_right List.mem_singleton.mp
    have hmarked := marked_add B db { db with
      nextId := db.nextId + 1
      reports := olderReports db sub.report ++ [newRow B db.nextId sub.report latest]
      events := olderEvents db sub.report ++ newEvents } hdb sub.report (by rw [hlatest])
    refine
      { idsNodup := ?_
        idsBelow := fun row hrow => ?_
        hashes := fun row hrow => ?_
        times := fun row hrow => ?_
        notPlan := fun row hrow hmark => ?_
        marked := hmarked
        events := eventsMarked_add B db _ hdb sub.report newEvents latest hnew rfl rfl }
    · simp only [List.map_append, olderReports_ids, List.map_cons, List.map_nil]
      refine List.nodup_append.mpr ⟨hdb.idsNodup, by simp, ?_⟩
      intro id hid id' hid'
      obtain ⟨old, hold, rfl⟩ := List.mem_map.mp hid
      have := hdb.idsBelow old hold
      simp only [List.mem_singleton] at hid'
      rw [hid']
      simp only [newRow]
      omega
    · rcases hmem row hrow with hrow | rfl
      · obtain ⟨old, hold, hid, -⟩ := mem_olderReports db sub.report row hrow
        have := hdb.idsBelow old hold
        show row.id < db.nextId + 1
        omega
      · exact Nat.lt_succ_self _
    · rcases hmem row hrow with hrow | rfl
      · obtain ⟨old, hold, -, hhash, hcert, -⟩ := mem_olderReports db sub.report row hrow
        rw [hhash, hcert]
        exact hdb.hashes old hold
      · exact ⟨_, rfl, rfl⟩
    · rcases hmem row hrow with hrow | rfl
      · obtain ⟨old, hold, -, -, -, htime, -⟩ := mem_olderReports db sub.report row hrow
        rw [htime]
        exact hdb.times old hold
      · exact ⟨_, rfl⟩
    · rcases hmem row hrow with hrow | rfl
      · obtain ⟨old, hold, -, -, -, -, htype, hbefore⟩ := mem_olderReports db sub.report row hrow
        rw [htype]
        exact hdb.notPlan old hold (hbefore hmark)
      · intro hplan
        have hnot := (newRow_reportType B _ _ _).mp hplan
        have htrue : isNewLatest (latestReportMetadata db sub.report.certname) sub.report = true :=
          hlatest.symm.trans hmark
        simp [isNewLatest, hnot] at htrue

/-- Everything a call does: one transaction that succeeds, or new partitions at most. -/
theorem addReport_cases (B : Backend Digest) (db : ReportDb Digest) (sub : Submission) :
    (∃ e, (addReport B db sub).2 = .error e ∧ SameTables db (store B db sub)) ∨
    ∃ db₀ status, SameTables db db₀ ∧ storeReport B db₀ sub = .ok (store B db sub, status) ∧
      (addReport B db sub).2 = .ok status := by
  have hsettled : ∀ db₀, SameTables db db₀ →
      (∃ e, (settled db₀ (storeReport B db₀ sub)).2 = .error e ∧
        SameTables db (settled db₀ (storeReport B db₀ sub)).1) ∨
      ∃ db₁ status, SameTables db db₁ ∧ storeReport B db₁ sub =
          .ok ((settled db₀ (storeReport B db₀ sub)).1, status) ∧
        (settled db₀ (storeReport B db₀ sub)).2 = .ok status := by
    intro db₀ hsame
    cases h : storeReport B db₀ sub with
    | error e => exact .inl ⟨e, rfl, hsame⟩
    | ok result => exact .inr ⟨db₀, result.2, hsame, h, rfl⟩
  have hrefl : SameTables db db := ⟨rfl, rfl, rfl, rfl⟩
  unfold store addReport
  cases h : storeReport B db sub with
  | ok result => exact .inr ⟨db, result.2, hrefl, h, rfl⟩
  | error e =>
    cases e with
    | missingReportPartition =>
      exact hsettled (createPreviousPartitions db sub.report.certname) ⟨rfl, rfl, rfl, rfl⟩
    | noPartition => exact hsettled (createNewPartitions db sub.report) ⟨rfl, rfl, rfl, rfl⟩
    | rejectedValue => exact .inl ⟨_, rfl, hrefl⟩

/-- A call keeps the invariant, whether it succeeds, needs partitions or fails. -/
theorem inv_store (B : Backend Digest) (db : ReportDb Digest) (sub : Submission)
    (hdb : Inv B db) : Inv B (store B db sub) := by
  obtain ⟨-, -, hsame⟩ | ⟨db₀, status, hsame, h, -⟩ := addReport_cases B db sub
  · exact inv_of_sameTables B db _ hsame hdb
  · exact inv_addReportRow B _ _ (inv_statuses B db₀ (inv_of_sameTables B db db₀ hsame hdb) _)
      sub status h

theorem allActive_store (B : Backend Digest) (db : ReportDb Digest) (sub : Submission)
    (hdb : AllActive db) : AllActive (store B db sub) := by
  obtain ⟨-, -, hsame⟩ | ⟨db₀, status, hsame, h, -⟩ := addReport_cases B db sub
  · exact allActive_of_sameTables db _ hsame hdb
  · have hdb₀ := allActive_of_sameTables db db₀ hsame hdb
    have hget := maybeActivateNode_of_allActive db₀.statuses sub.report.certname
      sub.report.producerTimestamp hdb₀.all
    have hknown : ∀ certname : String, db₀.statuses[certname]? = some active →
        (maybeActivateNode db₀.statuses sub.report.certname
          sub.report.producerTimestamp).1[certname]? = some active := by
      intro certname hc
      rw [hget]
      split
      · rfl
      · exact hc
    have hstatuses : (store B db sub).statuses = (maybeActivateNode db₀.statuses
        sub.report.certname sub.report.producerTimestamp).1 := by
      obtain ⟨-, he, -⟩ | ⟨latest, newEvents, -, -, -, he⟩ := addReportRow_cases B _ _ sub status h
      · rw [he]
      · rw [he]
    refine ⟨fun certname node hnode => ?_, fun r hr => ?_⟩
    · rw [hstatuses, hget] at hnode
      split at hnode
      · exact (Option.some.inj hnode).symm
      · exact hdb₀.all certname node hnode
    · rw [hstatuses]
      obtain ⟨-, he, -⟩ | ⟨latest, newEvents, -, -, -, he⟩ := addReportRow_cases B _ _ sub status h
      · rw [he] at hr
        exact hknown _ (hdb₀.known r hr)
      · rw [he] at hr
        rcases List.mem_append.mp hr with hold | hnew
        · obtain ⟨old, hmem, -, -, hcert, -⟩ := mem_olderReports _ sub.report r hold
          rw [hcert]
          exact hknown _ (hdb₀.known old hmem)
        · rw [List.mem_singleton.mp hnew, hget]
          exact if_pos rfl

/-- A report that is stored already changes nothing. -/
theorem addReport_of_duplicate (B : Backend Digest)
    (hB : ∀ i j, B.identity i = B.identity j → i.certname = j.certname) (db : ReportDb Digest)
    (hdb : Inv B db) (hactive : AllActive db) (sub : Submission) (h : IsDuplicate B db sub) :
    addReport B db sub = (db, .ok (.duplicate (reportIdentityHash B sub.report))) := by
  obtain ⟨row, hrow, hhash⟩ := h
  have hknown := hactive.known row hrow
  obtain ⟨i, hi, hcert⟩ := hdb.hashes row hrow
  rw [← hcert, hB i sub.report.toReportIdentity (hi.symm.trans hhash)] at hknown
  have hany : (db.reports.any (·.hash = reportIdentityHash B sub.report)) = true :=
    List.any_eq_true.mpr ⟨row, hrow, by simpa using hhash⟩
  have hstore : storeReport B db sub =
      .ok (db, .duplicate (reportIdentityHash B sub.report)) := by
    unfold storeReport
    rw [maybeActivateNode_of_active _ _ _ hknown]
    exact if_pos hany
  simp only [addReport, hstore, settled]

/-- Rounding moves none of the report's times to another day. -/
def SameDays (r : Report) : Prop :=
  day (Instant.toTimestamptz r.producerTimestamp) = day r.producerTimestamp ∧
    ∀ e ∈ r.resourceEvents, day (Instant.toTimestamptz e.timestamp) = day e.timestamp

theorem addEventRow_days (B : Backend Digest) (certname : String) (id : Nat) (latest : Bool)
    (events : List ResourceEvent) (rows : List (EventRow Digest)) (days : List Int)
    (hrows : ∀ row ∈ rows, day row.timestamp ∈ days)
    (hevents : ∀ e ∈ events, day (Instant.toTimestamptz e.timestamp) ∈ days) :
    ∀ row ∈ events.foldl (addEventRow B certname id latest) rows, day row.timestamp ∈ days := by
  induction events generalizing rows with
  | nil => exact hrows
  | cons e events ih =>
    refine ih _ ?_ fun f hf => hevents f (List.mem_cons_of_mem _ hf)
    unfold addEventRow
    simp only
    split
    · exact hrows
    · intro row hrow
      rcases List.mem_append.mp hrow with hold | hnew
      · exact hrows row hold
      · rw [List.mem_singleton.mp hnew]
        exact hevents e List.mem_cons_self

/-- Once the days of a report and its events have partitions, its rows are taken. -/
theorem insertReport_ok (B : Backend Digest) (db : ReportDb Digest) (sub : Submission)
    (latest : Bool) (htakes : B.takes sub.report = true) (hdays : SameDays sub.report)
    (h : latest = true ∨ day sub.report.producerTimestamp ∈ db.reportDays ∧
      ∀ e ∈ sub.report.resourceEvents, day e.timestamp ∈ db.eventDays) :
    ∃ db', insertReport B db sub latest = .ok db' := by
  unfold insertReport
  simp only
  rw [if_neg (by simp [htakes]), if_pos]
  · exact ⟨_, rfl⟩
  · refine h.imp_right fun hpart => ⟨?_, ?_⟩
    · show day (Instant.toTimestamptz _) ∈ _
      rw [hdays.1]
      exact hpart.1
    · unfold newEventRows eventRows
      split
      · refine addEventRow_days B _ _ _ _ [] _ nofun fun e he => ?_
        have hmem := (List.mem_filter.mp he).1
        rw [hdays.2 e hmem]
        exact hpart.2 e hmem
      · exact nofun

/-- The partitions that a report to be made historical, and its events, are moved to. -/
def PreviousPartitions (db : ReportDb Digest) (certname : String) : Prop :=
  (∀ e ∈ db.events, e.isMarked (latestReportMetadata db certname) = true →
    day e.timestamp ∈ db.eventDays) ∧
  (∀ r ∈ db.reports, r.isMarked (latestReportMetadata db certname) = true →
    day r.producerTimestamp ∈ db.reportDays)

/-- The partitions that a report's own rows go to, if it does not become the latest. -/
def NewPartitions (db : ReportDb Digest) (r : Report) : Prop :=
  day r.producerTimestamp ∈ db.reportDays ∧
    ∀ e ∈ r.resourceEvents, day e.timestamp ∈ db.eventDays

omit [DecidableEq Digest] in
theorem markHistorical_ok (db : ReportDb Digest) (certname : String)
    (h : PreviousPartitions db certname) :
    ∃ db', markHistorical db (latestReportMetadata db certname) = .ok db' ∧
      db'.reportDays = db.reportDays ∧ db'.eventDays = db.eventDays := by
  refine ⟨_, if_pos ⟨?_, ?_⟩, rfl, rfl⟩
  · exact List.all_eq_true.mpr fun e he =>
      decide_eq_true (h.1 e (List.mem_filter.mp he).1 (List.mem_filter.mp he).2)
  · exact List.all_eq_true.mpr fun r hr =>
      decide_eq_true (h.2 r (List.mem_filter.mp hr).1 (List.mem_filter.mp hr).2)

/-- A transaction succeeds where the partitions it needs exist. -/
theorem addReportRow_ok (B : Backend Digest) (db : ReportDb Digest) (sub : Submission)
    (htakes : B.takes sub.report = true) (hdays : SameDays sub.report)
    (h : isNewLatest (latestReportMetadata db sub.report.certname) sub.report = true ∧
        PreviousPartitions db sub.report.certname ∨
      isNewLatest (latestReportMetadata db sub.report.certname) sub.report = false ∧
        NewPartitions db sub.report) :
    ∃ result, addReportRow B db sub = .ok result := by
  unfold addReportRow
  simp only
  by_cases hdup : (db.reports.any (·.hash = reportIdentityHash B sub.report)) = true
  · exact ⟨_, if_pos hdup⟩
  · rw [if_neg hdup]
    have hmoved : ∃ db₁, retirePrevious db sub.report = .ok db₁ ∧
        (isNewLatest (latestReportMetadata db sub.report.certname) sub.report = true ∨
          NewPartitions db₁ sub.report) := by
      unfold retirePrevious
      simp only
      rcases h with ⟨hnew, hprev⟩ | ⟨hnew, hpart⟩
      · obtain ⟨db₁, hdb₁, -⟩ := markHistorical_ok db sub.report.certname hprev
        exact ⟨db₁, (if_pos hnew).trans hdb₁, .inl hnew⟩
      · exact ⟨db, if_neg (by simp [hnew]), .inr hpart⟩
    obtain ⟨db₁, hdb₁, hpart⟩ := hmoved
    obtain ⟨db₂, hdb₂⟩ := insertReport_ok B db₁ sub _ htakes hdays hpart
    refine ⟨(db₂, .incorporated (reportIdentityHash B sub.report)), ?_⟩
    rw [hdb₁]
    simp only [bind, Except.bind, hdb₂]
    rfl

omit [DecidableEq Digest] in
theorem previousPartitions_created (B : Backend Digest) (db : ReportDb Digest) (hdb : Inv B db)
    (certname : String) : PreviousPartitions (createPreviousPartitions db certname) certname := by
  refine ⟨fun e he hmark => ?_, fun r hr hmark => ?_⟩
  · refine List.mem_append_left _ (List.mem_map.mpr ⟨e, List.mem_filter.mpr ⟨he, hmark⟩, rfl⟩)
  · refine List.mem_append_left _ ?_
    have hmark : r.isMarked (latestReportMetadata db certname) = true := hmark
    obtain ⟨hnone, -⟩ | ⟨p, hp, -, hpmem, -⟩ := latestReportMetadata_cases B db hdb certname
    · simp [ReportRow.isMarked, hnone] at hmark
    · have hid : r.id = p.id := by
        simp only [ReportRow.isMarked, hp, Option.any_some, Bool.and_eq_true,
          decide_eq_true_eq] at hmark
        exact hmark.2
      rw [List.inj_on_of_nodup_map hdb.idsNodup hr hpmem hid, hp]
      simp

omit [DecidableEq Digest] in
theorem newPartitions_created (db : ReportDb Digest) (r : Report) :
    NewPartitions (createNewPartitions db r) r :=
  ⟨List.mem_cons_self, fun e he => List.mem_append_left _ (List.mem_map.mpr ⟨e, he, rfl⟩)⟩

omit [DecidableEq Digest] in
theorem retirePrevious_error (db : ReportDb Digest) (r : Report) (e : StoreError)
    (h : retirePrevious db r = .error e) : e = .missingReportPartition ∧
      isNewLatest (latestReportMetadata db r.certname) r = true := by
  unfold retirePrevious markHistorical at h
  simp only at h
  by_cases hnew : isNewLatest (latestReportMetadata db r.certname) r = true
  · rw [if_pos hnew] at h
    split at h
    · cases h
    · exact ⟨(Except.error.inj h).symm, hnew⟩
  · rw [if_neg hnew] at h
    cases h

theorem insertReport_error (B : Backend Digest) (db : ReportDb Digest) (sub : Submission)
    (latest : Bool) (htakes : B.takes sub.report = true) (e : StoreError)
    (h : insertReport B db sub latest = .error e) : e = .noPartition ∧ latest = false := by
  unfold insertReport at h
  simp only at h
  rw [if_neg (by simp [htakes])] at h
  split at h
  · cases h
  · rename_i hpart
    exact ⟨(Except.error.inj h).symm, by simpa using (not_or.mp hpart).1⟩

/-- What a transaction is short of when it fails on a report that the database takes. -/
theorem storeReport_error (B : Backend Digest) (db : ReportDb Digest) (sub : Submission)
    (htakes : B.takes sub.report = true) (e : StoreError) (h : storeReport B db sub = .error e) :
    e = .missingReportPartition ∧
        isNewLatest (latestReportMetadata db sub.report.certname) sub.report = true ∨
      e = .noPartition ∧
        isNewLatest (latestReportMetadata db sub.report.certname) sub.report = false := by
  unfold storeReport addReportRow at h
  simp only at h
  split at h
  · cases h
  · generalize hdb : ReportDb.mk _ _ _ _ _ _ = db₀ at h
    have hmeta : latestReportMetadata db₀ sub.report.certname =
        latestReportMetadata db sub.report.certname := by rw [← hdb]; rfl
    cases hretire : retirePrevious db₀ sub.report with
    | error e' =>
      rw [hretire] at h
      cases h
      rw [← hmeta]
      exact .inl (retirePrevious_error db₀ sub.report e hretire)
    | ok db₁ =>
      rw [hretire] at h
      simp only [bind, Except.bind] at h
      cases hinsert : insertReport B db₁ sub
          (isNewLatest (latestReportMetadata db₀ sub.report.certname) sub.report) with
      | error e' =>
        rw [hinsert] at h
        cases h
        rw [← hmeta]
        exact .inr (insertReport_error B db₁ sub _ htakes e hinsert)
      | ok db₂ =>
        rw [hinsert] at h
        cases h

/-- Partitions that are missing are created on demand: a report that the database takes is
stored, unless rounding moves one of its times to another day. -/
theorem addReport_ok (B : Backend Digest) (db : ReportDb Digest) (hdb : Inv B db)
    (sub : Submission) (htakes : B.takes sub.report = true) (hdays : SameDays sub.report) :
    ∃ status, (addReport B db sub).2 = .ok status := by
  unfold addReport
  cases h : storeReport B db sub with
  | ok result => exact ⟨result.2, rfl⟩
  | error e =>
    obtain ⟨rfl, hnew⟩ | ⟨rfl, hnew⟩ := storeReport_error B db sub htakes e h
    · obtain ⟨result, hresult⟩ := addReportRow_ok B
        { createPreviousPartitions db sub.report.certname with
          statuses := (maybeActivateNode db.statuses sub.report.certname
            sub.report.producerTimestamp).1 } sub htakes hdays
        (.inl ⟨hnew, previousPartitions_created B db hdb sub.report.certname⟩)
      refine ⟨result.2, ?_⟩
      show (settled _ (storeReport B (createPreviousPartitions db sub.report.certname) sub)).2 = _
      rw [show storeReport B (createPreviousPartitions db sub.report.certname) sub = .ok result
        from hresult]
      rfl
    · obtain ⟨result, hresult⟩ := addReportRow_ok B
        { createNewPartitions db sub.report with
          statuses := (maybeActivateNode db.statuses sub.report.certname
            sub.report.producerTimestamp).1 } sub htakes hdays
        (.inr ⟨hnew, newPartitions_created db sub.report⟩)
      refine ⟨result.2, ?_⟩
      show (settled _ (storeReport B (createNewPartitions db sub.report) sub)).2 = _
      rw [show storeReport B (createNewPartitions db sub.report) sub = .ok result from hresult]
      rfl

/-- After every sequence of calls each node with a report that is no plan's has one latest
report, the newest of them; events carry the mark of their report; and a report that is stored
already changes nothing. -/
theorem latest_along_run (B : Backend Digest)
    (hB : ∀ i j, B.identity i = B.identity j → i.certname = j.certname)
    (calls : List Submission) :
    let db := run (store B) ReportDb.empty calls
    (∀ r ∈ db.reports, r.reportType ≠ .plan → HasLatest db r.certname) ∧ EventsMarked db ∧
      ∀ sub, IsDuplicate B db sub →
        addReport B db sub = (db, .ok (.duplicate (reportIdentityHash B sub.report))) := by
  have hinv := run_invariant (fun db sub => inv_store B db sub) calls _ (inv_empty B)
  have hactive := run_invariant (fun db sub => allActive_store B db sub) calls _
    allActive_empty
  exact ⟨hinv.marked, hinv.events, fun sub => addReport_of_duplicate B hB _ hinv hactive sub⟩

/-- What a call does to the times of a node's latest reports: nothing, or they become that of
the new report, which is no plan's and stored no earlier. -/
theorem latestRows_store (B : Backend Digest) (db : ReportDb Digest) (hdb : Inv B db)
    (sub : Submission) :
    (latestRows (store B db sub) sub.report.certname = latestRows db sub.report.certname) ∨
      ∃ id, latestRows (store B db sub) sub.report.certname = [newRow B id sub.report true] ∧
        sub.report.type ≠ some .plan ∧ ∀ row ∈ latestRows db sub.report.certname,
          row.producerTimestamp ≤ Instant.toTimestamptz sub.report.producerTimestamp := by
  obtain ⟨-, -, hsame⟩ | ⟨db₀, status, hsame, h, -⟩ := addReport_cases B db sub
  · left
    rw [latestRows, hsame.reports, latestRows]
  · have hdb₀ := inv_statuses B db₀ (inv_of_sameTables B db db₀ hsame hdb)
      (maybeActivateNode db₀.statuses sub.report.certname sub.report.producerTimestamp).1
    obtain ⟨-, he, -⟩ | ⟨latest, newEvents, -, hlatest, -, he⟩ := addReportRow_cases B _ _ sub status h
    · left
      rw [he, latestRows, latestRows, hsame.reports]
    · have hadd := latestRows_add B _ hdb₀ sub.report db₀.nextId sub.report.certname
      rw [← hlatest] at hadd
      have hafter := (congrArg (fun d => latestRows d sub.report.certname) he).trans hadd
      have hbefore : latestRows { db₀ with statuses := (maybeActivateNode db₀.statuses
          sub.report.certname sub.report.producerTimestamp).1 } sub.report.certname =
          latestRows db sub.report.certname := by
        rw [latestRows, latestRows, hsame.reports]
      cases latest with
      | false =>
        left
        rw [hafter, if_neg (by simp), hbefore]
      | true =>
        have htype : sub.report.type ≠ some .plan := by
          intro hplan
          simp [isNewLatest, hplan] at hlatest
        refine .inr ⟨db₀.nextId, ?_, htype, fun row hrow => ?_⟩
        · rw [hafter, if_pos ⟨rfl, rfl⟩]
        · obtain ⟨-, hmax⟩ | ⟨hfalse, -⟩ := newRow_le_latest B _ hdb₀ sub.report htype
          · rw [← hbefore] at hrow
            obtain ⟨hmem, hc, hmark⟩ := (mem_latestRows _ _ row).mp hrow
            exact hmax row hmem hc (hdb₀.notPlan row hmem hmark)
          · rw [← hlatest] at hfalse
            cases hfalse

/-- Once a report that is no plan's has been stored, its node has a latest one no earlier. -/
theorem exists_latestRow_of_incorporated (B : Backend Digest) (db : ReportDb Digest)
    (hdb : Inv B db) (sub : Submission) (htype : sub.report.type ≠ some .plan) (hash : Digest)
    (h : (addReport B db sub).2 = .ok (.incorporated hash)) :
    ∃ row ∈ latestRows (store B db sub) sub.report.certname,
      Instant.toTimestamptz sub.report.producerTimestamp ≤ row.producerTimestamp := by
  obtain ⟨e, he, -⟩ | ⟨db₀, status, hsame, hstore, hstatus⟩ := addReport_cases B db sub
  · rw [he] at h
    cases h
  · rw [hstatus, Except.ok.injEq] at h
    obtain ⟨-, -, hdup⟩ | ⟨latest, newEvents, -, -, -, he⟩ := addReportRow_cases B _ _ sub status hstore
    · rw [hdup] at h
      cases h
    · have hmem : newRow B db₀.nextId sub.report latest ∈ (store B db sub).reports := by
        rw [he]
        exact List.mem_append_right _ (List.mem_singleton.mpr rfl)
      have hplan : (newRow B db₀.nextId sub.report latest).reportType ≠ .plan :=
        fun hp => htype ((newRow_reportType B _ _ _).mp hp)
      obtain ⟨row, hrow, -, hmax⟩ := (inv_store B db sub hdb).marked _ hmem hplan
      have hin : row ∈ latestRows (store B db sub) sub.report.certname :=
        hrow ▸ List.mem_singleton.mpr rfl
      exact ⟨row, hin, hmax _ hmem rfl hplan⟩

/-- A call reactivates its node when it succeeds, and leaves it as it is when it fails. -/
theorem statuses_store (B : Backend Digest) (db : ReportDb Digest) (sub : Submission) :
    (store B db sub).statuses = db.statuses ∧ (∃ e, (addReport B db sub).2 = .error e) ∨
    (store B db sub).statuses = (maybeActivateNode db.statuses sub.report.certname
      sub.report.producerTimestamp).1 := by
  obtain ⟨e, he, hsame⟩ | ⟨db₀, status, hsame, h, -⟩ := addReport_cases B db sub
  · exact .inl ⟨hsame.statuses, e, he⟩
  · right
    rw [← hsame.statuses]
    obtain ⟨-, he, -⟩ | ⟨latest, newEvents, -, -, -, he⟩ := addReportRow_cases B _ _ sub status h
    · rw [he]
    · rw [he]

end Calls

/-- Hashes that keep what they hash, and a database that takes every report. -/
def contentBackend : Backend (ReportIdentity ⊕ Nat × ResourceEvent) where
  identity := .inl
  eventHash := fun id e => .inr (id, e)
  takes := fun _ => true

/-- A report of node `n` at time `t`. -/
def simpleReport (t : Instant) (type : Option ReportType) : Submission where
  report :=
    { certname := "n"
      puppetVersion := "8"
      reportFormat := 12
      configurationVersion := "1"
      startTime := t
      endTime := t
      producerTimestamp := t
      transactionUuid := none
      type := type
      resourceEvents := [] }
  ttl := none
  now := t

theorem latest_along_run_outOfOrder :
    let db := run (store contentBackend) ReportDb.empty
      [simpleReport 2000 none, simpleReport 1000 none, simpleReport 3000 (some .plan),
        simpleReport 2000 none]
    (∀ r ∈ db.reports, r.reportType ≠ .plan → HasLatest db r.certname) ∧ EventsMarked db ∧
      ∀ sub, IsDuplicate contentBackend db sub →
        addReport contentBackend db sub =
          (db, .ok (.duplicate (reportIdentityHash contentBackend sub.report))) :=
  latest_along_run contentBackend (fun _ _ h => congrArg _ (Sum.inl.inj h)) _

end OpenVoxDB.Reports
