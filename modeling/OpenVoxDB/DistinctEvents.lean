import Mathlib
import OpenVoxDB.LegacyQueries
import OpenVoxDB.Truth

/-!
# The distinct resources among the events

`with-latest-events` groups the events of a time window by node and resource,
takes the latest timestamp of each group and joins the events back to it. The
filter of the query comes last; only a clause for the latest reports that is the
query itself also goes into the groups.
-/

namespace OpenVoxDB.DistinctEvents

open LegacyQueries Placeholders

variable {E ρ : Type}

/-- A row of `resource_events`; `rest` stands for its other columns, its report and its
environment. -/
structure Event (ρ : Type) where
  certnameId : Nat
  reportId : Nat
  resourceType : String
  resourceTitle : String
  property : Option String
  name : Option String
  timestamp : Int
  rest : ρ
  deriving DecidableEq

/-- What an event is grouped by; two `NULL`s are the same. -/
structure Key where
  certnameId : Nat
  resourceType : String
  resourceTitle : String
  property : Option String
  name : Option String
  deriving DecidableEq

def Event.key (e : Event ρ) : Key :=
  ⟨e.certnameId, e.resourceType, e.resourceTitle, e.property, e.name⟩

/-- The events, no two alike, each with its report; and the ids in `reports_latest`. -/
structure Database (ρ : Type) where
  events : List (Event ρ)
  nodup : events.Nodup
  reportsLatest : List Nat

def Database.latest (db : Database ρ) (e : Event ρ) : Bool := db.reportsLatest.contains e.reportId

/-- What the database makes of a comparison of a column, of a column that is `NULL`, and of
other SQL. -/
structure Semantics (E ρ : Type) where
  compare : String → String → Bound E → Event ρ → Truth
  isNull : String → Event ρ → Bool
  raw : List (Piece (Bound E)) → Event ρ → Truth

section Conditions

variable (sem : Semantics E ρ) (db : Database ρ) (e : Event ρ)

mutual

/-- A condition of an event, in the logic of SQL. -/
def truth : Condition E → Truth
  | .compare column operator value => sem.compare column operator value e
  | .isNull column => .ofBool (sem.isNull column e)
  | .latestReport isIn => .ofBool (db.latest e == isIn)
  | .notNullAnd condition column => (truth condition).and (.ofBool (!sem.isNull column e))
  | .group condition => truth condition
  | .null => .unknown
  | .raw pieces => sem.raw pieces e
  | .all conditions => .all (truths conditions)
  | .any conditions => .any (truths conditions)
  | .not condition => (truth condition).not

def truths : List (Condition E) → List Truth
  | [] => []
  | condition :: conditions => truth condition :: truths conditions

end

/-- A `WHERE` keeps the row, or there is none. -/
def holds (condition : Option (Condition E)) : Bool :=
  condition.all fun c => truth sem db e c = .yes

end Conditions

/-- `distinct_start_time` and `distinct_end_time`. -/
structure Window where
  start : Int
  stop : Int

def Window.contains (w : Window) (e : Event ρ) : Bool :=
  decide (w.start ≤ e.timestamp) && decide (e.timestamp ≤ w.stop)

section Queries

variable (sem : Semantics E ρ) (db : Database ρ) (w : Window)

/-- The rows that are grouped. -/
def candidates (clause : Option (Condition E)) : List (Event ρ) :=
  db.events.filter fun e => w.contains e && holds sem db e clause

/-- `MAX(resource_events.timestamp)` of a group. -/
def latestTimestamp (events : List (Event ρ)) (k : Key) : Option Int :=
  ((events.filter fun e => e.key = k).map Event.timestamp).max?

/-- `latest_events`, before the filter: the events that are joined to a group. -/
def latestEvents (clause : Option (Condition E)) : List (Event ρ) :=
  let grouped := candidates sem db w clause
  (grouped.map Event.key).dedup.flatMap fun k =>
    db.events.filter fun e => e.key = k && latestTimestamp grouped k = some e.timestamp

/-- The rows of a query for distinct resources. -/
def distinctEvents (c : Compiled E) : List (Event ρ) :=
  (latestEvents sem db w c.latestReportClause).filter fun e => holds sem db e c.condition

end Queries

end OpenVoxDB.DistinctEvents
