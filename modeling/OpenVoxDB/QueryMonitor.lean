import Mathlib
import OpenVoxDB.Run
import OpenVoxDB.SortedMap

/-!
# The query monitor

The monitor's thread ends the queries whose deadline has passed or whose client
has gone, while the threads that serve queries register and forget them. Every
event is one access to shared state, so a run is an interleaving of the threads.
Keys are registered in any state; which of them have been cancelled is not kept.
-/

namespace OpenVoxDB.QueryMonitor

variable {Key Deadline : Type}

/-- What the monitor knows of a query. The number of its registration stands for its id and
for its `pg-pid` atom, and a promise is a number as well. -/
structure Info (Key Deadline : Type) where
  query : Nat
  selectionKey : Key
  deadlineNs : Deadline
  terminated : Option Nat
  deriving DecidableEq, Repr

/-- The `queries` atom. -/
structure Queries (Key Deadline : Type) where
  selectorKeys : Key → Option (Info Key Deadline)
  deadlines : SortedMap.Entries (Deadline × Key) (Info Key Deadline)

/-- What the monitor's thread does once a query has been stopped. -/
inductive Task (Key Deadline : Type) where
  /-- `enforce-deadlines!` drops the query. -/
  | expired (deadlineNs : Deadline) (key : Key)
  /-- `stop-abandoned!` has the `rest` of its dead keys before it. -/
  | abandoned (deadKeys rest : List Key)

/-- Where the monitor's thread is. -/
inductive Phase (Key Deadline : Type) where
  | idle
  /-- `stop-query` has been called. -/
  | stopping (info : Option (Info Key Deadline)) (task : Task Key Deadline)
  /-- `terminate-query` has read the pid and waits for the database. -/
  | terminating (info : Info Key Deadline) (pid : Nat) (task : Task Key Deadline)
  | dropping (deadlineNs : Deadline) (key : Key) (failed : Bool)
  | abandoning (deadKeys rest : List Key)
  | dead

/-- The monitor and the calls of `forget`: those that wait for a promise, and the queries that
one of them has returned true for. -/
structure Monitor (Key Deadline : Type) where
  queries : Queries Key Deadline
  /-- The key of each query registered so far. -/
  keys : List Key
  pgPids : Nat → Option Nat
  promises : Nat
  delivered : List Nat
  phase : Phase Key Deadline
  waiting : List (Nat × Nat)
  forgotten : List Nat

def Monitor.start : Monitor Key Deadline :=
  ⟨⟨fun _ => none, []⟩, [], fun _ => none, 0, [], .idle, [], []⟩

inductive Event (Key Deadline : Type) where
  /-- The `swap!` of `stop-query-at-deadline-or-disconnect`. -/
  | register (key : Key) (deadlineNs : Deadline)
  /-- The query may have been dropped since its thread looked it up. -/
  | registerPgPid (query pid : Nat)
  /-- Of a query that has a pid. -/
  | forgetPgPid (query : Nat)
  /-- `forget`, with the key of the query, up to its wait for the promise. -/
  | forget (query : Nat)
  /-- A waiting `forget` finds its promise delivered. -/
  | awake (query promise : Nat)
  /-- A waiting `forget` gives up. -/
  | timeout (query promise : Nat)
  /-- The monitor's thread looks for an expired query. -/
  | enforce (now : Deadline)
  /-- The monitor's thread has found the clients of these keys gone. -/
  | abandon (deadKeys : List Key)
  /-- The next step of the monitor's thread. -/
  | proceed
  /-- The database connection throws, and the thread will end. -/
  | fail
  /-- The thread leaves its loop. -/
  | exit
  /-- The thread delivers a promise on its way out. -/
  | shutdown (promise : Nat)

section Step

variable [DecidableEq Key] [LinearOrder Deadline]

/-- Deadlines first, and then the hash codes of the keys. -/
def compareDeadlineKeys (hashCode : Key → Int) : Deadline × Key → Deadline × Key → Ordering :=
  compareLex (compareOn Prod.fst) (compareOn fun k => hashCode k.2)

variable (hashCode : Key → Int)

def dropQuery (queries : Queries Key Deadline) (deadlineNs : Deadline) (key : Key) :
    Queries Key Deadline where
  selectorKeys := Function.update queries.selectorKeys key none
  deadlines := SortedMap.dissoc (compareDeadlineKeys hashCode) (deadlineNs, key) queries.deadlines

/-- The last `swap!` of `stop-abandoned!`. A key that is not registered has no deadline, and
`nil` is no deadline of the map. -/
def dropDead (queries : Queries Key Deadline) (deadKeys : List Key) : Queries Key Deadline where
  selectorKeys := fun key => if key ∈ deadKeys then none else queries.selectorKeys key
  deadlines :=
    let deadlineKeys := deadKeys.filterMap fun key =>
      (queries.selectorKeys key).map fun info => (info.deadlineNs, key)
    deadlineKeys.foldl (fun m k => SortedMap.dissoc (compareDeadlineKeys hashCode) k m)
      queries.deadlines

def Task.next (failed : Bool) : Task Key Deadline → Phase Key Deadline
  | expired deadlineNs key => .dropping deadlineNs key failed
  | abandoned deadKeys rest => if failed then .dead else .abandoning deadKeys rest

/-- `(when terminated (deliver terminated true))` -/
def Monitor.deliver (s : Monitor Key Deadline) (terminated : Option Nat) : Monitor Key Deadline :=
  { s with delivered := terminated.toList ++ s.delivered }

def register (s : Monitor Key Deadline) (key : Key) (deadlineNs : Deadline) :
    Monitor Key Deadline :=
  match s.queries.selectorKeys key with
  | some _ => s
  | none =>
    let info := ⟨s.keys.length, key, deadlineNs, none⟩
    { s with
      queries :=
        ⟨Function.update s.queries.selectorKeys key (some info),
          SortedMap.assoc (compareDeadlineKeys hashCode) (deadlineNs, key) info
            s.queries.deadlines⟩
      keys := s.keys ++ [key] }

def forget (s : Monitor Key Deadline) (query : Nat) : Monitor Key Deadline :=
  match s.keys[query]? with
  | none => s
  | some key =>
    match s.queries.selectorKeys key with
    | none => { s with forgotten := query :: s.forgotten }
    | some info =>
      let s := { s with queries := dropQuery hashCode s.queries info.deadlineNs key }
      match info.terminated with
      | none => { s with forgotten := query :: s.forgotten }
      | some promise => { s with waiting := (query, promise) :: s.waiting }

/-- `next-expired-query!` -/
def nextExpiredQuery (s : Monitor Key Deadline) (now : Deadline) : Monitor Key Deadline :=
  match s.queries.deadlines with
  | [] => s
  | ((deadlineNs, deadKey), info) :: _ =>
    if deadlineNs ≤ now then
      let info := { info with terminated := some s.promises }
      { s with
        queries := { s.queries with
          selectorKeys := Function.update s.queries.selectorKeys deadKey (some info) }
        promises := s.promises + 1
        phase := .stopping (some info) (.expired info.deadlineNs deadKey) }
    else s

/-- The monitor's thread goes on from where it is. -/
def proceed (s : Monitor Key Deadline) : Monitor Key Deadline :=
  match s.phase with
  | .idle => s
  | .stopping none task => { s with phase := task.next false }
  | .stopping (some info) task =>
    match s.pgPids info.query with
    | none => { s.deliver info.terminated with phase := task.next false }
    | some pid => { s with phase := .terminating info pid task }
  | .terminating info _ task => { s.deliver info.terminated with phase := task.next false }
  | .dropping deadlineNs key failed =>
    { s with
      queries := dropQuery hashCode s.queries deadlineNs key
      phase := if failed then .dead else .idle }
  | .abandoning deadKeys [] =>
    { s with queries := dropDead hashCode s.queries deadKeys, phase := .idle }
  | .abandoning deadKeys (key :: rest) =>
    { s with phase := .stopping (s.queries.selectorKeys key) (.abandoned deadKeys rest) }
  | .dead => s

/-- The monitor's thread fails while it ends a query. -/
def fail (s : Monitor Key Deadline) : Monitor Key Deadline :=
  match s.phase with
  | .terminating info _ task => { s.deliver info.terminated with phase := task.next true }
  | _ => s

def step (s : Monitor Key Deadline) : Event Key Deadline → Monitor Key Deadline
  | .register key deadlineNs => register hashCode s key deadlineNs
  | .registerPgPid query pid =>
    if query < s.keys.length ∧ s.pgPids query = none then
      { s with pgPids := Function.update s.pgPids query (some pid) }
    else s
  | .forgetPgPid query => { s with pgPids := Function.update s.pgPids query none }
  | .forget query => forget hashCode s query
  | .awake query promise =>
    if (query, promise) ∈ s.waiting ∧ promise ∈ s.delivered then
      { s with
        waiting := s.waiting.erase (query, promise)
        forgotten := query :: s.forgotten }
    else s
  | .timeout query promise => { s with waiting := s.waiting.erase (query, promise) }
  | .enforce now =>
    match s.phase with
    | .idle => nextExpiredQuery s now
    | _ => s
  | .abandon deadKeys =>
    match s.phase with
    | .idle => { s with phase := .abandoning deadKeys deadKeys }
    | _ => s
  | .proceed => proceed hashCode s
  | .fail => fail s
  | .exit =>
    match s.phase with
    | .idle => { s with phase := .dead }
    | _ => s
  | .shutdown promise =>
    match s.phase with
    | .dead => if promise < s.promises then s.deliver (some promise) else s
    | _ => s

end Step

end OpenVoxDB.QueryMonitor
