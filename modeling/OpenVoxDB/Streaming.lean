import OpenVoxDB.Protocols

/-!
# Streaming a query's result

A query is run, and its rows are written to the response's stream, in a thread of their own. The
thread that answers the request waits for a status, which is delivered once the first row is
there; what happens later can only be told in the stream. All of what the query holds meanwhile
is given back: the connection, the transaction, the statement, and the registration of the
connection's process with the query monitor.
-/

namespace OpenVoxDB.Streaming

open Effects Protocols

/-- What a call can throw. `invalidQuery` is an `ExceptionInfo` of one of the two kinds that are
answered with an error response; `other` is any other exception, and `fatal` what is none. -/
inductive Raised (E : Type) where
  | sql (postgres : Bool) (state : Option String)
  | io
  | jsonParse
  | illegalArgument
  | invalidQuery
  | other (e : E)
  | fatal (e : E)
  deriving DecidableEq, Repr

/-- What is thrown: by a call, by a transaction whose rollback has failed, or by the code. -/
inductive Thrown (E : Type) where
  | raised (x : Raised E)
  | rollbackFailed (rollback handling : Thrown E)
  | queryTimeout
  | quietExit
  deriving DecidableEq, Repr

inductive Status (E : Type) where
  | started (count : Option Nat)
  | failed (e : Thrown E)
  deriving DecidableEq, Repr

inductive Message where
  | queryTimeout
  | queryTerminated
  deriving DecidableEq, Repr

/-- A piece of what is written to the stream. -/
inductive Piece (Row : Type) where
  | startArray
  | row (r : Row)
  | endArray
  | message (m : Message)
  deriving DecidableEq, Repr

inductive Call (Row E : Type) where
  | openWriter
  | closeWriter
  | connect
  | disconnect
  | registerPgPid
  | forget
  | begin
  | commit
  | rollback
  | updateLocalTimeouts
  | querySql
  | getResultCount
  | prepareStatement
  | executeQuery
  | nextRow
  | cancel
  | closeResultSet
  | closeStatement
  | pastDeadline
  | write (p : Piece Row)
  | deliver (s : Status E)
  deriving DecidableEq, Repr

inductive Answer where
  | done
  | bool (b : Bool)
  | count (n : Nat)
  deriving DecidableEq, Repr

def Answer.isTrue : Answer → Bool
  | bool b => b
  | _ => false

def Answer.result : Answer → Nat
  | count n => n
  | _ => 0

variable {Row E : Type}

/-- An `IOException`, which what the JSON library throws is too. -/
def Raised.isIo : Raised E → Bool
  | io | jsonParse => true
  | _ => false

/-- `local-timeout-ex?`, of an `SQLException`. -/
def isLocalTimeout (state : Option String) : Bool :=
  state = some "57014" || state = some "25P03"

/-- An `SQLException` of the state `:admin-shutdown`. -/
def Thrown.isAdminShutdown : Thrown E → Bool
  | raised (.sql _ state) => state = some "57P01"
  | _ => false

def Thrown.isException : Thrown E → Bool
  | raised (.fatal _) => false
  | _ => true

abbrev Step (Row E α : Type) := Action (Call Row E) Answer (Raised E) (Thrown E) α

def call (c : Call Row E) : Step Row E Answer := Action.call .raised c

/-- A call for which only what it throws matters. -/
def perform (c : Call Row E) : Step Row E Unit := do
  let _ ← call c
  pure ()

def performWhen (b : Bool) (c : Call Row E) : Step Row E Unit :=
  if b then perform c else pure ()

/-! ## Connections, transactions and statements -/

def withDbConnection (body : Step Row E Unit) : Step Row E Unit := do
  let _ ← call .connect
  Action.closing body (call .disconnect)

/-- A transaction that is no part of another one. -/
def withDbTransaction (body : Step Row E Unit) : Step Row E Unit :=
  Action.transact (perform .begin) (perform .commit) (perform .rollback) .rollbackFailed body

/-- The monitor knows the process of the connection while the query runs. -/
def whileRegistered (monitored : Bool) (body : Step Row E Unit) : Step Row E Unit := do
  performWhen monitored .registerPgPid
  Action.finallyDo body (performWhen monitored .forget)

/-- Within a transaction, `f` is given the rows of a query. -/
def callWithArrayConvertedQueryRows (f : Step Row E Unit) : Step Row E Unit := do
  let _ ← call .prepareStatement
  Action.closing
    (do
      let _ ← call .executeQuery
      Action.closing
        (tryCatch f fun e => do
          performWhen e.isException .cancel
          throw e)
        (call .closeResultSet))
    (call .closeStatement)

/-! ## Rows -/

def checkDeadline (limited : Bool) : Step Row E Unit :=
  if limited then do
    let late ← call .pastDeadline
    if late.isTrue then throw .queryTimeout else pure ()
  else pure ()

/-- The next element of `time-limited-seq`, where there is a deadline, of the rows not yet
fetched. -/
def nextRow (limited : Bool) : List Row → Step Row E (Option (Row × List Row))
  | [] => do
    checkDeadline limited
    let _ ← call .nextRow
    pure none
  | r :: rows => do
    checkDeadline limited
    let _ ← call .nextRow
    checkDeadline limited
    pure (some (r, rows))

/-- The rows behind the first one, each written before the next one is fetched. -/
def writeRows (limited : Bool) : List Row → Step Row E Unit
  | [] => do
    let _ ← nextRow limited ([] : List Row)
    pure ()
  | r :: rows => do
    let _ ← nextRow limited (r :: rows)
    perform (.write (.row r))
    writeRows limited rows

/-- All rows, when the first one has been fetched. -/
def writeFrom (limited : Bool) : Option (Row × List Row) → Step Row E Unit
  | none => pure ()
  | some (r, rows) => do
    perform (.write (.row r))
    writeRows limited rows

/-- `stream-json` of a sequence whose first element has been fetched. -/
def streamJson (limited : Bool) (first : Option (Row × List Row)) : Step Row E Unit := do
  perform (.write .startArray)
  writeFrom limited first
  perform (.write .endArray)

def deliver (s : Status E) : Step Row E Unit := Action.note (.deliver s) .done

/-- What of an exception of `stream-json` is thrown on. -/
def quietly : Thrown E → Thrown E
  | .raised x => if x.isIo then .quietExit else .raised x
  | e => e

def streamRows (limited : Bool) (count : Option Nat) (rows : List Row) : Step Row E Unit := do
  let first ← nextRow limited rows
  deliver (.started count)
  tryCatch (streamJson limited first) fun e => throw (quietly e)

/-! ## The query -/

structure Context where
  /-- There is a `query-monitor-id`. -/
  monitored : Bool
  /-- There is a deadline, and it is not infinite. -/
  limited : Bool

def resultCount (counted : Bool) : Step Row E (Option Nat) :=
  if counted then do
    let n ← call .getResultCount
    pure (some n.result)
  else pure none

def runQuery (limited : Bool) (rows : List Row) : Step Row E Unit := do
  perform .updateLocalTimeouts
  let counted ← call .querySql
  let count ← resultCount counted.isTrue
  perform .updateLocalTimeouts
  callWithArrayConvertedQueryRows (streamRows limited count rows)

abbrev CallLog (Row E : Type) := Log (Call Row E) Answer (Raised E)

/-- The first status that is delivered. -/
def delivered (log : CallLog Row E) : Option (Status E) :=
  log.findSome? fun e =>
    match e.call, e.outcome with
    | .deliver s, .ok _ => some s
    | _, _ => none

/-- `realized?` of the status. -/
def realized (log : CallLog Row E) : Bool := (delivered log).isSome

/-- The two `catch` clauses around the connection. What the first throws is not caught by the
second. -/
def tellClient (e : Thrown E) : Step Row E Unit := do
  let log ← Action.past
  match e with
  | .raised (.sql postgres state) =>
    if isLocalTimeout state then throw .queryTimeout else throw (.raised (.sql postgres state))
  | .queryTimeout =>
    if realized log then perform (.write (.message .queryTimeout)) else throw .queryTimeout
  | .rollbackFailed rollback handling =>
    if realized log && handling.isAdminShutdown then
      perform (.write (.message .queryTerminated))
    else throw (.rollbackFailed rollback handling)
  | e => throw e

/-- The `catch` clause around all. -/
def conclude (e : Thrown E) : Step Row E Unit := do
  let log ← Action.past
  if realized log then
    match e with
    | .quietExit => pure ()
    | .queryTimeout => pure ()
    | .rollbackFailed rollback handling =>
      if handling.isAdminShutdown then pure () else throw (.rollbackFailed rollback handling)
    | e => throw e
  else
    match e with
    | .quietExit => pure ()
    | e => deliver (.failed e)

def serializeQueryResponse (context : Context) (rows : List Row) : Step Row E Unit :=
  tryCatch
    (do
      let _ ← call .openWriter
      Action.finallyDo
        (tryCatch
          (withDbConnection
            (whileRegistered context.monitored
              (withDbTransaction (runQuery context.limited rows))))
          tellClient)
        (call .closeWriter))
    conclude

/-! ## The response -/

inductive Response (E : Type) where
  | streaming (count : Option Nat)
  | errorResponse (e : Thrown E)
  deriving DecidableEq, Repr

/-- The `catch` clauses of `produce-streaming-body`. -/
def respondTo (e : Thrown E) : Except (Thrown E) (Response E) :=
  match e with
  | .raised .jsonParse => .ok (.errorResponse e)
  | .raised .illegalArgument => .ok (.errorResponse e)
  | .raised .invalidQuery => .ok (.errorResponse e)
  | .raised (.sql postgres state) =>
    if postgres && state = some "2201B" then .ok (.errorResponse e) else .error e
  | e => .error e

/-- What `produce-streaming-body` makes of the status, once it is delivered. -/
def produceStreamingBody (env : Environment (Call Row E) Answer (Raised E)) (context : Context)
    (rows : List Row) : Option (Except (Thrown E) (Response E)) :=
  (delivered ((serializeQueryResponse context rows).run env []).2).map fun
    | .started count => .ok (.streaming count)
    | .failed e => respondTo e

end OpenVoxDB.Streaming
