import OpenVoxDB.Threads

/-!
# Cleaning up

The databases are cleaned up on request and periodically, always under one lock. A cleanup shows
its status while it runs, and performs the jobs that are asked for in a fixed order: what may
remove the last reference to something comes before the job that removes what is no longer
referred to.
-/

namespace OpenVoxDB.CleanUps

open Effects Protocols Interleaving Threads

/-- `clean-options` -/
inductive CleanOption where
  | expireNodes
  | purgeNodes
  | purgeReports
  | gcPackages
  | purgeResourceEvents
  | gcFactPaths
  | gcCatalogs
  | other
  deriving DecidableEq, Repr

namespace CleanOption

def all : List CleanOption :=
  [expireNodes, purgeNodes, purgeReports, gcPackages, purgeResourceEvents, gcFactPaths, gcCatalogs,
    other]

def name : CleanOption → String
  | expireNodes => "expire_nodes"
  | purgeNodes => "purge_nodes"
  | purgeReports => "purge_reports"
  | gcPackages => "gc_packages"
  | purgeResourceEvents => "purge_resource_events"
  | gcFactPaths => "gc_fact_paths"
  | gcCatalogs => "gc_catalogs"
  | other => "other"

def status : CleanOption → String
  | expireNodes => "expiring-nodes"
  | purgeNodes => "purging-nodes"
  | purgeReports => "purging-reports"
  | gcPackages => "package-gc"
  | purgeResourceEvents => "purging-resource-events"
  | gcFactPaths => "fact-paths-gc"
  | gcCatalogs => "catalog-gc"
  | other => "other"

end CleanOption

/-- An element of a request: an option, or `purge_nodes` with its `batch_limit`. -/
inductive Element where
  | plain (o : CleanOption)
  | purgeNodes (batchLimit : Int)
  deriving DecidableEq, Repr

/-- What is asked for: nothing, an option (`true`), or `purge_nodes` with its `batch_limit`. -/
abbrev Reduced := CleanOption → Option (Option Int)

def Reduced.conj (reduced : Reduced) : Element → Reduced
  | .plain o => Function.update reduced o (some none)
  | .purgeNodes batchLimit => Function.update reduced .purgeNodes (some (some batchLimit))

/-- `reduce-clean-request`: the last element of each kind wins. -/
def reduceCleanRequest (request : List Element) : Reduced := request.foldl .conj fun _ => none

/-- An empty request asks for everything. -/
def orEverything (request : List Element) : List Element :=
  if request.isEmpty then CleanOption.all.map .plain else request

def reducedCleanRequestStatus (reduced : Reduced) : String :=
  " ".intercalate
    (((CleanOption.all.filter fun o => (reduced o).isSome).mergeSort
      fun o p => decide (o.name ≤ p.name)).map CleanOption.status)

/-- What a cleanup takes from the configuration of a database. -/
structure Config (T : Type) where
  nodeTtl : T
  nodePurgeTtl : T
  reportTtl : T
  resourceEventsTtl : T

inductive Job (T : Type) where
  | autoExpireNodes (nodeTtl : T)
  | purgeNodes (nodePurgeTtl : T) (batchLimit : Option Int)
  | sweepReports (incremental : Bool) (reportTtl : T) (resourceEventsTtl : Option T)
  | gcPackages
  | gcResourceEvents (incremental : Bool) (resourceEventsTtl : T)
  | garbageCollect
  | cleanCatalogData
  | factPathGc
  deriving DecidableEq, Repr

inductive Call (Db T : Type) where
  | tryLock
  | lock
  | unlock
  | isHeldByCurrentThread
  | resetStatus (status : String)
  | job (db : Db) (j : Job T)
  | count (db : Db) (o : CleanOption)
  deriving DecidableEq, Repr

inductive Answer where
  | done
  | bool (b : Bool)
  deriving DecidableEq, Repr

def Answer.isTrue : Answer → Bool
  | bool b => b
  | done => false

/-- What a call throws: an exception, or what is none. -/
inductive Raised (E : Type) where
  | exception (e : E)
  | fatal (e : E)
  deriving DecidableEq, Repr

inductive Thrown (E : Type) where
  | raised (x : Raised E)
  | lockNotHeld
  deriving DecidableEq, Repr

def Thrown.isException {E : Type} : Thrown E → Bool
  | raised (.fatal _) => false
  | _ => true

variable {Db T E : Type}

abbrev Step (Db T E α : Type) := Action (Call Db T) Answer (Raised E) (Thrown E) α

def call (c : Call Db T) : Step Db T E Answer := Action.call .raised c

def perform (c : Call Db T) : Step Db T E Unit := do
  let _ ← call c
  pure ()

/-- Each job logs the exceptions of the storage. -/
def runJob (db : Db) (j : Job T) : Step Db T E Unit :=
  tryCatch (perform (.job db j)) fun e => if e.isException then pure () else throw e

/-- A job, and the counters for it. -/
def clean (db : Db) (wanted : Bool) (j : Job T) (counted : List CleanOption) : Step Db T E Unit :=
  if wanted then do
    runJob db j
    Action.forEach counted fun o => perform (.count db o)
  else pure ()

/-- The jobs of `clean-up` in their order, each with what it is wanted for and its counters. -/
def jobs (config : Config T) (incremental : Bool) (reduced : Reduced) :
    List (Bool × Job T × List CleanOption) :=
  let wants (o : CleanOption) : Bool := (reduced o).isSome
  [(wants .expireNodes, .autoExpireNodes config.nodeTtl, [.expireNodes]),
    (wants .purgeNodes, .purgeNodes config.nodePurgeTtl ((reduced .purgeNodes).getD none),
      [.purgeNodes]),
    (wants .purgeReports && !wants .purgeResourceEvents,
      .sweepReports incremental config.reportTtl none, [.purgeReports]),
    -- one sweep for both, where both are asked for
    (wants .purgeReports && wants .purgeResourceEvents,
      .sweepReports incremental config.reportTtl (some config.resourceEventsTtl),
      [.purgeReports, .purgeResourceEvents]),
    (wants .gcPackages, .gcPackages, [.gcPackages]),
    (wants .purgeResourceEvents && !wants .purgeReports,
      .gcResourceEvents incremental config.resourceEventsTtl, [.purgeResourceEvents]),
    (wants .other, .garbageCollect, [.other]),
    (wants .gcCatalogs, .cleanCatalogData, [.gcCatalogs]),
    (wants .gcFactPaths, .factPathGc, [.gcFactPaths])]

def cleanAll (db : Db) (config : Config T) (incremental : Bool) (reduced : Reduced) :
    Step Db T E Unit :=
  Action.forEach (jobs config incremental reduced) fun (wanted, j, counted) =>
    clean db wanted j counted

def resetStatus (status : String) : Step Db T E Unit := Action.note (.resetStatus status) .done

def cleanUp (db : Db) (config : Config T) (request : List Element) (incremental : Bool) :
    Step Db T E Unit := do
  let held ← call .isHeldByCurrentThread
  if held.isTrue then
    Action.closing
      (do
        resetStatus (reducedCleanRequestStatus (reduceCleanRequest (orEverything request)))
        cleanAll db config incremental (reduceCleanRequest (orEverything request)))
      (resetStatus "")
  else throw .lockNotHeld

/-- `clean-puppetdb`, which returns nothing where the lock is not free. -/
def cleanPuppetdb (dbs : List (Db × Config T)) (request : List Element) : Step Db T E Bool := do
  let locked ← call .tryLock
  if locked.isTrue then
    Action.closing
      (do
        Action.attemptAll Thrown.isException
          (fun (db, config) => cleanUp db config request true) dbs none
        pure true)
      (call .unlock)
  else pure false

/-- `collect-garbage`, whose exceptions are logged. -/
def collectGarbage (db : Db) (config : Config T) (request : List Element) (incremental : Bool) :
    Step Db T E Unit := do
  let _ ← call .lock
  Action.closing
    (tryCatch (cleanUp db config request incremental)
      fun e => if e.isException then pure () else throw e)
    (call .unlock)

end OpenVoxDB.CleanUps
