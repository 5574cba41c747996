import Mathlib
import OpenVoxDB.Run
import OpenVoxDB.Time

/-!
# Processing of queued commands

`process-message` takes a command from the queue and acknowledges it, sets it
aside for another attempt, discards it to the dead letter office or finds its
queue file missing. Within one attempt a failing execution is repeated at
once, a few times. The model follows the outcomes that the claimed operations
can have; moving files in the queue's own directories is taken to succeed
where it says so. Metrics, logging, callbacks and responses are left out.
-/

namespace OpenVoxDB.CommandProcessing

/-- What `process-message` catches, by the `:kind` of an `ExceptionInfo` or the class. -/
inductive Throwable where
  | retry (message : String)
  | parseError (message : String)
  | fatalProcessingError (cause : Throwable)
  | exceptionInfo (message : String)
  | assertionError (message : String)
  | exception (message : String)
  deriving DecidableEq, Repr

/-- The exception an attempt is recorded with: a fatal error is only a wrapper. -/
def Throwable.real : Throwable → Throwable
  | fatalProcessingError cause => cause
  | ex => ex

/-- An exception that ends the command at once. -/
def Throwable.fatal : Throwable → Bool
  | fatalProcessingError _ => true
  | parseError _ => true
  | _ => false

structure Attempt where
  exception : Throwable
  time : Instant
  deriving DecidableEq, Repr

structure CmdRef where
  id : Nat
  command : String
  version : Nat
  certname : String
  delete : Bool
  attempts : List Attempt
  deriving DecidableEq, Repr

/-- What happens to one call of `process-message`: whether the queue file is there, what
`prep-command` does, for how many databases the broadcast pool takes the command, each call
of `exec-command` for each database, and acknowledging. -/
structure Env where
  now : Instant
  load : Except Throwable Bool
  prep : Except Throwable Unit
  accepted : Nat
  exec : Nat → Nat → Except Throwable Unit
  ack : Except Throwable Unit

/-- Whether commands are broadcast, and to how many databases. -/
structure Config where
  broadcast : Bool
  writeDbs : Nat

/-- `(queue/cons-attempt cmdref ex)` -/
def consAttempt (c : CmdRef) (ex : Throwable) (now : Instant) : CmdRef :=
  { c with attempts := ⟨ex, now⟩ :: c.attempts }

def quickRetryCount : Nat := 4

def maximumAllowableRetries : Nat := 5

/-- The result of repeating a call until it succeeds or `n` retries are used up, with
the number of calls made so far. -/
def callWithQuickRetry : Nat → (Nat → Except Throwable Unit) → Nat → Except Throwable Unit × Nat
  | 0, f, calls => (f calls, calls + 1)
  | n + 1, f, calls =>
    match f calls with
    | .ok () => (.ok (), calls + 1)
    | .error _ => callWithQuickRetry n f (calls + 1)

def attemptExecCommand (env : Env) (db : Nat) : Except Throwable Unit × Nat :=
  callWithQuickRetry quickRetryCount (env.exec db) 0

/-- One success is enough; otherwise the failures are bundled into one to be retried. A pool
that refuses the command makes no difference to the databases before. -/
def broadcastCmd (cfg : Config) (env : Env) : Except Throwable Unit × Nat :=
  let results := (List.range (min env.accepted cfg.writeDbs)).map (attemptExecCommand env)
  (if env.accepted < cfg.writeDbs then
      .error (.retry "Command rejected, presumably shutting down")
    else if results.any fun result => result.1.isOk then .ok ()
    else .error (.retry "Unable to broadcast command"),
    (results.map (·.2)).sum)

/-- The result of `process-cmd` and the calls of `exec-command` it makes. -/
def processCmd (cfg : Config) (env : Env) : Except Throwable Unit × Nat :=
  let (result, calls) := if cfg.broadcast then broadcastCmd cfg env else attemptExecCommand env 0
  (result.bind fun _ => env.ack, calls)

/-- Where a call of `process-message` leaves the command. -/
inductive Effect where
  | acknowledged
  | missing
  | delayed (c : CmdRef)
  | discarded (c : CmdRef)

/-- What a call of `process-message` did. -/
structure Outcome where
  marked : Bool
  executed : Bool
  execCalls : Nat
  failure : Option Throwable

/-- The body of the `try` in `process-message`. -/
def body (cfg : Config) (c : CmdRef) (env : Env) : Except Throwable Effect × Bool × Nat :=
  match env.load with
  | .error ex => (.error ex, false, 0)
  | .ok false => (.ok .missing, false, 0)
  | .ok true =>
    if c.delete then (env.ack.map fun _ => .acknowledged, false, 0)
    else
      match env.prep with
      | .error ex => (.error ex, false, 0)
      | .ok () =>
        let (result, calls) := processCmd cfg env
        (result.map fun _ => .acknowledged, true, calls)

def retry (c : CmdRef) (ex : Throwable) (now : Instant) : Effect :=
  if c.attempts.length < maximumAllowableRetries then .delayed (consAttempt c ex now)
  else .discarded (consAttempt c ex now)

/-- The `catch` clauses of `process-message`. -/
def handle (c : CmdRef) (ex : Throwable) (now : Instant) : Effect :=
  match ex with
  | .retry _ => retry c ex now
  | .parseError _ => .discarded (consAttempt c ex now)
  | .fatalProcessingError cause => .discarded (consAttempt c cause now)
  | .exceptionInfo _ => retry c ex now
  | .assertionError _ => retry c ex now
  | .exception _ => retry c ex now

def processMessage (cfg : Config) (c : CmdRef) (env : Env) : Effect × Outcome :=
  let (result, executed, calls) := body cfg c env
  match result with
  | .ok effect => (effect, ⟨c.delete, executed, calls, none⟩)
  | .error ex => (handle c ex env.now, ⟨c.delete, executed, calls, some ex⟩)

/-- Everything there is of one command: its copies in the queue and the delay pool, how
it was disposed of, and what was done to it, newest first. -/
structure World where
  queued : List CmdRef
  delayed : List CmdRef
  acknowledged : Nat
  missing : Nat
  discarded : List CmdRef
  log : List Outcome

inductive Event where
  /-- The buffer marks the command for a newer one. -/
  | mark
  /-- A delayed message is enqueued again. -/
  | revive
  | process (env : Env)

/-- A command that has just been stored, or read back from the queue's directory. -/
def World.start (c : CmdRef) : World := ⟨[{ c with attempts := [] }], [], 0, 0, [], []⟩

def World.dispose (w : World) : Effect → World
  | .acknowledged => { w with acknowledged := w.acknowledged + 1 }
  | .missing => { w with missing := w.missing + 1 }
  | .delayed c => { w with delayed := w.delayed ++ [c] }
  | .discarded c => { w with discarded := w.discarded ++ [c] }

def step (cfg : Config) (w : World) : Event → World
  | .mark => { w with queued := w.queued.map fun c => { c with delete := true } }
  | .revive =>
    match w.delayed with
    | [] => w
    | c :: rest => { w with queued := w.queued ++ [c], delayed := rest }
  | .process env =>
    match w.queued with
    | [] => w
    | c :: rest =>
      let (effect, outcome) := processMessage cfg c env
      { w.dispose effect with queued := rest, log := outcome :: w.log }

/-- The command is neither queued nor waiting to be. -/
def World.Ended (w : World) : Prop := w.queued = [] ∧ w.delayed = []

/-- How often the command has been disposed of. -/
def World.disposals (w : World) : Nat := w.acknowledged + w.missing + w.discarded.length

/-- The exceptions of the failed attempts, newest first. -/
def World.failures (w : World) : List Throwable :=
  (w.log.filterMap Outcome.failure).map Throwable.real

theorem callWithQuickRetry_calls (n : Nat) (f : Nat → Except Throwable Unit) (calls : Nat) :
    calls < (callWithQuickRetry n f calls).2 ∧
      (callWithQuickRetry n f calls).2 ≤ calls + n + 1 := by
  induction n generalizing calls with
  | zero => simp [callWithQuickRetry]
  | succ n ih =>
    simp only [callWithQuickRetry]
    split
    · simp
    · have := ih (calls + 1)
      omega

theorem attemptExecCommand_calls (env : Env) (db : Nat) :
    (attemptExecCommand env db).2 ≤ quickRetryCount + 1 := by
  have := (callWithQuickRetry_calls quickRetryCount (env.exec db) 0).2
  rw [attemptExecCommand]
  omega

/-- The databases one attempt runs a command on. -/
def Config.targets (cfg : Config) : Nat := if cfg.broadcast then cfg.writeDbs else 1

theorem processCmd_calls (cfg : Config) (env : Env) :
    (processCmd cfg env).2 ≤ cfg.targets * (quickRetryCount + 1) := by
  unfold processCmd Config.targets
  cases cfg.broadcast with
  | false =>
    have := attemptExecCommand_calls env 0
    simpa using this
  | true =>
    simp only [if_true, broadcastCmd, List.map_map]
    have hle : ∀ x ∈ (List.range (min env.accepted cfg.writeDbs)).map
        ((·.2) ∘ attemptExecCommand env), x ≤ quickRetryCount + 1 := by
      intro x hx
      obtain ⟨db, -, rfl⟩ := List.mem_map.mp hx
      exact attemptExecCommand_calls env db
    have hsum := List.sum_le_card_nsmul _ _ hle
    have hmin := Nat.mul_le_mul_right (quickRetryCount + 1) (Nat.min_le_right env.accepted cfg.writeDbs)
    simp only [List.length_map, List.length_range] at hsum
    exact hsum.trans hmin

/-- Everything the body of a call can do. -/
theorem body_cases (cfg : Config) (c : CmdRef) (env : Env) :
    (c.delete = true → (body cfg c env).2 = (false, 0)) ∧
    ((body cfg c env).2.1 = false → (body cfg c env).2.2 = 0) ∧
    (body cfg c env).2.2 ≤ cfg.targets * (quickRetryCount + 1) ∧
    ∀ effect, (body cfg c env).1 = .ok effect → effect = .acknowledged ∨ effect = .missing := by
  have hack : ∀ (r : Except Throwable Unit) (effect : Effect),
      (r.map fun _ => Effect.acknowledged) = .ok effect → effect = .acknowledged := by
    intro r effect h
    cases r with
    | error ex => cases h
    | ok u =>
      cases h
      rfl
  unfold body
  cases env.load with
  | error ex => simp
  | ok found =>
    cases found with
    | false => simp
    | true =>
      cases hdelete : c.delete with
      | true =>
        refine ⟨fun _ => rfl, fun _ => rfl, Nat.zero_le _, fun effect h => .inl ?_⟩
        exact hack env.ack effect h
      | false =>
        cases env.prep with
        | error ex => simp
        | ok u =>
          refine ⟨by simp, by simp, processCmd_calls cfg env, fun effect h => .inl ?_⟩
          exact hack _ effect h

/-- Everything the handlers can do: the attempt is recorded, and the command waits for
another one only after fewer than the allowed retries. -/
theorem handle_cases (c : CmdRef) (ex : Throwable) (now : Instant) :
    (handle c ex now = .delayed (consAttempt c ex.real now) ∧
      c.attempts.length < maximumAllowableRetries ∧ ex.fatal = false) ∨
    handle c ex now = .discarded (consAttempt c ex.real now) := by
  have hretry : ∀ ex : Throwable,
      (retry c ex now = .delayed (consAttempt c ex now) ∧
        c.attempts.length < maximumAllowableRetries) ∨
      retry c ex now = .discarded (consAttempt c ex now) := by
    intro ex
    unfold retry
    by_cases h : c.attempts.length < maximumAllowableRetries
    · exact .inl ⟨if_pos h, h⟩
    · exact .inr (if_neg h)
  cases ex with
  | parseError m => exact .inr rfl
  | fatalProcessingError cause => exact .inr rfl
  | retry m => exact (hretry (.retry m)).imp_left fun h => ⟨h.1, h.2, rfl⟩
  | exceptionInfo m => exact (hretry (.exceptionInfo m)).imp_left fun h => ⟨h.1, h.2, rfl⟩
  | assertionError m => exact (hretry (.assertionError m)).imp_left fun h => ⟨h.1, h.2, rfl⟩
  | exception m => exact (hretry (.exception m)).imp_left fun h => ⟨h.1, h.2, rfl⟩

/-- Everything a call of `process-message` can do. -/
theorem processMessage_cases (cfg : Config) (c : CmdRef) (env : Env) :
    ∃ effect outcome, processMessage cfg c env = (effect, outcome) ∧
      outcome.marked = c.delete ∧ (c.delete = true → outcome.executed = false) ∧
      (outcome.executed = false → outcome.execCalls = 0) ∧
      outcome.execCalls ≤ cfg.targets * (quickRetryCount + 1) ∧
      ((outcome.failure = none ∧ (effect = .acknowledged ∨ effect = .missing)) ∨
        ∃ ex, outcome.failure = some ex ∧
          ((effect = .delayed (consAttempt c ex.real env.now) ∧
              c.attempts.length < maximumAllowableRetries) ∨
            effect = .discarded (consAttempt c ex.real env.now))) := by
  obtain ⟨hdelete, hnone, hcalls, hok⟩ := body_cases cfg c env
  unfold processMessage
  cases h : (body cfg c env).1 with
  | ok effect =>
    refine ⟨effect, ⟨c.delete, (body cfg c env).2.1, (body cfg c env).2.2, none⟩, ?_, rfl,
      fun hd => by rw [hdelete hd], hnone, hcalls, .inl ⟨rfl, hok effect h⟩⟩
    simp only [h]
  | error ex =>
    refine ⟨handle c ex env.now, ⟨c.delete, (body cfg c env).2.1, (body cfg c env).2.2, some ex⟩,
      ?_, rfl, fun hd => by rw [hdelete hd], hnone, hcalls, .inr ⟨ex, rfl, ?_⟩⟩
    · simp only [h]
    · exact (handle_cases c ex env.now).imp_left fun hdelayed => ⟨hdelayed.1, hdelayed.2.1⟩

/-- A copy that is still to be processed has failed at every attempt so far, and may
fail once more. -/
structure Pending (w : World) (c : CmdRef) : Prop where
  attempts : c.attempts.map Attempt.exception = w.failures
  length : c.attempts.length = w.log.length
  allowed : w.log.length ≤ maximumAllowableRetries
  undisposed : w.disposals = 0

/-- What each call of `process-message` did. -/
structure OutcomeOk (cfg : Config) (o : Outcome) : Prop where
  marked : o.marked = true → o.executed = false
  idle : o.executed = false → o.execCalls = 0
  calls : o.execCalls ≤ cfg.targets * (quickRetryCount + 1)

/-- What holds of a command at any time. -/
structure Inv (cfg : Config) (w : World) : Prop where
  copies : (w.Ended ∧ w.disposals = 1) ∨
    ∃ c, ((w.queued = [c] ∧ w.delayed = []) ∨ (w.queued = [] ∧ w.delayed = [c])) ∧ Pending w c
  length : w.log.length ≤ maximumAllowableRetries + 1
  outcomes : ∀ o ∈ w.log, OutcomeOk cfg o
  discarded : ∀ c ∈ w.discarded, c.attempts.map Attempt.exception = w.failures

theorem inv_start (cfg : Config) (c : CmdRef) : Inv cfg (World.start c) where
  copies := .inr ⟨{ c with attempts := [] }, .inl ⟨rfl, rfl⟩, rfl, rfl, Nat.zero_le _, rfl⟩
  length := Nat.zero_le _
  outcomes := nofun
  discarded := nofun

theorem failures_cons (w w' : World) (o : Outcome) (h : w'.log = o :: w.log) :
    w'.failures = (o.failure.map Throwable.real).toList ++ w.failures := by
  rw [World.failures, World.failures, h, List.filterMap_cons]
  cases o.failure <;> rfl

/-- The world after a call of `process-message` on the only copy. -/
theorem inv_process (cfg : Config) (w : World) (h : Inv cfg w) (env : Env) :
    Inv cfg (step cfg w (.process env)) := by
  cases hq : w.queued with
  | nil =>
    have : step cfg w (.process env) = w := by simp [step, hq]
    rw [this]
    exact h
  | cons c rest =>
    obtain ⟨hended, -⟩ | ⟨c', hcopies, hpending⟩ := h.copies
    · rw [hended.1] at hq
      cases hq
    · obtain ⟨hqueued, hdelayed⟩ | ⟨hqueued, -⟩ := hcopies
      · rw [hqueued] at hq
        cases hq
        obtain ⟨effect, outcome, hproc, hmarked, hexec, hidle, hcalls, hcase⟩ :=
          processMessage_cases cfg c env
        have hstep : step cfg w (.process env) =
            { w.dispose effect with queued := [], log := outcome :: w.log } := by
          simp [step, hqueued, hproc]
        have houtcome : OutcomeOk cfg outcome :=
          ⟨fun hm => hexec (hmarked ▸ hm), hidle, hcalls⟩
        have hundisposed := hpending.undisposed
        have hallowed := hpending.allowed
        have hdiscarded : w.discarded = [] := by
          rw [World.disposals] at hundisposed
          exact List.length_eq_zero_iff.mp (by omega)
        have houtcomes : ∀ o ∈ outcome :: w.log, OutcomeOk cfg o := by
          intro o ho
          rcases List.mem_cons.mp ho with rfl | ho
          · exact houtcome
          · exact h.outcomes o ho
        have hlength : (outcome :: w.log).length ≤ maximumAllowableRetries + 1 := by
          rw [List.length_cons]
          omega
        rw [hstep]
        rcases hcase with ⟨hnone, rfl | rfl⟩ | ⟨ex, hsome, ⟨rfl, hless⟩ | rfl⟩
        · refine ⟨.inl ⟨⟨rfl, hdelayed⟩, ?_⟩, hlength, houtcomes, ?_⟩
          · simp only [World.disposals, World.dispose] at hundisposed ⊢
            omega
          · simp [World.dispose, hdiscarded]
        · refine ⟨.inl ⟨⟨rfl, hdelayed⟩, ?_⟩, hlength, houtcomes, ?_⟩
          · simp only [World.disposals, World.dispose] at hundisposed ⊢
            omega
          · simp [World.dispose, hdiscarded]
        · refine ⟨.inr ⟨consAttempt c ex.real env.now, .inr ⟨rfl, ?_⟩, ?_, ?_, ?_, ?_⟩, hlength,
            houtcomes, ?_⟩
          · simp [World.dispose, hdelayed]
          · rw [failures_cons w _ outcome rfl, hsome]
            simpa [consAttempt] using hpending.attempts
          · simp [consAttempt, hpending.length]
          · rw [hpending.length] at hless
            exact hless
          · exact hundisposed
          · simp [World.dispose, hdiscarded]
        · refine ⟨.inl ⟨⟨rfl, hdelayed⟩, ?_⟩, hlength, houtcomes, ?_⟩
          · simp only [World.disposals, World.dispose, List.length_append, List.length_singleton]
              at hundisposed ⊢
            omega
          · intro d hd
            rw [failures_cons w _ outcome rfl, hsome]
            have hdc : d = consAttempt c ex.real env.now := by
              simpa [World.dispose, hdiscarded] using hd
            rw [hdc]
            simpa [consAttempt] using hpending.attempts
      · rw [hqueued] at hq
        cases hq

theorem inv_step (cfg : Config) (w : World) (e : Event) (h : Inv cfg w) :
    Inv cfg (step cfg w e) := by
  cases e with
  | process env => exact inv_process cfg w h env
  | mark =>
    refine ⟨?_, h.length, h.outcomes, h.discarded⟩
    obtain ⟨⟨hqueued, hdelayed⟩, hone⟩ | ⟨c, ⟨hqueued, hdelayed⟩ | ⟨hqueued, hdelayed⟩, hpending⟩ :=
      h.copies
    · exact .inl ⟨⟨by simp [step, hqueued], hdelayed⟩, hone⟩
    · refine .inr ⟨{ c with delete := true }, .inl ⟨by simp [step, hqueued], hdelayed⟩, ?_⟩
      exact ⟨hpending.attempts, hpending.length, hpending.allowed, hpending.undisposed⟩
    · refine .inr ⟨c, .inr ⟨by simp [step, hqueued], hdelayed⟩, ?_⟩
      exact ⟨hpending.attempts, hpending.length, hpending.allowed, hpending.undisposed⟩
  | revive =>
    cases hd : w.delayed with
    | nil =>
      have : step cfg w .revive = w := by simp [step, hd]
      rw [this]
      exact h
    | cons c rest =>
      have hstep : step cfg w .revive =
          { w with queued := w.queued ++ [c], delayed := rest } := by simp [step, hd]
      rw [hstep]
      refine ⟨?_, h.length, h.outcomes, h.discarded⟩
      obtain ⟨⟨-, hdelayed⟩, -⟩ | ⟨c', ⟨-, hdelayed⟩ | ⟨hqueued, hdelayed⟩, hpending⟩ := h.copies
      · rw [hd] at hdelayed
        cases hdelayed
      · rw [hd] at hdelayed
        cases hdelayed
      · rw [hd] at hdelayed
        cases hdelayed
        exact .inr ⟨c, .inl ⟨by simp [hqueued], rfl⟩, hpending.attempts, hpending.length,
          hpending.allowed, hpending.undisposed⟩

/-- Nothing happens to a command that has been disposed of. -/
theorem run_of_ended (cfg : Config) (w : World) (h : w.Ended) (es : List Event) :
    run (step cfg) w es = w := by
  induction es with
  | nil => rfl
  | cons e es ih =>
    have hstep : step cfg w e = w := by
      obtain ⟨hqueued, hdelayed⟩ := h
      cases w
      cases e <;> simp_all [step]
    rw [run_cons, hstep, ih]

/-- Reviving a command and processing it either ends it or records one more attempt. -/
theorem revive_process (cfg : Config) (w : World) (h : Inv cfg w) (env : Env) :
    (run (step cfg) w [.revive, .process env]).Ended ∨
      (run (step cfg) w [.revive, .process env]).log.length = w.log.length + 1 := by
  obtain ⟨hended, -⟩ | ⟨c, hcopies, -⟩ := h.copies
  · left
    rw [run_of_ended cfg w hended]
    exact hended
  · right
    obtain ⟨hqueued, hdelayed⟩ | ⟨hqueued, hdelayed⟩ := hcopies <;>
      simp [step, hqueued, hdelayed]

/-- Six attempts always suffice. -/
theorem ended_of_six (cfg : Config) (w : World) (h : Inv cfg w) (envs : List Env)
    (hsix : envs.length = maximumAllowableRetries + 1) :
    (run (step cfg) w (envs.flatMap fun env => [.revive, .process env])).Ended := by
  have hgrow : ∀ (envs : List Env) (w : World), Inv cfg w →
      Inv cfg (run (step cfg) w (envs.flatMap fun env => [.revive, .process env])) ∧
      ((run (step cfg) w (envs.flatMap fun env => [.revive, .process env])).Ended ∨
        w.log.length + envs.length ≤
          (run (step cfg) w (envs.flatMap fun env => [.revive, .process env])).log.length) := by
    intro envs
    induction envs with
    | nil => exact fun w h => ⟨h, .inr (Nat.le_refl _)⟩
    | cons env envs ih =>
      intro w h
      rw [List.flatMap_cons, run_append]
      have hnext := run_invariant (inv_step cfg) [.revive, .process env] w h
      obtain ⟨hinv, hend⟩ := ih _ hnext
      refine ⟨hinv, ?_⟩
      rcases revive_process cfg w h env with hended | hlen
      · left
        rw [run_of_ended cfg _ hended]
        exact hended
      · rw [hlen] at hend
        rw [List.length_cons]
        exact hend.imp_right fun hle => by omega
  obtain ⟨hinv, hended | hlen⟩ := hgrow envs w h
  · exact hended
  · -- with six attempts recorded no copy is pending
    obtain ⟨hended, -⟩ | ⟨c, -, hpending⟩ := hinv.copies
    · exact hended
    · have := hpending.allowed
      omega

/-- The life of a command: it is executed at most six times and never while marked, it
is in the queue or waiting for it until it is disposed of once, and the attempts it is
discarded with are its failures, newest first. -/
structure EndsOnce (cfg : Config) (w : World) : Prop where
  executions : (w.log.filter Outcome.executed).length ≤ 6
  execCalls : ∀ o ∈ w.log, o.execCalls ≤ cfg.targets * 5
  marked : ∀ o ∈ w.log, o.marked = true → o.executed = false ∧ o.execCalls = 0
  pending_or_ended : (w.queued.length + w.delayed.length = 1 ∧ w.disposals = 0) ∨
    (w.Ended ∧ w.disposals = 1)
  attempts : ∀ c ∈ w.discarded, c.attempts.map Attempt.exception = w.failures

theorem endsOnce_of_inv (cfg : Config) (w : World) (h : Inv cfg w) : EndsOnce cfg w where
  executions := (List.length_filter_le _ _).trans h.length
  execCalls := fun o ho => (h.outcomes o ho).calls
  marked := fun o ho hm => ⟨(h.outcomes o ho).marked hm, (h.outcomes o ho).idle
    ((h.outcomes o ho).marked hm)⟩
  pending_or_ended := by
    obtain hended | ⟨c, ⟨hqueued, hdelayed⟩ | ⟨hqueued, hdelayed⟩, hpending⟩ := h.copies
    · exact .inr hended
    · exact .inl ⟨by simp [hqueued, hdelayed], hpending.undisposed⟩
    · exact .inl ⟨by simp [hqueued, hdelayed], hpending.undisposed⟩
  attempts := h.discarded

/-- Whatever happens to a stored command, it ends once: its life is as `EndsOnce` says,
nothing happens to it after its disposal, and six more attempts always dispose of it. -/
theorem command_ends_once (cfg : Config) (c : CmdRef) (es : List Event) :
    EndsOnce cfg (run (step cfg) (World.start c) es) ∧
    ((run (step cfg) (World.start c) es).Ended →
      ∀ fs, run (step cfg) (World.start c) (es ++ fs) = run (step cfg) (World.start c) es) ∧
    ∀ envs : List Env, envs.length = 6 →
      (run (step cfg) (World.start c)
        (es ++ envs.flatMap fun env => [.revive, .process env])).Ended := by
  have hinv := run_invariant (inv_step cfg) es _ (inv_start cfg c)
  refine ⟨endsOnce_of_inv cfg _ hinv, fun hended fs => ?_, fun envs hsix => ?_⟩
  · rw [run_append, run_of_ended cfg _ hended]
  · rw [run_append]
    exact ended_of_six cfg _ hinv envs hsix

end OpenVoxDB.CommandProcessing
