import OpenVoxDB.CommandProcessing

/-!
# Answers to submitters

A command may be submitted with a callback, which `blocking-submit-command`
waits for. It is called for a result where a command is executed or dropped,
and for an exception where its execution fails; what fails elsewhere ends the
command without a call.
-/

namespace OpenVoxDB.CommandProcessing

/-- A call of the callback, with `:result` or with `:exception`. -/
inductive Callback where
  | result
  | exception
  deriving DecidableEq, Repr

/-- The calls of `attempt-exec-command`, which catches no `AssertionError`. -/
def attemptCallbacks : Except Throwable Unit → List Callback
  | .ok () => [.result]
  | .error (.assertionError _) => []
  | .error _ => [.exception]

/-- The calls of `broadcast-cmd`; the databases have callbacks of their own. -/
def broadcastCallbacks (cfg : Config) (env : Env) : List Callback :=
  if env.accepted < cfg.writeDbs then []
  else
    match (broadcastCmd cfg env).1 with
    | .ok () => [.result]
    | .error _ => [.exception]

def processCmdCallbacks (cfg : Config) (env : Env) : List Callback :=
  if cfg.broadcast then broadcastCallbacks cfg env
  else attemptCallbacks (attemptExecCommand env 0).1

/-- The calls of the callback in one call of `process-message`; `process-delete-cmd` makes
its own before it acknowledges the command. -/
def callbacks (cfg : Config) (c : CmdRef) (env : Env) : List Callback :=
  match env.load with
  | .error _ => []
  | .ok false => []
  | .ok true =>
    if c.delete then [.result]
    else
      match env.prep with
      | .error _ => []
      | .ok () => processCmdCallbacks cfg env

/-- A command and what its submitter has been told. -/
structure Submission where
  world : World
  told : List Callback

def Submission.start (c : CmdRef) : Submission := ⟨World.start c, []⟩

/-- The calls of the callback in a step. -/
def stepCallbacks (cfg : Config) (w : World) : Event → List Callback
  | .process env =>
    match w.queued with
    | [] => []
    | c :: _ => callbacks cfg c env
  | _ => []

def submissionStep (cfg : Config) (s : Submission) (e : Event) : Submission :=
  ⟨step cfg s.world e, s.told ++ stepCallbacks cfg s.world e⟩

/-- The response to a submitter who waits: that to the first call, or none in time. -/
inductive Response where
  | processed
  | failed
  | timedOut
  deriving DecidableEq, Repr

/-- `blocking-submit-command` -/
def blockingSubmitCommand : List Callback → Response
  | [] => .timedOut
  | .result :: _ => .processed
  | .exception :: _ => .failed

theorem blockingSubmitCommand_timedOut_iff (told : List Callback) :
    blockingSubmitCommand told = .timedOut ↔ told = [] := by
  cases told with
  | nil => simp [blockingSubmitCommand]
  | cons callback told => cases callback <;> simp [blockingSubmitCommand]

/-- The submitter of a command that has ended has been told, of its result or its failure. -/
structure Answered (s : Submission) : Prop where
  acknowledged : 0 < s.world.acknowledged → Callback.result ∈ s.told
  missing : 0 < s.world.missing → s.told ≠ []
  discarded : s.world.discarded ≠ [] → Callback.exception ∈ s.told

/-- The command is executed and fails with an exception that is caught: its file is read and
prepared, and either the pool takes the broadcast and every database fails, or the only
database does, and with no `AssertionError`. -/
def FailsExecuting (cfg : Config) (c : CmdRef) (env : Env) : Prop :=
  env.load = .ok true ∧ c.delete = false ∧ env.prep = .ok () ∧
    if cfg.broadcast then
      cfg.writeDbs ≤ env.accepted ∧
        ∀ db < cfg.writeDbs, (attemptExecCommand env db).1.isOk = false
    else ∃ ex, (attemptExecCommand env 0).1 = .error ex ∧ ∀ m, ex ≠ .assertionError m

/-- The attempt fails, and for good: with a fatal error, or for the last time. -/
def FailsForGood (cfg : Config) (c : CmdRef) (env : Env) : Prop :=
  ∃ ex, (body cfg c env).1 = .error ex ∧
    (ex.fatal = true ∨ maximumAllowableRetries ≤ c.attempts.length)

/-- An attempt that ends the command without executing it comes after one that answered:
with anything where the file is missing, and with an exception where the command is
discarded for a failure outside of its execution. -/
def EndsAnswered (cfg : Config) (s : Submission) : Event → Prop
  | .process env => ∀ c ∈ s.world.queued.head?,
      (env.load = .ok false → s.told ≠ []) ∧
      (FailsForGood cfg c env → Callback.exception ∈ s.told ∨ FailsExecuting cfg c env)
  | _ => True

theorem exception_mem_attemptCallbacks (r : Except Throwable Unit) :
    Callback.exception ∈ attemptCallbacks r ↔ ∃ ex, r = .error ex ∧ ∀ m, ex ≠ .assertionError m := by
  cases r with
  | ok u => simp [attemptCallbacks]
  | error ex => cases ex <;> simp [attemptCallbacks]

theorem broadcastCmd_isOk (cfg : Config) (env : Env) (h : cfg.writeDbs ≤ env.accepted) :
    (broadcastCmd cfg env).1.isOk = true ↔
      ∃ db < cfg.writeDbs, (attemptExecCommand env db).1.isOk = true := by
  have hany : ((List.range cfg.writeDbs).map (attemptExecCommand env)).any
      (fun result => result.1.isOk) = true ↔
      ∃ db < cfg.writeDbs, (attemptExecCommand env db).1.isOk = true := by simp
  rw [← hany, broadcastCmd, Nat.min_eq_right h, if_neg (Nat.not_lt.mpr h)]
  split <;> simp_all [Except.isOk, Except.toBool]

theorem exception_mem_broadcastCallbacks (cfg : Config) (env : Env) :
    Callback.exception ∈ broadcastCallbacks cfg env ↔ cfg.writeDbs ≤ env.accepted ∧
      ∀ db < cfg.writeDbs, (attemptExecCommand env db).1.isOk = false := by
  unfold broadcastCallbacks
  by_cases h : env.accepted < cfg.writeDbs
  · rw [if_pos h]
    exact iff_of_false (by simp) fun hle => absurd hle.1 (Nat.not_le.mpr h)
  · have hle := Nat.not_lt.mp h
    have hok := broadcastCmd_isOk cfg env hle
    rw [if_neg h]
    cases hr : (broadcastCmd cfg env).1 with
    | ok u =>
      obtain ⟨db, hdb, hsome⟩ := hok.mp (by rw [hr]; rfl)
      refine iff_of_false (by simp) fun hall => ?_
      rw [hall.2 db hdb] at hsome
      cases hsome
    | error ex =>
      refine iff_of_true (List.mem_singleton_self _) ⟨hle, fun db hdb => ?_⟩
      by_contra hsome
      have hisOk := hok.mpr ⟨db, hdb, by simpa using hsome⟩
      rw [hr] at hisOk
      cases hisOk

/-- The submitter is told of a failure just where the execution fails. -/
theorem exception_mem_callbacks (cfg : Config) (c : CmdRef) (env : Env) :
    Callback.exception ∈ callbacks cfg c env ↔ FailsExecuting cfg c env := by
  unfold callbacks FailsExecuting
  cases env.load with
  | error ex => simp
  | ok found =>
    cases found with
    | false => simp
    | true =>
      cases c.delete with
      | true => simp
      | false =>
        cases env.prep with
        | error ex => simp
        | ok u =>
          cases hb : cfg.broadcast with
          | true => simpa [processCmdCallbacks, hb] using exception_mem_broadcastCallbacks cfg env
          | false => simpa [processCmdCallbacks, hb] using exception_mem_attemptCallbacks _

/-- A command that is executed without a failure has its result told. -/
theorem result_mem_processCmdCallbacks (cfg : Config) (env : Env)
    (h : (processCmd cfg env).1 = .ok ()) : Callback.result ∈ processCmdCallbacks cfg env := by
  unfold processCmd at h
  unfold processCmdCallbacks
  cases hb : cfg.broadcast with
  | false =>
    cases hr : (attemptExecCommand env 0).1 with
    | ok u => simp [attemptCallbacks]
    | error ex => simp [hb, hr, Except.bind] at h
  | true =>
    by_cases hrefused : env.accepted < cfg.writeDbs
    · simp [hb, broadcastCmd, hrefused, Except.bind] at h
    · cases hr : (broadcastCmd cfg env).1 with
      | ok u => simp [broadcastCallbacks, hrefused, hr]
      | error ex => simp [hb, hr, Except.bind] at h

/-- An acknowledged command has its result told. -/
theorem result_mem_callbacks (cfg : Config) (c : CmdRef) (env : Env)
    (h : (body cfg c env).1 = .ok .acknowledged) : Callback.result ∈ callbacks cfg c env := by
  unfold body at h
  unfold callbacks
  cases hload : env.load with
  | error ex => simp [hload] at h
  | ok found =>
    cases found with
    | false => simp [hload] at h
    | true =>
      cases hdelete : c.delete with
      | true => simp
      | false =>
        cases hprep : env.prep with
        | error ex => simp [hload, hdelete, hprep] at h
        | ok u =>
          refine result_mem_processCmdCallbacks cfg env ?_
          cases hr : (processCmd cfg env).1 with
          | ok u => rfl
          | error ex => simp [hload, hdelete, hprep, hr, Except.map] at h

/-- What a call of `process-message` does, by what its body comes to. -/
theorem processMessage_ok (cfg : Config) (c : CmdRef) (env : Env) (effect : Effect)
    (h : (body cfg c env).1 = .ok effect) : (processMessage cfg c env).1 = effect := by
  simp [processMessage, h]

theorem processMessage_error (cfg : Config) (c : CmdRef) (env : Env) (ex : Throwable)
    (h : (body cfg c env).1 = .error ex) :
    (processMessage cfg c env).1 = handle c ex env.now := by
  simp [processMessage, h]

theorem body_missing_iff (cfg : Config) (c : CmdRef) (env : Env) :
    (body cfg c env).1 = .ok .missing ↔ env.load = .ok false := by
  have hack (r : Except Throwable Unit) : (r.map fun _ => Effect.acknowledged) ≠ .ok .missing := by
    cases r <;> simp [Except.map]
  unfold body
  cases env.load with
  | error ex => simp
  | ok found =>
    cases found with
    | false => simp
    | true =>
      cases c.delete with
      | true => simpa using hack env.ack
      | false =>
        cases env.prep with
        | error ex => simp
        | ok u => simpa using hack _

/-- The handlers discard a command that failed for good, and set any other aside. -/
theorem handle_eq (c : CmdRef) (ex : Throwable) (now : Instant) :
    handle c ex now =
      if ex.fatal = true ∨ maximumAllowableRetries ≤ c.attempts.length then
        .discarded (consAttempt c ex.real now)
      else .delayed (consAttempt c ex.real now) := by
  have hretry (ex : Throwable) : retry c ex now =
      if maximumAllowableRetries ≤ c.attempts.length then .discarded (consAttempt c ex now)
      else .delayed (consAttempt c ex now) := by
    unfold retry
    by_cases h : c.attempts.length < maximumAllowableRetries
    · rw [if_pos h, if_neg (Nat.not_le.mpr h)]
    · rw [if_neg h, if_pos (Nat.not_lt.mp h)]
  cases ex <;> simp [handle, hretry, Throwable.fatal, Throwable.real]

/-- Everything a call of `process-message` can come to, and what its submitter is told. -/
inductive Ending (cfg : Config) (c : CmdRef) (env : Env) : Prop where
  | acknowledged (effect : (processMessage cfg c env).1 = .acknowledged)
      (found : env.load ≠ .ok false) (fine : ¬ FailsForGood cfg c env)
      (told : Callback.result ∈ callbacks cfg c env)
  | missing (effect : (processMessage cfg c env).1 = .missing) (lost : env.load = .ok false)
      (fine : ¬ FailsForGood cfg c env) (told : callbacks cfg c env = [])
  | delayed (c' : CmdRef) (effect : (processMessage cfg c env).1 = .delayed c')
      (found : env.load ≠ .ok false) (fine : ¬ FailsForGood cfg c env)
  | discarded (c' : CmdRef) (effect : (processMessage cfg c env).1 = .discarded c')
      (found : env.load ≠ .ok false) (failed : FailsForGood cfg c env)

theorem processMessage_ending (cfg : Config) (c : CmdRef) (env : Env) : Ending cfg c env := by
  cases h : (body cfg c env).1 with
  | ok effect =>
    have heffect := processMessage_ok cfg c env effect h
    have hfine : ¬ FailsForGood cfg c env := by
      rintro ⟨ex, hex, -⟩
      rw [h] at hex
      cases hex
    rcases (body_cases cfg c env).2.2.2 effect h with rfl | rfl
    · refine .acknowledged heffect ?_ hfine (result_mem_callbacks cfg c env h)
      intro hlost
      rw [(body_missing_iff cfg c env).mpr hlost] at h
      cases h
    · have hlost := (body_missing_iff cfg c env).mp h
      exact .missing heffect hlost hfine (by simp [callbacks, hlost])
  | error ex =>
    have heffect := processMessage_error cfg c env ex h
    have hfound : env.load ≠ .ok false := by
      intro hlost
      rw [(body_missing_iff cfg c env).mpr hlost] at h
      cases h
    rw [handle_eq] at heffect
    by_cases hgood : ex.fatal = true ∨ maximumAllowableRetries ≤ c.attempts.length
    · rw [if_pos hgood] at heffect
      exact .discarded _ heffect hfound ⟨ex, h, hgood⟩
    · rw [if_neg hgood] at heffect
      refine .delayed _ heffect hfound ?_
      rintro ⟨ex', hex', hgood'⟩
      rw [h] at hex'
      cases hex'
      exact hgood hgood'

/-- A step that does not process the command tells nothing and ends nothing. -/
theorem answered_idle (cfg : Config) (s : Submission) (e : Event) (h : Answered s)
    (hidle : ∀ env, e = .process env → s.world.queued = []) :
    Answered (submissionStep cfg s e) := by
  have hworld : (step cfg s.world e).acknowledged = s.world.acknowledged ∧
      (step cfg s.world e).missing = s.world.missing ∧
      (step cfg s.world e).discarded = s.world.discarded := by
    cases e with
    | mark => exact ⟨rfl, rfl, rfl⟩
    | revive => cases hd : s.world.delayed <;> simp [step, hd]
    | process env => simp [step, hidle env rfl]
  obtain ⟨hacknowledged, hmissing, hdiscarded⟩ := hworld
  refine ⟨fun hpos => ?_, fun hpos => ?_, fun hne => ?_⟩
  · rw [submissionStep, hacknowledged] at hpos
    exact List.mem_append_left _ (h.acknowledged hpos)
  · rw [submissionStep, hmissing] at hpos
    exact List.append_ne_nil_of_left_ne_nil (h.missing hpos) _
  · rw [submissionStep, hdiscarded] at hne
    exact List.mem_append_left _ (h.discarded hne)

theorem undisposed_of_queued (cfg : Config) (w : World) (h : Inv cfg w) (c : CmdRef)
    (rest : List CmdRef) (hq : w.queued = c :: rest) :
    w.acknowledged = 0 ∧ w.missing = 0 ∧ w.discarded = [] := by
  obtain ⟨hended, -⟩ | ⟨c', -, hpending⟩ := h.copies
  · rw [hended.1] at hq
    cases hq
  · have hnone := hpending.undisposed
    rw [World.disposals] at hnone
    exact ⟨by omega, by omega, List.length_eq_zero_iff.mp (by omega)⟩

theorem answered_process_iff (cfg : Config) (s : Submission) (env : Env)
    (hinv : Inv cfg s.world) (c : CmdRef) (rest : List CmdRef)
    (hq : s.world.queued = c :: rest) :
    Answered (submissionStep cfg s (.process env)) ↔
      (env.load = .ok false → s.told ≠ []) ∧
      (FailsForGood cfg c env → Callback.exception ∈ s.told ∨ FailsExecuting cfg c env) := by
  obtain ⟨hacknowledged, hmissing, hdiscarded⟩ := undisposed_of_queued cfg s.world hinv c rest hq
  have hworld : step cfg s.world (.process env) =
      { s.world.dispose (processMessage cfg c env).1 with
        queued := rest, log := (processMessage cfg c env).2 :: s.world.log } := by
    simp [step, hq]
  have htold : (submissionStep cfg s (.process env)).told =
      s.told ++ callbacks cfg c env := by
    simp [submissionStep, stepCallbacks, hq]
  cases processMessage_ending cfg c env with
  | acknowledged effect found fine told =>
    refine iff_of_true ⟨fun _ => ?_, fun hpos => ?_, fun hne => ?_⟩
      ⟨fun hlost => absurd hlost found, fun hgood => absurd hgood fine⟩
    · rw [htold]
      exact List.mem_append_right _ told
    · simp [submissionStep, hworld, effect, World.dispose, hmissing] at hpos
    · simp [submissionStep, hworld, effect, World.dispose, hdiscarded] at hne
  | missing effect lost fine told =>
    rw [told, List.append_nil] at htold
    refine ⟨fun h => ⟨fun _ => ?_, fun hgood => absurd hgood fine⟩,
      fun h => ⟨fun hpos => ?_, fun _ => ?_, fun hne => ?_⟩⟩
    · rw [← htold]
      exact h.missing (by simp [submissionStep, hworld, effect, World.dispose])
    · simp [submissionStep, hworld, effect, World.dispose, hacknowledged] at hpos
    · rw [htold]
      exact h.1 lost
    · simp [submissionStep, hworld, effect, World.dispose, hdiscarded] at hne
  | delayed c' effect found fine =>
    refine iff_of_true ⟨fun hpos => ?_, fun hpos => ?_, fun hne => ?_⟩
      ⟨fun hlost => absurd hlost found, fun hgood => absurd hgood fine⟩
    · simp [submissionStep, hworld, effect, World.dispose, hacknowledged] at hpos
    · simp [submissionStep, hworld, effect, World.dispose, hmissing] at hpos
    · simp [submissionStep, hworld, effect, World.dispose, hdiscarded] at hne
  | discarded c' effect found failed =>
    refine ⟨fun h => ⟨fun hlost => absurd hlost found, fun _ => ?_⟩,
      fun h => ⟨fun hpos => ?_, fun hpos => ?_, fun _ => ?_⟩⟩
    · have hmem := h.discarded (by simp [submissionStep, hworld, effect, World.dispose])
      rw [htold, List.mem_append, exception_mem_callbacks] at hmem
      exact hmem
    · simp [submissionStep, hworld, effect, World.dispose, hacknowledged] at hpos
    · simp [submissionStep, hworld, effect, World.dispose, hmissing] at hpos
    · rw [htold, List.mem_append, exception_mem_callbacks]
      exact h.2 failed

theorem answered_step_iff (cfg : Config) (s : Submission) (e : Event)
    (hinv : Inv cfg s.world) (h : Answered s) :
    Answered (submissionStep cfg s e) ↔ EndsAnswered cfg s e := by
  cases e with
  | mark => exact iff_of_true (answered_idle cfg s .mark h nofun) trivial
  | revive => exact iff_of_true (answered_idle cfg s .revive h nofun) trivial
  | process env =>
    cases hq : s.world.queued with
    | nil =>
      refine iff_of_true (answered_idle cfg s (.process env) h fun _ _ => hq) ?_
      simp [EndsAnswered, hq]
    | cons c rest =>
      rw [answered_process_iff cfg s env hinv c rest hq]
      simp [EndsAnswered, hq]

end OpenVoxDB.CommandProcessing
