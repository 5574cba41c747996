import Mathlib
import OpenVoxDB.Semaphore

/-!
# The limits on concurrent work

`do-enqueue-command` stores commands under a semaphore of `concurrent-writes`
permits, and a gated thread pool runs tasks under one of its size. The pool
acquires its permit before the `try` whose handlers release it. The enqueuing
call acquires inside the `try`, so it also releases when it got no permit.
-/

namespace OpenVoxDB.ConcurrencyLimits

open Semaphore

/-- How a step of a call ends. -/
inductive Outcome where
  | ok
  | throws
  deriving DecidableEq, Repr

/-- Where a call of `do-enqueue-command` is. -/
inductive EnqueueStage where
  /-- At `.acquire`, or before it. -/
  | entering
  /-- In `store-command`. -/
  | storing
  /-- At the `>!!`, or after it. -/
  | sending
  /-- The permit is released and the command stream still to be closed. -/
  | closing
  | done
  deriving DecidableEq, Repr

/-- Whatever throws in the `try`, the `finally` releases. -/
def doEnqueueCommand : EnqueueStage → Outcome → Effect × EnqueueStage
  | .entering, .ok => (.acquire, .storing)
  | .entering, .throws => (.release, .closing)
  | .storing, .ok => (.keep, .sending)
  | .storing, .throws => (.release, .closing)
  | .sending, _ => (.release, .closing)
  | .closing, _ => (.keep, .done)
  | .done, _ => (.keep, .done)

/-- Where a task is that has been given to `gated-execute`. -/
inductive TaskStage where
  /-- At `.acquire`. -/
  | waiting
  /-- At `.execute`, which throws if the pool is shutting down. -/
  | submitting
  | running
  | done
  deriving DecidableEq, Repr

def gatedExecute : TaskStage → Outcome → Effect × TaskStage
  | .waiting, .ok => (.acquire, .submitting)
  | .waiting, .throws => (.keep, .done)
  | .submitting, .ok => (.keep, .running)
  | .submitting, .throws => (.release, .done)
  | .running, _ => (.release, .done)
  | .done, _ => (.keep, .done)

/-- The two semaphores with their calls. -/
structure Service where
  write : Gate EnqueueStage
  pool : Gate TaskStage

def Service.of (concurrentWrites size : Nat) : Service := ⟨Gate.of concurrentWrites, Gate.of size⟩

inductive Event where
  | enqueue (e : Semaphore.Event Outcome)
  /-- Of `gated-execute`, `dochan` or `shutdown-gated`. -/
  | execute (e : Semaphore.Event Outcome)

def step (s : Service) : Event → Service
  | .enqueue .drain => s
  | .enqueue e => { s with write := Semaphore.step .entering doEnqueueCommand s.write e }
  | .execute e => { s with pool := Semaphore.step .waiting gatedExecute s.pool e }

/-- No call has released more permits than it has acquired, and one that is over has released as
many. -/
def Balanced {Stage : Type} (finished : Stage) (g : Gate Stage) : Prop :=
  ∀ c ∈ g.calls, c.released ≤ c.acquired ∧ (c.stage = finished → c.released = c.acquired)

/-- The limits are kept, and every permit acquired is released once. -/
structure Conserved (concurrentWrites size : Nat) (s : Service) : Prop where
  stored : s.write.calls.countP (fun c => c.stage = .storing) ≤ concurrentWrites
  running : s.pool.calls.countP (fun c => c.stage = .running) ≤ size
  writeBalanced : Balanced .done s.write
  poolBalanced : Balanced .done s.pool

/-- No enqueuing call throws before it has acquired its permit. -/
def Acquires (s : Service) : Event → Prop
  | .enqueue (.go i .throws) => ∀ c, s.write.calls[i]? = some c → c.stage ≠ .entering
  | _ => True

def EnqueueStage.holds : EnqueueStage → Bool
  | storing => true
  | sending => true
  | _ => false

def TaskStage.holds : TaskStage → Bool
  | submitting => true
  | running => true
  | _ => false

theorem doEnqueueCommand_respects (stage : EnqueueStage) (outcome : Outcome) :
    Respects EnqueueStage.holds stage (doEnqueueCommand stage outcome) ↔
      ¬ (stage = .entering ∧ outcome = .throws) := by
  cases stage <;> cases outcome <;> simp [doEnqueueCommand, Respects, EnqueueStage.holds]

theorem gatedExecute_respects (stage : TaskStage) (outcome : Outcome) :
    Respects TaskStage.holds stage (gatedExecute stage outcome) := by
  cases stage <;> cases outcome <;> simp [gatedExecute, Respects, TaskStage.holds]

/-- What holds of both semaphores. -/
structure Kept (concurrentWrites size : Nat) (s : Service) : Prop where
  write : Inv EnqueueStage.holds concurrentWrites s.write
  pool : Inv TaskStage.holds size s.pool

/-- A stage in which calls hold a permit is limited, and one in which they hold none is
balanced. -/
theorem limited {Stage : Type} {holds : Stage → Bool} {size : Nat} {g : Gate Stage}
    (h : Inv holds size g) (p : Stage → Bool) (hp : ∀ stage, p stage = true → holds stage = true) :
    g.calls.countP (fun c => p c.stage) ≤ size := by
  have hholding := h.holding
  have hle : g.calls.countP (fun c => p c.stage) ≤ g.calls.countP (fun c => holds c.stage) :=
    List.countP_mono_left fun c _ hc => hp c.stage hc
  omega

theorem balanced {Stage : Type} {holds : Stage → Bool} {size : Nat} {g : Gate Stage}
    (h : Inv holds size g) {finished : Stage} (hfinished : holds finished = false) :
    Balanced finished g := by
  intro c hc
  have heach := h.each c hc
  refine ⟨by omega, ?_⟩
  intro hstage
  rw [hstage, hfinished] at heach
  exact heach.symm

theorem Kept.conserved {concurrentWrites size : Nat} {s : Service}
    (h : Kept concurrentWrites size s) : Conserved concurrentWrites size s where
  stored := limited h.write (fun stage => stage = .storing) fun stage hstage => by
    rw [of_decide_eq_true hstage]
    rfl
  running := limited h.pool (fun stage => stage = .running) fun stage hstage => by
    rw [of_decide_eq_true hstage]
    rfl
  writeBalanced := balanced h.write rfl
  poolBalanced := balanced h.pool rfl

theorem kept_step {concurrentWrites size : Nat} (s : Service) (e : Event)
    (h : Kept concurrentWrites size s) (he : Acquires s e) :
    Kept concurrentWrites size (step s e) := by
  cases e with
  | execute e =>
    refine ⟨h.write, ?_⟩
    apply @inv_step _ _ .waiting gatedExecute _ rfl _ _ h.pool e
    cases e with
    | call => trivial
    | drain => trivial
    | go i outcome => exact fun c _ => gatedExecute_respects c.stage outcome
  | enqueue e =>
    cases e with
    | drain => exact h
    | call =>
      have hwrite := @inv_step _ _ .entering doEnqueueCommand _ rfl _ _ h.write
        (.call : Semaphore.Event Outcome) trivial
      exact ⟨hwrite, h.pool⟩
    | go i outcome =>
      refine ⟨?_, h.pool⟩
      apply @inv_step _ _ .entering doEnqueueCommand _ rfl _ _ h.write (.go i outcome)
      intro c hc
      apply (doEnqueueCommand_respects c.stage outcome).mpr
      rintro ⟨hstage, rfl⟩
      exact he c hc hstage

/-- A call that throws before it has acquired its permit releases one. -/
theorem not_conserved {concurrentWrites size : Nat} (s : Service) (e : Event)
    (h : Kept concurrentWrites size s) (he : ¬ Acquires s e) :
    ¬ Conserved concurrentWrites size (step s e) := by
  intro hconserved
  apply he
  cases e with
  | execute e => trivial
  | enqueue e =>
    cases e with
    | call => trivial
    | drain => trivial
    | go i outcome =>
      cases outcome with
      | ok => trivial
      | throws =>
        intro c hc hstage
        have heach : c.acquired = c.released := by
          have hholds := h.write.each c (List.mem_of_getElem? hc)
          rw [hstage] at hholds
          exact hholds
        have hlt := (List.getElem?_eq_some_iff.mp hc).1
        have hmem : (⟨.closing, c.acquired, c.released + 1⟩ : Call EnqueueStage) ∈
            (step s (.enqueue (.go i .throws))).write.calls := by
          simp only [step, Semaphore.step, hc, hstage, doEnqueueCommand, Gate.go]
          exact List.mem_set hlt _
        have hle := (hconserved.writeBalanced _ hmem).1
        simp only at hle
        omega

/-- The limits are conserved in every state of a run exactly when no enqueuing call throws before
it has acquired its permit. -/
theorem conserved_along_run_iff (concurrentWrites size : Nat) (es : List Event) :
    Always step (fun s e => Conserved concurrentWrites size (step s e))
        (Service.of concurrentWrites size) es ↔
      Always step Acquires (Service.of concurrentWrites size) es := by
  refine always_congr (I := Kept concurrentWrites size) ?_ ?_ es _ ⟨inv_of _, inv_of _⟩
  · intro s e hs
    constructor
    · intro h
      by_contra he
      exact not_conserved s e hs he h
    · exact fun he => (kept_step s e hs he).conserved
  · intro s e hs h
    apply kept_step s e hs
    by_contra he
    exact not_conserved s e hs he h

/-- With one permit, a call that is interrupted while it waits makes room for another. -/
def interrupted : List Event :=
  [.enqueue .call, .enqueue .call, .enqueue .call, .enqueue (.go 0 .ok), .enqueue (.go 1 .throws),
    .enqueue (.go 2 .ok)]

/-- Two commands are then stored at once. -/
theorem conserved_fails :
    ¬ ∀ (concurrentWrites size : Nat) (es : List Event),
      Conserved concurrentWrites size (run step (Service.of concurrentWrites size) es) := by
  intro h
  have hstored := (h 1 1 interrupted).stored
  have hcount : (run step (Service.of 1 1) interrupted).write.calls.countP
      (fun c => c.stage = .storing) = 2 := by decide
  omega

end OpenVoxDB.ConcurrencyLimits
