import Mathlib
import OpenVoxDB.CommandProcessing
import OpenVoxDB.Interleaving

/-!
# Broadcasting a command

`broadcast-cmd` of `command.clj` hands one attempt for each write database to a pool. Every
worker puts its result behind those that are there and then runs the watch on the vector it left,
which releases the caller once there is a success or every result is in. The caller reads the
vector again and answers. The interrupts that it sends first can only change how an attempt ends,
which is arbitrary here.
-/

namespace OpenVoxDB.Broadcast

open CommandProcessing (Throwable Env attemptExecCommand)
open Interleaving (play)

/-! ## Write databases -/

/-- A section of the configuration, and whether it is the only one. -/
structure DatabaseConfig (α : Type) where
  settings : Option α
  unnamed : Bool
  deriving DecidableEq, Repr

/-- The name behind `database-`. -/
def databaseName (k : String) : Option String :=
  let start := "database-".toList
  if start <+: k.toList then some (String.ofList (k.toList.drop start.length)) else none

/-- `write-databases` -/
def writeDatabases {α : Type} (config : List (String × α)) : List (String × DatabaseConfig α) :=
  let result := config.filterMap fun (k, cfg) => (databaseName k).map (·, ⟨some cfg, false⟩)
  if result.isEmpty then [("default", ⟨config.lookup "database", true⟩)] else result

theorem writeDatabases_pos {α : Type} (config : List (String × α)) :
    0 < (writeDatabases config).length := by
  unfold writeDatabases
  simp only
  split
  · simp
  · rename_i hsome
    apply List.length_pos_of_ne_nil
    intro hnil
    exact hsome (List.isEmpty_iff.mpr hnil)

/-! ## The machine -/

/-- What a worker leaves in the results: nil for a success. -/
def attemptExec (env : Env) (db : Nat) : Option Throwable :=
  match (attemptExecCommand env db).1 with
  | .ok () => none
  | .error ex => some ex

/-- An `ExceptionInfo` of the kind `::retry`. -/
structure Retry where
  message : String
  suppressed : List Throwable
  deriving DecidableEq, Repr

def rejected : Retry := ⟨"Command rejected, presumably shutting down", []⟩

/-- The exception with every failure attached. -/
def unableToBroadcast (results : List (Option Throwable)) : Retry :=
  ⟨"Unable to broadcast command", results.filterMap id⟩

/-- A call of the command's callback. -/
inductive Told where
  | result (results : List (Option Throwable))
  | exception (ex : Retry)
  deriving DecidableEq, Repr

/-- Where the caller is: before `@finished`, past it, and with the results it has read. -/
inductive Caller where
  | submitting
  | released
  | deciding (results : List (Option Throwable))
  | returned
  | threw (ex : Retry)
  deriving DecidableEq, Repr

/-- Where a worker is: before its `swap!` is done, before its watch has run on what the `swap!`
left, and past both. -/
inductive Worker where
  | attempting
  | notifying (results : List (Option Throwable))
  | done
  deriving DecidableEq, Repr

structure State where
  accepted : Nat
  caller : Caller
  workers : Nat → Worker
  results : List (Option Throwable)
  finished : Bool
  callbacks : List Told

def init : State := ⟨0, .submitting, fun _ => .attempting, [], false, []⟩

inductive Action where
  | accept
  | reject
  | wake
  | read
  | answer
  | record (db : Nat)
  | notify (db : Nat)
  deriving DecidableEq, Repr

/-- The watch on the results. -/
def watch (n : Nat) (results : List (Option Throwable)) : Bool :=
  n = results.length || results.any (·.isNone)

/-- The last part of `broadcast-cmd`. -/
def answer (results : List (Option Throwable)) : Caller × Told :=
  if results.any (·.isNone) then (.returned, .result results)
  else (.threw (unableToBroadcast results), .exception (unableToBroadcast results))

def step (env : Env) (n : Nat) (s : State) : Action → Option State
  | .accept =>
    if s.caller = .submitting ∧ s.accepted < n then some { s with accepted := s.accepted + 1 }
    else none
  | .reject =>
    if s.caller = .submitting ∧ s.accepted < n then some { s with caller := .threw rejected }
    else none
  | .wake =>
    if s.caller = .submitting ∧ s.accepted = n ∧ s.finished then
      some { s with caller := .released }
    else none
  | .read =>
    if s.caller = .released then some { s with caller := .deciding s.results } else none
  | .answer =>
    match s.caller with
    | .deciding results =>
      some { s with
        caller := (answer results).1
        callbacks := s.callbacks ++ [(answer results).2] }
    | _ => none
  | .record db =>
    if db < s.accepted ∧ s.workers db = .attempting then
      let results := s.results ++ [attemptExec env db]
      some { s with
        results := results
        workers := Function.update s.workers db (.notifying results) }
    else none
  | .notify db =>
    match s.workers db with
    | .notifying results =>
      some { s with
        finished := s.finished || watch n results
        workers := Function.update s.workers db .done }
    | _ => none

/-- The caller has its answer. -/
def Answered (s : State) : Prop := s.caller = .returned ∨ ∃ ex, s.caller = .threw ex

/-! ## What an action does -/

/-- The enabled actions, with what they need and what they change. -/
inductive Move (env : Env) (n : Nat) (s : State) : Action → State → Prop where
  | accept (hcaller : s.caller = .submitting) (hlt : s.accepted < n) :
    Move env n s .accept { s with accepted := s.accepted + 1 }
  | reject (hcaller : s.caller = .submitting) (hlt : s.accepted < n) :
    Move env n s .reject { s with caller := .threw rejected }
  | wake (hcaller : s.caller = .submitting) (hall : s.accepted = n)
    (hfinished : s.finished = true) : Move env n s .wake { s with caller := .released }
  | read (hcaller : s.caller = .released) :
    Move env n s .read { s with caller := .deciding s.results }
  | answer (results : List (Option Throwable)) (hcaller : s.caller = .deciding results) :
    Move env n s .answer { s with
      caller := (answer results).1
      callbacks := s.callbacks ++ [(answer results).2] }
  | record (db : Nat) (hlt : db < s.accepted) (hworker : s.workers db = .attempting) :
    Move env n s (.record db) { s with
      results := s.results ++ [attemptExec env db]
      workers :=
        Function.update s.workers db (.notifying (s.results ++ [attemptExec env db])) }
  | notify (db : Nat) (results : List (Option Throwable))
    (hworker : s.workers db = .notifying results) :
    Move env n s (.notify db) { s with
      finished := s.finished || watch n results
      workers := Function.update s.workers db .done }

theorem move_of_step (env : Env) (n : Nat) (s s' : State) (a : Action)
    (h : step env n s a = some s') : Move env n s a s' := by
  cases a with
  | accept =>
    obtain ⟨⟨hcaller, hlt⟩, hnext⟩ := Option.ite_none_right_eq_some.mp h
    cases hnext
    exact .accept hcaller hlt
  | reject =>
    obtain ⟨⟨hcaller, hlt⟩, hnext⟩ := Option.ite_none_right_eq_some.mp h
    cases hnext
    exact .reject hcaller hlt
  | wake =>
    obtain ⟨⟨hcaller, hall, hfinished⟩, hnext⟩ := Option.ite_none_right_eq_some.mp h
    cases hnext
    exact .wake hcaller hall hfinished
  | read =>
    obtain ⟨hcaller, hnext⟩ := Option.ite_none_right_eq_some.mp h
    cases hnext
    exact .read hcaller
  | answer =>
    cases hcaller : s.caller with
    | deciding results =>
      simp only [step, hcaller, Option.some.injEq] at h
      rw [← h]
      exact .answer results hcaller
    | submitting => simp [step, hcaller] at h
    | released => simp [step, hcaller] at h
    | returned => simp [step, hcaller] at h
    | threw ex => simp [step, hcaller] at h
  | record db =>
    obtain ⟨⟨hlt, hworker⟩, hnext⟩ := Option.ite_none_right_eq_some.mp h
    cases hnext
    exact .record db hlt hworker
  | notify db =>
    cases hworker : s.workers db with
    | notifying results =>
      simp only [step, hworker, Option.some.injEq] at h
      rw [← h]
      exact .notify db results hworker
    | attempting => simp [step, hworker] at h
    | done => simp [step, hworker] at h

/-! ## What holds in every interleaving -/

/-- The results are those of the workers past their `swap!`, in the order they came. -/
def Recorded (env : Env) (s : State) (order : List Nat) : Prop :=
  order.Nodup ∧ (∀ db, db ∈ order ↔ s.workers db ≠ .attempting) ∧
    (∀ db ∈ order, db < s.accepted) ∧ s.results = order.map (attemptExec env)

/-- The workers and the watch. -/
structure WorkersSound (env : Env) (n : Nat) (s : State) : Prop where
  accepted : s.accepted ≤ n
  recorded : ∃ order, Recorded env s order
  snapshots : ∀ db results, s.workers db = .notifying results → results <+: s.results
  finished : s.finished = true → watch n s.results = true
  last : s.results.length = n → 0 < n →
    s.finished = true ∨ ∃ db, s.workers db = .notifying s.results

/-- The caller, by where it is. -/
def CallerSound (n : Nat) (s : State) : Prop :=
  match s.caller with
  | .submitting => s.callbacks = []
  | .released => s.callbacks = [] ∧ s.accepted = n ∧ watch n s.results = true
  | .deciding results =>
    s.callbacks = [] ∧ s.accepted = n ∧ results <+: s.results ∧ watch n results = true
  | .returned =>
    s.accepted = n ∧ ∃ results, results <+: s.results ∧ none ∈ results ∧
      s.callbacks = [.result results]
  | .threw ex =>
    (s.accepted < n ∧ ex = rejected ∧ s.callbacks = []) ∨
      (s.accepted = n ∧ s.results.length = n ∧ none ∉ s.results ∧
        ex = unableToBroadcast s.results ∧ s.callbacks = [.exception ex])

theorem nodup_length_le (n : Nat) (order : List Nat) (hnodup : order.Nodup)
    (hlt : ∀ db ∈ order, db < n) : order.length ≤ n := by
  have hsub : order.Subperm (List.range n) := by
    apply List.subperm_of_subset hnodup
    intro db hdb
    exact List.mem_range.mpr (hlt db hdb)
  simpa using hsub.length_le

theorem WorkersSound.results_length_le {env : Env} {n : Nat} {s : State}
    (h : WorkersSound env n s) : s.results.length ≤ n := by
  obtain ⟨order, hnodup, -, hlt, hresults⟩ := h.recorded
  rw [hresults, List.length_map]
  apply nodup_length_le n order hnodup
  intro db hdb
  exact Nat.lt_of_lt_of_le (hlt db hdb) h.accepted

/-- While a worker is at its attempt a result is missing. -/
theorem WorkersSound.results_length_lt {env : Env} {n : Nat} {s : State}
    (h : WorkersSound env n s) (db : Nat) (hdb : db < s.accepted)
    (hworker : s.workers db = .attempting) : s.results.length < n := by
  obtain ⟨order, hnodup, hmem, hlt, hresults⟩ := h.recorded
  have hnew : db ∉ order := by
    intro hin
    exact (hmem db).mp hin hworker
  have hle := nodup_length_le n (db :: order) (List.nodup_cons.mpr ⟨hnew, hnodup⟩) (by
    intro other hother
    have haccepted := h.accepted
    obtain rfl | hother := List.mem_cons.mp hother
    · omega
    · have hother' := hlt other hother
      omega)
  rw [hresults, List.length_map]
  simpa using hle

/-- When the results are complete every worker is past its attempt. -/
theorem Recorded.mem_of_full {env : Env} {s : State} {order : List Nat}
    (h : Recorded env s order) (n : Nat) (haccepted : s.accepted ≤ n)
    (hfull : s.results.length = n) (db : Nat) (hdb : db < n) : db ∈ order := by
  obtain ⟨hnodup, -, hlt, hresults⟩ := h
  by_contra hnew
  have hle := nodup_length_le n (db :: order) (List.nodup_cons.mpr ⟨hnew, hnodup⟩) (by
    intro other hother
    obtain rfl | hother := List.mem_cons.mp hother
    · exact hdb
    · exact Nat.lt_of_lt_of_le (hlt other hother) haccepted)
  rw [hresults, List.length_map] at hfull
  simp only [List.length_cons] at hle
  omega

theorem watch_eq_true (n : Nat) (results : List (Option Throwable)) :
    watch n results = true ↔ n = results.length ∨ none ∈ results := by
  simp [watch]

/-- More results do not undo the watch. -/
theorem watch_of_isPrefix (n : Nat) (results results' : List (Option Throwable))
    (hpre : results <+: results') (hle : results'.length ≤ n) (h : watch n results = true) :
    watch n results' = true := by
  rw [watch_eq_true] at h ⊢
  obtain hall | hsome := h
  · have hlength := hpre.length_le
    exact Or.inl (by omega)
  · exact Or.inr (hpre.subset hsome)

theorem workersSound_init (env : Env) (n : Nat) : WorkersSound env n init := by
  constructor
  · exact Nat.zero_le n
  · refine ⟨[], List.nodup_nil, ?_, ?_, rfl⟩ <;> simp [init]
  · intro db results h
    cases h
  · intro h
    cases h
  · intro hlength hpos
    have hzero : 0 = n := hlength
    omega

/-- A worker that puts its result in. -/
theorem workersSound_record (env : Env) (n : Nat) (s : State) (h : WorkersSound env n s)
    (db : Nat) (hlt : db < s.accepted) (hworker : s.workers db = .attempting) :
    WorkersSound env n { s with
      results := s.results ++ [attemptExec env db]
      workers :=
        Function.update s.workers db (.notifying (s.results ++ [attemptExec env db])) } := by
  have hless := h.results_length_lt db hlt hworker
  obtain ⟨order, hnodup, hmem, horder, hresults⟩ := h.recorded
  have hnew : db ∉ order := fun hin => (hmem db).mp hin hworker
  have hgrown : s.results <+: s.results ++ [attemptExec env db] := List.prefix_append _ _
  constructor
  · exact h.accepted
  · refine ⟨order ++ [db], ?_, ?_, ?_, ?_⟩
    · apply List.nodup_append.mpr ⟨hnodup, List.nodup_singleton db, _⟩
      intro other hother db' hdb' he
      rw [he, List.mem_singleton.mp hdb'] at hother
      exact hnew hother
    · intro other
      by_cases he : other = db
      · rw [he]
        simp
      · rw [List.mem_append, hmem]
        simp [he]
    · intro other hother
      obtain hother | hother := List.mem_append.mp hother
      · exact horder other hother
      · rw [List.mem_singleton.mp hother]
        exact hlt
    · simp only [List.map_append, List.map_cons, List.map_nil, ← hresults]
  · intro other results hother
    by_cases he : other = db
    · simp only [he, Function.update_self, Worker.notifying.injEq] at hother
      rw [← hother]
    · simp only [Function.update_of_ne he] at hother
      exact (h.snapshots other results hother).trans hgrown
  · intro hfinished
    apply watch_of_isPrefix n s.results _ hgrown _ (h.finished hfinished)
    rw [List.length_append]
    exact hless
  · intro _ _
    exact Or.inr ⟨db, Function.update_self ..⟩

/-- A worker that runs its watch. -/
theorem workersSound_notify (env : Env) (n : Nat) (s : State) (h : WorkersSound env n s)
    (db : Nat) (results : List (Option Throwable))
    (hworker : s.workers db = .notifying results) :
    WorkersSound env n { s with
      finished := s.finished || watch n results
      workers := Function.update s.workers db .done } := by
  have hpre := h.snapshots db results hworker
  obtain ⟨order, hnodup, hmem, horder, hresults⟩ := h.recorded
  constructor
  · exact h.accepted
  · refine ⟨order, hnodup, ?_, horder, hresults⟩
    intro other
    by_cases he : other = db
    · rw [he, hmem, hworker]
      simp
    · rw [hmem]
      simp [he]
  · intro other results' hother
    by_cases he : other = db
    · simp [he] at hother
    · simp only [Function.update_of_ne he] at hother
      exact h.snapshots other results' hother
  · intro hfinished
    obtain hfinished | hwatch := (Bool.or_eq_true ..).mp hfinished
    · exact h.finished hfinished
    · exact watch_of_isPrefix n results s.results hpre h.results_length_le hwatch
  · intro hfull hpos
    obtain hfinished | ⟨other, hother⟩ := h.last hfull hpos
    · exact Or.inl ((Bool.or_eq_true ..).mpr (Or.inl hfinished))
    · by_cases he : other = db
      · -- the worker that completed the results releases the caller
        rw [he, hworker] at hother
        cases hother
        have hwatch : watch n s.results = true := (watch_eq_true n _).mpr (Or.inl hfull.symm)
        exact Or.inl ((Bool.or_eq_true ..).mpr (Or.inr hwatch))
      · exact Or.inr ⟨other, (Function.update_of_ne he ..).trans hother⟩

theorem workersSound_move (env : Env) (n : Nat) (s s' : State) (a : Action)
    (h : WorkersSound env n s) (hmove : Move env n s a s') : WorkersSound env n s' := by
  cases hmove with
  | accept hcaller hlt =>
    obtain ⟨order, hnodup, hmem, hless, hresults⟩ := h.recorded
    have hmore : ∀ db ∈ order, db < s.accepted + 1 :=
      fun db hdb => Nat.lt_succ_of_lt (hless db hdb)
    exact ⟨hlt, ⟨order, hnodup, hmem, hmore, hresults⟩, h.snapshots, h.finished, h.last⟩
  | reject => exact ⟨h.accepted, h.recorded, h.snapshots, h.finished, h.last⟩
  | wake => exact ⟨h.accepted, h.recorded, h.snapshots, h.finished, h.last⟩
  | read => exact ⟨h.accepted, h.recorded, h.snapshots, h.finished, h.last⟩
  | answer => exact ⟨h.accepted, h.recorded, h.snapshots, h.finished, h.last⟩
  | record db hlt hworker => exact workersSound_record env n s h db hlt hworker
  | notify db results hworker => exact workersSound_notify env n s h db results hworker

/-- What has been read decides as the whole does. -/
theorem callerSound_answer (n : Nat) (s : State) (results : List (Option Throwable))
    (hcallbacks : s.callbacks = []) (hall : s.accepted = n) (hpre : results <+: s.results)
    (hwatch : watch n results = true) (hle : s.results.length ≤ n) :
    CallerSound n { s with
      caller := (answer results).1
      callbacks := s.callbacks ++ [(answer results).2] } := by
  by_cases hsome : none ∈ results
  · have hany : results.any (·.isNone) = true :=
      List.any_eq_true.mpr ⟨none, hsome, rfl⟩
    have hanswer : answer results = (.returned, .result results) := if_pos hany
    simp only [CallerSound, hanswer, hcallbacks, List.nil_append]
    exact ⟨hall, results, hpre, hsome, rfl⟩
  · have hany : ¬ results.any (·.isNone) = true := by
      rw [List.any_eq_true]
      intro ⟨result, hin, hnone⟩
      rw [Option.isNone_iff_eq_none.mp hnone] at hin
      exact hsome hin
    have hanswer : answer results = (.threw (unableToBroadcast results),
        .exception (unableToBroadcast results)) := if_neg hany
    have hfull : n = results.length :=
      ((watch_eq_true n results).mp hwatch).resolve_right hsome
    have hsame : results = s.results := hpre.eq_of_length_le (by omega)
    simp only [CallerSound, hanswer, hcallbacks, List.nil_append]
    rw [← hsame]
    exact Or.inr ⟨hall, hfull.symm, hsome, rfl, trivial⟩

theorem callerSound_move (env : Env) (n : Nat) (s s' : State) (a : Action)
    (hworkers : WorkersSound env n s) (h : CallerSound n s) (hmove : Move env n s a s') :
    CallerSound n s' := by
  cases hmove with
  | accept hcaller hlt =>
    simp only [CallerSound, hcaller] at h ⊢
    exact h
  | reject hcaller hlt =>
    simp only [CallerSound, hcaller] at h ⊢
    exact Or.inl ⟨hlt, trivial, h⟩
  | wake hcaller hall hfinished =>
    simp only [CallerSound, hcaller] at h ⊢
    exact ⟨h, hall, hworkers.finished hfinished⟩
  | read hcaller =>
    simp only [CallerSound, hcaller] at h ⊢
    obtain ⟨hcallbacks, hall, hwatch⟩ := h
    exact ⟨hcallbacks, hall, List.prefix_rfl, hwatch⟩
  | answer results hcaller =>
    simp only [CallerSound, hcaller] at h
    obtain ⟨hcallbacks, hall, hpre, hwatch⟩ := h
    exact callerSound_answer n s results hcallbacks hall hpre hwatch hworkers.results_length_le
  | record db hlt hworker =>
    have hless := hworkers.results_length_lt db hlt hworker
    have hgrown : s.results <+: s.results ++ [attemptExec env db] := List.prefix_append _ _
    have hle : (s.results ++ [attemptExec env db]).length ≤ n := by
      rw [List.length_append]
      exact hless
    cases hcaller : s.caller with
    | submitting =>
      simp only [CallerSound, hcaller] at h ⊢
      exact h
    | released =>
      simp only [CallerSound, hcaller] at h ⊢
      obtain ⟨hcallbacks, hall, hwatch⟩ := h
      exact ⟨hcallbacks, hall, watch_of_isPrefix n _ _ hgrown hle hwatch⟩
    | deciding results =>
      simp only [CallerSound, hcaller] at h ⊢
      obtain ⟨hcallbacks, hall, hpre, hwatch⟩ := h
      exact ⟨hcallbacks, hall, hpre.trans hgrown, hwatch⟩
    | returned =>
      simp only [CallerSound, hcaller] at h ⊢
      obtain ⟨hall, results, hpre, hsome, hcallbacks⟩ := h
      exact ⟨hall, results, hpre.trans hgrown, hsome, hcallbacks⟩
    | threw ex =>
      simp only [CallerSound, hcaller] at h ⊢
      obtain hrejected | ⟨-, hfull, -⟩ := h
      · exact Or.inl hrejected
      · omega
  | notify db results hworker => exact h

/-- The whole invariant. -/
structure Sound (env : Env) (n : Nat) (s : State) : Prop where
  workers : WorkersSound env n s
  caller : CallerSound n s

theorem sound_step (env : Env) (n : Nat) (s : State) (a : Action) (s' : State)
    (h : Sound env n s) (hstep : step env n s a = some s') : Sound env n s' := by
  have hmove := move_of_step env n s s' a hstep
  exact ⟨workersSound_move env n s s' a h.workers hmove,
    callerSound_move env n s s' a h.workers h.caller hmove⟩

theorem sound_play (env : Env) (n : Nat) (actions : List Action) (s : State)
    (hplay : play (step env n) init actions = some s) : Sound env n s :=
  Interleaving.play_invariant (sound_step env n) actions init s ⟨workersSound_init env n, rfl⟩
    hplay

/-! ## The answer -/

/-- What the caller gives back. -/
def Caller.result : Caller → Option (Except Throwable Unit)
  | .returned => some (.ok ())
  | .threw ex => some (.error (.retry ex.message))
  | _ => none

theorem attemptExec_eq_none (env : Env) (db : Nat) :
    attemptExec env db = none ↔ (attemptExecCommand env db).1.isOk = true := by
  unfold attemptExec
  cases (attemptExecCommand env db).1 with
  | ok u => simp [Except.isOk, Except.toBool]
  | error ex => simp [Except.isOk, Except.toBool]

theorem Sound.mem_results {env : Env} {n : Nat} {s : State} (h : Sound env n s)
    (hsome : none ∈ s.results) : ∃ db < n, attemptExec env db = none := by
  obtain ⟨order, -, -, hlt, hresults⟩ := h.workers.recorded
  rw [hresults] at hsome
  obtain ⟨db, hdb, hnone⟩ := List.mem_map.mp hsome
  exact ⟨db, Nat.lt_of_lt_of_le (hlt db hdb) h.workers.accepted, hnone⟩

/-- Complete results are those of all databases, in some order. -/
theorem Sound.results_perm {env : Env} {n : Nat} {s : State} (h : Sound env n s)
    (hfull : s.results.length = n) :
    s.results.Perm ((List.range n).map (attemptExec env)) ∧
      ∀ db < n, s.workers db ≠ .attempting := by
  obtain ⟨order, horder⟩ := h.workers.recorded
  have hall := horder.mem_of_full n h.workers.accepted hfull
  obtain ⟨hnodup, hmem, hlt, hresults⟩ := horder
  constructor
  · rw [hresults]
    apply List.Perm.map
    apply (List.perm_ext_iff_of_nodup hnodup List.nodup_range).mpr
    intro db
    rw [List.mem_range]
    exact ⟨fun hdb => Nat.lt_of_lt_of_le (hlt db hdb) h.workers.accepted, hall db⟩
  · intro db hdb
    exact (hmem db).mp (hall db hdb)

/-- Whatever the order of the attempts, the caller has the answer that they have one after
another. -/
theorem Sound.result_eq {env : Env} {n : Nat} {s : State} (h : Sound env n s)
    (hanswered : Answered s) :
    s.caller.result = some (CommandProcessing.broadcastCmd ⟨true, n⟩
      { env with accepted := s.accepted }).1 := by
  have hcaller := h.caller
  obtain hreturned | ⟨ex, hthrew⟩ := hanswered
  · simp only [CallerSound, hreturned] at hcaller
    obtain ⟨hall, results, hpre, hsome, -⟩ := hcaller
    obtain ⟨db, hdb, hnone⟩ := h.mem_results (hpre.subset hsome)
    have hok : ∃ db < n, (attemptExecCommand env db).1.isOk = true :=
      ⟨db, hdb, (attemptExec_eq_none env db).mp hnone⟩
    have hany : ((List.range n).map (attemptExecCommand env)).any
        (fun result => result.1.isOk) = true := by simpa using hok
    simp only [CommandProcessing.broadcastCmd, hreturned, Caller.result, hall, Nat.min_self,
      lt_irrefl, if_false]
    exact congrArg some (if_pos hany).symm
  · simp only [CallerSound, hthrew] at hcaller
    obtain ⟨hless, rfl, -⟩ | ⟨hall, hfull, hnone, rfl, -⟩ := hcaller
    · simp [CommandProcessing.broadcastCmd, hthrew, Caller.result, hless, rejected]
    · have hany : ¬ ((List.range n).map (attemptExecCommand env)).any
          (fun result => result.1.isOk) = true := by
        rw [List.any_map, List.any_eq_true]
        intro hsome
        obtain ⟨db, hdb, hok⟩ := hsome
        apply hnone
        rw [(h.results_perm hfull).1.mem_iff, List.mem_map]
        exact ⟨db, hdb, (attemptExec_eq_none env db).mpr hok⟩
      simp only [CommandProcessing.broadcastCmd, hthrew, Caller.result, hall, Nat.min_self,
        lt_irrefl, if_false]
      exact congrArg some (if_neg hany).symm

/-! ## An answer comes -/

def Worker.remaining : Worker → Nat
  | .attempting => 2
  | .notifying _ => 1
  | .done => 0

def Caller.remaining : Caller → Nat
  | .submitting => 3
  | .released => 2
  | .deciding _ => 1
  | .returned => 0
  | .threw _ => 0

/-- How many actions there still can be. -/
def remaining (n : Nat) (s : State) : Nat :=
  (n - s.accepted) + ∑ db ∈ Finset.range n, (s.workers db).remaining + s.caller.remaining

theorem sum_update (n : Nat) (workers : Nat → Worker) (db : Nat) (hdb : db < n) (w : Worker) :
    ∑ i ∈ Finset.range n, (Function.update workers db w i).remaining +
        (workers db).remaining =
      ∑ i ∈ Finset.range n, (workers i).remaining + w.remaining := by
  have hin : db ∈ Finset.range n := Finset.mem_range.mpr hdb
  have hcomp : ∀ i, (Function.update workers db w i).remaining =
      Function.update (fun i => (workers i).remaining) db w.remaining i := by
    intro i
    by_cases he : i = db
    · rw [he, Function.update_self, Function.update_self]
    · rw [Function.update_of_ne he, Function.update_of_ne he]
  simp only [hcomp]
  rw [Finset.sum_update_of_mem hin,
    Finset.sum_eq_add_sum_sdiff_singleton_of_mem hin fun i => (workers i).remaining]
  omega

theorem remaining_step (env : Env) (n : Nat) (s : State) (a : Action) (s' : State)
    (h : Sound env n s) (hstep : step env n s a = some s') : remaining n s' < remaining n s := by
  have haccepted := h.workers.accepted
  cases move_of_step env n s s' a hstep with
  | accept hcaller hlt =>
    simp only [remaining]
    omega
  | reject hcaller hlt =>
    simp only [remaining, hcaller, Caller.remaining]
    omega
  | wake hcaller hall hfinished =>
    simp only [remaining, hcaller, Caller.remaining]
    omega
  | read hcaller =>
    simp only [remaining, hcaller, Caller.remaining]
    omega
  | answer results hcaller =>
    have hdone : (answer results).1.remaining = 0 := by
      unfold answer
      split <;> rfl
    have hdeciding : (Caller.deciding results).remaining = 1 := rfl
    simp only [remaining, hcaller, hdone, hdeciding]
    omega
  | record db hlt hworker =>
    have hsum := sum_update n s.workers db (by omega)
      (.notifying (s.results ++ [attemptExec env db]))
    rw [hworker] at hsum
    change _ + 2 = _ + 1 at hsum
    simp only [remaining]
    omega
  | notify db results hworker =>
    obtain ⟨order, -, hmem, hless, -⟩ := h.workers.recorded
    have hdb : db < s.accepted := hless db ((hmem db).mpr (by
      rw [hworker]
      exact Worker.noConfusion))
    have hsum := sum_update n s.workers db (by omega) .done
    rw [hworker] at hsum
    change _ + 1 = _ + 0 at hsum
    simp only [remaining]
    omega

theorem remaining_init (n : Nat) : remaining n init = 3 * n + 3 := by
  simp only [remaining, init, Worker.remaining, Caller.remaining, Finset.sum_const,
    Finset.card_range, smul_eq_mul]
  omega

/-- Where no worker can go on, all are through. -/
theorem worker_done (env : Env) (n : Nat) (s : State) (hstuck : ∀ a, step env n s a = none)
    (db : Nat) (hdb : db < s.accepted) : s.workers db = .done := by
  cases hworker : s.workers db with
  | done => rfl
  | attempting =>
    have hrecord := hstuck (.record db)
    rw [step, if_pos ⟨hdb, hworker⟩] at hrecord
    cases hrecord
  | notifying results =>
    have hnotify := hstuck (.notify db)
    simp [step, hworker] at hnotify

/-- Where no thread can go on, a caller of at least one database has its answer. -/
theorem Sound.answered {env : Env} {n : Nat} {s : State} (h : Sound env n s) (hpos : 0 < n)
    (hstuck : ∀ a, step env n s a = none) : Answered s := by
  have haccepted := h.workers.accepted
  cases hcaller : s.caller with
  | returned => exact Or.inl hcaller
  | threw ex => exact Or.inr ⟨ex, hcaller⟩
  | released =>
    have hread := hstuck .read
    rw [step, if_pos hcaller] at hread
    cases hread
  | deciding results =>
    have hanswer := hstuck .answer
    simp [step, hcaller] at hanswer
  | submitting =>
    have hall : s.accepted = n := by
      by_contra hless
      have haccept := hstuck .accept
      rw [step, if_pos ⟨hcaller, by omega⟩] at haccept
      cases haccept
    have hdone : ∀ db < n, s.workers db = .done := by
      intro db hdb
      exact worker_done env n s hstuck db (by omega)
    have hfull : s.results.length = n := by
      obtain ⟨order, -, hmem, -, hresults⟩ := h.workers.recorded
      have hsub : (List.range n).Subperm order := by
        apply List.subperm_of_subset List.nodup_range
        intro db hdb
        rw [hmem, hdone db (List.mem_range.mp hdb)]
        exact Worker.noConfusion
      have hle := h.workers.results_length_le
      have hge := hsub.length_le
      rw [hresults, List.length_map] at hle ⊢
      rw [List.length_range] at hge
      omega
    have hfinished : s.finished = true := by
      obtain hfinished | ⟨db, hnotifying⟩ := h.workers.last hfull hpos
      · exact hfinished
      · have hnotify := hstuck (.notify db)
        simp [step, hnotifying] at hnotify
    have hwake := hstuck .wake
    rw [step, if_pos ⟨hcaller, hall, hfinished⟩] at hwake
    cases hwake

/-! ## The outcome of a broadcast -/

/-- What a call whose tasks the pool has taken does: it returns after a success and throws when
all attempts have failed, with their exceptions, and it calls the callback once. -/
structure Outcome (env : Env) (n : Nat) (s : State) : Prop where
  returned : s.caller = .returned →
    (∃ db < n, attemptExec env db = none) ∧
      ∃ results, none ∈ results ∧ results <+: s.results ∧ s.callbacks = [.result results]
  threw : ∀ ex, s.caller = .threw ex →
    (∀ db < n, s.workers db ≠ .attempting ∧ attemptExec env db ≠ none) ∧
      ex = unableToBroadcast s.results ∧
      ex.suppressed.Perm ((List.range n).filterMap (attemptExec env)) ∧
      s.callbacks = [.exception ex]
  pending : ¬ Answered s → s.callbacks = []

theorem Sound.outcome {env : Env} {n : Nat} {s : State} (h : Sound env n s)
    (hall : s.accepted = n) : Outcome env n s := by
  have hcallerSound := h.caller
  constructor
  · intro hcaller
    simp only [CallerSound, hcaller] at hcallerSound
    obtain ⟨-, results, hpre, hsome, hcallbacks⟩ := hcallerSound
    exact ⟨h.mem_results (hpre.subset hsome), results, hsome, hpre, hcallbacks⟩
  · intro ex hcaller
    simp only [CallerSound, hcaller] at hcallerSound
    obtain ⟨hless, -⟩ | ⟨-, hfull, hnone, rfl, hcallbacks⟩ := hcallerSound
    · omega
    · obtain ⟨hperm, hworkers⟩ := h.results_perm hfull
      have hfailed : ∀ db < n, attemptExec env db ≠ none := by
        intro db hdb hsuccess
        apply hnone
        rw [hperm.mem_iff, ← hsuccess]
        exact List.mem_map_of_mem (List.mem_range.mpr hdb)
      refine ⟨fun db hdb => ⟨hworkers db hdb, hfailed db hdb⟩, rfl, ?_, hcallbacks⟩
      have hsuppressed := hperm.filterMap id
      rwa [List.filterMap_map] at hsuppressed
  · intro hpending
    cases hcaller : s.caller with
    | returned => exact absurd (Or.inl hcaller) hpending
    | threw ex => exact absurd (Or.inr ⟨ex, hcaller⟩) hpending
    | submitting =>
      simp only [CallerSound, hcaller] at hcallerSound
      exact hcallerSound
    | released =>
      simp only [CallerSound, hcaller] at hcallerSound
      exact hcallerSound.1
    | deciding results =>
      simp only [CallerSound, hcaller] at hcallerSound
      exact hcallerSound.1

/-- In every interleaving of `broadcast-cmd` with its workers whose tasks are all accepted, the
answer is that of the attempts: true when one of them succeeds, and otherwise an exception that
has all their failures. The threads stop after a bounded number of actions, and with the
databases of a configuration the caller then has its answer. -/
theorem broadcastCmd_outcome (env : Env) (n : Nat) (actions : List Action) (s : State)
    (hplay : play (step env n) init actions = some s) :
    (s.accepted = n → Outcome env n s ∧
      (Answered s → (s.caller = .returned ↔ ∃ db < n, attemptExec env db = none) ∧
        s.callbacks.length = 1)) ∧
    actions.length ≤ 3 * n + 3 ∧
    ∀ {α : Type} (config : List (String × α)), (writeDatabases config).length = n →
      (∀ a, step env n s a = none) → Answered s := by
  have hsound := sound_play env n actions s hplay
  refine ⟨?_, ?_, ?_⟩
  · intro hall
    have houtcome := hsound.outcome hall
    refine ⟨houtcome, ?_⟩
    intro hanswered
    obtain hreturned | ⟨ex, hthrew⟩ := hanswered
    · obtain ⟨hsuccess, results, -, -, hcallbacks⟩ := houtcome.returned hreturned
      rw [hcallbacks]
      exact ⟨iff_of_true hreturned hsuccess, rfl⟩
    · obtain ⟨hfailed, -, -, hcallbacks⟩ := houtcome.threw ex hthrew
      rw [hcallbacks, hthrew]
      refine ⟨iff_of_false Caller.noConfusion ?_, rfl⟩
      intro ⟨db, hdb, hsuccess⟩
      exact (hfailed db hdb).2 hsuccess
  · have hbound := Interleaving.play_length_le (sound_step env n) (remaining_step env n) actions
      init s ⟨workersSound_init env n, rfl⟩ hplay
    rw [remaining_init] at hbound
    omega
  · intro α config hn hstuck
    apply hsound.answered _ hstuck
    rw [← hn]
    exact writeDatabases_pos config

/-! ## One database down -/

/-- The first of two databases fails every time. -/
def firstDown : Env where
  now := 0
  load := .ok true
  prep := .ok ()
  accepted := 2
  exec db _ := if db = 0 then .error (.exception "down") else .ok ()
  ack := .ok ()

/-- The answer comes before the failure is in. -/
def succeedFirst : List Action := [.accept, .accept, .record 1, .notify 1, .wake, .read, .answer]

def afterSuccess : State where
  accepted := 2
  caller := .returned
  workers :=
    Function.update (Function.update (fun _ => .attempting) 1 (.notifying [none])) 1 .done
  results := [none]
  finished := true
  callbacks := [.result [none]]

theorem broadcastCmd_succeedFirst :
    Outcome firstDown 2 afterSuccess ∧ ∃ db < 2, attemptExec firstDown db = none := by
  have h := (broadcastCmd_outcome firstDown 2 succeedFirst afterSuccess rfl).1 rfl
  exact ⟨h.1, (h.2 (Or.inl rfl)).1.mp rfl⟩

end OpenVoxDB.Broadcast
