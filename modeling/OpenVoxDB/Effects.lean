import Mathlib

/-!
# Computations that call an environment

A computation makes calls, and each of them returns or throws as the environment decides, which
knows all calls made so far with their outcomes. The log of a computation is what it has added to
them. A computation may throw what no call does. What is to hold of every outcome is said of the
result and of the log, and proved by rules for the ways in which computations are put together.
-/

namespace OpenVoxDB.Effects

variable {κ ρ ε τ α β : Type}

/-- A call with its outcome. -/
structure Entry (κ ρ ε : Type) where
  call : κ
  outcome : Except ε ρ
  deriving DecidableEq

abbrev Log (κ ρ ε : Type) := List (Entry κ ρ ε)

/-- What each call returns or throws, after the calls so far. -/
abbrev Environment (κ ρ ε : Type) := Log κ ρ ε → κ → Except ε ρ

/-- A computation gives its result and the entries that it adds to the log. -/
def Action (κ ρ ε τ α : Type) : Type := Environment κ ρ ε → Log κ ρ ε → Except τ α × Log κ ρ ε

namespace Action

def run (x : Action κ ρ ε τ α) (env : Environment κ ρ ε) (past : Log κ ρ ε) :
    Except τ α × Log κ ρ ε := x env past

def pure (a : α) : Action κ ρ ε τ α := fun _ _ => (.ok a, [])

def throw (e : τ) : Action κ ρ ε τ α := fun _ _ => (.error e, [])

def bind (x : Action κ ρ ε τ α) (f : α → Action κ ρ ε τ β) : Action κ ρ ε τ β := fun env past =>
  match x.run env past with
  | (.ok a, log) => (((f a).run env (past ++ log)).1, log ++ ((f a).run env (past ++ log)).2)
  | (.error e, log) => (.error e, log)

/-- What is thrown is handled; what the handler throws is not. -/
def tryCatch (x : Action κ ρ ε τ α) (handle : τ → Action κ ρ ε τ α) : Action κ ρ ε τ α :=
  fun env past =>
    match x.run env past with
    | (.ok a, log) => (.ok a, log)
    | (.error e, log) =>
      (((handle e).run env (past ++ log)).1, log ++ ((handle e).run env (past ++ log)).2)

/-- The first of two exceptions is thrown, the other is suppressed by it. -/
def settle (r : Except τ α) (final : Except τ β) : Except τ α :=
  match r, final with
  | .ok a, .ok _ => .ok a
  | .ok _, .error e => .error e
  | .error e, _ => .error e

/-- The second computation is run whatever becomes of the first. -/
def finallyDo (x : Action κ ρ ε τ α) (y : Action κ ρ ε τ β) : Action κ ρ ε τ α := fun env past =>
  let (r, log) := x.run env past
  let (final, more) := y.run env (past ++ log)
  (settle r final, log ++ more)

/-- The second of two exceptions is thrown, the first is lost. -/
def override (r : Except τ α) (final : Except τ β) : Except τ α :=
  match final with
  | .ok _ => r
  | .error e => .error e

/-- Like `finallyDo`, but what the second computation throws is thrown in any case. -/
def closing (x : Action κ ρ ε τ α) (y : Action κ ρ ε τ β) : Action κ ρ ε τ α := fun env past =>
  let (r, log) := x.run env past
  let (final, more) := y.run env (past ++ log)
  (override r final, log ++ more)

/-- The log so far. -/
def past : Action κ ρ ε τ (Log κ ρ ε) := fun _ log => (.ok log, [])

/-- What the call throws is thrown on as `lift` says. -/
def call (lift : ε → τ) (c : κ) : Action κ ρ ε τ ρ := fun env past =>
  ((env past c).mapError lift, [⟨c, env past c⟩])

/-- A call that cannot fail. -/
def note (c : κ) (a : ρ) : Action κ ρ ε τ Unit := fun _ _ => (.ok (), [⟨c, .ok a⟩])

instance : Monad (Action κ ρ ε τ) where
  pure := Action.pure
  bind := Action.bind

instance : MonadExceptOf τ (Action κ ρ ε τ) where
  throw := Action.throw
  tryCatch := Action.tryCatch

/-- The computation for each of the elements, one after the other. -/
def forEach (xs : List α) (f : α → Action κ ρ ε τ Unit) : Action κ ρ ε τ Unit :=
  match xs with
  | [] => Action.pure ()
  | x :: xs => Action.bind (f x) fun _ => forEach xs f

/-- What is started is committed if the body returns, and rolled back if it throws, or if it cannot
be committed. If the rollback throws as well, `both` tells what is thrown. -/
def transact (start commit rollback : Action κ ρ ε τ Unit) (both : τ → τ → τ)
    (body : Action κ ρ ε τ α) : Action κ ρ ε τ α :=
  Action.bind start fun _ =>
    Action.tryCatch (Action.bind body fun a => Action.bind commit fun _ => Action.pure a)
      fun e =>
        Action.bind (Action.tryCatch rollback fun e' => Action.throw (both e' e))
          fun _ => Action.throw e

/-- The computation for each of the elements, also when an exception is thrown for one before; the
first exception is thrown in the end. What is no exception ends it at once. -/
def attemptAll (isException : τ → Bool) (f : α → Action κ ρ ε τ Unit) :
    List α → Option τ → Action κ ρ ε τ Unit
  | [], none => Action.pure ()
  | [], some e => Action.throw e
  | x :: xs, first =>
    Action.bind
      (Action.tryCatch (Action.bind (f x) fun _ => Action.pure first) fun e =>
        if isException e then Action.pure (first.or (some e)) else Action.throw e)
      fun first => attemptAll isException f xs first

end Action

/-- In every environment, result and log of the computation after this past satisfy `Q`. -/
def Meets (past : Log κ ρ ε) (x : Action κ ρ ε τ α) (Q : Except τ α → Log κ ρ ε → Prop) : Prop :=
  ∀ env, Q (x.run env past).1 (x.run env past).2

namespace Meets

variable {past : Log κ ρ ε} {x : Action κ ρ ε τ α} {P Q : Except τ α → Log κ ρ ε → Prop}

theorem mono (h : Meets past x P) (himp : ∀ r log, P r log → Q r log) : Meets past x Q :=
  fun env => himp _ _ (h env)

theorem pure (a : α) (h : Q (.ok a) []) : Meets past (Pure.pure a) Q := fun _ => h

theorem throw (e : τ) (h : Q (.error e) []) : Meets past (MonadExcept.throw e) Q := fun _ => h

theorem call (lift : ε → τ) (c : κ) {Q : Except τ ρ → Log κ ρ ε → Prop}
    (h : ∀ o, Q (o.mapError lift) [⟨c, o⟩]) : Meets past (Action.call lift c) Q := fun _ => h _

theorem note (c : κ) (a : ρ) {Q : Except τ Unit → Log κ ρ ε → Prop} (h : Q (.ok ()) [⟨c, .ok a⟩]) :
    Meets past (Action.note c a) Q := fun _ => h

theorem readPast {Q : Except τ (Log κ ρ ε) → Log κ ρ ε → Prop} (h : Q (.ok past) []) :
    Meets past Action.past Q := fun _ => h

theorem bind {f : α → Action κ ρ ε τ β} {Q : Except τ β → Log κ ρ ε → Prop} (hx : Meets past x P)
    (hok : ∀ a log, P (.ok a) log →
      Meets (past ++ log) (f a) fun r more => Q r (log ++ more))
    (herror : ∀ e log, P (.error e) log → Q (.error e) log) : Meets past (x >>= f) Q := by
  intro env
  have hfirst := hx env
  have hdef : (x >>= f).run env past = Action.bind x f env past := rfl
  rw [hdef, Action.bind]
  generalize hrun : x.run env past = result at hfirst
  obtain ⟨r, log⟩ := result
  cases r with
  | ok a => exact hok a log hfirst env
  | error e => exact herror e log hfirst

/-- A call, and what is done with its answer. -/
theorem bindCall (lift : ε → τ) (c : κ) {f : ρ → Action κ ρ ε τ β}
    {Q : Except τ β → Log κ ρ ε → Prop}
    (hok : ∀ a, Meets (past ++ [⟨c, .ok a⟩]) (f a) fun r more => Q r (⟨c, .ok a⟩ :: more))
    (herror : ∀ x, Q (.error (lift x)) [⟨c, .error x⟩]) :
    Meets past (Action.call lift c >>= f) Q := by
  intro env
  have hdef : (Action.call lift c >>= f).run env past =
    Action.bind (Action.call lift c) f env past := rfl
  rw [hdef, Action.bind, Action.run, Action.call]
  cases henv : env past c with
  | ok a => exact hok a env
  | error x => exact herror x

theorem tryCatch {handle : τ → Action κ ρ ε τ α} (hx : Meets past x P)
    (herror : ∀ e log, P (.error e) log →
      Meets (past ++ log) (handle e) fun r more => Q r (log ++ more))
    (hok : ∀ a log, P (.ok a) log → Q (.ok a) log) :
    Meets past (MonadExcept.tryCatch x handle) Q := by
  intro env
  have hfirst := hx env
  have hdef : (MonadExcept.tryCatch x handle).run env past = Action.tryCatch x handle env past :=
    rfl
  rw [hdef, Action.tryCatch]
  generalize hrun : x.run env past = result at hfirst
  obtain ⟨r, log⟩ := result
  cases r with
  | ok a => exact hok a log hfirst
  | error e => exact herror e log hfirst env

theorem finallyDo {y : Action κ ρ ε τ β} (hx : Meets past x P)
    (hy : ∀ r log, P r log → Meets (past ++ log) y fun final more =>
      Q (Action.settle r final) (log ++ more)) : Meets past (Action.finallyDo x y) Q := by
  intro env
  have hfirst := hx env
  have hdef : (Action.finallyDo x y).run env past = Action.finallyDo x y env past := rfl
  rw [hdef, Action.finallyDo]
  generalize hrun : x.run env past = result at hfirst
  obtain ⟨r, log⟩ := result
  exact hy r log hfirst env

theorem closing {y : Action κ ρ ε τ β} (hx : Meets past x P)
    (hy : ∀ r log, P r log → Meets (past ++ log) y fun final more =>
      Q (Action.override r final) (log ++ more)) : Meets past (Action.closing x y) Q := by
  intro env
  have hfirst := hx env
  have hdef : (Action.closing x y).run env past = Action.closing x y env past := rfl
  rw [hdef, Action.closing]
  generalize hrun : x.run env past = result at hfirst
  obtain ⟨r, log⟩ := result
  exact hy r log hfirst env

/-- What holds of the elements that are done is kept by the computation for the next one. -/
theorem forEach {xs : List α} {f : α → Action κ ρ ε τ Unit} {Q : Except τ Unit → Log κ ρ ε → Prop}
    (I : List α → Log κ ρ ε → Prop) (hnil : I [] [])
    (hstep : ∀ done a log, (∃ rest, xs = done ++ a :: rest) → I done log →
      Meets (past ++ log) (f a) fun r more =>
        (∀ u, r = .ok u → I (done ++ [a]) (log ++ more)) ∧
          ∀ e, r = .error e → Q (.error e) (log ++ more))
    (hend : ∀ log, I xs log → Q (.ok ()) log) : Meets past (Action.forEach xs f) Q := by
  suffices h : ∀ todo done log, xs = done ++ todo → I done log →
      Meets (past ++ log) (Action.forEach todo f) fun r more => Q r (log ++ more) by
    have hall := h xs [] [] rfl hnil
    simpa using hall
  intro todo
  induction todo with
  | nil =>
    intro done log hxs hlog env
    have hdone : done = xs := by simpa using hxs.symm
    have hfinal := hend log (hdone ▸ hlog)
    rw [← List.append_nil log] at hfinal
    exact hfinal
  | cons a todo ih =>
    intro done log hxs hlog
    refine Meets.bind (hstep done a log ⟨todo, hxs⟩ hlog) (fun u more hmore => ?_)
      fun e more hmore => hmore.2 e rfl
    have hrest := ih (done ++ [a]) (log ++ more) (by simpa using hxs) (hmore.1 u rfl)
    simpa only [List.append_assoc] using hrest

end Meets

end OpenVoxDB.Effects
