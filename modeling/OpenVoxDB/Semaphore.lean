import Mathlib
import OpenVoxDB.Run

/-!
# Semaphores

Calls that are guarded by a semaphore go through stages. A call holds a permit
in some of them, and as long as its steps acquire and release where it says so,
no more calls hold one than there are permits.
-/

namespace OpenVoxDB.Semaphore

variable {Stage Outcome : Type}

/-- A call: its stage, and how often it has acquired and released a permit. -/
structure Call (Stage : Type) where
  stage : Stage
  acquired : Nat
  released : Nat
  deriving DecidableEq, Repr

/-- A semaphore with the calls that use it, and the permits drained from it. -/
structure Gate (Stage : Type) where
  permits : Nat
  drained : Nat
  calls : List (Call Stage)

/-- What a step of a call does to the semaphore. -/
inductive Effect where
  | keep
  | acquire
  | release
  deriving DecidableEq, Repr

inductive Event (Outcome : Type) where
  /-- A new call. -/
  | call
  /-- The next step of a call. -/
  | go (i : Nat) (outcome : Outcome)
  | drain

def Gate.of (size : Nat) : Gate Stage := ⟨size, 0, []⟩

/-- How often the calls have acquired a permit. -/
def Gate.acquired (g : Gate Stage) : Nat := (g.calls.map Call.acquired).sum

def Gate.released (g : Gate Stage) : Nat := (g.calls.map Call.released).sum

section Program

variable (start : Stage) (next : Stage → Outcome → Effect × Stage)

/-- A call that is to acquire a permit waits until there is one. -/
def Gate.go (g : Gate Stage) (i : Nat) (c : Call Stage) : Effect × Stage → Gate Stage
  | (.keep, stage) => { g with calls := g.calls.set i { c with stage := stage } }
  | (.acquire, stage) =>
    if 0 < g.permits then
      { g with
        permits := g.permits - 1
        calls := g.calls.set i { c with stage := stage, acquired := c.acquired + 1 } }
    else g
  | (.release, stage) =>
    { g with
      permits := g.permits + 1
      calls := g.calls.set i { c with stage := stage, released := c.released + 1 } }

def step (g : Gate Stage) : Event Outcome → Gate Stage
  | .call => { g with calls := g.calls ++ [⟨start, 0, 0⟩] }
  | .go i outcome =>
    match g.calls[i]? with
    | none => g
    | some c => g.go i c (next c.stage outcome)
  | .drain => { g with permits := 0, drained := g.drained + g.permits }

variable (holds : Stage → Bool)

/-- The step acquires a permit where the call then holds one, and releases it where it then
does not. -/
def Respects (stage : Stage) : Effect × Stage → Prop
  | (.keep, stage') => holds stage' = holds stage
  | (.acquire, stage') => holds stage = false ∧ holds stage' = true
  | (.release, stage') => holds stage = true ∧ holds stage' = false

/-- The event is no step of a call, or one that respects the permits. -/
def Allowed (g : Gate Stage) : Event Outcome → Prop
  | .go i outcome => ∀ c, g.calls[i]? = some c → Respects holds c.stage (next c.stage outcome)
  | _ => True

/-- Each call has the permits it holds, and none are lost or made up. -/
structure Inv (size : Nat) (g : Gate Stage) : Prop where
  each : ∀ c ∈ g.calls, c.acquired = c.released + (holds c.stage).toNat
  total : g.permits + g.drained + g.acquired = size + g.released

variable {start next holds}

theorem sum_set (f : Call Stage → Nat) (calls : List (Call Stage)) (i : Nat) (c c' : Call Stage)
    (h : calls[i]? = some c) :
    ((calls.set i c').map f).sum + f c = (calls.map f).sum + f c' := by
  induction calls generalizing i with
  | nil => cases h
  | cons x rest ih =>
    cases i with
    | zero =>
      have hx : x = c := by simpa using h
      simp only [List.set_cons_zero, List.map_cons, List.sum_cons, hx]
      omega
    | succ i =>
      have hrest := ih i (by simpa using h)
      simp only [List.set_cons_succ, List.map_cons, List.sum_cons]
      omega

theorem inv_of (size : Nat) : Inv holds size (Gate.of size : Gate Stage) where
  each := fun _ h => by cases h
  total := by simp [Gate.of, Gate.acquired, Gate.released]

/-- No more calls hold a permit than there are. -/
theorem Inv.holding {size : Nat} {g : Gate Stage} (h : Inv holds size g) :
    g.permits + g.drained + g.calls.countP (fun c => holds c.stage) = size := by
  have hcount : ∀ calls : List (Call Stage),
      (∀ c ∈ calls, c.acquired = c.released + (holds c.stage).toNat) →
        (calls.map Call.acquired).sum =
          (calls.map Call.released).sum + calls.countP (fun c => holds c.stage) := by
    intro calls hcalls
    induction calls with
    | nil => rfl
    | cons c rest ih =>
      have hc := hcalls c List.mem_cons_self
      have hrest := ih fun x hx => hcalls x (List.mem_cons_of_mem _ hx)
      cases hholds : holds c.stage with
      | false =>
        simp only [hholds, Bool.toNat_false] at hc
        simp [hholds]
        omega
      | true =>
        simp only [hholds, Bool.toNat_true] at hc
        simp [hholds]
        omega
  have htotal := h.total
  have hsum := hcount g.calls h.each
  simp only [Gate.acquired, Gate.released] at htotal
  omega

/-- A call goes on, with one more permit acquired or released or neither. -/
theorem Inv.set {size : Nat} {g : Gate Stage} (h : Inv holds size g) {i : Nat} {c c' : Call Stage}
    (hc : g.calls[i]? = some c) (hc' : c'.acquired = c'.released + (holds c'.stage).toNat)
    {permits : Nat} (hpermits : permits + c'.acquired + c.released = g.permits + c.acquired + c'.released) :
    Inv holds size { g with permits := permits, calls := g.calls.set i c' } where
  each := by
    intro x hx
    obtain hx | hx := List.mem_or_eq_of_mem_set hx
    · exact h.each x hx
    · rw [hx]
      exact hc'
  total := by
    have hacquired := sum_set Call.acquired g.calls i c c' hc
    have hreleased := sum_set Call.released g.calls i c c' hc
    have htotal := h.total
    simp only [Gate.acquired, Gate.released] at *
    omega

theorem inv_go {size : Nat} {g : Gate Stage} (h : Inv holds size g) {i : Nat} {c : Call Stage}
    (hc : g.calls[i]? = some c) (effect : Effect × Stage) (hrespects : Respects holds c.stage effect) :
    Inv holds size (g.go i c effect) := by
  obtain ⟨effect, stage⟩ := effect
  have heach := h.each c (List.mem_of_getElem? hc)
  cases effect with
  | keep =>
    have hsame : holds stage = holds c.stage := hrespects
    apply h.set hc
    · rw [hsame]
      exact heach
    · rfl
  | acquire =>
    obtain ⟨hbefore, hafter⟩ := hrespects
    simp only [Gate.go]
    split
    · next hpermits =>
      apply h.set hc
      · simp only [hbefore, hafter, Bool.toNat_true, Bool.toNat_false] at heach ⊢
        omega
      · simp only
        omega
    · exact h
  | release =>
    obtain ⟨hbefore, hafter⟩ := hrespects
    apply h.set hc
    · simp only [hbefore, hafter, Bool.toNat_true, Bool.toNat_false] at heach ⊢
      omega
    · simp only
      omega

/-- A new call holds nothing. -/
theorem inv_step (hstart : holds start = false) {size : Nat} {g : Gate Stage}
    (h : Inv holds size g) (e : Event Outcome) (he : Allowed next holds g e) :
    Inv holds size (step start next g e) := by
  cases e with
  | call =>
    refine ⟨?_, ?_⟩
    · intro c hc
      obtain hc | hc := List.mem_append.mp hc
      · exact h.each c hc
      · rw [List.mem_singleton.mp hc, hstart]
        rfl
    · have htotal := h.total
      simpa [step, Gate.acquired, Gate.released] using htotal
  | go i outcome =>
    cases hc : g.calls[i]? with
    | none => simpa only [step, hc] using h
    | some c => simpa only [step, hc] using inv_go h hc _ (he c hc)
  | drain =>
    refine ⟨h.each, ?_⟩
    have htotal := h.total
    simp only [step, Gate.acquired, Gate.released] at *
    omega

end Program

end OpenVoxDB.Semaphore
