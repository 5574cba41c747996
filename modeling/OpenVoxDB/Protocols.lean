import OpenVoxDB.Effects

/-!
# Protocols

A protocol says which call may be made at a stage, and which stage the call leads to with its
outcome. A computation keeps to it when in every environment the stage it has reached allows each
of its calls. That is proved together with what holds of the last stage, by one rule for each way
in which computations are put together.
-/

namespace OpenVoxDB.Protocols

open Effects

variable {κ ρ ε τ σ α β : Type}

/-- The stage after one more call; none, if the call may not be made. -/
abbrev Protocol (κ ρ ε σ : Type) := σ → Entry κ ρ ε → Option σ

def follow (advance : Protocol κ ρ ε σ) (s : σ) (log : Log κ ρ ε) : Option σ := log.foldlM advance s

@[simp] theorem follow_nil (advance : Protocol κ ρ ε σ) (s : σ) : follow advance s [] = some s := rfl

@[simp] theorem follow_cons (advance : Protocol κ ρ ε σ) (s : σ) (e : Entry κ ρ ε)
    (log : Log κ ρ ε) : follow advance s (e :: log) = (advance s e).bind (follow advance · log) := rfl

theorem follow_append (advance : Protocol κ ρ ε σ) {s t : σ} {log : Log κ ρ ε}
    (h : follow advance s log = some t) (more : Log κ ρ ε) :
    follow advance s (log ++ more) = follow advance t more := by
  rw [follow, List.foldlM_append]
  rw [follow] at h
  rw [h]
  rfl

theorem follow_isSome_of_prefix (advance : Protocol κ ρ ε σ) {s t : σ} {log part : Log κ ρ ε}
    (h : follow advance s log = some t) (hpart : part <+: log) :
    (follow advance s part).isSome = true := by
  obtain ⟨rest, rfl⟩ := hpart
  rw [follow, List.foldlM_append] at h
  obtain ⟨u, hu, -⟩ := Option.bind_eq_some_iff.mp h
  rw [follow, hu]
  rfl

/-- What every allowed call keeps holds of the last stage. -/
theorem follow_invariant (advance : Protocol κ ρ ε σ) (I : σ → Prop)
    (hstep : ∀ s e t, advance s e = some t → I s → I t) {s t : σ} {log : Log κ ρ ε}
    (h : follow advance s log = some t) (hs : I s) : I t := by
  induction log generalizing s with
  | nil => exact Option.some.inj h ▸ hs
  | cons e log ih =>
    rw [follow_cons, Option.bind_eq_some_iff] at h
    obtain ⟨s', hfirst, hrest⟩ := h
    exact ih hrest (hstep s e s' hfirst hs)

/-- From the stage `s` on the computation keeps to the protocol, and its result and the last stage
satisfy `Q`. -/
def Keeps (advance : Protocol κ ρ ε σ) (start s : σ) (x : Action κ ρ ε τ α)
    (Q : Except τ α → σ → Prop) : Prop :=
  ∀ past, follow advance start past = some s →
    Meets past x fun r log => ∃ t, follow advance s log = some t ∧ Q r t

namespace Keeps

variable {advance : Protocol κ ρ ε σ} {start s : σ} {x : Action κ ρ ε τ α}
  {P Q : Except τ α → σ → Prop}

theorem mono (h : Keeps advance start s x P) (himp : ∀ r t, P r t → Q r t) :
    Keeps advance start s x Q :=
  fun past hpast => (h past hpast).mono fun r _ ⟨t, hfollow, ht⟩ => ⟨t, hfollow, himp r t ht⟩

theorem pure (a : α) (h : Q (.ok a) s) : Keeps advance start s (Pure.pure a) Q :=
  fun _ _ => Meets.pure a ⟨s, rfl, h⟩

theorem throw (e : τ) (h : Q (.error e) s) : Keeps advance start s (MonadExcept.throw e) Q :=
  fun _ _ => Meets.throw e ⟨s, rfl, h⟩

theorem call (lift : ε → τ) (c : κ) {Q : Except τ ρ → σ → Prop}
    (h : ∀ o, ∃ t, advance s ⟨c, o⟩ = some t ∧ Q (o.mapError lift) t) :
    Keeps advance start s (Action.call lift c) Q := by
  refine fun past _ => Meets.call lift c fun o => ?_
  obtain ⟨t, ht, hQ⟩ := h o
  exact ⟨t, by simp [ht], hQ⟩

theorem note (c : κ) (a : ρ) {Q : Except τ Unit → σ → Prop} {t : σ}
    (ht : advance s ⟨c, .ok a⟩ = some t) (h : Q (.ok ()) t) :
    Keeps advance start s (Action.note c a) Q :=
  fun _ _ => Meets.note c a ⟨t, by simp [ht], h⟩

/-- The calls so far have led to this stage. -/
theorem readPast {Q : Except τ (Log κ ρ ε) → σ → Prop}
    (h : ∀ past, follow advance start past = some s → Q (.ok past) s) :
    Keeps advance start s Action.past Q :=
  fun past hpast => Meets.readPast ⟨s, rfl, h past hpast⟩

theorem bind {f : α → Action κ ρ ε τ β} {Q : Except τ β → σ → Prop}
    (hx : Keeps advance start s x P) (hok : ∀ a t, P (.ok a) t → Keeps advance start t (f a) Q)
    (herror : ∀ e t, P (.error e) t → Q (.error e) t) : Keeps advance start s (x >>= f) Q := by
  intro past hpast
  refine Meets.bind (hx past hpast) (fun a log h => ?_) fun e log h => ?_
  · obtain ⟨t, hfollow, ht⟩ := h
    have hreached : follow advance start (past ++ log) = some t := by
      rw [follow_append advance hpast, hfollow]
    refine (hok a t ht _ hreached).mono fun r more hmore => ?_
    rw [follow_append advance hfollow]
    exact hmore
  · obtain ⟨t, hfollow, ht⟩ := h
    exact ⟨t, hfollow, herror e t ht⟩

/-- A call, and what is done with its answer. -/
theorem bindCall (lift : ε → τ) (c : κ) {f : ρ → Action κ ρ ε τ β} {Q : Except τ β → σ → Prop}
    (hok : ∀ a, ∃ t, advance s ⟨c, .ok a⟩ = some t ∧ Keeps advance start t (f a) Q)
    (herror : ∀ x, ∃ t, advance s ⟨c, .error x⟩ = some t ∧ Q (.error (lift x)) t) :
    Keeps advance start s (Action.call lift c >>= f) Q := by
  intro past hpast
  refine Meets.bindCall lift c (fun a => ?_) fun x => ?_
  · obtain ⟨t, ht, hrest⟩ := hok a
    have hreached : follow advance start (past ++ [⟨c, .ok a⟩]) = some t := by
      rw [follow_append advance hpast, follow_cons, ht]
      rfl
    refine (hrest _ hreached).mono fun r more hmore => ?_
    rw [follow_cons, ht]
    exact hmore
  · obtain ⟨t, ht, hQ⟩ := herror x
    exact ⟨t, by simp [ht], hQ⟩

theorem tryCatch {handle : τ → Action κ ρ ε τ α} (hx : Keeps advance start s x P)
    (herror : ∀ e t, P (.error e) t → Keeps advance start t (handle e) Q)
    (hok : ∀ a t, P (.ok a) t → Q (.ok a) t) :
    Keeps advance start s (MonadExcept.tryCatch x handle) Q := by
  intro past hpast
  refine Meets.tryCatch (hx past hpast) (fun e log h => ?_) fun a log h => ?_
  · obtain ⟨t, hfollow, ht⟩ := h
    have hreached : follow advance start (past ++ log) = some t := by
      rw [follow_append advance hpast, hfollow]
    refine (herror e t ht _ hreached).mono fun r more hmore => ?_
    rw [follow_append advance hfollow]
    exact hmore
  · obtain ⟨t, hfollow, ht⟩ := h
    exact ⟨t, hfollow, hok a t ht⟩

theorem finallyDo {y : Action κ ρ ε τ β} (hx : Keeps advance start s x P)
    (hy : ∀ r t, P r t → Keeps advance start t y fun final => Q (Action.settle r final)) :
    Keeps advance start s (Action.finallyDo x y) Q := by
  intro past hpast
  refine Meets.finallyDo (hx past hpast) fun r log h => ?_
  obtain ⟨t, hfollow, ht⟩ := h
  have hreached : follow advance start (past ++ log) = some t := by
    rw [follow_append advance hpast, hfollow]
  refine (hy r t ht _ hreached).mono fun final more hmore => ?_
  rw [follow_append advance hfollow]
  exact hmore

theorem closing {y : Action κ ρ ε τ β} (hx : Keeps advance start s x P)
    (hy : ∀ r t, P r t → Keeps advance start t y fun final => Q (Action.override r final)) :
    Keeps advance start s (Action.closing x y) Q := by
  intro past hpast
  refine Meets.closing (hx past hpast) fun r log h => ?_
  obtain ⟨t, hfollow, ht⟩ := h
  have hreached : follow advance start (past ++ log) = some t := by
    rw [follow_append advance hpast, hfollow]
  refine (hy r t ht _ hreached).mono fun final more hmore => ?_
  rw [follow_append advance hfollow]
  exact hmore

/-- A transaction: what holds when it has been started, when its body has ended, and when it is
over. -/
theorem transact {begun commit rollback : Action κ ρ ε τ Unit} {both : τ → τ → τ} (B : σ → Prop)
    (hbegun : Keeps advance start s begun fun r t =>
      (r = .ok () → B t) ∧ ∀ e, r = .error e → Q (.error e) t)
    (hbody : ∀ t, B t → Keeps advance start t x P)
    (hcommit : ∀ a t, P (.ok a) t → Keeps advance start t commit fun r u =>
      (r = .ok () → Q (.ok a) u) ∧ ∀ e, r = .error e → P (.error e) u)
    (hrollback : ∀ e t, P (.error e) t → Keeps advance start t rollback fun r u =>
      (r = .ok () → Q (.error e) u) ∧ ∀ e', r = .error e' → Q (.error (both e' e)) u) :
    Keeps advance start s (Action.transact begun commit rollback both x) Q := by
  refine Keeps.bind hbegun (fun _ t ht => ?_) fun e t ht => ht.2 e rfl
  refine Keeps.tryCatch (P := fun r u => (∀ a, r = .ok a → Q (.ok a) u) ∧
    ∀ e, r = .error e → P (.error e) u) ?_ (fun e u hu => ?_) fun a u hu => hu.1 a rfl
  · refine Keeps.bind (hbody t (ht.1 rfl)) (fun a u hu => ?_) fun e u hu =>
      ⟨fun a h => (by cases h), fun e' h => Except.error.inj h ▸ hu⟩
    refine Keeps.bind (hcommit a u hu) (fun _ v hv => Keeps.pure a ⟨fun a' h => ?_, fun e h => ?_⟩)
      fun e v hv => ⟨fun a' h => (by cases h), fun e' h => Except.error.inj h ▸ hv.2 e rfl⟩
    · rw [← Except.ok.inj h]
      exact hv.1 rfl
    · cases h
  · refine Keeps.bind (P := fun r v => (r = .ok () → Q (.error e) v) ∧
      ∀ e', r = .error e' → Q (.error e') v) ?_ (fun _ v hv => Keeps.throw e (hv.1 rfl))
        fun e' v hv => hv.2 e' rfl
    refine Keeps.tryCatch (hrollback e u (hu.2 e rfl)) (fun e' v hv => ?_) fun _ v hv =>
      ⟨fun _ => hv.1 rfl, fun e' h => by cases h⟩
    refine Keeps.throw _ ⟨fun h => (by cases h), fun e'' h => ?_⟩
    rw [← Except.error.inj h]
    exact hv.2 e' rfl

/-- What holds of the elements that are done is kept by the computation for the next one. -/
theorem forEach {f : α → Action κ ρ ε τ Unit} {xs : List α} {Q : Except τ Unit → σ → Prop}
    (I : List α → σ → Prop) (hstart : I [] s)
    (hstep : ∀ done a t, (∃ rest, xs = done ++ a :: rest) → I done t →
      Keeps advance start t (f a) fun r u =>
        (r = .ok () → I (done ++ [a]) u) ∧ ∀ e, r = .error e → Q (.error e) u)
    (hend : ∀ t, I xs t → Q (.ok ()) t) : Keeps advance start s (Action.forEach xs f) Q := by
  suffices h : ∀ todo done t, xs = done ++ todo → I done t →
      Keeps advance start t (Action.forEach todo f) Q from h xs [] s rfl hstart
  intro todo
  induction todo with
  | nil =>
    intro done t hxs ht
    have hdone : done = xs := by simpa using hxs.symm
    exact Keeps.pure () (hend t (hdone ▸ ht))
  | cons a todo ih =>
    intro done t hxs ht
    exact Keeps.bind (hstep done a t ⟨todo, hxs⟩ ht)
      (fun _ u h => ih (done ++ [a]) u (by simpa using hxs) (h.1 rfl)) fun e u h => h.2 e rfl

/-- What holds of the elements that are done and of the first exception for one of them is kept by
the computation for the next element, whether it throws an exception or not. -/
theorem attemptAll {isException : τ → Bool} {f : α → Action κ ρ ε τ Unit} {xs : List α}
    {Q : Except τ Unit → σ → Prop} (I : List α → Option τ → σ → Prop) (hstart : I [] none s)
    (hstep : ∀ done a first t, (∃ rest, xs = done ++ a :: rest) → I done first t →
      Keeps advance start t (f a) fun r u =>
        (r = .ok () → I (done ++ [a]) first u) ∧ ∀ e, r = .error e →
          (isException e = true → I (done ++ [a]) (first.or (some e)) u) ∧
            (isException e = false → Q (.error e) u))
    (hend : ∀ t, I xs none t → Q (.ok ()) t)
    (hfirst : ∀ e t, I xs (some e) t → Q (.error e) t) :
    Keeps advance start s (Action.attemptAll isException f xs none) Q := by
  suffices h : ∀ todo done first t, xs = done ++ todo → I done first t →
      Keeps advance start t (Action.attemptAll isException f todo first) Q from
    h xs [] none s rfl hstart
  intro todo
  induction todo with
  | nil =>
    intro done first t hxs ht
    have hdone : done = xs := by simpa using hxs.symm
    cases first with
    | none => exact Keeps.pure () (hend t (hdone ▸ ht))
    | some e => exact Keeps.throw e (hfirst e t (hdone ▸ ht))
  | cons a todo ih =>
    intro done first t hxs ht
    have hone := hstep done a first t ⟨todo, hxs⟩ ht
    refine Keeps.bind (P := fun r u => (∀ first', r = .ok first' → I (done ++ [a]) first' u) ∧
      ∀ e, r = .error e → Q (.error e) u) ?_
      (fun first' u h => ih (done ++ [a]) first' u (by simpa using hxs) (h.1 first' rfl))
      fun e u h => h.2 e rfl
    refine Keeps.tryCatch (P := fun r u => (∀ first', r = .ok first' →
      I (done ++ [a]) first' u) ∧ ∀ e, r = .error e →
        (isException e = true → I (done ++ [a]) (first.or (some e)) u) ∧
          (isException e = false → Q (.error e) u)) ?_ (fun e u h => ?_) fun first' u h =>
            ⟨h.1, fun e he => by cases he⟩
    · refine Keeps.bind hone (fun _ u h => Keeps.pure first ⟨fun first' h' => ?_, fun e h' => ?_⟩)
        fun e u h => ⟨fun first' h' => (by cases h'), fun e' h' => Except.error.inj h' ▸ h.2 e rfl⟩
      · rw [← Except.ok.inj h']
        exact h.1 rfl
      · cases h'
    · cases he : isException e with
      | true =>
        rw [if_pos rfl]
        refine Keeps.pure _ ⟨fun first' h' => ?_, fun e' h' => by cases h'⟩
        rw [← Except.ok.inj h']
        exact (h.2 e rfl).1 he
      | false =>
        rw [if_neg Bool.false_ne_true]
        refine Keeps.throw e ⟨fun first' h' => (by cases h'), fun e' h' => ?_⟩
        rw [← Except.error.inj h']
        exact (h.2 e rfl).2 he

/-- A computation that is run from the start. -/
theorem fromStart (h : Keeps advance start start x Q) (env : Environment κ ρ ε) :
    ∃ t, follow advance start (x.run env []).2 = some t ∧ Q (x.run env []).1 t := h [] rfl env

end Keeps

end OpenVoxDB.Protocols
