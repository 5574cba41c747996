import Mathlib
import OpenVoxDB.MonitorDeadlines

/-!
# Forgetting a query

Once `forget` has returned true for a query, the monitor must leave the worker
of that query alone: its connection may serve another query. An expired query
carries a promise that `forget` waits for. An abandoned one carries none, and
neither does a query that an earlier call has removed.
-/

namespace OpenVoxDB.QueryMonitor

variable {Key Deadline : Type}

/-- The monitor is terminating the worker of the query. -/
def Terminates (s : Monitor Key Deadline) (query : Nat) : Prop :=
  ∃ info pid task, s.phase = .terminating info pid task ∧ info.query = query

/-- No query that has been forgotten is being terminated. -/
def Final (s : Monitor Key Deadline) : Prop := ∀ query ∈ s.forgotten, ¬ Terminates s query

/-- The query that `stop-query` has been called for. -/
def Phase.stops : Phase Key Deadline → Option (Info Key Deadline)
  | stopping info _ => info
  | terminating info _ _ => some info
  | _ => none

def Registered (s : Monitor Key Deadline) (query : Nat) : Prop :=
  ∃ key info, s.queries.selectorKeys key = some info ∧ info.query = query

/-- A query that the monitor is stopping is only forgotten if it has expired and no earlier call
has removed it. -/
def Awaited (s : Monitor Key Deadline) : Event Key Deadline → Prop
  | .forget query => ∀ info, s.phase.stops = some info → info.query = query →
      s.phase.drops.isSome ∧ Registered s query
  | _ => True

/-- What `forget` and the monitor's thread keep between them. -/
structure Coordinated (s : Monitor Key Deadline) : Prop where
  numbered : ∀ key info, s.queries.selectorKeys key = some info →
    s.keys[info.query]? = some key
  promised : ∀ info p, (s.phase.stops = some info ∨ ∃ key, s.queries.selectorKeys key = some info) →
    info.terminated = some p → p < s.promises
  delivered : ∀ p ∈ s.delivered, p < s.promises
  /-- An expired query carries a promise that has not been delivered, also where `forget` looks
  for it. -/
  expired : ∀ info k, s.phase.stops = some info → s.phase.drops = some k →
    s.keys[info.query]? = some k.2 ∧ ∃ p, info.terminated = some p ∧ p ∉ s.delivered ∧
      ∀ info', s.queries.selectorKeys k.2 = some info' → info'.query = info.query →
        info'.terminated = some p
  removed : ∀ query, (query ∈ s.forgotten ∨ query ∈ s.waiting.map Prod.fst) →
    query < s.keys.length ∧ ¬ Registered s query
  finished : ∀ query ∈ s.forgotten, ∀ info, s.phase.stops = some info → info.query ≠ query
  awaited : ∀ w ∈ s.waiting, ∀ info, s.phase.stops = some info → info.query = w.1 →
    s.phase.drops.isSome ∧ info.terminated = some w.2

theorem coordinated_start : Coordinated (Monitor.start : Monitor Key Deadline) where
  numbered := fun _ _ h => by cases h
  promised := by
    rintro info p (h | ⟨key, h⟩)
    · cases h
    · cases h
  delivered := fun _ h => by cases h
  expired := fun _ _ h => by cases h
  removed := by
    rintro query (h | h)
    · cases h
    · cases h
  finished := fun _ h => by cases h
  awaited := fun _ h => by cases h

theorem Coordinated.final {s : Monitor Key Deadline} (h : Coordinated s) : Final s := by
  rintro query hquery ⟨info, pid, task, hphase, hinfo⟩
  have hstops : s.phase.stops = some info := by rw [hphase, Phase.stops]
  exact h.finished query hquery info hstops hinfo

/-- Queries are removed. -/
theorem Coordinated.restrict {s : Monitor Key Deadline} (h : Coordinated s)
    (queries : Queries Key Deadline) (hsub : ∀ key info, queries.selectorKeys key = some info →
      s.queries.selectorKeys key = some info) : Coordinated { s with queries := queries } where
  numbered := fun key info hinfo => h.numbered key info (hsub key info hinfo)
  promised := by
    rintro info p hinfo
    exact h.promised info p (hinfo.imp_right fun ⟨key, hkey⟩ => ⟨key, hsub key info hkey⟩)
  delivered := h.delivered
  expired := by
    intro info k hstops hdrops
    obtain ⟨hkey, p, hp, hnew, hentry⟩ := h.expired info k hstops hdrops
    exact ⟨hkey, p, hp, hnew, fun info' hinfo' => hentry info' (hsub k.2 info' hinfo')⟩
  removed := by
    intro query hquery
    obtain ⟨hlt, hnot⟩ := h.removed query hquery
    exact ⟨hlt, fun ⟨key, info, hinfo, heq⟩ => hnot ⟨key, info, hsub key info hinfo, heq⟩⟩
  finished := h.finished
  awaited := h.awaited

/-- The monitor's thread is done with a query, or was with none. -/
theorem Coordinated.rest {s : Monitor Key Deadline} (h : Coordinated s)
    {phase : Phase Key Deadline} (hphase : phase.stops = none) (terminated : Option Nat)
    (hterminated : ∀ p, terminated = some p → p < s.promises) :
    Coordinated { s.deliver terminated with phase := phase } where
  numbered := h.numbered
  promised := by
    rintro info p (hstops | hkey)
    · rw [hphase] at hstops
      cases hstops
    · exact h.promised info p (.inr hkey)
  delivered := by
    intro p hp
    obtain hp | hp := List.mem_append.mp hp
    · exact hterminated p (Option.mem_toList.mp hp)
    · exact h.delivered p hp
  expired := by
    intro info k hstops
    rw [hphase] at hstops
    cases hstops
  removed := h.removed
  finished := by
    intro query hquery info hstops
    rw [hphase] at hstops
    cases hstops
  awaited := by
    intro w hw info hstops
    rw [hphase] at hstops
    cases hstops

/-- The query that the monitor's thread stops next is registered. -/
theorem Coordinated.stop {s : Monitor Key Deadline} (h : Coordinated s)
    {phase : Phase Key Deadline} (hdrops : phase.drops = none)
    (hstops : ∀ info, phase.stops = some info →
      ∃ key, s.queries.selectorKeys key = some info) : Coordinated { s with phase := phase } where
  numbered := h.numbered
  promised := by
    rintro info p (hinfo | hkey)
    · exact h.promised info p (.inr (hstops info hinfo))
    · exact h.promised info p (.inr hkey)
  delivered := h.delivered
  expired := by
    intro info k _ hk
    rw [hdrops] at hk
    cases hk
  removed := h.removed
  finished := by
    intro query hquery info hinfo heq
    obtain ⟨key, hkey⟩ := hstops info hinfo
    exact (h.removed query (.inl hquery)).2 ⟨key, info, hkey, heq⟩
  awaited := by
    intro w hw info hinfo heq
    obtain ⟨key, hkey⟩ := hstops info hinfo
    have hgone := h.removed w.1 (.inr (List.mem_map_of_mem hw))
    exact absurd ⟨key, info, hkey, heq⟩ hgone.2

/-- The monitor's thread goes on with the same query. -/
theorem Coordinated.of_same {s : Monitor Key Deadline} (h : Coordinated s)
    {phase : Phase Key Deadline} (hstops : phase.stops = s.phase.stops)
    (hdrops : phase.drops = s.phase.drops) : Coordinated { s with phase := phase } where
  numbered := h.numbered
  promised := fun info p hinfo => h.promised info p (hstops ▸ hinfo)
  delivered := h.delivered
  expired := fun info k hinfo hk => h.expired info k (hstops ▸ hinfo) (hdrops ▸ hk)
  removed := h.removed
  finished := fun query hquery info hinfo => h.finished query hquery info (hstops ▸ hinfo)
  awaited := by
    intro w hw info hinfo heq
    have hold := h.awaited w hw info (hstops ▸ hinfo) heq
    exact ⟨hdrops.symm ▸ hold.1, hold.2⟩

/-- A call of `forget` ends, for a query that is not registered any more. -/
theorem Coordinated.forgot {s : Monitor Key Deadline} (h : Coordinated s) {query : Nat}
    (hlt : query < s.keys.length) (hnot : ¬ Registered s query)
    (hstops : ∀ info, s.phase.stops = some info → info.query ≠ query) :
    Coordinated { s with forgotten := query :: s.forgotten } where
  numbered := h.numbered
  promised := h.promised
  delivered := h.delivered
  expired := h.expired
  removed := by
    rintro query' (hquery | hquery)
    · obtain rfl | hquery := List.mem_cons.mp hquery
      · exact ⟨hlt, hnot⟩
      · exact h.removed query' (.inl hquery)
    · exact h.removed query' (.inr hquery)
  finished := by
    intro query' hquery
    obtain rfl | hquery := List.mem_cons.mp hquery
    · exact hstops
    · exact h.finished query' hquery
  awaited := h.awaited

/-- A call of `forget` starts to wait. -/
theorem Coordinated.wait {s : Monitor Key Deadline} (h : Coordinated s) {query promise : Nat}
    (hlt : query < s.keys.length) (hnot : ¬ Registered s query)
    (hstops : ∀ info, s.phase.stops = some info → info.query = query →
      s.phase.drops.isSome ∧ info.terminated = some promise) :
    Coordinated { s with waiting := (query, promise) :: s.waiting } where
  numbered := h.numbered
  promised := h.promised
  delivered := h.delivered
  expired := h.expired
  removed := by
    rintro query' (hquery | hquery)
    · exact h.removed query' (.inl hquery)
    · obtain rfl | hquery := List.mem_cons.mp hquery
      · exact ⟨hlt, hnot⟩
      · exact h.removed query' (.inr hquery)
  finished := h.finished
  awaited := by
    intro w hw
    obtain rfl | hw := List.mem_cons.mp hw
    · exact hstops
    · exact h.awaited w hw

/-- A call of `forget` no longer waits. -/
theorem Coordinated.unwait {s : Monitor Key Deadline} (h : Coordinated s) (w : Nat × Nat) :
    Coordinated { s with waiting := s.waiting.erase w } where
  numbered := h.numbered
  promised := h.promised
  delivered := h.delivered
  expired := h.expired
  removed := by
    intro query hquery
    apply h.removed query
    exact hquery.imp_right fun hmem => (List.erase_sublist.map Prod.fst).subset hmem
  finished := h.finished
  awaited := fun w' hw' => h.awaited w' (List.mem_of_mem_erase hw')

theorem Coordinated.registered_key {s : Monitor Key Deadline} (h : Coordinated s) {query : Nat}
    {key : Key} (hkey : s.keys[query]? = some key) (hquery : Registered s query) :
    ∃ info, s.queries.selectorKeys key = some info ∧ info.query = query := by
  obtain ⟨key', info, hinfo, rfl⟩ := hquery
  have hnumbered := h.numbered key' info hinfo
  rw [hkey] at hnumbered
  cases hnumbered
  exact ⟨info, hinfo, rfl⟩

theorem Coordinated.awake {s : Monitor Key Deadline} (h : Coordinated s) {query promise : Nat}
    (hwaiting : (query, promise) ∈ s.waiting) (hdelivered : promise ∈ s.delivered) :
    Coordinated { s with
      waiting := s.waiting.erase (query, promise)
      forgotten := query :: s.forgotten } := by
  obtain ⟨hlt, hnot⟩ := h.removed query (.inr (List.mem_map_of_mem hwaiting))
  apply (h.unwait (query, promise)).forgot hlt hnot
  intro info hstops heq
  obtain ⟨hdrops, hpromise⟩ := h.awaited _ hwaiting info hstops heq
  obtain ⟨k, hk⟩ := Option.isSome_iff_exists.mp hdrops
  obtain ⟨-, p, hp, hnew, -⟩ := h.expired info k hstops hk
  rw [hpromise] at hp
  cases hp
  exact hnew hdelivered

theorem stops_next (failed : Bool) (task : Task Key Deadline) :
    (task.next failed).stops = none := by
  cases task with
  | expired deadlineNs key => rfl
  | abandoned deadKeys rest => cases failed <;> rfl

section Step

variable [DecidableEq Key] [LinearOrder Deadline] {hashCode : Key → Int}

theorem registered_dropQuery {queries : Queries Key Deadline} {deadlineNs : Deadline} {dropped : Key}
    (key : Key) (info : Info Key Deadline)
    (hinfo : (dropQuery hashCode queries deadlineNs dropped).selectorKeys key = some info) :
    key ≠ dropped ∧ queries.selectorKeys key = some info := by
  have hne : key ≠ dropped := by
    rintro rfl
    simp [dropQuery] at hinfo
  exact ⟨hne, by simpa [dropQuery, hne] using hinfo⟩

theorem Coordinated.register {s : Monitor Key Deadline} (h : Coordinated s) (key : Key)
    (deadlineNs : Deadline) : Coordinated (register hashCode s key deadlineNs) := by
  cases hfree : s.queries.selectorKeys key with
  | some info => simpa only [QueryMonitor.register, hfree] using h
  | none =>
    have hcases : ∀ key' info', (QueryMonitor.register hashCode s key deadlineNs).queries.selectorKeys
        key' = some info' → info' = ⟨s.keys.length, key, deadlineNs, none⟩ ∧ key' = key ∨
          s.queries.selectorKeys key' = some info' := by
      intro key' info' hinfo'
      simp only [QueryMonitor.register, hfree] at hinfo'
      by_cases hkey : key' = key
      · subst hkey
        exact .inl ⟨by simpa using hinfo'.symm, rfl⟩
      · exact .inr (by simpa [hkey] using hinfo')
    have hkeys : ∀ (query : Nat) (key' : Key), s.keys[query]? = some key' →
        (s.keys ++ [key])[query]? = some key' := by
      intro query key' hkey'
      rw [List.getElem?_append_left (List.getElem?_eq_some_iff.mp hkey').1]
      exact hkey'
    simp only [QueryMonitor.register, hfree] at hcases ⊢
    refine ⟨?_, ?_, h.delivered, ?_, ?_, h.finished, h.awaited⟩
    · intro key' info' hinfo'
      obtain ⟨rfl, rfl⟩ | hold := hcases key' info' hinfo'
      · simp
      · exact hkeys _ _ (h.numbered key' info' hold)
    · rintro info p (hstops | ⟨key', hinfo'⟩) hp
      · exact h.promised info p (.inl hstops) hp
      · obtain ⟨rfl, rfl⟩ | hold := hcases key' info hinfo'
        · cases hp
        · exact h.promised info p (.inr ⟨key', hold⟩) hp
    · intro info k hstops hdrops
      obtain ⟨hkey, p, hp, hnew, hentry⟩ := h.expired info k hstops hdrops
      refine ⟨hkeys _ _ hkey, p, hp, hnew, ?_⟩
      intro info' hinfo' hquery
      obtain ⟨rfl, -⟩ | hold := hcases k.2 info' hinfo'
      · have hlt := (List.getElem?_eq_some_iff.mp hkey).1
        rw [← hquery] at hlt
        exact absurd hlt (Nat.lt_irrefl _)
      · exact hentry info' hold hquery
    · intro query hquery
      obtain ⟨hlt, hnot⟩ := h.removed query hquery
      refine ⟨by simp; omega, ?_⟩
      rintro ⟨key', info', hinfo', rfl⟩
      obtain ⟨rfl, -⟩ | hold := hcases key' info' hinfo'
      · exact Nat.lt_irrefl _ hlt
      · exact hnot ⟨key', info', hold, rfl⟩

theorem Coordinated.forget {s : Monitor Key Deadline} (h : Coordinated s) (query : Nat)
    (hawaited : Awaited s (.forget query)) : Coordinated (forget hashCode s query) := by
  cases hkey : s.keys[query]? with
  | none => simpa only [QueryMonitor.forget, hkey] using h
  | some key =>
    have hlt := (List.getElem?_eq_some_iff.mp hkey).1
    cases hinfo : s.queries.selectorKeys key with
    | none =>
      have hnot : ¬ Registered s query := by
        intro hquery
        obtain ⟨info, hinfo', -⟩ := h.registered_key hkey hquery
        rw [hinfo] at hinfo'
        cases hinfo'
      simp only [QueryMonitor.forget, hkey, hinfo]
      exact h.forgot hlt hnot fun info hstops heq => hnot (hawaited info hstops heq).2
    | some info =>
      have hdropped := h.restrict (dropQuery hashCode s.queries info.deadlineNs key)
        fun key' info' hinfo' => (registered_dropQuery key' info' hinfo').2
      have hnot : ¬ Registered
          { s with queries := dropQuery hashCode s.queries info.deadlineNs key } query := by
        intro hquery
        obtain ⟨info', hinfo', -⟩ := hdropped.registered_key hkey hquery
        exact (registered_dropQuery key info' hinfo').1 rfl
      -- What the monitor stops is the query registered under the key, and carries its promise.
      have hsame : ∀ stopped, s.phase.stops = some stopped → stopped.query = query →
          s.phase.drops.isSome ∧ stopped.terminated = info.terminated := by
        intro stopped hstops heq
        obtain ⟨hdrops, hquery⟩ := hawaited stopped hstops heq
        obtain ⟨k, hk⟩ := Option.isSome_iff_exists.mp hdrops
        obtain ⟨hkey', p, hp, -, hentry⟩ := h.expired stopped k hstops hk
        have hkeys : k.2 = key := by
          rw [heq, hkey] at hkey'
          cases hkey'
          rfl
        obtain ⟨info', hinfo', hquery'⟩ := h.registered_key hkey hquery
        rw [hinfo] at hinfo'
        cases hinfo'
        have hterminated := hentry info (hkeys ▸ hinfo) (hquery'.trans heq.symm)
        exact ⟨hdrops, hp.trans hterminated.symm⟩
      cases hterminated : info.terminated with
      | none =>
        simp only [QueryMonitor.forget, hkey, hinfo, hterminated]
        apply hdropped.forgot hlt hnot
        intro stopped hstops heq
        obtain ⟨hdrops, hpromise⟩ := hsame stopped hstops heq
        obtain ⟨k, hk⟩ := Option.isSome_iff_exists.mp hdrops
        obtain ⟨-, p, hp, -⟩ := h.expired stopped k hstops hk
        rw [hpromise, hterminated] at hp
        cases hp
      | some promise =>
        simp only [QueryMonitor.forget, hkey, hinfo, hterminated]
        apply hdropped.wait hlt hnot
        intro stopped hstops heq
        obtain ⟨hdrops, hpromise⟩ := hsame stopped hstops heq
        exact ⟨hdrops, hpromise.trans hterminated⟩

theorem Coordinated.nextExpiredQuery {s : Monitor Key Deadline} (h : Coordinated s)
    (hs : Inv hashCode s) (now : Deadline) : Coordinated (nextExpiredQuery s now) := by
  cases hdeadlines : s.queries.deadlines with
  | nil => simpa only [QueryMonitor.nextExpiredQuery, hdeadlines] using h
  | cons entry rest =>
    obtain ⟨⟨deadlineNs, key⟩, info⟩ := entry
    have hentry : ((deadlineNs, key), info) ∈ s.queries.deadlines :=
      hdeadlines ▸ List.mem_cons_self
    obtain ⟨old, hold, -, hquery⟩ := hs.agree.registered deadlineNs key info hentry
    by_cases hnow : deadlineNs ≤ now
    · simp only [QueryMonitor.nextExpiredQuery, hdeadlines, hnow, if_true]
      have hnumbered := h.numbered key old hold
      rw [hquery] at hnumbered
      -- Only the entry under the key changes, and it stays that of the same query.
      have hcases : ∀ key' info', Function.update s.queries.selectorKeys key
          (some { info with terminated := some s.promises }) key' = some info' →
            key' = key ∧ info' = { info with terminated := some s.promises } ∨
              s.queries.selectorKeys key' = some info' := by
        intro key' info' hinfo'
        by_cases hkey : key' = key
        · subst hkey
          exact .inl ⟨rfl, by simpa using hinfo'.symm⟩
        · exact .inr (by simpa [hkey] using hinfo')
      have hgone : ∀ query, ¬ Registered s query → info.query ≠ query := by
        rintro query hnot rfl
        exact hnot ⟨key, old, hold, hquery⟩
      refine ⟨?_, ?_, ?_, ?_, ?_, ?_, ?_⟩
      · intro key' info' hinfo'
        obtain ⟨rfl, rfl⟩ | hinfo' := hcases key' info' hinfo'
        · exact hnumbered
        · exact h.numbered key' info' hinfo'
      · rintro info' p (hstops | ⟨key', hinfo'⟩) hp
        · cases hstops
          cases hp
          exact Nat.lt_succ_self _
        · obtain ⟨-, rfl⟩ | hinfo' := hcases key' info' hinfo'
          · cases hp
            exact Nat.lt_succ_self _
          · exact Nat.lt_succ_of_lt (h.promised info' p (.inr ⟨key', hinfo'⟩) hp)
      · exact fun p hp => Nat.lt_succ_of_lt (h.delivered p hp)
      · intro info' k hstops hk
        cases hstops
        cases hk
        refine ⟨hnumbered, s.promises, rfl, fun hp => Nat.lt_irrefl _ (h.delivered _ hp), ?_⟩
        intro info' hinfo' _
        have hsame : Function.update s.queries.selectorKeys key
          (some { info with terminated := some s.promises }) key = some info' := hinfo'
        rw [Function.update_self] at hsame
        cases hsame
        rfl
      · intro query hremoved
        obtain ⟨hlt, hnot⟩ := h.removed query hremoved
        refine ⟨hlt, ?_⟩
        rintro ⟨key', info', hinfo', rfl⟩
        obtain ⟨-, rfl⟩ | hinfo' := hcases key' info' hinfo'
        · exact hgone _ hnot rfl
        · exact hnot ⟨key', info', hinfo', rfl⟩
      · intro query hforgotten info' hstops
        cases hstops
        exact hgone query (h.removed query (.inl hforgotten)).2
      · intro w hw info' hstops heq
        cases hstops
        exact absurd heq (hgone w.1 (h.removed w.1 (.inr (List.mem_map_of_mem hw))).2)
    · simpa only [QueryMonitor.nextExpiredQuery, hdeadlines, hnow, if_false] using h

theorem Coordinated.proceed {s : Monitor Key Deadline} (h : Coordinated s) :
    Coordinated (proceed hashCode s) := by
  have hnone : ∀ p, (none : Option Nat) = some p → p < s.promises := fun _ hp => by cases hp
  cases hphase : s.phase with
  | idle => simpa only [QueryMonitor.proceed, hphase] using h
  | dead => simpa only [QueryMonitor.proceed, hphase] using h
  | stopping info task =>
    cases info with
    | none =>
      simp only [QueryMonitor.proceed, hphase]
      exact h.rest (stops_next false task) none hnone
    | some info =>
      have hstops : s.phase.stops = some info := by rw [hphase, Phase.stops]
      cases hpid : s.pgPids info.query with
      | none =>
        simp only [QueryMonitor.proceed, hphase, hpid]
        exact h.rest (stops_next false task) info.terminated fun p => h.promised info p (.inl hstops)
      | some pid =>
        simp only [QueryMonitor.proceed, hphase, hpid]
        exact h.of_same hstops.symm (by rw [hphase, Phase.drops, Phase.drops])
  | terminating info pid task =>
    have hstops : s.phase.stops = some info := by rw [hphase, Phase.stops]
    simp only [QueryMonitor.proceed, hphase]
    exact h.rest (stops_next false task) info.terminated fun p => h.promised info p (.inl hstops)
  | dropping deadlineNs key failed =>
    have hdropped := h.restrict (dropQuery hashCode s.queries deadlineNs key)
      fun key' info' hinfo' => (registered_dropQuery key' info' hinfo').2
    simp only [QueryMonitor.proceed, hphase]
    cases failed with
    | false => exact hdropped.rest rfl none hnone
    | true => exact hdropped.rest rfl none hnone
  | abandoning deadKeys rest =>
    cases rest with
    | nil =>
      have hsub : ∀ key info, (dropDead hashCode s.queries deadKeys).selectorKeys key = some info →
          s.queries.selectorKeys key = some info := by
        intro key info hinfo
        by_cases hkey : key ∈ deadKeys
        · simp [dropDead, hkey] at hinfo
        · simpa [dropDead, hkey] using hinfo
      simp only [QueryMonitor.proceed, hphase]
      exact (h.restrict _ hsub).rest rfl none hnone
    | cons key rest =>
      simp only [QueryMonitor.proceed, hphase]
      exact h.stop rfl fun info hinfo => ⟨key, hinfo⟩

theorem Coordinated.step {s : Monitor Key Deadline} (h : Coordinated s) (hs : Inv hashCode s)
    (e : Event Key Deadline) (he : Awaited s e) : Coordinated (step hashCode s e) := by
  have hnone : ∀ p, (none : Option Nat) = some p → p < s.promises := fun _ hp => by cases hp
  cases e with
  | register key deadlineNs => exact h.register key deadlineNs
  | registerPgPid query pid =>
    simp only [QueryMonitor.step]
    split
    · exact ⟨h.numbered, h.promised, h.delivered, h.expired, h.removed, h.finished, h.awaited⟩
    · exact h
  | forgetPgPid query =>
    exact ⟨h.numbered, h.promised, h.delivered, h.expired, h.removed, h.finished, h.awaited⟩
  | forget query => exact h.forget query he
  | awake query promise =>
    simp only [QueryMonitor.step]
    split
    · next hw => exact h.awake hw.1 hw.2
    · exact h
  | timeout query promise => exact h.unwait (query, promise)
  | enforce now =>
    cases hphase : s.phase with
    | idle => simpa only [QueryMonitor.step, hphase] using h.nextExpiredQuery hs now
    | _ => simpa only [QueryMonitor.step, hphase] using h
  | abandon deadKeys =>
    cases hphase : s.phase with
    | idle =>
      simp only [QueryMonitor.step, hphase]
      exact h.rest rfl none hnone
    | _ => simpa only [QueryMonitor.step, hphase] using h
  | proceed => exact h.proceed
  | fail =>
    cases hphase : s.phase with
    | terminating info pid task =>
      have hstops : s.phase.stops = some info := by rw [hphase, Phase.stops]
      simp only [QueryMonitor.step, fail, hphase]
      exact h.rest (stops_next true task) info.terminated fun p => h.promised info p (.inl hstops)
    | _ => simpa only [QueryMonitor.step, fail, hphase] using h
  | exit =>
    cases hphase : s.phase with
    | idle =>
      simp only [QueryMonitor.step, hphase]
      exact h.rest rfl none hnone
    | _ => simpa only [QueryMonitor.step, hphase] using h
  | shutdown promise =>
    cases hphase : s.phase with
    | dead =>
      simp only [QueryMonitor.step, hphase]
      split
      · next hlt =>
        have hstops : s.phase.stops = none := congrArg Phase.stops hphase
        exact h.rest hstops (some promise) fun p hp => Option.some.inj hp ▸ hlt
      · exact h
    | _ => simpa only [QueryMonitor.step, hphase] using h

/-- Forgetting is final in every state that is reached while the keys stay apart and a query that
is being stopped is only forgotten where its promise can be waited for. -/
theorem final_along_run (hashCode : Key → Int) (es : List (Event Key Deadline))
    (h : Always (step hashCode) (fun s e => Apart hashCode s e ∧ Awaited s e) Monitor.start es) :
    Final (run (step hashCode) Monitor.start es) := by
  have hinv := run_history (I := fun _ s => Inv hashCode s ∧ Coordinated s)
    (fun _ s e hs he => ⟨inv_step hashCode s e hs.1 he.1, hs.2.step hs.1 e he.2⟩) es []
    Monitor.start ⟨booked_start hashCode, coordinated_start⟩ h
  exact hinv.2.final

end Step

/-- A query expires, and is forgotten while its worker is being terminated. -/
theorem final_along_run_expired :
    Final (run (step fun _ : Nat => 0) Monitor.start
      [.register 1 1000000000, .registerPgPid 0 4711, .enforce 2000000000, .proceed, .forget 0]) := by
  apply final_along_run
  refine ⟨⟨?_, trivial⟩, ⟨trivial, trivial⟩, ⟨trivial, trivial⟩, ⟨trivial, trivial⟩,
    ⟨trivial, ?_⟩, trivial⟩
  · rintro hfree deadlineNs key (⟨info, hinfo, -⟩ | hdrops)
    · cases hinfo
    · cases hdrops
  · intro info hstops hquery
    exact ⟨rfl, 1, _, rfl, rfl⟩

/-- The client of a query goes away, and the query is forgotten while its worker is being
terminated. -/
def abandoned : List (Event Nat Nat) :=
  [.register 1 1000000000, .registerPgPid 0 4711, .abandon [1], .proceed, .proceed, .forget 0]

/-- `forget` does not wait for an abandoned query. -/
theorem final_fails :
    ¬ ∀ (hashCode : Nat → Int) (es : List (Event Nat Nat)),
      Final (run (step hashCode) Monitor.start es) := by
  intro h
  have hforgotten : 0 ∈ (run (step fun _ : Nat => 0) Monitor.start abandoned).forgotten := by decide
  exact h (fun _ => 0) abandoned 0 hforgotten
    ⟨⟨0, 1, 1000000000, none⟩, 4711, .abandoned [1] [], rfl, rfl⟩

end OpenVoxDB.QueryMonitor
