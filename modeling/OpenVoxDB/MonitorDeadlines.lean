import Mathlib
import OpenVoxDB.QueryMonitor

/-!
# The deadlines of the monitored queries

The monitor keeps the queries by their selection keys and, for those that have
not expired, by their deadlines. The two maps agree as long as the map of
deadlines tells all queries apart, and it does not where two of them have one
deadline and their keys one hash code.
-/

namespace OpenVoxDB.QueryMonitor

variable {Key Deadline : Type}

/-- Each query that has not expired has an entry of its own in the map of deadlines, and each
entry there is that of a registered query. -/
structure Agree (queries : Queries Key Deadline) : Prop where
  entered : ∀ key info, queries.selectorKeys key = some info → info.terminated = none →
    ((info.deadlineNs, key), info) ∈ queries.deadlines
  registered : ∀ deadlineNs key info, ((deadlineNs, key), info) ∈ queries.deadlines →
    ∃ info', queries.selectorKeys key = some info' ∧ info'.deadlineNs = deadlineNs ∧
      info'.query = info.query

def Task.drops : Task Key Deadline → Option (Deadline × Key)
  | expired deadlineNs key => some (deadlineNs, key)
  | abandoned _ _ => none

/-- The expired query that `enforce-deadlines!` is about to drop. -/
def Phase.drops : Phase Key Deadline → Option (Deadline × Key)
  | stopping _ task => task.drops
  | terminating _ _ task => task.drops
  | dropping deadlineNs key _ => some (deadlineNs, key)
  | _ => none

theorem drops_next (failed : Bool) (task : Task Key Deadline) :
    (task.next failed).drops = task.drops := by
  cases task with
  | expired deadlineNs key => rfl
  | abandoned deadKeys rest => cases failed <;> rfl

/-- The query is registered, or the monitor is about to drop it. -/
def Live (queries : Queries Key Deadline) (drops : Option (Deadline × Key))
    (deadlineNs : Deadline) (key : Key) : Prop :=
  (∃ info, queries.selectorKeys key = some info ∧ info.deadlineNs = deadlineNs) ∨
    drops = some (deadlineNs, key)

section Bookkeeping

variable [LinearOrder Deadline] (hashCode : Key → Int)

/-- A query is registered under a key that the monitor is not about to drop, and no other query
has both its deadline and its key's hash code. -/
def Apart (s : Monitor Key Deadline) : Event Key Deadline → Prop
  | .register key deadlineNs =>
    s.queries.selectorKeys key = none → ∀ deadlineNs' key',
      Live s.queries s.phase.drops deadlineNs' key' →
        key' ≠ key ∧ ¬ (deadlineNs' = deadlineNs ∧ hashCode key' = hashCode key)
  | _ => True

theorem compareDeadlineKeys_eq (k k' : Deadline × Key) :
    compareDeadlineKeys hashCode k k' = .eq ↔ k.1 = k'.1 ∧ hashCode k.2 = hashCode k'.2 := by
  simp [compareDeadlineKeys, compareLex, compareOn, Ordering.then_eq_eq]

instance : Std.TransCmp (compareDeadlineKeys hashCode : Deadline × Key → Deadline × Key → Ordering) := by
  unfold compareDeadlineKeys
  infer_instance

/-- What the two maps keep, with the query about to be dropped. -/
structure Booked (queries : Queries Key Deadline) (drops : Option (Deadline × Key)) : Prop where
  agree : Agree queries
  valued : ∀ k info, (k, info) ∈ queries.deadlines → info.deadlineNs = k.1
  sorted : SortedMap.Sorted (compareDeadlineKeys hashCode) queries.deadlines
  apart : ∀ k k', Live queries drops k.1 k.2 → Live queries drops k'.1 k'.2 →
    compareDeadlineKeys hashCode k k' = .eq → k.2 = k'.2
  pending : ∀ deadlineNs key info, drops = some (deadlineNs, key) →
    queries.selectorKeys key = some info → info.deadlineNs = deadlineNs

theorem booked_start : Booked hashCode (Monitor.start : Monitor Key Deadline).queries none where
  agree := ⟨fun _ _ h _ => (by cases h), fun _ _ _ h => by cases h⟩
  valued := fun _ _ h => by cases h
  sorted := List.Pairwise.nil
  apart := by
    intro k k' h
    obtain ⟨info, hinfo, -⟩ | h := h
    · cases hinfo
    · cases h
  pending := fun _ _ _ h => by cases h

variable {hashCode}

theorem Booked.settle {queries : Queries Key Deadline} {drops : Option (Deadline × Key)}
    (h : Booked hashCode queries drops) : Booked hashCode queries none where
  agree := h.agree
  valued := h.valued
  sorted := h.sorted
  apart := by
    intro k k' hk hk'
    have hlive : ∀ k : Deadline × Key, Live queries none k.1 k.2 → Live queries drops k.1 k.2 := by
      intro k hk
      exact hk.imp_right fun hnone => by cases hnone
    exact h.apart k k' (hlive k hk) (hlive k' hk')
  pending := fun _ _ _ h => by cases h

/-- The deadline of a live query is the one it is registered with. -/
theorem Booked.deadlineNs_eq {queries : Queries Key Deadline} {drops : Option (Deadline × Key)}
    (h : Booked hashCode queries drops) {deadlineNs : Deadline} {key : Key}
    (hlive : Live queries drops deadlineNs key) {info : Info Key Deadline}
    (hinfo : queries.selectorKeys key = some info) : info.deadlineNs = deadlineNs := by
  obtain ⟨info', hinfo', hdeadline⟩ | hdrops := hlive
  · rw [hinfo] at hinfo'
    cases hinfo'
    exact hdeadline
  · exact h.pending deadlineNs key info hdrops hinfo

/-- The entries of the map are those of live queries. -/
theorem Booked.live_of_mem {queries : Queries Key Deadline} {drops : Option (Deadline × Key)}
    (h : Booked hashCode queries drops) {k : Deadline × Key} {info : Info Key Deadline}
    (hmem : (k, info) ∈ queries.deadlines) : Live queries drops k.1 k.2 := by
  obtain ⟨info', hinfo', hdeadline, -⟩ := h.agree.registered k.1 k.2 info hmem
  exact .inl ⟨info', hinfo', hdeadline⟩

/-- Fewer queries in the two maps, the same ones in both. -/
theorem Booked.restrict {queries queries' : Queries Key Deadline}
    {drops : Option (Deadline × Key)} (h : Booked hashCode queries drops) (gone : Key → Prop)
    (hgone : ∀ key, gone key → queries'.selectorKeys key = none)
    (hkept : ∀ key, ¬ gone key → queries'.selectorKeys key = queries.selectorKeys key)
    (hsorted : SortedMap.Sorted (compareDeadlineKeys hashCode) queries'.deadlines)
    (hmem : ∀ k info, (k, info) ∈ queries'.deadlines ↔ (k, info) ∈ queries.deadlines ∧ ¬ gone k.2) :
    Booked hashCode queries' drops := by
  have hold : ∀ key info, queries'.selectorKeys key = some info →
      ¬ gone key ∧ queries.selectorKeys key = some info := by
    intro key info hinfo
    have hkey : ¬ gone key := by
      intro hg
      rw [hgone key hg] at hinfo
      cases hinfo
    exact ⟨hkey, hkept key hkey ▸ hinfo⟩
  have hlive : ∀ k : Deadline × Key,
      Live queries' drops k.1 k.2 → Live queries drops k.1 k.2 := by
    intro k hk
    obtain ⟨info, hinfo, hdeadline⟩ | hdrops := hk
    · exact .inl ⟨info, (hold k.2 info hinfo).2, hdeadline⟩
    · exact .inr hdrops
  refine ⟨⟨?_, ?_⟩, fun k info hentry => h.valued k info ((hmem k info).mp hentry).1, hsorted,
    ?_, ?_⟩
  · intro key info hinfo hterminated
    obtain ⟨hkey, hinfo⟩ := hold key info hinfo
    exact (hmem _ _).mpr ⟨h.agree.entered key info hinfo hterminated, hkey⟩
  · intro deadlineNs key info hentry
    obtain ⟨hentry, hkey⟩ := (hmem _ _).mp hentry
    obtain ⟨info', hinfo', hrest⟩ := h.agree.registered deadlineNs key info hentry
    exact ⟨info', (hkept key hkey).trans hinfo', hrest⟩
  · exact fun k k' hk hk' => h.apart k k' (hlive k hk) (hlive k' hk')
  · exact fun deadlineNs key info hdrops hinfo =>
      h.pending deadlineNs key info hdrops (hold key info hinfo).2

variable (hashCode) in
/-- What holds of the monitor between its steps. -/
def Inv (s : Monitor Key Deadline) : Prop := Booked hashCode s.queries s.phase.drops

/-- Most steps change neither the maps nor the query to be dropped. -/
theorem Inv.of_same {s s' : Monitor Key Deadline} (hs : Inv hashCode s)
    (hqueries : s'.queries = s.queries) (hdrops : s'.phase.drops = s.phase.drops) :
    Inv hashCode s' := by
  rw [Inv, hqueries, hdrops]
  exact hs

variable [DecidableEq Key]

theorem Booked.dropQuery {queries : Queries Key Deadline} {drops : Option (Deadline × Key)}
    (h : Booked hashCode queries drops) {deadlineNs : Deadline} {key : Key}
    (hlive : Live queries drops deadlineNs key) :
    Booked hashCode (dropQuery hashCode queries deadlineNs key) drops := by
  apply h.restrict (· = key)
  · rintro _ rfl
    exact Function.update_self ..
  · intro key' hne
    exact Function.update_of_ne hne _ _
  · exact SortedMap.sorted_dissoc _ _ h.sorted
  · intro k info
    simp only [QueryMonitor.dropQuery, SortedMap.mem_dissoc _ _ h.sorted]
    constructor
    · rintro ⟨hmem, hne⟩
      refine ⟨hmem, fun hkey => hne ?_⟩
      obtain ⟨info', hinfo', hdeadline, -⟩ := h.agree.registered k.1 k.2 info hmem
      have hsame := h.deadlineNs_eq hlive (hkey ▸ hinfo')
      exact (compareDeadlineKeys_eq hashCode _ _).mpr ⟨hsame.symm.trans hdeadline, by rw [hkey]⟩
    · rintro ⟨hmem, hne⟩
      exact ⟨hmem, fun he => hne (h.apart _ k hlive (h.live_of_mem hmem) he).symm⟩

theorem Booked.dropDead {queries : Queries Key Deadline} {drops : Option (Deadline × Key)}
    (h : Booked hashCode queries drops) (deadKeys : List Key) :
    Booked hashCode (dropDead hashCode queries deadKeys) drops := by
  apply h.restrict (· ∈ deadKeys)
  · intro key hkey
    simp [QueryMonitor.dropDead, hkey]
  · intro key hkey
    simp [QueryMonitor.dropDead, hkey]
  · exact SortedMap.sorted_dissoc_all _ _ h.sorted
  · intro k info
    simp only [QueryMonitor.dropDead, SortedMap.mem_dissoc_all _ _ h.sorted, List.mem_filterMap,
      Option.map_eq_some_iff]
    constructor
    · rintro ⟨hmem, hne⟩
      refine ⟨hmem, fun hkey => ?_⟩
      obtain ⟨info', hinfo', hdeadline, -⟩ := h.agree.registered k.1 k.2 info hmem
      apply hne (info'.deadlineNs, k.2) ⟨k.2, hkey, info', hinfo', rfl⟩
      exact (compareDeadlineKeys_eq hashCode _ _).mpr ⟨hdeadline, rfl⟩
    · rintro ⟨hmem, hne⟩
      refine ⟨hmem, ?_⟩
      rintro _ ⟨key, hkey, info', hinfo', rfl⟩ he
      have hsame := h.apart (info'.deadlineNs, key) k (.inl ⟨info', hinfo', rfl⟩)
        (h.live_of_mem hmem) he
      exact hne (hsame ▸ hkey)

theorem Booked.register {queries : Queries Key Deadline} {drops : Option (Deadline × Key)}
    (h : Booked hashCode queries drops) (info : Info Key Deadline) {key : Key}
    (hfree : queries.selectorKeys key = none)
    (hapart : ∀ deadlineNs' key', Live queries drops deadlineNs' key' →
      key' ≠ key ∧ ¬ (deadlineNs' = info.deadlineNs ∧ hashCode key' = hashCode key)) :
    Booked hashCode
      ⟨Function.update queries.selectorKeys key (some info),
        SortedMap.assoc (compareDeadlineKeys hashCode) (info.deadlineNs, key) info
          queries.deadlines⟩ drops := by
  have hdiffer : ∀ k : Deadline × Key, Live queries drops k.1 k.2 →
      compareDeadlineKeys hashCode (info.deadlineNs, key) k ≠ .eq := by
    intro k hk he
    obtain ⟨hdeadline, hhash⟩ := (compareDeadlineKeys_eq hashCode _ _).mp he
    exact (hapart k.1 k.2 hk).2 ⟨hdeadline.symm, hhash.symm⟩
  have hmem := SortedMap.mem_assoc (info.deadlineNs, key) info queries.deadlines
    fun y hy => hdiffer y.1 (h.live_of_mem hy)
  -- What is live afterwards was so before, or is the new query.
  have hlive : ∀ k : Deadline × Key,
      Live ⟨Function.update queries.selectorKeys key (some info), queries.deadlines⟩ drops k.1 k.2 →
        k = (info.deadlineNs, key) ∨ Live queries drops k.1 k.2 := by
    rintro ⟨deadlineNs, key'⟩ (⟨info', hinfo', hdeadline⟩ | hdrops)
    · by_cases hkey : key' = key
      · subst hkey
        have hsame : info = info' := by simpa using hinfo'
        subst hsame
        exact .inl (Prod.ext hdeadline.symm rfl)
      · exact .inr (.inl ⟨info', by simpa [hkey] using hinfo', hdeadline⟩)
    · exact .inr (.inr hdrops)
  refine ⟨⟨?_, ?_⟩, ?_, SortedMap.sorted_assoc _ _ _ h.sorted, ?_, ?_⟩
  · intro key' info' hinfo' hterminated
    apply (hmem _).mpr
    by_cases hkey : key' = key
    · subst hkey
      have hsame : info = info' := by simpa using hinfo'
      exact .inl (by rw [hsame])
    · have hold : queries.selectorKeys key' = some info' := by simpa [hkey] using hinfo'
      exact .inr (h.agree.entered key' info' hold hterminated)
  · intro deadlineNs key' info' hentry
    obtain he | hentry := (hmem _).mp hentry
    · cases he
      exact ⟨info, Function.update_self .., rfl, rfl⟩
    · obtain ⟨old, hold, hrest⟩ := h.agree.registered deadlineNs key' info' hentry
      have hkey : key' ≠ key := by
        rintro rfl
        rw [hfree] at hold
        cases hold
      exact ⟨old, (Function.update_of_ne hkey _ _).trans hold, hrest⟩
  · intro k info' hentry
    obtain he | hentry := (hmem _).mp hentry
    · cases he
      rfl
    · exact h.valued k info' hentry
  · intro k k' hk hk' he
    obtain rfl | hk := hlive k hk
    · obtain rfl | hk' := hlive k' hk'
      · rfl
      · exact absurd he (hdiffer k' hk')
    · obtain rfl | hk' := hlive k' hk'
      · exact absurd (Std.OrientedCmp.eq_symm he) (hdiffer k hk)
      · exact h.apart k k' hk hk' he
  · intro deadlineNs key' info' hdrops hinfo'
    have hkey : key' ≠ key := (hapart deadlineNs key' (.inr hdrops)).1
    exact h.pending deadlineNs key' info' hdrops (by simpa [hkey] using hinfo')

/-- The query of an entry is marked as expired. -/
theorem Booked.expire {queries : Queries Key Deadline} (h : Booked hashCode queries none)
    {deadlineNs : Deadline} {key : Key} {info : Info Key Deadline}
    (hentry : ((deadlineNs, key), info) ∈ queries.deadlines) (promise : Nat) :
    Booked hashCode
      { queries with
        selectorKeys :=
          Function.update queries.selectorKeys key (some { info with terminated := some promise }) }
      (some (info.deadlineNs, key)) := by
  have hdeadline : info.deadlineNs = deadlineNs := h.valued _ _ hentry
  have hlive : ∀ k : Deadline × Key,
      Live { queries with
        selectorKeys :=
          Function.update queries.selectorKeys key (some { info with terminated := some promise }) }
        (some (info.deadlineNs, key)) k.1 k.2 → Live queries none k.1 k.2 := by
    have hself := h.live_of_mem hentry
    rintro ⟨deadlineNs', key'⟩ (⟨info', hinfo', hdeadline'⟩ | hdrops)
    · by_cases hkey : key' = key
      · subst hkey
        have hsame : { info with terminated := some promise } = info' := by simpa using hinfo'
        have hboth : deadlineNs = deadlineNs' := by
          rw [← hsame] at hdeadline'
          exact hdeadline.symm.trans hdeadline'
        exact hboth ▸ hself
      · exact .inl ⟨info', by simpa [hkey] using hinfo', hdeadline'⟩
    · cases hdrops
      rw [← hdeadline] at hself
      exact hself
  refine ⟨⟨?_, ?_⟩, h.valued, h.sorted, fun k k' hk hk' => h.apart k k' (hlive k hk) (hlive k' hk'),
    ?_⟩
  · intro key' info' hinfo' hterminated
    by_cases hkey : key' = key
    · subst hkey
      have hsame : { info with terminated := some promise } = info' := by simpa using hinfo'
      rw [← hsame] at hterminated
      cases hterminated
    · have hold : queries.selectorKeys key' = some info' := by simpa [hkey] using hinfo'
      exact h.agree.entered key' info' hold hterminated
  · intro deadlineNs' key' info' hentry'
    obtain ⟨old, hold, hdeadline', hquery⟩ := h.agree.registered deadlineNs' key' info' hentry'
    by_cases hkey : key' = key
    · subst hkey
      obtain ⟨old', hold', hdeadline'', hquery'⟩ := h.agree.registered deadlineNs key' info hentry
      have hsame : old = old' := by
        rw [hold] at hold'
        cases hold'
        rfl
      subst hsame
      refine ⟨_, Function.update_self .., ?_, hquery'.symm.trans hquery⟩
      exact hdeadline.trans (hdeadline''.symm.trans hdeadline')
    · exact ⟨old, (Function.update_of_ne hkey _ _).trans hold, hdeadline', hquery⟩
  · intro deadlineNs' key' info' hdrops hinfo'
    cases hdrops
    have hsame : { info with terminated := some promise } = info' := by simpa using hinfo'
    rw [← hsame]

/-! ## Steps and runs -/

variable (hashCode)

theorem inv_forget (s : Monitor Key Deadline) (hs : Inv hashCode s) (query : Nat) :
    Inv hashCode (forget hashCode s query) := by
  cases hkey : s.keys[query]? with
  | none => simpa only [forget, hkey] using hs
  | some key =>
    cases hinfo : s.queries.selectorKeys key with
    | none =>
      simp only [forget, hkey, hinfo]
      exact hs.of_same rfl rfl
    | some info =>
      have hdropped := hs.dropQuery (.inl ⟨info, hinfo, rfl⟩)
      cases hterminated : info.terminated with
      | none =>
        simp only [forget, hkey, hinfo, hterminated]
        exact hdropped
      | some promise =>
        simp only [forget, hkey, hinfo, hterminated]
        exact hdropped

theorem inv_nextExpiredQuery (s : Monitor Key Deadline) (hs : Inv hashCode s)
    (hidle : s.phase = .idle) (now : Deadline) : Inv hashCode (nextExpiredQuery s now) := by
  have hbooked : Booked hashCode s.queries none := by
    rw [Inv, hidle] at hs
    exact hs
  cases hdeadlines : s.queries.deadlines with
  | nil => simpa only [nextExpiredQuery, hdeadlines] using hs
  | cons entry rest =>
    obtain ⟨⟨deadlineNs, key⟩, info⟩ := entry
    have hentry : ((deadlineNs, key), info) ∈ s.queries.deadlines :=
      hdeadlines ▸ List.mem_cons_self
    by_cases hnow : deadlineNs ≤ now
    · simp only [nextExpiredQuery, hdeadlines, hnow, if_true]
      have hexpired := hbooked.expire hentry s.promises
      rw [hdeadlines] at hexpired
      exact hexpired
    · simpa only [nextExpiredQuery, hdeadlines, hnow, if_false] using hs

theorem inv_proceed (s : Monitor Key Deadline) (hs : Inv hashCode s) :
    Inv hashCode (proceed hashCode s) := by
  have hbooked : Booked hashCode s.queries s.phase.drops := hs
  cases hphase : s.phase with
  | idle => simpa only [proceed, hphase] using hs
  | dead => simpa only [proceed, hphase] using hs
  | stopping info task =>
    have hdrops : s.phase.drops = task.drops := by rw [hphase, Phase.drops]
    cases info with
    | none =>
      simp only [proceed, hphase]
      exact hs.of_same rfl ((drops_next false task).trans hdrops.symm)
    | some info =>
      cases hpid : s.pgPids info.query with
      | none =>
        simp only [proceed, hphase, hpid]
        exact hs.of_same rfl ((drops_next false task).trans hdrops.symm)
      | some pid =>
        simp only [proceed, hphase, hpid]
        exact hs.of_same rfl hdrops.symm
  | terminating info pid task =>
    have hdrops : s.phase.drops = task.drops := by rw [hphase, Phase.drops]
    simp only [proceed, hphase]
    exact hs.of_same rfl ((drops_next false task).trans hdrops.symm)
  | dropping deadlineNs key failed =>
    rw [hphase] at hbooked
    have hdropped := (hbooked.dropQuery (.inr rfl)).settle
    simp only [proceed, hphase]
    cases failed with
    | false => exact hdropped
    | true => exact hdropped
  | abandoning deadKeys rest =>
    rw [hphase] at hbooked
    cases rest with
    | nil =>
      simp only [proceed, hphase]
      exact hbooked.dropDead deadKeys
    | cons key rest =>
      simp only [proceed, hphase]
      exact hs.of_same rfl (by rw [hphase]; rfl)

theorem inv_step (s : Monitor Key Deadline) (e : Event Key Deadline) (hs : Inv hashCode s)
    (he : Apart hashCode s e) : Inv hashCode (step hashCode s e) := by
  cases e with
  | register key deadlineNs =>
    cases hfree : s.queries.selectorKeys key with
    | some info => simpa only [step, register, hfree] using hs
    | none =>
      simp only [step, register, hfree]
      exact hs.register ⟨s.keys.length, key, deadlineNs, none⟩ hfree (he hfree)
  | registerPgPid query pid =>
    simp only [step]
    split
    · exact hs.of_same rfl rfl
    · exact hs
  | forgetPgPid query => exact hs.of_same rfl rfl
  | forget query => exact inv_forget hashCode s hs query
  | awake query promise =>
    simp only [step]
    split
    · exact hs.of_same rfl rfl
    · exact hs
  | timeout query promise => exact hs.of_same rfl rfl
  | enforce now =>
    cases hphase : s.phase with
    | idle => simpa only [step, hphase] using inv_nextExpiredQuery hashCode s hs hphase now
    | _ => simpa only [step, hphase] using hs
  | abandon deadKeys =>
    cases hphase : s.phase with
    | idle =>
      simp only [step, hphase]
      exact hs.of_same rfl (by rw [hphase]; rfl)
    | _ => simpa only [step, hphase] using hs
  | proceed => exact inv_proceed hashCode s hs
  | fail =>
    cases hphase : s.phase with
    | terminating info pid task =>
      have hdrops : s.phase.drops = task.drops := by rw [hphase, Phase.drops]
      simp only [step, fail, hphase]
      exact hs.of_same rfl ((drops_next true task).trans hdrops.symm)
    | _ => simpa only [step, fail, hphase] using hs
  | exit =>
    cases hphase : s.phase with
    | idle =>
      simp only [step, hphase]
      exact hs.of_same rfl (by rw [hphase]; rfl)
    | _ => simpa only [step, hphase] using hs
  | shutdown promise =>
    cases hphase : s.phase with
    | dead =>
      simp only [step, hphase]
      split
      · exact hs.of_same rfl rfl
      · exact hs
    | _ => simpa only [step, hphase] using hs

theorem inv_run (es : List (Event Key Deadline))
    (h : Always (step hashCode) (Apart hashCode) Monitor.start es) :
    Inv hashCode (run (step hashCode) Monitor.start es) :=
  run_history (I := fun _ s => Inv hashCode s)
    (fun _ s e hs he => inv_step hashCode s e hs he) es [] Monitor.start (booked_start hashCode) h

/-- The maps agree in every state that is reached while the keys stay apart. -/
theorem agree_along_run (es : List (Event Key Deadline))
    (h : Always (step hashCode) (Apart hashCode) Monitor.start es) :
    Agree (run (step hashCode) Monitor.start es).queries :=
  (inv_run hashCode es h).agree

end Bookkeeping

/-- Two queries with a deadline of one second, whose keys have different hash codes. -/
theorem agree_along_run_two :
    Agree (run (step fun key : Nat => (key : Int)) Monitor.start
      [.register 1 1000000000, .register 2 1000000000]).queries := by
  apply agree_along_run
  refine ⟨?_, ?_, trivial⟩
  · rintro hfree deadlineNs key (⟨info, hinfo, -⟩ | hdrops)
    · cases hinfo
    · cases hdrops
  · rintro hfree deadlineNs key (⟨info, hinfo, -⟩ | hdrops)
    · have hkey : key = 1 := by
        by_contra hne
        have hnone : (step (fun key : Nat => (key : Int)) Monitor.start
            (.register 1 1000000000)).queries.selectorKeys key = none := Function.update_of_ne hne _ _
        rw [hnone] at hinfo
        cases hinfo
      rw [hkey]
      exact ⟨by decide, fun hsame => absurd hsame.2 (by decide)⟩
    · cases hdrops

/-- Two queries without a timeout, whose keys have one hash code. -/
def collision : List (Event Nat ℕ∞) := [.register 1 ⊤, .register 2 ⊤]

/-- The second query has no entry of its own: the map keeps the first query's key. -/
theorem agree_fails :
    ¬ ∀ (hashCode : Nat → Int) (es : List (Event Nat ℕ∞)),
      Agree (run (step hashCode) Monitor.start es).queries := by
  intro h
  have hentered := (h (fun _ => 0) collision).entered 2 ⟨1, 2, ⊤, none⟩ rfl rfl
  have hdeadlines : (run (step fun _ : Nat => 0) Monitor.start collision).queries.deadlines =
      [((⊤, 1), ⟨1, 2, ⊤, none⟩)] := rfl
  rw [hdeadlines] at hentered
  simp at hentered

end OpenVoxDB.QueryMonitor
