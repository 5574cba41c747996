import OpenVoxDB.Migrations

/-!
# Migrations of several instances

Each instance keeps to a protocol: under the lock it looks twice which migrations have been
applied, runs those that are pending in their order, records each of them, and commits. So the
database is always at the schema of one of the versions, whatever instances of whatever versions
are started together, and whatever goes wrong.
-/

namespace OpenVoxDB.Migrations

open Effects Protocols Interleaving Threads

variable {E : Type}

/-- The transaction of an instance: the applied migrations it has seen under the lock, and the
migrations it has run and recorded. -/
structure Stage where
  begun : Bool
  locked : Bool
  seen : List (List Nat)
  ran : List Nat
  recorded : List Nat
  deriving DecidableEq, Repr

namespace Stage

def start : Stage := ⟨false, false, [], [], []⟩

/-- The pending migrations, once the applied ones have been seen twice and found valid. -/
def pending (known : List Nat) (s : Stage) : Option (List Nat) :=
  match s.seen with
  | [checked, applied] =>
    match requireValidSchema (E := Unit) known checked with
    | .ok _ => some (pendingMigrations known applied)
    | .error _ => none
  | _ => none

def allows (known : List Nat) (s : Stage) : Call → Bool
  | .begin => !s.begun
  | .commit => s.locked && s.pending known == some s.ran && s.recorded == s.ran
  | .rollback => s.begun
  | .requireSchemaMigrationsTable => s.begun && !s.locked
  | .lockSchemaMigrations => s.begun && !s.locked
  | .pgTrgm => s.locked
  | .appliedMigrations => s.locked && s.ran == [] && s.recorded == []
  | .migration version =>
    s.locked && s.recorded == s.ran &&
      (s.pending known).any fun vs => (s.ran ++ [version]).isPrefixOf vs
  | .recordMigration version => s.locked && s.recorded ++ [version] == s.ran

def returned (s : Stage) (a : Answer) : Call → Stage
  | .begin => { s with begun := true }
  | .commit => start
  | .rollback => start
  | .lockSchemaMigrations => { s with locked := true }
  | .appliedMigrations => { s with seen := s.seen ++ [a.list] }
  | .migration version => { s with ran := s.ran ++ [version] }
  | .recordMigration version => { s with recorded := s.recorded ++ [version] }
  | _ => s

/-- The transaction is over also if it could not be committed or rolled back. -/
def threw (s : Stage) : Call → Stage
  | .commit => { start with begun := s.begun }
  | .rollback => start
  | _ => s

end Stage

def advance (known : List Nat) (s : Stage) (e : Entry Call Answer (Raised E)) : Option Stage :=
  if s.allows known e.call then
    some
      (match e.outcome with
      | .ok a => s.returned a e.call
      | .error _ => s.threw e.call)
  else none

variable {known : List Nat} {s t : Stage}

theorem advance_ok (c : Call) (a : Answer) (h : s.allows known c = true) :
    advance (E := E) known s ⟨c, .ok a⟩ = some (s.returned a c) := by simp [advance, h]

theorem advance_error (c : Call) (x : Raised E) (h : s.allows known c = true) :
    advance known s ⟨c, .error x⟩ = some (s.threw c) := by simp [advance, h]

abbrev Migrates {α : Type} (known : List Nat) (s : Stage) (x : Step E α)
    (Q : Except (Thrown E) α → Stage → Prop) : Prop := Keeps (advance known) Stage.start s x Q

/-! ## One instance -/

theorem requireValidSchema_ok (known applied : List Nat)
    (h : requireValidSchema (E := E) known applied = .ok ()) :
    requireValidSchema (E := Unit) known applied = .ok () := by
  rw [requireValidSchema] at h ⊢
  split at h
  · rfl
  · split at h
    · cases h
    · rename_i hnot
      rw [if_neg hnot]
      split at h
      · rfl
      · cases h

/-- A call that leaves the transaction open. -/
theorem perform_keeps (c : Call) (h : s.allows known c = true) (hthrew : s.threw c = s) :
    Migrates known s (perform c : Step E Unit) fun r t =>
      (r = .ok () → ∃ a, t = s.returned a c) ∧ ∀ e, r = .error e → t = s := by
  refine Keeps.bindCall _ _ (fun a => ⟨_, advance_ok c a h, Keeps.pure () ⟨fun _ => ⟨a, rfl⟩,
    fun e he => by cases he⟩⟩) fun x => ⟨_, advance_error c x h, fun he => (by cases he), fun e _ =>
      hthrew⟩

theorem runMigrations_keeps (versions : List Nat) (hlocked : s.locked = true)
    (hpending : s.pending known = some versions) (hran : s.ran = []) (hrecorded : s.recorded = []) :
    Migrates known s (runMigrations versions : Step E Unit) fun r t => t.begun = s.begun ∧
      (r = .ok () → t = { s with ran := versions, recorded := versions }) := by
  refine Keeps.forEach (fun done t => t = { s with ran := done, recorded := done })
    ?_ ?_ fun t h => ⟨by rw [h], fun _ => h⟩
  · obtain ⟨begun, locked, seen, ran, recorded⟩ := s
    obtain rfl : ran = [] := hran
    obtain rfl : recorded = [] := hrecorded
    rfl
  rintro done version t ⟨rest, hversions⟩ rfl
  have hmigration : ({ s with ran := done, recorded := done } : Stage).allows known
      (.migration version) = true := by
    have hp : ({ s with ran := done, recorded := done } : Stage).pending known =
        some versions := hpending
    have hpart : (done ++ [version]).isPrefixOf versions = true := by
      rw [List.isPrefixOf_iff_prefix, hversions]
      exact ⟨rest, by simp⟩
    rw [Stage.allows, hp, Option.any_some, hpart]
    simp [hlocked]
  refine Keeps.bind (perform_keeps (.migration version) hmigration rfl) (fun _ t h => ?_)
    fun e t h => ⟨fun he => (by cases he), fun e' _ => by
      rw [h.2 e rfl]
      exact ⟨rfl, fun he => by cases he⟩⟩
  obtain ⟨a, rfl⟩ := h.1 rfl
  have hrecord : (({ s with ran := done, recorded := done } : Stage).returned a
      (.migration version)).allows known (.recordMigration version) = true := by
    simp [Stage.allows, Stage.returned, hlocked]
  refine (perform_keeps (.recordMigration version) hrecord rfl).mono fun r t h =>
    ⟨fun hr => ?_, fun e hr => ?_⟩
  · obtain ⟨b, rfl⟩ := h.1 hr
    rfl
  · rw [h.2 e hr]
    exact ⟨rfl, fun he => by cases he⟩

/-- When the body has ended, all pending migrations have been run and recorded. -/
def Complete (known : List Nat) (s : Stage) : Prop := s.allows known .commit = true

theorem migrateLocked_keeps (hbegun : s.begun = true) (hlocked : s.locked = true)
    (hseen : s.seen = []) (hran : s.ran = []) (hrecorded : s.recorded = []) :
    Migrates known s (migrateLocked known : Step E Unit) fun r t => t.begun = true ∧
      (r = .ok () → Complete known t) := by
  have happlied (t : Stage) (ht : t.locked = true) (htran : t.ran = [])
      (htrecorded : t.recorded = []) : t.allows known .appliedMigrations = true := by
    simp [Stage.allows, ht, htran, htrecorded]
  refine Keeps.bindCall _ _ (fun a => ⟨_, advance_ok _ a (happlied s hlocked hran hrecorded), ?_⟩) fun x =>
    ⟨_, advance_error _ x (happlied s hlocked hran hrecorded), hbegun, fun h => by cases h⟩
  cases hvalid : requireValidSchema (E := E) known a.list with
  | error e => exact Keeps.throw e ⟨hbegun, fun h => by cases h⟩
  | ok u =>
    let t := s.returned a .appliedMigrations
    refine Keeps.bindCall _ _ (fun b => ⟨_, advance_ok _ b (happlied t hlocked hran hrecorded), ?_⟩) fun x =>
      ⟨_, advance_error _ x (happlied t hlocked hran hrecorded), hbegun, fun h => by cases h⟩
    have hpending : (t.returned b .appliedMigrations).pending known =
        some (pendingMigrations known b.list) := by
      have hboth : (t.returned b .appliedMigrations).seen = [a.list, b.list] := by
        simp [t, Stage.returned, hseen]
      rw [Stage.pending, hboth]
      simp only [requireValidSchema_ok known a.list hvalid]
    refine (runMigrations_keeps (s := t.returned b .appliedMigrations) _ hlocked hpending hran
      hrecorded).mono fun r u h =>
      ⟨h.1.trans hbegun, fun hr => ?_⟩
    rw [h.2 hr]
    have hp : ({ t.returned b .appliedMigrations with
        ran := pendingMigrations known b.list, recorded := pendingMigrations known b.list } :
          Stage).pending known = some (pendingMigrations known b.list) := hpending
    simp only [Complete, Stage.allows, hp, beq_self_eq_true, Bool.and_true]
    exact hlocked

theorem migrate_keeps (known : List Nat) :
    Migrates known Stage.start (migrate known : Step E Unit) fun _ _ => True := by
  refine Keeps.transact (P := fun r t => t.begun = true ∧ (r = .ok () → Complete known t))
    (fun t => t = { Stage.start with begun := true }) ?_ ?_ ?_ ?_
  · refine (perform_keeps .begin rfl rfl).mono fun r t h => ⟨fun hr => ?_, fun _ _ => trivial⟩
    obtain ⟨a, rfl⟩ := h.1 hr
    rfl
  · rintro t rfl
    refine Keeps.bind (perform_keeps .requireSchemaMigrationsTable rfl rfl) (fun _ t h => ?_)
      fun e t h => by
        rw [h.2 e rfl]
        exact ⟨rfl, fun he => by cases he⟩
    obtain ⟨a, rfl⟩ := h.1 rfl
    refine Keeps.bind (perform_keeps .lockSchemaMigrations rfl rfl) (fun _ t h => ?_)
      fun e t h => by
        rw [h.2 e rfl]
        exact ⟨rfl, fun he => by cases he⟩
    obtain ⟨b, rfl⟩ := h.1 rfl
    refine Keeps.bindCall _ _ (fun c => ⟨_, advance_ok .pgTrgm c rfl, ?_⟩) fun x =>
      ⟨_, advance_error .pgTrgm x rfl, rfl, fun he => by cases he⟩
    cases hc : c.isTrue with
    | false =>
      rw [if_neg Bool.false_ne_true]
      exact Keeps.throw _ ⟨rfl, fun he => by cases he⟩
    | true =>
      rw [if_pos rfl]
      exact migrateLocked_keeps rfl rfl rfl rfl rfl
  · rintro ⟨⟩ t ⟨hbegun, hcomplete⟩
    refine Keeps.bindCall _ _ (fun a => ⟨_, advance_ok _ a (hcomplete rfl), Keeps.pure ()
      ⟨fun _ => trivial, fun e he => by cases he⟩⟩) fun x =>
        ⟨_, advance_error _ x (hcomplete rfl), fun he => (by cases he), fun e _ =>
          ⟨hbegun, fun he => by cases he⟩⟩
  · rintro e t ⟨hbegun, -⟩
    refine Keeps.bindCall _ _ (fun a => ⟨_, advance_ok .rollback a hbegun, Keeps.pure ()
      ⟨fun _ => trivial, fun _ _ => trivial⟩⟩) fun x =>
        ⟨_, advance_error .rollback x hbegun, fun _ => trivial, fun _ _ => trivial⟩

/-! ## Several instances -/

variable {ι : Type} [DecidableEq ι]

/-- The database: the instance that has locked the table, the migrations whose changes have been
committed and the recorded ones, each in its order, and the same of each open transaction. -/
structure Database (ι : Type) where
  owner : Option ι
  schema : List Nat
  versions : List Nat
  changes : ι → List Nat
  entries : ι → List Nat

namespace Database

/-- A database without open transactions. -/
def idle (versions : List Nat) : Database ι := ⟨none, versions, versions, fun _ => [], fun _ => []⟩

/-- The end of a transaction without its changes. -/
def discard (d : Database ι) (i : ι) : Database ι :=
  { d with
    owner := if d.owner = some i then none else d.owner
    changes := Function.update d.changes i []
    entries := Function.update d.entries i [] }

def commit (d : Database ι) (i : ι) : Database ι :=
  { d.discard i with
    schema := d.schema ++ d.changes i
    versions := d.versions ++ d.entries i }

end Database

/-- The lock is given while nobody holds it, and keeps the others from reading the table; a
transaction sees what has been committed and its own changes; and whether a commit whose answer is
lost has taken place is not known. -/
def answer (d : Database ι) (ie : ι × Entry Call Answer (Raised E)) : Option (Database ι) :=
  match ie.2.call, ie.2.outcome with
  | .commit, .ok _ => some (d.commit ie.1)
  | .commit, .error (.answerLost _) => some (d.commit ie.1)
  | .commit, .error (.failed _) => some (d.discard ie.1)
  | .rollback, _ => some (d.discard ie.1)
  | .lockSchemaMigrations, .ok _ =>
    if d.owner = none then some { d with owner := some ie.1 } else none
  | .appliedMigrations, .ok a =>
    if (d.owner = none ∨ d.owner = some ie.1) ∧
        a.list = (d.versions ++ d.entries ie.1).insertionSort (· ≤ ·) then some d
    else none
  | .migration version, .ok _ =>
    some { d with changes := Function.update d.changes ie.1 (d.changes ie.1 ++ [version]) }
  | .recordMigration version, .ok _ =>
    some { d with entries := Function.update d.entries ie.1 (d.entries ie.1 ++ [version]) }
  | _, _ => some d

/-- What an instance believes of itself and of the database is so, and the database is at the
schema of a version. -/
structure Inv (first : Nat) (stages : ι → Stage) (d : Database ι) : Prop where
  owner : ∀ i, (stages i).locked = true ↔ d.owner = some i
  changes : ∀ i, d.changes i = (stages i).ran
  entries : ∀ i, d.entries i = (stages i).recorded
  seen : ∀ i, ∀ vs ∈ (stages i).seen, vs = d.versions
  fresh : ∀ i, (stages i).locked = false → (stages i).seen = [] ∧ (stages i).ran = [] ∧
    (stages i).recorded = []
  schema : d.schema = d.versions
  tidy : Tidy first d.versions

omit [DecidableEq ι] in
theorem inv_idle (first : Nat) (versions : List Nat) (h : Tidy first versions) :
    Inv first (fun _ : ι => Stage.start) (.idle versions) :=
  ⟨fun _ => by simp [Stage.start, Database.idle], fun _ => rfl, fun _ => rfl,
    fun _ _ hvs => (by cases hvs), fun _ _ => ⟨rfl, rfl, rfl⟩, rfl, h⟩

/-- A step of an instance that changes no more than what the instance sees and has done. -/
theorem inv_update {first : Nat} {stages : ι → Stage} {d : Database ι} (i : ι) (t : Stage)
    (changes entries : List Nat) (h : Inv first stages d) (hlocked : t.locked = (stages i).locked)
    (hchanges : changes = t.ran) (hentries : entries = t.recorded)
    (hseen : ∀ vs ∈ t.seen, vs = d.versions)
    (hfresh : t.locked = false → t.seen = [] ∧ t.ran = [] ∧ t.recorded = []) :
    Inv first (Function.update stages i t)
      { d with
        changes := Function.update d.changes i changes
        entries := Function.update d.entries i entries } := by
  refine ⟨fun j => ?_, fun j => ?_, fun j => ?_, fun j => ?_, fun j => ?_, h.schema, h.tidy⟩
  all_goals by_cases hj : j = i
  · rw [hj, Function.update_self, hlocked]
    exact h.owner i
  · rw [Function.update_of_ne hj]
    exact h.owner j
  · rw [hj, Function.update_self]
    exact (Function.update_self ..).trans hchanges
  · rw [Function.update_of_ne hj]
    exact (Function.update_of_ne hj ..).trans (h.changes j)
  · rw [hj, Function.update_self]
    exact (Function.update_self ..).trans hentries
  · rw [Function.update_of_ne hj]
    exact (Function.update_of_ne hj ..).trans (h.entries j)
  · rw [hj, Function.update_self]
    exact hseen
  · rw [Function.update_of_ne hj]
    exact h.seen j
  · rw [hj, Function.update_self]
    exact hfresh
  · rw [Function.update_of_ne hj]
    exact h.fresh j

omit [DecidableEq ι] in
/-- Where one instance has the lock, the others have seen nothing and done nothing. -/
theorem fresh_of_owner {first : Nat} {stages : ι → Stage} {d : Database ι} (i j : ι)
    (h : Inv first stages d) (howner : d.owner = some i) (hj : j ≠ i) :
    (stages j).locked = false ∧ (stages j).seen = [] ∧ (stages j).ran = [] ∧
      (stages j).recorded = [] := by
  have hnot : (stages j).locked = false := by
    have hiff := h.owner j
    rw [howner] at hiff
    cases hlocked : (stages j).locked with
    | false => rfl
    | true => exact absurd (Option.some.inj (hiff.mp hlocked)).symm hj
  exact ⟨hnot, h.fresh j hnot⟩

/-- The lock is taken. -/
theorem inv_lock {first : Nat} {stages : ι → Stage} {d : Database ι} (i : ι) (h : Inv first stages d)
    (hfree : d.owner = none) :
    Inv first (Function.update stages i { stages i with locked := true })
      { d with owner := some i } := by
  have hnone (j : ι) : (stages j).locked = false := by
    have hiff := h.owner j
    rw [hfree] at hiff
    simpa using hiff
  refine ⟨fun j => ?_, fun j => ?_, fun j => ?_, fun j => ?_, fun j => ?_, h.schema, h.tidy⟩
  all_goals by_cases hj : j = i
  · rw [hj, Function.update_self]
    simp
  · rw [Function.update_of_ne hj, hnone j]
    simp [Ne.symm hj]
  · rw [hj, Function.update_self]
    exact h.changes i
  · rw [Function.update_of_ne hj]
    exact h.changes j
  · rw [hj, Function.update_self]
    exact h.entries i
  · rw [Function.update_of_ne hj]
    exact h.entries j
  · rw [hj, Function.update_self]
    exact h.seen i
  · rw [Function.update_of_ne hj]
    exact h.seen j
  · rw [hj, Function.update_self]
    exact fun hlocked => by cases hlocked
  · rw [Function.update_of_ne hj]
    exact h.fresh j

/-- A transaction is over. -/
theorem inv_discard {first : Nat} {stages : ι → Stage} {d : Database ι} (i : ι) (t : Stage)
    (h : Inv first stages d) (ht : t = { Stage.start with begun := t.begun }) :
    Inv first (Function.update stages i t) (d.discard i) := by
  have hlocked : t.locked = false := by rw [ht]; rfl
  refine ⟨fun j => ?_, fun j => ?_, fun j => ?_, fun j => ?_, fun j => ?_, h.schema, h.tidy⟩
  all_goals by_cases hj : j = i
  · rw [hj, Function.update_self, hlocked, Database.discard]
    split <;> simp [*]
  · rw [Function.update_of_ne hj, h.owner j, Database.discard]
    split
    · rename_i howner
      simp [howner, Ne.symm hj]
    · rfl
  · rw [hj, Function.update_self, ht]
    exact Function.update_self ..
  · rw [Function.update_of_ne hj]
    exact (Function.update_of_ne hj ..).trans (h.changes j)
  · rw [hj, Function.update_self, ht]
    exact Function.update_self ..
  · rw [Function.update_of_ne hj]
    exact (Function.update_of_ne hj ..).trans (h.entries j)
  · rw [hj, Function.update_self, ht]
    exact fun vs hvs => by cases hvs
  · rw [Function.update_of_ne hj]
    exact h.seen j
  · rw [hj, Function.update_self, ht]
    exact fun _ => ⟨rfl, rfl, rfl⟩
  · rw [Function.update_of_ne hj]
    exact h.fresh j

/-- What the instance may commit makes the schema its own. -/
theorem commit_versions {first last : Nat} {stages : ι → Stage} {d : Database ι} (i : ι)
    (h : Inv first stages d) (hfirst : 0 < first) (hlast : first ≤ last)
    (hallowed : (stages i).allows (versionsUpTo first last) .commit = true) :
    (d.commit i).schema = versionsUpTo first last ∧
      (d.commit i).versions = versionsUpTo first last ∧ (stages i).locked = true := by
  simp only [Stage.allows, Bool.and_eq_true, beq_iff_eq] at hallowed
  obtain ⟨⟨hlocked, hpending⟩, hrecorded⟩ := hallowed
  rw [Stage.pending] at hpending
  split at hpending
  · rename_i checked applied hseen
    split at hpending
    · rename_i hvalid
      have hchecked : checked = d.versions := h.seen i checked (by simp [hseen])
      have happlied : applied = d.versions := h.seen i applied (by simp [hseen])
      rw [hchecked] at hvalid
      have hall := applied_append_pending first last hfirst hlast d.versions h.tidy hvalid
      have hran := Option.some.inj hpending
      rw [happlied] at hran
      refine ⟨?_, ?_, hlocked⟩
      · rw [Database.commit]
        simp only
        rw [h.changes i, ← hran, h.schema, hall]
      · rw [Database.commit]
        simp only
        rw [h.entries i, hrecorded, ← hran, hall]
    · cases hpending
  · cases hpending

theorem inv_commit {first last : Nat} {stages : ι → Stage} {d : Database ι} (i : ι) (t : Stage)
    (h : Inv first stages d) (hfirst : 0 < first) (hlast : first ≤ last)
    (hallowed : (stages i).allows (versionsUpTo first last) .commit = true)
    (ht : t = { Stage.start with begun := t.begun }) :
    Inv first (Function.update stages i t) (d.commit i) := by
  obtain ⟨hschema, hversions, hlocked⟩ := commit_versions i h hfirst hlast hallowed
  have hdiscard := inv_discard i t h ht
  have howner := (h.owner i).mp hlocked
  refine ⟨hdiscard.owner, hdiscard.changes, hdiscard.entries, fun j vs hvs => ?_, hdiscard.fresh,
    hschema.trans hversions.symm, .inr ⟨last, hlast, hversions⟩⟩
  by_cases hj : j = i
  · rw [hj, Function.update_self, ht] at hvs
    cases hvs
  · rw [Function.update_of_ne hj, (fresh_of_owner i j h howner hj).2.1] at hvs
    cases hvs

/-- A step that changes nothing in the database. -/
theorem inv_same {first : Nat} {stages : ι → Stage} {d : Database ι} (i : ι) (t : Stage)
    (h : Inv first stages d) (hlocked : t.locked = (stages i).locked)
    (hran : t.ran = (stages i).ran) (hrecorded : t.recorded = (stages i).recorded)
    (hseen : ∀ vs ∈ t.seen, vs = d.versions)
    (hfresh : t.locked = false → t.seen = [] ∧ t.ran = [] ∧ t.recorded = []) :
    Inv first (Function.update stages i t) d := by
  have hupdate := inv_update i t (d.changes i) (d.entries i) h hlocked
    ((h.changes i).trans hran.symm) ((h.entries i).trans hrecorded.symm) hseen hfresh
  rw [Function.update_eq_self, Function.update_eq_self] at hupdate
  exact hupdate

theorem inv_step (first : Nat) (last : ι → Nat) (hfirst : 0 < first) (hlast : ∀ i, first ≤ last i)
    (stages stages' : ι → Stage) (d d' : Database ι) (ie : ι × Entry Call Answer (Raised E))
    (h : Inv first stages d)
    (hstep : step (fun i => advance (versionsUpTo first (last i))) answer (stages, d) ie =
      some (stages', d')) : Inv first stages' d' := by
  obtain ⟨i, c, o⟩ := ie
  obtain ⟨t, g, hadvance, hanswer, heq⟩ := (step_eq_some ..).mp hstep
  obtain ⟨rfl, rfl⟩ := Prod.mk.inj heq
  rw [advance] at hadvance
  split at hadvance
  case isFalse => cases hadvance
  case isTrue hallowed =>
    have ht := Option.some.inj hadvance
    have hkeep (u : Stage) (hd : d = d') (hu : u.locked = (stages i).locked)
        (hseen : u.seen = (stages i).seen) (hran : u.ran = (stages i).ran)
        (hrecorded : u.recorded = (stages i).recorded) :
        Inv first (Function.update stages i u) d' := by
      rw [← hd]
      refine inv_same i u h hu hran hrecorded (hseen ▸ h.seen i) fun hlocked => ?_
      rw [hseen, hran, hrecorded]
      exact h.fresh i (hu ▸ hlocked)
    cases c with
    | begin =>
      cases o <;> exact hkeep t (Option.some.inj hanswer) (by rw [← ht]; rfl) (by rw [← ht]; rfl)
        (by rw [← ht]; rfl) (by rw [← ht]; rfl)
    | commit =>
      cases o with
      | ok a =>
        rw [← Option.some.inj hanswer, ← ht]
        exact inv_commit i _ h hfirst (hlast i) hallowed rfl
      | error x =>
        cases x with
        | failed e =>
          rw [← Option.some.inj hanswer, ← ht]
          exact inv_discard i _ h rfl
        | answerLost e =>
          rw [← Option.some.inj hanswer, ← ht]
          exact inv_commit i _ h hfirst (hlast i) hallowed rfl
    | rollback =>
      cases o <;> rw [← Option.some.inj hanswer, ← ht] <;> exact inv_discard i _ h rfl
    | requireSchemaMigrationsTable =>
      cases o <;> exact hkeep t (Option.some.inj hanswer) (by rw [← ht]; rfl) (by rw [← ht]; rfl)
        (by rw [← ht]; rfl) (by rw [← ht]; rfl)
    | lockSchemaMigrations =>
      cases o with
      | ok a =>
        by_cases hfree : d.owner = none
        · have hd : { d with owner := some i } = d' := by simpa [answer, hfree] using hanswer
          rw [← hd, ← ht]
          exact inv_lock i h hfree
        · simp [answer, hfree] at hanswer
      | error x =>
        exact hkeep t (Option.some.inj hanswer) (by rw [← ht]; rfl) (by rw [← ht]; rfl)
          (by rw [← ht]; rfl) (by rw [← ht]; rfl)
    | pgTrgm =>
      cases o <;> exact hkeep t (Option.some.inj hanswer) (by rw [← ht]; rfl) (by rw [← ht]; rfl)
        (by rw [← ht]; rfl) (by rw [← ht]; rfl)
    | appliedMigrations =>
      have hheld : ((stages i).locked = true ∧ (stages i).ran = []) ∧
          (stages i).recorded = [] := by
        simpa [Stage.allows] using hallowed
      cases o with
      | ok a =>
        simp only [answer] at hanswer
        split at hanswer
        · rename_i hcond
          rw [← Option.some.inj hanswer, ← ht]
          refine inv_same i _ h rfl rfl rfl (fun vs hvs => ?_) fun hlocked => ?_
          · rcases List.mem_append.mp hvs with hvs | hvs
            · exact h.seen i vs hvs
            · -- the versions are in their order already, and the instance has recorded none
              have hrecorded : d.entries i = [] := (h.entries i).trans hheld.2
              rw [List.mem_singleton.mp hvs, hcond.2, hrecorded, List.append_nil]
              exact List.Pairwise.insertionSort_eq
                ((tidy_pairwise first hfirst _ h.tidy).imp Nat.le_of_lt)
          · rw [show (stages i).locked = false from hlocked] at hheld
            cases hheld.1.1
        · cases hanswer
      | error x =>
        exact hkeep t (Option.some.inj hanswer) (by rw [← ht]; rfl) (by rw [← ht]; rfl)
          (by rw [← ht]; rfl) (by rw [← ht]; rfl)
    | migration version =>
      have hheld : (stages i).locked = true := by
        simp only [Stage.allows, Bool.and_eq_true] at hallowed
        exact hallowed.1.1
      cases o with
      | ok a =>
        rw [← Option.some.inj hanswer, ← ht]
        have hupdate := inv_update i ((stages i).returned a (.migration version))
          (d.changes i ++ [version]) (d.entries i) h rfl (by rw [h.changes i]; rfl) (h.entries i)
          (h.seen i) fun hlocked => by
            rw [show (stages i).locked = false from hlocked] at hheld
            cases hheld
        rw [Function.update_eq_self i d.entries] at hupdate
        exact hupdate
      | error x =>
        exact hkeep t (Option.some.inj hanswer) (by rw [← ht]; rfl) (by rw [← ht]; rfl)
          (by rw [← ht]; rfl) (by rw [← ht]; rfl)
    | recordMigration version =>
      have hheld : (stages i).locked = true := by
        simp only [Stage.allows, Bool.and_eq_true] at hallowed
        exact hallowed.1
      cases o with
      | ok a =>
        rw [← Option.some.inj hanswer, ← ht]
        have hupdate := inv_update i ((stages i).returned a (.recordMigration version))
          (d.changes i) (d.entries i ++ [version]) h rfl (h.changes i) (by rw [h.entries i]; rfl)
          (h.seen i) fun hlocked => by
            rw [show (stages i).locked = false from hlocked] at hheld
            cases hheld
        rw [Function.update_eq_self i d.changes] at hupdate
        exact hupdate
      | error x =>
        exact hkeep t (Option.some.inj hanswer) (by rw [← ht]; rfl) (by rw [← ht]; rfl)
          (by rw [← ht]; rfl) (by rw [← ht]; rfl)

/-- Instances of whatever versions, in whatever order they take their turns, and whatever goes
wrong, leave the database at the schema of a version, each of its migrations run once, in order,
and recorded; and a commit leaves it at the schema of the instance that commits. -/
theorem migrations_agree (first : Nat) (last : ι → Nat) (versions : List Nat)
    (es : History ι Call Answer (Raised E)) (d : Database ι) (hfirst : 0 < first)
    (hlast : ∀ i, first ≤ last i) (hversions : Tidy first versions)
    (hown : ∀ i, ∃ env, own i es <+: ((migrate (versionsUpTo first (last i))).run env []).2)
    (hanswer : es.foldlM answer (.idle versions) = some d) :
    d.schema = d.versions ∧ Tidy first d.versions ∧
      ∀ before i a after, es = before ++ (i, ⟨.commit, .ok a⟩) :: after →
        ∃ d', (before ++ [(i, ⟨.commit, .ok a⟩)]).foldlM answer (.idle versions) = some d' ∧
          d'.schema = versionsUpTo first (last i) ∧ d'.versions = d'.schema := by
  let advances (i : ι) : Protocol Call Answer (Raised E) Stage :=
    advance (versionsUpTo first (last i))
  have hfollow (i : ι) : (follow (advances i) Stage.start (own i es)).isSome = true := by
    obtain ⟨env, hpart⟩ := hown i
    obtain ⟨t, ht, -⟩ := (migrate_keeps (versionsUpTo first (last i))).fromStart env
    exact follow_isSome_of_prefix _ ht hpart
  obtain ⟨⟨stages, hend⟩, hcalls⟩ := invariant_of_own advances answer (Inv first)
    (fun stages g ie stages' g' h hstep =>
      inv_step first last hfirst hlast stages stages' g g' ie h hstep)
    es _ _ _ (inv_idle first versions hversions) hfollow hanswer
  refine ⟨hend.schema, hend.tidy, fun before i a after hes => ?_⟩
  obtain ⟨stages', g, t, g', hi, hbefore, hadvance, hcommit⟩ := hcalls before i _ after hes
  have hallowed : (stages' i).allows (versionsUpTo first (last i)) .commit = true := by
    simp only [advances, advance] at hadvance
    split at hadvance
    · rename_i h
      exact h
    · cases hadvance
  obtain ⟨hschema, hrecorded, -⟩ := commit_versions i hi hfirst (hlast i) hallowed
  refine ⟨g.commit i, ?_, hschema, hrecorded.trans hschema.symm⟩
  rw [List.foldlM_append, hbefore]
  rfl

/-- A newer instance migrates a new database; an older one that has been started meanwhile finds a
migration that it does not know. -/
def overtaken : History Bool Call Answer (Raised Unit) :=
  [(true, ⟨.begin, .ok .done⟩), (false, ⟨.begin, .ok .done⟩),
    (false, ⟨.requireSchemaMigrationsTable, .ok .done⟩),
    (true, ⟨.requireSchemaMigrationsTable, .ok .done⟩),
    (true, ⟨.lockSchemaMigrations, .ok .done⟩), (true, ⟨.pgTrgm, .ok (.bool true)⟩),
    (true, ⟨.appliedMigrations, .ok (.versions [])⟩),
    (true, ⟨.appliedMigrations, .ok (.versions [])⟩),
    (true, ⟨.migration 0, .ok .done⟩), (true, ⟨.recordMigration 0, .ok .done⟩),
    (true, ⟨.migration 1, .ok .done⟩), (true, ⟨.recordMigration 1, .ok .done⟩),
    (true, ⟨.migration 2, .ok .done⟩), (true, ⟨.recordMigration 2, .ok .done⟩),
    (true, ⟨.commit, .ok .done⟩), (false, ⟨.lockSchemaMigrations, .ok .done⟩),
    (false, ⟨.pgTrgm, .ok (.bool true)⟩),
    (false, ⟨.appliedMigrations, .ok (.versions [0, 1, 2])⟩), (false, ⟨.rollback, .ok .done⟩)]

/-- Every call returns, and these migrations have been applied. -/
def finds (versions : List Nat) : Environment Call Answer (Raised Unit)
  | _, .pgTrgm => .ok (.bool true)
  | _, .appliedMigrations => .ok (.versions versions)
  | _, _ => .ok .done

theorem migrations_agree_overtaken :
    ∃ d : Database Bool, overtaken.foldlM answer (.idle []) = some d ∧ d.schema = d.versions ∧
      Tidy 1 d.versions ∧ ∀ before i a after, overtaken = before ++ (i, ⟨.commit, .ok a⟩) :: after →
        ∃ d', (before ++ [(i, ⟨.commit, .ok a⟩)]).foldlM answer (.idle []) = some d' ∧
          d'.schema = versionsUpTo 1 (if i then 2 else 1) ∧ d'.versions = d'.schema := by
  have hsome : (overtaken.foldlM answer (.idle [] : Database Bool)).isSome = true := by decide
  obtain ⟨d, hd⟩ := Option.isSome_iff_exists.mp hsome
  have hnewer : own true overtaken = ((migrate (versionsUpTo 1 2)).run (finds []) []).2 := by
    decide +kernel
  have holder : own false overtaken = ((migrate (versionsUpTo 1 1)).run (finds [0, 1, 2]) []).2 := by
    decide +kernel
  refine ⟨d, hd, migrations_agree 1 (fun i => if i then 2 else 1) [] overtaken d (by decide)
    (by decide) (.inl rfl) (fun i => ?_) hd⟩
  cases i with
  | false => exact ⟨finds [0, 1, 2], holder ▸ List.prefix_refl _⟩
  | true => exact ⟨finds [], hnewer ▸ List.prefix_refl _⟩

end OpenVoxDB.Migrations
