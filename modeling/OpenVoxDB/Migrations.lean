import OpenVoxDB.Threads

/-!
# Migrations

A database is brought up to the schema of an instance by the migrations that the instance knows
and the database does not have. Several instances, also of different versions, may be started
at once. Each migrates in a transaction of its own, and locks the table of the applied migrations
before it looks which they are.
-/

namespace OpenVoxDB.Migrations

open Effects Protocols Interleaving Threads

/-- The keys of `migrations`, for a version whose newest migration is `last`. -/
def versionsUpTo (first last : Nat) : List Nat := 0 :: List.range' first (last + 1 - first)

/-- The keys of `migrations`. -/
def migrations : List Nat := versionsUpTo 28 88

inductive Call where
  | begin
  | commit
  | rollback
  | requireSchemaMigrationsTable
  | lockSchemaMigrations
  | pgTrgm
  | appliedMigrations
  | migration (version : Nat)
  | recordMigration (version : Nat)
  deriving DecidableEq, Repr

inductive Answer where
  | done
  | bool (b : Bool)
  | versions (vs : List Nat)
  deriving DecidableEq, Repr

def Answer.isTrue : Answer → Bool
  | bool b => b
  | _ => false

def Answer.list : Answer → List Nat
  | versions vs => vs
  | _ => []

/-- What a call throws. The answer to a commit can be lost when the commit has taken place. -/
inductive Raised (E : Type) where
  | failed (e : E)
  | answerLost (e : E)
  deriving DecidableEq, Repr

inductive Thrown (E : Type) where
  | raised (x : Raised E)
  | rollbackFailed (rollback handling : Thrown E)
  | missingExtension
  | unsupportedMigration (latest : Nat)
  | unrecognizedMigration (version : Nat)
  deriving DecidableEq, Repr

variable {E : Type}

abbrev Step (E α : Type) := Action Call Answer (Raised E) (Thrown E) α

def call (c : Call) : Step E Answer := Action.call .raised c

def perform (c : Call) : Step E Unit := do
  let _ ← call c
  pure ()

/-- The newest migration that is known. -/
def desiredSchemaVersion (known : List Nat) : Nat := known.foldl max 0

/-- Known migrations that have not been applied, in their order. -/
def pendingMigrations (known applied : List Nat) : List Nat := known.filter (· ∉ applied)

def unrecognizedMigrations (known applied : List Nat) : List Nat :=
  applied.filter (desiredSchemaVersion known < ·)

/-- The migration that an applied one must not be older than, where there is one. -/
def firstSupported (known : List Nat) : Nat := (known.filter (· ≠ 0)).headD 0

/-- `require-valid-schema`, of the applied migrations in their order. -/
def requireValidSchema (known applied : List Nat) : Except (Thrown E) Unit :=
  match applied.getLast? with
  | none => .ok ()
  | some latest =>
    if latest < firstSupported known then .error (.unsupportedMigration latest)
    else
      match unrecognizedMigrations known applied with
      | [] => .ok ()
      | unexpected :: _ => .error (.unrecognizedMigration unexpected)

def runMigrations (versions : List Nat) : Step E Unit :=
  Action.forEach versions fun version => do
    perform (.migration version)
    perform (.recordMigration version)

/-- What is done under the lock, where the extension is there. -/
def migrateLocked (known : List Nat) : Step E Unit := do
  let applied ← call .appliedMigrations
  match requireValidSchema known applied.list with
  | .error e => throw e
  | .ok _ => do
    let applied ← call .appliedMigrations
    runMigrations (pendingMigrations known applied.list)

def migrateBody (known : List Nat) : Step E Unit := do
  perform .requireSchemaMigrationsTable
  perform .lockSchemaMigrations
  let extension ← call .pgTrgm
  if extension.isTrue then migrateLocked known else throw .missingExtension

/-- `migrate` of `update-schema` -/
def migrate (known : List Nat) : Step E Unit :=
  Action.transact (perform .begin) (perform .commit) (perform .rollback) .rollbackFailed
    (migrateBody known)

/-! ## Known and applied migrations -/

theorem mem_versionsUpTo (first last v : Nat) :
    v ∈ versionsUpTo first last ↔ v = 0 ∨ (first ≤ v ∧ v ≤ last) := by
  rw [versionsUpTo, List.mem_cons, List.mem_range'_1]
  omega

theorem versionsUpTo_pairwise (first last : Nat) (hfirst : 0 < first) :
    (versionsUpTo first last).Pairwise (· < ·) := by
  refine List.pairwise_cons.mpr ⟨fun v hv => ?_, List.pairwise_lt_range'⟩
  have hge := (List.mem_range'_1.mp hv).1
  omega

theorem le_desiredSchemaVersion (known : List Nat) (v : Nat) (hv : v ∈ known) :
    v ≤ desiredSchemaVersion known := by
  have hgeneral (acc : Nat) (vs : List Nat) :
      acc ≤ vs.foldl max acc ∧ ∀ v ∈ vs, v ≤ vs.foldl max acc := by
    induction vs generalizing acc with
    | nil => simp
    | cons w vs ih =>
      obtain ⟨hacc, hall⟩ := ih (max acc w)
      refine ⟨le_trans (le_max_left _ _) hacc, fun v hv => ?_⟩
      rcases List.mem_cons.mp hv with rfl | hv
      · exact le_trans (le_max_right _ _) hacc
      · exact hall v hv
  exact (hgeneral 0 known).2 v hv

theorem desiredSchemaVersion_mem (known : List Nat) (hknown : known ≠ []) :
    desiredSchemaVersion known ∈ known := by
  have hgeneral (acc : Nat) (vs : List Nat) :
      vs.foldl max acc = acc ∨ vs.foldl max acc ∈ vs := by
    induction vs generalizing acc with
    | nil => exact .inl rfl
    | cons w vs ih =>
      rcases ih (max acc w) with h | h
      · rcases le_total acc w with hle | hle
        · exact .inr (by rw [List.foldl_cons, h, max_eq_right hle]; exact List.mem_cons_self)
        · exact .inl (by rw [List.foldl_cons, h, max_eq_left hle])
      · exact .inr (List.mem_cons_of_mem _ h)
  rcases hgeneral 0 known with h | h
  · cases known with
    | nil => exact absurd rfl hknown
    | cons w vs =>
      have hw := le_desiredSchemaVersion (w :: vs) w List.mem_cons_self
      rw [desiredSchemaVersion, h] at hw ⊢
      have hzero : w = 0 := by omega
      rw [hzero]
      exact List.mem_cons_self
  · exact h

theorem desiredSchemaVersion_versionsUpTo (first last : Nat) (hlast : first ≤ last) :
    desiredSchemaVersion (versionsUpTo first last) = last := by
  have hmem := desiredSchemaVersion_mem (versionsUpTo first last) (by simp [versionsUpTo])
  have hle := le_desiredSchemaVersion (versionsUpTo first last) last
    ((mem_versionsUpTo first last last).mpr (.inr ⟨hlast, le_refl last⟩))
  rw [mem_versionsUpTo] at hmem
  omega

/-- The database is new, or at the schema of some version. -/
def Tidy (first : Nat) (versions : List Nat) : Prop :=
  versions = [] ∨ ∃ last, first ≤ last ∧ versions = versionsUpTo first last

theorem tidy_pairwise (first : Nat) (hfirst : 0 < first) (versions : List Nat)
    (h : Tidy first versions) : versions.Pairwise (· < ·) := by
  rcases h with rfl | ⟨last, -, rfl⟩
  · exact .nil
  · exact versionsUpTo_pairwise first last hfirst

/-- Pending migrations bring a database at an older schema, or a new one, to the newest schema
that is known; the database's own schema is none that is not known. -/
theorem applied_append_pending (first last : Nat) (hfirst : 0 < first) (hlast : first ≤ last)
    (applied : List Nat) (happlied : Tidy first applied)
    (hvalid : requireValidSchema (E := E) (versionsUpTo first last) applied = .ok ()) :
    applied ++ pendingMigrations (versionsUpTo first last) applied = versionsUpTo first last := by
  rcases happlied with rfl | ⟨m, hm, rfl⟩
  · rw [pendingMigrations, List.nil_append]
    exact List.filter_eq_self.mpr fun v _ => by simp
  · -- the newest migration of the database is known
    have hle : m ≤ last := by
      by_contra hlt
      have hmem : m ∈ unrecognizedMigrations (versionsUpTo first last) (versionsUpTo first m) := by
        rw [unrecognizedMigrations, List.mem_filter, mem_versionsUpTo,
          desiredSchemaVersion_versionsUpTo first last hlast]
        exact ⟨.inr ⟨hm, le_refl m⟩, by simpa using hlt⟩
      rw [requireValidSchema] at hvalid
      split at hvalid
      · rename_i hnone
        simp [versionsUpTo] at hnone
      · split at hvalid
        · cases hvalid
        · split at hvalid
          · rename_i hnil
            rw [hnil] at hmem
            cases hmem
          · cases hvalid
    have hold : (versionsUpTo first m).filter (· ∉ versionsUpTo first m) = [] :=
      List.filter_eq_nil_iff.mpr fun v hv => by simp [hv]
    have hsplit : versionsUpTo first last =
        versionsUpTo first m ++ List.range' (m + 1) (last - m) := by
      rw [versionsUpTo, versionsUpTo, List.cons_append]
      congr 1
      have hlength : last + 1 - first = (m + 1 - first) + (last - m) := by omega
      rw [hlength, ← List.range'_append_1]
      congr 2
      omega
    have hnew : (List.range' (m + 1) (last - m)).filter (· ∉ versionsUpTo first m) =
        List.range' (m + 1) (last - m) := by
      refine List.filter_eq_self.mpr fun v hv => ?_
      have hgt := (List.mem_range'_1.mp hv).1
      simp only [mem_versionsUpTo, decide_eq_true_eq]
      omega
    rw [pendingMigrations]
    conv_lhs => rw [hsplit]
    rw [List.filter_append, hold, List.nil_append, hnew, hsplit]

end OpenVoxDB.Migrations
