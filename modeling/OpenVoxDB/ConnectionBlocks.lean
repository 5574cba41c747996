import OpenVoxDB.Effects

/-!
# Connections during a migration

While a migration runs, the other users of the database cannot connect to it: their right to is
revoked one user after the other, what they have open is disconnected, and at the end each right
is restored, whatever has been thrown meanwhile.
-/

namespace OpenVoxDB.ConnectionBlocks

open Effects

inductive Call where
  | currentUser
  | pendingMigrations
  | revokeRoleDbAccess (user : String)
  | hasDatabasePrivilege (user : String)
  | disconnectDbRole (user : String)
  | restoreRoleDbAccess (user : String)
  | setRole (role : String)
  | migrate
  deriving DecidableEq, Repr

/-- What a call returns: nothing, the name of a user, or whether there is a privilege or a pending
migration. -/
inductive Answer where
  | done
  | name (user : String)
  | bool (b : Bool)
  deriving DecidableEq, Repr

inductive Thrown (E : Type) where
  | other (e : E)
  | unableToBlockOtherPdbsDuringMigration
  deriving DecidableEq, Repr

variable {E : Type}

abbrev Step (E α : Type) := Action Call Answer E (Thrown E) α

def call (c : Call) : Step E Answer := Action.call .other c

def Answer.isTrue : Answer → Bool
  | bool b => b
  | _ => false

def Answer.user : Answer → String
  | name user => user
  | _ => ""

/-- A user without connections, and without the right to open one. -/
def disconnect (user : String) : Step E Unit := do
  let connect ← call (.hasDatabasePrivilege user)
  if connect.isTrue then throw .unableToBlockOtherPdbsDuringMigration
  else
    let _ ← call (.disconnectDbRole user)
    pure ()

/-- What goes wrong when the right is restored is logged, and found out by the test. -/
def restore (user : String) : Step E Unit := do
  tryCatch
    (do
      let _ ← call (.restoreRoleDbAccess user)
      pure ())
    fun _ => pure ()
  let connect ← call (.hasDatabasePrivilege user)
  if connect.isTrue then pure () else throw .unableToBlockOtherPdbsDuringMigration

/-- `call-with-connections-blocked-during-migration`; the first list is of the users that are
still to be blocked. -/
def callBlocked {α : Type} (users : List String) (f : Step E α) : List String → Step E α
  | [] => do
    Action.forEach users disconnect
    f
  | user :: others => do
    let _ ← call (.revokeRoleDbAccess user)
    Action.finallyDo (callBlocked users f others) (restore user)

/-- `(distinct [read-user write-user])` -/
def distinctUsers (readUser writeUser : String) : List String :=
  if readUser = writeUser then [readUser] else [readUser, writeUser]

/-- The migration as the user who is to own what it creates. -/
def migrateAs (writeUser origUser : String) : Step E Unit := do
  let _ ← call (.setRole writeUser)
  Action.finallyDo
    (do
      let _ ← call .migrate
      pure ())
    (call (.setRole origUser))

/-- `update-schema`, where there are users to block. -/
def updateSchema (writeUser readUser : String) : Step E Unit := do
  let origUser ← call .currentUser
  let pending ← call .pendingMigrations
  if pending.isTrue then
    callBlocked (distinctUsers readUser writeUser) (migrateAs writeUser origUser.user)
      (distinctUsers readUser writeUser)
  else pure ()

abbrev CallLog (E : Type) := Log Call Answer E

/-- The users whose right to connect has been revoked, as far as the database says, in order. -/
def revoked (log : CallLog E) : List String :=
  log.filterMap fun e =>
    match e.call, e.outcome with
    | .revokeRoleDbAccess user, .ok _ => some user
    | _, _ => none

/-- The users whose right to connect the database was told to restore, in order. -/
def restored (log : CallLog E) : List String :=
  log.filterMap fun e =>
    match e.call with
    | .restoreRoleDbAccess user => some user
    | _ => none

@[simp] theorem revoked_append (log more : CallLog E) :
    revoked (log ++ more) = revoked log ++ revoked more := List.filterMap_append
@[simp] theorem restored_append (log more : CallLog E) :
    restored (log ++ more) = restored log ++ restored more := List.filterMap_append

/-- The users in `rest` have no right to connect any more, none has been given it back, and those
in `users` are seen not to have it and not to be connected. -/
structure Guarded (rest users : List String) (log : CallLog E) : Prop where
  revoked : ∀ user ∈ rest, user ∈ ConnectionBlocks.revoked log
  notRestored : ConnectionBlocks.restored log = []
  refused : ∀ user ∈ users, ∃ a, a.isTrue = false ∧ ⟨.hasDatabasePrivilege user, .ok a⟩ ∈ log
  disconnected : ∀ user ∈ users, ∃ a, ⟨.disconnectDbRole user, .ok a⟩ ∈ log

/-- The user has been seen to have the right to connect after it was restored. -/
def Confirmed (user : String) (log : CallLog E) : Prop :=
  ∃ before a after, log = before ++ ⟨.hasDatabasePrivilege user, .ok a⟩ :: after ∧
    a.isTrue = true ∧ user ∈ restored before

/-- The rights that are revoked are restored, in the opposite order; a migration runs only while
they are; they are seen to be restored unless something is thrown; and what the migration throws
is not suppressed. -/
structure Orderly (rest users : List String) (r : Except (Thrown E) Unit) (log : CallLog E) :
    Prop where
  balanced : restored log = (revoked log).reverse
  guarded : ∀ before e after, log = before ++ e :: after → e.call = .migrate →
    Guarded rest users before
  confirmed : r = .ok () → ∀ user ∈ revoked log, Confirmed user log
  thrown : ∀ x, ⟨.migrate, .error x⟩ ∈ log → r = .error (.other x)

/-- No right is revoked or restored, and no migration runs. -/
def Neutral (log : CallLog E) : Prop :=
  revoked log = [] ∧ restored log = [] ∧ ∀ e ∈ log, e.call ≠ .migrate

theorem neutral_append (log more : CallLog E) (h : Neutral log) (h' : Neutral more) :
    Neutral (log ++ more) := by
  obtain ⟨hrevoked, hrestored, hmigrate⟩ := h
  obtain ⟨hrevoked', hrestored', hmigrate'⟩ := h'
  refine ⟨by simp [hrevoked, hrevoked'], by simp [hrestored, hrestored'], fun e he => ?_⟩
  rcases List.mem_append.mp he with he | he
  · exact hmigrate e he
  · exact hmigrate' e he

theorem orderly_of_neutral (rest users : List String) (r : Except (Thrown E) Unit)
    (log : CallLog E) (h : Neutral log) : Orderly rest users r log where
  balanced := by rw [h.1, h.2.1, List.reverse_nil]
  guarded := fun before e after hlog hcall =>
    absurd hcall (h.2.2 e (hlog ▸ List.mem_append_right _ List.mem_cons_self))
  confirmed := fun _ user huser => absurd huser (by simp [h.1])
  thrown := fun x hx => absurd rfl (h.2.2 _ hx)

theorem confirmed_append_left (user : String) (log more : CallLog E) (h : Confirmed user more) :
    Confirmed user (log ++ more) := by
  obtain ⟨before, a, after, rfl, ha, hmem⟩ := h
  exact ⟨log ++ before, a, after, by rw [List.append_assoc], ha, by simp [hmem]⟩

theorem confirmed_append_right (user : String) (log more : CallLog E) (h : Confirmed user log) :
    Confirmed user (log ++ more) := by
  obtain ⟨before, a, after, rfl, ha, hmem⟩ := h
  exact ⟨before, a, after ++ more, by simp, ha, hmem⟩

/-! ## One user -/

theorem disconnect_spec (past : CallLog E) (user : String) :
    Meets past (disconnect user) fun r log => Neutral log ∧ (r = .ok () →
      (∃ a, a.isTrue = false ∧ ⟨.hasDatabasePrivilege user, .ok a⟩ ∈ log) ∧
        ∃ a, ⟨.disconnectDbRole user, .ok a⟩ ∈ log) := by
  have hprivilege (o : Except E Answer) : Neutral [⟨.hasDatabasePrivilege user, o⟩] := by
    simp [Neutral, revoked, restored]
  have hdisconnect (o : Except E Answer) : Neutral [⟨.disconnectDbRole user, o⟩] := by
    simp [Neutral, revoked, restored]
  refine Meets.bindCall _ _ (fun a => ?_) fun x => ⟨hprivilege _, fun h => by cases h⟩
  by_cases ha : a.isTrue = true
  · rw [if_pos ha]
    exact Meets.throw _ ⟨hprivilege _, fun h => by cases h⟩
  · rw [if_neg ha]
    refine Meets.bindCall _ _ (fun b => ?_) fun x => ?_
    · refine Meets.pure () ⟨neutral_append _ _ (hprivilege _) (hdisconnect _), fun _ => ?_⟩
      exact ⟨⟨a, by simpa using ha, by simp⟩, b, by simp⟩
    · exact ⟨neutral_append _ _ (hprivilege _) (hdisconnect _), fun h => by cases h⟩

/-- A right is restored once, and only without an exception if the user is seen to have it. -/
theorem restore_spec (past : CallLog E) (user : String) :
    Meets past (restore user) fun r log => revoked log = [] ∧ restored log = [user] ∧
      (∀ e ∈ log, e.call ≠ .migrate) ∧ (r = .ok () → Confirmed user log) := by
  have hlog (o o' : Except E Answer) :
      revoked [⟨.restoreRoleDbAccess user, o⟩, ⟨.hasDatabasePrivilege user, o'⟩] = [] ∧
      restored [⟨.restoreRoleDbAccess user, o⟩, ⟨.hasDatabasePrivilege user, o'⟩] = [user] ∧
      ∀ e ∈ ([⟨.restoreRoleDbAccess user, o⟩, ⟨.hasDatabasePrivilege user, o'⟩] : CallLog E),
        e.call ≠ .migrate := by
    simp [revoked, restored]
  have htry : Meets past
      (tryCatch
        (do
          let _ ← call (.restoreRoleDbAccess user)
          pure () : Step E Unit)
        fun _ => pure ())
      fun r log => r = .ok () ∧ ∃ o, log = [⟨.restoreRoleDbAccess user, o⟩] := by
    refine Meets.tryCatch (P := fun _ log => ∃ o, log = [⟨.restoreRoleDbAccess user, o⟩]) ?_ ?_ ?_
    · exact Meets.bindCall _ _ (fun a => Meets.pure () ⟨_, rfl⟩) fun x => ⟨_, rfl⟩
    · rintro e _ ⟨o, rfl⟩
      exact Meets.pure () ⟨rfl, o, rfl⟩
    · rintro a _ ⟨o, rfl⟩
      exact ⟨rfl, o, rfl⟩
  refine Meets.bind htry ?_ fun e log h => by cases h.1
  rintro - _ ⟨-, o, rfl⟩
  refine Meets.bindCall _ _ (fun a => ?_) fun x => ?_
  · obtain ⟨hrevoked, hrestored, hmigrate⟩ := hlog o (.ok a)
    by_cases ha : a.isTrue = true
    · rw [if_pos ha]
      refine Meets.pure () ⟨hrevoked, hrestored, hmigrate, fun _ => ?_⟩
      exact ⟨[⟨.restoreRoleDbAccess user, o⟩], a, [], rfl, ha, by simp [restored]⟩
    · rw [if_neg ha]
      exact Meets.throw _ ⟨hrevoked, hrestored, hmigrate, fun h => by cases h⟩
  · obtain ⟨hrevoked, hrestored, hmigrate⟩ := hlog o (.error x)
    exact ⟨hrevoked, hrestored, hmigrate, fun h => by cases h⟩

/-- What the migration throws is thrown, also if the role cannot be set back. -/
theorem migrateAs_spec (past : CallLog E) (writeUser origUser : String) :
    Meets past (migrateAs writeUser origUser) fun r log => revoked log = [] ∧
      restored log = [] ∧ ∀ x, ⟨.migrate, .error x⟩ ∈ log → r = .error (.other x) := by
  refine Meets.bindCall _ _ (fun a => ?_) fun e =>
    ⟨by simp [revoked], by simp [restored], fun x hx => by simp at hx⟩
  refine Meets.finallyDo (P := fun r log => ∃ o, log = [⟨.migrate, o⟩] ∧
    ∀ x, o = .error x → r = .error (.other x)) ?_ ?_
  · refine Meets.bindCall _ _ (fun b => ?_) fun e => ⟨_, rfl, fun x h => ?_⟩
    · exact Meets.pure () ⟨_, rfl, fun x h => by cases h⟩
    · rw [Except.error.inj h]
  · rintro r _ ⟨o, rfl, hr⟩
    refine Meets.call _ _ fun o' => ?_
    refine ⟨by simp [revoked], by simp [restored], fun x hx => ?_⟩
    have ho : o = .error x := by simpa [eq_comm] using hx
    rw [hr x ho]
    rfl

/-! ## All users -/

/-- Other calls before. -/
theorem orderly_after (rest users : List String) (r : Except (Thrown E) Unit)
    (log more : CallLog E) (hlog : Neutral log) (hmore : Orderly rest users r more) :
    Orderly rest users r (log ++ more) := by
  obtain ⟨hrevoked, hrestored, hmigrate⟩ := hlog
  refine ⟨by simp [hrevoked, hrestored, hmore.balanced], ?_, fun hr u hu => ?_, fun x hx => ?_⟩
  · intro before e after hsplit hcall
    have hnot : e ∉ log := fun he => hmigrate e he hcall
    rcases List.append_eq_append_iff.mp hsplit with ⟨tail, hbefore, hrest⟩ | ⟨tail, hlog, hafter⟩
    · have hinner := hmore.guarded tail e after hrest hcall
      rw [hbefore]
      refine ⟨fun u hu => ?_, by simp [hrestored, hinner.notRestored], fun u hu => ?_,
        fun u hu => ?_⟩
      · rw [revoked_append]
        exact List.mem_append_right _ (hinner.revoked u hu)
      · obtain ⟨a, ha, hmem⟩ := hinner.refused u hu
        exact ⟨a, ha, List.mem_append_right _ hmem⟩
      · obtain ⟨a, hmem⟩ := hinner.disconnected u hu
        exact ⟨a, List.mem_append_right _ hmem⟩
    · cases tail with
      | nil =>
        rw [List.append_nil] at hlog
        have hinner := hmore.guarded [] e after hafter.symm hcall
        refine ⟨fun u hu => absurd (hinner.revoked u hu) (by simp [revoked]), by rw [← hlog, hrestored],
          fun u hu => ?_, fun u hu => ?_⟩
        · obtain ⟨a, -, hmem⟩ := hinner.refused u hu
          cases hmem
        · obtain ⟨a, hmem⟩ := hinner.disconnected u hu
          cases hmem
      | cons e' tail =>
        obtain ⟨rfl, -⟩ := List.cons.inj hafter
        exact absurd (hlog ▸ List.mem_append_right _ List.mem_cons_self) hnot
  · rw [revoked_append, hrevoked] at hu
    exact confirmed_append_left u log more (hmore.confirmed hr u hu)
  · rcases List.mem_append.mp hx with hx | hx
    · exact absurd rfl (hmigrate _ hx)
    · exact hmore.thrown x hx

/-- The users are disconnected, and then the migration runs. -/
theorem callBlocked_nil (users : List String) (writeUser origUser : String) (past : CallLog E) :
    Meets past (callBlocked users (migrateAs writeUser origUser) []) (Orderly [] users) := by
  have hall : Meets past (Action.forEach users disconnect) fun r log => Neutral log ∧
      (r = .ok () → Guarded [] users log) := by
    refine Meets.forEach (fun done log => Neutral log ∧ Guarded [] done log) ?_ ?_ ?_
    · exact ⟨by simp [Neutral, revoked, restored],
        ⟨by simp, by simp [restored], by simp, by simp⟩⟩
    · rintro done user log - ⟨hneutral, hguarded⟩
      refine (disconnect_spec _ user).mono fun r more hmore => ⟨fun u hu => ?_, fun e he => ?_⟩
      · have hboth := neutral_append log more hneutral hmore.1
        obtain ⟨hrefused, hdisconnected⟩ := hmore.2 hu
        refine ⟨hboth, by simp, hboth.2.1, fun user' huser => ?_, fun user' huser => ?_⟩
        · rcases List.mem_append.mp huser with huser | huser
          · obtain ⟨a, ha, hmem⟩ := hguarded.refused user' huser
            exact ⟨a, ha, List.mem_append_left _ hmem⟩
          · rw [List.mem_singleton.mp huser]
            obtain ⟨a, ha, hmem⟩ := hrefused
            exact ⟨a, ha, List.mem_append_right _ hmem⟩
        · rcases List.mem_append.mp huser with huser | huser
          · obtain ⟨a, hmem⟩ := hguarded.disconnected user' huser
            exact ⟨a, List.mem_append_left _ hmem⟩
          · rw [List.mem_singleton.mp huser]
            obtain ⟨a, hmem⟩ := hdisconnected
            exact ⟨a, List.mem_append_right _ hmem⟩
      · exact ⟨neutral_append log more hneutral hmore.1, fun h => by cases h⟩
    · exact fun log h => ⟨h.1, fun _ => h.2⟩
  refine Meets.bind hall ?_ fun e log h => orderly_of_neutral [] users _ log h.1
  rintro ⟨⟩ log ⟨hneutral, hguarded⟩
  refine (migrateAs_spec _ writeUser origUser).mono fun r more hmore => ?_
  obtain ⟨hrevoked, hrestored, hthrown⟩ := hmore
  refine ⟨by simp [hneutral.1, hneutral.2.1, hrevoked, hrestored], ?_, fun _ user huser => ?_,
    fun x hx => ?_⟩
  · intro before e after hlog hcall
    rcases List.append_eq_append_iff.mp hlog with ⟨rest, hbefore, hmore⟩ | ⟨rest, hbefore, hafter⟩
    · -- the migration is called after the users have been disconnected
      have hrest : restored rest = [] := by
        rw [hmore, restored_append, List.append_eq_nil_iff] at hrestored
        exact hrestored.1
      have hfirst := hguarded rfl
      rw [hbefore]
      refine ⟨by simp, by simp [hfirst.notRestored, hrest], fun user huser => ?_,
        fun user huser => ?_⟩
      · obtain ⟨a, ha, hmem⟩ := hfirst.refused user huser
        exact ⟨a, ha, List.mem_append_left _ hmem⟩
      · obtain ⟨a, hmem⟩ := hfirst.disconnected user huser
        exact ⟨a, List.mem_append_left _ hmem⟩
    · cases rest with
      | nil =>
        have hfirst := hguarded rfl
        rw [List.append_nil] at hbefore
        exact hbefore ▸ hfirst
      | cons e' rest =>
        obtain ⟨rfl, -⟩ := List.cons.inj hafter
        exact absurd hcall (hneutral.2.2 e (hbefore ▸ List.mem_append_right _ List.mem_cons_self))
  · rw [revoked_append, hneutral.1, hrevoked] at huser
    cases huser
  · rcases List.mem_append.mp hx with hx | hx
    · exact absurd rfl (hneutral.2.2 _ hx)
    · exact hthrown x hx

/-- The right of one more user is revoked before and restored behind. -/
theorem orderly_around (user : String) (rest users : List String) (r final : Except (Thrown E) Unit)
    (a : Answer) (log more : CallLog E) (hlog : Orderly rest users r log)
    (hrevoked : revoked more = []) (hrestored : restored more = [user])
    (hmigrate : ∀ e ∈ more, e.call ≠ .migrate) (hconfirmed : final = .ok () → Confirmed user more) :
    Orderly (user :: rest) users (Action.settle r final)
      (⟨.revokeRoleDbAccess user, .ok a⟩ :: (log ++ more)) := by
  have hrevokedCons (l : CallLog E) :
      revoked (⟨.revokeRoleDbAccess user, .ok a⟩ :: l) = user :: revoked l := rfl
  have hrestoredCons (l : CallLog E) :
      restored (⟨.revokeRoleDbAccess user, .ok a⟩ :: l) = restored l := rfl
  constructor
  · simp [hrevokedCons, hrestoredCons, hrevoked, hrestored, hlog.balanced]
  · intro before e after hsplit hcall
    cases before with
    | nil =>
      obtain ⟨rfl, -⟩ := List.cons.inj hsplit
      cases hcall
    | cons e' before =>
      obtain ⟨rfl, hinside⟩ := List.cons.inj hsplit
      have hnot : e ∉ more := fun he => hmigrate e he hcall
      rcases List.append_eq_append_iff.mp hinside with ⟨tail, -, hmore⟩ | ⟨tail, hbefore, hafter⟩
      · exact absurd (hmore ▸ List.mem_append_right _ List.mem_cons_self) hnot
      · cases tail with
        | nil =>
          rw [List.nil_append] at hafter
          exact absurd (hafter ▸ List.mem_cons_self) hnot
        | cons e' tail =>
          obtain ⟨rfl, -⟩ := List.cons.inj hafter
          have hinner := hlog.guarded before e tail hbefore hcall
          refine ⟨fun u hu => ?_, ?_, fun u hu => ?_, fun u hu => ?_⟩
          · rw [hrevokedCons]
            rcases List.mem_cons.mp hu with rfl | hu
            · exact List.mem_cons_self
            · exact List.mem_cons_of_mem _ (hinner.revoked u hu)
          · rw [hrestoredCons]
            exact hinner.notRestored
          · obtain ⟨b, hb, hmem⟩ := hinner.refused u hu
            exact ⟨b, hb, List.mem_cons_of_mem _ hmem⟩
          · obtain ⟨b, hmem⟩ := hinner.disconnected u hu
            exact ⟨b, List.mem_cons_of_mem _ hmem⟩
  · intro hsettled u hu
    obtain ⟨hr, hfinal⟩ : r = .ok () ∧ final = .ok () := by
      cases r <;> cases final <;> simp_all [Action.settle]
    rw [hrevokedCons, revoked_append, hrevoked, List.append_nil] at hu
    rcases List.mem_cons.mp hu with rfl | hu
    · exact confirmed_append_left u [_] _ (confirmed_append_left u log more (hconfirmed hfinal))
    · exact confirmed_append_left u [_] _
        (confirmed_append_right u log more (hlog.confirmed hr u hu))
  · intro x hx
    have hmem : ⟨.migrate, .error x⟩ ∈ log := by
      rcases List.mem_cons.mp hx with hx | hx
      · cases hx
      · rcases List.mem_append.mp hx with hx | hx
        · exact hx
        · exact absurd rfl (hmigrate _ hx)
    rw [hlog.thrown x hmem]
    rfl

theorem callBlocked_spec (users : List String) (writeUser origUser : String) (rest : List String)
    (past : CallLog E) :
    Meets past (callBlocked users (migrateAs writeUser origUser) rest) (Orderly rest users) := by
  induction rest generalizing past with
  | nil => exact callBlocked_nil users writeUser origUser past
  | cons user rest ih =>
    refine Meets.bindCall _ _ (fun a => ?_) fun x => ?_
    · refine Meets.finallyDo (ih _) fun r log hlog => ?_
      refine (restore_spec _ user).mono fun final more hmore => ?_
      obtain ⟨hrevoked, hrestored, hmigrate, hconfirmed⟩ := hmore
      exact orderly_around user rest users r final a log more hlog hrevoked hrestored hmigrate
        hconfirmed
    · -- nothing has been revoked
      exact orderly_of_neutral _ _ _ _ (by simp [Neutral, revoked, restored])

end OpenVoxDB.ConnectionBlocks
