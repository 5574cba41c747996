import OpenVoxDB.CleanUps

/-!
# Cleanups of several threads

A cleanup takes the lock, shows its status, performs its jobs, and gives all back whatever is
thrown. So, however the requests and the periodic cleanups of several threads take turns, there is
never a job of two of them at a time, and the status is the one of the cleanup that is running.
-/

namespace OpenVoxDB.CleanUps

open Effects Protocols Interleaving Threads

variable {Db T E : Type}

/-- Whether the lock is held, the status that is shown, the jobs begun, and what went wrong. -/
structure Stage (Db T E : Type) where
  holding : Bool
  shown : String
  jobs : List (Db × Job T)
  unheld : Bool
  failures : List (Call Db T × Raised E)

namespace Stage

def start : Stage Db T E := ⟨false, "", [], false, []⟩

/-- A job is performed under the lock and the status; the lock is given back without one. -/
def allows (status : String) (s : Stage Db T E) : Call Db T → Bool
  | .tryLock => !s.holding
  | .lock => !s.holding
  | .unlock => s.holding && s.shown == ""
  | .isHeldByCurrentThread => true
  | .resetStatus _ => s.holding
  | .job _ _ => s.holding && s.shown == status
  | .count _ _ => s.holding && s.shown == status

def returned (s : Stage Db T E) (a : Answer) : Call Db T → Stage Db T E
  | .tryLock => { s with holding := a.isTrue }
  | .lock => { s with holding := true }
  | .unlock => { s with holding := false }
  | .isHeldByCurrentThread => { s with unheld := s.unheld || !a.isTrue }
  | .resetStatus status => { s with shown := status }
  | .job db j => { s with jobs := s.jobs ++ [(db, j)] }
  | .count _ _ => s

def threw (s : Stage Db T E) (x : Raised E) (c : Call Db T) : Stage Db T E :=
  let s := { s with failures := (c, x) :: s.failures }
  match c with
  | .unlock => { s with holding := false }
  | .job db j => { s with jobs := s.jobs ++ [(db, j)] }
  | _ => s

end Stage

/-- The protocol of a cleanup with this status. -/
def advance (status : String) (s : Stage Db T E) (e : Entry (Call Db T) Answer (Raised E)) :
    Option (Stage Db T E) :=
  if s.allows status e.call then
    some
      (match e.outcome with
      | .ok a => s.returned a e.call
      | .error x => s.threw x e.call)
  else none

variable {status : String} {s t : Stage Db T E}

theorem advance_ok (c : Call Db T) (a : Answer) (h : s.allows status c = true) :
    advance status s ⟨c, .ok a⟩ = some (s.returned a c) := by simp [advance, h]

theorem advance_error (c : Call Db T) (x : Raised E) (h : s.allows status c = true) :
    advance status s ⟨c, .error x⟩ = some (s.threw x c) := by simp [advance, h]

abbrev Cleans {α : Type} (status : String) (s : Stage Db T E) (x : Step Db T E α)
    (Q : Except (Thrown E) α → Stage Db T E → Prop) : Prop :=
  Keeps (advance status) Stage.start s x Q

/-- What is wanted, in its order. -/
def plan (config : Config T) (incremental : Bool) (reduced : Reduced) : List (Job T) :=
  ((jobs config incremental reduced).filter (·.1)).map (·.2.1)

/-- An exception comes from a call for this database, but from no job, or the lock was not held;
what is none comes from any call. -/
def Reason (db : Db) (s : Stage Db T E) : Thrown E → Prop
  | .raised (.exception e) => (∃ o, (.count db o, .exception e) ∈ s.failures) ∨
      (.isHeldByCurrentThread, .exception e) ∈ s.failures
  | .raised (.fatal e) => ∃ c, (c, .fatal e) ∈ s.failures
  | .lockNotHeld => s.unheld = true

/-- Nothing that went wrong is forgotten. -/
structure Grows (s t : Stage Db T E) : Prop where
  failures : s.failures ⊆ t.failures
  unheld : s.unheld = true → t.unheld = true

theorem Grows.refl (s : Stage Db T E) : Grows s s := ⟨List.Subset.refl _, id⟩

theorem Grows.trans {s t u : Stage Db T E} (h : Grows s t) (h' : Grows t u) : Grows s u :=
  ⟨List.Subset.trans h.failures h'.failures, h'.unheld ∘ h.unheld⟩

theorem reason_of_grows (db : Db) (h : Grows s t) (e : Thrown E) (he : Reason db s e) :
    Reason db t e := by
  cases e with
  | raised x =>
    cases x with
    | exception e =>
      rcases he with ⟨o, ho⟩ | hheld
      · exact .inl ⟨o, h.failures ho⟩
      · exact .inr (h.failures hheld)
    | fatal e =>
      obtain ⟨c, hc⟩ := he
      exact ⟨c, h.failures hc⟩
  | lockNotHeld => exact h.unheld he

/-! ## One database -/

/-- Under the lock and the status, a part of these jobs has been begun, all of them unless
something was thrown. -/
structure Began (db : Db) (js : List (Job T)) (s : Stage Db T E) (r : Except (Thrown E) Unit)
    (t : Stage Db T E) : Prop where
  holding : t.holding = s.holding
  shown : t.shown = s.shown
  grows : Grows s t
  reason : ∀ e, r = .error e → Reason db t e
  jobs : ∃ done, done <+: js ∧ t.jobs = s.jobs ++ done.map (db, ·) ∧ (r = .ok () → done = js)

theorem began_nothing (db : Db) (s : Stage Db T E) : Began db [] s (.ok ()) s :=
  ⟨rfl, rfl, .refl s, fun _ h => (by cases h), [], List.prefix_refl _, by simp, fun _ => rfl⟩

theorem Began.trans {db : Db} {js ks : List (Job T)} {s t u : Stage Db T E}
    {r : Except (Thrown E) Unit} (h : Began db js s (.ok ()) t) (h' : Began db ks t r u) :
    Began db (js ++ ks) s r u := by
  obtain ⟨done, -, hjobs, hall⟩ := h.jobs
  obtain ⟨done', hpart, hjobs', hall'⟩ := h'.jobs
  refine ⟨h'.holding.trans h.holding, h'.shown.trans h.shown, h.grows.trans h'.grows, h'.reason,
    js ++ done', (List.prefix_append_right_inj js).mpr hpart, ?_, fun hr => by rw [hall' hr]⟩
  rw [hjobs', hjobs, hall rfl, List.map_append, List.append_assoc]

theorem Began.stop {db : Db} {js : List (Job T)} {s t : Stage Db T E} {e : Thrown E}
    (h : Began db js s (.error e) t) (ks : List (Job T)) :
    Began db (js ++ ks) s (.error e) t := by
  obtain ⟨done, hpart, hjobs, -⟩ := h.jobs
  exact ⟨h.holding, h.shown, h.grows, h.reason, done, hpart.trans (List.prefix_append js ks),
    hjobs, fun hr => by cases hr⟩

theorem runJob_keeps (db : Db) (j : Job T) (hholding : s.holding = true)
    (hshown : s.shown = status) : Cleans status s (runJob db j) (Began db [j] s) := by
  have hallowed : s.allows status (.job db j) = true := by
    simp [Stage.allows, hholding, hshown]
  refine Keeps.tryCatch (P := fun r t => t.holding = s.holding ∧ t.shown = s.shown ∧ Grows s t ∧
    t.jobs = s.jobs ++ [(db, j)] ∧ ∀ e, r = .error e → ∃ x, e = .raised x ∧
      (.job db j, x) ∈ t.failures) ?_ ?_ ?_
  · refine Keeps.bindCall _ _ (fun a => ⟨_, advance_ok _ a hallowed, Keeps.pure () ?_⟩) fun x =>
      ⟨_, advance_error _ x hallowed, ?_⟩
    · exact ⟨rfl, rfl, ⟨List.Subset.refl _, id⟩, rfl, fun e h => by cases h⟩
    · refine ⟨rfl, rfl, ⟨List.subset_cons_self _ _, id⟩, rfl, fun e h => ?_⟩
      exact ⟨x, (Except.error.inj h).symm, List.mem_cons_self⟩
  · rintro e t ⟨hheld, hstatus, hgrows, hjobs, hraised⟩
    obtain ⟨x, rfl, hmem⟩ := hraised e rfl
    cases x with
    | exception e =>
      exact Keeps.pure () ⟨hheld, hstatus, hgrows, fun e h => (by cases h), [j],
        List.prefix_refl _, hjobs, fun _ => rfl⟩
    | fatal e =>
      refine Keeps.throw _ ⟨hheld, hstatus, hgrows, fun e' h => ?_, [j], List.prefix_refl _, hjobs,
        fun _ => rfl⟩
      rw [← Except.error.inj h]
      exact ⟨_, hmem⟩
  · rintro ⟨⟩ t ⟨hheld, hstatus, hgrows, hjobs, -⟩
    exact ⟨hheld, hstatus, hgrows, fun e h => (by cases h), [j], List.prefix_refl _, hjobs,
      fun _ => rfl⟩

theorem count_keeps (db : Db) (o : CleanOption) (hholding : s.holding = true)
    (hshown : s.shown = status) : Cleans status s (perform (.count db o)) (Began db [] s) := by
  have hallowed : s.allows status (.count db o) = true := by
    simp [Stage.allows, hholding, hshown]
  refine Keeps.bindCall _ _ (fun a => ⟨_, advance_ok _ a hallowed, Keeps.pure ()
    (began_nothing db s)⟩) fun x => ⟨_, advance_error _ x hallowed, rfl, rfl,
      ⟨List.subset_cons_self _ _, id⟩, fun e h => ?_, [], List.prefix_refl _, by simp [Stage.threw],
      fun _ => rfl⟩
  rw [← Except.error.inj h]
  cases x with
  | exception e => exact .inl ⟨o, List.mem_cons_self⟩
  | fatal e => exact ⟨_, List.mem_cons_self⟩

theorem clean_keeps (db : Db) (wanted : Bool) (j : Job T) (counted : List CleanOption)
    (hholding : s.holding = true) (hshown : s.shown = status) :
    Cleans status s (clean db wanted j counted)
      (Began db (if wanted then [j] else []) s) := by
  cases wanted with
  | false => exact Keeps.pure () (began_nothing db s)
  | true =>
    refine Keeps.bind (runJob_keeps db j hholding hshown) (fun _ t h => ?_) fun e t h => h
    refine Keeps.forEach (fun _ u => Began db [] t (.ok ()) u) (began_nothing db t)
      (fun done o u _ hu => ?_) fun u hu => h.trans hu
    refine (count_keeps db o (by rw [hu.holding, h.holding, hholding])
      (by rw [hu.shown, h.shown, hshown])).mono fun r v hv => ⟨fun hr => ?_, fun e hr => ?_⟩
    · rw [hr] at hv
      exact hu.trans hv
    · rw [hr] at hv
      exact h.trans (hu.trans hv)

/-- The jobs that are wanted are begun in their order. -/
theorem cleanAll_keeps (db : Db) (config : Config T) (incremental : Bool) (reduced : Reduced)
    (hholding : s.holding = true) (hshown : s.shown = status) :
    Cleans status s (cleanAll db config incremental reduced)
      (Began db (plan config incremental reduced) s) := by
  let wanted (js : List (Bool × Job T × List CleanOption)) : List (Job T) :=
    (js.filter (·.1)).map (·.2.1)
  have hwanted (js ks : List (Bool × Job T × List CleanOption)) :
      wanted (js ++ ks) = wanted js ++ wanted ks := by
    simp [wanted]
  refine Keeps.forEach (fun done t => Began db (wanted done) s (.ok ()) t) (began_nothing db s)
    (fun done a t hrest h => ?_) fun t h => h
  obtain ⟨rest, hjobs⟩ := hrest
  obtain ⟨w, j, counted⟩ := a
  have hone : wanted [(w, j, counted)] = if w then [j] else [] := by cases w <;> rfl
  refine (clean_keeps db w j counted (by rw [h.holding, hholding])
    (by rw [h.shown, hshown])).mono fun r u hu => ⟨fun hr => ?_, fun e hr => ?_⟩
  · rw [hr] at hu
    rw [hwanted, hone]
    exact h.trans hu
  · rw [hr] at hu
    have hstop := (h.trans hu).stop (wanted rest)
    have hall : plan config incremental reduced =
        wanted done ++ (if w then [j] else []) ++ wanted rest := by
      rw [← hone, ← hwanted, ← hwanted]
      simp only [plan, hjobs, wanted, List.append_assoc, List.singleton_append]
    rw [hall]
    exact hstop

/-- The status of a cleanup for this request. -/
def statusOf (request : List Element) : String :=
  reducedCleanRequestStatus (reduceCleanRequest (orEverything request))

/-- The jobs of a cleanup for this request. -/
def planFor (config : Config T) (request : List Element) (incremental : Bool) : List (Job T) :=
  plan config incremental (reduceCleanRequest (orEverything request))

/-- The status is shown while the jobs are performed, and not any more when they have ended. -/
theorem cleanUp_keeps (db : Db) (config : Config T) (request : List Element) (incremental : Bool)
    (hholding : s.holding = true) (hshown : s.shown = "") :
    Cleans (statusOf request) s (cleanUp db config request incremental)
      (Began db (planFor config request incremental) s) := by
  refine Keeps.bindCall _ _ (fun a => ⟨_, advance_ok _ a rfl, ?_⟩) fun x =>
    ⟨_, advance_error _ x rfl, rfl, rfl, ⟨List.subset_cons_self _ _, id⟩, fun e h => ?_, [],
      List.nil_prefix, by simp [Stage.threw], fun h => by cases h⟩
  · cases ha : a.isTrue with
    | false =>
      rw [if_neg Bool.false_ne_true]
      refine Keeps.throw _ ⟨rfl, rfl, ⟨List.Subset.refl _, fun h => by simp [Stage.returned, h]⟩,
        fun e h => ?_, [], List.nil_prefix, by simp [Stage.returned], fun h => by cases h⟩
      rw [← Except.error.inj h]
      simp [Reason, Stage.returned, ha]
    | true =>
      rw [if_pos rfl]
      have hreset (u : Stage Db T E) (hu : u.holding = true) (st : String) :
          u.allows (statusOf request) (.resetStatus st) = true := hu
      let t := s.returned a .isHeldByCurrentThread
      have hgrows : Grows s t := ⟨List.Subset.refl _, fun h => by simp [t, Stage.returned, h]⟩
      refine Keeps.closing (P := fun r u => ∃ v, v.shown = statusOf request ∧ Grows s v ∧
        v.holding = true ∧ v.jobs = s.jobs ∧
          Began db (planFor config request incremental) v r u) ?_ ?_
      · have hset : Cleans (statusOf request) t (resetStatus (statusOf request)) fun r v =>
            r = .ok () ∧ v = t.returned .done (.resetStatus (statusOf request)) :=
          Keeps.note _ _ (advance_ok _ _ (hreset t hholding _)) ⟨rfl, rfl⟩
        refine Keeps.bind hset ?_ fun e u h => by cases h.1
        rintro - v ⟨-, rfl⟩
        have hall : Cleans (statusOf request) (t.returned .done (.resetStatus (statusOf request)))
            (cleanAll db config incremental (reduceCleanRequest (orEverything request)))
            (Began db (planFor config request incremental)
              (t.returned .done (.resetStatus (statusOf request)))) :=
          cleanAll_keeps db config incremental _ hholding rfl
        exact hall.mono fun r u hu => ⟨t.returned .done (.resetStatus (statusOf request)), rfl,
          ⟨hgrows.failures, hgrows.unheld⟩, hholding, rfl, hu⟩
      · rintro r u ⟨v, -, hgrows', hheld, hjobs, hu⟩
        refine Keeps.note _ _ (advance_ok _ _ (hreset u (by rw [hu.holding, hheld]) "")) ?_
        obtain ⟨done, hpart, hdone, hall⟩ := hu.jobs
        have hunholding : u.holding = s.holding := by rw [hu.holding, hheld, hholding]
        exact ⟨hunholding, hshown.symm, ⟨(hgrows'.trans hu.grows).failures,
          (hgrows'.trans hu.grows).unheld⟩, fun e h => reason_of_grows db
            ⟨List.Subset.refl _, id⟩ e (hu.reason e h), done, hpart, by rw [← hjobs]; exact hdone,
          hall⟩
  · rw [← Except.error.inj h]
    cases x with
    | exception e => exact .inr List.mem_cons_self
    | fatal e => exact ⟨_, List.mem_cons_self⟩

/-! ## All databases -/

/-- What has been begun for a database: all that is asked for, or a part of it for a reason. -/
def Part (t : Stage Db T E) (request : List Element) (d : Db × Config T)
    (part : List (Job T)) : Prop :=
  part = planFor d.2 request true ∨ (part <+: planFor d.2 request true ∧ ∃ e, Reason d.1 t e)

/-- All databases have been cleaned up, each as far as it could be. -/
def Attempted (request : List Element) (dbs : List (Db × Config T)) (s t : Stage Db T E) : Prop :=
  ∃ parts, List.Forall₂ (Part t request) dbs parts ∧
    t.jobs = s.jobs ++ (List.zipWith (fun d part => part.map (d.1, ·)) dbs parts).flatten

theorem part_of_grows {request : List Element} {d : Db × Config T} {part : List (Job T)}
    (hgrows : Grows s t) (h : Part s request d part) : Part t request d part := by
  rcases h with h | ⟨hpart, e, he⟩
  · exact .inl h
  · exact .inr ⟨hpart, e, reason_of_grows d.1 hgrows e he⟩

theorem attempted_more {request : List Element} {dbs : List (Db × Config T)} {s t u : Stage Db T E}
    {r : Except (Thrown E) Unit} (d : Db × Config T) (h : Attempted request dbs s t)
    (hu : Began d.1 (planFor d.2 request true) t r u) :
    Attempted request (dbs ++ [d]) s u := by
  obtain ⟨parts, hparts, hjobs⟩ := h
  obtain ⟨done, hpart, hdone, hall⟩ := hu.jobs
  have hlength := hparts.length_eq
  refine ⟨parts ++ [done], List.rel_append ?_ ?_, ?_⟩
  · exact hparts.imp fun d part h => part_of_grows hu.grows h
  · refine .cons ?_ .nil
    cases r with
    | ok a => exact .inl (hall rfl)
    | error e => exact .inr ⟨hpart, e, hu.reason e rfl⟩
  · rw [hdone, hjobs, List.zipWith_append hlength, List.flatten_append]
    simp [List.append_assoc]

/-- What the lock's holder has done when it gives the lock back. -/
structure Cleaned (request : List Element) (dbs : List (Db × Config T))
    (r : Except (Thrown E) Unit) (t : Stage Db T E) : Prop where
  holding : t.holding = true
  shown : t.shown = ""
  attempted : (∀ e, r = .error e → e.isException = true) → Attempted request dbs .start t
  whole : r = .ok () → t.jobs = dbs.flatMap fun d => (planFor d.2 request true).map (d.1, ·)
  reason : ∀ e, r = .error e → ∃ d ∈ dbs, Reason d.1 t e

/-- An exception for one database does not keep the others from being cleaned up. -/
theorem attemptAll_keeps (request : List Element) (dbs : List (Db × Config T))
    (hholding : s.holding = true) (hshown : s.shown = "") (hjobs : s.jobs = []) :
    Cleans (statusOf request) s
      (Action.attemptAll Thrown.isException (fun (db, config) => cleanUp db config request true) dbs
        none) (Cleaned request dbs) := by
  refine Keeps.attemptAll (fun done first t => t.holding = true ∧ t.shown = "" ∧
    Attempted request done .start t ∧
      (first = none → t.jobs = done.flatMap fun d => (planFor d.2 request true).map (d.1, ·)) ∧
        ∀ e, first = some e → e.isException = true ∧ ∃ d ∈ dbs, Reason d.1 t e)
    ⟨hholding, hshown, ⟨[], .nil, by rw [hjobs]; rfl⟩, fun _ => hjobs, fun e h => by cases h⟩ ?_ ?_ ?_
  · rintro done ⟨db, config⟩ first t ⟨rest, hdbs⟩ ⟨hheld, hstatus, hattempted, hwhole, hfirst⟩
    have hmem : (db, config) ∈ dbs := by simp [hdbs]
    refine (cleanUp_keeps db config request true hheld hstatus).mono fun r u hu => ?_
    have hmore := attempted_more (db, config) hattempted hu
    have hholds : u.holding = true := hu.holding.trans hheld
    have hshows : u.shown = "" := hu.shown.trans hstatus
    refine ⟨fun hr => ⟨hholds, hshows, hmore, fun hnone => ?_, fun e he => ?_⟩, fun e hr =>
      ⟨fun he => ⟨hholds, hshows, hmore, fun hnone => ?_, fun e' he' => ?_⟩, fun he =>
        ⟨hholds, hshows, fun h => ?_, fun h => (by cases h), fun e' h => ?_⟩⟩⟩
    · obtain ⟨part, -, hjobs', hall⟩ := hu.jobs
      rw [hjobs', hwhole hnone, hall hr, List.flatMap_append]
      simp
    · obtain ⟨hexception, d, hd, hreason⟩ := hfirst e he
      exact ⟨hexception, d, hd, reason_of_grows d.1 hu.grows e hreason⟩
    · cases first <;> cases hnone
    · cases first with
      | none =>
        rw [Option.none_or] at he'
        rw [← Option.some.inj he']
        exact ⟨he, _, hmem, hu.reason e hr⟩
      | some first =>
        rw [Option.some_or] at he'
        obtain ⟨hexception, d, hd, hreason⟩ := hfirst e' he'
        exact ⟨hexception, d, hd, reason_of_grows d.1 hu.grows e' hreason⟩
    · have hnot := h e rfl
      rw [he] at hnot
      cases hnot
    · rw [← Except.error.inj h]
      exact ⟨_, hmem, hu.reason e hr⟩
  · rintro t ⟨hheld, hstatus, hattempted, hwhole, -⟩
    exact ⟨hheld, hstatus, fun _ => hattempted, fun _ => hwhole rfl, fun e h => by cases h⟩
  · rintro e t ⟨hheld, hstatus, hattempted, -, hfirst⟩
    refine ⟨hheld, hstatus, fun _ => hattempted, fun h => (by cases h), fun e' h => ?_⟩
    rw [← Except.error.inj h]
    exact (hfirst e rfl).2

/-- What a request for a cleanup has come to. -/
inductive Ended (request : List Element) (dbs : List (Db × Config T)) (r : Except (Thrown E) Bool)
    (t : Stage Db T E) : Prop where
  | busy (result : r = .ok false) (jobs : t.jobs = [])
  | noLock (x : Raised E) (result : r = .error (.raised x)) (jobs : t.jobs = [])
  | cleaned (result : r = .ok true)
      (jobs : t.jobs = dbs.flatMap fun d => (planFor d.2 request true).map (d.1, ·))
  | failed (e : Thrown E) (result : r = .error e)
      (jobs : e.isException = true → Attempted request dbs .start t)
      (reason : ∃ d ∈ dbs, Reason d.1 t e)
  | stillLocked (x : Raised E) (result : r = .error (.raised x))
      (unlock : (.unlock, x) ∈ t.failures)

theorem cleanPuppetdb_keeps (dbs : List (Db × Config T)) (request : List Element) :
    Cleans (statusOf request) (Stage.start : Stage Db T E) (cleanPuppetdb dbs request) fun r t =>
      t.holding = false ∧ t.shown = "" ∧ Ended request dbs r t := by
  refine Keeps.bindCall _ _ (fun a => ⟨_, advance_ok .tryLock a rfl, ?_⟩) fun x =>
    ⟨_, advance_error .tryLock x rfl, rfl, rfl, .noLock x rfl rfl⟩
  cases ha : a.isTrue with
  | false =>
    rw [if_neg Bool.false_ne_true]
    exact Keeps.pure false ⟨ha, rfl, .busy rfl rfl⟩
  | true =>
    rw [if_pos rfl]
    refine Keeps.closing (P := fun r t => ∃ r', Cleaned request dbs r' t ∧
      ((r' = .ok () ∧ r = .ok true) ∨ ∃ e, r' = .error e ∧ r = .error e)) ?_ ?_
    · refine Keeps.bind (attemptAll_keeps request dbs ha rfl rfl) (fun _ t h => ?_) fun e t h =>
        ⟨_, h, .inr ⟨e, rfl, rfl⟩⟩
      exact Keeps.pure true ⟨_, h, .inl ⟨rfl, rfl⟩⟩
    · rintro r t ⟨r', h, hr⟩
      have hallowed : t.allows (statusOf request) .unlock = true := by
        simp [Stage.allows, h.holding, h.shown]
      refine Keeps.call _ _ fun o => ?_
      cases o with
      | ok b =>
        refine ⟨_, advance_ok _ b hallowed, rfl, h.shown, ?_⟩
        have hgrows : Grows t (t.returned b .unlock) := ⟨List.Subset.refl _, id⟩
        rcases hr with ⟨rfl, rfl⟩ | ⟨e, rfl, rfl⟩
        · exact .cleaned rfl (h.whole rfl)
        · refine .failed e rfl (fun he => ?_) ?_
          · exact h.attempted fun e' h' => Except.error.inj h' ▸ he
          · obtain ⟨d, hd, hreason⟩ := h.reason e rfl
            exact ⟨d, hd, reason_of_grows d.1 hgrows e hreason⟩
      | error x =>
        exact ⟨_, advance_error _ x hallowed, rfl, h.shown, .stillLocked x rfl List.mem_cons_self⟩

theorem collectGarbage_keeps (db : Db) (config : Config T) (request : List Element)
    (incremental : Bool) :
    Cleans (statusOf request) (Stage.start : Stage Db T E)
      (collectGarbage db config request incremental) fun _ t =>
        t.holding = false ∧ t.shown = "" := by
  refine Keeps.bindCall _ _ (fun a => ⟨_, advance_ok .lock a rfl, ?_⟩) fun x =>
    ⟨_, advance_error .lock x rfl, rfl, rfl⟩
  refine Keeps.closing (P := fun _ t => t.holding = true ∧ t.shown = "") ?_ ?_
  · refine Keeps.tryCatch (cleanUp_keeps db config request incremental rfl rfl)
      (fun e t h => ?_) fun _ t h => ⟨h.holding, h.shown⟩
    cases he : e.isException with
    | true => exact Keeps.pure () ⟨h.holding, h.shown⟩
    | false => exact Keeps.throw e ⟨h.holding, h.shown⟩
  · rintro r t ⟨hheld, hstatus⟩
    have hallowed : t.allows (statusOf request) .unlock = true := by
      simp [Stage.allows, hheld, hstatus]
    refine Keeps.call _ _ fun o => ?_
    cases o with
    | ok b => exact ⟨_, advance_ok _ b hallowed, rfl, hstatus⟩
    | error x => exact ⟨_, advance_error _ x hallowed, rfl, hstatus⟩

/-! ## Threads -/

/-- What a thread is about. -/
inductive Task (Db T : Type) where
  | onRequest (dbs : List (Db × Config T)) (request : List Element)
  | periodic (db : Db) (config : Config T) (request : List Element) (incremental : Bool)

/-- The status that a task shows. -/
def Task.shows : Task Db T → String
  | onRequest _ request => statusOf request
  | periodic _ _ request _ => statusOf request

def Task.run : Task Db T → Step Db T E Unit
  | onRequest dbs request => do
    let _ ← cleanPuppetdb dbs request
    pure ()
  | periodic db config request incremental => collectGarbage db config request incremental

theorem run_keeps (task : Task Db T) :
    Cleans task.shows (Stage.start : Stage Db T E) task.run fun _ t =>
      t.holding = false ∧ t.shown = "" := by
  cases task with
  | onRequest dbs request =>
    exact Keeps.bind (cleanPuppetdb_keeps dbs request) (fun _ t h => Keeps.pure () ⟨h.1, h.2.1⟩)
      fun e t h => ⟨h.1, h.2.1⟩
  | periodic db config request incremental =>
    exact collectGarbage_keeps db config request incremental

variable {ι : Type} [DecidableEq ι]

/-- The lock, which one thread can hold, and the status that is shown. -/
structure Shown (ι : Type) where
  owner : Option ι
  status : String
  deriving DecidableEq, Repr

/-- The lock is given while nobody holds it, its owner can give it back, and it tells its owner
that it is held. -/
def answer (s : Shown ι) (ie : ι × Entry (Call Db T) Answer (Raised E)) : Option (Shown ι) :=
  match ie.2.call, ie.2.outcome with
  | .tryLock, .ok a =>
    if a.isTrue then
      if s.owner = none then some { s with owner := some ie.1 } else none
    else some s
  | .lock, .ok _ => if s.owner = none then some { s with owner := some ie.1 } else none
  | .unlock, .ok _ => if s.owner = some ie.1 then some { s with owner := none } else none
  | .unlock, .error _ => if s.owner = some ie.1 then none else some s
  | .isHeldByCurrentThread, .ok a =>
    if a.isTrue = decide (s.owner = some ie.1) then some s else none
  | .resetStatus status, .ok _ => some { s with status := status }
  | _, _ => some s

/-- The lock's owner is the thread that holds it by its own account, and shows its status. -/
structure Inv (stages : ι → Stage Db T E) (s : Shown ι) : Prop where
  owner : ∀ i, (stages i).holding = true ↔ s.owner = some i
  idle : ∀ i, (stages i).holding = false → (stages i).shown = ""
  status : ∀ i, s.owner = some i → s.status = (stages i).shown
  free : s.owner = none → s.status = ""

omit [DecidableEq ι] in
theorem inv_start : Inv (fun _ : ι => (Stage.start : Stage Db T E)) ⟨none, ""⟩ :=
  ⟨fun _ => by simp [Stage.start], fun _ _ => rfl, fun _ h => (by cases h), fun _ => rfl⟩

/-- A step that leaves lock and status as they are. -/
theorem inv_update {stages : ι → Stage Db T E} {s : Shown ι} (i : ι) (t : Stage Db T E)
    (h : Inv stages s) (hholding : t.holding = (stages i).holding)
    (hshown : t.shown = (stages i).shown) : Inv (Function.update stages i t) s := by
  have hsame (j : ι) : (Function.update stages i t j).holding = (stages j).holding ∧
      (Function.update stages i t j).shown = (stages j).shown := by
    by_cases hj : j = i
    · rw [hj, Function.update_self]
      exact ⟨hholding, hshown⟩
    · rw [Function.update_of_ne hj]
      exact ⟨rfl, rfl⟩
  refine ⟨fun j => ?_, fun j hj => ?_, fun j hj => ?_, h.free⟩
  · rw [(hsame j).1]
    exact h.owner j
  · rw [(hsame j).1] at hj
    rw [(hsame j).2]
    exact h.idle j hj
  · rw [(hsame j).2]
    exact h.status j hj

/-- The lock is taken. -/
theorem inv_take {stages : ι → Stage Db T E} {s : Shown ι} (i : ι) (t : Stage Db T E)
    (h : Inv stages s) (hfree : s.owner = none) (hholding : t.holding = true)
    (hshown : t.shown = (stages i).shown) :
    Inv (Function.update stages i t) { s with owner := some i } := by
  have hnone (j : ι) : (stages j).holding = false := by
    have hiff := h.owner j
    rw [hfree] at hiff
    simpa using hiff
  refine ⟨fun j => ?_, fun j hj => ?_, fun j hj => ?_, fun hj => by cases hj⟩
  · by_cases hj : j = i
    · rw [hj, Function.update_self, hholding]
      simp
    · rw [Function.update_of_ne hj, hnone j]
      simp [Ne.symm hj]
  · by_cases hji : j = i
    · rw [hji, Function.update_self, hholding] at hj
      cases hj
    · rw [Function.update_of_ne hji]
      exact h.idle j (hnone j)
  · obtain rfl : i = j := Option.some.inj hj
    rw [Function.update_self, hshown, h.idle i (hnone i)]
    exact h.free hfree

/-- The owner gives the lock back. -/
theorem inv_release {stages : ι → Stage Db T E} {s : Shown ι} (i : ι) (t : Stage Db T E)
    (h : Inv stages s) (howner : s.owner = some i) (hquiet : (stages i).shown = "")
    (hholding : t.holding = false) (hshown : t.shown = "") :
    Inv (Function.update stages i t) { s with owner := none } := by
  refine ⟨fun j => ?_, fun j hj => ?_, fun j hj => (by cases hj), fun _ => ?_⟩
  · by_cases hj : j = i
    · rw [hj, Function.update_self, hholding]
      simp
    · have hiff := h.owner j
      rw [howner] at hiff
      rw [Function.update_of_ne hj]
      simpa [Ne.symm hj] using hiff
  · by_cases hji : j = i
    · rw [hji, Function.update_self, hshown]
    · rw [Function.update_of_ne hji] at hj ⊢
      exact h.idle j hj
  · rw [← hquiet]
    exact h.status i howner

/-- The owner changes the status. -/
theorem inv_status {stages : ι → Stage Db T E} {s : Shown ι} (i : ι) (t : Stage Db T E)
    (h : Inv stages s) (howner : s.owner = some i) (hholding : t.holding = true) :
    Inv (Function.update stages i t) { s with status := t.shown } := by
  refine ⟨fun j => ?_, fun j hj => ?_, fun j hj => ?_, fun hnone => ?_⟩
  · by_cases hj : j = i
    · rw [hj, Function.update_self, hholding, howner]
      simp
    · rw [Function.update_of_ne hj]
      exact h.owner j
  · by_cases hji : j = i
    · rw [hji, Function.update_self, hholding] at hj
      cases hj
    · rw [Function.update_of_ne hji] at hj ⊢
      exact h.idle j hj
  · obtain rfl : i = j := Option.some.inj (howner.symm.trans hj)
    rw [Function.update_self]
  · rw [howner] at hnone
    cases hnone

theorem inv_step (status : ι → String) (stages stages' : ι → Stage Db T E) (s s' : Shown ι)
    (ie : ι × Entry (Call Db T) Answer (Raised E)) (h : Inv stages s)
    (hstep : step (fun i => advance (status i)) answer (stages, s) ie = some (stages', s')) :
    Inv stages' s' := by
  obtain ⟨i, c, o⟩ := ie
  obtain ⟨t, g, hadvance, hanswer, heq⟩ := (step_eq_some ..).mp hstep
  obtain ⟨rfl, rfl⟩ := Prod.mk.inj heq
  rw [advance] at hadvance
  split at hadvance
  case isFalse => cases hadvance
  case isTrue hallowed =>
    have ht := Option.some.inj hadvance
    have howner := (h.owner i).mp
    cases c with
    | tryLock =>
      cases o with
      | ok a =>
        cases ha : a.isTrue with
        | false =>
          have hg : s = s' := by simpa [answer, ha] using hanswer
          have hnot : (stages i).holding = false := by simpa [Stage.allows] using hallowed
          exact hg ▸ inv_update i t h (by rw [← ht, hnot]; exact ha) (by rw [← ht]; rfl)
        | true =>
          by_cases hfree : s.owner = none
          · have hg : { s with owner := some i } = s' := by
              simpa [answer, ha, hfree] using hanswer
            exact hg ▸ inv_take i t h hfree (by rw [← ht]; exact ha) (by rw [← ht]; rfl)
          · simp [answer, ha, hfree] at hanswer
      | error x =>
        exact Option.some.inj hanswer ▸ inv_update i t h (by rw [← ht]; rfl) (by rw [← ht]; rfl)
    | lock =>
      cases o with
      | ok a =>
        by_cases hfree : s.owner = none
        · have hg : { s with owner := some i } = s' := by simpa [answer, hfree] using hanswer
          exact hg ▸ inv_take i t h hfree (by rw [← ht]; rfl) (by rw [← ht]; rfl)
        · simp [answer, hfree] at hanswer
      | error x =>
        exact Option.some.inj hanswer ▸ inv_update i t h (by rw [← ht]; rfl) (by rw [← ht]; rfl)
    | unlock =>
      have hheld : (stages i).holding = true ∧ (stages i).shown = "" := by
        simpa [Stage.allows] using hallowed
      have hown := howner hheld.1
      cases o with
      | ok a =>
        have hg : { s with owner := none } = s' := by simpa [answer, hown] using hanswer
        exact hg ▸ inv_release i t h hown hheld.2 (by rw [← ht]; rfl) (by rw [← ht]; exact hheld.2)
      | error x => simp [answer, hown] at hanswer
    | isHeldByCurrentThread =>
      have hg : s = s' := by
        cases o with
        | ok a =>
          simp only [answer] at hanswer
          split at hanswer
          · exact Option.some.inj hanswer
          · cases hanswer
        | error x => exact Option.some.inj hanswer
      cases o <;> exact hg ▸ inv_update i t h (by rw [← ht]; rfl) (by rw [← ht]; rfl)
    | resetStatus st =>
      have hheld : (stages i).holding = true := hallowed
      cases o with
      | ok a =>
        have hg : { s with status := t.shown } = s' := by
          rw [← ht]
          exact Option.some.inj hanswer
        exact hg ▸ inv_status i t h (howner hheld) (by rw [← ht]; exact hheld)
      | error x =>
        exact Option.some.inj hanswer ▸ inv_update i t h (by rw [← ht]; rfl) (by rw [← ht]; rfl)
    | job db j =>
      have hg : s = s' := by cases o <;> exact Option.some.inj hanswer
      cases o <;> exact hg ▸ inv_update i t h (by rw [← ht]; rfl) (by rw [← ht]; rfl)
    | count db o' =>
      have hg : s = s' := by cases o <;> exact Option.some.inj hanswer
      cases o <;> exact hg ▸ inv_update i t h (by rw [← ht]; rfl) (by rw [← ht]; rfl)

/-- However the tasks of several threads take turns, and whatever is thrown, a job is performed by
the thread that holds the lock, and while its status is shown; and no status is shown while nobody
holds the lock. -/
theorem cleanUps_exclude (task : ι → Task Db T) (es : History ι (Call Db T) Answer (Raised E))
    (last : Shown ι) (hown : ∀ i, ∃ env, own i es <+: ((task i).run.run env []).2)
    (hanswer : es.foldlM answer ⟨none, ""⟩ = some last) :
    (∀ before i db j o after, es = before ++ (i, ⟨.job db j, o⟩) :: after →
      before.foldlM answer ⟨none, ""⟩ = some ⟨some i, (task i).shows⟩) ∧
        (last.owner = none → last.status = "") := by
  let advances (i : ι) : Protocol (Call Db T) Answer (Raised E) (Stage Db T E) :=
    advance (task i).shows
  have hfollow (i : ι) : (follow (advances i) Stage.start (own i es)).isSome = true := by
    obtain ⟨env, hpart⟩ := hown i
    obtain ⟨t, ht, -⟩ := (run_keeps (task i)).fromStart env
    exact follow_isSome_of_prefix _ ht hpart
  obtain ⟨⟨stages, hlast⟩, hcalls⟩ := invariant_of_own advances answer Inv
    (fun stages g ie stages' g' h hstep =>
      inv_step (fun i => (task i).shows) stages stages' g g' ie h hstep)
    es _ _ _ inv_start hfollow hanswer
  refine ⟨fun before i db j o after hes => ?_, hlast.free⟩
  obtain ⟨stages', s, t, -, hi, hbefore, hadvance, -⟩ := hcalls before i _ after hes
  -- the job is allowed, so the thread holds the lock and shows its status
  have hallowed : (stages' i).holding = true ∧ (stages' i).shown = (task i).shows := by
    simp only [advances, advance] at hadvance
    split at hadvance
    · rename_i h
      simpa [Stage.allows] using h
    · cases hadvance
  have howner := (hi.owner i).mp hallowed.1
  rw [hbefore, ← hallowed.2, ← hi.status i howner, ← howner]

/-- Of two requests the second one comes while the first one cleans up. -/
theorem cleanUps_exclude_busy :
    let request : List Element := [.plain .gcPackages]
    let task (_ : Bool) : Task Unit Unit := .onRequest [((), ⟨(), (), (), ()⟩)] request
    let es : History Bool (Call Unit Unit) Answer (Raised Unit) :=
      [(false, ⟨.tryLock, .ok (.bool true)⟩), (false, ⟨.isHeldByCurrentThread, .ok (.bool true)⟩),
        (false, ⟨.resetStatus (statusOf request), .ok .done⟩),
        (true, ⟨.tryLock, .ok (.bool false)⟩), (false, ⟨.job () .gcPackages, .ok (.bool true)⟩)]
    (∀ before i db j o after, es = before ++ (i, ⟨.job db j, o⟩) :: after →
      before.foldlM answer ⟨none, ""⟩ = some ⟨some i, (task i).shows⟩) ∧
        (some false = none → statusOf request = "") := by
  intro request task es
  exact cleanUps_exclude task es ⟨some false, statusOf request⟩
    (fun i => ⟨fun _ _ => .ok (.bool (!i)), by
      cases i with
      | false => exact ⟨[⟨.count () .gcPackages, .ok (.bool true)⟩,
          ⟨.resetStatus "", .ok .done⟩, ⟨.unlock, .ok (.bool true)⟩], rfl⟩
      | true => exact ⟨[], rfl⟩⟩) rfl

end OpenVoxDB.CleanUps
