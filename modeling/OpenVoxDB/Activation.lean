import OpenVoxDB.Confluence
import OpenVoxDB.Reports

/-!
# Activation under commands in any order

The commands for a node with their effect on its activity: a replace command, a
report and a configured expiration reactivate the node in the transaction that
stores their data; a deactivation is refused when the catalog, the factset or
the latest report of the node is newer.
-/

namespace OpenVoxDB.Activation

open Certnames

inductive Command where
  | replace (command : Confluence.Command)
  | storeReport (submission : Reports.Submission)
  | configureExpiration (certname : String) (expireFacts : Option Bool) (time : Instant)
  | deactivateNode (certname : String) (time : Instant)

namespace Command

def certname : Command → String
  | replace c => c.certname
  | storeReport sub => sub.report.certname
  | configureExpiration certname _ _ => certname
  | deactivateNode certname _ => certname

def producerTimestamp : Command → Instant
  | replace c => c.producerTimestamp
  | storeReport sub => sub.report.producerTimestamp
  | configureExpiration _ _ time => time
  | deactivateNode _ time => time

def isDeactivation : Command → Bool
  | deactivateNode _ _ => true
  | _ => false

/-- Commands whose time `have-newer-record-for-certname?` finds once they are stored. -/
def leavesRecord : Command → Bool
  | replace (.replaceCatalog _ _) => true
  | replace (.replaceFacts _) => true
  | storeReport sub => sub.report.type ≠ some .plan
  | _ => false

end Command

structure Backends (C F H P I R : Type) extends Confluence.Backends C F H P I where
  reports : Reports.Backend R

/-- The stores, `certnames_status` among the tables of the reports, and
`certname_fact_expiration`. -/
structure State (C F P I R : Type) where
  stores : Confluence.Stores C F P I
  reports : Reports.ReportDb R
  factExpiration : Dict String (Bool × Instant)

variable {C F H P I R : Type}

def State.empty : State C F P I R := ⟨Confluence.Stores.empty, Reports.ReportDb.empty, ∅⟩

def State.statuses (s : State C F P I R) : Statuses := s.reports.statuses

def State.withStatuses (s : State C F P I R) (statuses : Statuses) : State C F P I R :=
  { s with reports := { s.reports with statuses := statuses } }

@[simp] theorem withStatuses_statuses (s : State C F P I R) (statuses : Statuses) :
    (s.withStatuses statuses).statuses = statuses := rfl
@[simp] theorem withStatuses_stores (s : State C F P I R) (statuses : Statuses) :
    (s.withStatuses statuses).stores = s.stores := rfl

/-- The stored times that `have-newer-record-for-certname?` looks at. -/
def catalogTimes (s : State C F P I R) (certname : String) : List Instant :=
  ((s.stores.catalogs.nodes certname).metadata.map (·.producerTimestamp)).toList

def factsetTimes (s : State C F P I R) (certname : String) : List Instant :=
  (s.stores.facts.factsets[certname]?.map (·.producerTimestamp)).toList

def reportTimes (s : State C F P I R) (certname : String) : List Instant :=
  (Reports.latestRows s.reports certname).map (·.producerTimestamp)

def records (s : State C F P I R) (certname : String) : List Instant :=
  catalogTimes s certname ++ factsetTimes s certname ++ reportTimes s certname

/-- `set-certname-facts-expiration` -/
def setCertnameFactsExpiration (table : Dict String (Bool × Instant)) (certname : String)
    (expire : Bool) (updated : Instant) : Dict String (Bool × Instant) :=
  match table[certname]? with
  | some (_, old) =>
    if old < Instant.toTimestamptz updated then
      table.insert certname (expire, Instant.toTimestamptz updated)
    else table
  | none => table.insert certname (expire, Instant.toTimestamptz updated)

section Execution

variable [DecidableEq C] [DecidableEq F] [DecidableEq P] [DecidableEq I] [DecidableEq R]

/-- Whether the call that stores a replace command's data succeeds. -/
def replaceSucceeds (B : Backends C F H P I R) (s : State C F P I R) : Confluence.Command → Bool
  | .replaceCatalog c received =>
    (CatalogStorage.replaceCatalog B.catalogs s.stores.catalogs c received).toBool
  | .replaceFacts _ => true
  | .replaceCatalogInputs i =>
    i.inputs ≠ [] && (CatalogInputs.replaceCatalogInputs B.inputs s.stores.inputs i).toBool

/-- One command, each in a transaction of its own that is rolled back when it fails. -/
def execute (B : Backends C F H P I R) (s : State C F P I R) : Command → State C F P I R
  | .replace c =>
    if replaceSucceeds B s c then
      { s.withStatuses (maybeActivateNode s.statuses c.certname c.producerTimestamp).1 with
        stores := Confluence.execute B.toBackends s.stores c }
    else s
  | .storeReport sub => { s with reports := Reports.store B.reports s.reports sub }
  | .configureExpiration certname expireFacts time =>
    match expireFacts with
    | none => s
    | some expire =>
      { s.withStatuses (maybeActivateNode s.statuses certname time).1 with
        factExpiration := setCertnameFactsExpiration s.factExpiration certname expire time }
  | .deactivateNode certname time =>
    s.withStatuses (deactivateNode (ensureCertname s.statuses certname) (records s certname)
      certname time).1

/-- A command of a kind that leaves a record is stored, or found stale. -/
def StoresRecord (B : Backends C F H P I R) (s : State C F P I R) : Command → Prop
  | .replace (.replaceCatalog c received) =>
    replaceSucceeds B s (.replaceCatalog c received) = true
  | .replace (.replaceFacts _) => True
  | .storeReport sub => sub.report.type ≠ some .plan ∧
      ∃ hash, (Reports.addReport B.reports s.reports sub).2 = .ok (.incorporated hash)
  | _ => False

end Execution

/-- No command is newer. -/
def Newest (commands : List Command) (c : Command) : Prop :=
  c ∈ commands ∧ ∀ other ∈ commands, other.producerTimestamp ≤ c.producerTimestamp

/-- The node is deactivated exactly when the newest command is a deactivation, and then since
that one's time. -/
def EndsAsNewest (s : State C F P I R) (commands : List Command) (certname : String) : Prop :=
  ∀ newest, Newest commands newest → deactivatedAt s.statuses certname =
    if newest.isDeactivation then some (Instant.toTimestamptz newest.producerTimestamp) else none

/-- The times of a deactivation and of another command differ, and stay apart as stored. -/
def TimesApart (commands : List Command) : Prop :=
  ∀ d ∈ commands, d.isDeactivation = true → ∀ c ∈ commands, c.isDeactivation = false →
    (c.producerTimestamp < d.producerTimestamp ∧
      Instant.toTimestamptz c.producerTimestamp ≤ d.producerTimestamp) ∨
    Instant.toTimestamptz d.producerTimestamp < Instant.toTimestamptz c.producerTimestamp

/-- What storing at a time does to the stored times of one kind of record: a later one stays,
any other is replaced. -/
def RecordStep (before after : List Instant) (time : Instant) : Prop :=
  (after = before ∧ ∃ old ∈ before, Instant.toTimestamptz time ≤ old) ∨
    after = [Instant.toTimestamptz time] ∧ ∀ old ∈ before, old ≤ Instant.toTimestamptz time

/-- Records after a command are those before it or its own, and none is lost but to a later
one. -/
structure Advances (before after : List Instant) (c : Command) : Prop where
  origin : ∀ r ∈ after, r ∈ before ∨
    c.leavesRecord = true ∧ r = Instant.toTimestamptz c.producerTimestamp
  kept : ∀ r ∈ before, ∃ r' ∈ after, r ≤ r'

theorem advances_of_eq (before after : List Instant) (c : Command) (h : after = before) :
    Advances before after c := by
  rw [h]
  exact ⟨fun _ hr => .inl hr, fun r hr => ⟨r, hr, le_refl r⟩⟩

theorem advances_of_recordStep (before after : List Instant) (c : Command)
    (hc : c.leavesRecord = true) (h : RecordStep before after c.producerTimestamp) :
    Advances before after c := by
  obtain ⟨rfl, -⟩ | ⟨rfl, hmax⟩ := h
  · exact advances_of_eq after after c rfl
  · exact ⟨fun r hr => .inr ⟨hc, List.mem_singleton.mp hr⟩,
      fun r hr => ⟨_, List.mem_singleton.mpr rfl, hmax r hr⟩⟩

theorem advances_append (before after before' after' : List Instant) (c : Command)
    (h : Advances before after c) (h' : Advances before' after' c) :
    Advances (before ++ before') (after ++ after') c := by
  refine ⟨fun r hr => ?_, fun r hr => ?_⟩
  · rcases List.mem_append.mp hr with hr | hr
    · exact (h.origin r hr).imp_left (List.mem_append_left _)
    · exact (h'.origin r hr).imp_left (List.mem_append_right _)
  · rcases List.mem_append.mp hr with hr | hr
    · obtain ⟨r', hr', hle⟩ := h.kept r hr
      exact ⟨r', List.mem_append_left _ hr', hle⟩
    · obtain ⟨r', hr', hle⟩ := h'.kept r hr
      exact ⟨r', List.mem_append_right _ hr', hle⟩

/-- After the step there is a record no earlier than the time stored. -/
theorem exists_of_recordStep (before after : List Instant) (time : Instant)
    (h : RecordStep before after time) : ∃ r ∈ after, Instant.toTimestamptz time ≤ r := by
  obtain ⟨rfl, old, hold, hle⟩ | ⟨rfl, -⟩ := h
  · exact ⟨old, hold, hle⟩
  · exact ⟨_, List.mem_singleton.mpr rfl, le_rfl⟩

/-- A comparison of a stored time with an incoming one, as the stores make it. -/
theorem recordStep_of_compare (old : Option Instant) (time : Instant)
    (hstored : ∀ t, old = some t → ∃ d, t = Instant.toTimestamptz d) :
    RecordStep old.toList
      (if old.any (time < ·) then old.toList else [Instant.toTimestamptz time]) time := by
  cases old with
  | none => exact .inr ⟨rfl, nofun⟩
  | some t =>
    obtain ⟨d, rfl⟩ := hstored t rfl
    by_cases hlt : time < Instant.toTimestamptz d
    · refine .inl ⟨if_pos (by simpa using hlt), _, List.mem_singleton.mpr rfl, ?_⟩
      exact Instant.toTimestamptz_le_of_le (Int.le_of_lt hlt)
    · refine .inr ⟨if_neg (by simpa using hlt), fun old hold => ?_⟩
      rw [List.mem_singleton.mp hold]
      exact Instant.le_toTimestamptz_of_le (Int.not_lt.mp hlt)

section Steps

variable [DecidableEq C] [DecidableEq F] [DecidableEq P] [DecidableEq I] [DecidableEq R]

theorem catalogTimes_replaceCatalog (B : Backends C F H P I R) (s : State C F P I R)
    (c : Catalogs.Catalog) (received : Instant)
    (h : replaceSucceeds B s (.replaceCatalog c received) = true) :
    catalogTimes (execute B s (.replace (.replaceCatalog c received))) c.certname =
      let old := (s.stores.catalogs.nodes c.certname).metadata.map (·.producerTimestamp)
      if old.any (c.producerTimestamp < ·) then old.toList
      else [Instant.toTimestamptz c.producerTimestamp] := by
  simp only [execute, if_pos h, catalogTimes, Confluence.execute, CatalogStorage.store]
  simp only [replaceSucceeds] at h
  have hstale : CatalogStorage.Stale s.stores.catalogs c ↔
      ((s.stores.catalogs.nodes c.certname).metadata.map (·.producerTimestamp)).any
        (c.producerTimestamp < ·) = true := by
    cases hm : (s.stores.catalogs.nodes c.certname).metadata with
    | none => simp [CatalogStorage.Stale, hm]
    | some row => simp [CatalogStorage.Stale, hm]
  obtain ⟨hs, hrep⟩ | ⟨-, e, -, hrep⟩ | ⟨hs, node, s', hinc, hnodes, hrep⟩ :=
    CatalogStorage.replaceCatalog_cases B.catalogs s.stores.catalogs c received
  · rw [hrep, if_pos (hstale.mp hs)]
  · rw [hrep] at h
    cases h
  · rw [hrep, if_neg fun h => hs (hstale.mpr h)]
    simp only
    rw [hnodes, Function.update_self]
    obtain ⟨-, hmeta, -⟩ := (CatalogStorage.incorporate_cases B.catalogs _ c received node).mp hinc
    rw [hmeta]
    rfl

theorem factsetTimes_replaceFacts (B : Backends C F H P I R) (s : State C F P I R)
    (d : FactStorage.FactData) :
    factsetTimes (execute B s (.replace (.replaceFacts d))) d.certname =
      let old := s.stores.facts.factsets[d.certname]?.map (·.producerTimestamp)
      if old.any (d.producerTimestamp < ·) then old.toList
      else [Instant.toTimestamptz d.producerTimestamp] := by
  simp only [execute, replaceSucceeds, if_true, factsetTimes, Confluence.execute,
    FactStorage.store]
  obtain ⟨hnone, he⟩ | ⟨row, hrow, hlt, he⟩ | ⟨row, hrow, hlt, he⟩ :=
    FactStorage.replaceFacts_cases B.facts s.stores.facts d
  · rw [he]
    simp [hnone, FactStorage.addFacts]
  · rw [he]
    simp [hrow, hlt]
  · rw [he]
    simp [hrow, hlt, FactStorage.updateFacts]

/-- What a catalog that succeeds does to the records of its node. -/
theorem records_replaceCatalog (B : Backends C F H P I R) (s : State C F P I R)
    (cat : Catalogs.Catalog) (received : Instant)
    (hstored : ∀ r ∈ records s cat.certname, ∃ d, r = Instant.toTimestamptz d)
    (hok : replaceSucceeds B s (.replaceCatalog cat received) = true) :
    let c := Command.replace (.replaceCatalog cat received)
    Advances (records s cat.certname) (records (execute B s c) cat.certname) c ∧
      ∃ r ∈ records (execute B s c) cat.certname,
        Instant.toTimestamptz cat.producerTimestamp ≤ r := by
  have hstep := recordStep_of_compare
    ((s.stores.catalogs.nodes cat.certname).metadata.map (·.producerTimestamp))
    cat.producerTimestamp fun t ht => hstored t (List.mem_append_left _
      (List.mem_append_left _ (Option.mem_toList.mpr ht)))
  rw [← catalogTimes_replaceCatalog B s cat received hok] at hstep
  refine ⟨advances_append _ _ _ _ _ (advances_append _ _ _ _ _
    (advances_of_recordStep _ _ (.replace (.replaceCatalog cat received)) rfl hstep)
      (advances_of_eq _ _ _ ?_)) (advances_of_eq _ _ _ ?_), ?_⟩
  · simp only [execute, if_pos hok]
    rfl
  · simp only [execute, if_pos hok]
    rfl
  · obtain ⟨r, hr, hle⟩ := exists_of_recordStep _ _ _ hstep
    exact ⟨r, List.mem_append_left _ (List.mem_append_left _ hr), hle⟩

theorem records_replaceFacts (B : Backends C F H P I R) (s : State C F P I R)
    (d : FactStorage.FactData)
    (hstored : ∀ r ∈ records s d.certname, ∃ t, r = Instant.toTimestamptz t) :
    let c := Command.replace (.replaceFacts d)
    Advances (records s d.certname) (records (execute B s c) d.certname) c ∧
      ∃ r ∈ records (execute B s c) d.certname,
        Instant.toTimestamptz d.producerTimestamp ≤ r := by
  have hstep := recordStep_of_compare
    (s.stores.facts.factsets[d.certname]?.map (·.producerTimestamp)) d.producerTimestamp
    fun t ht => hstored t (List.mem_append_left _
      (List.mem_append_right _ (Option.mem_toList.mpr ht)))
  rw [← factsetTimes_replaceFacts B s d] at hstep
  refine ⟨advances_append _ _ _ _ _ (advances_append _ _ _ _ _ (advances_of_eq _ _ _ rfl)
    (advances_of_recordStep _ _ (.replace (.replaceFacts d)) rfl hstep))
      (advances_of_eq _ _ _ rfl), ?_⟩
  obtain ⟨r, hr, hle⟩ := exists_of_recordStep _ _ _ hstep
  exact ⟨r, List.mem_append_left _ (List.mem_append_right _ hr), hle⟩

theorem records_storeReport (B : Backends C F H P I R) (s : State C F P I R)
    (hinv : Reports.Inv B.reports s.reports) (sub : Reports.Submission) :
    let c := Command.storeReport sub
    Advances (records s sub.report.certname) (records (execute B s c) sub.report.certname) c ∧
      (StoresRecord B s c → ∃ r ∈ records (execute B s c) sub.report.certname,
        Instant.toTimestamptz sub.report.producerTimestamp ≤ r) := by
  refine ⟨advances_append _ _ _ _ _ (advances_append _ _ _ _ _ (advances_of_eq _ _ _ rfl)
    (advances_of_eq _ _ _ rfl)) ?_, fun ⟨htype, hash, hstatus⟩ => ?_⟩
  · obtain hsame | ⟨id, hrows, htype, hmax⟩ :=
      Reports.latestRows_store B.reports s.reports hinv sub
    · exact advances_of_eq _ _ _ (congrArg (List.map Reports.ReportRow.producerTimestamp) hsame)
    · refine advances_of_recordStep _ _ _ (by simp [Command.leavesRecord, htype])
        (.inr ⟨congrArg (List.map Reports.ReportRow.producerTimestamp) hrows, fun old hold => ?_⟩)
      obtain ⟨row, hrow, rfl⟩ := List.mem_map.mp hold
      exact hmax row hrow
  · obtain ⟨row, hrow, hle⟩ := Reports.exists_latestRow_of_incorporated B.reports s.reports hinv
      sub htype hash hstatus
    exact ⟨_, List.mem_append_right _ (List.mem_map.mpr ⟨row, hrow, rfl⟩), hle⟩

/-- What a command does to the records of its node, and what it leaves when it is stored. -/
theorem records_execute (B : Backends C F H P I R) (s : State C F P I R) (c : Command)
    (hinv : Reports.Inv B.reports s.reports)
    (hstored : ∀ r ∈ records s c.certname, ∃ d, r = Instant.toTimestamptz d) :
    Advances (records s c.certname) (records (execute B s c) c.certname) c ∧
      (StoresRecord B s c → ∃ r ∈ records (execute B s c) c.certname,
        Instant.toTimestamptz c.producerTimestamp ≤ r) := by
  cases c with
  | replace c =>
    cases c with
    | replaceCatalog cat received =>
      by_cases hok : replaceSucceeds B s (.replaceCatalog cat received) = true
      · obtain ⟨hadv, hrec⟩ := records_replaceCatalog B s cat received hstored hok
        exact ⟨hadv, fun _ => hrec⟩
      · have he : execute B s (.replace (.replaceCatalog cat received)) = s := if_neg hok
        rw [he]
        exact ⟨advances_of_eq _ _ _ rfl, fun h => absurd h hok⟩
    | replaceFacts d =>
      obtain ⟨hadv, hrec⟩ := records_replaceFacts B s d hstored
      exact ⟨hadv, fun _ => hrec⟩
    | replaceCatalogInputs i =>
      refine ⟨advances_of_eq _ _ _ ?_, False.elim⟩
      simp only [execute]
      split <;> rfl
  | storeReport sub => exact records_storeReport B s hinv sub
  | configureExpiration certname expireFacts time =>
    refine ⟨advances_of_eq _ _ _ ?_, False.elim⟩
    cases expireFacts <;> rfl
  | deactivateNode certname time => exact ⟨advances_of_eq _ _ _ rfl, False.elim⟩

/-- A command other than a deactivation reactivates its node, or fails and leaves it; it
reactivates when it leaves a record. -/
theorem statuses_execute (B : Backends C F H P I R) (s : State C F P I R) (c : Command)
    (hc : c.isDeactivation = false) :
    ((execute B s c).statuses = s.statuses ∧ ¬ StoresRecord B s c) ∨
      (execute B s c).statuses =
        (maybeActivateNode s.statuses c.certname c.producerTimestamp).1 := by
  cases c with
  | replace c =>
    by_cases hok : replaceSucceeds B s c = true
    · right
      simp only [execute, if_pos hok]
      rfl
    · refine .inl ⟨by simp only [execute, if_neg hok], fun h => ?_⟩
      cases c with
      | replaceCatalog cat received => exact hok h
      | replaceFacts d => exact hok rfl
      | replaceCatalogInputs i => exact h
  | storeReport sub =>
    refine (Reports.statuses_store B.reports s.reports sub).imp_left ?_
    rintro ⟨hsame, e, he⟩
    refine ⟨hsame, fun ⟨_, hash, h⟩ => ?_⟩
    rw [he] at h
    cases h
  | configureExpiration certname expireFacts time =>
    cases expireFacts with
    | none => exact .inl ⟨rfl, id⟩
    | some expire => exact .inr rfl
  | deactivateNode certname time => cases hc

/-- What holds of the state after the commands so far. -/
structure History (B : Backends C F H P I R) (n : String) (done : List Command)
    (s : State C F P I R) : Prop where
  reports : Reports.Inv B.reports s.reports
  unexpired : Unexpired s.statuses n
  records : ∀ r ∈ records s n, ∃ c ∈ done, c.leavesRecord = true ∧
    r = Instant.toTimestamptz c.producerTimestamp
  deactivated : ∀ t, deactivatedAt s.statuses n = some t → ∃ c ∈ done,
    c.isDeactivation = true ∧ t = Instant.toTimestamptz c.producerTimestamp

omit [DecidableEq C] [DecidableEq F] [DecidableEq P] [DecidableEq I] [DecidableEq R] in
theorem history_empty (B : Backends C F H P I R) (n : String) :
    History B n [] (State.empty : State C F P I R) where
  reports := Reports.inv_empty B.reports
  unexpired := by constructor <;> simp [State.empty, State.statuses, Reports.ReportDb.empty,
    deactivatedAt]
  records := by
    simp [records, catalogTimes, factsetTimes, reportTimes, State.empty, Confluence.Stores.empty,
      CatalogStorage.CatalogStore.empty, FactStorage.FactStore.empty, Reports.ReportDb.empty,
      Reports.latestRows]
  deactivated := by simp [State.empty, State.statuses, Reports.ReportDb.empty, deactivatedAt]

theorem unexpired_execute (B : Backends C F H P I R) (s : State C F P I R) (c : Command)
    (h : Unexpired s.statuses c.certname) :
    Unexpired (execute B s c).statuses c.certname := by
  cases hde : c.isDeactivation with
  | false =>
    obtain ⟨he, -⟩ | he := statuses_execute B s c hde
    · rw [he]
      exact h
    · rw [he]
      exact unexpired_maybeActivateNode _ _ _ h
  | true =>
    cases c with
    | deactivateNode certname time =>
      exact unexpired_deactivateNode _ _ _ _ (unexpired_ensureCertname _ _ h)
    | replace c => cases hde
    | storeReport sub => cases hde
    | configureExpiration certname expireFacts time => cases hde

/-- When the node is deactivated after a command. -/
theorem deactivatedAt_execute (B : Backends C F H P I R) (s : State C F P I R) (c : Command)
    (h : Unexpired s.statuses c.certname) :
    deactivatedAt (execute B s c).statuses c.certname =
        deactivatedAt s.statuses c.certname ∧ ¬ StoresRecord B s c ∧
          (c.isDeactivation = true → haveNewerRecord (records s c.certname) c.producerTimestamp ∨
            (deactivatedAt s.statuses c.certname).any
              (Instant.toTimestamptz c.producerTimestamp ≤ ·)) ∨
      (c.isDeactivation = true ∧
        ¬ haveNewerRecord (records s c.certname) c.producerTimestamp ∧
        ¬ (deactivatedAt s.statuses c.certname).any
          (Instant.toTimestamptz c.producerTimestamp ≤ ·) ∧
        deactivatedAt (execute B s c).statuses c.certname =
          some (Instant.toTimestamptz c.producerTimestamp)) ∨
      (c.isDeactivation = false ∧ deactivatedAt (execute B s c).statuses c.certname =
        if (deactivatedAt s.statuses c.certname).any
            (· < Instant.toTimestamptz c.producerTimestamp) then none
        else deactivatedAt s.statuses c.certname) := by
  cases hde : c.isDeactivation with
  | false =>
    obtain ⟨he, hnot⟩ | he := statuses_execute B s c hde
    · rw [he]
      exact .inl ⟨rfl, hnot, nofun⟩
    · rw [he]
      exact .inr (.inr ⟨rfl, deactivatedAt_maybeActivateNode _ _ _ h⟩)
  | true =>
    cases c with
    | deactivateNode certname time =>
      have hknown : (ensureCertname s.statuses certname)[certname]?.isSome := by
        unfold ensureCertname
        cases hrow : s.statuses[certname]? with
        | none => simp
        | some node => simp [hrow]
      have hafter := deactivatedAt_deactivateNode (ensureCertname s.statuses certname)
        (records s certname) certname time hknown
      rw [deactivatedAt_ensureCertname] at hafter
      by_cases hkeep : haveNewerRecord (records s certname) time = true ∨
          (deactivatedAt s.statuses certname).any (Instant.toTimestamptz time ≤ ·) = true
      · rw [if_pos hkeep] at hafter
        exact .inl ⟨hafter, id, fun _ => hkeep⟩
      · rw [if_neg hkeep] at hafter
        exact .inr (.inl ⟨rfl, fun hn => hkeep (.inl hn), fun hn => hkeep (.inr hn), hafter⟩)
    | replace c => cases hde
    | storeReport sub => cases hde
    | configureExpiration certname expireFacts time => cases hde

/-- A command keeps the history. -/
theorem history_execute (B : Backends C F H P I R) (n : String) (done : List Command)
    (s : State C F P I R) (c : Command) (hc : c.certname = n) (h : History B n done s) :
    History B n (done ++ [c]) (execute B s c) := by
  subst hc
  have hstored : ∀ r ∈ Activation.records s c.certname, ∃ d, r = Instant.toTimestamptz d := by
    intro r hr
    obtain ⟨y, -, -, hy⟩ := h.records r hr
    exact ⟨_, hy⟩
  have hadv := (records_execute B s c h.reports hstored).1
  refine ⟨?_, unexpired_execute B s c h.unexpired, fun r hr => ?_, fun t ht => ?_⟩
  · cases c with
    | replace c =>
      simp only [execute]
      split
      · exact Reports.inv_statuses B.reports s.reports h.reports _
      · exact h.reports
    | storeReport sub => exact Reports.inv_store B.reports s.reports sub h.reports
    | configureExpiration certname expireFacts time =>
      cases expireFacts with
      | none => exact h.reports
      | some expire => exact Reports.inv_statuses B.reports s.reports h.reports _
    | deactivateNode certname time => exact Reports.inv_statuses B.reports s.reports h.reports _
  · obtain hold | ⟨hleaves, hr⟩ := hadv.origin r hr
    · obtain ⟨y, hy, hrest⟩ := h.records r hold
      exact ⟨y, List.mem_append_left _ hy, hrest⟩
    · exact ⟨c, List.mem_append_right _ (List.mem_singleton.mpr rfl), hleaves, hr⟩
  · have hold : ∀ t, deactivatedAt s.statuses c.certname = some t → ∃ y ∈ done ++ [c],
        y.isDeactivation = true ∧ t = Instant.toTimestamptz y.producerTimestamp := by
      intro t ht
      obtain ⟨y, hy, hrest⟩ := h.deactivated t ht
      exact ⟨y, List.mem_append_left _ hy, hrest⟩
    obtain ⟨he, -⟩ | ⟨hde, -, -, he⟩ | ⟨-, he⟩ := deactivatedAt_execute B s c h.unexpired
    · exact hold t (he ▸ ht)
    · rw [he, Option.some.injEq] at ht
      exact ⟨c, List.mem_append_right _ (List.mem_singleton.mpr rfl), hde, ht.symm⟩
    · rw [he] at ht
      split at ht
      · cases ht
      · exact hold t ht

/-- A deactivation no older than any command so far: the node is deactivated since then. -/
theorem deactivatedAt_newest (B : Backends C F H P I R) (n : String) (commands done : List Command)
    (s : State C F P I R) (c : Command) (hc : c.certname = n) (hdone : ∀ y ∈ done, y ∈ commands)
    (hnewest : Newest commands c) (hde : c.isDeactivation = true) (hapart : TimesApart commands)
    (h : History B n done s) : deactivatedAt (execute B s c).statuses n =
      some (Instant.toTimestamptz c.producerTimestamp) := by
  subst hc
  obtain ⟨he, -, hwhy⟩ | ⟨-, -, -, he⟩ | ⟨hnot, -⟩ := deactivatedAt_execute B s c h.unexpired
  · rcases hwhy hde with hnewer | hlater
    · -- no record is newer
      obtain ⟨r, hr, hlt⟩ := List.any_eq_true.mp hnewer
      obtain ⟨y, hy, hleaves, rfl⟩ := h.records r hr
      have hlt := of_decide_eq_true hlt
      have hyde : y.isDeactivation = false := by
        cases y with
        | deactivateNode certname time => cases hleaves
        | _ => rfl
      rcases hapart c hnewest.1 hde y (hdone y hy) hyde with ⟨-, hle⟩ | hafter
      · exact absurd hlt (not_lt.mpr hle)
      · exact absurd hafter
          (not_lt.mpr (Instant.toTimestamptz_mono (hnewest.2 y (hdone y hy))))
    · cases hbefore : deactivatedAt s.statuses c.certname with
      | none => simp [hbefore] at hlater
      | some t =>
        obtain ⟨y, hy, -, rfl⟩ := h.deactivated t hbefore
        rw [hbefore, Option.any_some, decide_eq_true_eq] at hlater
        rw [he, hbefore]
        exact congrArg some (le_antisymm
          (Instant.toTimestamptz_mono (hnewest.2 y (hdone y hy))) hlater)
  · exact he
  · rw [hde] at hnot
    cases hnot

/-- The commands so far, with the node deactivated since the time of `newest` once that has
been among them. -/
structure DeactivatedBy (B : Backends C F H P I R) (n : String) (commands : List Command)
    (newest : Command) (done : List Command) (s : State C F P I R) : Prop where
  history : History B n done s
  among : ∀ c ∈ done, c ∈ commands
  since : newest ∈ done →
    deactivatedAt s.statuses n = some (Instant.toTimestamptz newest.producerTimestamp)

/-- Once the newest command, a deactivation, has been processed, its node stays deactivated. -/
theorem deactivatedBy_execute (B : Backends C F H P I R) (n : String) (commands : List Command)
    (hname : ∀ c ∈ commands, c.certname = n) (hapart : TimesApart commands) (newest : Command)
    (hnewest : Newest commands newest) (hde : newest.isDeactivation = true)
    (done : List Command) (s : State C F P I R) (c : Command)
    (h : DeactivatedBy B n commands newest done s) (hc : c ∈ commands) :
    DeactivatedBy B n commands newest (done ++ [c]) (execute B s c) := by
  have hcn := hname c hc
  refine ⟨history_execute B n done s c hcn h.history, fun y hy => ?_, fun hin => ?_⟩
  · rcases List.mem_append.mp hy with hy | hy
    · exact h.among y hy
    · rwa [List.mem_singleton.mp hy]
  · rcases List.mem_append.mp hin with hin | hin
    · have hbefore := h.since hin
      have hle := Instant.toTimestamptz_mono (hnewest.2 c hc)
      rw [← hcn] at hbefore ⊢
      obtain ⟨he, -⟩ | ⟨-, -, hnot, -⟩ | ⟨-, he⟩ :=
        deactivatedAt_execute B s c (by rw [hcn]; exact h.history.unexpired)
      · rw [he, hbefore]
      · rw [hbefore] at hnot
        exact absurd (by simpa using hle) hnot
      · rw [he, hbefore, if_neg]
        simpa using hle
    · rw [← List.mem_singleton.mp hin]
      exact deactivatedAt_newest B n commands done s newest (hname newest hnewest.1) h.among
        hnewest hde hapart h.history

theorem leavesRecord_not_deactivation (c : Command) (h : c.leavesRecord = true) :
    c.isDeactivation = false := by
  cases c with
  | deactivateNode certname time => cases h
  | replace c => rfl
  | storeReport sub => rfl
  | configureExpiration certname expireFacts time => rfl

/-- The commands so far, with the node active and a record no older than `c` once that has
been among them. -/
structure KeptActiveBy (B : Backends C F H P I R) (n : String) (commands : List Command)
    (c : Command) (done : List Command) (s : State C F P I R) : Prop where
  history : History B n done s
  among : ∀ c ∈ done, c ∈ commands
  active : c ∈ done → deactivatedAt s.statuses n = none
  recorded : c ∈ done → ∃ r ∈ records s n, Instant.toTimestamptz c.producerTimestamp ≤ r

/-- Once a command that leaves a record and is newer than every deactivation has been stored,
its node stays active. -/
theorem keptActiveBy_execute (B : Backends C F H P I R) (n : String) (commands : List Command)
    (hname : ∀ c ∈ commands, c.certname = n) (hapart : TimesApart commands) (c : Command)
    (hmem : c ∈ commands) (hleaves : c.leavesRecord = true)
    (hnewer : ∀ d ∈ commands, d.isDeactivation = true → d.producerTimestamp < c.producerTimestamp)
    (done : List Command) (s : State C F P I R) (e : Command)
    (h : KeptActiveBy B n commands c done s)
    (he : e ∈ commands ∧ (e = c → StoresRecord B s e)) :
    KeptActiveBy B n commands c (done ++ [e]) (execute B s e) := by
  obtain ⟨hein, hstores⟩ := he
  have hen := hname e hein
  subst hen
  have hstored : ∀ r ∈ records s e.certname, ∃ d, r = Instant.toTimestamptz d := by
    intro r hr
    obtain ⟨y, -, -, hy⟩ := h.history.records r hr
    exact ⟨_, hy⟩
  obtain ⟨hadv, hrec⟩ := records_execute B s e h.history.reports hstored
  -- deactivations are stored as earlier than the command
  have hearlier : ∀ d ∈ commands, d.isDeactivation = true →
      Instant.toTimestamptz d.producerTimestamp < Instant.toTimestamptz c.producerTimestamp := by
    intro d hd hde
    rcases hapart d hd hde c hmem (leavesRecord_not_deactivation c hleaves) with ⟨hlt, -⟩ | hlt
    · exact absurd (hnewer d hd hde) (not_lt.mpr hlt.le)
    · exact hlt
  have hcases := deactivatedAt_execute B s e h.history.unexpired
  refine ⟨history_execute B _ done s e rfl h.history, fun y hy => ?_, fun hin => ?_, fun hin => ?_⟩
  · rcases List.mem_append.mp hy with hy | hy
    · exact h.among y hy
    · rwa [List.mem_singleton.mp hy]
  · rcases List.mem_append.mp hin with hin | hin
    · have hbefore := h.active hin
      obtain ⟨r, hr, hle⟩ := h.recorded hin
      obtain ⟨heq, -⟩ | ⟨hde, hnot, -⟩ | ⟨-, heq⟩ := hcases
      · rw [heq, hbefore]
      · refine absurd (List.any_eq_true.mpr ⟨r, hr, decide_eq_true ?_⟩) hnot
        exact (Instant.lt_toTimestamptz_of_toTimestamptz_lt (hearlier e hein hde)).trans_le hle
      · rw [heq, hbefore]
        rfl
    · have hec : c = e := List.mem_singleton.mp hin
      obtain ⟨-, hnot, -⟩ | ⟨hde, -⟩ | ⟨-, heq⟩ := hcases
      · exact absurd (hstores hec.symm) hnot
      · rw [← hec, leavesRecord_not_deactivation c hleaves] at hde
        cases hde
      · rw [heq]
        cases hbefore : deactivatedAt s.statuses e.certname with
        | none => rfl
        | some t =>
          obtain ⟨y, hy, hyde, rfl⟩ := h.history.deactivated t hbefore
          rw [if_pos]
          rw [Option.any_some, decide_eq_true_eq, ← hec]
          exact hearlier y (h.among y hy) hyde
  · rcases List.mem_append.mp hin with hin | hin
    · obtain ⟨r, hr, hle⟩ := h.recorded hin
      obtain ⟨r', hr', hle'⟩ := hadv.kept r hr
      exact ⟨r', hr', hle.trans hle'⟩
    · have hec : c = e := List.mem_singleton.mp hin
      rw [hec]
      exact hrec (hstores hec.symm)

/-- No deactivation among the commands; or the newest command is one; or one that leaves a
record is newer than every deactivation, and is stored when it is processed. -/
def Covered (B : Backends C F H P I R) (commands order : List Command) : Prop :=
  (∀ c ∈ commands, c.isDeactivation = false) ∨
  (∃ c, Newest commands c ∧ c.isDeactivation = true) ∨
  ∃ c ∈ commands, c.leavesRecord = true ∧
    (∀ d ∈ commands, d.isDeactivation = true → d.producerTimestamp < c.producerTimestamp) ∧
    Always (execute B) (fun s e => e = c → StoresRecord B s e) State.empty order

/-- Where the newest command is no deactivation, but no command that leaves a record is newer
than one, every order that ends with that one leaves the node deactivated. -/
theorem not_endsAsNewest_of_uncovered (B : Backends C F H P I R) (n : String)
    (commands : List Command) (hname : ∀ c ∈ commands, c.certname = n)
    (hapart : TimesApart commands) (newest : Command) (hnewest : Newest commands newest)
    (hactive : newest.isDeactivation = false) (d : Command) (hd : d ∈ commands)
    (hde : d.isDeactivation = true)
    (huncovered : ∀ c ∈ commands, c.leavesRecord = true →
      c.producerTimestamp < d.producerTimestamp)
    (order : List Command) (horder : ∀ c ∈ order, c ∈ commands) :
    ¬ EndsAsNewest (run (execute B) State.empty (order ++ [d])) commands n := by
  have hdn := hname d hd
  subst hdn
  have hhist := run_history (fun done s c h hc => history_execute B _ done s c (hname c hc) h)
    order [] State.empty (history_empty B d.certname) (always_of_forall order _ horder)
  intro hends
  have hafter := hends newest hnewest
  rw [hactive, run_append] at hafter
  obtain ⟨he, -, hwhy⟩ | ⟨-, -, -, he⟩ | ⟨hnot, -⟩ :=
    deactivatedAt_execute B (run (execute B) State.empty order) d hhist.unexpired
  · rcases hwhy hde with hrecord | hlater
    · obtain ⟨r, hr, hlt⟩ := List.any_eq_true.mp hrecord
      obtain ⟨y, hy, hleaves, rfl⟩ := hhist.records r hr
      have hlt := of_decide_eq_true hlt
      have hyd := huncovered y (horder y hy) hleaves
      rcases hapart d hd hde y (horder y hy) (leavesRecord_not_deactivation y hleaves) with
        ⟨-, hle⟩ | hafter'
      · exact absurd hlt (not_lt.mpr hle)
      · exact absurd hafter' (not_lt.mpr (Instant.toTimestamptz_mono hyd.le))
    · rw [run_cons, run_nil, he] at hafter
      rw [hafter] at hlater
      cases hlater
  · rw [run_cons, run_nil, he] at hafter
    cases hafter
  · rw [hde] at hnot
    cases hnot

end Steps

/-- Databases that take every row, with hashes that keep what they hash. -/
def contentBackends : Backends CatalogStorage.Content (List (String × Json))
    Packages.PackageTuple (List Packages.PackageTuple) (List Char)
    (Reports.ReportIdentity ⊕ Nat × Reports.ResourceEvent) :=
  { Confluence.contentBackends with reports := Reports.contentBackend }

/-- Facts of node `n` at time `t`. -/
def flagCommand (t : Instant) : Command :=
  .replace (.replaceFacts (FactStorage.flagReport t (.bool true)))

end OpenVoxDB.Activation
