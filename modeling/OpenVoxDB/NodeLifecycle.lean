import OpenVoxDB.Activation
import OpenVoxDB.Interleaving

/-!
# The life of a node

Commands make a node known and active, sweeps expire those that have been quiet, and purges delete
those that have been inactive for long. Everything that is stored of a node goes with its row in
`certnames`, and what is stored of one node is not touched by what happens to another.
-/

namespace OpenVoxDB.NodeLifecycle

open Certnames Activation Interleaving

variable {C F H P I R : Type}

/-- A purge chooses which nodes it deletes when there are more than its limit. -/
inductive Event where
  | command (c : Activation.Command)
  | expireStaleNodes (staleStart expired : Instant)
  | purgeDeactivatedAndExpiredNodes (horizon : Instant) (batchLimit : Option Nat)
      (certnames : List String)
  | deleteCertname (certname : String)

/-- The rows of one node in every table. -/
structure NodeRows (C F P I R : Type) where
  status : Option NodeStatus
  catalog : CatalogStorage.NodeCatalog C
  factset : Option (FactStorage.Factset F)
  packages : Packages.NodePackages P
  inputs : CatalogInputs.NodeInputs I
  reports : List (Reports.ReportRow R)
  events : List (Reports.EventRow R)
  factExpiration : Option (Bool × Instant)

/-- The rows of a node that the database does not know. -/
def NodeRows.unknown : NodeRows C F P I R :=
  ⟨none, ⟨none, ∅, ∅⟩, none, ⟨none, ∅⟩, ⟨none, none, none, ∅⟩, [], [], none⟩

def nodeRows (s : State C F P I R) (certname : String) : NodeRows C F P I R where
  status := s.statuses[certname]?
  catalog := s.stores.catalogs.nodes certname
  factset := s.stores.facts.factsets[certname]?
  packages := s.stores.packages certname
  inputs := s.stores.inputs certname
  reports := s.reports.reports.filter fun r => r.certname = certname
  events := s.reports.events.filter fun e => e.certname = certname
  factExpiration := s.factExpiration[certname]?

/-- `delete-certnames!`: the rows that refer to a row of `certnames` are deleted first, or with
it. -/
def deleteCertnames (s : State C F P I R) (certnames : List String) : State C F P I R where
  stores :=
    { catalogs := ⟨fun n => if n ∈ certnames then ⟨none, ∅, ∅⟩ else s.stores.catalogs.nodes n,
        s.stores.catalogs.paramsCache⟩
      facts := ⟨Dict.dissoc s.stores.facts.factsets (· ∈ certnames), s.stores.facts.factPaths⟩
      packages := fun n => if n ∈ certnames then ⟨none, ∅⟩ else s.stores.packages n
      inputs := fun n => if n ∈ certnames then ⟨none, none, none, ∅⟩ else s.stores.inputs n }
  reports :=
    { s.reports with
      statuses := Dict.dissoc s.reports.statuses (· ∈ certnames)
      reports := s.reports.reports.filter (·.certname ∉ certnames)
      events := s.reports.events.filter (·.certname ∉ certnames) }
  factExpiration := Dict.dissoc s.factExpiration (· ∈ certnames)

/-- `delete-certname!` -/
def deleteCertname (s : State C F P I R) (certname : String) : State C F P I R :=
  deleteCertnames s [certname]

/-- Some row of an outer join has no time, or one before that of the parameter. -/
def quiet (start : Instant) (times : List Instant) : Bool :=
  times = [] || times.any (· < Instant.toTimestamptz start)

/-- The condition of `expire-stale-nodes` on a node. -/
def isStale (s : State C F P I R) (staleStart : Instant) (certname : String) (node : NodeStatus) :
    Bool :=
  node.deactivated = none && node.expired = none &&
    quiet staleStart (catalogTimes s certname) && quiet staleStart (factsetTimes s certname) &&
    quiet staleStart (reportTimes s certname) &&
    (s.factExpiration[certname]?.all fun row =>
      row.1 && decide (row.2 < Instant.toTimestamptz staleStart)) &&
    (s.stores.inputs certname).timestamp.all (· < Instant.toTimestamptz staleStart)

/-- `expire-stale-nodes`: the nodes without activity since `staleStart` expire now. -/
def expireStaleNodes (s : State C F P I R) (staleStart expired : Instant) : State C F P I R :=
  s.withStatuses (s.statuses.map fun certname node =>
    if isStale s staleStart certname node then
      { node with expired := some (Instant.toTimestamptz expired) }
    else node)

def purgeable (horizon : Instant) (node : NodeStatus) : Bool :=
  node.deactivated.any (· < Instant.toTimestamptz horizon) ||
    node.expired.any (· < Instant.toTimestamptz horizon)

/-- The certnames that a purge selects without a limit. -/
def purgeableCertnames (s : State C F P I R) (horizon : Instant) : List String :=
  (s.statuses.filter fun _ node => purgeable horizon node).keys

/-- A selection: all of the certnames, or as many as the limit allows. -/
def Selects (s : State C F P I R) (horizon : Instant) (batchLimit : Option Nat)
    (certnames : List String) : Prop :=
  certnames.Nodup ∧ (∀ n ∈ certnames, n ∈ purgeableCertnames s horizon) ∧
    certnames.length = match batchLimit with
      | none => (purgeableCertnames s horizon).length
      | some limit => min limit (purgeableCertnames s horizon).length

instance (s : State C F P I R) (horizon : Instant) (batchLimit : Option Nat)
    (certnames : List String) : Decidable (Selects s horizon batchLimit certnames) :=
  inferInstanceAs (Decidable (_ ∧ _ ∧ _))

section Steps

variable [DecidableEq C] [DecidableEq F] [DecidableEq P] [DecidableEq I] [DecidableEq R]

/-- One transaction. -/
def step (B : Backends C F H P I R) (s : State C F P I R) : Event → Option (State C F P I R)
  | .command c => some (Activation.execute B s c)
  | .expireStaleNodes staleStart expired => some (expireStaleNodes s staleStart expired)
  | .purgeDeactivatedAndExpiredNodes horizon batchLimit certnames =>
    if Selects s horizon batchLimit certnames then some (deleteCertnames s certnames) else none
  | .deleteCertname certname => some (deleteCertname s certname)

end Steps

/-! ## The reports of a node -/

/-- An event is of the node that its report is of. -/
def Owned (db : Reports.ReportDb R) : Prop :=
  ∀ e ∈ db.events, ∀ r ∈ db.reports, r.id = e.reportId → e.certname = r.certname

theorem retire_of_unmarked (previous : Option (Reports.ReportRow R)) (r : Reports.ReportRow R)
    (h : ∀ p ∈ previous, r.id ≠ p.id) : r.retire previous = r := by
  unfold Reports.ReportRow.retire
  rw [if_neg]
  cases previous with
  | none => simp [Reports.ReportRow.isMarked]
  | some p => simp [Reports.ReportRow.isMarked, h p rfl]

theorem event_retire_of_unmarked (previous : Option (Reports.ReportRow R)) (e : Reports.EventRow R)
    (h : ∀ p ∈ previous, e.reportId ≠ p.id) : e.retire previous = e := by
  unfold Reports.EventRow.retire
  rw [if_neg]
  cases previous with
  | none => simp [Reports.EventRow.isMarked]
  | some p => simp [Reports.EventRow.isMarked, h p rfl]

@[simp] theorem event_retire_certname (previous : Option (Reports.ReportRow R))
    (e : Reports.EventRow R) : (e.retire previous).certname = e.certname := by
  unfold Reports.EventRow.retire
  split <;> rfl

/-- The rows that a map leaves alone are found as before. -/
theorem filter_map_of_fixed {α : Type} (p : α → Bool) (f : α → α) (xs : List α)
    (hp : ∀ x ∈ xs, p (f x) = p x) (hfix : ∀ x ∈ xs, p x = true → f x = x) :
    (xs.map f).filter p = xs.filter p := by
  induction xs with
  | nil => rfl
  | cons x xs ih =>
    have hrest := ih (fun y hy => hp y (List.mem_cons_of_mem _ hy))
      fun y hy => hfix y (List.mem_cons_of_mem _ hy)
    have hx := hp x List.mem_cons_self
    cases hpx : p x with
    | true => simp [hpx, hfix x List.mem_cons_self hpx, hrest]
    | false => simp [hpx, hx.trans hpx, hrest]

theorem latestReportMetadata_mem (db : Reports.ReportDb R) (certname : String)
    (p : Reports.ReportRow R) (h : p ∈ Reports.latestReportMetadata db certname) :
    p ∈ db.reports ∧ p.certname = certname := by
  refine ⟨List.mem_of_find?_eq_some h, ?_⟩
  have hlatest := List.find?_some h
  simp only [Reports.isLatestOf, Bool.and_eq_true, decide_eq_true_eq] at hlatest
  exact hlatest.1

/-- A report of another node takes no mark back from the node's reports. -/
theorem olderReports_other (B : Reports.Backend R) (db : Reports.ReportDb R)
    (hdb : Reports.Inv B db) (r : Reports.Report) (n : String) (hn : n ≠ r.certname) :
    (Reports.olderReports db r).filter (fun row => row.certname = n) =
      db.reports.filter fun row => row.certname = n := by
  unfold Reports.olderReports
  simp only
  split
  · refine filter_map_of_fixed _ _ _ (fun row _ => by simp) fun row hrow hcert => ?_
    refine retire_of_unmarked _ row fun p hp hid => ?_
    obtain ⟨hpmem, hpcert⟩ := latestReportMetadata_mem db _ p hp
    have he : row = p := List.inj_on_of_nodup_map hdb.idsNodup hrow hpmem hid
    rw [he, hpcert] at hcert
    exact hn (of_decide_eq_true hcert).symm
  · rfl

theorem olderEvents_other (db : Reports.ReportDb R) (howned : Owned db) (r : Reports.Report)
    (n : String) (hn : n ≠ r.certname) :
    (Reports.olderEvents db r).filter (fun e => e.certname = n) =
      db.events.filter fun e => e.certname = n := by
  unfold Reports.olderEvents
  simp only
  split
  · refine filter_map_of_fixed _ _ _ (fun e _ => ?_) fun e he hcert => ?_
    · simp only [event_retire_certname]
    refine event_retire_of_unmarked _ e fun p hp hid => ?_
    obtain ⟨hpmem, hpcert⟩ := latestReportMetadata_mem db _ p hp
    rw [decide_eq_true_eq, howned e he p hpmem hid.symm, hpcert] at hcert
    exact hn hcert.symm
  · rfl

section Store

variable [DecidableEq R]

theorem addEventRow_certname (B : Reports.Backend R) (certname : String) (id : Nat)
    (latest : Bool) (rows : List (Reports.EventRow R)) (e : Reports.ResourceEvent)
    (h : ∀ row ∈ rows, row.certname = certname) :
    ∀ row ∈ Reports.addEventRow B certname id latest rows e, row.certname = certname := by
  unfold Reports.addEventRow
  simp only
  split
  · exact h
  · intro row hrow
    rcases List.mem_append.mp hrow with hold | hnew
    · exact h row hold
    · rw [List.mem_singleton.mp hnew]

theorem newEventRows_certname (B : Reports.Backend R) (sub : Reports.Submission) (id : Nat)
    (latest : Bool) :
    ∀ row ∈ Reports.newEventRows B sub id latest, row.certname = sub.report.certname := by
  unfold Reports.newEventRows Reports.eventRows
  split
  · exact List.foldlRecOn _ _ (b := []) nofun
      fun rows h e _ => addEventRow_certname B sub.report.certname id latest rows e h
  · exact nofun

/-- The rows of reports and events after a transaction that succeeds. -/
theorem rows_of_addReportRow (B : Reports.Backend R) (db db' : Reports.ReportDb R)
    (sub : Reports.Submission) (status : Reports.Status R)
    (h : Reports.addReportRow B db sub = .ok (db', status)) :
    db' = db ∨ ∃ latest,
      db'.reports = Reports.olderReports db sub.report ++
        [Reports.newRow B db.nextId sub.report latest] ∧
      db'.events = Reports.olderEvents db sub.report ++
        Reports.newEventRows B sub db.nextId latest := by
  unfold Reports.addReportRow at h
  simp only at h
  split at h
  · cases h
    exact .inl rfl
  · right
    cases hretire : Reports.retirePrevious db sub.report with
    | error e =>
      rw [hretire] at h
      cases h
    | ok db₁ =>
      rw [hretire] at h
      simp only [bind, Except.bind] at h
      cases hinsert : Reports.insertReport B db₁ sub
          (Reports.isNewLatest (Reports.latestReportMetadata db sub.report.certname)
            sub.report) with
      | error e =>
        rw [hinsert] at h
        cases h
      | ok db₂ =>
        rw [hinsert] at h
        cases h
        have hdb₁ := Reports.retirePrevious_eq_ok db db₁ _ hretire
        unfold Reports.insertReport at hinsert
        simp only at hinsert
        split at hinsert
        · cases hinsert
        · split at hinsert
          · cases hinsert
            rw [hdb₁]
            exact ⟨_, rfl, rfl⟩
          · cases hinsert

/-- What a call does to the rows of reports and events, partitions and activity apart. -/
theorem rows_of_store (B : Reports.Backend R) (db : Reports.ReportDb R)
    (sub : Reports.Submission) :
    ((Reports.store B db sub).reports = db.reports ∧ (Reports.store B db sub).events = db.events) ∨
    ∃ latest,
      (Reports.store B db sub).reports = Reports.olderReports db sub.report ++
        [Reports.newRow B db.nextId sub.report latest] ∧
      (Reports.store B db sub).events = Reports.olderEvents db sub.report ++
        Reports.newEventRows B sub db.nextId latest := by
  obtain ⟨-, -, hsame⟩ | ⟨db₀, status, hsame, h, -⟩ := Reports.addReport_cases B db sub
  · exact .inl ⟨hsame.reports, hsame.events⟩
  · have hold : ∀ statuses,
        Reports.olderReports { db₀ with statuses := statuses } sub.report =
          Reports.olderReports db sub.report ∧
        Reports.olderEvents { db₀ with statuses := statuses } sub.report =
          Reports.olderEvents db sub.report := by
      intro statuses
      simp only [Reports.olderReports, Reports.olderEvents, Reports.latestReportMetadata,
        hsame.reports, hsame.events]
      exact ⟨rfl, rfl⟩
    obtain he | ⟨latest, hreports, hevents⟩ := rows_of_addReportRow B _ _ sub status h
    · left
      rw [he]
      exact ⟨hsame.reports, hsame.events⟩
    · right
      rw [(hold _).1, hsame.nextId] at hreports
      rw [(hold _).2, hsame.nextId] at hevents
      exact ⟨latest, hreports, hevents⟩

/-- A call for a report of another node changes none of the node's rows. -/
theorem store_other (B : Reports.Backend R) (db : Reports.ReportDb R) (hdb : Reports.Inv B db)
    (howned : Owned db) (sub : Reports.Submission) (n : String) (hn : n ≠ sub.report.certname) :
    (Reports.store B db sub).reports.filter (fun r => r.certname = n) =
        db.reports.filter (fun r => r.certname = n) ∧
      (Reports.store B db sub).events.filter (fun e => e.certname = n) =
        db.events.filter fun e => e.certname = n := by
  obtain ⟨hreports, hevents⟩ | ⟨latest, hreports, hevents⟩ := rows_of_store B db sub
  · rw [hreports, hevents]
    exact ⟨rfl, rfl⟩
  · rw [hreports, hevents, List.filter_append, List.filter_append,
      olderReports_other B db hdb sub.report n hn, olderEvents_other db howned sub.report n hn]
    constructor
    · rw [List.filter_cons_of_neg (by simp [Reports.newRow, hn.symm]), List.filter_nil,
        List.append_nil]
    · have hnone : (Reports.newEventRows B sub db.nextId latest).filter
          (fun e => e.certname = n) = [] := by
        refine List.filter_eq_nil_iff.mpr fun e he => ?_
        simp [newEventRows_certname B sub _ _ e he, hn.symm]
      rw [hnone, List.append_nil]

theorem owned_store (B : Reports.Backend R) (db : Reports.ReportDb R) (hdb : Reports.Inv B db)
    (howned : Owned db) (sub : Reports.Submission) : Owned (Reports.store B db sub) := by
  obtain ⟨hreports, hevents⟩ | ⟨latest, hreports, hevents⟩ := rows_of_store B db sub
  · rw [Owned, hreports, hevents]
    exact howned
  · -- an old event has an old report, and the ids of these are below the new one
    have holdReport : ∀ r ∈ Reports.olderReports db sub.report, ∃ old ∈ db.reports,
        r.id = old.id ∧ r.certname = old.certname := by
      intro r hr
      obtain ⟨old, hold, hid, -, hcert, -⟩ := Reports.mem_olderReports db sub.report r hr
      exact ⟨old, hold, hid, hcert⟩
    have holdEvent : ∀ e ∈ Reports.olderEvents db sub.report, ∃ old ∈ db.events,
        e.reportId = old.reportId ∧ e.certname = old.certname := by
      intro e he
      unfold Reports.olderEvents at he
      simp only at he
      split at he
      · obtain ⟨old, hold, rfl⟩ := List.mem_map.mp he
        exact ⟨old, hold, Reports.event_retire_reportId _ old, event_retire_certname _ old⟩
      · exact ⟨e, he, rfl, rfl⟩
    intro e he r hr hid
    rw [hevents] at he
    rw [hreports] at hr
    rcases List.mem_append.mp he with he | he
    · obtain ⟨oldEvent, holdEvent, hreportId, hcert⟩ := holdEvent e he
      rcases List.mem_append.mp hr with hr | hr
      · obtain ⟨old, hold, hrid, hrcert⟩ := holdReport r hr
        rw [hcert, hrcert]
        exact howned oldEvent holdEvent old hold (hrid.symm.trans (hid.trans hreportId))
      · rw [List.mem_singleton.mp hr] at hid
        obtain ⟨report, hfind, -⟩ := hdb.events oldEvent holdEvent
        have hmem : report ∈ db.reports.filter (·.id = oldEvent.reportId) :=
          hfind ▸ List.mem_singleton.mpr rfl
        obtain ⟨hmem, hreport⟩ := List.mem_filter.mp hmem
        have hlt := hdb.idsBelow report hmem
        rw [of_decide_eq_true hreport, ← hreportId, ← hid] at hlt
        exact absurd hlt (lt_irrefl _)
    · rw [newEventRows_certname B sub _ _ e he]
      rcases List.mem_append.mp hr with hr | hr
      · obtain ⟨old, hold, hrid, -⟩ := holdReport r hr
        have hlt := hdb.idsBelow old hold
        rw [← hrid, hid, (Reports.newEventRows_mem B sub _ _ e he).1] at hlt
        exact absurd hlt (lt_irrefl _)
      · rw [List.mem_singleton.mp hr]
        rfl

end Store

/-! ## Deletion -/

theorem nodeRows_congr (s s' : State C F P I R) (n : String)
    (hstatus : s'.statuses[n]? = s.statuses[n]?)
    (hcatalog : s'.stores.catalogs.nodes n = s.stores.catalogs.nodes n)
    (hfactset : s'.stores.facts.factsets[n]? = s.stores.facts.factsets[n]?)
    (hpackages : s'.stores.packages n = s.stores.packages n)
    (hinputs : s'.stores.inputs n = s.stores.inputs n)
    (hreports : s'.reports.reports.filter (fun r => r.certname = n) =
      s.reports.reports.filter fun r => r.certname = n)
    (hevents : s'.reports.events.filter (fun e => e.certname = n) =
      s.reports.events.filter fun e => e.certname = n)
    (hexpiration : s'.factExpiration[n]? = s.factExpiration[n]?) :
    nodeRows s' n = nodeRows s n := by
  simp only [nodeRows, hstatus, hcatalog, hfactset, hpackages, hinputs, hreports, hevents,
    hexpiration]

theorem filter_kept {α : Type} (certname : α → String) (certnames : List String) (n : String)
    (hn : n ∉ certnames) (xs : List α) :
    (xs.filter fun x => certname x ∉ certnames).filter (fun x => certname x = n) =
      xs.filter fun x => certname x = n := by
  rw [List.filter_filter]
  refine List.filter_congr fun x _ => ?_
  by_cases hx : certname x = n
  · simp [hx, hn]
  · simp [hx]

theorem filter_deleted {α : Type} (certname : α → String) (certnames : List String) (n : String)
    (hn : n ∈ certnames) (xs : List α) :
    (xs.filter fun x => certname x ∉ certnames).filter (fun x => certname x = n) = [] := by
  rw [List.filter_filter]
  refine List.filter_eq_nil_iff.mpr fun x _ => ?_
  by_cases hx : certname x = n
  · simp [hx, hn]
  · simp [hx]

/-- Deletion leaves nothing of a node, and all of every other. -/
theorem nodeRows_deleteCertnames (s : State C F P I R) (certnames : List String) (n : String) :
    nodeRows (deleteCertnames s certnames) n =
      if n ∈ certnames then NodeRows.unknown else nodeRows s n := by
  by_cases hn : n ∈ certnames
  · simp only [nodeRows, deleteCertnames, State.statuses, Dict.getElem?_dissoc, hn, if_true,
      decide_true, NodeRows.unknown]
    rw [filter_deleted _ _ _ hn, filter_deleted _ _ _ hn]
  · simp only [nodeRows, deleteCertnames, State.statuses, Dict.getElem?_dissoc, hn, if_false,
      decide_false, Bool.false_eq_true]
    rw [filter_kept _ _ _ hn, filter_kept _ _ _ hn]

theorem latestRows_deleteCertnames (s : State C F P I R) (certnames : List String) (n : String)
    (hn : n ∉ certnames) :
    Reports.latestRows (deleteCertnames s certnames).reports n =
      Reports.latestRows s.reports n := by
  simp only [Reports.latestRows, deleteCertnames, List.filter_filter]
  refine List.filter_congr fun r _ => ?_
  by_cases hr : r.certname = n
  · simp [Reports.isLatestOf, hr, hn]
  · simp [Reports.isLatestOf, hr]

theorem inv_deleteCertnames (B : Reports.Backend R) (s : State C F P I R)
    (hinv : Reports.Inv B s.reports) (howned : Owned s.reports) (certnames : List String) :
    Reports.Inv B (deleteCertnames s certnames).reports := by
  have hkept (r : Reports.ReportRow R) (hr : r ∈ (deleteCertnames s certnames).reports.reports) :
      r ∈ s.reports.reports ∧ r.certname ∉ certnames := by
    simpa [deleteCertnames] using hr
  exact {
    idsNodup := hinv.idsNodup.sublist (List.filter_sublist.map _)
    idsBelow := fun r hr => hinv.idsBelow r (hkept r hr).1
    hashes := fun r hr => hinv.hashes r (hkept r hr).1
    times := fun r hr => hinv.times r (hkept r hr).1
    notPlan := fun r hr => hinv.notPlan r (hkept r hr).1
    marked := by
      intro r hr htype
      obtain ⟨row, hrow, hplan, hmax⟩ := hinv.marked r (hkept r hr).1 htype
      refine ⟨row, ?_, hplan, fun r' hr' => hmax r' (hkept r' hr').1⟩
      rw [latestRows_deleteCertnames s certnames r.certname (hkept r hr).2, hrow]
    events := by
      intro e he
      obtain ⟨hmem, hcert⟩ : e ∈ s.reports.events ∧ e.certname ∉ certnames := by
        simpa [deleteCertnames] using he
      obtain ⟨r, hr, hlatest⟩ := hinv.events e hmem
      refine ⟨r, ?_, hlatest⟩
      have hown : r ∈ s.reports.reports ∧ r.id = e.reportId := by
        simpa using (List.mem_filter.mp (hr ▸ List.mem_singleton.mpr rfl) :
          r ∈ s.reports.reports ∧ decide (r.id = e.reportId) = true)
      simp only [deleteCertnames]
      rw [List.filter_comm, hr, List.filter_cons_of_pos, List.filter_nil]
      rw [← howned e hmem r hown.1 hown.2]
      exact decide_eq_true hcert }

theorem owned_deleteCertnames (s : State C F P I R) (howned : Owned s.reports)
    (certnames : List String) : Owned (deleteCertnames s certnames).reports :=
  fun e he r hr => howned e (List.mem_filter.mp he).1 r (List.mem_filter.mp hr).1

/-! ## Commands for other nodes -/

theorem insert_other {ν : Type} (m : Dict String ν) (k n : String) (v : ν) (hn : n ≠ k) :
    (m.insert k v)[n]? = m[n]? := by
  rw [Std.ExtTreeMap.getElem?_insert, if_neg]
  exact fun h => hn (Std.LawfulEqOrd.eq_of_compare h).symm

theorem maybeActivateNode_other (s : Statuses) (certname : String) (time : Instant) (n : String)
    (hn : n ≠ certname) : (maybeActivateNode s certname time).1[n]? = s[n]? := by
  unfold maybeActivateNode
  split
  · split
    · rfl
    · split
      · rfl
      · split
        · exact insert_other s certname n active hn
        · rfl
  · exact insert_other s certname n active hn

theorem ensureCertname_other (s : Statuses) (certname n : String) (hn : n ≠ certname) :
    (ensureCertname s certname)[n]? = s[n]? := by
  unfold ensureCertname
  split
  · rfl
  · exact insert_other s certname n active hn

theorem deactivateNode_other (s : Statuses) (records : List Instant) (certname : String)
    (time : Instant) (n : String) (hn : n ≠ certname) :
    (deactivateNode s records certname time).1[n]? = s[n]? := by
  unfold deactivateNode
  split
  · rfl
  · split
    · split
      · exact insert_other s certname n _ hn
      · rfl
    · rfl

theorem setCertnameFactsExpiration_other (table : Dict String (Bool × Instant)) (certname : String)
    (expire : Bool) (updated : Instant) (n : String) (hn : n ≠ certname) :
    (setCertnameFactsExpiration table certname expire updated)[n]? = table[n]? := by
  unfold setCertnameFactsExpiration
  split
  · split
    · exact insert_other table certname n _ hn
    · rfl
  · exact insert_other table certname n _ hn

section Frames

variable [DecidableEq C] [DecidableEq F] [DecidableEq P] [DecidableEq I] [DecidableEq R]

omit [DecidableEq F] [DecidableEq P] [DecidableEq I] [DecidableEq R] in
theorem catalogs_other (B : CatalogStorage.Backend C) (s : CatalogStorage.CatalogStore C)
    (c : Catalogs.Catalog) (received : Instant) (n : String) (hn : n ≠ c.certname) :
    (CatalogStorage.store B s (c, received)).nodes n = s.nodes n := by
  unfold CatalogStorage.store
  obtain ⟨-, h⟩ | ⟨-, e, -, h⟩ | ⟨-, node, s', -, hnodes, h⟩ :=
    CatalogStorage.replaceCatalog_cases B s c received
  · simp only [h]
  · simp only [h]
  · simp only [h, hnodes, Function.update_of_ne hn]

omit [DecidableEq C] [DecidableEq P] [DecidableEq I] [DecidableEq R] in
theorem factsets_other (D : FactStorage.FactDigests F) (s : FactStorage.FactStore F)
    (d : FactStorage.FactData) (n : String) (hn : n ≠ d.certname) :
    (FactStorage.store D s d).factsets[n]? = s.factsets[n]? := by
  unfold FactStorage.store
  obtain ⟨-, h⟩ | ⟨row, -, -, h⟩ | ⟨row, -, -, h⟩ := FactStorage.replaceFacts_cases D s d
  · rw [h]
    exact insert_other s.factsets d.certname n _ hn
  · rw [h]
  · rw [h]
    exact insert_other s.factsets d.certname n _ hn

omit [DecidableEq C] [DecidableEq F] [DecidableEq I] [DecidableEq R] in
theorem packages_other (H' : Packages.PackageDigests H P) (facts : FactStorage.FactStore F)
    (s : Packages.PackageStore P) (d : FactStorage.FactData) (n : String) (hn : n ≠ d.certname) :
    Packages.storePackages H' facts s d n = s n := by
  unfold Packages.storePackages
  cases facts.factsets[d.certname]? with
  | none =>
    simp only
    split
    · exact Function.update_of_ne hn _ _
    · rfl
  | some row =>
    simp only
    split
    · rfl
    · split
      · exact Function.update_of_ne hn _ _
      · rfl

omit [DecidableEq C] [DecidableEq F] [DecidableEq P] [DecidableEq R] in
theorem inputs_other (B : CatalogInputs.Backend I) (s : CatalogInputs.InputStore I)
    (c : CatalogInputs.InputsData) (n : String) (hn : n ≠ c.certname) :
    CatalogInputs.store B s c n = s n := by
  unfold CatalogInputs.store
  split
  · rfl
  · unfold CatalogInputs.replaceCatalogInputs
    split
    · rfl
    · cases CatalogInputs.incorporate B (s c.certname) c with
      | error e => rfl
      | ok node => exact Function.update_of_ne hn _ _

/-- A command touches the rows of its own node only. -/
theorem nodeRows_execute_other (B : Backends C F H P I R) (s : State C F P I R)
    (hinv : Reports.Inv B.reports s.reports) (howned : Owned s.reports) (c : Activation.Command)
    (n : String) (hn : n ≠ c.certname) : nodeRows (execute B s c) n = nodeRows s n := by
  cases c with
  | replace c =>
    by_cases hok : replaceSucceeds B s c = true
    · simp only [execute, if_pos hok]
      have hstatus := maybeActivateNode_other s.statuses c.certname c.producerTimestamp n hn
      cases c with
      | replaceCatalog cat received =>
        exact nodeRows_congr _ _ n hstatus (catalogs_other B.catalogs _ cat received n hn)
          rfl rfl rfl rfl rfl rfl
      | replaceFacts d =>
        exact nodeRows_congr _ _ n hstatus rfl (factsets_other B.facts _ d n hn)
          (packages_other B.packages _ _ d n hn) rfl rfl rfl rfl
      | replaceCatalogInputs i =>
        exact nodeRows_congr _ _ n hstatus rfl rfl rfl (inputs_other B.inputs _ i n hn) rfl rfl rfl
    · simp only [execute, if_neg hok]
  | storeReport sub =>
    have hstatus : (Reports.store B.reports s.reports sub).statuses[n]? = s.statuses[n]? := by
      obtain ⟨h, -⟩ | h := Reports.statuses_store B.reports s.reports sub
      · rw [h]
        rfl
      · rw [h]
        exact maybeActivateNode_other _ _ _ n hn
    obtain ⟨hreports, hevents⟩ := store_other B.reports s.reports hinv howned sub n hn
    exact nodeRows_congr _ _ n hstatus rfl rfl rfl rfl hreports hevents rfl
  | configureExpiration certname expireFacts time =>
    cases expireFacts with
    | none => rfl
    | some expire =>
      exact nodeRows_congr _ _ n (maybeActivateNode_other _ _ _ n hn) rfl rfl rfl rfl rfl rfl
        (setCertnameFactsExpiration_other _ _ _ _ n hn)
  | deactivateNode certname time =>
    have hstatus := (deactivateNode_other (ensureCertname s.statuses certname)
      (records s certname) certname time n hn).trans (ensureCertname_other s.statuses certname n hn)
    exact nodeRows_congr _ _ n hstatus rfl rfl rfl rfl rfl rfl rfl

/-- Every node has a row in `certnames` before anything else, and what the tables of the reports
keep. -/
structure Integrity (B : Backends C F H P I R) (s : State C F P I R) : Prop where
  reports : Reports.Inv B.reports s.reports
  owned : Owned s.reports
  known : ∀ n : String, s.statuses[n]? = none → nodeRows s n = NodeRows.unknown
  stored : ∀ n, ∀ r ∈ records s n, ∃ d, r = Instant.toTimestamptz d

omit [DecidableEq C] [DecidableEq F] [DecidableEq P] [DecidableEq I] [DecidableEq R] in
theorem integrity_empty (B : Backends C F H P I R) :
    Integrity B (State.empty : State C F P I R) where
  reports := Reports.inv_empty B.reports
  owned := by simp [Owned, State.empty, Reports.ReportDb.empty]
  known := by
    intro n _
    simp [nodeRows, NodeRows.unknown, State.empty, State.statuses, Reports.ReportDb.empty,
      Confluence.Stores.empty, CatalogStorage.CatalogStore.empty, FactStorage.FactStore.empty,
      Packages.PackageStore.empty, CatalogInputs.InputStore.empty]
  stored := by
    simp [records, catalogTimes, factsetTimes, reportTimes, State.empty, Confluence.Stores.empty,
      CatalogStorage.CatalogStore.empty, FactStorage.FactStore.empty, Reports.ReportDb.empty,
      Reports.latestRows]

omit [DecidableEq C] [DecidableEq F] [DecidableEq P] [DecidableEq I] [DecidableEq R] in
/-- The stored times of a node are among its rows. -/
theorem records_congr (s s' : State C F P I R) (n : String) (h : nodeRows s' n = nodeRows s n) :
    records s' n = records s n := by
  have hlatest (s : State C F P I R) : Reports.latestRows s.reports n =
      (nodeRows s n).reports.filter (·.latest) := by
    simp only [nodeRows, Reports.latestRows, List.filter_filter]
    exact List.filter_congr fun r _ => by simp [Reports.isLatestOf, Bool.and_comm]
  have hrecords (s : State C F P I R) : records s n =
      ((nodeRows s n).catalog.metadata.map (·.producerTimestamp)).toList ++
        ((nodeRows s n).factset.map (·.producerTimestamp)).toList ++
        ((nodeRows s n).reports.filter (·.latest)).map (·.producerTimestamp) := by
    rw [← hlatest]
    rfl
  rw [hrecords, hrecords, h]

omit [DecidableEq C] [DecidableEq F] [DecidableEq P] [DecidableEq I] [DecidableEq R] in
theorem maybeActivateNode_known (s : Statuses) (certname : String) (time : Instant) :
    (maybeActivateNode s certname time).1[certname]? ≠ none := by
  unfold maybeActivateNode
  split
  · rename_i node hnode
    split
    · simp [hnode]
    · split
      · simp [hnode]
      · split
        · simp
        · simp [hnode]
  · simp

omit [DecidableEq C] [DecidableEq F] [DecidableEq P] [DecidableEq I] [DecidableEq R] in
theorem deactivateNode_known (s : Statuses) (rows : List Instant) (certname : String)
    (time : Instant) : (deactivateNode (ensureCertname s certname) rows certname time).1[certname]? ≠
      none := by
  have hensure : (ensureCertname s certname)[certname]? ≠ none := by
    unfold ensureCertname
    split
    · rename_i node hnode
      simp [hnode]
    · simp
  unfold deactivateNode
  split
  · exact hensure
  · split
    · split
      · simp
      · exact hensure
    · exact hensure

/-- A command whose node is not known afterwards has failed. -/
theorem nodeRows_execute_unknown (B : Backends C F H P I R) (s : State C F P I R)
    (c : Activation.Command) (h : (execute B s c).statuses[c.certname]? = none) :
    nodeRows (execute B s c) c.certname = nodeRows s c.certname := by
  cases c with
  | replace c =>
    by_cases hok : replaceSucceeds B s c = true
    · simp only [execute, if_pos hok] at h
      exact absurd h (maybeActivateNode_known _ _ _)
    · simp only [execute, if_neg hok]
  | storeReport sub =>
    obtain ⟨-, e, he⟩ | hactive := Reports.statuses_store B.reports s.reports sub
    · obtain ⟨-, -, hsame⟩ | ⟨db₀, status, -, -, hok⟩ :=
        Reports.addReport_cases B.reports s.reports sub
      · exact nodeRows_congr _ _ _
          (congrArg (fun statuses : Statuses => statuses[sub.report.certname]?) hsame.statuses)
          rfl rfl rfl rfl (congrArg (List.filter _) hsame.reports)
          (congrArg (List.filter _) hsame.events) rfl
      · rw [he] at hok
        cases hok
    · have hnone : (Reports.store B.reports s.reports sub).statuses[sub.report.certname]? =
        none := h
      rw [hactive] at hnone
      exact absurd hnone (maybeActivateNode_known _ _ _)
  | configureExpiration certname expireFacts time =>
    cases expireFacts with
    | none => rfl
    | some expire => exact absurd h (maybeActivateNode_known _ _ _)
  | deactivateNode certname time => exact absurd h (deactivateNode_known _ _ _ _)

theorem inv_execute (B : Backends C F H P I R) (s : State C F P I R) (c : Activation.Command)
    (hinv : Reports.Inv B.reports s.reports) :
    Reports.Inv B.reports (execute B s c).reports := by
  cases c with
  | replace c =>
    by_cases hok : replaceSucceeds B s c = true
    · simp only [execute, if_pos hok]
      exact Reports.inv_statuses B.reports s.reports hinv _
    · simp only [execute, if_neg hok]
      exact hinv
  | storeReport sub => exact Reports.inv_store B.reports s.reports sub hinv
  | configureExpiration certname expireFacts time =>
    cases expireFacts with
    | none => exact hinv
    | some expire => exact Reports.inv_statuses B.reports s.reports hinv _
  | deactivateNode certname time => exact Reports.inv_statuses B.reports s.reports hinv _

theorem owned_execute (B : Backends C F H P I R) (s : State C F P I R) (c : Activation.Command)
    (hinv : Reports.Inv B.reports s.reports) (howned : Owned s.reports) :
    Owned (execute B s c).reports := by
  cases c with
  | replace c =>
    by_cases hok : replaceSucceeds B s c = true
    · simp only [execute, if_pos hok]
      exact howned
    · simp only [execute, if_neg hok]
      exact howned
  | storeReport sub => exact owned_store B.reports s.reports hinv howned sub
  | configureExpiration certname expireFacts time =>
    cases expireFacts with
    | none => exact howned
    | some expire => exact howned
  | deactivateNode certname time => exact howned

theorem integrity_execute (B : Backends C F H P I R) (s : State C F P I R) (c : Activation.Command)
    (hs : Integrity B s) : Integrity B (execute B s c) := by
  have hother (n : String) (hn : n ≠ c.certname) : nodeRows (execute B s c) n = nodeRows s n :=
    nodeRows_execute_other B s hs.reports hs.owned c n hn
  refine ⟨inv_execute B s c hs.reports, owned_execute B s c hs.reports hs.owned,
    fun n hn => ?_, fun n r hr => ?_⟩
  · have hrows : nodeRows (execute B s c) n = nodeRows s n := by
      by_cases he : n = c.certname
      · subst he
        exact nodeRows_execute_unknown B s c hn
      · exact hother n he
    have hbefore : s.statuses[n]? = none := (congrArg NodeRows.status hrows).symm.trans hn
    rw [hrows]
    exact hs.known n hbefore
  · by_cases he : n = c.certname
    · subst he
      obtain hold | ⟨-, hnew⟩ :=
        (records_execute B s c hs.reports (hs.stored c.certname)).1.origin r hr
      · exact hs.stored _ r hold
      · exact ⟨_, hnew⟩
    · rw [records_congr s _ n (hother n he)] at hr
      exact hs.stored n r hr

omit [DecidableEq C] [DecidableEq F] [DecidableEq P] [DecidableEq I] [DecidableEq R] in
theorem statuses_expireStaleNodes (s : State C F P I R) (staleStart expired : Instant)
    (n : String) : (expireStaleNodes s staleStart expired).statuses[n]? =
      s.statuses[n]?.map fun node =>
        if isStale s staleStart n node then
          { node with expired := some (Instant.toTimestamptz expired) }
        else node := by
  rw [expireStaleNodes, withStatuses_statuses, Std.ExtTreeMap.getElem?_map]

omit [DecidableEq C] [DecidableEq F] [DecidableEq P] [DecidableEq I] [DecidableEq R] in
theorem integrity_expireStaleNodes (B : Backends C F H P I R) (s : State C F P I R)
    (staleStart expired : Instant) (hs : Integrity B s) :
    Integrity B (expireStaleNodes s staleStart expired) := by
  refine ⟨Reports.inv_statuses B.reports s.reports hs.reports _, hs.owned, fun n hn => ?_,
    hs.stored⟩
  have hbefore : s.statuses[n]? = none := by
    rw [statuses_expireStaleNodes, Option.map_eq_none_iff] at hn
    exact hn
  rw [← hs.known n hbefore]
  exact nodeRows_congr _ _ n (hn.trans hbefore.symm) rfl rfl rfl rfl rfl rfl rfl

omit [DecidableEq C] [DecidableEq F] [DecidableEq P] [DecidableEq I] [DecidableEq R] in
theorem integrity_deleteCertnames (B : Backends C F H P I R) (s : State C F P I R)
    (certnames : List String) (hs : Integrity B s) :
    Integrity B (deleteCertnames s certnames) := by
  refine ⟨inv_deleteCertnames B.reports s hs.reports hs.owned certnames,
    owned_deleteCertnames s hs.owned certnames, fun n hn => ?_, fun n r hr => ?_⟩
  · have hrows := nodeRows_deleteCertnames s certnames n
    split at hrows
    · exact hrows
    · rw [hrows]
      exact hs.known n ((congrArg NodeRows.status hrows).symm.trans hn)
  · have hrows := nodeRows_deleteCertnames s certnames n
    split at hrows
    · have hempty := (integrity_empty B).known n (by
        simp [State.empty, State.statuses, Reports.ReportDb.empty])
      rw [records_congr State.empty _ n (hrows.trans hempty.symm)] at hr
      exact (integrity_empty B).stored n r hr
    · rw [records_congr s _ n hrows] at hr
      exact hs.stored n r hr

/-- What one event keeps. -/
theorem integrity_step (B : Backends C F H P I R) (s : State C F P I R) (e : Event)
    (s' : State C F P I R) (hs : Integrity B s) (hstep : step B s e = some s') : Integrity B s' := by
  cases e with
  | command c =>
    cases hstep
    exact integrity_execute B s c hs
  | expireStaleNodes staleStart expired =>
    cases hstep
    exact integrity_expireStaleNodes B s staleStart expired hs
  | purgeDeactivatedAndExpiredNodes horizon batchLimit certnames =>
    obtain ⟨-, hdeleted⟩ := Option.ite_none_right_eq_some.mp hstep
    cases hdeleted
    exact integrity_deleteCertnames B s certnames hs
  | deleteCertname certname =>
    cases hstep
    exact integrity_deleteCertnames B s [certname] hs

/-- However commands, sweeps, purges and deletions follow each other: whatever is stored is of a
node in `certnames`, events go with the report they belong to, and every node with a report that
is no plan's has exactly one latest report, the newest of them. -/
theorem integrity_along_run (B : Backends C F H P I R) (events : List Event)
    (s : State C F P I R) (hplay : play (step B) State.empty events = some s) : Integrity B s :=
  play_invariant (integrity_step B) events State.empty s (integrity_empty B) hplay

end Frames

/-- A node whose facts come, that expires and is deleted. -/
theorem integrity_along_run_flag : ∃ s, play (step contentBackends) State.empty
      [.command (flagCommand 1000), .expireStaleNodes 5000 6000, .deleteCertname "n"] = some s ∧
    Integrity contentBackends s :=
  ⟨_, rfl, integrity_along_run contentBackends
    [.command (flagCommand 1000), .expireStaleNodes 5000 6000, .deleteCertname "n"] _ rfl⟩

end OpenVoxDB.NodeLifecycle
