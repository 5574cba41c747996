import OpenVoxDB.NodeLifecycle

/-!
# Sweeps and purges

A node that is active with a recent record outlasts every sweep that looks back no further and
every purge, and a purge in batches deletes what one purge deletes.
-/

namespace OpenVoxDB.NodeLifecycle

open Certnames Activation Interleaving

variable {C F H P I R : Type}

/-- The event does not look for records newer than `time`, and does not name the node. -/
def Spares (n : String) (time : Instant) : Event → Prop
  | .command (.deactivateNode certname deactivated) => certname = n → deactivated < time
  | .command _ => True
  | .expireStaleNodes staleStart _ => Instant.toTimestamptz staleStart ≤ time
  | .purgeDeactivatedAndExpiredNodes _ _ _ => True
  | .deleteCertname certname => certname ≠ n

/-- The node is active, with a catalog, a factset or a latest report no older than `time`. -/
structure Sheltered (s : State C F P I R) (n : String) (time : Instant) : Prop where
  active : s.statuses[n]? = some active
  recent : ∃ r ∈ records s n, time ≤ r

theorem sheltered_congr (s s' : State C F P I R) (n : String) (time : Instant)
    (h : nodeRows s' n = nodeRows s n) (hs : Sheltered s n time) : Sheltered s' n time := by
  have hstatus : s'.statuses[n]? = s.statuses[n]? := congrArg NodeRows.status h
  refine ⟨hstatus.trans hs.active, ?_⟩
  rw [records_congr s s' n h]
  exact hs.recent

/-! ## Sweeps -/

theorem quiet_singleton (start r : Instant) (h : Instant.toTimestamptz start ≤ r) :
    quiet start [r] = false := by
  simpa [quiet] using h

/-- A node has at most one time of each kind. -/
theorem times_eq_singleton (B : Reports.Backend R) (s : State C F P I R)
    (hinv : Reports.Inv B s.reports) (n : String) (r : Instant) :
    (r ∈ catalogTimes s n → catalogTimes s n = [r]) ∧
      (r ∈ factsetTimes s n → factsetTimes s n = [r]) ∧
      (r ∈ reportTimes s n → reportTimes s n = [r]) := by
  have hoption (o : Option Instant) (h : r ∈ o.toList) : o.toList = [r] := by
    rw [Option.mem_toList.mp h]
    rfl
  refine ⟨hoption _, hoption _, fun h => ?_⟩
  obtain ⟨row, hrow, rfl⟩ := List.mem_map.mp h
  obtain ⟨hmem, hcert, hlatest⟩ := (Reports.mem_latestRows _ _ row).mp hrow
  obtain ⟨row', hrow', -⟩ := hinv.marked row hmem (hinv.notPlan row hmem hlatest)
  rw [hcert] at hrow'
  have he : row = row' := by
    rw [hrow'] at hrow
    exact List.mem_singleton.mp hrow
  rw [reportTimes, hrow', he, List.map_singleton]

/-- A sweep that looks back no further than a record of the node passes it by. -/
theorem isStale_of_recent (B : Reports.Backend R) (s : State C F P I R)
    (hinv : Reports.Inv B s.reports) (n : String) (node : NodeStatus) (start r : Instant)
    (hr : r ∈ records s n) (hle : Instant.toTimestamptz start ≤ r) :
    isStale s start n node = false := by
  obtain ⟨hcatalog, hfactset, hreport⟩ := times_eq_singleton B s hinv n r
  have hquiet := quiet_singleton start r hle
  rcases List.mem_append.mp hr with hr | hr
  · rcases List.mem_append.mp hr with hr | hr
    · simp [isStale, hcatalog hr, hquiet]
    · simp [isStale, hfactset hr, hquiet]
  · simp [isStale, hreport hr, hquiet]

theorem sheltered_expireStaleNodes (B : Reports.Backend R) (s : State C F P I R)
    (hinv : Reports.Inv B s.reports) (n : String) (time start expired : Instant)
    (hle : Instant.toTimestamptz start ≤ time) (hs : Sheltered s n time) :
    Sheltered (expireStaleNodes s start expired) n time := by
  obtain ⟨r, hr, htime⟩ := hs.recent
  refine ⟨?_, r, hr, htime⟩
  rw [statuses_expireStaleNodes, hs.active, Option.map_some,
    isStale_of_recent B s hinv n active start r hr (hle.trans htime)]
  rfl

/-! ## Purges -/

theorem mem_purgeableCertnames (s : State C F P I R) (horizon : Instant) (n : String) :
    n ∈ purgeableCertnames s horizon ↔
      ∃ node, s.statuses[n]? = some node ∧ purgeable horizon node = true := by
  rw [purgeableCertnames, Std.ExtTreeMap.mem_keys, Std.ExtTreeMap.mem_iff_isSome_getElem?,
    Std.ExtTreeMap.getElem?_filter']
  cases s.statuses[n]? with
  | none => simp
  | some node => cases hp : purgeable horizon node <;> simp [Option.filter, hp]

theorem nodup_purgeableCertnames (s : State C F P I R) (horizon : Instant) :
    (purgeableCertnames s horizon).Nodup := Std.ExtTreeMap.nodup_keys

theorem not_purgeable_of_active (s : State C F P I R) (horizon : Instant) (n : String)
    (h : s.statuses[n]? = some active) : n ∉ purgeableCertnames s horizon := by
  intro hmem
  obtain ⟨node, hnode, hp⟩ := (mem_purgeableCertnames s horizon n).mp hmem
  rw [h] at hnode
  cases hnode
  simp [purgeable, active] at hp

section Steps

variable [DecidableEq C] [DecidableEq F] [DecidableEq P] [DecidableEq I] [DecidableEq R]

theorem sheltered_execute (B : Backends C F H P I R) (s : State C F P I R)
    (hinv : Integrity B s) (n : String) (time : Instant) (c : Activation.Command)
    (hc : Spares n time (.command c)) (hs : Sheltered s n time) :
    Sheltered (execute B s c) n time := by
  by_cases hn : n = c.certname
  · subst hn
    obtain ⟨r, hr, hle⟩ := hs.recent
    obtain ⟨r', hr', hle'⟩ :=
      (records_execute B s c hinv.reports (hinv.stored c.certname)).1.kept r hr
    refine ⟨?_, r', hr', hle.trans hle'⟩
    cases hde : c.isDeactivation with
    | false =>
      obtain ⟨hsame, -⟩ | hactive := statuses_execute B s c hde
      · rw [hsame]
        exact hs.active
      · rw [hactive, maybeActivateNode_of_active _ _ _ hs.active]
        exact hs.active
    | true =>
      cases c with
      | deactivateNode certname deactivated =>
        -- a record is newer, so the deactivation is refused
        have hnewer : haveNewerRecord (records s certname) deactivated = true :=
          List.any_eq_true.mpr ⟨r, hr, decide_eq_true ((hc rfl).trans_le hle)⟩
        have hensure : ensureCertname s.statuses certname = s.statuses := by
          have hactive := hs.active
          simp only [Command.certname] at hactive
          simp only [ensureCertname, hactive]
        simp only [execute, deactivateNode, hnewer, if_true, hensure, withStatuses_statuses]
        exact hs.active
      | replace c => cases hde
      | storeReport sub => cases hde
      | configureExpiration certname expireFacts time => cases hde
  · exact sheltered_congr s _ n time
      (nodeRows_execute_other B s hinv.reports hinv.owned c n hn) hs

theorem sheltered_step (B : Backends C F H P I R) (n : String) (time : Instant)
    (s : State C F P I R) (e : Event) (s' : State C F P I R) (he : Spares n time e)
    (hs : Integrity B s ∧ Sheltered s n time) (hstep : step B s e = some s') :
    Integrity B s' ∧ Sheltered s' n time := by
  obtain ⟨hinv, hs⟩ := hs
  refine ⟨integrity_step B s e s' hinv hstep, ?_⟩
  cases e with
  | command c =>
    cases hstep
    exact sheltered_execute B s hinv n time c he hs
  | expireStaleNodes staleStart expired =>
    cases hstep
    exact sheltered_expireStaleNodes B.reports s hinv.reports n time staleStart expired he hs
  | purgeDeactivatedAndExpiredNodes horizon batchLimit certnames =>
    obtain ⟨hselects, hdeleted⟩ := Option.ite_none_right_eq_some.mp hstep
    cases hdeleted
    have hn : n ∉ certnames := fun hmem =>
      not_purgeable_of_active s horizon n hs.active (hselects.2.1 n hmem)
    refine sheltered_congr s _ n time ?_ hs
    rw [nodeRows_deleteCertnames, if_neg hn]
  | deleteCertname certname =>
    cases hstep
    refine sheltered_congr s _ n time ?_ hs
    have hn : n ∉ [certname] := fun hmem => he (List.mem_singleton.mp hmem).symm
    rw [deleteCertname, nodeRows_deleteCertnames, if_neg hn]

/-- A node that is active with a record of some time stays active and stored, whatever commands
come for whichever node, and whatever is swept and purged, as long as no sweep looks for records
after that time, no deactivation of the node is as new, and the node is not deleted by name. -/
theorem sheltered_along_run (B : Backends C F H P I R) (n : String) (time : Instant)
    (before after : List Event) (s s' : State C F P I R)
    (hbefore : play (step B) State.empty before = some s) (hs : Sheltered s n time)
    (hafter : play (step B) s after = some s') (hspares : ∀ e ∈ after, Spares n time e) :
    Sheltered s' n time :=
  (play_invariant_of (sheltered_step B n time) after hspares s s'
    ⟨integrity_along_run B before s hbefore, hs⟩ hafter).2

end Steps

/-- The facts of a node outlast an older deactivation, a sweep and a purge. -/
theorem sheltered_along_run_flag : ∃ s s', play (step contentBackends) State.empty
      [.command (flagCommand 2000)] = some s ∧ play (step contentBackends) s
        [.command (.deactivateNode "n" 1000), .expireStaleNodes 2000 9000] = some s' ∧
      Sheltered s' "n" 2000 := by
  refine ⟨_, _, rfl, rfl, sheltered_along_run contentBackends "n" 2000
    [.command (flagCommand 2000)] [.command (.deactivateNode "n" 1000), .expireStaleNodes 2000 9000]
    _ _ rfl ⟨?_, ?_⟩ rfl ?_⟩
  · decide +kernel
  · decide +kernel
  · simp [Spares, Instant.toTimestamptz]

/-! ## Batches -/

theorem deleteCertnames_deleteCertnames (s : State C F P I R) (a b : List String) :
    deleteCertnames (deleteCertnames s a) b = deleteCertnames s (a ++ b) := by
  have hdissoc {ν : Type} (m : Dict String ν) : Dict.dissoc (Dict.dissoc m (· ∈ a)) (· ∈ b) =
      Dict.dissoc m (· ∈ a ++ b) := by
    refine Std.ExtTreeMap.ext_getElem? fun n => ?_
    by_cases ha : n ∈ a <;> by_cases hb : n ∈ b <;> simp [ha, hb]
  have hfilter {α : Type} (name : α → String) (xs : List α) :
      (xs.filter (name · ∉ a)).filter (name · ∉ b) = xs.filter (name · ∉ a ++ b) := by
    rw [List.filter_filter]
    refine List.filter_congr fun x _ => ?_
    by_cases ha : name x ∈ a <;> by_cases hb : name x ∈ b <;> simp [ha, hb]
  have hupdate {α : Type} (f : String → α) (blank : α) :
      (fun n => if n ∈ b then blank else if n ∈ a then blank else f n) =
        fun n => if n ∈ a ++ b then blank else f n := by
    funext n
    by_cases ha : n ∈ a <;> by_cases hb : n ∈ b <;> simp [ha, hb]
  simp only [deleteCertnames, hdissoc, hfilter, hupdate]

theorem deleteCertnames_nil (s : State C F P I R) : deleteCertnames s [] = s := by
  have hdissoc {ν : Type} (m : Dict String ν) : Dict.dissoc m (fun _ => false) = m :=
    Std.ExtTreeMap.ext_getElem? fun n => by simp
  simp [deleteCertnames, hdissoc]

/-- What a deletion leaves to be purged. -/
theorem mem_purgeableCertnames_deleteCertnames (s : State C F P I R) (horizon : Instant)
    (certnames : List String) (n : String) :
    n ∈ purgeableCertnames (deleteCertnames s certnames) horizon ↔
      n ∈ purgeableCertnames s horizon ∧ n ∉ certnames := by
  have hstatus : (deleteCertnames s certnames).statuses[n]? =
      if n ∈ certnames then none else s.statuses[n]? := by
    simp [deleteCertnames, State.statuses]
  rw [mem_purgeableCertnames, mem_purgeableCertnames, hstatus]
  by_cases hn : n ∈ certnames <;> simp [hn]

theorem length_purgeableCertnames_deleteCertnames (s : State C F P I R) (horizon : Instant)
    (certnames : List String) (hnodup : certnames.Nodup)
    (hsub : ∀ n ∈ certnames, n ∈ purgeableCertnames s horizon) :
    certnames.length + (purgeableCertnames (deleteCertnames s certnames) horizon).length =
      (purgeableCertnames s horizon).length := by
  rw [← List.length_append]
  refine List.Perm.length_eq ((List.perm_ext_iff_of_nodup ?_
    (nodup_purgeableCertnames s horizon)).mpr fun n => ?_)
  · refine hnodup.append (nodup_purgeableCertnames _ horizon) fun n hn hmem => ?_
    exact ((mem_purgeableCertnames_deleteCertnames s horizon certnames n).mp hmem).2 hn
  · rw [List.mem_append, mem_purgeableCertnames_deleteCertnames]
    by_cases hn : n ∈ certnames
    · simp [hn, hsub n hn]
    · simp [hn]

/-- One purge after another, each with the nodes that it chooses. -/
def batches (horizon : Instant) (batchLimit : Nat) (chosen : List (List String)) : List Event :=
  chosen.map fun certnames => .purgeDeactivatedAndExpiredNodes horizon (some batchLimit) certnames

/-- A selection after a selection is a selection with the limits added. -/
theorem selects_append (s : State C F P I R) (horizon : Instant) (limit limit' : Nat)
    (a b : List String) (ha : Selects s horizon (some limit) a)
    (hb : Selects (deleteCertnames s a) horizon (some limit') b) :
    Selects s horizon (some (limit + limit')) (a ++ b) := by
  obtain ⟨hanodup, hasub, halength⟩ := ha
  obtain ⟨hbnodup, hbsub, hblength⟩ := hb
  have hleft := length_purgeableCertnames_deleteCertnames s horizon a hanodup hasub
  have hkept (n : String) (hn : n ∈ b) :=
    (mem_purgeableCertnames_deleteCertnames s horizon a n).mp (hbsub n hn)
  refine ⟨hanodup.append hbnodup fun n hna hnb => (hkept n hnb).2 hna, fun n hn => ?_, ?_⟩
  · rcases List.mem_append.mp hn with hn | hn
    · exact hasub n hn
    · exact (hkept n hn).1
  · simp only [List.length_append] at halength hblength ⊢
    omega

section Batches

variable [DecidableEq C] [DecidableEq F] [DecidableEq P] [DecidableEq I] [DecidableEq R]

theorem play_batches (B : Backends C F H P I R) (horizon : Instant) (limit : Nat)
    (chosen : List (List String)) (s s' : State C F P I R)
    (hplay : play (step B) s (batches horizon limit chosen) = some s') :
    Selects s horizon (some (chosen.length * limit)) chosen.flatten ∧
      s' = deleteCertnames s chosen.flatten := by
  induction chosen generalizing s with
  | nil =>
    cases hplay
    rw [List.flatten_nil, deleteCertnames_nil]
    exact ⟨⟨List.nodup_nil, by simp, by simp⟩, rfl⟩
  | cons certnames chosen ih =>
    obtain ⟨t, hfirst, hrest⟩ := (play_cons_eq_some s s' _ _).mp hplay
    obtain ⟨hselects, hdeleted⟩ := Option.ite_none_right_eq_some.mp hfirst
    cases hdeleted
    obtain ⟨hothers, rfl⟩ := ih _ hrest
    rw [deleteCertnames_deleteCertnames, List.flatten_cons, List.length_cons,
      show (chosen.length + 1) * limit = limit + chosen.length * limit by ring]
    exact ⟨selects_append s horizon _ _ _ _ hselects hothers, rfl⟩

/-- Purges in batches delete what one purge with the sum of their limits deletes; once that is
enough for all, what a purge without a limit deletes. -/
theorem purge_in_batches (B : Backends C F H P I R) (horizon : Instant) (limit : Nat)
    (chosen : List (List String)) (s s' : State C F P I R)
    (hplay : play (step B) s (batches horizon limit chosen) = some s') :
    step B s (.purgeDeactivatedAndExpiredNodes horizon (some (chosen.length * limit))
        chosen.flatten) = some s' ∧
      ((purgeableCertnames s horizon).length ≤ chosen.length * limit →
        step B s (.purgeDeactivatedAndExpiredNodes horizon none chosen.flatten) = some s' ∧
          purgeableCertnames s' horizon = []) := by
  obtain ⟨hselects, rfl⟩ := play_batches B horizon limit chosen s s' hplay
  refine ⟨if_pos hselects, fun hle => ?_⟩
  obtain ⟨hnodup, hsub, hlength⟩ := hselects
  have hall : chosen.flatten.length = (purgeableCertnames s horizon).length := by
    simp only at hlength
    omega
  refine ⟨if_pos ⟨hnodup, hsub, hall⟩, ?_⟩
  have hleft := length_purgeableCertnames_deleteCertnames s horizon chosen.flatten hnodup hsub
  exact List.length_eq_zero_iff.mp (by omega)

end Batches

/-- Two nodes that have been deactivated, purged one by one. -/
theorem purge_in_batches_one : ∃ s s', play (step contentBackends) State.empty
      [.command (.deactivateNode "n" 1000), .command (.deactivateNode "m" 1000)] = some s ∧
    play (step contentBackends) s (batches 2000 1 [["m"], ["n"]]) = some s' ∧
      purgeableCertnames s' 2000 = [] := by
  have hplay : play (step contentBackends)
      (execute contentBackends (execute contentBackends State.empty (.deactivateNode "n" 1000))
        (.deactivateNode "m" 1000)) (batches 2000 1 [["m"], ["n"]]) =
      some (deleteCertnames (deleteCertnames (execute contentBackends (execute contentBackends
        State.empty (.deactivateNode "n" 1000)) (.deactivateNode "m" 1000)) ["m"]) ["n"]) := by
    rw [batches, List.map_cons, List.map_cons, List.map_nil]
    refine (play_cons_eq_some _ _ _ _).mpr ⟨_, if_pos (by decide +kernel), ?_⟩
    exact (play_cons_eq_some _ _ _ _).mpr ⟨_, if_pos (by decide +kernel), rfl⟩
  exact ⟨_, _, rfl, hplay, ((purge_in_batches contentBackends 2000 1 [["m"], ["n"]] _ _ hplay).2
    (by decide +kernel)).2⟩

end OpenVoxDB.NodeLifecycle
