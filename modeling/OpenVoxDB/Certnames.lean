import OpenVoxDB.Dict
import OpenVoxDB.Time

/-!
# Activation of nodes

A row of `certnames_status` says since when its node is deactivated or expired.
A command for a node reactivates it unless one of these times is later, and a
deactivation is refused when the node has a later record.
-/

namespace OpenVoxDB.Certnames

/-- A row of `certnames_status`. -/
structure NodeStatus where
  deactivated : Option Instant
  expired : Option Instant
  deriving DecidableEq, Repr

abbrev Statuses := Dict String NodeStatus

def active : NodeStatus := ⟨none, none⟩

/-- `maybe-activate-node!` with whether the node is active afterwards. -/
def maybeActivateNode (s : Statuses) (certname : String) (time : Instant) : Statuses × Bool :=
  match s[certname]? with
  | some node =>
    if node.deactivated = none ∧ node.expired = none then (s, true)
    else if node.deactivated.any (time < ·) || node.expired.any (time < ·) then (s, false)
    else if node.deactivated.any (· < Instant.toTimestamptz time) ||
        node.expired.any (· < Instant.toTimestamptz time) then
      (s.insert certname active, true)
    else (s, false)
  | none => (s.insert certname active, true)

/-- `ensure-certname` -/
def ensureCertname (s : Statuses) (certname : String) : Statuses :=
  match s[certname]? with
  | some _ => s
  | none => s.insert certname active

inductive Status where
  | incorporated
  | stale
  deriving DecidableEq, Repr

/-- `have-newer-record-for-certname?`, given the stored times of the node's records. -/
def haveNewerRecord (records : List Instant) (time : Instant) : Bool := records.any (time < ·)

/-- `deactivate-node!`, given the stored times of the node's records. -/
def deactivateNode (s : Statuses) (records : List Instant) (certname : String) (time : Instant) :
    Statuses × Status :=
  if haveNewerRecord records time then (s, .stale)
  else
    match s[certname]? with
    | some node =>
      if node.deactivated.all (· < Instant.toTimestamptz time) then
        (s.insert certname { node with deactivated := some (Instant.toTimestamptz time) },
          .incorporated)
      else (s, .incorporated)
    | none => (s, .incorporated)

/-- An active node is left alone. -/
theorem maybeActivateNode_of_active (s : Statuses) (certname : String) (time : Instant)
    (h : s[certname]? = some active) : maybeActivateNode s certname time = (s, true) := by
  simp [maybeActivateNode, h, active]

/-- Where every node is active, a command adds its own node and changes no other. -/
theorem maybeActivateNode_of_allActive (s : Statuses) (certname : String) (time : Instant)
    (h : ∀ (other : String) (node : NodeStatus), s[other]? = some node → node = active)
    (other : String) :
    (maybeActivateNode s certname time).1[other]? =
      if other = certname then some active else s[other]? := by
  cases hc : s[certname]? with
  | some node =>
    obtain rfl := h certname node hc
    rw [maybeActivateNode_of_active s certname time hc]
    split
    · rename_i he
      rw [he, hc]
    · rfl
  | none =>
    simp only [maybeActivateNode, hc, Std.ExtTreeMap.getElem?_insert]
    by_cases he : other = certname
    · simp [he]
    · rw [if_neg he, if_neg fun hcompare => he (Std.LawfulEqOrd.eq_of_compare hcompare).symm]

/-- Since when a node is deactivated. -/
def deactivatedAt (s : Statuses) (certname : String) : Option Instant :=
  s[certname]?.bind NodeStatus.deactivated

/-- The node has not expired, and is deactivated as of a stored time if at all. -/
structure Unexpired (s : Statuses) (certname : String) : Prop where
  expired : ∀ node, s[certname]? = some node → node.expired = none
  stored : ∀ t, deactivatedAt s certname = some t → ∃ d, t = Instant.toTimestamptz d

/-- A command reactivates its node when its stored time is after that of the deactivation. -/
theorem deactivatedAt_maybeActivateNode (s : Statuses) (certname : String) (time : Instant)
    (h : Unexpired s certname) :
    deactivatedAt (maybeActivateNode s certname time).1 certname =
      if (deactivatedAt s certname).any (· < Instant.toTimestamptz time) then none
      else deactivatedAt s certname := by
  cases hrow : s[certname]? with
  | none => simp [maybeActivateNode, deactivatedAt, hrow, active]
  | some node =>
    have hexpired := h.expired node hrow
    cases hde : node.deactivated with
    | none => simp [maybeActivateNode, deactivatedAt, hrow, hde, hexpired]
    | some t =>
      obtain ⟨d, rfl⟩ := h.stored t (by simp [deactivatedAt, hrow, hde])
      by_cases hlate : time < Instant.toTimestamptz d
      · -- the deactivation is later than the command, so also than its stored time
        have hnot : ¬ Instant.toTimestamptz d < Instant.toTimestamptz time :=
          Int.not_lt.mpr (Instant.toTimestamptz_le_of_le (Int.le_of_lt hlate))
        simp [maybeActivateNode, deactivatedAt, hrow, hde, hexpired, hlate, hnot]
      · by_cases hearly : Instant.toTimestamptz d < Instant.toTimestamptz time
        · simp [maybeActivateNode, deactivatedAt, hrow, hde, hexpired, hlate, hearly, active]
        · simp [maybeActivateNode, deactivatedAt, hrow, hde, hexpired, hlate, hearly]

theorem unexpired_maybeActivateNode (s : Statuses) (certname : String) (time : Instant)
    (h : Unexpired s certname) : Unexpired (maybeActivateNode s certname time).1 certname := by
  constructor
  · intro node hnode
    unfold maybeActivateNode at hnode
    split at hnode
    · split at hnode
      · exact h.expired node hnode
      · split at hnode
        · exact h.expired node hnode
        · split at hnode
          · rw [Std.ExtTreeMap.getElem?_insert_self, Option.some.injEq] at hnode
            rw [← hnode, active]
          · exact h.expired node hnode
    · rw [Std.ExtTreeMap.getElem?_insert_self, Option.some.injEq] at hnode
      rw [← hnode, active]
  · intro t ht
    rw [deactivatedAt_maybeActivateNode s certname time h] at ht
    split at ht
    · cases ht
    · exact h.stored t ht

theorem deactivatedAt_ensureCertname (s : Statuses) (certname : String) :
    deactivatedAt (ensureCertname s certname) certname = deactivatedAt s certname := by
  cases hrow : s[certname]? with
  | none => simp [ensureCertname, deactivatedAt, hrow, active]
  | some node => simp [ensureCertname, deactivatedAt, hrow]

theorem unexpired_ensureCertname (s : Statuses) (certname : String) (h : Unexpired s certname) :
    Unexpired (ensureCertname s certname) certname := by
  constructor
  · intro node hnode
    cases hrow : s[certname]? with
    | none =>
      simp only [ensureCertname, hrow, Std.ExtTreeMap.getElem?_insert_self,
        Option.some.injEq] at hnode
      rw [← hnode, active]
    | some old =>
      simp only [ensureCertname, hrow] at hnode
      exact h.expired node (hrow.trans hnode)
  · intro t ht
    rw [deactivatedAt_ensureCertname] at ht
    exact h.stored t ht

/-- A deactivation that is not refused is recorded unless a later one is. -/
theorem deactivatedAt_deactivateNode (s : Statuses) (records : List Instant) (certname : String)
    (time : Instant) (hknown : s[certname]?.isSome) :
    deactivatedAt (deactivateNode s records certname time).1 certname =
      if haveNewerRecord records time ∨
          (deactivatedAt s certname).any (Instant.toTimestamptz time ≤ ·) then
        deactivatedAt s certname
      else some (Instant.toTimestamptz time) := by
  obtain ⟨node, hrow⟩ := Option.isSome_iff_exists.mp hknown
  unfold deactivateNode
  by_cases hnewer : haveNewerRecord records time = true
  · simp [hnewer]
  · cases hde : node.deactivated with
    | none => simp [hnewer, deactivatedAt, hrow, hde]
    | some t =>
      by_cases hlt : t < Instant.toTimestamptz time
      · have hnot : ¬ Instant.toTimestamptz time ≤ t := Int.not_le.mpr hlt
        simp [hnewer, deactivatedAt, hrow, hde, hlt, hnot]
      · have hle : Instant.toTimestamptz time ≤ t := Int.not_lt.mp hlt
        simp [hnewer, deactivatedAt, hrow, hde, hlt, hle]

theorem unexpired_deactivateNode (s : Statuses) (records : List Instant) (certname : String)
    (time : Instant) (h : Unexpired s certname) :
    Unexpired (deactivateNode s records certname time).1 certname := by
  unfold deactivateNode
  split
  · exact h
  · cases hrow : s[certname]? with
    | none => exact h
    | some node =>
      simp only
      split
      · constructor
        · intro node' hnode
          rw [Std.ExtTreeMap.getElem?_insert_self, Option.some.injEq] at hnode
          rw [← hnode]
          exact h.expired node hrow
        · intro t ht
          simp only [deactivatedAt, Std.ExtTreeMap.getElem?_insert_self, Option.bind_some,
            Option.some.injEq] at ht
          exact ⟨time, ht.symm⟩
      · exact h

end OpenVoxDB.Certnames
