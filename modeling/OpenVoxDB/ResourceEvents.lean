import Mathlib
import OpenVoxDB.GroupBy
import OpenVoxDB.Reports

/-!
# Rows of resource events

`insert-resource-events` of `scf/storage.clj`: of the events of a report that have the same
`event_hash`, one is stored. The hash is taken of the event as JSON, which has its time to the
millisecond, and the row keeps the time of the event.
-/

namespace OpenVoxDB.ResourceEvents

open Grouping
open Reports (ResourceEvent resourceEventExpired)

/-- The result of `normalize-resource-event`. -/
structure NormalizedEvent extends ResourceEvent where
  containmentPath : Option (List String)
  containingClass : Option String
  correctiveChange : Option Bool
  deriving DecidableEq

/-- A row of `resource_events`. -/
structure EventRow (Digest : Type) extends NormalizedEvent where
  reportId : Nat
  certnameId : Nat
  latest : Bool
  eventHash : Digest
  deriving DecidableEq

/-- What a call of `insert-resource-events` is given beside the events. `clock` is what each
reading of the clock gives, and `digest` the hash of a report id and an event. -/
structure Insertion (Digest : Type) where
  digest : Nat → ResourceEvent → Digest
  certnameId : Nat
  reportId : Nat
  ttl : Option Int
  latest : Bool
  storeCorrectiveChange : Bool
  clock : Nat → Instant

variable {Digest : Type}

/-- A time as JSON has it: `yyyy-MM-dd'T'HH:mm:ss.SSS'Z'`. -/
def serializedTimestamp (t : Instant) : Instant := Instant.fromLong (Instant.toLong t)

/-- `resource-event-identity-pkey` -/
def resourceEventIdentityPkey (I : Insertion Digest) (e : ResourceEvent) : Digest :=
  I.digest I.reportId { e with timestamp := serializedTimestamp e.timestamp }

/-- The row of an event. -/
def toRow (I : Insertion Digest) (e : NormalizedEvent) : EventRow Digest where
  toNormalizedEvent :=
    { e with correctiveChange := if I.storeCorrectiveChange then e.correctiveChange else none }
  reportId := I.reportId
  certnameId := I.certnameId
  latest := I.latest
  eventHash := resourceEventIdentityPkey I e.toResourceEvent

@[simp] theorem toRow_eventHash (I : Insertion Digest) (e : NormalizedEvent) :
    (toRow I e).eventHash = resourceEventIdentityPkey I e.toResourceEvent := rfl

/-- The events that are younger than the time to live, by the clock when each is looked at. -/
def withinTtl (I : Insertion Digest) (events : List NormalizedEvent) : List NormalizedEvent :=
  (events.zipIdx.filter fun p =>
    I.ttl.all fun ttl => resourceEventExpired (I.clock p.2) ttl p.1.timestamp).map (·.1)

/-- `(:timestamp group)`, where a group is a vector of rows and not a map. -/
def groupTimestamp (_ : List (EventRow Digest)) : Option Instant := none

/-- `compare` of times that may be nil. -/
def compareTimestamps : Option Instant → Option Instant → Bool
  | none, _ => true
  | some _, none => false
  | some t, some u => t ≤ u

/-- The rows that `insert-resource-events` inserts, in batches. -/
def insertResourceEvents [DecidableEq Digest] (I : Insertion Digest)
    (resourceEvents : List NormalizedEvent) : List (EventRow Digest) :=
  let rows := (withinTtl I resourceEvents).map (toRow I)
  let groups := (groupBy EventRow.eventHash rows).map (·.2)
  let sorted := groups.mergeSort fun a b => compareTimestamps (groupTimestamp a) (groupTimestamp b)
  sorted.filterMap List.head?

/-! ## Which rows are inserted -/

/-- Keys that are all nil leave the groups in their order. -/
theorem mergeSort_groups (groups : List (List (EventRow Digest))) :
    groups.mergeSort (fun a b => compareTimestamps (groupTimestamp a) (groupTimestamp b)) =
      groups := by
  apply List.mergeSort_of_pairwise
  exact List.pairwise_of_forall fun _ _ => rfl

theorem insertResourceEvents_eq [DecidableEq Digest] (I : Insertion Digest)
    (events : List NormalizedEvent) :
    ∃ keys : List Digest, keys.Nodup ∧
      (∀ k, k ∈ keys ↔ ∃ r ∈ (withinTtl I events).map (toRow I), r.eventHash = k) ∧
      insertResourceEvents I events =
        keys.filterMap fun k => ((withinTtl I events).map (toRow I)).find? (·.eventHash = k) := by
  obtain ⟨keys, hnodup, hkeys, heq⟩ :=
    groupBy_eq EventRow.eventHash ((withinTtl I events).map (toRow I))
  refine ⟨keys, hnodup, hkeys, ?_⟩
  rw [insertResourceEvents, mergeSort_groups, heq, List.map_map, List.filterMap_map]
  congr 1
  funext k
  simp [List.head?_filter]

section Oldest

variable [DecidableEq Digest] (I : Insertion Digest) (events : List NormalizedEvent)

/-- Each identity among the events within the time to live has one row, which is that of the
oldest event with it. -/
structure KeepsOldest : Prop where
  oneEach : ((insertResourceEvents I events).map (·.eventHash)).Nodup
  every : ∀ e ∈ withinTtl I events, ∃ r ∈ insertResourceEvents I events,
    r.eventHash = resourceEventIdentityPkey I e.toResourceEvent
  given : ∀ r ∈ insertResourceEvents I events, ∃ e ∈ withinTtl I events, r = toRow I e
  oldest : ∀ r ∈ insertResourceEvents I events, ∀ e ∈ withinTtl I events,
    resourceEventIdentityPkey I e.toResourceEvent = r.eventHash → r.timestamp ≤ e.timestamp

/-- No event is older than an event before it that is the first with its identity. -/
def FirstIsOldest : Prop :=
  ∀ (before : List NormalizedEvent) (e : NormalizedEvent) (later : List NormalizedEvent),
    withinTtl I events = before ++ e :: later →
    (∀ d ∈ before, resourceEventIdentityPkey I d.toResourceEvent ≠
      resourceEventIdentityPkey I e.toResourceEvent) →
    ∀ d ∈ later, resourceEventIdentityPkey I d.toResourceEvent =
      resourceEventIdentityPkey I e.toResourceEvent → e.timestamp ≤ d.timestamp

/-- The rows are those of the events that are the first with their identity. -/
theorem mem_insertResourceEvents (r : EventRow Digest) :
    r ∈ insertResourceEvents I events ↔
      ∃ before e later, withinTtl I events = before ++ e :: later ∧ r = toRow I e ∧
        ∀ d ∈ before, resourceEventIdentityPkey I d.toResourceEvent ≠
          resourceEventIdentityPkey I e.toResourceEvent := by
  obtain ⟨keys, -, hkeys, heq⟩ := insertResourceEvents_eq I events
  rw [heq, List.mem_filterMap]
  constructor
  · intro ⟨k, _, hfind⟩
    rw [List.find?_map, Option.map_eq_some_iff] at hfind
    obtain ⟨e, he, hr⟩ := hfind
    obtain ⟨hhash, before, later, hsplit, hbefore⟩ := List.find?_eq_some_iff_append.mp he
    have hk : resourceEventIdentityPkey I e.toResourceEvent = k := of_decide_eq_true hhash
    refine ⟨before, e, later, hsplit, hr.symm, ?_⟩
    intro d hd
    rw [hk]
    exact of_decide_eq_false (Bool.not_eq_true' _ ▸ hbefore d hd)
  · intro ⟨before, e, later, hsplit, hr, hbefore⟩
    refine ⟨resourceEventIdentityPkey I e.toResourceEvent, ?_, ?_⟩
    · apply (hkeys _).mpr
      refine ⟨toRow I e, List.mem_map_of_mem ?_, rfl⟩
      rw [hsplit]
      simp
    · rw [List.find?_map, hr, Option.map_eq_some_iff]
      refine ⟨e, List.find?_eq_some_iff_append.mpr ⟨by simp, before, later, hsplit, ?_⟩,
        rfl⟩
      intro d hd
      exact (Bool.not_eq_true' _).mpr (decide_eq_false (hbefore d hd))

theorem nodup_insertResourceEvents :
    ((insertResourceEvents I events).map (·.eventHash)).Nodup := by
  obtain ⟨keys, hnodup, -, heq⟩ := insertResourceEvents_eq I events
  rw [heq, List.map_filterMap]
  have hkey : ∀ k d, ((((withinTtl I events).map (toRow I)).find? (·.eventHash = k)).map
      (·.eventHash)) = some d → d = k := by
    intro k d hd
    rw [Option.map_eq_some_iff] at hd
    obtain ⟨r, hr, rfl⟩ := hd
    simpa using List.find?_some hr
  exact hnodup.filterMap fun k j d hk hj => by
    rw [← hkey k d hk, ← hkey j d hj]

/-- An event within the time to live has a first one with its identity. -/
theorem exists_first (e : NormalizedEvent) (he : e ∈ withinTtl I events) :
    ∃ r ∈ insertResourceEvents I events,
      r.eventHash = resourceEventIdentityPkey I e.toResourceEvent := by
  have hsome : ((withinTtl I events).find? fun d => resourceEventIdentityPkey I d.toResourceEvent =
      resourceEventIdentityPkey I e.toResourceEvent).isSome := by
    rw [List.find?_isSome]
    exact ⟨e, he, by simp⟩
  obtain ⟨first, hfirst⟩ := Option.isSome_iff_exists.mp hsome
  obtain ⟨hhash, before, later, hsplit, hbefore⟩ := List.find?_eq_some_iff_append.mp hfirst
  have hk : resourceEventIdentityPkey I first.toResourceEvent =
      resourceEventIdentityPkey I e.toResourceEvent := by simpa using hhash
  refine ⟨toRow I first, (mem_insertResourceEvents I events _).mpr
    ⟨before, first, later, hsplit, rfl, ?_⟩, hk⟩
  intro d hd
  rw [hk]
  simpa using hbefore d hd

/-- The oldest events are kept exactly when the events that share an identity come oldest
first. -/
theorem insertResourceEvents_iff : KeepsOldest I events ↔ FirstIsOldest I events := by
  constructor
  · intro h before e later hsplit hbefore d hd hhash
    have hrow : toRow I e ∈ insertResourceEvents I events :=
      (mem_insertResourceEvents I events _).mpr ⟨before, e, later, hsplit, rfl, hbefore⟩
    have hmem : d ∈ withinTtl I events := by
      rw [hsplit]
      simp [hd]
    exact h.oldest (toRow I e) hrow d hmem hhash
  · intro h
    constructor
    · exact nodup_insertResourceEvents I events
    · exact exists_first I events
    · intro r hr
      obtain ⟨before, e, later, hsplit, hre, -⟩ := (mem_insertResourceEvents I events r).mp hr
      refine ⟨e, ?_, hre⟩
      rw [hsplit]
      simp
    · intro r hr d hd hhash
      obtain ⟨before, e, later, hsplit, hre, hbefore⟩ := (mem_insertResourceEvents I events r).mp hr
      rw [hre] at hhash ⊢
      rw [hsplit] at hd
      obtain hd | hd := List.mem_append.mp hd
      · exact absurd hhash (hbefore d hd)
      · obtain rfl | hd := List.mem_cons.mp hd
        · exact le_refl _
        · exact h before e later hsplit hbefore d hd hhash

end Oldest

/-- An event of `File[/etc/motd]` at a time. -/
def motdEvent (t : Instant) : NormalizedEvent where
  resourceType := "File"
  resourceTitle := "/etc/motd"
  property := some "content"
  timestamp := t
  status := "success"
  oldValue := none
  newValue := none
  message := none
  file := none
  line := none
  name := none
  containmentPath := none
  containingClass := none
  correctiveChange := none

/-- Two events of a report 400 µs apart, the later one first. -/
theorem insertResourceEvents_fails :
    ¬ ∀ (I : Insertion (Nat × ResourceEvent)) (events : List NormalizedEvent),
      KeepsOldest I events := by
  intro h
  let I : Insertion (Nat × ResourceEvent) :=
    ⟨fun id e => (id, e), 1, 1, none, true, true, fun _ => 0⟩
  have hk := (h I [motdEvent 1000500000, motdEvent 1000100000]).oldest
    (toRow I (motdEvent 1000500000)) (by decide +kernel) (motdEvent 1000100000) (by decide +kernel)
      (by decide +kernel)
  exact absurd hk (by decide)

end OpenVoxDB.ResourceEvents
